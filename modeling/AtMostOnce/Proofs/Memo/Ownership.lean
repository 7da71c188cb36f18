import AtMostOnce.Proofs.Memo.Keeper
import Mathlib

/-! Ownership of claims. A claim is owned by the number of the look-up that has made it: until it is
settled under that number nothing takes it away, and after that the number is worth nothing. -/
namespace AtMostOnce
variable {V M : Type}

/-- The request commits or releases the id under the given number. -/
def Request.Settles (r : Request V M) (id : RequestId) (g : Nat) : Prop :=
  r = .release id g ∨ ∃ o, r = .commit id g o

namespace Ledger
variable {l : Ledger V M} {id : RequestId} {g : Nat} {marker : M}

/-- The number has been given to a look-up, and it holds no claim. -/
structure Spent (l : Ledger V M) (g : Nat) : Prop where
  issued : g < l.nextGeneration
  free : ∀ id marker, l.claims.find? id ≠ some (g, marker)

theorem Spent.isClaimedBy_eq_false (h : l.Spent g) (id : RequestId) :
    l.isClaimedBy id g = false := by
  have hnot : ¬l.isClaimedBy id g = true := by
    rw [isClaimedBy_eq_true_iff]
    simp [h.free]
  simpa using hnot

/-- Claims given up by others are none of this id's. -/
theorem find?_of_settled (h : l.claims.find? id = some (g, marker)) {id' : RequestId} {g' : Nat}
    (other : ¬(id' = id ∧ g' = g)) :
    (if l.isClaimedBy id' g' then l.claims.erase id' else l.claims).find? id =
      some (g, marker) := by
  split
  · rename_i hclaimed
    obtain ⟨marker', hf⟩ := (l.isClaimedBy_eq_true_iff id' g').mp hclaimed
    have hne : id ≠ id' := by
      intro heq
      rw [← heq, h] at hf
      cases hf
      exact other ⟨heq.symm, rfl⟩
    rw [Table.find?_erase, if_neg hne, h]
  · exact h

/-- What does not settle a claim leaves it where it is. -/
theorem find?_claims_serve (h : l.claims.find? id = some (g, marker)) (now : Instant)
    (r : Request V M) (unsettled : ¬r.Settles id g) :
    (Ledger.keeper.serve now l r).2.2.claims.find? id = some (g, marker) := by
  cases r with
  | lookup id' marker' =>
    show (l.lookup now id' marker').2.claims.find? id = _
    rcases claims_lookup l now id' marker' with hsame | ⟨hfree, hnew⟩
    · rw [hsame, h]
    · have hne : id ≠ id' := by
        intro heq
        rw [← heq, h] at hfree
        cases hfree
      rw [hnew, Table.find?_insert, if_neg hne, h]
  | commit id' g' o =>
    show (l.commit now id' g' o).claims.find? id = _
    rw [claims_commit]
    refine find?_of_settled h ?_
    rintro ⟨rfl, rfl⟩
    exact unsettled (.inr ⟨o, rfl⟩)
  | release id' g' =>
    show (l.release id' g').claims.find? id = _
    rw [claims_release]
    refine find?_of_settled h ?_
    rintro ⟨rfl, rfl⟩
    exact unsettled (.inl rfl)
  | purge => exact h
  | advance d => exact h

theorem issued_serve (h : g < l.nextGeneration) (now : Instant) (r : Request V M) :
    g < (Ledger.keeper.serve now l r).2.2.nextGeneration := by
  cases r with
  | lookup id marker =>
    have hnext := nextGeneration_lookup l now id marker
    show g < (l.lookup now id marker).2.nextGeneration
    omega
  | commit id g' o => exact (nextGeneration_commit now id g' o l).symm ▸ h
  | release id g' => exact (nextGeneration_release id g' l).symm ▸ h
  | purge => exact h
  | advance d => exact h

/-- A number once spent stays so. -/
theorem Spent.serve (h : l.Spent g) (now : Instant) (r : Request V M) :
    (Ledger.keeper.serve now l r).2.2.Spent g := by
  refine ⟨issued_serve h.issued now r, ?_⟩
  have given_up : ∀ (p : Bool) (id' : RequestId) id marker,
      (if p then l.claims.erase id' else l.claims).find? id ≠ some (g, marker) := by
    intro p id' id marker hf
    cases p with
    | true => exact h.free id marker (find?_erase_claims id' id _ hf)
    | false => exact h.free id marker hf
  intro id marker
  cases r with
  | lookup id' marker' =>
    show (l.lookup now id' marker').2.claims.find? id ≠ _
    rcases claims_lookup l now id' marker' with hsame | ⟨-, hnew⟩
    · rw [hsame]
      exact h.free id marker
    · intro hf
      rw [hnew, Table.find?_insert] at hf
      split at hf
      · have hissued := h.issued
        simp only [Option.some.injEq, Prod.mk.injEq] at hf
        omega
      · exact h.free id marker hf
  | commit id' g' o =>
    show (l.commit now id' g' o).claims.find? id ≠ _
    rw [claims_commit]
    exact given_up _ id' id marker
  | release id' g' =>
    show (l.release id' g').claims.find? id ≠ _
    rw [claims_release]
    exact given_up _ id' id marker
  | purge => exact h.free id marker
  | advance d => exact h.free id marker

/-- The owner settles its claim, and has spent its number. -/
theorem spent_serve_of_settles (hl : l.Sound) (h : l.claims.find? id = some (g, marker))
    (now : Instant) {r : Request V M} (settles : r.Settles id g) :
    (Ledger.keeper.serve now l r).2.2.Spent g := by
  refine ⟨issued_serve (hl.issued id g marker h) now r, ?_⟩
  have hclaimed : l.isClaimedBy id g = true :=
    (l.isClaimedBy_eq_true_iff id g).mpr ⟨marker, h⟩
  have claims : (Ledger.keeper.serve now l r).2.2.claims = l.claims.erase id := by
    rcases settles with rfl | ⟨o, rfl⟩
    · show (l.release id g).claims = _
      rw [claims_release, if_pos hclaimed]
    · show (l.commit now id g o).claims = _
      rw [claims_commit, if_pos hclaimed]
  intro id' marker' hf
  rw [claims, Table.find?_erase] at hf
  split at hf
  · cases hf
  · rename_i hne
    exact hne (hl.single id' id g marker' marker hf h)

theorem sound_serve (hl : l.Sound) (now : Instant) (r : Request V M) :
    (Ledger.keeper.serve now l r).2.2.Sound := by
  cases r with
  | lookup id marker => exact hl.lookup now id marker
  | commit id g o => exact hl.commit now id g o
  | release id g => exact hl.release id g
  | purge => exact hl.purge now
  | advance d => exact hl

theorem Spent.after (h : l.Spent g) (now : Instant) (rs : List (Request V M)) :
    (Ledger.keeper.after now l rs).2.Spent g := by
  induction rs generalizing now l with
  | nil => exact h
  | cons r rs ih => exact ih (h.serve now r) _

/-- A claim is held until a request settles it, and then its number is spent. -/
theorem held_or_spent (hl : l.Sound) (h : l.claims.find? id = some (g, marker)) (now : Instant)
    (rs : List (Request V M)) :
    ((∀ r ∈ rs, ¬r.Settles id g) →
      (Ledger.keeper.after now l rs).2.claims.find? id = some (g, marker)) ∧
    ((∃ r ∈ rs, r.Settles id g) → (Ledger.keeper.after now l rs).2.Spent g) := by
  induction rs generalizing now l with
  | nil => exact ⟨fun _ => h, by simp⟩
  | cons r rs ih =>
    simp only [List.forall_mem_cons, List.exists_mem_cons_iff]
    by_cases settles : r.Settles id g
    · have spent := (spent_serve_of_settles hl h now settles).after
        (Ledger.keeper.serve now l r).2.1 rs
      exact ⟨fun unsettled => absurd settles unsettled.1, fun _ => spent⟩
    · obtain ⟨held, spent⟩ := ih (sound_serve hl now r)
        (find?_claims_serve h now r settles) (Ledger.keeper.serve now l r).2.1
      exact ⟨fun unsettled => held unsettled.2, fun hs => spent (hs.resolve_left settles)⟩

theorem issued_after (h : g < l.nextGeneration) (now : Instant) (rs : List (Request V M)) :
    g < (Ledger.keeper.after now l rs).2.nextGeneration := by
  induction rs generalizing now l with
  | nil => exact h
  | cons r rs ih => exact ih (issued_serve h now r) _

end Ledger

namespace Memo
variable {m : Memo V M} {now : Instant} {id : RequestId} {g : Nat} {marker : M}

/-- A memory is left as it is by a release under a number that does not own the claim. -/
theorem release_of_not_owner (h : ∀ marker, m.slots.find? id ≠ some (.claimed g marker)) :
    m.release id g = m := by
  have hnot : ¬m.isClaimedBy id g = true := by
    rw [isClaimedBy_eq_true_iff]
    simpa using h
  rw [release, if_neg hnot]

theorem lookup_of_claims (h : m.ledger.claims.find? id = some (g, marker)) (now : Instant)
    (marker' : M) : (m.lookup now id marker').1 = .pending marker := by
  have hslot := (m.find?_claims_eq_some_iff id g marker).mp h
  rw [lookup, hslot]

/-- No look-up is granted a number that has been given already. -/
theorem lookup_ne_claimed (h : m.Sound) (hl : m.ledger.Sound) (issued : g < m.nextGeneration)
    (now : Instant) (id : RequestId) (marker : M) : (m.lookup now id marker).1 ≠ .claimed g := by
  intro hg
  obtain ⟨-, he⟩ := h.lookup hl now id marker
  rw [hg] at he
  have hnext : g = m.nextGeneration := (Ledger.lookup_of_claimed hl he).1
  omega

/-- Nothing that is done under a spent number touches a claim. -/
theorem find?_commit_of_spent (h : m.Sound) (spent : m.ledger.Spent g) (now : Instant)
    (id : RequestId) (o : Outcome V) (id' : RequestId) (g' : Nat) (marker : M) :
    (m.commit now id g o).slots.find? id' = some (.claimed g' marker) ↔
      m.slots.find? id' = some (.claimed g' marker) := by
  obtain ⟨-, hc⟩ := h.commit now id g o
  have hnot : ¬m.ledger.isClaimedBy id g = true := by simp [spent.isClaimedBy_eq_false id]
  rw [← find?_claims_eq_some_iff, ← find?_claims_eq_some_iff, hc, Ledger.claims_commit,
    if_neg hnot]

/-- Only its owner settles a claim. Once a look-up has been granted a number, no other is granted
it. Until the id is committed or released under that number, whatever else is asked and however much
time passes, every look-up of the id finds the claim and its marker. After that, what is committed
or released under the number changes no claim. A release by anybody but the owner changes nothing at
all. -/
theorem settled_by_owner (maxSize ttl : Nat) (start : Instant) (before rs : List (Request V M))
    (id : RequestId) (marker : M) (g : Nat) {s : Instant × Memo V M}
    (reached : s = Memo.keeper.after start { maxSize := maxSize, ttl := ttl } before)
    (granted : (s.2.lookup s.1 id marker).1 = .claimed g) :
    let t : Instant × Memo V M := Memo.keeper.after s.1 (s.2.lookup s.1 id marker).2 rs
    (∀ id' marker', (t.2.lookup t.1 id' marker').1 ≠ .claimed g) ∧
    ((∀ r ∈ rs, ¬r.Settles id g) → ∀ marker', (t.2.lookup t.1 id marker').1 = .pending marker) ∧
    ((∃ r ∈ rs, r.Settles id g) → ∀ id', t.2.release id' g = t.2 ∧ ∀ o id'' g' marker',
      (t.2.commit t.1 id' g o).slots.find? id'' = some (.claimed g' marker') ↔
        t.2.slots.find? id'' = some (.claimed g' marker')) ∧
    ∀ (m : Memo V M) id' g', (∀ marker', m.slots.find? id' ≠ some (.claimed g' marker')) →
      m.release id' g' = m := by
  intro t
  obtain ⟨hm, hl, -⟩ := after_ledger (sound_new maxSize ttl) (Ledger.sound_new maxSize ttl)
    start before
  rw [← reached] at hm hl
  obtain ⟨hm₁, he⟩ := hm.lookup hl s.1 id marker
  have hl₁ := hl.lookup s.1 id marker
  rw [he] at hl₁
  rw [granted] at he
  obtain ⟨-, -, -, -, -, -, hclaims, hnext⟩ := Ledger.lookup_of_claimed hl he
  have held : (s.2.lookup s.1 id marker).2.ledger.claims.find? id = some (g, marker) := by
    rw [hclaims, Table.find?_insert, if_pos rfl]
  have issued : g < (s.2.lookup s.1 id marker).2.ledger.nextGeneration := by
    rw [hnext]
    exact Nat.lt_succ_self g
  obtain ⟨hmt, hlt, ht⟩ := after_ledger hm₁ hl₁ s.1 rs
  obtain ⟨pending, spent⟩ := Ledger.held_or_spent hl₁ held s.1 rs
  have issuedₜ := Ledger.issued_after issued s.1 rs
  rw [ht] at pending spent issuedₜ
  refine ⟨?_, ?_, ?_, fun m id' g' => release_of_not_owner⟩
  · exact lookup_ne_claimed hmt hlt issuedₜ t.1
  · exact fun unsettled => lookup_of_claims (pending unsettled) t.1
  · intro settled id'
    have hspent : t.2.ledger.Spent g := spent settled
    refine ⟨release_of_not_owner fun marker' hf => ?_, find?_commit_of_spent hmt hspent t.1 id'⟩
    exact hspent.free id' marker' ((t.2.find?_claims_eq_some_iff id' g marker').mpr hf)

/-- A claim outlives a stale commit, which evicts, and all that is asked under other numbers, until
its owner commits. -/
theorem settled_by_owner_of_reclaimed :
    let s : Instant × Memo Nat String := Memo.keeper.after 0 { maxSize := 1, ttl := 10 }
      [.lookup ⟨"a"⟩ "first", .release ⟨"a"⟩ 0, .lookup ⟨"b"⟩ "other",
        .commit ⟨"b"⟩ 1 (.success 7)]
    let rs : List (Request Nat String) := [.commit ⟨"a"⟩ 0 (.success 8), .release ⟨"a"⟩ 0,
      .lookup ⟨"c"⟩ "third", .advance 20, .purge]
    let settled := rs ++ [.commit ⟨"a"⟩ 2 (.success 9), .advance 20, .lookup ⟨"a"⟩ "fourth"]
    let t := Memo.keeper.after s.1 (s.2.lookup s.1 ⟨"a"⟩ "second").2 rs
    let u := Memo.keeper.after s.1 (s.2.lookup s.1 ⟨"a"⟩ "second").2 settled
    (s.2.lookup s.1 ⟨"a"⟩ "second").1 = .claimed 2 ∧ t.2.evictions = 1 ∧
      (t.2.lookup t.1 ⟨"a"⟩ "fifth").1 = .pending "second" ∧
      u.2.slots.find? ⟨"a"⟩ = some (.claimed 4 "fourth") ∧ u.2.release ⟨"a"⟩ 2 = u.2 ∧
      (u.2.commit u.1 ⟨"a"⟩ 2 (.success 9)).slots.find? ⟨"a"⟩ = some (.claimed 4 "fourth") := by
  intro s rs settled t u
  have granted : (s.2.lookup s.1 ⟨"a"⟩ "second").1 = .claimed 2 := by
    simp only [s]
    cbv
  have evicted : t.2.evictions = 1 := by
    simp only [t, rs, s]
    cbv
  have reclaimed : u.2.slots.find? ⟨"a"⟩ = some (.claimed 4 "fourth") := by
    simp only [u, settled, rs, s]
    cbv
  obtain ⟨-, pending, -⟩ := settled_by_owner 1 10 0 _ rs ⟨"a"⟩ "second" 2 (s := s) rfl granted
  obtain ⟨-, -, spent, -⟩ :=
    settled_by_owner 1 10 0 _ settled ⟨"a"⟩ "second" 2 (s := s) rfl granted
  have unsettled : ∀ r ∈ rs, ¬r.Settles ⟨"a"⟩ 2 := by simp [rs, Request.Settles]
  have settles : ∃ r ∈ settled, r.Settles ⟨"a"⟩ 2 :=
    ⟨.commit ⟨"a"⟩ 2 (.success 9), by simp [settled], .inr ⟨_, rfl⟩⟩
  obtain ⟨released, committed⟩ := spent settles ⟨"a"⟩
  exact ⟨granted, evicted, pending unsettled "fifth", reclaimed, released,
    (committed _ _ _ _).mpr reclaimed⟩

end Memo
end AtMostOnce
