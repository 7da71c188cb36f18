import AtMostOnce.Proofs.Memo.Room

/-! The balance of a memory. Every claim that is granted ends in an outcome, is given up or is still
held, and every outcome that is accepted is held, has been evicted or has expired. -/
namespace AtMostOnce
variable {V M : Type}

namespace Keeper
variable {σ : Type}

/-- How many of the requests are of a kind, each of them judged in the state in which it is
served. -/
def tally (k : Keeper σ V M) (kind : Instant → σ → Request V M → Bool) (now : Instant) (s : σ) :
    List (Request V M) → Nat
  | [] => 0
  | r :: rs =>
    (kind now s r).toNat + tally k kind (k.serve now s r).2.1 (k.serve now s r).2.2 rs

end Keeper

namespace Ledger
variable {l l' : Ledger V M} {now : Instant} {id : RequestId} {marker : M}

/-- The number of executions that a ledger has to show for. -/
def volume (l : Ledger V M) : Nat :=
  l.claims.size + l.written.length + l.evictions + l.expirations

theorem volume_dropOldest (now : Instant) (l : Ledger V M) :
    (l.dropOldest now).volume = l.volume := by
  unfold dropOldest volume
  split
  · rfl
  · rename_i w ws hw
    split <;> simp only [hw, List.length_cons] <;> omega

theorem volume_makeRoom (now : Instant) (l : Ledger V M) : (l.makeRoom now).volume = l.volume := by
  fun_induction makeRoom now l with
  | case1 l h ih => rw [ih, volume_dropOldest]
  | case2 l h => rfl

theorem volume_purge (now : Instant) (l : Ledger V M) : (l.purge now).2.volume = l.volume := by
  have hl := length_purge l now
  simp only [volume, purge] at hl ⊢
  omega

theorem volume_commit {g : Nat} (h : l.claims.find? id = some (g, marker)) (now : Instant)
    (o : Outcome V) : (l.commit now id g o).volume = l.volume := by
  have hs := Table.size_erase h
  have hv := volume_makeRoom now l
  rw [commit_of_claim h]
  simp only [volume, claims_makeRoom, List.length_append, List.length_singleton] at hv ⊢
  omega

/-- A commit that is refused makes room all the same. -/
theorem commit_of_refused {g : Nat} (h : l.isClaimedBy id g = false) (now : Instant)
    (o : Outcome V) : l.commit now id g o = l.makeRoom now := by
  have hc : (l.makeRoom now).isClaimedBy id g = false := by
    rw [← h]
    simp only [isClaimedBy, claims_makeRoom]
  unfold commit
  dsimp only
  rw [hc, if_neg Bool.false_ne_true]

theorem volume_release {g : Nat} (h : l.claims.find? id = some (g, marker)) :
    (l.release id g).volume + 1 = l.volume := by
  have hs := Table.size_erase h
  rw [release_of_claim h]
  simp only [volume]
  omega

/-- A claim that is granted takes the place of an expired outcome, or of nothing. -/
theorem volume_of_claimed {n : Nat} (hl : l.Sound)
    (h : l.lookup now id marker = (.claimed n, l')) : l'.volume = l.volume + 1 := by
  unfold lookup at h
  split at h
  · cases h
  rename_i hf
  have hsize : ∀ c, (l.claims.insert id c).size = l.claims.size + 1 := Table.size_insert hf
  split at h
  · cases h
    simp only [volume, hsize]
    omega
  · rename_i w hw
    split at h
    · cases h
      have hm := List.mem_of_find?_eq_some hw
      have hid : w.id = id := by simpa using List.find?_some hw
      have hone := length_filter_ne hl.distinct hm
      rw [hid] at hone
      simp only [volume, hsize]
      omega
    · cases h

end Ledger

namespace Memo
variable {m : Memo V M} {now : Instant} {id : RequestId} {g : Nat}

/-- A look-up that is answered with a claim. -/
def grants (now : Instant) (m : Memo V M) : Request V M → Bool
  | .lookup id marker =>
    match (m.lookup now id marker).1 with
    | .claimed _ => true
    | _ => false
  | _ => false

/-- A commit whose write has left an outcome. -/
def accepts (now : Instant) (m : Memo V M) : Request V M → Bool
  | .commit id g o => ((m.commit now id g o).entryOf? id m.order.next).isSome
  | _ => false

/-- A release that empties a slot. -/
def frees (_ : Instant) (m : Memo V M) : Request V M → Bool
  | .release id g => (m.slots.find? id).isSome && ((m.release id g).slots.find? id).isNone
  | _ => false

/-- All outcomes that a memory has to show for. -/
def outcomes (m : Memo V M) : Nat := m.size + m.evictions + m.expirations

/-- A write leaves its outcome if the claim is held for which it is made. -/
theorem Sound.accepts_commit (h : m.Sound) (now : Instant) (id : RequestId) (g : Nat)
    (o : Outcome V) : m.accepts now (.commit id g o) = m.isClaimedBy id g := by
  obtain ⟨hs, -⟩ := h.commit now id g o
  obtain ⟨hr, -⟩ := h.makeRoom now
  obtain ⟨records, slots, -⟩ := h.commit_of_makeRoom now id g o
  rw [next_makeRoom] at records slots
  cases hc : m.isClaimedBy id g with
  | true =>
    have hf := slots id
    rw [if_pos ⟨hc, rfl⟩] at hf
    rw [accepts, (entryOf?_eq_some_iff _ id _ _).mpr ⟨hf, rfl⟩]
    rfl
  | false =>
    rw [hc, if_neg Bool.false_ne_true, List.append_nil] at records
    have hnone : (m.commit now id g o).entryOf? id m.order.next = none := by
      cases he : (m.commit now id g o).entryOf? id m.order.next with
      | none => rfl
      | some e =>
        have hrecord := (hs.recorded m.order.next id).mpr ⟨e, he⟩
        rw [records] at hrecord
        have hlt := hr.bounded _ hrecord
        rw [next_makeRoom] at hlt
        exact absurd hlt (Nat.lt_irrefl _)
    rw [accepts, hnone]
    rfl

theorem frees_release (m : Memo V M) (now : Instant) (id : RequestId) (g : Nat) :
    m.frees now (.release id g) = m.isClaimedBy id g := by
  show ((m.slots.find? id).isSome && ((m.release id g).slots.find? id).isNone) = _
  unfold release
  cases hc : m.isClaimedBy id g with
  | true =>
    obtain ⟨marker, hf⟩ := (m.isClaimedBy_eq_true_iff id g).mp hc
    rw [if_pos rfl, hf, Table.find?_erase, if_pos rfl]
    rfl
  | false =>
    rw [if_neg Bool.false_ne_true]
    cases m.slots.find? id <;> rfl

namespace Sound

theorem volume_eq (h : m.Sound) : m.ledger.volume = m.outcomes + m.inFlight := by
  have hsize := h.length_written
  rw [outcomes, inFlight_eq_size, Ledger.volume, hsize]
  show _ + m.evictions + m.expirations = _
  omega

section
variable (h : m.Sound) (now : Instant)
include h

/-- A claim is granted to one look-up more, or to none. -/
theorem balance_lookup (hl : m.ledger.Sound) (id : RequestId) (marker : M) :
    (m.lookup now id marker).2.ledger.volume =
        m.ledger.volume + (m.grants now (.lookup id marker)).toNat ∧
      (m.lookup now id marker).2.inFlight =
        m.inFlight + (m.grants now (.lookup id marker)).toNat := by
  obtain ⟨-, he⟩ := h.lookup hl now id marker
  rw [inFlight_eq_size, inFlight_eq_size, grants]
  generalize m.lookup now id marker = r at he
  obtain ⟨found, m'⟩ := r
  cases found with
  | live o =>
    obtain ⟨-, -, hsame⟩ := Ledger.lookup_of_live he
    rw [hsame]
    exact ⟨rfl, rfl⟩
  | pending other =>
    obtain ⟨-, hsame⟩ := Ledger.lookup_of_pending he
    rw [hsame]
    exact ⟨rfl, rfl⟩
  | claimed n =>
    obtain ⟨-, hfree, -, -, -, -, hclaims, -⟩ := Ledger.lookup_of_claimed hl he
    rw [Ledger.volume_of_claimed hl he, hclaims, Table.size_insert hfree]
    exact ⟨rfl, rfl⟩

/-- An outcome that is accepted takes the place of a claim. -/
theorem balance_commit (id : RequestId) (g : Nat) (o : Outcome V) :
    (m.commit now id g o).ledger.volume = m.ledger.volume ∧
      (m.commit now id g o).inFlight + (m.accepts now (.commit id g o)).toNat = m.inFlight := by
  obtain ⟨-, he⟩ := h.commit now id g o
  rw [inFlight_eq_size, inFlight_eq_size, h.accepts_commit, ← isClaimedBy_ledger, he]
  cases hc : m.ledger.isClaimedBy id g with
  | true =>
    obtain ⟨marker, hf⟩ := (m.ledger.isClaimedBy_eq_true_iff id g).mp hc
    rw [Ledger.volume_commit hf, Ledger.claims_commit, if_pos hc]
    exact ⟨rfl, Table.size_erase hf⟩
  | false =>
    rw [Ledger.commit_of_refused hc, Ledger.volume_makeRoom, Ledger.claims_makeRoom]
    exact ⟨rfl, rfl⟩

/-- A release that frees a slot gives up a claim. -/
theorem balance_release (id : RequestId) (g : Nat) :
    (m.release id g).ledger.volume + (m.frees now (.release id g)).toNat = m.ledger.volume ∧
      (m.release id g).inFlight + (m.frees now (.release id g)).toNat = m.inFlight := by
  obtain ⟨-, he⟩ := h.release id g
  rw [inFlight_eq_size, inFlight_eq_size, frees_release, ← isClaimedBy_ledger, he]
  cases hc : m.ledger.isClaimedBy id g with
  | true =>
    obtain ⟨marker, hf⟩ := (m.ledger.isClaimedBy_eq_true_iff id g).mp hc
    rw [Ledger.claims_release, if_pos hc]
    exact ⟨Ledger.volume_release hf, Table.size_erase hf⟩
  | false =>
    rw [Ledger.release, hc, if_neg Bool.false_ne_true]
    exact ⟨rfl, rfl⟩

theorem balance_purge :
    (m.purge now).2.ledger.volume = m.ledger.volume ∧ (m.purge now).2.inFlight = m.inFlight := by
  obtain ⟨-, he⟩ := h.purge now
  have hview : (m.purge now).2.ledger = (m.ledger.purge now).2 := congrArg Prod.snd he.symm
  rw [inFlight_eq_size, inFlight_eq_size, hview, Ledger.volume_purge]
  exact ⟨rfl, rfl⟩

/-- What a request adds to the outcomes and to the claims of a memory. -/
theorem balance_serve (hl : m.ledger.Sound) (r : Request V M) :
    (Memo.keeper.serve now m r).2.2.outcomes = m.outcomes + (m.accepts now r).toNat ∧
      (Memo.keeper.serve now m r).2.2.inFlight + (m.accepts now r).toNat + (m.frees now r).toNat =
        m.inFlight + (m.grants now r).toNat := by
  obtain ⟨hs, -, -⟩ := serve_ledger h hl now r
  have hvolume := h.volume_eq
  have hvolume' := hs.volume_eq
  -- Each kind of request is of one of the three kinds counted at most.
  cases r with
  | lookup id marker =>
    obtain ⟨hv, hc⟩ := h.balance_lookup now hl id marker
    simp only [Keeper.serve, Memo.keeper, accepts, frees, Bool.toNat_false] at hvolume' ⊢
    omega
  | commit id g o =>
    obtain ⟨hv, hc⟩ := h.balance_commit now id g o
    simp only [Keeper.serve, Memo.keeper, frees, grants, Bool.toNat_false] at hvolume' ⊢
    omega
  | release id g =>
    obtain ⟨hv, hc⟩ := h.balance_release now id g
    simp only [Keeper.serve, Memo.keeper, accepts, grants, Bool.toNat_false] at hvolume' ⊢
    omega
  | purge =>
    obtain ⟨hv, hc⟩ := h.balance_purge now
    simp only [Keeper.serve, Memo.keeper, accepts, frees, grants, Bool.toNat_false] at hvolume' ⊢
    omega
  | advance d => exact ⟨rfl, rfl⟩

theorem balance_after (hl : m.ledger.Sound) (rs : List (Request V M)) :
    (Memo.keeper.after now m rs).2.outcomes = m.outcomes + Memo.keeper.tally accepts now m rs ∧
      (Memo.keeper.after now m rs).2.inFlight + Memo.keeper.tally accepts now m rs +
          Memo.keeper.tally frees now m rs =
        m.inFlight + Memo.keeper.tally grants now m rs := by
  induction rs generalizing now m with
  | nil => exact ⟨rfl, rfl⟩
  | cons r rs ih =>
    obtain ⟨hs, hl', -⟩ := serve_ledger h hl now r
    obtain ⟨houtcomes, hclaims⟩ := h.balance_serve now hl r
    obtain ⟨houtcomes', hclaims'⟩ := ih hs (Memo.keeper.serve now m r).2.1 hl'
    simp only [Keeper.after, Keeper.tally]
    omega

end

/-- A commit that is refused makes room, and does nothing else. -/
theorem counts_of_refused (h : m.Sound) (hd : m.ledger.Dated now)
    (fits : m.size ≤ max 1 m.maxSize) {o : Outcome V}
    (refused : m.accepts now (.commit id g o) = false) :
    let later := m.commit now id g o
    later.inFlight = m.inFlight ∧
      (later.size = m.size ∧ later.evictions = m.evictions ∧ later.expirations = m.expirations ∨
        later.size + 1 = m.size ∧
          (later.evictions = m.evictions + 1 ∧ later.expirations = m.expirations ∨
            later.evictions = m.evictions ∧ later.expirations = m.expirations + 1)) := by
  intro later
  have hclaims := (h.balance_commit now id g o).2
  rw [refused] at hclaims
  refine ⟨hclaims, ?_⟩
  have hfree : m.isClaimedBy id g = false := h.accepts_commit now id g o ▸ refused
  obtain ⟨victim, gives, relieved⟩ := h.givesWay_makeRoom hd fits
  obtain ⟨records, -, evictions, expirations⟩ := h.commit_of_makeRoom now id g o
  rw [hfree, if_neg Bool.false_ne_true, List.append_nil, relieved.records] at records
  rw [relieved.evictions] at evictions
  rw [relieved.expirations] at expirations
  have hsize : later.size = m.size - victim.toList.length :=
    (congrArg List.length records).trans List.length_drop
  cases gives with
  | none room => exact .inl ⟨hsize, evictions, expirations⟩
  | oldest id' e full =>
    have hone : later.size = m.size - 1 := hsize
    refine .inr ⟨by omega, ?_⟩
    simp only [Option.toList_some, List.countP_singleton] at evictions expirations
    cases hx : e.isExpired m.ttl now with
    | true =>
      rw [hx] at evictions expirations
      exact .inr ⟨evictions, expirations⟩
    | false =>
      rw [hx] at evictions expirations
      exact .inl ⟨evictions, expirations⟩

end Sound

/-- Nothing is lost and nothing is counted twice. Whatever a memory has been asked, under whatever
ids and numbers, each outcome that it has accepted is held, has been evicted or has expired, and
each claim that it has granted has ended in an accepted outcome, has been given up or is held. A
commit that is refused changes no claim and drops one outcome at most, which is counted as evicted
or as expired; a release that frees no slot changes nothing. -/
theorem nothing_lost (maxSize ttl : Nat) (start : Instant) (rs : List (Request V M)) :
    let m : Memo V M := { maxSize := maxSize, ttl := ttl }
    let now := (Memo.keeper.after start m rs).1
    let last := (Memo.keeper.after start m rs).2
    let accepted := Memo.keeper.tally accepts start m rs
    let granted := Memo.keeper.tally grants start m rs
    let freed := Memo.keeper.tally frees start m rs
    accepted = last.size + last.evictions + last.expirations ∧
    granted = accepted + freed + last.inFlight ∧
    (∀ id g o, last.accepts now (.commit id g o) = false →
      let later := last.commit now id g o
      later.inFlight = last.inFlight ∧
        (later.size = last.size ∧ later.evictions = last.evictions ∧
            later.expirations = last.expirations ∨
          later.size + 1 = last.size ∧
            (later.evictions = last.evictions + 1 ∧ later.expirations = last.expirations ∨
              later.evictions = last.evictions ∧ later.expirations = last.expirations + 1))) ∧
    ∀ id g, last.frees now (.release id g) = false → last.release id g = last := by
  intro m now last accepted granted freed
  have hm : m.Sound := sound_new maxSize ttl
  have hl : m.ledger.Sound := Ledger.sound_new maxSize ttl
  obtain ⟨houtcomes, hclaims⟩ := hm.balance_after start hl rs
  obtain ⟨sound, -, dated, -, -, fits⟩ := orderly_after maxSize ttl start rs
  have hnone : m.outcomes = 0 ∧ m.inFlight = 0 := ⟨rfl, rfl⟩
  refine ⟨?_, ?_, ?_, ?_⟩
  · change last.size + last.evictions + last.expirations = m.outcomes + accepted at houtcomes
    omega
  · change last.inFlight + accepted + freed = m.inFlight + granted at hclaims
    omega
  · exact fun id g o refused => sound.counts_of_refused dated fits refused
  · intro id g hkept
    rw [frees_release] at hkept
    rw [release, hkept, if_neg Bool.false_ne_true]

/-- Of three claims one is given up, one ends in an outcome and one is held. The commit with the
number that was given up is refused, and still drops the outcome, which has expired. -/
example :
    let m : Memo Nat Unit := { maxSize := 1, ttl := 10 }
    let rs : List (Request Nat Unit) := [.lookup ⟨"a"⟩ (), .release ⟨"a"⟩ 0, .lookup ⟨"b"⟩ (),
      .commit ⟨"b"⟩ 1 (.success 7), .lookup ⟨"a"⟩ (), .advance 10, .commit ⟨"a"⟩ 0 (.success 8)]
    let last := (Memo.keeper.after 0 m rs).2
    Memo.keeper.tally grants 0 m rs = 3 ∧ Memo.keeper.tally accepts 0 m rs = 1 ∧
      Memo.keeper.tally frees 0 m rs = 1 ∧ last.inFlight = 1 ∧ last.size = 0 ∧
      last.evictions = 0 ∧ last.expirations = 1 := by
  decide +kernel

end Memo
end AtMostOnce
