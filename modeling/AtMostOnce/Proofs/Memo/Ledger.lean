import AtMostOnce.Memo
import AtMostOnce.Proofs.Table

/-! Ledgers: memories kept as plainly as can be. A ledger lists the outcomes held in the order in
which they were written, and keeps the claims apart from them. -/
namespace AtMostOnce

structure Written (V : Type) where
  id : RequestId
  outcome : Outcome V
  writtenAt : Instant

def Written.isExpired {V : Type} (w : Written V) (ttl : Nat) (now : Instant) : Bool :=
  ttl ≤ now - w.writtenAt

theorem Written.isExpired_mono {V : Type} {w : Written V} {ttl : Nat} {now later : Instant}
    (h : now ≤ later) (hx : w.isExpired ttl now = true) : w.isExpired ttl later = true :=
  decide_eq_true (Nat.le_trans (of_decide_eq_true hx) (Nat.sub_le_sub_right h _))

@[ext]
structure Ledger (V M : Type) where
  maxSize : Nat
  ttl : Nat
  /-- The outcomes held, the oldest write first. -/
  written : List (Written V) := []
  /-- The claims held: the number of the look-up, and the marker that it has left. -/
  claims : Table RequestId (Nat × M) := .empty
  nextGeneration : Nat := 0
  evictions : Nat := 0
  expirations : Nat := 0

namespace Ledger
variable {V M : Type}

def claim (l : Ledger V M) (id : RequestId) (marker : M) : Lookup V M × Ledger V M :=
  (.claimed l.nextGeneration,
    { l with
      claims := l.claims.insert id (l.nextGeneration, marker)
      nextGeneration := l.nextGeneration + 1 })

def lookup (l : Ledger V M) (now : Instant) (id : RequestId) (marker : M) :
    Lookup V M × Ledger V M :=
  match l.claims.find? id with
  | some (_, other) => (.pending other, { l with nextGeneration := l.nextGeneration + 1 })
  | none =>
    match l.written.find? fun w => w.id = id with
    | none => l.claim id marker
    | some w =>
      if w.isExpired l.ttl now then
        { l with
          written := l.written.filter fun w => w.id ≠ id
          expirations := l.expirations + 1 }.claim id marker
      else (.live w.outcome, { l with nextGeneration := l.nextGeneration + 1 })

def dropOldest (now : Instant) (l : Ledger V M) : Ledger V M :=
  match l.written with
  | [] => l
  | w :: ws =>
    if w.isExpired l.ttl now then { l with written := ws, expirations := l.expirations + 1 }
    else { l with written := ws, evictions := l.evictions + 1 }

/-- Drops the oldest outcomes while there is no room for one more. -/
def makeRoom (now : Instant) (l : Ledger V M) : Ledger V M :=
  if max 1 l.maxSize ≤ l.written.length then (l.dropOldest now).makeRoom now else l
termination_by l.written.length
decreasing_by
  rename_i h
  unfold dropOldest
  split
  · rename_i hw
    rw [hw, List.length_nil] at h
    omega
  · rename_i hw
    rw [hw]
    split <;> exact Nat.lt_succ_self _

def isClaimedBy (l : Ledger V M) (id : RequestId) (generation : Nat) : Bool :=
  match l.claims.find? id with
  | some (g, _) => g = generation
  | none => false

def commit (l : Ledger V M) (now : Instant) (id : RequestId) (generation : Nat)
    (outcome : Outcome V) : Ledger V M :=
  let l := l.makeRoom now
  if l.isClaimedBy id generation then
    { l with written := l.written ++ [⟨id, outcome, now⟩], claims := l.claims.erase id }
  else l

def release (l : Ledger V M) (id : RequestId) (generation : Nat) : Ledger V M :=
  if l.isClaimedBy id generation then { l with claims := l.claims.erase id } else l

/-- Drops the oldest outcomes while they are expired, and counts them. -/
def purge (l : Ledger V M) (now : Instant) : Nat × Ledger V M :=
  let dropped := l.written.takeWhile fun w => w.isExpired l.ttl now
  (dropped.length,
    { l with
      written := l.written.dropWhile fun w => w.isExpired l.ttl now
      expirations := l.expirations + dropped.length })

theorem claims_dropOldest (now : Instant) (l : Ledger V M) :
    (l.dropOldest now).claims = l.claims := by
  unfold dropOldest
  split
  · rfl
  · split <;> rfl

theorem written_dropOldest (now : Instant) (l : Ledger V M) :
    (l.dropOldest now).written = l.written.tail := by
  unfold dropOldest
  split
  · rename_i h
    rw [h, List.tail_nil]
  · rename_i h
    rw [h, List.tail_cons]
    split <;> rfl

theorem repeat_dropOldest (now : Instant) (l : Ledger V M) (n : Nat) :
    Nat.repeat (dropOldest now) n (l.dropOldest now) = Nat.repeat (dropOldest now) (n + 1) l := by
  induction n with
  | zero => rfl
  | succ n ih =>
    show dropOldest now (Nat.repeat (dropOldest now) n (l.dropOldest now)) = _
    rw [ih]
    rfl

theorem fixed_dropOldest (now : Instant) (l : Ledger V M) :
    (l.dropOldest now).maxSize = l.maxSize ∧ (l.dropOldest now).ttl = l.ttl ∧
      (l.dropOldest now).nextGeneration = l.nextGeneration := by
  unfold dropOldest
  split
  · exact ⟨rfl, rfl, rfl⟩
  · split <;> exact ⟨rfl, rfl, rfl⟩

theorem claims_makeRoom (now : Instant) (l : Ledger V M) :
    (l.makeRoom now).claims = l.claims := by
  fun_induction makeRoom now l with
  | case1 l h ih => rw [ih, claims_dropOldest]
  | case2 l h => rfl

theorem fixed_makeRoom (now : Instant) (l : Ledger V M) :
    (l.makeRoom now).maxSize = l.maxSize ∧ (l.makeRoom now).ttl = l.ttl ∧
      (l.makeRoom now).nextGeneration = l.nextGeneration := by
  fun_induction makeRoom now l with
  | case1 l h ih =>
    obtain ⟨hm, ht, hg⟩ := fixed_dropOldest now l
    rw [hm, ht, hg] at ih
    exact ih
  | case2 l h => exact ⟨rfl, rfl, rfl⟩

theorem nextGeneration_commit (now : Instant) (id : RequestId) (g : Nat) (o : Outcome V)
    (l : Ledger V M) : (l.commit now id g o).nextGeneration = l.nextGeneration := by
  obtain ⟨-, -, hg⟩ := fixed_makeRoom now l
  unfold commit
  dsimp only
  split <;> exact hg

theorem nextGeneration_release (id : RequestId) (g : Nat) (l : Ledger V M) :
    (l.release id g).nextGeneration = l.nextGeneration := by
  unfold release
  split <;> rfl

theorem bounds_lookup (l : Ledger V M) (now : Instant) (id : RequestId) (marker : M) :
    (l.lookup now id marker).2.maxSize = l.maxSize ∧ (l.lookup now id marker).2.ttl = l.ttl := by
  unfold lookup
  split
  · exact ⟨rfl, rfl⟩
  split
  · exact ⟨rfl, rfl⟩
  split <;> exact ⟨rfl, rfl⟩

theorem bounds_commit (l : Ledger V M) (now : Instant) (id : RequestId) (g : Nat)
    (o : Outcome V) :
    (l.commit now id g o).maxSize = l.maxSize ∧ (l.commit now id g o).ttl = l.ttl := by
  obtain ⟨hm, ht, -⟩ := fixed_makeRoom now l
  unfold commit
  dsimp only
  split <;> exact ⟨hm, ht⟩

theorem release_eq (l : Ledger V M) (id : RequestId) (g : Nat) :
    l.release id g = { l with claims := (l.release id g).claims } := by
  unfold release
  split <;> rfl

/-- Room is made by dropping what is too much, and nothing else. -/
theorem written_makeRoom (now : Instant) (l : Ledger V M) :
    (l.makeRoom now).written = l.written.drop (l.written.length + 1 - max 1 l.maxSize) := by
  fun_induction makeRoom now l with
  | case1 l h ih =>
    rw [ih, (fixed_dropOldest now l).1, written_dropOldest]
    cases hw : l.written with
    | nil =>
      rw [hw, List.length_nil] at h
      omega
    | cons w ws =>
      rw [hw, List.length_cons] at h
      rw [List.tail_cons, List.length_cons,
        show ws.length + 1 + 1 - max 1 l.maxSize = ws.length + 1 - max 1 l.maxSize + 1 by omega,
        List.drop_succ_cons]
  | case2 l h =>
    rw [show l.written.length + 1 - max 1 l.maxSize = 0 by omega, List.drop_zero]

theorem purge_of_empty {l : Ledger V M} (hw : l.written = []) (now : Instant) :
    l.purge now = (0, l) := by
  simp only [purge, hw, List.takeWhile_nil, List.dropWhile_nil, List.length_nil]
  rw [← hw]
  rfl

theorem purge_of_expired {l : Ledger V M} {w : Written V} {ws : List (Written V)} {now : Instant}
    (hw : l.written = w :: ws) (hx : w.isExpired l.ttl now = true) :
    l.purge now =
      (((l.dropOldest now).purge now).1 + 1, ((l.dropOldest now).purge now).2) := by
  simp only [purge, dropOldest, hw, hx, if_true, List.takeWhile_cons, List.dropWhile_cons,
    List.length_cons]
  rw [Nat.add_assoc, Nat.add_comm 1]

theorem purge_of_live {l : Ledger V M} {w : Written V} {ws : List (Written V)} {now : Instant}
    (hw : l.written = w :: ws) (hx : w.isExpired l.ttl now = false) : l.purge now = (0, l) := by
  simp only [purge, hw, hx, Bool.false_eq_true, if_false, List.takeWhile_cons,
    List.dropWhile_cons, List.length_nil]
  rw [← hw]
  rfl

/-- What is dropped is what has been counted. -/
theorem length_purge (l : Ledger V M) (now : Instant) :
    (l.purge now).1 + (l.purge now).2.written.length = l.written.length := by
  have hlength := congrArg List.length
    (List.takeWhile_append_dropWhile (p := fun w => w.isExpired l.ttl now) (l := l.written))
  rw [List.length_append] at hlength
  exact hlength

theorem makeRoom_eq_repeat (now : Instant) (l : Ledger V M) :
    l.makeRoom now =
      Nat.repeat (dropOldest now) (l.written.length + 1 - max 1 l.maxSize) l := by
  fun_induction makeRoom now l with
  | case1 l h ih =>
    rw [ih, (fixed_dropOldest now l).1, written_dropOldest, List.length_tail, repeat_dropOldest]
    congr 1
    omega
  | case2 l h =>
    rw [show l.written.length + 1 - max 1 l.maxSize = 0 by omega]
    rfl

theorem isClaimedBy_eq_true_iff (l : Ledger V M) (id : RequestId) (g : Nat) :
    l.isClaimedBy id g = true ↔ ∃ marker, l.claims.find? id = some (g, marker) := by
  unfold isClaimedBy
  split
  · rename_i g' marker h
    rw [h, decide_eq_true_iff]
    constructor
    · intro heq
      obtain rfl := heq
      exact ⟨marker, rfl⟩
    · intro hx
      obtain ⟨marker', he⟩ := hx
      cases he
      rfl
  · rename_i h
    rw [h]
    constructor
    · intro hf
      cases hf
    · intro hx
      obtain ⟨marker, he⟩ := hx
      cases he

theorem nextGeneration_lookup (l : Ledger V M) (now : Instant) (id : RequestId) (marker : M) :
    (l.lookup now id marker).2.nextGeneration = l.nextGeneration + 1 := by
  unfold lookup
  split
  · rfl
  split
  · rfl
  split <;> rfl

theorem written_lookup_sublist (l : Ledger V M) (now : Instant) (id : RequestId) (marker : M) :
    (l.lookup now id marker).2.written.Sublist l.written := by
  unfold lookup
  split
  · exact List.Sublist.refl _
  split
  · exact List.Sublist.refl _
  split
  · exact List.filter_sublist
  · exact List.Sublist.refl _

/-- A look-up leaves the claims as they are, or adds one to an id that had none. -/
theorem claims_lookup (l : Ledger V M) (now : Instant) (id : RequestId) (marker : M) :
    (l.lookup now id marker).2.claims = l.claims ∨ l.claims.find? id = none ∧
      (l.lookup now id marker).2.claims = l.claims.insert id (l.nextGeneration, marker) := by
  unfold lookup
  split
  · exact .inl rfl
  rename_i hfree
  split
  · exact .inr ⟨hfree, rfl⟩
  split
  · exact .inr ⟨hfree, rfl⟩
  · exact .inl rfl

theorem claims_commit (l : Ledger V M) (now : Instant) (id : RequestId) (g : Nat)
    (o : Outcome V) :
    (l.commit now id g o).claims =
      if l.isClaimedBy id g then l.claims.erase id else l.claims := by
  have hroom : (l.makeRoom now).isClaimedBy id g = l.isClaimedBy id g := by
    simp only [isClaimedBy, claims_makeRoom]
  simp only [commit, hroom]
  split <;> simp only [claims_makeRoom]

theorem claims_release (l : Ledger V M) (id : RequestId) (g : Nat) :
    (l.release id g).claims = if l.isClaimedBy id g then l.claims.erase id else l.claims := by
  unfold release
  split <;> rfl

/-- Each id is in one place at most, and each look-up has made one claim at most. -/
structure Sound (l : Ledger V M) : Prop where
  distinct : (l.written.map Written.id).Nodup
  apart : ∀ w ∈ l.written, l.claims.find? w.id = none
  issued : ∀ id g marker, l.claims.find? id = some (g, marker) → g < l.nextGeneration
  single : ∀ id id' g marker marker', l.claims.find? id = some (g, marker) →
    l.claims.find? id' = some (g, marker') → id = id'

theorem find?_written_eq_some_iff {ws : List (Written V)} (h : (ws.map Written.id).Nodup)
    (id : RequestId) (w : Written V) :
    ws.find? (fun w => w.id = id) = some w ↔ w ∈ ws ∧ w.id = id := by
  constructor
  · intro hf
    exact ⟨List.mem_of_find?_eq_some hf, by simpa using List.find?_some hf⟩
  · intro hx
    obtain ⟨hm, rfl⟩ := hx
    induction ws with
    | nil => cases hm
    | cons x xs ih =>
      rw [List.map_cons, List.nodup_cons] at h
      rcases List.mem_cons.mp hm with rfl | hm
      · exact List.find?_cons_of_pos (by simp)
      · have hne : x.id ≠ w.id := fun he => h.1 (he ▸ List.mem_map_of_mem hm)
        rw [List.find?_cons_of_neg (by simpa using hne)]
        exact ih h.2 hm

/-- Where ids are distinct, one outcome goes with its id. -/
theorem length_filter_ne {ws : List (Written V)} (h : (ws.map Written.id).Nodup) {w : Written V}
    (hw : w ∈ ws) : (ws.filter fun w' => w'.id ≠ w.id).length + 1 = ws.length := by
  have hone : (ws.map Written.id).count w.id = 1 :=
    List.count_eq_one_of_mem h (List.mem_map_of_mem hw)
  rw [List.count_eq_countP, List.countP_map] at hone
  have hall := List.length_eq_countP_add_countP (l := ws)
    fun w' : Written V => decide (w'.id = w.id)
  rw [← List.countP_eq_length_filter]
  have heq : ws.countP ((· == w.id) ∘ Written.id) = ws.countP fun w' => decide (w'.id = w.id) := rfl
  simp only [decide_eq_true_eq] at hall
  simp only [ne_eq, decide_not] at hall ⊢
  omega

section
variable {l l' : Ledger V M}

theorem sound_new (maxSize ttl : Nat) :
    ({ maxSize := maxSize, ttl := ttl } : Ledger V M).Sound where
  distinct := List.nodup_nil
  apart := by simp
  issued := by simp
  single := by simp

/-- Dropping outcomes and claims does no harm. -/
theorem Sound.of_subset (h : l.Sound) (hw : l'.written.Sublist l.written)
    (hc : ∀ id c, l'.claims.find? id = some c → l.claims.find? id = some c)
    (hg : l.nextGeneration ≤ l'.nextGeneration) : l'.Sound where
  distinct := h.distinct.sublist (hw.map _)
  apart w hm := by
    cases hf : l'.claims.find? w.id with
    | none => rfl
    | some c =>
      have := h.apart w (hw.subset hm)
      rw [hc _ _ hf] at this
      cases this
  issued id g marker hf := Nat.lt_of_lt_of_le (h.issued id g marker (hc _ _ hf)) hg
  single id id' g marker marker' hf hf' := h.single id id' g marker marker' (hc _ _ hf) (hc _ _ hf')

theorem Sound.makeRoom (h : l.Sound) (now : Instant) : (l.makeRoom now).Sound := by
  refine h.of_subset ?_ ?_ (Nat.le_of_eq (fixed_makeRoom now l).2.2.symm)
  · rw [written_makeRoom]
    exact List.drop_sublist _ _
  · rw [claims_makeRoom]
    exact fun _ _ hf => hf

theorem Sound.purge (h : l.Sound) (now : Instant) : (l.purge now).2.Sound :=
  h.of_subset (List.dropWhile_sublist _) (fun _ _ hf => hf) (Nat.le_refl _)

theorem find?_erase_claims (id id' : RequestId) (c : Nat × M)
    (hf : (l.claims.erase id).find? id' = some c) : l.claims.find? id' = some c := by
  rw [Table.find?_erase] at hf
  split at hf
  · cases hf
  · exact hf

theorem Sound.release (h : l.Sound) (id : RequestId) (g : Nat) : (l.release id g).Sound := by
  unfold Ledger.release
  split
  · exact h.of_subset (List.Sublist.refl _) (find?_erase_claims id) (Nat.le_refl _)
  · exact h

theorem Sound.commit (h : l.Sound) (now : Instant) (id : RequestId) (g : Nat) (o : Outcome V) :
    (l.commit now id g o).Sound := by
  have hr := h.makeRoom now
  unfold Ledger.commit
  dsimp only
  generalize l.makeRoom now = l at hr
  split
  · rename_i hcl
    obtain ⟨marker, hf⟩ := (isClaimedBy_eq_true_iff l id g).mp hcl
    have fresh : ∀ w ∈ l.written, w.id ≠ id := by
      intro w hw heq
      obtain rfl := heq
      rw [hr.apart w hw] at hf
      cases hf
    constructor
    · show ((l.written ++ [Written.mk id o now]).map Written.id).Nodup
      rw [List.map_append, List.nodup_append]
      refine ⟨hr.distinct, List.nodup_singleton _, ?_⟩
      simp only [List.mem_map, List.map_cons, List.map_nil, List.mem_singleton]
      intro _ hx _ heq he
      obtain ⟨w, hw, rfl⟩ := hx
      obtain rfl := heq
      exact fresh w hw he
    · intro w hw
      rw [Table.find?_erase]
      rcases List.mem_append.mp hw with hw | hw
      · rw [if_neg (fresh w hw), hr.apart w hw]
      · rw [List.mem_singleton.mp hw, if_pos rfl]
    · exact fun id' g' marker' hf' => hr.issued id' g' marker' (find?_erase_claims _ _ _ hf')
    · exact fun id₁ id₂ g' m₁ m₂ h₁ h₂ => hr.single id₁ id₂ g' m₁ m₂
        (find?_erase_claims _ _ _ h₁) (find?_erase_claims _ _ _ h₂)
  · exact hr

theorem Sound.claim (h : l.Sound) (id : RequestId) (marker : M)
    (free : ∀ w ∈ l.written, w.id ≠ id) : (l.claim id marker).2.Sound where
  distinct := h.distinct
  apart w hw := by
    show (l.claims.insert id _).find? w.id = none
    rw [Table.find?_insert, if_neg (free w hw), h.apart w hw]
  issued id' g marker' hf := by
    show g < l.nextGeneration + 1
    simp only [Ledger.claim, Table.find?_insert] at hf
    split at hf
    · cases hf
      omega
    · have := h.issued id' g marker' hf
      omega
  single id₁ id₂ g m₁ m₂ h₁ h₂ := by
    simp only [Ledger.claim, Table.find?_insert] at h₁ h₂
    -- A claim made before has a smaller number than the new one.
    split at h₁ <;> split at h₂
    · exact ‹id₁ = id›.trans ‹id₂ = id›.symm
    · cases h₁
      exact absurd (h.issued _ _ _ h₂) (Nat.lt_irrefl _)
    · cases h₂
      exact absurd (h.issued _ _ _ h₁) (Nat.lt_irrefl _)
    · exact h.single id₁ id₂ g m₁ m₂ h₁ h₂

theorem Sound.lookup (h : l.Sound) (now : Instant) (id : RequestId) (marker : M) :
    (l.lookup now id marker).2.Sound := by
  unfold Ledger.lookup
  split
  · exact h.of_subset (List.Sublist.refl _) (fun _ _ hf => hf) (Nat.le_succ _)
  split
  · rename_i hn
    exact h.claim id marker fun w hw => by simpa using List.find?_eq_none.mp hn w hw
  split
  · refine Sound.claim ?_ id marker fun w hw => by simpa using (List.mem_filter.mp hw).2
    exact h.of_subset List.filter_sublist (fun _ _ hf => hf) (Nat.le_refl _)
  · exact h.of_subset (List.Sublist.refl _) (fun _ _ hf => hf) (Nat.le_succ _)

end

section
variable {l l' : Ledger V M} {now : Instant} {id : RequestId} {marker : M}

theorem lookup_of_pending {other : M} (h : l.lookup now id marker = (.pending other, l')) :
    (∃ g, l.claims.find? id = some (g, other)) ∧
      l' = { l with nextGeneration := l.nextGeneration + 1 } := by
  unfold lookup at h
  split at h
  · rename_i g _ hf
    cases h
    exact ⟨⟨g, hf⟩, rfl⟩
  split at h
  · cases h
  split at h <;> cases h

theorem lookup_of_live {o : Outcome V} (h : l.lookup now id marker = (.live o, l')) :
    l.claims.find? id = none ∧
      (∃ w, l.written.find? (fun w => w.id = id) = some w ∧ w.isExpired l.ttl now = false ∧
        w.outcome = o) ∧
      l' = { l with nextGeneration := l.nextGeneration + 1 } := by
  unfold lookup at h
  split at h
  · cases h
  rename_i hf
  split at h
  · cases h
  rename_i w hw
  split at h
  · cases h
  · rename_i hx
    cases h
    exact ⟨hf, ⟨w, hw, eq_false_of_ne_true hx, rfl⟩, rfl⟩

theorem lookup_of_claimed {n : Nat} (hl : l.Sound)
    (h : l.lookup now id marker = (.claimed n, l')) :
    n = l.nextGeneration ∧ l.claims.find? id = none ∧
      (∀ w ∈ l.written, w.id = id → w.isExpired l.ttl now = true) ∧
      l'.maxSize = l.maxSize ∧ l'.ttl = l.ttl ∧
      l'.written = (l.written.filter fun w => w.id ≠ id) ∧
      l'.claims = l.claims.insert id (n, marker) ∧ l'.nextGeneration = n + 1 := by
  unfold lookup at h
  split at h
  · cases h
  rename_i hf
  split at h
  · rename_i hw
    cases h
    have hne : ∀ w ∈ l.written, w.id ≠ id := fun w hm => by
      simpa using List.find?_eq_none.mp hw w hm
    refine ⟨rfl, hf, fun w hm hi => absurd hi (hne w hm), rfl, rfl, ?_, rfl, rfl⟩
    exact (List.filter_eq_self.mpr fun w hm => decide_eq_true (hne w hm)).symm
  · rename_i w hw
    split at h
    · rename_i hx
      cases h
      refine ⟨rfl, hf, ?_, rfl, rfl, rfl, rfl, rfl⟩
      intro w' hm hi
      have hw' := (find?_written_eq_some_iff hl.distinct id w').mpr ⟨hm, hi⟩
      rw [hw] at hw'
      cases hw'
      exact hx
    · cases h

theorem commit_of_claim {g : Nat} (h : l.claims.find? id = some (g, marker)) (now : Instant)
    (o : Outcome V) :
    l.commit now id g o = { l.makeRoom now with
      written := (l.makeRoom now).written ++ [⟨id, o, now⟩]
      claims := l.claims.erase id } := by
  have hc : (l.makeRoom now).isClaimedBy id g = true :=
    ((l.makeRoom now).isClaimedBy_eq_true_iff id g).mpr
      ⟨marker, by rw [claims_makeRoom, h]⟩
  unfold commit
  dsimp only
  rw [if_pos hc, claims_makeRoom]

theorem release_of_claim {g : Nat} (h : l.claims.find? id = some (g, marker)) :
    l.release id g = { l with claims := l.claims.erase id } := by
  unfold release
  rw [if_pos ((l.isClaimedBy_eq_true_iff id g).mpr ⟨marker, h⟩)]

/-- A second purge at the same instant finds nothing. -/
theorem purge_purge (l : Ledger V M) (now : Instant) :
    (l.purge now).2.purge now = (0, (l.purge now).2) := by
  cases hw : l.written.dropWhile fun w => w.isExpired l.ttl now with
  | nil => exact purge_of_empty hw now
  | cons w ws =>
    have hx := List.head?_dropWhile_not (fun w => w.isExpired l.ttl now) l.written
    rw [hw] at hx
    have hx' : w.isExpired l.ttl now = false := by simpa using hx
    exact purge_of_live hw hx'

end
end Ledger
end AtMostOnce
