import AtMostOnce.Proofs.Memo.Ledger
import Mathlib.Data.List.TakeWhile

/-! What a ledger shows of one id: whether it is claimed, and its outcome as long as the time of
that is not over. As long as there is room, nothing that is done under other ids changes either. -/
namespace AtMostOnce.Ledger
variable {V M : Type} {l l' : Ledger V M} {now : Instant} {id other : RequestId} {marker : M}

def isClaimed (l : Ledger V M) (id : RequestId) : Bool := (l.claims.find? id).isSome

/-- The outcome held under the id, unless its time is over. -/
def live? (l : Ledger V M) (now : Instant) (id : RequestId) : Option (Written V) :=
  l.written.find? fun w => w.id = id && !w.isExpired l.ttl now

theorem live?_eq_some_iff (h : l.Sound) (now : Instant) (id : RequestId) (w : Written V) :
    l.live? now id = some w ↔
      w ∈ l.written ∧ w.id = id ∧ w.isExpired l.ttl now = false := by
  constructor
  · intro hw
    have hsome := List.find?_some hw
    simp only [Bool.and_eq_true, decide_eq_true_eq, Bool.not_eq_true'] at hsome
    exact ⟨List.mem_of_find?_eq_some hw, hsome⟩
  · rintro ⟨hw, hid, hlive⟩
    have hheld := (find?_written_eq_some_iff h.distinct id w).mpr ⟨hw, hid⟩
    cases hfound : l.live? now id with
    | none =>
      have hnone := List.find?_eq_none.mp hfound w hw
      simp [hid, hlive] at hnone
    | some w' =>
      have hsome := List.find?_some hfound
      simp only [Bool.and_eq_true, decide_eq_true_eq] at hsome
      have hheld' := (find?_written_eq_some_iff h.distinct id w').mpr
        ⟨List.mem_of_find?_eq_some hfound, hsome.1⟩
      rw [← hheld, hheld']

theorem live?_eq_none_iff : l.live? now id = none ↔
    ∀ w ∈ l.written, w.id = id → w.isExpired l.ttl now = true := by
  simp [live?, List.find?_eq_none]

/-- Outcomes whose time is over do not show. -/
theorem live?_congr (h : l.Sound) (h' : l'.Sound) (ttl : l'.ttl = l.ttl)
    (same : ∀ w, w.id = id → w.isExpired l.ttl now = false → (w ∈ l'.written ↔ w ∈ l.written)) :
    l'.live? now id = l.live? now id := by
  apply Option.ext
  intro w
  rw [live?_eq_some_iff h, live?_eq_some_iff h', ttl]
  constructor
  · rintro ⟨hw, hid, hlive⟩
    exact ⟨(same w hid hlive).mp hw, hid, hlive⟩
  · rintro ⟨hw, hid, hlive⟩
    exact ⟨(same w hid hlive).mpr hw, hid, hlive⟩

/-- As time passes outcomes end and none comes. -/
theorem live?_later (h : l.Sound) (id : RequestId) {later : Instant} (hle : now ≤ later) :
    l.live? later id = (l.live? now id).filter fun w => !w.isExpired l.ttl later := by
  apply Option.ext
  intro w
  rw [Option.filter_eq_some_iff, live?_eq_some_iff h, live?_eq_some_iff h, Bool.not_eq_true']
  constructor
  · rintro ⟨hw, hid, hlive⟩
    refine ⟨⟨hw, hid, ?_⟩, hlive⟩
    by_contra hx
    have hlater := Written.isExpired_mono hle (eq_true_of_ne_false hx)
    rw [hlive] at hlater
    cases hlater
  · rintro ⟨⟨hw, hid, -⟩, hlive⟩
    exact ⟨hw, hid, hlive⟩

section lookup

theorem isClaimed_of_pending {found : M} (h : l.lookup now id marker = (.pending found, l')) :
    l.isClaimed id = true := by
  obtain ⟨⟨g, hg⟩, -⟩ := lookup_of_pending h
  rw [isClaimed, hg]
  rfl

theorem live?_of_live (hl : l.Sound) {o : Outcome V}
    (h : l.lookup now id marker = (.live o, l')) :
    l.isClaimed id = false ∧ ∃ w, l.live? now id = some w ∧ w.outcome = o := by
  obtain ⟨hfree, ⟨w, hw, hlive, ho⟩, -⟩ := lookup_of_live h
  obtain ⟨hmem, hid⟩ := (find?_written_eq_some_iff hl.distinct id w).mp hw
  constructor
  · rw [isClaimed, hfree]
    rfl
  · exact ⟨w, (live?_eq_some_iff hl now id w).mpr ⟨hmem, hid, hlive⟩, ho⟩

theorem live?_of_claimed (hl : l.Sound) {n : Nat}
    (h : l.lookup now id marker = (.claimed n, l')) :
    l.isClaimed id = false ∧ l.live? now id = none ∧
      l'.isClaimed id = true ∧ l'.live? now id = none := by
  obtain ⟨-, hfree, hexpired, -, httl, hw, hc, -⟩ := lookup_of_claimed hl h
  refine ⟨?_, live?_eq_none_iff.mpr hexpired, ?_, live?_eq_none_iff.mpr ?_⟩
  · rw [isClaimed, hfree]
    rfl
  · rw [isClaimed, hc, Table.find?_insert, if_pos rfl]
    rfl
  · intro w hmem hid
    rw [hw] at hmem
    exact absurd hid (of_decide_eq_true (List.mem_filter.mp hmem).2)

/-- A look-up of another id is not seen. -/
theorem isClaimed_lookup (hne : other ≠ id) (now : Instant) (marker : M) :
    (l.lookup now other marker).2.isClaimed id = l.isClaimed id := by
  unfold isClaimed
  rcases claims_lookup l now other marker with hsame | ⟨-, hnew⟩
  · rw [hsame]
  · rw [hnew, Table.find?_insert, if_neg hne.symm]

theorem live?_lookup (hl : l.Sound) (hne : other ≠ id) (now : Instant) (marker : M) :
    (l.lookup now other marker).2.live? now id = l.live? now id := by
  refine live?_congr hl (hl.lookup now other marker) (bounds_lookup l now other marker).2
    fun w hid _ => ?_
  unfold lookup
  split
  · rfl
  split
  · rfl
  split
  · simp [claim, hid, hne.symm]
  · rfl

theorem evictions_lookup (l : Ledger V M) (now : Instant) (id : RequestId) (marker : M) :
    (l.lookup now id marker).2.evictions = l.evictions := by
  unfold lookup
  split
  · rfl
  split
  · rfl
  split <;> rfl

end lookup

section commit

theorem evictions_le_dropOldest (now : Instant) (l : Ledger V M) :
    l.evictions ≤ (l.dropOldest now).evictions := by
  unfold dropOldest
  split
  · exact Nat.le_refl _
  split
  · exact Nat.le_refl _
  · exact Nat.le_succ _

theorem evictions_le_makeRoom (now : Instant) (l : Ledger V M) :
    l.evictions ≤ (l.makeRoom now).evictions := by
  fun_induction makeRoom now l with
  | case1 l h ih => exact Nat.le_trans (evictions_le_dropOldest now l) ih
  | case2 l h => exact Nat.le_refl _

theorem isClaimed_erase : ({ l with claims := l.claims.erase other } : Ledger V M).isClaimed id =
    if id = other then false else l.isClaimed id := by
  rw [isClaimed, Table.find?_erase]
  split <;> rfl

theorem isClaimed_commit {g : Nat} (hc : l.claims.find? other = some (g, marker))
    (o : Outcome V) : (l.commit now other g o).isClaimed id =
      if id = other then false else l.isClaimed id := by
  rw [commit_of_claim hc]
  exact isClaimed_erase

theorem evictions_commit (now : Instant) (id : RequestId) (g : Nat) (o : Outcome V) :
    (l.commit now id g o).evictions = (l.makeRoom now).evictions := by
  unfold commit
  dsimp only
  split <;> rfl

theorem makeRoom_of_empty (h : l.written = []) : l.makeRoom now = l := by
  rw [makeRoom, if_neg]
  rw [h, List.length_nil]
  omega

/-- If nothing is evicted, only outcomes whose time is over make room. -/
theorem mem_makeRoom (kept : (l.makeRoom now).evictions = l.evictions) {w : Written V}
    (hw : w ∈ l.written) (hlive : w.isExpired l.ttl now = false) :
    w ∈ (l.makeRoom now).written := by
  fun_induction makeRoom now l with
  | case1 l h ih =>
    have hfirst := evictions_le_dropOldest now l
    have hrest := evictions_le_makeRoom now (l.dropOldest now)
    refine ih (by omega) ?_ ?_
    · rw [written_dropOldest]
      cases hws : l.written with
      | nil =>
        rw [hws] at hw
        cases hw
      | cons v vs =>
        rw [hws] at hw
        rcases List.mem_cons.mp hw with rfl | hw
        · have hevicted : (l.dropOldest now).evictions = l.evictions + 1 := by
            unfold dropOldest
            rw [hws]
            dsimp only
            rw [hlive, if_neg Bool.false_ne_true]
          omega
        · exact hw
    · rw [(fixed_dropOldest now l).2.1]
      exact hlive
  | case2 l h => exact hw

/-- The commit of another id is not seen. -/
theorem live?_commit (hl : l.Sound) {g : Nat} (hc : l.claims.find? other = some (g, marker))
    (hne : other ≠ id) (o : Outcome V)
    (kept : (l.commit now other g o).evictions = l.evictions) :
    (l.commit now other g o).live? now id = l.live? now id := by
  have httl : (l.makeRoom now).ttl = l.ttl := (fixed_makeRoom now l).2.1
  have hroom : (l.makeRoom now).evictions = l.evictions := evictions_commit now other g o ▸ kept
  have hl' := hl.commit now other g o
  rw [commit_of_claim hc now o] at hl' ⊢
  refine live?_congr hl hl' httl fun w hid hlive => ?_
  rw [List.mem_append, List.mem_singleton]
  constructor
  · rintro (hw | rfl)
    · rw [written_makeRoom] at hw
      exact List.mem_of_mem_drop hw
    · exact absurd hid hne
  · exact fun hw => .inl (mem_makeRoom hroom hw hlive)

/-- The outcome that has just been committed shows, unless its time is over at once. -/
theorem live?_commit_self (hl : l.Sound) {g : Nat} (hc : l.claims.find? id = some (g, marker))
    (now : Instant) (o : Outcome V) : (l.commit now id g o).live? now id =
      (some ⟨id, o, now⟩).filter fun w => !w.isExpired l.ttl now := by
  have httl : (l.makeRoom now).ttl = l.ttl := (fixed_makeRoom now l).2.1
  have hl' := hl.commit now id g o
  rw [commit_of_claim hc now o] at hl' ⊢
  apply Option.ext
  intro w
  rw [live?_eq_some_iff hl', Option.filter_eq_some_iff, Option.some_inj, Bool.not_eq_true']
  show w ∈ (l.makeRoom now).written ++ _ ∧ w.id = id ∧
      w.isExpired (l.makeRoom now).ttl now = false ↔
    _
  rw [httl, List.mem_append, List.mem_singleton]
  constructor
  · rintro ⟨hw | rfl, hid, hlive⟩
    · have hfree := (hl.makeRoom now).apart w hw
      rw [claims_makeRoom, hid, hc] at hfree
      cases hfree
    · exact ⟨rfl, hlive⟩
  · rintro ⟨rfl, hlive⟩
    exact ⟨.inr rfl, rfl, hlive⟩

end commit

theorem live?_purge (hl : l.Sound) : (l.purge now).2.live? now id = l.live? now id := by
  refine live?_congr hl (hl.purge now) rfl fun w hid hlive => ?_
  show w ∈ l.written.dropWhile _ ↔ _
  constructor
  · exact fun hw => (List.dropWhile_sublist _).subset hw
  · intro hw
    rw [← List.takeWhile_append_dropWhile (p := fun w => w.isExpired l.ttl now)
      (l := l.written), List.mem_append] at hw
    refine hw.resolve_left fun hw => ?_
    rw [List.mem_takeWhile_imp hw] at hlive
    cases hlive

end AtMostOnce.Ledger
