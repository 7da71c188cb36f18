import AtMostOnce.Memo.Idle
import AtMostOnce.Proofs.Memo.Sound

/-! Every operation on a memory is the same operation on its ledger, and keeps the order of writes
in step with the slots. -/
namespace AtMostOnce.Memo
variable {V M : Type}

/-- Operations that leave slots and writes alone. -/
theorem Sound.congr {m m' : Memo V M} (h : m.Sound) (hs : m'.slots = m.slots)
    (ho : m'.order.records = m.order.records) (hn : m.order.next ≤ m'.order.next) : m'.Sound where
  bounded r hm := Nat.lt_of_lt_of_le (h.bounded r (ho ▸ hm)) hn
  recorded seq id := by rw [ho, h.recorded, entryOf?_congr (congrArg (·.find? id) hs)]

section Drop
variable {m : Memo V M} {seq : Nat} {id : RequestId} {rs : List (Nat × RequestId)} {e : Entry V}

/-- The records of other ids are those of other numbers. -/
theorem Sound.record_ne_iff (h : m.Sound) (hr : (seq, id) ∈ m.order.records)
    {r : Nat × RequestId} (hm : r ∈ m.order.records) : r.1 ≠ seq ↔ r.2 ≠ id := by
  obtain ⟨seq', id'⟩ := r
  constructor
  · intro hne heq
    obtain rfl := heq
    exact hne (h.seq_unique hm hr)
  · intro hne heq
    obtain rfl := heq
    exact hne (WriteOrder.id_unique hm hr)

/-- An outcome is dropped together with its record. -/
theorem Sound.drop {m' : Memo V M} (h : m.Sound) (hr : (seq, id) ∈ m.order.records)
    (hs : m'.slots = m.slots.erase id)
    (ho : m'.order.records = m.order.records.filter fun r => r.1 ≠ seq)
    (hn : m.order.next ≤ m'.order.next) : m'.Sound where
  bounded r hm := by
    rw [ho] at hm
    exact Nat.lt_of_lt_of_le (h.bounded r (List.mem_of_mem_filter hm)) hn
  recorded seq' id' := by
    have hne : (seq', id') ∈ m.order.records → (seq' ≠ seq ↔ id' ≠ id) := h.record_ne_iff hr
    have hf : m'.slots.find? id' = if id' = id then none else m.slots.find? id' := by
      rw [hs, Table.find?_erase]
    rw [ho, List.mem_filter, decide_eq_true_eq]
    by_cases hi : id' = id
    · rw [if_pos hi] at hf
      simp only [entryOf?, hf, reduceCtorEq, exists_false, iff_false, not_and]
      exact fun hm hq => (hne hm).mp hq hi
    · rw [if_neg hi] at hf
      rw [entryOf?_congr hf, ← h.recorded]
      constructor
      · exact And.left
      · exact fun hm => ⟨hm, (hne hm).mpr hi⟩

/-- The other outcomes stay as they are listed. -/
theorem Sound.written_drop {m' : Memo V M} (h : m.Sound) (hr : (seq, id) ∈ m.order.records)
    (hs : ∀ id', id' ≠ id → m'.slots.find? id' = m.slots.find? id')
    (ho : m'.order.records = m.order.records.filter fun r => r.1 ≠ seq) :
    m'.ledger.written = m.ledger.written.filter fun w => w.id ≠ id := by
  show m'.order.records.filterMap m'.writtenAs = (m.order.records.filterMap m.writtenAs).filter _
  rw [ho, List.filter_filterMap, List.filterMap_filter]
  apply List.filterMap_congr
  intro hx hm
  obtain ⟨seq', id'⟩ := hx
  have hne := h.record_ne_iff hr hm
  dsimp only at hne
  by_cases hi : id' = id
  · have hq : seq' = seq := by_contra fun hq => hne.mp hq hi
    subst hi hq
    simp only [ne_eq, not_true_eq_false, decide_false, Bool.false_eq_true, if_false, writtenAs]
    cases m.entryOf? id' seq' <;> simp [Option.filter]
  · rw [if_pos (decide_eq_true (hne.mpr hi)), writtenAs_congr (hs id' hi)]
    unfold writtenAs
    cases m.entryOf? id' seq' <;> simp [Option.filter, hi]

theorem claims_erase_of_committed {m' : Memo V M}
    (hf : m.slots.find? id = some (.committed e)) (hs : m'.slots = m.slots.erase id) :
    m'.ledger.claims = m.ledger.claims := by
  show m'.slots.filterMap Slot.claim? = _
  rw [hs, Table.filterMap_erase]
  apply Table.erase_eq_self
  rw [Table.find?_filterMap, hf]
  rfl

/-- The head of the writes leads the ledger. -/
theorem Sound.written_cons (h : m.Sound) (ho : m.order.records = (seq, id) :: rs)
    (he : m.entryOf? id seq = some e) :
    m.ledger.written = ⟨id, e.outcome, e.writtenAt⟩ ::
      m.ledger.written.filter fun w => w.id ≠ id := by
  have hw : m.ledger.written = ⟨id, e.outcome, e.writtenAt⟩ :: rs.filterMap m.writtenAs := by
    show m.order.records.filterMap m.writtenAs = _
    rw [ho, List.filterMap_cons]
    simp only [writtenAs, he, Option.map_some]
  rw [hw, List.filter_cons_of_neg (by simp)]
  congr 1
  symm
  apply List.filter_eq_self.mpr
  intro w hm
  obtain ⟨⟨seq', id'⟩, hr, hw'⟩ := List.mem_filterMap.mp hm
  obtain ⟨e', _, rfl⟩ := Option.map_eq_some_iff.mp hw'
  have hlt : seq < seq' := by
    have hi := m.order.increasing
    rw [ho, List.pairwise_cons] at hi
    exact hi.1 _ hr
  have hne := (h.record_ne_iff (ho ▸ List.mem_cons_self) (ho ▸ List.mem_cons_of_mem _ hr)).mp
    (Nat.ne_of_gt hlt)
  exact decide_eq_true hne

end Drop

theorem Sound.dropOldest {m : Memo V M} (h : m.Sound) (now : Instant) :
    (m.dropOldest now).Sound ∧ (m.dropOldest now).ledger = m.ledger.dropOldest now := by
  cases ho : m.order.records with
  | nil =>
    have hw : m.ledger.written = [] := by
      show m.order.records.filterMap _ = []
      rw [ho, List.filterMap_nil]
    have hm : m.dropOldest now = m := by
      have holdest : m.order.oldest? = none := by rw [WriteOrder.oldest?_eq, ho, List.head?_nil]
      simp only [Memo.dropOldest, WriteOrder.removeOldest_of_none holdest]
    rw [hm]
    exact ⟨h, by simp only [Ledger.dropOldest, hw]⟩
  | cons r rs =>
    obtain ⟨seq, id⟩ := r
    have hr : (seq, id) ∈ m.order.records := ho ▸ List.mem_cons_self
    obtain ⟨e, he⟩ := (h.recorded seq id).mp hr
    have hf := ((m.entryOf?_eq_some_iff id seq e).mp he).1
    have hw := h.written_cons ho he
    have holdest : m.order.oldest? = some (seq, id) := by
      rw [WriteOrder.oldest?_eq, ho, List.head?_cons]
    have dropped : ∀ m' : Memo V M, m'.slots = m.slots.erase id →
        m'.order = (m.order.remove seq).2 →
        m'.Sound ∧ m'.ledger.written = m.ledger.written.filter (fun w => w.id ≠ id) ∧
          m'.ledger.claims = m.ledger.claims := by
      intro m' hs horder
      have hrs := (congrArg WriteOrder.records horder).trans (m.order.records_remove seq)
      have hn := congrArg WriteOrder.next horder
      refine ⟨h.drop hr hs hrs (Nat.le_of_eq hn.symm), h.written_drop hr ?_ hrs,
        claims_erase_of_committed hf hs⟩
      intro id' hi
      rw [hs, Table.find?_erase, if_neg hi]
    have hx : (Written.mk id e.outcome e.writtenAt).isExpired m.ledger.ttl now =
        e.isExpired m.ttl now := rfl
    simp only [Memo.dropOldest, WriteOrder.removeOldest_of_oldest holdest, he, Ledger.dropOldest]
    rw [hw]
    dsimp only
    rw [hx]
    split
    all_goals
      obtain ⟨hs, hw', hc⟩ := dropped
        (Memo.mk m.maxSize m.ttl (m.slots.erase id) (m.order.remove seq).2 m.nextGeneration _ _)
        rfl rfl
      exact ⟨hs, Ledger.ext rfl rfl hw' hc rfl rfl rfl⟩

theorem Sound.makeRoom {m : Memo V M} (h : m.Sound) (now : Instant) :
    (m.makeRoom now).Sound ∧ (m.makeRoom now).ledger = m.ledger.makeRoom now := by
  have step : ∀ n, (Nat.repeat (Memo.dropOldest now) n m).Sound ∧
      (Nat.repeat (Memo.dropOldest now) n m).ledger =
        Nat.repeat (Ledger.dropOldest now) n m.ledger := by
    intro n
    induction n with
    | zero => exact ⟨h, rfl⟩
    | succ n ih =>
      obtain ⟨hs, hl⟩ := ih.1.dropOldest now
      exact ⟨hs, hl.trans (congrArg (Ledger.dropOldest now) ih.2)⟩
  rw [Ledger.makeRoom_eq_repeat, h.length_written]
  exact step _

theorem Sound.claim {m : Memo V M} (h : m.Sound) (id : RequestId) (marker : M)
    (hf : ∀ e, m.slots.find? id ≠ some (.committed e)) :
    (m.claim id marker).2.Sound ∧ (m.claim id marker).2.ledger = (m.ledger.claim id marker).2 := by
  have hs : ∀ r ∈ m.order.records,
      (m.slots.insert id (.claimed m.nextGeneration marker)).find? r.2 = m.slots.find? r.2 := by
    intro hx hr
    obtain ⟨seq, id'⟩ := hx
    rw [Table.find?_insert, if_neg]
    intro heq
    obtain rfl := heq
    obtain ⟨e, he, _⟩ := h.find?_of_record hr
    exact hf e he
  constructor
  · refine ⟨h.bounded, ?_⟩
    intro seq id'
    by_cases hi : id' = id
    · subst hi
      have he : ∀ e, (m.claim id' marker).2.entryOf? id' seq ≠ some e := by
        intro e he
        have := ((entryOf?_eq_some_iff _ id' seq e).mp he).1
        simp [Memo.claim, Table.find?_insert] at this
      have hr : (seq, id') ∉ m.order.records := by
        intro hr
        obtain ⟨e, he, _⟩ := h.find?_of_record hr
        exact hf e he
      exact ⟨fun hm => absurd hm hr, fun hx => absurd hx (not_exists.mpr he)⟩
    · have hk : (m.claim id marker).2.slots.find? id' = m.slots.find? id' := by
        simp only [Memo.claim]
        rw [Table.find?_insert, if_neg hi]
      rw [entryOf?_congr hk]
      exact h.recorded seq id'
  · refine Ledger.ext rfl rfl ?_ ?_ rfl rfl rfl
    · exact List.filterMap_congr fun r hr => writtenAs_congr (hs r hr)
    · exact Table.filterMap_insert_of_some _ _ rfl

section Lookup
variable {m : Memo V M} {id : RequestId}

theorem Sound.find?_written_of_committed (h : m.Sound) (hl : m.ledger.Sound) {e : Entry V}
    (hf : m.slots.find? id = some (.committed e)) :
    m.ledger.written.find? (fun w => w.id = id) = some ⟨id, e.outcome, e.writtenAt⟩ :=
  (Ledger.find?_written_eq_some_iff hl.distinct id _).mpr
    ⟨(h.mem_written_iff _).mpr ⟨e.seq, hf⟩, rfl⟩

theorem Sound.find?_written_of_none (h : m.Sound)
    (hf : ∀ e, m.slots.find? id ≠ some (.committed e)) :
    m.ledger.written.find? (fun w => w.id = id) = none := by
  apply List.find?_eq_none.mpr
  intro w hw hi
  obtain ⟨seq, hs⟩ := (h.mem_written_iff w).mp hw
  rw [of_decide_eq_true hi] at hs
  exact hf _ hs

/-- A look-up in a memory is one in its ledger. -/
theorem Sound.lookup (h : m.Sound) (hl : m.ledger.Sound) (now : Instant) (id : RequestId)
    (marker : M) :
    (m.lookup now id marker).2.Sound ∧ m.ledger.lookup now id marker =
      ((m.lookup now id marker).1, (m.lookup now id marker).2.ledger) := by
  have hc := m.find?_claims id
  unfold Memo.lookup Ledger.lookup
  cases hf : m.slots.find? id with
  | none =>
    have hn : ∀ e, m.slots.find? id ≠ some (.committed e) := by simp [hf]
    obtain ⟨hs, hl'⟩ := h.claim id marker hn
    rw [hf, Option.bind_none] at hc
    rw [hc]
    dsimp only
    rw [h.find?_written_of_none hn]
    exact ⟨hs, Prod.ext rfl hl'.symm⟩
  | some s =>
    rw [hf, Option.bind_some] at hc
    rw [hc]
    cases s with
    | claimed g other => exact ⟨h.congr rfl rfl (Nat.le_refl _), rfl⟩
    | committed e =>
      dsimp only [Slot.claim?]
      rw [h.find?_written_of_committed hl hf]
      have hx : (Written.mk id e.outcome e.writtenAt).isExpired m.ledger.ttl now =
          e.isExpired m.ttl now := rfl
      dsimp only
      rw [hx]
      split
      · -- The claim takes the place of the outcome, so the outcome may as well be dropped first.
        let m₁ : Memo V M := { m with
          slots := m.slots.erase id
          order := (m.order.remove e.seq).2
          expirations := m.expirations + 1 }
        have hr := h.record_of_find? hf
        have hs : m₁.Sound := h.drop hr rfl rfl (Nat.le_refl _)
        have hw : m₁.ledger.written = m.ledger.written.filter fun w => w.id ≠ id :=
          h.written_drop hr (fun id' hi => by
            show (m.slots.erase id).find? id' = _
            rw [Table.find?_erase, if_neg hi]) rfl
        have hl₁ : m₁.ledger = { m.ledger with
            written := m.ledger.written.filter fun w => w.id ≠ id
            expirations := m.ledger.expirations + 1 } :=
          Ledger.ext rfl rfl hw (claims_erase_of_committed hf rfl) rfl rfl rfl
        have hn : ∀ e, m₁.slots.find? id ≠ some (.committed e) := by
          intro e'
          show (m.slots.erase id).find? id ≠ _
          rw [Table.find?_erase, if_pos rfl]
          simp
        have hm : ({ m with
            order := (m.order.remove e.seq).2
            expirations := m.expirations + 1 } : Memo V M).claim id marker =
          m₁.claim id marker := by
          simp only [Memo.claim, m₁, Table.insert_erase]
        obtain ⟨hs', hl'⟩ := hs.claim id marker hn
        rw [hm]
        refine ⟨hs', ?_⟩
        rw [← hl₁]
        exact Prod.ext rfl hl'.symm
      · exact ⟨h.congr rfl rfl (Nat.le_refl _), rfl⟩

end Lookup

theorem Sound.release {m : Memo V M} (h : m.Sound) (id : RequestId) (g : Nat) :
    (m.release id g).Sound ∧ (m.release id g).ledger = m.ledger.release id g := by
  unfold Memo.release Ledger.release
  rw [isClaimedBy_ledger]
  split
  · rename_i hc
    obtain ⟨marker, hf⟩ := (m.isClaimedBy_eq_true_iff id g).mp hc
    let m' : Memo V M := { m with slots := m.slots.erase id }
    have hk : ∀ id', id' ≠ id → m'.slots.find? id' = m.slots.find? id' := by
      intro id' hi
      show (m.slots.erase id).find? id' = _
      rw [Table.find?_erase, if_neg hi]
    have hs : ∀ id' seq, (∃ e, m.entryOf? id' seq = some e) → id' ≠ id := by
      intro id' seq hx heq
      obtain ⟨e, he⟩ := hx
      obtain rfl := heq
      have := ((m.entryOf?_eq_some_iff id' seq e).mp he).1
      rw [hf] at this
      cases this
    refine ⟨⟨h.bounded, ?_⟩, Ledger.ext rfl rfl ?_ ?_ rfl rfl rfl⟩
    · intro seq id'
      show (seq, id') ∈ m.order.records ↔ ∃ e, m'.entryOf? id' seq = some e
      rw [h.recorded]
      by_cases hi : id' = id
      · subst hi
        have he : ∀ e, m'.entryOf? id' seq ≠ some e := by
          intro e he
          have := ((entryOf?_eq_some_iff m' id' seq e).mp he).1
          simp [m', Table.find?_erase] at this
        exact ⟨fun hx => absurd rfl (hs id' seq hx), fun hx => absurd hx (not_exists.mpr he)⟩
      · rw [entryOf?_congr (hk id' hi)]
    · refine List.filterMap_congr fun r hr => writtenAs_congr (hk r.2 ?_)
      exact hs r.2 r.1 ((h.recorded r.1 r.2).mp hr)
    · exact Table.filterMap_erase _ _ _
  · exact ⟨h, rfl⟩

/-- An outcome takes the place of a claim, and is recorded as the latest write. -/
theorem Sound.put {m : Memo V M} (h : m.Sound) (now : Instant) {id : RequestId} {g : Nat}
    {marker : M} (hf : m.slots.find? id = some (.claimed g marker)) (o : Outcome V)
    {m' : Memo V M}
    (hm : m' = { m with
      order := (m.order.touch id).2
      slots := m.slots.insert id (.committed ⟨o, now, m.order.next⟩) }) :
    m'.Sound ∧ m'.ledger = { m.ledger with
      written := m.ledger.written ++ [⟨id, o, now⟩]
      claims := m.ledger.claims.erase id } := by
  have hk : ∀ id', m'.slots.find? id' =
      if id' = id then some (.committed ⟨o, now, m.order.next⟩) else m.slots.find? id' := by
    subst hm
    exact fun id' => Table.find?_insert _ _ _ _
  have hs : ∀ seq id', (seq, id') ∈ m.order.records → id' ≠ id := by
    intro seq id' hr heq
    obtain rfl := heq
    obtain ⟨e, he, _⟩ := h.find?_of_record hr
    rw [hf] at he
    cases he
  have hrs : m'.order.records = m.order.records ++ [(m.order.next, id)] := by
    rw [hm]
    exact WriteOrder.records_touch h.bounded id
  have hn : m'.order.next = m.order.next + 1 := by rw [hm]; rfl
  have he : ∀ seq e, m'.entryOf? id seq = some e ↔
      ⟨o, now, m.order.next⟩ = e ∧ e.seq = seq := by
    intro seq e
    rw [entryOf?_eq_some_iff, hk, if_pos rfl, Option.some.injEq, Slot.committed.injEq]
  constructor
  · constructor
    · intro r hr
      rw [hrs] at hr
      rw [hn]
      rcases List.mem_append.mp hr with hr | hr
      · exact Nat.lt_succ_of_lt (h.bounded r hr)
      · rw [List.mem_singleton.mp hr]
        exact Nat.lt_succ_self _
    · intro seq id'
      rw [hrs, List.mem_append, List.mem_singleton, Prod.mk.injEq]
      by_cases hi : id' = id
      · subst hi
        simp only [he, and_true, exists_eq_left']
        constructor
        · intro hx
          rcases hx with hr | rfl
          · exact absurd rfl (hs _ _ hr)
          · rfl
        · intro heq
          obtain rfl := heq
          exact .inr rfl
      · rw [entryOf?_congr ((hk id').trans (if_neg hi)), ← h.recorded]
        exact ⟨fun hr => hr.resolve_right fun ⟨_, hi'⟩ => hi hi', .inl⟩
  · have hw : m'.ledger.written = m.ledger.written ++ [⟨id, o, now⟩] := by
      show m'.order.records.filterMap m'.writtenAs = m.order.records.filterMap m.writtenAs ++ _
      rw [hrs, List.filterMap_append]
      congr 1
      · refine List.filterMap_congr fun r hr => writtenAs_congr ?_
        rw [hk, if_neg (hs r.1 r.2 hr)]
      · have he' := (he m.order.next _).mpr ⟨rfl, rfl⟩
        simp only [List.filterMap_cons, writtenAs, he', Option.map_some, List.filterMap_nil]
    subst hm
    exact Ledger.ext rfl rfl hw (Table.filterMap_insert_of_none _ _ rfl) rfl rfl rfl

/-- A write that is recorded and taken back shows in the number of the next write only. -/
theorem Sound.records_touch_remove {m : Memo V M} (h : m.Sound) (id : RequestId) :
    ((m.order.touch id).2.remove (m.order.touch id).1).2.records = m.order.records := by
  rw [WriteOrder.records_remove, WriteOrder.records_touch h.bounded]
  show (m.order.records ++ [(m.order.next, id)]).filter (fun r => r.1 ≠ m.order.next) = _
  rw [List.filter_append, List.filter_cons_of_neg (by simp), List.filter_nil, List.append_nil]
  exact List.filter_eq_self.mpr fun r hr => decide_eq_true (Nat.ne_of_lt (h.bounded r hr))

theorem Sound.commit {m : Memo V M} (h : m.Sound) (now : Instant) (id : RequestId) (g : Nat)
    (o : Outcome V) :
    (m.commit now id g o).Sound ∧ (m.commit now id g o).ledger = m.ledger.commit now id g o := by
  obtain ⟨hr, hl⟩ := h.makeRoom now
  unfold Memo.commit Ledger.commit
  rw [← hl]
  dsimp only
  generalize m.makeRoom now = m at hr
  rw [isClaimedBy_ledger]
  split
  · rename_i hc
    obtain ⟨marker, hf⟩ := (m.isClaimedBy_eq_true_iff id g).mp hc
    exact hr.put now hf o rfl
  · have ho := hr.records_touch_remove id
    exact ⟨hr.congr rfl ho (Nat.le_succ _),
      Ledger.ext rfl rfl (congrArg (List.filterMap m.writtenAs) ho) rfl rfl rfl rfl⟩

theorem Sound.purgeAll {m : Memo V M} (h : m.Sound) (now : Instant)
    (writes : List (Nat × RequestId)) (hw : writes = m.order.records) :
    (purgeAll now writes m).2.Sound ∧ m.ledger.purge now =
      ((purgeAll now writes m).1, (purgeAll now writes m).2.ledger) := by
  induction writes generalizing m with
  | nil =>
    have hn : m.ledger.written = [] := by
      show m.order.records.filterMap _ = []
      rw [← hw, List.filterMap_nil]
    exact ⟨h, Ledger.purge_of_empty hn now⟩
  | cons r rs ih =>
    obtain ⟨seq, id⟩ := r
    obtain ⟨e, he⟩ := (h.recorded seq id).mp (hw ▸ List.mem_cons_self)
    have hc := h.written_cons hw.symm he
    obtain ⟨hs, hl⟩ := h.dropOldest now
    unfold Memo.purgeAll
    rw [he]
    dsimp only
    split
    · rename_i hx
      have hrs : rs = (m.dropOldest now).order.records := by
        have holdest : m.order.oldest? = some (seq, id) := by
          rw [WriteOrder.oldest?_eq, ← hw, List.head?_cons]
        have hdropped := m.order.records_removeOldest
        rw [WriteOrder.removeOldest_of_oldest holdest, ← hw, List.tail_cons] at hdropped
        simp only [Memo.dropOldest, WriteOrder.removeOldest_of_oldest holdest, he, hx, if_true,
          hdropped]
      obtain ⟨hs', hl'⟩ := ih hs hrs
      refine ⟨hs', ?_⟩
      rw [Ledger.purge_of_expired hc hx, ← hl, hl']
    · rename_i hx
      exact ⟨h, Ledger.purge_of_live hc (eq_false_of_ne_true hx)⟩

theorem Sound.purge {m : Memo V M} (h : m.Sound) (now : Instant) :
    (m.purge now).2.Sound ∧ m.ledger.purge now = ((m.purge now).1, (m.purge now).2.ledger) :=
  h.purgeAll now _ rfl

/-- A purge that drops nothing from the ledger leaves the memory as it is. -/
theorem Sound.purge_of_still {m : Memo V M} (h : m.Sound) {now : Instant}
    (hl : (m.ledger.purge now).2 = m.ledger) : m.purge now = (0, m) := by
  unfold Memo.purge
  cases ho : m.order.records with
  | nil => rfl
  | cons r rs =>
    obtain ⟨seq, id⟩ := r
    obtain ⟨e, he⟩ := (h.recorded seq id).mp (ho ▸ List.mem_cons_self)
    have hw := h.written_cons ho he
    have hx : e.isExpired m.ttl now = false := by
      by_contra hx
      have hx' : (Written.mk id e.outcome e.writtenAt).isExpired m.ledger.ttl now = true :=
        eq_true_of_ne_false hx
      -- The head of the writes would have been dropped.
      have hlength := congrArg (fun l : Ledger V M => l.written.length) hl
      dsimp only [Ledger.purge] at hlength
      rw [hw, List.dropWhile_cons, hx', if_pos rfl, List.length_cons] at hlength
      have hle := (List.dropWhile_sublist (fun w : Written V => w.isExpired m.ledger.ttl now)
        (l := m.ledger.written.filter fun w => w.id ≠ id)).length_le
      omega
    unfold Memo.purgeAll
    rw [he]
    dsimp only
    rw [hx, if_neg Bool.false_ne_true]

/-- A second purge at the same instant finds nothing. -/
theorem Sound.purge_purge {m : Memo V M} (h : m.Sound) (now : Instant) :
    (m.purge now).2.purge now = (0, (m.purge now).2) := by
  obtain ⟨hs, hl⟩ := h.purge now
  apply hs.purge_of_still
  have hl' : (m.purge now).2.ledger = (m.ledger.purge now).2 := (congrArg Prod.snd hl).symm
  rw [hl', Ledger.purge_purge]

end AtMostOnce.Memo
