import AtMostOnce.Proofs.Memo.Chronology

/-! Room for one more write. A memory never holds more outcomes than it may. A commit drops one of
them at most, and no live one as long as an outcome is held whose time is over. -/
namespace AtMostOnce
variable {V M : Type}

namespace Ledger
variable {l : Ledger V M}

/-- No more outcomes are held than may be. -/
def Fits (l : Ledger V M) : Prop := l.written.length ≤ max 1 l.maxSize

/-- Nothing that a ledger is asked changes its bounds. -/
theorem bounds_serve (now : Instant) (l : Ledger V M) (r : Request V M) :
    (Ledger.keeper.serve now l r).2.2.maxSize = l.maxSize ∧
      (Ledger.keeper.serve now l r).2.2.ttl = l.ttl := by
  cases r with
  | lookup id marker => exact bounds_lookup l now id marker
  | commit id g o => exact bounds_commit l now id g o
  | release id g =>
    show (l.release id g).maxSize = _ ∧ (l.release id g).ttl = _
    rw [release_eq]
    exact ⟨rfl, rfl⟩
  | purge => exact ⟨rfl, rfl⟩
  | advance d => exact ⟨rfl, rfl⟩

/-- There is room for one more outcome. -/
theorem length_makeRoom_lt (now : Instant) (l : Ledger V M) :
    (l.makeRoom now).written.length < max 1 l.maxSize := by
  rw [written_makeRoom, List.length_drop]
  omega

theorem Fits.serve (h : l.Fits) (now : Instant) (r : Request V M) :
    (Ledger.keeper.serve now l r).2.2.Fits := by
  have hbound := (bounds_serve now l r).1
  unfold Fits at h ⊢
  rw [hbound]
  cases r with
  | lookup id marker =>
    exact Nat.le_trans (written_lookup_sublist l now id marker).length_le h
  | commit id g o =>
    have hroom := length_makeRoom_lt now l
    show (l.commit now id g o).written.length ≤ _
    unfold commit
    dsimp only
    split
    · rw [List.length_append, List.length_singleton]
      exact hroom
    · exact Nat.le_of_lt hroom
  | release id g =>
    show (l.release id g).written.length ≤ _
    rw [release_eq]
    exact h
  | purge => exact Nat.le_trans (List.dropWhile_sublist _).length_le h
  | advance d => exact h

theorem Fits.after (h : l.Fits) (now : Instant) (rs : List (Request V M)) :
    (Ledger.keeper.after now l rs).2.Fits ∧ (Ledger.keeper.after now l rs).2.maxSize = l.maxSize ∧
      (Ledger.keeper.after now l rs).2.ttl = l.ttl := by
  induction rs generalizing now l with
  | nil => exact ⟨h, rfl, rfl⟩
  | cons r rs ih =>
    obtain ⟨hm, ht⟩ := bounds_serve now l r
    obtain ⟨hfits, hm', ht'⟩ := ih (h.serve now r) (Ledger.keeper.serve now l r).2.1
    exact ⟨hfits, hm'.trans hm, ht'.trans ht⟩

end Ledger

namespace Memo
variable {m m' : Memo V M} {now : Instant} {id : RequestId} {g : Nat}

/-- What gives way to one more write: nothing as long as there is room, and else the oldest outcome
held. Its time is over if that of any outcome is. -/
inductive GivesWay (now : Instant) (m : Memo V M) : Option (RequestId × Entry V) → Prop where
  | none (room : m.size < max 1 m.maxSize) : GivesWay now m none
  | oldest (id : RequestId) (e : Entry V) (full : m.size = max 1 m.maxSize)
    (head : m.order.oldest? = some (e.seq, id))
    (held : m.slots.find? id = some (.committed e))
    (first : ∀ id' e', m.slots.find? id' = some (.committed e') →
      e.seq ≤ e'.seq ∧ e.writtenAt ≤ e'.writtenAt)
    (expired : ∀ id' e', m.slots.find? id' = some (.committed e') →
      e'.isExpired m.ttl now = true → e.isExpired m.ttl now = true) : GivesWay now m (some (id, e))

/-- A memory that is full gives up the oldest outcome. -/
theorem GivesWay.eq_oldest {victim : Option (RequestId × Entry V)} {e : Entry V}
    (h : GivesWay now m victim) (full : m.size = max 1 m.maxSize)
    (head : m.order.oldest? = some (e.seq, id)) (held : m.slots.find? id = some (.committed e)) :
    victim = some (id, e) := by
  cases h with
  | none room => omega
  | oldest id' e' _ head' held' =>
    obtain ⟨-, rfl⟩ := Prod.mk.inj (Option.some.inj (head'.symm.trans head))
    obtain rfl := Slot.committed.inj (Option.some.inj (held'.symm.trans held))
    rfl

/-- Memory `m'` is what is left of `m` without the outcome that has given way, if there is one. It
has been counted as expired or else as evicted. -/
structure Relieved (now : Instant) (victim : Option (RequestId × Entry V)) (m m' : Memo V M) :
    Prop where
  records : m'.order.records = m.order.records.drop victim.toList.length
  slots : ∀ id, m'.slots.find? id =
    if victim.map Prod.fst = some id then none else m.slots.find? id
  expirations : m'.expirations =
    m.expirations + victim.toList.countP fun v => v.2.isExpired m.ttl now
  evictions : m'.evictions = m.evictions + victim.toList.countP fun v => !v.2.isExpired m.ttl now
  next : m'.order.next = m.order.next

theorem relieved_self (now : Instant) (m : Memo V M) : Relieved now none m m where
  records := rfl
  slots _ := rfl
  expirations := rfl
  evictions := rfl
  next := rfl

theorem makeRoom_of_spare (h : m.size < max 1 m.maxSize) : m.makeRoom now = m := by
  have hnone : m.order.size + 1 - max 1 m.maxSize = 0 := by
    unfold size at h
    omega
  rw [makeRoom, hnone]
  rfl

theorem makeRoom_of_full (h : m.size = max 1 m.maxSize) : m.makeRoom now = m.dropOldest now := by
  have hone : m.order.size + 1 - max 1 m.maxSize = 1 := by
    unfold size at h
    omega
  rw [makeRoom, hone]
  rfl

/-- To drop a write takes no number. -/
theorem next_dropOldest (now : Instant) (m : Memo V M) :
    (m.dropOldest now).order.next = m.order.next := by
  unfold dropOldest
  split
  · rfl
  rename_i horder
  have hnext := congrArg (fun r => r.2.next) horder
  split
  · exact hnext.symm
  split <;> exact hnext.symm

theorem next_makeRoom (now : Instant) (m : Memo V M) :
    (m.makeRoom now).order.next = m.order.next := by
  unfold makeRoom
  generalize m.order.size + 1 - max 1 m.maxSize = n
  induction n with
  | zero => rfl
  | succ n ih => exact (next_dropOldest now _).trans ih

/-- The oldest outcome is dropped and counted. -/
theorem relieved_dropOldest {e : Entry V} (head : m.order.oldest? = some (e.seq, id))
    (hf : m.slots.find? id = some (.committed e)) (now : Instant) :
    Relieved now (some (id, e)) m (m.dropOldest now) := by
  have he : m.entryOf? id e.seq = some e := (m.entryOf?_eq_some_iff id e.seq e).mpr ⟨hf, rfl⟩
  have hrs : (m.order.remove e.seq).2.records =
      m.order.records.drop (some (id, e)).toList.length := by
    have htail := m.order.records_removeOldest
    rw [WriteOrder.removeOldest_of_oldest head, ← List.drop_one] at htail
    exact htail
  have hslots : ∀ id', (m.slots.erase id).find? id' =
      if (some (id, e)).map Prod.fst = some id' then none else m.slots.find? id' := by
    intro id'
    simp only [Table.find?_erase, Option.map_some, Option.some_inj, eq_comm]
  simp only [Memo.dropOldest, WriteOrder.removeOldest_of_oldest head, he]
  split
  · rename_i hx
    exact ⟨hrs, hslots, by simp [hx], by simp [hx], rfl⟩
  · rename_i hx
    exact ⟨hrs, hslots, by simp [hx], by simp [hx], rfl⟩

namespace Sound

/-- The oldest outcome was written before all others, so its time is over before theirs. -/
theorem givesWay_makeRoom (h : m.Sound) (hd : m.ledger.Dated now)
    (fits : m.size ≤ max 1 m.maxSize) :
    ∃ victim, GivesWay now m victim ∧ Relieved now victim m (m.makeRoom now) := by
  rcases Nat.lt_or_eq_of_le fits with hspare | hfull
  · rw [makeRoom_of_spare hspare]
    exact ⟨none, .none hspare, relieved_self now m⟩
  · cases ho : m.order.records with
    | nil =>
      have hzero : m.size = 0 := congrArg List.length ho
      omega
    | cons r rs =>
      obtain ⟨seq, id⟩ := r
      obtain ⟨e, hf, rfl⟩ := h.find?_of_record (ho ▸ List.mem_cons_self)
      have first : ∀ id' e', m.slots.find? id' = some (.committed e') → e.seq ≤ e'.seq := by
        intro id' e' hf'
        have hr := h.record_of_find? hf'
        have hi := m.order.increasing
        rw [ho] at hr hi
        rcases List.mem_cons.mp hr with heq | hr
        · exact Nat.le_of_eq (congrArg Prod.fst heq).symm
        · exact Nat.le_of_lt ((List.pairwise_cons.mp hi).1 _ hr)
      have earlier : ∀ id' e', m.slots.find? id' = some (.committed e') →
          e.writtenAt ≤ e'.writtenAt :=
        fun id' e' hf' => h.writtenAt_le hd hf hf' (first id' e' hf')
      rw [makeRoom_of_full hfull]
      have head : m.order.oldest? = some (e.seq, id) := congrArg List.head? ho
      refine ⟨some (id, e), .oldest id e hfull head hf ?_ ?_, relieved_dropOldest head hf now⟩
      · exact fun id' e' hf' => ⟨first id' e' hf', earlier id' e' hf'⟩
      · intro id' e' hf' hx
        have hage : m.ttl ≤ now - e'.writtenAt := of_decide_eq_true hx
        have hle : now - e'.writtenAt ≤ now - e.writtenAt :=
          Nat.sub_le_sub_left (earlier id' e' hf') now
        exact decide_eq_true (Nat.le_trans hage hle)

theorem isClaimedBy_makeRoom (h : m.Sound) (now : Instant) (id : RequestId) (g : Nat) :
    (m.makeRoom now).isClaimedBy id g = m.isClaimedBy id g := by
  obtain ⟨-, hl⟩ := h.makeRoom now
  rw [← isClaimedBy_ledger, ← isClaimedBy_ledger, hl]
  simp only [Ledger.isClaimedBy, Ledger.claims_makeRoom]

/-- Once there is room, an outcome whose claim is held takes its place, and another one leaves no
trace but in the number of the next write. -/
theorem commit_of_makeRoom (h : m.Sound) (now : Instant) (id : RequestId) (g : Nat)
    (o : Outcome V) :
    (m.commit now id g o).order.records = (m.makeRoom now).order.records ++
        (if m.isClaimedBy id g then [((m.makeRoom now).order.next, id)] else []) ∧
      (∀ id', (m.commit now id g o).slots.find? id' =
        if m.isClaimedBy id g ∧ id' = id then
          some (.committed ⟨o, now, (m.makeRoom now).order.next⟩)
        else (m.makeRoom now).slots.find? id') ∧
      (m.commit now id g o).evictions = (m.makeRoom now).evictions ∧
      (m.commit now id g o).expirations = (m.makeRoom now).expirations := by
  obtain ⟨hr, -⟩ := h.makeRoom now
  unfold Memo.commit
  dsimp only
  rw [h.isClaimedBy_makeRoom]
  split
  · rename_i hc
    refine ⟨WriteOrder.records_touch hr.bounded id, fun id' => ?_, rfl, rfl⟩
    show (Table.insert _ _ _).find? id' = _
    rw [Table.find?_insert]
    simp only [WriteOrder.touch, hc, true_and]
  · rename_i hc
    rw [List.append_nil]
    exact ⟨hr.records_touch_remove id, fun id' => (if_neg fun h => hc h.1).symm, rfl, rfl⟩

/-- An outcome that has just been accepted is live unless its time is over at once. -/
theorem lookup_commit (h : m.Sound) (hc : m.isClaimedBy id g = true) (live : 0 < m.ttl)
    (now : Instant) (o : Outcome V) (marker : M) :
    ((m.commit now id g o).lookup now id marker).1 = .live o := by
  obtain ⟨-, hslots, -⟩ := h.commit_of_makeRoom now id g o
  obtain ⟨-, hl⟩ := h.commit now id g o
  have hf := hslots id
  rw [if_pos ⟨hc, rfl⟩] at hf
  have httl : (m.commit now id g o).ttl = m.ttl := by
    show (m.commit now id g o).ledger.ttl = _
    rw [hl]
    exact (Ledger.bounds_commit m.ledger now id g o).2
  have hx : Entry.isExpired ⟨o, now, (m.makeRoom now).order.next⟩ (m.commit now id g o).ttl now =
      false := by
    unfold Entry.isExpired
    rw [httl, Nat.sub_self]
    exact decide_eq_false (Nat.not_le.mpr live)
  unfold Memo.lookup
  rw [hf]
  dsimp only
  rw [hx, if_neg Bool.false_ne_true]

end Sound

/-- What is known of a memory, whatever it has been asked. -/
structure Orderly (maxSize ttl : Nat) (now : Instant) (m : Memo V M) : Prop where
  sound : m.Sound
  ledger : m.ledger.Sound
  dated : m.ledger.Dated now
  maxSize_eq : m.maxSize = maxSize
  ttl_eq : m.ttl = ttl
  fits : m.size ≤ max 1 m.maxSize

theorem orderly_after (maxSize ttl : Nat) (start : Instant) (rs : List (Request V M)) :
    let m : Memo V M := { maxSize := maxSize, ttl := ttl }
    Orderly maxSize ttl (Memo.keeper.after start m rs).1 (Memo.keeper.after start m rs).2 := by
  intro m
  have hm : m.Sound := sound_new maxSize ttl
  have hl : m.ledger.Sound := Ledger.sound_new maxSize ttl
  have hfits : m.ledger.Fits := Nat.zero_le _
  have hdated : m.ledger.Dated start := Ledger.dated_new maxSize ttl start
  obtain ⟨sound, ledger, hview⟩ := after_ledger hm hl start rs
  have dated := hdated.after rs
  obtain ⟨fits, maxSize_eq, ttl_eq⟩ := hfits.after start rs
  rw [hview] at dated fits maxSize_eq ttl_eq
  rw [Ledger.Fits, sound.length_written] at fits
  exact ⟨sound, ledger, dated, maxSize_eq, ttl_eq, fits⟩

/-- A memory never holds more outcomes than it may. A commit drops none as long as there is room,
and otherwise the one that was written first, whether it is accepted or refused. The dropped one
counts as expired if its time is over, which it is if that of any outcome is, and else as evicted.
An accepted outcome is found at once, if outcomes are to live at all. -/
theorem commit_makes_room (maxSize ttl : Nat) (start : Instant) (rs : List (Request V M))
    (id : RequestId) (g : Nat) (o : Outcome V) :
    let m : Memo V M := { maxSize := maxSize, ttl := ttl }
    let now := (Memo.keeper.after start m rs).1
    let before := (Memo.keeper.after start m rs).2
    let later := before.commit now id g o
    before.maxSize = maxSize ∧ before.ttl = ttl ∧ before.size ≤ max 1 maxSize ∧
      (∃ victim, GivesWay now before victim ∧
        later.order.records = before.order.records.drop victim.toList.length ++
          (if before.isClaimedBy id g then [(before.order.next, id)] else []) ∧
        (∀ id', later.slots.find? id' =
          if before.isClaimedBy id g ∧ id' = id then
            some (.committed ⟨o, now, before.order.next⟩)
          else if victim.map Prod.fst = some id' then none
          else before.slots.find? id') ∧
        later.expirations =
          before.expirations + victim.toList.countP (fun v => v.2.isExpired ttl now) ∧
        later.evictions =
          before.evictions + victim.toList.countP fun v => !v.2.isExpired ttl now) ∧
      (before.isClaimedBy id g = true → 0 < ttl → ∀ marker,
        (later.lookup now id marker).1 = .live o) := by
  intro m now before later
  have hm : m.Sound := sound_new maxSize ttl
  have hl : m.ledger.Sound := Ledger.sound_new maxSize ttl
  have hfits : m.ledger.Fits := Nat.zero_le _
  have hdated : m.ledger.Dated start := Ledger.dated_new maxSize ttl start
  obtain ⟨sound, -, hview⟩ := after_ledger hm hl start rs
  have dated := hdated.after rs
  obtain ⟨fits, maxSize_eq, ttl_eq⟩ := hfits.after start rs
  rw [hview] at dated fits maxSize_eq ttl_eq
  change before.Sound at sound
  change before.maxSize = maxSize at maxSize_eq
  change before.ttl = ttl at ttl_eq
  have within : before.size ≤ max 1 before.maxSize := by
    rw [← sound.length_written]
    exact fits
  obtain ⟨victim, gives, relieved⟩ := sound.givesWay_makeRoom dated within
  obtain ⟨records, slots, evictions, expirations⟩ := sound.commit_of_makeRoom now id g o
  rw [relieved.next] at records slots
  rw [relieved.records] at records
  rw [relieved.evictions, ttl_eq] at evictions
  rw [relieved.expirations, ttl_eq] at expirations
  refine ⟨maxSize_eq, ttl_eq, maxSize_eq ▸ within, ⟨victim, gives, records, fun id' => ?_,
    expirations, evictions⟩, fun hc live => ?_⟩
  · rw [← relieved.slots]
    exact slots id'
  · exact sound.lookup_commit hc (ttl_eq.symm ▸ live) now o

/-- Of two outcomes held, the one whose time is over gives way, and the live one stays. -/
theorem commit_drops_expired :
    let m : Memo Nat String := { maxSize := 2, ttl := 10 }
    let rs : List (Request Nat String) := [.lookup ⟨"a"⟩ "first", .commit ⟨"a"⟩ 0 (.success 7),
      .advance 6, .lookup ⟨"b"⟩ "second", .commit ⟨"b"⟩ 1 (.success 8), .advance 5,
      .lookup ⟨"c"⟩ "third"]
    let s := Memo.keeper.after 0 m rs
    let later := s.2.commit s.1 ⟨"c"⟩ 2 (.success 9)
    later.expirations = 1 ∧ later.evictions = 0 ∧ later.slots.find? ⟨"a"⟩ = none ∧
      later.slots.find? ⟨"b"⟩ = some (.committed ⟨.success 8, 6, 1⟩) ∧
      (later.lookup s.1 ⟨"c"⟩ "fourth").1 = .live (.success 9) := by
  intro m rs s later
  have clock : s.1 = 11 := by
    simp only [s, rs, m]
    cbv
  have counts : s.2.size = 2 ∧ s.2.expirations = 0 ∧ s.2.evictions = 0 := by
    simp only [s, rs, m]
    cbv
  have accepted : s.2.isClaimedBy ⟨"c"⟩ 2 = true := by
    simp only [s, rs, m]
    cbv
  have oldest : s.2.order.oldest? = some (0, ⟨"a"⟩) := by
    simp only [s, rs, m]
    cbv
  have held : s.2.slots.find? ⟨"a"⟩ = some (.committed ⟨.success 7, 0, 0⟩) ∧
      s.2.slots.find? ⟨"b"⟩ = some (.committed ⟨.success 8, 6, 1⟩) := by
    simp only [s, rs, m]
    cbv
  obtain ⟨maxSize, -, -, ⟨victim, gives, -, slots, expirations, evictions⟩, found⟩ :=
    commit_makes_room 2 10 0 rs ⟨"c"⟩ 2 (.success 9)
  -- From here on only what has just been evaluated is known of the run.
  have run : Memo.keeper.after 0 { maxSize := 2, ttl := 10 } rs = s := rfl
  rw [run] at maxSize gives slots expirations evictions found
  clear_value s
  have full : s.2.size = max 1 s.2.maxSize := by
    rw [maxSize, counts.1]
    rfl
  obtain rfl := gives.eq_oldest full oldest held.1
  have expired : Entry.isExpired (V := Nat) ⟨.success 7, 0, 0⟩ 10 s.1 = true := by
    rw [clock]
    decide
  refine ⟨expirations.trans ?_, evictions.trans ?_, (slots ⟨"a"⟩).trans ?_, (slots ⟨"b"⟩).trans ?_,
    found accepted (by decide) "fourth"⟩
  · simp [counts, expired]
  · simp [counts, expired]
  · simp
  · simp [held]

end Memo
end AtMostOnce
