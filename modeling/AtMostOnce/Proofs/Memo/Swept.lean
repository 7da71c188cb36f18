import AtMostOnce.Proofs.Memo.Refinement

/-! Memories that have been swept. Of two memories that differ only in outcomes whose time is over,
one has dropped some that the other still holds. Nothing that is done to both of them tells them
apart, but for the outcomes held and the count of those that have expired. -/
namespace AtMostOnce
variable {V M : Type}

namespace Ledger

/-- The ledger `l'` is `l` swept of the outcomes `gone`, whose time is over. -/
structure Swept (now : Instant) (gone : List (Written V)) (l l' : Ledger V M) : Prop where
  maxSize_eq : l'.maxSize = l.maxSize
  ttl_eq : l'.ttl = l.ttl
  claims_eq : l'.claims = l.claims
  nextGeneration_eq : l'.nextGeneration = l.nextGeneration
  evictions_eq : l'.evictions = l.evictions
  written : l.written = gone ++ l'.written
  expired : ∀ w ∈ gone, w.isExpired l.ttl now = true
  expirations : l'.expirations = l.expirations + gone.length

theorem swept_refl (now : Instant) (l : Ledger V M) : Swept now [] l l :=
  ⟨rfl, rfl, rfl, rfl, rfl, rfl, by simp, rfl⟩

namespace Swept
variable {now : Instant} {gone : List (Written V)} {l l' : Ledger V M}

theorem eq_of_nil (h : Swept now [] l l') : l' = l :=
  Ledger.ext h.maxSize_eq h.ttl_eq h.written.symm h.claims_eq h.nextGeneration_eq h.evictions_eq
    h.expirations

theorem later (h : Swept now gone l l') {later : Instant} (hle : now ≤ later) :
    Swept later gone l l' :=
  { h with expired := fun w hw => Written.isExpired_mono hle (h.expired w hw) }

/-- One of them is swept once more. -/
theorem purge (h : Swept now gone l l') :
    Swept now (gone ++ l'.written.takeWhile fun w => w.isExpired l'.ttl now) l
      (l'.purge now).2 where
  maxSize_eq := h.maxSize_eq
  ttl_eq := h.ttl_eq
  claims_eq := h.claims_eq
  nextGeneration_eq := h.nextGeneration_eq
  evictions_eq := h.evictions_eq
  written := by
    rw [h.written, List.append_assoc]
    exact congrArg (gone ++ ·) List.takeWhile_append_dropWhile.symm
  expired w hw := by
    rcases List.mem_append.mp hw with hw | hw
    · exact h.expired w hw
    · have hx := List.all_eq_true.mp List.all_takeWhile w hw
      rwa [h.ttl_eq] at hx
  expirations := by
    rw [List.length_append, ← Nat.add_assoc, ← h.expirations]
    rfl

/-- A claim is granted to both. -/
theorem claim (h : Swept now gone l l') (id : RequestId) (marker : M) :
    (l'.claim id marker).1 = (l.claim id marker).1 ∧
      Swept now gone (l.claim id marker).2 (l'.claim id marker).2 := by
  refine ⟨congrArg Lookup.claimed h.nextGeneration_eq,
    { h with claims_eq := ?_, nextGeneration_eq := ?_ }⟩
  · simp only [Ledger.claim, h.claims_eq, h.nextGeneration_eq]
  · exact congrArg (· + 1) h.nextGeneration_eq

/-- A number is used up. -/
theorem skip (h : Swept now gone l l') : Swept now gone
    { l with nextGeneration := l.nextGeneration + 1 }
    { l' with nextGeneration := l'.nextGeneration + 1 } :=
  { h with nextGeneration_eq := congrArg (· + 1) h.nextGeneration_eq }

/-- An outcome that has expired is dropped from one of them and is gone from the other, or is
dropped from both. -/
theorem forget (h : Swept now gone l l') (hl : l.Sound) {w : Written V} (hw : w ∈ l.written) :
    ((∀ w' ∈ l'.written, w'.id ≠ w.id) ∧ Swept now (gone.filter fun w' => w'.id ≠ w.id)
      { l with
        written := l.written.filter fun w' => w'.id ≠ w.id
        expirations := l.expirations + 1 } l') ∨
    (w ∈ l'.written ∧ Swept now gone
      { l with
        written := l.written.filter fun w' => w'.id ≠ w.id
        expirations := l.expirations + 1 }
      { l' with
        written := l'.written.filter fun w' => w'.id ≠ w.id
        expirations := l'.expirations + 1 }) := by
  have hdistinct := hl.distinct
  rw [h.written, List.map_append, List.nodup_append] at hdistinct
  obtain ⟨hgone, -, happart⟩ := hdistinct
  have apart : ∀ w₁ ∈ gone, ∀ w₂ ∈ l'.written, w₁.id ≠ w₂.id := fun w₁ h₁ w₂ h₂ =>
    happart _ (List.mem_map_of_mem h₁) _ (List.mem_map_of_mem h₂)
  have keep : ∀ ws : List (Written V), (∀ w' ∈ ws, w'.id ≠ w.id) →
      ws.filter (fun w' => w'.id ≠ w.id) = ws := fun ws hne =>
    List.filter_eq_self.mpr fun w' hw' => decide_eq_true (hne w' hw')
  rw [h.written] at hw
  rcases List.mem_append.mp hw with hw | hw
  · left
    have hne : ∀ w' ∈ l'.written, w'.id ≠ w.id := fun w' hw' => (apart w hw w' hw').symm
    have hlength := length_filter_ne hgone hw
    refine ⟨hne, { h with written := ?_, expired := ?_, expirations := ?_ }⟩
    · dsimp only
      rw [h.written, List.filter_append, keep _ hne]
    · exact fun w' hw' => h.expired w' (List.mem_of_mem_filter hw')
    · rw [h.expirations, ← hlength]
      dsimp only
      omega
  · right
    have hne : ∀ w' ∈ gone, w'.id ≠ w.id := fun w' hw' => apart w' hw' w hw
    refine ⟨hw, { h with written := ?_, expirations := ?_ }⟩
    · dsimp only
      rw [h.written, List.filter_append, keep _ hne]
    · dsimp only
      rw [h.expirations]
      omega

/-- A look-up finds the same in both. -/
theorem lookup (h : Swept now gone l l') (hl : l.Sound) (id : RequestId) (marker : M) :
    (l'.lookup now id marker).1 = (l.lookup now id marker).1 ∧
      ∃ gone', Swept now gone' (l.lookup now id marker).2 (l'.lookup now id marker).2 := by
  have hsub : l'.written.Sublist l.written := by
    rw [h.written]
    exact List.sublist_append_right _ _
  have hdistinct : (l'.written.map Written.id).Nodup := hl.distinct.sublist (hsub.map _)
  have hclaims : l'.claims.find? id = l.claims.find? id := by rw [h.claims_eq]
  unfold Ledger.lookup
  cases hc : l.claims.find? id with
  | some claim =>
    rw [hclaims, hc]
    exact ⟨rfl, gone, h.skip⟩
  | none =>
    rw [hclaims, hc]
    dsimp only
    cases hf : l.written.find? fun w => w.id = id with
    | none =>
      have hf' : l'.written.find? (fun w => w.id = id) = none :=
        List.find?_eq_none.mpr fun w hw => List.find?_eq_none.mp hf w (hsub.subset hw)
      rw [hf']
      obtain ⟨hanswer, hs⟩ := h.claim id marker
      exact ⟨hanswer, gone, hs⟩
    | some w =>
      have hw := List.mem_of_find?_eq_some hf
      obtain rfl : w.id = id := by simpa using List.find?_some hf
      dsimp only
      have httl : w.isExpired l'.ttl now = w.isExpired l.ttl now := by rw [h.ttl_eq]
      by_cases hx : w.isExpired l.ttl now = true
      · rw [if_pos hx]
        rcases h.forget hl hw with ⟨hne, hs⟩ | ⟨hw', hs⟩
        · have hf' : l'.written.find? (fun w' => w'.id = w.id) = none :=
            List.find?_eq_none.mpr fun w' hw' he => hne w' hw' (of_decide_eq_true he)
          rw [hf']
          obtain ⟨hanswer, hs'⟩ := hs.claim w.id marker
          exact ⟨hanswer, _, hs'⟩
        · have hf' := (find?_written_eq_some_iff hdistinct w.id w).mpr ⟨hw', rfl⟩
          rw [hf']
          dsimp only
          rw [if_pos (httl.trans hx)]
          obtain ⟨hanswer, hs'⟩ := hs.claim w.id marker
          exact ⟨hanswer, _, hs'⟩
      · have hw' : w ∈ l'.written := by
          rw [h.written] at hw
          exact (List.mem_append.mp hw).resolve_left fun hg => hx (h.expired w hg)
        have hf' := (find?_written_eq_some_iff hdistinct w.id w).mpr ⟨hw', rfl⟩
        rw [hf', if_neg hx]
        dsimp only
        rw [if_neg (httl ▸ hx)]
        exact ⟨rfl, gone, h.skip⟩

/-- The oldest outcome of one of them is gone from the other already. -/
theorem dropOldest {w : Written V} (h : Swept now (w :: gone) l l') :
    Swept now gone (l.dropOldest now) l' := by
  have hx := h.expired w List.mem_cons_self
  have hd : l.dropOldest now =
      { l with written := gone ++ l'.written, expirations := l.expirations + 1 } := by
    unfold Ledger.dropOldest
    rw [h.written]
    dsimp only [List.cons_append]
    rw [if_pos hx]
  rw [hd]
  refine { h with written := rfl, expired := ?_, expirations := ?_ }
  · exact fun w' hw' => h.expired w' (List.mem_cons_of_mem _ hw')
  · rw [h.expirations, List.length_cons]
    dsimp only
    omega

/-- Where room has to be made, what is gone from one of them goes first from the other. -/
theorem makeRoom (h : Swept now gone l l') :
    ∃ gone', Swept now gone' (l.makeRoom now) (l'.makeRoom now) := by
  induction gone generalizing l with
  | nil =>
    rw [h.eq_of_nil]
    exact ⟨[], swept_refl now _⟩
  | cons w gone ih =>
    by_cases hfull : max 1 l.maxSize ≤ l.written.length
    · rw [Ledger.makeRoom.eq_1 now l, if_pos hfull]
      exact ih h.dropOldest
    · have hlength := congrArg List.length h.written
      rw [List.length_append] at hlength
      have hroom : ¬ max 1 l'.maxSize ≤ l'.written.length := by
        rw [h.maxSize_eq]
        omega
      rw [Ledger.makeRoom.eq_1 now l, if_neg hfull, Ledger.makeRoom.eq_1 now l', if_neg hroom]
      exact ⟨_, h⟩

theorem isClaimedBy (h : Swept now gone l l') (id : RequestId) (g : Nat) :
    l'.isClaimedBy id g = l.isClaimedBy id g := by
  unfold Ledger.isClaimedBy
  rw [h.claims_eq]

theorem commit (h : Swept now gone l l') (id : RequestId) (g : Nat) (o : Outcome V) :
    ∃ gone', Swept now gone' (l.commit now id g o) (l'.commit now id g o) := by
  obtain ⟨gone', h'⟩ := h.makeRoom
  refine ⟨gone', ?_⟩
  unfold Ledger.commit
  dsimp only
  rw [h'.isClaimedBy]
  split
  · refine { h' with claims_eq := ?_, written := ?_ }
    · exact congrArg (Table.erase · id) h'.claims_eq
    · dsimp only
      rw [h'.written, List.append_assoc]
  · exact h'

theorem release (h : Swept now gone l l') (id : RequestId) (g : Nat) :
    Swept now gone (l.release id g) (l'.release id g) := by
  unfold Ledger.release
  rw [h.isClaimedBy]
  split
  · exact { h with claims_eq := congrArg (Table.erase · id) h.claims_eq }
  · exact h

end Swept
end Ledger

namespace Memo

/-- The memory `m'` is `m` swept of some outcomes whose time is over. -/
structure Swept (now : Instant) (m m' : Memo V M) : Prop where
  sound : m.Sound
  sound' : m'.Sound
  ledger : m.ledger.Sound
  ledger' : m'.ledger.Sound
  swept : ∃ gone, m.ledger.Swept now gone m'.ledger

theorem swept_refl (now : Instant) {m : Memo V M} (h : m.Sound) (hl : m.ledger.Sound) :
    Swept now m m :=
  ⟨h, h, hl, hl, [], Ledger.swept_refl now _⟩

namespace Swept
variable {now : Instant} {m m' : Memo V M}

theorem nextGeneration_eq (h : Swept now m m') : m'.nextGeneration = m.nextGeneration := by
  obtain ⟨gone, hs⟩ := h.swept
  exact hs.nextGeneration_eq

theorem later (h : Swept now m m') {later : Instant} (hle : now ≤ later) : Swept later m m' := by
  obtain ⟨gone, hs⟩ := h.swept
  exact { h with swept := ⟨gone, hs.later hle⟩ }

theorem lookup (h : Swept now m m') (id : RequestId) (marker : M) :
    (m'.lookup now id marker).1 = (m.lookup now id marker).1 ∧
      Swept now (m.lookup now id marker).2 (m'.lookup now id marker).2 := by
  obtain ⟨gone, hs⟩ := h.swept
  obtain ⟨hm, hl⟩ := h.sound.lookup h.ledger now id marker
  obtain ⟨hm', hl'⟩ := h.sound'.lookup h.ledger' now id marker
  obtain ⟨hanswer, hswept⟩ := hs.lookup h.ledger id marker
  have sound := h.ledger.lookup now id marker
  have sound' := h.ledger'.lookup now id marker
  rw [hl] at hanswer hswept sound
  rw [hl'] at hanswer hswept sound'
  exact ⟨hanswer, hm, hm', sound, sound', hswept⟩

theorem commit (h : Swept now m m') (id : RequestId) (g : Nat) (o : Outcome V) :
    Swept now (m.commit now id g o) (m'.commit now id g o) := by
  obtain ⟨gone, hs⟩ := h.swept
  obtain ⟨hm, hl⟩ := h.sound.commit now id g o
  obtain ⟨hm', hl'⟩ := h.sound'.commit now id g o
  refine ⟨hm, hm', ?_, ?_, ?_⟩
  · rw [hl]
    exact h.ledger.commit now id g o
  · rw [hl']
    exact h.ledger'.commit now id g o
  · rw [hl, hl']
    exact hs.commit id g o

theorem release (h : Swept now m m') (id : RequestId) (g : Nat) :
    Swept now (m.release id g) (m'.release id g) := by
  obtain ⟨gone, hs⟩ := h.swept
  obtain ⟨hm, hl⟩ := h.sound.release id g
  obtain ⟨hm', hl'⟩ := h.sound'.release id g
  refine ⟨hm, hm', ?_, ?_, gone, ?_⟩
  · rw [hl]
    exact h.ledger.release id g
  · rw [hl']
    exact h.ledger'.release id g
  · rw [hl, hl']
    exact hs.release id g

theorem purge (h : Swept now m m') : Swept now m (m'.purge now).2 := by
  obtain ⟨gone, hs⟩ := h.swept
  obtain ⟨hm', hl'⟩ := h.sound'.purge now
  have sound' := h.ledger'.purge now
  have hswept := hs.purge
  rw [hl'] at sound' hswept
  exact ⟨h.sound, hm', h.ledger, sound', _, hswept⟩

end Swept
end Memo
end AtMostOnce
