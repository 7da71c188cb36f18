import AtMostOnce.Proofs.Session.Account

/-! What is held and live is what the latest executions have left, as the log tells of them. -/
namespace AtMostOnce
variable {V : Type}

/-- Of a list that keeps to `p` up to some point, it does not matter where it is cut first. -/
theorem filter_take {α : Type} {p : α → Bool} {l : List α}
    (h : l.Pairwise fun x y => p y = true → p x = true) (k : Nat) :
    (l.take k).filter p = (l.filter p).take k := by
  induction l generalizing k with
  | nil => simp
  | cons x xs ih =>
    rw [List.pairwise_cons] at h
    cases k with
    | zero => rfl
    | succ k =>
      rw [List.take_succ_cons]
      by_cases hx : p x = true
      · rw [List.filter_cons_of_pos hx, List.filter_cons_of_pos hx, ih h.2, List.take_succ_cons]
      · have none : xs.filter p = [] := List.filter_eq_nil_iff.mpr fun y hy hp => hx (h.1 y hy hp)
        rw [List.filter_cons_of_neg hx, List.filter_cons_of_neg hx, ih h.2, none, List.take_nil,
          List.take_nil]

/-- The outcomes that are not over, out of a list. -/
def Written.live (ttl : Nat) (now : Instant) (ws : List (Written V)) : List (Written V) :=
  ws.filter fun w => !w.isExpired ttl now

namespace Written

theorem mem_live_iff (ttl : Nat) (now : Instant) (ws : List (Written V)) (w : Written V) :
    w ∈ live ttl now ws ↔ w ∈ ws ∧ now - w.writtenAt < ttl := by
  simp [live, isExpired]

/-- What is live later is live now. -/
theorem live_live (ttl : Nat) {now later : Instant} (h : now ≤ later) (ws : List (Written V)) :
    live ttl later (live ttl now ws) = live ttl later ws := by
  unfold live
  rw [List.filter_filter]
  apply List.filter_congr
  intro w _
  by_cases hl : ttl ≤ later - w.writtenAt
  · simp [isExpired, hl]
  · have hn : ¬ ttl ≤ now - w.writtenAt := fun hle =>
      hl (Nat.le_trans hle (Nat.sub_le_sub_right h _))
    simp [isExpired, hl, hn]

theorem live_dropWhile (ttl : Nat) (now : Instant) (ws : List (Written V)) :
    live ttl now (ws.dropWhile fun w => w.isExpired ttl now) = live ttl now ws := by
  unfold live
  induction ws with
  | nil => rfl
  | cons w ws ih =>
    rw [List.dropWhile_cons]
    split
    · rename_i hx
      rw [ih, List.filter_cons_of_neg (by simp [hx])]
    · rfl

theorem live_filter {ttl : Nat} {now : Instant} {ws : List (Written V)} {id : RequestId}
    (h : ∀ w ∈ ws, w.id = id → w.isExpired ttl now = true) :
    live ttl now (ws.filter fun w => w.id ≠ id) = live ttl now ws := by
  unfold live
  rw [List.filter_filter]
  apply List.filter_congr
  intro w hw
  by_cases hid : w.id = id
  · simp [h w hw hid]
  · simp [hid]

/-- Writes listed from the latest on are live up to some point. -/
theorem live_take (ttl : Nat) (now : Instant) {ws : List (Written V)}
    (h : ws.Pairwise fun w w' => w'.writtenAt ≤ w.writtenAt) (k : Nat) :
    live ttl now (ws.take k) = (live ttl now ws).take k := by
  apply filter_take
  apply h.imp
  intro w w' hle hl
  simp only [isExpired, Bool.not_eq_true', decide_eq_false_iff_not] at hl ⊢
  exact fun hx => hl (Nat.le_trans hx (Nat.sub_le_sub_left hle _))

end Written

namespace Activity
open History
variable {maxSize ttl : Nat} {a b : Activity V}

/-- What is held has been left by the executions that ended last. -/
structure Recalled (maxSize ttl : Nat) (a : Activity V) : Prop where
  maxSize_eq : a.ledger.maxSize = maxSize
  ttl_eq : a.ledger.ttl = ttl
  numbered : ((commits a.milestones).map Prod.fst).Nodup
  past : ∀ c ∈ commits a.milestones, c.2.writtenAt ≤ a.now
  ordered : (commits a.milestones).Pairwise fun c c' => c'.2.writtenAt ≤ c.2.writtenAt
  held : a.ledger.written.reverse.Sublist ((commits a.milestones).map Prod.snd)
  latest : ∀ w ∈ a.ledger.written, ∃ n, last? w.id a.milestones = some n ∧
    (commits a.milestones).find? (fun c => c.2.id = w.id) = some (n, w)
  recent : Written.live ttl a.now a.ledger.written.reverse =
    Written.live ttl a.now (((commits a.milestones).take (max 1 maxSize)).map Prod.snd)

namespace Recalled

theorem outcome_unique (h : a.Recalled maxSize ttl) {n : Nat} {w w' : Written V}
    (hw : (n, w) ∈ commits a.milestones) (hw' : (n, w') ∈ commits a.milestones) : w = w' :=
  congrArg Prod.snd (List.inj_on_of_nodup_map h.numbered hw hw' rfl)

theorem find?_commits (h : a.Recalled maxSize ttl) {n : Nat} {w : Written V}
    (hw : (n, w) ∈ commits a.milestones) :
    (commits a.milestones).find? (fun c => c.1 = n) = some (n, w) := by
  cases hf : (commits a.milestones).find? fun c => c.1 = n with
  | none => exact absurd (List.find?_eq_none.mp hf (n, w) hw) (by simp)
  | some c =>
    obtain ⟨m, w'⟩ := c
    have hm : m = n := by simpa using List.find?_some hf
    have hc := List.mem_of_find?_eq_some hf
    rw [hm] at hc ⊢
    rw [h.outcome_unique hc hw]

/-- What leaves no outcome and drops only what is over keeps the account. -/
theorem of_live (h : a.Recalled maxSize ttl) (hm : b.ledger.maxSize = a.ledger.maxSize)
    (ht : b.ledger.ttl = a.ledger.ttl) (clock : a.now ≤ b.now)
    (hc : commits b.milestones = commits a.milestones)
    (hs : b.ledger.written.Sublist a.ledger.written)
    (hl : Written.live ttl b.now b.ledger.written = Written.live ttl b.now a.ledger.written)
    (hlast : ∀ w ∈ b.ledger.written, last? w.id b.milestones = last? w.id a.milestones) :
    b.Recalled maxSize ttl where
  maxSize_eq := hm.trans h.maxSize_eq
  ttl_eq := ht.trans h.ttl_eq
  numbered := hc ▸ h.numbered
  past c hm := by
    rw [hc] at hm
    exact Nat.le_trans (h.past c hm) clock
  ordered := hc ▸ h.ordered
  held := by
    rw [hc]
    exact hs.reverse.trans h.held
  latest w hw := by
    rw [hlast w hw, hc]
    exact h.latest w (hs.subset hw)
  recent := by
    have hr : Written.live ttl b.now b.ledger.written.reverse =
        Written.live ttl b.now a.ledger.written.reverse := by
      unfold Written.live at hl ⊢
      rw [List.filter_reverse, List.filter_reverse, hl]
    rw [hr, hc, ← Written.live_live ttl clock, h.recent, Written.live_live ttl clock]

theorem of_same (h : a.Recalled maxSize ttl) (hc : commits b.milestones = commits a.milestones)
    (hlast : ∀ id, last? id b.milestones = last? id a.milestones) (clock : a.now ≤ b.now)
    (hM : b.ledger.maxSize = a.ledger.maxSize) (hT : b.ledger.ttl = a.ledger.ttl)
    (hw : b.ledger.written = a.ledger.written) : b.Recalled maxSize ttl := by
  apply h.of_live hM hT clock hc
  · rw [hw]
  · rw [hw]
  · exact fun w _ => hlast w.id

/-- An execution ends and leaves an outcome. -/
theorem commit (h : a.Recalled maxSize ttl) {n : Nat} {w : Written V}
    (hm : b.ledger.maxSize = a.ledger.maxSize) (ht : b.ledger.ttl = a.ledger.ttl)
    (clock : b.now = a.now) (hw : w.writtenAt = a.now)
    (hms : b.milestones = .committed w.writtenAt w.id n w.outcome :: a.milestones)
    (hn : n ∉ (commits a.milestones).map Prod.fst) (hlast : last? w.id a.milestones = some n)
    (fresh : ∀ w' ∈ a.ledger.written, w'.id ≠ w.id)
    (hwritten : b.ledger.written =
      a.ledger.written.drop (a.ledger.written.length + 1 - max 1 maxSize) ++ [w]) :
    b.Recalled maxSize ttl := by
  have hc : commits b.milestones = (n, w) :: commits a.milestones := by
    rw [hms]
    rfl
  have hl : ∀ id, last? id b.milestones = last? id a.milestones := by
    intro id
    rw [hms]
    rfl
  have hrev : b.ledger.written.reverse =
      w :: a.ledger.written.reverse.take (max 1 maxSize - 1) := by
    rw [hwritten, List.reverse_append, List.reverse_singleton, List.singleton_append,
      List.reverse_drop]
    congr 1
    by_cases hlen : a.ledger.written.length ≤ max 1 maxSize - 1
    · rw [List.take_of_length_le, List.take_of_length_le] <;> rw [List.length_reverse] <;> omega
    · congr 1
      omega
  have hsorted : a.ledger.written.reverse.Pairwise fun w w' => w'.writtenAt ≤ w.writtenAt :=
    (List.pairwise_map.mpr h.ordered).sublist h.held
  constructor
  · exact hm.trans h.maxSize_eq
  · exact ht.trans h.ttl_eq
  · rw [hc, List.map_cons]
    exact List.nodup_cons.mpr ⟨hn, h.numbered⟩
  · intro c hmem
    rw [clock]
    rw [hc] at hmem
    rcases List.mem_cons.mp hmem with hmem | hmem
    · rw [hmem]
      exact Nat.le_of_eq hw
    · exact h.past c hmem
  · rw [hc, List.pairwise_cons]
    refine ⟨?_, h.ordered⟩
    intro c hmem
    rw [hw]
    exact h.past c hmem
  · rw [hrev, hc, List.map_cons]
    exact ((List.take_sublist _ _).trans h.held).cons_cons w
  · intro w' hmem
    rw [hl, hc]
    rw [hwritten] at hmem
    rcases List.mem_append.mp hmem with hmem | hmem
    · have hold := List.mem_of_mem_drop hmem
      rw [List.find?_cons_of_neg (by simpa using (fresh w' hold).symm)]
      exact h.latest w' hold
    · rw [List.mem_singleton.mp hmem]
      exact ⟨n, hlast, List.find?_cons_of_pos (by simp)⟩
  · have hpos : max 1 maxSize = max 1 maxSize - 1 + 1 := by omega
    have htake := Written.live_take ttl a.now hsorted (max 1 maxSize - 1)
    have hcommits := Written.live_take ttl a.now
      ((List.pairwise_map.mpr h.ordered).sublist
        ((List.take_sublist (max 1 maxSize) _).map Prod.snd)) (max 1 maxSize - 1)
    rw [← List.map_take, List.take_take, Nat.min_eq_left (Nat.sub_le _ _), ← h.recent,
      ← htake] at hcommits
    rw [hrev, hc, clock, hpos, List.take_succ_cons, List.map_cons, Nat.add_sub_cancel]
    unfold Written.live at hcommits ⊢
    rw [List.filter_cons, List.filter_cons, hcommits]

theorem effect (h : a.Recalled maxSize ttl) (hk : a.Kept) (ha : a.Accounted) (he : Effect a b) :
    b.Recalled maxSize ttl := by
  cases he with
  | start c n looked logged unsettled waiters clock =>
    obtain ⟨-, -, hx, hM, hT, hw, -, -⟩ := Ledger.lookup_of_claimed hk.ledger looked
    have hm := milestones_of_milestone [] logged (by simp) rfl
    have hs : b.ledger.written.Sublist a.ledger.written := by
      rw [hw]
      exact List.filter_sublist
    apply h.of_live hM hT (Nat.le_of_eq clock.symm) (by rw [hm]; rfl) hs
    · rw [h.ttl_eq] at hx
      rw [hw, clock]
      exact Written.live_filter hx
    · intro w hmem
      rw [hw] at hmem
      have hid : w.id ≠ c.id := of_decide_eq_true (List.mem_filter.mp hmem).2
      rw [hm, last?_cons, Event.startOf?, if_neg hid.symm]
      rfl
  | wait c n looked logged unsettled waiters clock =>
    obtain ⟨-, hl⟩ := Ledger.lookup_of_pending looked
    have hm := milestones_of_silent [_] logged (by simp [Event.isMilestone])
    apply h.of_same (by rw [hm]) (fun id => by rw [hm]) (Nat.le_of_eq clock.symm) <;> rw [hl]
  | replay c o looked logged unsettled waiters clock =>
    obtain ⟨-, -, hl⟩ := Ledger.lookup_of_live looked
    have hm := milestones_of_silent [_, _] logged (by simp [Event.isMilestone])
    apply h.of_same (by rw [hm]) (fun id => by rw [hm]) (Nat.le_of_eq clock.symm) <;> rw [hl]
  | commit e o result unsettled ledger logged waiters clock =>
    have hr : a.running.Perm (e.key :: b.running) := unsettled.map Execution.key
    have hmem : e.key ∈ a.running := hr.mem_iff.mpr List.mem_cons_self
    have hf : a.ledger.claims.find? e.call.id = some (e.number, e.number) :=
      ha.find?_claims_of_running hmem
    have hm := milestones_of_milestone _ logged (fun ev => isMilestone_of_mem_answers) rfl
    obtain ⟨hlast, -, hend⟩ := ha.begun e.key hmem
    obtain ⟨hM, hT, -⟩ := Ledger.fixed_makeRoom a.now a.ledger
    have hl := ha.ledger_of_commit hr ledger
    apply h.commit (n := e.number) (w := ⟨e.call.id, o, a.now⟩) _ _ clock rfl hm _ hlast
    · intro w hw hid
      have hfree := hk.ledger.apart w hw
      rw [hid, hf] at hfree
      cases hfree
    · rw [hl, ← h.maxSize_eq, ← Ledger.written_makeRoom]
    · rw [hl]
      exact hM
    · rw [hl]
      exact hT
    · intro hnum
      obtain ⟨c, hc, hcn⟩ := List.mem_map.mp hnum
      have he : c.1 ∈ ended a.milestones := mem_ended_of_mem_commits hc
      rw [hcn] at he
      exact hend he
  | rollBack e f result unsettled ledger logged waiters clock =>
    have hr : a.running.Perm (e.key :: b.running) := unsettled.map Execution.key
    have hm := milestones_of_milestone _ logged (by simp [Event.isMilestone]) rfl
    have hl := ha.ledger_of_release hr ledger
    apply h.of_same (by rw [hm]; rfl) (fun id => by rw [hm]; rfl) (Nat.le_of_eq clock.symm) <;>
      rw [hl]
  | quiet noise silent logged unsettled ledger waiters clock =>
    have hm := milestones_of_silent _ logged fun ev hev => isMilestone_of_isNoise (silent ev hev)
    rcases ledger with hl | hl
    · apply h.of_same (by rw [hm]) (fun id => by rw [hm]) clock <;> rw [hl]
    · apply h.of_live (by rw [hl]; rfl) (by rw [hl]; rfl) clock (by rw [hm])
      · rw [hl]
        exact List.dropWhile_sublist _
      · rw [hl, ← Written.live_dropWhile ttl b.now a.ledger.written, ← h.ttl_eq]
        rfl
      · intro w _
        rw [hm]

end Recalled

theorem recalled_new (maxSize ttl : Nat) :
    Recalled maxSize ttl { session := ({ coordinator := .new maxSize ttl } : Session V) } where
  maxSize_eq := rfl
  ttl_eq := rfl
  numbered := List.nodup_nil
  past c hc := by cases hc
  ordered := .nil
  held := List.Sublist.refl []
  latest w hw := by cases hw
  recent := by
    show _ = Written.live ttl _ (List.map Prod.snd (List.take _ []))
    rw [List.take_nil]
    rfl

theorem Reachable.recalled (h : Reachable maxSize ttl a) : a.Recalled maxSize ttl :=
  h.invariant (recalled_new maxSize ttl) fun _ _ hk ha he h => h.effect hk ha he

end Activity
end AtMostOnce
