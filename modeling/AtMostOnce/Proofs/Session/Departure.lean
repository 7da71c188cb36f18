import AtMostOnce.Proofs.Edited
import AtMostOnce.Proofs.Session.Account
import AtMostOnce.Proofs.Session.Lockstep

/-! Departures. A caller may go away while its handler is under way, and so may one that waits on a
handler that will end well. Nobody else notices. -/
namespace AtMostOnce
variable {V : Type}

namespace Activity

/-- Executions of such numbers have been started, and none of them that is under way breaks down. -/
structure Reliable (P : Nat → Prop) (a : Activity V) : Prop extends a.Kept where
  issued : ∀ n, P n → n < a.ledger.nextGeneration
  succeeds : ∀ k ∈ a.running, P k.2 → ∃ o, k.1.handler.result = .ok o

namespace Reliable
variable {P : Nat → Prop} {a b : Activity V}

/-- What starts no execution. -/
theorem of_subset (h : a.Reliable P) (kept : b.Kept) (hr : b.running ⊆ a.running)
    (hg : a.ledger.nextGeneration ≤ b.ledger.nextGeneration) : b.Reliable P where
  toKept := kept
  issued n hn := Nat.lt_of_lt_of_le (h.issued n hn) hg
  succeeds k hk := h.succeeds k (hr hk)

theorem move (h : a.Reliable P) (hm : Move a b) : b.Reliable P := by
  obtain ⟨kept, effect⟩ := h.toKept.move hm
  cases effect with
  | start c n looked logged unsettled waiters clock =>
    obtain ⟨hn, -, -, -, -, -, -, hg⟩ := Ledger.lookup_of_claimed h.ledger looked
    refine ⟨kept, fun m hm => ?_, fun k hk hP => ?_⟩
    · have := h.issued m hm
      omega
    · unfold running at hk
      rw [unsettled, List.map_append] at hk
      rcases List.mem_append.mp hk with hk | hk
      · exact h.succeeds k hk hP
      · rw [List.mem_singleton.mp hk] at hP
        have := h.issued n hP
        omega
  | wait c n looked logged unsettled waiters clock =>
    obtain ⟨-, hl⟩ := Ledger.lookup_of_pending looked
    refine h.of_subset kept (fun k hk => ?_) ?_
    · unfold running at hk
      rwa [unsettled] at hk
    · rw [hl]
      exact Nat.le_succ _
  | replay c o looked logged unsettled waiters clock =>
    obtain ⟨-, -, hl⟩ := Ledger.lookup_of_live looked
    refine h.of_subset kept (fun k hk => ?_) ?_
    · unfold running at hk
      rwa [unsettled] at hk
    · rw [hl]
      exact Nat.le_succ _
  | commit e o result unsettled ledger logged waiters clock =>
    refine h.of_subset kept (fun k hk => ?_) ?_
    · exact (unsettled.map Execution.key).mem_iff.mpr (List.mem_cons_of_mem _ hk)
    · rw [ledger, Ledger.nextGeneration_commit]
  | rollBack e f result unsettled ledger logged waiters clock =>
    refine h.of_subset kept (fun k hk => ?_) ?_
    · exact (unsettled.map Execution.key).mem_iff.mpr (List.mem_cons_of_mem _ hk)
    · rw [ledger, Ledger.nextGeneration_release]
  | quiet noise silent logged unsettled ledger waiters clock =>
    refine h.of_subset kept (fun k hk => unsettled.mem_iff.mp hk) ?_
    rcases ledger with hl | hl
    · rw [hl]
    · rw [hl]
      exact Nat.le_refl _

theorem moves (h : a.Reliable P) (hm : Relation.ReflTransGen Move a b) : b.Reliable P := by
  induction hm with
  | refl => exact h
  | tail _ hm ih => exact ih.move hm

/-- An execution that breaks down is none of them. -/
theorem not_of_error {s : Session V} {e : Execution V} {es : List (Execution V)} {f : Breakdown}
    (h : Reliable P { session := s, ready := e :: es }) (hres : e.call.handler.result = .error f) :
    ¬P e.number := by
  intro hP
  have hrunning : e.key ∈ running { session := s, ready := e :: es } :=
    List.mem_map_of_mem (List.mem_append_right _ List.mem_cons_self)
  obtain ⟨o, ho⟩ := h.succeeds e.key hrunning hP
  cases hres.symm.trans ho

/-- It does not matter who is to claim. -/
theorem of_claimants {s : Session V} {es : List (Execution V)} {cs : List (Call V)}
    (h : Reliable P ⟨s, es, cs⟩) : Reliable P { session := s, ready := es } :=
  ⟨⟨h.memo, h.ledger⟩, h.issued, h.succeeds⟩

end Reliable
end Activity

namespace Session
open Activity

/-- The caller of an execution has gone away. -/
inductive Left (name : String) :
    Execution V → Multiset (Call V) → Option (Execution V) → Prop where
  | intro (c : Call V) (n : Nat) (named : c.name = name) :
    Left name ⟨c, n, true⟩ {c} (some ⟨c, n, false⟩)

/-- A caller that waits on an execution of such a number has gone away. -/
inductive Quit (name : String) (P : Nat → Prop) :
    Waiter V → Multiset (Call V) → Option (Waiter V) → Prop where
  | intro (c : Call V) (n : Nat) (named : c.name = name) (reliable : P n) :
    Quit name P ⟨c, n⟩ {c} none

/-- A caller is there no longer. -/
inductive Gone (name : String) (c : Call V) : Multiset (Call V) → Option (Call V) → Prop where
  | intro (named : c.name = name) : Gone name c {c} none

/-- What is not told of those who have gone away. -/
inductive Untold (name : String) :
    Event V → Multiset (Call V) → Option (Event V) → Prop where
  | finished (c : Call V) (answer : Answer V) (named : c.name = name) :
    Untold name (.finished c answer) {c} none
  /-- When callers of the name go away once more, they are not among them. -/
  | dropped (cs : Multiset (Call V)) (left : cs ≠ 0) (waiting : Bool) :
    Untold name (.dropped name true) cs (some (.dropped name waiting))

section
variable {name : String} {P : Nat → Prop} {k : Multiset (Call V)}

theorem edited_caller {es es' : List (Execution V)} (h : Edited (Left name) k es es') :
    Edited (Gone name) k (es.flatMap Execution.caller) (es'.flatMap Execution.caller) := by
  refine h.flatMap fun e j o hleft => ?_
  cases hleft with
  | intro c n named =>
    have hgone : Gone name c {c} none := .intro named
    exact .single hgone

theorem edited_waiting {ws ws' : List (Waiter V)} (h : Edited (Quit name P) k ws ws') :
    Edited (Gone name) k (ws.map Waiter.call) (ws'.map Waiter.call) := by
  refine h.map fun w j o hquit => ?_
  cases hquit with
  | intro c n named reliable => exact .intro named

theorem edited_finished {cs cs' : List (Call V)} (answer : Call V → Answer V)
    (h : Edited (Gone name) k cs cs') :
    Edited (Untold name) k (cs.map fun c => Event.finished c (answer c))
      (cs'.map fun c => Event.finished c (answer c)) := by
  refine h.map fun c j o hgone => ?_
  cases hgone with
  | intro named => exact .finished c (answer c) named

section
variable {ws ws' : List (Waiter V)} (h : Edited (Quit name P) k ws ws') {n : Nat}
include h

/-- An execution ends well, and those that waited on it do so no longer. -/
theorem edited_answered : ∃ i j, i + j = k ∧
    Edited (Gone name) i ((ws.filter fun w => w.number = n).map Waiter.call)
      ((ws'.filter fun w => w.number = n).map Waiter.call) ∧
    Edited (Quit name P) j (ws.filter fun w => w.number ≠ n)
      (ws'.filter fun w => w.number ≠ n) := by
  have hside : ∀ (w : Waiter V) j o, Quit name P w j o →
      ∀ w' ∈ o, decide (w'.number = n) = decide (w.number = n) := by
    intro w j o hquit w' hw'
    cases hquit
    cases hw'
  obtain ⟨i, j, hk, hin, hout⟩ := h.partition hside
  simp only [← decide_not] at hout
  exact ⟨i, j, hk, edited_waiting hin, hout⟩

/-- An execution breaks down on which none of those waited that have gone away. -/
theorem edited_released (hn : ¬P n) :
    (ws'.filter fun w => w.number = n) = (ws.filter fun w => w.number = n) ∧
    Edited (Quit name P) k (ws.filter fun w => w.number ≠ n)
      (ws'.filter fun w => w.number ≠ n) := by
  have hother : ∀ (w : Waiter V) j o, Quit name P w j o → o = none ∧ w.number ≠ n := by
    intro w j o hquit
    cases hquit with
    | intro c m named reliable => exact ⟨rfl, fun hm => hn (hm ▸ reliable)⟩
  constructor
  · refine h.filter_eq fun w j o hquit => ?_
    obtain ⟨rfl, hw⟩ := hother w j o hquit
    exact List.forall_mem_singleton.mpr (decide_eq_false hw)
  · refine h.filter fun w j o hquit => ?_
    obtain ⟨rfl, hw⟩ := hother w j o hquit
    exact List.forall_mem_singleton.mpr (decide_eq_true hw)

end

section
variable {es es' : List (Execution V)} (h : Edited (Left name) k es es')
include h

theorem edited_leave_self : es'.map (Execution.leave name) = es.map (Execution.leave name) := by
  refine h.map_eq fun e j o hleft => ?_
  cases hleft with
  | intro c n named => simp [Execution.leave, named]

theorem edited_leave {other : String} (hother : other ≠ name) :
    Edited (Left name) k (es.map (Execution.leave other)) (es'.map (Execution.leave other)) := by
  refine h.map fun e j o hleft => ?_
  cases hleft with
  | intro c n named =>
    have hc : c.name ≠ other := fun hc => hother (hc.symm.trans named)
    simp only [Execution.leave, if_neg hc, Option.map_some]
    exact .intro c n named

end

/-- The executions that wait at a gate, and the others. -/
theorem edited_gate {es es' : List (Execution V)} (h : Edited (Left name) k es es')
    (opened : List String) (gate : String) : ∃ i j, i + j = k ∧
      Edited (Left name) i (es.partition fun e => e.closedGate? opened = some gate).2
        (es'.partition fun e => e.closedGate? opened = some gate).2 ∧
      Edited (Left name) j (es.partition fun e => e.closedGate? opened = some gate).1
        (es'.partition fun e => e.closedGate? opened = some gate).1 := by
  have hside : ∀ (e : Execution V) j o, Left name e j o → ∀ e' ∈ o,
      decide (e'.closedGate? opened = some gate) = decide (e.closedGate? opened = some gate) := by
    intro e j o hleft e' he'
    cases hleft
    cases he'
    rfl
  obtain ⟨i, j, hk, hin, hout⟩ := h.partition hside
  simp only [List.partition_eq_filter_filter]
  exact ⟨j, i, (add_comm j i).trans hk, hout, hin⟩

section
variable {ws ws' : List (Waiter V)} (h : Edited (Quit name P) k ws ws')
include h

theorem edited_quit_self : (ws'.filter fun w => w.call.name ≠ name) =
    ws.filter fun w => w.call.name ≠ name := by
  refine h.filter_eq fun w j o hquit => ?_
  cases hquit with
  | intro c n named reliable =>
    exact List.forall_mem_singleton.mpr (decide_eq_false (not_not_intro named))

theorem edited_quit {other : String} (hother : other ≠ name) :
    Edited (Quit name P) k (ws.filter fun w => w.call.name ≠ other)
      (ws'.filter fun w => w.call.name ≠ other) := by
  refine h.filter fun w j o hquit => ?_
  cases hquit with
  | intro c n named reliable =>
    have hc : c.name ≠ other := fun hc => hother (hc.symm.trans named)
    exact List.forall_mem_singleton.mpr (decide_eq_true hc)

end

section
variable {cs cs' : List (Call V)} (h : Edited (Gone name) k cs cs')
include h

/-- If anybody has gone away, somebody was there of that name. -/
theorem edited_gone : (k = 0 ∧ cs' = cs) ∨ (k ≠ 0 ∧ (cs.any fun c => c.name = name) = true) := by
  have hcharged : ∀ (c : Call V) j o, Gone name c j o → j ≠ 0 := by
    intro c j o hgone
    cases hgone
    exact Multiset.singleton_ne_zero c
  refine (h.eq_or_exists hcharged).imp_right fun hsome => ?_
  obtain ⟨hk, c, hc, j, o, hgone⟩ := hsome
  cases hgone with
  | intro named => exact ⟨hk, List.any_eq_true.mpr ⟨c, hc, decide_eq_true named⟩⟩

theorem edited_any {other : String} (hother : other ≠ name) :
    (cs'.any fun c => c.name = other) = cs.any fun c => c.name = other := by
  have hsame : (cs'.filter fun c => c.name = other) = cs.filter fun c => c.name = other := by
    refine h.filter_eq fun c j o hgone => ?_
    cases hgone with
    | intro named =>
      have hc : c.name ≠ other := fun hc => hother (hc.symm.trans named)
      exact List.forall_mem_singleton.mpr (decide_eq_false hc)
  have hany := congrArg (fun cs : List (Call V) => cs.any fun c => c.name = other) hsame
  simp only [List.any_filter, Bool.and_self] at hany
  exact hany

end

/-- The first execution of a list, and the rest of them. -/
theorem edited_cons {e : Execution V} {es es' : List (Execution V)}
    (h : Edited (Left name) k (e :: es) es') : ∃ e' rest i j, es' = e' :: rest ∧ i + j = k ∧
      e'.call = e.call ∧ e'.number = e.number ∧ Edited (Left name) i [e] [e'] ∧
      Edited (Left name) j es rest := by
  cases h with
  | keep _ rest => exact ⟨e, _, 0, k, rfl, zero_add k, rfl, rfl, .refl [e], rest⟩
  | edit edited rest =>
    cases edited with
    | intro c n named =>
      have hleft : Left name ⟨c, n, true⟩ {c} (some ⟨c, n, false⟩) := .intro c n named
      exact ⟨⟨c, n, false⟩, _, {c}, _, rfl, rfl, rfl, rfl, .single hleft, rest⟩

end

/-- Sessions to which the same has happened since their logs were `b` and `b'`, but that callers
of the given name have gone away in the second one, who had started their handlers or were waiting
on executions of such numbers. -/
inductive Departed (name : String) (P : Nat → Prop) (gone : Multiset (Call V))
    (b b' : List (Event V)) (s : Session V) (es : List (Execution V)) :
    Session V → List (Execution V) → Prop where
  | intro {parked es' : List (Execution V)} {ws : List (Waiter V)} {told told' : List (Event V)}
    {i j k l : Multiset (Call V)} (reliable : Reliable P { session := s, ready := es })
    (whole : i + j + k + l = gone) (parting : Edited (Left name) i s.parked parked)
    (leaving : Edited (Left name) j es es') (quitting : Edited (Quit name P) k s.waiters ws)
    (logged : s.events = told ++ b) (telling : Edited (Untold name) l told told') :
    Departed name P gone b b' s es
      { s with parked := parked, waiters := ws, events := told' ++ b' } es'

namespace Departed
variable {name : String} {P : Nat → Prop} {gone : Multiset (Call V)} {b b' : List (Event V)}
  {s s' : Session V} {es es' : List (Execution V)}

theorem of_eq {parked : List (Execution V)} {ws : List (Waiter V)} {told told' : List (Event V)}
    {i j k l : Multiset (Call V)} (reliable : Reliable P { session := s, ready := es })
    (whole : i + j + k + l = gone) (parting : Edited (Left name) i s.parked parked)
    (leaving : Edited (Left name) j es es') (quitting : Edited (Quit name P) k s.waiters ws)
    (logged : s.events = told ++ b) (telling : Edited (Untold name) l told told')
    (h : s' = { s with parked := parked, waiters := ws, events := told' ++ b' }) :
    Departed name P gone b b' s es s' es' :=
  h ▸ .intro reliable whole parting leaving quitting logged telling

theorem idle (h : Departed name P gone b b' s es s' es') : es' = [] ↔ es = [] := by
  obtain ⟨-, -, -, leaving, -, -, -⟩ := h
  cases leaving with
  | nil => exact Iff.rfl
  | keep e rest => simp
  | edit edited rest =>
    cases edited with
    | intro c n named => simp

theorem proceed {e : Execution V} (h : Departed name P gone b b' s (e :: es) s' es') :
    ∃ e' rest, es' = e' :: rest ∧ (s'.proceed e').1 = (s.proceed e).1 ∧
      Departed name P gone b b' (s.proceed e).2 es (s'.proceed e').2 rest := by
  obtain @⟨parked, _, ws, told, told', i, j, k, l, reliable, whole, parting, leaving, quitting,
    logged, telling⟩ := h
  obtain ⟨⟨c, n, attended⟩, rest, j₁, j₂, rfl, rfl, hcall, hnumber, hone, hrest⟩ :=
    edited_cons leaving
  obtain rfl : c = e.call := hcall
  obtain rfl : n = e.number := hnumber
  refine ⟨_, rest, rfl, ?_⟩
  have reliable' := (reliable.move (.proceed _ e es (List.Perm.refl _))).of_claimants
  let e' : Execution V := ⟨e.call, e.number, attended⟩
  let s' : Session V := { s with parked := parked, waiters := ws, events := told' ++ b' }
  have hcaller := edited_caller hone
  rw [List.flatMap_singleton, List.flatMap_singleton] at hcaller
  cases hg : (e.closedGate? s.opened).isSome with
  | true =>
    have hg' : (e'.closedGate? s'.opened).isSome = true := hg
    rw [proceed_of_closed hg] at reliable' ⊢
    rw [proceed_of_closed hg']
    refine ⟨rfl, .intro reliable' ?_ (parting.append hone) hrest quitting logged telling⟩
    rw [← whole]
    ac_rfl
  | false =>
    have hg' : (e'.closedGate? s'.opened).isSome = false := hg
    cases hres : e.call.handler.result with
    | ok o =>
      have hres' : e'.call.handler.result = .ok o := hres
      obtain ⟨k₁, k₂, rfl, hanswered, hleft⟩ := edited_answered quitting (n := e.number)
      have hanswers : Edited (Untold name) (j₁ + k₁)
          (answers (e.caller ++ s.waitingOn e.number) o)
          (answers (e'.caller ++ s'.waitingOn e.number) o) :=
        (edited_finished (fun c => c.answer o) (hcaller.append hanswered)).reverse
      have hnews := (hanswers.append (.refl [.committed s.now e.call.id e.number o])).append telling
      rw [proceed_of_ok hg hres] at reliable' ⊢
      rw [proceed_of_ok hg' hres']
      refine ⟨rfl, .of_eq reliable' ?_ parting hrest hleft ?_ hnews ?_⟩
      · rw [← whole, add_zero]
        ac_rfl
      · simp [logged]
      · simp only [List.append_assoc, List.singleton_append]
        rfl
    | error f =>
      have hres' : e'.call.handler.result = .error f := hres
      obtain ⟨hsame, hleft⟩ := edited_released quitting (reliable.not_of_error hres)
      have hwaiting : s'.waitingOn e.number = s.waitingOn e.number := congrArg _ hsame
      have hnews := ((edited_finished (fun _ => .error (.internal f)) hcaller).append
        (.refl [.rolledBack s.now e.call.id e.number (s.waitingOn e.number).length])).append telling
      rw [proceed_of_error hg hres] at reliable' ⊢
      rw [proceed_of_error hg' hres', hwaiting]
      refine ⟨rfl, .of_eq reliable' ?_ parting hrest hleft ?_ hnews ?_⟩
      · rw [← whole, add_zero]
        ac_rfl
      · simp [logged]
      · simp only [List.append_assoc, List.singleton_append]
        rfl

theorem proceedAll (h : Departed name P gone b b' s es s' es') :
    (s'.proceedAll es').1 = (s.proceedAll es).1 ∧
      Departed name P gone b b' (s.proceedAll es).2 [] (s'.proceedAll es').2 [] := by
  induction es generalizing s s' es' with
  | nil =>
    obtain rfl := h.idle.mpr rfl
    exact ⟨rfl, h⟩
  | cons e es ih =>
    obtain ⟨e', rest, rfl, hfirst, hproceeded⟩ := h.proceed
    obtain ⟨hothers, hall⟩ := ih hproceeded
    refine ⟨?_, hall⟩
    simp only [Session.proceedAll]
    rw [hfirst, hothers]

theorem claim (h : Departed name P gone b b' s es s' es') (c : Call V) :
    (s'.claim c).1 = (s.claim c).1 ∧ Departed name P gone b b'
      (s.claim c).2 (es ++ (s.claim c).1.toList) (s'.claim c).2 (es' ++ (s.claim c).1.toList) := by
  obtain @⟨parked, _, ws, told, told', i, j, k, l, reliable, whole, parting, leaving, quitting,
    logged, telling⟩ := h
  let s' : Session V := { s with parked := parked, waiters := ws, events := told' ++ b' }
  have reliable' :=
    ((reliable.move (.arrive _ c)).move (.claim _ c [] (List.Perm.refl _))).of_claimants
  have leaving' := leaving.append (.refl (s.claim c).1.toList)
  rw [add_zero] at leaving'
  rcases hd : s.coordinator.memo.lookup s.now c.id s.coordinator.memo.nextGeneration
    with ⟨answer, m⟩
  have hd' : s'.coordinator.memo.lookup s'.now c.id s'.coordinator.memo.nextGeneration =
    (answer, m) := hd
  cases answer with
  | live o =>
    rw [claim_of_live hd] at reliable' leaving' ⊢
    rw [claim_of_live hd']
    exact ⟨rfl, .intro reliable' whole parting leaving' quitting
      (congrArg (fun log => _ :: _ :: log) logged) (.keep _ (.keep _ telling))⟩
  | pending n =>
    rw [claim_of_pending hd] at reliable' leaving' ⊢
    rw [claim_of_pending hd']
    have quitting' := quitting.append (.refl [⟨c, n⟩])
    rw [add_zero] at quitting'
    exact ⟨rfl, .intro reliable' whole parting leaving' quitting' (congrArg (_ :: ·) logged)
      (.keep _ telling)⟩
  | claimed n =>
    rw [claim_of_claimed hd] at reliable' leaving' ⊢
    rw [claim_of_claimed hd']
    exact ⟨rfl, .intro reliable' whole parting leaving' quitting (congrArg (_ :: ·) logged)
      (.keep _ telling)⟩

theorem claimAll (h : Departed name P gone b b' s es s' es') (cs : List (Call V)) :
    Departed name P gone b b' (s.claimAll cs).2 (es ++ (s.claimAll cs).1)
      (s'.claimAll cs).2 (es' ++ (s'.claimAll cs).1) := by
  induction cs generalizing s s' es es' with
  | nil =>
    simp only [Session.claimAll, List.append_nil]
    exact h
  | cons c cs ih =>
    obtain ⟨hfirst, hclaimed⟩ := h.claim c
    have hrest := ih hclaimed
    simp only [List.append_assoc] at hrest
    simp only [Session.claimAll]
    rw [hfirst]
    exact hrest

theorem drop (h : Departed name P gone b b' s [] s' []) (other : String) :
    Departed name P gone b b' (s.drop other) [] (s'.drop other) [] := by
  obtain @⟨parked, _, ws, told, told', i, j, k, l, reliable, whole, parting, leaving, quitting,
    logged, telling⟩ := h
  let s' : Session V := { s with parked := parked, waiters := ws, events := told' ++ b' }
  have reliable' := reliable.moves (moves_begin s (.drop other))
  have logged' : (s.drop other).events = .dropped other (s.isWaiting other) :: told ++ b :=
    congrArg (_ :: ·) logged
  have hunfinished : Edited (Gone name) (i + k) s.unfinished s'.unfinished :=
    (edited_caller parting).append (edited_waiting quitting)
  by_cases hother : other = name
  · -- Whoever is still there in the first session goes away now.
    obtain rfl := hother
    have hdrop : s'.drop other = { s.drop other with
        events := .dropped other (s'.isWaiting other) :: (told' ++ b') } := by
      have hparked := edited_leave_self parting
      have hwaiters := edited_quit_self quitting
      show ({ s with
        parked := parked.map (Execution.leave other)
        waiters := ws.filter fun w => w.call.name ≠ other
        events := .dropped other (s'.isWaiting other) :: (told' ++ b') } : Session V) = _
      rw [hparked, hwaiters]
      rfl
    have hj : j = 0 := leaving.eq_zero_of_nil
    rcases edited_gone hunfinished with ⟨hnone, hsame⟩ | ⟨hsome, hwaiting⟩
    · have hwaiting : s'.isWaiting other = s.isWaiting other :=
        congrArg (fun cs : List (Call V) => cs.any fun c => c.name = other) hsame
      rw [hwaiting] at hdrop
      refine .of_eq reliable' ?_ (.refl _) (.refl _) (.refl _) logged' (.keep _ telling) hdrop
      rw [← whole, hj, add_right_comm i, hnone]
      simp
    · have hwaiting : s.isWaiting other = true := hwaiting
      have hedit : Untold other (V := V) (.dropped other true) (i + k)
          (some (.dropped other (s'.isWaiting other))) := .dropped (i + k) hsome _
      rw [hwaiting] at logged'
      refine .of_eq reliable' ?_ (.refl _) (.refl _) (.refl _) logged' (.edit hedit telling) hdrop
      rw [← whole, hj]
      simp
  · have hwaiting : s'.isWaiting other = s.isWaiting other := edited_any hunfinished hother
    refine .of_eq reliable' whole (edited_leave parting hother) leaving
      (edited_quit quitting hother)
      logged' (.keep _ telling) ?_
    rw [← hwaiting]
    rfl

theorem begin (h : Departed name P gone b b' s [] s' []) (st : Step V) :
    Departed name P gone b b' (begin s st).session (begin s st).ready
      (begin s' st).session (begin s' st).ready := by
  have hparts := h
  obtain @⟨parked, _, ws, told, told', i, j, k, l, reliable, whole, parting, leaving, quitting,
    logged, telling⟩ := hparts
  have reliable' := (reliable.moves (moves_begin s st)).of_claimants
  cases st with
  | call c => exact h
  | drop other => exact h.drop other
  | openGate gate =>
    obtain ⟨i₁, i₂, rfl, hparked, hready⟩ := edited_gate parting s.opened gate
    refine .of_eq reliable' ?_ hparked (leaving.append hready) quitting logged telling rfl
    rw [← whole]
    ac_rfl
  | purge =>
    have logged' : s.purge.events = .purged (s.coordinator.purge s.now).1 :: told ++ b :=
      congrArg (_ :: ·) logged
    exact .of_eq reliable' whole parting leaving quitting logged' (.keep _ telling) rfl
  | _ => exact .of_eq reliable' whole parting leaving quitting logged telling rfl

theorem sweep (h : Departed name P gone b b' s [] s' []) :
    Departed name P gone b b' s.sweep [] s'.sweep [] := by
  obtain ⟨reliable, whole, parting, leaving, quitting, logged, telling⟩ := h
  exact .of_eq (reliable.move (.sweep _)) whole parting leaving quitting logged telling rfl

theorem lockstep (name : String) (P : Nat → Prop) (gone : Multiset (Call V))
    (b b' : List (Event V)) : Lockstep (Departed name P gone b b') where
  proceed h := h.proceedAll
  claim cs h := h.claimAll cs
  idle h := h.idle
  begin st h := h.begin st
  sweep h := h.sweep

end Departed
end Session
end AtMostOnce
