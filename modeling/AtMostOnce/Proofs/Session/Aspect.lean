import AtMostOnce.Proofs.Memo.Live
import AtMostOnce.Proofs.Session.Effect

/-! What can be seen of a session by whoever cares for one id. The executions, the callers and the
events of an id make up a small machine of their own. It needs no numbers, since an id has one
execution at a time. -/
namespace AtMostOnce
variable {V : Type}

def Execution.unnumbered (e : Execution V) : Execution V := { e with number := 0 }

def Decision.unnumbered : Decision V → Decision V
  | replay o => replay o
  | wait _ => wait 0
  | execute _ => execute 0

/-- What the event tells of the id, without the numbers of executions. -/
def Event.about? (id : RequestId) : Event V → Option (Event V)
  | claimed now c d => if c.id = id then some (claimed now c d.unnumbered) else none
  | committed now i _ o => if i = id then some (committed now i 0 o) else none
  | rolledBack now i _ k => if i = id then some (rolledBack now i 0 k) else none
  | finished c a => if c.id = id then some (finished c a) else none
  | dropped .. | purged _ => none

/-- The executions of the id, without their numbers. -/
def executionsOf (id : RequestId) (es : List (Execution V)) : List (Execution V) :=
  (es.filter fun e => e.call.id = id).map Execution.unnumbered

def callsOf (id : RequestId) (cs : List (Call V)) : List (Call V) := cs.filter fun c => c.id = id

/-- The part of a session that has to do with one id. -/
@[ext]
structure Aspect (V : Type) where
  now : Instant
  ttl : Nat
  opened : List String
  claimed : Bool
  /-- The outcome held, unless its time is over. -/
  held : Option (Written V)
  parked : List (Execution V)
  waiting : List (Call V)
  told : List (Event V)

namespace Aspect
open Activity

def claim (a : Aspect V) (c : Call V) : Option (Execution V) × Aspect V :=
  if a.claimed then
    (none, { a with waiting := a.waiting ++ [c], told := .claimed a.now c (.wait 0) :: a.told })
  else match a.held with
    | some w => (none, { a with
        told :=
          .finished c (c.answer w.outcome) :: .claimed a.now c (.replay w.outcome) :: a.told })
    | none => (some ⟨c, 0, true⟩, { a with
        claimed := true
        told := .claimed a.now c (.execute 0) :: a.told })

def claimAll (a : Aspect V) : List (Call V) → List (Execution V) × Aspect V
  | [] => ([], a)
  | c :: cs =>
    ((a.claim c).1.toList ++ ((a.claim c).2.claimAll cs).1, ((a.claim c).2.claimAll cs).2)

def proceed (a : Aspect V) (e : Execution V) : List (Call V) × Aspect V :=
  if (e.closedGate? a.opened).isSome then ([], { a with parked := a.parked ++ [e] })
  else match e.call.handler.result with
    | .ok o => ([], { a with
        claimed := false
        held := (some ⟨e.call.id, o, a.now⟩).filter fun w => !w.isExpired a.ttl a.now
        waiting := []
        told := answers (e.caller ++ a.waiting) o ++ .committed a.now e.call.id 0 o :: a.told })
    | .error f => (a.waiting, { a with
        claimed := false
        waiting := []
        told := (e.caller.map fun c => .finished c (.error (.internal f))) ++
          .rolledBack a.now e.call.id 0 a.waiting.length :: a.told })

def proceedAll (a : Aspect V) : List (Execution V) → List (Call V) × Aspect V
  | [] => ([], a)
  | e :: es =>
    ((a.proceed e).1 ++ ((a.proceed e).2.proceedAll es).1, ((a.proceed e).2.proceedAll es).2)

/-- What a step does before work goes on, and the executions that can then go on. -/
def begin (a : Aspect V) : Step V → List (Execution V) × Aspect V
  | .openGate gate =>
    ((a.parked.partition fun e => e.closedGate? a.opened = some gate).1, { a with
      opened := gate :: a.opened
      parked := (a.parked.partition fun e => e.closedGate? a.opened = some gate).2 })
  | .drop name => ([], { a with
      parked := a.parked.map (Execution.leave name)
      waiting := a.waiting.filter fun c => c.name ≠ name })
  | .advance d => ([], { a with
      now := a.now + d
      held := a.held.filter fun w => !w.isExpired a.ttl (a.now + d) })
  | _ => ([], a)

section
variable {a : Aspect V} {c : Call V} {e : Execution V}

theorem claim_of_claimed (h : a.claimed = true) : a.claim c = (none, { a with
    waiting := a.waiting ++ [c]
    told := .claimed a.now c (.wait 0) :: a.told }) := by
  rw [claim, if_pos h]

theorem claim_of_held (h : a.claimed = false) {w : Written V} (hw : a.held = some w) :
    a.claim c = (none, { a with
      told :=
        .finished c (c.answer w.outcome) :: .claimed a.now c (.replay w.outcome) :: a.told }) := by
  rw [claim, h, if_neg Bool.false_ne_true, hw]

theorem claim_of_free (h : a.claimed = false) (hw : a.held = none) :
    a.claim c = (some ⟨c, 0, true⟩, { a with
      claimed := true
      told := .claimed a.now c (.execute 0) :: a.told }) := by
  rw [claim, h, if_neg Bool.false_ne_true, hw]

theorem proceed_of_closed (h : (e.closedGate? a.opened).isSome = true) :
    a.proceed e = ([], { a with parked := a.parked ++ [e] }) := by
  rw [proceed, if_pos h]

theorem proceed_of_ok (h : (e.closedGate? a.opened).isSome = false) {o : Outcome V}
    (result : e.call.handler.result = .ok o) : a.proceed e = ([], { a with
      claimed := false
      held := (some ⟨e.call.id, o, a.now⟩).filter fun w => !w.isExpired a.ttl a.now
      waiting := []
      told := answers (e.caller ++ a.waiting) o ++ .committed a.now e.call.id 0 o :: a.told }) := by
  rw [proceed, h, if_neg Bool.false_ne_true, result]

theorem proceed_of_error (h : (e.closedGate? a.opened).isSome = false) {f : Breakdown}
    (result : e.call.handler.result = .error f) : a.proceed e = (a.waiting, { a with
      claimed := false
      waiting := []
      told := (e.caller.map fun c => .finished c (.error (.internal f))) ++
        .rolledBack a.now e.call.id 0 a.waiting.length :: a.told }) := by
  rw [proceed, h, if_neg Bool.false_ne_true, result]

end
end Aspect

section
variable {id : RequestId}

@[simp] theorem executionsOf_append (es es' : List (Execution V)) :
    executionsOf id (es ++ es') = executionsOf id es ++ executionsOf id es' := by
  simp [executionsOf]

theorem executionsOf_cons_self {e : Execution V} (h : e.call.id = id) (es : List (Execution V)) :
    executionsOf id (e :: es) = e.unnumbered :: executionsOf id es := by
  simp [executionsOf, h]

theorem executionsOf_cons_other {e : Execution V} (h : e.call.id ≠ id)
    (es : List (Execution V)) : executionsOf id (e :: es) = executionsOf id es := by
  simp [executionsOf, h]

theorem executionsOf_filter (p : Execution V → Bool) (hp : ∀ e, p e.unnumbered = p e)
    (es : List (Execution V)) : executionsOf id (es.filter p) = (executionsOf id es).filter p := by
  rw [executionsOf, executionsOf, List.filter_comm, List.filter_map]
  exact congrArg _ (List.filter_congr fun e _ => (hp e).symm)

theorem executionsOf_leave (name : String) (es : List (Execution V)) :
    executionsOf id (es.map (Execution.leave name)) =
      (executionsOf id es).map (Execution.leave name) := by
  have hleave : ∀ e : Execution V, (e.leave name).unnumbered = e.unnumbered.leave name := by
    intro e
    by_cases hn : e.call.name = name <;> simp [Execution.leave, Execution.unnumbered, hn]
  simp [executionsOf, List.filter_map, Function.comp_def, Execution.call_leave, hleave]

@[simp] theorem callsOf_append (cs cs' : List (Call V)) :
    callsOf id (cs ++ cs') = callsOf id cs ++ callsOf id cs' := by
  simp [callsOf]

theorem callsOf_cons_self {c : Call V} (h : c.id = id) (cs : List (Call V)) :
    callsOf id (c :: cs) = c :: callsOf id cs := by
  simp [callsOf, h]

theorem callsOf_cons_other {c : Call V} (h : c.id ≠ id) (cs : List (Call V)) :
    callsOf id (c :: cs) = callsOf id cs := by
  simp [callsOf, h]

theorem callsOf_eq_self {cs : List (Call V)} (h : ∀ c ∈ cs, c.id = id) : callsOf id cs = cs :=
  List.filter_eq_self.mpr fun c hc => decide_eq_true (h c hc)

theorem callsOf_eq_nil {cs : List (Call V)} (h : ∀ c ∈ cs, c.id ≠ id) : callsOf id cs = [] :=
  List.filter_eq_nil_iff.mpr fun c hc => by simpa using h c hc

@[simp] theorem callsOf_callsOf (cs : List (Call V)) :
    callsOf id (callsOf id cs) = callsOf id cs := by
  simp [callsOf]

theorem callsOf_caller (id : RequestId) (e : Execution V) :
    callsOf id e.caller = if e.call.id = id then e.caller else [] := by
  by_cases hid : e.call.id = id <;> cases ha : e.attended <;>
    simp [callsOf, Execution.caller, hid, ha]

theorem filterMap_about?_finished (cs : List (Call V)) (answer : Call V → Answer V) :
    (cs.map fun c => Event.finished c (answer c)).filterMap (Event.about? id) =
      (callsOf id cs).map fun c => .finished c (answer c) := by
  induction cs with
  | nil => rfl
  | cons c cs ih =>
    by_cases h : c.id = id
    · rw [callsOf_cons_self h, List.map_cons, List.map_cons, List.filterMap_cons, ih, Event.about?,
        if_pos h]
    · rw [callsOf_cons_other h, List.map_cons, List.filterMap_cons, ih, Event.about?, if_neg h]

theorem filterMap_about?_answers (cs : List (Call V)) (o : Outcome V) :
    (Activity.answers cs o).filterMap (Event.about? id) = Activity.answers (callsOf id cs) o := by
  rw [Activity.answers, Activity.answers, List.filterMap_reverse, filterMap_about?_finished]

end

namespace Session
open Activity

def aspect (id : RequestId) (s : Session V) : Aspect V where
  now := s.now
  ttl := s.coordinator.memo.ttl
  opened := s.opened
  claimed := s.coordinator.memo.ledger.isClaimed id
  held := s.coordinator.memo.ledger.live? s.now id
  parked := executionsOf id s.parked
  waiting := callsOf id (s.waiters.map Waiter.call)
  told := s.events.filterMap (Event.about? id)

end Session
end AtMostOnce
