import AtMostOnce.Session
import AtMostOnce.Proofs.Sweep
import Mathlib.Data.List.Induction
import Mathlib.Logic.Relation

/-! Sessions at work. Between its steps a session has executions that can go on and callers that are
to claim. Here they do so one at a time and in any order, and calls, gates, drops, the clock and
purges may come between. Every run of a session is one such order. -/
namespace AtMostOnce

structure Activity (V : Type) where
  session : Session V
  /-- The executions that can go on. -/
  ready : List (Execution V) := []
  /-- The callers that are to claim. -/
  claimants : List (Call V) := []

/-- The execution once the caller of that name has gone away. -/
def Execution.leave {V : Type} (name : String) (e : Execution V) : Execution V :=
  if e.call.name = name then { e with attended := false } else e

namespace Activity
variable {V : Type}

/-- The handlers that have been started and have not ended. -/
def unsettled (a : Activity V) : List (Execution V) := a.session.parked ++ a.ready

/-- The calls that have not been answered and whose callers have not gone away. -/
def unfinished (a : Activity V) : List (Call V) :=
  a.session.unfinished ++ a.ready.flatMap Execution.caller ++ a.claimants

def openGate (a : Activity V) (gate : String) : Activity V where
  session := { a.session with
    opened := gate :: a.session.opened
    parked := (a.session.parked.partition fun e => e.closedGate? a.session.opened = some gate).2 }
  ready := a.ready ++
    (a.session.parked.partition fun e => e.closedGate? a.session.opened = some gate).1
  claimants := a.claimants

def drop (a : Activity V) (name : String) : Activity V where
  session := { a.session with
    parked := a.session.parked.map (Execution.leave name)
    waiters := a.session.waiters.filter fun w => w.call.name ≠ name }.note
      (.dropped name (a.unfinished.any fun c => c.name = name))
  ready := a.ready.map (Execution.leave name)
  claimants := a.claimants.filter fun c => c.name ≠ name

/-- One thing that happens in a session. -/
inductive Move : Activity V → Activity V → Prop where
  | arrive (a : Activity V) (c : Call V) : Move a { a with claimants := c :: a.claimants }
  | claim (a : Activity V) (c : Call V) (cs : List (Call V)) (h : a.claimants.Perm (c :: cs)) :
    Move a ⟨(a.session.claim c).2, a.ready ++ (a.session.claim c).1.toList, cs⟩
  | proceed (a : Activity V) (e : Execution V) (es : List (Execution V))
    (h : a.ready.Perm (e :: es)) :
    Move a ⟨(a.session.proceed e).2, es, a.claimants ++ (a.session.proceed e).1⟩
  | openGate (a : Activity V) (gate : String) : Move a (a.openGate gate)
  | drop (a : Activity V) (name : String) : Move a (a.drop name)
  | advance (a : Activity V) (d : Nat) :
    Move a { a with session := { a.session with now := a.session.now + d } }
  | purge (a : Activity V) : Move a { a with session := a.session.purge }
  | sweep (a : Activity V) : Move a { a with session := a.session.sweep }
  | startSweep (a : Activity V) (timer : Timer) (interval : Nat) :
    Move a { a with session := { a.session with
      sweeps := a.session.sweeps ++ [.start timer interval a.session.now] } }
  | stopSweeps (a : Activity V) : Move a { a with session := { a.session with sweeps := [] } }

/-- One thing that a session does by itself. -/
inductive Work : Activity V → Activity V → Prop where
  | claim (a : Activity V) (c : Call V) (cs : List (Call V)) (h : a.claimants.Perm (c :: cs)) :
    Work a ⟨(a.session.claim c).2, a.ready ++ (a.session.claim c).1.toList, cs⟩
  | proceed (a : Activity V) (e : Execution V) (es : List (Execution V))
    (h : a.ready.Perm (e :: es)) :
    Work a ⟨(a.session.proceed e).2, es, a.claimants ++ (a.session.proceed e).1⟩

theorem Work.move {a b : Activity V} (h : Work a b) : Move a b := by
  cases h with
  | claim c cs h => exact .claim a c cs h
  | proceed e es h => exact .proceed a e es h

/-- What can come of a new session, whatever the bounds on its memory and whatever happens. -/
def Reachable (maxSize ttl : Nat) (a : Activity V) : Prop :=
  Relation.ReflTransGen Move { session := { coordinator := .new maxSize ttl } } a

theorem Reachable.works {maxSize ttl : Nat} {a b : Activity V} (h : Reachable maxSize ttl a)
    (hw : Relation.ReflTransGen Work a b) : Reachable maxSize ttl b :=
  h.trans (Relation.ReflTransGen.mono (fun _ _ => Work.move) _ _ hw)

theorem works_claimAll (s : Session V) (es : List (Execution V)) {cs cs' : List (Call V)}
    (h : cs.Perm cs') :
    Relation.ReflTransGen Work ⟨s, es, cs⟩
      ⟨(s.claimAll cs').2, es ++ (s.claimAll cs').1, []⟩ := by
  induction cs' generalizing s es cs with
  | nil =>
    rw [h.eq_nil, Session.claimAll, List.append_nil]
  | cons c cs' ih =>
    have first : Work ⟨s, es, cs⟩ ⟨(s.claim c).2, es ++ (s.claim c).1.toList, cs'⟩ :=
      .claim ⟨s, es, cs⟩ c cs' h
    have rest := ih (s.claim c).2 (es ++ (s.claim c).1.toList) (List.Perm.refl cs')
    rw [List.append_assoc] at rest
    exact rest.head first

theorem works_proceedAll (s : Session V) (es : List (Execution V)) (cs : List (Call V)) :
    Relation.ReflTransGen Work ⟨s, es, cs⟩
      ⟨(s.proceedAll es).2, [], cs ++ (s.proceedAll es).1⟩ := by
  induction es generalizing s cs with
  | nil =>
    rw [Session.proceedAll, List.append_nil]
  | cons e es ih =>
    have first : Work ⟨s, e :: es, cs⟩ ⟨(s.proceed e).2, es, cs ++ (s.proceed e).1⟩ :=
      .proceed ⟨s, e :: es, cs⟩ e es (List.Perm.refl _)
    have rest := ih (s.proceed e).2 (cs ++ (s.proceed e).1)
    rw [List.append_assoc] at rest
    exact rest.head first

theorem works_round (σ : Schedule V) (s : Session V) (ready : List (Execution V)) :
    let round := s.proceedAll ready
    let claims := round.2.claimAll (σ.arrange round.2.events.length round.1)
    Relation.ReflTransGen Work ⟨s, ready, []⟩ ⟨claims.2, claims.1, []⟩ := by
  intro round claims
  have hp := works_proceedAll s ready []
  have hc := works_claimAll round.2 [] (σ.perm round.2.events.length round.1).symm
  exact hp.trans hc

theorem works_settle (σ : Schedule V) (s : Session V) (ready : List (Execution V)) :
    Relation.ReflTransGen Work ⟨s, ready, []⟩ ⟨s.settle σ ready, [], []⟩ := by
  fun_induction Session.settle σ s ready with
  | case1 s ready round claims h =>
    have hr : Relation.ReflTransGen Work ⟨s, ready, []⟩ ⟨claims.2, claims.1, []⟩ :=
      works_round σ s ready
    rw [h] at hr
    exact hr
  | case2 s ready round claims h ih => exact (works_round σ s ready).trans ih

/-- What a step does by itself. Work may be left from the steps before it. -/
def start (a : Activity V) : Step V → Activity V
  | .call c => { a with claimants := c :: a.claimants }
  | .openGate gate => a.openGate gate
  | .drop name => a.drop name
  | .advance d => { a with session := { a.session with now := a.session.now + d } }
  | .purge => { a with session := a.session.purge }
  | .startSweep timer interval => { a with session := { a.session with
      sweeps := a.session.sweeps ++ [.start timer interval a.session.now] } }
  | .stopSweeps => { a with session := { a.session with sweeps := [] } }
  | .look => a

/-- What can come of a new session in which the given steps have been taken, however the work goes
on between them. -/
inductive Reached (maxSize ttl : Nat) : List (Step V) → Activity V → Prop where
  | new : Reached maxSize ttl [] { session := { coordinator := .new maxSize ttl } }
  | start {steps : List (Step V)} {a : Activity V} (h : Reached maxSize ttl steps a)
    (st : Step V) : Reached maxSize ttl (steps ++ [st]) (a.start st)
  | work {steps : List (Step V)} {a b : Activity V} (h : Reached maxSize ttl steps a)
    (hw : Work a b) : Reached maxSize ttl steps b
  | sweep {steps : List (Step V)} {a : Activity V} (h : Reached maxSize ttl steps a) :
    Reached maxSize ttl steps { a with session := a.session.sweep }

theorem moves_start (a : Activity V) (st : Step V) :
    Relation.ReflTransGen Move a (a.start st) := by
  cases st with
  | call c => exact .single (.arrive a c)
  | openGate gate => exact .single (.openGate a gate)
  | drop name => exact .single (.drop a name)
  | advance d => exact .single (.advance a d)
  | purge => exact .single (.purge a)
  | startSweep timer interval => exact .single (.startSweep a timer interval)
  | stopSweeps => exact .single (.stopSweeps a)
  | look => exact .refl

/-- Whatever is reached by some steps is all that can come of a new session. -/
theorem reachable_iff (maxSize ttl : Nat) (a : Activity V) :
    Reachable maxSize ttl a ↔ ∃ steps, Reached maxSize ttl steps a := by
  constructor
  · intro h
    induction h with
    | refl => exact ⟨[], .new⟩
    | tail _ hm ih =>
      obtain ⟨steps, h⟩ := ih
      cases hm with
      | arrive c => exact ⟨_, h.start (.call c)⟩
      | claim c cs hc => exact ⟨_, h.work (.claim _ c cs hc)⟩
      | proceed e es hr => exact ⟨_, h.work (.proceed _ e es hr)⟩
      | openGate gate => exact ⟨_, h.start (.openGate gate)⟩
      | drop name => exact ⟨_, h.start (.drop name)⟩
      | advance d => exact ⟨_, h.start (.advance d)⟩
      | purge => exact ⟨_, h.start .purge⟩
      | sweep => exact ⟨_, h.sweep⟩
      | startSweep timer interval => exact ⟨_, h.start (.startSweep timer interval)⟩
      | stopSweeps => exact ⟨_, h.start .stopSweeps⟩
  · rintro ⟨steps, h⟩
    induction h with
    | new => exact .refl
    | start _ st ih => exact ih.trans (moves_start _ st)
    | work _ hw ih => exact ih.tail hw.move
    | sweep _ ih => exact ih.tail (.sweep _)

theorem Reached.reachable {maxSize ttl : Nat} {steps : List (Step V)} {a : Activity V}
    (h : Reached maxSize ttl steps a) : Reachable maxSize ttl a :=
  (reachable_iff maxSize ttl a).mpr ⟨steps, h⟩

/-- What a step does before work goes on. -/
def begin (s : Session V) : Step V → Activity V
  | .call c => { session := s, claimants := [c] }
  | .openGate gate => openGate { session := s } gate
  | .drop name => { session := s.drop name }
  | .advance d => { session := { s with now := s.now + d } }
  | .purge => { session := s.purge }
  | .startSweep timer interval =>
    { session := { s with sweeps := s.sweeps ++ [.start timer interval s.now] } }
  | .stopSweeps => { session := { s with sweeps := [] } }
  | .look => { session := s }

theorem works_act (σ : Schedule V) (s : Session V) (st : Step V) :
    Relation.ReflTransGen Work (begin s st) { session := s.act σ st } := by
  cases st with
  | call c =>
    have claims := works_claimAll s [] (List.Perm.refl [c])
    have rest := works_settle σ (s.claim c).2 (s.claim c).1.toList
    simp only [Session.claimAll, List.append_nil, List.nil_append] at claims
    exact claims.trans rest
  | openGate gate => exact works_settle σ _ _
  | _ => exact .refl

theorem drop_session (s : Session V) (name : String) :
    drop { session := s } name = { session := s.drop name } := by
  simp only [drop, unfinished, List.flatMap_nil, List.append_nil, List.map_nil, List.filter_nil]
  rfl

/-- Nothing is left of the steps before. -/
theorem start_session (s : Session V) (st : Step V) : start { session := s } st = begin s st := by
  cases st with
  | drop name => exact drop_session s name
  | _ => rfl

theorem moves_begin (s : Session V) (st : Step V) :
    Relation.ReflTransGen Move { session := s } (begin s st) :=
  start_session s st ▸ moves_start { session := s } st

theorem moves_act (σ : Schedule V) (s : Session V) (st : Step V) :
    Relation.ReflTransGen Move { session := s } { session := s.act σ st } := by
  have works : Relation.ReflTransGen Move (begin s st) { session := s.act σ st } :=
    Relation.ReflTransGen.mono (fun _ _ h => Work.move h) _ _ (works_act σ s st)
  exact (moves_begin s st).trans works

theorem moves_run (σ : Schedule V) (s : Session V) (steps : List (Step V)) :
    Relation.ReflTransGen Move { session := s } { session := s.run σ steps } := by
  induction steps generalizing s with
  | nil => exact .refl
  | cons st steps ih =>
    have first := moves_act σ s st
    exact (first.tail (.sweep _)).trans (ih (s.step σ st))

/-- Whatever a run leaves can come of a new session. -/
theorem reachable_run (σ : Schedule V) (maxSize ttl : Nat) (steps : List (Step V)) :
    Reachable maxSize ttl
      { session := ({ coordinator := .new maxSize ttl } : Session V).run σ steps } :=
  moves_run σ _ steps

/-- What is said of the steps that have been taken and of what they have led to. It holds of a run
if each step brings it about and work keeps it. -/
theorem run_induction {P : List (Step V) → Activity V → Prop} {s : Session V}
    (start : P [] { session := s })
    (begins : ∀ steps s st, P steps { session := s } → P (steps ++ [st]) (begin s st))
    (works : ∀ steps a b, Work a b → P steps a → P steps b)
    (sweeps : ∀ steps s, P steps { session := s } → P steps { session := s.sweep })
    (σ : Schedule V) (steps : List (Step V)) : P steps { session := s.run σ steps } := by
  induction steps using List.reverseRecOn with
  | nil => exact start
  | append_singleton steps st ih =>
    have onward : ∀ a b, Relation.ReflTransGen Work a b → P (steps ++ [st]) a →
        P (steps ++ [st]) b := by
      intro a b h ha
      induction h with
      | refl => exact ha
      | tail _ hw hb => exact works _ _ _ hw hb
    have acted := onward _ _ (works_act σ (s.run σ steps) st) (begins steps _ st ih)
    have swept := sweeps _ _ acted
    rw [Session.run, List.foldl_append]
    exact swept

/-- A run takes its steps, and work goes on in the order of its rounds. -/
theorem reached_run (σ : Schedule V) (maxSize ttl : Nat) (steps : List (Step V)) :
    Reached maxSize ttl steps
      { session := ({ coordinator := .new maxSize ttl } : Session V).run σ steps } := by
  apply run_induction (P := Reached maxSize ttl)
  · exact .new
  · exact fun steps s st h => start_session s st ▸ h.start st
  · exact fun steps a b hw h => h.work hw
  · exact fun steps s h => h.sweep

end Activity
end AtMostOnce
