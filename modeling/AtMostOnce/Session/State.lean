import AtMostOnce.Coordinator
import AtMostOnce.Session.Call
import AtMostOnce.Sweep

/-! The state of a session: who has been started, who waits, and what has happened. -/
namespace AtMostOnce

/-- A handler that has been started. -/
structure Execution (V : Type) where
  call : Call V
  /-- The number of its claim. -/
  number : Nat
  /-- Whether the caller is still there to be answered. -/
  attended : Bool := true

/-- A caller that waits on the execution with the given number. -/
structure Waiter (V : Type) where
  call : Call V
  number : Nat

inductive Event (V : Type) where
  | claimed (now : Instant) (call : Call V) (decision : Decision V)
  | committed (now : Instant) (id : RequestId) (number : Nat) (outcome : Outcome V)
  /-- The execution has broken down, and so many callers that waited on it have been released. -/
  | rolledBack (now : Instant) (id : RequestId) (number : Nat) (released : Nat)
  | finished (call : Call V) (answer : Answer V)
  /-- A caller has gone away, who was waiting until then or was not. -/
  | dropped (name : String) (waiting : Bool)
  | purged (count : Nat)

structure Session (V : Type) where
  coordinator : Coordinator V
  now : Instant := 0
  /-- Executions that wait at closed gates, in the order in which they came there. -/
  parked : List (Execution V) := []
  waiters : List (Waiter V) := []
  /-- The gates that are open. -/
  opened : List String := []
  sweeps : List Sweep := []
  /-- What has happened, the latest first. -/
  events : List (Event V) := []

variable {V : Type}

/-- The gate that keeps an execution from going on. -/
def Execution.closedGate? (e : Execution V) (opened : List String) : Option String :=
  e.call.handler.gate?.filter fun g => !opened.contains g

/-- The caller of an execution, if it is still there. -/
def Execution.caller (e : Execution V) : List (Call V) := if e.attended then [e.call] else []

namespace Session

def note (s : Session V) (e : Event V) : Session V := { s with events := e :: s.events }

/-- The callers that wait on the execution with the given number. -/
def waitingOn (s : Session V) (number : Nat) : List (Call V) :=
  (s.waiters.filter fun w => w.number = number).map Waiter.call

/-- The session in which nobody waits on the execution with the given number. -/
def dismiss (s : Session V) (number : Nat) : Session V :=
  { s with waiters := s.waiters.filter fun w => w.number ≠ number }

/-- The calls that have not been answered and whose callers have not gone away. -/
def unfinished (s : Session V) : List (Call V) :=
  s.parked.flatMap Execution.caller ++ s.waiters.map Waiter.call

def isWaiting (s : Session V) (name : String) : Bool := s.unfinished.any fun c => c.name = name

/-- The number of handlers started. -/
def started (s : Session V) : Nat :=
  s.events.countP fun
    | .claimed _ _ (.execute _) => true
    | _ => false

/-- What has happened since an earlier state of the session, the earliest first. -/
def since (s earlier : Session V) : List (Event V) :=
  (s.events.take (s.events.length - earlier.events.length)).reverse

end Session
end AtMostOnce
