import AtMostOnce.Session.State

/-! Sessions of concurrent calls on one coordinator. After every step all work that can go on does
so, in rounds: first each ready execution goes on, in the order in which they became ready, then
each caller whose execution has broken down claims again. -/
namespace AtMostOnce

/-- The order in which released callers claim again. It may depend on how much has happened. -/
structure Schedule (V : Type) where
  arrange : Nat → List (Call V) → List (Call V)
  perm : ∀ n calls, (arrange n calls).Perm calls

/-- Released callers claim in the order in which they began to wait. -/
def Schedule.arrival {V : Type} : Schedule V := ⟨fun _ calls => calls, fun _ _ => .refl _⟩

inductive Step (V : Type) where
  | call (c : Call V)
  | openGate (gate : String)
  /-- The caller of that name goes away. An execution that it has started carries on. -/
  | drop (name : String)
  /-- The clock is moved on by so many nanoseconds. -/
  | advance (d : Nat)
  | purge
  /-- A sweep is started that purges once per interval. -/
  | startSweep (timer : Timer) (interval : Nat)
  | stopSweeps
  | look

namespace Session
variable {V : Type}

/-- A caller claims its id. It is answered at once, or begins to wait, or starts its handler. -/
def claim (s : Session V) (c : Call V) : Option (Execution V) × Session V :=
  let (decision, k) := s.coordinator.claim s.now c.id
  let s := { s with coordinator := k }.note (.claimed s.now c decision)
  match decision with
  | .replay o => (none, s.note (.finished c (c.answer o)))
  | .wait n => (none, { s with waiters := s.waiters ++ [⟨c, n⟩] })
  | .execute n => (some { call := c, number := n }, s)

/-- Callers claim one after another; the executions they start are listed. -/
def claimAll (s : Session V) : List (Call V) → List (Execution V) × Session V
  | [] => ([], s)
  | c :: cs =>
    let (e, s) := s.claim c
    let (es, s) := s.claimAll cs
    (e.toList ++ es, s)

/-- An execution ends with an outcome, which answers its caller and all that wait on it. -/
def commit (s : Session V) (e : Execution V) (o : Outcome V) : Session V :=
  let answered := e.caller ++ s.waitingOn e.number
  let s := { s with coordinator := s.coordinator.commit s.now e.call.id e.number o }
  let s := (s.dismiss e.number).note (.committed s.now e.call.id e.number o)
  answered.foldl (fun s c => s.note (.finished c (c.answer o))) s

/-- An execution breaks down. Only its own caller is told; those that wait on it are released. -/
def rollBack (s : Session V) (e : Execution V) (b : Breakdown) : List (Call V) × Session V :=
  let released := s.waitingOn e.number
  let s := { s with coordinator := s.coordinator.rollBack e.call.id e.number }
  let s := (s.dismiss e.number).note (.rolledBack s.now e.call.id e.number released.length)
  (released, e.caller.foldl (fun s c => s.note (.finished c (.error (.internal b)))) s)

/-- An execution goes on to its closed gate, or else to its end. The callers it releases are
listed. -/
def proceed (s : Session V) (e : Execution V) : List (Call V) × Session V :=
  if (e.closedGate? s.opened).isSome then ([], { s with parked := s.parked ++ [e] })
  else match e.call.handler.result with
    | .ok o => ([], s.commit e o)
    | .error b => s.rollBack e b

/-- Executions go on one after another; the callers they release are listed. -/
def proceedAll (s : Session V) : List (Execution V) → List (Call V) × Session V
  | [] => ([], s)
  | e :: es =>
    let (released, s) := s.proceed e
    let (others, s) := s.proceedAll es
    (released ++ others, s)

theorem waiters_foldl_note (calls : List (Call V)) (event : Call V → Event V) (s : Session V) :
    (calls.foldl (fun s c => s.note (event c)) s).waiters = s.waiters := by
  induction calls generalizing s with
  | nil => rfl
  | cons c cs ih => exact ih _

theorem length_waitingOn_add_dismiss (s : Session V) (n : Nat) :
    (s.waitingOn n).length + (s.dismiss n).waiters.length = s.waiters.length := by
  simp only [waitingOn, dismiss, List.length_map]
  induction s.waiters with
  | nil => rfl
  | cons w ws ih =>
    simp only [ne_eq, decide_not, List.filter_cons] at ih ⊢
    by_cases h : w.number = n <;> simp only [h, List.length_cons] <;> simp <;> omega

/-- Every released caller was a waiter. -/
theorem length_proceed_le (s : Session V) (e : Execution V) :
    (s.proceed e).1.length + (s.proceed e).2.waiters.length ≤ s.waiters.length := by
  have h := length_waitingOn_add_dismiss s e.number
  unfold proceed
  split
  · simp
  split
  · simp only [commit, waiters_foldl_note, List.length_nil]
    simp only [note, dismiss] at h ⊢
    omega
  · simp only [rollBack, waiters_foldl_note]
    simp only [note, dismiss] at h ⊢
    omega

theorem length_proceedAll_le (s : Session V) (es : List (Execution V)) :
    (s.proceedAll es).1.length + (s.proceedAll es).2.waiters.length ≤ s.waiters.length := by
  induction es generalizing s with
  | nil => simp [proceedAll]
  | cons e es ih =>
    have hp := length_proceed_le s e
    have hr := ih (s.proceed e).2
    simp only [proceedAll, List.length_append]
    omega

/-- A caller that claims becomes an execution or a waiter, or is answered. -/
theorem length_claim_le (s : Session V) (c : Call V) :
    (s.claim c).1.toList.length + (s.claim c).2.waiters.length ≤ s.waiters.length + 1 := by
  unfold claim
  generalize s.coordinator.claim s.now c.id = d
  obtain ⟨decision, k⟩ := d
  cases decision <;> simp [note]
  omega

theorem length_claimAll_le (s : Session V) (cs : List (Call V)) :
    (s.claimAll cs).1.length + (s.claimAll cs).2.waiters.length ≤
      s.waiters.length + cs.length := by
  induction cs generalizing s with
  | nil => simp [claimAll]
  | cons c cs ih =>
    have hc := length_claim_le s c
    have hr := ih (s.claim c).2
    simp only [claimAll, List.length_append, List.length_cons]
    omega

/-- Lets all work go on that can. Each further round starts a handler for a caller that had
waited. -/
def settle (σ : Schedule V) (s : Session V) (ready : List (Execution V)) : Session V :=
  let round := s.proceedAll ready
  let claims := round.2.claimAll (σ.arrange round.2.events.length round.1)
  if claims.1 = [] then claims.2 else settle σ claims.2 claims.1
termination_by s.waiters.length
decreasing_by
  rename_i hne
  have hp := length_proceedAll_le s ready
  have hc := length_claimAll_le (s.proceedAll ready).2
    (σ.arrange (s.proceedAll ready).2.events.length (s.proceedAll ready).1)
  have hs := (σ.perm (s.proceedAll ready).2.events.length (s.proceedAll ready).1).length_eq
  have hn := List.length_pos_iff.mpr hne
  simp only [claims, round] at hn ⊢
  omega

/-- A new call claims its id. -/
def startCall (σ : Schedule V) (s : Session V) (c : Call V) : Session V :=
  let (e, s) := s.claim c
  s.settle σ e.toList

/-- A gate is opened for good, and the executions that wait there go on. -/
def openGate (σ : Schedule V) (s : Session V) (gate : String) : Session V :=
  let (ready, parked) := s.parked.partition fun e => e.closedGate? s.opened = some gate
  { s with opened := gate :: s.opened, parked := parked }.settle σ ready

/-- The caller of that name goes away. -/
def drop (s : Session V) (name : String) : Session V :=
  let leave (e : Execution V) := if e.call.name = name then { e with attended := false } else e
  { s with
    parked := s.parked.map leave
    waiters := s.waiters.filter fun w => w.call.name ≠ name }.note
      (.dropped name (s.isWaiting name))

/-- Each sweep that is due purges once and is armed anew. What they have dropped is told by their
places. -/
def sweepDue (s : Session V) : List (Nat × Nat) × Session V :=
  let purged := Sweep.purgeDue (fun k => k.purge s.now) s.now 0 s.sweeps s.coordinator
  (purged.1, { s with
    coordinator := purged.2
    sweeps := s.sweeps.map fun w => w.advance s.now })

def sweep (s : Session V) : Session V := s.sweepDue.2

def purge (s : Session V) : Session V :=
  let (n, k) := s.coordinator.purge s.now
  { s with coordinator := k }.note (.purged n)

/-- What a step does by itself. -/
def act (σ : Schedule V) (s : Session V) : Step V → Session V
  | .call c => s.startCall σ c
  | .openGate gate => s.openGate σ gate
  | .drop name => s.drop name
  | .advance d => { s with now := s.now + d }
  | .purge => s.purge
  | .startSweep timer interval => { s with sweeps := s.sweeps ++ [.start timer interval s.now] }
  | .stopSweeps => { s with sweeps := [] }
  | .look => s

/-- A step, and then the sweeps that are due. One without an interval is due at every step that is
taken at a whole millisecond. -/
def step (σ : Schedule V) (s : Session V) (st : Step V) : Session V := (s.act σ st).sweep

/-- What the sweeps drop at the end of a step, by their places. -/
def swept (σ : Schedule V) (s : Session V) (st : Step V) : List (Nat × Nat) :=
  (s.act σ st).sweepDue.1

def run (σ : Schedule V) (s : Session V) (steps : List (Step V)) : Session V :=
  steps.foldl (step σ) s

end Session
end AtMostOnce
