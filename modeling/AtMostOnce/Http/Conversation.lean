import AtMostOnce.Http.Server

/-! Conversations with a server: requests one after another, while time passes and memories are
swept. -/
namespace AtMostOnce.Http

inductive Step where
  | request (r : Request)
  /-- So many nanoseconds pass. -/
  | advance (d : Nat)
  | purge
  /-- A sweep is started that purges both memories once per interval. -/
  | startSweep (timer : Timer) (interval : Nat)

inductive Reply where
  | response (r : Response)
  /-- The numbers of outcomes dropped from either memory. -/
  | purged (creates renames : Nat)
  | silence

namespace Server

/-- The reply to a step, and what the step does by itself. -/
def act (s : Server) : Step → Reply × Server
  | .request r =>
    let (response, s) := s.handle r
    (.response response, s)
  | .advance d => (.silence, { s with clock := s.clock.advance d })
  | .purge =>
    let ((n, m), s) := s.purge
    (.purged n m, s)
  | .startSweep timer interval => (.silence, s.startSweep timer interval)

/-- A step, and then the sweeps that are due. One without an interval is due at every step that is
taken at a whole millisecond. -/
def step (s : Server) (st : Step) : Reply × Server :=
  let (reply, s) := s.act st
  (reply, s.sweep)

/-- What the sweeps drop at the end of a step, by their places. -/
def swept (s : Server) (st : Step) : List (Nat × Nat × Nat) := (s.act st).2.sweepDue.1

/-- The replies to a list of steps, and the server after them. -/
def run (s : Server) : List Step → List Reply × Server
  | [] => ([], s)
  | st :: rest =>
    let (reply, s) := s.step st
    let (replies, s) := s.run rest
    (reply :: replies, s)

end Server
end AtMostOnce.Http
