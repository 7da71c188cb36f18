import AtMostOnce.Catalog
import AtMostOnce.Coordinator.Idle
import AtMostOnce.Http.Command
import AtMostOnce.Http.Refusal
import AtMostOnce.Http.Route
import AtMostOnce.Settings
import AtMostOnce.Sweep
import AtMostOnce.Timestamp

/-! A server of the catalog. Creations and renamings are made at most once for each request id, by a
coordinator for either; a body is read before its sender is known, and a command is checked last.

A request is answered before the next one arrives. What becomes of calls that overlap, of those that
wait for another call of their id and of those whose callers go away is modelled by sessions, and
not once more for the requests behind which such calls are made. -/
namespace AtMostOnce.Http

def fileDocument (f : File) : Json.Document :=
  .object [("id", .count f.id), ("path", .text f.path),
    ("created_at", .text (Timestamp.zulu f.createdAt))]

structure Server where
  clock : Clock
  access : Access
  catalog : Catalog
  creates : IdleCoordinator File
  renames : IdleCoordinator File
  sweeps : List Sweep := []

namespace Server

/-- A server that has not been asked for anything. -/
def new (bounds : Bounds) (access : Access) (journal : Journal) (origin : Nat) : Server where
  clock := { origin := origin }
  access := access
  catalog := { journal := journal }
  creates := .new bounds.maxSize bounds.ttl
  renames := .new bounds.maxSize bounds.ttl

/-- A server with the given settings, if their bounds are sound. The journal is what is found at the
path that they name. -/
def ofSettings (settings : Settings) (journal : Journal) (origin : Nat) :
    Except ConfigError Server :=
  settings.bounds.map fun bounds => new bounds settings.access journal origin

/-- The id of a request whose sender is admitted. -/
def authorize (s : Server) (r : Request) : Except Refusal RequestId := do
  (s.access.check (r.headerWord "x-auth-user") (r.headerWord "x-auth-credential")).mapError
    .unauthenticated
  let id := r.headerWord "x-request-id"
  if id = "" then throw (.invalidRequest "Missing x-request-id header")
  pure ⟨id⟩

/-- The id and the command of a request that nothing speaks against, or the response to it. The body
comes first, then the sender, the id and the command itself. -/
def accept {α : Type} (s : Server) (r : Request)
    (read : Bytes → Except Json.ReadError (α × Bytes)) (complaint? : α → Option String) :
    Except Response (RequestId × α) := do
  let command ← (r.command read).mapError BodyError.response
  let id ← (s.authorize r).mapError Refusal.response
  match complaint? command with
  | some message => throw (Refusal.invalidRequest message).response
  | none => pure (id, command)

/-- The response that tells of an outcome. -/
def respond (result : Except Fault File) : Response :=
  match result with
  | .ok file => .json 200 (fileDocument file)
  | .error fault => (Refusal.ofFault fault).response

def create (s : Server) (r : Request) : Response × Server :=
  match s.accept r Creation.read Creation.complaint? with
  | .error response => (response, s)
  | .ok (id, command) =>
    let run (c : Catalog) :=
      let (result, c) := c.create s.clock.date command.path
      (Outcome.capture DomainError.toFailure result, c)
    let (outcome, creates, catalog) := s.creates.call s.clock.now id run s.catalog
    (respond (outcome.replay (Vocabulary.fault .narrow)),
      { s with creates := creates, catalog := catalog })

def rename (s : Server) (r : Request) : Response × Server :=
  match s.accept r Renaming.read Renaming.complaint? with
  | .error response => (response, s)
  | .ok (id, command) =>
    let run (c : Catalog) :=
      let (result, c) := c.rename command.src command.dst
      (Outcome.capture WideError.toFailure result, c)
    let (outcome, renames, catalog) := s.renames.call s.clock.now id run s.catalog
    (respond (outcome.replay (Vocabulary.fault .wide)),
      { s with renames := renames, catalog := catalog })

def stats (s : Server) : Response :=
  .json 200 (.object [("create_file", s.creates.toCoordinator.usage.document),
    ("rename_file", s.renames.toCoordinator.usage.document),
    ("files", .count s.catalog.files.size)])

def health (s : Server) : Response :=
  .json 200 (.object [("status", .text "healthy"),
    ("timestamp", .text (Timestamp.offset s.clock.date))])

def serve (s : Server) (r : Request) : Route → Response × Server
  | .create => s.create r
  | .rename => s.rename r
  | .stats => (s.stats, s)
  | .health => (s.health, s)

/-- A question for the options of a target is answered with its methods, if it has any. Any other
request goes to its route, if that has the method. -/
def dispatch (s : Server) (r : Request) : Response × Server :=
  let route? := Route.ofTarget? r.target
  if r.method = "OPTIONS" then ({ status := 200, allow := route?.map Route.allow }, s)
  else match route? with
    | none => ({ status := 404 }, s)
    | some route =>
      if !route.methods.contains r.method then
        ({ status := 405, allow := some route.allow }, s)
      else
        let (response, s) := s.serve r route
        (if r.method = "HEAD" then { response with body := none } else response, s)

/-- Answers a request. Every response may be read from any origin. -/
def handle (s : Server) (r : Request) : Response × Server :=
  let (response, s) := s.dispatch r
  ({ response with allowOrigin := some "*" }, s)

/-- Drops the expired outcomes of both coordinators and counts them. -/
def purge (s : Server) : (Nat × Nat) × Server :=
  let (n, creates) := s.creates.purge s.clock.now
  let (m, renames) := s.renames.purge s.clock.now
  ((n, m), { s with creates := creates, renames := renames })

/-- Each sweep that is due purges once and is armed anew. What they have dropped from either
coordinator is told by their places. -/
def sweepDue (s : Server) : List (Nat × Nat × Nat) × Server :=
  let purged := Sweep.purgeDue purge s.clock.now 0 s.sweeps s
  (purged.1, { purged.2 with sweeps := s.sweeps.map fun w => w.advance s.clock.now })

def sweep (s : Server) : Server := s.sweepDue.2

def startSweep (s : Server) (timer : Timer) (interval : Nat) : Server :=
  { s with sweeps := s.sweeps ++ [.start timer interval s.clock.now] }

end Server
end AtMostOnce.Http
