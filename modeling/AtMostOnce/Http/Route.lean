import AtMostOnce.Http.Target

/-! The targets that a server knows, and their methods. -/
namespace AtMostOnce.Http

inductive Route where
  | create
  | rename
  | stats
  | health
deriving DecidableEq

namespace Route

def ofPath? (path : String) : Option Route :=
  if path = "/files" then some create
  else if path = "/files/rename" then some rename
  else if path = "/stats" then some stats
  else if path = "/health" then some health
  else none

def ofTarget? (target : String) : Option Route := (targetPath? target).bind ofPath?

/-- What can be read can be asked for without its body, too. -/
def methods : Route → List String
  | create | rename => ["POST"]
  | stats | health => ["GET", "HEAD"]

def allow (r : Route) : String := ",".intercalate r.methods

end Route

end AtMostOnce.Http
