import AtMostOnce.Access
import AtMostOnce.Http.Message
import AtMostOnce.Session.Call

/-! Refusals of requests, and the responses that tell of them. -/
namespace AtMostOnce.Http

inductive Refusal where
  | unauthenticated (e : AccessError)
  | invalidRequest (message : String)
  | domain (f : DomainFault)
  | io (f : IoFault)
  | internal (message : String)
deriving DecidableEq

namespace Refusal

def ofFault : Fault → Refusal
  | .domain f => domain f
  | .io f => io f

def ofCallFailure : CallFailure → Refusal
  | .declared f => ofFault f
  | .internal b => internal b.text

def text : Refusal → String
  | unauthenticated e => e.text
  | invalidRequest message => "Invalid request: " ++ message
  | domain f => f.text
  | io f => "I/O failure: " ++ f.message
  | internal message => "Internal error: " ++ message

def status : Refusal → Nat
  | unauthenticated _ => 401
  | invalidRequest _ => 400
  | domain _ => 409
  | io _ => 503
  | internal _ => 500

def document : Refusal → Json.Document
  | unauthenticated e => .object [("error", .text e.text)]
  | invalidRequest message => .object [("error", .text message)]
  | domain f =>
    .object [("error", .text f.message), ("code", .text f.code), ("kind", .text "domain")]
  | io f => .object [("error", .text f.message), ("kind", .text "io")]
  | internal message => .object [("error", .text message)]

def response (r : Refusal) : Response := .json r.status r.document

end Refusal
end AtMostOnce.Http
