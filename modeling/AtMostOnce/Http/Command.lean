import AtMostOnce.Http.MediaType
import AtMostOnce.Http.Message
import AtMostOnce.Json.Record

/-! Commands, as the bodies of requests state them. -/
namespace AtMostOnce.Http

/-- A file is to be created. -/
structure Creation where
  path : String

namespace Creation

def read (bytes : Bytes) : Except Json.ReadError (Creation × Bytes) := do
  match ← Json.readRecord ["path"] bytes with
  | ([path], rest) => pure (⟨path⟩, rest)
  | _ => throw .mismatched

/-- What is wrong with a creation. -/
def complaint? (c : Creation) : Option String :=
  if c.path = "" then some "Path cannot be empty" else none

end Creation

/-- A file is to be renamed. -/
structure Renaming where
  src : String
  dst : String

namespace Renaming

def read (bytes : Bytes) : Except Json.ReadError (Renaming × Bytes) := do
  match ← Json.readRecord ["src", "dst"] bytes with
  | ([src, dst], rest) => pure (⟨src, dst⟩, rest)
  | _ => throw .mismatched

/-- What is wrong with a renaming. -/
def complaint? (r : Renaming) : Option String :=
  if r.src = "" ∨ r.dst = "" then some "Source and destination cannot be empty" else none

end Renaming

/-- Why a body is refused. -/
inductive BodyError where
  | unsupportedType
  | tooLarge
  | unreadable (e : Json.ReadError)
deriving DecidableEq

namespace BodyError

def status : BodyError → Nat
  | unsupportedType => 415
  | tooLarge => 413
  | unreadable .mismatched => 422
  | unreadable _ => 400

def response (e : BodyError) : Response :=
  { status := e.status, contentType := some "text/plain; charset=utf-8" }

end BodyError

/-- The number of bytes that a body may have. -/
def maxBodyLength : Nat := 2 * 1024 * 1024

/-- Whether a request says that its body is a JSON text. -/
def Request.hasJsonType (r : Request) : Bool :=
  (((r.headerText? "content-type").bind MediaType.read?).map MediaType.isJson).getD false

/-- Reads the body of a request. What follows the command is not looked at. -/
def Request.command {α : Type} (r : Request) (read : Bytes → Except Json.ReadError (α × Bytes)) :
    Except BodyError α :=
  if !r.hasJsonType then .error .unsupportedType
  else if maxBodyLength < r.body.length then .error .tooLarge
  else match read r.body with
    | .error e => .error (.unreadable e)
    | .ok (a, _) => .ok a

end AtMostOnce.Http
