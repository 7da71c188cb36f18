import AtMostOnce.Json.Document
import AtMostOnce.Text.Blank
import AtMostOnce.Text.Utf8

/-! Requests and responses. -/
namespace AtMostOnce.Http

structure Request where
  method : String
  target : String
  headers : List (String × Bytes)
  body : Bytes

/-- A response, by its status and what it says of itself. -/
structure Response where
  status : Nat
  contentType : Option String := none
  /-- The methods of the target. -/
  allow : Option String := none
  allowOrigin : Option String := none
  /-- The document as it arrives. -/
  body : Option Json.Document := none

def jsonType : String := "application/json"

/-- A response that carries a document. -/
def Response.json (status : Nat) (body : Json.Document) : Response :=
  { status := status, contentType := some jsonType, body := some body.received }

/-- Visible ASCII, the space and the tab. -/
def isHeaderText (b : UInt8) : Bool := (0x20 ≤ b && b < 0x7F) || b = 0x09

namespace Request

/-- The first header of that name, which is given in lower case. -/
def header? (r : Request) (name : String) : Option Bytes :=
  (r.headers.find? fun h => h.1.map Char.toLower = name).map Prod.snd

/-- The header of that name, if all of it is text. -/
def headerText? (r : Request) (name : String) : Option (List Char) :=
  (r.header? name).bind fun value =>
    if value.all isHeaderText then some (value.map fun b => Char.ofNat b.toNat) else none

/-- The header of that name without the white space around it. One that is missing or is not text
counts as empty. -/
def headerWord (r : Request) (name : String) : String :=
  String.ofList (Text.trimList ((r.headerText? name).getD []))

end Request
end AtMostOnce.Http
