import AtMostOnce.Outcome
import AtMostOnce.RequestId
import AtMostOnce.Text.Quoted
import AtMostOnce.Text.TaskNumber

/-! Calls, the handlers they bring along, and the answers they get. -/
namespace AtMostOnce

/-- What a handler has thrown. -/
inductive Payload where
  | text (s : String)
  | foreign

/-- An ending that no caller was promised. It is never remembered. -/
inductive Breakdown where
  /-- An undeclared error, as a chain of contexts with the outermost first. -/
  | undeclared (context : List String)
  /-- The handler has thrown. -/
  | thrown (payload : Payload)
  /-- The handler has thrown before it began to run on its own. -/
  | stillborn (text : String)

def Payload.shown : Payload → String
  | text s => s
  | foreign => "non-string panic payload"

/-- Only the outermost context shows. -/
def Breakdown.text : Breakdown → String
  | undeclared context => context.headD ""
  | thrown payload => "handler panicked: " ++ payload.shown
  | stillborn text => "task N panicked with message " ++ Text.quoted text

/-- The text as a caller is told it. That of a stillborn handler has lost its number already. -/
def Breakdown.report (b : Breakdown) : String :=
  match b with
  | stillborn _ => b.text
  | _ => String.ofList (Text.unnumbered b.text.toList)

inductive Ending (V : Type) where
  | value (v : V)
  | failure (e : WideError)
  | breakdown (b : Breakdown)

structure Handler (V : Type) where
  /-- The gate at which the handler waits before it does anything else. -/
  gate : Option String := none
  ending : Ending V

namespace Handler
variable {V : Type}

/-- The gate that a handler comes to; one that is stillborn comes to none. -/
def gate? (h : Handler V) : Option String :=
  match h.ending with
  | .breakdown (.stillborn _) => none
  | _ => h.gate

/-- What a handler leaves: an outcome to remember, or a breakdown. -/
def result (h : Handler V) : Except Breakdown (Outcome V) :=
  match h.ending with
  | .value v => .ok (.capture WideError.toFailure (.ok v))
  | .failure e => .ok (.capture WideError.toFailure (.error e))
  | .breakdown b => .error b

end Handler

structure Call (V : Type) where
  name : String
  id : RequestId
  vocabulary : Vocabulary
  handler : Handler V

inductive CallFailure where
  | declared (f : Fault)
  | internal (b : Breakdown)

def CallFailure.text : CallFailure → String
  | declared f => f.text
  | internal b => "Internal error: " ++ b.text

/-- The text as the caller is told it. -/
def CallFailure.report : CallFailure → String
  | declared f => f.text
  | internal b => "Internal error: " ++ b.report

abbrev Answer (V : Type) := Except CallFailure V

/-- The answer of a caller to whom an outcome is replayed. -/
def Call.answer {V : Type} (c : Call V) (o : Outcome V) : Answer V :=
  (o.replay c.vocabulary.fault).mapError .declared

end AtMostOnce
