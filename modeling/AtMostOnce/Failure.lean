import AtMostOnce.Failure.Io

/-! Declared failures of handlers, and the records that are kept of them. -/
namespace AtMostOnce

inductive FailureKind where
  | domain
  | io
deriving DecidableEq

def FailureKind.name : FailureKind → String
  | domain => "domain"
  | io => "io"

/-- The record of a declared failure. -/
structure Failure where
  kind : FailureKind
  /-- The code of a domain error, or the name of the kind of an I/O error. -/
  code : String
  message : String
  cause : Option String
deriving DecidableEq

/-- A failure in the terms of the handler's own domain. -/
structure DomainError where
  code : String
  message : String
  cause : Option String := none
deriving DecidableEq

namespace DomainError

def text (e : DomainError) : String := e.code ++ ": " ++ e.message

def toFailure (e : DomainError) : Failure := ⟨.domain, e.code, e.message, e.cause⟩

end DomainError

/-- A failure of a handler that may also fail at input or output. -/
inductive WideError where
  | domain (e : DomainError)
  | io (e : IoError)
deriving DecidableEq

namespace WideError

def text : WideError → String
  | domain e => e.text
  | io e => "I/O failure: " ++ e.text

def toFailure : WideError → Failure
  | domain e => e.toFailure
  | io e => ⟨.io, e.kind.name, e.text, e.source⟩

end WideError
end AtMostOnce
