import AtMostOnce.Failure
import AtMostOnce.Json.Record
import AtMostOnce.Json.Written

/-! Faults: what callers are told of recorded failures. A fault tells less than its record. -/
namespace AtMostOnce

structure DomainFault where
  code : String
  message : String
deriving DecidableEq

namespace DomainFault

def text (f : DomainFault) : String := f.code ++ ": " ++ f.message

def toJson (f : DomainFault) : String :=
  Json.record [("code", f.code), ("message", f.message)]

def ofJson (bytes : Bytes) : Except Json.ReadError DomainFault := do
  match ← Json.whole (Json.readRecord ["code", "message"] bytes) with
  | [code, message] => pure ⟨code, message⟩
  | _ => throw .mismatched

end DomainFault

structure IoFault where
  message : String
deriving DecidableEq

namespace IoFault

def toJson (f : IoFault) : String := Json.record [("message", f.message)]

def ofJson (bytes : Bytes) : Except Json.ReadError IoFault := do
  match ← Json.whole (Json.readRecord ["message"] bytes) with
  | [message] => pure ⟨message⟩
  | _ => throw .mismatched

end IoFault

inductive Fault where
  | domain (f : DomainFault)
  | io (f : IoFault)
deriving DecidableEq

def Fault.text : Fault → String
  | domain f => f.text
  | io f => f.message

/-- Callers that know domain faults only are told of every failure as one. -/
def Failure.narrow (f : Failure) : DomainFault := ⟨f.code, f.message⟩

/-- Of an I/O failure only the message is told. -/
def Failure.wide (f : Failure) : Fault :=
  match f.kind with
  | .domain => .domain f.narrow
  | .io => .io ⟨f.message⟩

/-- The faults that a caller knows. -/
inductive Vocabulary where
  | narrow
  | wide
deriving DecidableEq

def Vocabulary.fault : Vocabulary → Failure → Fault
  | narrow, f => .domain f.narrow
  | wide, f => f.wide

end AtMostOnce
