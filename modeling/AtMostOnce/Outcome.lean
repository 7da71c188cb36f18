import AtMostOnce.Fault

/-! Outcomes: the results of executions that are worth remembering. -/
namespace AtMostOnce

inductive Outcome (V : Type) where
  | success (v : V)
  | failure (f : Failure)
deriving DecidableEq

namespace Outcome
variable {V ε φ : Type}

/-- The outcome of a handler that has ended as declared, with its error recorded by `record`. -/
def capture (record : ε → Failure) : Except ε V → Outcome V
  | .ok v => success v
  | .error e => failure (record e)

/-- What a caller is told of an outcome, the failures put into faults by `fault`. -/
def replay (fault : Failure → φ) : Outcome V → Except φ V
  | success v => .ok v
  | failure f => .error (fault f)

def isSuccess : Outcome V → Bool
  | success _ => true
  | failure _ => false

end Outcome
end AtMostOnce
