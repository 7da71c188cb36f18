import AtMostOnce.Decimal

/-! The documents that answers carry. -/
namespace AtMostOnce.Json

/-- A document of texts, counts and measured rates. -/
inductive Document where
  | text (s : String)
  | count (n : Nat)
  | real (x : Binary64)
  | object (fields : List (String × Document))

/-- How a rate arrives: it is written with the fewest digits and read in the quick way. -/
def receivedRate (x : Binary64) : Binary64 := x.fewestDigits.quick

namespace Document
mutual

/-- The document as it arrives. -/
def received : Document → Document
  | text s => text s
  | count n => count n
  | real x => real (receivedRate x)
  | object fields => object (receivedFields fields)

def receivedFields : List (String × Document) → List (String × Document)
  | [] => []
  | (name, d) :: fields => (name, d.received) :: receivedFields fields

end
end Document
end AtMostOnce.Json
