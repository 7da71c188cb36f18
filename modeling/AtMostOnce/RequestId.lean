import AtMostOnce.Json.Record
import AtMostOnce.Json.Written

/-! Names of logical calls. -/
namespace AtMostOnce

/-- The name that all attempts at one call share. Two names are the same when their texts are. -/
structure RequestId where
  text : String
deriving DecidableEq

namespace RequestId

/-- Names are ordered by code points. -/
def compare (a b : RequestId) : Ordering := compareOfLessAndEq a.text b.text

def toJson (r : RequestId) : String := Json.literal r.text

def ofJson (bytes : Bytes) : Except Json.ReadError RequestId :=
  (Json.whole (Json.readString bytes)).map RequestId.mk

end RequestId
end AtMostOnce
