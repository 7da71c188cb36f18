/-! Refusals of a configuration. -/
namespace AtMostOnce

/-- The two bounds of a memory. -/
inductive Bound where
  | maxSize
  | timeToLive
deriving DecidableEq

def Bound.name : Bound → String
  | maxSize => "max_size"
  | timeToLive => "time_to_live_ms"

inductive ConfigError where
  | notPositive (bound : Bound)
  | unknownAuthType (name : String)
deriving DecidableEq

def ConfigError.text : ConfigError → String
  | notPositive bound => bound.name ++ " must be positive"
  | unknownAuthType name => "Invalid configuration: unknown auth type " ++ name

end AtMostOnce
