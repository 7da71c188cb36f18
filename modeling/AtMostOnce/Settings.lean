import AtMostOnce.Access
import AtMostOnce.Bounds
import AtMostOnce.Text.Blank
import AtMostOnce.Text.Cut
import AtMostOnce.Text.Numeral
import AtMostOnce.Text.Utf8

/-! Settings, as they are read from variables. A variable that is not well-formed text counts as
unset, and so does a numeral that cannot be read; only an unknown kind of access is refused. -/
namespace AtMostOnce

inductive Variable where
  | maxSize
  | timeToLive
  | port
  | sweepInterval
  | authType
  | users
  | journal
deriving DecidableEq

namespace Variable

def name : Variable → String
  | maxSize => "REPLAY_MAX_SIZE"
  | timeToLive => "REPLAY_TTL_MS"
  | port => "SERVER_PORT"
  | sweepInterval => "CLEANUP_INTERVAL_MS"
  | authType => "AUTH_TYPE"
  | users => "AUTH_USERS"
  | journal => "JOURNAL_PATH"

def all : List Variable := [maxSize, timeToLive, port, sweepInterval, authType, users, journal]

end Variable

/-- The contents of the variables that are set. -/
abbrev Environment := Variable → Option Bytes

structure Settings where
  maxSize : Nat := Bounds.default.maxSize
  /-- Milliseconds. -/
  timeToLive : Nat := Bounds.default.timeToLive
  port : Nat := 3000
  /-- Milliseconds from one sweep to the next. -/
  sweepInterval : Nat := 1000
  authType : AuthType := .simple
  /-- The secret of each user. -/
  users : Table String String := .empty
  /-- The path of the file in which renames are recorded. -/
  journal : Option Bytes := none

namespace Settings

/-- The text of a variable that is set and well formed. -/
def text? (env : Environment) (v : Variable) : Option String := (env v).bind Text.Utf8.text?

/-- The numeral in a variable, white space around it aside. -/
def numeral? (env : Environment) (v : Variable) (bound : Nat) : Option Nat :=
  (text? env v).bind fun s => Text.numeral? bound (Text.trimList s.toList)

/-- Everyone is admitted where nothing is said. -/
def readAuthType (raw : Option String) : Except ConfigError AuthType :=
  match raw.map Text.trim with
  | none => .ok .simple
  | some s => if s = "" then .ok .simple else AuthType.ofText s

/-- The user and the secret of one entry, cut at its first colon. The user is trimmed and not blank;
the secret is taken as it is. -/
def readUser (piece : List Char) : Option (String × String) := do
  let (user, secret) ← Text.cut? ':' piece
  let user := Text.trimList user
  if user = [] then none else some (.ofList user, .ofList secret)

/-- Users and secrets from entries between commas. Of several entries for a user the last one
wins. -/
def readUsers (raw : String) : Table String String :=
  .ofList ((Text.pieces ',' raw.toList).filterMap readUser)

def read (env : Environment) : Except ConfigError Settings := do
  let unset : Settings := {}
  let authType ← readAuthType (text? env .authType)
  pure {
    maxSize := (numeral? env .maxSize (Nat.pow 2 64)).getD unset.maxSize
    timeToLive := (numeral? env .timeToLive (Nat.pow 2 64)).getD unset.timeToLive
    port := (numeral? env .port (Nat.pow 2 16)).getD unset.port
    sweepInterval := (numeral? env .sweepInterval (Nat.pow 2 64)).getD unset.sweepInterval
    authType := authType
    users := ((text? env .users).map readUsers).getD unset.users
    journal := env .journal }

/-- The bounds of each memory. -/
def bounds (s : Settings) : Except ConfigError Bounds :=
  Bounds.of s.maxSize s.timeToLive

def access (s : Settings) : Access := .of s.authType s.users

end Settings
end AtMostOnce
