import AtMostOnce.ConfigError
import AtMostOnce.Table

/-! Who may make calls. -/
namespace AtMostOnce

inductive AuthType where
  /-- Everyone is admitted. -/
  | simple
  /-- Users are admitted with their secrets. -/
  | custom
deriving DecidableEq

namespace AuthType

def name : AuthType → String
  | simple => "SIMPLE"
  | custom => "CUSTOM"

/-- Letters are read without regard to case, but ASCII letters only. An unknown name is refused. -/
def ofText (s : String) : Except ConfigError AuthType :=
  let upper := s.map Char.toUpper
  if upper = simple.name then .ok simple
  else if upper = custom.name then .ok custom
  else .error (.unknownAuthType upper)

end AuthType

inductive AccessError where
  | unknownUser (user : String)
  | invalidCredential (user : String)
deriving DecidableEq

def AccessError.text : AccessError → String
  | unknownUser user => "Unknown user: " ++ user
  | invalidCredential user => "Invalid credential for user: " ++ user

inductive Access where
  | everyone
  | users (secrets : Table String String)

namespace Access

/-- The secrets matter only where users are admitted by them. -/
def of : AuthType → Table String String → Access
  | .simple, _ => everyone
  | .custom, secrets => users secrets

def check (a : Access) (user credential : String) : Except AccessError Unit :=
  match a with
  | everyone => .ok ()
  | users secrets =>
    match secrets.find? user with
    | none => .error (.unknownUser user)
    | some secret => if secret = credential then .ok () else .error (.invalidCredential user)

end Access
end AtMostOnce
