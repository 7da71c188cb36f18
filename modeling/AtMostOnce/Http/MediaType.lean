/-! Media types, as a content type names them. -/
namespace AtMostOnce.Http

/-- The characters of which names are made. -/
def isToken (c : Char) : Bool := c.isAlphanum || "!#$%&'*+-.^_`|~".toList.contains c

/-- The characters that may stand between quotation marks. -/
def isQuotable (c : Char) : Bool := ' ' ≤ c && c ≠ '\x7f'

namespace Parameters

/-- Where a reader of parameters stands. -/
inductive State where
  /-- Before a parameter. -/
  | start
  | name
  /-- Behind an equals sign. -/
  | value
  | token
  /-- Behind a quotation mark that opens a value. The next character belongs to the value. -/
  | opened
  | quoted
  /-- Behind a quoted value. -/
  | closed
deriving DecidableEq

def next (s : State) (c : Char) : Option State :=
  match s with
  | .start => if c = ' ' then some .start else if isToken c then some .name else none
  | .name => if isToken c then some .name else if c = '=' then some .value else none
  | .value => if c = '"' then some .opened else if isToken c then some .token else none
  | .token => if c = ';' then some .start else if isToken c then some .token else none
  | .opened => if isQuotable c then some .quoted else none
  | .quoted => if c = '"' then some .closed else if isQuotable c then some .quoted else none
  | .closed => if c = ';' then some .start else if c = ' ' then some .closed else none

/-- Whether parameters may end here; an unquoted value may be empty. -/
def State.isFinal : State → Bool
  | .start | .value | .token | .closed => true
  | .name | .opened | .quoted => false

/-- Whether a text is a list of parameters, each one ended by a semicolon or the end of the text. -/
def wellFormed (s : List Char) : Bool := ((s.foldlM next .start).map State.isFinal).getD false

end Parameters

/-- A media type without its parameters, in lower case. -/
structure MediaType where
  top : List Char
  sub : List Char
  /-- What stands behind the last plus sign. -/
  suffix : Option (List Char)

namespace MediaType

/-- A subtype and its suffix. A plus sign in front of everything else belongs to the subtype. -/
def cutSuffix (s : List Char) : List Char × Option (List Char) :=
  let suffix := (s.reverse.takeWhile (· ≠ '+')).reverse
  match s.reverse.dropWhile (· ≠ '+') with
  | '+' :: c :: before => ((c :: before).reverse, some suffix)
  | _ => (s, none)

/-- Reads a media type, the parameters of which have to be well formed. -/
def read? (text : List Char) : Option MediaType :=
  let top := text.takeWhile isToken
  match text.dropWhile isToken with
  | '/' :: rest =>
    let sub := rest.takeWhile isToken
    let parameters : Bool := match rest.dropWhile isToken with
      | [] => true
      | c :: ps => c = ';' && sub ≠ [] && Parameters.wellFormed ps
    if top ≠ [] ∧ parameters then
      let (sub, suffix) := cutSuffix (sub.map Char.toLower)
      some ⟨top.map Char.toLower, sub, suffix⟩
    else none
  | _ => none

/-- Whether texts of this type are JSON texts. -/
def isJson (m : MediaType) : Bool :=
  m.top = "application".toList &&
    (m.sub = "json".toList || m.suffix = some "json".toList)

end MediaType
end AtMostOnce.Http
