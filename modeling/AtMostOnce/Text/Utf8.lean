/-! UTF-8 read byte by byte. Ill-formed input is cut into its maximal ill-formed parts, so that it
can be refused or repaired. -/
namespace AtMostOnce

abbrev Bytes := List UInt8

namespace Text.Utf8

/-- Where a reader stands: between characters, or inside one with `owed` more bytes to come, the
next of them in `low ≤ b ≤ high`, and `value` read so far. -/
inductive State where
  | between
  | within (owed : Nat) (low high : UInt8) (value : Nat)

/-- The characters completed so far, the last one first; `none` is a maximal ill-formed part. -/
structure Reading where
  state : State := .between
  done : List (Option Char) := []

/-- The state after a byte that begins a character of several bytes. -/
def lead? (b : UInt8) : Option State :=
  if 0xC2 ≤ b ∧ b ≤ 0xDF then some (.within 1 0x80 0xBF (b.toNat - 0xC0))
  else if b = 0xE0 then some (.within 2 0xA0 0xBF 0)
  else if b = 0xED then some (.within 2 0x80 0x9F 0xD)
  else if 0xE1 ≤ b ∧ b ≤ 0xEF then some (.within 2 0x80 0xBF (b.toNat - 0xE0))
  else if b = 0xF0 then some (.within 3 0x90 0xBF 0)
  else if 0xF1 ≤ b ∧ b ≤ 0xF3 then some (.within 3 0x80 0xBF (b.toNat - 0xF0))
  else if b = 0xF4 then some (.within 3 0x80 0x8F 4)
  else none

/-- Reads a byte that begins a character. -/
def Reading.first (done : List (Option Char)) (b : UInt8) : Reading :=
  if b < 0x80 then ⟨.between, some (Char.ofNat b.toNat) :: done⟩
  else match lead? b with
    | some state => ⟨state, done⟩
    | none => ⟨.between, none :: done⟩

/-- Reads one byte. A byte that cannot continue the character begun before it starts anew. -/
def Reading.next (r : Reading) (b : UInt8) : Reading :=
  match r.state with
  | .between => .first r.done b
  | .within owed low high value =>
    if low ≤ b ∧ b ≤ high then
      let value := 64 * value + (b.toNat - 0x80)
      if owed = 1 then ⟨.between, some (Char.ofNat value) :: r.done⟩
      else ⟨.within (owed - 1) 0x80 0xBF value, r.done⟩
    else .first (none :: r.done) b

/-- A character still owed bytes at the end is ill-formed. -/
def Reading.finish (r : Reading) : List (Option Char) :=
  match r.state with
  | .between => r.done.reverse
  | .within .. => (none :: r.done).reverse

def decode (bytes : Bytes) : List (Option Char) := (bytes.foldl Reading.next {}).finish

/-- The text of well-formed bytes. -/
def text? (bytes : Bytes) : Option String := ((decode bytes).mapM id).map String.ofList

/-- The text with U+FFFD in place of each maximal ill-formed part. -/
def repair (bytes : Bytes) : String :=
  String.ofList ((decode bytes).map fun c => c.getD '\uFFFD')

/-- The bytes of a text. -/
def encode (s : String) : Bytes := s.toList.flatMap String.utf8EncodeChar

end Text.Utf8
end AtMostOnce
