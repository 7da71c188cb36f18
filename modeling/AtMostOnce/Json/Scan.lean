import AtMostOnce.Text.Utf8
import AtMostOnce.Binary64

/-! Scanners over the bytes of a JSON text. Each one is given the rest of the text and returns what
follows the token it has read. -/
namespace AtMostOnce.Json

/-- Why a text is not read. -/
inductive ReadError where
  /-- The text breaks the grammar. -/
  | malformed
  /-- The text holds a value of another shape than the one wanted. -/
  | mismatched
  /-- The text ends too early. -/
  | truncated
deriving DecidableEq

def isSpace (b : UInt8) : Bool := b = 0x20 || b = 0x09 || b = 0x0A || b = 0x0D

def skipSpace (bytes : Bytes) : Bytes := bytes.dropWhile isSpace

def isDigit (b : UInt8) : Bool := 0x30 ≤ b && b ≤ 0x39

def hexValue? (b : UInt8) : Option Nat :=
  if isDigit b then some (b.toNat - 0x30)
  else if 0x61 ≤ b ∧ b ≤ 0x66 then some (b.toNat - 0x57)
  else if 0x41 ≤ b ∧ b ≤ 0x46 then some (b.toNat - 0x37)
  else none

/-- The UTF-16 unit spelled by four hexadecimal digits. -/
def unit? (a b c d : UInt8) : Option Nat := do
  let a ← hexValue? a
  let b ← hexValue? b
  let c ← hexValue? c
  let d ← hexValue? d
  pure (((a * 16 + b) * 16 + c) * 16 + d)

/-- The byte that a backslash and one letter stand for. -/
def escaped? (b : UInt8) : Option UInt8 :=
  match b with
  | 0x22 | 0x5C | 0x2F => some b
  | 0x62 => some 0x08
  | 0x66 => some 0x0C
  | 0x6E => some 0x0A
  | 0x72 => some 0x0D
  | 0x74 => some 0x09
  | _ => none

def isHighSurrogate (n : Nat) : Bool := 0xD800 ≤ n && n ≤ 0xDBFF

def isLowSurrogate (n : Nat) : Bool := 0xDC00 ≤ n && n ≤ 0xDFFF

/-- The bytes of a code point, the last one first. -/
def pushed (n : Nat) : Bytes := (String.utf8EncodeChar (Char.ofNat n)).reverse

/-- The bytes of a string up to its closing quotation mark; `done` holds those before the point
reached, the last one first. A surrogate is read only as half of a pair. -/
def contents (done : Bytes) : Bytes → Except ReadError (Bytes × Bytes)
  | [] => .error .truncated
  | 0x22 :: rest => .ok (done.reverse, rest)
  | [0x5C] => .error .truncated
  | 0x5C :: 0x75 :: a :: b :: c :: d :: rest =>
    match unit? a b c d with
    | none => .error .malformed
    | some n =>
      if isLowSurrogate n then .error .malformed
      else if isHighSurrogate n then
        match rest with
        | [] | [0x5C] => .error .truncated
        | 0x5C :: 0x75 :: a :: b :: c :: d :: rest =>
          match unit? a b c d with
          | none => .error .malformed
          | some m =>
            if isLowSurrogate m then
              contents (pushed (0x10000 + (n - 0xD800) * 0x400 + (m - 0xDC00)) ++ done) rest
            else .error .malformed
        | 0x5C :: 0x75 :: _ => .error .truncated
        | _ => .error .malformed
      else contents (pushed n ++ done) rest
  | 0x5C :: 0x75 :: _ => .error .truncated
  | 0x5C :: e :: rest =>
    match escaped? e with
    | some b => contents (b :: done) rest
    | none => .error .malformed
  | b :: rest => if b < 0x20 then .error .malformed else contents (b :: done) rest

/-- The text of a string whose opening quotation mark has been read. -/
def stringRest (bytes : Bytes) : Except ReadError (String × Bytes) :=
  match contents [] bytes with
  | .error f => .error f
  | .ok (raw, rest) =>
    match Text.Utf8.text? raw with
    | some s => .ok (s, rest)
    | none => .error .malformed

/-- Passes over a string whose opening quotation mark has been read. Neither surrogates nor the
well-formedness of the bytes matter in a string that is not kept. -/
def skipString : Bytes → Except ReadError Bytes
  | [] => .error .truncated
  | 0x22 :: rest => .ok rest
  | [0x5C] => .error .truncated
  | 0x5C :: 0x75 :: a :: b :: c :: d :: rest =>
    if (unit? a b c d).isSome then skipString rest else .error .malformed
  | 0x5C :: 0x75 :: _ => .error .truncated
  | 0x5C :: e :: rest => if (escaped? e).isSome then skipString rest else .error .malformed
  | b :: rest => if b < 0x20 then .error .malformed else skipString rest

/-- Passes over the bytes `word`. -/
def skipWord : Bytes → Bytes → Except ReadError Bytes
  | [], rest => .ok rest
  | _ :: _, [] => .error .truncated
  | w :: word, b :: rest => if w = b then skipWord word rest else .error .malformed

/-- The rest of `null`, `true` or `false` after its first letter. -/
def wordAfter? (b : UInt8) : Option Bytes :=
  match b with
  | 0x6E => some [0x75, 0x6C, 0x6C]
  | 0x74 => some [0x72, 0x75, 0x65]
  | 0x66 => some [0x61, 0x6C, 0x73, 0x65]
  | _ => none

def isExponentMark (b : UInt8) : Bool := b = 0x65 || b = 0x45

/-- What follows an optional sign. -/
def unsignedRest : Bytes → Bytes
  | 0x2B :: rest => rest
  | 0x2D :: rest => rest
  | rest => rest

/-- Passes over an exponent, if one follows. -/
def skipExponent : Bytes → Except ReadError Bytes
  | b :: rest =>
    if isExponentMark b then
      match unsignedRest rest with
      | d :: rest => if isDigit d then .ok (rest.dropWhile isDigit) else .error .malformed
      | [] => .error .malformed
    else .ok (b :: rest)
  | [] => .ok []

/-- Passes over a fraction and an exponent, if they follow. -/
def skipFraction : Bytes → Except ReadError Bytes
  | 0x2E :: d :: rest =>
    if isDigit d then skipExponent (rest.dropWhile isDigit) else .error .malformed
  | [0x2E] => .error .malformed
  | rest => skipExponent rest

/-- Passes over a number without its sign. A number that breaks off is malformed. -/
def skipNumber : Bytes → Except ReadError Bytes
  | [] => .error .malformed
  | b :: rest =>
    if b = 0x30 then
      match rest with
      | d :: _ => if isDigit d then .error .malformed else skipFraction rest
      | [] => .ok []
    else if isDigit b then skipFraction (rest.dropWhile isDigit)
    else .error .malformed

/-- Passes over a word, number or string that begins with `b`. -/
def skipScalar (b : UInt8) (rest : Bytes) : Except ReadError Bytes :=
  if b = 0x22 then skipString rest
  else if b = 0x2D then skipNumber rest
  else if isDigit b then skipNumber (b :: rest)
  else match wordAfter? b with
    | some word => skipWord word rest
    | none => .error .malformed

/-- The decimal number read so far: `significand * 10 ^ exponent`. Digits that no longer fit into
64 bits are only counted. -/
structure Magnitude where
  significand : Nat
  exponent : Int

def Magnitude.fits (m : Magnitude) (d : UInt8) : Bool :=
  m.significand * 10 + (d.toNat - 0x30) < Nat.pow 2 64

/-- The magnitude after the digits of an integer. -/
def Magnitude.ofInteger : Magnitude → Bytes → Magnitude
  | m, [] => m
  | m, d :: ds =>
    if m.fits d then ofInteger ⟨m.significand * 10 + (d.toNat - 0x30), m.exponent⟩ ds
    else ⟨m.significand, m.exponent + (ds.length + 1 : Nat)⟩

/-- The magnitude after the digits of a fraction. -/
def Magnitude.withFraction : Magnitude → Bytes → Magnitude
  | m, [] => m
  | m, d :: ds =>
    if m.fits d then withFraction ⟨m.significand * 10 + (d.toNat - 0x30), m.exponent - 1⟩ ds
    else m

/-- The error of a complete number that stands where something else is wanted. -/
def Magnitude.readError (m : Magnitude) : ReadError :=
  if Binary64.overflows m.significand m.exponent then .malformed else .mismatched

def digitsValue (digits : Bytes) : Nat := digits.foldl (fun n d => 10 * n + (d.toNat - 0x30)) 0

/-- The error of a number from its exponent on, if one follows. -/
def exponentError (m : Magnitude) : Bytes → ReadError
  | [] => m.readError
  | b :: rest =>
    if isExponentMark b then
      let digits := unsignedRest rest
      let value : Int := digitsValue (digits.takeWhile isDigit)
      match digits with
      | [] => .truncated
      | d :: _ =>
        if isDigit d then
          let down := rest.head? = some 0x2D
          Magnitude.readError
            ⟨m.significand, if down then m.exponent - value else m.exponent + value⟩
        else .malformed
    else m.readError

/-- The error of a number from its fraction on, if one follows. -/
def fractionError (m : Magnitude) : Bytes → ReadError
  | 0x2E :: rest =>
    match rest with
    | [] => .truncated
    | d :: _ =>
      if isDigit d then
        exponentError (m.withFraction (rest.takeWhile isDigit)) (rest.dropWhile isDigit)
      else .malformed
  | rest => exponentError m rest

/-- The error of a number without its sign that stands where something else is wanted: it has to be
well formed and in range to count as a value at all. -/
def numberError : Bytes → ReadError
  | [] => .truncated
  | b :: rest =>
    if b = 0x30 then
      if (rest.head?.map isDigit).getD false then .malformed else fractionError ⟨0, 0⟩ rest
    else if isDigit b then
      let digits := (b :: rest).takeWhile isDigit
      fractionError (Magnitude.ofInteger ⟨0, 0⟩ digits) (rest.dropWhile isDigit)
    else .malformed

/-- The error of a value that begins with `b` and stands where something else is wanted. -/
def mismatch (b : UInt8) (rest : Bytes) : ReadError :=
  if b = 0x5B || b = 0x7B then .mismatched
  else if b = 0x22 then
    match stringRest rest with
    | .ok _ => .mismatched
    | .error f => f
  else if b = 0x2D then numberError rest
  else if isDigit b then numberError (b :: rest)
  else match wordAfter? b with
    | some word =>
      match skipWord word rest with
      | .ok _ => .mismatched
      | .error f => f
    | none => .malformed

end AtMostOnce.Json
