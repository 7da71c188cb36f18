import AtMostOnce.Json.Skip

/-! Reading strings and flat records. A record of texts may be written as an object, in any order
and with other members among its own, or as the list of its texts. -/
namespace AtMostOnce.Json

theorem contents_length_le {done bytes raw rest : Bytes}
    (h : contents done bytes = .ok (raw, rest)) : rest.length ≤ bytes.length := by
  fun_induction contents done bytes <;> simp_all <;> omega

theorem stringRest_length_le {bytes rest : Bytes} {s : String}
    (h : stringRest bytes = .ok (s, rest)) : rest.length ≤ bytes.length := by
  unfold stringRest at h
  split at h
  · cases h
  · rename_i hc
    split at h
    · cases h
      exact contents_length_le hc
    · cases h

/-- Reads a string. -/
def readString (bytes : Bytes) : Except ReadError (String × Bytes) :=
  match skipSpace bytes with
  | [] => .error .truncated
  | b :: rest => if b = 0x22 then stringRest rest else .error (mismatch b rest)

theorem readString_length_le {bytes rest : Bytes} {s : String}
    (h : readString bytes = .ok (s, rest)) : rest.length ≤ bytes.length := by
  unfold readString at h
  split at h
  · cases h
  · rename_i hb
    split at h
    · have := stringRest_length_le h
      have := length_lt_of_skipSpace hb
      omega
    · cases h

/-- What follows the end of a list in which no further item is wanted. -/
def endList (bytes : Bytes) : Except ReadError Bytes :=
  match skipSpace bytes with
  | [] => .error .truncated
  | b :: rest => if b = 0x5D then .ok rest else .error .malformed

/-- What follows the comma before a further item of a list. -/
def nextItem (bytes : Bytes) : Except ReadError Bytes :=
  match skipSpace bytes with
  | [] => .error .truncated
  | b :: _ => if b = 0x5D then .error .malformed else .ok bytes

/-- Reads a list of as many strings as there are names. -/
def readItems (first : Bool) : List String → Bytes → Except ReadError (List String × Bytes)
  | [], bytes => (endList bytes).map fun rest => ([], rest)
  | _ :: names, bytes =>
    match skipSpace bytes with
    | [] => .error .truncated
    | b :: rest =>
      if b = 0x5D then .error .mismatched
      else do
        let item ← if first then pure (b :: rest)
          else if b = 0x2C then nextItem rest
          else throw .malformed
        let (s, rest) ← readString item
        let (ss, rest) ← readItems false names rest
        pure (s :: ss, rest)

/-- What follows the opening quotation mark of a key, which stands after a comma unless it is the
first one of its object. -/
def keyRest (first : Bool) (b : UInt8) (rest : Bytes) : Except ReadError Bytes :=
  if first then
    if b = 0x22 then .ok rest else .error .malformed
  else if b = 0x2C then
    match skipSpace rest with
    | [] => .error .truncated
    | c :: rest => if c = 0x22 then .ok rest else .error .malformed
  else .error .malformed

theorem keyRest_length_le {first : Bool} {b : UInt8} {bytes rest : Bytes}
    (h : keyRest first b bytes = .ok rest) : rest.length ≤ bytes.length := by
  unfold keyRest at h
  split at h
  · split at h
    · cases h
      exact Nat.le_refl _
    · cases h
  split at h
  · split at h
    · cases h
    · rename_i hc
      split at h
      · cases h
        exact Nat.le_of_lt (length_lt_of_skipSpace hc)
      · cases h
  · cases h

/-- What follows a colon. -/
def colonRest (bytes : Bytes) : Except ReadError Bytes :=
  match skipSpace bytes with
  | [] => .error .truncated
  | b :: rest => if b = 0x3A then .ok rest else .error .malformed

theorem colonRest_length_le {bytes rest : Bytes} (h : colonRest bytes = .ok rest) :
    rest.length ≤ bytes.length := by
  unfold colonRest at h
  split at h
  · cases h
  · rename_i hb
    split at h
    · cases h
      exact Nat.le_of_lt (length_lt_of_skipSpace hb)
    · cases h

/-- Reads the members of an object, of which those under the given names are kept and must be
strings. No kept name may occur twice. -/
def readMembers (names : List String) (found : List (String × String)) (first : Bool)
    (bytes : Bytes) : Except ReadError (List (String × String) × Bytes) :=
  match _h : skipSpace bytes with
  | [] => .error .truncated
  | b :: rest =>
    if b = 0x7D then .ok (found, rest)
    else match _hk : keyRest first b rest with
      | .error f => .error f
      | .ok inKey =>
        match _hs : stringRest inKey with
        | .error f => .error f
        | .ok (key, afterKey) =>
          if names.contains key && (found.lookup key).isSome then .error .mismatched
          else match _hc : colonRest afterKey with
            | .error f => .error f
            | .ok value =>
              if names.contains key then
                match _hv : readString value with
                | .error f => .error f
                | .ok (s, rest) => readMembers names ((key, s) :: found) false rest
              else
                match _hv : skipValue [] value with
                | .error f => .error f
                | .ok rest => readMembers names found false rest
termination_by bytes.length
decreasing_by
  all_goals
    have := length_lt_of_skipSpace _h
    have := keyRest_length_le _hk
    have := stringRest_length_le _hs
    have := colonRest_length_le _hc
  · have := readString_length_le _hv
    omega
  · have := skipValue_length_le _hv
    omega

/-- Reads a record of texts with the given names, and returns its texts in the order of the
names. -/
def readRecord (names : List String) (bytes : Bytes) : Except ReadError (List String × Bytes) :=
  match skipSpace bytes with
  | [] => .error .truncated
  | b :: rest =>
    if b = 0x5B then readItems true names rest
    else if b = 0x7B then
      match readMembers names [] true rest with
      | .error f => .error f
      | .ok (found, rest) =>
        match names.mapM fun name => found.lookup name with
        | some texts => .ok (texts, rest)
        | none => .error .mismatched
    else .error (mismatch b rest)

/-- The value read from a text that holds nothing else. -/
def whole {α : Type} (reading : Except ReadError (α × Bytes)) : Except ReadError α :=
  match reading with
  | .error f => .error f
  | .ok (a, rest) => if (skipSpace rest).isEmpty then .ok a else .error .malformed

end AtMostOnce.Json
