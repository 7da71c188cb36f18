import AtMostOnce.Json.Scan

/-! Passing over a value that is not wanted, however deep it is nested. -/
namespace AtMostOnce.Json

theorem skipSpace_length_le (bytes : Bytes) : (skipSpace bytes).length ≤ bytes.length :=
  (List.dropWhile_sublist _).length_le

theorem length_lt_of_skipSpace {bytes rest : Bytes} {b : UInt8}
    (h : skipSpace bytes = b :: rest) : rest.length < bytes.length := by
  have := skipSpace_length_le bytes
  rw [h, List.length_cons] at this
  omega

theorem skipString_length_le {bytes rest : Bytes} (h : skipString bytes = .ok rest) :
    rest.length ≤ bytes.length := by
  fun_induction skipString bytes <;> simp_all <;> omega

theorem skipWord_length_le {word bytes rest : Bytes} (h : skipWord word bytes = .ok rest) :
    rest.length ≤ bytes.length := by
  fun_induction skipWord word bytes <;> simp_all
  omega

private theorem dropWhile_length_le (p : UInt8 → Bool) (bytes : Bytes) :
    (bytes.dropWhile p).length ≤ bytes.length := (List.dropWhile_sublist _).length_le

theorem unsignedRest_length_le (bytes : Bytes) : (unsignedRest bytes).length ≤ bytes.length := by
  unfold unsignedRest
  split <;> simp

theorem skipExponent_length_le {bytes rest : Bytes} (h : skipExponent bytes = .ok rest) :
    rest.length ≤ bytes.length := by
  unfold skipExponent at h
  split at h
  · rename_i b bs
    split at h
    · have hs := unsignedRest_length_le bs
      split at h
      · rename_i d ds hd
        split at h
        · cases h
          have := dropWhile_length_le isDigit ds
          rw [hd] at hs
          simp only [List.length_cons] at hs ⊢
          omega
        · cases h
      · cases h
    · cases h
      exact Nat.le_refl _
  · cases h
    exact Nat.le_refl _

theorem skipFraction_length_le {bytes rest : Bytes} (h : skipFraction bytes = .ok rest) :
    rest.length ≤ bytes.length := by
  unfold skipFraction at h
  split at h
  · rename_i d ds
    split at h
    · have := skipExponent_length_le h
      have := dropWhile_length_le isDigit ds
      simp only [List.length_cons]
      omega
    · cases h
  · cases h
  · exact skipExponent_length_le h

theorem skipNumber_length_le {bytes rest : Bytes} (h : skipNumber bytes = .ok rest) :
    rest.length < bytes.length := by
  unfold skipNumber at h
  split at h
  · cases h
  · rename_i b bs
    rw [List.length_cons]
    split at h
    · split at h
      · split at h
        · cases h
        · exact Nat.lt_succ_of_le (skipFraction_length_le h)
      · cases h
        simp
    · split at h
      · have := skipFraction_length_le h
        have := dropWhile_length_le isDigit bs
        omega
      · cases h

theorem skipScalar_length_le {b : UInt8} {bytes rest : Bytes} (h : skipScalar b bytes = .ok rest) :
    rest.length ≤ bytes.length := by
  unfold skipScalar at h
  split at h
  · exact skipString_length_le h
  split at h
  · exact Nat.le_of_lt (skipNumber_length_le h)
  split at h
  · have := skipNumber_length_le h
    rw [List.length_cons] at this
    omega
  split at h
  · exact skipWord_length_le h
  · cases h

/-- A bracket that is still open. -/
inductive Bracket where
  | list
  | object
deriving DecidableEq

mutual

/-- Passes over a value and then over what is left inside the open brackets. -/
def skipValue (inside : List Bracket) (bytes : Bytes) : Except ReadError Bytes :=
  match _h : skipSpace bytes with
  | [] => .error .truncated
  | b :: rest =>
    if b = 0x5B then
      match _h' : skipSpace rest with
      | [] => .error .truncated
      | c :: rest' => if c = 0x5D then skipRest inside rest' else skipValue (.list :: inside) rest
    else if b = 0x7B then
      match _h' : skipSpace rest with
      | [] => .error .truncated
      | c :: rest' => if c = 0x7D then skipRest inside rest' else skipMember inside rest
    else
      match _h' : skipScalar b rest with
      | .error f => .error f
      | .ok rest' => skipRest inside rest'
termination_by bytes.length
decreasing_by
  all_goals have hb := length_lt_of_skipSpace _h
  · have := length_lt_of_skipSpace _h'
    omega
  · exact hb
  · have := length_lt_of_skipSpace _h'
    omega
  · exact hb
  · have := skipScalar_length_le _h'
    omega

/-- Passes over a key and its value in an object, and then over what is left. -/
def skipMember (inside : List Bracket) (bytes : Bytes) : Except ReadError Bytes :=
  match _h : skipSpace bytes with
  | [] => .error .truncated
  | b :: rest =>
    if b = 0x22 then
      match _h' : skipString rest with
      | .error f => .error f
      | .ok rest' =>
        match _h'' : skipSpace rest' with
        | [] => .error .truncated
        | c :: rest'' =>
          if c = 0x3A then skipValue (.object :: inside) rest'' else .error .malformed
    else .error .malformed
termination_by bytes.length
decreasing_by
  have := length_lt_of_skipSpace _h
  have := skipString_length_le _h'
  have := length_lt_of_skipSpace _h''
  omega

/-- Passes over what is left inside the open brackets after a value. -/
def skipRest (inside : List Bracket) (bytes : Bytes) : Except ReadError Bytes :=
  match inside with
  | [] => .ok bytes
  | bracket :: outside =>
    match _h : skipSpace bytes with
    | [] => .error .truncated
    | b :: rest =>
      match bracket with
      | .list =>
        if b = 0x2C then skipValue (.list :: outside) rest
        else if b = 0x5D then skipRest outside rest
        else .error .malformed
      | .object =>
        if b = 0x2C then skipMember outside rest
        else if b = 0x7D then skipRest outside rest
        else .error .malformed
termination_by bytes.length
decreasing_by all_goals exact length_lt_of_skipSpace _h

end

/-- What is left after a value is never longer than the text before it. -/
theorem skip_length_le (n : Nat) : ∀ (inside : List Bracket) (bytes rest : Bytes),
    bytes.length ≤ n →
      (skipValue inside bytes = .ok rest → rest.length ≤ bytes.length) ∧
      (skipMember inside bytes = .ok rest → rest.length ≤ bytes.length) ∧
      (skipRest inside bytes = .ok rest → rest.length ≤ bytes.length) := by
  induction n with
  | zero =>
    intro inside bytes rest hn
    obtain rfl : bytes = [] := List.eq_nil_of_length_eq_zero (by omega)
    refine ⟨fun h => ?_, fun h => ?_, fun h => ?_⟩
    · unfold skipValue at h
      simp [skipSpace] at h
    · unfold skipMember at h
      simp [skipSpace] at h
    · unfold skipRest at h
      split at h
      · cases h
        simp
      · simp [skipSpace] at h
  | succ n ih =>
    intro inside bytes rest hn
    refine ⟨fun h => ?_, fun h => ?_, fun h => ?_⟩
    · unfold skipValue at h
      split at h
      · cases h
      · rename_i b bs hb
        have hlt := length_lt_of_skipSpace hb
        split at h
        · split at h
          · cases h
          · rename_i c cs hc
            have := length_lt_of_skipSpace hc
            split at h
            · have := (ih inside cs rest (by omega)).2.2 h
              omega
            · have := (ih (.list :: inside) bs rest (by omega)).1 h
              omega
        · split at h
          · split at h
            · cases h
            · rename_i c cs hc
              have := length_lt_of_skipSpace hc
              split at h
              · have := (ih inside cs rest (by omega)).2.2 h
                omega
              · have := (ih inside bs rest (by omega)).2.1 h
                omega
          · split at h
            · cases h
            · rename_i cs hc
              have := skipScalar_length_le hc
              have := (ih inside cs rest (by omega)).2.2 h
              omega
    · unfold skipMember at h
      split at h
      · cases h
      · rename_i b bs hb
        have hlt := length_lt_of_skipSpace hb
        split at h
        · split at h
          · cases h
          · rename_i cs hc
            have := skipString_length_le hc
            split at h
            · cases h
            · rename_i d ds hd
              have := length_lt_of_skipSpace hd
              split at h
              · have := (ih (.object :: inside) ds rest (by omega)).1 h
                omega
              · cases h
        · cases h
    · cases inside with
      | nil =>
        unfold skipRest at h
        cases h
        exact Nat.le_refl _
      | cons bracket outside =>
        unfold skipRest at h
        split at h
        · cases h
        · rename_i b bs hb
          have hlt := length_lt_of_skipSpace hb
          cases bracket with
          | list =>
            dsimp only at h
            split at h
            · have := (ih (.list :: outside) bs rest (by omega)).1 h
              omega
            split at h
            · have := (ih outside bs rest (by omega)).2.2 h
              omega
            · cases h
          | object =>
            dsimp only at h
            split at h
            · have := (ih outside bs rest (by omega)).2.1 h
              omega
            split at h
            · have := (ih outside bs rest (by omega)).2.2 h
              omega
            · cases h

theorem skipValue_length_le {inside : List Bracket} {bytes rest : Bytes}
    (h : skipValue inside bytes = .ok rest) : rest.length ≤ bytes.length :=
  (skip_length_le bytes.length inside bytes rest (Nat.le_refl _)).1 h

end AtMostOnce.Json
