import AtMostOnce.Json.Record
import AtMostOnce.Json.Written
import AtMostOnce.Proofs.Text.Utf8

/-! String literals. What is written of a text, character by character, is read as that text,
whatever follows it. -/
namespace AtMostOnce.Json

/-- The bytes of some characters. -/
def bytes (cs : List Char) : Bytes := cs.flatMap String.utf8EncodeChar

theorem bytes_append (cs cs' : List Char) : bytes (cs ++ cs') = bytes cs ++ bytes cs' :=
  List.flatMap_append

theorem encode_eq (s : String) : Text.Utf8.encode s = bytes s.toList := rfl

/-- A byte that stands for itself in a string. -/
def IsPlain (b : UInt8) : Prop := 0x20 ≤ b ∧ b ≠ 0x22 ∧ b ≠ 0x5C

theorem contents_plain {b : UInt8} (h : IsPlain b) (done rest : Bytes) :
    contents done (b :: rest) = contents (b :: done) rest := by
  obtain ⟨hspace, hquote, hbackslash⟩ := h
  rw [contents, if_neg (UInt8.not_lt.mpr hspace)]
  all_goals simp [hquote, hbackslash]

theorem contents_append {bs : Bytes} (h : ∀ b ∈ bs, IsPlain b) (done rest : Bytes) :
    contents done (bs ++ rest) = contents (bs.reverse ++ done) rest := by
  induction bs generalizing done with
  | nil => rfl
  | cons b bs ih =>
    obtain ⟨hb, hbs⟩ := List.forall_mem_cons.mp h
    rw [List.cons_append, contents_plain hb, ih hbs, List.reverse_cons, List.append_assoc]
    rfl

theorem contents_unit {a b c d : UInt8} {n : Nat} (h : unit? a b c d = some n) (hn : n < 0xD800)
    (done rest : Bytes) :
    contents done (0x5C :: 0x75 :: a :: b :: c :: d :: rest) =
      contents (pushed n ++ done) rest := by
  have hlow : isLowSurrogate n = false := by
    rw [isLowSurrogate, decide_eq_false (by omega), Bool.false_and]
  have hhigh : isHighSurrogate n = false := by
    rw [isHighSurrogate, decide_eq_false (by omega), Bool.false_and]
  rw [contents, h]
  simp [hlow, hhigh]

/-- The bytes of a character are plain, unless they are to be escaped. -/
theorem isPlain_of_mem_utf8EncodeChar {c : Char} (hspace : 0x20 ≤ c.toNat) (hquote : c ≠ '"')
    (hbackslash : c ≠ '\\') : ∀ b ∈ String.utf8EncodeChar c, IsPlain b := by
  intro b hb
  have hne : ∀ n, c ≠ Char.ofNat n → c.toNat ≠ n :=
    fun n h heq => h (heq ▸ (Char.ofNat_toNat c).symm)
  have hq := hne 0x22 hquote
  have hs := hne 0x5C hbackslash
  have hn : b.toNat = c.toNat ∨ 0x80 ≤ b.toNat := Text.Utf8.toNat_of_mem_bytesOf hb
  unfold IsPlain
  simp only [UInt8.le_iff_toNat_le, ne_eq, ← UInt8.toNat_inj, UInt8.reduceToNat]
  omega

/-- The digits by which a control character is spelt. -/
theorem unit?_hexDigit : ∀ n < 0x20,
    unit? 0x30 0x30 (.ofNat (hexDigit (n / 16)).toNat) (.ofNat (hexDigit (n % 16)).toNat) =
      some n := by
  decide

theorem utf8EncodeChar_hexDigit :
    ∀ d < 16, String.utf8EncodeChar (hexDigit d) = [.ofNat (hexDigit d).toNat] := by
  decide

/-- What is written of a character is read as the character. -/
theorem contents_spelled (c : Char) (done rest : Bytes) :
    contents done (bytes (spelled c) ++ rest) =
      contents ((String.utf8EncodeChar c).reverse ++ done) rest := by
  unfold spelled
  split
  case h_8 hquote hbackslash _ _ _ _ _ =>
    by_cases hcontrol : c.toNat < 0x20
    · rw [if_pos hcontrol]
      have hdigits : bytes ['\\', 'u', '0', '0', hexDigit (c.toNat / 16), hexDigit (c.toNat % 16)] =
          [0x5C, 0x75, 0x30, 0x30, .ofNat (hexDigit (c.toNat / 16)).toNat,
            .ofNat (hexDigit (c.toNat % 16)).toNat] := by
        have hfirst := utf8EncodeChar_hexDigit (c.toNat / 16) (by omega)
        have hlast := utf8EncodeChar_hexDigit (c.toNat % 16) (by omega)
        simp only [bytes, List.flatMap_cons, List.flatMap_nil, hfirst, hlast]
        rfl
      rw [hdigits]
      show contents done (0x5C :: 0x75 :: _ :: _ :: _ :: _ :: rest) = _
      rw [contents_unit (unit?_hexDigit _ hcontrol) (by omega), pushed, Char.ofNat_toNat]
    · rw [if_neg hcontrol, bytes, List.flatMap_singleton]
      exact contents_append (isPlain_of_mem_utf8EncodeChar (by omega) hquote hbackslash) done rest
  all_goals rfl

theorem contents_flatMap_spelled (cs : List Char) (done rest : Bytes) :
    contents done (bytes (cs.flatMap spelled) ++ 0x22 :: rest) =
      .ok (done.reverse ++ bytes cs, rest) := by
  induction cs generalizing done with
  | nil => exact congrArg (fun bs => Except.ok (bs, rest)) (List.append_nil _).symm
  | cons c cs ih =>
    rw [List.flatMap_cons, bytes_append, List.append_assoc, contents_spelled, ih,
      List.reverse_append,
      List.reverse_reverse, List.append_assoc]
    rfl

theorem encode_literal (s : String) :
    Text.Utf8.encode (literal s) = 0x22 :: (bytes (s.toList.flatMap spelled) ++ [0x22]) := by
  rw [encode_eq, literal, String.toList_ofList, List.cons_append, ← List.singleton_append,
    bytes_append,
    bytes_append]
  rfl

/-- A literal without its opening quotation mark. -/
theorem stringRest_literal (s : String) (rest : Bytes) :
    stringRest (bytes (s.toList.flatMap spelled) ++ 0x22 :: rest) = .ok (s, rest) := by
  rw [stringRest, contents_flatMap_spelled]
  dsimp only
  rw [List.reverse_nil, List.nil_append, ← encode_eq, (Text.Utf8.text?_eq_some_iff _ s).mpr rfl]

theorem readString_literal (s : String) (rest : Bytes) :
    readString (Text.Utf8.encode (literal s) ++ rest) = .ok (s, rest) := by
  rw [encode_literal, List.cons_append, List.append_assoc]
  exact stringRest_literal s rest

end AtMostOnce.Json
