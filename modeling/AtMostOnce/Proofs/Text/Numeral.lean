import AtMostOnce.Text.Numeral
import AtMostOnce.Proofs.Text.Trim
import Mathlib.Data.Nat.Digits.Defs

/-! Numerals. A text is read as a number exactly if it is spelt out in digits of that value. -/
namespace AtMostOnce.Text

/-- A numeral of `n`: one or more decimal digits, the most significant first, perhaps with a plus
sign before them. -/
def IsNumeral (s : List Char) (n : Nat) : Prop :=
  ∃ digits : List Nat, digits ≠ [] ∧ (∀ d ∈ digits, d < 10) ∧ n = Nat.ofDigits 10 digits.reverse ∧
    (s = digits.map Nat.digitChar ∨ s = '+' :: digits.map Nat.digitChar)

/-- A numeral with nothing around it but white space. -/
def Spells (s : List Char) (n : Nat) : Prop :=
  ∃ before numeral after, s = before ++ numeral ++ after ∧ (∀ c ∈ before, isBlank c) ∧
    IsNumeral numeral n ∧ ∀ c ∈ after, isBlank c

theorem isDigit_iff (c : Char) : c.isDigit ↔ ∃ d < 10, c = Nat.digitChar d := by
  constructor
  · intro h
    have hc : 48 ≤ c.toNat ∧ c.toNat ≤ 57 := by
      simpa [Char.isDigit, UInt32.le_iff_toNat_le] using h
    have hshown : ∀ d < 10, Nat.digitChar d = Char.ofNat (48 + d) := by decide
    refine ⟨c.toNat - 48, by omega, ?_⟩
    rw [hshown _ (by omega), Nat.add_sub_cancel' hc.1, Char.ofNat_toNat]
  · rintro ⟨d, hd, rfl⟩
    exact (by decide : ∀ d < 10, (Nat.digitChar d).isDigit) d hd

theorem all_isDigit_iff (s : List Char) :
    s.all Char.isDigit ↔
      ∃ digits : List Nat, (∀ d ∈ digits, d < 10) ∧ s = digits.map Nat.digitChar := by
  induction s with
  | nil => exact ⟨fun _ => ⟨[], nofun, rfl⟩, fun _ => rfl⟩
  | cons c s ih =>
    rw [List.all_cons, Bool.and_eq_true, isDigit_iff, ih]
    constructor
    · rintro ⟨⟨d, hd, rfl⟩, digits, hdigits, rfl⟩
      exact ⟨d :: digits, List.forall_mem_cons.mpr ⟨hd, hdigits⟩, rfl⟩
    · rintro ⟨digits, hdigits, heq⟩
      cases digits with
      | nil => cases heq
      | cons d digits =>
        obtain ⟨hd, hdigits⟩ := List.forall_mem_cons.mp hdigits
        obtain ⟨rfl, rfl⟩ := List.cons.inj heq
        exact ⟨⟨d, hd, rfl⟩, digits, hdigits, rfl⟩

theorem decimalValue_map_digitChar {digits : List Nat} (h : ∀ d ∈ digits, d < 10) :
    decimalValue (digits.map Nat.digitChar) = Nat.ofDigits 10 digits.reverse := by
  induction digits using List.reverseRecOn with
  | nil => rfl
  | append_singleton digits d ih =>
    obtain ⟨hdigits, hd⟩ := List.forall_mem_append.mp h
    have hvalue : (Nat.digitChar d).toNat - '0'.toNat = d :=
      (by decide : ∀ d < 10, (Nat.digitChar d).toNat - '0'.toNat = d) d (hd d List.mem_cons_self)
    have hlast : decimalValue (digits.map Nat.digitChar ++ [Nat.digitChar d]) =
        10 * decimalValue (digits.map Nat.digitChar) + ((Nat.digitChar d).toNat - '0'.toNat) :=
      List.foldl_append
    rw [List.map_append, List.map_singleton, hlast, hvalue, ih hdigits, List.reverse_append,
      List.reverse_singleton, List.singleton_append, Nat.ofDigits_cons, Nat.add_comm]

theorem eq_unsigned (s : List Char) : s = unsigned s ∨ s = '+' :: unsigned s := by
  unfold unsigned
  split
  · exact .inr rfl
  · exact .inl rfl

/-- Digits do not begin with a sign. -/
theorem unsigned_map_digitChar {digits : List Nat} (h : ∀ d ∈ digits, d < 10) :
    unsigned (digits.map Nat.digitChar) = digits.map Nat.digitChar := by
  unfold unsigned
  split
  · rename_i s heq
    have hsign : '+'.isDigit := by
      refine List.all_eq_true.mp ((all_isDigit_iff _).mpr ⟨digits, h, rfl⟩) '+' ?_
      rw [heq]
      exact List.mem_cons_self
    cases hsign
  · rfl

theorem numeral?_eq_some_iff (bound n : Nat) (s : List Char) :
    numeral? bound s = some n ↔ IsNumeral s n ∧ n < bound := by
  unfold numeral?
  dsimp only
  constructor
  · intro h
    split at h
    · rename_i hs
      obtain ⟨hne, hall, hlt⟩ := hs
      cases h
      obtain ⟨digits, hdigits, heq⟩ := (all_isDigit_iff _).mp hall
      refine ⟨⟨digits, ?_, hdigits, ?_, ?_⟩, hlt⟩
      · rintro rfl
        exact hne heq
      · rw [heq, decimalValue_map_digitChar hdigits]
      · rw [← heq]
        exact eq_unsigned s
    · cases h
  · rintro ⟨⟨digits, hne, hdigits, rfl, hs⟩, hlt⟩
    have heq : unsigned s = digits.map Nat.digitChar := by
      obtain rfl | rfl := hs
      · exact unsigned_map_digitChar hdigits
      · rfl
    rw [heq, decimalValue_map_digitChar hdigits, if_pos]
    exact ⟨by simpa using hne, (all_isDigit_iff _).mpr ⟨digits, hdigits, rfl⟩, hlt⟩

/-- There is no white space in a numeral. -/
theorem IsNumeral.not_isBlank {s : List Char} {n : Nat} (h : IsNumeral s n) :
    ∀ c ∈ s, ¬ isBlank c := by
  obtain ⟨digits, -, hdigits, -, hs⟩ := h
  have hnone : ∀ c ∈ digits.map Nat.digitChar, ¬ isBlank c := by
    refine List.forall_mem_map.mpr fun d hd => ?_
    exact (by decide : ∀ d < 10, ¬ isBlank (Nat.digitChar d)) d (hdigits d hd)
  obtain rfl | rfl := hs
  · exact hnone
  · exact List.forall_mem_cons.mpr ⟨by decide, hnone⟩

theorem isNumeral_trimList_iff (s : List Char) (n : Nat) :
    IsNumeral (trimList s) n ↔ Spells s n := by
  constructor
  · intro h
    obtain ⟨before, after, heq, hbefore, hafter⟩ := exists_trimList s
    exact ⟨before, trimList s, after, heq, hbefore, h, hafter⟩
  · rintro ⟨before, numeral, after, rfl, hbefore, h, hafter⟩
    rwa [trimList_append hbefore h.not_isBlank hafter]

end AtMostOnce.Text
