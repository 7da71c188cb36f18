import AtMostOnce.Text.Blank
import Mathlib.Data.List.DropRight

/-! Trimming takes off white space and nothing else, and takes off all of it at once. -/
namespace AtMostOnce.Text

theorem trimList_eq (s : List Char) :
    trimList s = (s.dropWhile isBlank).rdropWhile isBlank := rfl

/-- What is left does not begin with white space. -/
theorem dropWhile_trimList (s : List Char) : (trimList s).dropWhile isBlank = trimList s := by
  obtain ⟨rest, hrest⟩ := List.rdropWhile_prefix isBlank (s.dropWhile isBlank)
  have hfirst := List.head?_dropWhile_not isBlank s
  rw [← hrest, ← trimList_eq] at hfirst
  cases htrim : trimList s with
  | nil => rfl
  | cons c cs =>
    rw [htrim] at hfirst
    exact List.dropWhile_cons_of_neg (by simpa using hfirst)

theorem trimList_trimList (s : List Char) : trimList (trimList s) = trimList s := by
  rw [trimList_eq (trimList s), dropWhile_trimList, trimList_eq, List.rdropWhile_idempotent]

theorem trimList_eq_nil_iff (s : List Char) : trimList s = [] ↔ ∀ c ∈ s, isBlank c := by
  rw [trimList_eq, List.rdropWhile_eq_nil_iff]
  constructor
  · intro h
    have hrest : s.dropWhile isBlank = [] := by
      have hall := List.dropWhile_eq_nil_iff.mpr h
      rwa [List.dropWhile_idempotent] at hall
    exact List.dropWhile_eq_nil_iff.mp hrest
  · intro h c hc
    rw [List.dropWhile_eq_nil_iff.mpr h] at hc
    cases hc

/-- What is taken off is white space. -/
theorem exists_trimList (s : List Char) : ∃ before after, s = before ++ trimList s ++ after ∧
    (∀ c ∈ before, isBlank c) ∧ ∀ c ∈ after, isBlank c := by
  refine ⟨s.takeWhile isBlank, (s.dropWhile isBlank).rtakeWhile isBlank, ?_,
    fun c => List.mem_takeWhile_imp, fun c => List.mem_rtakeWhile_imp⟩
  rw [trimList_eq, List.append_assoc, List.rdropWhile_append_rtakeWhile,
    List.takeWhile_append_dropWhile]

/-- Text that has no white space in it is left as it is. -/
theorem trimList_append {before text after : List Char} (hbefore : ∀ c ∈ before, isBlank c)
    (htext : ∀ c ∈ text, ¬ isBlank c) (hafter : ∀ c ∈ after, isBlank c) :
    trimList (before ++ text ++ after) = text := by
  cases text with
  | nil =>
    rw [trimList_eq_nil_iff, List.append_nil]
    exact fun c hc => (List.mem_append.mp hc).elim (hbefore c) (hafter c)
  | cons c cs =>
    have hstart : (before ++ (c :: cs) ++ after).dropWhile isBlank = c :: cs ++ after := by
      rw [List.append_assoc, List.dropWhile_append_of_pos hbefore]
      exact List.dropWhile_cons_of_neg (htext c List.mem_cons_self)
    have hback : (c :: cs).reverse.dropWhile isBlank = (c :: cs).reverse :=
      List.dropWhile_eq_self_iff.mpr fun _ => htext _ (List.mem_reverse.mp (List.getElem_mem _))
    rw [trimList_eq, hstart, List.rdropWhile, List.reverse_append,
      List.dropWhile_append_of_pos (by simpa using hafter), hback, List.reverse_reverse]

theorem toList_trim (s : String) : (trim s).toList = trimList s.toList := String.toList_ofList

/-- Trimming leaves nothing of white space, and something of any other text. -/
theorem trim_eq_empty_iff (s : String) : trim s = "" ↔ ∀ c ∈ s.toList, isBlank c := by
  rw [← trimList_eq_nil_iff, ← toList_trim, String.toList_eq_nil_iff]

end AtMostOnce.Text
