/-! Texts that name a task that has panicked. The number of a task depends on what else has been
started and means nothing to a reader, so texts that are told have the letter `N` in its place. -/
namespace AtMostOnce.Text

/-- What comes after the number, if the text begins with a numbered task that has panicked. -/
def afterTaskNumber? (s : List Char) : Option (List Char) :=
  ("task ".toList.isPrefixOf? s).bind fun t =>
    let rest := t.dropWhile Char.isDigit
    if t.takeWhile Char.isDigit ≠ [] ∧ " panicked".toList.isPrefixOf rest then some rest else none

/-- The text in which the first numbered task that has panicked loses its number. -/
def unnumbered : List Char → List Char
  | [] => []
  | c :: cs =>
    match afterTaskNumber? (c :: cs) with
    | some rest => "task N".toList ++ rest
    | none => c :: unnumbered cs

end AtMostOnce.Text
