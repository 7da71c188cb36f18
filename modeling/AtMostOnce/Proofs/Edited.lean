import Mathlib.Data.Multiset.OrderedMonoid

/-! Lists that differ by a few edits, each of which is charged to somebody. -/
namespace AtMostOnce
variable {α β κ : Type}

/-- The second list is the first one after edits that are charged as given. Each of them takes an
element out or puts another in its place. -/
inductive Edited (edit : α → Multiset κ → Option α → Prop) :
    Multiset κ → List α → List α → Prop where
  | nil : Edited edit 0 [] []
  | keep (x : α) {k : Multiset κ} {xs ys : List α} (rest : Edited edit k xs ys) :
    Edited edit k (x :: xs) (x :: ys)
  | edit {x : α} {j k : Multiset κ} {o : Option α} (edited : edit x j o) {xs ys : List α}
    (rest : Edited edit k xs ys) : Edited edit (j + k) (x :: xs) (o.toList ++ ys)

namespace Edited
variable {p : α → Multiset κ → Option α → Prop} {q : β → Multiset κ → Option β → Prop}
  {j k : Multiset κ} {xs ys us vs : List α}

theorem refl (xs : List α) : Edited p 0 xs xs := by
  induction xs with
  | nil => exact .nil
  | cons x xs ih => exact .keep x ih

theorem single {x : α} {o : Option α} (h : p x k o) : Edited p k [x] o.toList := by
  have hsingle : Edited p (k + 0) [x] (o.toList ++ []) := .edit h .nil
  rw [add_zero, List.append_nil] at hsingle
  exact hsingle

theorem append (h : Edited p j xs ys) (h' : Edited p k us vs) :
    Edited p (j + k) (xs ++ us) (ys ++ vs) := by
  induction h with
  | nil =>
    rw [zero_add]
    exact h'
  | keep x rest ih => exact .keep x ih
  | edit edited rest ih =>
    rw [add_assoc, List.append_assoc]
    exact .edit edited ih

theorem reverse (h : Edited p k xs ys) : Edited p k xs.reverse ys.reverse := by
  induction h with
  | nil => exact .nil
  | keep x rest ih =>
    rw [List.reverse_cons, List.reverse_cons]
    have happend := ih.append (.keep x .nil)
    rw [add_zero] at happend
    exact happend
  | @edit x j k o edited xs ys rest ih =>
    have hone : o.toList.reverse = o.toList := by cases o <;> rfl
    rw [List.reverse_cons, List.reverse_append, hone, add_comm]
    exact ih.append (single edited)

theorem flatMap {f : α → List β}
    (hf : ∀ x j o, p x j o → Edited q j (f x) (o.toList.flatMap f)) (h : Edited p k xs ys) :
    Edited q k (xs.flatMap f) (ys.flatMap f) := by
  induction h with
  | nil => exact .nil
  | keep x rest ih =>
    have happend := (refl (p := q) (f x)).append ih
    rw [zero_add] at happend
    exact happend
  | edit edited rest ih =>
    rw [List.flatMap_cons, List.flatMap_append]
    exact (hf _ _ _ edited).append ih

theorem map {f : α → β} (hf : ∀ x j o, p x j o → q (f x) j (o.map f)) (h : Edited p k xs ys) :
    Edited q k (xs.map f) (ys.map f) := by
  rw [List.map_eq_flatMap, List.map_eq_flatMap]
  refine h.flatMap fun x j o hx => ?_
  have hsingle := single (hf x j o hx)
  cases o <;> exact hsingle

/-- A function that does not tell an element from what is put in its place. -/
theorem map_eq {f : α → β} (hf : ∀ x j o, p x j o → o.map f = some (f x))
    (h : Edited p k xs ys) : ys.map f = xs.map f := by
  induction h with
  | nil => rfl
  | keep x rest ih => rw [List.map_cons, List.map_cons, ih]
  | edit edited rest ih =>
    obtain ⟨y, rfl, hy⟩ := Option.map_eq_some_iff.mp (hf _ _ _ edited)
    rw [Option.toList_some, List.singleton_append, List.map_cons, List.map_cons, hy, ih]

section
variable {keep : α → Bool}

/-- Elements that are not edited are found in both lists. -/
theorem filter_eq (hkeep : ∀ x j o, p x j o → ∀ y ∈ x :: o.toList, keep y = false)
    (h : Edited p k xs ys) : ys.filter keep = xs.filter keep := by
  induction h with
  | nil => rfl
  | keep x rest ih => rw [List.filter_cons, List.filter_cons, ih]
  | @edit x j k o edited xs ys rest ih =>
    have hx : keep x = false := hkeep x j o edited x List.mem_cons_self
    have ho : o.toList.filter keep = [] := by
      refine List.filter_eq_nil_iff.mpr fun y hy => ?_
      rw [hkeep x j o edited y (List.mem_cons_of_mem x hy)]
      exact Bool.false_ne_true
    rw [List.filter_append, ho, List.filter_cons, hx, ih]
    rfl

/-- An edit leaves an element on its side. -/
theorem partition (hkeep : ∀ x j o, p x j o → ∀ y ∈ o, keep y = keep x) (h : Edited p k xs ys) :
    ∃ i j, i + j = k ∧ Edited p i (xs.filter keep) (ys.filter keep) ∧
      Edited p j (xs.filter fun x => !keep x) (ys.filter fun x => !keep x) := by
  induction h with
  | nil => exact ⟨0, 0, rfl, .nil, .nil⟩
  | keep x rest ih =>
    obtain ⟨i, j, hk, hin, hout⟩ := ih
    refine ⟨i, j, hk, ?_⟩
    cases hx : keep x with
    | true =>
      simp only [List.filter_cons, hx, Bool.not_true, Bool.false_eq_true, if_true, if_false]
      exact ⟨.keep x hin, hout⟩
    | false =>
      simp only [List.filter_cons, hx, Bool.not_false, Bool.false_eq_true, if_true, if_false]
      exact ⟨hin, .keep x hout⟩
  | @edit x l k o edited xs ys rest ih =>
    obtain ⟨i, j, hk, hin, hout⟩ := ih
    have hside : ∀ q : α → Bool, (∀ y ∈ o, q y = q x) →
        o.toList.filter q = if q x then o.toList else [] := by
      intro q hq
      cases o with
      | none => exact (ite_self _).symm
      | some y =>
        show List.filter q [y] = _
        rw [List.filter_cons, hq y rfl, List.filter_nil]
        rfl
    have hsame : ∀ y ∈ o, keep y = keep x := hkeep x l o edited
    rw [List.filter_append, List.filter_append, hside keep hsame,
      hside (fun x => !keep x) fun y hy => congrArg _ (hsame y hy)]
    cases hx : keep x with
    | true =>
      simp only [List.filter_cons, hx, Bool.not_true, Bool.false_eq_true, if_true, if_false]
      exact ⟨l + i, j, by rw [add_assoc, hk], .edit edited hin, hout⟩
    | false =>
      simp only [List.filter_cons, hx, Bool.not_false, Bool.false_eq_true, if_true, if_false]
      exact ⟨i, l + j, by rw [add_left_comm, hk], hin, .edit edited hout⟩

/-- All edits are among the elements that are kept. -/
theorem filter (hkeep : ∀ x j o, p x j o → ∀ y ∈ x :: o.toList, keep y = true)
    (h : Edited p k xs ys) : Edited p k (xs.filter keep) (ys.filter keep) := by
  induction h with
  | nil => exact .nil
  | keep x rest ih =>
    cases hx : keep x with
    | true =>
      rw [List.filter_cons_of_pos hx, List.filter_cons_of_pos hx]
      exact .keep x ih
    | false =>
      rw [List.filter_cons_of_neg (by rw [hx]; exact Bool.false_ne_true),
        List.filter_cons_of_neg (by rw [hx]; exact Bool.false_ne_true)]
      exact ih
  | @edit x j k o edited xs ys rest ih =>
    have hx : keep x = true := hkeep x j o edited x List.mem_cons_self
    have ho : o.toList.filter keep = o.toList :=
      List.filter_eq_self.mpr fun y hy => hkeep x j o edited y (List.mem_cons_of_mem x hy)
    rw [List.filter_cons_of_pos hx, List.filter_append, ho]
    exact .edit edited ih

end

theorem eq_zero_of_nil (h : Edited p k [] ys) : k = 0 := by
  cases h
  rfl

/-- If each edit is charged to somebody, none is left out of the account. -/
theorem eq_or_exists (charged : ∀ x j o, p x j o → j ≠ 0) (h : Edited p k xs ys) :
    (k = 0 ∧ ys = xs) ∨ (k ≠ 0 ∧ ∃ x ∈ xs, ∃ j o, p x j o) := by
  induction h with
  | nil => exact .inl ⟨rfl, rfl⟩
  | keep x rest ih =>
    rcases ih with ⟨hk, hys⟩ | ⟨hk, y, hy, hedit⟩
    · exact .inl ⟨hk, congrArg _ hys⟩
    · exact .inr ⟨hk, y, List.mem_cons_of_mem _ hy, hedit⟩
  | @edit x j k o edited xs ys rest ih =>
    refine .inr ⟨?_, x, List.mem_cons_self, j, o, edited⟩
    intro hzero
    exact charged x j o edited (add_eq_zero.mp hzero).1

end Edited
end AtMostOnce
