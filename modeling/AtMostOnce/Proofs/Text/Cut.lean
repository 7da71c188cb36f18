import AtMostOnce.Text.Cut
import Mathlib.Data.List.Basic

/-! Cutting text takes out separators and nothing else. -/
namespace AtMostOnce.Text

theorem pieces_eq_splitOn (sep : Char) (cs : List Char) : pieces sep cs = cs.splitOn sep := by
  induction cs with
  | nil => rfl
  | cons c cs ih =>
    have hne : cs.splitOn sep ≠ [] := List.splitOn_ne_nil sep cs
    rw [List.splitOn_eq_splitOnP] at ih hne ⊢
    rw [pieces, ih, List.splitOnP_cons_eq_if_modifyHead]
    by_cases hc : c = sep
    · simp [hc]
    · rw [if_neg hc, if_neg (by simpa using hc)]
      cases hps : cs.splitOnP (· == sep) with
      | nil => exact absurd hps hne
      | cons p ps => rfl

theorem cut?_eq_some_iff (sep : Char) (cs before after : List Char) :
    cut? sep cs = some (before, after) ↔ cs = before ++ sep :: after ∧ sep ∉ before := by
  induction cs generalizing before with
  | nil => simp [cut?]
  | cons c cs ih =>
    rw [cut?]
    by_cases hc : c = sep
    · rw [if_pos hc, Option.some.injEq, Prod.mk.injEq]
      cases before with
      | nil => simp [hc, eq_comm]
      | cons b bs =>
        simp only [reduceCtorEq, false_and, false_iff]
        rintro ⟨heq, hno⟩
        rw [List.cons_append, List.cons.injEq] at heq
        exact hno (hc ▸ heq.1 ▸ List.mem_cons_self)
    · rw [if_neg hc, Option.map_eq_some_iff]
      cases before with
      | nil => simp [hc]
      | cons b bs =>
        have hrest := ih bs
        constructor
        · rintro ⟨⟨bs', after'⟩, hcut, heq⟩
          cases heq
          obtain ⟨rfl, hno⟩ := hrest.mp hcut
          exact ⟨rfl, by simp [hno, Ne.symm hc]⟩
        · rintro ⟨heq, hno⟩
          obtain ⟨rfl, rfl⟩ := List.cons.inj heq
          exact ⟨(bs, after), hrest.mpr ⟨rfl, List.not_mem_of_not_mem_cons hno⟩, rfl⟩

end AtMostOnce.Text
