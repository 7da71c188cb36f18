import AtMostOnce.OrderedTable
import Mathlib.Data.List.Basic

/-! Tables in the order of their keys. A look-up finds what has been bound last, whatever the order;
and a key above all others comes last. -/
namespace AtMostOnce.OrderedTable
variable {α : Type} {t t' : OrderedTable α} {k : Nat} {v : α}

theorem eq_of_entries_eq (h : t.entries = t'.entries) : t = t' := by
  obtain ⟨entries, _⟩ := t
  obtain ⟨entries', _⟩ := t'
  cases h
  rfl

/-- A look-up finds exactly the listed bindings. -/
theorem find?_eq_some_iff (t : OrderedTable α) (k : Nat) (v : α) :
    t.find? k = some v ↔ (k, v) ∈ t.entries := by
  obtain ⟨entries, increasing⟩ := t
  unfold find?
  dsimp only
  induction entries with
  | nil => simp
  | cons e es ih =>
    obtain ⟨first, rest⟩ := List.pairwise_cons.mp increasing
    obtain ⟨k', v'⟩ := e
    by_cases hk : k = k'
    · subst hk
      have absent : (k, v) ∉ es := fun hm => Nat.lt_irrefl k (first (k, v) hm)
      simp [absent, eq_comm]
    · rw [List.lookup_cons, beq_false_of_ne hk]
      simpa [hk] using ih rest

theorem find?_filter (t : OrderedTable α) (p : Nat × α → Bool) (k : Nat) (v : α) :
    (t.filter p).find? k = some v ↔ t.find? k = some v ∧ p (k, v) = true := by
  rw [find?_eq_some_iff, find?_eq_some_iff]
  exact List.mem_filter

theorem find?_erase (t : OrderedTable α) (k k' : Nat) :
    (t.erase k).find? k' = if k' = k then none else t.find? k' := by
  apply Option.ext
  intro v
  rw [erase, find?_filter]
  by_cases h : k' = k <;> simp [h]

theorem find?_insert (t : OrderedTable α) (k k' : Nat) (v : α) :
    (t.insert k v).find? k' = if k' = k then some v else t.find? k' := by
  obtain ⟨entries, increasing⟩ := t
  unfold find? insert
  dsimp only
  induction entries with
  | nil =>
    by_cases h : k' = k
    · simp [insertEntry, h]
    · simp [insertEntry, List.lookup_cons, beq_false_of_ne h, h]
  | cons e es ih =>
    obtain ⟨k₁, v₁⟩ := e
    have hrest := ih (List.pairwise_cons.mp increasing).2
    rw [insertEntry]
    by_cases h : k' = k
    · subst h
      rw [if_pos rfl] at hrest ⊢
      split
      · exact List.lookup_cons_self
      split
      · exact List.lookup_cons_self
      · rename_i hne
        rw [List.lookup_cons, beq_false_of_ne hne]
        exact hrest
    · rw [if_neg h] at hrest ⊢
      split
      · rw [List.lookup_cons, beq_false_of_ne h]
      split
      · rename_i heq
        dsimp only at heq
        rw [← heq, List.lookup_cons, beq_false_of_ne h, List.lookup_cons, beq_false_of_ne h]
      · rw [List.lookup_cons, List.lookup_cons, hrest]

/-- The first binding is that of the least key. -/
theorem first?_eq_some_iff (t : OrderedTable α) (k : Nat) (v : α) : t.first? = some (k, v) ↔
    t.find? k = some v ∧ ∀ k' v', t.find? k' = some v' → k ≤ k' := by
  simp only [find?_eq_some_iff]
  obtain ⟨entries, increasing⟩ := t
  cases entries with
  | nil => simp [first?]
  | cons e es =>
    obtain ⟨least, -⟩ := List.pairwise_cons.mp increasing
    constructor
    · intro h
      obtain rfl : e = (k, v) := Option.some.inj h
      refine ⟨List.mem_cons_self, fun k' v' hm => ?_⟩
      rcases List.mem_cons.mp hm with heq | hm
      · exact Nat.le_of_eq (congrArg Prod.fst heq).symm
      · exact Nat.le_of_lt (least _ hm)
    · rintro ⟨hm, hall⟩
      rcases List.mem_cons.mp hm with heq | hm
      · exact congrArg some heq.symm
      · exact absurd (hall e.1 e.2 List.mem_cons_self) (Nat.not_le.mpr (least _ hm))

/-- A key above all others comes last, and takes no place of another. -/
theorem entries_insert_of_below (below : ∀ e ∈ t.entries, e.1 < k) (v : α) :
    (t.insert k v).entries = t.entries ++ [(k, v)] := by
  obtain ⟨entries, increasing⟩ := t
  show insertEntry k v entries = entries ++ [(k, v)]
  induction entries with
  | nil => rfl
  | cons e es ih =>
    obtain ⟨he, hes⟩ := List.forall_mem_cons.mp below
    rw [insertEntry, if_neg (Nat.lt_asymm he), if_neg (Nat.ne_of_gt he),
      ih (List.pairwise_cons.mp increasing).2 hes, List.cons_append]

/-- Without its least key, a table is listed as before but for the first binding. -/
theorem entries_eraseFirst (t : OrderedTable α) : t.eraseFirst.entries = t.entries.tail := by
  obtain ⟨entries, increasing⟩ := t
  cases entries with
  | nil => rfl
  | cons e es =>
    obtain ⟨least, -⟩ := List.pairwise_cons.mp increasing
    show ((e :: es).filter fun e' => e'.1 ≠ e.1) = es
    rw [List.filter_cons_of_neg (by simp)]
    exact List.filter_eq_self.mpr fun e' he' => decide_eq_true (Nat.ne_of_gt (least e' he'))

theorem size_erase (h : t.find? k = some v) : (t.erase k).size + 1 = t.size := by
  have hmem := (find?_eq_some_iff t k v).mp h
  obtain ⟨entries, increasing⟩ := t
  show (entries.filter fun e => e.1 ≠ k).length + 1 = entries.length
  induction entries with
  | nil => cases hmem
  | cons e es ih =>
    obtain ⟨least, rest⟩ := List.pairwise_cons.mp increasing
    by_cases hk : e.1 = k
    · rw [List.filter_cons_of_neg (by simp [hk]), List.filter_eq_self.mpr, List.length_cons]
      exact fun e' he' => decide_eq_true (hk ▸ Nat.ne_of_gt (least e' he'))
    · have hes : (k, v) ∈ es := (List.mem_cons.mp hmem).resolve_left fun heq => hk (heq ▸ rfl)
      rw [List.filter_cons_of_pos (by simp [hk]), List.length_cons, List.length_cons,
        ih rest ((find?_eq_some_iff ⟨es, rest⟩ k v).mpr hes) hes]

end AtMostOnce.OrderedTable
