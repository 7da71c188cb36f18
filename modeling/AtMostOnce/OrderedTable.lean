/-! Finite tables with numbers for keys, kept in the order of their keys. -/
namespace AtMostOnce

/-- A finite map from numbers to values. -/
structure OrderedTable (α : Type) where
  /-- The bindings, the one with the least key first. -/
  entries : List (Nat × α)
  increasing : entries.Pairwise fun e e' => e.1 < e'.1

namespace OrderedTable
variable {α : Type}

def empty : OrderedTable α := ⟨[], .nil⟩

/-- The number of keys. -/
def size (t : OrderedTable α) : Nat := t.entries.length

def find? (t : OrderedTable α) (k : Nat) : Option α := t.entries.lookup k

/-- The bindings with one more, which goes before the first larger key. It takes the place of a
binding of the same key. -/
def insertEntry (k : Nat) (v : α) : List (Nat × α) → List (Nat × α)
  | [] => [(k, v)]
  | e :: es =>
    if k < e.1 then (k, v) :: e :: es
    else if k = e.1 then (k, v) :: es
    else e :: insertEntry k v es

theorem eq_or_mem_of_mem_insertEntry {k : Nat} {v : α} {es : List (Nat × α)} {e : Nat × α}
    (h : e ∈ insertEntry k v es) : e = (k, v) ∨ e ∈ es := by
  induction es with
  | nil => exact .inl (List.mem_singleton.mp h)
  | cons e' es ih =>
    rw [insertEntry] at h
    split at h
    · exact List.mem_cons.mp h
    split at h
    · exact (List.mem_cons.mp h).imp_right (List.mem_cons_of_mem _)
    · rcases List.mem_cons.mp h with rfl | h
      · exact .inr List.mem_cons_self
      · exact (ih h).imp_right (List.mem_cons_of_mem _)

theorem increasing_insertEntry (k : Nat) (v : α) {es : List (Nat × α)}
    (h : es.Pairwise fun e e' => e.1 < e'.1) :
    (insertEntry k v es).Pairwise fun e e' => e.1 < e'.1 := by
  induction es with
  | nil => exact List.pairwise_singleton _ _
  | cons e es ih =>
    obtain ⟨first, rest⟩ := List.pairwise_cons.mp h
    rw [insertEntry]
    split
    · rename_i hlt
      refine List.pairwise_cons.mpr ⟨fun e' he' => ?_, h⟩
      rcases List.mem_cons.mp he' with rfl | he'
      · exact hlt
      · exact Nat.lt_trans hlt (first e' he')
    split
    · rename_i heq
      exact List.pairwise_cons.mpr ⟨fun e' he' => heq ▸ first e' he', rest⟩
    · rename_i hge hne
      refine List.pairwise_cons.mpr ⟨fun e' he' => ?_, ih rest⟩
      rcases eq_or_mem_of_mem_insertEntry he' with rfl | he'
      · exact Nat.lt_of_le_of_ne (Nat.not_lt.mp hge) fun heq => hne heq.symm
      · exact first e' he'

/-- The table that binds `k` to `v` and otherwise agrees with `t`. -/
def insert (t : OrderedTable α) (k : Nat) (v : α) : OrderedTable α where
  entries := insertEntry k v t.entries
  increasing := increasing_insertEntry k v t.increasing

/-- The bindings that satisfy `p`. -/
def filter (t : OrderedTable α) (p : Nat × α → Bool) : OrderedTable α where
  entries := t.entries.filter p
  increasing := t.increasing.filter p

/-- The table without a binding for `k`. -/
def erase (t : OrderedTable α) (k : Nat) : OrderedTable α := t.filter fun e => e.1 ≠ k

/-- The binding of the least key. -/
def first? (t : OrderedTable α) : Option (Nat × α) := t.entries.head?

/-- The table without the binding of its least key. -/
def eraseFirst (t : OrderedTable α) : OrderedTable α :=
  match t.first? with
  | none => t
  | some e => t.erase e.1

end OrderedTable
end AtMostOnce
