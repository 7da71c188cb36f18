/-! Finite tables with distinct keys, and how each operation changes a look-up. -/
namespace AtMostOnce

/-- A finite map from keys to values, listed with the newest binding first. -/
structure Table (κ α : Type) where
  entries : List (κ × α)
  distinct : (entries.map Prod.fst).Nodup

namespace Table
variable {κ α : Type}

def empty : Table κ α := ⟨[], List.nodup_nil⟩

/-- The number of keys. -/
def size (t : Table κ α) : Nat := t.entries.length

/-- The number of bindings whose value satisfies `p`. -/
def count (p : α → Bool) (t : Table κ α) : Nat := t.entries.countP fun e => p e.2

variable [DecidableEq κ]

def find? (t : Table κ α) (k : κ) : Option α :=
  (t.entries.find? fun e => e.1 = k).map Prod.snd

/-- The table without a binding for `k`. -/
def erase (t : Table κ α) (k : κ) : Table κ α where
  entries := t.entries.filter fun e => e.1 ≠ k
  distinct := t.distinct.sublist (List.Sublist.map _ List.filter_sublist)

/-- The table that binds `k` to `v` and otherwise agrees with `t`. -/
def insert (t : Table κ α) (k : κ) (v : α) : Table κ α where
  entries := (k, v) :: (t.erase k).entries
  distinct := by
    refine List.nodup_cons.mpr ⟨?_, (t.erase k).distinct⟩
    simp [erase]

/-- Later bindings win over earlier ones. -/
def ofList (bindings : List (κ × α)) : Table κ α :=
  bindings.foldl (fun t b => t.insert b.1 b.2) empty

@[simp] theorem find?_empty (k : κ) : (empty : Table κ α).find? k = none := rfl

theorem find?_erase (t : Table κ α) (k k' : κ) :
    (t.erase k).find? k' = if k' = k then none else t.find? k' := by
  unfold find? erase
  rw [List.find?_filter]
  by_cases h : k' = k
  · subst h
    simp
  · rw [if_neg h]
    congr 2
    funext e
    by_cases he : e.1 = k' <;> simp_all

theorem find?_insert (t : Table κ α) (k k' : κ) (v : α) :
    (t.insert k v).find? k' = if k' = k then some v else t.find? k' := by
  by_cases h : k' = k
  · subst h
    simp [find?, insert]
  · have hk : ¬ k = k' := fun e => h e.symm
    have := find?_erase t k k'
    simp only [find?] at this
    simp [find?, insert, hk, h, this]

/-- A look-up finds exactly the listed bindings. -/
theorem find?_eq_some_iff (t : Table κ α) (k : κ) (v : α) :
    t.find? k = some v ↔ (k, v) ∈ t.entries := by
  obtain ⟨entries, distinct⟩ := t
  unfold find?
  dsimp only
  induction entries with
  | nil => simp
  | cons e es ih =>
    simp only [List.map_cons, List.nodup_cons] at distinct
    obtain ⟨fresh, rest⟩ := distinct
    by_cases he : e.1 = k
    · have absent : (k, v) ∉ es := fun hm => fresh (he ▸ List.mem_map_of_mem hm)
      obtain ⟨k', v'⟩ := e
      subst he
      simp [absent, eq_comm]
    · have hne : (k, v) ≠ e := fun h => he (h ▸ rfl)
      simpa [he, hne] using ih rest

end Table
end AtMostOnce
