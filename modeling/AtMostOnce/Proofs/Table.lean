import AtMostOnce.Table
import Mathlib.Data.List.Permutation

/-! Parts of tables: what is left of a table when only some values are of interest, and what of a
list of bindings. -/
namespace AtMostOnce.Table
variable {κ α β : Type}

theorem eq_of_entries_eq {t t' : Table κ α} (h : t.entries = t'.entries) : t = t' := by
  obtain ⟨entries, _⟩ := t
  obtain ⟨entries', _⟩ := t'
  cases h
  rfl

theorem lookup_entries [DecidableEq κ] (t : Table κ α) (k : κ) :
    t.entries.lookup k = t.find? k := by
  unfold find?
  induction t.entries with
  | nil => rfl
  | cons e es ih =>
    obtain ⟨k', v⟩ := e
    by_cases hk : k = k'
    · simp [hk]
    · rw [List.lookup_cons, beq_false_of_ne hk, List.find?_cons_of_neg (by simpa using Ne.symm hk)]
      exact ih

/-- The table of what `f` makes of the values, without those of which it makes nothing. -/
def filterMap (f : α → Option β) (t : Table κ α) : Table κ β where
  entries := t.entries.filterMap fun e => (f e.2).map (e.1, ·)
  distinct := by
    have keys : ((t.entries.filterMap fun e => (f e.2).map (e.1, ·)).map Prod.fst).Sublist
        (t.entries.map Prod.fst) := by
      induction t.entries with
      | nil => exact .slnil
      | cons e es ih =>
        rw [List.filterMap_cons]
        cases f e.2 with
        | none => exact ih.cons _
        | some v => exact ih.cons_cons _
    exact t.distinct.sublist keys

theorem count_isSome (f : α → Option β) (t : Table κ α) :
    t.count (fun v => (f v).isSome) = (t.filterMap f).size := by
  unfold count size filterMap
  dsimp only
  induction t.entries with
  | nil => rfl
  | cons e es ih =>
    rw [List.countP_cons, List.filterMap_cons, ih]
    cases f e.2 <;> rfl

variable [DecidableEq κ]

theorem find?_filterMap (f : α → Option β) (t : Table κ α) (k : κ) :
    (t.filterMap f).find? k = (t.find? k).bind f := by
  apply Option.ext
  intro w
  rw [find?_eq_some_iff, Option.bind_eq_some_iff]
  simp only [find?_eq_some_iff, filterMap, List.mem_filterMap, Option.map_eq_some_iff]
  constructor
  · intro hx
    obtain ⟨⟨k', v⟩, hm, u, hu, he⟩ := hx
    cases he
    exact ⟨v, hm, hu⟩
  · intro hx
    obtain ⟨v, hm, hv⟩ := hx
    exact ⟨(k, v), hm, w, hv, rfl⟩

/-- There is nothing to erase under a key that is not bound. -/
theorem erase_eq_self {t : Table κ α} {k : κ} (h : t.find? k = none) : t.erase k = t := by
  apply eq_of_entries_eq
  apply List.filter_eq_self.mpr
  intro e he
  have hne : e.1 ≠ k := by
    intro heq
    obtain rfl := heq
    have := (find?_eq_some_iff t e.1 e.2).mpr he
    rw [h] at this
    cases this
  exact decide_eq_true hne

/-- A new binding takes the place of the old one. -/
theorem insert_erase (t : Table κ α) (k : κ) (v : α) : (t.erase k).insert k v = t.insert k v := by
  apply eq_of_entries_eq
  simp only [insert, erase, List.filter_filter, Bool.and_self]

/-- A bound key is listed once. -/
theorem perm_cons_erase {t : Table κ α} {k : κ} {v : α} (h : t.find? k = some v) :
    t.entries.Perm ((k, v) :: (t.erase k).entries) := by
  have hm := (find?_eq_some_iff t k v).mp h
  have hl : t.entries.Nodup := List.Nodup.of_map Prod.fst t.distinct
  have hr : ((k, v) :: (t.erase k).entries).Nodup :=
    List.Nodup.of_map Prod.fst (t.insert k v).distinct
  apply (List.perm_ext_iff_of_nodup hl hr).mpr
  intro hx
  obtain ⟨k', v'⟩ := hx
  simp only [erase, List.mem_cons, List.mem_filter, decide_eq_true_eq, Prod.mk.injEq]
  constructor
  · intro hm'
    by_cases hk : k' = k
    · subst hk
      have hv := (find?_eq_some_iff t k' v').mpr hm'
      rw [h] at hv
      exact .inl ⟨rfl, (Option.some.inj hv).symm⟩
    · exact .inr ⟨hm', hk⟩
  · intro hx
    rcases hx with ⟨rfl, rfl⟩ | ⟨hm', _⟩
    · exact hm
    · exact hm'

theorem size_erase {t : Table κ α} {k : κ} {v : α} (h : t.find? k = some v) :
    (t.erase k).size + 1 = t.size := (perm_cons_erase h).length_eq.symm

theorem size_insert {t : Table κ α} {k : κ} (h : t.find? k = none) (v : α) :
    (t.insert k v).size = t.size + 1 := by
  show (t.erase k).size + 1 = t.size + 1
  rw [erase_eq_self h]

/-- Of several bindings of a key the last one is found. -/
theorem find?_ofList (bindings : List (κ × α)) (k : κ) :
    (ofList bindings).find? k = (bindings.reverse.find? fun b => b.1 = k).map Prod.snd := by
  induction bindings using List.reverseRecOn with
  | nil => rfl
  | append_singleton bs b ih =>
    have hlast : ofList (bs ++ [b]) = (ofList bs).insert b.1 b.2 := by
      rw [ofList, List.foldl_append]
      rfl
    rw [hlast, find?_insert, List.reverse_append, List.reverse_singleton, List.singleton_append,
      List.find?_cons]
    by_cases hk : b.1 = k
    · simp [hk]
    · have hk' : ¬ k = b.1 := fun h => hk h.symm
      simpa [hk, hk'] using ih

/-- What is found was bound. -/
theorem mem_of_find?_ofList {bindings : List (κ × α)} {k : κ} {v : α}
    (h : (ofList bindings).find? k = some v) : (k, v) ∈ bindings := by
  rw [find?_ofList, Option.map_eq_some_iff] at h
  obtain ⟨⟨k', v'⟩, hb, rfl⟩ := h
  obtain rfl : k' = k := by simpa using List.find?_some hb
  exact List.mem_reverse.mp (List.mem_of_find?_eq_some hb)

/-- Of what `f` makes of a list, the last binding of a key is found. -/
theorem find?_ofList_filterMap (f : β → Option (κ × α)) (xs : List β) (k : κ) (v : α) :
    (ofList (xs.filterMap f)).find? k = some v ↔ ∃ earlier x later,
      xs = earlier ++ x :: later ∧ f x = some (k, v) ∧ ∀ y ∈ later, ∀ w, f y ≠ some (k, w) := by
  have binds : ∀ x, (f x).any (fun b => b.1 = k) = true ↔ ∃ w, f x = some (k, w) := by
    intro x
    rw [Option.any_eq_true]
    constructor
    · rintro ⟨⟨k', w⟩, hb, hk⟩
      obtain rfl : k' = k := of_decide_eq_true hk
      exact ⟨w, hb⟩
    · rintro ⟨w, hw⟩
      exact ⟨(k, w), hw, decide_eq_true rfl⟩
  rw [find?_ofList, ← List.filterMap_reverse, List.find?_filterMap]
  constructor
  · intro h
    obtain ⟨⟨k', v'⟩, hb, rfl⟩ := Option.map_eq_some_iff.mp h
    obtain ⟨x, hx, hv⟩ := Option.bind_eq_some_iff.mp hb
    obtain ⟨hany, newer, older, hxs, hnewer⟩ := List.find?_eq_some_iff_append.mp hx
    obtain ⟨w, hw⟩ := (binds x).mp hany
    rw [hv, Option.some.injEq, Prod.mk.injEq] at hw
    refine ⟨older.reverse, x, newer.reverse, ?_, hw.1 ▸ hv, ?_⟩
    · simpa using congrArg List.reverse hxs
    · intro y hy w hyw
      have hno := hnewer y (List.mem_reverse.mp hy)
      rw [(binds y).mpr ⟨w, hyw⟩] at hno
      cases hno
  · rintro ⟨earlier, x, later, rfl, hx, hlater⟩
    have hfind : (earlier ++ x :: later).reverse.find? (fun a => (f a).any fun b => b.1 = k) =
        some x := by
      refine List.find?_eq_some_iff_append.mpr ⟨(binds x).mpr ⟨v, hx⟩, later.reverse,
        earlier.reverse, by simp, fun y hy => ?_⟩
      rw [Bool.not_eq_true', Bool.eq_false_iff, ne_eq, binds y]
      rintro ⟨w, hw⟩
      exact hlater y (List.mem_reverse.mp hy) w hw
    rw [hfind, Option.bind_some, hx]
    rfl

/-- The bindings of a table, in any order, make the same table. -/
theorem find?_ofList_of_perm {t : Table κ α} {bindings : List (κ × α)}
    (h : bindings.Perm t.entries) (k : κ) : (ofList bindings).find? k = t.find? k := by
  have hnodup : (bindings.reverse.map Prod.fst).Nodup :=
    (((List.reverse_perm bindings).trans h).map Prod.fst).nodup_iff.mpr t.distinct
  have hlisted : (ofList bindings).find? k = (⟨bindings.reverse, hnodup⟩ : Table κ α).find? k :=
    find?_ofList bindings k
  rw [hlisted]
  apply Option.ext
  intro v
  rw [find?_eq_some_iff, find?_eq_some_iff, List.mem_reverse, h.mem_iff]

theorem filterMap_erase (f : α → Option β) (t : Table κ α) (k : κ) :
    (t.erase k).filterMap f = (t.filterMap f).erase k := by
  apply eq_of_entries_eq
  simp only [filterMap, erase, List.filterMap_filter, List.filter_filterMap]
  congr 1
  funext e
  cases f e.2 with
  | none => by_cases hk : e.1 = k <;> simp [hk]
  | some v => by_cases hk : e.1 = k <;> simp [hk, Option.filter]

theorem filterMap_insert_of_some {f : α → Option β} {v : α} {w : β} (t : Table κ α) (k : κ)
    (h : f v = some w) : (t.insert k v).filterMap f = (t.filterMap f).insert k w := by
  apply eq_of_entries_eq
  have he := congrArg entries (filterMap_erase f t k)
  simp only [filterMap, insert, List.filterMap_cons, h, Option.map_some] at he ⊢
  rw [he]

theorem filterMap_insert_of_none {f : α → Option β} {v : α} (t : Table κ α) (k : κ)
    (h : f v = none) : (t.insert k v).filterMap f = (t.filterMap f).erase k := by
  apply eq_of_entries_eq
  have he := congrArg entries (filterMap_erase f t k)
  simp only [filterMap, insert, List.filterMap_cons, h, Option.map_none] at he ⊢
  exact he

end AtMostOnce.Table
