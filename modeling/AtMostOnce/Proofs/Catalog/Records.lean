import AtMostOnce.Proofs.Catalog.Register

/-! What a journal tells. Its records have no marks but a tab and the end of the line, and paths may
hold either. So the renames can be read from the journal where no path looks like the end of a
source or the beginning of another record, and elsewhere they cannot. -/
namespace AtMostOnce.Catalog

/-- A text ends where `c` is met before the end of all or before `w`, if it has no such place in
it. -/
theorem append_cons_inj {c : Char} {w a b r r' : List Char} (hc : c ∉ w)
    (ha : ¬ c :: w <:+: a) (hb : ¬ c :: w <:+: b) (hr : r = [] ∨ w <+: r)
    (hr' : r' = [] ∨ w <+: r') (h : a ++ c :: r = b ++ c :: r') : a = b ∧ r = r' := by
  -- If one of the texts were longer, it would have the other's end in it.
  have longer : ∀ {a b r r' : List Char}, ¬ c :: w <:+: b → (r = [] ∨ w <+: r) →
      (∃ t, b = a ++ t ∧ c :: r = t ++ c :: r') → a = b ∧ r = r' := by
    rintro a b r r' hb hr ⟨t, rfl, ht⟩
    cases t with
    | nil =>
      rw [List.nil_append, List.cons.injEq] at ht
      exact ⟨(List.append_nil a).symm, ht.2⟩
    | cons c' t =>
      obtain ⟨rfl, rfl⟩ := List.cons.inj ht
      obtain ⟨u, hu⟩ := hr.resolve_left (by simp)
      exfalso
      rcases List.append_eq_append_iff.mp hu with ⟨v, rfl, -⟩ | ⟨v, rfl, hv⟩
      · exact hb ⟨a, v, by simp⟩
      · cases v with
        | nil => exact hb ⟨a, [], by simp⟩
        | cons d v =>
          obtain ⟨rfl, -⟩ := List.cons.inj hv
          exact hc (by simp)
  rcases List.append_eq_append_iff.mp h with ⟨t, ht⟩ | ⟨t, ht⟩
  · exact longer hb hr ⟨t, ht⟩
  · obtain ⟨hab, hrr⟩ := longer ha hr' ⟨t, ht⟩
    exact ⟨hab.symm, hrr.symm⟩

/-- The paths between which a file has been moved. -/
def Change.renamed? : Change → Option (String × String)
  | created _ => none
  | renamed src dst => some (src, dst)

def renames (cs : List Change) : List (String × String) := cs.filterMap Change.renamed?

/-- The word that every record begins with, and the tab behind it. -/
def keyword : List Char := ['r', 'e', 'n', 'a', 'm', 'e', '\t']

/-- Nothing in the source looks like the end of it, and nothing in the destination like the
beginning of another record. -/
def Plain (m : String × String) : Prop :=
  ¬ ['\t', '/'] <:+: m.1.toList ∧ ¬ '\n' :: (keyword ++ ['/']) <:+: m.2.toList

instance (m : String × String) : Decidable (Plain m) := inferInstanceAs (Decidable (_ ∧ _))

/-- The characters of a record. -/
def record (m : String × String) : List Char :=
  keyword ++ (m.1.toList ++ '\t' :: (m.2.toList ++ ['\n']))

theorem toList_renameLine (m : String × String) : (renameLine m.1 m.2).toList = record m := by
  have hkeyword : "rename\t".toList = keyword := by decide +kernel
  have hline : renameLine m.1 m.2 = "rename\t" ++ m.1 ++ "\t" ++ m.2 ++ "\n" := rfl
  rw [hline, record, ← hkeyword]
  simp only [String.toList_append, List.append_assoc]
  rfl

theorem toList_join_lines (cs : List Change) :
    (String.join (cs.filterMap Change.line?)).toList = (renames cs).flatMap record := by
  induction cs with
  | nil => rfl
  | cons c cs ih =>
    cases c with
    | created file => exact ih
    | renamed src dst =>
      rw [renames, List.filterMap_cons, List.filterMap_cons]
      simp only [Change.line?, Change.renamed?, String.join_cons, String.toList_append,
        List.flatMap_cons, ih, ← toList_renameLine]
      rfl

theorem flatMap_record_cons (m : String × String) (ms : List (String × String)) :
    (m :: ms).flatMap record =
      keyword ++ (m.1.toList ++ '\t' :: (m.2.toList ++ '\n' :: ms.flatMap record)) := by
  simp [record]

/-- Where a record ends there is the end of the journal or the beginning of another record. -/
theorem flatMap_record_cases {ms : List (String × String)}
    (h : ∀ m ∈ ms, m.1.toList.head? = some '/') :
    ms.flatMap record = [] ∨ keyword ++ ['/'] <+: ms.flatMap record := by
  cases ms with
  | nil => exact .inl rfl
  | cons m ms =>
    obtain ⟨cs, hcs⟩ := List.head?_eq_some_iff.mp (h m List.mem_cons_self)
    right
    rw [flatMap_record_cons, hcs]
    exact ⟨cs ++ '\t' :: (m.2.toList ++ '\n' :: ms.flatMap record), by simp⟩

/-- Records can be read one after another. -/
theorem eq_of_flatMap_record_eq {ms ms' : List (String × String)}
    (valid : ∀ m ∈ ms, m.1.toList.head? = some '/' ∧ m.2.toList.head? = some '/')
    (valid' : ∀ m ∈ ms', m.1.toList.head? = some '/' ∧ m.2.toList.head? = some '/')
    (plain : ∀ m ∈ ms, Plain m) (plain' : ∀ m ∈ ms', Plain m)
    (h : ms.flatMap record = ms'.flatMap record) : ms = ms' := by
  induction ms generalizing ms' with
  | nil => cases ms' with
    | nil => rfl
    | cons m' ms' => simp [record] at h
  | cons m ms ih => cases ms' with
    | nil => simp [record] at h
    | cons m' ms' =>
      rw [List.forall_mem_cons] at valid valid' plain plain'
      obtain ⟨⟨-, hdst⟩, valid⟩ := valid
      obtain ⟨⟨-, hdst'⟩, valid'⟩ := valid'
      obtain ⟨⟨hsrc, hend⟩, plain⟩ := plain
      obtain ⟨⟨hsrc', hend'⟩, plain'⟩ := plain'
      have begins : ∀ {path : String} {rest : List Char}, path.toList.head? = some '/' →
          path.toList ++ '\n' :: rest = [] ∨ ['/'] <+: path.toList ++ '\n' :: rest := by
        intro path rest hpath
        obtain ⟨cs, hcs⟩ := List.head?_eq_some_iff.mp hpath
        exact .inr ⟨cs ++ '\n' :: rest, by rw [hcs]; rfl⟩
      rw [flatMap_record_cons, flatMap_record_cons] at h
      replace h := List.append_cancel_left h
      obtain ⟨hs, h⟩ := append_cons_inj (by decide) hsrc hsrc' (begins hdst) (begins hdst') h
      obtain ⟨hd, h⟩ := append_cons_inj (by decide) hend hend'
        (flatMap_record_cases fun m hm => (valid m hm).1)
        (flatMap_record_cases fun m hm => (valid' m hm).1) h
      have hm : m = m' := Prod.ext (String.toList_inj.mp hs) (String.toList_inj.mp hd)
      rw [hm, ih valid valid' plain plain' h]

/-- Whatever has been renamed had a valid path and has got one. -/
theorem checkPath_of_mem_renames (clock : Clock) (journal : Journal) (is : List Instruction) :
    ∀ m ∈ renames (run (clock, { journal := journal }) is).1,
      checkPath m.1 = .ok () ∧ checkPath m.2 = .ok () := by
  have both := run_induction (s := (clock, { journal := journal }))
    (P := fun date cs c => c.Holds date (register cs) ∧
      ∀ m ∈ renames cs, checkPath m.1 = .ok () ∧ checkPath m.2 = .ok ()) ?_ ?_ ?_ is
  · exact both.2
  · exact ⟨holds_run clock journal [], List.forall_mem_nil _⟩
  · rintro date cs c ch c' ⟨holds, valid⟩ hc
    refine ⟨?_, ?_⟩
    · rw [register, List.foldl_append]
      exact holds.change hc
    · rw [renames, List.filterMap_append]
      refine List.forall_mem_append.mpr ⟨valid, ?_⟩
      cases hc with
      | unchanged => exact List.forall_mem_nil _
      | created path hpath free => exact List.forall_mem_nil _
      | renamed src dst file journal hdst held free recorded =>
        obtain ⟨hfile, rfl⟩ := (holds.find?_eq_some_iff src file).mp held
        exact List.forall_mem_singleton.mpr ⟨holds.valid file hfile, hdst⟩
  · exact fun _ _ _ _ hle h => ⟨h.1.later hle, h.2⟩

/-- A journal that was empty at first tells which renames have been made and in what order, as long
as no source has a tab in it that is followed by a slash, and no destination the end of a line that
is followed by the beginning of a record. -/
theorem renames_told_by_journal (clock clock' : Clock) (is is' : List Instruction) :
    let r := run (clock, { journal := .file "" }) is
    let r' := run (clock', { journal := .file "" }) is'
    (∀ m ∈ renames r.1, Plain m) → (∀ m ∈ renames r'.1, Plain m) →
      r.2.2.journal = r'.2.2.journal → renames r.1 = renames r'.1 := by
  intro r r' plain plain' heq
  have valid : ∀ (c : Clock) (is : List Instruction),
      ∀ m ∈ renames (run (c, { journal := .file "" }) is).1,
        m.1.toList.head? = some '/' ∧ m.2.toList.head? = some '/' := by
    intro c is m hm
    obtain ⟨hsrc, hdst⟩ := checkPath_of_mem_renames c (.file "") is m hm
    exact ⟨((checkPath_eq_ok_iff m.1).mp hsrc).1, ((checkPath_eq_ok_iff m.2).mp hdst).1⟩
  have htext : String.join (r.1.filterMap Change.line?) =
      String.join (r'.1.filterMap Change.line?) := by
    rw [journal_run, journal_run, Journal.file.injEq] at heq
    exact (String.append_right_inj "").mp heq
  have hrecords := congrArg String.toList htext
  rw [toList_join_lines, toList_join_lines] at hrecords
  exact eq_of_flatMap_record_eq (valid clock is) (valid clock' is') plain plain' hrecords

/-- Tabs and ends of lines do no harm elsewhere in a path. Of two runs that leave one journal,
either also does something that the journal does not tell. -/
theorem renames_told_by_journal_with_marks :
    let start : Clock × Catalog := ({ origin := 0 }, { journal := .file "" })
    let is := [.create "/a\t", .rename "/a\t" "/b\t/c\n", .rename "/b" "/c"]
    let is' := [.create "/d", .advance 5, .create "/a\t", .rename "/a\t" "/b\t/c\n"]
    (∀ m ∈ renames (run start is).1, Plain m) ∧ (∀ m ∈ renames (run start is').1, Plain m) ∧
      (run start is).2.2.journal = (run start is').2.2.journal ∧
      renames (run start is).1 = renames (run start is').1 := by
  intro start is is'
  have plain : ∀ m ∈ renames (run start is).1, Plain m := by decide +kernel
  have plain' : ∀ m ∈ renames (run start is').1, Plain m := by decide +kernel
  have heq : (run start is).2.2.journal = (run start is').2.2.journal := by
    show (run ({ origin := 0 }, { journal := .file "" }) is).2.2.journal =
      (run ({ origin := 0 }, { journal := .file "" }) is').2.2.journal
    rw [journal_run, journal_run]
    exact congrArg Journal.file (by decide +kernel)
  exact ⟨plain, plain', heq,
    renames_told_by_journal { origin := 0 } { origin := 0 } is is' plain plain' heq⟩

/-- Elsewhere two runs may leave the same journal though they have not made the same renames. In the
first two a path has a tab and a slash in the middle; in the third one a path has a whole record in
it. -/
theorem journals_alike :
    let start : Clock × Catalog := ({ origin := 0 }, { journal := .file "" })
    let moved (is : List Instruction) := renames (run start is).1
    let journal (is : List Instruction) := (run start is).2.2.journal
    let first := [.create "/a", .rename "/a" "/b\t/c"]
    let second := [.create "/a\t/b", .rename "/a\t/b" "/c"]
    let third := [.create "/a", .rename "/a" "/b\nrename\t/c\t/d"]
    let fourth := [.create "/a", .create "/c", .rename "/a" "/b", .rename "/c" "/d"]
    (journal first = journal second ∧ moved first ≠ moved second) ∧
      journal third = journal fourth ∧ moved third ≠ moved fourth := by
  intro start moved journal first second third fourth
  refine ⟨⟨?_, by decide +kernel⟩, ?_, by decide +kernel⟩
  · show (run start first).2.2.journal = (run start second).2.2.journal
    rw [journal_run, journal_run]
    exact congrArg Journal.file (by decide +kernel)
  · show (run start third).2.2.journal = (run start fourth).2.2.journal
    rw [journal_run, journal_run]
    exact congrArg Journal.file (by decide +kernel)

end AtMostOnce.Catalog
