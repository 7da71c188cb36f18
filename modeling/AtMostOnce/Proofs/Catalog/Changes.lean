import AtMostOnce.Clock
import AtMostOnce.Proofs.Catalog

/-! Changes to a catalog. What a run of instructions has changed is told by those of them that have
succeeded, and the journal tells the same of the renames. -/
namespace AtMostOnce.Catalog

inductive Instruction where
  | create (path : String)
  | rename (src dst : String)
  | advance (d : Nat)

/-- What an instruction that has succeeded has changed. -/
inductive Change where
  | created (file : File)
  | renamed (src dst : String)

/-- An instruction to a catalog and the clock that dates its files. -/
def step (s : Clock × Catalog) : Instruction → Option Change × Clock × Catalog
  | .create path =>
    ((s.2.create s.1.date path).1.toOption.map .created, s.1, (s.2.create s.1.date path).2)
  | .rename src dst =>
    ((s.2.rename src dst).1.toOption.map fun _ => .renamed src dst, s.1, (s.2.rename src dst).2)
  | .advance d => (none, s.1.advance d, s.2)

/-- Instructions one after another, and what they have changed in that order. -/
def run (s : Clock × Catalog) : List Instruction → List Change × Clock × Catalog
  | [] => ([], s)
  | i :: is => ((step s i).1.toList ++ (run (step s i).2 is).1, (run (step s i).2 is).2)

theorem run_append (s : Clock × Catalog) (is js : List Instruction) :
    run s (is ++ js) = ((run s is).1 ++ (run (run s is).2 js).1, (run (run s is).2 js).2) := by
  induction is generalizing s with
  | nil => rfl
  | cons i is ih => simp only [List.cons_append, run, ih, List.append_assoc]

theorem checkPath_eq_ok_iff (path : String) :
    checkPath path = .ok () ↔ path.toList.head? = some '/' ∧
      2 ≤ path.utf8ByteSize ∧ path.utf8ByteSize ≤ maxPathLength := by
  unfold checkPath
  split
  · rename_i h
    simp only [reduceCtorEq, false_iff]
    rintro ⟨hslash, hlong, -⟩
    rcases h with h | h
    · exact h hslash
    · omega
  · rename_i h
    rw [not_or, not_not] at h
    split
    · simp only [reduceCtorEq, false_iff]
      omega
    · simp only [true_iff]
      exact ⟨h.1, by omega, by omega⟩

section
variable {c : Catalog} {date : Nat} {path src dst : String} {file : File}

theorem checkPath_of_create (h : (c.create date path).1 = .ok file) : checkPath path = .ok () := by
  cases hp : checkPath path with
  | error e =>
    rw [create, hp] at h
    cases h
  | ok u => rfl

theorem checkPath_of_checkRename (h : c.checkRename src dst = .ok file) :
    checkPath dst = .ok () := by
  unfold checkRename at h
  cases hsrc : checkPath src with
  | error e =>
    rw [hsrc] at h
    cases h
  | ok u =>
    cases hdst : checkPath dst with
    | error e =>
      rw [hsrc, hdst] at h
      cases h
    | ok u => rfl

theorem checkPath_of_rename (h : (c.rename src dst).1 = .ok file) : checkPath dst = .ok () := by
  cases hcheck : c.checkRename src dst with
  | error e =>
    rw [rename, hcheck] at h
    cases h
  | ok held => exact checkPath_of_checkRename hcheck

end

/-- All that an instruction can do to a catalog. -/
inductive Changes (date : Nat) (c : Catalog) : Option Change → Catalog → Prop where
  | unchanged : Changes date c none c
  | created (path : String) (valid : checkPath path = .ok ()) (free : c.files.find? path = none) :
    Changes date c (some (.created ⟨c.lastId + 1, path, date⟩)) { c with
      files := c.files.insert path ⟨c.lastId + 1, path, date⟩
      lastId := c.lastId + 1 }
  | renamed (src dst : String) (file : File) (journal : Journal) (valid : checkPath dst = .ok ())
    (held : c.files.find? src = some file) (free : c.files.find? dst = none)
    (recorded : c.journal.append (renameLine src dst) = .ok journal) :
    Changes date c (some (.renamed src dst)) { c with
      files := (c.files.erase src).insert dst { file with path := dst }
      journal := journal }

theorem changes_step (s : Clock × Catalog) (i : Instruction) :
    Changes s.1.date s.2 (step s i).1 (step s i).2.2 := by
  obtain ⟨clock, c⟩ := s
  cases i with
  | create path =>
    show Changes clock.date c ((c.create clock.date path).1.toOption.map Change.created)
      (c.create clock.date path).2
    rcases c.create_cases clock.date path with ⟨e, he⟩ | ⟨free, hc⟩
    · rw [he]
      exact .unchanged
    · have valid := checkPath_of_create (congrArg Prod.fst hc)
      rw [hc]
      exact .created path valid free
  | rename src dst =>
    show Changes clock.date c
      ((c.rename src dst).1.toOption.map fun _ => Change.renamed src dst) (c.rename src dst).2
    rcases c.rename_cases src dst with ⟨e, he⟩ | ⟨file, journal, held, free, recorded, hc⟩
    · rw [he]
      exact .unchanged
    · have valid := checkPath_of_rename (congrArg Prod.fst hc)
      rw [hc]
      exact .renamed src dst file journal valid held free recorded
  | advance d => exact .unchanged

theorem date_le_step (s : Clock × Catalog) (i : Instruction) :
    s.1.date ≤ (step s i).2.1.date := by
  cases i with
  | advance d =>
    show s.1.origin + s.1.now ≤ s.1.origin + (s.1.now + d)
    omega
  | _ => exact Nat.le_refl _

/-- What is said of the date, of the changes so far and of the catalog. It holds of a run if it
holds at the start, each change brings it about, and it is kept as time passes. -/
theorem run_induction {P : Nat → List Change → Catalog → Prop} {s : Clock × Catalog}
    (start : P s.1.date [] s.2)
    (change : ∀ date cs c ch c', P date cs c → Changes date c ch c' →
      P date (cs ++ ch.toList) c')
    (later : ∀ date date' cs c, date ≤ date' → P date cs c → P date' cs c)
    (is : List Instruction) : P (run s is).2.1.date (run s is).1 (run s is).2.2 := by
  induction is using List.reverseRecOn with
  | nil => exact start
  | append_singleton is i ih =>
    rw [run_append]
    simp only [run, List.append_nil]
    exact later _ _ _ _ (date_le_step _ i) (change _ _ _ _ _ ih (changes_step _ i))

/-- The record that the journal has of a change. -/
def Change.line? : Change → Option String
  | .created _ => none
  | .renamed src dst => some (renameLine src dst)

theorem journal_run (clock : Clock) (text : String) (is : List Instruction) :
    (run (clock, { journal := .file text }) is).2.2.journal =
      .file (text ++ String.join
        ((run (clock, { journal := .file text }) is).1.filterMap Change.line?)) := by
  refine run_induction (P := fun _ cs c =>
    c.journal = .file (text ++ String.join (cs.filterMap Change.line?))) ?_ ?_ ?_ is
  · simp
  · intro date cs c ch c' h hc
    cases hc with
    | unchanged => simpa using h
    | created path valid free => simpa [List.filterMap_cons, Change.line?] using h
    | renamed src dst file journal valid held free recorded =>
      rw [h] at recorded
      have hj := Except.ok.inj recorded
      simp [Change.line?, ← hj, String.append_assoc]
  · exact fun _ _ _ _ _ h => h

end AtMostOnce.Catalog
