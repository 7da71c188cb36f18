import AtMostOnce.Catalog
import AtMostOnce.Proofs.Table

/-! What is asked of a catalog is carried out in full or not at all. -/
namespace AtMostOnce.Catalog

theorem create_cases (c : Catalog) (date : Nat) (path : String) :
    (∃ e, c.create date path = (.error e, c)) ∨
      c.files.find? path = none ∧ c.create date path = (.ok ⟨c.lastId + 1, path, date⟩, { c with
        files := c.files.insert path ⟨c.lastId + 1, path, date⟩
        lastId := c.lastId + 1 }) := by
  unfold create
  split
  · exact .inl ⟨_, rfl⟩
  split
  · exact .inl ⟨_, rfl⟩
  · rename_i hfree
    exact .inr ⟨hfree, rfl⟩

theorem find?_of_checkRename {c : Catalog} {src dst : String} {file : File}
    (h : c.checkRename src dst = .ok file) :
    c.files.find? src = some file ∧ c.files.find? dst = none := by
  unfold checkRename at h
  cases hsrc : checkPath src with
  | error e =>
    rw [hsrc] at h
    cases h
  | ok _ =>
    cases hdst : checkPath dst with
    | error e =>
      rw [hsrc, hdst] at h
      cases h
    | ok _ =>
      rw [hsrc, hdst] at h
      cases hheld : c.files.find? src with
      | none =>
        rw [hheld] at h
        cases h
      | some held =>
        cases htaken : c.files.find? dst with
        | none =>
          rw [hheld, htaken] at h
          cases h
          exact ⟨rfl, rfl⟩
        | some other =>
          rw [hheld, htaken] at h
          cases h

theorem rename_cases (c : Catalog) (src dst : String) :
    (∃ e, c.rename src dst = (.error e, c)) ∨
      ∃ file journal, c.files.find? src = some file ∧ c.files.find? dst = none ∧
        c.journal.append (renameLine src dst) = .ok journal ∧
        c.rename src dst = (.ok { file with path := dst }, { c with
          files := (c.files.erase src).insert dst { file with path := dst }
          journal := journal }) := by
  unfold rename
  split
  · exact .inl ⟨_, rfl⟩
  · rename_i file hcheck
    obtain ⟨hsrc, hdst⟩ := find?_of_checkRename hcheck
    split
    · exact .inl ⟨_, rfl⟩
    · rename_i journal hjournal
      exact .inr ⟨file, journal, hsrc, hdst, hjournal, rfl⟩

end AtMostOnce.Catalog
