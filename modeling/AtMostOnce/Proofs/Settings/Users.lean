import AtMostOnce.Proofs.Settings.Gate
import AtMostOnce.Proofs.Table

/-! The users and their secrets, as they are read. -/
namespace AtMostOnce.Settings

/-- An entry is cut at its first colon; what stands before it is trimmed, what stands behind it is
not. -/
theorem readUser_eq_some_iff (piece : List Char) (user secret : String) :
    readUser piece = some (user, secret) ↔ ∃ before after,
      Text.cut? ':' piece = some (before, after) ∧ Text.trimList before ≠ [] ∧
        user = .ofList (Text.trimList before) ∧ secret = .ofList after := by
  unfold readUser
  cases hcut : Text.cut? ':' piece with
  | none => exact ⟨nofun, nofun⟩
  | some halves =>
    obtain ⟨before, after⟩ := halves
    show (if Text.trimList before = [] then none
      else some (String.ofList (Text.trimList before), String.ofList after)) = _ ↔ _
    split
    · rename_i hblank
      refine ⟨nofun, ?_⟩
      rintro ⟨b, a, h, hne, -⟩
      cases h
      exact absurd hblank hne
    · rename_i hne
      constructor
      · intro h
        cases h
        exact ⟨before, after, rfl, hne, rfl, rfl⟩
      · rintro ⟨b, a, h, -, rfl, rfl⟩
        cases h
        rfl

/-- A user is not blank, and there is no white space around the name. -/
theorem trim_of_readUser {piece : List Char} {user secret : String}
    (h : readUser piece = some (user, secret)) : Text.trim user = user ∧ user ≠ "" := by
  obtain ⟨before, after, -, hne, rfl, -⟩ := (readUser_eq_some_iff piece user secret).mp h
  rw [Text.trim, String.toList_ofList, Text.trimList_trimList]
  refine ⟨rfl, fun hempty => hne ?_⟩
  rw [← String.toList_ofList (l := Text.trimList before), hempty]
  rfl

/-- So it is in all settings that are read. -/
theorem trim_of_find?_users {env : Environment} {s : Settings} {user secret : String}
    (hread : read env = .ok s) (h : s.users.find? user = some secret) :
    Text.trim user = user ∧ user ≠ "" := by
  rw [(of_read hread).2] at h
  cases htext : text? env .users with
  | none =>
    rw [htext] at h
    cases h
  | some raw =>
    rw [htext] at h
    obtain ⟨piece, -, hpiece⟩ := List.mem_filterMap.mp (Table.mem_of_find?_ofList h)
    exact trim_of_readUser hpiece

/-- The settings where nothing is said but who may log in. -/
theorem read_of_users_only (env : Environment) (name raw : String)
    (hname : env .authType = some (Text.Utf8.encode name))
    (hcustom : readAuthType (some name) = .ok .custom)
    (husers : env .users = some (Text.Utf8.encode raw))
    (hrest : ∀ v, v ≠ .authType → v ≠ .users → env v = none) :
    read env = .ok { authType := .custom, users := readUsers raw } := by
  have hnumeral : ∀ v bound, v ≠ .authType → v ≠ .users → numeral? env v bound = none := by
    intro v bound h h'
    rw [numeral?, text?, hrest v h h']
    rfl
  rw [read, (text?_eq_some_iff env .authType name).mpr hname,
    (text?_eq_some_iff env .users raw).mpr husers, hcustom,
    hrest .journal (by decide) (by decide), hnumeral .maxSize _ (by decide) (by decide),
    hnumeral .timeToLive _ (by decide) (by decide), hnumeral .port _ (by decide) (by decide),
    hnumeral .sweepInterval _ (by decide) (by decide)]
  rfl

end AtMostOnce.Settings
