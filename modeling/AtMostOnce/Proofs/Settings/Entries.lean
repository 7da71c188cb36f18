import AtMostOnce.Proofs.Settings.Users
import AtMostOnce.Proofs.Text.Cut

/-! The list of users as a text. What is read from a text is told by its entries, and a table that
is written as such a text is read as it was. -/
namespace AtMostOnce.Settings

/-- A piece of text that names a user and a secret: the user stands before the first colon, perhaps
with white space around it, and the secret is all that stands behind. -/
def IsEntry (piece : List Char) (user secret : String) : Prop :=
  ∃ before, piece = before ++ ':' :: secret.toList ∧ ':' ∉ before ∧
    Text.trimList before = user.toList

theorem readUser_eq_some_iff_isEntry (piece : List Char) (user secret : String) :
    readUser piece = some (user, secret) ↔ user ≠ "" ∧ IsEntry piece user secret := by
  rw [readUser_eq_some_iff]
  simp only [Text.cut?_eq_some_iff]
  constructor
  · rintro ⟨before, after, ⟨hpiece, hno⟩, hne, rfl, rfl⟩
    rw [IsEntry, String.toList_ofList, String.toList_ofList]
    exact ⟨by simpa using hne, before, hpiece, hno, rfl⟩
  · rintro ⟨hne, before, hpiece, hno, htrim⟩
    refine ⟨before, secret.toList, ⟨hpiece, hno⟩, ?_, ?_, ?_⟩
    · rwa [htrim, ne_eq, String.toList_eq_nil_iff]
    · rw [htrim, String.ofList_toList]
    · rw [String.ofList_toList]

/-- The text that lists users and secrets. -/
def writeUsers (entries : List (String × String)) : String :=
  ",".intercalate (entries.map fun e => e.1 ++ ":" ++ e.2)

/-- Users that have white space at no end and no separator in them, with secrets that have no comma
in them. -/
def Listable (entries : List (String × String)) : Prop :=
  ∀ e ∈ entries, e.1 ≠ "" ∧ Text.trim e.1 = e.1 ∧ ',' ∉ e.1.toList ∧ ':' ∉ e.1.toList ∧
    ',' ∉ e.2.toList

theorem readUser_of_written {user secret : String} (hne : user ≠ "")
    (htrim : Text.trim user = user) (hcolon : ':' ∉ user.toList) :
    readUser (user ++ ":" ++ secret).toList = some (user, secret) := by
  refine (readUser_eq_some_iff_isEntry _ _ _).mpr ⟨hne, user.toList, by simp, hcolon, ?_⟩
  rw [← Text.toList_trim, htrim]

/-- Entries are read as they were written, one by one. -/
theorem readUsers_writeUsers {entries : List (String × String)} (h : Listable entries) :
    readUsers (writeUsers entries) = .ofList entries := by
  cases hcase : entries with
  | nil => rfl
  | cons first rest =>
    rw [← hcase]
    let pieces := entries.map fun e => (e.1 ++ ":" ++ e.2).toList
    have hnone : ∀ p ∈ pieces, ',' ∉ p := by
      refine List.forall_mem_map.mpr fun e he => ?_
      obtain ⟨-, -, huser, -, hsecret⟩ := h e he
      simp [huser, hsecret]
    have hpieces : Text.pieces ',' (writeUsers entries).toList = pieces := by
      rw [Text.pieces_eq_splitOn, writeUsers, String.toList_intercalate, List.map_map]
      exact List.splitOn_intercalate ',' hnone (by simp [hcase])
    have hread : pieces.filterMap readUser = entries := by
      rw [List.filterMap_map]
      refine (List.filterMap_congr fun e he => ?_).trans List.filterMap_some
      obtain ⟨hne, htrim, -, hcolon, -⟩ := h e he
      exact readUser_of_written hne htrim hcolon
    rw [readUsers, hpieces, hread]

/-- Users and secrets are read exactly. A user has a secret in the table just if the name is not
empty and the last of the entries for it, among all the pieces between commas, has this secret. So a
table whose users and secrets can be told apart in a text is read from its text, whatever the order
in which the text lists them. -/
theorem users_read_exactly (raw user secret : String) :
    ((readUsers raw).find? user = some secret ↔ user ≠ "" ∧ ∃ earlier piece later,
      raw.toList.splitOn ',' = earlier ++ piece :: later ∧ IsEntry piece user secret ∧
      ∀ other ∈ later, ∀ s, ¬ IsEntry other user s) ∧
    ∀ (t : Table String String) (entries : List (String × String)), Listable entries →
      entries.Perm t.entries → ∀ u, (readUsers (writeUsers entries)).find? u = t.find? u := by
  constructor
  · rw [readUsers, Text.pieces_eq_splitOn, Table.find?_ofList_filterMap]
    simp only [ne_eq, readUser_eq_some_iff_isEntry, not_and]
    constructor
    · rintro ⟨earlier, piece, later, hpieces, ⟨hne, hentry⟩, hlater⟩
      exact ⟨hne, earlier, piece, later, hpieces, hentry, fun y hy s => hlater y hy s hne⟩
    · rintro ⟨hne, earlier, piece, later, hpieces, hentry, hlater⟩
      exact ⟨earlier, piece, later, hpieces, ⟨hne, hentry⟩, fun y hy s _ => hlater y hy s⟩
  · intro t entries hlistable hperm u
    rw [readUsers_writeUsers hlistable]
    exact Table.find?_ofList_of_perm hperm u

/-- One user has a secret with a colon and white space in it, the other one an empty one. -/
theorem users_read_exactly_of_two :
    let entries := [("alice", " a:b "), ("bob", "")]
    Listable entries ∧ writeUsers entries = "alice: a:b ,bob:" ∧
      (readUsers "alice: a:b ,bob:").find? "alice" = some " a:b " := by
  intro entries
  have hlistable : Listable entries := by
    unfold Listable
    decide +kernel
  have hwritten : writeUsers entries = "alice: a:b ,bob:" := by decide +kernel
  let t : Table String String := .ofList entries
  have hperm : entries.Perm t.entries := .swap _ _ _
  have hread := (users_read_exactly "" "" "").2 t entries hlistable hperm "alice"
  rw [hwritten] at hread
  exact ⟨hlistable, hwritten, hread⟩

end AtMostOnce.Settings
