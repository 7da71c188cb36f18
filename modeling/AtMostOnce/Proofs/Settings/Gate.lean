import AtMostOnce.Settings
import AtMostOnce.Proofs.Except
import AtMostOnce.Proofs.Text.Trim
import AtMostOnce.Proofs.Text.Utf8

/-! The kind of access that is read from the variables. A name that is not known is refused,
whatever the other variables hold. But bytes that are not text count as no name at all, and everyone
is admitted. -/
namespace AtMostOnce

/-- A text that gives the name of the kind of access, white space around it and the case of its
letters aside. -/
def AuthType.SpeltBy (a : AuthType) (t : String) : Prop := (Text.trim t).map Char.toUpper = a.name

theorem AuthType.name_injective : Function.Injective AuthType.name := by
  intro a b h
  cases a <;> cases b <;> first | rfl | exact absurd h (by decide)

theorem AuthType.ofText_eq_ok_iff (s : String) (a : AuthType) :
    ofText s = .ok a ↔ s.map Char.toUpper = a.name := by
  unfold ofText
  dsimp only
  by_cases hsimple : s.map Char.toUpper = simple.name
  · rw [if_pos hsimple, hsimple, name_injective.eq_iff, Except.ok.injEq]
  by_cases hcustom : s.map Char.toUpper = custom.name
  · rw [if_neg hsimple, if_pos hcustom, hcustom, name_injective.eq_iff, Except.ok.injEq]
  · rw [if_neg hsimple, if_neg hcustom]
    cases a <;> simp [hsimple, hcustom]

theorem AuthType.ofText_eq_error_iff (s : String) (e : ConfigError) :
    ofText s = .error e ↔
      (∀ a : AuthType, s.map Char.toUpper ≠ a.name) ∧
        e = .unknownAuthType (s.map Char.toUpper) := by
  constructor
  · intro h
    have hnone : ∀ a : AuthType, s.map Char.toUpper ≠ a.name := fun a ha => by
      rw [(ofText_eq_ok_iff s a).mpr ha] at h
      cases h
    rw [ofText, if_neg (hnone .simple), if_neg (hnone .custom), Except.error.injEq] at h
    exact ⟨hnone, h.symm⟩
  · rintro ⟨hnone, rfl⟩
    rw [ofText, if_neg (hnone .simple), if_neg (hnone .custom)]

namespace Settings

theorem text?_eq_some_iff (env : Environment) (v : Variable) (t : String) :
    text? env v = some t ↔ env v = some (Text.Utf8.encode t) := by
  simp only [text?, Option.bind_eq_some_iff, Text.Utf8.text?_eq_some_iff, exists_eq_right]

/-- A variable has no text if it is not set, or if its bytes are not those of any text. -/
theorem text?_eq_none_iff (env : Environment) (v : Variable) : text? env v = none ↔
    env v = none ∨ ∃ bytes, env v = some bytes ∧ ∀ t, bytes ≠ Text.Utf8.encode t := by
  rw [Option.eq_none_iff_forall_ne_some]
  simp only [ne_eq, text?_eq_some_iff]
  cases env v <;> simp

theorem readAuthType_some (t : String) : readAuthType (some t) =
    if Text.trim t = "" then .ok .simple else AuthType.ofText (Text.trim t) := rfl

theorem readAuthType_eq_error_iff (raw : Option String) (e : ConfigError) :
    readAuthType raw = .error e ↔ ∃ t, raw = some t ∧ Text.trim t ≠ "" ∧
      (∀ a : AuthType, ¬ a.SpeltBy t) ∧ e = .unknownAuthType ((Text.trim t).map Char.toUpper) := by
  cases raw with
  | none => simp [readAuthType]
  | some t =>
    rw [readAuthType_some]
    by_cases ht : Text.trim t = ""
    · simp [ht]
    · rw [if_neg ht, AuthType.ofText_eq_error_iff]
      simp [ht, AuthType.SpeltBy]

theorem readAuthType_eq_simple_iff (raw : Option String) :
    readAuthType raw = .ok .simple ↔
      raw = none ∨ ∃ t, raw = some t ∧ (Text.trim t = "" ∨ AuthType.simple.SpeltBy t) := by
  cases raw with
  | none => simp [readAuthType]
  | some t =>
    rw [readAuthType_some]
    by_cases ht : Text.trim t = ""
    · simp [ht]
    · rw [if_neg ht, AuthType.ofText_eq_ok_iff]
      simp [ht, AuthType.SpeltBy]

/-- Of the variables only the one for the kind of access can make the settings unreadable. -/
theorem read_eq_error_iff (env : Environment) (e : ConfigError) :
    read env = .error e ↔ readAuthType (text? env .authType) = .error e := by
  unfold read
  cases readAuthType (text? env .authType) with
  | error e' => exact ⟨fun h => by cases h; rfl, fun h => by cases h; rfl⟩
  | ok a => exact ⟨nofun, nofun⟩

/-- What settings say of access, if they can be read. -/
theorem of_read {env : Environment} {s : Settings} (h : read env = .ok s) :
    readAuthType (text? env .authType) = .ok s.authType ∧
      s.users = ((text? env .users).map readUsers).getD .empty := by
  obtain ⟨a, ha, h⟩ := eq_ok_of_bind h
  cases h
  exact ⟨ha, rfl⟩

theorem access_eq_everyone_iff (s : Settings) : s.access = .everyone ↔ s.authType = .simple := by
  unfold access
  cases s.authType <;> simp [Access.of]

/-- An unknown name for the kind of access is refused and told, and nothing else is refused. So
everyone is admitted only where no name is set, where it is blank, where it is the name for that,
and where the bytes set for it are not text. -/
theorem unknown_name_refused (env : Environment) :
    (∀ e, read env = .error e ↔ ∃ t, env .authType = some (Text.Utf8.encode t) ∧
      (∃ c ∈ t.toList, ¬ Text.isBlank c) ∧ (∀ a : AuthType, ¬ a.SpeltBy t) ∧
      e = .unknownAuthType ((Text.trim t).map Char.toUpper)) ∧
    ((∃ s, read env = .ok s ∧ s.access = .everyone) ↔
      env .authType = none ∨
      (∃ bytes, env .authType = some bytes ∧ ∀ t, bytes ≠ Text.Utf8.encode t) ∨
      ∃ t, env .authType = some (Text.Utf8.encode t) ∧
        ((∀ c ∈ t.toList, Text.isBlank c) ∨ AuthType.simple.SpeltBy t)) := by
  constructor
  · intro e
    rw [read_eq_error_iff, readAuthType_eq_error_iff]
    simp only [text?_eq_some_iff, ne_eq, Text.trim_eq_empty_iff, not_forall, exists_prop]
  · rw [← or_assoc, ← text?_eq_none_iff]
    simp only [← text?_eq_some_iff, ← Text.trim_eq_empty_iff]
    rw [← readAuthType_eq_simple_iff]
    constructor
    · rintro ⟨s, hread, hopen⟩
      rw [(of_read hread).1, (access_eq_everyone_iff s).mp hopen]
    · intro hsimple
      cases hread : read env with
      | error e =>
        rw [(read_eq_error_iff env e).mp hread] at hsimple
        cases hsimple
      | ok s =>
        rw [(of_read hread).1, Except.ok.injEq] at hsimple
        exact ⟨s, rfl, (access_eq_everyone_iff s).mpr hsimple⟩

/-- With one byte too many after the name, the secrets are not asked for. -/
theorem stray_byte_opens_gate :
    let bytes : Bytes := [0x43, 0x55, 0x53, 0x54, 0x4F, 0x4D, 0xFF]
    let env : Environment := fun
      | .authType => some bytes
      | .users => some (Text.Utf8.encode "alice:secret")
      | _ => none
    bytes = Text.Utf8.encode "CUSTOM" ++ [0xFF] ∧ (∀ t, bytes ≠ Text.Utf8.encode t) ∧
      ∃ s, read env = .ok s ∧ s.access = .everyone ∧ s.users.find? "alice" = some "secret" := by
  intro bytes env
  have hbytes : Text.Utf8.text? bytes = none := by decide +kernel
  have hname : text? env .authType = none := hbytes
  refine ⟨by decide +kernel, ?_, ?_⟩
  · intro t ht
    rw [(Text.Utf8.text?_eq_some_iff bytes t).mpr ht] at hbytes
    cases hbytes
  · obtain ⟨s, hs⟩ : ∃ s, read env = .ok s := by
      rw [read, hname]
      exact ⟨_, rfl⟩
    obtain ⟨hsimple, husers⟩ := of_read hs
    rw [hname] at hsimple
    refine ⟨s, hs, (access_eq_everyone_iff s).mpr (Except.ok.inj hsimple).symm, ?_⟩
    rw [husers]
    decide +kernel

end Settings
end AtMostOnce
