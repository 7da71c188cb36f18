import AtMostOnce.Proofs.Settings.Gate
import AtMostOnce.Proofs.Text.Numeral

/-! The numbers among the settings. Each one is told by its own variable: by the numeral that stands
in it, if one does that is not too large, and else it is what it is where nothing is said. -/
namespace AtMostOnce

/-- The type of what a variable says. -/
def Variable.Content : Variable → Type
  | maxSize | timeToLive | port | sweepInterval => Nat
  | authType => AuthType
  | users => Table String String
  | journal => Option Bytes

namespace Settings

/-- What settings hold of a variable. -/
def field (s : Settings) : (v : Variable) → v.Content
  | .maxSize => s.maxSize
  | .timeToLive => s.timeToLive
  | .port => s.port
  | .sweepInterval => s.sweepInterval
  | .authType => s.authType
  | .users => s.users
  | .journal => s.journal

/-- The settings that are numbers. -/
inductive Quantity where
  | maxSize
  | timeToLive
  | port
  | sweepInterval

namespace Quantity

def source : Quantity → Variable
  | maxSize => .maxSize
  | timeToLive => .timeToLive
  | port => .port
  | sweepInterval => .sweepInterval

/-- The least number that is too large: a port has 16 bits, and all else has 64. -/
def bound : Quantity → Nat
  | port => Nat.pow 2 16
  | maxSize | timeToLive | sweepInterval => Nat.pow 2 64

def of (s : Settings) : Quantity → Nat
  | maxSize => s.maxSize
  | timeToLive => s.timeToLive
  | port => s.port
  | sweepInterval => s.sweepInterval

/-- A number that is given: the variable holds the bytes of a text that spells it, and it is not too
large. -/
def Given (q : Quantity) (env : Environment) (n : Nat) : Prop :=
  ∃ t, env q.source = some (Text.Utf8.encode t) ∧ Text.Spells t.toList n ∧ n < q.bound

theorem numeral?_eq_some_iff (q : Quantity) (env : Environment) (n : Nat) :
    numeral? env q.source q.bound = some n ↔ q.Given env n := by
  simp only [numeral?, Option.bind_eq_some_iff, text?_eq_some_iff, Text.numeral?_eq_some_iff,
    Text.isNumeral_trimList_iff, Given]

theorem numeral?_eq_none_iff (q : Quantity) (env : Environment) :
    numeral? env q.source q.bound = none ↔ ∀ n, ¬ q.Given env n := by
  rw [Option.eq_none_iff_forall_ne_some]
  exact forall_congr' fun n => not_congr (q.numeral?_eq_some_iff env n)

end Quantity

section
variable {env : Environment} {s : Settings} (h : read env = .ok s)
include h

theorem quantity_of_read (q : Quantity) :
    q.of s = (numeral? env q.source q.bound).getD (q.of {}) := by
  obtain ⟨a, -, h⟩ := eq_ok_of_bind h
  cases h
  cases q <;> rfl

theorem journal_of_read : s.journal = env .journal := by
  obtain ⟨a, -, h⟩ := eq_ok_of_bind h
  cases h
  rfl

/-- A quantity is the number that is given, or what it is where nothing is said. -/
theorem quantity_eq_iff (q : Quantity) (n : Nat) :
    q.of s = n ↔ q.Given env n ∨ n = q.of {} ∧ ∀ m, ¬ q.Given env m := by
  rw [quantity_of_read h, ← q.numeral?_eq_some_iff, ← q.numeral?_eq_none_iff]
  cases numeral? env q.source q.bound <;> simp [eq_comm]

/-- What stands in a variable tells what settings hold of it. -/
theorem field_eq_of_read {env' : Environment} {s' : Settings} (h' : read env' = .ok s')
    {v : Variable} (hv : env' v = env v) : s'.field v = s.field v := by
  have htext : text? env' v = text? env v := by rw [text?, text?, hv]
  have hquantity : ∀ q : Quantity, q.source = v → q.of s' = q.of s := by
    rintro q rfl
    rw [quantity_of_read h, quantity_of_read h', numeral?, numeral?, htext]
  cases v with
  | maxSize => exact hquantity .maxSize rfl
  | timeToLive => exact hquantity .timeToLive rfl
  | port => exact hquantity .port rfl
  | sweepInterval => exact hquantity .sweepInterval rfl
  | authType =>
    have hsame := (of_read h').1
    rw [htext, (of_read h).1] at hsame
    exact (Except.ok.inj hsame).symm
  | users =>
    show s'.users = s.users
    rw [(of_read h).2, (of_read h').2, htext]
  | journal =>
    show s'.journal = s.journal
    rw [journal_of_read h, journal_of_read h', hv]

end

theorem exists_bounds_iff (s : Settings) :
    (∃ b, s.bounds = .ok b) ↔ 0 < s.maxSize ∧ 0 < s.timeToLive := by
  unfold bounds Bounds.of
  by_cases hsize : 0 < s.maxSize
  · by_cases htime : 0 < s.timeToLive <;> simp [hsize, htime]
  · simp [hsize]

/-- Quantities are read exactly. Only an unknown name for the kind of access makes the settings
unreadable. Where they are read, each quantity is the number that its variable gives, and what it is
where nothing is said if the variable gives none; a variable that is changed changes no field but
its own; and there are bounds for a memory just if both of them came out positive. -/
theorem quantities_read_exactly (env : Environment) :
    (∀ e, read env = .error e ↔ ∃ t, env .authType = some (Text.Utf8.encode t) ∧
      (∃ c ∈ t.toList, ¬ Text.isBlank c) ∧ (∀ a : AuthType, ¬ a.SpeltBy t) ∧
      e = .unknownAuthType ((Text.trim t).map Char.toUpper)) ∧
    ∀ s, read env = .ok s →
      (∀ (q : Quantity) n, q.of s = n ↔ q.Given env n ∨ n = q.of {} ∧ ∀ m, ¬ q.Given env m) ∧
      (∀ env' s', read env' = .ok s' → ∀ v, env' v = env v → s'.field v = s.field v) ∧
      ((∃ b, s.bounds = .ok b) ↔ 0 < s.maxSize ∧ 0 < s.timeToLive) := by
  constructor
  · intro e
    rw [read_eq_error_iff, readAuthType_eq_error_iff]
    simp only [text?_eq_some_iff, ne_eq, Text.trim_eq_empty_iff, not_forall, exists_prop]
  · intro s h
    exact ⟨quantity_eq_iff h, fun _ _ h' _ hv => field_eq_of_read h h' hv, exists_bounds_iff s⟩

/-- A sign, leading zeros and white space do not matter; a number that is one too large counts as
none, and so it is with the port alone; and nothing can be remembered for no time. -/
theorem quantities_read_exactly_at_the_edges :
    let env (port : String) : Environment := fun
      | .maxSize => some (Text.Utf8.encode "\t+007 ")
      | .timeToLive => some (Text.Utf8.encode "0")
      | .port => some (Text.Utf8.encode port)
      | _ => none
    ∃ s s', read (env "65536") = .ok s ∧ read (env "65535") = .ok s' ∧ s.maxSize = 7 ∧
      s'.maxSize = s.maxSize ∧ s.timeToLive = 0 ∧ s.port = 3000 ∧ ¬ ∃ b, s.bounds = .ok b := by
  intro env
  obtain ⟨s, hs⟩ : ∃ s, read (env "65536") = .ok s := ⟨_, rfl⟩
  obtain ⟨s', hs'⟩ : ∃ s, read (env "65535") = .ok s := ⟨_, rfl⟩
  obtain ⟨hquantity, hfield, hbounds⟩ := (quantities_read_exactly (env "65536")).2 s hs
  have hsize : Quantity.maxSize.Given (env "65536") 7 :=
    ⟨"\t+007 ", rfl, ⟨['\t'], ['+', '0', '0', '7'], [' '], by decide +kernel,
      List.forall_mem_singleton.mpr (by decide),
      ⟨[0, 0, 7], by decide, by decide, by decide, .inr (by decide)⟩,
      List.forall_mem_singleton.mpr (by decide)⟩, by decide⟩
  have htime : Quantity.timeToLive.Given (env "65536") 0 :=
    ⟨"0", rfl, ⟨[], ['0'], [], by decide +kernel, nofun,
      ⟨[0], by decide, by decide, by decide, .inl (by decide)⟩, nofun⟩, by decide⟩
  have hport : ∀ n, ¬ Quantity.port.Given (env "65536") n := by
    rw [← Quantity.numeral?_eq_none_iff]
    decide +kernel
  have hnone : s.timeToLive = 0 := (hquantity .timeToLive 0).mpr (.inl htime)
  refine ⟨s, s', hs, hs', (hquantity .maxSize 7).mpr (.inl hsize), hfield _ s' hs' .maxSize rfl,
    hnone,
    (hquantity .port 3000).mpr (.inr ⟨rfl, hport⟩), ?_⟩
  rw [hbounds, hnone]
  exact fun hpos => Nat.lt_irrefl 0 hpos.2

end Settings
end AtMostOnce
