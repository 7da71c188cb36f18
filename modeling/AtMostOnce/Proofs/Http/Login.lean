import AtMostOnce.Proofs.Http.Refused
import AtMostOnce.Proofs.Settings.Users
import AtMostOnce.Proofs.Text.Utf8

/-! Logging in. The user and the credential that a request carries are looked up in the table of the
settings. Both are trimmed first, and so are the users in the table, but not their secrets. -/
namespace AtMostOnce
namespace Http

/-- Text of visible ASCII characters and spaces. -/
def Visible (text : String) : Prop := ∀ c ∈ text.toList, 0x20 ≤ c.toNat ∧ c.toNat ≤ 0x7E

instance (text : String) : Decidable (Visible text) :=
  List.decidableBAll (fun c : Char => 0x20 ≤ c.toNat ∧ c.toNat ≤ 0x7E) text.toList

namespace Request

/-- The first header of that name holds the text. -/
def Carries (r : Request) (name text : String) : Prop :=
  r.header? name = some (Text.Utf8.encode text)

instance (r : Request) (name text : String) : Decidable (r.Carries name text) :=
  inferInstanceAs (Decidable (_ = _))

variable {r : Request} {name text : String}

/-- Visible text reaches the server as it is. -/
theorem headerText?_of_carries (h : r.Carries name text) (visible : Visible text) :
    r.headerText? name = some text.toList := by
  have hbytes : Text.Utf8.encode text = text.toList.map fun c => UInt8.ofNat c.toNat :=
    Text.Utf8.encode_of_ascii fun c hc => Nat.lt_of_le_of_lt (visible c hc).2 (by decide)
  have hback : ∀ c ∈ text.toList, (UInt8.ofNat c.toNat).toNat = c.toNat := fun c hc =>
    Text.Utf8.toNat_byte (Nat.lt_of_le_of_lt (visible c hc).2 (by decide))
  have hall : (Text.Utf8.encode text).all isHeaderText = true := by
    rw [hbytes, List.all_map, List.all_eq_true]
    intro c hc
    obtain ⟨hlow, hhigh⟩ := visible c hc
    simp only [Function.comp, isHeaderText, Bool.or_eq_true, Bool.and_eq_true, decide_eq_true_eq,
      UInt8.le_iff_toNat_le, UInt8.lt_iff_toNat_lt, hback c hc]
    exact .inl ⟨hlow, Nat.lt_succ_of_le hhigh⟩
  rw [headerText?, h, Option.bind_some, if_pos hall, hbytes, List.map_map]
  congr 1
  conv_rhs => rw [← List.map_id text.toList]
  apply List.map_congr_left
  intro c hc
  rw [Function.comp, hback c hc, Char.ofNat_toNat]
  rfl

theorem headerWord_of_carries (h : r.Carries name text) (visible : Visible text) :
    r.headerWord name = Text.trim text := by
  rw [headerWord, headerText?_of_carries h visible]
  rfl

/-- There is no white space around a word. -/
theorem trim_headerWord (r : Request) (name : String) :
    Text.trim (r.headerWord name) = r.headerWord name := by
  rw [headerWord, Text.trim, String.toList_ofList, Text.trimList_trimList]

end Request

/-- A request whose body states what the endpoint is to do. -/
def Endpoint.Readable (e : Endpoint) (r : Request) : Prop :=
  match e with
  | create => bodyObjections r Creation.read = []
  | rename => bodyObjections r Renaming.read = []

instance (e : Endpoint) (r : Request) : Decidable (e.Readable r) :=
  match e with
  | .create => inferInstanceAs (Decidable (bodyObjections r Creation.read = []))
  | .rename => inferInstanceAs (Decidable (bodyObjections r Renaming.read = []))

theorem status_of_mem_bodyObjections {α : Type} {r : Request}
    {read : Bytes → Except Json.ReadError (α × Bytes)} {o : Objection}
    (h : o ∈ bodyObjections r read) : o.status ≠ 401 := by
  unfold bodyObjections at h
  rcases List.mem_append.mp h with h | h
  · rcases List.mem_append.mp h with h | h
    · split at h
      · cases h
      · cases List.mem_singleton.mp h
        decide
    · split at h
      · cases List.mem_singleton.mp h
        decide
      · cases h
  · split at h
    · rename_i e _
      cases List.mem_singleton.mp h
      cases e <;> decide
    · cases h

theorem status_of_mem_commandObjections {α : Type} {r : Request}
    {read : Bytes → Except Json.ReadError (α × Bytes)} {complaint? : α → Option String}
    {o : Objection} (h : o ∈ commandObjections r read complaint?) : o.status ≠ 401 := by
  unfold commandObjections at h
  split at h
  · cases h
  · obtain ⟨message, -, rfl⟩ := List.mem_map.mp h
    exact nofun

/-- What speaks against a body or a command is never answered as unauthenticated. -/
theorem Endpoint.objections_eq (e : Endpoint) (access : Access) (r : Request) :
    ∃ before after, e.objections access r = before ++ senderObjections access r ++ after ∧
      (e.Readable r ↔ before = []) ∧ (∀ o ∈ before, o.status ≠ 401) ∧
        ∀ o ∈ after, o.status ≠ 401 := by
  cases e with
  | create => exact ⟨_, _, rfl, Iff.rfl, fun _ => status_of_mem_bodyObjections,
      fun _ => status_of_mem_commandObjections⟩
  | rename => exact ⟨_, _, rfl, Iff.rfl, fun _ => status_of_mem_bodyObjections,
      fun _ => status_of_mem_commandObjections⟩

theorem Endpoint.status_response (e : Endpoint) (o : Outcome File) :
    (e.response o).status ≠ 401 := by
  show (Server.respond (o.replay e.vocabulary.fault)).status ≠ 401
  rcases o.replay e.vocabulary.fault with (_ | _) | _ <;> exact nofun

namespace Server
variable {s : Server} {r : Request} {e : Endpoint}

/-- The sender of the request is let in, whatever else may speak against the request. -/
def Admits (s : Server) (r : Request) : Prop := ∀ e, s.authorize r ≠ .error (.unauthenticated e)

theorem admits_iff : s.Admits r ↔
    s.access.check (r.headerWord "x-auth-user") (r.headerWord "x-auth-credential") = .ok () := by
  unfold Admits authorize
  cases s.access.check (r.headerWord "x-auth-user") (r.headerWord "x-auth-credential") with
  | error e =>
    constructor
    · exact fun h => absurd rfl (h e)
    · exact nofun
  | ok _ =>
    refine iff_of_true (fun e h => ?_) rfl
    by_cases hid : r.headerWord "x-request-id" = ""
    · simp only [hid] at h
      cases h
    · simp only [hid] at h
      cases h

/-- Where there are secrets, the user and the credential are those of one entry. -/
theorem admits_iff_of_users {secrets : Table String String} (h : s.access = .users secrets) :
    s.Admits r ↔
      secrets.find? (r.headerWord "x-auth-user") = some (r.headerWord "x-auth-credential") := by
  rw [admits_iff, h, Access.check]
  cases secrets.find? (r.headerWord "x-auth-user") with
  | none => exact ⟨nofun, nofun⟩
  | some secret =>
    by_cases hsecret : secret = r.headerWord "x-auth-credential"
    · simp [hsecret]
    · simp [hsecret]

/-- A request is answered as unauthenticated only if that speaks against it. -/
theorem status_ne_unauthenticated (posted : r.PostedTo e)
    (h : ∀ o ∈ e.objections s.access r, o.status ≠ 401) : (s.handle r).1.status ≠ 401 := by
  cases ho : e.objections s.access r with
  | nil =>
    obtain ⟨order, horder⟩ := Option.isSome_iff_exists.mp (accepted?_of_no_objection ho)
    have hplaced : s.order? e r = some order := (if_pos posted).trans horder
    rw [handle_of_order hplaced]
    exact e.status_response _
  | cons o rest =>
    rw [handle_of_objection posted ho]
    show o.response.status ≠ 401
    rw [o.status_response]
    exact h o (ho ▸ List.mem_cons_self)

/-- What is answered as unauthenticated is what can be read and comes from someone who is not let
in. -/
theorem status_eq_unauthenticated_iff (posted : r.PostedTo e) :
    (s.handle r).1.status = 401 ↔ e.Readable r ∧ ¬ s.Admits r := by
  obtain ⟨before, after, hobjections, hreadable, hbefore, hafter⟩ := e.objections_eq s.access r
  rw [hreadable, admits_iff]
  cases before with
  | cons o before =>
    rw [handle_of_objection posted hobjections]
    show o.response.status = 401 ↔ _
    rw [o.status_response]
    exact iff_of_false (hbefore o List.mem_cons_self) nofun
  | nil =>
    rw [List.nil_append, senderObjections] at hobjections
    cases hcheck :
      s.access.check (r.headerWord "x-auth-user") (r.headerWord "x-auth-credential") with
    | error e' =>
      rw [hcheck] at hobjections
      rw [handle_of_objection posted hobjections]
      exact iff_of_true rfl ⟨rfl, nofun⟩
    | ok _ =>
      rw [hcheck, List.nil_append] at hobjections
      refine iff_of_false (status_ne_unauthenticated posted fun o ho => ?_) fun h => h.2 rfl
      rw [hobjections] at ho
      rcases List.mem_append.mp ho with ho | ho
      · split at ho
        · cases List.mem_singleton.mp ho
          decide
        · cases ho
      · exact hafter o ho

theorem access_of_ofSettings {settings : Settings} {journal : Journal} {origin : Nat}
    (h : ofSettings settings journal origin = .ok s) : s.access = settings.access := by
  unfold ofSettings at h
  cases hbounds : settings.bounds with
  | error e =>
    rw [hbounds] at h
    cases h
  | ok bounds =>
    rw [hbounds] at h
    cases h
    rfl

/-- With secrets in force, whoever is let in names a user of the table and the secret of that user,
white space around both aside. So a user logs in with the secret if there is no white space around
it, and is locked out if there is: such a secret is never what a credential is trimmed to. -/
theorem login_exact {env : Environment} {settings : Settings} {journal : Journal} {origin : Nat}
    {start : Server} (hread : Settings.read env = .ok settings)
    (hcustom : settings.authType = .custom)
    (hstart : ofSettings settings journal origin = .ok start) (steps : List Step) :
    let s := (start.run steps).2
    (∀ user secret, settings.users.find? user = some secret → Visible user → Visible secret →
      ∀ r : Request, r.Carries "x-auth-user" user → r.Carries "x-auth-credential" secret →
        (s.Admits r ↔ Text.trim secret = secret)) ∧
    (∀ user secret, settings.users.find? user = some secret → Text.trim secret ≠ secret →
      ∀ r : Request, r.headerWord "x-auth-user" = user → ¬ s.Admits r) ∧
    (∀ r : Request, s.Admits r → ∃ user, r.headerText? "x-auth-user" = some user ∧
      settings.users.find? (.ofList (Text.trimList user)) =
        some (r.headerWord "x-auth-credential")) ∧
    ∀ (r : Request) (e : Endpoint), r.PostedTo e →
      ((s.handle r).1.status = 401 ↔ e.Readable r ∧ ¬ s.Admits r) := by
  intro s
  have haccess : s.access = .users settings.users := by
    rw [access_run, access_of_ofSettings hstart, Settings.access, hcustom]
    rfl
  have hnamed : ∀ {user secret}, settings.users.find? user = some secret →
      Text.trim user = user ∧ user ≠ "" := Settings.trim_of_find?_users hread
  refine ⟨?_, ?_, ?_, fun r e posted => status_eq_unauthenticated_iff posted⟩
  · intro user secret hentry huser hsecret r hr hr'
    rw [admits_iff_of_users haccess, Request.headerWord_of_carries hr huser, (hnamed hentry).1,
      hentry,
      Request.headerWord_of_carries hr' hsecret, Option.some.injEq, eq_comm]
  · rintro user secret hentry hpadded r rfl hadmits
    rw [admits_iff_of_users haccess, hentry, Option.some.injEq] at hadmits
    rw [hadmits, Request.trim_headerWord] at hpadded
    exact hpadded rfl
  · intro r hadmits
    rw [admits_iff_of_users haccess] at hadmits
    obtain ⟨user, htext⟩ : ∃ user, r.headerText? "x-auth-user" = some user := by
      apply Option.ne_none_iff_exists'.mp
      intro hnone
      have hempty : r.headerWord "x-auth-user" = "" := by
        rw [Request.headerWord, hnone]
        rfl
      exact (hnamed hadmits).2 hempty
    refine ⟨user, htext, ?_⟩
    rw [Request.headerWord, htext] at hadmits
    exact hadmits

/-- The last secret of a user is the one to log in with, and a space before it locks the user
out. -/
theorem login_exact_of_two_users :
    let raw := "ann:first, ann :x y,bob: open"
    let env : Environment := fun
      | .authType => some (Text.Utf8.encode "Custom")
      | .users => some (Text.Utf8.encode raw)
      | _ => none
    let settings : Settings := { authType := .custom, users := Settings.readUsers raw }
    let start := new .default settings.access .absent 0
    let post (user credential : String) : Request := {
      method := "POST"
      target := "/files"
      headers := [("x-auth-user", Text.Utf8.encode user),
        ("x-auth-credential", Text.Utf8.encode credential)]
      body := [] }
    Settings.read env = .ok settings ∧ ofSettings settings .absent 0 = .ok start ∧
      start.Admits (post "ann" "x y") ∧ ¬ start.Admits (post "bob" " open") := by
  intro raw env settings start post
  have hread : Settings.read env = .ok settings :=
    Settings.read_of_users_only env "Custom" raw rfl (by decide +kernel) rfl fun v h h' => by
      cases v <;> first | rfl | contradiction
  have hstart : ofSettings settings .absent 0 = .ok start := rfl
  obtain ⟨admitted, locked, -, -⟩ := login_exact hread rfl hstart []
  refine ⟨hread, hstart, ?_, ?_⟩
  · exact (admitted "ann" "x y" (by decide +kernel) (by decide +kernel) (by decide +kernel)
      (post "ann" "x y") (by decide +kernel) (by decide +kernel)).mpr (by decide +kernel)
  · exact locked "bob" " open" (by decide +kernel) (by decide +kernel) (post "bob" " open")
      (by decide +kernel)

/-- A user carries what the table says, to the letter, and is told to be unauthenticated. -/
theorem padded_secret_locks_out :
    let raw := "alice: secret"
    let env : Environment := fun
      | .authType => some (Text.Utf8.encode "CUSTOM")
      | .users => some (Text.Utf8.encode raw)
      | _ => none
    let settings : Settings := { authType := .custom, users := Settings.readUsers raw }
    let start := new .default settings.access .absent 0
    let r : Request := {
      method := "POST"
      target := "/files"
      headers := [("content-type", Text.Utf8.encode "application/json"),
        ("x-request-id", Text.Utf8.encode "r1"), ("x-auth-user", Text.Utf8.encode "alice"),
        ("x-auth-credential", Text.Utf8.encode " secret")]
      body := Text.Utf8.encode "[\"/a\"]" }
    Settings.read env = .ok settings ∧ ofSettings settings .absent 0 = .ok start ∧
      settings.users.find? "alice" = some " secret" ∧ Visible "alice" ∧ Visible " secret" ∧
      r.PostedTo .create ∧ r.Carries "x-auth-user" "alice" ∧
      r.Carries "x-auth-credential" " secret" ∧
      ¬ start.Admits r ∧ (start.handle r).1.status = 401 := by
  intro raw env settings start r
  have hread : Settings.read env = .ok settings :=
    Settings.read_of_users_only env "CUSTOM" raw rfl (by decide +kernel) rfl fun v h h' => by
      cases v <;> first | rfl | contradiction
  have hlocked : ¬ start.Admits r := by
    have haccess : start.access = .users settings.users := rfl
    rw [admits_iff_of_users haccess]
    decide +kernel
  have hposted : r.PostedTo .create := by decide +kernel
  exact ⟨hread, rfl, by decide +kernel, by decide +kernel, by decide +kernel, hposted,
    by decide +kernel, by decide +kernel, hlocked,
    (status_eq_unauthenticated_iff hposted).mpr ⟨by decide +kernel, hlocked⟩⟩

end Server
end Http
end AtMostOnce
