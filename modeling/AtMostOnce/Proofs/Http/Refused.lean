import AtMostOnce.Proofs.Http.Retry
import AtMostOnce.Proofs.Session.Sweep

/-! Refused requests. A request that something speaks against is answered for the first thing that
does, and the server forgets it. -/
namespace AtMostOnce

theorem IdleCoordinator.ext {V : Type} {k k' : IdleCoordinator V}
    (h : k.toCoordinator = k'.toCoordinator) : k = k' := by
  cases k
  cases k'
  cases h
  rfl

namespace Http

/-- What may speak against a request to an endpoint. -/
inductive Objection where
  | unsupportedType
  | tooLarge
  | unreadable (e : Json.ReadError)
  | unauthenticated (e : AccessError)
  | missingId
  | complaint (message : String)
deriving DecidableEq

namespace Objection

def status : Objection → Nat
  | unsupportedType => 415
  | tooLarge => 413
  | unreadable .mismatched => 422
  | unreadable _ => 400
  | unauthenticated _ => 401
  | missingId => 400
  | complaint _ => 400

def response : Objection → Response
  | unsupportedType => BodyError.unsupportedType.response
  | tooLarge => BodyError.tooLarge.response
  | unreadable e => (BodyError.unreadable e).response
  | unauthenticated e => (Refusal.unauthenticated e).response
  | missingId => (Refusal.invalidRequest "Missing x-request-id header").response
  | complaint message => (Refusal.invalidRequest message).response

theorem status_response (o : Objection) : o.response.status = o.status := by
  cases o with
  | unreadable e => cases e <;> rfl
  | _ => rfl

end Objection

/-- What speaks against the body of a request, whoever has sent it. -/
def bodyObjections {α : Type} (r : Request) (read : Bytes → Except Json.ReadError (α × Bytes)) :
    List Objection :=
  (if r.hasJsonType then [] else [.unsupportedType]) ++
    (if maxBodyLength < r.body.length then [.tooLarge] else []) ++
    match read r.body with
    | .error e => [.unreadable e]
    | .ok _ => []

/-- What speaks against the sender of a request and the id that it goes by, whatever it asks for. -/
def senderObjections (access : Access) (r : Request) : List Objection :=
  (match access.check (r.headerWord "x-auth-user") (r.headerWord "x-auth-credential") with
    | .error e => [.unauthenticated e]
    | .ok _ => []) ++
    if r.headerWord "x-request-id" = "" then [.missingId] else []

/-- What speaks against the command that a request brings, if it can be read. -/
def commandObjections {α : Type} (r : Request) (read : Bytes → Except Json.ReadError (α × Bytes))
    (complaint? : α → Option String) : List Objection :=
  match read r.body with
  | .error _ => []
  | .ok (command, _) => (complaint? command).toList.map .complaint

/-- Everything that speaks against a request to the endpoint. Each check is made on its own. -/
def Endpoint.objections (e : Endpoint) (access : Access) (r : Request) : List Objection :=
  match e with
  | create => bodyObjections r Creation.read ++ senderObjections access r ++
      commandObjections r Creation.read Creation.complaint?
  | rename => bodyObjections r Renaming.read ++ senderObjections access r ++
      commandObjections r Renaming.read Renaming.complaint?

/-- A request that is posted to the endpoint. -/
def Request.PostedTo (r : Request) (e : Endpoint) : Prop :=
  r.method = "POST" ∧ Route.ofTarget? r.target = some e.route

instance (r : Request) (e : Endpoint) : Decidable (r.PostedTo e) :=
  inferInstanceAs (Decidable (_ ∧ _))

/-- A request that is not posted to either endpoint, or that something speaks against there. -/
def Request.Refused (r : Request) (access : Access) : Prop :=
  ∀ e : Endpoint, r.PostedTo e → e.objections access r ≠ []

instance (r : Request) (access : Access) : Decidable (r.Refused access) :=
  decidable_of_iff ((r.PostedTo .create → Endpoint.create.objections access r ≠ []) ∧
    (r.PostedTo .rename → Endpoint.rename.objections access r ≠ [])) (by
      constructor
      · intro h e
        cases e with
        | create => exact h.1
        | rename => exact h.2
      · exact fun h => ⟨h .create, h .rename⟩)

/-- The first objection decides: without any, the checks are passed. -/
def DecidedBy {α : Type} (x : Except Response α) : List Objection → Prop
  | [] => ∃ a, x = .ok a
  | o :: _ => x = .error o.response

/-- Checks made one after another are decided by their objections one after another. -/
theorem DecidedBy.bind {α β : Type} {x : Except Response α} {f : α → Except Response β}
    {os os' : List Objection} (h : DecidedBy x os)
    (h' : ∀ a, x = .ok a → DecidedBy (f a) os') : DecidedBy (x >>= f) (os ++ os') := by
  cases os with
  | nil =>
    obtain ⟨a, ha⟩ := h
    rw [ha]
    exact h' a ha
  | cons o os =>
    change x = .error o.response at h
    rw [h]
    rfl

section
variable {α : Type} (r : Request) (read : Bytes → Except Json.ReadError (α × Bytes))
  (complaint? : α → Option String)

theorem decidedBy_command :
    DecidedBy ((r.command read).mapError BodyError.response) (bodyObjections r read) := by
  unfold Request.command bodyObjections
  by_cases htype : r.hasJsonType = true
  · by_cases hlong : maxBodyLength < r.body.length
    · simp only [htype, hlong, Bool.not_true, Bool.false_eq_true, if_false, if_true]
      rfl
    · cases hread : read r.body with
      | error e =>
        simp only [htype, hlong, Bool.not_true, Bool.false_eq_true, if_false, if_true]
        rfl
      | ok a =>
        simp only [htype, hlong, Bool.not_true, Bool.false_eq_true, if_false, if_true]
        exact ⟨_, rfl⟩
  · simp only [htype, Bool.not_false, Bool.false_eq_true, if_false, if_true]
    rfl

theorem decidedBy_authorize (s : Server) :
    DecidedBy ((s.authorize r).mapError Refusal.response) (senderObjections s.access r) := by
  unfold Server.authorize senderObjections
  cases s.access.check (r.headerWord "x-auth-user") (r.headerWord "x-auth-credential") with
  | error e => rfl
  | ok _ =>
    by_cases hid : r.headerWord "x-request-id" = ""
    · rw [if_pos hid]
      simp only [hid]
      rfl
    · rw [if_neg hid]
      simp only [hid]
      exact ⟨_, rfl⟩

variable {r read} in
theorem read_of_command {a : α} (h : r.command read = .ok a) :
    ∃ more, read r.body = .ok (a, more) := by
  unfold Request.command at h
  split at h
  · cases h
  split at h
  · cases h
  split at h
  · cases h
  · rename_i a' more hread
    cases h
    exact ⟨more, hread⟩

theorem decidedBy_accept (s : Server) : DecidedBy (s.accept r read complaint?)
    (bodyObjections r read ++ senderObjections s.access r ++
      commandObjections r read complaint?) := by
  unfold Server.accept
  rw [List.append_assoc]
  refine (decidedBy_command r read).bind fun command hcommand => ?_
  refine (decidedBy_authorize r s).bind fun id _ => ?_
  obtain ⟨more, hread⟩ := read_of_command (eq_ok_of_mapError hcommand)
  unfold commandObjections
  rw [hread]
  dsimp only
  cases complaint? command with
  | none => exact ⟨_, rfl⟩
  | some message => rfl

end

namespace Server
variable {s : Server} {e : Endpoint} {r : Request}

theorem accepted?_of_no_objection (h : e.objections s.access r = []) :
    (s.accepted? r e).isSome = true := by
  cases e with
  | create =>
    have decided := decidedBy_accept r Creation.read Creation.complaint? s
    rw [show _ ++ _ = [] from h] at decided
    obtain ⟨accepted, ha⟩ := decided
    rw [accepted?, ha]
    rfl
  | rename =>
    have decided := decidedBy_accept r Renaming.read Renaming.complaint? s
    rw [show _ ++ _ = [] from h] at decided
    obtain ⟨accepted, ha⟩ := decided
    rw [accepted?, ha]
    rfl

theorem serve_of_objection {o : Objection} {rest : List Objection}
    (h : e.objections s.access r = o :: rest) : s.serve r e.route = (o.response, s) := by
  cases e with
  | create =>
    have decided := decidedBy_accept r Creation.read Creation.complaint? s
    rw [show _ ++ _ = o :: rest from h] at decided
    show s.create r = _
    rw [create, show s.accept r Creation.read Creation.complaint? = _ from decided]
  | rename =>
    have decided := decidedBy_accept r Renaming.read Renaming.complaint? s
    rw [show _ ++ _ = o :: rest from h] at decided
    show s.rename r = _
    rw [rename, show s.accept r Renaming.read Renaming.complaint? = _ from decided]

/-- A request is answered for the first thing that speaks against it. -/
theorem handle_of_objection {o : Objection} {rest : List Objection} (posted : r.PostedTo e)
    (h : e.objections s.access r = o :: rest) :
    s.handle r = ({ o.response with allowOrigin := some "*" }, s) := by
  rw [handle, dispatch_of_post posted.1 posted.2, serve_of_objection h]

/-- A refused request leaves the server as it is. -/
theorem handle_of_refused (h : r.Refused s.access) : (s.handle r).2 = s := by
  by_cases hposted : ∃ e, r.PostedTo e
  · obtain ⟨e, posted⟩ := hposted
    cases ho : e.objections s.access r with
    | nil => exact absurd ho (h e posted)
    | cons o rest => rw [handle_of_objection posted ho]
  · exact dispatch_of_no_post fun e posted => hposted ⟨e, posted⟩

theorem access_handle (s : Server) (r : Request) : (s.handle r).2.access = s.access := by
  rcases handle_cases s r with ⟨e, o, ho⟩ | hs
  · rw [handle_of_order ho]
    cases e <;> rfl
  · rw [hs]

/-- A sweep changes the memories of both coordinators and the sweeps, and nothing else. -/
theorem sweep_eq (s : Server) : ∃ creates renames, s.sweep = { s with
    creates := creates
    renames := renames
    sweeps := s.sweeps.map fun w => w.advance s.clock.now } := by
  obtain ⟨creates, renames, hpurged⟩ : ∃ creates renames,
      (Sweep.purgeDue purge s.clock.now 0 s.sweeps s).2 =
        { s with creates := creates, renames := renames } := by
    refine Sweep.purgeDue_invariant (P := fun t : Server => ∃ creates renames,
      t = { s with creates := creates, renames := renames }) ?_ ⟨_, _, rfl⟩
    rintro t ⟨creates, renames, rfl⟩
    exact ⟨_, _, rfl⟩
  refine ⟨creates, renames, ?_⟩
  simp only [sweep, sweepDue, hpurged]

theorem access_run (s : Server) (steps : List Step) : (s.run steps).2.access = s.access := by
  induction steps generalizing s with
  | nil => rfl
  | cons st steps ih =>
    have hact : (s.act st).2.access = s.access := by
      cases st with
      | request r => exact access_handle s r
      | _ => rfl
    obtain ⟨creates, renames, hsweep⟩ := (s.act st).2.sweep_eq
    have hstep : (s.step st).2.access = s.access :=
      (congrArg Server.access hsweep).trans hact
    exact (ih (s.step st).2).trans hstep

section
variable (bounds : Bounds) (access : Access) (journal : Journal) (origin : Nat)

/-- What a conversation leaves has been swept. -/
theorem sweep_of_run (steps : List Step) :
    let s := ((new bounds access journal origin).run steps).2
    s.sweep = s := by
  intro s
  have mirrored : ∀ e, (s.sweep.coordinator e) = s.coordinator e ∧ s.sweep.sweeps = s.sweeps := by
    intro e
    obtain ⟨mirrors, -⟩ := (Mirrors.new bounds access journal origin e).run .arrival steps
    have swept := mirrors.sweep
    rw [Session.sweep_run] at swept
    refine ⟨?_, swept.sweeps.symm.trans mirrors.sweeps⟩
    exact IdleCoordinator.ext (swept.coordinator.symm.trans mirrors.coordinator)
  obtain ⟨creates, renames, hsweep⟩ := s.sweep_eq
  have hcreates : creates = s.creates := by
    have hk := (mirrored .create).1
    rw [hsweep] at hk
    exact hk
  have hrenames : renames = s.renames := by
    have hk := (mirrored .rename).1
    rw [hsweep] at hk
    exact hk
  have hsweeps : (s.sweeps.map fun w => w.advance s.clock.now) = s.sweeps := by
    have hs := (mirrored .create).2
    rw [hsweep] at hs
    exact hs
  rw [hsweep, hcreates, hrenames, hsweeps]

theorem step_of_refused (steps : List Step) {r : Request} (h : r.Refused access) :
    let s := ((new bounds access journal origin).run steps).2
    s.step (.request r) = (.response (s.handle r).1, s) := by
  intro s
  have hr : (s.handle r).2 = s := handle_of_refused (by rw [access_run]; exact h)
  show (Reply.response (s.handle r).1, (s.handle r).2.sweep) = _
  rw [hr, sweep_of_run]

/-- Of some steps, some of the refused requests are marked. -/
def Marked (access : Access) (marked : List (Step × Bool)) : Prop :=
  ∀ x ∈ marked, x.2 = true → ∃ r, x.1 = .request r ∧ r.Refused access

/-- Without the marked requests, the other steps are replied to as before. -/
theorem run_without_marked {marked : List (Step × Bool)} (h : Marked access marked)
    (before : List Step) :
    let s := ((new bounds access journal origin).run before).2
    let kept := s.run ((marked.filter fun x => !x.2).map Prod.fst)
    let whole := s.run (marked.map Prod.fst)
    kept.1 = ((marked.zip whole.1).filter fun x => !x.1.2).map Prod.snd ∧ kept.2 = whole.2 := by
  induction marked generalizing before with
  | nil => exact ⟨rfl, rfl⟩
  | cons x marked ih =>
    intro s kept whole
    obtain ⟨st, flag⟩ := x
    have hrest : Marked access marked := fun x hx => h x (List.mem_cons_of_mem _ hx)
    cases flag with
    | true =>
      obtain ⟨r, hst, hr⟩ := h _ List.mem_cons_self rfl
      change st = .request r at hst
      obtain ⟨hreplies, hleft⟩ := ih hrest before
      have hstep : s.step (.request r) = (.response (s.handle r).1, s) :=
        step_of_refused bounds access journal origin before hr
      have hwhole : whole = (.response (s.handle r).1 :: (s.run (marked.map Prod.fst)).1,
          (s.run (marked.map Prod.fst)).2) := by
        simp only [whole, List.map_cons, hst, run, hstep]
      rw [hwhole]
      exact ⟨hreplies, hleft⟩
    | false =>
      have hnext : (s.step st).2 = ((new bounds access journal origin).run (before ++ [st])).2 := by
        rw [run_append]
        rfl
      obtain ⟨hreplies, hleft⟩ := ih hrest (before ++ [st])
      rw [← hnext] at hreplies hleft
      exact ⟨congrArg ((s.step st).1 :: ·) hreplies, hleft⟩

/-- Refused requests leave no trace. They change nothing in the server, and if any of them are left
out of a conversation, all other steps are replied to as before. At an endpoint the first thing that
speaks against a request decides on the response: its body first, then its sender, then its id, and
last its command. -/
theorem refused_leave_no_trace :
    let s : Server := new bounds access journal origin
    (∀ (steps : List Step) (r : Request), r.Refused access →
      ((s.run steps).2.handle r).2 = (s.run steps).2 ∧
        ((s.run steps).2.step (.request r)).2 = (s.run steps).2) ∧
    (∀ marked : List (Step × Bool), Marked access marked →
      let kept := s.run ((marked.filter fun x => !x.2).map Prod.fst)
      let whole := s.run (marked.map Prod.fst)
      kept.1 = ((marked.zip whole.1).filter fun x => !x.1.2).map Prod.snd ∧ kept.2 = whole.2) ∧
    ∀ (steps : List Step) (r : Request) (e : Endpoint) (o : Objection) (rest : List Objection),
      r.PostedTo e → e.objections access r = o :: rest →
      ((s.run steps).2.handle r).1 = { o.response with allowOrigin := some "*" } ∧
        ((s.run steps).2.handle r).1.status = o.status := by
  intro s
  refine ⟨?_, ?_, ?_⟩
  · intro steps r hr
    have hstep := step_of_refused bounds access journal origin steps hr
    refine ⟨handle_of_refused ?_, congrArg Prod.snd hstep⟩
    rw [access_run]
    exact hr
  · exact fun marked h => run_without_marked bounds access journal origin h []
  · intro steps r e o rest posted ho
    have ho' : e.objections (s.run steps).2.access r = o :: rest := by
      rw [access_run]
      exact ho
    have hhandle : (s.run steps).2.handle r =
        ({ o.response with allowOrigin := some "*" }, (s.run steps).2) :=
      handle_of_objection posted ho'
    rw [hhandle]
    exact ⟨rfl, o.status_response⟩

end

/-- A stranger takes the id of a file that is created later, and names no path. -/
theorem refused_leave_no_trace_of_stranger :
    let bytes (text : String) : Bytes := text.toList.map fun c => c.toNat.toUInt8
    let post (credential body : String) : Request := {
      method := "POST"
      target := "/files"
      headers := [("content-type", bytes "application/json"), ("x-request-id", bytes "r1"),
        ("x-auth-user", bytes "ann"), ("x-auth-credential", bytes credential)]
      body := bytes body }
    let stranger := post "guess" "[\"\"]"
    let owner := post "secret" "[\"/a\"]"
    let s := new ⟨1, 2000, by decide, by decide⟩ (.users (.ofList [("ann", "secret")])) .absent 0
    (s.handle stranger).1.status = 401 ∧ (s.handle stranger).2 = s ∧
      (s.run [.request owner]).1 = (s.run [.request stranger, .request owner]).1.tail := by
  intro bytes post stranger owner s
  let access : Access := .users (.ofList [("ann", "secret")])
  have hobjections : Endpoint.create.objections access stranger =
      [.unauthenticated (.invalidCredential "ann"), .complaint "Path cannot be empty"] := by
    decide +kernel
  have hposted : stranger.PostedTo .create := by decide +kernel
  have hrefused : stranger.Refused access := by decide +kernel
  obtain ⟨still, deleted, first⟩ :=
    refused_leave_no_trace ⟨1, 2000, by decide, by decide⟩ access .absent 0
  refine ⟨(first [] stranger .create _ _ hposted hobjections).2, (still [] stranger hrefused).1, ?_⟩
  have hmarked : Marked access [(.request stranger, true), (.request owner, false)] := by
    intro x hx hflag
    simp only [List.mem_cons, List.not_mem_nil, or_false] at hx
    rcases hx with rfl | rfl
    · exact ⟨stranger, rfl, hrefused⟩
    · cases hflag
  exact (deleted _ hmarked).1

end Server
end Http
end AtMostOnce
