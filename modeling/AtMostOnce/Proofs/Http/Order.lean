import AtMostOnce.Http.Conversation
import AtMostOnce.Proofs.Except

/-! Orders. A server takes orders at two endpoints, each with a coordinator of its own: a request
that nothing speaks against leads to a call there, and any other leaves the server as it is. -/
namespace AtMostOnce
variable {V : Type}

namespace Http

inductive Endpoint where
  | create
  | rename
deriving DecidableEq

/-- Of figures for either endpoint the one for `e`. -/
def Endpoint.figure (e : Endpoint) (figures : Nat × Nat) : Nat :=
  match e with
  | create => figures.1
  | rename => figures.2

/-- What is to be done to the catalog, and the id under which it is to be done once. -/
structure Order where
  id : RequestId
  run : Catalog → Except WideError File × Catalog

namespace Order

def execute (o : Order) (c : Catalog) : Outcome File × Catalog :=
  (.capture WideError.toFailure (o.run c).1, (o.run c).2)

def handler (o : Order) (c : Catalog) : Handler File where
  ending := match (o.run c).1 with
    | .ok file => .value file
    | .error e => .failure e

theorem result_handler (o : Order) (c : Catalog) :
    (o.handler c).result = .ok (o.execute c).1 := by
  unfold handler execute Handler.result
  cases (o.run c).1 <;> rfl

theorem gate?_handler (o : Order) (c : Catalog) : (o.handler c).gate? = none := by
  unfold handler Handler.gate?
  cases (o.run c).1 <;> rfl

/-- The failures of a creation are those of the catalog's own domain. -/
def ofCreation (id : RequestId) (date : Nat) (command : Creation) : Order where
  id := id
  run c := ((c.create date command.path).1.mapError .domain, (c.create date command.path).2)

def ofRenaming (id : RequestId) (command : Renaming) : Order where
  id := id
  run c := c.rename command.src command.dst

theorem execute_ofCreation (id : RequestId) (date : Nat) (command : Creation) :
    (ofCreation id date command).execute = fun c =>
      (Outcome.capture DomainError.toFailure (c.create date command.path).1,
        (c.create date command.path).2) := by
  funext c
  show (Outcome.capture WideError.toFailure
    ((c.create date command.path).1.mapError .domain), _) = _
  cases (c.create date command.path).1 <;> rfl

end Order

namespace Endpoint

def route : Endpoint → Route
  | create => .create
  | rename => .rename

def vocabulary : Endpoint → Vocabulary
  | create => .narrow
  | rename => .wide

/-- The response of the endpoint that tells of an outcome. -/
def response (e : Endpoint) (o : Outcome File) : Response :=
  { Server.respond (o.replay e.vocabulary.fault) with allowOrigin := some "*" }

end Endpoint

namespace Server

def coordinator (s : Server) : Endpoint → IdleCoordinator File
  | .create => s.creates
  | .rename => s.renames

def withCoordinator (s : Server) (k : IdleCoordinator File) : Endpoint → Server
  | .create => { s with creates := k }
  | .rename => { s with renames := k }

/-- What a request to the endpoint asks for, if nothing speaks against it. -/
def accepted? (s : Server) (r : Request) : Endpoint → Option Order
  | .create => (s.accept r Creation.read Creation.complaint?).toOption.map fun accepted =>
    .ofCreation accepted.1 s.clock.date accepted.2
  | .rename => (s.accept r Renaming.read Renaming.complaint?).toOption.map fun accepted =>
    .ofRenaming accepted.1 accepted.2

/-- The order that a request places at the endpoint, if it is one. -/
def order? (s : Server) (e : Endpoint) (r : Request) : Option Order :=
  if r.method = "POST" ∧ Route.ofTarget? r.target = some e.route then s.accepted? r e else none

/-- The call that an order leads to. -/
def call (s : Server) (e : Endpoint) (o : Order) : Outcome File × IdleCoordinator File × Catalog :=
  (s.coordinator e).call s.clock.now o.id o.execute s.catalog

variable {s : Server} {e e' : Endpoint} {r : Request} {o : Order}

theorem id_of_authorize {id : RequestId} (h : s.authorize r = .ok id) :
    id = ⟨r.headerWord "x-request-id"⟩ := by
  obtain ⟨-, -, h⟩ := eq_ok_of_bind h
  dsimp only at h
  split at h
  · cases h
  · exact (Except.ok.inj h).symm

/-- Whoever is accepted goes by the id that the request names. -/
theorem id_of_accept {α : Type} {read : Bytes → Except Json.ReadError (α × Bytes)}
    {complaint? : α → Option String} {accepted : RequestId × α}
    (h : s.accept r read complaint? = .ok accepted) :
    accepted.1 = ⟨r.headerWord "x-request-id"⟩ := by
  obtain ⟨command, -, h⟩ := eq_ok_of_bind h
  obtain ⟨id, hid, h⟩ := eq_ok_of_bind h
  split at h
  · cases h
  · cases h
    exact id_of_authorize (eq_ok_of_mapError hid)

/-- An order goes by the id that its request names. -/
theorem id_of_order (h : s.order? e r = some o) : o.id = ⟨r.headerWord "x-request-id"⟩ := by
  unfold order? at h
  split at h
  case isFalse => cases h
  cases e with
  | create =>
    obtain ⟨accepted, ha, rfl⟩ := Option.map_eq_some_iff.mp h
    exact id_of_accept (eq_ok_of_toOption ha)
  | rename =>
    obtain ⟨accepted, ha, rfl⟩ := Option.map_eq_some_iff.mp h
    exact id_of_accept (eq_ok_of_toOption ha)

theorem serve_of_accepted (h : s.accepted? r e = some o) :
    s.serve r e.route = (respond ((s.call e o).1.replay e.vocabulary.fault),
      { s.withCoordinator (s.call e o).2.1 e with catalog := (s.call e o).2.2 }) := by
  cases e with
  | create =>
    show s.create r = _
    unfold accepted? at h
    unfold create
    cases ha : s.accept r Creation.read Creation.complaint? with
    | error response =>
      rw [ha] at h
      cases h
    | ok accepted =>
      rw [ha] at h
      cases h
      simp only [call, Order.execute_ofCreation]
      rfl
  | rename =>
    show s.rename r = _
    unfold accepted? at h
    unfold rename
    cases ha : s.accept r Renaming.read Renaming.complaint? with
    | error response =>
      rw [ha] at h
      cases h
    | ok accepted =>
      rw [ha] at h
      cases h
      rfl

theorem serve_of_not_accepted (h : s.accepted? r e = none) : (s.serve r e.route).2 = s := by
  cases e with
  | create =>
    show (s.create r).2 = s
    unfold accepted? at h
    unfold create
    cases ha : s.accept r Creation.read Creation.complaint? with
    | error response => rfl
    | ok accepted =>
      rw [ha] at h
      cases h
  | rename =>
    show (s.rename r).2 = s
    unfold accepted? at h
    unfold rename
    cases ha : s.accept r Renaming.read Renaming.complaint? with
    | error response => rfl
    | ok accepted =>
      rw [ha] at h
      cases h

theorem dispatch_of_post (method : r.method = "POST")
    (target : Route.ofTarget? r.target = some e.route) : s.dispatch r = s.serve r e.route := by
  have allowed : "POST" ∈ e.route.methods := by cases e <;> simp [Endpoint.route, Route.methods]
  simp [dispatch, method, target, allowed]

/-- Only what is posted to an endpoint can change a server. -/
theorem dispatch_of_no_post
    (h : ∀ e : Endpoint, ¬ (r.method = "POST" ∧ Route.ofTarget? r.target = some e.route)) :
    (s.dispatch r).2 = s := by
  unfold dispatch
  dsimp only
  split
  · rfl
  split
  · rfl
  rename_i route htarget
  split
  · rfl
  rename_i hmethod
  have allowed : r.method ∈ route.methods := by simpa using hmethod
  cases route with
  | create => exact absurd ⟨by simpa [Route.methods] using allowed, htarget⟩ (h .create)
  | rename => exact absurd ⟨by simpa [Route.methods] using allowed, htarget⟩ (h .rename)
  | stats => rfl
  | health => rfl

theorem handle_of_order (h : s.order? e r = some o) :
    s.handle r = (e.response (s.call e o).1,
      { s.withCoordinator (s.call e o).2.1 e with catalog := (s.call e o).2.2 }) := by
  unfold order? at h
  split at h
  case isFalse => cases h
  case isTrue hp =>
    rw [handle, dispatch_of_post hp.1 hp.2, serve_of_accepted h]
    rfl

theorem handle_cases (s : Server) (r : Request) :
    (∃ e o, s.order? e r = some o) ∨ (s.handle r).2 = s := by
  by_cases h : ∃ e : Endpoint, r.method = "POST" ∧ Route.ofTarget? r.target = some e.route
  · obtain ⟨e, hp⟩ := h
    cases ha : s.accepted? r e with
    | some o =>
      refine .inl ⟨e, o, ?_⟩
      rw [order?, if_pos hp, ha]
    | none =>
      refine .inr ?_
      have hs := serve_of_not_accepted ha
      rw [← dispatch_of_post hp.1 hp.2] at hs
      exact hs
  · exact .inr (dispatch_of_no_post fun e hp => h ⟨e, hp⟩)

theorem coordinator_withCoordinator (s : Server) (k : IdleCoordinator File) (e e' : Endpoint) :
    (s.withCoordinator k e).coordinator e' = if e' = e then k else s.coordinator e' := by
  cases e <;> cases e' <;> rfl

theorem clock_withCoordinator (s : Server) (k : IdleCoordinator File) (e : Endpoint) :
    (s.withCoordinator k e).clock = s.clock ∧ (s.withCoordinator k e).sweeps = s.sweeps := by
  cases e <;> exact ⟨rfl, rfl⟩

/-- What an order leaves. -/
theorem coordinator_handle (h : s.order? e r = some o) (e' : Endpoint) :
    (s.handle r).2.coordinator e' = if e' = e then (s.call e o).2.1 else s.coordinator e' := by
  rw [handle_of_order h]
  exact coordinator_withCoordinator _ _ _ _

/-- An endpoint that gets no order is left alone. -/
theorem coordinator_handle_of_none (h : s.order? e r = none) :
    (s.handle r).2.coordinator e = s.coordinator e := by
  rcases handle_cases s r with ⟨e', o, ho⟩ | hs
  · have hne : e ≠ e' := by
      intro he
      rw [he, ho] at h
      cases h
    rw [coordinator_handle ho, if_neg hne]
  · rw [hs]

/-- A request takes no time and leaves the sweeps alone. -/
theorem clock_handle (s : Server) (r : Request) :
    (s.handle r).2.clock = s.clock ∧ (s.handle r).2.sweeps = s.sweeps := by
  rcases handle_cases s r with ⟨e, o, ho⟩ | hs
  · rw [handle_of_order ho]
    exact clock_withCoordinator _ _ _
  · rw [hs]
    exact ⟨rfl, rfl⟩

theorem coordinator_purge (s : Server) (e : Endpoint) :
    (s.coordinator e).toCoordinator.purge s.clock.now =
      (e.figure s.purge.1, (s.purge.2.coordinator e).toCoordinator) ∧
    s.purge.2.clock = s.clock ∧ s.purge.2.sweeps = s.sweeps := by
  cases e <;> exact ⟨rfl, rfl, rfl⟩

end Server

end Http
end AtMostOnce
