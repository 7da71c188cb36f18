import AtMostOnce.Proofs.Http.Order

/-! Failures as callers are told of them. What is left out on the way from an error to a response is
its cause and, of an I/O error, its kind; all else can be told from the response. -/
namespace AtMostOnce

theorem AccessError.text_injective {e e' : AccessError} (h : e.text = e'.text) : e = e' := by
  have apart : ∀ u v : String, "Unknown user: " ++ u ≠ "Invalid credential for user: " ++ v := by
    intro u v heq
    have hfirst := congrArg (fun s : String => s.toList.head?) heq
    simp only [String.toList_append] at hfirst
    cases hfirst
  cases e with
  | unknownUser u => cases e' with
    | unknownUser v => rw [(String.append_right_inj _).mp h]
    | invalidCredential v => exact absurd h (apart u v)
  | invalidCredential u => cases e' with
    | unknownUser v => exact absurd h.symm (apart v u)
    | invalidCredential v => rw [(String.append_right_inj _).mp h]

/-- Two I/O faults are alike if their messages are, two domain faults if their codes are, too. A
fault of one sort is never like one of the other. -/
theorem WideError.fault_eq_iff (f g : WideError) :
    f.toFailure.wide = g.toFailure.wide ↔
      (∃ d e, f = .domain d ∧ g = .domain e ∧ d.code = e.code ∧ d.message = e.message) ∨
        ∃ a b, f = .io a ∧ g = .io b ∧ a.text = b.text := by
  cases f with
  | domain d => cases g with
    | domain e => simp [toFailure, DomainError.toFailure, Failure.wide, Failure.narrow]
    | io b => simp [toFailure, DomainError.toFailure, Failure.wide]
  | io a => cases g with
    | domain e => simp [toFailure, DomainError.toFailure, Failure.wide]
    | io b => simp [toFailure, Failure.wide]

namespace Http

/-- What a response says: its status, and the document that it carries. -/
def Response.told (r : Response) : Nat × Option Json.Document := (r.status, r.body)

namespace Refusal

theorem ofFault_injective {f g : Fault} (h : ofFault f = ofFault g) : f = g := by
  cases f <;> cases g <;> cases h <;> rfl

/-- Documents that tell of refusals arrive as they were sent. -/
theorem told_response (r : Refusal) : r.response.told = (r.status, some r.document) := by
  cases r <;> rfl

/-- A refusal can be told from the response. -/
theorem told_injective {r r' : Refusal} (h : r.response.told = r'.response.told) : r = r' := by
  rw [told_response, told_response, Prod.mk.injEq, Option.some.injEq] at h
  obtain ⟨hstatus, hdocument⟩ := h
  cases r <;> cases r' <;> simp [status] at hstatus <;> simp [document] at hdocument
  case unauthenticated.unauthenticated e e' => rw [AccessError.text_injective hdocument]
  case invalidRequest.invalidRequest => rw [hdocument]
  case domain.domain f f' =>
    obtain ⟨code, message⟩ := f
    obtain ⟨code', message'⟩ := f'
    obtain ⟨rfl, rfl⟩ := hdocument
    rfl
  case io.io f f' =>
    obtain ⟨message⟩ := f
    obtain ⟨message'⟩ := f'
    obtain rfl := hdocument
    rfl
  case internal.internal => rw [hdocument]

end Refusal
end Http

/-- The response to a call whose execution has failed as declared. -/
def Vocabulary.response (v : Vocabulary) (f : Failure) : Http.Response :=
  (Http.Refusal.ofCallFailure (.declared (v.fault f))).response

namespace Http

/-- An endpoint responds in its vocabulary. -/
theorem Endpoint.told_response_failure (e : Endpoint) (f : Failure) :
    (e.response (.failure f)).told = (e.vocabulary.response f).told := rfl

/-- Two failures are told alike only if the faults are the same. -/
theorem told_eq_iff (v : Vocabulary) (f g : Failure) :
    (v.response f).told = (v.response g).told ↔ v.fault f = v.fault g := by
  constructor
  · intro h
    exact Refusal.ofFault_injective (Refusal.told_injective h)
  · intro h
    rw [Vocabulary.response, Vocabulary.response, h]

/-- The statuses by which the two kinds of failures are told. -/
theorem status_response_wide (f : WideError) :
    (Vocabulary.wide.response f.toFailure).status =
      match f with
      | .domain _ => 409
      | .io _ => 503 := by
  cases f <;> rfl

/-- Failures of a wide handler are told apart. Two of them get the same response just if they are
domain errors with one code and one message, or I/O errors with one text. Domain errors are told as
conflicts and I/O errors as an unavailable service, and no text makes either look like an internal
error, like a sender that is not admitted or like an invalid request. A domain error is recorded and
told in the same way whether the handler may fail at input and output or not. So it is at the
endpoints. -/
theorem failures_told_apart :
    (∀ f g : WideError, (Vocabulary.wide.response f.toFailure).told =
        (Vocabulary.wide.response g.toFailure).told ↔
      (∃ d e, f = .domain d ∧ g = .domain e ∧ d.code = e.code ∧ d.message = e.message) ∨
        ∃ a b, f = .io a ∧ g = .io b ∧ a.text = b.text) ∧
    (∀ d : DomainError, (Vocabulary.wide.response (WideError.domain d).toFailure).status = 409) ∧
    (∀ a : IoError, (Vocabulary.wide.response (WideError.io a).toFailure).status = 503) ∧
    (∀ (f : WideError) (message : String) (e : AccessError),
      (Vocabulary.wide.response f.toFailure).told ≠ (Refusal.internal message).response.told ∧
      (Vocabulary.wide.response f.toFailure).told ≠ (Refusal.unauthenticated e).response.told ∧
      (Vocabulary.wide.response f.toFailure).told ≠
        (Refusal.invalidRequest message).response.told) ∧
    (∀ d : DomainError, d.toFailure = (WideError.domain d).toFailure ∧
      Vocabulary.narrow.response d.toFailure =
        Vocabulary.wide.response (WideError.domain d).toFailure) ∧
    ∀ (e : Endpoint) (f : Failure),
      (e.response (.failure f)).told = (e.vocabulary.response f).told := by
  refine ⟨?_, ?_, ?_, ?_, ?_, Endpoint.told_response_failure⟩
  · intro f g
    rw [told_eq_iff]
    exact WideError.fault_eq_iff f g
  · exact fun d => status_response_wide (.domain d)
  · exact fun a => status_response_wide (.io a)
  · -- A fault is refused neither as an internal error nor as what its sender has done wrong.
    intro f message e
    have never : ∀ r : Refusal, (∀ fault, Refusal.ofFault fault ≠ r) →
        (Vocabulary.wide.response f.toFailure).told ≠ r.response.told :=
      fun r hr h => hr _ (Refusal.told_injective h)
    refine ⟨never _ ?_, never _ ?_, never _ ?_⟩ <;> rintro (fault | fault) <;> nofun
  · exact fun d => ⟨rfl, rfl⟩

end Http
end AtMostOnce
