import AtMostOnce.Proofs.Http.Mirror

/-! The figures of a coordinator add up, in sessions as well as behind the endpoints of a server. -/
namespace AtMostOnce
variable {V : Type}

/-- Where nothing breaks down, nobody is released. -/
theorem History.released_eq_zero {past : List (Event V)}
    (h : ∀ ev ∈ past, ev.isRollBack = false) : released past = 0 := by
  induction past with
  | nil => rfl
  | cons ev past ih =>
    obtain ⟨hev, hpast⟩ := List.forall_mem_cons.mp h
    have hs := ih hpast
    cases ev with
    | rolledBack => cases hev
    | _ => exact hs

/-- After every run the figures add up. In a session callers claim once when they come, and once
more whenever the execution that they wait on breaks down. Behind an endpoint nothing breaks down,
and each order is one claim. -/
theorem usage_balanced :
    (∀ (V : Type) (σ : Schedule V) (maxSize ttl : Nat) (steps : List (Step V)),
      let s := Session.run σ { coordinator := .new maxSize ttl } steps
      s.coordinator.usage.Balanced (steps.countP Step.isCall + History.released s.events)) ∧
    ∀ (bounds : Bounds) (access : Access) (journal : Journal) (origin : Nat)
      (steps : List Http.Step) (e : Http.Endpoint),
      let s := Http.Server.new bounds access journal origin
      let u := ((s.run steps).2.coordinator e).toCoordinator.usage
      u.Balanced (s.orders e steps).length ∧ u.rollbacks = 0 := by
  constructor
  · intro V σ maxSize ttl steps
    exact Session.balanced_run σ maxSize ttl steps
  · intro bounds access journal origin steps e s u
    obtain ⟨mirrors, told, hlog, -, hback⟩ :=
      (Http.Mirrors.new bounds access journal origin e).run .arrival steps
    have balanced := Session.balanced_run .arrival bounds.maxSize bounds.ttl (s.echoes e steps)
    have counted := (Activity.reachable_run .arrival bounds.maxSize bounds.ttl
      (s.echoes e steps)).counted.rollbacks
    dsimp only at balanced counted
    rw [List.append_nil] at hlog
    rw [← hlog] at hback
    rw [mirrors.coordinator, Http.Server.countP_isCall_echoes,
      History.released_eq_zero hback] at balanced
    rw [mirrors.coordinator] at counted
    refine ⟨balanced, counted.trans (List.countP_eq_zero.mpr fun ev hev => ?_)⟩
    rw [hback ev hev]
    exact Bool.false_ne_true

end AtMostOnce
