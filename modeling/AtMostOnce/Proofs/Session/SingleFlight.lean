import AtMostOnce.Proofs.Session.Account

/-! Single flight. At most one handler to an id is under way, and nothing takes its claim away. -/
namespace AtMostOnce.Activity
open History
variable {V : Type} {a : Activity V}

theorem find?_slots_iff (h : a.Accounted) (id : RequestId) (g marker : Nat) :
    a.memo.slots.find? id = some (.claimed g marker) ↔
      marker = g ∧ ∃ e ∈ a.unsettled, e.call.id = id ∧ e.number = g := by
  rw [← Memo.find?_claims_eq_some_iff, show a.memo.ledger = a.ledger from rfl, h.find?_claims_iff]
  constructor
  · intro hm
    obtain ⟨hm, c, hc, hk⟩ := hm
    obtain ⟨e, he, hek⟩ := List.mem_map.mp hk
    cases hek
    exact ⟨hm, e, he, hc, rfl⟩
  · intro hm
    obtain ⟨hm, e, he, hid, hn⟩ := hm
    rw [← hn] at hm ⊢
    exact ⟨hm, e.call, hid, List.mem_map_of_mem he⟩

theorem running_iff (h : a.Accounted) (c : Call V) (n : Nat) :
    (Started c n a.log ∧ n ∉ ended a.log) ↔ (c, n) ∈ a.running := by
  rw [← started_filter, ← ended_filter]
  constructor
  · intro hs
    exact (h.settled c n hs.1).resolve_left hs.2
  · intro hk
    exact (h.begun (c, n) hk).2

theorem inFlight_eq_length (h : a.Accounted) : a.memo.inFlight = a.unsettled.length := by
  have hl := h.claims.length_eq
  rw [List.length_map, running, List.length_map] at hl
  rw [Memo.inFlight_eq_size]
  exact hl.symm

/-- At most one handler to an id is under way, and it holds the claim of the id. -/
structure SingleFlight (a : Activity V) : Prop where
  /-- The log tells of the same handlers. -/
  logged : ∀ c n, (Started c n a.log ∧ n ∉ ended a.log) ↔ ∃ e ∈ a.unsettled, e.key = (c, n)
  one : (a.unsettled.map fun e => e.call.id).Nodup
  held : ∀ id g, (∃ marker, a.memo.slots.find? id = some (.claimed g marker)) ↔
    ∃ e ∈ a.unsettled, e.call.id = id ∧ e.number = g
  counted : a.memo.inFlight = a.unsettled.length
  /-- A handler that ends well has its outcome remembered, whatever has to make room for it. -/
  accepted : ∀ e ∈ a.unsettled, ∀ now o, ∃ seq,
    (a.memo.commit now e.call.id e.number o).slots.find? e.call.id =
      some (.committed ⟨o, now, seq⟩)
  /-- One that breaks down frees its id and no other. -/
  freed : ∀ e ∈ a.unsettled, ∀ id, (a.memo.release e.call.id e.number).slots.find? id =
    if id = e.call.id then none else a.memo.slots.find? id

theorem singleFlight_of_reachable {maxSize ttl : Nat} (h : Reachable maxSize ttl a) :
    a.SingleFlight := by
  obtain ⟨hk, ha⟩ := h.accounted
  have claimed : ∀ e ∈ a.unsettled,
      a.memo.slots.find? e.call.id = some (.claimed e.number e.number) :=
    fun e he => (find?_slots_iff ha _ _ _).mpr ⟨rfl, e, he, rfl, rfl⟩
  constructor
  · intro c n
    rw [running_iff ha]
    exact List.mem_map
  · have hn := ha.ids_nodup
    rw [running, List.map_map] at hn
    exact hn
  · intro id g
    constructor
    · intro hf
      obtain ⟨marker, hf⟩ := hf
      exact ((find?_slots_iff ha id g marker).mp hf).2
    · intro he
      exact ⟨g, (find?_slots_iff ha id g g).mpr ⟨rfl, he⟩⟩
  · exact inFlight_eq_length ha
  · intro e he now o
    obtain ⟨hs, hl⟩ := hk.memo.commit now e.call.id e.number o
    have hf := (Memo.find?_claims_eq_some_iff _ _ _ _).mpr (claimed e he)
    rw [Ledger.commit_of_claim hf] at hl
    apply (hs.mem_written_iff ⟨e.call.id, o, now⟩).mp
    rw [hl]
    exact List.mem_append_right _ (List.mem_singleton_self _)
  · intro e he id
    have hc : a.memo.isClaimedBy e.call.id e.number = true := by
      rw [Memo.isClaimedBy, claimed e he]
      exact decide_eq_true rfl
    rw [Memo.release, if_pos hc]
    exact Table.find?_erase _ _ _

/-- Of two calls of one id, one is under way. -/
theorem singleFlight_of_two_calls :
    let s : Session Nat := Session.run .arrival { coordinator := .new 2 10 }
      [.call ⟨"first", ⟨"id"⟩, .wide, { gate := some "gate", ending := .value 7 }⟩,
        .call ⟨"second", ⟨"id"⟩, .narrow, { ending := .value 8 }⟩]
    let a : Activity Nat := { session := s }
    Reachable 2 10 a ∧ a.SingleFlight ∧ a.unsettled.map Execution.number = [0] := by
  intro s a
  have h : Reachable 2 10 a := reachable_run .arrival 2 10 _
  have hu : a.unsettled.map Execution.number = [0] := by cbv
  exact ⟨h, singleFlight_of_reachable h, hu⟩

end AtMostOnce.Activity
