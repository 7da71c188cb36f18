import AtMostOnce.Proofs.Http.Mirror
import AtMostOnce.Proofs.Session.Recall

/-! Retries. As long as the outcome of an order is remembered, whoever places an order under its id
is told of that outcome, and nothing is done again. -/
namespace AtMostOnce

/-- A look-up that finds a live outcome only uses up its number. -/
theorem Memo.lookup_of_live {V M : Type} {m m' : Memo V M} {now : Instant} {id : RequestId}
    {marker : M} {o : Outcome V} (h : m.lookup now id marker = (.live o, m')) :
    m' = { m with nextGeneration := m.nextGeneration + 1 } := by
  unfold lookup at h
  split at h
  · cases h
  · split at h
    · cases h
    · cases h
      rfl
  · cases h

namespace Coordinator
variable {V : Type} {k k' : Coordinator V} {now : Instant} {id : RequestId} {o : Outcome V}

theorem claim_of_live (h : (k.memo.lookup now id k.memo.nextGeneration).1 = .live o) :
    k.claim now id = (.replay o, { k with
      hits := k.hits + 1
      memo := { k.memo with nextGeneration := k.memo.nextGeneration + 1 } }) := by
  rcases hl : k.memo.lookup now id k.memo.nextGeneration with ⟨answer, m⟩
  rw [hl] at h
  obtain rfl : answer = .live o := h
  unfold claim
  rw [hl, ← Memo.lookup_of_live hl]

theorem live_of_replay (h : k.claim now id = (.replay o, k')) :
    (k.memo.lookup now id k.memo.nextGeneration).1 = .live o := by
  unfold claim at h
  split at h
  · rename_i hl
    cases h
    rw [hl]
  · cases h
  · cases h

end Coordinator

namespace Http

/-- What the server knows of the outcomes that its endpoint has left, the latest first. -/
structure Remembers (bounds : Bounds) (s : Server) (e : Endpoint) (deeds : List (Written File)) :
    Prop where
  sound : (s.coordinator e).toCoordinator.memo.Sound
  ledger : (s.coordinator e).toCoordinator.memo.ledger.Sound
  ttl_eq : (s.coordinator e).toCoordinator.memo.ledger.ttl = bounds.ttl
  latest : ∀ w ∈ (s.coordinator e).toCoordinator.memo.ledger.written,
    deeds.find? (fun d => d.id = w.id) = some w
  recent : Written.live bounds.ttl s.clock.now
      (s.coordinator e).toCoordinator.memo.ledger.written.reverse =
    Written.live bounds.ttl s.clock.now (deeds.take bounds.maxSize)

namespace Remembers
variable {bounds : Bounds} {s : Server} {e : Endpoint} {deeds : List (Written File)}

/-- What is in memory was left by the last execution under its id. -/
theorem of_replay (h : Remembers bounds s e deeds) {id : RequestId} {o : Outcome File}
    {k : Coordinator File}
    (hc : (s.coordinator e).toCoordinator.claim s.clock.now id = (.replay o, k)) :
    ∃ d, deeds.find? (fun d => d.id = id) = some d ∧ d.outcome = o := by
  obtain ⟨-, hl⟩ := h.sound.lookup h.ledger s.clock.now id
    (s.coordinator e).toCoordinator.memo.nextGeneration
  rw [Coordinator.live_of_replay hc] at hl
  obtain ⟨-, ⟨w, hw, -, ho⟩, -⟩ := Ledger.lookup_of_live hl
  have hid : w.id = id := by simpa using List.find?_some hw
  have hlast := h.latest w (List.mem_of_find?_eq_some hw)
  rw [hid] at hlast
  exact ⟨w, hlast, ho⟩

/-- An outcome that is live, and after which too few have come to push it out, is replayed. -/
theorem claim_of_recent (h : Remembers bounds s e deeds) {d : Written File}
    (hd : d ∈ deeds.take bounds.maxSize) (live : s.clock.now - d.writtenAt < bounds.ttl) :
    let k := (s.coordinator e).toCoordinator
    k.claim s.clock.now d.id = (.replay d.outcome, { k with
      hits := k.hits + 1
      memo := { k.memo with nextGeneration := k.memo.nextGeneration + 1 } }) := by
  intro k
  have hheld : d ∈ k.memo.ledger.written := by
    have hm := (Written.mem_live_iff bounds.ttl s.clock.now _ d).mpr ⟨hd, live⟩
    rw [← h.recent] at hm
    exact List.mem_reverse.mp ((Written.mem_live_iff _ _ _ d).mp hm).1
  have hfind : k.memo.ledger.written.find? (fun w => w.id = d.id) = some d :=
    (Ledger.find?_written_eq_some_iff h.ledger.distinct d.id d).mpr ⟨hheld, rfl⟩
  have hfresh : d.isExpired k.memo.ledger.ttl s.clock.now = false := by
    rw [h.ttl_eq]
    exact decide_eq_false (Nat.not_le.mpr live)
  have hlook : (k.memo.ledger.lookup s.clock.now d.id k.memo.nextGeneration).1 =
      .live d.outcome := by
    rw [Ledger.lookup, h.ledger.apart d hheld]
    dsimp only
    rw [hfind]
    dsimp only
    rw [hfresh, if_neg Bool.false_ne_true]
  obtain ⟨-, hl⟩ := h.sound.lookup h.ledger s.clock.now d.id k.memo.nextGeneration
  rw [hl] at hlook
  exact Coordinator.claim_of_live hlook

/-- Whoever places an order under the id of such an outcome is told of it. -/
theorem handle_of_recent (h : Remembers bounds s e deeds) {d : Written File}
    (hd : d ∈ deeds.take bounds.maxSize) (live : s.clock.now - d.writtenAt < bounds.ttl)
    {r : Request} {o : Order} (ho : s.order? e r = some o) (hid : o.id = d.id) :
    let k := (s.coordinator e).toCoordinator
    (s.handle r).1 = e.response d.outcome ∧ (s.handle r).2.catalog = s.catalog ∧
      ((s.handle r).2.coordinator e).toCoordinator = { k with
        hits := k.hits + 1
        memo := { k.memo with nextGeneration := k.memo.nextGeneration + 1 } } := by
  have hclaim := h.claim_of_recent hd live
  rw [← hid] at hclaim
  obtain ⟨hcall, hk, hcatalog⟩ := IdleCoordinator.call_of_replay hclaim o.execute s.catalog
  have hcoordinator := Server.coordinator_handle ho e
  rw [if_pos rfl] at hcoordinator
  rw [Server.handle_of_order ho] at hcoordinator ⊢
  refine ⟨congrArg e.response hcall, hcatalog, ?_⟩
  rw [hcoordinator]
  exact hk

end Remembers

namespace Server
open History
variable {bounds : Bounds} {e : Endpoint}

theorem remembers_run (bounds : Bounds) (access : Access) (journal : Journal) (origin : Nat)
    (e : Endpoint) (steps : List Step) :
    let s := new bounds access journal origin
    Remembers bounds (s.run steps).2 e (s.deeds e steps) := by
  intro s
  obtain ⟨mirrors, told, hlog, hdeeds, -⟩ :=
    (Mirrors.new bounds access journal origin e).run .arrival steps
  have reached := Activity.reachable_run .arrival bounds.maxSize bounds.ttl (s.echoes e steps)
  obtain ⟨kept, -⟩ := reached.accounted
  have recalled := reached.recalled
  rw [List.append_nil] at hlog
  let t : Session File := { coordinator := .new bounds.maxSize bounds.ttl }
  have hcommits : (commits (Activity.milestones
      { session := t.run .arrival (s.echoes e steps) })).map Prod.snd = s.deeds e steps := by
    rw [Activity.milestones, commits_filter, ← hdeeds, ← hlog]
    rfl
  have hmemo := congrArg Coordinator.memo mirrors.coordinator
  constructor
  · rw [← hmemo]
    exact kept.memo
  · rw [← hmemo]
    exact kept.ledger
  · rw [← hmemo]
    exact recalled.ttl_eq
  · intro w hw
    rw [← hmemo] at hw
    obtain ⟨n, -, hlast⟩ := recalled.latest w hw
    rw [← hcommits, List.find?_map, Function.comp_def, hlast]
    rfl
  · have hrecent := recalled.recent
    rw [List.map_take, hcommits, Nat.max_eq_right bounds.maxSize_pos] at hrecent
    rw [← hmemo, ← mirrors.now]
    exact hrecent

theorem run_append (s : Server) (steps more : List Step) :
    (s.run (steps ++ more)).2 = ((s.run steps).2.run more).2 := by
  induction steps generalizing s with
  | nil => rfl
  | cons st steps ih => exact ih (s.step st).2

theorem deeds_append (s : Server) (e : Endpoint) (steps more : List Step) :
    s.deeds e (steps ++ more) = (s.run steps).2.deeds e more ++ s.deeds e steps := by
  induction steps generalizing s with
  | nil => exact (List.append_nil _).symm
  | cons st steps ih =>
    rw [List.cons_append, deeds, ih, deeds, List.append_assoc]
    rfl

theorem clock_sweep (s : Server) : s.sweep.clock = s.clock := by
  exact Sweep.purgeDue_invariant (P := fun t : Server => t.clock = s.clock) (fun _ h => h) rfl

theorem now_step (s : Server) (st : Step) : s.clock.now ≤ (s.step st).2.clock.now := by
  have hclock : (s.step st).2.clock = (s.act st).2.clock := clock_sweep _
  rw [hclock]
  cases st with
  | request r => exact Nat.le_of_eq (congrArg Clock.now (s.clock_handle r).1.symm)
  | advance d => exact Nat.le_add_right _ _
  | purge => exact Nat.le_refl _
  | startSweep timer interval => exact Nat.le_refl _

/-- A step that leaves an outcome has found none to replay. -/
theorem claim_of_deed {s : Server} {st : Step} {w : Written File} (h : s.deed? e st = some w) :
    ∃ n k, (s.coordinator e).toCoordinator.claim s.clock.now w.id = (.execute n, k) := by
  cases st with
  | request r =>
    obtain ⟨o, -, h⟩ := Option.bind_eq_some_iff.mp h
    rcases hd : (s.coordinator e).toCoordinator.claim s.clock.now o.id with ⟨decision, k⟩
    rw [hd] at h
    cases decision with
    | execute n =>
      cases h
      exact ⟨n, k, hd⟩
    | _ => cases h
  | _ => cases h

/-- What comes before the last `k` of a list is among its first `k`. -/
theorem mem_take_append {α : Type} {xs ys : List α} {x : α} {k : Nat}
    (h : (xs ++ x :: ys).length < ys.length + 1 + k) : x ∈ (xs ++ x :: ys).take k := by
  rw [List.length_append, List.length_cons] at h
  rw [List.take_append, show k - xs.length = k - xs.length - 1 + 1 by omega, List.take_succ_cons]
  exact List.mem_append_right _ List.mem_cons_self

section
variable {access : Access} {journal : Journal} {origin : Nat} {before : List Step}

/-- Whoever places an order is told of the last outcome under its id, even if it is their own. -/
theorem response_of_order {r : Request} {o : Order} :
    let s := new bounds access journal origin
    (s.run before).2.order? e r = some o →
    ∃ d, (s.deeds e (before ++ [.request r])).find? (fun d => d.id = o.id) = some d ∧
      ((s.run before).2.handle r).1 = e.response d.outcome := by
  intro s ho
  have remembers := remembers_run bounds access journal origin e before
  rcases hd : ((s.run before).2.coordinator e).toCoordinator.claim (s.run before).2.clock.now o.id
    with ⟨decision, k⟩
  have hdeeds : s.deeds e (before ++ [.request r]) =
      ((s.run before).2.deed? e (.request r)).toList ++ s.deeds e before := deeds_append _ _ _ _
  simp only [deed?, ho, Option.bind_some, hd] at hdeeds
  rw [hdeeds, handle_of_order ho]
  cases decision with
  | replay outcome =>
    obtain ⟨d, hfind, houtcome⟩ := remembers.of_replay hd
    obtain ⟨hcall, -⟩ := IdleCoordinator.call_of_replay hd o.execute (s.run before).2.catalog
    refine ⟨d, hfind, ?_⟩
    rw [houtcome]
    exact congrArg e.response hcall
  | wait n =>
    exact absurd hd (Coordinator.claim_ne_wait ((s.run before).2.coordinator e).idle)
  | execute n =>
    obtain ⟨hcall, -⟩ := IdleCoordinator.call_of_execute hd o.execute (s.run before).2.catalog
    refine ⟨_, List.find?_cons_of_pos (by simp), ?_⟩
    exact congrArg e.response hcall

/-- An outcome that is live, and after which too few have come to push it out, is the last under its
id. -/
theorem deeds_of_recent {newer older : List (Written File)} {d : Written File} :
    let s := new bounds access journal origin
    s.deeds e before = newer ++ d :: older → ∀ between : List Step,
    (s.run (before ++ between)).2.clock.now - d.writtenAt < bounds.ttl →
    (s.deeds e (before ++ between)).length < older.length + 1 + bounds.maxSize →
    ∃ later, s.deeds e (before ++ between) = later ++ s.deeds e before ∧
      ∀ w ∈ later, w.id ≠ d.id := by
  intro s hbefore between
  induction between using List.reverseRecOn with
  | nil =>
    intro _ _
    exact ⟨[], by rw [List.append_nil]; rfl, by simp⟩
  | append_singleton between st ih =>
    intro live room
    have hrun : (s.run (before ++ (between ++ [st]))).2 =
        ((s.run (before ++ between)).2.step st).2 := by
      rw [← List.append_assoc, run_append]
      rfl
    have hdeeds : s.deeds e (before ++ (between ++ [st])) =
        ((s.run (before ++ between)).2.deed? e st).toList ++ s.deeds e (before ++ between) := by
      rw [← List.append_assoc, deeds_append]
      rfl
    have hnow := now_step (s.run (before ++ between)).2 st
    rw [hrun] at live
    rw [hdeeds, List.length_append] at room
    have live' : (s.run (before ++ between)).2.clock.now - d.writtenAt < bounds.ttl :=
      Nat.lt_of_le_of_lt (Nat.sub_le_sub_right hnow _) live
    have room' : (s.deeds e (before ++ between)).length < older.length + 1 + bounds.maxSize := by
      omega
    obtain ⟨later, hlater, hne⟩ := ih live' room'
    rw [hdeeds]
    cases hd : (s.run (before ++ between)).2.deed? e st with
    | none => exact ⟨later, hlater, hne⟩
    | some w =>
      refine ⟨w :: later, congrArg (w :: ·) hlater, ?_⟩
      intro w' hw'
      rcases List.mem_cons.mp hw' with rfl | hw'
      · -- Under the same id the outcome would have been replayed.
        intro hid
        have remembers := remembers_run bounds access journal origin e (before ++ between)
        have hsplit : s.deeds e (before ++ between) = (later ++ newer) ++ d :: older := by
          rw [hlater, hbefore, List.append_assoc]
        have hrecent : d ∈ (s.deeds e (before ++ between)).take bounds.maxSize := by
          rw [hsplit] at room' ⊢
          exact mem_take_append room'
        have hclaim := remembers.claim_of_recent hrecent live'
        obtain ⟨n, k, hexecute⟩ := claim_of_deed hd
        rw [hid, hclaim] at hexecute
        cases hexecute
      · exact hne w' hw'

end

/-- Retries are answered alike. Whoever places an order is told of an outcome left under its id at
the endpoint. As long as that is live, and fewer outcomes have come after it than there is room for,
whoever places an order there under the same id gets the same response, whatever else it asks for
and whatever has happened; the catalog with its journal stays as it is, and the coordinator counts a
hit and nothing else. -/
theorem retry_answered_alike (bounds : Bounds) (access : Access) (journal : Journal)
    (origin : Nat) (e : Endpoint) (before : List Step) (first : Request) :
    let s := new bounds access journal origin
    let s₁ := (s.run before).2
    (s₁.order? e first).isSome = true →
    ∃ newer d older, s.deeds e (before ++ [.request first]) = newer ++ d :: older ∧
      d.id = ⟨first.headerWord "x-request-id"⟩ ∧ (∀ w ∈ newer, w.id ≠ d.id) ∧
      (s₁.handle first).1 = e.response d.outcome ∧
      ∀ (between : List Step) (retry : Request),
        let s₂ := (s.run (before ++ .request first :: between)).2
        let k := (s₂.coordinator e).toCoordinator
        (s₂.order? e retry).isSome = true →
        retry.headerWord "x-request-id" = first.headerWord "x-request-id" →
        s₂.clock.now - d.writtenAt < bounds.ttl →
        (s.deeds e (before ++ .request first :: between)).length <
          older.length + 1 + bounds.maxSize →
        (s₂.handle retry).1 = (s₁.handle first).1 ∧
          (s₂.handle retry).2.catalog = s₂.catalog ∧
          ((s₂.handle retry).2.coordinator e).toCoordinator = { k with
            hits := k.hits + 1
            memo := { k.memo with nextGeneration := k.memo.nextGeneration + 1 } } := by
  intro s s₁ hfirst
  obtain ⟨o, ho⟩ := Option.isSome_iff_exists.mp hfirst
  obtain ⟨d, hfind, hresponse⟩ := response_of_order ho
  obtain ⟨hid, newer, older, hsplit, hne⟩ := List.find?_eq_some_iff_append.mp hfind
  have hid : d.id = o.id := of_decide_eq_true hid
  refine ⟨newer, d, older, hsplit, hid.trans (id_of_order ho), ?_, hresponse, ?_⟩
  · intro w hw hwid
    have := hne w hw
    simp [hwid, hid] at this
  · intro between retry s₂ k hretry hsame live room
    obtain ⟨o', ho'⟩ := Option.isSome_iff_exists.mp hretry
    have hid' : o'.id = d.id := by rw [hid, id_of_order ho, id_of_order ho', hsame]
    have hsteps : before ++ .request first :: between =
        (before ++ [.request first]) ++ between := by simp
    have remembers := remembers_run bounds access journal origin e
      (before ++ .request first :: between)
    have hrecent : d ∈ (s.deeds e (before ++ .request first :: between)).take bounds.maxSize := by
      obtain ⟨later, hlater, -⟩ := deeds_of_recent hsplit between (hsteps ▸ live) (hsteps ▸ room)
      rw [← hsteps, hsplit, ← List.append_assoc] at hlater
      rw [hlater] at room ⊢
      exact mem_take_append room
    rw [hresponse]
    exact remembers.handle_of_recent hrecent live ho' hid'

/-- Another file is asked for under the id of one that has been created. -/
theorem retry_of_creation_answered_alike :
    let bytes (text : String) : Bytes := text.toList.map fun c => c.toNat.toUInt8
    let post (target body : String) : Request := {
      method := "POST"
      target := target
      headers := [("content-type", bytes "application/json"), ("x-request-id", bytes " r1 ")]
      body := bytes body }
    let s := new ⟨1, 2000, by decide, by decide⟩ .everyone .absent 0
    let first := post "/files" "[\"/a\"]"
    let between : List Step := [.request (post "/files/rename" "[\"/a\",\"/b\"]"),
      .advance 1999999999, .purge]
    let retry := post "/files" "[\"/c\"]"
    ((s.run (.request first :: between)).2.handle retry).1 = (s.handle first).1 := by
  intro bytes post s first between retry
  have hfirst : (s.order? .create first).isSome = true := by decide +kernel
  obtain ⟨newer, d, older, hsplit, -, -, -, alike⟩ := retry_answered_alike
    ⟨1, 2000, by decide, by decide⟩ .everyone .absent 0 .create [] first hfirst
  rw [List.nil_append] at hsplit
  simp only [List.nil_append] at alike
  have hwritten : (s.deeds .create [.request first]).map Written.writtenAt = [0] := by
    decide +kernel
  have hdeeds : (newer ++ d :: older).map Written.writtenAt = [0] := hsplit ▸ hwritten
  obtain ⟨rfl, hd, rfl⟩ : newer = [] ∧ d.writtenAt = 0 ∧ older = [] := by
    cases newer with
    | nil => simpa using hdeeds
    | cons w newer => simp at hdeeds
  have hretry : ((s.run (.request first :: between)).2.order? .create retry).isSome = true := by
    decide +kernel
  have hsame : retry.headerWord "x-request-id" = first.headerWord "x-request-id" := by
    decide +kernel
  refine (alike between retry hretry hsame ?_ ?_).1
  · rw [hd]
    decide +kernel
  · decide +kernel

end Server
end Http
end AtMostOnce
