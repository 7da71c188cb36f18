import AtMostOnce.Proofs.Memo.Refinement

/-! Keepers of outcomes, and what can be seen of them. A memory and its ledger cannot be told apart,
whatever they are asked. -/
namespace AtMostOnce

inductive Request (V M : Type) where
  | lookup (id : RequestId) (marker : M)
  | commit (id : RequestId) (generation : Nat) (outcome : Outcome V)
  | release (id : RequestId) (generation : Nat)
  | purge
  | advance (d : Nat)

inductive Reply (V M : Type) where
  | found (l : Lookup V M)
  | purged (count : Nat)
  | done

/-- What a keeper says of itself. -/
structure Figures where
  size : Nat
  inFlight : Nat
  evictions : Nat
  expirations : Nat

/-- The operations of a keeper whose states are `σ`. -/
structure Keeper (σ V M : Type) where
  lookup : σ → Instant → RequestId → M → Lookup V M × σ
  commit : σ → Instant → RequestId → Nat → Outcome V → σ
  release : σ → RequestId → Nat → σ
  purge : σ → Instant → Nat × σ
  figures : σ → Figures

namespace Keeper
variable {σ V M : Type} (k : Keeper σ V M)

def serve (now : Instant) (s : σ) : Request V M → Reply V M × Instant × σ
  | .lookup id marker => (.found (k.lookup s now id marker).1, now, (k.lookup s now id marker).2)
  | .commit id generation outcome => (.done, now, k.commit s now id generation outcome)
  | .release id generation => (.done, now, k.release s id generation)
  | .purge => (.purged (k.purge s now).1, now, (k.purge s now).2)
  | .advance d => (.done, now + d, s)

def after (now : Instant) (s : σ) : List (Request V M) → Instant × σ
  | [] => (now, s)
  | r :: rs => after (k.serve now s r).2.1 (k.serve now s r).2.2 rs

/-- All that is seen while requests are answered. -/
def trace (now : Instant) (s : σ) : List (Request V M) → List (Reply V M × Figures)
  | [] => []
  | r :: rs =>
    ((k.serve now s r).1, k.figures (k.serve now s r).2.2) ::
      trace (k.serve now s r).2.1 (k.serve now s r).2.2 rs

end Keeper

variable {V M : Type}

def Memo.keeper : Keeper (Memo V M) V M where
  lookup := Memo.lookup
  commit := Memo.commit
  release := Memo.release
  purge := Memo.purge
  figures m := ⟨m.size, m.inFlight, m.evictions, m.expirations⟩

def Ledger.keeper : Keeper (Ledger V M) V M where
  lookup := Ledger.lookup
  commit := Ledger.commit
  release := Ledger.release
  purge := Ledger.purge
  figures l := ⟨l.written.length, l.claims.size, l.evictions, l.expirations⟩

namespace Memo

theorem figures_ledger {m : Memo V M} (h : m.Sound) :
    Ledger.keeper.figures m.ledger = Memo.keeper.figures m := by
  simp only [Ledger.keeper, Memo.keeper, h.length_written, inFlight_eq_size]
  rfl

/-- A memory and its ledger answer a request alike, and the ledger stays that of the memory. -/
theorem serve_ledger {m : Memo V M} (h : m.Sound) (hl : m.ledger.Sound) (now : Instant)
    (r : Request V M) :
    (Memo.keeper.serve now m r).2.2.Sound ∧ (Memo.keeper.serve now m r).2.2.ledger.Sound ∧
      Ledger.keeper.serve now m.ledger r =
        ((Memo.keeper.serve now m r).1, (Memo.keeper.serve now m r).2.1,
          (Memo.keeper.serve now m r).2.2.ledger) := by
  cases r with
  | lookup id marker =>
    obtain ⟨hs, he⟩ := h.lookup hl now id marker
    have hl' := hl.lookup now id marker
    rw [he] at hl'
    exact ⟨hs, hl', by simp only [Keeper.serve, Ledger.keeper, Memo.keeper, he]⟩
  | commit id generation outcome =>
    obtain ⟨hs, he⟩ := h.commit now id generation outcome
    have hl' := hl.commit now id generation outcome
    rw [← he] at hl'
    exact ⟨hs, hl', by simp only [Keeper.serve, Ledger.keeper, Memo.keeper, he]⟩
  | release id generation =>
    obtain ⟨hs, he⟩ := h.release id generation
    have hl' := hl.release id generation
    rw [← he] at hl'
    exact ⟨hs, hl', by simp only [Keeper.serve, Ledger.keeper, Memo.keeper, he]⟩
  | purge =>
    obtain ⟨hs, he⟩ := h.purge now
    have hl' := hl.purge now
    rw [he] at hl'
    exact ⟨hs, hl', by simp only [Keeper.serve, Ledger.keeper, Memo.keeper, he]⟩
  | advance d => exact ⟨h, hl, rfl⟩

theorem after_ledger {m : Memo V M} (h : m.Sound) (hl : m.ledger.Sound) (now : Instant)
    (rs : List (Request V M)) :
    (Memo.keeper.after now m rs).2.Sound ∧ (Memo.keeper.after now m rs).2.ledger.Sound ∧
      Ledger.keeper.after now m.ledger rs =
        ((Memo.keeper.after now m rs).1, (Memo.keeper.after now m rs).2.ledger) := by
  induction rs generalizing now m with
  | nil => exact ⟨h, hl, rfl⟩
  | cons r rs ih =>
    obtain ⟨hs, hl', he⟩ := serve_ledger h hl now r
    simp only [Keeper.after, he]
    exact ih hs hl' _

theorem trace_ledger {m : Memo V M} (h : m.Sound) (hl : m.ledger.Sound) (now : Instant)
    (rs : List (Request V M)) :
    Memo.keeper.trace now m rs = Ledger.keeper.trace now m.ledger rs := by
  induction rs generalizing now m with
  | nil => rfl
  | cons r rs ih =>
    obtain ⟨hs, hl', he⟩ := serve_ledger h hl now r
    simp only [Keeper.trace, he, figures_ledger hs]
    rw [ih hs hl']

/-- Nothing that a memory is asked tells it from a plain list of outcomes beside a table of claims:
answers and figures agree after every request, and so does what is held. In the list no id occurs
twice, and none that is claimed. -/
theorem trace_eq_ledger_trace (maxSize ttl : Nat) (now : Instant) (rs : List (Request V M)) :
    let m : Memo V M := { maxSize := maxSize, ttl := ttl }
    let l : Ledger V M := { maxSize := maxSize, ttl := ttl }
    let last := (Ledger.keeper.after now l rs).2
    Memo.keeper.trace now m rs = Ledger.keeper.trace now l rs ∧
      (Memo.keeper.after now m rs).2.ledger = last ∧
      (last.written.map Written.id).Nodup ∧
      ∀ w ∈ last.written, last.claims.find? w.id = none := by
  intro m l last
  have hm : m.Sound := sound_new maxSize ttl
  have hl : m.ledger.Sound := Ledger.sound_new maxSize ttl
  obtain ⟨-, hs, he⟩ := after_ledger hm hl now rs
  have hlast : (Memo.keeper.after now m rs).2.ledger = last := (congrArg Prod.snd he).symm
  rw [hlast] at hs
  exact ⟨trace_ledger hm hl now rs, hlast, hs.distinct, hs.apart⟩

/-- A second outcome takes the place of the first where there is room for one. -/
theorem trace_of_eviction :
    let rs : List (Request Nat Unit) := [.lookup ⟨"a"⟩ (), .commit ⟨"a"⟩ 0 (.success 7),
      .lookup ⟨"b"⟩ (), .commit ⟨"b"⟩ 1 (.success 8)]
    let l : Ledger Nat Unit := { maxSize := 1, ttl := 10 }
    let last := (Ledger.keeper.after 0 l rs).2
    last.written = [⟨⟨"b"⟩, .success 8, 0⟩] ∧ last.evictions = 1 ∧
      last.claims.find? ⟨"b"⟩ = none ∧
      (Memo.keeper.after 0 ({ maxSize := 1, ttl := 10 } : Memo Nat Unit) rs).2.ledger = last := by
  intro rs l last
  have hw : last.written = [⟨⟨"b"⟩, .success 8, 0⟩] := by
    simp only [last, l, rs]
    cbv
  have he : last.evictions = 1 := by
    simp only [last, l, rs]
    cbv
  obtain ⟨-, hl, -, hc⟩ := trace_eq_ledger_trace 1 10 0 rs
  refine ⟨hw, he, hc ⟨⟨"b"⟩, .success 8, 0⟩ ?_, hl⟩
  show _ ∈ last.written
  rw [hw]
  exact List.mem_singleton_self _

end Memo
end AtMostOnce
