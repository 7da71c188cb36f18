import AtMostOnce.Text.Utf8
import Mathlib.Data.List.Basic

/-! Bytes and text. Reading the bytes of a text gives the text back, and no other bytes are read as
text: what can be read at all is the encoding of what is read. -/
namespace AtMostOnce.Text.Utf8

/-- What is read of the bytes that follow when a reader stands in the given state. -/
def reading (st : State) (bytes : Bytes) : List (Option Char) :=
  (bytes.foldl Reading.next ⟨st, []⟩).finish

theorem first_eq (done : List (Option Char)) (b : UInt8) : Reading.first done b =
    ⟨(Reading.first [] b).state, (Reading.first [] b).done ++ done⟩ := by
  unfold Reading.first
  split
  · rfl
  split <;> rfl

/-- What has been read already does not matter to what is read next. -/
theorem next_eq (r : Reading) (b : UInt8) : r.next b =
    ⟨(Reading.next ⟨r.state, []⟩ b).state, (Reading.next ⟨r.state, []⟩ b).done ++ r.done⟩ := by
  obtain ⟨st, done⟩ := r
  cases st with
  | between => exact first_eq done b
  | within owed low high value =>
    unfold Reading.next
    dsimp only
    split
    · split <;> rfl
    · rw [first_eq, first_eq [none], List.append_assoc]
      rfl

theorem finish_foldl (r : Reading) (bytes : Bytes) :
    (bytes.foldl Reading.next r).finish = r.done.reverse ++ reading r.state bytes := by
  induction bytes generalizing r with
  | nil =>
    obtain ⟨st, done⟩ := r
    cases st <;> simp [reading, Reading.finish]
  | cons b bytes ih =>
    have hnext := next_eq r b
    rw [reading, List.foldl_cons, List.foldl_cons, ih, ih, hnext, List.reverse_append,
      List.append_assoc]

theorem reading_cons (st : State) (b : UInt8) (bytes : Bytes) : reading st (b :: bytes) =
    (Reading.next ⟨st, []⟩ b).done.reverse ++ reading (Reading.next ⟨st, []⟩ b).state bytes :=
  finish_foldl _ bytes

/-- The numbers of a byte that begins a character of several bytes, with those of the state after
it. -/
def Leads (b owed low high value : Nat) : Prop :=
  owed = 1 ∧ 0xC2 ≤ b ∧ b ≤ 0xDF ∧ value = b - 0xC0 ∧ low = 0x80 ∧ high = 0xBF ∨
  owed = 2 ∧ 0xE0 ≤ b ∧ b ≤ 0xEF ∧ value = b - 0xE0 ∧
    (b = 0xE0 ∧ low = 0xA0 ∨ b ≠ 0xE0 ∧ low = 0x80) ∧
    (b = 0xED ∧ high = 0x9F ∨ b ≠ 0xED ∧ high = 0xBF) ∨
  owed = 3 ∧ 0xF0 ≤ b ∧ b ≤ 0xF4 ∧ value = b - 0xF0 ∧
    (b = 0xF0 ∧ low = 0x90 ∨ b ≠ 0xF0 ∧ low = 0x80) ∧
    (b = 0xF4 ∧ high = 0x8F ∨ b ≠ 0xF4 ∧ high = 0xBF)

theorem lead?_cases (b : UInt8) :
    (∃ owed low high value, lead? b = some (.within owed low high value) ∧
      Leads b.toNat owed low.toNat high.toNat value) ∨
    lead? b = none ∧ (b.toNat < 0xC2 ∨ 0xF4 < b.toNat) := by
  unfold lead? Leads
  simp only [UInt8.le_iff_toNat_le, ← UInt8.toNat_inj, UInt8.reduceToNat]
  split
  · exact .inl ⟨_, _, _, _, rfl, by simp; omega⟩
  split
  · exact .inl ⟨_, _, _, _, rfl, by simp; omega⟩
  split
  · exact .inl ⟨_, _, _, _, rfl, by simp; omega⟩
  split
  · exact .inl ⟨_, _, _, _, rfl, by simp; omega⟩
  split
  · exact .inl ⟨_, _, _, _, rfl, by simp; omega⟩
  split
  · exact .inl ⟨_, _, _, _, rfl, by simp; omega⟩
  split
  · exact .inl ⟨_, _, _, _, rfl, by simp; omega⟩
  · exact .inr ⟨rfl, by omega⟩

section
variable {b : UInt8} {bytes : Bytes} {low high : UInt8} {owed value : Nat}

theorem reading_within_nil : reading (.within owed low high value) [] = [none] := rfl

theorem reading_ascii (h : b.toNat < 0x80) :
    reading .between (b :: bytes) = some (Char.ofNat b.toNat) :: reading .between bytes := by
  have hlt : b < 0x80 := UInt8.lt_iff_toNat_lt.mpr h
  rw [reading_cons, Reading.next]
  dsimp only
  rw [Reading.first, if_pos hlt]
  rfl

theorem reading_lead {st : State} (h : 0x80 ≤ b.toNat) (lead : lead? b = some st) :
    reading .between (b :: bytes) = reading st bytes := by
  have hlt : ¬ b < 0x80 := by simpa [UInt8.lt_iff_toNat_lt] using h
  rw [reading_cons, Reading.next]
  dsimp only
  rw [Reading.first, if_neg hlt, lead]
  rfl

theorem reading_stray (h : 0x80 ≤ b.toNat) (lead : lead? b = none) :
    reading .between (b :: bytes) = none :: reading .between bytes := by
  have hlt : ¬ b < 0x80 := by simpa [UInt8.lt_iff_toNat_lt] using h
  rw [reading_cons, Reading.next]
  dsimp only
  rw [Reading.first, if_neg hlt, lead]
  rfl

/-- The last byte of a character. -/
theorem reading_last (h : low.toNat ≤ b.toNat ∧ b.toNat ≤ high.toNat) :
    reading (.within 1 low high value) (b :: bytes) =
      some (Char.ofNat (64 * value + (b.toNat - 0x80))) :: reading .between bytes := by
  have hb : low ≤ b ∧ b ≤ high := by simpa only [UInt8.le_iff_toNat_le] using h
  rw [reading_cons, Reading.next]
  dsimp only
  rw [if_pos hb, if_pos rfl]
  rfl

/-- A byte inside a character that is owed more of them. -/
theorem reading_more (h : low.toNat ≤ b.toNat ∧ b.toNat ≤ high.toNat) :
    reading (.within (owed + 2) low high value) (b :: bytes) =
      reading (.within (owed + 1) 0x80 0xBF (64 * value + (b.toNat - 0x80))) bytes := by
  have hb : low ≤ b ∧ b ≤ high := by simpa only [UInt8.le_iff_toNat_le] using h
  rw [reading_cons, Reading.next]
  dsimp only
  rw [if_pos hb, if_neg (by omega)]
  rfl

/-- A byte that does not continue a character shows that the character is ill-formed. -/
theorem reading_broken (h : ¬(low.toNat ≤ b.toNat ∧ b.toNat ≤ high.toNat)) :
    reading (.within owed low high value) (b :: bytes) = none :: reading .between (b :: bytes) := by
  have hb : ¬(low ≤ b ∧ b ≤ high) := by simpa only [UInt8.le_iff_toNat_le] using h
  have hnext : Reading.next ⟨.within owed low high value, []⟩ b = Reading.first [none] b := by
    rw [Reading.next]
    dsimp only
    rw [if_neg hb]
  rw [reading_cons, reading_cons, hnext, first_eq, List.reverse_append]
  rfl

end

theorem toNat_byte {n : Nat} (h : n < 256) : (UInt8.ofNat n).toNat = n := UInt8.toNat_ofNat_of_lt' h

/-- The bytes of the character with the given number. -/
def bytesOf (n : Nat) : Bytes :=
  if n ≤ 127 then [.ofNat n]
  else if n ≤ 2047 then [.ofNat (n / 64 % 32 + 192), .ofNat (n % 64 + 128)]
  else if n ≤ 65535 then
    [.ofNat (n / 4096 % 16 + 224), .ofNat (n / 64 % 64 + 128), .ofNat (n % 64 + 128)]
  else
    [.ofNat (n / 262144 % 8 + 240), .ofNat (n / 4096 % 64 + 128), .ofNat (n / 64 % 64 + 128),
      .ofNat (n % 64 + 128)]

/-- Only a character of one byte has bytes of the ASCII range. -/
theorem toNat_of_mem_bytesOf {n : Nat} {b : UInt8} (h : b ∈ bytesOf n) :
    b.toNat = n ∨ 0x80 ≤ b.toNat := by
  have hhigh : ∀ m, 0x80 ≤ m → m < 256 → 0x80 ≤ (UInt8.ofNat m).toNat := by
    intro m hm hlt
    rwa [toNat_byte hlt]
  unfold bytesOf at h
  split at h
  · obtain rfl := List.mem_singleton.mp h
    exact .inl (toNat_byte (by omega))
  split at h
  · simp only [List.mem_cons, List.not_mem_nil, or_false] at h
    obtain rfl | rfl := h <;> exact .inr (hhigh _ (by omega) (by omega))
  split at h
  · simp only [List.mem_cons, List.not_mem_nil, or_false] at h
    obtain rfl | rfl | rfl := h <;> exact .inr (hhigh _ (by omega) (by omega))
  · simp only [List.mem_cons, List.not_mem_nil, or_false] at h
    obtain rfl | rfl | rfl | rfl := h <;> exact .inr (hhigh _ (by omega) (by omega))

theorem utf8EncodeChar_eq (c : Char) : String.utf8EncodeChar c = bytesOf c.toNat := rfl

/-- The bytes of a character are read as that character. -/
theorem reading_bytesOf {n : Nat} (hvalid : n < 0xD800 ∨ 0xDFFF < n ∧ n < 0x110000)
    (bytes : Bytes) :
    reading .between (bytesOf n ++ bytes) = some (Char.ofNat n) :: reading .between bytes := by
  unfold bytesOf
  split
  · have h1 := toNat_byte (n := n) (by omega)
    rw [List.cons_append, List.nil_append, reading_ascii (by omega), h1]
  split
  · have h1 := toNat_byte (n := n / 64 % 32 + 192) (by omega)
    have h2 := toNat_byte (n := n % 64 + 128) (by omega)
    generalize UInt8.ofNat (n / 64 % 32 + 192) = a at h1
    generalize UInt8.ofNat (n % 64 + 128) = b at h2
    obtain ⟨owed, low, high, value, hlead, hl⟩ | ⟨-, hout⟩ := lead?_cases a
    · unfold Leads at hl
      obtain rfl : owed = 1 := by omega
      rw [List.cons_append, List.cons_append, List.nil_append, reading_lead (by omega) hlead,
        reading_last (by omega), show 64 * value + (b.toNat - 0x80) = n by omega]
    · omega
  split
  · have h1 := toNat_byte (n := n / 4096 % 16 + 224) (by omega)
    have h2 := toNat_byte (n := n / 64 % 64 + 128) (by omega)
    have h3 := toNat_byte (n := n % 64 + 128) (by omega)
    generalize UInt8.ofNat (n / 4096 % 16 + 224) = a at h1
    generalize UInt8.ofNat (n / 64 % 64 + 128) = b at h2
    generalize UInt8.ofNat (n % 64 + 128) = c at h3
    obtain ⟨owed, low, high, value, hlead, hl⟩ | ⟨-, hout⟩ := lead?_cases a
    · unfold Leads at hl
      obtain rfl : owed = 2 := by omega
      rw [List.cons_append, List.cons_append, List.cons_append, List.nil_append,
        reading_lead (by omega) hlead, reading_more (by omega), reading_last (by simp; omega),
        show 64 * (64 * value + (b.toNat - 0x80)) + (c.toNat - 0x80) = n by omega]
    · omega
  · have h1 := toNat_byte (n := n / 262144 % 8 + 240) (by omega)
    have h2 := toNat_byte (n := n / 4096 % 64 + 128) (by omega)
    have h3 := toNat_byte (n := n / 64 % 64 + 128) (by omega)
    have h4 := toNat_byte (n := n % 64 + 128) (by omega)
    generalize UInt8.ofNat (n / 262144 % 8 + 240) = a at h1
    generalize UInt8.ofNat (n / 4096 % 64 + 128) = b at h2
    generalize UInt8.ofNat (n / 64 % 64 + 128) = c at h3
    generalize UInt8.ofNat (n % 64 + 128) = d at h4
    obtain ⟨owed, low, high, value, hlead, hl⟩ | ⟨-, hout⟩ := lead?_cases a
    · unfold Leads at hl
      obtain rfl : owed = 3 := by omega
      rw [List.cons_append, List.cons_append, List.cons_append, List.cons_append, List.nil_append,
        reading_lead (by omega) hlead, reading_more (by omega), reading_more (by simp; omega),
        reading_last (by simp; omega),
        show 64 * (64 * (64 * value + (b.toNat - 0x80)) + (c.toNat - 0x80)) + (d.toNat - 0x80) =
          n by
          omega]
    · omega

section
variable {bytes : Bytes} {low high : UInt8} {owed value : Nat} {c : Char}
  {more : List (Option Char)}

/-- A character is completed by a byte in the range that it is owed. -/
theorem last_of_reading (h : reading (.within 1 low high value) bytes = some c :: more) :
    ∃ b rest, bytes = b :: rest ∧ low.toNat ≤ b.toNat ∧ b.toNat ≤ high.toNat ∧
      c = Char.ofNat (64 * value + (b.toNat - 0x80)) ∧ reading .between rest = more := by
  cases bytes with
  | nil => cases h
  | cons b rest =>
    by_cases hb : low.toNat ≤ b.toNat ∧ b.toNat ≤ high.toNat
    · rw [reading_last hb, List.cons.injEq, Option.some.injEq] at h
      exact ⟨b, rest, rfl, hb.1, hb.2, h.1.symm, h.2⟩
    · rw [reading_broken hb] at h
      cases h

theorem more_of_reading (h : reading (.within (owed + 2) low high value) bytes = some c :: more) :
    ∃ b rest, bytes = b :: rest ∧ low.toNat ≤ b.toNat ∧ b.toNat ≤ high.toNat ∧
      reading (.within (owed + 1) 0x80 0xBF (64 * value + (b.toNat - 0x80))) rest =
        some c :: more := by
  cases bytes with
  | nil => cases h
  | cons b rest =>
    by_cases hb : low.toNat ≤ b.toNat ∧ b.toNat ≤ high.toNat
    · rw [reading_more hb] at h
      exact ⟨b, rest, rfl, hb.1, hb.2, h⟩
    · rw [reading_broken hb] at h
      cases h

theorem ofNat_eq {n : Nat} {b : UInt8} (h : n = b.toNat) : UInt8.ofNat n = b := by
  rw [h, UInt8.ofNat_toNat]

/-- Bytes that are read as a character begin with the bytes of that character. -/
theorem bytesOf_of_reading (h : reading .between bytes = some c :: more) :
    ∃ n rest, (n < 0xD800 ∨ 0xDFFF < n ∧ n < 0x110000) ∧ bytes = bytesOf n ++ rest ∧
      c = Char.ofNat n ∧ reading .between rest = more := by
  cases bytes with
  | nil => cases h
  | cons a bytes =>
    have ha := a.toNat_lt
    by_cases hascii : a.toNat < 0x80
    · rw [reading_ascii hascii, List.cons.injEq, Option.some.injEq] at h
      refine ⟨a.toNat, bytes, by omega, ?_, h.1.symm, h.2⟩
      rw [bytesOf, if_pos (by omega), ofNat_eq rfl]
      rfl
    obtain ⟨owed, low, high, value, hlead, hl⟩ | ⟨hlead, hout⟩ := lead?_cases a
    · rw [reading_lead (by omega) hlead] at h
      unfold Leads at hl
      obtain rfl | rfl | rfl : owed = 1 ∨ owed = 2 ∨ owed = 3 := by omega
      · obtain ⟨b, rest, rfl, hlow, hhigh, hc, hrest⟩ := last_of_reading h
        refine ⟨_, rest, ?_, ?_, hc, hrest⟩
        · omega
        · rw [bytesOf, if_neg (by omega), if_pos (by omega), ofNat_eq (b := a) (by omega),
            ofNat_eq (b := b) (by omega)]
          rfl
      · obtain ⟨b, _, rfl, hlow, hhigh, h⟩ := more_of_reading h
        obtain ⟨d, rest, rfl, hlow', hhigh', hc, hrest⟩ := last_of_reading h
        simp only [UInt8.reduceToNat] at hlow' hhigh'
        refine ⟨_, rest, ?_, ?_, hc, hrest⟩
        · omega
        · rw [bytesOf, if_neg (by omega), if_neg (by omega), if_pos (by omega),
            ofNat_eq (b := a) (by omega), ofNat_eq (b := b) (by omega),
            ofNat_eq (b := d) (by omega)]
          rfl
      · obtain ⟨b, _, rfl, hlow, hhigh, h⟩ := more_of_reading h
        obtain ⟨d, _, rfl, hlow', hhigh', h⟩ := more_of_reading h
        obtain ⟨e, rest, rfl, hlow'', hhigh'', hc, hrest⟩ := last_of_reading h
        simp only [UInt8.reduceToNat] at hlow' hhigh' hlow'' hhigh''
        refine ⟨_, rest, ?_, ?_, hc, hrest⟩
        · omega
        · rw [bytesOf, if_neg (by omega), if_neg (by omega), if_neg (by omega),
            ofNat_eq (b := a) (by omega), ofNat_eq (b := b) (by omega),
            ofNat_eq (b := d) (by omega),
            ofNat_eq (b := e) (by omega)]
          rfl
    · rw [reading_stray (by omega) hlead] at h
      cases h

end

/-- A character that has been begun is completed or shows to be ill-formed. -/
theorem reading_within_ne_nil (owed : Nat) (low high : UInt8) (value : Nat) (bytes : Bytes) :
    reading (.within (owed + 1) low high value) bytes ≠ [] := by
  induction bytes generalizing owed low high value with
  | nil => simp [reading_within_nil]
  | cons b bytes ih =>
    by_cases hb : low.toNat ≤ b.toNat ∧ b.toNat ≤ high.toNat
    · cases owed with
      | zero => simp [reading_last hb]
      | succ owed => exact reading_more hb ▸ ih _ _ _ _
    · simp [reading_broken hb]

theorem eq_nil_of_reading {bytes : Bytes} (h : reading .between bytes = []) : bytes = [] := by
  cases bytes with
  | nil => rfl
  | cons b bytes =>
    by_cases hascii : b.toNat < 0x80
    · rw [reading_ascii hascii] at h
      cases h
    obtain ⟨owed, low, high, value, hlead, hl⟩ | ⟨hlead, -⟩ := lead?_cases b
    · obtain ⟨n, rfl⟩ : ∃ n, owed = n + 1 :=
        Nat.exists_eq_add_one.mpr (by unfold Leads at hl; omega)
      rw [reading_lead (by omega) hlead] at h
      exact absurd h (reading_within_ne_nil n low high value bytes)
    · rw [reading_stray (by omega) hlead] at h
      cases h

/-- Bytes are read as some characters if they are the bytes of these and nothing else. -/
theorem reading_eq_map_some_iff (bytes : Bytes) (cs : List Char) :
    reading .between bytes = cs.map some ↔ bytes = cs.flatMap String.utf8EncodeChar := by
  constructor
  · intro h
    induction cs generalizing bytes with
    | nil => exact eq_nil_of_reading h
    | cons c cs ih =>
      obtain ⟨n, rest, hvalid, rfl, rfl, hrest⟩ := bytesOf_of_reading h
      have hn : (Char.ofNat n).toNat = n := by
        rw [Char.ofNat, dif_pos hvalid]
        rfl
      rw [List.flatMap_cons, utf8EncodeChar_eq, hn, ih rest hrest]
  · intro h
    induction cs generalizing bytes with
    | nil =>
      rw [h]
      rfl
    | cons c cs ih =>
      have hvalid : c.toNat < 0xD800 ∨ 0xDFFF < c.toNat ∧ c.toNat < 0x110000 := c.valid
      rw [h, List.flatMap_cons, utf8EncodeChar_eq, reading_bytesOf hvalid, Char.ofNat_toNat,
        ih _ rfl]
      rfl

theorem mapM_id_eq_some_iff (xs : List (Option Char)) (cs : List Char) :
    xs.mapM id = some cs ↔ xs = cs.map some := by
  induction xs generalizing cs with
  | nil => cases cs <;> simp
  | cons x xs ih =>
    cases x with
    | none => cases cs <;> simp [List.mapM_cons]
    | some c =>
      cases cs with
      | nil => simp [List.mapM_cons, Option.bind_eq_some_iff]
      | cons c' cs => simp [List.mapM_cons, Option.bind_eq_some_iff, ih, and_comm]

/-- The text of bytes is the text of which they are the encoding. Other bytes have none. -/
theorem text?_eq_some_iff (bytes : Bytes) (s : String) :
    text? bytes = some s ↔ bytes = encode s := by
  rw [text?, Option.map_eq_some_iff]
  constructor
  · rintro ⟨cs, hcs, rfl⟩
    rw [mapM_id_eq_some_iff] at hcs
    rw [encode, String.toList_ofList]
    exact (reading_eq_map_some_iff bytes cs).mp hcs
  · intro h
    refine ⟨s.toList, ?_, String.ofList_toList⟩
    rw [mapM_id_eq_some_iff]
    exact (reading_eq_map_some_iff bytes s.toList).mpr h

/-- A text of ASCII characters has one byte for each. -/
theorem encode_of_ascii {s : String} (h : ∀ c ∈ s.toList, c.toNat < 0x80) :
    encode s = s.toList.map fun c => UInt8.ofNat c.toNat := by
  rw [encode, List.map_eq_flatMap]
  apply List.flatMap_congr
  intro c hc
  have hone : c.toNat ≤ 127 := Nat.le_of_lt_succ (h c hc)
  rw [utf8EncodeChar_eq, bytesOf, if_pos hone]

end AtMostOnce.Text.Utf8
