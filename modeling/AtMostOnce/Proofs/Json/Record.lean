import AtMostOnce.Proofs.Json.Literal
import AtMostOnce.Proofs.Table

/-! Records. What is written of a record of texts, field by field, is read as its texts. -/
namespace AtMostOnce.Json

/-- The bytes of a field: its name and its text, and a colon between them. -/
def member (f : String × String) : Bytes :=
  Text.Utf8.encode (literal f.1) ++ 0x3A :: Text.Utf8.encode (literal f.2)

/-- The bytes of the members of an object, with a comma before each that is not the first one, and
of the end of the object. -/
def members (first : Bool) : List (String × String) → Bytes
  | [] => [0x7D]
  | f :: fs => (if first then [] else [0x2C]) ++ (member f ++ members false fs)

theorem members_true (f : String × String) (fs : List (String × String)) :
    members true (f :: fs) = member f ++ members false fs := List.nil_append _

theorem members_false (f : String × String) (fs : List (String × String)) :
    members false (f :: fs) = 0x2C :: members true (f :: fs) := by
  rw [members_true]
  exact List.singleton_append

/-- The characters of a field. -/
def fieldText (f : String × String) : List Char :=
  (literal f.1).toList ++ ':' :: (literal f.2).toList

theorem bytes_fieldText (f : String × String) : bytes (fieldText f) = member f := by
  have hcolon : bytes [':'] = [0x3A] := rfl
  rw [fieldText, ← List.singleton_append, bytes_append, bytes_append, hcolon, List.singleton_append,
    member, encode_eq, encode_eq]

theorem bytes_intercalate (f : String × String) (fs : List (String × String)) :
    bytes ([','].intercalate ((f :: fs).map fieldText)) ++ [0x7D] = members true (f :: fs) := by
  have hcomma : bytes [','] = [0x2C] := rfl
  induction fs generalizing f with
  | nil =>
    rw [List.map_singleton, List.intercalate_singleton, bytes_fieldText, members_true, members]
  | cons f' fs ih =>
    rw [List.map_cons, List.map_cons, List.intercalate_cons_cons, ← List.map_cons, bytes_append,
      List.append_assoc, ih f', bytes_append, bytes_fieldText, hcomma, List.append_assoc,
      List.singleton_append, members_true f, members_false]

theorem toList_record (fields : List (String × String)) : (record fields).toList =
    ['\x7b'] ++ [','].intercalate (fields.map fieldText) ++ ['\x7d'] := by
  have hfields : (fields.map fun f => literal f.1 ++ ":" ++ literal f.2).map String.toList =
      fields.map fieldText := by
    rw [List.map_map]
    refine List.map_congr_left fun f _ => ?_
    simp [fieldText]
  rw [record, String.toList_append, String.toList_append, String.toList_intercalate, hfields]
  rfl

theorem encode_record (fields : List (String × String)) :
    Text.Utf8.encode (record fields) = 0x7B :: members true fields := by
  have hopen : bytes ['\x7b'] = [0x7B] := rfl
  have hclose : bytes ['\x7d'] = [0x7D] := rfl
  rw [encode_eq, toList_record, bytes_append, bytes_append, hopen, hclose, List.append_assoc,
    List.singleton_append]
  cases fields with
  | nil => rfl
  | cons f fs => rw [bytes_intercalate]

section
variable {names : List String} {found : List (String × String)} {first : Bool} {bs rest : Bytes}

/-- A member that is kept. Every other way to read on is ruled out by one of the hypotheses. -/
theorem readMembers_of_member {b : UInt8} {inKey afterKey value more : Bytes} {key s : String}
    (hspace : skipSpace bs = b :: rest) (hb : b ≠ 0x7D) (hin : keyRest first b rest = .ok inKey)
    (hkey : stringRest inKey = .ok (key, afterKey)) (hname : names.contains key)
    (hnew : found.lookup key = none) (hcolon : colonRest afterKey = .ok value)
    (hvalue : readString value = .ok (s, more)) :
    readMembers names found first bs = readMembers names ((key, s) :: found) false more := by
  fun_cases readMembers names found first bs
  all_goals grind

theorem readMembers_of_end (hspace : skipSpace bs = 0x7D :: rest) :
    readMembers names found first bs = .ok (found, rest) := by
  fun_cases readMembers names found first bs
  all_goals grind

theorem readMembers_cons {f : String × String} (hname : f.1 ∈ names)
    (hnew : found.lookup f.1 = none)
    (fs : List (String × String)) (rest : Bytes) :
    readMembers names found first (members first (f :: fs) ++ rest) =
      readMembers names (f :: found) false (members false fs ++ rest) := by
  let value := Text.Utf8.encode (literal f.2) ++ (members false fs ++ rest)
  let inKey := bytes (f.1.toList.flatMap spelled) ++ 0x22 :: 0x3A :: value
  have hkey : stringRest inKey = .ok (f.1, 0x3A :: value) := stringRest_literal f.1 (0x3A :: value)
  have hvalue : readString value = .ok (f.2, members false fs ++ rest) := readString_literal f.2 _
  have hbytes : member f ++ members false fs ++ rest = 0x22 :: inKey := by
    simp [member, encode_literal f.1, inKey, value]
  rw [members, List.append_assoc, hbytes]
  cases first with
  | true => exact readMembers_of_member rfl (by decide) rfl hkey (by simpa) hnew rfl hvalue
  | false => exact readMembers_of_member rfl (by decide) rfl hkey (by simpa) hnew rfl hvalue

theorem readMembers_members {fields : List (String × String)} (hnames : ∀ f ∈ fields, f.1 ∈ names)
    (hdistinct : (fields.map Prod.fst).Nodup) (hnew : ∀ f ∈ fields, found.lookup f.1 = none)
    (rest : Bytes) :
    readMembers names found first (members first fields ++ rest) =
      .ok (fields.reverse ++ found, rest) := by
  induction fields generalizing found first with
  | nil => exact readMembers_of_end rfl
  | cons f fs ih =>
    obtain ⟨hf, hfs⟩ := List.forall_mem_cons.mp hnames
    obtain ⟨hnewf, hnewfs⟩ := List.forall_mem_cons.mp hnew
    obtain ⟨hother, hdistinct⟩ := List.nodup_cons.mp hdistinct
    have hnext : ∀ f' ∈ fs, (f :: found).lookup f'.1 = none := by
      intro f' hf'
      have hne : f'.1 ≠ f.1 := fun heq => hother (heq ▸ List.mem_map_of_mem hf')
      rw [List.lookup_cons, beq_false_of_ne hne]
      exact hnewfs f' hf'
    rw [readMembers_cons hf hnewf, ih hfs hdistinct hnext, List.reverse_cons, List.append_assoc]
    rfl

end

theorem mapM_lookup {found fields : List (String × String)}
    (h : ∀ f ∈ fields, found.lookup f.1 = some f.2) :
    ((fields.map Prod.fst).mapM fun name => found.lookup name) = some (fields.map Prod.snd) := by
  induction fields with
  | nil => rfl
  | cons f fs ih =>
    obtain ⟨hf, hfs⟩ := List.forall_mem_cons.mp h
    rw [List.map_cons, List.mapM_cons, hf, ih hfs]
    rfl

theorem readRecord_of_members {names texts : List String} {found : List (String × String)}
    {bs rest : Bytes} (hmembers : readMembers names [] true bs = .ok (found, rest))
    (htexts : (names.mapM fun name => found.lookup name) = some texts) :
    readRecord names (0x7B :: bs) = .ok (texts, rest) := by
  have hspace : skipSpace (0x7B :: bs) = 0x7B :: bs := rfl
  rw [readRecord, hspace]
  dsimp only
  rw [if_neg (by decide), if_pos rfl, hmembers]
  dsimp only
  rw [htexts]

/-- A record is read as the texts of its fields, whatever follows it. -/
theorem readRecord_record (fields : List (String × String))
    (hdistinct : (fields.map Prod.fst).Nodup)
    (rest : Bytes) :
    readRecord (fields.map Prod.fst) (Text.Utf8.encode (record fields) ++ rest) =
      .ok (fields.map Prod.snd, rest) := by
  let t : Table String String := ⟨fields.reverse, by simpa using hdistinct⟩
  have hfound : ∀ f ∈ fields, (fields.reverse ++ []).lookup f.1 = some f.2 := by
    intro f hf
    rw [List.append_nil, show fields.reverse = t.entries from rfl, t.lookup_entries,
      t.find?_eq_some_iff]
    exact List.mem_reverse.mpr hf
  rw [encode_record]
  refine readRecord_of_members (readMembers_members ?_ hdistinct ?_ rest) (mapM_lookup hfound)
  · exact fun f hf => List.mem_map_of_mem hf
  · exact fun _ _ => rfl

/-- A record is read from a text that holds nothing else. -/
theorem whole_readRecord_record (fields : List (String × String))
    (hdistinct : (fields.map Prod.fst).Nodup) :
    whole (readRecord (fields.map Prod.fst) (Text.Utf8.encode (record fields))) =
      .ok (fields.map Prod.snd) := by
  have hread := readRecord_record fields hdistinct []
  rw [List.append_nil] at hread
  rw [hread]
  rfl

end AtMostOnce.Json
