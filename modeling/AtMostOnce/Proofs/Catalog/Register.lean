import AtMostOnce.Proofs.Catalog.Changes

/-! The register of a catalog. A catalog holds the files that have been created, each under the path
to which the renames since have taken it. Their numbers tell in which order they were created. -/
namespace AtMostOnce.Catalog

namespace Change

def created? : Change → Option File
  | created file => some file
  | renamed .. => none

/-- Where a file at the given path is after the change. -/
def follow (path : String) : Change → String
  | created _ => path
  | renamed src dst => if path = src then dst else path

def move (c : Change) (file : File) : File := { file with path := c.follow file.path }

@[simp] theorem id_move (c : Change) (file : File) : (c.move file).id = file.id := rfl

@[simp] theorem createdAt_move (c : Change) (file : File) :
    (c.move file).createdAt = file.createdAt := rfl

@[simp] theorem path_move (c : Change) (file : File) :
    (c.move file).path = c.follow file.path := rfl

/-- The files after a change, in the order in which they were created. -/
def register (files : List File) (c : Change) : List File := files.map c.move ++ c.created?.toList

end Change

/-- Where a file at the given path is after the changes. -/
def follow (cs : List Change) (path : String) : String := cs.foldl Change.follow path

def register (cs : List Change) : List File := cs.foldl Change.register []

theorem follow_concat (cs : List Change) (c : Change) (path : String) :
    follow (cs ++ [c]) path = c.follow (follow cs path) := by
  simp [follow]

theorem register_concat (cs : List Change) (c : Change) :
    register (cs ++ [c]) = (register cs).map c.move ++ c.created?.toList := by
  simp [register, Change.register]

/-- A file once created stays in the register, and renames take it from path to path. -/
theorem mem_register (before after : List Change) (file : File) :
    { file with path := follow after file.path } ∈ register (before ++ .created file :: after) := by
  induction after using List.reverseRecOn with
  | nil =>
    rw [register_concat]
    exact List.mem_append_right _ (List.mem_singleton_self file)
  | append_singleton after c ih =>
    rw [← List.cons_append, ← List.append_assoc, register_concat, follow_concat]
    exact List.mem_append_left _ (List.mem_map_of_mem (f := c.move) ih)

/-- What no change alters in a file, the register has as it was on creation. -/
theorem map_register {β : Type} {g : File → β} (unaltered : ∀ c f, g (Change.move c f) = g f)
    (cs : List Change) : (register cs).map g = (cs.filterMap Change.created?).map g := by
  induction cs using List.reverseRecOn with
  | nil => rfl
  | append_singleton cs c ih =>
    have hmove : g ∘ c.move = g := funext (unaltered c)
    rw [register_concat, List.filterMap_append, List.map_append, List.map_append, ← ih,
      List.map_map, hmove]
    cases c <;> rfl

/-- The catalog holds the files listed, and these are in order. -/
structure Holds (c : Catalog) (date : Nat) (files : List File) : Prop where
  held : c.files.entries.Perm (files.map fun f => (f.path, f))
  numbered : files.map File.id = List.range' 1 c.lastId
  ordered : files.Pairwise fun f f' => f.createdAt ≤ f'.createdAt
  past : ∀ f ∈ files, f.createdAt ≤ date
  valid : ∀ f ∈ files, checkPath f.path = .ok ()

namespace Holds
variable {c : Catalog} {date : Nat} {files : List File}

theorem find?_eq_some_iff (h : c.Holds date files) (path : String) (file : File) :
    c.files.find? path = some file ↔ file ∈ files ∧ file.path = path := by
  rw [Table.find?_eq_some_iff, h.held.mem_iff, List.mem_map]
  constructor
  · rintro ⟨f, hf, he⟩
    cases he
    exact ⟨hf, rfl⟩
  · rintro ⟨hf, rfl⟩
    exact ⟨file, hf, rfl⟩

theorem size_eq (h : c.Holds date files) : c.files.size = c.lastId := by
  have hheld := h.held.length_eq
  have hnumbered := congrArg List.length h.numbered
  simp only [List.length_map, List.length_range'] at hheld hnumbered
  exact hheld.trans hnumbered

theorem later (h : c.Holds date files) {date' : Nat} (hle : date ≤ date') :
    c.Holds date' files :=
  { h with past := fun f hf => Nat.le_trans (h.past f hf) hle }

theorem create (h : c.Holds date files) {path : String} (valid : checkPath path = .ok ())
    (free : c.files.find? path = none) :
    Holds { c with
      files := c.files.insert path ⟨c.lastId + 1, path, date⟩
      lastId := c.lastId + 1 } date (files ++ [⟨c.lastId + 1, path, date⟩]) where
  held := by
    have hnew : (c.files.insert path ⟨c.lastId + 1, path, date⟩).entries =
        (path, ⟨c.lastId + 1, path, date⟩) :: c.files.entries := by
      show _ :: (c.files.erase path).entries = _
      rw [Table.erase_eq_self free]
    rw [hnew, List.map_append]
    exact (h.held.cons _).trans (List.perm_append_singleton _ _).symm
  numbered := by
    rw [List.map_append, h.numbered, List.range'_1_concat, Nat.add_comm 1]
    rfl
  ordered := by
    refine List.pairwise_append.mpr ⟨h.ordered, List.pairwise_singleton _ _, ?_⟩
    simpa using h.past
  past := by
    rw [List.forall_mem_append]
    exact ⟨h.past, by simp⟩
  valid := by
    rw [List.forall_mem_append]
    exact ⟨h.valid, by simpa using valid⟩

/-- The file that is renamed is the only one to change its place. -/
theorem rename (h : c.Holds date files) {src dst : String} {file : File} (journal : Journal)
    (valid : checkPath dst = .ok ()) (held : c.files.find? src = some file)
    (free : c.files.find? dst = none) :
    Holds { c with
      files := (c.files.erase src).insert dst { file with path := dst }
      journal := journal } date (files.map (Change.renamed src dst).move) where
  held := by
    let ch := Change.renamed src dst
    let move (e : String × File) : String × File := (ch.follow e.1, ch.move e.2)
    obtain ⟨-, hpath⟩ := (h.find?_eq_some_iff src file).mp held
    have hfree : (c.files.erase src).find? dst = none := by
      rw [Table.find?_erase, free, ite_self]
    have hself : move (src, file) = (dst, { file with path := dst }) := by
      simp [move, ch, Change.move, Change.follow, hpath]
    have hothers : (c.files.erase src).entries.map move = (c.files.erase src).entries := by
      refine (List.map_congr_left (g := id) fun e he => ?_).trans (List.map_id _)
      obtain ⟨he, hne⟩ := List.mem_filter.mp he
      obtain ⟨f, -, rfl⟩ := List.mem_map.mp (h.held.mem_iff.mp he)
      have hne : f.path ≠ src := of_decide_eq_true hne
      simp [move, ch, Change.move, Change.follow, hne]
    have hnew : ((c.files.erase src).insert dst { file with path := dst }).entries =
        ((src, file) :: (c.files.erase src).entries).map move := by
      rw [List.map_cons, hself, hothers]
      show _ :: ((c.files.erase src).erase dst).entries = _
      rw [Table.erase_eq_self hfree]
    have hperm := ((Table.perm_cons_erase held).symm.trans h.held).map move
    rw [hnew, List.map_map]
    rw [List.map_map] at hperm
    exact hperm
  numbered := by
    rw [List.map_map]
    exact h.numbered
  ordered := List.pairwise_map.mpr h.ordered
  past := List.forall_mem_map.mpr h.past
  valid := by
    refine List.forall_mem_map.mpr fun f hf => ?_
    by_cases hsrc : f.path = src
    · simpa [Change.follow, hsrc] using valid
    · simpa [Change.follow, hsrc] using h.valid f hf

theorem id_bounds (h : c.Holds date files) {file : File} (hf : file ∈ files) :
    1 ≤ file.id ∧ file.id ≤ c.files.size := by
  have hid : file.id ∈ List.range' 1 c.lastId := by
    rw [← h.numbered]
    exact List.mem_map_of_mem hf
  rw [List.mem_range'_1] at hid
  rw [h.size_eq]
  omega

/-- A number that has been given is held at one path only. -/
theorem existsUnique_path (h : c.Holds date files) {id : Nat} (hpos : 1 ≤ id)
    (hle : id ≤ c.files.size) :
    ∃! path, ∃ file, c.files.find? path = some file ∧ file.id = id := by
  have hnodup : (files.map File.id).Nodup := h.numbered ▸ List.nodup_range'
  have hid : id ∈ files.map File.id := by
    rw [h.numbered, List.mem_range'_1]
    rw [h.size_eq] at hle
    omega
  obtain ⟨file, hf, hfile⟩ := List.mem_map.mp hid
  refine ⟨file.path, ⟨file, (h.find?_eq_some_iff _ _).mpr ⟨hf, rfl⟩, hfile⟩, ?_⟩
  rintro path ⟨other, hother, hid⟩
  obtain ⟨ho, rfl⟩ := (h.find?_eq_some_iff _ _).mp hother
  rw [List.inj_on_of_nodup_map hnodup ho hf (hid.trans hfile.symm)]

/-- Each change finds its place in the register. -/
theorem change (h : c.Holds date files) {ch : Option Change} {c' : Catalog}
    (hc : Changes date c ch c') : c'.Holds date (ch.toList.foldl Change.register files) := by
  cases hc with
  | unchanged => exact h
  | created path valid free =>
    have hmove : files.map (Change.created ⟨c.lastId + 1, path, date⟩).move = files :=
      List.map_id files
    have hreg : Change.register files (.created ⟨c.lastId + 1, path, date⟩) =
        files ++ [⟨c.lastId + 1, path, date⟩] := by
      rw [Change.register, hmove]
      rfl
    show Holds _ date (Change.register files _)
    rw [hreg]
    exact h.create valid free
  | renamed src dst file journal valid held free recorded =>
    show Holds _ date (Change.register files (.renamed src dst))
    rw [Change.register, Change.created?, Option.toList_none, List.append_nil]
    exact h.rename journal valid held free

end Holds

theorem holds_run (clock : Clock) (journal : Journal) (is : List Instruction) :
    (run (clock, { journal := journal }) is).2.2.Holds
      (run (clock, { journal := journal }) is).2.1.date
      (register (run (clock, { journal := journal }) is).1) := by
  refine run_induction (P := fun date cs c => c.Holds date (register cs)) ?_ ?_ ?_ is
  · exact ⟨.nil, rfl, .nil, List.forall_mem_nil _, List.forall_mem_nil _⟩
  · intro date cs c ch c' h hc
    rw [register, List.foldl_append]
    exact h.change hc
  · exact fun _ _ _ _ hle h => h.later hle

/-- Files keep their identity. After any run each file is held under its own path, which is valid.
The numbers of the files are those from one up to the count of the files that have been created, and
each is held at one path. They have been given in order, as have the dates. A file that has been
created is held where the renames since have taken it, with the number and the date that it had. -/
theorem files_identified (clock : Clock) (journal : Journal) (is : List Instruction) :
    let r := run (clock, { journal := journal }) is
    let files := r.2.2.files
    let created := r.1.filterMap Change.created?
    (∀ path file, files.find? path = some file → file.path = path ∧
      path.toList.head? = some '/' ∧ 2 ≤ path.utf8ByteSize ∧ path.utf8ByteSize ≤ 256) ∧
    created.length = files.size ∧
    (∀ path file, files.find? path = some file → 1 ≤ file.id ∧ file.id ≤ files.size) ∧
    (∀ id, 1 ≤ id → id ≤ files.size →
      ∃! path, ∃ file, files.find? path = some file ∧ file.id = id) ∧
    created.map File.id = List.range' 1 files.size ∧
    created.Pairwise (fun file file' => file.createdAt ≤ file'.createdAt) ∧
    ∀ before after file, r.1 = before ++ .created file :: after →
      files.find? (follow after file.path) = some { file with path := follow after file.path } := by
  intro r files created
  have h : r.2.2.Holds r.2.1.date (register r.1) := holds_run clock journal is
  have hids : created.map File.id = List.range' 1 files.size := by
    rw [h.size_eq, ← h.numbered, map_register Change.id_move]
  have hdates : (register r.1).map File.createdAt = created.map File.createdAt :=
    map_register Change.createdAt_move r.1
  refine ⟨?_, ?_, ?_, ?_, hids, ?_, ?_⟩
  · intro path file hfind
    obtain ⟨hf, rfl⟩ := (h.find?_eq_some_iff path file).mp hfind
    exact ⟨rfl, (checkPath_eq_ok_iff file.path).mp (h.valid file hf)⟩
  · simpa using congrArg List.length hids
  · intro path file hfind
    exact h.id_bounds ((h.find?_eq_some_iff path file).mp hfind).1
  · exact fun id hpos hle => h.existsUnique_path hpos hle
  · have hordered := List.pairwise_map.mpr h.ordered
    rw [hdates] at hordered
    exact List.pairwise_map.mp hordered
  · intro before after file hr
    rw [h.find?_eq_some_iff, hr]
    exact ⟨mem_register before after file, rfl⟩

end AtMostOnce.Catalog
