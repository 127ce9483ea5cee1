import TransactionalPages.Proofs.Medium

/-!
# Stores as vectors of blocks

A store is asked to read, to write, to count and to allocate, and it answers. Seen
this way a store is a vector of blocks that all have the size of a page. A write
replaces one block, with blocks of zeros before it if the vector is too short, an
allocation appends a block of zeros, and a refusal changes nothing.

In memory the vector is kept as it is. In a file the blocks lie one behind the
other, and making the file longer is what appends blocks of zeros. As long as the
pages can be counted and the file is never to become longer than a file can be,
both give the answers of the vector, so that nobody can tell them apart.
-/

namespace TransactionalPages

/-- What can be asked of a store. -/
inductive StoreCall where
  | read (page : PageId)
  | write (page : Page)
  | count
  | allocate
  deriving DecidableEq, Repr

inductive StoreAnswer where
  | page (page : Page)
  | written
  | count (pages : UInt32)
  | allocated (page : PageId)
  | refused (e : StorageError)
  deriving DecidableEq, Repr

namespace StoreAnswer

def of {α : Type} (answer : α → StoreAnswer) : Except StorageError α → StoreAnswer
  | .ok found => answer found
  | .error e => refused e

/-- The store was to have more bytes than a file can have, or than can be counted in 64 bits. -/
def Overlong (answer : StoreAnswer) : Prop :=
  answer = refused (.io .lengthOutOfRange) ∨ answer = refused (.fault .sizeOutOfRange)

instance (answer : StoreAnswer) : Decidable answer.Overlong :=
  inferInstanceAs (Decidable (_ ∨ _))

end StoreAnswer

/-! ## The vector -/

structure BlockVector where
  table : TableId
  pageSize : Nat
  blocks : List Bytes

namespace BlockVector

def empty (table : TableId) (pageSize : Nat) : BlockVector := ⟨table, pageSize, []⟩

/-- At least `count` blocks, the new ones of zeros. -/
def grow (v : BlockVector) (count : Nat) : BlockVector :=
  { v with blocks := v.blocks ++ List.replicate (count - v.blocks.length) (Bytes.zeros v.pageSize) }

/-- Replaces a block of a vector that is long enough. -/
def set (v : BlockVector) (index : Nat) (data : Bytes) : BlockVector :=
  { v with blocks := v.blocks.set index data }

def serve (v : BlockVector) : StoreCall → BlockVector × StoreAnswer
  | .read page =>
    if page.table ≠ v.table then (v, .refused (.tableMismatch page v.table))
    else match v.blocks[page.index.toNat]? with
      | some data => (v, .page (.clean page data))
      | none => (v, .refused (.pageOutOfRange page (UInt32.ofNat v.blocks.length)))
  | .write page =>
    if page.id.table ≠ v.table then (v, .refused (.tableMismatch page.id v.table))
    else if page.size ≠ v.pageSize then (v, .refused (.pageSizeMismatch v.pageSize page.size))
    else ((v.grow (page.id.index.toNat + 1)).set page.id.index.toNat page.data, .written)
  | .count => (v, .count (UInt32.ofNat v.blocks.length))
  | .allocate =>
    (v.grow (v.blocks.length + 1), .allocated ⟨v.table, UInt32.ofNat v.blocks.length⟩)

/-- The number of blocks after each call. -/
def counts (v : BlockVector) : List StoreCall → List Nat
  | [] => []
  | call :: rest => (v.serve call).1.blocks.length :: counts (v.serve call).1 rest

def answers (v : BlockVector) : List StoreCall → List StoreAnswer
  | [] => []
  | call :: rest => (v.serve call).2 :: answers (v.serve call).1 rest

/-- Every block has the size of a page. -/
def Whole (v : BlockVector) : Prop := ∀ data ∈ v.blocks, data.size = v.pageSize

variable {v : BlockVector}

theorem Whole.grow (whole : v.Whole) (count : Nat) : (v.grow count).Whole := by
  intro data listed
  rcases List.mem_append.mp listed with old | new
  · exact whole data old
  · rw [List.eq_of_mem_replicate new]
    exact Bytes.size_zeros _

theorem Whole.set {index : Nat} {data : Bytes} (whole : v.Whole) (size : data.size = v.pageSize) :
    (v.set index data).Whole := by
  intro other listed
  rcases List.mem_or_eq_of_mem_set listed with old | rfl
  · exact whole other old
  · exact size

theorem pageSize_serve (v : BlockVector) (call : StoreCall) :
    (v.serve call).1.pageSize = v.pageSize := by
  cases call with
  | read page =>
    simp only [serve]
    split
    · rfl
    · split <;> rfl
  | write page =>
    simp only [serve]
    split
    · rfl
    · split <;> rfl
  | count => rfl
  | allocate => rfl

theorem length_grow (v : BlockVector) (count : Nat) :
    (v.grow count).blocks.length = max v.blocks.length count := by
  simp only [BlockVector.grow, List.length_append, List.length_replicate]
  omega

end BlockVector

/-! ## Blocks in a file -/

/-- The blocks lie one behind the other, and there is nothing behind the last of them. -/
structure ByteFile.Lays (f : ByteFile) (v : BlockVector) : Prop where
  length : f.length = v.blocks.length * v.pageSize
  short : f.length ≤ Limit.fileLength
  block : ∀ i data, v.blocks[i]? = some data → f.read (i * v.pageSize) v.pageSize = data
  past : ∀ i, f.length ≤ i → f.byte i = 0

namespace ByteFile

variable {f g : ByteFile} {v : BlockVector}

theorem lays_empty (table : TableId) (pageSize : Nat) :
    ByteFile.empty.Lays (.empty table pageSize) where
  length := (Nat.zero_mul pageSize).symm
  short := Nat.zero_le _
  block i data here := by cases here
  past i _ := rfl

theorem reach_cases (f : ByteFile) (length : Nat) :
    (∃ g, f.reach length = .ok g) ∨ f.reach length = .error (.io .lengthOutOfRange) ∨
      f.reach length = .error (.fault .sizeOutOfRange) := by
  simp only [reach, resize]
  split
  · split
    · exact Or.inr (Or.inr rfl)
    · split
      · exact Or.inr (Or.inl rfl)
      · exact Or.inl ⟨_, rfl⟩
  · exact Or.inl ⟨_, rfl⟩

/-- A file that was made longer says the same as before, and zero past the old end. -/
theorem reach_eq_ok {length : Nat} (reached : f.reach length = .ok g) :
    g.length = max f.length length ∧
    (f.length ≤ Limit.fileLength → g.length ≤ Limit.fileLength) ∧
    ((∀ i, f.length ≤ i → f.byte i = 0) → ∀ i, g.byte i = f.byte i) := by
  simp only [reach, resize] at reached
  split at reached
  next longer =>
    split at reached
    · cases reached
    · split at reached
      · cases reached
      next fits =>
        cases reached
        refine ⟨?_, fun _ => Nat.le_of_not_lt fits, fun past i => ?_⟩
        · show length = max f.length length
          omega
        · by_cases below : i < length
          · exact byte_setLength below
          · rw [byte_setLength_past (Nat.le_of_not_lt below), past i (by omega)]
  next enough =>
    cases reached
    exact ⟨by omega, id, fun _ i => rfl⟩

/-- Making a file longer by whole blocks appends blocks of zeros. -/
theorem Lays.reach {count : Nat} (lays : f.Lays v)
    (reached : f.reach (count * v.pageSize) = .ok g) : g.Lays (v.grow count) := by
  obtain ⟨longer, short, same⟩ := reach_eq_ok reached
  have same := same lays.past
  have length : g.length = max v.blocks.length count * v.pageSize := by
    rw [longer, lays.length, Nat.mul_max_mul_right]
  refine ⟨?_, short lays.short, fun i data here => ?_, fun i past => ?_⟩
  · rw [BlockVector.length_grow]
    exact length
  · have read : g.read (i * v.pageSize) v.pageSize = f.read (i * v.pageSize) v.pageSize :=
      read_congr fun j _ _ => same j
    show g.read (i * v.pageSize) v.pageSize = data
    rw [read]
    by_cases old : i < v.blocks.length
    · have before : v.blocks[i]? = some data := by
        simpa only [BlockVector.grow, List.getElem?_append_left old] using here
      exact lays.block i data before
    · have zeros : data = Bytes.zeros v.pageSize := by
        have new : data ∈ List.replicate (count - v.blocks.length) (Bytes.zeros v.pageSize) := by
          simp only [BlockVector.grow] at here
          rw [List.getElem?_append_right (Nat.le_of_not_lt old)] at here
          exact List.mem_of_getElem? here
        exact List.eq_of_mem_replicate new
      rw [zeros]
      refine read_eq_zeros fun j start _ => lays.past j ?_
      rw [lays.length]
      exact Nat.le_trans (Nat.mul_le_mul_right _ (Nat.le_of_not_lt old)) start
  · rw [same i]
    exact lays.past i (by omega)

/-- Overwriting the bytes of a block replaces this block. -/
theorem Lays.write {index : Nat} {data : Bytes} (lays : f.Lays v)
    (inside : index < v.blocks.length) (size : data.size = v.pageSize) :
    (f.write (index * v.pageSize) data).Lays (v.set index data) := by
  have ends : (index + 1) * v.pageSize ≤ f.length := by
    rw [lays.length]
    exact Nat.mul_le_mul_right _ inside
  rw [Nat.add_one_mul] at ends
  have length : (f.write (index * v.pageSize) data).length = f.length := by
    show max f.length (index * v.pageSize + data.size) = f.length
    omega
  refine ⟨?_, ?_, fun i other here => ?_, fun i past => ?_⟩
  · rw [length, lays.length]
    simp only [BlockVector.set, List.length_set]
  · rw [length]
    exact lays.short
  · show (f.write (index * v.pageSize) data).read (i * v.pageSize) v.pageSize = other
    simp only [BlockVector.set, List.getElem?_set] at here
    by_cases same : index = i
    · subst same
      rw [if_pos rfl, if_pos inside] at here
      rw [← Option.some.inj here, ← size]
      exact read_write_self f _ data
    · rw [if_neg same] at here
      have apart : i * v.pageSize + v.pageSize ≤ index * v.pageSize ∨
          index * v.pageSize + v.pageSize ≤ i * v.pageSize := by
        rw [← Nat.add_one_mul, ← Nat.add_one_mul]
        rcases Nat.lt_or_gt_of_ne same with less | more
        · exact Or.inr (Nat.mul_le_mul_right _ less)
        · exact Or.inl (Nat.mul_le_mul_right _ more)
      rw [read_write_apart (by omega)]
      exact lays.block i other here
  · rw [length] at past
    rw [byte_write, if_neg (by omega)]
    exact lays.past i past

end ByteFile

/-! ## Serving calls -/

namespace Medium

def serve (m : Medium) : StoreCall → Medium × StoreAnswer
  | .read page => (m, .of .page (m.read page))
  | .write page =>
    match m.write page with
    | .ok after => (after, .written)
    | .error e => (m, .refused e)
  | .count => (m, .of .count m.numPages)
  | .allocate => (m.allocate.1, .of .allocated m.allocate.2)

def answers (m : Medium) : List StoreCall → List StoreAnswer
  | [] => []
  | call :: rest => (m.serve call).2 :: answers (m.serve call).1 rest

def Keeps : Medium → BlockVector → Prop
  | memory s, v => s.blocks.toList = v.blocks
  | file s, v => s.file.Lays v

/-- A medium keeps the blocks of a vector, each of which has the size of a page. -/
structure Stands (m : Medium) (v : BlockVector) : Prop where
  table : m.table = v.table
  pageSize : m.pageSize = v.pageSize
  whole : v.Whole
  keeps : m.Keeps v

/-- A call is answered as by the vector, whose blocks the medium keeps before and after. What is
refused leaves the medium as it was. -/
structure Matches (m : Medium) (v : BlockVector) (call : StoreCall) : Prop where
  before : m.Stands v
  answer : (m.serve call).2 = (v.serve call).2
  refused : ∀ e, (m.serve call).2 = .refused e → (m.serve call).1 = m
  after : (m.serve call).1.Stands (v.serve call).1

/-- A medium matches a vector in each of a number of calls. -/
inductive Mirrors : Medium → BlockVector → List StoreCall → Prop where
  | nil {m : Medium} {v : BlockVector} (stands : m.Stands v) : Mirrors m v []
  | cons {m : Medium} {v : BlockVector} {call : StoreCall} {rest : List StoreCall}
      (once : m.Matches v call) (later : Mirrors (m.serve call).1 (v.serve call).1 rest) :
      Mirrors m v (call :: rest)

variable {m : Medium} {v : BlockVector}

theorem Mirrors.answers {calls : List StoreCall} (mirrors : m.Mirrors v calls) :
    m.answers calls = v.answers calls := by
  induction mirrors with
  | nil stands => rfl
  | cons once later ih => rw [Medium.answers, BlockVector.answers, once.answer, ih]

/-- A call that changes neither side is answered as soon as the answers agree. -/
theorem Stands.matches_of_same {call : StoreCall} (stands : m.Stands v)
    (medium : (m.serve call).1 = m) (vector : (v.serve call).1 = v)
    (answer : (m.serve call).2 = (v.serve call).2) : m.Matches v call where
  before := stands
  answer := answer
  refused _ _ := medium
  after := by
    rw [medium, vector]
    exact stands

theorem Stands.matches_read {page : PageId} (stands : m.Stands v)
    (answer : StoreAnswer.of .page (m.read page) = (v.serve (.read page)).2) :
    m.Matches v (.read page) := by
  refine stands.matches_of_same rfl ?_ answer
  simp only [BlockVector.serve]
  split
  · rfl
  · split <;> rfl

theorem Stands.matches_refused {new : Page} {e : StorageError} (stands : m.Stands v)
    (refused : m.write new = .error e) (answer : v.serve (.write new) = (v, .refused e)) :
    m.Matches v (.write new) := by
  have done : m.serve (.write new) = (m, .refused e) := by simp only [serve, refused]
  exact stands.matches_of_same (by rw [done]) (by rw [answer]) (by rw [done, answer])

theorem Stands.matches_written {after : Medium} {new : Page} (stands : m.Stands v)
    (wrote : m.write new = .ok after) (own : new.id.table = v.table) (size : new.size = v.pageSize)
    (kept : after.Stands ((v.grow (new.id.index.toNat + 1)).set new.id.index.toNat new.data)) :
    m.Matches v (.write new) := by
  have done : m.serve (.write new) = (after, .written) := by simp only [serve, wrote]
  have expected : v.serve (.write new) =
      ((v.grow (new.id.index.toNat + 1)).set new.id.index.toNat new.data, .written) := by
    simp only [BlockVector.serve, own, size, ne_eq, not_true_eq_false, if_false]
  refine ⟨stands, by rw [done, expected], fun e refused => ?_, by rw [done, expected]; exact kept⟩
  rw [done] at refused
  cases refused

theorem Stands.matches_allocated {after : Medium} (stands : m.Stands v)
    (done : m.serve .allocate = (after, .allocated ⟨v.table, UInt32.ofNat v.blocks.length⟩))
    (kept : after.Stands (v.grow (v.blocks.length + 1))) : m.Matches v .allocate := by
  refine ⟨stands, by rw [done]; rfl, fun e refused => ?_, by rw [done]; exact kept⟩
  rw [done] at refused
  cases refused

theorem write_foreign {new : Page} (foreign : new.id.table ≠ m.table) :
    m.write new = .error (.tableMismatch new.id m.table) := by
  cases m with
  | memory s => exact congrArg (Except.map memory) (if_pos foreign)
  | file s => exact congrArg (Except.map file) (if_pos foreign)
  | foreign s => exact s.elim

theorem write_misfit {new : Page} (own : new.id.table = m.table) (other : new.size ≠ m.pageSize) :
    m.write new = .error (.pageSizeMismatch m.pageSize new.size) := by
  have home : ¬new.id.table ≠ m.table := fun foreign => foreign own
  cases m with
  | memory s => exact congrArg (Except.map memory) ((if_neg home).trans (if_pos other))
  | file s => exact congrArg (Except.map file) ((if_neg home).trans (if_pos other))
  | foreign s => exact s.elim

/-- On either medium a page is looked at before it is written: first its table, then its size. -/
theorem Stands.matches_write {new : Page} (stands : m.Stands v)
    (written : new.id.table = v.table → new.size = v.pageSize → m.Matches v (.write new)) :
    m.Matches v (.write new) := by
  by_cases own : new.id.table = v.table
  · by_cases size : new.size = v.pageSize
    · exact written own size
    · have refused := write_misfit (own.trans stands.table.symm) (stands.pageSize ▸ size)
      rw [stands.pageSize] at refused
      exact stands.matches_refused refused (by simp [BlockVector.serve, own, size])
  · have refused := write_foreign (stands.table ▸ own)
    rw [stands.table] at refused
    exact stands.matches_refused refused (by simp [BlockVector.serve, own])

/-! ### In memory -/

section

variable {s : MemoryStore}

theorem Stands.memory_get? (stands : (memory s).Stands v) (i : Nat) :
    s.blocks[i]? = v.blocks[i]? := by
  have same : s.blocks.toList = v.blocks := stands.keeps
  rw [← same, Array.getElem?_toList]

theorem Stands.memory_size (stands : (memory s).Stands v) : s.blocks.size = v.blocks.length := by
  have same : s.blocks.toList = v.blocks := stands.keeps
  rw [← same, Array.length_toList]

theorem Stands.memory_grow (stands : (memory s).Stands v) (count : Nat) :
    (memory (s.grow count)).Stands (v.grow count) where
  table := stands.table
  pageSize := stands.pageSize
  whole := stands.whole.grow count
  keeps := by
    have same : s.blocks.toList = v.blocks := stands.keeps
    have size : s.pageSize = v.pageSize := stands.pageSize
    show (s.blocks ++ Array.replicate _ _).toList = v.blocks ++ List.replicate _ _
    rw [Array.toList_append, Array.toList_replicate, same, stands.memory_size, size]

theorem Stands.memory_set {index : Nat} {data : Bytes} (stands : (memory s).Stands v)
    (size : data.size = v.pageSize) :
    (memory { s with blocks := s.blocks.setIfInBounds index data }).Stands (v.set index data) where
  table := stands.table
  pageSize := stands.pageSize
  whole := stands.whole.set size
  keeps := by
    have same : s.blocks.toList = v.blocks := stands.keeps
    show (s.blocks.setIfInBounds index data).toList = v.blocks.set index data
    rw [Array.toList_setIfInBounds, same]

/-- In memory a call matches unless it brings more blocks than can be counted or filled. -/
theorem Stands.matches_memory {call : StoreCall} (stands : (memory s).Stands v)
    (few : (v.serve call).1.blocks.length < 4294967296)
    (short : (v.serve call).1.blocks.length * v.pageSize ≤ Limit.fileLength) :
    (memory s).Matches v call := by
  have table : s.table = v.table := stands.table
  have pageSize : s.pageSize = v.pageSize := stands.pageSize
  cases call with
  | read page =>
    refine stands.matches_read ?_
    show StoreAnswer.of .page (s.read page) = _
    simp only [MemoryStore.read, BlockVector.serve, table, stands.memory_get?]
    split
    · rfl
    · cases v.blocks[page.index.toNat]? with
      | some data => rfl
      | none => simp only [MemoryStore.numPages, stands.memory_size, StoreAnswer.of]
  | write new =>
    refine stands.matches_write fun own size => ?_
    have wrote : (memory s).write new = .ok (memory { s.grow (new.id.index.toNat + 1) with
        blocks := (s.grow (new.id.index.toNat + 1)).blocks.setIfInBounds new.id.index.toNat
          new.data }) := by
      simp [write, MemoryStore.write, table, own, pageSize, size, Except.map]
    exact stands.matches_written wrote own size ((stands.memory_grow _).memory_set size)
  | count =>
    refine stands.matches_of_same rfl rfl ?_
    show StoreAnswer.count (UInt32.ofNat s.blocks.size) = .count (UInt32.ofNat v.blocks.length)
    rw [stands.memory_size]
  | allocate =>
    have grown : (v.serve .allocate).1.blocks.length = v.blocks.length + 1 := by
      show (v.grow (v.blocks.length + 1)).blocks.length = v.blocks.length + 1
      rw [BlockVector.length_grow]
      omega
    rw [grown] at few short
    have fits : s.pageSize ≤ Limit.block := by
      rw [pageSize]
      exact Nat.le_trans (Nat.le_mul_of_pos_left _ (Nat.succ_pos _)) short
    have allocated : s.allocate =
        (s.grow (v.blocks.length + 1), .ok ⟨v.table, UInt32.ofNat v.blocks.length⟩) := by
      have size := stands.memory_size
      rw [MemoryStore.allocate_eq fits (by omega), size, table]
    refine stands.matches_allocated ?_ (stands.memory_grow _)
    simp only [serve, allocate, allocated, StoreAnswer.of]

end

/-! ### In a file -/

section

variable {s : FileStore}

theorem Stands.file_relaid {file : ByteFile} {w : BlockVector} (stands : (Medium.file s).Stands v)
    (table : w.table = v.table) (pageSize : w.pageSize = v.pageSize) (whole : w.Whole)
    (lays : file.Lays w) : (Medium.file { s with file := file }).Stands w where
  table := Eq.trans stands.table table.symm
  pageSize := Eq.trans stands.pageSize pageSize.symm
  whole := whole
  keeps := lays

theorem Stands.file_counted (stands : (file s).Stands v) (positive : 0 < v.pageSize) :
    s.numPages = .ok (UInt32.ofNat v.blocks.length) := by
  have pageSize : s.pageSize = v.pageSize := stands.pageSize
  have lays : s.file.Lays v := stands.keeps
  simp only [FileStore.numPages, pageSize, lays.length]
  rw [if_neg (Nat.ne_of_gt positive), Nat.mul_div_cancel _ positive]

theorem Stands.file_read (stands : (file s).Stands v) (positive : 0 < v.pageSize)
    (few : v.blocks.length < 4294967296) (page : PageId) :
    StoreAnswer.of .page (s.read page) = (v.serve (.read page)).2 := by
  have table : s.table = v.table := stands.table
  have pageSize : s.pageSize = v.pageSize := stands.pageSize
  have lays : s.file.Lays v := stands.keeps
  have counted : s.numPages = .ok (UInt32.ofNat v.blocks.length) := stands.file_counted positive
  have past : UInt32.ofNat v.blocks.length ≤ page.index ↔
      v.blocks.length ≤ page.index.toNat := by
    rw [UInt32.le_iff_toNat_le, UInt32.toNat_ofNat', Nat.mod_eq_of_lt few]
  simp only [FileStore.read, BlockVector.serve, table, counted, past]
  split
  · rfl
  · by_cases inside : page.index.toNat < v.blocks.length
    · have here := List.getElem?_eq_getElem inside
      have block := lays.block _ _ here
      rw [if_neg (Nat.not_le.mpr inside), here]
      simp only [FileStore.offset, pageSize, block, StoreAnswer.of]
    · have none := List.getElem?_eq_none (Nat.le_of_not_lt inside)
      rw [if_pos (Nat.le_of_not_lt inside), none]
      rfl

theorem Stands.file_write {new : Page} (stands : (file s).Stands v)
    (own : new.id.table = v.table) (size : new.size = v.pageSize)
    (quiet : ¬((file s).serve (.write new)).2.Overlong) : (file s).Matches v (.write new) := by
  have table : s.table = v.table := stands.table
  have pageSize : s.pageSize = v.pageSize := stands.pageSize
  have lays : s.file.Lays v := stands.keeps
  have place : s.offset new.id.index = new.id.index.toNat * v.pageSize := by
    rw [FileStore.offset, pageSize]
  have wrote : ∀ result, s.file.reach ((new.id.index.toNat + 1) * v.pageSize) = result →
      (file s).write new = result.map fun longer =>
        file { s with file := longer.write (new.id.index.toNat * v.pageSize) new.data } := by
    intro result reached
    rw [Nat.add_one_mul] at reached
    simp only [write, FileStore.write, table, own, pageSize, size, ne_eq, not_true_eq_false,
      if_false, place, reached]
    cases result <;> rfl
  rcases s.file.reach_cases ((new.id.index.toNat + 1) * v.pageSize) with
    ⟨longer, reached⟩ | long | long
  · have inside : new.id.index.toNat < (v.grow (new.id.index.toNat + 1)).blocks.length := by
      rw [BlockVector.length_grow]
      omega
    refine stands.matches_written (wrote _ reached) own size (stands.file_relaid rfl rfl ?_ ?_)
    · exact (stands.whole.grow _).set size
    · exact (lays.reach reached).write inside size
  · refine absurd (Or.inl ?_) quiet
    simp only [serve, wrote _ long, Except.map]
  · refine absurd (Or.inr ?_) quiet
    simp only [serve, wrote _ long, Except.map]

theorem Stands.file_allocate (stands : (file s).Stands v) (positive : 0 < v.pageSize)
    (few : v.blocks.length < 4294967295) (quiet : ¬((file s).serve .allocate).2.Overlong) :
    (file s).Matches v .allocate := by
  have table : s.table = v.table := stands.table
  have pageSize : s.pageSize = v.pageSize := stands.pageSize
  have lays : s.file.Lays v := stands.keeps
  have longer : s.file.length < (v.blocks.length + 1) * v.pageSize := by
    rw [lays.length]
    exact Nat.mul_lt_mul_of_pos_right (Nat.lt_succ_self _) positive
  have resized : s.file.reach ((v.blocks.length + 1) * v.pageSize) =
      s.file.resize ((v.blocks.length + 1) * s.pageSize) := by
    rw [ByteFile.reach, if_pos longer, pageSize]
  have allocated := FileStore.allocate_eq (stands.file_counted positive) few
  rcases s.file.reach_cases ((v.blocks.length + 1) * v.pageSize) with
    ⟨file, reached⟩ | long | long
  · rw [← resized, reached] at allocated
    refine stands.matches_allocated ?_ (stands.file_relaid rfl rfl (stands.whole.grow _)
      (lays.reach reached))
    simp only [serve, allocate, allocated, StoreAnswer.of, table]
  · rw [← resized, long] at allocated
    refine absurd (Or.inl ?_) quiet
    simp only [serve, allocate, allocated, StoreAnswer.of]
  · rw [← resized, long] at allocated
    refine absurd (Or.inr ?_) quiet
    simp only [serve, allocate, allocated, StoreAnswer.of]

/-- In a file a call matches unless it brings more blocks than can be counted, or the file would
become longer than a file can be. -/
theorem Stands.matches_file {call : StoreCall} (stands : (file s).Stands v)
    (positive : 0 < v.pageSize) (now : v.blocks.length < 4294967296)
    (few : (v.serve call).1.blocks.length < 4294967296)
    (quiet : ¬((file s).serve call).2.Overlong) : (file s).Matches v call := by
  cases call with
  | read page => exact stands.matches_read (stands.file_read positive now page)
  | write new => exact stands.matches_write fun own size => stands.file_write own size quiet
  | count =>
    refine stands.matches_of_same rfl rfl ?_
    show StoreAnswer.of .count s.numPages = .count (UInt32.ofNat v.blocks.length)
    rw [stands.file_counted positive]
    rfl
  | allocate =>
    have grown : (v.grow (v.blocks.length + 1)).blocks.length < 4294967296 := few
    rw [BlockVector.length_grow] at grown
    exact stands.file_allocate positive (by omega) quiet

end

/-! ### Both side by side -/

theorem serve_cases (m : Medium) (call : StoreCall) :
    (m.serve call).1 = m ∨ (∃ new, m.write new = .ok (m.serve call).1) ∨
      (m.serve call).1 = m.allocate.1 := by
  cases call with
  | read page => exact Or.inl rfl
  | write new =>
    simp only [serve]
    cases wrote : m.write new with
    | ok after => exact Or.inr (Or.inl ⟨new, wrote⟩)
    | error e => exact Or.inl rfl
  | count => exact Or.inl rfl
  | allocate => exact Or.inr (Or.inr rfl)

theorem serve_memory (s : MemoryStore) (call : StoreCall) :
    ∃ next, ((memory s).serve call).1 = memory next := by
  rcases (memory s).serve_cases call with same | ⟨new, wrote⟩ | allocated
  · exact ⟨s, same⟩
  · obtain ⟨next, _, there⟩ := write_memory wrote
    exact ⟨next, there⟩
  · exact ⟨_, allocated⟩

theorem serve_file (s : FileStore) (call : StoreCall) :
    ∃ next, ((file s).serve call).1 = file next := by
  rcases (file s).serve_cases call with same | ⟨new, wrote⟩ | allocated
  · exact ⟨s, same⟩
  · obtain ⟨next, _, there⟩ := write_file wrote
    exact ⟨next, there⟩
  · exact ⟨_, allocated⟩

theorem mirrors_both {s : MemoryStore} {f : FileStore} (kept : (memory s).Stands v)
    (laid : (file f).Stands v) (positive : 0 < v.pageSize) (now : v.blocks.length < 4294967296)
    (calls : List StoreCall) (few : ∀ count ∈ v.counts calls, count < 4294967296)
    (quiet : ∀ answer ∈ (file f).answers calls, ¬answer.Overlong) :
    (memory s).Mirrors v calls ∧ (file f).Mirrors v calls := by
  induction calls generalizing s f v with
  | nil => exact ⟨.nil kept, .nil laid⟩
  | cons call rest ih =>
    rw [BlockVector.counts, List.forall_mem_cons] at few
    rw [Medium.answers, List.forall_mem_cons] at quiet
    have onFile := laid.matches_file positive now few.1 quiet.1
    have same : (v.serve call).1.pageSize = v.pageSize := v.pageSize_serve call
    -- the file has the blocks, so that they are no more than a block of memory can have
    have short : (v.serve call).1.blocks.length * v.pageSize ≤ Limit.fileLength := by
      obtain ⟨next, served⟩ := serve_file f call
      have after := onFile.after
      rw [served] at after
      have lays : next.file.Lays (v.serve call).1 := after.keeps
      rw [← same, ← lays.length]
      exact lays.short
    have inMemory := kept.matches_memory few.1 short
    obtain ⟨next, served⟩ := serve_memory s call
    obtain ⟨other, servedFile⟩ := serve_file f call
    have keptAfter := inMemory.after
    have laidAfter := onFile.after
    rw [served] at keptAfter
    rw [servedFile] at laidAfter quiet
    rw [← same] at positive
    obtain ⟨laterMemory, laterFile⟩ := ih keptAfter laidAfter positive few.1 few.2 quiet.2
    exact ⟨.cons inMemory (served ▸ laterMemory), .cons onFile (servedFile ▸ laterFile)⟩

/-- Started without pages, a store in memory and a store in a file mirror the same vector of blocks
and so give the same answers, as long as the pages can be counted in 32 bits and the file is never
to become longer than a file can be. -/
theorem stores_answer_alike (table : TableId) (pageSize : Nat) (positive : 0 < pageSize)
    (calls : List StoreCall)
    (few : ∀ count ∈ (BlockVector.empty table pageSize).counts calls, count < 4294967296)
    (quiet : ∀ answer ∈ (file (.create table pageSize)).answers calls, ¬answer.Overlong) :
    (memory (.empty table pageSize)).answers calls = (file (.create table pageSize)).answers calls ∧
    (memory (.empty table pageSize)).Mirrors (.empty table pageSize) calls ∧
    (file (.create table pageSize)).Mirrors (.empty table pageSize) calls := by
  have whole : (BlockVector.empty table pageSize).Whole := fun data listed => by cases listed
  have kept : (memory (.empty table pageSize)).Stands (.empty table pageSize) :=
    ⟨rfl, rfl, whole, rfl⟩
  have laid : (file (.create table pageSize)).Stands (.empty table pageSize) :=
    ⟨rfl, rfl, whole, ByteFile.lays_empty table pageSize⟩
  obtain ⟨inMemory, onFile⟩ :=
    mirrors_both kept laid positive (Nat.succ_pos 4294967295) calls few quiet
  exact ⟨inMemory.answers.trans onFile.answers.symm, inMemory, onFile⟩

/-- A page is written past the end, the next page is allocated behind it, and the gap before it
reads as zeros. A foreign page, a page of another size and a page past the end are refused. -/
theorem gap_reads_alike :
    let calls : List StoreCall := [.write (.clean ⟨⟨7⟩, 2⟩ #[1, 2]), .allocate, .read ⟨⟨7⟩, 1⟩,
      .write (.clean ⟨⟨7⟩, 0⟩ #[3]), .read ⟨⟨8⟩, 0⟩, .read ⟨⟨7⟩, 4⟩, .read ⟨⟨7⟩, 2⟩]
    (∀ count ∈ (BlockVector.empty ⟨7⟩ 2).counts calls, count < 4294967296) ∧
    (∀ answer ∈ (file (.create ⟨7⟩ 2)).answers calls, ¬answer.Overlong) ∧
    (memory (.empty ⟨7⟩ 2)).answers calls = (file (.create ⟨7⟩ 2)).answers calls ∧
    (file (.create ⟨7⟩ 2)).answers calls = [.written, .allocated ⟨⟨7⟩, 3⟩,
      .page (.clean ⟨⟨7⟩, 1⟩ #[0, 0]), .refused (.pageSizeMismatch 2 1),
      .refused (.tableMismatch ⟨⟨8⟩, 0⟩ ⟨7⟩), .refused (.pageOutOfRange ⟨⟨7⟩, 4⟩ 4),
      .page (.clean ⟨⟨7⟩, 2⟩ #[1, 2])] := by
  intro calls
  have few : ∀ count ∈ (BlockVector.empty ⟨7⟩ 2).counts calls, count < 4294967296 := by decide
  have quiet : ∀ answer ∈ (file (.create ⟨7⟩ 2)).answers calls, ¬answer.Overlong := by decide
  obtain ⟨same, _, onFile⟩ := stores_answer_alike ⟨7⟩ 2 (by decide) calls few quiet
  exact ⟨few, quiet, same, onFile.answers⟩

end Medium

end TransactionalPages
