import TransactionalPages.Proofs.ByteFile
import TransactionalPages.Store

/-!
# What a medium keeps

A page that can be read keeps its bytes until it is written again. Writing such a
page changes no other page and leaves the end of the medium where it is; pages
are allocated behind all others.
-/

namespace TransactionalPages

theorem toNat_lt_of_lt_ofNat {i : UInt32} {n : Nat} (below : i < UInt32.ofNat n) : i.toNat < n := by
  have bound : i.toNat < (UInt32.ofNat n).toNat := below
  rw [UInt32.toNat_ofNat'] at bound
  exact Nat.lt_of_lt_of_le bound (Nat.mod_le ..)

theorem index_ne {p q : PageId} (table : p.table = q.table) (differ : p ≠ q) :
    p.index.toNat ≠ q.index.toNat := by
  intro same
  apply differ
  obtain ⟨t, i⟩ := p
  obtain ⟨u, j⟩ := q
  have index : i = j := UInt32.toNat_inj.mp same
  have tables : t = u := table
  rw [index, tables]

/-! ## In memory -/

namespace MemoryStore

variable {s after : MemoryStore} {page : PageId} {p : Page}

theorem read_eq_ok : s.read page = .ok p ↔
    page.table = s.table ∧
      ∃ data, s.blocks[page.index.toNat]? = some data ∧ p = .clean page data := by
  simp only [read]
  by_cases table : page.table = s.table
  · rw [if_neg (by simpa using table)]
    cases found : s.blocks[page.index.toNat]? with
    | none => simp
    | some data => simp [table, eq_comm]
  · rw [if_pos table]
    simp [table]

theorem grow_of_le {count : Nat} (long : count ≤ s.blocks.size) : s.grow count = s := by
  simp [grow, Nat.sub_eq_zero_of_le long]

theorem write_eq_ok {new : Page} (readable : s.read new.id = .ok p)
    (wrote : s.write new = .ok after) :
    new.size = s.pageSize ∧
      after = { s with blocks := s.blocks.setIfInBounds new.id.index.toNat new.data } := by
  obtain ⟨table, data, found, _⟩ := read_eq_ok.mp readable
  have inside : new.id.index.toNat < s.blocks.size := (Array.getElem?_eq_some_iff.mp found).1
  simp only [write] at wrote
  rw [if_neg (by simpa using table)] at wrote
  split at wrote
  · cases wrote
  next size =>
    rw [grow_of_le inside] at wrote
    exact ⟨by simpa using size, (Except.ok.inj wrote).symm⟩

theorem read_write {new : Page} (readable : s.read new.id = .ok p)
    (wrote : s.write new = .ok after) (q : PageId) :
    after.read q = if q = new.id then .ok (.clean q new.data) else s.read q := by
  obtain ⟨table, data, found, _⟩ := read_eq_ok.mp readable
  have inside : new.id.index.toNat < s.blocks.size := (Array.getElem?_eq_some_iff.mp found).1
  obtain ⟨_, rfl⟩ := write_eq_ok readable wrote
  by_cases same : q = new.id
  · rw [if_pos same, read_eq_ok]
    subst same
    exact ⟨table, new.data, by simp [inside], rfl⟩
  · rw [if_neg same]
    simp only [read]
    by_cases belongs : q.table = s.table
    · have apart := index_ne (table.trans belongs.symm) (Ne.symm same)
      simp [numPages, apart]
    · rw [if_pos belongs, if_pos belongs]

theorem allocate_blocks (s : MemoryStore) :
    s.allocate.1 = s ∨
      s.allocate.1 = { s with blocks := s.blocks.push (Bytes.zeros s.pageSize) } := by
  simp only [allocate]
  split
  · exact Or.inl rfl
  · right
    have grown : s.grow (s.blocks.size + 1) =
        { s with blocks := s.blocks.push (Bytes.zeros s.pageSize) } := by
      simp [grow]
    simp only [grown]
    split <;> rfl

/-- An allocation goes well as long as a page is not too long and the pages can be counted. -/
theorem allocate_eq (fits : s.pageSize ≤ Limit.block) (few : s.blocks.size < 4294967295) :
    s.allocate = (s.grow (s.blocks.size + 1), .ok ⟨s.table, UInt32.ofNat s.blocks.size⟩) := by
  have size : (s.grow (s.blocks.size + 1)).numPages = UInt32.ofNat (s.blocks.size + 1) := by
    simp [grow, numPages]
  have counted : ¬UInt32.ofNat (s.blocks.size + 1) = 0 := by
    intro none
    have none := congrArg UInt32.toNat none
    rw [UInt32.toNat_ofNat', UInt32.toNat_zero] at none
    omega
  have last : UInt32.ofNat (s.blocks.size + 1) - 1 = UInt32.ofNat s.blocks.size := by
    apply UInt32.toNat_inj.mp
    rw [UInt32.toNat_sub, UInt32.toNat_ofNat', UInt32.toNat_ofNat', UInt32.toNat_one]
    omega
  simp only [allocate]
  rw [if_neg (Nat.not_lt.mpr fits), size, if_neg counted, last]

/-- A page that can be read still can after an allocation. The one page more is blank. -/
theorem read_allocate (s : MemoryStore) (q : PageId) :
    (∀ p, s.read q = .ok p → s.allocate.1.read q = .ok p) ∧
    (∀ p, s.allocate.1.read q = .ok p →
      s.read q = .ok p ∨
        (q.index.toNat = s.blocks.size ∧ p = .clean q (Bytes.zeros s.pageSize))) := by
  rcases s.allocate_blocks with same | grown
  · rw [same]
    exact ⟨fun p h => h, fun p h => Or.inl h⟩
  · rw [grown]
    constructor
    · intro p readable
      obtain ⟨table, data, found, rfl⟩ := read_eq_ok.mp readable
      have inside : q.index.toNat < s.blocks.size := (Array.getElem?_eq_some_iff.mp found).1
      exact read_eq_ok.mpr ⟨table, data, by
        rw [Array.getElem?_push_lt inside]
        exact (Array.getElem?_eq_getElem inside).symm.trans found, rfl⟩
    · intro p readable
      obtain ⟨table, data, found, rfl⟩ := read_eq_ok.mp readable
      rw [Array.getElem?_push] at found
      split at found
      next last => exact Or.inr ⟨last, by rw [Option.some.inj found]⟩
      next => exact Or.inl (read_eq_ok.mpr ⟨table, data, found, rfl⟩)

theorem write_of_readable {new : Page} (readable : s.read new.id = .ok p)
    (size : new.size = s.pageSize) : ∃ after, s.write new = .ok after := by
  obtain ⟨table, _, _⟩ := read_eq_ok.mp readable
  simp only [write]
  rw [if_neg (by simpa using table), if_neg (by simpa using size)]
  exact ⟨_, rfl⟩

end MemoryStore

/-! ## In a file -/

namespace FileStore

variable {s after : FileStore} {page : PageId} {p : Page}

theorem numPages_eq_ok {count : UInt32} (counted : s.numPages = .ok count) :
    0 < s.pageSize ∧ count = UInt32.ofNat (s.file.length / s.pageSize) := by
  simp only [numPages] at counted
  split at counted
  · cases counted
  next positive => exact ⟨Nat.pos_of_ne_zero positive, (Except.ok.inj counted).symm⟩

theorem read_eq_ok : s.read page = .ok p ↔
    page.table = s.table ∧ 0 < s.pageSize ∧
      page.index < UInt32.ofNat (s.file.length / s.pageSize) ∧
      p = .clean page (s.file.read (s.offset page.index) s.pageSize) := by
  simp only [read, numPages]
  by_cases table : page.table = s.table
  · rw [if_neg (by simpa using table)]
    by_cases empty : s.pageSize = 0
    · simp [empty]
    · rw [if_neg empty]
      by_cases inside : page.index < UInt32.ofNat (s.file.length / s.pageSize)
      · simp [table, Nat.pos_of_ne_zero empty, UInt32.not_le.mpr inside, inside, eq_comm]
      · simp [UInt32.not_lt.mp inside, inside]
  · rw [if_pos table]
    simp [table]

/-- A page that can be read ends where the file does, or before. -/
theorem offset_le_length (readable : s.read page = .ok p) :
    s.offset page.index + s.pageSize ≤ s.file.length := by
  obtain ⟨_, positive, inside, _⟩ := read_eq_ok.mp readable
  have whole : (page.index.toNat + 1) * s.pageSize ≤ s.file.length :=
    (Nat.le_div_iff_mul_le positive).mp (toNat_lt_of_lt_ofNat inside)
  rw [Nat.add_one_mul] at whole
  exact whole

theorem offset_apart {i j : UInt32} (differ : i.toNat ≠ j.toNat) :
    s.offset i + s.pageSize ≤ s.offset j ∨ s.offset j + s.pageSize ≤ s.offset i := by
  simp only [offset]
  rcases Nat.lt_or_gt_of_ne differ with less | more
  · left
    rw [← Nat.add_one_mul]
    exact Nat.mul_le_mul_right _ less
  · right
    rw [← Nat.add_one_mul]
    exact Nat.mul_le_mul_right _ more

theorem write_eq_ok {new : Page} (readable : s.read new.id = .ok p)
    (wrote : s.write new = .ok after) :
    new.size = s.pageSize ∧
      after = { s with file := s.file.write (s.offset new.id.index) new.data } := by
  obtain ⟨table, _, _, _⟩ := read_eq_ok.mp readable
  have inside := offset_le_length readable
  simp only [write] at wrote
  rw [if_neg (by simpa using table)] at wrote
  split at wrote
  · cases wrote
  next size =>
    have size : new.size = s.pageSize := by simpa using size
    have reached : s.file.reach (s.offset new.id.index + new.size) = .ok s.file := by
      simp only [ByteFile.reach]
      rw [if_neg (by omega)]
    rw [reached] at wrote
    exact ⟨size, (Except.ok.inj wrote).symm⟩

theorem length_write {new : Page} (readable : s.read new.id = .ok p)
    (wrote : s.write new = .ok after) : after.file.length = s.file.length := by
  have inside := offset_le_length readable
  obtain ⟨size, rfl⟩ := write_eq_ok readable wrote
  have data : new.data.size = s.pageSize := size
  show max s.file.length (s.offset new.id.index + new.data.size) = s.file.length
  omega

theorem read_congr {file : ByteFile} (length : file.length = s.file.length)
    (bytes : file.read (s.offset page.index) s.pageSize =
      s.file.read (s.offset page.index) s.pageSize) :
    ({ s with file := file } : FileStore).read page = s.read page := by
  simp only [read, numPages]
  simp only [offset] at bytes ⊢
  simp only [length, bytes]

theorem read_write {new : Page} (readable : s.read new.id = .ok p)
    (wrote : s.write new = .ok after) (q : PageId) :
    after.read q = if q = new.id then .ok (.clean q new.data) else s.read q := by
  have length := length_write readable wrote
  obtain ⟨table, positive, inside, _⟩ := read_eq_ok.mp readable
  obtain ⟨size, rfl⟩ := write_eq_ok readable wrote
  have data : new.data.size = s.pageSize := size
  by_cases same : q = new.id
  · rw [if_pos same, read_eq_ok]
    subst same
    refine ⟨table, positive, by rw [length]; exact inside, ?_⟩
    show Page.clean new.id new.data = .clean new.id
      ((s.file.write (s.offset new.id.index) new.data).read (s.offset new.id.index) s.pageSize)
    rw [← data, ByteFile.read_write_self]
  · rw [if_neg same]
    by_cases belongs : q.table = s.table
    · have apart := offset_apart (s := s) (index_ne (table.trans belongs.symm) (Ne.symm same))
      exact read_congr length (ByteFile.read_write_apart (by omega))
    · simp only [read]
      rw [if_pos belongs, if_pos belongs]

/-- The pages of the file can be counted in 32 bits. -/
def Countable (s : FileStore) : Prop := s.file.length / s.pageSize ≤ 4294967295

theorem allocate_file (s : FileStore) :
    s.allocate.1 = s ∨
      ∃ count, s.numPages = .ok count ∧ count ≠ maxPages ∧
        s.allocate.1 = { s with file := s.file.setLength (s.offset (count + 1)) } ∧
        s.allocate.2 = .ok ⟨s.table, count⟩ := by
  simp only [allocate]
  cases counted : s.numPages with
  | error e => exact Or.inl rfl
  | ok count =>
    by_cases many : count = maxPages
    · exact Or.inl (by simp [many])
    · simp only [if_neg many]
      cases resized : s.file.resize (s.offset (count + 1)) with
      | error e => exact Or.inl rfl
      | ok file =>
        exact Or.inr ⟨count, rfl, many, by rw [ByteFile.resize_eq_ok resized], rfl⟩

theorem offset_next {count : UInt32} (few : count ≠ maxPages) :
    s.offset (count + 1) = (count.toNat + 1) * s.pageSize := by
  have bound := count.toNat_lt
  have different : count.toNat ≠ 4294967295 := fun same => few (UInt32.toNat_inj.mp same)
  simp only [offset]
  rw [UInt32.toNat_add, UInt32.toNat_one, Nat.mod_eq_of_lt (by omega)]

/-- An allocation goes well as long as the pages can be counted and the file can be that long. -/
theorem allocate_eq {n : Nat} (counted : s.numPages = .ok (UInt32.ofNat n))
    (few : n < 4294967295) : s.allocate =
      match s.file.resize ((n + 1) * s.pageSize) with
      | .error e => (s, .error e)
      | .ok file => ({ s with file := file }, .ok ⟨s.table, UInt32.ofNat n⟩) := by
  have count : (UInt32.ofNat n).toNat = n := by
    rw [UInt32.toNat_ofNat', Nat.mod_eq_of_lt (by omega)]
  have notMany : ¬UInt32.ofNat n = maxPages := by
    intro many
    have many := congrArg UInt32.toNat many
    rw [count, show maxPages.toNat = 4294967295 from rfl] at many
    omega
  have asked : s.offset (UInt32.ofNat n + 1) = (n + 1) * s.pageSize := by
    rw [offset_next notMany, count]
  cases resized : s.file.resize ((n + 1) * s.pageSize) with
  | error e => simp only [allocate, counted, if_neg notMany, asked, resized]
  | ok file => simp only [allocate, counted, if_neg notMany, asked, resized]

theorem count_toNat (countable : s.Countable) :
    (UInt32.ofNat (s.file.length / s.pageSize)).toNat = s.file.length / s.pageSize := by
  simp only [Countable] at countable
  rw [UInt32.toNat_ofNat', Nat.mod_eq_of_lt (by omega)]

/-- An allocation makes the file one page longer or leaves it alone. -/
theorem allocate_extent (countable : s.Countable) :
    s.allocate.1 = s ∨
      (0 < s.pageSize ∧ s.file.length / s.pageSize < 4294967295 ∧
        s.allocate.1 = { s with
          file := s.file.setLength ((s.file.length / s.pageSize + 1) * s.pageSize) }) := by
  rcases s.allocate_file with same | ⟨count, counted, few, grown, _⟩
  · exact Or.inl same
  · obtain ⟨positive, rfl⟩ := numPages_eq_ok counted
    have exact_count := count_toNat countable
    rw [offset_next few, exact_count] at grown
    have different : s.file.length / s.pageSize ≠ 4294967295 := fun many =>
      few (UInt32.toNat_inj.mp (exact_count.trans many))
    simp only [Countable] at countable
    exact Or.inr ⟨positive, by omega, grown⟩

theorem countable_allocate (countable : s.Countable) : s.allocate.1.Countable := by
  rcases allocate_extent countable with same | ⟨positive, few, grown⟩
  · rwa [same]
  · rw [grown]
    show (s.file.length / s.pageSize + 1) * s.pageSize / s.pageSize ≤ 4294967295
    rw [Nat.mul_div_cancel _ positive]
    exact few

/-- Pages that cannot be counted in 32 bits cannot be read either, so that a file which is cut by
an allocation loses no page that could be read. -/
theorem read_allocate (readable : s.read page = .ok p) : s.allocate.1.read page = .ok p := by
  rcases s.allocate_file with same | ⟨count, counted, few, grown, _⟩
  · rwa [same]
  · obtain ⟨positive, total⟩ := numPages_eq_ok counted
    obtain ⟨table, _, inside, rfl⟩ := read_eq_ok.mp readable
    rw [← total] at inside
    have index : page.index.toNat < count.toNat := inside
    have different : count.toNat ≠ 4294967295 := fun same => few (UInt32.toNat_inj.mp same)
    have bound := count.toNat_lt
    rw [grown, offset_next few, read_eq_ok]
    refine ⟨table, positive, ?_, ?_⟩
    · show page.index < UInt32.ofNat ((count.toNat + 1) * s.pageSize / s.pageSize)
      rw [Nat.mul_div_cancel _ positive, UInt32.lt_iff_toNat_lt, UInt32.toNat_ofNat',
        Nat.mod_eq_of_lt (by omega)]
      omega
    · show Page.clean page _ = .clean page (ByteFile.read _ (s.offset page.index) s.pageSize)
      rw [ByteFile.read_setLength]
      simp only [offset]
      rw [← Nat.add_one_mul]
      exact Nat.mul_le_mul_right _ (by omega)

theorem write_of_readable {new : Page} (readable : s.read new.id = .ok p)
    (size : new.size = s.pageSize) : ∃ after, s.write new = .ok after := by
  obtain ⟨table, _, _, _⟩ := read_eq_ok.mp readable
  have inside := offset_le_length readable
  have reached : s.file.reach (s.offset new.id.index + new.size) = .ok s.file := by
    simp only [ByteFile.reach]
    rw [if_neg (by omega)]
  simp only [write]
  rw [if_neg (by simpa using table), if_neg (by simpa using size), reached]
  exact ⟨_, rfl⟩

/-- The file ends with its last page and says nothing past its end. -/
def Tidy (s : FileStore) : Prop :=
  s.file.length % s.pageSize = 0 ∧ ∀ i, s.file.length ≤ i → s.file.byte i = 0

theorem tidy_write {new : Page} (tidy : s.Tidy) (readable : s.read new.id = .ok p)
    (wrote : s.write new = .ok after) : after.Tidy := by
  have length := length_write readable wrote
  have inside := offset_le_length readable
  obtain ⟨size, rfl⟩ := write_eq_ok readable wrote
  have data : new.data.size = s.pageSize := size
  constructor
  · rw [length]
    exact tidy.1
  · intro i past
    rw [length] at past
    show (s.file.write (s.offset new.id.index) new.data).byte i = 0
    rw [ByteFile.byte_write, if_neg (by omega)]
    exact tidy.2 i past

theorem tidy_allocate (tidy : s.Tidy) : s.allocate.1.Tidy := by
  rcases s.allocate_file with same | ⟨count, _, _, grown, _⟩
  · rwa [same]
  · rw [grown]
    constructor
    · exact Nat.mul_mod_left ..
    · intro i past
      exact ByteFile.byte_setLength_past past

/-- The one page more that can be read after an allocation is blank. -/
theorem blank_allocate (tidy : s.Tidy) (countable : s.Countable)
    (readable : s.allocate.1.read page = .ok p) :
    s.read page = .ok p ∨
      ((∀ q, s.read page ≠ .ok q) ∧ p = .clean page (Bytes.zeros s.pageSize)) := by
  rcases allocate_extent countable with same | ⟨positive, few, grown⟩
  · rw [same] at readable
    exact Or.inl readable
  by_cases there : ∃ q, s.read page = .ok q
  · obtain ⟨q, before⟩ := there
    have still := read_allocate before
    rw [readable] at still
    rw [before, Except.ok.inj still]
    exact Or.inl rfl
  have new : ∀ q, s.read page ≠ .ok q := fun q before => there ⟨q, before⟩
  refine Or.inr ⟨new, ?_⟩
  rw [grown, read_eq_ok] at readable
  obtain ⟨table, _, _, rfl⟩ := readable
  -- the page lies past the old end, or else it could have been read before
  have past : s.file.length / s.pageSize ≤ page.index.toNat := by
    have outside : ¬page.index < UInt32.ofNat (s.file.length / s.pageSize) := fun inside =>
      new _ (read_eq_ok.mpr ⟨table, positive, inside, rfl⟩)
    rw [UInt32.lt_iff_toNat_lt, count_toNat countable] at outside
    exact Nat.le_of_not_lt outside
  have whole : s.file.length = s.file.length / s.pageSize * s.pageSize :=
    (Nat.div_mul_cancel (Nat.dvd_of_mod_eq_zero tidy.1)).symm
  have start : s.file.length ≤ s.offset page.index := by
    rw [whole]
    exact Nat.mul_le_mul_right _ past
  show Page.clean page ((s.file.setLength _).read (s.offset page.index) s.pageSize) = _
  rw [ByteFile.read_eq_zeros]
  intro i lower _
  by_cases below : i < (s.file.length / s.pageSize + 1) * s.pageSize
  · rw [ByteFile.byte_setLength below]
    exact tidy.2 i (Nat.le_trans start lower)
  · exact ByteFile.byte_setLength_past (Nat.le_of_not_lt below)

end FileStore

/-! ## On either medium -/

/-- New pages come behind those that can be read already. -/
class Foreign.Lasting (κ : Type) [Foreign κ] : Prop where
  read_allocate (s : κ) (page : PageId) (p : Page) (readable : Foreign.read s page = .ok p) :
    Foreign.read (Foreign.allocate s).1 page = .ok p

instance : Foreign.Lasting Empty := ⟨fun s => s.elim⟩

namespace Medium

variable {m after : Medium} {page : PageId} {p : Page}

/-- The pages of a file can be counted in 32 bits; a store of another kind may have any number. -/
def Countable {κ : Type} : Medium κ → Prop
  | file s => s.Countable
  | _ => True

/-- A file ends with its last page, and there is nothing past the end of it. -/
def Tidy {κ : Type} : Medium κ → Prop
  | file s => s.Tidy
  | _ => True

theorem read_eq_clean (readable : m.read page = .ok p) :
    page.table = m.table ∧ p = .clean page p.data := by
  cases m with
  | memory s =>
    obtain ⟨table, _, _, rfl⟩ := MemoryStore.read_eq_ok.mp readable
    exact ⟨table, rfl⟩
  | file s =>
    obtain ⟨table, _, _, rfl⟩ := FileStore.read_eq_ok.mp readable
    exact ⟨table, rfl⟩
  | foreign s => exact s.elim

/-- Reading a medium goes wrong for what is asked, and not for the asking. -/
theorem read_error {e : StorageError} (refused : m.read page = .error e) (cause : IoCause) :
    e ≠ .io cause := by
  rintro rfl
  cases m with
  | memory s =>
    have refused : s.read page = .error (.io cause) := refused
    simp only [MemoryStore.read] at refused
    split at refused
    · cases refused
    · split at refused <;> cases refused
  | file s =>
    have refused : s.read page = .error (.io cause) := refused
    simp only [FileStore.read, FileStore.numPages] at refused
    split at refused
    · cases refused
    · split at refused
      next counted =>
        split at counted
        · cases counted
          cases refused
        · cases counted
      · split at refused <;> cases refused
  | foreign s => exact s.elim

theorem write_memory {s : MemoryStore} {new : Page} (wrote : (memory s).write new = .ok after) :
    ∃ next, s.write new = .ok next ∧ after = memory next := by
  cases done : s.write new with
  | error e => simp [write, done, Except.map] at wrote
  | ok next =>
    have same : memory next = after := by simpa [write, done, Except.map] using wrote
    exact ⟨next, rfl, same.symm⟩

theorem write_file {s : FileStore} {new : Page} (wrote : (file s).write new = .ok after) :
    ∃ next, s.write new = .ok next ∧ after = file next := by
  cases done : s.write new with
  | error e => simp [write, done, Except.map] at wrote
  | ok next =>
    have same : file next = after := by simpa [write, done, Except.map] using wrote
    exact ⟨next, rfl, same.symm⟩

theorem read_write {new : Page} (readable : m.read new.id = .ok p) (wrote : m.write new = .ok after)
    (q : PageId) : after.read q = if q = new.id then .ok (.clean q new.data) else m.read q := by
  cases m with
  | memory s =>
    obtain ⟨next, done, rfl⟩ := write_memory wrote
    exact MemoryStore.read_write readable done q
  | file s =>
    obtain ⟨next, done, rfl⟩ := write_file wrote
    exact FileStore.read_write readable done q
  | foreign s => exact s.elim

theorem read_allocate {κ : Type} [Foreign κ] [Foreign.Lasting κ] {m : Medium κ}
    (readable : m.read page = .ok p) : m.allocate.1.read page = .ok p := by
  cases m with
  | memory s => exact (s.read_allocate page).1 p readable
  | file s => exact FileStore.read_allocate readable
  | foreign s => exact Foreign.Lasting.read_allocate s page p readable

/-- A medium in memory or in a file is as it was when it has refused a write. -/
theorem refused_eq (m : Medium) (new : Page) : m.refused new = m := by
  cases m with
  | foreign s => exact s.elim
  | _ => rfl

theorem table_write {new : Page} (readable : m.read new.id = .ok p)
    (wrote : m.write new = .ok after) :
    after.table = m.table ∧ after.pageSize = m.pageSize ∧ (m.Countable → after.Countable) ∧
      (m.Tidy → after.Tidy) := by
  cases m with
  | memory s =>
    obtain ⟨next, done, rfl⟩ := write_memory wrote
    obtain ⟨_, rfl⟩ := MemoryStore.write_eq_ok readable done
    exact ⟨rfl, rfl, id, id⟩
  | file s =>
    obtain ⟨next, done, rfl⟩ := write_file wrote
    have length := FileStore.length_write readable done
    have tidy : s.Tidy → next.Tidy := fun tidy => FileStore.tidy_write tidy readable done
    obtain ⟨_, rfl⟩ := FileStore.write_eq_ok readable done
    refine ⟨rfl, rfl, fun countable => ?_, tidy⟩
    show _ / s.pageSize ≤ 4294967295
    rw [length]
    exact countable
  | foreign s => exact s.elim

theorem table_allocate (m : Medium) :
    m.allocate.1.table = m.table ∧ m.allocate.1.pageSize = m.pageSize := by
  cases m with
  | memory s =>
    rcases s.allocate_blocks with same | grown
    · simp [allocate, same, table, pageSize]
    · simp [allocate, grown, table, pageSize]
  | file s =>
    rcases s.allocate_file with same | ⟨count, _, _, grown, _⟩
    · simp [allocate, same, table, pageSize]
    · simp [allocate, grown, table, pageSize]
  | foreign s => exact s.elim

theorem countable_allocate (countable : m.Countable) : m.allocate.1.Countable := by
  cases m with
  | memory s => trivial
  | file s => exact FileStore.countable_allocate countable
  | foreign s => exact s.elim

theorem write_of_readable {new : Page} (readable : m.read new.id = .ok p)
    (size : new.size = m.pageSize) : ∃ after, m.write new = .ok after := by
  cases m with
  | memory s =>
    obtain ⟨after, wrote⟩ := MemoryStore.write_of_readable readable size
    exact ⟨memory after, by simp [write, wrote, Except.map]⟩
  | file s =>
    obtain ⟨after, wrote⟩ := FileStore.write_of_readable readable size
    exact ⟨file after, by simp [write, wrote, Except.map]⟩
  | foreign s => exact s.elim

theorem tidy_allocate (tidy : m.Tidy) : m.allocate.1.Tidy := by
  cases m with
  | memory s => trivial
  | file s => exact FileStore.tidy_allocate tidy
  | foreign s => exact s.elim

/-- A page that could not be read before an allocation is blank after it. -/
theorem blank_allocate (tidy : m.Tidy) (countable : m.Countable)
    (readable : m.allocate.1.read page = .ok p) :
    m.read page = .ok p ∨
      ((∀ q, m.read page ≠ .ok q) ∧ p = .clean page (Bytes.zeros m.pageSize)) := by
  cases m with
  | memory s =>
    rcases (s.read_allocate page).2 p readable with before | ⟨last, blank⟩
    · exact Or.inl before
    · refine Or.inr ⟨fun q before => ?_, blank⟩
      obtain ⟨_, data, found, _⟩ := MemoryStore.read_eq_ok.mp before
      rw [last, Array.getElem?_eq_none (Nat.le_refl _)] at found
      cases found
  | file s => exact FileStore.blank_allocate tidy countable readable
  | foreign s => exact s.elim

/-- A new page is one of the table. -/
theorem allocate_eq_ok (allocated : m.allocate.2 = .ok page) : page.table = m.table := by
  cases m with
  | memory s =>
    have answer : s.allocate.2 = .ok page := allocated
    unfold MemoryStore.allocate at answer
    split at answer
    · cases answer
    · dsimp only at answer
      split at answer
      · cases answer
      · rw [← Except.ok.inj answer]
        rfl
  | file s =>
    have answer : s.allocate.2 = .ok page := allocated
    simp only [FileStore.allocate] at answer
    split at answer
    · cases answer
    · split at answer
      · cases answer
      · split at answer
        · cases answer
        · rw [← Except.ok.inj answer]
          rfl
  | foreign s => exact s.elim

end Medium

end TransactionalPages
