import TransactionalPages.Proofs.Fading
import TransactionalPages.Proofs.FileGrowth

/-!
# The places of pages

Every page of a table has its place in the store of that table, whether it can be
read from there or not: a write can make a table longer than its pages can be
counted. A write changes what is at one place. It may make the store longer as far
as that place, with blanks before it, but never beyond.
-/

namespace TransactionalPages

/-- One block is replaced. All others stay, and behind it none is added. -/
structure Replaces (index : UInt32) (data : Bytes) (before after : UInt32 → Option Bytes) :
    Prop where
  here : after index = some data
  kept : ∀ i bytes, i ≠ index → before i = some bytes → after i = some bytes
  behind : ∀ i, index < i → after i = before i

namespace MemoryStore

variable {s after : MemoryStore} {new : Page}

def block? (s : MemoryStore) (index : UInt32) : Option Bytes := s.blocks[index.toNat]?

theorem replaces (wrote : s.write new = .ok after) :
    Replaces new.id.index new.data s.block? after.block? := by
  simp only [write] at wrote
  split at wrote
  · cases wrote
  · split at wrote
    · cases wrote
    · cases wrote
      constructor
      case here =>
        simp only [block?, grow]
        rw [Array.getElem?_setIfInBounds_self, if_pos]
        rw [Array.size_append, Array.size_replicate]
        omega
      case kept =>
        intro i bytes other there
        have apart : new.id.index.toNat ≠ i.toNat := fun same =>
          other (UInt32.toNat_inj.mp same.symm)
        simp only [block?, grow] at there ⊢
        rw [Array.getElem?_setIfInBounds_ne apart,
          Array.getElem?_append_left (Array.getElem?_eq_some_iff.mp there).1]
        exact there
      case behind =>
        intro i past
        have past : new.id.index.toNat < i.toNat := past
        simp only [block?, grow]
        rw [Array.getElem?_setIfInBounds_ne (Nat.ne_of_lt past)]
        by_cases inside : i.toNat < s.blocks.size
        · exact Array.getElem?_append_left inside
        · rw [Array.getElem?_eq_none (Nat.le_of_not_lt inside), Array.getElem?_eq_none]
          rw [Array.size_append, Array.size_replicate]
          omega

theorem block?_allocate (s : MemoryStore) {index : UInt32} {data : Bytes}
    (there : s.block? index = some data) : s.allocate.1.block? index = some data := by
  rcases s.allocate_blocks with same | grown
  · rwa [same]
  · have inside := (Array.getElem?_eq_some_iff.mp there).1
    rw [grown, block?, Array.getElem?_push_lt inside, ← Array.getElem?_eq_getElem inside]
    exact there

end MemoryStore

theorem ByteFile.read_reach {f g : ByteFile} {length start n : Nat}
    (reached : f.reach length = .ok g) (inside : start + n ≤ f.length) :
    g.read start n = f.read start n := by
  simp only [reach] at reached
  split at reached
  next longer =>
    rw [resize_eq_ok reached]
    exact read_setLength (by omega)
  next =>
    cases reached
    rfl

namespace FileStore

variable {s after : FileStore} {new : Page}

def block? (s : FileStore) (index : UInt32) : Option Bytes :=
  if s.offset index + s.pageSize ≤ s.file.length then
    some (s.file.read (s.offset index) s.pageSize)
  else none

theorem write_cases (wrote : s.write new = .ok after) :
    new.data.size = s.pageSize ∧ ∃ longer,
      s.file.reach (s.offset new.id.index + s.pageSize) = .ok longer ∧
      after = { s with file := longer.write (s.offset new.id.index) new.data } := by
  simp only [write] at wrote
  split at wrote
  · cases wrote
  · split at wrote
    · cases wrote
    next size =>
      have size : new.size = s.pageSize := by simpa using size
      rw [size] at wrote
      split at wrote
      · cases wrote
      next longer reached => exact ⟨size, longer, reached, (Except.ok.inj wrote).symm⟩

theorem replaces (wrote : s.write new = .ok after) :
    Replaces new.id.index new.data s.block? after.block? := by
  obtain ⟨size, longer, reached, rfl⟩ := write_cases wrote
  have length : (longer.write (s.offset new.id.index) new.data).length =
      max s.file.length (s.offset new.id.index + s.pageSize) := by
    have ends := (ByteFile.reach_eq_ok reached).1
    show max longer.length (s.offset new.id.index + new.data.size) = _
    omega
  have blocks : ∀ i, block? { s with file := longer.write (s.offset new.id.index) new.data } i =
      if s.offset i + s.pageSize ≤ max s.file.length (s.offset new.id.index + s.pageSize) then
        some ((longer.write (s.offset new.id.index) new.data).read (s.offset i) s.pageSize)
      else none := by
    intro i
    rw [← length]
    rfl
  have kept : ∀ i, i ≠ new.id.index → s.offset i + s.pageSize ≤ s.file.length →
      (longer.write (s.offset new.id.index) new.data).read (s.offset i) s.pageSize =
        s.file.read (s.offset i) s.pageSize := by
    intro i other inside
    have apart := offset_apart (s := s) fun same => other (UInt32.toNat_inj.mp same)
    rw [ByteFile.read_write_apart (by omega), ByteFile.read_reach reached inside]
  constructor
  case here =>
    rw [blocks, if_pos (Nat.le_max_right ..), ← size, ByteFile.read_write_self]
  case kept =>
    intro i bytes other there
    simp only [block?] at there
    split at there
    next inside =>
      rw [blocks, if_pos (by omega), kept i other inside]
      exact there
    next => cases there
  case behind =>
    intro i past
    have other : i ≠ new.id.index := fun same => UInt32.lt_irrefl _ (same ▸ past)
    have later : s.offset new.id.index + s.pageSize ≤ s.offset i := by
      rw [offset, ← Nat.add_one_mul]
      exact Nat.mul_le_mul_right _ past
    rw [blocks, block?]
    by_cases inside : s.offset i + s.pageSize ≤ s.file.length
    · rw [if_pos inside, if_pos (by omega), kept i other inside]
    · have positive : 0 < s.pageSize := by
        refine Nat.pos_of_ne_zero fun empty => inside ?_
        rw [offset, empty]
        exact Nat.zero_le _
      rw [if_neg inside, if_neg (by omega)]

theorem block?_allocate (countable : s.Countable) {index : UInt32} {data : Bytes}
    (there : s.block? index = some data) : s.allocate.1.block? index = some data := by
  rcases allocate_extent countable with same | ⟨positive, _, grown⟩
  · rwa [same]
  · rw [block?] at there
    split at there
    next inside =>
      have longer : s.offset index + s.pageSize ≤
          (s.file.length / s.pageSize + 1) * s.pageSize := by
        have part := Nat.div_add_mod' s.file.length s.pageSize
        have rest := Nat.mod_lt s.file.length positive
        rw [Nat.add_one_mul]
        omega
      rw [← there, grown]
      show (if s.offset index + s.pageSize ≤ (s.file.length / s.pageSize + 1) * s.pageSize
        then some ((s.file.setLength _).read (s.offset index) s.pageSize) else none) = _
      rw [if_pos longer, ByteFile.read_setLength longer]
    next => cases there

end FileStore

namespace Medium

variable {m after : Medium} {new : Page}

/-- The bytes at the place of a page, if the medium reaches that far. -/
def block? : Medium → UInt32 → Option Bytes
  | memory s => s.block?
  | file s => s.block?

theorem replaces (wrote : m.write new = .ok after) :
    Replaces new.id.index new.data m.block? after.block? := by
  cases m with
  | memory s =>
    obtain ⟨next, done, rfl⟩ := write_memory wrote
    exact MemoryStore.replaces done
  | file s =>
    obtain ⟨next, done, rfl⟩ := write_file wrote
    exact FileStore.replaces done
  | foreign s => exact s.elim

/-- As long as the pages can be counted, a page is read from its place. -/
theorem read_eq_ok_iff_block? {page : PageId} {data : Bytes} (countable : m.Countable)
    (sized : ¬m.Unsized) : m.read page = .ok (.clean page data) ↔
      page.table = m.table ∧ m.block? page.index = some data := by
  have bytes : ∀ found : Bytes, Page.clean page data = .clean page found ↔ found = data :=
    fun found => ⟨fun same => (congrArg Page.data same).symm, fun same => by rw [same]⟩
  cases m with
  | memory s =>
    refine MemoryStore.read_eq_ok.trans (and_congr_right fun _ => ?_)
    simp only [bytes, exists_eq_right]
    rfl
  | file s =>
    have positive : 0 < s.pageSize := Nat.pos_of_ne_zero sized
    have whole : page.index.toNat < s.pages ↔
        s.offset page.index + s.pageSize ≤ s.file.length := by
      rw [FileStore.offset, ← Nat.add_one_mul]
      exact Nat.le_div_iff_mul_le positive
    refine (FileStore.read_eq_ok_of_countable positive countable).trans
      (and_congr_right fun _ => ?_)
    rw [whole, bytes]
    show _ ↔ s.block? page.index = some data
    rw [FileStore.block?]
    split
    next inside =>
      exact ⟨fun here => congrArg some here.2, fun here => ⟨inside, Option.some.inj here⟩⟩
    next outside => exact ⟨fun here => absurd here.1 outside, fun none => by cases none⟩
  | foreign s => exact s.elim

/-- What is read is what the place of the page has, however many pages there are. -/
theorem block?_of_read {page : PageId} {p : Page} (readable : m.read page = .ok p) :
    m.block? page.index = some p.data := by
  cases m with
  | memory s =>
    obtain ⟨_, data, there, rfl⟩ := MemoryStore.read_eq_ok.mp readable
    exact there
  | file s =>
    have inside := FileStore.offset_le_length readable
    obtain ⟨_, _, _, rfl⟩ := FileStore.read_eq_ok.mp readable
    exact if_pos inside
  | foreign s => exact s.elim

/-- A page more leaves all places as they are, if no pages are cut off that cannot be counted. -/
theorem block?_allocate (countable : m.Countable) {index : UInt32} {data : Bytes}
    (there : m.block? index = some data) : m.allocate.1.block? index = some data := by
  cases m with
  | memory s => exact s.block?_allocate there
  | file s => exact FileStore.block?_allocate countable there
  | foreign s => exact s.elim

end Medium

end TransactionalPages
