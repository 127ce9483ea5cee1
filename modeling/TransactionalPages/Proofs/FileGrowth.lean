import TransactionalPages.Proofs.BlockVector

/-!
# How a file store grows

A store can be opened on a file of any length, and what lies behind the last whole
page of such a file is no page. It becomes one when the file is made longer, and
with it the bytes that were left there. So a store grows by blank pages if there
is nothing but zeros behind its last whole page. It stays that way, since making
the file longer is what leaves whole pages only.

The other side of growing is that pages are counted in 32 bits. The last page that
has a number can be written, but after it the count starts again at zero.
-/

namespace TransactionalPages

namespace FileStore

variable {s after : FileStore} {page q : PageId} {p new : Page} {n : Nat}

/-- The whole pages in the file, however many they are. -/
def pages (s : FileStore) : Nat := s.file.length / s.pageSize

/-- The pages can be counted, and behind the last whole page there are only zeros. -/
structure Unspoilt (s : FileStore) : Prop where
  positive : 0 < s.pageSize
  countable : s.Countable
  bare : ∀ i, s.pages * s.pageSize ≤ i → s.file.byte i = 0

/-- The store with at least `n` pages. -/
def grow (s : FileStore) (n : Nat) : FileStore :=
  if n ≤ s.pages then s else { s with file := s.file.setLength (n * s.pageSize) }

@[simp] theorem table_grow (s : FileStore) (n : Nat) : (s.grow n).table = s.table := by
  simp only [grow]
  split <;> rfl

@[simp] theorem pageSize_grow (s : FileStore) (n : Nat) : (s.grow n).pageSize = s.pageSize := by
  simp only [grow]
  split <;> rfl

theorem pages_grow (positive : 0 < s.pageSize) (n : Nat) : (s.grow n).pages = max s.pages n := by
  simp only [grow]
  split
  next enough => exact (Nat.max_eq_left enough).symm
  next short =>
    rw [Nat.max_eq_right (Nat.le_of_not_le short)]
    exact Nat.mul_div_cancel n positive

theorem byte_grow_below {i : Nat} (below : i < max s.pages n * s.pageSize) :
    (s.grow n).file.byte i = s.file.byte i := by
  simp only [grow]
  split
  · rfl
  next short =>
    rw [Nat.max_eq_right (Nat.le_of_not_le short)] at below
    exact ByteFile.byte_setLength below

theorem Unspoilt.grow (unspoilt : s.Unspoilt) (fits : n ≤ 4294967295) : (s.grow n).Unspoilt := by
  have pages := pages_grow unspoilt.positive n
  refine ⟨by rw [pageSize_grow]; exact unspoilt.positive, ?_, fun i past => ?_⟩
  · have countable : s.pages ≤ 4294967295 := unspoilt.countable
    show (s.grow n).pages ≤ 4294967295
    omega
  · rw [pages, pageSize_grow] at past
    have behind : s.pages * s.pageSize ≤ i :=
      Nat.le_trans (Nat.mul_le_mul_right _ (Nat.le_max_left ..)) past
    simp only [FileStore.grow]
    split
    · exact unspoilt.bare i behind
    next short =>
      rw [Nat.max_eq_right (Nat.le_of_not_le short)] at past
      exact ByteFile.byte_setLength_past past

theorem numPages_of_countable (positive : 0 < s.pageSize) (countable : s.Countable) :
    ∃ count, s.numPages = .ok count ∧ count.toNat = s.pages := by
  refine ⟨UInt32.ofNat s.pages, ?_, count_toNat countable⟩
  rw [numPages, if_neg (Nat.ne_of_gt positive)]
  rfl

theorem read_eq_ok_of_countable (positive : 0 < s.pageSize) (countable : s.Countable) :
    s.read q = .ok p ↔ q.table = s.table ∧ q.index.toNat < s.pages ∧
      p = .clean q (s.file.read (q.index.toNat * s.pageSize) s.pageSize) := by
  have below : q.index < UInt32.ofNat (s.file.length / s.pageSize) ↔ q.index.toNat < s.pages := by
    rw [UInt32.lt_iff_toNat_lt, count_toNat countable]
    rfl
  rw [read_eq_ok, below]
  exact ⟨fun ⟨table, _, inside, data⟩ => ⟨table, inside, data⟩,
    fun ⟨table, inside, data⟩ => ⟨table, positive, inside, data⟩⟩

/-- Whatever the file says behind its last whole page is what the new pages say. -/
theorem read_grow (positive : 0 < s.pageSize) (countable : s.Countable) (fits : n ≤ 4294967295) :
    (s.grow n).read q = .ok p ↔ q.table = s.table ∧ q.index.toNat < max s.pages n ∧
      p = .clean q (s.file.read (q.index.toNat * s.pageSize) s.pageSize) := by
  have pages := pages_grow positive n
  have few : s.pages ≤ 4294967295 := countable
  have countable : (s.grow n).pages ≤ 4294967295 := by omega
  rw [read_eq_ok_of_countable (by rwa [pageSize_grow]) countable, pages, table_grow, pageSize_grow]
  refine and_congr_right fun _ => and_congr_right fun inside => ?_
  have whole : (q.index.toNat + 1) * s.pageSize ≤ max s.pages n * s.pageSize :=
    Nat.mul_le_mul_right _ inside
  rw [Nat.add_one_mul] at whole
  rw [ByteFile.read_congr fun i _ upper => byte_grow_below (by omega)]

theorem read_past_pages (unspoilt : s.Unspoilt) {index : Nat} (past : s.pages ≤ index) :
    s.file.read (index * s.pageSize) s.pageSize = Bytes.zeros s.pageSize :=
  ByteFile.read_eq_zeros fun i lower _ =>
    unspoilt.bare i (Nat.le_trans (Nat.mul_le_mul_right _ past) lower)

/-- Pages that could be read read the same, and all that can be read besides are blank. -/
theorem read_grow_of_unspoilt (unspoilt : s.Unspoilt) (fits : n ≤ 4294967295) :
    (s.grow n).read q = .ok p ↔ s.read q = .ok p ∨
      (q.table = s.table ∧ s.pages ≤ q.index.toNat ∧ q.index.toNat < n ∧
        p = .clean q (Bytes.zeros s.pageSize)) := by
  rw [read_grow unspoilt.positive unspoilt.countable fits,
    read_eq_ok_of_countable unspoilt.positive unspoilt.countable]
  by_cases old : q.index.toNat < s.pages
  · have inside : q.index.toNat < max s.pages n := by omega
    simp only [old, inside, true_and, Nat.not_le.mpr old, false_and, and_false, or_false]
  · have past : s.pages ≤ q.index.toNat := Nat.le_of_not_lt old
    have inside : q.index.toNat < max s.pages n ↔ q.index.toNat < n := by omega
    simp only [old, past, inside, read_past_pages unspoilt past, false_and, and_false, true_and,
      false_or]

/-! ## Allocating and writing -/

/-- An allocation that goes well grows the store by one page. -/
theorem allocate_eq_grow (countable : s.Countable) (allocated : s.allocate = (after, .ok page)) :
    0 < s.pageSize ∧ s.pages < 4294967295 ∧ page.table = s.table ∧
      page.index.toNat = s.pages ∧ after = s.grow (s.pages + 1) := by
  simp only [allocate] at allocated
  split at allocated
  next => cases (Prod.mk.inj allocated).2
  next count counted =>
    obtain ⟨positive, total⟩ := numPages_eq_ok counted
    have index : count.toNat = s.pages := by
      rw [total]
      exact count_toNat countable
    split at allocated
    · cases (Prod.mk.inj allocated).2
    next few =>
      have below : s.pages < 4294967295 := by
        have bound : s.pages ≤ 4294967295 := countable
        have different : count.toNat ≠ 4294967295 := fun same => few (UInt32.toNat_inj.mp same)
        omega
      rw [offset_next few, index] at allocated
      split at allocated
      next => cases (Prod.mk.inj allocated).2
      next file resized =>
        cases allocated
        refine ⟨positive, below, rfl, index, ?_⟩
        rw [grow, if_neg (by omega), ByteFile.resize_eq_ok resized]

/-- A write grows the store up to its page, if that is needed, and then replaces the page. -/
theorem write_grow (positive : 0 < s.pageSize) (wrote : s.write new = .ok after) :
    new.id.table = s.table ∧ new.size = s.pageSize ∧
      (s.grow (new.id.index.toNat + 1)).write new = .ok after := by
  have untouched := wrote
  simp only [write] at wrote
  split at wrote
  · cases wrote
  next table =>
    have table : new.id.table = s.table := by simpa using table
    split at wrote
    · cases wrote
    next size =>
      have size : new.size = s.pageSize := by simpa using size
      refine ⟨table, size, ?_⟩
      have stop : s.offset new.id.index + new.size = (new.id.index.toNat + 1) * s.pageSize := by
        rw [offset, size, Nat.add_one_mul]
      by_cases enough : new.id.index.toNat + 1 ≤ s.pages
      · rwa [grow, if_pos enough]
      · have short : s.file.length < (new.id.index.toNat + 1) * s.pageSize :=
          (Nat.div_lt_iff_lt_mul positive).mp (Nat.lt_of_not_le enough)
        rw [stop, ByteFile.reach, if_pos short] at wrote
        split at wrote
        · cases wrote
        next longer resized =>
          have there : longer.reach ((new.id.index.toNat + 1) * s.pageSize) = .ok longer := by
            rw [ByteFile.resize_eq_ok resized]
            exact if_neg (Nat.lt_irrefl _)
          rw [grow, if_neg enough, ← ByteFile.resize_eq_ok resized]
          simp only [write]
          rw [if_neg (by simpa using table), if_neg (by simpa using size)]
          rw [show ({ s with file := longer } : FileStore).offset new.id.index + new.size =
            (new.id.index.toNat + 1) * s.pageSize from stop, there]
          exact wrote

/-- A write that ends where the file does, or before, only replaces bytes. -/
theorem write_inside (inside : s.offset new.id.index + s.pageSize ≤ s.file.length)
    (wrote : s.write new = .ok after) : after.pageSize = s.pageSize ∧
      after.file.length = s.file.length := by
  simp only [write] at wrote
  split at wrote
  · cases wrote
  · split at wrote
    · cases wrote
    next size =>
      have size : new.size = s.pageSize := by simpa using size
      rw [size, ByteFile.reach, if_neg (Nat.not_lt.mpr inside)] at wrote
      cases wrote
      refine ⟨rfl, ?_⟩
      have data : new.data.size = s.pageSize := size
      show max s.file.length (s.offset new.id.index + new.data.size) = s.file.length
      omega

/-- What an allocation that goes well brings: a blank page with the number that follows, and no
other page changes. -/
structure Appends (s after : FileStore) (page : PageId) : Prop where
  table : page.table = s.table
  number : s.numPages = .ok page.index
  count : ∃ count, after.numPages = .ok count ∧ count.toNat = page.index.toNat + 1
  blank : after.read page = .ok (.clean page (Bytes.zeros s.pageSize))
  kept : ∀ q p, s.read q = .ok p → after.read q = .ok p

/-- What a write that goes well brings: the page, the pages up to it, which are blank, and no other
page changes. -/
structure Stores (s after : FileStore) (new : Page) : Prop where
  stored : after.read new.id = .ok (.clean new.id new.data)
  count : ∃ before count, s.numPages = .ok before ∧ after.numPages = .ok count ∧
    count.toNat = max before.toNat (new.id.index.toNat + 1)
  kept : ∀ q p, q ≠ new.id → s.read q = .ok p → after.read q = .ok p
  blank : ∀ q p, q ≠ new.id → (∀ before, s.read q ≠ .ok before) → after.read q = .ok p →
    p = .clean q (Bytes.zeros s.pageSize)

theorem Unspoilt.allocate (unspoilt : s.Unspoilt) (allocated : s.allocate = (after, .ok page)) :
    s.Appends after page ∧ after.Unspoilt := by
  obtain ⟨positive, few, table, index, rfl⟩ := allocate_eq_grow unspoilt.countable allocated
  have grown := unspoilt.grow (n := s.pages + 1) (by omega)
  obtain ⟨before, counted, number⟩ := numPages_of_countable positive unspoilt.countable
  obtain ⟨count, total, size⟩ := numPages_of_countable grown.positive grown.countable
  have same : before = page.index := UInt32.toNat_inj.mp (number.trans index.symm)
  rw [pages_grow positive] at size
  refine ⟨⟨table, same ▸ counted, ⟨count, total, by omega⟩, ?_, fun q p readable => ?_⟩, grown⟩
  · exact (read_grow_of_unspoilt unspoilt (by omega)).mpr
      (Or.inr ⟨table, by omega, by omega, rfl⟩)
  · exact (read_grow_of_unspoilt unspoilt (by omega)).mpr (Or.inl readable)

theorem Unspoilt.write (unspoilt : s.Unspoilt) (numbered : new.id.index ≠ maxPages)
    (wrote : s.write new = .ok after) : s.Stores after new ∧ after.Unspoilt := by
  have fits : new.id.index.toNat + 1 ≤ 4294967295 := by
    have bound := new.id.index.toNat_lt
    have different : new.id.index.toNat ≠ 4294967295 := fun same =>
      numbered (UInt32.toNat_inj.mp same)
    omega
  obtain ⟨table, size, inGrown⟩ := write_grow unspoilt.positive wrote
  have grown := unspoilt.grow fits
  have pages := pages_grow unspoilt.positive (new.id.index.toNat + 1)
  have readable : ∃ p, (s.grow (new.id.index.toNat + 1)).read new.id = .ok p :=
    ⟨_, (read_grow unspoilt.positive unspoilt.countable fits).mpr ⟨table, by omega, rfl⟩⟩
  obtain ⟨old, readable⟩ := readable
  have reads := read_write readable inGrown
  have length := length_write readable inGrown
  obtain ⟨whole, written⟩ := write_eq_ok readable inGrown
  have pageSize : after.pageSize = (s.grow (new.id.index.toNat + 1)).pageSize := by rw [written]
  have samePages : after.pages = (s.grow (new.id.index.toNat + 1)).pages := by
    rw [FileStore.pages, FileStore.pages, length, pageSize]
  have countable : after.Countable := by
    have bound : (s.grow (new.id.index.toNat + 1)).pages ≤ 4294967295 := grown.countable
    show after.pages ≤ 4294967295
    rwa [samePages]
  have positive : 0 < after.pageSize := by rw [pageSize]; exact grown.positive
  obtain ⟨before, counted, number⟩ := numPages_of_countable unspoilt.positive unspoilt.countable
  obtain ⟨count, total, many⟩ := numPages_of_countable positive countable
  refine ⟨⟨?_, ⟨before, count, counted, total, ?_⟩, fun q p other there => ?_,
    fun q p other missing there => ?_⟩, positive, countable, fun i past => ?_⟩
  · rw [reads, if_pos rfl]
  · rw [many, samePages, pages, number]
  · rw [reads, if_neg other]
    exact (read_grow_of_unspoilt unspoilt fits).mpr (Or.inl there)
  · rw [reads, if_neg other] at there
    rcases (read_grow_of_unspoilt unspoilt fits).mp there with old | ⟨_, _, _, blank⟩
    · exact absurd old (missing p)
    · exact blank
  · -- the page lies before the end of the last whole page
    rw [samePages, pageSize] at past
    have inside : (new.id.index.toNat + 1) * (s.grow (new.id.index.toNat + 1)).pageSize ≤
        (s.grow (new.id.index.toNat + 1)).pages * (s.grow (new.id.index.toNat + 1)).pageSize :=
      Nat.mul_le_mul_right _ (by omega)
    have data : new.data.size = (s.grow (new.id.index.toNat + 1)).pageSize := whole
    rw [Nat.add_one_mul] at inside
    rw [written]
    show ByteFile.byte (ByteFile.write _ (new.id.index.toNat * _) new.data) i = 0
    rw [ByteFile.byte_write, if_neg (by omega)]
    exact grown.bare i past

/-! ## A run of calls -/

/-- The store after a call, which a refusal leaves alone. -/
def next (s : FileStore) : StoreCall → FileStore
  | .read _ => s
  | .write new =>
    match s.write new with
    | .ok after => after
    | .error _ => s
  | .count => s
  | .allocate => s.allocate.1

def run (s : FileStore) (calls : List StoreCall) : FileStore := calls.foldl next s

theorem allocate_refused {e : StorageError} (refused : s.allocate.2 = .error e) :
    s.allocate.1 = s := by
  rcases s.allocate_file with same | ⟨_, _, _, _, allocated⟩
  · exact same
  · rw [allocated] at refused
    cases refused

theorem Unspoilt.next (unspoilt : s.Unspoilt) (call : StoreCall)
    (numbered : ∀ new, call = .write new → new.id.index ≠ maxPages) : (s.next call).Unspoilt := by
  cases call with
  | read page => exact unspoilt
  | write new =>
    simp only [FileStore.next]
    cases wrote : s.write new with
    | ok after => exact (unspoilt.write (numbered new rfl) wrote).2
    | error e => exact unspoilt
  | count => exact unspoilt
  | allocate =>
    simp only [FileStore.next]
    cases allocated : s.allocate.2 with
    | ok page => exact (unspoilt.allocate (Prod.ext rfl allocated)).2
    | error e => rwa [allocate_refused allocated]

theorem Unspoilt.run (unspoilt : s.Unspoilt) (calls : List StoreCall)
    (numbered : ∀ new, StoreCall.write new ∈ calls → new.id.index ≠ maxPages) :
    (s.run calls).Unspoilt := by
  induction calls generalizing s with
  | nil => exact unspoilt
  | cons call rest ih =>
    exact ih (unspoilt.next call fun new this => numbered new (this ▸ List.mem_cons_self))
      fun new listed => numbered new (List.mem_cons_of_mem _ listed)

/-- A store on a file with nothing but zeros behind the last whole page grows by blank pages only
and loses none, whatever is asked of it, as long as the last page that has a number is not
written. Arithmetic is checked here: a store with as many pages as can be counted refuses another
one and is left as it is. -/
theorem grows_by_blank_pages (unspoilt : s.Unspoilt) (calls : List StoreCall)
    (numbered : ∀ new, StoreCall.write new ∈ calls → new.id.index ≠ maxPages) :
    (∀ after page, (s.run calls).allocate = (after, .ok page) →
      (s.run calls).Appends after page) ∧
    (∀ after new, new.id.index ≠ maxPages → (s.run calls).write new = .ok after →
      (s.run calls).Stores after new) := by
  have kept := unspoilt.run calls numbered
  exact ⟨fun after page allocated => (kept.allocate allocated).1,
    fun after new low wrote => (kept.write low wrote).1⟩

/-- Two pages and two zeros of a third one. A page is allocated, and a page further behind is
written, so that there is a gap before it. -/
theorem zero_tail_grows_blank :
    let s : FileStore := ⟨⟨7⟩, 4, ⟨10, [⟨0, #[1, 2, 3, 4, 5, 6, 7, 8]⟩]⟩⟩
    let calls : List StoreCall := [.allocate, .write (.clean ⟨⟨7⟩, 4⟩ #[9, 9, 9, 9])]
    s.Unspoilt ∧ (∀ new, StoreCall.write new ∈ calls → new.id.index ≠ maxPages) ∧
      ∃ after, (s.run calls).allocate = (after, .ok ⟨⟨7⟩, 5⟩) ∧
        (s.run calls).Appends after ⟨⟨7⟩, 5⟩ := by
  intro s calls
  have unspoilt : s.Unspoilt := by
    refine ⟨by decide, (by decide : 10 / 4 ≤ 4294967295), fun i past => ?_⟩
    have behind : 10 / 4 * 4 ≤ i := past
    have bare : (⟨0, #[1, 2, 3, 4, 5, 6, 7, 8]⟩ : Extent).covers i = false := by
      apply Bool.eq_false_iff.mpr
      rw [Ne, Extent.covers_iff]
      rintro ⟨_, below⟩
      have below : i < 8 := below
      omega
    exact Extent.byteOf_eq_zero fun e listed => by rwa [List.mem_singleton.mp listed]
  have numbered : ∀ new, StoreCall.write new ∈ calls → new.id.index ≠ maxPages := by
    intro new listed
    simp only [calls, List.mem_cons, List.not_mem_nil, or_false, reduceCtorEq, false_or,
      StoreCall.write.injEq] at listed
    rw [listed]
    decide
  have ran : s.run calls =
      ⟨⟨7⟩, 4, ⟨20, [⟨16, #[9, 9, 9, 9]⟩, ⟨0, #[1, 2, 3, 4, 5, 6, 7, 8]⟩]⟩⟩ := by decide
  have allocated : (s.run calls).allocate = ((s.run calls).allocate.1, .ok ⟨⟨7⟩, 5⟩) := by
    rw [ran]
    rfl
  exact ⟨unspoilt, numbered, _, allocated,
    (grows_by_blank_pages unspoilt calls numbered).1 _ _ allocated⟩

/-! ## What stands in the way -/

/-- An allocated page says what the file says behind its last whole page. -/
theorem allocate_blank_iff (countable : s.Countable) (allocated : s.allocate = (after, .ok page)) :
    after.read page = .ok (.clean page (Bytes.zeros s.pageSize)) ↔
      ∀ i, i < s.pageSize → s.file.byte (s.pages * s.pageSize + i) = 0 := by
  obtain ⟨positive, few, table, index, rfl⟩ := allocate_eq_grow countable allocated
  have reads : (s.grow (s.pages + 1)).read page =
      .ok (.clean page (s.file.read (s.pages * s.pageSize) s.pageSize)) :=
    (read_grow positive countable (by omega)).mpr ⟨table, by omega, by rw [index]⟩
  rw [reads]
  constructor
  · intro blank i below
    have data := congrArg Page.data (Except.ok.inj blank)
    have byte : (s.file.read (s.pages * s.pageSize) s.pageSize).byte i =
        (Bytes.zeros s.pageSize).byte i := congrArg (Bytes.byte · i) data
    rwa [ByteFile.byte_read _ below, Bytes.byte_zeros] at byte
  · intro bare
    rw [ByteFile.read_eq_zeros fun i lower upper => ?_]
    have byte := bare (i - s.pages * s.pageSize) (by omega)
    rwa [Nat.add_sub_cancel' lower] at byte

/-- A torn page of ten bytes is no page, but they are the first ten bytes of the page that is
allocated. -/
theorem torn_page_is_not_zeroed :
    ∃ s after,
      openOn ⟨1⟩ 16 (some ((ByteFile.empty.write 0 (Array.replicate 16 7)).setLength 10)) = .ok s ∧
      s.allocate = (after, .ok ⟨⟨1⟩, 0⟩) ∧
      after.read ⟨⟨1⟩, 0⟩ =
        .ok (.clean ⟨⟨1⟩, 0⟩ #[7, 7, 7, 7, 7, 7, 7, 7, 7, 7, 0, 0, 0, 0, 0, 0]) ∧
      ¬s.Appends after ⟨⟨1⟩, 0⟩ := by
  refine ⟨_, _, rfl, rfl, rfl, fun appends => ?_⟩
  have data := congrArg Page.data (Except.ok.inj appends.blank)
  exact absurd data (by decide)

/-- After the last page that has a number the count starts again, and no page can be read. -/
theorem last_page_hides_all (positive : 0 < s.pageSize) (countable : s.Countable)
    (last : new.id.index = maxPages) (wrote : s.write new = .ok after) :
    after.numPages = .ok 0 ∧ ∀ q p, after.read q ≠ .ok p := by
  obtain ⟨table, size, inGrown⟩ := write_grow positive wrote
  have index : new.id.index.toNat = 4294967295 := by rw [last]; rfl
  rw [index] at inGrown
  have pages : (s.grow 4294967296).pages = 4294967296 := by
    have few : s.pages ≤ 4294967295 := countable
    rw [pages_grow positive]
    omega
  have inside : (s.grow 4294967296).offset new.id.index + (s.grow 4294967296).pageSize ≤
      (s.grow 4294967296).file.length := by
    have whole := Nat.div_mul_le_self (s.grow 4294967296).file.length (s.grow 4294967296).pageSize
    rw [← FileStore.pages, pages] at whole
    rw [offset, index, ← Nat.add_one_mul]
    exact whole
  obtain ⟨pageSize, length⟩ := write_inside inside inGrown
  have many : after.pages = 4294967296 := by
    rw [← pages, FileStore.pages, FileStore.pages, pageSize, length]
  have count : UInt32.ofNat (after.file.length / after.pageSize) = 0 := by
    rw [← FileStore.pages, many]
    rfl
  have positive : 0 < after.pageSize := by rwa [pageSize, pageSize_grow]
  refine ⟨?_, fun q p readable => ?_⟩
  · rw [numPages, if_neg (Nat.ne_of_gt positive), count]
  · obtain ⟨_, _, below, _⟩ := read_eq_ok.mp readable
    rw [count] at below
    exact UInt32.not_lt_zero below

end FileStore

end TransactionalPages
