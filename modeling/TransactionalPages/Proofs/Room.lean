import TransactionalPages.Proofs.Contents

/-!
# Room for a tuple

A page either has room for a tuple or it is full, and a new page has room for
every tuple that is not too long for an empty one. A page that was counted can be
read, and a page that is allocated is blank and nowhere else to be found. So a
program that only looks for room on such pages fails when the lock or the place in
the cache cannot be had or when the store reports it, and for no other reason.
-/

namespace TransactionalPages

/-! ## Room on a page -/

namespace SlottedPage

theorem freeSpace_zeros (n : Nat) : freeSpace (Bytes.zeros n) = n - headerSize := by
  have pointer : freePointer (Bytes.zeros n) = headerSize := if_pos (Bytes.natAt_zeros n 2)
  have count : slotCount (Bytes.zeros n) = 0 := Bytes.natAt_zeros n 0
  simp only [freeSpace]
  rw [pointer, count, Bytes.size_zeros, if_neg (Nat.lt_irrefl _)]
  omega

end SlottedPage

namespace HeapTable

/-- A tuple that is no longer than a page is placed on it or finds it full. -/
theorem place_cases {b tuple : Bytes} (least : Config.minPageSize ≤ b.size)
    (small : b.size ≤ Config.maxPageSize) (short : tuple.size ≤ b.size) :
    (place b tuple = .full ∧ SlottedPage.hasRoomFor b tuple.size = false) ∨
      ∃ new, place b tuple = .placed new := by
  simp only [Config.minPageSize, Config.maxPageSize] at least small
  have asked : SlottedPage.hasRoomFor? b tuple.size =
      .ok (SlottedPage.hasRoomFor b tuple.size) := by
    have whole : ¬b.size < SlottedPage.headerSize := by
      simp only [SlottedPage.headerSize]
      omega
    have sum : ¬Limit.word < tuple.size + SlottedPage.slotSize := by
      simp only [Limit.word, SlottedPage.slotSize]
      omega
    simp only [SlottedPage.hasRoomFor?]
    rw [if_neg whole, if_neg sum]
  simp only [place]
  cases room : SlottedPage.hasRoomFor b tuple.size with
  | false =>
    rw [asked, room]
    exact Or.inl ⟨rfl, rfl⟩
  | true =>
    rw [room] at asked
    obtain ⟨new, inserted⟩ := SlottedPage.insert_of_room small asked
    rw [asked]
    dsimp only
    rw [inserted]
    exact Or.inr ⟨new, rfl⟩

/-- A tuple that can be on a page at all has room on a blank one. -/
theorem place_blank {n : Nat} {tuple : Bytes} (least : Config.minPageSize ≤ n)
    (small : n ≤ Config.maxPageSize) (short : tuple.size ≤ SlottedPage.maxTupleSize n) :
    ∃ new, place (Bytes.zeros n) tuple = .placed new := by
  simp only [SlottedPage.maxTupleSize, SlottedPage.headerSize, SlottedPage.slotSize] at short
  have room : SlottedPage.hasRoomFor (Bytes.zeros n) tuple.size = true := by
    apply decide_eq_true
    rw [SlottedPage.freeSpace_zeros]
    simp only [Config.minPageSize] at least
    simp only [SlottedPage.headerSize, SlottedPage.slotSize]
    omega
  have size : (Bytes.zeros n).size = n := Bytes.size_zeros n
  have placed : (place (Bytes.zeros n) tuple = .full ∧ _) ∨ _ :=
    place_cases (by rwa [size]) (by rwa [size]) (by omega)
  rcases placed with ⟨_, full⟩ | placed
  · rw [room] at full
    cases full
  · exact placed

end HeapTable

/-! ## Pages that are there -/

theorem MemoryStore.allocate_new (s : MemoryStore) (small : s.pageSize ≤ Config.maxPageSize)
    (few : s.blocks.size < 4294967295) :
    ∃ page, s.allocate.2 = .ok page ∧ (∀ p, s.read page ≠ .ok p) ∧
      ∃ p, s.allocate.1.read page = .ok p := by
  have fits : s.pageSize ≤ Limit.block := Nat.le_trans small (by decide)
  have grown : s.grow (s.blocks.size + 1) =
      { s with blocks := s.blocks.push (Bytes.zeros s.pageSize) } := by
    simp [grow]
  have last : (UInt32.ofNat s.blocks.size).toNat = s.blocks.size := by
    rw [UInt32.toNat_ofNat', Nat.mod_eq_of_lt (by omega)]
  rw [allocate_eq fits few, grown]
  refine ⟨_, rfl, fun p readable => ?_, _, read_eq_ok.mpr ⟨rfl, Bytes.zeros s.pageSize, ?_, rfl⟩⟩
  · obtain ⟨_, data, found, _⟩ := read_eq_ok.mp readable
    rw [last, Array.getElem?_eq_none (Nat.le_refl _)] at found
    cases found
  · rw [last]
    exact Array.getElem?_push_size

theorem FileStore.allocate_new (s : FileStore) (positive : 0 < s.pageSize)
    (small : s.pageSize ≤ Config.maxPageSize) (few : s.file.length / s.pageSize < 4294967295) :
    ∃ page, s.allocate.2 = .ok page ∧ (∀ p, s.read page ≠ .ok p) ∧
      ∃ p, s.allocate.1.read page = .ok p := by
  have count := count_toNat (Nat.le_of_lt few)
  have counted : s.numPages = .ok (UInt32.ofNat (s.file.length / s.pageSize)) :=
    if_neg (Nat.ne_of_gt positive)
  -- the longest file that is ever asked for is far from the limit
  have short : (s.file.length / s.pageSize + 1) * s.pageSize ≤ 4294967296 * 65535 :=
    Nat.mul_le_mul (by omega) small
  have inWord : ¬Limit.word < (s.file.length / s.pageSize + 1) * s.pageSize := by
    simp only [Limit.word]
    omega
  have inFile : ¬Limit.fileLength < (s.file.length / s.pageSize + 1) * s.pageSize := by
    simp only [Limit.fileLength]
    omega
  have done : s.allocate =
      ({ s with file := s.file.setLength ((s.file.length / s.pageSize + 1) * s.pageSize) },
        .ok ⟨s.table, UInt32.ofNat (s.file.length / s.pageSize)⟩) := by
    rw [allocate_eq counted few, ByteFile.resize, if_neg inWord, if_neg inFile]
  rw [done]
  refine ⟨_, rfl, fun p readable => ?_, _, read_eq_ok.mpr ⟨rfl, positive, ?_, rfl⟩⟩
  · obtain ⟨_, _, inside, _⟩ := read_eq_ok.mp readable
    exact UInt32.lt_irrefl _ inside
  · show UInt32.ofNat (s.file.length / s.pageSize) <
      UInt32.ofNat ((s.file.length / s.pageSize + 1) * s.pageSize / s.pageSize)
    rw [Nat.mul_div_cancel _ positive, UInt32.lt_iff_toNat_lt, count, UInt32.toNat_ofNat']
    omega

namespace Medium

variable {m : Medium} {page : PageId}

/-- The pages of a medium that has any bytes to a page can be counted. -/
theorem numPages_eq_ok (positive : 0 < m.pageSize) :
    ∃ count, m.numPages = .ok count ∧ count.toNat ≤ m.extent := by
  cases m with
  | memory s =>
    refine ⟨s.numPages, rfl, ?_⟩
    simp only [MemoryStore.numPages]
    rw [UInt32.toNat_ofNat']
    exact Nat.mod_le ..
  | file s =>
    have counted : s.numPages = .ok (UInt32.ofNat (s.file.length / s.pageSize)) :=
      if_neg (Nat.ne_of_gt positive)
    refine ⟨_, counted, ?_⟩
    rw [UInt32.toNat_ofNat']
    exact Nat.mod_le ..
  | foreign s => exact s.elim

theorem read_of_lt (positive : 0 < m.pageSize) (few : m.extent < 4294967295)
    (belongs : page.table = m.table) (inside : page.index.toNat < m.extent) :
    ∃ p, m.read page = .ok p := by
  cases m with
  | memory s =>
    exact ⟨_, MemoryStore.read_eq_ok.mpr ⟨belongs, _, Array.getElem?_eq_getElem inside, rfl⟩⟩
  | file s =>
    refine ⟨_, FileStore.read_eq_ok.mpr ⟨belongs, positive, ?_, rfl⟩⟩
    rw [UInt32.lt_iff_toNat_lt, FileStore.count_toNat (Nat.le_of_lt few)]
    exact inside
  | foreign s => exact s.elim

/-- An allocation makes a page that could not be read before. -/
theorem allocate_new (positive : 0 < m.pageSize) (small : m.pageSize ≤ Config.maxPageSize)
    (few : m.extent < 4294967295) :
    ∃ page, m.allocate.2 = .ok page ∧ (∀ p, m.read page ≠ .ok p) ∧
      ∃ p, m.allocate.1.read page = .ok p := by
  cases m with
  | memory s => exact s.allocate_new small few
  | file s => exact s.allocate_new positive small few
  | foreign s => exact s.elim

end Medium

/-- What an insert may fail for although there is room for its tuple. -/
def PoolError.Excused : PoolError → Prop
  | .deadlock _ _ => True
  | .evictionExhausted _ => True
  | .storage (.io _) => True
  | _ => False

namespace Pool

variable {pool before after mid : Pool} {txn a : TransactionId} {page : PageId} {ref : PageRef}
  {data : Bytes}

/-- The pages in the stores are as long as the pool wants them. -/
def Whole (pool : Pool) : Prop :=
  ∀ page data, pool.stored? page = some data → data.size = pool.config.pageSize

/-- Every page that is stored stays so, and whole pages make room for whole ones only. -/
structure Stocks (before after : Pool) : Prop where
  tables : SameTables before after
  kept : ∀ page, (before.stored? page).isSome → (after.stored? page).isSome
  whole : before.Whole → after.Whole

namespace Stocks

theorem refl (pool : Pool) : Stocks pool pool := ⟨.refl pool, fun _ => id, id⟩

theorem trans {a b c : Pool} (first : Stocks a b) (second : Stocks b c) : Stocks a c :=
  ⟨first.tables.trans second.tables, fun page there => second.kept page (first.kept page there),
    fun whole => second.whole (first.whole whole)⟩

end Stocks

theorem stocks_of_same (tables : SameTables before after)
    (stored : after.stored? = before.stored?) : Stocks before after := by
  refine ⟨tables, fun page there => by rwa [stored], fun whole page data found => ?_⟩
  rw [stored] at found
  rw [tables.config]
  exact whole page data found

theorem Quiet.stocks {fetches : PageId → Prop} (quiet : Quiet txn fetches before after)
    (coherent : before.Coherent) (sized : before.Sized) (tidy : before.Tidy) :
    Stocks before after := by
  obtain ⟨_, tables, _, kept⟩ := quiet.effect coherent
  refine ⟨tables, fun page there => ?_, fun whole page data found => ?_⟩
  · obtain ⟨data, found⟩ := Option.isSome_iff_exists.mp there
    rw [kept page data found]
    rfl
  · rw [tables.config]
    rcases quiet.blank coherent sized tidy found with old | ⟨_, rfl⟩
    · exact whole page data old
    · exact Bytes.size_zeros _

theorem Effect.stocks {op : Operation} {result : Pool × Progress Answer}
    (effect : Effect txn op pool result) (coherent : pool.Coherent) (sized : pool.Sized)
    (tidy : pool.Tidy) : Stocks pool result.1 := by
  cases effect with
  | waits quiet => exact quiet.stocks coherent sized tidy
  | fails quiet => exact quiet.stocks coherent sized tidy
  | answers quiet => exact quiet.stocks coherent sized tidy
  | writes _ quiet _ _ _ _ _ tables _ view =>
    exact (quiet.stocks coherent sized tidy).trans
      (stocks_of_same tables (congrArg View.stored view))

/-! ## Endings and stored pages -/

theorem Coherent.flushPage_stocks (coherent : pool.Coherent) (page : PageId) :
    Stocks pool (pool.flushPage page).1 := by
  obtain ⟨_, tables, ⟨_, view⟩ | ⟨_, _, view⟩⟩ := coherent.flushPage page
  · have stored : ∀ q, (pool.flushPage page).1.stored? q =
        if q ∈ [page] then ((pool.draft? q).map Prod.snd).or (pool.stored? q)
        else pool.stored? q := congrFun (congrArg View.stored view)
    refine ⟨tables, fun q there => ?_, fun whole q data found => ?_⟩
    · rw [stored]
      split
      · cases pool.draft? q with
        | none => exact there
        | some draft => rfl
      · exact there
    · rw [tables.config]
      rw [stored] at found
      split at found
      · cases draft : pool.draft? q with
        | none =>
          rw [draft] at found
          exact whole q data found
        | some d =>
          obtain ⟨owner, bytes⟩ := d
          rw [draft] at found
          cases found
          obtain ⟨ref, held, _, rfl⟩ := draft?_eq_some.mp draft
          exact (coherent.filed q ref held).size
      · exact whole q data found
  · exact stocks_of_same tables (congrArg View.stored view)

theorem Coherent.flushEach_stocks (coherent : pool.Coherent) (pages : List PageId) :
    Stocks pool (pool.flushEach pages).1 :=
  coherent.flushEach_all .refl .trans (fun _ page here => here.flushPage_stocks page) pages

theorem Coherent.flushCached_stocks (coherent : pool.Coherent)
    (cached : List (PageId × PageRef)) : Stocks pool (pool.flushCached cached).1 :=
  coherent.flushCached_all .refl .trans (fun _ page here => here.flushPage_stocks page) cached

theorem Coherent.commit_stocks (coherent : pool.Coherent) (txn : TransactionId) :
    Stocks pool (pool.commit txn).1 := by
  have flushed := coherent.flushEach_stocks (pool.locks.pagesHeldBy txn)
  simp only [Pool.commit, flushPages]
  cases outcome : pool.flushEach (pool.locks.pagesHeldBy txn) with
  | mk moved answer =>
    rw [outcome] at flushed
    cases answer with
    | error e => exact flushed
    | ok _ => exact flushed.trans (stocks_of_same (letGo_media moved txn).toSameTables rfl)

theorem Coherent.abort_stocks (coherent : pool.Coherent) (txn : TransactionId) :
    Stocks pool (pool.abort txn).1 := by
  obtain ⟨_, media, view, _⟩ := coherent.abort txn
  exact stocks_of_same media.toSameTables (congrArg View.stored view)

theorem Coherent.ending_stocks (coherent : pool.Coherent) (txn : TransactionId)
    (ending : Ending) : Stocks pool (ending.run pool txn).1 := by
  rcases ending_pool pool txn ending with eq | eq | eq
  · rw [eq]
    exact coherent.commit_stocks txn
  · rw [eq]
    exact coherent.abort_stocks txn
  · rw [eq]
    exact (coherent.commit_stocks txn).trans ((coherent.commit txn).1.abort_stocks txn)

end Pool

end TransactionalPages
