import TransactionalPages.Proofs.Admission
import TransactionalPages.Proofs.FirstFit

/-!
# Scans and single reads

A scan goes through the pages of a table in order, shares each of them and lists
what is live on it. Pages have to leave the cache for others on the way, and come
back as they were. So what a scan has listed when it comes through is what there
is to be seen.

A record that is read afterwards is on a page that the transaction shares already,
and nothing is to be seen there but what the scan has seen. If the page has left
the cache it may be that it cannot be read again, or that there is no place for it.
-/

namespace TransactionalPages

namespace LockTable

variable {t : LockTable} {txn : TransactionId} {page : PageId}

/-- Who holds a page in any mode is granted a share of it, which changes nothing. -/
theorem AtLeast.share (held : t.AtLeast txn page .shared) : t.acquire txn page .shared = some t := by
  obtain ⟨mode, found, _⟩ := held
  simp only [LockTable.acquire]
  rw [found]
  cases mode with
  | shared => rfl
  | exclusive => rfl

end LockTable

/-- Rows come in the order of their pages, and on one page in the order of their slots. -/
def HeapTable.Precedes (a b : RecordId × Bytes) : Prop :=
  a.1.page.index < b.1.page.index ∨ a.1.page.index = b.1.page.index ∧ a.1.slot < b.1.slot

namespace Pool

variable {pool base mid now after : Pool} {txn : TransactionId} {id : TableId} {page : PageId}
  {ref : PageRef} {count : Nat} {rows found : HeapTable.Rows} {data : Bytes}

/-! ## Listing -/

/-- The rows are what is to be seen on the pages of a table below `count`, in order. -/
structure Listed (pool : Pool) (id : TableId) (count : Nat) (rows : HeapTable.Rows) : Prop where
  ordered : rows.Pairwise HeapTable.Precedes
  mem_iff : ∀ record t, (record, t) ∈ rows ↔
    record.page.table = id ∧ record.page.index.toNat < count ∧
      ∃ data, pool.visible? record.page = some data ∧ SlottedPage.get data record.slot = .ok t

theorem listed_nil (pool : Pool) (id : TableId) : pool.Listed id 0 [] where
  ordered := List.Pairwise.nil
  mem_iff record t := by simp

/-- One more page is listed. -/
theorem Listed.append (listed : pool.Listed id count rows) {index : UInt32}
    (number : index.toNat = count) (visible : pool.visible? ⟨id, index⟩ = some data) :
    pool.Listed id (count + 1)
      (rows ++ (SlottedPage.liveTuples data).map fun t => (⟨⟨id, index⟩, t.1⟩, t.2)) := by
  constructor
  case ordered =>
    refine List.pairwise_append.mpr ⟨listed.ordered, ?_, fun a earlier b later => ?_⟩
    · rw [List.pairwise_map]
      exact (SlottedPage.pairwise_liveTuples data).imp fun before => Or.inr ⟨rfl, before⟩
    · obtain ⟨t, _, rfl⟩ := List.mem_map.mp later
      have below := ((listed.mem_iff a.1 a.2).mp earlier).2.1
      exact Or.inl (UInt32.lt_iff_toNat_lt.mpr (Nat.lt_of_lt_of_eq below number.symm))
  case mem_iff =>
    intro record t
    rw [List.mem_append, listed.mem_iff, List.mem_map]
    constructor
    · rintro (⟨own, below, seen⟩ | ⟨⟨slot, t⟩, live, same⟩)
      · exact ⟨own, Nat.lt_succ_of_lt below, seen⟩
      · cases same
        have here : index.toNat < count + 1 := Nat.lt_succ_of_le (Nat.le_of_eq number)
        exact ⟨rfl, here, data, visible, SlottedPage.mem_liveTuples.mp live⟩
    · obtain ⟨⟨table, i⟩, slot⟩ := record
      rintro ⟨rfl, below, seen, there, live⟩
      rcases lt_or_eq_of_lt_succ number below with earlier | rfl
      · exact Or.inl ⟨rfl, earlier, seen, there, live⟩
      · cases visible.symm.trans there
        exact Or.inr ⟨(slot, t), SlottedPage.mem_liveTuples.mpr live, rfl⟩

/-- A transaction has gone through the pages of a table below `count`. It shares them, and has
listed what is to be seen on them. -/
structure Swept (txn : TransactionId) (id : TableId) (base : Pool) (count : Nat)
    (rows : HeapTable.Rows) (mid : Pool) : Prop where
  drift : Drift txn base mid
  media : SameMedia base mid
  listed : base.Listed id count rows
  whole : ∀ index : UInt32, index.toNat < count → ∃ data,
    base.visible? ⟨id, index⟩ = some data ∧ data.size = base.config.pageSize
  held : ∀ index : UInt32, index.toNat < count → mid.locks.AtLeast txn ⟨id, index⟩ .shared

theorem Swept.pass (swept : Swept txn id base count rows mid) (faithful : base.Faithful)
    {index : UInt32} (number : index.toNat = count)
    (served : Served txn ⟨id, index⟩ .shared ref mid now) :
    Swept txn id base (count + 1)
      (rows ++ (SlottedPage.liveTuples (now.object ref).data).map
        fun t => (⟨⟨id, index⟩, t.1⟩, t.2)) now := by
  have drift := swept.drift.trans served.drift
  have visible : base.visible? ⟨id, index⟩ = some (now.object ref).data := by
    rw [← faithful.visible?_drift swept.drift swept.media]
    exact served.visible? (faithful.drift swept.drift)
  refine ⟨drift, swept.media.trans served.media, swept.listed.append number visible,
    fun i below => ?_, fun i below => ?_⟩
  · rcases lt_or_eq_of_lt_succ number below with earlier | rfl
    · exact swept.whole i earlier
    · refine ⟨_, visible, ?_⟩
      rw [← drift.shape.config]
      exact ((drift.formed faithful.formed).shelved _ ref served.filed).size
  · rcases lt_or_eq_of_lt_succ number below with earlier | rfl
    · exact (swept.held i earlier).acquire served.granted
    · exact LockTable.atLeast_acquired served.granted

end Pool

open Pool in
/-- A scan that comes through has gone through all of its pages. -/
theorem HeapTable.scanFrom_sweeps {base mid after : Pool} {txn : TransactionId} {id : TableId}
    {left count : Nat} {index : UInt32} {found rows : HeapTable.Rows} (faithful : base.Faithful)
    (swept : Swept txn id base count found mid) (number : index.toNat = count)
    (bound : count + left < 4294967296)
    (ran : mid.run txn (scanFrom id left index found) = (after, .done (.ok rows))) :
    Swept txn id base (count + left) rows after := by
  induction left generalizing mid count index found with
  | zero =>
    cases ran
    exact swept
  | succ left ih =>
    obtain ⟨ref, now, served, ran⟩ := run_fetchOrStop_ok ran
    rw [run] at ran
    obtain ⟨tuples, live, ran⟩ := run_withResult_ok ran
    have tuples_eq : tuples = SlottedPage.liveTuples (now.object ref).data := by
      simp only [SlottedPage.liveTuples?] at live
      split at live
      · cases live
      · exact (Except.ok.inj live).symm
    subst tuples_eq
    have next : (index + 1).toNat = count + 1 := by
      rw [UInt32.toNat_add, UInt32.toNat_one]
      omega
    have done := ih (swept.pass faithful number served) next (by omega) ran
    rwa [Nat.add_assoc, Nat.add_comm 1 left] at done

namespace Pool

variable {pool base mid now after : Pool} {txn : TransactionId} {id : TableId} {page : PageId}
  {ref : PageRef} {rows : HeapTable.Rows} {data : Bytes}

theorem Faithful.scan_sweeps (faithful : pool.Faithful) {store : StoreRef}
    (answered : pool.submit txn (.scan id store) = (after, .done (.ok (.rows rows)))) :
    ∃ count, (pool.store store).medium.numPages = .ok count ∧
      Swept txn id pool count.toNat rows after := by
  have answered : finish txn (pool.run txn ((HeapTable.scan id store).map .rows)) =
    (after, .done (.ok (.rows rows))) := answered
  obtain ⟨last, ran⟩ := finish_done_ok answered
  rw [ran] at answered
  cases answered
  obtain ⟨_, ⟨⟩, ran⟩ := run_map_ok ran
  rw [HeapTable.scan, run] at ran
  obtain ⟨count, counted, ran⟩ := run_withResult_ok ran
  refine ⟨count, ?_, ?_⟩
  · rcases pool.countPages_result store with reached | stopped
    · exact reached.symm.trans counted
    · cases stopped.symm.trans counted
  · have start : Swept txn id pool 0 [] (pool.countPages store).1 :=
      ⟨.count .start store, pool.countPages_media store, listed_nil pool id,
        fun i below => absurd below (Nat.not_lt_zero _),
        fun i below => absurd below (Nat.not_lt_zero _)⟩
    have small := count.toNat_lt
    have swept := HeapTable.scanFrom_sweeps faithful start rfl (by omega) ran
    rwa [Nat.zero_add] at swept

/-! ## Reading a record -/

/-- A page that is there and whole is not served only if the store reports an error or the cache
has no place for it. -/
theorem LoadFailure.passing {e : PoolError} (failure : LoadFailure pool page e)
    (there : pool.stored? page = some data) (whole : data.size = pool.config.pageSize) :
    (∃ capacity, e = .evictionExhausted capacity) ∨ ∃ cause, e = .storage (.io cause) := by
  have excused := failure.excused there whole
  cases e with
  | evictionExhausted capacity => exact Or.inl ⟨capacity, rfl⟩
  | storage cause =>
    cases cause with
    | io io => exact Or.inr ⟨io, rfl⟩
    | _ => cases excused
  | deadlock => cases failure
  | _ => cases excused

/-- A page that is to be seen is served as it is seen, unless it cannot be brought back. -/
theorem Faithful.load_answers (faithful : pool.Faithful) (visible : pool.visible? page = some data)
    (whole : data.size = pool.config.pageSize) :
    (∃ ref, (pool.load page).2 = .ok ref ∧ ((pool.load page).1.object ref).data = data) ∨
      (∃ capacity, (pool.load page).2 = .error (.evictionExhausted capacity)) ∨
      ∃ cause, (pool.load page).2 = .error (.storage (.io cause)) := by
  cases loaded : (pool.load page).2 with
  | error e =>
    right
    obtain ⟨absent, failure⟩ := load_error loaded
    rw [visible?_of_uncached absent] at visible
    rcases failure.passing visible whole with ⟨capacity, rfl⟩ | ⟨cause, rfl⟩
    · exact Or.inl ⟨capacity, rfl⟩
    · exact Or.inr ⟨cause, rfl⟩
  | ok ref =>
    left
    -- the load changes nothing that is to be seen, whoever asks for it
    have drift : Drift default pool (pool.load page).1 := Drift.start.load page
    have same := faithful.visible?_drift drift (pool.load_media page)
    have filed := visible?_of_cached (load_filed loaded)
    rw [same, visible] at filed
    exact ⟨ref, rfl, (Option.some.inj filed).symm⟩

/-- A record on a page that the transaction shares is read at once, unless the page cannot be
brought back into the cache. -/
theorem Faithful.get_answers (faithful : pool.Faithful) (record : RecordId)
    (own : record.page.table = id) (held : pool.locks.AtLeast txn record.page .shared)
    (visible : pool.visible? record.page = some data) (whole : data.size = pool.config.pageSize) :
    ∃ result, (pool.submit txn (.get id record)).2 = .done result ∧
      ((∃ capacity, result = .error (.evictionExhausted capacity)) ∨
        (∃ cause, result = .error (.storage (.io cause))) ∨
        ∀ t, result = .ok (.tuple t) ↔ SlottedPage.get data record.slot = .ok t) := by
  have asked : pool.requestLock txn record.page .shared false = (pool, .granted) := by
    rw [Pool.requestLock, held.share]
    rfl
  -- the program of the read, behind the lock on the page
  show ∃ result, (finish txn (pool.run txn ((HeapTable.get id record).map .tuple))).2 = _ ∧ _
  simp only [HeapTable.get, HeapTable.onOwnPage]
  rw [if_pos own]
  simp only [Program.fetchOrStop, Program.map, run, Permission.mode]
  rw [asked]
  dsimp only
  rcases faithful.load_answers visible whole with
    ⟨ref, loaded, seen⟩ | ⟨capacity, loaded⟩ | ⟨cause, loaded⟩
  · rw [loaded]
    simp only [Program.map, run]
    rw [seen]
    cases read : SlottedPage.get data record.slot with
    | error e =>
      refine ⟨.error (.storage e), rfl, Or.inr (Or.inr fun t => ?_)⟩
      constructor
      · intro answered
        cases answered
      · intro live
        cases live
    | ok found =>
      refine ⟨.ok (.tuple found), rfl, Or.inr (Or.inr fun t => ?_)⟩
      simp
  · rw [loaded]
    exact ⟨_, rfl, Or.inl ⟨capacity, rfl⟩⟩
  · rw [loaded]
    exact ⟨_, rfl, Or.inr (Or.inl ⟨cause, rfl⟩)⟩

/-- What a scan of the pages of a table below `count` answers with, and how it leaves the pool. -/
structure Scans (txn : TransactionId) (id : TableId) (count : UInt32) (rows : HeapTable.Rows)
    (before after : Pool) : Prop where
  listed : before.Listed id count.toNat rows
  /-- A record of these pages that is read next is read as it was listed. -/
  agrees : ∀ record : RecordId, record.page.table = id → record.page.index < count →
    ∃ result, (after.submit txn (.get id record)).2 = .done result ∧
      ((∃ capacity, result = .error (.evictionExhausted capacity)) ∨
        (∃ cause, result = .error (.storage (.io cause))) ∨
        ∀ t, (record, t) ∈ rows ↔ result = .ok (.tuple t))
  held : ∀ index < count, after.locks.AtLeast txn ⟨id, index⟩ .shared
  others : ∀ a page, a ≠ txn → after.locks.mode? a page = before.locks.mode? a page
  visible : after.visible? = before.visible?
  stored : ∀ store, (after.store store).medium = (before.store store).medium

theorem Swept.scans {count : UInt32} (swept : Swept txn id pool count.toNat rows after)
    (faithful : pool.Faithful) : Scans txn id count rows pool after := by
  have later := faithful.drift swept.drift
  have visible := faithful.visible?_drift swept.drift swept.media
  constructor
  case listed => exact swept.listed
  case agrees =>
    intro record own below
    obtain ⟨⟨table, index⟩, slot⟩ := record
    cases own
    obtain ⟨data, seen, whole⟩ := swept.whole index below
    rw [← visible] at seen
    rw [← swept.media.config] at whole
    obtain ⟨result, done, answer⟩ :=
      later.get_answers ⟨⟨table, index⟩, slot⟩ rfl (swept.held index below) seen whole
    refine ⟨result, done, ?_⟩
    rcases answer with exhausted | failed | answer
    · exact Or.inl exhausted
    · exact Or.inr (Or.inl failed)
    · refine Or.inr (Or.inr fun t => ?_)
      rw [answer, swept.listed.mem_iff, ← visible]
      constructor
      · rintro ⟨_, _, there, seenThere, live⟩
        cases seen.symm.trans seenThere
        exact live
      · intro live
        exact ⟨rfl, below, data, seen, live⟩
  case held => exact fun index below => swept.held index below
  case others => exact fun a page other => swept.drift.others other page
  case visible => exact visible
  case stored => exact swept.media.medium

end Pool

namespace Interleaving

/-- A scan that comes through at once answers with the rows of its table in order, which are those
that the transaction reads next record by record, if a page that has left the cache can be brought
back. It shares the pages then, and nothing else has changed that is to be seen. -/
theorem scan_agrees_with_reads {config : Config} {catalog : Catalog Table} {stores : Array Store}
    {objects : Array Page} {pool reached after : Pool}
    (created : Pool.create config catalog stores objects = .ok pool) (heaps : pool.OverHeaps)
    (deeds : List Deed) (tends : (start pool).Tends deeds)
    (reaches : ((start pool).handleAll deeds).pool = reached) (txn : TransactionId)
    (id : TableId) (store : StoreRef) {rows : HeapTable.Rows}
    (answered : reached.submit txn (.scan id store) = (after, .done (.ok (.rows rows)))) :
    ∃ count, (reached.store store).medium.numPages = .ok count ∧
      Pool.Scans txn id count rows reached after := by
  have coherent := Pool.coherent_create created heaps
  have faithful := (ready_start coherent.formed).handleAll_faithful coherent.faithful tends
  rw [reaches] at faithful
  obtain ⟨count, counted, swept⟩ := faithful.scan_sweeps answered
  exact ⟨count, counted, swept.scans faithful⟩

/-- A page of 64 bytes with a tuple, a deleted slot and a slot that points outside the page. -/
def patchyPage : Bytes :=
  #[3, 0, 6, 0, 7, 8] ++ Bytes.zeros 46 ++ #[200, 0, 5, 0, 0, 0, 0, 0, 4, 0, 2, 0]

/-- Three pages, the second of which is blank. -/
def patchyStore : Store :=
  .reliable (.memory ⟨⟨1⟩, 64, #[patchyPage, Bytes.zeros 64, patchyPage]⟩)

/-- With room for two pages in the cache, a transaction has put a tuple onto the first page and
scans three. The third page takes the place of the second one. -/
theorem scan_passes_evicted_page : ∃ pool reached after rows,
    Pool.create (Config.sized 2 64) (Catalog.single "a" patchyStore.medium) #[patchyStore] #[] =
      .ok pool ∧
    (start pool).Tends [.act (.call ⟨1⟩ (.mutate ⟨1⟩ (.insert #[9])))] ∧
    ((start pool).handleAll [.act (.call ⟨1⟩ (.mutate ⟨1⟩ (.insert #[9])))]).pool = reached ∧
    reached.submit ⟨1⟩ (.scan ⟨1⟩ ⟨0⟩) = (after, .done (.ok (.rows rows))) ∧
    rows = [(⟨⟨⟨1⟩, 0⟩, 0⟩, #[7, 8]), (⟨⟨⟨1⟩, 0⟩, 3⟩, #[9]), (⟨⟨⟨1⟩, 2⟩, 0⟩, #[7, 8])] ∧
    after.cache.order = [⟨⟨1⟩, 0⟩, ⟨⟨1⟩, 2⟩] ∧
    ∃ count, (reached.store ⟨0⟩).medium.numPages = .ok count ∧
      Pool.Scans ⟨1⟩ ⟨1⟩ count rows reached after := by
  have created : Pool.create (Config.sized 2 64) (Catalog.single "a" patchyStore.medium)
    #[patchyStore] #[] = .ok _ := rfl
  refine ⟨_, _, _, [(⟨⟨⟨1⟩, 0⟩, 0⟩, #[7, 8]), (⟨⟨⟨1⟩, 0⟩, 3⟩, #[9]), (⟨⟨⟨1⟩, 2⟩, 0⟩, #[7, 8])],
    created, by decide +kernel, rfl, eq_done_of_answer? (by decide +kernel), rfl,
    by decide +kernel, ?_⟩
  exact scan_agrees_with_reads created (Pool.heaps_single created) _ (by decide +kernel) rfl ⟨1⟩
    ⟨1⟩ ⟨0⟩ (eq_done_of_answer? (by decide +kernel))

end Interleaving

end TransactionalPages
