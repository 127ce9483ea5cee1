import TransactionalPages.Proofs.RepeatedCommit
import TransactionalPages.Proofs.Staleness

/-!
# What a commit forces

A commit that succeeds has written the dirty pages that its transaction holds in the
cache to the places that they have in the stores of their tables by then. It leaves
the clean ones alone, also one that is not as its store says, because it was written
to without a tag or because its table has been replaced. All else is as it was, except
that a store may have become longer on the way to the place of a page.
-/

namespace TransactionalPages

namespace Pool

variable {pool : Pool} {txn : TransactionId} {page : PageId} {parted : PageId → Prop}

/-- The store of the table of a page can count its pages. -/
def Legible (pool : Pool) (page : PageId) : Prop :=
  ∃ table, pool.catalog.file? page.table = some table ∧
    (pool.store table.store).medium.Countable ∧ ¬(pool.store table.store).medium.Unsized

/-- As long as pages can be counted, what is at the place of a page is what is read. -/
theorem Legible.stored? (legible : pool.Legible page) (heaps : pool.OverHeaps) {data : Bytes}
    (there : pool.block? page = some data) : pool.stored? page = some data := by
  obtain ⟨table, known, countable, sized⟩ := legible
  rw [block?_of_known known] at there
  have belongs : page.table = (pool.store table.store).medium.table :=
    (heaps _ _ known).2.2.symm
  refine stored?_eq_some.mpr ⟨table, known, ?_⟩
  exact (Medium.read_eq_ok_iff_block? countable sized).mpr ⟨belongs, there⟩

/-- How a commit that succeeds leaves a pool in which some pages have been parted from what their
stores say. -/
structure Forced (txn : TransactionId) (parted : PageId → Prop) (before after : Pool) : Prop where
  cleaned : ∀ page ref, before.locks.holds txn page = true → before.cache.peek? page = some ref →
    (after.object ref).dirtier = none
  /-- What the transaction held in the cache has its place in the store of its table, unless it was
  clean already and not what the store said. -/
  forced : ∀ page ref, before.locks.holds txn page = true → before.cache.peek? page = some ref →
    ((before.object ref).isDirty = true ∨ ¬parted page) →
    after.block? page = some (after.object ref).data ∧
      (after.Legible page → after.stored? page = some (after.object ref).data)
  bytes : ∀ ref, (after.object ref).data = (before.object ref).data
  /-- Only the places of dirty pages that the transaction held have other bytes. -/
  kept : ∀ store index data,
    (∀ page, before.locks.holds txn page = true → before.Due page store → page.index ≠ index) →
    (before.store store).medium.block? index = some data →
    (after.store store).medium.block? index = some data
  /-- Places that a store did not have before it has for the sake of such a page. -/
  filled : ∀ store index, (before.store store).medium.block? index = none →
    (after.store store).medium.block? index ≠ none →
    ∃ page, before.locks.holds txn page = true ∧ before.Due page store ∧ index ≤ page.index
  media : ∀ store, (∀ page, before.locks.holds txn page = true → ¬before.Due page store) →
    (after.store store).medium = (before.store store).medium
  spared : ∀ ref, (∀ page, before.locks.holds txn page = true →
    before.cache.peek? page ≠ some ref) → after.object ref = before.object ref
  cache : after.cache = before.cache
  catalog : after.catalog = before.catalog
  released : ∀ page, after.locks.mode? txn page = none
  unlisted : after.locks.pagesHeldBy txn = []
  unblocked : after.waits.waitsFor txn = []
  locks : ∀ a page, a ≠ txn → after.locks.mode? a page = before.locks.mode? a page
  waits : ∀ a, a ≠ txn → after.waits.waitsFor a = before.waits.waitsFor a

/-- What a commit does to the stores and the pages is done when it lets its transaction go. -/
theorem Owned.forced {strayed : TransactionId → PageId → Prop} (owned : pool.Owned strayed)
    (fresh : ∀ page, pool.Stale page → parted page) (succeeds : (pool.commit txn).2 = .ok ()) :
    Forced txn parted pool (pool.commit txn).1 := by
  obtain ⟨answer, ended⟩ := commit_eq_ok succeeds
  rw [ended]
  simp only [flushPages] at answer ⊢
  have sound := owned.locks
  have writes := (flushEach_writesBack owned.named owned.heaps _ answer).congr
    (LockTable.mem_pagesHeldBy sound txn)
  have heaps := owned.heaps.congr (flushEach_fades (pool.locks.pagesHeldBy txn) pool).stores
  generalize (pool.flushEach (pool.locks.pagesHeldBy txn)).1 = moved at writes heaps ⊢
  have modes : ∀ a page, (moved.letGo txn).locks.mode? a page =
      if a = txn then none else pool.locks.mode? a page := by
    intro a page
    show (moved.locks.releaseAll txn).mode? a page = _
    rw [writes.control.locks, LockTable.releaseAll_mode? sound]
  have edges : ∀ a, (moved.letGo txn).waits.waitsFor a =
      if a = txn then [] else pool.waits.waitsFor a := by
    intro a
    show (moved.waits.clear txn).waitsFor a = _
    rw [writes.control.waits, WaitForGraph.waitsFor_clear]
  have clean : ∀ page ref, pool.locks.holds txn page = true → pool.cache.peek? page = some ref →
      (moved.object ref).dirtier = none := by
    intro page ref held cached
    rw [writes.cleaned page ref held cached]
    rfl
  constructor
  case cleaned => exact clean
  case forced =>
    intro page ref held cached ready
    have placed : moved.block? page = some (moved.object ref).data := by
      refine Classical.byContradiction fun differs => ?_
      have stale : moved.Stale page :=
        ⟨ref, by rwa [writes.cache], clean page ref held cached, differs⟩
      rcases ready with dirty | whole
      · exact differs (by rw [writes.bytes]; exact writes.forced page ref held cached dirty)
      · -- a page that is stale now has been so before
        have kept : KeepsFresh parted pool moved := writes.keepsFresh owned.named owned.heaps
        exact whole ((kept page stale).elim (fresh page) id)
    refine ⟨placed, fun legible => ?_⟩
    have readable : moved.Legible page := legible
    exact readable.stored? heaps placed
  case bytes => exact writes.bytes
  case kept => exact writes.kept
  case filled =>
    intro store index missing found
    refine Classical.byContradiction fun none => found ?_
    refine (writes.beyond store index fun page held due => ?_).trans missing
    exact UInt32.not_le.mp fun reaches => none ⟨page, held, due, reaches⟩
  case media => exact writes.media
  case spared => exact writes.spared
  case cache => exact writes.cache
  case catalog => exact writes.control.catalog
  case released =>
    intro page
    rw [modes, if_pos rfl]
  case unlisted =>
    refine List.eq_nil_iff_forall_not_mem.mpr fun page here => ?_
    have released : (moved.letGo txn).locks.Sound :=
      LockTable.sound_releaseAll (writes.control.locks ▸ sound) txn
    rw [LockTable.mem_pagesHeldBy released, LockTable.holds_iff] at here
    obtain ⟨mode, found⟩ := here
    rw [modes, if_pos rfl] at found
    cases found
  case unblocked => rw [edges, if_pos rfl]
  case locks =>
    intro a page other
    rw [modes, if_neg other]
  case waits =>
    intro a other
    rw [edges, if_neg other]

end Pool

namespace Interleaving

/-- Whatever became of the tables and the pages, a commit that succeeds forces the dirty pages that
its transaction holds and no others, lets the transaction go, and leaves everything else as it was.
The clean pages that it holds are as their stores say, unless they were parted from them before. -/
theorem commit_forces {config : Config} {catalog : Catalog Table} {stores : Array Store}
    {objects : Array Page} {pool : Pool} {incidents : List Incident} {reached : Interleaving}
    (created : Pool.create config catalog stores objects = .ok pool) (heaps : pool.OverHeaps)
    (tables : (start pool).StaysOverHeaps incidents)
    (reaches : (start pool).undergoAll incidents = reached) (txn : TransactionId)
    (succeeds : (reached.pool.commit txn).2 = .ok ()) :
    Pool.Forced txn ((start pool).Parted incidents) reached.pool (reached.pool.commit txn).1 := by
  have started : (start pool).Even pool.config.pageSize fun _ => True :=
    even_start (Pool.coherent_create created heaps)
  refine (owned_after created heaps tables reaches).forced (fun page stale => ?_) succeeds
  rw [← reaches] at stale
  refine (started.stale_parted tables stale).resolve_left ?_
  -- nothing is cached in the beginning
  rintro ⟨ref, held, _⟩
  obtain ⟨_, rfl⟩ := Pool.create_eq_ok created
  cases held

/-- A store in memory with one page of sevens. -/
def sevens : Store := .reliable (.memory ⟨⟨1⟩, 64, #[Array.replicate 64 7]⟩)

/-- The table is replaced by one with a single page of sevens. -/
def replacesTable : List Incident :=
  [.store sevens, .register "b" (HeapTable.table ⟨1⟩ sevens.pageSize ⟨1⟩)]

/-- A transaction fetches both pages of a table and writes to the first of them, and the table is
replaced before it commits. -/
def writesAndReplaces : List Incident :=
  [.deed (.act (.call ⟨1⟩ (.fetch ⟨⟨1⟩, 0⟩ .readWrite))),
    .deed (.act (.call ⟨1⟩ (.fetch ⟨⟨1⟩, 1⟩ .readOnly))), .deed (.mark ⟨0⟩ (some ⟨1⟩)),
    .deed (.write ⟨0⟩ 0 #[8])] ++ replacesTable

/-- The dirty page is forced to the store of the new table. The clean one has no place there. -/
theorem replaced_table_is_written : ∃ pool reached,
    Pool.create (Config.sized 2 64) (Catalog.single "a" blankPair.medium) #[blankPair] #[] =
      .ok pool ∧
    (start pool).StaysOverHeaps writesAndReplaces ∧
    (start pool).undergoAll writesAndReplaces = reached ∧
    (reached.pool.commit ⟨1⟩).2 = .ok () ∧
    (reached.pool.block? ⟨⟨1⟩, 0⟩).map (Bytes.byte · 0) = some 7 ∧
    ((reached.pool.commit ⟨1⟩).1.block? ⟨⟨1⟩, 0⟩).map (Bytes.byte · 0) = some 8 ∧
    (reached.pool.commit ⟨1⟩).1.block? ⟨⟨1⟩, 1⟩ = none ∧
    Pool.Forced ⟨1⟩ ((start pool).Parted writesAndReplaces) reached.pool
      (reached.pool.commit ⟨1⟩).1 := by
  have created : Pool.create (Config.sized 2 64) (Catalog.single "a" blankPair.medium)
    #[blankPair] #[] = .ok ⟨Config.sized 2 64, Catalog.single "a" blankPair.medium, #[blankPair],
      #[], .empty, .empty, .empty 2⟩ := rfl
  have tables : (start ⟨Config.sized 2 64, Catalog.single "a" blankPair.medium, #[blankPair], #[],
      .empty, .empty, .empty 2⟩).StaysOverHeaps writesAndReplaces :=
    ⟨trivial, trivial, trivial, trivial, trivial, ⟨⟨1⟩, by decide +kernel,
      congrArg₂ (HeapTable.table · · ⟨1⟩) (by decide +kernel) (by decide +kernel)⟩, trivial⟩
  refine ⟨_, _, created, tables, rfl, by decide +kernel, by decide +kernel, by decide +kernel,
    by decide +kernel, ?_⟩
  exact commit_forces created (Pool.heaps_single created) tables rfl ⟨1⟩ (by decide +kernel)

/-- A commit answers that all went well, and a page that its transaction has only read is not as
the store of its table says, since that is another one by then. -/
theorem read_page_differs_from_store : ∃ pool reached,
    Pool.create (Config.sized 2 64) (Catalog.single "a" blankPair.medium) #[blankPair] #[] =
      .ok pool ∧
    (start pool).undergoAll
      (.deed (.act (.call ⟨1⟩ (.fetch ⟨⟨1⟩, 0⟩ .readOnly))) :: replacesTable) = reached ∧
    (start pool).StaysOverHeaps
      (.deed (.act (.call ⟨1⟩ (.fetch ⟨⟨1⟩, 0⟩ .readOnly))) :: replacesTable) ∧
    (reached.pool.commit ⟨1⟩).2 = .ok () ∧
    reached.pool.locks.holds ⟨1⟩ ⟨⟨1⟩, 0⟩ = true ∧
    (reached.pool.commit ⟨1⟩).1.cache.peek? ⟨⟨1⟩, 0⟩ = some ⟨0⟩ ∧
    ((reached.pool.commit ⟨1⟩).1.object ⟨0⟩).data = Bytes.zeros 64 ∧
    (reached.pool.commit ⟨1⟩).1.stored? ⟨⟨1⟩, 0⟩ = some (Array.replicate 64 7) := by
  refine ⟨⟨Config.sized 2 64, Catalog.single "a" blankPair.medium, #[blankPair], #[], .empty,
    .empty, .empty 2⟩, _, rfl, rfl, ?_, by decide +kernel, by decide +kernel, by decide +kernel,
    by decide +kernel, by decide +kernel⟩
  exact ⟨trivial, trivial, ⟨⟨1⟩, by decide +kernel,
      congrArg₂ (HeapTable.table · · ⟨1⟩) (by decide +kernel) (by decide +kernel)⟩, trivial⟩

end Interleaving

end TransactionalPages
