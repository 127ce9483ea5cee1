import TransactionalPages.Proofs.Backing
import TransactionalPages.Proofs.Blocks
import TransactionalPages.Proofs.Ownership
import TransactionalPages.Proofs.Retention
import TransactionalPages.Proofs.WriteBack

/-!
# Commits that stop halfway

A commit writes the dirty pages that its transaction holds in the order of the
pages, and the first of them that fails ends it. The pages before it are in their
stores by then, and clean. That page and those behind it have neither been written
nor lost their tags, and the bytes of all pages, the cache, the locks and the edges
are as they were.

Nothing is assumed of what stores say or of the sizes of pages. A page may be cached
that its store, which has come since, has no place for, and a write to it makes the
store longer. In the order of the pages that never reaches a page behind.
-/

namespace TransactionalPages

/-- Pages of one table are in the order of their numbers. -/
theorem PageId.index_lt {p q : PageId} (less : compare p q = .lt) (table : p.table = q.table) :
    p.index < q.index := by
  obtain ⟨t, i⟩ := p
  obtain ⟨u, j⟩ := q
  obtain rfl : t = u := table
  have less : (compare t t).then (compare i j) = .lt := less
  rw [Std.ReflOrd.compare_self, Ordering.eq_then] at less
  exact compareOfLessAndEq_eq_lt.mp less

namespace Pool

variable {pool base before mid after other : Pool} {txn : TransactionId} {page : PageId}
  {ref : PageRef} {store : StoreRef} {P Q : PageId → Prop} {pages : List PageId} {e : PoolError}

/-! ## Places and pages that are due -/

/-- What the store of its table has at the place of a page. -/
def block? (pool : Pool) (page : PageId) : Option Bytes :=
  (pool.catalog.file? page.table).bind fun table =>
    (pool.store table.store).medium.block? page.index

/-- A page is dirty in the cache, and the store is that of its table. -/
def Due (pool : Pool) (page : PageId) (store : StoreRef) : Prop :=
  pool.dirtier? page ≠ none ∧
    ∃ table, pool.catalog.file? page.table = some table ∧ table.store = store

theorem block?_eq_some {data : Bytes} : pool.block? page = some data ↔
    ∃ table, pool.catalog.file? page.table = some table ∧
      (pool.store table.store).medium.block? page.index = some data := Option.bind_eq_some_iff

/-- At one place there is one page. -/
theorem OverHeaps.due_eq (heaps : pool.OverHeaps) {p q : PageId} {store : StoreRef}
    (index : p.index = q.index) (due : pool.Due p store) {table : Table}
    (known : pool.catalog.file? q.table = some table) (same : table.store = store) : p = q := by
  obtain ⟨_, other, file, there⟩ := due
  have tables := heaps.apart file known (there.trans same.symm)
  obtain ⟨t, i⟩ := p
  obtain ⟨u, j⟩ := q
  obtain rfl : t = u := tables
  obtain rfl : i = j := index
  rfl

/-! ## Writing back -/

/-- The dirty ones of some pages were written to their stores and are clean, and nothing else has
changed, except that stores may have become longer on the way to the places of these pages. -/
structure WritesBack (among : PageId → Prop) (before after : Pool) : Prop where
  control : SameControl before after
  cache : after.cache = before.cache
  cleaned : ∀ page ref, among page → before.cache.peek? page = some ref →
    after.object ref = (before.object ref).markClean
  spared : ∀ ref, (∀ page, among page → before.cache.peek? page ≠ some ref) →
    after.object ref = before.object ref
  forced : ∀ page ref, among page → before.cache.peek? page = some ref →
    (before.object ref).isDirty = true → after.block? page = some (before.object ref).data
  kept : ∀ store index data, (∀ page, among page → before.Due page store → page.index ≠ index) →
    (before.store store).medium.block? index = some data →
    (after.store store).medium.block? index = some data
  behind : ∀ page, (∀ other, among other → compare other page = .lt) →
    after.block? page = before.block? page
  beyond : ∀ store index, (∀ page, among page → before.Due page store → page.index < index) →
    (after.store store).medium.block? index = (before.store store).medium.block? index
  media : ∀ store, (∀ page, among page → ¬before.Due page store) →
    (after.store store).medium = (before.store store).medium

namespace WritesBack

/-- The pages are cached under their own names, so that no two of them share an object. -/
theorem apart (named : before.Named) {p q : PageId} (held : before.cache.peek? p = some ref)
    (again : before.cache.peek? q = some ref) : p = q := by
  rw [← (named p ref held).2, (named q ref again).2]

theorem dirtier?_of_among (writes : WritesBack P before after) (here : P page) :
    after.dirtier? page = none := by
  cases held : before.cache.peek? page with
  | none =>
    rw [← writes.cache] at held
    exact dirtier?_of_uncached held
  | some ref =>
    have clean := writes.cleaned page ref here held
    rw [← writes.cache] at held
    rw [dirtier?_of_cached held, clean]
    rfl

theorem object_of_not_among (writes : WritesBack P before after) (named : before.Named)
    (elsewhere : ¬P page) (held : before.cache.peek? page = some ref) :
    after.object ref = before.object ref :=
  writes.spared ref fun _ here again => elsewhere (apart named again held ▸ here)

theorem dirtier?_of_not_among (writes : WritesBack P before after) (named : before.Named)
    (elsewhere : ¬P page) : after.dirtier? page = before.dirtier? page := by
  cases held : before.cache.peek? page with
  | none =>
    rw [dirtier?_of_uncached held]
    rw [← writes.cache] at held
    exact dirtier?_of_uncached held
  | some ref =>
    have same := writes.object_of_not_among named elsewhere held
    rw [dirtier?_of_cached held, ← same]
    rw [← writes.cache] at held
    exact dirtier?_of_cached held

theorem due (writes : WritesBack P before after) (named : before.Named) {store : StoreRef}
    (due : after.Due page store) : before.Due page store := by
  obtain ⟨dirty, table, known, same⟩ := due
  rw [writes.control.catalog] at known
  refine ⟨?_, table, known, same⟩
  by_cases here : P page
  · exact absurd (writes.dirtier?_of_among here) dirty
  · rwa [writes.dirtier?_of_not_among named here] at dirty

theorem bytes (writes : WritesBack P before after) (ref : PageRef) :
    (after.object ref).data = (before.object ref).data := by
  by_cases written : ∃ page, P page ∧ before.cache.peek? page = some ref
  · obtain ⟨page, here, held⟩ := written
    rw [writes.cleaned page ref here held]
    rfl
  · rw [writes.spared ref fun page here held => written ⟨page, here, held⟩]

theorem congr (writes : WritesBack P before after) (same : ∀ page, P page ↔ Q page) :
    WritesBack Q before after := by
  obtain rfl : P = Q := funext fun page => propext (same page)
  exact writes

/-- What was called and has not changed anything has written nothing back. -/
theorem of_sheds (sheds : Sheds before after) (cache : after.cache = before.cache) :
    WritesBack (fun _ => False) before after where
  control := sheds.control
  cache := cache
  cleaned _ _ none := none.elim
  spared ref _ := sheds.object ref
  forced _ _ none := none.elim
  kept store _ _ _ there := by rwa [sheds.media.medium]
  behind page _ := by simp only [block?, sheds.control.catalog, sheds.media.medium]
  beyond store index _ := by rw [sheds.media.medium]
  media store _ := sheds.media.medium store

theorem trans {a b c : Pool} (first : WritesBack P a b) (second : WritesBack Q b c)
    (named : a.Named) (still : b.Named) (heaps : a.OverHeaps) :
    WritesBack (fun page => P page ∨ Q page) a c where
  control := first.control.trans second.control
  cache := second.cache.trans first.cache
  cleaned page ref here held := by
    have again : b.cache.peek? page = some ref := by rwa [first.cache]
    by_cases before : P page
    · have clean := first.cleaned page ref before held
      by_cases later : Q page
      · rw [second.cleaned page ref later again, clean]
        rfl
      · rw [second.object_of_not_among still later again, clean]
    · rw [second.cleaned page ref (here.resolve_left before) again,
        first.object_of_not_among named before held]
  spared ref elsewhere := by
    rw [second.spared ref fun page here held => ?_, first.spared ref fun page here =>
      elsewhere page (Or.inl here)]
    rw [first.cache] at held
    exact elsewhere page (Or.inr here) held
  forced page ref here held dirty := by
    have again : b.cache.peek? page = some ref := by rwa [first.cache]
    by_cases before : P page
    · obtain ⟨table, known, there⟩ := block?_eq_some.mp (first.forced page ref before held dirty)
      refine block?_eq_some.mpr ⟨table, by rwa [second.control.catalog], ?_⟩
      refine second.kept _ _ _ (fun p _ due index => ?_) there
      -- the page is clean by now, and so is what has its place
      have same := heaps.due_eq index (first.due named due)
        (by rwa [← first.control.catalog]) rfl
      rw [same] at due
      exact due.1 (first.dirtier?_of_among before)
    · have same := first.object_of_not_among named before held
      rw [← same] at dirty ⊢
      exact second.forced page ref (here.resolve_left before) again dirty
  kept store index data elsewhere there := by
    refine second.kept store index data (fun p later due => ?_)
      (first.kept store index data (fun p here => elsewhere p (Or.inl here)) there)
    exact elsewhere p (Or.inr later) (first.due named due)
  behind page past := by
    rw [second.behind page fun p later => past p (Or.inr later),
      first.behind page fun p here => past p (Or.inl here)]
  beyond store index past := by
    rw [second.beyond store index fun p later due => past p (Or.inr later) (first.due named due),
      first.beyond store index fun p here => past p (Or.inl here)]
  media store idle := by
    rw [second.media store fun p later due => idle p (Or.inr later) (first.due named due),
      first.media store fun p here => idle p (Or.inl here)]

end WritesBack

/-! ## Page by page -/

theorem flushPage_unknown (unknown : pool.catalog.file? page.table = none) :
    pool.flushPage page = (pool, .error (.unknownTable page.table)) := by
  simp only [flushPage, findTable, unknown]

theorem flushPage_undrafted {table : Table} (known : pool.catalog.file? page.table = some table)
    (clean : pool.dirtier? page = none) : pool.flushPage page = (pool, .ok ()) := by
  simp only [flushPage, findTable, known]
  cases held : pool.cache.peek? page with
  | none => rfl
  | some ref =>
    rw [dirtier?_of_cached held] at clean
    exact if_neg (by simp [Page.isDirty, clean])

theorem flushPage_dirty {table : Table} (known : pool.catalog.file? page.table = some table)
    (held : pool.cache.peek? page = some ref) (dirty : (pool.object ref).isDirty = true) :
    pool.flushPage page = match pool.writeStore table.store (pool.object ref) with
      | (moved, .error e) => (moved, .error e)
      | (moved, .ok ()) => (moved.setObject ref (moved.object ref).markClean, .ok ()) := by
  simp only [flushPage, findTable, known, held]
  rw [if_pos dirty]
  cases pool.writeStore table.store (pool.object ref) with
  | mk moved outcome => cases outcome <;> rfl

theorem held_of_dirtier? (tag : pool.dirtier? page = some txn) :
    ∃ ref, pool.cache.peek? page = some ref ∧ (pool.object ref).isDirty = true := by
  obtain ⟨ref, held, dirty⟩ := dirtier?_eq_some.mp tag
  exact ⟨ref, held, by rw [Page.isDirty, dirty]; rfl⟩

theorem known_of_flushPage (answer : (pool.flushPage page).2 = .ok ()) :
    ∃ table, pool.catalog.file? page.table = some table := by
  cases known : pool.catalog.file? page.table with
  | some table => exact ⟨table, rfl⟩
  | none =>
    rw [flushPage_unknown known] at answer
    cases answer

/-- Whether a page is dirty or not, it goes back as it should, if that does not fail. -/
theorem flushPage_writesBack (named : pool.Named) (heaps : pool.OverHeaps)
    (answer : (pool.flushPage page).2 = .ok ()) :
    WritesBack (· = page) pool (pool.flushPage page).1 := by
  have control := pool.flushPage_control page
  have cache := pool.flushPage_cache page
  rcases pool.flushPage_cases page with
    ⟨undrafted, eq⟩ | ⟨table, ref, owner, medium, known, held, dirty, wrote, eq⟩ | ⟨_, _, _, _, eq⟩
  · have clean := dirtier?_of_undrafted undrafted
    rw [eq]
    refine ⟨.refl pool, rfl, ?_, fun _ _ => rfl, ?_, fun _ _ _ _ => id, fun _ _ => rfl,
      fun _ _ _ => rfl, fun _ _ => rfl⟩
    · rintro q ref rfl held
      rw [dirtier?_of_cached held] at clean
      show pool.object ref = { pool.object ref with dirtier := none }
      rw [← clean]
    · rintro q ref rfl held dirty
      rw [dirtier?_of_cached held] at clean
      simp [Page.isDirty, clean] at dirty
  · obtain ⟨inObjects, id⟩ := named page ref held
    have inStores := (heaps _ _ known).2.1
    have replaces := Medium.replaces wrote
    rw [id] at replaces
    have due : pool.Due page table.store := by
      refine ⟨?_, table, known, rfl⟩
      rw [dirtier?_of_cached held, dirty]
      exact Option.some_ne_none owner
    have stores : ∀ store, ((pool.flushed table.store ref medium).store store).medium =
        if store = table.store then medium else (pool.store store).medium := by
      intro store
      show ((pool.written table.store medium).store store).medium = _
      rw [written, store_setStore]
      by_cases here : store = table.store
      · rw [if_pos ⟨here, inStores⟩, if_pos here]
      · rw [if_neg fun both => here both.1, if_neg here]
    have found : ∀ q, (pool.flushed table.store ref medium).block? q =
        (pool.catalog.file? q.table).bind fun other =>
          (if other.store = table.store then medium
            else (pool.store other.store).medium).block? q.index := by
      intro q
      simp only [← stores]
      rfl
    rw [eq] at control cache ⊢
    refine ⟨control, cache, ?_, fun r elsewhere => ?_, ?_, fun store index data other there => ?_,
      fun q past => ?_, fun store index past => ?_, fun store idle => ?_⟩
    · rintro q r rfl again
      cases held.symm.trans again
      rw [object_flushed, if_pos ⟨rfl, inObjects⟩]
    · rw [object_flushed, if_neg]
      rintro ⟨rfl, _⟩
      exact elsewhere page rfl held
    · rintro q r rfl again _
      cases held.symm.trans again
      rw [found, known, Option.bind_some, if_pos rfl]
      exact replaces.here
    · rw [stores]
      split
      next here =>
        subst here
        exact replaces.kept index data (other page rfl due).symm there
      next => exact there
    · rw [found, block?]
      cases file : pool.catalog.file? q.table with
      | none => rfl
      | some f =>
        rw [Option.bind_some, Option.bind_some]
        split
        next here =>
          have tables := heaps.apart known file here.symm
          rw [here]
          exact replaces.behind q.index (PageId.index_lt (past page rfl) tables)
        next => rfl
    · rw [stores]
      split
      next here =>
        subst here
        exact replaces.behind index (past page rfl due)
      next => rfl
    · rw [stores, if_neg]
      rintro rfl
      exact idle page rfl due
  · rw [eq] at answer
    cases answer

/-! ## One after the other -/

theorem flushEach_writesBack (named : pool.Named) (heaps : pool.OverHeaps) (pages : List PageId)
    (went : (pool.flushEach pages).2 = .ok ()) :
    WritesBack (· ∈ pages) pool (pool.flushEach pages).1 := by
  induction pages generalizing pool with
  | nil => exact (WritesBack.of_sheds (.refl pool) rfl).congr fun page => by simp
  | cons page rest ih =>
    obtain ⟨here, later⟩ := flushEach_cons_ok went
    have fades := pool.flushPage_fades page
    have still := fades.named named
    have first := flushPage_writesBack named heaps here
    have others := ih still (heaps.congr fades.stores) later
    rw [flushEach_cons here]
    exact (first.trans others named still heaps).congr fun q => List.mem_cons.symm

/-! ## Stopping -/

/-- Writing pages back stops at the first of them that fails. -/
theorem flushEach_error (fails : (pool.flushEach pages).2 = .error e) :
    ∃ done page rest, pages = done ++ page :: rest ∧ (pool.flushEach done).2 = .ok () ∧
      (pool.flushEach done).1.flushPage page = ((pool.flushEach pages).1, .error e) := by
  induction pages generalizing pool with
  | nil => cases fails
  | cons page rest ih =>
    cases first : (pool.flushPage page).2 with
    | error cause =>
      rw [flushEach_cons_error first] at fails ⊢
      cases fails
      exact ⟨[], page, rest, rfl, rfl, Prod.ext rfl first⟩
    | ok _ =>
      rw [flushEach_cons first] at fails ⊢
      obtain ⟨done, q, left, split, went, stopped⟩ := ih fails
      refine ⟨page :: done, q, left, by rw [split, List.cons_append], ?_, ?_⟩
      · rw [flushEach_cons first]
        exact went
      · rw [flushEach_cons first]
        exact stopped

/-- Why writing a page back has failed: there is no such table, or its store has not written the
page. -/
inductive StopCause (page : PageId) (before after : Pool) : PoolError → Prop where
  | unregistered (unknown : before.catalog.file? page.table = none) :
    StopCause page before after (.unknownTable page.table)
  | unwritten {table : Table} {ref : PageRef} {tried : Store} {cause : StorageError}
    (known : before.catalog.file? page.table = some table)
    (held : before.cache.peek? page = some ref) (dirty : (before.object ref).isDirty = true)
    (refused : tried.write (before.object ref) = (after.store table.store, .error cause)) :
    StopCause page before after (.storage cause)

/-- What went before does not matter for a page that it has not written. -/
theorem StopCause.earlier (cause : StopCause page mid after e) (writes : WritesBack P base mid)
    (named : base.Named) (elsewhere : ¬P page) : StopCause page base after e := by
  cases cause with
  | unregistered unknown =>
    rw [writes.control.catalog] at unknown
    exact .unregistered unknown
  | unwritten known held dirty refused =>
    rw [writes.control.catalog] at known
    rw [writes.cache] at held
    rw [writes.object_of_not_among named elsewhere held] at dirty refused
    exact .unwritten known held dirty refused

/-- A page that could not be written leaves all but the count of its store's writes as it was. -/
theorem flushPage_sheds (fails : pool.flushPage page = (after, .error e)) :
    Sheds pool after ∧ after.cache = pool.cache := by
  have cache := pool.flushPage_cache page
  rw [fails] at cache
  rcases pool.flushPage_cases page with
    ⟨_, eq⟩ | ⟨_, _, _, _, _, _, _, _, eq⟩ | ⟨_, _, _, sheds, eq⟩
  · rw [fails] at eq
    cases eq
  · rw [fails] at eq
    cases eq
  · rw [fails] at eq
    cases eq
    exact ⟨sheds, cache⟩

theorem flushPage_cause (heaps : pool.OverHeaps)
    (fails : pool.flushPage page = (after, .error e)) : StopCause page pool after e := by
  cases known : pool.catalog.file? page.table with
  | none =>
    rw [flushPage_unknown known] at fails
    cases fails
    exact .unregistered known
  | some table =>
    cases tag : pool.dirtier? page with
    | none =>
      rw [flushPage_undrafted known tag] at fails
      cases fails
    | some owner =>
      obtain ⟨ref, held, dirty⟩ := held_of_dirtier? tag
      rw [flushPage_dirty known held dirty] at fails
      simp only [writeStore] at fails
      cases wrote : (pool.store table.store).write (pool.object ref) with
      | mk store outcome =>
        simp only [wrote] at fails
        cases outcome with
        | ok _ => cases fails
        | error cause =>
          cases fails
          refine .unwritten known held dirty (wrote.trans ?_)
          rw [store_setStore, if_pos ⟨rfl, (heaps _ _ known).2.1⟩]

/-- How a commit that stops at a page leaves a pool. -/
structure StopsAt (txn : TransactionId) (page : PageId) (e : PoolError) (before after : Pool) :
    Prop where
  held : before.locks.holds txn page = true
  /-- The pages before have been written back, and nothing else has been done. -/
  written : WritesBack (fun q => before.locks.holds txn q = true ∧ compare q page = .lt)
    before after
  kept : ∀ q, before.locks.holds txn q = true → compare q page ≠ .lt →
    after.block? q = before.block? q ∧ after.dirtier? q = before.dirtier? q
  bytes : ∀ ref, (after.object ref).data = (before.object ref).data
  cause : StopCause page before after e

/-- In order, the pages of a list are before, at, or behind one of them. -/
theorem before_iff {done rest : List PageId} {q : PageId}
    (ordered : (done ++ page :: rest).Pairwise fun p q => compare p q = .lt) :
    (q ∈ done ↔ q ∈ done ++ page :: rest ∧ compare q page = .lt) ∧
      (q ∈ page :: rest ↔ q ∈ done ++ page :: rest ∧ compare q page ≠ .lt) := by
  obtain ⟨_, behind, across⟩ := List.pairwise_append.mp ordered
  have earlier : ∀ q ∈ done, compare q page = .lt := fun q listed =>
    across q listed page List.mem_cons_self
  have later : ∀ q ∈ page :: rest, compare q page ≠ .lt := by
    intro q listed
    rcases List.mem_cons.mp listed with rfl | listed
    · rw [Std.ReflOrd.compare_self]
      nofun
    · have less := (List.pairwise_cons.mp behind).1 q listed
      rw [Std.OrientedOrd.eq_swap, less]
      nofun
  constructor
  · refine ⟨fun there => ⟨List.mem_append_left _ there, earlier q there⟩, fun ⟨listed, less⟩ => ?_⟩
    exact (List.mem_append.mp listed).resolve_right fun behind => later q behind less
  · refine ⟨fun there => ⟨List.mem_append_right _ there, later q there⟩, fun ⟨listed, past⟩ => ?_⟩
    exact (List.mem_append.mp listed).resolve_left fun before => past (earlier q before)

theorem commit_eq_error (fails : (pool.commit txn).2 = .error e) :
    pool.flushEach (pool.locks.pagesHeldBy txn) = ((pool.commit txn).1, .error e) := by
  simp only [commit, flushPages] at fails ⊢
  cases flushed : pool.flushEach (pool.locks.pagesHeldBy txn) with
  | mk moved outcome =>
    rw [flushed] at fails
    cases outcome with
    | error _ =>
      cases fails
      rfl
    | ok _ => cases fails

/-- A commit writes some of the pages that its transaction holds, stops at the next one, and leaves
the others. -/
structure Stalls (txn : TransactionId) (done : List PageId) (page : PageId) (rest : List PageId)
    (pool : Pool) : Prop where
  split : pool.locks.pagesHeldBy txn = done ++ page :: rest
  went : (pool.flushEach done).2 = .ok ()
  sheds : Sheds (pool.flushEach done).1 (pool.commit txn).1
  written : WritesBack (· ∈ done) pool (pool.commit txn).1

namespace Stalls

variable {done rest : List PageId} {strayed : TransactionId → PageId → Prop}

theorem ordered (stalls : Stalls txn done page rest pool) :
    (done ++ page :: rest).Pairwise fun p q => compare p q = .lt := by
  rw [← stalls.split]
  exact pool.locks.pagesHeldBy_ordered txn

theorem held_iff (stalls : Stalls txn done page rest pool) (owned : pool.Owned strayed)
    (q : PageId) : q ∈ done ++ page :: rest ↔ pool.locks.holds txn q = true := by
  rw [← stalls.split]
  exact LockTable.mem_pagesHeldBy owned.locks txn q

theorem mem_done_iff (stalls : Stalls txn done page rest pool) (owned : pool.Owned strayed)
    (q : PageId) : q ∈ done ↔ pool.locks.holds txn q = true ∧ compare q page = .lt := by
  rw [(before_iff stalls.ordered).1, stalls.held_iff owned]

theorem mem_left_iff (stalls : Stalls txn done page rest pool) (owned : pool.Owned strayed)
    (q : PageId) : q ∈ page :: rest ↔ pool.locks.holds txn q = true ∧ compare q page ≠ .lt := by
  rw [(before_iff stalls.ordered).2, stalls.held_iff owned]

theorem fresh (stalls : Stalls txn done page rest pool) : page ∉ done := by
  intro there
  have less := ((before_iff stalls.ordered).1.mp there).2
  rw [Std.ReflOrd.compare_self] at less
  cases less

theorem stopsAt (stalls : Stalls txn done page rest pool) (owned : pool.Owned strayed)
    (cause : StopCause page pool (pool.commit txn).1 e) :
    StopsAt txn page e pool (pool.commit txn).1 where
  held := (stalls.held_iff owned page).mp (List.mem_append_right _ List.mem_cons_self)
  written := stalls.written.congr (stalls.mem_done_iff owned)
  kept q held past := by
    have left := (stalls.mem_left_iff owned q).mpr ⟨held, past⟩
    have apart := (List.pairwise_append.mp stalls.ordered).2.2
    refine ⟨stalls.written.behind q fun other there => apart other there q left,
      stalls.written.dirtier?_of_not_among owned.named fun there => past ?_⟩
    exact ((stalls.mem_done_iff owned q).mp there).2
  bytes := stalls.written.bytes
  cause := cause

end Stalls

/-- A commit that fails stops at a page that its transaction holds. -/
theorem Owned.stalls {strayed : TransactionId → PageId → Prop} (owned : pool.Owned strayed)
    (fails : (pool.commit txn).2 = .error e) : ∃ done page rest,
      Stalls txn done page rest pool ∧ StopsAt txn page e pool (pool.commit txn).1 := by
  have stopped := commit_eq_error fails
  obtain ⟨done, page, rest, split, went, here⟩ := flushEach_error (congrArg Prod.snd stopped)
  rw [stopped] at here
  have fades := flushEach_fades done pool
  have before := flushEach_writesBack owned.named owned.heaps done went
  obtain ⟨sheds, cache⟩ := flushPage_sheds here
  have written := before.trans (.of_sheds sheds cache) owned.named (fades.named owned.named)
    owned.heaps
  have stalls : Stalls txn done page rest pool :=
    ⟨split, went, sheds, written.congr fun q => iff_of_eq (or_false _)⟩
  have cause := flushPage_cause (owned.heaps.congr fades.stores) here
  exact ⟨done, page, rest, stalls,
    stalls.stopsAt owned (cause.earlier before owned.named stalls.fresh)⟩

end Pool

end TransactionalPages
