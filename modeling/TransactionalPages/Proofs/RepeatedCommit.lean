import TransactionalPages.Proofs.Alone
import TransactionalPages.Proofs.PageSize
import TransactionalPages.Proofs.PartialCommit

/-!
# Commits that are repeated

A commit that has stopped at a page can be repeated once the cause of that is gone:
an outage has ended, or a table is registered that was not. The second commit goes
over the pages that are clean already and writes those that were left. It ends where
the first one would have ended if the cause had been gone before it, so that no more
need be known of a second commit than of a first one.
-/

namespace TransactionalPages

namespace Pool

variable {pool before after other ideal again : Pool} {txn : TransactionId} {page : PageId}
  {ref : PageRef} {store : StoreRef} {pages done rest : List PageId} {e : PoolError}
  {strayed : TransactionId → PageId → Prop}

/-! ## Mended pools -/

/-- All writes to stores that are still to come get through. -/
def Unstopped (pool : Pool) : Prop :=
  ∀ ref call, (pool.store ref).writes.made ≤ call → (pool.store ref).writes.works call = true

/-- Other tables have been registered, stores have come, and outages may have ended. -/
structure Mends (before after : Pool) : Prop where
  config : after.config = before.config
  locks : after.locks = before.locks
  waits : after.waits = before.waits
  cache : after.cache = before.cache
  objects : after.objects = before.objects
  count : before.stores.size ≤ after.stores.size
  media : ∀ ref, ref.index < before.stores.size →
    (after.store ref).medium = (before.store ref).medium

/-- Two pools that differ in nothing but the calls which their stores let through. -/
structure Alike (pool other : Pool) : Prop where
  config : other.config = pool.config
  catalog : other.catalog = pool.catalog
  locks : other.locks = pool.locks
  waits : other.waits = pool.waits
  cache : other.cache = pool.cache
  objects : other.objects = pool.objects
  count : other.stores.size = pool.stores.size
  media : ∀ ref, (other.store ref).medium = (pool.store ref).medium

theorem Alike.mends (alike : Alike pool other) : Mends pool other where
  config := alike.config
  locks := alike.locks
  waits := alike.waits
  cache := alike.cache
  objects := alike.objects
  count := Nat.le_of_eq alike.count.symm
  media ref _ := alike.media ref

theorem Alike.symm (alike : Alike pool other) : Alike other pool where
  config := alike.config.symm
  catalog := alike.catalog.symm
  locks := alike.locks.symm
  waits := alike.waits.symm
  cache := alike.cache.symm
  objects := alike.objects.symm
  count := alike.count.symm
  media ref := (alike.media ref).symm

theorem store_of_le (absent : pool.stores.size ≤ store.index) : pool.store store = default := by
  simp only [Pool.store, Array.getD_eq_getD_getElem?]
  rw [Array.getElem?_eq_none absent]
  rfl

theorem Unstopped.setStore (unstopped : pool.Unstopped) {ref : StoreRef} {store : Store}
    (works : ∀ call, store.writes.made ≤ call → store.writes.works call = true) :
    (pool.setStore ref store).Unstopped := by
  intro q call
  rw [store_setStore]
  split
  · exact works call
  · exact unstopped q call

theorem Unstopped.flushPage (unstopped : pool.Unstopped) (page : PageId) :
    (pool.flushPage page).1.Unstopped := by
  cases known : pool.catalog.file? page.table with
  | none => rwa [flushPage_unknown known]
  | some table =>
    cases tag : pool.dirtier? page with
    | none => rwa [flushPage_undrafted known tag]
    | some owner =>
      obtain ⟨ref, held, dirty⟩ := held_of_dirtier? tag
      rw [flushPage_dirty known held dirty]
      have later : ∀ call, (pool.store table.store).writes.next.made ≤ call →
          (pool.store table.store).writes.next.works call = true := fun call past =>
        unstopped table.store call (Nat.le_of_succ_le past)
      rcases pool.writeStore_cases table.store (pool.object ref) with ⟨_, _, eq⟩ | ⟨_, _, eq⟩
      · rw [eq]
        exact unstopped.setStore later
      · rw [eq]
        exact unstopped.setStore later

theorem Unstopped.flushEach (unstopped : pool.Unstopped) (pages : List PageId) :
    (pool.flushEach pages).1.Unstopped :=
  flushEach_keeps (fun _ page unstopped => unstopped.flushPage page) pages unstopped

namespace Mends

theorem object (mends : Mends before after) (ref : PageRef) :
    after.object ref = before.object ref := by
  simp only [Pool.object]
  rw [mends.objects]

theorem dirtier? (mends : Mends before after) (page : PageId) :
    after.dirtier? page = before.dirtier? page := by
  simp only [Pool.dirtier?, mends.cache, mends.object]

theorem named (mends : Mends before after) (named : before.Named) : after.Named := by
  intro page ref held
  rw [mends.cache] at held
  rw [mends.objects, mends.object]
  exact named page ref held

theorem trans {a b c : Pool} (first : Mends a b) (second : Mends b c) : Mends a c where
  config := second.config.trans first.config
  locks := second.locks.trans first.locks
  waits := second.waits.trans first.waits
  cache := second.cache.trans first.cache
  objects := second.objects.trans first.objects
  count := Nat.le_trans first.count second.count
  media ref inside := (second.media ref (Nat.lt_of_lt_of_le inside first.count)).trans
    (first.media ref inside)

theorem letGo (mends : Mends before after) (txn : TransactionId) :
    Mends (before.letGo txn) (after.letGo txn) where
  config := mends.config
  locks := congrArg (LockTable.releaseAll · txn) mends.locks
  waits := congrArg (WaitForGraph.clear · txn) mends.waits
  cache := mends.cache
  objects := mends.objects
  count := mends.count
  media := mends.media

theorem alike (mends : Mends before after) (catalog : after.catalog = before.catalog)
    (count : after.stores.size = before.stores.size) : Alike before after where
  config := mends.config
  catalog := catalog
  locks := mends.locks
  waits := mends.waits
  cache := mends.cache
  objects := mends.objects
  count := count
  media ref := by
    by_cases inside : ref.index < before.stores.size
    · exact mends.media ref inside
    · have absent := Nat.le_of_not_lt inside
      rw [store_of_le absent, store_of_le (count ▸ absent)]

theorem flushed (mends : Mends before after) (store : StoreRef) (ref : PageRef)
    (medium : Medium) (inside : store.index < before.stores.size) :
    Mends (before.flushed store ref medium) (after.flushed store ref medium) where
  config := mends.config
  locks := mends.locks
  waits := mends.waits
  cache := mends.cache
  objects := by
    show after.objects.setIfInBounds ref.index (after.object ref).markClean = _
    rw [mends.objects, mends.object]
    rfl
  count := by
    show (before.stores.setIfInBounds _ _).size ≤ (after.stores.setIfInBounds _ _).size
    rw [Array.size_setIfInBounds, Array.size_setIfInBounds]
    exact mends.count
  media q known := by
    have there : q.index < before.stores.size :=
      Nat.lt_of_lt_of_eq known Array.size_setIfInBounds
    show ((after.written store medium).store q).medium =
      ((before.written store medium).store q).medium
    simp only [written]
    rw [store_setStore, store_setStore]
    by_cases here : q = store
    · rw [if_pos ⟨here, Nat.lt_of_lt_of_le inside mends.count⟩, if_pos ⟨here, inside⟩]
    · rw [if_neg fun both => here both.1, if_neg fun both => here both.1]
      exact mends.media q there

/-- What has been written back can be written back in a mended pool as well. -/
theorem flushPage (mends : Mends before after) (heaps : before.OverHeaps)
    (same : after.catalog.file? page.table = before.catalog.file? page.table)
    (went : (before.flushPage page).2 = .ok ()) :
    (after.Unstopped → (after.flushPage page).2 = .ok ()) ∧
      ((after.flushPage page).2 = .ok () →
        Mends (before.flushPage page).1 (after.flushPage page).1) := by
  obtain ⟨table, known⟩ := known_of_flushPage went
  have knownToo := same.trans known
  cases tag : before.dirtier? page with
  | none =>
    rw [flushPage_undrafted known tag,
      flushPage_undrafted knownToo ((mends.dirtier? page).trans tag)]
    exact ⟨fun _ => rfl, fun _ => mends⟩
  | some owner =>
    obtain ⟨ref, held, dirty⟩ := held_of_dirtier? tag
    have inside := (heaps _ _ known).2.1
    have medium := mends.media table.store inside
    rw [flushPage_dirty known held dirty] at went ⊢
    rw [flushPage_dirty knownToo (by rwa [mends.cache]) (by rwa [mends.object]), mends.object]
    rcases before.writeStore_cases table.store (before.object ref) with
      ⟨new, wrote, eq⟩ | ⟨_, _, eq⟩
    · rw [eq]
      rcases after.writeStore_cases table.store (before.object ref) with
        ⟨newToo, wroteToo, eqToo⟩ | ⟨cause, failure, eqToo⟩
      · rw [medium, wrote] at wroteToo
        cases wroteToo
        rw [eqToo]
        exact ⟨fun _ => rfl, fun _ => mends.flushed table.store ref new inside⟩
      · rw [eqToo]
        refine ⟨fun unstopped => ?_, nofun⟩
        rcases failure with stopped | refused
        · have passes := unstopped table.store _ (Nat.le_refl _)
          rw [Outage.passes, passes] at stopped
          cases stopped
        · rw [medium, wrote] at refused
          cases refused
    · rw [eq] at went
      cases went

theorem flushEach (mends : Mends before after) (heaps : before.OverHeaps)
    (same : ∀ page ∈ pages, after.catalog.file? page.table = before.catalog.file? page.table)
    (went : (before.flushEach pages).2 = .ok ()) :
    (after.Unstopped → (after.flushEach pages).2 = .ok ()) ∧
      ((after.flushEach pages).2 = .ok () →
        Mends (before.flushEach pages).1 (after.flushEach pages).1) := by
  induction pages generalizing before after with
  | nil => exact ⟨fun _ => rfl, fun _ => mends⟩
  | cons page rest ih =>
    obtain ⟨here, later⟩ := flushEach_cons_ok went
    obtain ⟨goes, moved⟩ := mends.flushPage heaps (same page List.mem_cons_self) here
    have fades := before.flushPage_fades page
    have control := after.flushPage_control page
    have others := fun hereToo => ih (moved hereToo) (heaps.congr fades.stores) (fun q listed => by
      rw [fades.control.catalog, control.catalog]
      exact same q (List.mem_cons_of_mem _ listed)) later
    rw [flushEach_cons here]
    constructor
    · intro unstopped
      have hereToo := goes unstopped
      rw [flushEach_cons hereToo]
      exact (others hereToo).1 (unstopped.flushPage page)
    · intro wentToo
      obtain ⟨hereToo, laterToo⟩ := flushEach_cons_ok wentToo
      rw [flushEach_cons hereToo]
      exact (others hereToo).2 laterToo

end Mends

/-! ## What is left of a list -/

theorem flushEach_append (went : (pool.flushEach done).2 = .ok ()) :
    pool.flushEach (done ++ rest) = (pool.flushEach done).1.flushEach rest := by
  induction done generalizing pool with
  | nil => rfl
  | cons page later ih =>
    obtain ⟨here, others⟩ := flushEach_cons_ok went
    rw [List.cons_append, flushEach_cons here, flushEach_cons here]
    exact ih others

theorem flushEach_of_append (went : (pool.flushEach (done ++ rest)).2 = .ok ()) :
    (pool.flushEach done).2 = .ok () := by
  induction done generalizing pool with
  | nil => rfl
  | cons page later ih =>
    obtain ⟨here, others⟩ := flushEach_cons_ok went
    rw [flushEach_cons here]
    exact ih others

theorem known_of_flushEach (went : (pool.flushEach pages).2 = .ok ()) :
    ∀ page ∈ pages, ∃ table, pool.catalog.file? page.table = some table := by
  induction pages generalizing pool with
  | nil => exact fun page listed => absurd listed List.not_mem_nil
  | cons first others ih =>
    obtain ⟨here, later⟩ := flushEach_cons_ok went
    intro page listed
    rcases List.mem_cons.mp listed with rfl | listed
    · exact known_of_flushPage here
    · rw [← (pool.flushPage_control first).catalog]
      exact ih later page listed

/-- Pages that are clean already are gone over. -/
theorem flushEach_undrafted
    (known : ∀ page ∈ pages, ∃ table, pool.catalog.file? page.table = some table)
    (clean : ∀ page ∈ pages, pool.dirtier? page = none) :
    pool.flushEach pages = (pool, .ok ()) := by
  induction pages with
  | nil => rfl
  | cons page others ih =>
    obtain ⟨table, file⟩ := known page List.mem_cons_self
    have skipped := flushPage_undrafted file (clean page List.mem_cons_self)
    rw [flushEach_cons (by rw [skipped]), skipped]
    exact ih (fun q listed => known q (List.mem_cons_of_mem _ listed))
      fun q listed => clean q (List.mem_cons_of_mem _ listed)

theorem commit_ok_of_flushPages (went : (pool.flushPages txn).2 = .ok ()) :
    (pool.commit txn).2 = .ok () := by
  simp only [commit]
  cases flushed : pool.flushPages txn with
  | mk moved outcome =>
    rw [flushed] at went
    cases outcome with
    | error _ => cases went
    | ok _ => rfl

/-! ## Another try -/

/-- Two pools that were mended in the same way: one as it was before a commit, and one as the commit
left it when it stopped at a page. The tables of the pages that had been written by then have
stayed. -/
structure MendAlike (txn : TransactionId) (page : PageId) (before ideal stopped again : Pool) :
    Prop where
  first : Mends before ideal
  second : Mends stopped again
  heaps : ideal.OverHeaps
  catalog : again.catalog = ideal.catalog
  count : again.stores.size = ideal.stores.size
  came : ∀ ref, before.stores.size ≤ ref.index →
    (again.store ref).medium = (ideal.store ref).medium
  tables : ∀ q, before.locks.holds txn q = true → compare q page = .lt →
    ideal.catalog.file? q.table = before.catalog.file? q.table

/-- A second commit, after a first one that has stopped at a page, does what was left of it. It
succeeds if the first one would have, and the two end alike. -/
structure Completes (txn : TransactionId) (page : PageId) (ideal again : Pool) : Prop where
  rest : (again.commit txn).2 = .ok () → ∃ moved,
    WritesBack (fun q => again.locks.holds txn q = true ∧ compare q page ≠ .lt) again moved ∧
      (again.commit txn).1 = moved.letGo txn
  succeeds : (ideal.commit txn).2 = .ok () → again.Unstopped → (again.commit txn).2 = .ok ()
  ideally : (again.commit txn).2 = .ok () → ideal.Unstopped → (ideal.commit txn).2 = .ok ()
  alike : (ideal.commit txn).2 = .ok () → (again.commit txn).2 = .ok () →
    Alike (ideal.commit txn).1 (again.commit txn).1

namespace Stalls

/-- A page that could not be written has changed nothing but the count of writes to its store. -/
theorem stays (stalls : Stalls txn done page rest pool) :
    Mends (pool.flushEach done).1 (pool.commit txn).1 where
  config := stalls.sheds.control.config
  locks := stalls.sheds.control.locks
  waits := stalls.sheds.control.waits
  cache := stalls.written.cache.trans (pool.flushEach_cache done).symm
  objects := stalls.sheds.objects
  count := Nat.le_of_eq stalls.sheds.media.count.symm
  media ref _ := stalls.sheds.media.medium ref

theorem tables (stalls : Stalls txn done page rest pool) (owned : pool.Owned strayed)
    (mend : MendAlike txn page pool ideal (pool.commit txn).1 again) :
    ∀ q ∈ done, ideal.catalog.file? q.table = pool.catalog.file? q.table := by
  intro q there
  obtain ⟨held, less⟩ := (stalls.mem_done_iff owned q).mp there
  exact mend.tables q held less

theorem again_named (stalls : Stalls txn done page rest pool) (owned : pool.Owned strayed)
    (mend : MendAlike txn page pool ideal (pool.commit txn).1 again) : again.Named :=
  (stalls.stays.trans mend.second).named ((flushEach_fades done pool).named owned.named)

theorem again_heaps (stalls : Stalls txn done page rest pool)
    (mend : MendAlike txn page pool ideal (pool.commit txn).1 again) : again.OverHeaps := by
  have fades := (flushEach_fades done pool).stores
  have media : ∀ ref, ref.index < pool.stores.size →
      (again.store ref).medium = ((pool.flushEach done).1.store ref).medium := fun ref old =>
    (stalls.stays.trans mend.second).media ref (fades.count ▸ old)
  have shape : ∀ ref, (again.store ref).medium.table = (ideal.store ref).medium.table ∧
      (again.store ref).medium.pageSize = (ideal.store ref).medium.pageSize := by
    intro ref
    by_cases old : ref.index < pool.stores.size
    · rw [media ref old, mend.first.media ref old]
      exact ⟨fades.table ref, fades.pageSize ref⟩
    · rw [mend.came ref (Nat.le_of_not_lt old)]
      exact ⟨rfl, rfl⟩
  exact mend.heaps.congr
    ⟨mend.catalog, mend.count, fun ref => (shape ref).1, fun ref => (shape ref).2⟩

/-- The second commit starts from where the first one is when it has written what the one that
stopped has written. -/
theorem resumes (stalls : Stalls txn done page rest pool) (owned : pool.Owned strayed)
    (mend : MendAlike txn page pool ideal (pool.commit txn).1 again)
    (went : (ideal.flushEach done).2 = .ok ()) : Alike (ideal.flushEach done).1 again := by
  have tables := stalls.tables owned mend
  have fades := flushEach_fades done ideal
  have written := flushEach_writesBack (mend.first.named owned.named) mend.heaps done went
  have there := (mend.first.flushEach owned.heaps tables stalls.went).2 went
  have here := stalls.stays.trans mend.second
  have size := (flushEach_fades done pool).stores.count
  refine ⟨here.config.trans there.config.symm, mend.catalog.trans fades.control.catalog.symm,
    here.locks.trans there.locks.symm, here.waits.trans there.waits.symm,
    here.cache.trans there.cache.symm, here.objects.trans there.objects.symm,
    mend.count.trans fades.stores.count.symm, fun ref => ?_⟩
  by_cases old : ref.index < pool.stores.size
  · have old : ref.index < (pool.flushEach done).1.stores.size := by rwa [size]
    exact (here.media ref old).trans (there.media ref old).symm
  · -- a store that has come since is not that of a page that was written
    refine (mend.came ref (Nat.le_of_not_lt old)).trans (written.media ref ?_).symm
    rintro q listed ⟨_, table, known, rfl⟩
    rw [tables q listed] at known
    exact old (owned.heaps _ _ known).2.1

/-- The second commit goes over the pages that the first one has written. -/
theorem again_flushPages (stalls : Stalls txn done page rest pool) (owned : pool.Owned strayed)
    (mend : MendAlike txn page pool ideal (pool.commit txn).1 again) :
    again.flushPages txn = again.flushEach (page :: rest) := by
  have locks : again.locks.pagesHeldBy txn = done ++ page :: rest := by
    rw [mend.second.locks, stalls.written.control.locks, stalls.split]
  have skipped : again.flushEach done = (again, .ok ()) := by
    refine flushEach_undrafted (fun q there => ?_) fun q there => ?_
    · rw [mend.catalog, stalls.tables owned mend q there]
      exact known_of_flushEach stalls.went q there
    · rw [mend.second.dirtier?]
      exact stalls.written.dirtier?_of_among there
  rw [flushPages, locks, flushEach_append (by rw [skipped]), skipped]

theorem ideal_flushPages (stalls : Stalls txn done page rest pool)
    (mend : MendAlike txn page pool ideal (pool.commit txn).1 again)
    (went : (ideal.flushEach done).2 = .ok ()) :
    ideal.flushPages txn = (ideal.flushEach done).1.flushEach (page :: rest) := by
  rw [flushPages, mend.first.locks, stalls.split, flushEach_append went]

/-- A commit that succeeds has first written what the one that stopped has written. -/
theorem went_of_commit (stalls : Stalls txn done page rest pool)
    (mend : MendAlike txn page pool ideal (pool.commit txn).1 again)
    (ideally : (ideal.commit txn).2 = .ok ()) : (ideal.flushEach done).2 = .ok () := by
  have went := (commit_eq_ok ideally).1
  rw [flushPages, mend.first.locks, stalls.split] at went
  exact flushEach_of_append went

/-- What is left of a commit that has stopped is done by a second one. -/
theorem completes (stalls : Stalls txn done page rest pool) (owned : pool.Owned strayed)
    (mend : MendAlike txn page pool ideal (pool.commit txn).1 again) :
    Completes txn page ideal again := by
  have second := stalls.again_flushPages owned mend
  constructor
  case rest =>
    intro succeeds
    obtain ⟨went, ended⟩ := commit_eq_ok succeeds
    rw [second] at went ended
    have written :=
      flushEach_writesBack (stalls.again_named owned mend) (stalls.again_heaps mend) _ went
    refine ⟨_, written.congr fun q => ?_, ended⟩
    rw [stalls.mem_left_iff owned, mend.second.locks, stalls.written.control.locks]
  case succeeds =>
    intro ideally unstopped
    have before := stalls.went_of_commit mend ideally
    have alike := stalls.resumes owned mend before
    have went := (commit_eq_ok ideally).1
    rw [stalls.ideal_flushPages mend before] at went
    have heaps := mend.heaps.congr (flushEach_fades done ideal).stores
    refine commit_ok_of_flushPages ?_
    rw [second]
    exact (alike.mends.flushEach heaps (fun q _ => by rw [alike.catalog]) went).1 unstopped
  case ideally =>
    intro succeeds unstopped
    have before := (mend.first.flushEach owned.heaps (stalls.tables owned mend) stalls.went).1
      unstopped
    have alike := stalls.resumes owned mend before
    have went := (commit_eq_ok succeeds).1
    rw [second] at went
    refine commit_ok_of_flushPages ?_
    rw [stalls.ideal_flushPages mend before]
    exact (alike.symm.mends.flushEach (stalls.again_heaps mend) (fun q _ => by rw [alike.catalog])
      went).1 (unstopped.flushEach done)
  case alike =>
    intro ideally succeeds
    have before := stalls.went_of_commit mend ideally
    have alike := stalls.resumes owned mend before
    obtain ⟨went, ended⟩ := commit_eq_ok ideally
    obtain ⟨wentToo, endedToo⟩ := commit_eq_ok succeeds
    rw [stalls.ideal_flushPages mend before] at went ended
    rw [second] at wentToo endedToo
    rw [ended, endedToo]
    have heaps := mend.heaps.congr (flushEach_fades done ideal).stores
    have moved := (alike.mends.flushEach heaps (fun q _ => by rw [alike.catalog]) went).2 wentToo
    have fades := flushEach_fades (page :: rest) (ideal.flushEach done).1
    have fadesToo := flushEach_fades (page :: rest) again
    refine (moved.letGo txn).alike ?_ ?_
    · exact (fadesToo.control.catalog.trans alike.catalog).trans fades.control.catalog.symm
    · exact (fadesToo.stores.count.trans alike.count).trans fades.stores.count.symm

end Stalls

/-! ### When outages end -/

theorem Mends.mended (pool : Pool) : Mends pool pool.mended where
  config := rfl
  locks := rfl
  waits := rfl
  cache := rfl
  objects := rfl
  count := Nat.le_of_eq Array.size_map.symm
  media ref _ := by
    rw [mended_store]
    rfl

theorem unstopped_mended (pool : Pool) : pool.mended.Unstopped := by
  intro ref call _
  rw [mended_store]
  rfl

/-- Nothing need be done but to wait for the end of all outages. -/
theorem mendAlike_mended (owned : pool.Owned strayed)
    (fails : (pool.commit txn).2 = .error e) :
    MendAlike txn page pool pool.mended (pool.commit txn).1 (pool.commit txn).1.mended := by
  have fades := flushEach_fades (pool.locks.pagesHeldBy txn) pool
  rw [commit_eq_error fails] at fades
  have size : (pool.commit txn).1.stores.size = pool.stores.size := fades.stores.count
  refine ⟨.mended pool, .mended _, owned.heaps.mended, fades.control.catalog, ?_,
    fun ref absent => ?_, fun _ _ _ => rfl⟩
  · show (Array.map _ _).size = (Array.map _ _).size
    rw [Array.size_map, Array.size_map, size]
  · rw [mended_store, mended_store, store_of_le absent, store_of_le (size ▸ absent)]

end Pool

namespace Interleaving

variable {config : Config} {catalog : Catalog Table} {stores : Array Store} {objects : Array Page}
  {pool : Pool} {incidents : List Incident} {reached : Interleaving}

theorem owned_after (created : Pool.create config catalog stores objects = .ok pool)
    (heaps : pool.OverHeaps) (tables : (start pool).StaysOverHeaps incidents)
    (reaches : (start pool).undergoAll incidents = reached) :
    reached.pool.Owned fun _ _ => True := by
  have started : (start pool).Even pool.config.pageSize fun _ => True :=
    even_start (Pool.coherent_create created heaps)
  rw [← reaches]
  exact (started.undergoAll tables fun _ _ => trivial).poised.owned

/-- A commit that fails has written back the pages before the one that it failed on, and has left
all else as it was. Once the cause is gone, a second commit writes the rest, and everything is as
it would be if the first one had succeeded. -/
theorem failed_commit_can_be_repeated
    (created : Pool.create config catalog stores objects = .ok pool) (heaps : pool.OverHeaps)
    (tables : (start pool).StaysOverHeaps incidents)
    (reaches : (start pool).undergoAll incidents = reached) (txn : TransactionId) {e : PoolError}
    (fails : (reached.pool.commit txn).2 = .error e) :
    ∃ page, Pool.StopsAt txn page e reached.pool (reached.pool.commit txn).1 ∧
      ∀ ideal again,
        Pool.MendAlike txn page reached.pool ideal (reached.pool.commit txn).1 again →
        Pool.Completes txn page ideal again := by
  have owned := owned_after created heaps tables reaches
  obtain ⟨done, page, rest, stalls, stops⟩ := owned.stalls fails
  exact ⟨page, stops, fun ideal again mend => stalls.completes owned mend⟩

/-- The second write to this store is stopped. -/
def falteringPair : Store := { blankPair with writes := ⟨0, fun call => call ≠ 1⟩ }

def overFaltering : Pool :=
  ⟨Config.sized 2 64, Catalog.single "a" falteringPair.medium, #[falteringPair], #[], .empty,
    .empty, .empty 2⟩

/-- One transaction writes to both pages. -/
def writesBoth : List Incident :=
  [.deed (.act (.call ⟨1⟩ (.fetch ⟨⟨1⟩, 0⟩ .readWrite))),
    .deed (.act (.call ⟨1⟩ (.fetch ⟨⟨1⟩, 1⟩ .readWrite))),
    .deed (.mark ⟨0⟩ (some ⟨1⟩)), .deed (.write ⟨0⟩ 0 #[7]),
    .deed (.mark ⟨1⟩ (some ⟨1⟩)), .deed (.write ⟨1⟩ 0 #[8])]

/-- The commit stores one of the pages, and the next commit the other. -/
theorem second_commit_writes_second_page : ∃ reached page again,
    Pool.create (Config.sized 2 64) (Catalog.single "a" falteringPair.medium) #[falteringPair] #[] =
      .ok overFaltering ∧
    (start overFaltering).StaysOverHeaps writesBoth ∧
    (start overFaltering).undergoAll writesBoth = reached ∧
    (reached.pool.commit ⟨1⟩).2 = .error (.storage (.io .injected)) ∧
    (reached.pool.commit ⟨1⟩).1.mended = again ∧
    (again.block? ⟨⟨1⟩, 0⟩).map (Bytes.byte · 0) = some 7 ∧
    (again.block? ⟨⟨1⟩, 1⟩).map (Bytes.byte · 0) = some 0 ∧
    Pool.StopsAt ⟨1⟩ page (.storage (.io .injected)) reached.pool (reached.pool.commit ⟨1⟩).1 ∧
    (again.commit ⟨1⟩).2 = .ok () ∧
    ((again.commit ⟨1⟩).1.block? ⟨⟨1⟩, 1⟩).map (Bytes.byte · 0) = some 8 ∧
    Pool.Alike (reached.pool.mended.commit ⟨1⟩).1 (again.commit ⟨1⟩).1 := by
  have created : Pool.create (Config.sized 2 64) (Catalog.single "a" falteringPair.medium)
    #[falteringPair] #[] = .ok overFaltering := rfl
  have heaps := Pool.heaps_single created
  have tables : (start overFaltering).StaysOverHeaps writesBoth :=
    ⟨trivial, trivial, trivial, trivial, trivial, trivial, trivial⟩
  have fails : (((start overFaltering).undergoAll writesBoth).pool.commit ⟨1⟩).2 =
    .error (.storage (.io .injected)) := by decide +kernel
  obtain ⟨page, stops, completes⟩ :=
    failed_commit_can_be_repeated created heaps tables rfl ⟨1⟩ fails
  have owned := owned_after created heaps tables rfl
  have completed := completes _ _ (Pool.mendAlike_mended owned fails)
  have ideally : (((start overFaltering).undergoAll writesBoth).pool.mended.commit ⟨1⟩).2 =
    .ok () := by decide +kernel
  have succeeds := completed.succeeds ideally (Pool.unstopped_mended _)
  exact ⟨_, page, _, created, tables, rfl, fails, rfl, by decide +kernel, by decide +kernel, stops,
    succeeds, by decide +kernel, completed.alike ideally succeeds⟩

end Interleaving

end TransactionalPages
