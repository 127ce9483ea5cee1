import TransactionalPages.Proofs.NoSteal
import TransactionalPages.Table.Detached

/-!
# Dealings with a pool

A table need not be a program of the kind that the model runs. It is handed the
pool and may do with it whatever can be done: fetch pages, change and tag them,
drop them, write them back, end transactions, change other tables, or tamper with
locks. Its stores may be of any kind. All that is asked of the two is that the
table writes to no store itself, and that a store does not change its pages when
it allocates another.

What such a table does is a list of dealings, and so is what others do in the
meantime. None of them steals a page: one leaves the cache when it is dropped, is
not restored or is replaced, or when it is clean.
-/

namespace TransactionalPages

/-- What can be done to a pool in one go. -/
inductive Dealing (κ : Type := Empty) where
  /-- Asks for a lock. `waited` says whether the same request was refused before. -/
  | ask (txn : TransactionId) (page : PageId) (mode : LockMode) (waited : Bool)
  /-- Serves a page whose lock has been granted. -/
  | load (page : PageId)
  /-- Takes over the pages that a table says it has changed. -/
  | adopt (txn : TransactionId) (refs : List PageRef)
  | flush (txn : TransactionId)
  /-- Writes back every dirty page, in the order of a listing of the cache. -/
  | flushAll (cached : List (PageId × PageRef))
  | commit (txn : TransactionId)
  | abort (txn : TransactionId)
  | release (txn : TransactionId) (page : PageId)
  | discard (page : PageId)
  /-- Takes a lock for which the pool is not asked. -/
  | lock (txn : TransactionId) (page : PageId) (mode : LockMode)
  | unlock (txn : TransactionId)
  /-- Enters edges into the wait-for graph for which no lock is asked. -/
  | block (txn : TransactionId) (holders : List TransactionId)
  | unblock (txn : TransactionId)
  | count (store : StoreRef)
  | read (store : StoreRef) (page : PageId)
  | allocate (store : StoreRef)
  /-- Puts another page, with its name, bytes and tag, into a page object. -/
  | put (ref : PageRef) (page : Page)
  | make (page : Page)
  | addStore (store : Store κ)
  | issueId
  | register (name : String) (table : Table)
  | remove (table : TableId)

namespace Dealing

variable {κ : Type} [Foreign κ]

def run : Dealing κ → Pool κ → Pool κ
  | ask txn page mode waited, pool => (pool.requestLock txn page mode waited).1
  | load page, pool => (pool.load page).1
  | adopt txn refs, pool => (pool.adopt txn refs).1
  | flush txn, pool => (pool.flushPages txn).1
  | flushAll cached, pool => (pool.flushAll cached).1
  | commit txn, pool => (pool.commit txn).1
  | abort txn, pool => (pool.abort txn).1
  | release txn page, pool => pool.releaseLock txn page
  | discard page, pool => pool.discard page
  | lock txn page mode, pool =>
    { pool with locks := (pool.locks.acquire txn page mode).getD pool.locks }
  | unlock txn, pool => { pool with locks := pool.locks.releaseAll txn }
  | block txn holders, pool => { pool with waits := (pool.waits.block txn holders).1 }
  | unblock txn, pool => { pool with waits := pool.waits.clear txn }
  | count store, pool => (pool.countPages store).1
  | read store page, pool => (pool.readStore store page).1
  | allocate store, pool => (pool.allocatePage store).1
  | put ref page, pool => pool.setObject ref page
  | make page, pool => (pool.addObject page).1
  | addStore store, pool => (pool.addStore store).1
  | issueId, pool => { pool with catalog := pool.catalog.nextTableId.1 }
  | register name table, pool =>
    { pool with catalog := pool.catalog.add name table.id table }
  | remove table, pool => { pool with catalog := (pool.catalog.remove table).1 }

/-- Whether pages are written to their stores. -/
def forces : Dealing κ → Bool
  | flush _ => true
  | flushAll _ => true
  | commit _ => true
  | _ => false

/-- Whether an object may have lost its tag. -/
def cleans (ref : PageRef) : Dealing κ → Bool
  | put other page => other = ref ∧ page.isDirty = false
  | abort _ => true
  | dealing => dealing.forces

/-- How a dirty page can be lost from the cache. -/
inductive Loses (pool : Pool κ) (page : PageId) (ref : PageRef) : Dealing κ → Prop where
  | discarded : Loses pool page ref (.discard page)
  /-- A transaction that holds it was rolled back, and the page could not be restored. -/
  | unrestored {txn : TransactionId}
    (fails : pool.FailsToRestore txn (pool.locks.pagesHeldBy txn) page) :
    Loses pool page ref (.abort txn)
  /-- A table has answered with another object of that name. -/
  | replaced {txn : TransactionId} {refs : List PageRef} {other : PageRef} (among : other ∈ refs)
    (differs : other ≠ ref) (named : (pool.object other).id = page) :
    Loses pool page ref (.adopt txn refs)

end Dealing

namespace Pool

variable {κ : Type} [Foreign κ]

def deal (pool : Pool κ) (dealings : List (Dealing κ)) : Pool κ :=
  dealings.foldl (fun pool dealing => dealing.run pool) pool

end Pool

/-! ## One dealing -/

namespace Dealing

variable {κ : Type} [Foreign κ] {dealing : Dealing κ} {pool after : Pool κ}

/-- The cache stays bounded, a dirty page leaves it and an object loses its tag in the known ways
only, and stores are written to by commits and flushes only. -/
structure Keeps (dealing : Dealing κ) (before after : Pool κ) : Prop where
  bounded : Pool.Bounded before after
  cached : ∀ page ref, before.cache.peek? page = some ref →
    (before.object ref).isDirty = true →
    after.cache.peek? page = some ref ∨ dealing.Loses before page ref
  tagged : ∀ ref, (before.object ref).isDirty = true →
    (after.object ref).isDirty = true ∨ dealing.cleans ref = true
  stored : dealing.forces = false → Pool.KeepsStored before after

theorem keeps_of_retains
    (retains : Pool.Retains (fun page ref => dealing.Loses pool page ref) pool after) :
    dealing.Keeps pool after where
  bounded := retains.bounded
  cached page ref held dirty := by
    by_cases lost : dealing.Loses pool page ref
    · exact Or.inr lost
    · exact Or.inl (retains.drafts page ref held dirty lost)
  tagged ref dirty := Or.inl (retains.tags ref dirty)
  stored _ := retains.stored

/-- Writing back takes no page from the cache. -/
theorem keeps_of_forced (forced : dealing.forces = true)
    (cleans : ∀ ref, dealing.cleans ref = true) (cache : after.cache = pool.cache) :
    dealing.Keeps pool after where
  bounded := Pool.bounded_of_cache cache
  cached page ref held _ := Or.inl (by rwa [cache])
  tagged ref _ := Or.inr (cleans ref)
  stored calm := absurd forced (by simp [calm])

theorem put_keeps (pool : Pool κ) (ref : PageRef) (page : Page) :
    (put ref page : Dealing κ).Keeps pool (pool.setObject ref page) where
  bounded := Pool.bounded_of_cache rfl
  cached _ _ held _ := Or.inl held
  tagged other dirty := by
    rw [Pool.object_setObject]
    split
    next here =>
      cases tag : page.isDirty with
      | true => exact Or.inl rfl
      | false => exact Or.inr (by simp [cleans, here.1, tag])
    next => exact Or.inl dirty
  stored _ := (Pool.setObject_media pool ref page).keepsStored

theorem abort_keeps (pool : Pool κ) (txn : TransactionId) :
    (abort txn : Dealing κ).Keeps pool (pool.abort txn).1 := by
  obtain ⟨bounded, stored, kept⟩ := pool.abort_keeps txn
  refine ⟨bounded, fun page ref held _ => ?_, fun _ _ => Or.inr rfl, fun _ => stored⟩
  rcases kept page ref held with same | fails
  · exact Or.inl same
  · exact Or.inr (.unrestored fails)

/-- What a dealing keeps, whichever it is. -/
theorem keeps [Foreign.Lasting κ] (dealing : Dealing κ) (pool : Pool κ) :
    dealing.Keeps pool (dealing.run pool) := by
  -- locks, edges and the catalog have nothing to do with the cache and the stores
  have aside : ∀ {dealing : Dealing κ} {after : Pool κ}, after.stores = pool.stores →
      after.objects = pool.objects → after.cache = pool.cache → dealing.Keeps pool after :=
    fun stores objects cache => keeps_of_retains (Pool.retains_of_same stores objects cache)
  cases dealing with
  | ask txn page mode waited =>
    exact keeps_of_retains (Pool.requestLock_retains pool txn page mode waited)
  | load page => exact keeps_of_retains (Pool.load_retains pool page)
  | adopt txn refs =>
    exact keeps_of_retains (Pool.adopt_retains txn refs pool fun ref among other differs =>
      .replaced among (Ne.symm differs) rfl)
  | flush txn => exact keeps_of_forced rfl (fun _ => rfl) (Pool.flushEach_cache ..)
  | flushAll cached => exact keeps_of_forced rfl (fun _ => rfl) (Pool.flushCached_cache ..)
  | commit txn => exact keeps_of_forced rfl (fun _ => rfl) (pool.commit_cache txn)
  | abort txn => exact abort_keeps pool txn
  | release txn page => exact aside rfl rfl rfl
  | discard page => exact keeps_of_retains (Pool.discard_retains pool page fun _ => .discarded)
  | lock txn page mode => exact aside rfl rfl rfl
  | unlock txn => exact aside rfl rfl rfl
  | block txn holders => exact aside rfl rfl rfl
  | unblock txn => exact aside rfl rfl rfl
  | count store => exact keeps_of_retains (pool.countPages_sheds store).retains
  | read store page => exact keeps_of_retains (pool.readStore_sheds store page).retains
  | allocate store => exact keeps_of_retains (Pool.allocatePage_retains pool store)
  | put ref page => exact put_keeps pool ref page
  | make page => exact keeps_of_retains (Pool.addObject_retains pool page)
  | addStore store =>
    exact keeps_of_retains ⟨Pool.bounded_of_cache rfl, pool.addStore_keepsStored store,
      fun _ dirty => dirty, fun _ _ held _ _ => held⟩
  | issueId => exact aside rfl rfl rfl
  | register name table => exact aside rfl rfl rfl
  | remove table => exact aside rfl rfl rfl

end Dealing

/-! ## Many dealings -/

namespace Pool

variable {κ : Type} [Foreign κ]

/-- There is a dealing with which a page leaves the cache: it is lost, or it is clean, and one of
the dealings before has made it so if it was dirty. -/
def Departs (pool : Pool κ) (page : PageId) (ref : PageRef) (during : List (Dealing κ)) : Prop :=
  ∃ done next rest, during = done ++ next :: rest ∧
    (pool.deal done).cache.peek? page = some ref ∧
    (next.run (pool.deal done)).cache.peek? page ≠ some ref ∧
    (next.Loses (pool.deal done) page ref ∨
      ((pool.deal done).object ref).isDirty = false ∧
        ((pool.object ref).isDirty = true → ∃ dealing ∈ done, dealing.cleans ref = true))

variable [Foreign.Lasting κ]

/-- A page departs with the dealing after which it is no longer cached. -/
theorem departs_now {pool : Pool κ} {page : PageId} {ref : PageRef} {dealing : Dealing κ}
    (held : pool.cache.peek? page = some ref)
    (gone : (dealing.run pool).cache.peek? page ≠ some ref) (rest : List (Dealing κ)) :
    pool.Departs page ref (dealing :: rest) := by
  refine ⟨[], dealing, rest, rfl, held, gone, ?_⟩
  cases tag : (pool.object ref).isDirty with
  | true => exact Or.inl (((dealing.keeps pool).cached page ref held tag).resolve_left gone)
  | false => exact Or.inr ⟨tag, fun dirty => by simp at dirty⟩

/-- What departs behind a dealing departs. -/
theorem Departs.later {pool : Pool κ} {page : PageId} {ref : PageRef} {dealing : Dealing κ}
    {rest : List (Dealing κ)} (departs : (dealing.run pool).Departs page ref rest) :
    pool.Departs page ref (dealing :: rest) := by
  obtain ⟨done, next, left, rfl, held, gone, lost | ⟨clean, cause⟩⟩ := departs
  · exact ⟨dealing :: done, next, left, rfl, held, gone, Or.inl lost⟩
  · refine ⟨dealing :: done, next, left, rfl, held, gone, Or.inr ⟨clean, fun dirty => ?_⟩⟩
    -- the tag has gone with this dealing or with one behind it
    rcases (dealing.keeps pool).tagged ref dirty with still | cleans
    · obtain ⟨cleaner, among, cleans⟩ := cause still
      exact ⟨cleaner, List.mem_cons_of_mem _ among, cleans⟩
    · exact ⟨dealing, List.mem_cons_self, cleans⟩

theorem deal_cached {page : PageId} {ref : PageRef} (during : List (Dealing κ)) (pool : Pool κ)
    (held : pool.cache.peek? page = some ref) :
    (pool.deal during).cache.peek? page = some ref ∨ pool.Departs page ref during := by
  induction during generalizing pool with
  | nil => exact Or.inl held
  | cons dealing rest ih =>
    by_cases stays : (dealing.run pool).cache.peek? page = some ref
    · exact (ih (dealing.run pool) stays).imp_right Departs.later
    · exact Or.inr (departs_now held stays rest)

theorem deal_bounded (dealings : List (Dealing κ)) (pool : Pool κ) :
    Bounded pool (pool.deal dealings) := by
  induction dealings generalizing pool with
  | nil => exact .refl pool
  | cons dealing rest ih => exact (dealing.keeps pool).bounded.trans (ih (dealing.run pool))

theorem deal_stored {dealings : List (Dealing κ)}
    (calm : ∀ dealing ∈ dealings, dealing.forces = false) (pool : Pool κ) :
    KeepsStored pool (pool.deal dealings) := by
  induction dealings generalizing pool with
  | nil => exact fun _ _ _ => id
  | cons dealing rest ih =>
    obtain ⟨first, others⟩ := List.forall_mem_cons.mp calm
    exact ((dealing.keeps pool).stored first).trans (ih others (dealing.run pool))

/-- Whatever tables and others do to a pool, over stores of whatever kind: the cache is within its
capacity at any time, no dirty page is evicted, and no stored page is written unless it is asked
for. -/
theorem no_page_is_stolen {config : Config} {catalog : Catalog Table} {stores : Array (Store κ)}
    {objects : Array Page} {pool : Pool κ} (created : create config catalog stores objects = .ok pool)
    (before : List (Dealing κ)) (reached : Pool κ) (reaches : pool.deal before = reached) :
    reached.cache.size ≤ config.capacity ∧ ∀ during : List (Dealing κ),
      (∀ page ref, reached.cache.peek? page = some ref →
        (reached.deal during).cache.peek? page = some ref ∨ reached.Departs page ref during) ∧
      ((∀ dealing ∈ during, dealing.forces = false) → ∀ store page stored,
        (reached.store store).medium.read page = .ok stored →
        ((reached.deal during).store store).medium.read page = .ok stored) := by
  obtain ⟨_, begun⟩ := create_eq_ok created
  have bounded := deal_bounded before pool
  rw [reaches, begun] at bounded
  have sound := bounded.sound (Cache.sound_empty config.capacity)
  constructor
  · calc reached.cache.size
        = reached.cache.order.length := sound.size_eq
      _ ≤ reached.cache.capacity := sound.within
      _ = config.capacity := bounded.capacity
  · intro during
    exact ⟨fun page ref held => deal_cached during reached held,
      fun calm => deal_stored calm reached⟩

end Pool

/-- A store whose pages are blank, whatever is written to them. -/
structure BlankStore where
  table : TableId
  pageSize : Nat

instance : Foreign BlankStore where
  table := BlankStore.table
  pageSize := BlankStore.pageSize
  numPages _ := .ok 2
  read s page :=
    if page.table = s.table then .ok (.clean page (Bytes.zeros s.pageSize))
    else .error (.tableMismatch page s.table)
  write s _ := (s, .ok ())
  allocate s := (s, .ok ⟨s.table, 1⟩)

instance : Foreign.Lasting BlankStore := ⟨fun _ _ _ readable => readable⟩

namespace Pool

/-- A table over blank pages has handed over two pages of its own for a cache of one. The first
stays in the cache when another transaction asks for the second. -/
theorem handed_page_stays_cached : ∃ pool reached : Pool BlankStore,
    create (Config.sized 1 64) (Catalog.empty.add "d" ⟨1⟩ (DetachedTable.table ⟨1⟩ 64 ⟨0⟩))
      #[.reliable (.foreign ⟨⟨1⟩, 64⟩)] #[] = .ok pool ∧
    pool.deal [.make (.clean ⟨⟨1⟩, 0⟩ #[7]), .make (.clean ⟨⟨1⟩, 1⟩ #[8]),
      .adopt ⟨1⟩ [⟨0⟩, ⟨1⟩]] = reached ∧
    reached.cache.size ≤ 1 ∧ (reached.object ⟨0⟩).isDirty = true ∧
    (reached.deal [.ask ⟨2⟩ ⟨⟨1⟩, 1⟩ .shared false, .load ⟨⟨1⟩, 1⟩]).cache.peek? ⟨⟨1⟩, 0⟩ =
      some ⟨0⟩ := by
  have created : create (Config.sized 1 64)
    (Catalog.empty.add "d" ⟨1⟩ (DetachedTable.table ⟨1⟩ 64 ⟨0⟩))
    #[(.reliable (.foreign ⟨⟨1⟩, 64⟩) : Store BlankStore)] #[] = .ok _ := rfl
  obtain ⟨bounded, keeps⟩ := no_page_is_stolen created
    [.make (.clean ⟨⟨1⟩, 0⟩ #[7]), .make (.clean ⟨⟨1⟩, 1⟩ #[8]), .adopt ⟨1⟩ [⟨0⟩, ⟨1⟩]] _ rfl
  refine ⟨_, _, created, rfl, bounded, by decide +kernel, ?_⟩
  rcases (keeps [.ask ⟨2⟩ ⟨⟨1⟩, 1⟩ .shared false, .load ⟨⟨1⟩, 1⟩]).1 ⟨⟨1⟩, 0⟩ ⟨0⟩
    (by decide +kernel) with stays | ⟨done, next, rest, split, _, _, lost⟩
  · exact stays
  · -- neither asking nor loading loses a page or takes a tag off
    have harmless : ∀ dealing ∈ done ++ next :: rest, (∀ mid, ¬dealing.Loses mid ⟨⟨1⟩, 0⟩ ⟨0⟩) ∧
        dealing.cleans ⟨0⟩ = false := by
      rw [← split]
      intro dealing among
      simp only [List.mem_cons, List.not_mem_nil, or_false] at among
      rcases among with rfl | rfl
      · exact ⟨fun mid lost => (by cases lost), rfl⟩
      · exact ⟨fun mid lost => (by cases lost), rfl⟩
    rcases lost with lost | ⟨_, cause⟩
    · exact absurd lost ((harmless next (by simp)).1 _)
    · obtain ⟨dealing, among, cleans⟩ := cause (by decide +kernel)
      rw [(harmless dealing (List.mem_append_left _ among)).2] at cleans
      cases cleans

/-- A dirty page fills the cache. It does not stay there when a table that is called cleans it and
fetches another page, nor when a fetch waits and somebody cleans it in the meantime. -/
theorem cleaned_page_is_evicted : ∃ pool reached,
    create (Config.sized 1 64) (Catalog.single "a" Interleaving.blankPair.medium)
      #[Interleaving.blankPair] #[] = .ok pool ∧
    pool.deal [.ask ⟨1⟩ ⟨⟨1⟩, 0⟩ .exclusive false, .load ⟨⟨1⟩, 0⟩,
      .put ⟨0⟩ ⟨⟨⟨1⟩, 0⟩, Array.replicate 64 7, some ⟨1⟩⟩, .lock ⟨2⟩ ⟨⟨1⟩, 1⟩ .shared] =
      reached ∧
    reached.cache.peek? ⟨⟨1⟩, 0⟩ = some ⟨0⟩ ∧ (reached.object ⟨0⟩).isDirty = true ∧
    (reached.deal [.ask ⟨1⟩ ⟨⟨1⟩, 0⟩ .exclusive false, .load ⟨⟨1⟩, 0⟩,
      .put ⟨0⟩ ⟨⟨⟨1⟩, 0⟩, Array.replicate 64 7, none⟩, .ask ⟨1⟩ ⟨⟨1⟩, 1⟩ .shared false,
      .load ⟨⟨1⟩, 1⟩, .adopt ⟨1⟩ []]).cache.peek? ⟨⟨1⟩, 0⟩ = none ∧
    (reached.deal [.ask ⟨3⟩ ⟨⟨1⟩, 1⟩ .exclusive false,
      .put ⟨0⟩ ⟨⟨⟨1⟩, 0⟩, Array.replicate 64 7, none⟩, .release ⟨2⟩ ⟨⟨1⟩, 1⟩,
      .ask ⟨3⟩ ⟨⟨1⟩, 1⟩ .exclusive true, .load ⟨⟨1⟩, 1⟩]).cache.peek? ⟨⟨1⟩, 0⟩ = none := by
  have created : create (Config.sized 1 64) (Catalog.single "a" Interleaving.blankPair.medium)
    #[Interleaving.blankPair] #[] = .ok _ := rfl
  exact ⟨_, _, created, rfl, by decide +kernel, by decide +kernel, by decide +kernel,
    by decide +kernel⟩

end Pool

/-! ## Incidents as dealings -/

namespace Pool

variable {α κ : Type} [Foreign κ] {txn : TransactionId}

/-- One pool comes from another by dealings. -/
def Deals (before after : Pool κ) : Prop := ∃ dealings, before.deal dealings = after

theorem Deals.refl (pool : Pool κ) : Deals pool pool := ⟨[], rfl⟩

theorem Deals.trans {a b c : Pool κ} (first : Deals a b) (second : Deals b c) : Deals a c := by
  obtain ⟨dealings, rfl⟩ := first
  obtain ⟨others, rfl⟩ := second
  exact ⟨dealings ++ others, List.foldl_append⟩

theorem deals_once (pool : Pool κ) (dealing : Dealing κ) : Deals pool (dealing.run pool) :=
  ⟨[dealing], rfl⟩

theorem deals_serve (request : Waiting α) (waited : Bool) (pool : Pool κ)
    (rest : ∀ r (pool : Pool κ), Deals pool (pool.run txn (request.next r)).1) :
    Deals pool (pool.serve txn request waited).1 := by
  have asks := pool.deals_once (.ask txn request.page request.permission.mode waited)
  simp only [Dealing.run] at asks
  simp only [serve]
  cases answer : pool.requestLock txn request.page request.permission.mode waited with
  | mk mid outcome =>
    rw [answer] at asks
    cases outcome with
    | granted => exact (asks.trans (mid.deals_once (.load request.page))).trans (rest _ _)
    | refused => exact asks
    | victim => exact asks.trans (rest _ mid)

theorem deals_run (txn : TransactionId) (p : Program α) (pool : Pool κ) :
    Deals pool (pool.run txn p).1 := by
  induction p generalizing pool with
  | stop result => exact .refl pool
  | fetch page permission next ih =>
    rw [run_fetch]
    exact deals_serve ⟨page, permission, next⟩ false pool ih
  | holds page next ih => exact ih _ pool
  | release page next ih => exact (pool.deals_once (.release txn page)).trans (ih _)
  | discard page next ih => exact (pool.deals_once (.discard page)).trans (ih _)
  | count store next ih => exact (pool.deals_once (.count store)).trans (ih _ _)
  | allocate store next ih => exact (pool.deals_once (.allocate store)).trans (ih _ _)
  | look ref next ih => exact ih _ pool
  | edit ref data next ih => exact (pool.deals_once (.put ref _)).trans (ih _)
  | spoil ref data next ih => exact (pool.deals_once (.put ref _)).trans (ih _)
  | make page next ih => exact (pool.deals_once (.make page)).trans (ih _ _)

theorem deals_proceed (waited : Bool) (p : Program α) (pool : Pool κ) :
    Deals pool (pool.proceed txn waited p).1 := by
  cases p with
  | fetch page permission next => exact deals_serve _ waited pool fun r => deals_run txn (next r)
  | _ => exact deals_run txn _ pool

theorem deals_finish (result : Pool κ × Progress Answer) :
    Deals result.1 (finish txn result).1 := by
  rcases finish_cases txn result with same | ⟨refs, _, adopts, _⟩
  · rw [same]
    exact .refl result.1
  · rw [adopts]
    exact result.1.deals_once (.adopt txn refs)

theorem deals_ending (pool : Pool) (txn : TransactionId) (ending : Ending) :
    Deals pool (ending.run pool txn).1 := by
  have commits := pool.deals_once (.commit txn)
  rcases pool.ending_pool txn ending with eq | eq | eq
  · rw [eq]
    exact commits
  · rw [eq]
    exact pool.deals_once (.abort txn)
  · rw [eq]
    exact commits.trans ((pool.commit txn).1.deals_once (.abort txn))

end Pool

namespace Interleaving

/-- Whatever happens in an interleaving is a list of dealings with its pool. -/
theorem undergo_deals (s : Interleaving) (c : Incident) : Pool.Deals s.pool (s.undergo c).pool := by
  cases c with
  | deed deed =>
    cases deed with
    | act action =>
      show Pool.Deals s.pool (s.step action).pool
      cases takes : s.call? action with
      | some call =>
        rw [step_call takes, settle_pool]
        exact (Pool.deals_proceed call.waited call.program s.pool).trans (Pool.deals_finish _)
      | none =>
        rcases step_idle takes with
          same | ⟨txn, _, eq⟩ | ⟨cached, _, eq⟩ | ⟨txn, ending, _, eq⟩
        · rw [same]
          exact .refl s.pool
        · rw [eq]
          exact s.pool.deals_once (.flush txn)
        · rw [eq]
          exact s.pool.deals_once (.flushAll cached)
        · rw [eq]
          exact s.pool.deals_ending txn ending
    | write ref start new =>
      simp only [undergo, handle]
      split
      · exact s.pool.deals_once (.put ref _)
      · exact .refl s.pool
    | mark ref dirtier => exact s.pool.deals_once (.put ref _)
    | release txn page => exact s.pool.deals_once (.release txn page)
    | discard page => exact s.pool.deals_once (.discard page)
  | store store => exact s.pool.deals_once (.addStore store)
  | register name table => exact s.pool.deals_once (.register name table)
  | remove table => exact s.pool.deals_once (.remove table)

end Interleaving

end TransactionalPages
