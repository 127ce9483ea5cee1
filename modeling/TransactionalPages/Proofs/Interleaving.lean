import Mathlib.Data.List.Basic
import TransactionalPages.Proofs.Operation

/-!
# Interleaved transactions

Transactions take turns at one pool. A turn ends where an operation waits for a
lock; the transaction then does nothing else until its request is taken up again,
which may be tried at any time. A transaction is its number, so that beginning
one is not an event of its own. What the transactions were answered, and how they
ended, is written to a log.

In every state that a pool reaches in this way its pages are coherent.
-/

namespace TransactionalPages

/-- The ways to end a transaction. A commit that fails leaves the transaction as it is, and one
through a handle rolls it back. -/
inductive Ending where
  | commit
  | close
  | abort
  | drop
  deriving DecidableEq, Repr

namespace Ending

def run : Ending → Pool → TransactionId → Pool × Except PoolError Unit
  | commit => Pool.commit
  | close => Pool.commitHandle
  | abort => Pool.abort
  | drop => Pool.dropHandle

/-- Whether an ending with this result has made the changes of its transaction last. -/
def commits : Ending → Except PoolError Unit → Bool
  | commit, .ok _ => true
  | close, .ok _ => true
  | _, _ => false

/-- Whether an ending with this result leaves the transaction as it is. -/
def leaves : Ending → Except PoolError Unit → Bool
  | commit, .error _ => true
  | _, _ => false

theorem leaves_ok (ending : Ending) : ending.leaves (.ok ()) = false := by
  cases ending <;> rfl

end Ending

/-- An answer with the pages that it refers to. -/
inductive Reply where
  | page (page : Page)
  | changed (pages : List Page)
  | tuple (data : Bytes)
  | rows (rows : HeapTable.Rows)
  deriving DecidableEq, Repr

def Answer.show (pool : Pool) : Answer → Reply
  | .page ref => .page (pool.object ref)
  | .changed refs => .changed (refs.map pool.object)
  | .tuple data => .tuple data
  | .rows found => .rows found

inductive Event where
  | answered (txn : TransactionId) (op : Operation) (reply : Except PoolError Reply)
  | ended (txn : TransactionId) (ending : Ending) (result : Except PoolError Unit)
  deriving DecidableEq

inductive Action where
  | call (txn : TransactionId) (op : Operation)
  | retry (txn : TransactionId)
  | flush (txn : TransactionId)
  /-- Writes back every dirty page, in the order of a listing of the cache. -/
  | flushAll (cached : List (PageId × PageRef))
  | finish (txn : TransactionId) (ending : Ending)
  deriving DecidableEq, Repr

/-- An operation that waits for a lock. -/
structure Suspension where
  txn : TransactionId
  op : Operation
  request : Waiting Answer

structure Interleaving where
  pool : Pool
  suspended : List Suspension
  /-- The event that happened last comes first. -/
  log : List Event

namespace Interleaving

def start (pool : Pool) : Interleaving := ⟨pool, [], []⟩

def isSuspended (s : Interleaving) (txn : TransactionId) : Bool :=
  s.suspended.any fun r => r.txn = txn

/-- Records what became of an operation, which the others have nothing to do with. -/
def settle (others : List Suspension) (log : List Event) (txn : TransactionId) (op : Operation) :
    Pool × Progress Answer → Interleaving
  | (pool, .waiting request) => ⟨pool, others ++ [⟨txn, op, request⟩], log⟩
  | (pool, .done result) =>
    ⟨pool, others, .answered txn op (result.map fun answer => answer.show pool) :: log⟩

/-- A transaction that waits does nothing but to try again. Turns change between operations and
where a lock is refused: what an operation does from one such point to the next is one step. What is
no listing of the cache says nothing about it. -/
def step (s : Interleaving) : Action → Interleaving
  | .call txn op =>
    if s.isSuspended txn then s else settle s.suspended s.log txn op (s.pool.submit txn op)
  | .retry txn =>
    match s.suspended.find? fun r => r.txn = txn with
    | none => s
    | some r =>
      settle (s.suspended.filter fun r => r.txn ≠ txn) s.log txn r.op (s.pool.resume txn r.request)
  | .flush txn => if s.isSuspended txn then s else { s with pool := (s.pool.flushPages txn).1 }
  | .flushAll cached =>
    if cached.Perm s.pool.cache.pages.toList then { s with pool := (s.pool.flushAll cached).1 }
    else s
  | .finish txn ending =>
    if s.isSuspended txn then s
    else
      { s with
        pool := (ending.run s.pool txn).1
        log := .ended txn ending (ending.run s.pool txn).2 :: s.log }

def run (s : Interleaving) (actions : List Action) : Interleaving := actions.foldl step s

end Interleaving

/-! ## Endings -/

namespace Pool

variable {pool : Pool} {txn : TransactionId}

theorem commit_others (coherent : pool.Coherent) {a : TransactionId} (other : a ≠ txn)
    (page : PageId) : (pool.commit txn).1.locks.mode? a page = pool.locks.mode? a page := by
  obtain ⟨moved, control, same | gone⟩ := pool.commit_control txn
  · rw [same, control.locks]
  · rw [gone]
    show (moved.locks.releaseAll txn).mode? a page = _
    rw [control.locks, LockTable.releaseAll_mode? coherent.locks, if_neg other]

theorem abort_others (coherent : pool.Coherent) {a : TransactionId} (other : a ≠ txn)
    (page : PageId) : (pool.abort txn).1.locks.mode? a page = pool.locks.mode? a page := by
  rw [(coherent.abort txn).2.2.2.1, LockTable.releaseAll_mode? coherent.locks, if_neg other]

/-- A handle commits, or it commits in vain and aborts. It reports why it could not commit, but for
a fault that ends the abort. -/
theorem commitHandle_cases (pool : Pool) (txn : TransactionId) :
    ((pool.commit txn).2 = .ok () ∧ pool.commitHandle txn = ((pool.commit txn).1, .ok ())) ∨
    (∃ e e', (pool.commit txn).2 = .error e ∧
      pool.commitHandle txn = (((pool.commit txn).1.abort txn).1, .error e') ∧
      e' = match ((pool.commit txn).1.abort txn).2 with
        | .ok () => e
        | .error after => if after.isFault then after else e) := by
  simp only [commitHandle]
  cases committed : pool.commit txn with
  | mk moved result =>
    cases result with
    | ok _ => exact Or.inl ⟨rfl, rfl⟩
    | error e =>
      right
      dsimp only
      cases aborted : moved.abort txn with
      | mk rolled outcome =>
        cases outcome with
        | ok _ => exact ⟨e, e, rfl, rfl, rfl⟩
        | error after => exact ⟨e, _, rfl, rfl, rfl⟩

theorem dropHandle_pool (pool : Pool) (txn : TransactionId) :
    (pool.dropHandle txn).1 = (pool.abort txn).1 := by
  simp only [dropHandle]
  cases pool.abort txn with
  | mk rolled outcome => cases outcome <;> rfl

/-- An ending is a commit or an abort, or a commit that fails and then an abort. -/
theorem ending_pool (pool : Pool) (txn : TransactionId) (ending : Ending) :
    (ending.run pool txn).1 = (pool.commit txn).1 ∨ (ending.run pool txn).1 = (pool.abort txn).1 ∨
      (ending.run pool txn).1 = ((pool.commit txn).1.abort txn).1 := by
  cases ending with
  | commit => exact Or.inl rfl
  | close =>
    simp only [Ending.run]
    rcases pool.commitHandle_cases txn with ⟨_, eq⟩ | ⟨_, _, _, eq, _⟩
    · rw [eq]
      exact Or.inl rfl
    · rw [eq]
      exact Or.inr (Or.inr rfl)
  | abort => exact Or.inr (Or.inl rfl)
  | drop => exact Or.inr (Or.inl (pool.dropHandle_pool txn))

/-- Whatever becomes of a transaction in the end, the pool stays coherent. -/
theorem ending_coherent (coherent : pool.Coherent) (txn : TransactionId) (ending : Ending) :
    (ending.run pool txn).1.Coherent ∧ SameTables pool (ending.run pool txn).1 ∧
      ∀ a page, a ≠ txn →
        (ending.run pool txn).1.locks.mode? a page = pool.locks.mode? a page := by
  obtain ⟨committed, committedTables, _⟩ := coherent.commit txn
  rcases ending_pool pool txn ending with eq | eq | eq
  · rw [eq]
    exact ⟨committed, committedTables, fun a page other => commit_others coherent other page⟩
  · obtain ⟨aborted, media, _⟩ := coherent.abort txn
    rw [eq]
    exact ⟨aborted, media.toSameTables, fun a page other => abort_others coherent other page⟩
  · obtain ⟨rolled, media, _⟩ := committed.abort txn
    rw [eq]
    refine ⟨rolled, committedTables.trans media.toSameTables, fun a page other => ?_⟩
    rw [abort_others committed other, commit_others coherent other]

end Pool

/-! ## Runs -/

namespace Interleaving

variable {s : Interleaving}

/-- The pool is coherent and what is suspended can be taken up. -/
structure Sound (s : Interleaving) : Prop where
  coherent : s.pool.Coherent
  countable : s.pool.Countable
  pending : ∀ r ∈ s.suspended, Pending r.txn (r.op.purpose s.pool.catalog) s.pool r.request

theorem isSuspended_iff (s : Interleaving) (txn : TransactionId) :
    s.isSuspended txn = true ↔ ∃ r ∈ s.suspended, r.txn = txn := by simp [isSuspended]

/-- The request that a transaction is found to wait with. -/
theorem mem_of_found {txn : TransactionId} {r : Suspension}
    (found : (s.suspended.find? fun q => q.txn = txn) = some r) :
    r ∈ s.suspended ∧ r.txn = txn :=
  ⟨List.mem_of_find?_eq_some found, by simpa using List.find?_some found⟩

/-- The others that wait while it is taken up again. -/
theorem mem_of_rest {txn : TransactionId} {r : Suspension}
    (listed : r ∈ s.suspended.filter fun q => q.txn ≠ txn) : r ∈ s.suspended ∧ r.txn ≠ txn := by
  rw [List.mem_filter] at listed
  exact ⟨listed.1, by simpa using listed.2⟩

theorem Sound.pending_found (sound : s.Sound) {txn : TransactionId} {r : Suspension}
    (found : (s.suspended.find? fun q => q.txn = txn) = some r) :
    Pending txn (r.op.purpose s.pool.catalog) s.pool r.request := by
  obtain ⟨listed, rfl⟩ := mem_of_found found
  exact sound.pending r listed

/-- Requests of other transactions stay what they are while one transaction acts. -/
theorem Sound.pending_stays (sound : s.Sound) {txn : TransactionId} {after : Pool}
    (tables : Pool.SameTables s.pool after)
    (others : ∀ a page, a ≠ txn → after.locks.mode? a page = s.pool.locks.mode? a page)
    {r : Suspension} (hr : r ∈ s.suspended) (other : r.txn ≠ txn) :
    Pending r.txn (r.op.purpose after.catalog) after r.request := by
  rw [tables.catalog]
  exact (sound.pending r hr).stays fun page => others r.txn page other

theorem Sound.settle (sound : s.Sound) {txn : TransactionId} {op : Operation}
    {result : Pool × Progress Answer} (effect : Pool.Effect txn op s.pool result)
    {others : List Suspension} (apart : ∀ r ∈ others, r ∈ s.suspended ∧ r.txn ≠ txn)
    (log : List Event) : (settle others log txn op result).Sound := by
  obtain ⟨coherent, tables, modes⟩ := effect.coherent sound.coherent
  have countable := sound.countable.congr tables
  have kept : ∀ r ∈ others, Pending r.txn (r.op.purpose result.1.catalog) result.1 r.request :=
    fun r hr => sound.pending_stays tables modes (apart r hr).1 (apart r hr).2
  cases effect with
  | waits quiet pending =>
    refine ⟨coherent, countable, fun r hr => ?_⟩
    rcases List.mem_append.mp hr with there | here
    · exact kept r there
    · rw [List.mem_singleton] at here
      rw [here]
      exact pending
  | fails quiet => exact ⟨coherent, countable, kept⟩
  | answers quiet reads => exact ⟨coherent, countable, kept⟩
  | writes mutates quiet alone visible whole change done sameTables locks view shown =>
    exact ⟨coherent, countable, kept⟩

theorem Sound.not_suspended {txn : TransactionId} (free : ¬s.isSuspended txn = true) :
    ∀ r ∈ s.suspended, r.txn ≠ txn := fun r hr same =>
  free ((s.isSuspended_iff txn).mpr ⟨r, hr, same⟩)

theorem Sound.step (sound : s.Sound) (action : Action) : (s.step action).Sound := by
  cases action with
  | call txn op =>
    rw [Interleaving.step]
    split
    · exact sound
    next free =>
      exact sound.settle (Pool.submit_effect sound.coherent sound.countable txn op)
        (fun r hr => ⟨hr, Sound.not_suspended free r hr⟩) s.log
  | retry txn =>
    rw [Interleaving.step]
    split
    · exact sound
    next r found =>
      have effect := Pool.resume_effect sound.coherent sound.countable (sound.pending_found found)
      exact sound.settle effect (fun q listed => mem_of_rest listed) s.log
  | flush txn =>
    rw [Interleaving.step]
    split
    · exact sound
    · obtain ⟨coherent, tables, _⟩ := sound.coherent.flushEach (s.pool.locks.pagesHeldBy txn)
      have control := Pool.flushPages_control s.pool txn
      refine ⟨coherent, sound.countable.congr tables, fun r hr => ?_⟩
      show Pending r.txn (r.op.purpose (s.pool.flushPages txn).1.catalog) _ _
      rw [control.catalog]
      exact (sound.pending r hr).stays fun page => by rw [control.locks]
  | flushAll cached =>
    rw [Interleaving.step]
    split
    · obtain ⟨coherent, tables⟩ := sound.coherent.flushCached cached
      have control := Pool.flushCached_control cached s.pool
      refine ⟨coherent, sound.countable.congr tables, fun r hr => ?_⟩
      show Pending r.txn (r.op.purpose (s.pool.flushCached cached).1.catalog) _ r.request
      rw [control.catalog]
      exact (sound.pending r hr).stays fun page => by
        show (s.pool.flushCached cached).1.locks.mode? r.txn page = _
        rw [control.locks]
    · exact sound
  | finish txn ending =>
    rw [Interleaving.step]
    split
    · exact sound
    next free =>
      obtain ⟨coherent, tables, modes⟩ := Pool.ending_coherent sound.coherent txn ending
      exact ⟨coherent, sound.countable.congr tables, fun r hr =>
        sound.pending_stays tables modes hr (Sound.not_suspended free r hr)⟩

theorem Sound.run (sound : s.Sound) (actions : List Action) : (s.run actions).Sound := by
  induction actions generalizing s with
  | nil => exact sound
  | cons action rest ih => exact ih (sound.step action)

end Interleaving

/-! ## The beginning -/

namespace Pool

variable {config : Config} {catalog : Catalog Table} {stores : Array Store} {objects : Array Page}
  {pool : Pool}

/-- The media of the stores have fewer pages than can be counted in 32 bits. -/
theorem countable_of_few {m : Medium} (few : m.extent < 4294967295) : m.Countable := by
  cases m with
  | memory s => trivial
  | file s => exact Nat.le_of_lt few
  | foreign s => exact s.elim

theorem create_eq_ok {κ : Type} {stores : Array (Store κ)} {pool : Pool κ}
    (created : create config catalog stores objects = .ok pool) :
    config.validate = .ok () ∧
      pool = ⟨config, catalog, stores, objects, .empty, .empty, .empty config.capacity⟩ := by
  simp only [create] at created
  split at created
  · cases created
  next valid =>
    split at created
    · cases created
    next made =>
      simp only [Cache.create] at made
      split at made
      · cases made
      · cases made
        exact ⟨valid, (Except.ok.inj created).symm⟩

/-- Whether a pool can be created is a matter of its configuration. -/
theorem create_congr (created : create config catalog stores objects = .ok pool)
    (others : Array Store) :
    create config catalog others objects = .ok { pool with stores := others } := by
  simp only [create] at created ⊢
  split at created
  · cases created
  · split at created
    · cases created
    · cases created
      rfl

theorem pageSize_of_valid (valid : config.validate = .ok ()) :
    0 < config.capacity ∧ Config.minPageSize ≤ config.pageSize ∧
      config.pageSize ≤ Config.maxPageSize := by
  simp only [Config.validate] at valid
  split at valid
  · cases valid
  next positive =>
    split at valid
    · cases valid
    next range => omega

/-- A new pool caches nothing and is coherent. -/
theorem coherent_create (created : create config catalog stores objects = .ok pool)
    (heaps : pool.OverHeaps) : pool.Coherent := by
  obtain ⟨valid, rfl⟩ := create_eq_ok created
  refine ⟨LockTable.sound_empty, (pageSize_of_valid valid).2.2, heaps, rfl, Cache.sound_empty _,
    fun page ref held => ?_⟩
  simp [Cache.empty, Cache.peek?] at held

theorem unheld_create (created : create config catalog stores objects = .ok pool)
    (txn : TransactionId) (page : PageId) : ¬pool.locks.holds txn page := by
  obtain ⟨_, rfl⟩ := create_eq_ok created
  intro held
  cases held

theorem countable_create (created : create config catalog stores objects = .ok pool)
    (few : ∀ store ∈ stores, store.medium.extent < 4294967295) : pool.Countable := by
  obtain ⟨_, rfl⟩ := create_eq_ok created
  intro ref
  show (stores.getD ref.index default).medium.Countable
  by_cases inside : ref.index < stores.size
  · rw [Array.getD_eq_getD_getElem?, Array.getElem?_eq_getElem inside]
    exact countable_of_few (few _ (Array.getElem_mem inside))
  · rw [Array.getD_eq_getD_getElem?, Array.getElem?_eq_none (Nat.le_of_not_lt inside)]
    trivial

end Pool

/-- A catalog with the heap table over the first store and no other table. -/
def Catalog.single (name : String) (medium : Medium) : Catalog Table :=
  Catalog.empty.add name medium.table (HeapTable.table medium.table medium.pageSize ⟨0⟩)

theorem Catalog.single_file? (name : String) (medium : Medium) (id : TableId) :
    (Catalog.single name medium).file? id =
      if id = medium.table then some (HeapTable.table medium.table medium.pageSize ⟨0⟩)
      else none := by
  show ((∅ : Std.TreeMap TableId (CatalogEntry Table)).insert medium.table _)[id]?.map _ = _
  rw [Lookup.getElem?_insert]
  by_cases same : id = medium.table
  · rw [if_pos same, if_pos same]
    rfl
  · rw [if_neg same, if_neg same]
    rfl

namespace Pool

theorem heaps_single {config : Config} {name : String} {store : Store} {objects : Array Page}
    {pool : Pool}
    (created : create config (Catalog.single name store.medium) #[store] objects = .ok pool) :
    pool.OverHeaps := by
  rw [(create_eq_ok created).2]
  intro id file known
  rw [Catalog.single_file?] at known
  split at known
  next same =>
    cases known
    exact ⟨by rw [same]; rfl, Nat.zero_lt_one, same.symm⟩
  next => cases known

end Pool

namespace Interleaving

theorem sound_start {pool : Pool} (coherent : pool.Coherent) (countable : pool.Countable) :
    (start pool).Sound :=
  ⟨coherent, countable, fun _ listed => absurd listed List.not_mem_nil⟩

/-- A store in memory with two blank pages of 64 bytes, all of whose calls get through. -/
def blankPair : Store := .reliable (.memory ⟨⟨1⟩, 64, Array.replicate 2 (Bytes.zeros 64)⟩)

/-- Every cached page is filed under its own name. A dirty one is held exclusively by the
transaction that wrote it last, and a clean one has the bytes that its store has. -/
theorem cached_pages_coherent {config : Config} {catalog : Catalog Table} {stores : Array Store}
    {objects : Array Page} {pool : Pool}
    (created : Pool.create config catalog stores objects = .ok pool) (heaps : pool.OverHeaps)
    (few : ∀ store ∈ stores, store.medium.extent < 4294967295) (actions : List Action)
    (page : PageId) (ref : PageRef) (reached : Pool)
    (reaches : ((start pool).run actions).pool = reached)
    (cached : reached.cache.peek? page = some ref) :
    (reached.object ref).id = page ∧
      (∀ txn, (reached.object ref).dirtier = some txn →
        reached.locks.mode? txn page = some .exclusive) ∧
      ((reached.object ref).dirtier = none →
        ∃ table stored, reached.catalog.file? page.table = some table ∧
          (reached.store table.store).medium.read page = .ok stored ∧
          stored.data = (reached.object ref).data) := by
  have started :=
    sound_start (Pool.coherent_create created heaps) (Pool.countable_create created few)
  have sound := started.run actions
  have coherent := sound.coherent
  rw [reaches] at coherent
  have filed := coherent.filed page ref cached
  refine ⟨filed.id, filed.owned, fun clean => ?_⟩
  obtain ⟨data, stored, _, same⟩ := filed.backed
  obtain ⟨table, known, read⟩ := Pool.stored?_eq_some.mp stored
  exact ⟨table, _, known, read, (same clean).symm⟩

/-- The second transaction waits for the first, reads the record and deletes it. -/
theorem deleted_page_is_draft : ∃ pool reached,
    Pool.create (Config.sized 2 64) (Catalog.single "a" blankPair.medium) #[blankPair] #[] =
      .ok pool ∧
    ((start pool).run [.call ⟨1⟩ (.mutate ⟨1⟩ (.insert #[7, 8])),
      .call ⟨2⟩ (.get ⟨1⟩ ⟨⟨⟨1⟩, 0⟩, 0⟩), .finish ⟨1⟩ .commit, .retry ⟨2⟩,
      .call ⟨2⟩ (.mutate ⟨1⟩ (.delete ⟨⟨⟨1⟩, 0⟩, 0⟩))]).pool = reached ∧
    reached.cache.peek? ⟨⟨1⟩, 0⟩ = some ⟨0⟩ ∧ (reached.object ⟨0⟩).dirtier = some ⟨2⟩ ∧
    reached.locks.mode? ⟨2⟩ ⟨⟨1⟩, 0⟩ = some .exclusive := by
  have created : Pool.create (Config.sized 2 64) (Catalog.single "a" blankPair.medium)
    #[blankPair] #[] = .ok _ := rfl
  have few : ∀ store ∈ #[blankPair], store.medium.extent < 4294967295 := by
    intro store listed
    rw [Array.mem_singleton.mp listed]
    decide
  have cached := cached_pages_coherent created (Pool.heaps_single created) few
    [.call ⟨1⟩ (.mutate ⟨1⟩ (.insert #[7, 8])), .call ⟨2⟩ (.get ⟨1⟩ ⟨⟨⟨1⟩, 0⟩, 0⟩),
      .finish ⟨1⟩ .commit, .retry ⟨2⟩, .call ⟨2⟩ (.mutate ⟨1⟩ (.delete ⟨⟨⟨1⟩, 0⟩, 0⟩))]
    ⟨⟨1⟩, 0⟩ ⟨0⟩ _ rfl (by decide +kernel)
  exact ⟨_, _, created, rfl, by decide +kernel, by decide +kernel,
    cached.2.1 ⟨2⟩ (by decide +kernel)⟩

end Interleaving

end TransactionalPages
