import TransactionalPages.Proofs.LockTable
import TransactionalPages.Proofs.Medium
import TransactionalPages.Proofs.Serving
import TransactionalPages.Proofs.SlottedPage

/-!
# Coherent pools

Of every page there is the copy in the store of its table, and there may be a
draft: the bytes of a dirty cached page with the transaction that wrote them. In
a coherent pool a cached page that is not a draft says what the store says, and
whoever wrote a draft holds its page exclusively.
-/

namespace TransactionalPages

/-- What can be seen of the pages of a pool. -/
structure View where
  stored : PageId → Option Bytes
  draft : PageId → Option (TransactionId × Bytes)

namespace Pool

/-- The bytes that a page has in the store of its table. -/
def stored? (pool : Pool) (page : PageId) : Option Bytes :=
  (pool.catalog.file? page.table).bind fun table =>
    ((pool.store table.store).medium.read page).toOption.map Page.data

/-- The bytes of a dirty cached page, with the transaction that wrote them. -/
def draft? (pool : Pool) (page : PageId) : Option (TransactionId × Bytes) :=
  (pool.cache.peek? page).bind fun ref =>
    (pool.object ref).dirtier.map fun txn => (txn, (pool.object ref).data)

def view (pool : Pool) : View := ⟨pool.stored?, pool.draft?⟩

/-- Every table of the catalog is the heap table over a store of its own. -/
def OverHeaps (pool : Pool) : Prop :=
  ∀ id file, pool.catalog.file? id = some file →
    file = HeapTable.table id (pool.store file.store).pageSize file.store ∧
      file.store.index < pool.stores.size ∧ (pool.store file.store).table = id

/-- A page is filed under its own name, and backed by its store. -/
structure Filed (pool : Pool) (page : PageId) (ref : PageRef) : Prop where
  known : ref.index < pool.objects.size
  id : (pool.object ref).id = page
  size : (pool.object ref).size = pool.config.pageSize
  backed : ∃ data, pool.stored? page = some data ∧ data.size = pool.config.pageSize ∧
    ((pool.object ref).dirtier = none → (pool.object ref).data = data)
  owned : ∀ txn, (pool.object ref).dirtier = some txn →
    pool.locks.mode? txn page = some .exclusive

structure Coherent (pool : Pool) : Prop where
  locks : pool.locks.Sound
  small : pool.config.pageSize ≤ Config.maxPageSize
  heaps : pool.OverHeaps
  capacity : pool.cache.capacity = pool.config.capacity
  cache : pool.cache.Sound
  filed : ∀ page ref, pool.cache.peek? page = some ref → pool.Filed page ref

variable {pool before after mid : Pool} {txn : TransactionId} {page : PageId} {ref : PageRef}
  {data : Bytes}

theorem stored?_eq_some : pool.stored? page = some data ↔
    ∃ table, pool.catalog.file? page.table = some table ∧
      (pool.store table.store).medium.read page = .ok (.clean page data) := by
  simp only [stored?]
  cases known : pool.catalog.file? page.table with
  | none => simp
  | some table =>
    cases read : (pool.store table.store).medium.read page with
    | error e => simp [read, Except.toOption]
    | ok p =>
      obtain ⟨_, clean⟩ := Medium.read_eq_clean read
      constructor
      · intro same
        have bytes : p.data = data := by simpa [read, Except.toOption] using same
        exact ⟨table, rfl, by rw [read, ← bytes, ← clean]⟩
      · rintro ⟨other, here, same⟩
        cases here
        rw [read] at same
        cases same
        simp [read, Except.toOption, Page.clean]

theorem stored?_of_read {table : Table} {p : Page}
    (known : pool.catalog.file? page.table = some table)
    (read : (pool.store table.store).medium.read page = .ok p) :
    pool.stored? page = some p.data := by
  refine stored?_eq_some.mpr ⟨table, known, ?_⟩
  rw [read, ← (Medium.read_eq_clean read).2]

theorem draft?_eq_some {bytes : Bytes} : pool.draft? page = some (txn, bytes) ↔
    ∃ ref, pool.cache.peek? page = some ref ∧ (pool.object ref).dirtier = some txn ∧
      (pool.object ref).data = bytes := by
  simp only [draft?]
  cases pool.cache.peek? page with
  | none => simp
  | some ref =>
    cases dirty : (pool.object ref).dirtier with
    | none => simp [dirty]
    | some owner => simp [dirty]

theorem draft?_of_uncached (absent : pool.cache.peek? page = none) : pool.draft? page = none := by
  rw [draft?, absent]
  rfl

theorem draft?_of_clean (held : pool.cache.peek? page = some ref)
    (clean : (pool.object ref).dirtier = none) : pool.draft? page = none := by
  rw [draft?, held, Option.bind_some, clean]
  rfl

theorem stored?_congr (catalog : after.catalog = before.catalog)
    (media : ∀ ref, (after.store ref).medium = (before.store ref).medium) :
    after.stored? = before.stored? := by
  funext page
  simp only [stored?]
  simp only [catalog, media]

/-- Stores of different tables are different stores. -/
theorem OverHeaps.apart (heaps : pool.OverHeaps) {a b : TableId} {f g : Table}
    (hf : pool.catalog.file? a = some f) (hg : pool.catalog.file? b = some g)
    (same : f.store = g.store) : a = b := by
  rw [← (heaps a f hf).2.2, ← (heaps b g hg).2.2, same]

theorem OverHeaps.store_mem (heaps : pool.OverHeaps) {id : TableId} {file : Table}
    (known : pool.catalog.file? id = some file) : pool.store file.store ∈ pool.stores := by
  have inside := (heaps id file known).2.1
  simp only [store]
  rw [Array.getD_eq_getD_getElem?, Array.getElem?_eq_getElem inside]
  exact Array.getElem_mem inside

theorem OverHeaps.congr (heaps : before.OverHeaps) (same : SameStores before after) :
    after.OverHeaps := by
  intro id file known
  rw [same.catalog] at known
  obtain ⟨heap, inside, belongs⟩ := heaps id file known
  refine ⟨?_, by rwa [same.count], (same.table _).trans belongs⟩
  have size : (after.store file.store).pageSize = (before.store file.store).pageSize :=
    same.pageSize _
  rwa [size]

/-- Whoever wrote the draft of a page holds the page alone. -/
theorem Coherent.owner (coherent : pool.Coherent) {bytes : Bytes}
    (draft : pool.draft? page = some (txn, bytes)) :
    pool.locks.mode? txn page = some .exclusive := by
  obtain ⟨ref, held, dirty, _⟩ := draft?_eq_some.mp draft
  exact (coherent.filed page ref held).owned txn dirty

theorem Coherent.owner_holds (coherent : pool.Coherent) {bytes : Bytes}
    (draft : pool.draft? page = some (txn, bytes)) : pool.locks.holds txn page :=
  LockTable.holds_of_mode (coherent.owner draft)

/-- Two names do not stand for one object. -/
theorem Coherent.ref_injective (coherent : pool.Coherent) {p q : PageId}
    (hp : pool.cache.peek? p = some ref) (hq : pool.cache.peek? q = some ref) : p = q := by
  rw [← (coherent.filed p ref hp).id, ← (coherent.filed q ref hq).id]

/-! ## Shedding clean pages -/

theorem Sheds.draft? (sheds : Sheds before after) : after.draft? = before.draft? := by
  funext page
  simp only [Pool.draft?]
  rcases sheds.kept page with same | ⟨gone, clean⟩
  · rw [same]
    cases before.cache.peek? page with
    | none => rfl
    | some ref => simp [sheds.object]
  · rw [gone]
    cases held : before.cache.peek? page with
    | none => rfl
    | some ref =>
      have undirtied : (before.object ref).dirtier = none := by
        simpa [Page.isDirty] using clean ref held
      simp [undirtied]

theorem Sheds.stored? (sheds : Sheds before after) : after.stored? = before.stored? :=
  stored?_congr sheds.control.catalog sheds.media.medium

theorem Sheds.view (sheds : Sheds before after) : after.view = before.view := by
  simp only [Pool.view]
  rw [sheds.stored?, sheds.draft?]

theorem Filed.sheds (filed : before.Filed page ref) (sheds : Sheds before after) :
    after.Filed page ref := by
  obtain ⟨known, id, size, backed, owned⟩ := filed
  refine ⟨by rwa [sheds.objects], by rwa [sheds.object], ?_, ?_, ?_⟩
  · rw [sheds.object, sheds.control.config]
    exact size
  · rw [sheds.object, sheds.control.config, sheds.stored?]
    exact backed
  · rw [sheds.object, sheds.control.locks]
    exact owned

theorem Coherent.sheds (coherent : before.Coherent) (sheds : Sheds before after) :
    after.Coherent where
  locks := by rw [sheds.control.locks]; exact coherent.locks
  small := by rw [sheds.control.config]; exact coherent.small
  heaps := coherent.heaps.congr sheds.media.stores
  capacity := by rw [sheds.capacity, sheds.control.config]; exact coherent.capacity
  cache := sheds.sound coherent.cache
  filed page ref held := (coherent.filed page ref (sheds.peek? held)).sheds sheds

/-! ## Locks -/

/-- A pool with other locks and edges. Its pages are as they were. -/
theorem Coherent.relock (coherent : pool.Coherent) {locks : LockTable} {waits : WaitForGraph}
    (sound : locks.Sound)
    (kept : ∀ page owner bytes, pool.draft? page = some (owner, bytes) →
      locks.mode? owner page = some .exclusive) :
    ({ pool with locks := locks, waits := waits } : Pool).Coherent where
  locks := sound
  small := coherent.small
  heaps := coherent.heaps
  capacity := coherent.capacity
  cache := coherent.cache
  filed page ref held := by
    have filed := coherent.filed page ref held
    refine ⟨filed.known, filed.id, filed.size, filed.backed, fun txn dirty => ?_⟩
    exact kept page txn _ (draft?_eq_some.mpr ⟨ref, held, dirty, rfl⟩)

theorem requestLock_view (pool : Pool) (txn : TransactionId) (page : PageId) (mode : LockMode)
    (waited : Bool) : (pool.requestLock txn page mode waited).1.view = pool.view := by
  rcases pool.requestLock_cases txn page mode waited with
    ⟨locks, _, eq⟩ | ⟨_, _, eq⟩ | ⟨_, _, eq⟩ <;> rw [eq] <;> rfl

theorem Coherent.requestLock (coherent : pool.Coherent) (txn : TransactionId) (page : PageId)
    (mode : LockMode) (waited : Bool) : (pool.requestLock txn page mode waited).1.Coherent := by
  rcases pool.requestLock_cases txn page mode waited with
    ⟨locks, granted, eq⟩ | ⟨_, _, eq⟩ | ⟨_, _, eq⟩
  · rw [eq]
    refine coherent.relock (LockTable.sound_acquire coherent.locks granted)
      fun q owner bytes draft => ?_
    have owns := coherent.owner draft
    rw [LockTable.acquire_mode? granted]
    split
    next here =>
      rw [here.1, here.2] at owns
      rw [owns]
      rfl
    next => exact owns
  · rw [eq]
    exact coherent.relock coherent.locks fun q owner bytes draft => coherent.owner draft
  · rw [eq]
    exact coherent.relock coherent.locks fun q owner bytes draft => coherent.owner draft

/-- A lock on a page that the transaction has not written may be given back. -/
theorem Coherent.releaseLock (coherent : pool.Coherent)
    (unwritten : ∀ bytes, pool.draft? page ≠ some (txn, bytes)) :
    (pool.releaseLock txn page).Coherent := by
  refine coherent.relock (LockTable.sound_release coherent.locks txn page)
    fun q owner bytes draft => ?_
  rw [LockTable.release_mode?, if_neg]
  · exact coherent.owner draft
  · rintro ⟨rfl, rfl⟩
    exact unwritten bytes draft

theorem Coherent.letGo (coherent : pool.Coherent)
    (unwritten : ∀ page bytes, pool.draft? page ≠ some (txn, bytes)) :
    (pool.letGo txn).Coherent := by
  refine coherent.relock (LockTable.sound_releaseAll coherent.locks txn)
    fun q owner bytes draft => ?_
  rw [LockTable.releaseAll_mode? coherent.locks, if_neg]
  · exact coherent.owner draft
  · rintro rfl
    exact unwritten q bytes draft

/-! ## Loading -/

theorem fileLoaded_object (pool : Pool) (page : PageId) (p : Page) (q : PageRef) :
    (pool.fileLoaded page p).1.object q =
      if q.index = pool.objects.size then p else pool.object q :=
  pool.object_addObject p q

theorem fileLoaded_peek? (pool : Pool) (page : PageId) (p : Page) (q : PageId) :
    (pool.fileLoaded page p).1.cache.peek? q =
      if q = page then some ⟨pool.objects.size⟩ else pool.cache.peek? q :=
  pool.cache.insert_peek? page _ q

theorem Filed.index_ne (filed : pool.Filed page ref) : ref.index ≠ pool.objects.size :=
  Nat.ne_of_lt filed.known

theorem Coherent.fileLoaded (coherent : pool.Coherent) (absent : pool.cache.peek? page = none)
    (room : pool.cache.order.length < pool.cache.capacity)
    (stored : pool.stored? page = some data) (size : data.size = pool.config.pageSize) :
    (pool.fileLoaded page (.clean page data)).1.Coherent ∧
      (pool.fileLoaded page (.clean page data)).1.view = pool.view := by
  have object := pool.fileLoaded_object page (.clean page data)
  have peek := pool.fileLoaded_peek? page (.clean page data)
  have same : (pool.fileLoaded page (.clean page data)).1.stored? = pool.stored? :=
    stored?_congr rfl fun _ => rfl
  constructor
  · refine ⟨coherent.locks, coherent.small, coherent.heaps,
      (Cache.insert_capacity ..).trans coherent.capacity, coherent.cache.insert _ _ room,
      fun q r held => ?_⟩
    rw [peek] at held
    split at held
    next here =>
      cases held
      subst here
      have loaded := object ⟨pool.objects.size⟩
      rw [if_pos rfl] at loaded
      constructor
      · exact Nat.lt_of_lt_of_eq (Nat.lt_succ_self _) (Array.size_push _).symm
      · rw [loaded]
        rfl
      · rw [loaded]
        exact size
      · rw [loaded, same]
        exact ⟨data, stored, size, fun _ => rfl⟩
      · rw [loaded]
        exact fun txn dirty => absurd dirty (by simp [Page.clean])
    next =>
      have filed := coherent.filed q r held
      have kept := object r
      rw [if_neg filed.index_ne] at kept
      constructor
      · exact Nat.lt_of_lt_of_eq (Nat.lt_succ_of_lt filed.known) (Array.size_push _).symm
      · rw [kept]
        exact filed.id
      · rw [kept]
        exact filed.size
      · rw [kept, same]
        exact filed.backed
      · rw [kept]
        exact filed.owned
  · have drafts : (pool.fileLoaded page (.clean page data)).1.draft? = pool.draft? := by
      funext q
      simp only [draft?]
      rw [peek]
      by_cases here : q = page
      · rw [if_pos here, here, absent]
        have loaded := object ⟨pool.objects.size⟩
        rw [if_pos rfl] at loaded
        rw [Option.bind_some, loaded]
        rfl
      · rw [if_neg here]
        cases held : pool.cache.peek? q with
        | none => rfl
        | some r =>
          have kept := object r
          rw [if_neg (coherent.filed q r held).index_ne] at kept
          simp [kept]
    simp only [view]
    rw [same, drafts]

/-- Loading a page changes nothing that can be seen. -/
theorem Coherent.load (coherent : pool.Coherent) (page : PageId) :
    (pool.load page).1.Coherent ∧ (pool.load page).1.view = pool.view ∧
      SameControl pool (pool.load page).1 ∧ SameMedia pool (pool.load page).1 := by
  rcases pool.load_cases page with
    ⟨ref, after, _, sheds, _, eq⟩ | ⟨e, after, _, sheds, _, eq⟩ |
    ⟨table, stored, mid, absent, known, read, size, sheds, room, eq⟩
  · rw [eq]
    exact ⟨coherent.sheds sheds, sheds.view, sheds.control, sheds.media⟩
  · rw [eq]
    exact ⟨coherent.sheds sheds, sheds.view, sheds.control, sheds.media⟩
  · rw [eq]
    have clean := (Medium.read_eq_clean read).2
    have absent : mid.cache.peek? page = none := by
      rcases sheds.kept page with same | ⟨gone, _⟩
      · rw [same, absent]
      · exact gone
    have backed : mid.stored? page = some stored.data := by
      rw [sheds.stored?]
      exact stored?_of_read known read
    have filed := (coherent.sheds sheds).fileLoaded absent (room coherent.cache) backed
      (by rw [sheds.control.config]; exact size)
    rw [← clean] at filed
    exact ⟨filed.1, filed.2.trans sheds.view, sheds.control.trans ⟨rfl, rfl, rfl, rfl⟩,
      sheds.media.trans (media_of_same rfl rfl rfl)⟩

/-- What a load answers with is in the cache. -/
theorem load_filed {ref : PageRef} (answer : (pool.load page).2 = .ok ref) :
    (pool.load page).1.cache.peek? page = some ref := by
  rcases pool.load_cases page with
    ⟨found, after, _, _, held, eq⟩ | ⟨e, after, _, _, _, eq⟩ |
      ⟨_, stored, mid, _, _, _, _, _, _, eq⟩
  · rw [eq] at answer ⊢
    cases answer
    exact held
  · rw [eq] at answer
    cases answer
  · rw [eq] at answer ⊢
    cases answer
    rw [fileLoaded_peek?, if_pos rfl]

/-! ## Changing a page object -/

/-- A cached page may get other bytes, if it is a draft of whoever holds the page exclusively or
says what the store says. -/
theorem Coherent.setObject (coherent : pool.Coherent) (held : pool.cache.peek? page = some ref)
    (new : Page) (id : new.id = page) (size : new.size = pool.config.pageSize)
    (clean : new.dirtier = none → pool.stored? page = some new.data)
    (owned : ∀ txn, new.dirtier = some txn → pool.locks.mode? txn page = some .exclusive) :
    (pool.setObject ref new).Coherent ∧
      (pool.setObject ref new).stored? = pool.stored? ∧
      ∀ q, (pool.setObject ref new).draft? q =
        if q = page then new.dirtier.map fun txn => (txn, new.data) else pool.draft? q := by
  have known := (coherent.filed page ref held).known
  have object : (pool.setObject ref new).object ref = new := by
    rw [object_setObject, if_pos ⟨rfl, known⟩]
  have others : ∀ q r, q ≠ page → pool.cache.peek? q = some r →
      (pool.setObject ref new).object r = pool.object r := by
    intro q r other filed
    rw [object_setObject, if_neg]
    rintro ⟨rfl, _⟩
    exact other (coherent.ref_injective filed held)
  have same : (pool.setObject ref new).stored? = pool.stored? := stored?_congr rfl fun _ => rfl
  have count : (pool.setObject ref new).objects.size = pool.objects.size :=
    Array.size_setIfInBounds
  refine ⟨⟨coherent.locks, coherent.small, coherent.heaps, coherent.capacity, coherent.cache,
    fun q r filed => ?_⟩, same, fun q => ?_⟩
  · by_cases here : q = page
    · subst here
      cases held.symm.trans filed
      obtain ⟨data, stored, whole, _⟩ := (coherent.filed q ref held).backed
      refine ⟨by rwa [count], by rw [object, id], by rw [object]; exact size, ?_, ?_⟩
      · refine ⟨data, by rw [same, stored], whole, fun undirtied => ?_⟩
        rw [object] at undirtied ⊢
        have agree := clean undirtied
        rw [stored] at agree
        exact (Option.some.inj agree).symm
      · rw [object]
        exact owned
    · have kept := others q r here filed
      have before := coherent.filed q r filed
      refine ⟨by rw [count]; exact before.known, by rw [kept, before.id], ?_, ?_, ?_⟩
      · rw [kept]
        exact before.size
      · rw [kept, same]
        exact before.backed
      · rw [kept]
        exact before.owned
  · show ((pool.cache.peek? q).bind fun r => _) = _
    by_cases here : q = page
    · rw [if_pos here, here, held, Option.bind_some, object]
    · rw [if_neg here]
      simp only [draft?]
      cases filed : pool.cache.peek? q with
      | none => rfl
      | some r => rw [Option.bind_some, Option.bind_some, others q r here filed]

end Pool

/-- A transaction writes a page. -/
def View.write (v : View) (txn : TransactionId) (page : PageId) (data : Bytes) : View :=
  { v with draft := fun q => if q = page then some (txn, data) else v.draft q }

namespace Pool

variable {pool : Pool} {txn : TransactionId} {page : PageId} {ref : PageRef} {data : Bytes}

theorem Coherent.edit (coherent : pool.Coherent) (held : pool.cache.peek? page = some ref)
    (alone : pool.locks.mode? txn page = some .exclusive)
    (size : data.size = pool.config.pageSize) :
    (pool.setObject ref { pool.object ref with data := data, dirtier := some txn }).Coherent ∧
      (pool.setObject ref { pool.object ref with data := data, dirtier := some txn }).view =
        pool.view.write txn page data := by
  obtain ⟨after, stored, drafts⟩ := coherent.setObject held
    { pool.object ref with data := data, dirtier := some txn }
    (coherent.filed page ref held).id size (fun undirtied => by cases undirtied)
    (fun other same => by cases same; exact alone)
  refine ⟨after, ?_⟩
  simp only [view, View.write]
  rw [stored]
  congr 1
  funext q
  exact drafts q

/-! ## Changing a store -/

/-- A store may change, as long as the cached pages stay backed. -/
theorem Coherent.setStore (coherent : pool.Coherent) {ref : StoreRef} {store : Store}
    (same : SameTables pool (pool.setStore ref store))
    (backed : ∀ page r, pool.cache.peek? page = some r →
      ∃ data, (pool.setStore ref store).stored? page = some data ∧
        data.size = pool.config.pageSize ∧
        ((pool.object r).dirtier = none → (pool.object r).data = data)) :
    (pool.setStore ref store).Coherent where
  locks := coherent.locks
  small := coherent.small
  heaps := coherent.heaps.congr same.stores
  capacity := coherent.capacity
  cache := coherent.cache
  filed page r held := by
    have filed := coherent.filed page r held
    exact ⟨filed.known, filed.id, filed.size, backed page r held, filed.owned⟩

/-- An allocation reaches the medium, or it is stopped before. -/
theorem allocate_result {κ : Type} [Foreign κ] (s : Store κ) :
    (s.allocate.1.medium = s.medium.allocate.1 ∧ s.allocate.2 = s.medium.allocate.2) ∨
      (s.allocate.1.medium = s.medium ∧ s.allocate.2 = .error (.io .injected)) := by
  unfold Store.allocate
  dsimp only
  split
  · exact Or.inl ⟨rfl, rfl⟩
  · exact Or.inr ⟨rfl, rfl⟩

theorem allocate_medium {κ : Type} [Foreign κ] (s : Store κ) :
    s.allocate.1.medium = s.medium ∨ s.allocate.1.medium = s.medium.allocate.1 := by
  rcases allocate_result s with ⟨grown, _⟩ | ⟨same, _⟩
  · exact Or.inr grown
  · exact Or.inl same

theorem allocate_outages (s : Store) :
    s.allocate.1.reads = s.reads ∧ s.allocate.1.writes = s.writes := by
  unfold Store.allocate
  dsimp only
  split
  · exact ⟨rfl, rfl⟩
  · exact ⟨rfl, rfl⟩

theorem allocatePage_eq {κ : Type} [Foreign κ] (pool : Pool κ) (ref : StoreRef) :
    (pool.allocatePage ref).1 = pool.setStore ref (pool.store ref).allocate.1 := rfl

theorem allocatePage_tables (pool : Pool) (ref : StoreRef) :
    SameTables pool (pool.allocatePage ref).1 := by
  have shape := (pool.store ref).medium.table_allocate
  rw [allocatePage_eq]
  obtain ⟨reads, writes⟩ := allocate_outages (pool.store ref)
  refine setStore_tables ?_ ?_ (by rw [reads]) (by rw [writes]) (fun countable => ?_) fun tidy => ?_
  · rcases allocate_medium (pool.store ref) with same | grown
    · rw [same]
    · rw [grown, shape.1]
  · rcases allocate_medium (pool.store ref) with same | grown
    · rw [same]
    · rw [grown, shape.2]
  · rcases allocate_medium (pool.store ref) with same | grown
    · rwa [same]
    · rw [grown]
      exact Medium.countable_allocate countable
  · rcases allocate_medium (pool.store ref) with same | grown
    · rwa [same]
    · rw [grown]
      exact Medium.tidy_allocate tidy

/-- No page that is stored changes when a page is allocated. -/
theorem stored?_allocated {ref : StoreRef} (stored : pool.stored? page = some data) :
    (pool.allocatePage ref).1.stored? page = some data := by
  obtain ⟨table, known, read⟩ := stored?_eq_some.mp stored
  refine stored?_eq_some.mpr ⟨table, known, ?_⟩
  rw [allocatePage_eq, store_setStore]
  split
  next here =>
    rw [here.1] at read
    rcases allocate_medium (pool.store ref) with same | grown
    · rw [same]
      exact read
    · rw [grown]
      exact Medium.read_allocate read
  next => exact read

theorem Coherent.allocate (coherent : pool.Coherent) (ref : StoreRef) :
    (pool.allocatePage ref).1.Coherent ∧
      (pool.allocatePage ref).1.draft? = pool.draft? ∧
      ∀ page data, pool.stored? page = some data →
        (pool.allocatePage ref).1.stored? page = some data := by
  refine ⟨?_, rfl, fun page data => stored?_allocated⟩
  have tables := pool.allocatePage_tables ref
  rw [allocatePage_eq] at tables ⊢
  refine coherent.setStore tables fun page r held => ?_
  obtain ⟨data, stored, whole, clean⟩ := (coherent.filed page r held).backed
  exact ⟨data, stored?_allocated stored, whole, clean⟩

end Pool

end TransactionalPages
