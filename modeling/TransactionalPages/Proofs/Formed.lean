import TransactionalPages.Proofs.Completion

/-!
# Formed pools

A page object can be written through any reference to it, by whoever has one. A
cached page need not say what its store says then, and whoever it names as its
dirtier need not hold it. What no such write changes is that every cached page is
filed under its own name, has the size of a page, and can go to the store of its
table and come back. Reading that store fails if there is no such page, or if the
read is stopped, and never with a fault.
-/

namespace TransactionalPages

/-! ## Media with pages of a size -/

namespace Medium

variable {m after : Medium} {page : PageId} {size : Nat}

/-- A medium that answers with that many bytes when it answers with the page at all. -/
def Shelves (m : Medium) (page : PageId) (size : Nat) : Prop :=
  page.table = m.table ∧
    match m with
    | memory s => ∃ data, s.blocks[page.index.toNat]? = some data ∧ data.size = size
    | file s => 0 < s.pageSize ∧ s.pageSize = size

theorem shelves_of_read {p : Page} (readable : m.read page = .ok p) : m.Shelves page p.size := by
  cases m with
  | memory s =>
    obtain ⟨table, data, found, rfl⟩ := MemoryStore.read_eq_ok.mp readable
    exact ⟨table, data, found, rfl⟩
  | file s =>
    obtain ⟨table, positive, _, rfl⟩ := FileStore.read_eq_ok.mp readable
    exact ⟨table, positive, (ByteFile.size_read ..).symm⟩
  | foreign s => exact s.elim

theorem Shelves.size_of_read {p : Page} (shelves : m.Shelves page size)
    (readable : m.read page = .ok p) : p.size = size := by
  obtain ⟨_, kept⟩ := shelves
  cases m with
  | memory s =>
    obtain ⟨data, found, rfl⟩ := kept
    obtain ⟨_, other, again, rfl⟩ := MemoryStore.read_eq_ok.mp readable
    rw [found] at again
    cases again
    rfl
  | file s =>
    obtain ⟨_, _, _, rfl⟩ := FileStore.read_eq_ok.mp readable
    exact (ByteFile.size_read ..).trans kept.2
  | foreign s => exact s.elim

/-- There may be no such page, but there is nothing wrong with the question. -/
theorem Shelves.read_error {e : StorageError} (shelves : m.Shelves page size)
    (refused : m.read page = .error e) : ∃ count, e = .pageOutOfRange page count := by
  obtain ⟨table, kept⟩ := shelves
  cases m with
  | memory s =>
    obtain ⟨data, found, _⟩ := kept
    have readable : s.read page = .ok (.clean page data) :=
      MemoryStore.read_eq_ok.mpr ⟨table, data, found, rfl⟩
    have refused : s.read page = .error e := refused
    rw [readable] at refused
    cases refused
  | file s =>
    have refused : s.read page = .error e := refused
    have belongs : ¬page.table ≠ s.table := fun differ => differ table
    simp only [FileStore.read, FileStore.numPages] at refused
    rw [if_neg belongs, if_neg (Nat.ne_of_gt kept.1)] at refused
    dsimp only at refused
    split at refused
    · cases refused
      exact ⟨_, rfl⟩
    · cases refused
  | foreign s => exact s.elim

theorem write_shape {new : Page} (wrote : m.write new = .ok after) :
    after.table = m.table ∧ after.pageSize = m.pageSize ∧
      ∀ page, m.Shelves page new.size → after.Shelves page new.size := by
  cases m with
  | memory s =>
    obtain ⟨next, done, rfl⟩ := write_memory wrote
    simp only [MemoryStore.write] at done
    split at done
    · cases done
    · split at done
      · cases done
      · cases done
        refine ⟨rfl, rfl, ?_⟩
        rintro page ⟨table, data, found, size⟩
        refine ⟨table, ?_⟩
        have inside : page.index.toNat < s.blocks.size := (Array.getElem?_eq_some_iff.mp found).1
        have grown : (s.grow (new.id.index.toNat + 1)).blocks[page.index.toNat]? = some data := by
          rw [MemoryStore.grow, Array.getElem?_append_left inside]
          exact found
        have wide : page.index.toNat < (s.grow (new.id.index.toNat + 1)).blocks.size :=
          (Array.getElem?_eq_some_iff.mp grown).1
        by_cases same : new.id.index.toNat = page.index.toNat
        · refine ⟨new.data, ?_, rfl⟩
          show ((s.grow (new.id.index.toNat + 1)).blocks.setIfInBounds _ _)[_]? = _
          rw [same] at wide ⊢
          rw [Array.getElem?_setIfInBounds_self, if_pos wide]
        · refine ⟨data, ?_, size⟩
          show ((s.grow (new.id.index.toNat + 1)).blocks.setIfInBounds _ _)[_]? = _
          rw [Array.getElem?_setIfInBounds_ne same]
          exact grown
  | file s =>
    obtain ⟨next, done, rfl⟩ := write_file wrote
    simp only [FileStore.write] at done
    split at done
    · cases done
    · split at done
      · cases done
      · split at done
        · cases done
        · cases done
          exact ⟨rfl, rfl, fun page shelves => shelves⟩
  | foreign s => exact s.elim

theorem shelves_allocate (shelves : m.Shelves page size) : m.allocate.1.Shelves page size := by
  obtain ⟨table, kept⟩ := shelves
  cases m with
  | memory s =>
    obtain ⟨data, found, same⟩ := kept
    have readable : s.read page = .ok (.clean page data) :=
      MemoryStore.read_eq_ok.mpr ⟨table, data, found, rfl⟩
    have still : (memory s.allocate.1).read page = .ok (.clean page data) :=
      (s.read_allocate page).1 _ readable
    have shelves := shelves_of_read still
    rwa [show (Page.clean page data).size = size from same] at shelves
  | file s =>
    have shape := (file s).table_allocate
    have same : s.allocate.1.pageSize = s.pageSize := shape.2
    refine ⟨table.trans shape.1.symm, ?_⟩
    show 0 < s.allocate.1.pageSize ∧ s.allocate.1.pageSize = size
    rw [same]
    exact kept
  | foreign s => exact s.elim

end Medium

namespace Pool

variable {pool before after mid : Pool} {txn : TransactionId} {page : PageId} {ref : PageRef}

/-- The same tables over stores for the same pages. -/
structure SameShape (before after : Pool) : Prop where
  config : after.config = before.config
  catalog : after.catalog = before.catalog
  count : after.stores.size = before.stores.size
  table : ∀ ref, (after.store ref).medium.table = (before.store ref).medium.table
  pageSize : ∀ ref, (after.store ref).medium.pageSize = (before.store ref).medium.pageSize
  shelves : ∀ ref page, (before.store ref).medium.Shelves page before.config.pageSize →
    (after.store ref).medium.Shelves page before.config.pageSize

namespace SameShape

theorem refl (pool : Pool) : SameShape pool pool :=
  ⟨rfl, rfl, rfl, fun _ => rfl, fun _ => rfl, fun _ _ => id⟩

theorem trans {a b c : Pool} (first : SameShape a b) (second : SameShape b c) : SameShape a c where
  config := second.config.trans first.config
  catalog := second.catalog.trans first.catalog
  count := second.count.trans first.count
  table ref := (second.table ref).trans (first.table ref)
  pageSize ref := (second.pageSize ref).trans (first.pageSize ref)
  shelves ref page shelved := by
    have again := second.shelves ref page
    rw [first.config] at again
    exact again (first.shelves ref page shelved)

theorem stores (shape : SameShape before after) : SameStores before after :=
  ⟨shape.catalog, shape.count, shape.table, shape.pageSize⟩

end SameShape

theorem SameMedia.shape (media : SameMedia before after) : SameShape before after :=
  ⟨media.config, media.catalog, media.count, media.table, media.pageSize, fun ref page shelved => by
    rwa [media.medium]⟩

/-- Pools that differ in their objects, locks, edges and caches only. -/
theorem shape_of_same (config : after.config = before.config)
    (catalog : after.catalog = before.catalog) (stores : after.stores = before.stores) :
    SameShape before after := (media_of_same config catalog stores).shape

theorem setStore_shape {ref : StoreRef} {store : Store}
    (table : store.medium.table = (pool.store ref).medium.table)
    (pageSize : store.medium.pageSize = (pool.store ref).medium.pageSize)
    (shelves : ∀ page, (pool.store ref).medium.Shelves page pool.config.pageSize →
      store.medium.Shelves page pool.config.pageSize) :
    SameShape pool (pool.setStore ref store) := by
  have either : ∀ q, (pool.setStore ref store).store q = pool.store q ∨
      ((pool.setStore ref store).store q = store ∧ q = ref) := by
    intro q
    rw [store_setStore]
    split
    next here => exact Or.inr ⟨rfl, here.1⟩
    next => exact Or.inl rfl
  refine ⟨rfl, rfl, Array.size_setIfInBounds, fun q => ?_, fun q => ?_, fun q page shelved => ?_⟩
  · rcases either q with same | ⟨new, rfl⟩
    · rw [same]
    · rw [new, table]
  · rcases either q with same | ⟨new, rfl⟩
    · rw [same]
    · rw [new, pageSize]
  · rcases either q with same | ⟨new, rfl⟩
    · rwa [same]
    · rw [new]
      exact shelves page shelved

theorem allocatePage_shape (pool : Pool) (ref : StoreRef) :
    SameShape pool (pool.allocatePage ref).1 := by
  have shape := (pool.store ref).medium.table_allocate
  rw [allocatePage_eq]
  rcases allocate_medium (pool.store ref) with same | grown
  · exact setStore_shape (by rw [same]) (by rw [same]) fun page shelved => by rwa [same]
  · exact setStore_shape (by rw [grown, shape.1]) (by rw [grown, shape.2]) fun page shelved => by
      rw [grown]
      exact Medium.shelves_allocate shelved

/-! ## Formed pools -/

/-- A page is filed under its own name, and the store of its table has a place for it. -/
structure Shelved (pool : Pool) (page : PageId) (ref : PageRef) : Prop where
  known : ref.index < pool.objects.size
  id : (pool.object ref).id = page
  size : (pool.object ref).size = pool.config.pageSize
  shelf : ∃ table, pool.catalog.file? page.table = some table ∧
    (pool.store table.store).medium.Shelves page pool.config.pageSize

structure Formed (pool : Pool) : Prop where
  locks : pool.locks.Sound
  small : pool.config.pageSize ≤ Config.maxPageSize
  heaps : pool.OverHeaps
  cache : pool.cache.Sound
  shelved : ∀ page ref, pool.cache.peek? page = some ref → pool.Shelved page ref

theorem Coherent.formed (coherent : pool.Coherent) : pool.Formed where
  locks := coherent.locks
  small := coherent.small
  heaps := coherent.heaps
  cache := coherent.cache
  shelved page ref held := by
    have filed := coherent.filed page ref held
    obtain ⟨data, stored, whole, _⟩ := filed.backed
    obtain ⟨table, known, readable⟩ := stored?_eq_some.mp stored
    refine ⟨filed.known, filed.id, filed.size, table, known, ?_⟩
    have shelves := Medium.shelves_of_read readable
    rwa [show (Page.clean page data).size = pool.config.pageSize from whole] at shelves

/-- Two names do not stand for one object. -/
theorem Formed.ref_injective (formed : pool.Formed) {p q : PageId}
    (hp : pool.cache.peek? p = some ref) (hq : pool.cache.peek? q = some ref) : p = q := by
  rw [← (formed.shelved p ref hp).id, ← (formed.shelved q ref hq).id]

/-- Every page object stays, with its name and its size. -/
structure SameObjects (before after : Pool) : Prop where
  count : before.objects.size ≤ after.objects.size
  id : ∀ ref, ref.index < before.objects.size → (after.object ref).id = (before.object ref).id
  size : ∀ ref, ref.index < before.objects.size →
    (after.object ref).size = (before.object ref).size

theorem sameObjects_of_eq (objects : after.objects = before.objects) :
    SameObjects before after := by
  have same : ∀ ref, after.object ref = before.object ref := fun ref => by
    simp only [object]
    rw [objects]
  exact ⟨Nat.le_of_eq (by rw [objects]), fun ref _ => by rw [same], fun ref _ => by rw [same]⟩

theorem setObject_objects {new : Page} (id : new.id = (pool.object ref).id)
    (size : new.size = (pool.object ref).size) : SameObjects pool (pool.setObject ref new) := by
  refine ⟨Nat.le_of_eq Array.size_setIfInBounds.symm, fun q _ => ?_, fun q _ => ?_⟩
  · rw [object_setObject]
    split
    next here => rw [here.1, id]
    next => rfl
  · rw [object_setObject]
    split
    next here => rw [here.1, size]
    next => rfl

theorem addObject_objects (pool : Pool) (p : Page) : SameObjects pool (pool.addObject p).1 := by
  have same : ∀ q : PageRef, q.index < pool.objects.size →
      (pool.addObject p).1.object q = pool.object q := fun q inside => by
    rw [object_addObject, if_neg (Nat.ne_of_lt inside)]
  refine ⟨?_, fun q inside => by rw [same q inside], fun q inside => by rw [same q inside]⟩
  exact Nat.le_of_lt (Nat.lt_of_lt_of_eq (Nat.lt_succ_self _) (Array.size_push _).symm)

/-- A formed pool stays formed if its stores keep their shape and its objects their names, and
the cache takes up nothing but shelved pages. -/
theorem Formed.evolve (formed : before.Formed) (shape : SameShape before after)
    (objects : SameObjects before after) (locks : after.locks.Sound) (cache : after.cache.Sound)
    (cached : ∀ page ref, after.cache.peek? page = some ref →
      before.cache.peek? page = some ref ∨ after.Shelved page ref) : after.Formed where
  locks := locks
  small := by
    rw [shape.config]
    exact formed.small
  heaps := formed.heaps.congr shape.stores
  cache := cache
  shelved page ref held := by
    rcases cached page ref held with old | new
    · obtain ⟨known, id, size, table, file, shelves⟩ := formed.shelved page ref old
      refine ⟨Nat.lt_of_lt_of_le known objects.count, (objects.id ref known).trans id, ?_, table,
        ?_, ?_⟩
      · rw [objects.size ref known, shape.config]
        exact size
      · rw [shape.catalog]
        exact file
      · rw [shape.config]
        exact shape.shelves _ page shelves
    · exact new

theorem Formed.relock (formed : pool.Formed) {locks : LockTable} (waits : WaitForGraph)
    (sound : locks.Sound) : ({ pool with locks := locks, waits := waits } : Pool).Formed :=
  formed.evolve (shape_of_same rfl rfl rfl) (sameObjects_of_eq rfl) sound
    formed.cache fun _ _ held => Or.inl held

theorem Formed.recache (formed : pool.Formed) {cache : Cache PageRef} (sound : cache.Sound)
    (kept : ∀ page ref, cache.peek? page = some ref → pool.cache.peek? page = some ref) :
    ({ pool with cache := cache } : Pool).Formed :=
  formed.evolve (shape_of_same rfl rfl rfl) (sameObjects_of_eq rfl)
    formed.locks sound fun page ref held => Or.inl (kept page ref held)

theorem Formed.sheds (formed : before.Formed) (sheds : Sheds before after) : after.Formed :=
  formed.evolve sheds.media.shape (sameObjects_of_eq sheds.objects)
    (by rw [sheds.control.locks]; exact formed.locks) (sheds.sound formed.cache)
    fun _ _ held => Or.inl (sheds.peek? held)

theorem Formed.setObject (formed : pool.Formed) {new : Page} (id : new.id = (pool.object ref).id)
    (size : new.size = (pool.object ref).size) : (pool.setObject ref new).Formed :=
  formed.evolve (setObject_media ..).shape (setObject_objects id size) formed.locks formed.cache
    fun _ _ held => Or.inl held

theorem Formed.setStore (formed : pool.Formed) {store : StoreRef} {new : Store}
    (shape : SameShape pool (pool.setStore store new)) : (pool.setStore store new).Formed :=
  formed.evolve shape (sameObjects_of_eq rfl) formed.locks formed.cache fun _ _ held => Or.inl held

theorem Formed.discard (formed : pool.Formed) (page : PageId) : (pool.discard page).Formed :=
  formed.recache (formed.cache.remove page) fun _ _ held => Cache.peek?_of_remove held

theorem Formed.demote (formed : pool.Formed) (page : PageId) :
    ({ pool with cache := pool.cache.demote page } : Pool).Formed :=
  formed.sheds (pool.demote_sheds page)

theorem Formed.releaseLock (formed : pool.Formed) (txn : TransactionId) (page : PageId) :
    (pool.releaseLock txn page).Formed :=
  formed.relock _ (LockTable.sound_release formed.locks txn page)

theorem Formed.letGo (formed : pool.Formed) (txn : TransactionId) : (pool.letGo txn).Formed :=
  formed.relock _ (LockTable.sound_releaseAll formed.locks txn)

theorem Formed.requestLock (formed : pool.Formed) (txn : TransactionId) (page : PageId)
    (mode : LockMode) (waited : Bool) : (pool.requestLock txn page mode waited).1.Formed := by
  rcases pool.requestLock_cases txn page mode waited with
    ⟨locks, granted, eq⟩ | ⟨_, _, eq⟩ | ⟨_, _, eq⟩
  · rw [eq]
    exact formed.relock _ (LockTable.sound_acquire formed.locks granted)
  · rw [eq]
    exact formed.relock _ formed.locks
  · rw [eq]
    exact formed.relock _ formed.locks

/-! ## Loading -/

theorem Formed.fileLoaded (formed : pool.Formed) {table : Table} {p : Page}
    (known : pool.catalog.file? page.table = some table)
    (readable : (pool.store table.store).medium.read page = .ok p)
    (size : p.size = pool.config.pageSize)
    (room : pool.cache.order.length < pool.cache.capacity) :
    (pool.fileLoaded page p).1.Formed := by
  refine formed.evolve (shape_of_same rfl rfl rfl)
    ?_ formed.locks (formed.cache.insert _ _ room) fun q ref held => ?_
  · have added := pool.addObject_objects p
    exact ⟨added.count, added.id, added.size⟩
  · rw [fileLoaded_peek?] at held
    split at held
    next here =>
      cases held
      subst here
      right
      have object : (pool.fileLoaded q p).1.object ⟨pool.objects.size⟩ = p := by
        rw [fileLoaded_object, if_pos rfl]
      refine ⟨Nat.lt_of_lt_of_eq (Nat.lt_succ_self _) (Array.size_push _).symm, ?_, ?_, table,
        known, ?_⟩
      · rw [object, (Medium.read_eq_clean readable).2]
        rfl
      · rw [object]
        exact size
      · have shelves := Medium.shelves_of_read readable
        rwa [size] at shelves
    next => exact Or.inl held

theorem Formed.load (formed : pool.Formed) (page : PageId) : (pool.load page).1.Formed := by
  rcases pool.load_cases page with
    ⟨ref, after, _, sheds, _, eq⟩ | ⟨e, after, _, sheds, _, eq⟩ |
    ⟨table, stored, mid, absent, known, read, size, sheds, room, eq⟩
  · rw [eq]
    exact formed.sheds sheds
  · rw [eq]
    exact formed.sheds sheds
  · rw [eq]
    have registered : mid.catalog.file? page.table = some table := by
      rw [sheds.control.catalog]
      exact known
    have readable : (mid.store table.store).medium.read page = .ok stored := by
      rw [sheds.media.medium]
      exact read
    have whole : stored.size = mid.config.pageSize := by
      rw [sheds.control.config]
      exact size
    exact (formed.sheds sheds).fileLoaded registered readable whole (room formed.cache)

/-! ## Writing back -/

theorem Formed.flushPage (formed : pool.Formed) (page : PageId) :
    (pool.flushPage page).1.Formed := by
  rcases pool.flushPage_cases page with
    ⟨_, eq⟩ | ⟨table, ref, owner, medium, _, held, _, wrote, eq⟩ | ⟨e, after, _, sheds, eq⟩
  · rw [eq]
    exact formed
  · rw [eq]
    obtain ⟨sameTable, samePageSize, shelves⟩ := Medium.write_shape wrote
    rw [(formed.shelved page ref held).size] at shelves
    have written : (pool.written table.store medium).Formed :=
      formed.setStore (setStore_shape sameTable samePageSize shelves)
    have sameName : (pool.object ref).markClean.id =
        ((pool.written table.store medium).object ref).id := rfl
    exact written.setObject sameName rfl
  · rw [eq]
    exact formed.sheds sheds

theorem Formed.flushEach (formed : pool.Formed) (pages : List PageId) :
    (pool.flushEach pages).1.Formed :=
  flushEach_keeps (fun _ page here => here.flushPage page) pages formed

theorem Formed.flushCached (formed : pool.Formed) (cached : List (PageId × PageRef)) :
    (pool.flushCached cached).1.Formed :=
  flushCached_keeps (fun _ page here => here.flushPage page) cached formed

theorem Formed.commit (formed : pool.Formed) (txn : TransactionId) :
    (pool.commit txn).1.Formed :=
  commit_keeps (fun _ page here => here.flushPage page) (fun _ here => here.letGo txn) formed

end Pool

end TransactionalPages
