import TransactionalPages.Proofs.Cache
import TransactionalPages.Proofs.Frame
import TransactionalPages.Proofs.Medium

/-!
# Serving a page

A pool serves a page from the cache, or reads it from its store after it has made
room for it. Making room takes clean pages from the cache and nothing else, so
that all that a load can lose is a copy of what a store holds.
-/

namespace TransactionalPages.Pool

variable {κ : Type} {pool before after mid : Pool κ} {txn : TransactionId} {page : PageId} {ref : PageRef}

/-! ## Stores and objects -/

theorem store_setStore (pool : Pool κ) (ref q : StoreRef) (store : Store κ) :
    (pool.setStore ref store).store q =
      if q = ref ∧ ref.index < pool.stores.size then store else pool.store q := by
  simp only [Pool.store, setStore]
  simp only [Array.getD_eq_getD_getElem?, Array.getElem?_setIfInBounds]
  by_cases same : q = ref
  · subst same
    by_cases inside : q.index < pool.stores.size
    · simp [inside]
    · simp [inside]
  · have apart : ref.index ≠ q.index := fun eq => by
      cases ref
      cases q
      exact same (congrArg StoreRef.mk eq.symm)
    simp [same, apart]

theorem object_setObject (pool : Pool κ) (ref q : PageRef) (p : Page) :
    (pool.setObject ref p).object q =
      if q = ref ∧ ref.index < pool.objects.size then p else pool.object q := by
  simp only [object, setObject]
  simp only [Array.getD_eq_getD_getElem?, Array.getElem?_setIfInBounds]
  by_cases same : q = ref
  · subst same
    by_cases inside : q.index < pool.objects.size
    · simp [inside]
    · simp [inside]
  · have apart : ref.index ≠ q.index := fun eq => by
      cases ref
      cases q
      exact same (congrArg PageRef.mk eq.symm)
    simp [same, apart]

/-- A new object does not show through references to the objects that are there. -/
theorem object_addObject (pool : Pool κ) (p : Page) (q : PageRef) :
    (pool.addObject p).1.object q =
      if q.index = pool.objects.size then p else pool.object q := by
  simp only [object, addObject]
  simp only [Array.getD_eq_getD_getElem?, Array.getElem?_push]
  by_cases last : q.index = pool.objects.size
  · simp [last]
  · rw [if_neg last, if_neg last]

variable [Foreign κ]

/-- The same tables over stores for the same pages, with the same outages of their reads and
writes. Files that were countable or tidy still are. -/
structure SameTables (before after : Pool κ) : Prop where
  config : after.config = before.config
  catalog : after.catalog = before.catalog
  count : after.stores.size = before.stores.size
  table : ∀ ref, (after.store ref).medium.table = (before.store ref).medium.table
  pageSize : ∀ ref, (after.store ref).medium.pageSize = (before.store ref).medium.pageSize
  reads : ∀ ref, (after.store ref).reads.works = (before.store ref).reads.works
  writes : ∀ ref, (after.store ref).writes.works = (before.store ref).writes.works
  countable : ∀ ref, (before.store ref).medium.Countable → (after.store ref).medium.Countable
  tidy : ∀ ref, (before.store ref).medium.Tidy → (after.store ref).medium.Tidy

namespace SameTables

theorem refl (pool : Pool κ) : SameTables pool pool :=
  ⟨rfl, rfl, rfl, fun _ => rfl, fun _ => rfl, fun _ => rfl, fun _ => rfl, fun _ => id, fun _ => id⟩

theorem trans {a b c : Pool κ} (first : SameTables a b) (second : SameTables b c) :
    SameTables a c where
  config := second.config.trans first.config
  catalog := second.catalog.trans first.catalog
  count := second.count.trans first.count
  table ref := (second.table ref).trans (first.table ref)
  pageSize ref := (second.pageSize ref).trans (first.pageSize ref)
  reads ref := (second.reads ref).trans (first.reads ref)
  writes ref := (second.writes ref).trans (first.writes ref)
  countable ref := second.countable ref ∘ first.countable ref
  tidy ref := second.tidy ref ∘ first.tidy ref

end SameTables

/-- The same tables over as many stores, which are for the same tables and have pages of the same
sizes. -/
structure SameStores (before after : Pool κ) : Prop where
  catalog : after.catalog = before.catalog
  count : after.stores.size = before.stores.size
  table : ∀ ref, (after.store ref).medium.table = (before.store ref).medium.table
  pageSize : ∀ ref, (after.store ref).medium.pageSize = (before.store ref).medium.pageSize

namespace SameStores

theorem refl (pool : Pool κ) : SameStores pool pool := ⟨rfl, rfl, fun _ => rfl, fun _ => rfl⟩

theorem trans {a b c : Pool κ} (first : SameStores a b) (second : SameStores b c) :
    SameStores a c where
  catalog := second.catalog.trans first.catalog
  count := second.count.trans first.count
  table ref := (second.table ref).trans (first.table ref)
  pageSize ref := (second.pageSize ref).trans (first.pageSize ref)

end SameStores

theorem SameTables.stores (tables : SameTables before after) : SameStores before after :=
  ⟨tables.catalog, tables.count, tables.table, tables.pageSize⟩

/-- The pages of all files can be counted in 32 bits. -/
def Countable (pool : Pool κ) : Prop := ∀ ref, (pool.store ref).medium.Countable

theorem Countable.congr (countable : before.Countable) (tables : SameTables before after) :
    after.Countable := fun ref => tables.countable ref (countable ref)

theorem setStore_tables {ref : StoreRef} {store : Store κ}
    (table : store.medium.table = (pool.store ref).medium.table)
    (pageSize : store.medium.pageSize = (pool.store ref).medium.pageSize)
    (reads : store.reads.works = (pool.store ref).reads.works)
    (writes : store.writes.works = (pool.store ref).writes.works)
    (countable : (pool.store ref).medium.Countable → store.medium.Countable)
    (tidy : (pool.store ref).medium.Tidy → store.medium.Tidy) :
    SameTables pool (pool.setStore ref store) := by
  refine ⟨rfl, rfl, Array.size_setIfInBounds, fun q => ?_, fun q => ?_, fun q => ?_, fun q => ?_,
    fun q => ?_, fun q => ?_⟩
  · rw [store_setStore]
    split
    next here => rw [here.1, table]
    next => rfl
  · rw [store_setStore]
    split
    next here => rw [here.1, pageSize]
    next => rfl
  · rw [store_setStore]
    split
    next here => rw [here.1, reads]
    next => rfl
  · rw [store_setStore]
    split
    next here => rw [here.1, writes]
    next => rfl
  · rw [store_setStore]
    split
    next here =>
      rw [here.1]
      exact countable
    next => exact id
  · rw [store_setStore]
    split
    next here =>
      rw [here.1]
      exact tidy
    next => exact id

/-- Every store has the medium that it had, whatever calls were made. -/
structure SameMedia (before after : Pool κ) : Prop extends SameTables before after where
  medium : ∀ ref, (after.store ref).medium = (before.store ref).medium

namespace SameMedia

theorem refl (pool : Pool κ) : SameMedia pool pool := ⟨.refl pool, fun _ => rfl⟩

theorem trans {a b c : Pool κ} (first : SameMedia a b) (second : SameMedia b c) : SameMedia a c :=
  ⟨first.toSameTables.trans second.toSameTables,
    fun ref => (second.medium ref).trans (first.medium ref)⟩

end SameMedia

theorem setStore_media {ref : StoreRef} {store : Store κ}
    (same : store.medium = (pool.store ref).medium)
    (reads : store.reads.works = (pool.store ref).reads.works)
    (writes : store.writes.works = (pool.store ref).writes.works) :
    SameMedia pool (pool.setStore ref store) where
  toSameTables := setStore_tables (by rw [same]) (by rw [same]) reads writes
    (fun countable => by rwa [same]) fun tidy => by rwa [same]
  medium q := by
    rw [store_setStore]
    split
    next here => rw [here.1, same]
    next => rfl

theorem readStore_media (pool : Pool κ) (ref : StoreRef) (page : PageId) :
    SameMedia pool (pool.readStore ref page).1 := setStore_media rfl rfl rfl

theorem countPages_media (pool : Pool κ) (ref : StoreRef) :
    SameMedia pool (pool.countPages ref).1 := setStore_media rfl rfl rfl

/-- Pools that differ in their objects, locks, edges and caches only. -/
theorem media_of_same (config : after.config = before.config)
    (catalog : after.catalog = before.catalog) (stores : after.stores = before.stores) :
    SameMedia before after := by
  have store : ∀ ref, after.store ref = before.store ref := fun ref => by
    simp only [Pool.store]
    rw [stores]
  exact ⟨⟨config, catalog, by rw [stores], fun ref => by rw [store], fun ref => by rw [store],
    fun ref => by rw [store], fun ref => by rw [store], fun ref countable => by rwa [store],
    fun ref tidy => by rwa [store]⟩, fun ref => by rw [store]⟩

/-- A read reaches the medium, or it is stopped before. -/
theorem readStore_result (pool : Pool κ) (ref : StoreRef) (page : PageId) :
    (pool.readStore ref page).2 = ((pool.store ref).medium.read page).mapError .storage ∨
      ((pool.readStore ref page).2 = .error (.storage (.io .injected)) ∧
        (pool.store ref).reads.passes = false) := by
  unfold readStore Store.read
  dsimp only
  split
  · exact Or.inl rfl
  next stopped => exact Or.inr ⟨rfl, by simpa using stopped⟩

/-- A count reaches the medium, or it is stopped before. -/
theorem countPages_result (pool : Pool κ) (ref : StoreRef) :
    (pool.countPages ref).2 = (pool.store ref).medium.numPages ∨
      (pool.countPages ref).2 = .error (.io .injected) := by
  unfold countPages Store.numPages
  dsimp only
  split
  · exact Or.inl rfl
  · exact Or.inr rfl

theorem readStore_eq_ok {ref : StoreRef} {stored : Page}
    (h : (pool.readStore ref page).2 = .ok stored) :
    (pool.store ref).medium.read page = .ok stored := by
  rcases pool.readStore_result ref page with reached | ⟨stopped, _⟩
  · rw [reached] at h
    cases got : (pool.store ref).medium.read page with
    | ok p =>
      rw [got] at h
      cases h
      rfl
    | error e =>
      rw [got] at h
      cases h
  · rw [stopped] at h
    cases h

theorem setObject_media (pool : Pool κ) (ref : PageRef) (p : Page) :
    SameMedia pool (pool.setObject ref p) := media_of_same rfl rfl rfl

theorem letGo_media (pool : Pool κ) (txn : TransactionId) : SameMedia pool (pool.letGo txn) :=
  media_of_same rfl rfl rfl

/-! ## Making room -/

/-- The pool keeps all it has, except that clean pages may have left the cache. -/
structure Sheds (before after : Pool κ) : Prop where
  control : SameControl before after
  media : SameMedia before after
  objects : after.objects = before.objects
  capacity : after.cache.capacity = before.cache.capacity
  sound : before.cache.Sound → after.cache.Sound
  kept : ∀ page, after.cache.peek? page = before.cache.peek? page ∨
    (after.cache.peek? page = none ∧
      ∀ ref, before.cache.peek? page = some ref → (before.object ref).isDirty = false)

namespace Sheds

theorem object (sheds : Sheds before after) (ref : PageRef) :
    after.object ref = before.object ref := by
  simp only [Pool.object]
  rw [sheds.objects]

theorem peek? (sheds : Sheds before after) (held : after.cache.peek? page = some ref) :
    before.cache.peek? page = some ref := by
  rcases sheds.kept page with same | ⟨gone, _⟩
  · rwa [same] at held
  · rw [gone] at held
    cases held

theorem trans {a b c : Pool κ} (first : Sheds a b) (second : Sheds b c) : Sheds a c where
  control := first.control.trans second.control
  media := first.media.trans second.media
  objects := second.objects.trans first.objects
  capacity := second.capacity.trans first.capacity
  sound := fun sound => second.sound (first.sound sound)
  kept page := by
    rcases first.kept page with same | ⟨gone, clean⟩
    · rcases second.kept page with again | ⟨gone, clean⟩
      · exact Or.inl (again.trans same)
      · refine Or.inr ⟨gone, fun ref held => ?_⟩
        rw [← same] at held
        rw [← first.object]
        exact clean ref held
    · refine Or.inr ⟨?_, clean⟩
      cases held : c.cache.peek? page with
      | none => rfl
      | some ref => exact absurd (second.peek? held) (by simp [gone])

end Sheds

/-- A pool whose stores were called and whose cache has another queue. -/
theorem sheds_of_same (control : SameControl before after) (media : SameMedia before after)
    (objects : after.objects = before.objects)
    (capacity : after.cache.capacity = before.cache.capacity)
    (sound : before.cache.Sound → after.cache.Sound)
    (same : ∀ page, after.cache.peek? page = before.cache.peek? page) : Sheds before after :=
  ⟨control, media, objects, capacity, sound, fun page => Or.inl (same page)⟩

theorem Sheds.refl (pool : Pool κ) : Sheds pool pool :=
  sheds_of_same (.refl pool) (.refl pool) rfl rfl id fun _ => rfl

theorem readStore_sheds (pool : Pool κ) (ref : StoreRef) (page : PageId) :
    Sheds pool (pool.readStore ref page).1 :=
  sheds_of_same (readStore_control ..) (readStore_media ..) rfl rfl id fun _ => rfl

theorem countPages_sheds (pool : Pool κ) (ref : StoreRef) : Sheds pool (pool.countPages ref).1 :=
  sheds_of_same (setStore_control ..) (countPages_media ..) rfl rfl id fun _ => rfl

theorem evict_sheds (pool : Pool κ) (cache : Cache PageRef) (gone : Option PageId)
    (evicted : pool.cache.evict (fun ref => (pool.object ref).isDirty) = (cache, gone)) :
    Sheds pool { pool with cache := cache } := by
  have sound : pool.cache.Sound → cache.Sound := fun sound => by
    have evictedSound := sound.evict fun ref => (pool.object ref).isDirty
    rwa [evicted] at evictedSound
  rcases pool.cache.evict_cases fun ref => (pool.object ref).isDirty with
    ⟨order, perm, _, eq⟩ | ⟨page, order, perm, clean, eq⟩
  · rw [evicted, Prod.mk.injEq] at eq
    obtain ⟨rfl, _⟩ := eq
    exact sheds_of_same (setCache_control ..) (media_of_same rfl rfl rfl) rfl rfl sound fun _ => rfl
  · rw [evicted, Prod.mk.injEq] at eq
    obtain ⟨rfl, _⟩ := eq
    refine ⟨setCache_control .., media_of_same rfl rfl rfl, rfl, rfl, sound, fun q => ?_⟩
    have filed : (pool.cache.pages.erase page)[q]? =
        if q = page then none else pool.cache.pages[q]? := Lookup.getElem?_erase ..
    by_cases same : q = page
    · subst same
      right
      rw [if_pos rfl] at filed
      refine ⟨filed, fun ref held => ?_⟩
      simpa [held] using clean
    · rw [if_neg same] at filed
      exact Or.inl filed

/-- Making room takes at most clean pages away, or finds a full cache of dirty ones. -/
theorem makeRoom_cases (pool : Pool κ) :
    (Sheds pool pool.makeRoom.1 ∧ pool.makeRoom.2 = .ok () ∧
      (pool.cache.Sound →
        pool.makeRoom.1.cache.order.length < pool.makeRoom.1.cache.capacity)) ∨
    (Sheds pool pool.makeRoom.1 ∧
      pool.makeRoom.2 = .error (.evictionExhausted pool.cache.capacity) ∧
      pool.cache.isFull = true ∧
      ∀ page ∈ pool.cache.order, ∀ ref, pool.cache.peek? page = some ref →
        (pool.object ref).isDirty = true) := by
  simp only [makeRoom]
  split
  next full =>
    simp only [evictOne]
    cases evicted : pool.cache.evict fun ref => (pool.object ref).isDirty with
    | mk cache gone =>
      have sheds := evict_sheds pool cache gone evicted
      cases gone with
      | some page =>
        refine Or.inl ⟨sheds, rfl, fun sound => ?_⟩
        rcases pool.cache.evict_cases fun ref => (pool.object ref).isDirty with
          ⟨_, _, _, eq⟩ | ⟨_, order, perm, _, eq⟩
        · rw [evicted, Prod.mk.injEq] at eq
          cases eq.2
        · rw [evicted, Prod.mk.injEq] at eq
          obtain ⟨rfl, _⟩ := eq
          have shorter := perm.length_eq
          rw [List.length_cons] at shorter
          have fewer : order.length < pool.cache.order.length := by omega
          exact Nat.lt_of_lt_of_le fewer sound.within
      | none =>
        rcases pool.cache.evict_cases fun ref => (pool.object ref).isDirty with
          ⟨order, _, dirty, eq⟩ | ⟨page, order, _, _, eq⟩
        · refine Or.inr ⟨sheds, rfl, full, fun page listed ref held => ?_⟩
          simpa [held] using dirty page listed
        · rw [evicted, Prod.mk.injEq] at eq
          cases eq.2
  next free =>
    refine Or.inl ⟨.refl pool, rfl, fun sound => ?_⟩
    rw [Cache.isFull, decide_eq_true_eq, sound.size_eq] at free
    exact Nat.lt_of_not_le free

/-! ## Loading -/

/-- Why a page is not served. -/
inductive LoadFailure (pool : Pool κ) (page : PageId) : PoolError → Prop where
  | unregistered (unknown : pool.catalog.file? page.table = none) :
    LoadFailure pool page (.unknownTable page.table)
  | stopped {table : Table} (known : pool.catalog.file? page.table = some table)
      (stopped : (pool.store table.store).reads.passes = false) :
    LoadFailure pool page (.storage (.io .injected))
  | unreadable {table : Table} {e : StorageError}
      (known : pool.catalog.file? page.table = some table)
      (refused : (pool.store table.store).medium.read page = .error e) :
    LoadFailure pool page (.storage e)
  | otherSize {table : Table} {stored : Page}
      (known : pool.catalog.file? page.table = some table)
      (readable : (pool.store table.store).medium.read page = .ok stored)
      (differ : stored.size ≠ pool.config.pageSize) :
    LoadFailure pool page (.storage (.pageSizeMismatch pool.config.pageSize stored.size))
  | exhausted {table : Table} {stored : Page}
      (known : pool.catalog.file? page.table = some table)
      (readable : (pool.store table.store).medium.read page = .ok stored)
      (size : stored.size = pool.config.pageSize) (full : pool.cache.isFull = true)
      (dirty : ∀ q ∈ pool.cache.order, ∀ ref, pool.cache.peek? q = some ref →
        (pool.object ref).isDirty = true) :
    LoadFailure pool page (.evictionExhausted pool.cache.capacity)

/-- A read that fails was stopped, or there is no such page to be read. -/
theorem LoadFailure.of_read {table : Table} {e : PoolError}
    (known : pool.catalog.file? page.table = some table)
    (failed : (pool.readStore table.store page).2 = .error e) : LoadFailure pool page e := by
  rcases pool.readStore_result table.store page with reached | ⟨stopped, cause⟩
  · rw [reached] at failed
    cases got : (pool.store table.store).medium.read page with
    | ok p =>
      rw [got] at failed
      cases failed
    | error cause =>
      rw [got] at failed
      cases failed
      exact .unreadable known got
  · rw [stopped] at failed
    cases failed
    exact .stopped known cause

/-- A page that was read is filed, or no room can be made for it. -/
theorem loadMissing_of_read {table : Table} {stored : Page}
    (known : pool.catalog.file? page.table = some table)
    (reached : (pool.readStore table.store page).2 = .ok stored)
    (size : stored.size = pool.config.pageSize) :
    (∃ mid, Sheds pool mid ∧
      (pool.cache.Sound → mid.cache.order.length < mid.cache.capacity) ∧
      pool.loadMissing page = ((mid.fileLoaded page stored).1, .ok ⟨mid.objects.size⟩)) ∨
    (∃ e after, Sheds pool after ∧ LoadFailure pool page e ∧
      pool.loadMissing page = (after, .error e)) := by
  have readable := readStore_eq_ok reached
  have sheds := readStore_sheds pool table.store page
  simp only [loadMissing, findTable]
  rw [known]
  cases read : pool.readStore table.store page with
  | mk moved answer =>
    rw [read] at reached sheds
    have answered : answer = .ok stored := reached
    subst answered
    have config : moved.config = pool.config := sheds.control.config
    have cache : moved.cache = pool.cache := congrArg (fun r => r.1.cache) read.symm
    rcases moved.makeRoom_cases with ⟨room, done, space⟩ | ⟨room, failed, full, dirty⟩
    · left
      refine ⟨moved.makeRoom.1, sheds.trans room, fun sound => space (by rwa [cache]), ?_⟩
      cases made : moved.makeRoom with
      | mk roomy answer =>
        rw [made] at done
        have done : answer = .ok () := done
        subst done
        simp [read, config, size, made, fileLoaded, addObject]
    · right
      rw [cache] at full dirty failed
      have dirty : ∀ q ∈ pool.cache.order, ∀ ref, pool.cache.peek? q = some ref →
          (pool.object ref).isDirty = true := by
        intro q listed ref filed
        rw [← sheds.object]
        exact dirty q listed ref filed
      refine ⟨_, moved.makeRoom.1, sheds.trans room, .exhausted known readable size full dirty, ?_⟩
      cases made : moved.makeRoom with
      | mk roomy answer =>
        rw [made] at failed
        have failed : answer = _ := failed
        subst failed
        simp [read, config, size, made]

/-- A page is found in the cache, or it is not served, or it is read and filed. -/
theorem load_cases (pool : Pool κ) (page : PageId) :
    (∃ ref after, pool.cache.peek? page = some ref ∧ Sheds pool after ∧
      after.cache.peek? page = some ref ∧ pool.load page = (after, .ok ref)) ∨
    (∃ e after, pool.cache.peek? page = none ∧ Sheds pool after ∧ LoadFailure pool page e ∧
      pool.load page = (after, .error e)) ∨
    (∃ table stored mid, pool.cache.peek? page = none ∧
      pool.catalog.file? page.table = some table ∧
      (pool.store table.store).medium.read page = .ok stored ∧
      stored.size = pool.config.pageSize ∧ Sheds pool mid ∧
      (pool.cache.Sound → mid.cache.order.length < mid.cache.capacity) ∧
      pool.load page = ((mid.fileLoaded page stored).1, .ok ⟨mid.objects.size⟩)) := by
  simp only [load]
  rw [Cache.get_eq]
  cases held : pool.cache.peek? page with
  | some ref =>
    refine Or.inl ⟨ref, { pool with cache := pool.cache.toBack page }, rfl, ?_, held, rfl⟩
    exact sheds_of_same (setCache_control ..) (media_of_same rfl rfl rfl) rfl rfl
      (fun sound => sound.toBack (by rw [held]; rfl)) fun _ => rfl
  | none =>
    right
    dsimp only
    cases known : pool.catalog.file? page.table with
    | none =>
      refine Or.inl ⟨_, pool, rfl, .refl pool, .unregistered known, ?_⟩
      rw [loadMissing, findTable, known]
    | some table =>
      have sheds := readStore_sheds pool table.store page
      cases read : pool.readStore table.store page with
      | mk moved answer =>
        have answered : (pool.readStore table.store page).2 = answer := by rw [read]
        rw [read] at sheds
        cases answer with
        | error e =>
          refine Or.inl ⟨e, moved, rfl, sheds, .of_read known answered, ?_⟩
          rw [loadMissing, findTable, known]
          dsimp only
          rw [read]
        | ok stored =>
          have readable := readStore_eq_ok answered
          by_cases size : stored.size = pool.config.pageSize
          · rcases loadMissing_of_read known answered size with
              ⟨mid, room, space, eq⟩ | ⟨e, after, room, failure, eq⟩
            · exact Or.inr ⟨table, stored, mid, rfl, rfl, readable, size, room, space, eq⟩
            · exact Or.inl ⟨e, after, rfl, room, failure, eq⟩
          · refine Or.inl ⟨_, moved, rfl, sheds, .otherSize known readable size, ?_⟩
            have config : moved.config = pool.config := sheds.control.config
            rw [loadMissing, findTable, known]
            simp [read, config, size]

end TransactionalPages.Pool
