import TransactionalPages.Proofs.Rollback

/-!
# Fading pages

Writing pages back makes them clean. Rolling them back makes them clean, drops
them, or leaves them to whoever else has made them dirty; what is read again need
not be what was loaded, since tables come and go. Neither makes a page dirty or
brings one into the cache. No more is claimed here of pages and stores than that,
so that it holds of any pool, whichever calls fail.
-/

namespace TransactionalPages

/-! ## Files without a page size -/

namespace Medium

variable {m after : Medium} {page : PageId}

/-- A file that has no page size; whoever reads from it meets a fault. -/
def Unsized : Medium → Prop
  | memory _ => False
  | file s => s.pageSize = 0

theorem read_fault {e : StorageError} (refused : m.read page = .error e)
    (faulty : e.isFault = true) : e = .fault .emptyPageSize ∧ m.Unsized := by
  cases m with
  | memory s =>
    have refused : s.read page = .error e := refused
    simp only [MemoryStore.read] at refused
    split at refused
    · cases refused
      cases faulty
    · split at refused
      · cases refused
      · cases refused
        cases faulty
  | file s =>
    have refused : s.read page = .error e := refused
    simp only [FileStore.read, FileStore.numPages] at refused
    by_cases empty : s.pageSize = 0
    · rw [if_pos empty] at refused
      split at refused
      · cases refused
        cases faulty
      · cases refused
        exact ⟨rfl, empty⟩
    · rw [if_neg empty] at refused
      split at refused
      · cases refused
        cases faulty
      · dsimp only at refused
        split at refused
        · cases refused
          cases faulty
        · cases refused
  | foreign s => exact s.elim

theorem unsized_write {new : Page} (wrote : m.write new = .ok after) (unsized : after.Unsized) :
    m.Unsized := by
  have size := (write_shape wrote).2.1
  cases m with
  | memory s =>
    obtain ⟨next, _, rfl⟩ := write_memory wrote
    exact unsized
  | file s =>
    obtain ⟨next, _, rfl⟩ := write_file wrote
    exact size.symm.trans unsized
  | foreign s => exact s.elim

end Medium

namespace Pool

variable {pool base before after mid : Pool} {txn : TransactionId} {page : PageId} {ref : PageRef}

/-! ## Dirtiers -/

/-- The transaction that a cached page names as its dirtier. -/
def dirtier? (pool : Pool) (page : PageId) : Option TransactionId :=
  (pool.cache.peek? page).bind fun ref => (pool.object ref).dirtier

theorem dirtier?_eq_some : pool.dirtier? page = some txn ↔
    ∃ ref, pool.cache.peek? page = some ref ∧ (pool.object ref).dirtier = some txn :=
  Option.bind_eq_some_iff

theorem dirtier?_of_undrafted (undrafted : pool.draft? page = none) :
    pool.dirtier? page = none := by
  cases named : pool.dirtier? page with
  | none => rfl
  | some txn =>
    obtain ⟨ref, held, dirty⟩ := dirtier?_eq_some.mp named
    rw [draft?_eq_some.mpr ⟨ref, held, dirty, rfl⟩] at undrafted
    cases undrafted

theorem dirtier?_of_uncached (absent : pool.cache.peek? page = none) :
    pool.dirtier? page = none := dirtier?_of_undrafted (draft?_of_uncached absent)

theorem dirtier?_of_cached (held : pool.cache.peek? page = some ref) :
    pool.dirtier? page = (pool.object ref).dirtier := by
  rw [dirtier?, held, Option.bind_some]

/-- Every cached page is there, under its own name. -/
def Named (pool : Pool) : Prop := ∀ page ref, pool.cache.peek? page = some ref →
  ref.index < pool.objects.size ∧ (pool.object ref).id = page

theorem Formed.named (formed : pool.Formed) : pool.Named := by
  intro page ref held
  have shelved := formed.shelved page ref held
  exact ⟨shelved.known, shelved.id⟩

/-! ## Fading -/

/-- Pages have become clean or have left the cache, whatever became of their bytes. None was made
dirty, and none came into the cache. -/
structure Fades (before after : Pool) : Prop where
  control : SameControl before after
  stores : SameStores before after
  unsized : ∀ ref, (after.store ref).medium.Unsized → (before.store ref).medium.Unsized
  named : before.Named → after.Named
  dirtier : ∀ page txn, after.dirtier? page = some txn → before.dirtier? page = some txn

namespace Fades

theorem refl (pool : Pool) : Fades pool pool :=
  ⟨.refl pool, .refl pool, fun _ => id, id, fun _ _ => id⟩

theorem trans {a b c : Pool} (first : Fades a b) (second : Fades b c) : Fades a c where
  control := first.control.trans second.control
  stores := first.stores.trans second.stores
  unsized ref := first.unsized ref ∘ second.unsized ref
  named := second.named ∘ first.named
  dirtier page txn := first.dirtier page txn ∘ second.dirtier page txn

end Fades

theorem Sheds.fades (sheds : Sheds before after) : Fades before after where
  control := sheds.control
  stores := sheds.media.stores
  unsized ref := by
    rw [sheds.media.medium]
    exact id
  named named page ref held := by
    rw [sheds.objects, sheds.object]
    exact named page ref (sheds.peek? held)
  dirtier page txn dirty := by
    obtain ⟨ref, held, dirty⟩ := dirtier?_eq_some.mp dirty
    rw [sheds.object] at dirty
    exact dirtier?_eq_some.mpr ⟨ref, sheds.peek? held, dirty⟩

theorem discard_fades (pool : Pool) (page : PageId) : Fades pool (pool.discard page) := by
  have cached : ∀ q ref, (pool.discard page).cache.peek? q = some ref →
      pool.cache.peek? q = some ref := fun _ _ => Cache.peek?_of_remove
  have media : SameMedia pool (pool.discard page) := media_of_same rfl rfl rfl
  refine ⟨discard_control .., media.stores, fun _ => id,
    fun named q ref held => named q ref (cached q ref held), fun q txn dirty => ?_⟩
  obtain ⟨ref, held, dirty⟩ := dirtier?_eq_some.mp dirty
  exact dirtier?_eq_some.mpr ⟨ref, cached q ref held, dirty⟩

theorem Named.setObject (named : pool.Named) {new : Page} (name : new.id = (pool.object ref).id) :
    (pool.setObject ref new).Named := by
  intro q r held
  obtain ⟨known, same⟩ := named q r held
  refine ⟨Nat.lt_of_lt_of_eq known Array.size_setIfInBounds.symm, ?_⟩
  rw [object_setObject]
  split
  next here => rw [name, ← here.1, same]
  next => exact same

/-- A page object gets other bytes and becomes clean, or stays whose it is. -/
theorem setObject_fades {new : Page} (name : new.id = (pool.object ref).id)
    (kept : new.dirtier = none ∨ new.dirtier = (pool.object ref).dirtier) :
    Fades pool (pool.setObject ref new) := by
  refine ⟨setObject_control .., (setObject_media ..).stores, fun _ => id,
    fun named => named.setObject name, fun q txn dirty => ?_⟩
  obtain ⟨r, held, dirty⟩ := dirtier?_eq_some.mp dirty
  refine dirtier?_eq_some.mpr ⟨r, held, ?_⟩
  rw [object_setObject] at dirty
  split at dirty
  next here =>
    rcases kept with clean | same
    · rw [clean] at dirty
      cases dirty
    · rw [here.1, ← same, dirty]
  next => exact dirty

theorem written_fades {store : StoreRef} {new : Page} {medium : Medium}
    (wrote : (pool.store store).medium.write new = .ok medium) :
    Fades pool (pool.written store medium) := by
  obtain ⟨table, pageSize, _⟩ := Medium.write_shape wrote
  have either : ∀ q, ((pool.written store medium).store q).medium = (pool.store q).medium ∨
      (((pool.written store medium).store q).medium = medium ∧ q = store) := by
    intro q
    rw [written, store_setStore]
    split
    next here => exact Or.inr ⟨rfl, here.1⟩
    next => exact Or.inl rfl
  refine ⟨setStore_control .., ⟨rfl, Array.size_setIfInBounds, fun q => ?_, fun q => ?_⟩,
    fun q unsized => ?_, id, fun _ _ => id⟩
  · rcases either q with same | ⟨new, rfl⟩
    · rw [same]
    · rw [new, table]
  · rcases either q with same | ⟨new, rfl⟩
    · rw [same]
    · rw [new, pageSize]
  · rcases either q with same | ⟨new, rfl⟩
    · rwa [same] at unsized
    · rw [new] at unsized
      exact Medium.unsized_write wrote unsized

/-! ## Writing back -/

theorem flushPage_fades (pool : Pool) (page : PageId) : Fades pool (pool.flushPage page).1 := by
  rcases pool.flushPage_cases page with
    ⟨_, eq⟩ | ⟨table, ref, owner, medium, _, _, _, wrote, eq⟩ | ⟨_, after, _, sheds, eq⟩
  · rw [eq]
    exact .refl pool
  · rw [eq]
    have cleaned : Fades (pool.written table.store medium) (pool.flushed table.store ref medium) :=
      setObject_fades rfl (Or.inl rfl)
    exact (written_fades wrote).trans cleaned
  · rw [eq]
    exact sheds.fades

theorem flushEach_fades (pages : List PageId) (pool : Pool) :
    Fades pool (pool.flushEach pages).1 :=
  flushEach_keeps (P := Fades pool) (fun mid page fades => fades.trans (mid.flushPage_fades page))
    pages (.refl pool)

theorem flushCached_fades (cached : List (PageId × PageRef)) (pool : Pool) :
    Fades pool (pool.flushCached cached).1 :=
  flushCached_keeps (P := Fades pool) (fun mid page fades => fades.trans (mid.flushPage_fades page))
    cached (.refl pool)

/-- A page that was written back is clean. -/
theorem Named.flushPage (named : pool.Named) (answer : (pool.flushPage page).2 = .ok ()) :
    (pool.flushPage page).1.dirtier? page = none := by
  rcases pool.flushPage_cases page with
    ⟨undrafted, eq⟩ | ⟨table, ref, _, medium, _, held, _, _, eq⟩ | ⟨_, _, _, _, eq⟩
  · rw [eq]
    exact dirtier?_of_undrafted undrafted
  · rw [eq]
    have cached : (pool.flushed table.store ref medium).cache.peek? page = some ref := held
    have clean : (pool.flushed table.store ref medium).object ref = (pool.object ref).markClean :=
      (object_setObject ..).trans (if_pos ⟨rfl, (named page ref held).1⟩)
    exact (dirtier?_of_cached cached).trans (by rw [clean]; rfl)
  · rw [eq] at answer
    cases answer

theorem Named.flushEach (named : pool.Named) (pages : List PageId)
    (answer : (pool.flushEach pages).2 = .ok ()) :
    ∀ page ∈ pages, (pool.flushEach pages).1.dirtier? page = none := by
  induction pages generalizing pool with
  | nil => exact fun page listed => absurd listed List.not_mem_nil
  | cons first rest ih =>
    obtain ⟨here, others⟩ := flushEach_cons_ok answer
    have clean := named.flushPage here
    have still := (pool.flushPage_fades first).named named
    rw [flushEach_cons here]
    intro page listed
    rcases List.mem_cons.mp listed with rfl | later
    · -- what is clean stays clean while the rest is written back
      cases tag : ((pool.flushPage page).1.flushEach rest).1.dirtier? page with
      | none => rfl
      | some txn =>
        rw [(flushEach_fades rest _).dirtier page txn tag] at clean
        cases clean
    · exact ih still others page later

/-! ## Rolling back -/

theorem reloaded_fades (pool : Pool) (store : StoreRef) (page : PageId) (ref : PageRef)
    (stored : Page) : Fades pool (pool.reloaded store page ref stored) := by
  have read := (pool.readStore_sheds store page).fades
  have restored : Fades (pool.readStore store page).1
      ((pool.readStore store page).1.setObject ref ((pool.object ref).restoreFrom stored)) :=
    setObject_fades rfl (Or.inl rfl)
  exact (read.trans restored).trans (demote_sheds _ page).fades

theorem restorePage_fades (pool : Pool) (txn : TransactionId) (page : PageId) :
    Fades pool (pool.restorePage txn page).1 := by
  rcases pool.restorePage_cases txn page with
    ⟨_, eq⟩ | ⟨_, _, _, eq⟩ | ⟨_, _, _, _, _, eq⟩ | ⟨table, ref, stored, _, _, _, _, eq⟩ |
    ⟨table, _, _, _, _, _, _, eq⟩
  · rw [eq]
    exact .refl pool
  · rw [eq]
    exact .refl pool
  · rw [eq]
    exact (pool.demote_sheds page).fades
  · rw [eq]
    exact pool.reloaded_fades table.store page ref stored
  · rw [eq]
    exact (pool.readStore_sheds table.store page).fades

theorem restoreEach_fades (txn : TransactionId) (pages : List PageId) (pool : Pool) :
    Fades pool (pool.restoreEach txn pages).1 := by
  induction pages generalizing pool with
  | nil => exact .refl pool
  | cons page rest ih =>
    have first := pool.restorePage_fades txn page
    simp only [restoreEach]
    cases restored : pool.restorePage txn page with
    | mk mid answer =>
      rw [restored] at first
      cases answer with
      | ok _ => exact first.trans (ih mid)
      | error e =>
        dsimp only
        split
        · exact first
        · exact (first.trans (mid.discard_fades page)).trans (ih _)

/-- A page that was rolled back is not the transaction's any more. -/
theorem Named.restorePage (named : pool.Named)
    (answer : (pool.restorePage txn page).2 = .ok ()) :
    (pool.restorePage txn page).1.dirtier? page ≠ some txn := by
  rcases pool.restorePage_cases txn page with
    ⟨_, eq⟩ | ⟨_, _, absent, eq⟩ | ⟨_, ref, _, held, foreign, eq⟩ |
    ⟨table, ref, stored, _, held, _, _, eq⟩ | ⟨_, _, _, _, _, _, _, eq⟩
  · rw [eq] at answer
    cases answer
  · rw [eq, dirtier?_of_uncached absent]
    intro same
    cases same
  · rw [eq]
    intro dirty
    have mine := (pool.demote_sheds page).fades.dirtier page txn dirty
    rw [dirtier?_of_cached held] at mine
    simp [ownsChanges, mine] at foreign
  · rw [eq]
    intro dirty
    have read := pool.readStore_sheds table.store page
    have tag := (demote_sheds _ page).fades.dirtier page txn dirty
    have cached : ((pool.readStore table.store page).1.setObject ref
        ((pool.object ref).restoreFrom stored)).cache.peek? page = some ref := held
    have known : ref.index < (pool.readStore table.store page).1.objects.size := by
      rw [read.objects]
      exact (named page ref held).1
    rw [dirtier?_of_cached cached, object_setObject, if_pos ⟨rfl, known⟩] at tag
    cases tag
  · rw [eq] at answer
    cases answer

/-- Only a file without a page size makes rolling back a page a fault. -/
theorem restorePage_fault {e : PoolError} (answer : (pool.restorePage txn page).2 = .error e)
    (faulty : e.isFault = true) : e = .storage (.fault .emptyPageSize) ∧
      ∃ id file, pool.catalog.file? id = some file ∧
        (pool.store file.store).medium.Unsized := by
  rcases pool.restorePage_cases txn page with
    ⟨_, eq⟩ | ⟨_, _, _, eq⟩ | ⟨_, _, _, _, _, eq⟩ | ⟨_, _, _, _, _, _, _, eq⟩ |
    ⟨table, ref, cause, known, _, _, failed, eq⟩
  · rw [eq] at answer
    cases answer
    cases faulty
  · rw [eq] at answer
    cases answer
  · rw [eq] at answer
    cases answer
  · rw [eq] at answer
    cases answer
  · rw [eq] at answer
    cases answer
    rcases pool.readStore_result table.store page with reached | ⟨stopped, _⟩
    · rw [reached] at failed
      cases refused : (pool.store table.store).medium.read page with
      | ok p =>
        rw [refused] at failed
        cases failed
      | error cause =>
        rw [refused] at failed
        cases failed
        obtain ⟨rfl, unsized⟩ := Medium.read_fault refused faulty
        exact ⟨rfl, page.table, table, known, unsized⟩
    · rw [stopped] at failed
      cases failed
      cases faulty

/-- Page after page is given up, unless a fault stops it. -/
theorem Named.restoreEach (named : pool.Named) (pages : List PageId)
    (fine : ∀ e ∈ (pool.restoreEach txn pages).2, e.isFault = false) :
    ∀ page ∈ pages, (pool.restoreEach txn pages).1.dirtier? page ≠ some txn := by
  induction pages generalizing pool with
  | nil => exact fun page listed => absurd listed List.not_mem_nil
  | cons first rest ih =>
    have given : (pool.restorePage txn first).2 = .ok () →
        (pool.restorePage txn first).1.dirtier? first ≠ some txn := named.restorePage
    have still := (pool.restorePage_fades txn first).named named
    simp only [Pool.restoreEach] at fine ⊢
    cases restored : pool.restorePage txn first with
    | mk mid answer =>
      rw [restored] at fine given still
      cases answer with
      | ok _ =>
        intro page listed
        rcases List.mem_cons.mp listed with rfl | later
        · exact fun dirty => given rfl ((restoreEach_fades txn rest mid).dirtier page txn dirty)
        · exact ih still fine page later
      | error e =>
        dsimp only at fine ⊢
        by_cases faulty : e.isFault = true
        · rw [if_pos faulty] at fine
          have harmless := fine e List.mem_cons_self
          rw [faulty] at harmless
          cases harmless
        · rw [if_neg faulty] at fine ⊢
          intro page listed
          rcases List.mem_cons.mp listed with rfl | later
          · intro dirty
            have left := (restoreEach_fades txn rest (mid.discard page)).dirtier page txn dirty
            have gone : (mid.discard page).cache.peek? page = none :=
              (Cache.remove_peek? ..).trans (if_pos rfl)
            rw [dirtier?_of_uncached gone] at left
            cases left
          · have dropped := (mid.discard_fades first).named still
            exact ih dropped (fun e listed => fine e (List.mem_cons_of_mem _ listed)) page later

theorem restoreEach_fault (txn : TransactionId) (pages : List PageId) (pool : Pool)
    {e : PoolError} (met : e ∈ (pool.restoreEach txn pages).2) (faulty : e.isFault = true) :
    e = .storage (.fault .emptyPageSize) ∧
      ∃ id file, pool.catalog.file? id = some file ∧
        (pool.store file.store).medium.Unsized := by
  induction pages generalizing pool with
  | nil => cases met
  | cons page rest ih =>
    have before : ∀ mid : Pool, Fades pool mid → e ∈ (mid.restoreEach txn rest).2 →
        e = .storage (.fault .emptyPageSize) ∧
          ∃ id file, pool.catalog.file? id = some file ∧
            (pool.store file.store).medium.Unsized := by
      intro mid fades later
      obtain ⟨same, id, file, known, unsized⟩ := ih mid later
      rw [fades.control.catalog] at known
      exact ⟨same, id, file, known, fades.unsized file.store unsized⟩
    have first := pool.restorePage_fades txn page
    simp only [Pool.restoreEach] at met
    cases restored : pool.restorePage txn page with
    | mk mid answer =>
      rw [restored] at met first
      cases answer with
      | ok _ => exact before mid first met
      | error cause =>
        have failed : (pool.restorePage txn page).2 = .error cause := congrArg Prod.snd restored
        dsimp only at met
        split at met
        · rw [List.mem_singleton.mp met] at faulty ⊢
          exact restorePage_fault failed faulty
        · rcases List.mem_cons.mp met with rfl | later
          · exact restorePage_fault failed faulty
          · exact before _ (first.trans (mid.discard_fades page)) later

end Pool

end TransactionalPages
