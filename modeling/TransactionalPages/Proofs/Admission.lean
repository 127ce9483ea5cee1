import TransactionalPages.Proofs.Course
import TransactionalPages.Proofs.Isolation
import TransactionalPages.Proofs.Room

/-!
# Inserts that find room

A tuple that is not too long for an empty page is put onto some page, or onto a new
one. The insert allocates that page before it asks for the lock on it. If no other
transaction has locked a page that is not there yet, the lock is granted at once
and the page is still blank, so that the insert never fails for lack of room. If
one has, it may come to hold the page and fill it while the insert waits.
-/

namespace TransactionalPages

variable {α β : Type}

/-! ## Programs that look for room -/

/-- How far a program has come that looks for room in a table. -/
inductive Search where
  /-- The pages below the bound are there. -/
  | roaming (bound : Nat)
  | served (bound : Nat) (ref : PageRef)
  /-- A page was allocated, which is blank and which nobody else has locked. -/
  | fresh (page : PageId)
  | blank (ref : PageRef)
  | settled

/-- A program that fails for no other reasons than those that an insert is excused for, if pages
have the given size. -/
inductive Ample (id : TableId) (store : StoreRef) (size : Nat) : Search → Program α → Prop where
  | answer (stage : Search) (a : α) : Ample id store size stage (.stop (.ok a))
  | fail (stage : Search) {e : PoolError} (excused : e.Excused) :
    Ample id store size stage (.stop (.error e))
  | count {bound : Nat} {next : Except StorageError UInt32 → Program α}
    (failed : ∀ cause, Ample id store size (.roaming bound) (next (.error (.io cause))))
    (counted : ∀ n : UInt32, Ample id store size (.roaming n.toNat) (next (.ok n))) :
    Ample id store size (.roaming bound) (.count store next)
  | holds {bound : Nat} {page : PageId} {next : Bool → Program α}
    (rest : ∀ held, Ample id store size (.roaming bound) (next held)) :
    Ample id store size (.roaming bound) (.holds page next)
  | fetch {bound : Nat} {index : UInt32} {permission : Permission}
    {next : Except PoolError PageRef → Program α} (inside : index.toNat < bound)
    (failed : ∀ e, e.Excused → Ample id store size (.roaming bound) (next (.error e)))
    (served : ∀ ref, Ample id store size (.served bound ref) (next (.ok ref))) :
    Ample id store size (.roaming bound) (.fetch ⟨id, index⟩ permission next)
  | look {bound : Nat} {ref : PageRef} {next : Page → Program α}
    (rest : ∀ p : Page, p.size = size → Ample id store size (.roaming bound) (next p)) :
    Ample id store size (.served bound ref) (.look ref next)
  | release {bound : Nat} {page : PageId} {next : Program α}
    (rest : Ample id store size (.roaming bound) next) :
    Ample id store size (.roaming bound) (.release page next)
  | allocate {bound : Nat} {next : Except StorageError PageId → Program α}
    (failed : ∀ cause, Ample id store size (.roaming bound) (next (.error (.io cause))))
    (fresh : ∀ page, Ample id store size (.fresh page) (next (.ok page))) :
    Ample id store size (.roaming bound) (.allocate store next)
  | enter {page : PageId} {permission : Permission} {next : Except PoolError PageRef → Program α}
    (failed : ∀ e, e.Excused → Ample id store size .settled (next (.error e)))
    (served : ∀ ref, Ample id store size (.blank ref) (next (.ok ref))) :
    Ample id store size (.fresh page) (.fetch page permission next)
  | lookBlank {ref : PageRef} {next : Page → Program α}
    (rest : ∀ p : Page, p.data = Bytes.zeros size → Ample id store size .settled (next p)) :
    Ample id store size (.blank ref) (.look ref next)
  | edit (stage : Search) {ref : PageRef} {data : Bytes} (a : α) :
    Ample id store size stage (.edit ref data (.stop (.ok a)))

theorem Ample.map {id : TableId} {store : StoreRef} {size : Nat} {stage : Search} {p : Program α}
    (ample : Ample id store size stage p) (f : α → β) : Ample id store size stage (p.map f) := by
  induction ample with
  | answer stage a => exact .answer stage (f a)
  | fail stage excused => exact .fail stage excused
  | count _ _ failed counted => exact .count failed counted
  | holds _ rest => exact .holds rest
  | fetch inside _ _ failed served => exact .fetch inside failed served
  | look _ rest => exact .look rest
  | release _ rest => exact .release rest
  | allocate _ _ failed fresh => exact .allocate failed fresh
  | enter _ _ failed served => exact .enter failed served
  | lookBlank _ rest => exact .lookBlank rest
  | edit stage a => exact .edit stage (f a)

namespace HeapTable

variable {id : TableId} {store : StoreRef} {size bound : Nat} {tuple : Bytes}

theorem ample_placeOn {ref : PageRef} {ifFull : Bytes → Program (List PageRef)}
    (least : Config.minPageSize ≤ size) (small : size ≤ Config.maxPageSize)
    (short : tuple.size ≤ SlottedPage.maxTupleSize size)
    (rest : ∀ data, Ample id store size (.roaming bound) (ifFull data)) :
    Ample id store size (.served bound ref) (placeOn ref tuple ifFull) := by
  refine .look fun p whole => ?_
  have whole : p.data.size = size := whole
  have within : tuple.size ≤ p.data.size := by
    rw [whole]
    exact Nat.le_trans short (Nat.sub_le ..)
  rcases place_cases (by rwa [whole]) (by rwa [whole]) within with ⟨full, _⟩ | ⟨new, placed⟩
  · rw [full]
    exact rest p.data
  · rw [placed]
    exact .edit _ [ref]

theorem ample_insertNew (least : Config.minPageSize ≤ size) (small : size ≤ Config.maxPageSize)
    (short : tuple.size ≤ SlottedPage.maxTupleSize size) (page : PageId) :
    Ample id store size (.fresh page) (insertNew tuple page) := by
  refine .enter (fun e excused => .fail _ excused) fun ref => .lookBlank fun p blank => ?_
  obtain ⟨new, placed⟩ := place_blank least small short
  rw [blank, placed]
  exact .edit _ [ref]

theorem ample_insertFrom (least : Config.minPageSize ≤ size) (small : size ≤ Config.maxPageSize)
    (short : tuple.size ≤ SlottedPage.maxTupleSize size) {left : Nat} {index : UInt32}
    (inside : index.toNat + left ≤ bound) :
    Ample id store size (.roaming bound) (insertFrom id store tuple left index) := by
  induction left generalizing index with
  | zero =>
    exact .allocate (fun cause => .fail _ trivial) fun page =>
      ample_insertNew least small short page
  | succ left ih =>
    have next : (index + 1).toNat + left ≤ bound := by
      rw [UInt32.toNat_add, UInt32.toNat_one]
      have below := Nat.mod_le (index.toNat + 1) (2 ^ 32)
      omega
    refine .holds fun held => .fetch (by omega) (fun e excused => .fail _ excused) fun ref => ?_
    refine ample_placeOn least small short fun data => ?_
    cases held with
    | true => exact ih next
    | false => exact .release (ih next)

theorem ample_insert (least : Config.minPageSize ≤ size) (small : size ≤ Config.maxPageSize)
    (short : tuple.size ≤ SlottedPage.maxTupleSize size) :
    Ample id store size (.roaming bound) (insert id size store tuple) := by
  simp only [insert]
  rw [if_neg (Nat.not_lt.mpr short)]
  refine .count (fun cause => .fail _ trivial) fun n => ?_
  exact ample_insertFrom least small short (by rw [UInt32.toNat_zero]; omega)

end HeapTable

/-! ## Pools in which a page can be added -/

namespace Pool

variable {pool before after mid : Pool} {txn : TransactionId} {id : TableId} {table : Table}
  {page : PageId} {ref : PageRef} {size bound : Nat}

/-- Nobody but the transaction has locked a page that the table does not have, and one page more
can be counted. -/
structure Unclaimed (pool : Pool) (txn : TransactionId) (id : TableId) (table : Table) :
    Prop where
  few : (pool.store table.store).medium.extent < 4294967295
  apart : ∀ a index, a ≠ txn → pool.locks.holds a ⟨id, index⟩ →
    (pool.stored? ⟨id, index⟩).isSome

theorem unclaimed_of_locked (few : (pool.store table.store).medium.extent < 4294967295)
    (locked : ∀ page ∈ pool.locks.holders.keys, (pool.stored? page).isSome = true) :
    pool.Unclaimed txn id table :=
  ⟨few, fun _ _ _ held => locked _ (LockTable.mem_keys_of_holds held)⟩

/-- The table has all the pages below a bound. -/
def Stocked (pool : Pool) (id : TableId) (bound : Nat) : Prop :=
  ∀ index : UInt32, index.toNat < bound → (pool.stored? ⟨id, index⟩).isSome

/-- The table can take any tuple that is not too long. -/
structure Vacant (txn : TransactionId) (id : TableId) (table : Table) (size : Nat) (pool : Pool) :
    Prop extends Unclaimed pool txn id table where
  formed : pool.Formed
  known : pool.catalog.file? id = some table
  config : pool.config.pageSize = size
  pageSize : (pool.store table.store).medium.pageSize = size
  least : Config.minPageSize ≤ size
  whole : pool.Whole
  tidy : (pool.store table.store).medium.Tidy
  countable : (pool.store table.store).medium.Countable
  backed : ∀ page ref, pool.cache.peek? page = some ref → (pool.stored? page).isSome

/-- A page that was just allocated. -/
structure Fresh (pool : Pool) (txn : TransactionId) (size : Nat) (page : PageId) : Prop where
  config : pool.config.pageSize = size
  stored : pool.stored? page = some (Bytes.zeros size)
  uncached : pool.cache.peek? page = none
  unlocked : ∀ a, a ≠ txn → ¬pool.locks.holds a page

theorem Stocked.congr (stocked : before.Stocked id bound)
    (stored : after.stored? = before.stored?) :
    after.Stocked id bound := fun index inside => by
  rw [stored]
  exact stocked index inside

/-- Moving about among the pages does not take the room away. -/
theorem Vacant.move (vacant : Vacant txn id table size before) (formed : after.Formed)
    (media : SameMedia before after)
    (others : ∀ a page, a ≠ txn → after.locks.mode? a page = before.locks.mode? a page)
    (cached : ∀ page ref, after.cache.peek? page = some ref →
      before.cache.peek? page = some ref ∨ (before.stored? page).isSome) :
    Vacant txn id table size after := by
  have stored : after.stored? = before.stored? := stored?_congr media.catalog media.medium
  have medium := media.medium table.store
  refine ⟨⟨by rw [medium]; exact vacant.few, fun a index other held => ?_⟩, formed, ?_, ?_, ?_,
    vacant.least, fun page data found => ?_, ?_, ?_, fun page ref held => ?_⟩
  · rw [stored]
    rw [LockTable.holds_congr (others a _ other)] at held
    exact vacant.apart a index other held
  · rw [media.catalog]
    exact vacant.known
  · rw [media.config]
    exact vacant.config
  · rw [medium]
    exact vacant.pageSize
  · rw [stored] at found
    rw [media.config]
    exact vacant.whole page data found
  · rw [medium]
    exact vacant.tidy
  · rw [medium]
    exact vacant.countable
  · rw [stored]
    rcases cached page ref held with old | there
    · exact vacant.backed page ref old
    · exact there

theorem Vacant.requestLock (vacant : Vacant txn id table size pool) (page : PageId)
    (mode : LockMode) (waited : Bool) :
    Vacant txn id table size (pool.requestLock txn page mode waited).1 := by
  refine vacant.move (vacant.formed.requestLock ..) (pool.requestLock_media ..)
    (fun a p other => ?_) fun p ref held => Or.inl ?_
  · rcases pool.requestLock_cases txn page mode waited with
      ⟨locks, granted, eq⟩ | ⟨_, _, eq⟩ | ⟨_, _, eq⟩
    · rw [eq]
      exact LockTable.acquire_other granted fun both => other both.1
    · rw [eq]
    · rw [eq]
  · rcases pool.requestLock_cases txn page mode waited with
      ⟨_, _, eq⟩ | ⟨_, _, eq⟩ | ⟨_, _, eq⟩
    · rwa [eq] at held
    · rwa [eq] at held
    · rwa [eq] at held

theorem Vacant.load (vacant : Vacant txn id table size pool) (page : PageId) :
    Vacant txn id table size (pool.load page).1 := by
  have control := pool.load_control page
  refine vacant.move (vacant.formed.load page) (pool.load_media page)
    (fun a p _ => by rw [control.locks]) fun p ref held => ?_
  rcases pool.load_cases page with
    ⟨_, after, _, sheds, _, eq⟩ | ⟨_, after, _, sheds, _, eq⟩ |
    ⟨file, stored, mid, _, known, readable, _, sheds, _, eq⟩
  · rw [eq] at held
    exact Or.inl (sheds.peek? held)
  · rw [eq] at held
    exact Or.inl (sheds.peek? held)
  · rw [eq, fileLoaded_peek?] at held
    split at held
    next here =>
      right
      rw [here, stored?_of_read known readable]
      rfl
    next => exact Or.inl (sheds.peek? held)

theorem Vacant.release (vacant : Vacant txn id table size pool) (page : PageId) :
    Vacant txn id table size (pool.releaseLock txn page) := by
  refine vacant.move (vacant.formed.releaseLock txn page) (media_of_same rfl rfl rfl)
    (fun a p other => ?_) fun p ref held => Or.inl held
  exact (LockTable.release_mode? ..).trans (if_neg fun both => other both.1)

/-- A page that is there and whole is not served only if the cache has no place for it or the
store reports an error. -/
theorem LoadFailure.excused {e : PoolError} {data : Bytes} (failure : LoadFailure pool page e)
    (there : pool.stored? page = some data) (whole : data.size = pool.config.pageSize) :
    e.Excused := by
  obtain ⟨file, known, readable⟩ := stored?_eq_some.mp there
  cases failure with
  | unregistered unknown =>
    rw [known] at unknown
    cases unknown
  | stopped => trivial
  | unreadable again refused =>
    cases known.symm.trans again
    rw [readable] at refused
    cases refused
  | otherSize again read differ =>
    cases known.symm.trans again
    cases readable.symm.trans read
    exact absurd whole differ
  | exhausted => trivial

theorem Vacant.load_error (vacant : Vacant txn id table size pool)
    (there : (pool.stored? page).isSome) {e : PoolError} (failed : (pool.load page).2 = .error e) :
    e.Excused := by
  obtain ⟨data, stored⟩ := Option.isSome_iff_exists.mp there
  rcases pool.load_cases page with
    ⟨_, _, _, _, _, eq⟩ | ⟨cause, _, _, _, failure, eq⟩ | ⟨_, _, _, _, _, _, _, _, _, eq⟩
  · rw [eq] at failed
    cases failed
  · rw [eq] at failed
    cases failed
    exact failure.excused stored (vacant.whole page data stored)
  · rw [eq] at failed
    cases failed

/-- The pages are counted, and those that are counted are there. -/
theorem Vacant.count (vacant : Vacant txn id table size pool) :
    Vacant txn id table size (pool.countPages table.store).1 ∧
      ((pool.countPages table.store).2 = .error (.io .injected) ∨
        ∃ n : UInt32, (pool.countPages table.store).2 = .ok n ∧ pool.Stocked id n.toNat) := by
  have sheds := pool.countPages_sheds table.store
  refine ⟨vacant.move (vacant.formed.sheds sheds) sheds.media
    (fun a p _ => by rw [sheds.control.locks]) fun p ref held => Or.inl (sheds.peek? held), ?_⟩
  have positive : 0 < (pool.store table.store).medium.pageSize := by
    have least := vacant.least
    rw [vacant.pageSize]
    simp only [Config.minPageSize] at least
    omega
  rcases pool.countPages_result table.store with reached | stopped
  · right
    obtain ⟨n, counted, within⟩ := Medium.numPages_eq_ok positive
    refine ⟨n, reached.trans counted, fun index inside => ?_⟩
    have belongs : (pool.store table.store).medium.table = id :=
      (vacant.formed.heaps id table vacant.known).2.2
    have readable : ∃ p, (pool.store table.store).medium.read ⟨id, index⟩ = .ok p :=
      Medium.read_of_lt positive vacant.few belongs.symm (Nat.lt_of_lt_of_le inside within)
    obtain ⟨p, readable⟩ := readable
    rw [stored?_of_read vacant.known readable]
    rfl
  · exact Or.inl stopped

/-- A page is allocated that is blank, not cached yet and locked by nobody else, or the store
reports an error and nothing has changed. -/
theorem Vacant.allocate (vacant : Vacant txn id table size pool) :
    ((pool.allocatePage table.store).2 = .error (.io .injected) ∧
      Vacant txn id table size (pool.allocatePage table.store).1 ∧
      (pool.allocatePage table.store).1.stored? = pool.stored?) ∨
    ∃ page, (pool.allocatePage table.store).2 = .ok page ∧
      (pool.allocatePage table.store).1.Fresh txn size page := by
  have inside := (vacant.formed.heaps id table vacant.known).2.1
  have belongs : (pool.store table.store).medium.table = id :=
    (vacant.formed.heaps id table vacant.known).2.2
  have formed := vacant.formed.setStore (pool.allocatePage_shape table.store)
  have store : (pool.allocatePage table.store).1.store table.store =
      (pool.store table.store).allocate.1 := by
    rw [allocatePage_eq, store_setStore, if_pos ⟨rfl, inside⟩]
  rcases allocate_result (pool.store table.store) with ⟨grown, answer⟩ | ⟨same, stopped⟩
  · right
    have positive : 0 < (pool.store table.store).medium.pageSize := by
      have least := vacant.least
      rw [vacant.pageSize]
      simp only [Config.minPageSize] at least
      omega
    have small : (pool.store table.store).medium.pageSize ≤ Config.maxPageSize := by
      rw [vacant.pageSize, ← vacant.config]
      exact vacant.formed.small
    obtain ⟨page, allocated, new, p, readable⟩ :=
      Medium.allocate_new positive small vacant.few
    have own : page.table = id := (Medium.allocate_eq_ok allocated).trans belongs
    have known : pool.catalog.file? page.table = some table := by
      rw [own]
      exact vacant.known
    have absent : ¬(pool.stored? page).isSome := by
      intro there
      obtain ⟨data, stored⟩ := Option.isSome_iff_exists.mp there
      obtain ⟨file, again, read⟩ := stored?_eq_some.mp stored
      cases known.symm.trans again
      exact new _ read
    refine ⟨page, answer.trans allocated, vacant.config, ?_, ?_, fun a other held => ?_⟩
    · have there : (pool.allocatePage table.store).1.stored? page = some p.data := by
        refine stored?_of_read known ?_
        rw [store, grown]
        exact readable
      rcases Medium.blank_allocate vacant.tidy vacant.countable readable with old | ⟨_, blank⟩
      · exact absurd old (new p)
      · rw [there, blank, vacant.pageSize]
        rfl
    · cases held : pool.cache.peek? page with
      | none => exact held
      | some ref => exact absurd (vacant.backed page ref held) absent
    · obtain ⟨_, index⟩ := page
      cases own
      exact absent (vacant.apart a index other held)
  · left
    have media : SameMedia pool (pool.allocatePage table.store).1 := by
      refine ⟨pool.allocatePage_tables table.store, fun ref => ?_⟩
      rw [allocatePage_eq, store_setStore]
      split
      next here => rw [here.1, same]
      next => rfl
    exact ⟨stopped, vacant.move formed media (fun _ _ _ => rfl) fun p ref held => Or.inl held,
      stored?_congr media.catalog media.medium⟩

end Pool

/-! ## Looking for room -/

variable {id : TableId} {table : Table} {store : StoreRef} {size bound : Nat} {txn : TransactionId}
  {pool : Pool} {stage : Search} {program : Program α}

/-- What a program that looks for room knows about the pool. -/
def Search.Holds (txn : TransactionId) (id : TableId) (table : Table) (size : Nat) (pool : Pool) :
    Search → Prop
  | roaming bound => Pool.Vacant txn id table size pool ∧ pool.Stocked id bound
  | served bound ref =>
    Pool.Vacant txn id table size pool ∧ pool.Stocked id bound ∧ (pool.object ref).size = size
  | fresh page => pool.Fresh txn size page
  | blank ref => (pool.object ref).data = Bytes.zeros size
  | settled => True

/-- What can come of a program that looks for room: if it waits, then for a page that is there. -/
inductive Admits (id : TableId) (store : StoreRef) (size : Nat) : Pool × Progress α → Prop where
  | answers (pool : Pool) (a : α) : Admits id store size (pool, .done (.ok a))
  | fails (pool : Pool) {e : PoolError} (excused : e.Excused) :
    Admits id store size (pool, .done (.error e))
  | waits {pool : Pool} {request : Waiting α} {bound : Nat} (stocked : pool.Stocked id bound)
    (ample : Ample id store size (.roaming bound)
      (.fetch request.page request.permission request.next)) :
    Admits id store size (pool, .waiting request)

/-- The lock on a new page is granted, and the page is served blank if it is served. -/
theorem Pool.Fresh.serve {request : Waiting α} (fresh : pool.Fresh txn size request.page)
    (failed : ∀ e (mid : Pool), e.Excused →
      Admits id store size (mid.run txn (request.next (.error e))))
    (served : ∀ ref (mid : Pool), (mid.object ref).data = Bytes.zeros size →
      Admits id store size (mid.run txn (request.next (.ok ref)))) (waited : Bool) :
    Admits id store size (pool.serve txn request waited) := by
  simp only [Pool.serve]
  rcases pool.requestLock_cases txn request.page request.permission.mode waited with
    ⟨locks, granted, eq⟩ | ⟨refused, _, _⟩ | ⟨refused, _, _⟩
  · rw [eq]
    dsimp only
    generalize asked : ({ pool with
        locks := locks
        waits := if waited then pool.waits.clear txn else pool.waits } : Pool) = mid
    have stored : mid.stored? request.page = some (Bytes.zeros size) := by
      rw [← asked]
      exact fresh.stored
    have whole : (Bytes.zeros size).size = mid.config.pageSize := by
      rw [← asked, Bytes.size_zeros]
      exact fresh.config.symm
    have uncached : mid.cache.peek? request.page = none := by
      rw [← asked]
      exact fresh.uncached
    rcases mid.load_cases request.page with
      ⟨_, _, held, _, _, _⟩ | ⟨e, after, _, _, failure, eq⟩ |
      ⟨file, p, moved, _, known, readable, _, _, _, eq⟩
    · rw [uncached] at held
      cases held
    · rw [eq]
      exact failed e after (failure.excused stored whole)
    · rw [eq]
      refine served _ _ ?_
      rw [Pool.fileLoaded_object, if_pos rfl]
      exact Option.some.inj ((Pool.stored?_of_read known readable).symm.trans stored)
  · obtain ⟨a, other, held⟩ := LockTable.exists_holder_of_refused refused
    exact absurd held (fresh.unlocked a other)
  · obtain ⟨a, other, held⟩ := LockTable.exists_holder_of_refused refused
    exact absurd held (fresh.unlocked a other)

/-- A page that is there is asked for. -/
theorem Pool.Vacant.serve {request : Waiting α} {index : UInt32}
    (vacant : Pool.Vacant txn id table size pool) (stocked : pool.Stocked id bound)
    (asks : request.page = ⟨id, index⟩) (inside : index.toNat < bound)
    (ample : Ample id store size (.roaming bound)
      (.fetch request.page request.permission request.next))
    (failed : ∀ e (mid : Pool), e.Excused → (Search.roaming bound).Holds txn id table size mid →
      Admits id store size (mid.run txn (request.next (.error e))))
    (served : ∀ ref (mid : Pool), (Search.served bound ref).Holds txn id table size mid →
      Admits id store size (mid.run txn (request.next (.ok ref)))) (waited : Bool) :
    Admits id store size (pool.serve txn request waited) := by
  have asked := vacant.requestLock request.page request.permission.mode waited
  have stored := congrArg View.stored
    (pool.requestLock_view txn request.page request.permission.mode waited)
  have stillStocked := stocked.congr stored
  simp only [Pool.serve]
  rcases pool.requestLock_cases txn request.page request.permission.mode waited with
    ⟨locks, _, eq⟩ | ⟨_, _, eq⟩ | ⟨_, _, eq⟩
  · rw [eq] at asked stillStocked ⊢
    dsimp only at asked stillStocked ⊢
    generalize ({ pool with
        locks := locks
        waits := if waited then pool.waits.clear txn else pool.waits } : Pool) = mid
      at asked stillStocked ⊢
    have there : (mid.stored? request.page).isSome := by
      rw [asks]
      exact stillStocked index inside
    have loaded := asked.load request.page
    have media := mid.load_media request.page
    have loadedStocked := stillStocked.congr (Pool.stored?_congr media.catalog media.medium)
    have excused : ∀ e, (mid.load request.page).2 = .error e → e.Excused := fun _ =>
      asked.load_error there
    have filed : ∀ ref, (mid.load request.page).2 = .ok ref →
        (mid.load request.page).1.cache.peek? request.page = some ref := fun _ => Pool.load_filed
    cases load : mid.load request.page with
    | mk moved answer =>
      rw [load] at loaded loadedStocked excused filed
      cases answer with
      | error e => exact failed e moved (excused e rfl) ⟨loaded, loadedStocked⟩
      | ok ref =>
        refine served ref moved ⟨loaded, loadedStocked, ?_⟩
        rw [(loaded.formed.shelved _ ref (filed ref rfl)).size]
        exact loaded.config
  · rw [eq] at asked stillStocked ⊢
    exact failed _ _ trivial ⟨asked, stillStocked⟩
  · rw [eq] at stillStocked ⊢
    exact .waits stillStocked ample

theorem Ample.run (ample : Ample id table.store size stage program)
    (holds : stage.Holds txn id table size pool) :
    Admits id table.store size (pool.run txn program) := by
  induction ample generalizing pool with
  | answer stage a => exact .answers pool a
  | fail stage excused => exact .fails pool excused
  | @count bound next failed counted failedRun countedRun =>
    obtain ⟨vacant, stocked⟩ := holds
    obtain ⟨after, answer⟩ := vacant.count
    have stored := (pool.countPages_sheds table.store).stored?
    rw [Pool.run]
    cases outcome : pool.countPages table.store with
    | mk moved result =>
      rw [outcome] at after answer stored
      rcases answer with rfl | ⟨n, rfl, there⟩
      · exact failedRun _ ⟨after, stocked.congr stored⟩
      · exact countedRun n ⟨after, there.congr stored⟩
  | holds _ rest =>
    rw [Pool.run]
    exact rest _ holds
  | @fetch bound index permission next inside failed served failedRun servedRun =>
    obtain ⟨vacant, stocked⟩ := holds
    rw [Pool.run_fetch]
    exact vacant.serve stocked rfl inside (.fetch inside failed served)
      (fun e mid excused here => failedRun e excused here) (fun ref mid here => servedRun ref here)
      false
  | @look bound ref next rest ih =>
    obtain ⟨vacant, stocked, whole⟩ := holds
    rw [Pool.run]
    exact ih (pool.object ref) whole ⟨vacant, stocked⟩
  | @release bound page next rest ih =>
    obtain ⟨vacant, stocked⟩ := holds
    rw [Pool.run]
    exact ih ⟨vacant.release page, stocked⟩
  | @allocate bound next failed fresh failedRun freshRun =>
    obtain ⟨vacant, stocked⟩ := holds
    have cases := vacant.allocate
    rw [Pool.run]
    cases outcome : pool.allocatePage table.store with
    | mk moved result =>
      rw [outcome] at cases
      rcases cases with ⟨stopped, after, stored⟩ | ⟨page, allocated, new⟩
      · have stopped : result = _ := stopped
        rw [stopped]
        exact failedRun _ ⟨after, stocked.congr stored⟩
      · have allocated : result = _ := allocated
        rw [allocated]
        exact freshRun page new
  | @enter page permission next _ _ failedRun servedRun =>
    have fresh : pool.Fresh txn size page := holds
    rw [Pool.run_fetch]
    exact fresh.serve (fun e mid excused => failedRun e excused trivial)
      (fun ref mid blank => servedRun ref blank) false
  | @lookBlank ref next rest ih =>
    rw [Pool.run]
    exact ih (pool.object ref) holds trivial
  | edit stage a =>
    rw [Pool.run, Pool.run]
    exact .answers _ a

/-- An insert that waits for a page that is there goes on looking. -/
theorem Ample.retry {request : Waiting α}
    (ample : Ample id table.store size (.roaming bound)
      (.fetch request.page request.permission request.next))
    (vacant : Pool.Vacant txn id table size pool) (stocked : pool.Stocked id bound) :
    Admits id table.store size (pool.retry txn request) := by
  obtain ⟨page, permission, next⟩ := request
  have whole := ample
  rw [Pool.retry_eq_serve]
  cases ample with
  | fetch inside failed served =>
    exact vacant.serve stocked rfl inside whole
      (fun e mid excused here => (failed e excused).run here)
      (fun ref mid here => (served ref).run here) true

namespace Pool

variable {op : Operation} {start : Pool} {result : Pool × Progress Answer}

/-- Filing the page that was changed does not fail. -/
theorem finish_admits (coherent : start.Coherent)
    (outcome : Outcome txn (op.purpose start.catalog) start result)
    (admits : Admits id store size result) : Admits id store size (finish txn result) := by
  cases outcome with
  | waits => exact admits
  | fails => exact admits
  | @answers mid answer quiet reads =>
    rw [finish_answer reads.1]
    exact admits
  | @writes mid page ref new quiet held alone change size =>
    obtain ⟨_, mutation, _, changes⟩ := change
    have done := (quiet.effect coherent).1
    have whole : (mid.object ref).data.size = mid.config.pageSize :=
      (done.filed page ref held).size
    obtain ⟨after, ended, _⟩ := done.finish_write held alone (size.trans whole)
    show Admits _ _ _ (finish txn (_, .done (.ok (.changed [ref]))))
    rw [ended]
    exact .answers after _

variable {tuple : Bytes}

theorem Vacant.submit (vacant : Vacant txn id table size pool) (coherent : pool.Coherent)
    (countable : pool.Countable) (short : tuple.size ≤ SlottedPage.maxTupleSize size) :
    Admits id table.store size (pool.submit txn (.mutate id (.insert tuple))) := by
  have orderly := Operation.orderly coherent.heaps (.mutate id (.insert tuple))
  have fits := Operation.purpose_fits coherent.heaps countable (.mutate id (.insert tuple))
  have small : size ≤ Config.maxPageSize := by
    rw [← vacant.config]
    exact coherent.small
  have programmed : pool.programOf (.mutate id (.insert tuple)) =
      (HeapTable.insert id size table.store tuple).map Answer.changed := by
    have heap := (coherent.heaps id table vacant.known).1
    have pageSize : (pool.store table.store).pageSize = size := vacant.pageSize
    rw [pageSize] at heap
    simp only [programOf, findTable]
    rw [vacant.known]
    dsimp only
    rw [heap]
    rfl
  refine finish_admits coherent
    (orderly.outcome coherent fits fun page here => absurd here (by simp)) ?_
  rw [programmed]
  have nothing : pool.Stocked id 0 := fun index inside => absurd inside (Nat.not_lt_zero _)
  exact ((HeapTable.ample_insert vacant.least small short).map Answer.changed).run
    ⟨vacant, nothing⟩

theorem Vacant.resume (vacant : Vacant txn id table size pool) (coherent : pool.Coherent)
    (countable : pool.Countable) {request : Waiting Answer}
    (pending : Pending txn (op.purpose pool.catalog) pool request)
    (stocked : pool.Stocked id bound)
    (ample : Ample id table.store size (.roaming bound)
      (.fetch request.page request.permission request.next)) :
    Admits id table.store size (pool.resume txn request) := by
  have fits := Operation.purpose_fits coherent.heaps countable op
  exact finish_admits coherent (pending.outcome coherent fits) (ample.retry vacant stocked)

theorem Stocks.stocked {before after : Pool} (stocks : Stocks before after)
    (stocked : before.Stocked id bound) : after.Stocked id bound :=
  fun index inside => stocks.kept _ (stocked index inside)

end Pool

/-! ## Inserts among other transactions -/

namespace Interleaving

variable {s : Interleaving} {tuple : Bytes} {a : TransactionId} {op : Operation}

/-- Inserts of a tuple by a transaction have not failed for lack of room, and those that wait are
still looking for it. -/
structure Admitting (txn : TransactionId) (id : TableId) (table : Table) (tuple : Bytes)
    (s : Interleaving) : Prop where
  sound : s.Sound
  known : s.pool.catalog.file? id = some table
  sized : s.pool.Sized
  least : Config.minPageSize ≤ s.pool.config.pageSize
  whole : s.pool.Whole
  tidy : s.pool.Tidy
  short : tuple.size ≤ SlottedPage.maxTupleSize s.pool.config.pageSize
  waiting : ∀ r ∈ s.suspended, r.txn = txn → r.op = .mutate id (.insert tuple) →
    ∃ bound, s.pool.Stocked id bound ∧
      Ample id table.store s.pool.config.pageSize (.roaming bound)
        (.fetch r.request.page r.request.permission r.request.next)
  answered : ∀ e, Event.answered txn (.mutate id (.insert tuple)) (.error e) ∈ s.log → e.Excused

namespace Admitting

theorem vacant (admitting : Admitting txn id table tuple s)
    (unclaimed : s.pool.Unclaimed txn id table) :
    Pool.Vacant txn id table s.pool.config.pageSize s.pool where
  toUnclaimed := unclaimed
  formed := admitting.sound.coherent.formed
  known := admitting.known
  config := rfl
  pageSize := admitting.sized id table admitting.known
  least := admitting.least
  whole := admitting.whole
  tidy := admitting.tidy table.store
  countable := admitting.sound.countable table.store
  backed page ref held := by
    obtain ⟨data, stored, _⟩ := (admitting.sound.coherent.filed page ref held).backed
    rw [stored]
    rfl

/-- A turn after which nothing waits that has not waited before, and whose answers are not about
the inserts. -/
theorem change (admitting : Admitting txn id table tuple s) {after : Interleaving}
    (sound : after.Sound) (stocks : Pool.Stocks s.pool after.pool)
    (waiting : ∀ r ∈ after.suspended, r.txn = txn → r.op = .mutate id (.insert tuple) →
      r ∈ s.suspended ∨ ∃ bound, after.pool.Stocked id bound ∧
        Ample id table.store s.pool.config.pageSize (.roaming bound)
          (.fetch r.request.page r.request.permission r.request.next))
    (answered : ∀ e, Event.answered txn (.mutate id (.insert tuple)) (.error e) ∈ after.log →
      Event.answered txn (.mutate id (.insert tuple)) (.error e) ∈ s.log ∨ e.Excused) :
    Admitting txn id table tuple after := by
  have config := stocks.tables.config
  refine ⟨sound, ?_, admitting.sized.congr stocks.tables, ?_, stocks.whole admitting.whole,
    admitting.tidy.congr stocks.tables, ?_, fun r listed same insert => ?_, fun e listed => ?_⟩
  · rw [stocks.tables.catalog]
    exact admitting.known
  · rw [config]
    exact admitting.least
  · rw [config]
    exact admitting.short
  · rw [config]
    rcases waiting r listed same insert with old | new
    · obtain ⟨bound, stocked, ample⟩ := admitting.waiting r old same insert
      exact ⟨bound, stocks.stocked stocked, ample⟩
    · exact new
  · rcases answered e listed with old | new
    · exact admitting.answered e old
    · exact new

theorem settle (admitting : Admitting txn id table tuple s) {result : Pool × Progress Answer}
    (effect : Pool.Effect a op s.pool result) {others : List Suspension}
    (apart : ∀ r ∈ others, r ∈ s.suspended) (sound : (settle others s.log a op result).Sound)
    (admits : a = txn → op = .mutate id (.insert tuple) →
      Admits id table.store s.pool.config.pageSize result) :
    Admitting txn id table tuple (settle others s.log a op result) := by
  have stocks := effect.stocks admitting.sound.coherent admitting.sized admitting.tidy
  obtain ⟨after, progress⟩ := result
  cases progress with
  | waiting request =>
    refine admitting.change sound stocks (fun r listed same insert => ?_)
      fun e listed => Or.inl listed
    rcases List.mem_append.mp listed with before | new
    · exact Or.inl (apart r before)
    · rw [List.mem_singleton.mp new] at same insert ⊢
      cases admits same insert with
      | waits stocked ample => exact Or.inr ⟨_, stocked, ample⟩
  | done outcome =>
    refine admitting.change sound stocks (fun r listed _ _ => Or.inl (apart r listed))
      fun e listed => ?_
    rcases List.mem_cons.mp listed with now | before
    · cases outcome with
      | ok answer => cases now
      | error cause =>
        cases now
        cases admits rfl rfl with
        | fails _ excused => exact Or.inr excused
    · exact Or.inl before

theorem step (admitting : Admitting txn id table tuple s)
    (unclaimed : s.pool.Unclaimed txn id table) (action : Action) :
    Admitting txn id table tuple (s.step action) := by
  have sound := admitting.sound.step action
  have coherent := admitting.sound.coherent
  have countable := admitting.sound.countable
  have vacant := admitting.vacant unclaimed
  have unchanged : ∀ after : Pool, Pool.Stocks s.pool after →
      Interleaving.Sound { s with pool := after } →
      Admitting txn id table tuple { s with pool := after } := fun after stocks sound =>
    admitting.change sound stocks (fun r listed _ _ => Or.inl listed) fun e listed => Or.inl listed
  cases action with
  | call a op =>
    rw [Interleaving.step] at sound ⊢
    split
    · exact admitting
    next free =>
      rw [if_neg free] at sound
      refine admitting.settle (Pool.submit_effect coherent countable a op)
        (fun r listed => listed) sound ?_
      rintro rfl rfl
      exact vacant.submit coherent countable admitting.short
  | retry a =>
    rw [Interleaving.step] at sound ⊢
    split
    · exact admitting
    next r found =>
      rw [found] at sound
      obtain ⟨listed, same⟩ := mem_of_found found
      have effect := admitting.sound.retry_effect listed
      have pending := admitting.sound.pending r listed
      rw [same] at effect pending
      refine admitting.settle effect (fun q kept => (mem_of_rest kept).1) sound ?_
      rintro rfl insert
      obtain ⟨bound, stocked, ample⟩ := admitting.waiting r listed same insert
      exact vacant.resume coherent countable pending stocked ample
  | flush a =>
    rw [Interleaving.step] at sound ⊢
    split
    · exact admitting
    next free =>
      rw [if_neg free] at sound
      exact unchanged _ (coherent.flushEach_stocks _) sound
  | flushAll cached =>
    rw [Interleaving.step] at sound ⊢
    split
    next listed =>
      rw [if_pos listed] at sound
      exact unchanged _ (coherent.flushCached_stocks _) sound
    · exact admitting
  | finish a ending =>
    rw [Interleaving.step] at sound ⊢
    split
    · exact admitting
    next free =>
      rw [if_neg free] at sound
      refine admitting.change sound (coherent.ending_stocks a ending)
        (fun r listed _ _ => Or.inl listed) fun e listed => ?_
      rcases List.mem_cons.mp listed with now | before
      · cases now
      · exact Or.inl before

theorem run (admitting : Admitting txn id table tuple s) {actions : List Action}
    (unclaimed : ∀ n < actions.length, (s.run (actions.take n)).pool.Unclaimed txn id table) :
    Admitting txn id table tuple (s.run actions) := by
  induction actions generalizing s with
  | nil => exact admitting
  | cons action rest ih =>
    refine ih (admitting.step (unclaimed 0 (Nat.succ_pos _)) action) fun n earlier => ?_
    exact unclaimed (n + 1) (Nat.succ_lt_succ earlier)

end Admitting

/-- An insert of a tuple that fits on a page succeeds, or the lock, the place in the cache or the
store could not be had, as long as no other transaction locks a page that the table does not
have. Transactions take turns between operations and where a lock is refused. Threads can meet at
one more place: a page has been allocated and its lock is not yet asked for. Another transaction
that scans the table just then may take the page and fill it. -/
theorem insert_finds_room {config : Config} {catalog : Catalog Table} {stores : Array Store}
    {objects : Array Page} {pool : Pool}
    (created : Pool.create config catalog stores objects = .ok pool) (heaps : pool.OverHeaps)
    (pageSize : ∀ store ∈ stores, store.medium.pageSize = config.pageSize)
    (zeroed : ∀ store ∈ stores, store.medium.Zeroed)
    (few : ∀ store ∈ stores, store.medium.extent < 4294967295) {id : TableId} {table : Table}
    (known : catalog.file? id = some table) (txn : TransactionId) (actions : List Action)
    (unclaimed : ∀ n < actions.length,
      ((start pool).run (actions.take n)).pool.Unclaimed txn id table)
    (tuple : Bytes) (short : tuple.size ≤ SlottedPage.maxTupleSize config.pageSize)
    {result : Except PoolError Reply}
    (answered : .answered txn (.mutate id (.insert tuple)) result ∈
      ((start pool).run actions).log) :
    (∃ reply, result = .ok reply) ∨ ∃ e, result = .error e ∧ e.Excused := by
  have sound := sound_start (Pool.coherent_create created heaps)
    (Pool.countable_create created few)
  obtain ⟨valid, built⟩ := Pool.create_eq_ok created
  have sameConfig : pool.config = config := by rw [built]
  have sameStores : pool.stores = stores := by rw [built]
  have sameCatalog : pool.catalog = catalog := by rw [built]
  rw [← sameConfig] at valid short
  rw [← sameCatalog] at known
  rw [← sameStores, ← sameConfig] at pageSize
  have sized := Pool.sized_of_stores heaps pageSize
  have whole : pool.Whole := by
    intro page data stored
    obtain ⟨file, here, readable⟩ := Pool.stored?_eq_some.mp stored
    have listed := heaps.store_mem here
    rw [sameStores] at listed
    have blank : data = _ := (zeroed _ listed).read_blank readable
    rw [blank, Bytes.size_zeros]
    exact sized _ file here
  have started : Admitting txn id table tuple (start pool) :=
    ⟨sound, known, sized, (Pool.pageSize_of_valid valid).2.1, whole, tidy_create created zeroed,
      short, fun r listed => absurd listed List.not_mem_nil,
      fun e listed => absurd listed List.not_mem_nil⟩
  cases result with
  | ok reply => exact Or.inl ⟨reply, rfl⟩
  | error e => exact Or.inr ⟨e, rfl, (started.run unclaimed).answered e answered⟩

/-- A store in memory for pages of 64 bytes that has none. -/
def bareStore : Store := .reliable (.memory (.empty ⟨1⟩ 64))

/-- The second transaction fills a page that the first one waits for. -/
def insertsInTurn : List Action :=
  [.call ⟨2⟩ (.mutate ⟨1⟩ (.insert (Bytes.zeros 40))),
    .call ⟨1⟩ (.mutate ⟨1⟩ (.insert (Bytes.zeros 40))), .finish ⟨2⟩ .commit, .retry ⟨1⟩]

/-- The first transaction finds the page full then, and goes on to a new one. -/
theorem waiting_insert_finds_room : ∃ pool result,
    Pool.create (Config.sized 4 64) (Catalog.single "t" bareStore.medium) #[bareStore] #[] =
      .ok pool ∧
    .answered ⟨1⟩ (.mutate ⟨1⟩ (.insert (Bytes.zeros 40))) result ∈
      ((start pool).run insertsInTurn).log ∧
    ((∃ reply, result = .ok reply) ∨ ∃ e, result = .error e ∧ e.Excused) := by
  have created : Pool.create (Config.sized 4 64) (Catalog.single "t" bareStore.medium)
    #[bareStore] #[] = .ok _ := rfl
  have only : ∀ {P : Store → Prop}, P bareStore → ∀ store ∈ #[bareStore], P store := by
    intro P holds store listed
    rwa [Array.mem_singleton.mp listed]
  have zeroed : bareStore.medium.Zeroed := fun block listed => absurd listed (Array.not_mem_empty _)
  have known : (Catalog.single "t" bareStore.medium).file? ⟨1⟩ =
    some (HeapTable.table ⟨1⟩ 64 ⟨0⟩) := rfl
  refine ⟨_, .ok (.changed [⟨⟨⟨1⟩, 1⟩, #[1, 0, 44, 0] ++ Bytes.zeros 56 ++ #[4, 0, 40, 0],
    some ⟨1⟩⟩]), created, ?_, insert_finds_room created (Pool.heaps_single created) (only rfl)
      (only zeroed) (only (by decide)) known ⟨1⟩ insertsInTurn (fun n earlier => ?_)
      (Bytes.zeros 40) (by decide) ?_⟩
  · decide +kernel
  · match n, earlier with
    | 0, _ => exact Pool.unclaimed_of_locked (by decide +kernel) (by decide +kernel)
    | 1, _ => exact Pool.unclaimed_of_locked (by decide +kernel) (by decide +kernel)
    | 2, _ => exact Pool.unclaimed_of_locked (by decide +kernel) (by decide +kernel)
    | 3, _ => exact Pool.unclaimed_of_locked (by decide +kernel) (by decide +kernel)
  · decide +kernel

/-- The second transaction locks the page that is not there yet, the first one allocates it and
waits for it, and the second one fills it. When the lock is granted the page is full. -/
theorem claimed_page_fills : ∃ pool,
    Pool.create (Config.sized 4 64) (Catalog.single "t" bareStore.medium) #[bareStore] #[] =
      .ok pool ∧
    (Bytes.zeros 40).size ≤ SlottedPage.maxTupleSize 64 ∧
    .answered ⟨1⟩ (.mutate ⟨1⟩ (.insert (Bytes.zeros 40)))
        (.error (.storage (.pageFull 40 16))) ∈
      ((start pool).run [.call ⟨2⟩ (.fetch ⟨⟨1⟩, 0⟩ .readWrite),
        .call ⟨1⟩ (.mutate ⟨1⟩ (.insert (Bytes.zeros 40))),
        .call ⟨2⟩ (.mutate ⟨1⟩ (.insert (Bytes.zeros 40))), .finish ⟨2⟩ .commit,
        .retry ⟨1⟩]).log :=
  ⟨_, rfl, by decide, by decide +kernel⟩

end Interleaving

end TransactionalPages
