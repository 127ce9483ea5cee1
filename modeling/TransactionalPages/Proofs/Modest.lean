import TransactionalPages.Proofs.Course

/-!
# Modest programs

A modest program takes no more than one lock that its transaction did not have
when the operation was called, and allocates no more than one page. It may go
through any number of pages for that, since it gives back the lock on one before
it asks for that on the next, and what it was granted is not written down: whether
a program is modest can be read off it, also while it waits.
-/

namespace TransactionalPages

variable {α β : Type} {own : PageId → Prop} {stores : StoreRef → Prop} {gained : Option PageId}
  {spare left : Bool}

/-- A program of a transaction that held its `own` pages when the operation was called, and may
have `gained` one since. It may allocate a page in one of the stores if there is still one to
`spare`. -/
inductive Modest (own : PageId → Prop) (stores : StoreRef → Prop) :
    (gained : Option PageId) → (spare : Bool) → Program α → Prop where
  | stop {gained : Option PageId} {spare : Bool} (result : Except PoolError α) :
    Modest own stores gained spare (.stop result)
  | fetchOwn {gained : Option PageId} {spare : Bool} {page : PageId} {permission : Permission}
    {next : Except PoolError PageRef → Program α} (held : own page)
    (rest : ∀ r, Modest own stores gained spare (next r)) :
    Modest own stores gained spare (.fetch page permission next)
  | fetch {spare : Bool} {page : PageId} {permission : Permission}
    {next : Except PoolError PageRef → Program α}
    (rest : ∀ r, Modest own stores (some page) spare (next r)) :
    Modest own stores none spare (.fetch page permission next)
  | holds {spare : Bool} {page : PageId} {next : Bool → Program α}
    (held : own page → Modest own stores none spare (next true))
    (away : Modest own stores none spare (next false)) :
    Modest own stores none spare (.holds page next)
  | release {spare : Bool} {page : PageId} {next : Program α}
    (rest : Modest own stores none spare next) :
    Modest own stores (some page) spare (.release page next)
  | count {gained : Option PageId} {spare : Bool} {store : StoreRef}
    {next : Except StorageError UInt32 → Program α}
    (rest : ∀ r, Modest own stores gained spare (next r)) :
    Modest own stores gained spare (.count store next)
  | allocate {gained : Option PageId} {store : StoreRef}
    {next : Except StorageError PageId → Program α} (allowed : stores store)
    (rest : ∀ r, Modest own stores gained false (next r)) :
    Modest own stores gained true (.allocate store next)
  | look {gained : Option PageId} {spare : Bool} {ref : PageRef} {next : Page → Program α}
    (rest : ∀ p, Modest own stores gained spare (next p)) :
    Modest own stores gained spare (.look ref next)
  | edit {gained : Option PageId} {spare : Bool} {ref : PageRef} {data : Bytes} {next : Program α}
    (rest : Modest own stores gained spare next) :
    Modest own stores gained spare (.edit ref data next)
  | spoil {gained : Option PageId} {spare : Bool} {ref : PageRef} {data : Bytes}
    {next : Program α} (rest : Modest own stores gained spare next) :
    Modest own stores gained spare (.spoil ref data next)

theorem Modest.map {p : Program α} (modest : Modest own stores gained spare p) (f : α → β) :
    Modest own stores gained spare (p.map f) := by
  induction modest with
  | stop result => exact .stop _
  | fetchOwn held _ rest => exact .fetchOwn held rest
  | fetch _ rest => exact .fetch rest
  | holds _ _ held away => exact .holds held away
  | release _ rest => exact .release rest
  | count _ rest => exact .count rest
  | allocate allowed _ rest => exact .allocate allowed rest
  | look _ rest => exact .look rest
  | edit _ rest => exact .edit rest
  | spoil _ rest => exact .spoil rest

/-! ## What a turn gains -/

namespace Pool

variable {pool before mid after : Pool} {txn : TransactionId}

/-- A transaction holds its own pages at most, and the one that it has gained. -/
def Within (txn : TransactionId) (own : PageId → Prop) (gained : Option PageId) (pool : Pool) :
    Prop := ∀ page, pool.locks.holds txn page → own page ∨ gained = some page

/-- No store is written to. A page may have been allocated if there was one to spare, and then
there is none `left`. -/
structure Grows (stores : StoreRef → Prop) (spare left : Bool) (before after : Pool) : Prop where
  fewer : left = true → spare = true
  media : ∀ store, (after.store store).medium = (before.store store).medium ∨
    ((stores store ∧ spare = true ∧ left = false) ∧
      (after.store store).medium = (before.store store).medium.allocate.1)

theorem SameMedia.grows (media : SameMedia before after) : Grows stores spare spare before after :=
  ⟨id, fun store => Or.inl (media.medium store)⟩

theorem Grows.trans {later : Bool} (first : Grows stores spare left before mid)
    (second : Grows stores left later mid after) : Grows stores spare later before after := by
  refine ⟨first.fewer ∘ second.fewer, fun store => ?_⟩
  rcases second.media store with same | ⟨⟨allowed, some, none⟩, grown⟩
  · rw [same]
    rcases first.media store with same | ⟨⟨allowed, some, none⟩, grown⟩
    · exact Or.inl same
    · refine Or.inr ⟨⟨allowed, some, Bool.eq_false_iff.mpr fun more => ?_⟩, grown⟩
      rw [second.fewer more] at none
      cases none
  · rcases first.media store with same | ⟨⟨_, _, gone⟩, _⟩
    · rw [same] at grown
      exact Or.inr ⟨⟨allowed, first.fewer some, none⟩, grown⟩
    · rw [gone] at some
      cases some

theorem allocatePage_grows {store : StoreRef} (allowed : stores store) :
    Grows stores true false pool (pool.allocatePage store).1 := by
  refine ⟨fun _ => rfl, fun other => ?_⟩
  rw [allocatePage_eq, store_setStore]
  split
  next here =>
    rw [here.1]
    rcases allocate_medium (pool.store store) with same | grown
    · exact Or.inl same
    · exact Or.inr ⟨⟨allowed, rfl, rfl⟩, grown⟩
  next => exact Or.inl rfl

end Pool

/-- What a turn of a modest program comes to. -/
def Restrained (txn : TransactionId) (own : PageId → Prop) (stores : StoreRef → Prop)
    (spare : Bool) (before : Pool) (result : Pool × Progress α) : Prop :=
  ∃ gained left, result.1.Within txn own gained ∧ Pool.Grows stores spare left before result.1 ∧
    ∀ request, result.2 = .waiting request →
      Modest own stores gained left (.fetch request.page request.permission request.next)

theorem Restrained.after {txn : TransactionId} {before mid : Pool} {result : Pool × Progress α}
    (grows : Pool.Grows stores spare left before mid)
    (restrained : Restrained txn own stores left mid result) :
    Restrained txn own stores spare before result := by
  obtain ⟨gained, later, within, rest, waits⟩ := restrained
  exact ⟨gained, later, within, grows.trans rest, waits⟩

namespace Pool

variable {pool : Pool} {txn : TransactionId}

/-- A request is refused, or it goes on with at most one page more. -/
theorem serve_restrained {request : Waiting α} {wider : Option PageId}
    (modest : Modest own stores gained spare
      (.fetch request.page request.permission request.next))
    (within : pool.Within txn own gained)
    (widens : ∀ page, (own page ∨ gained = some page) ∨ page = request.page →
      own page ∨ wider = some page) (waited : Bool)
    (rest : ∀ r (mid : Pool), mid.Within txn own wider →
      Restrained txn own stores spare mid (mid.run txn (request.next r))) :
    Restrained txn own stores spare pool (pool.serve txn request waited) := by
  have asked := pool.requestLock_media txn request.page request.permission.mode waited
  simp only [serve]
  rcases pool.requestLock_cases txn request.page request.permission.mode waited with
    ⟨locks, granted, eq⟩ | ⟨_, _, eq⟩ | ⟨_, _, eq⟩
  · rw [eq] at asked ⊢
    dsimp only at asked ⊢
    generalize taken : ({ pool with
        locks := locks
        waits := if waited then pool.waits.clear txn else pool.waits } : Pool) = mid at asked ⊢
    have locked : (mid.load request.page).1.locks = locks := by
      rw [(mid.load_control request.page).locks, ← taken]
    have grows : Grows stores spare spare pool (mid.load request.page).1 :=
      (asked.trans (mid.load_media request.page)).grows
    refine .after grows (rest _ _ fun page held => ?_)
    rw [locked, LockTable.acquire_holds granted] at held
    rcases held with ⟨_, here⟩ | before
    · exact widens page (Or.inr here)
    · exact widens page (Or.inl (within page before))
  · rw [eq] at asked ⊢
    exact .after asked.grows (rest _ _ fun page held => widens page (Or.inl (within page held)))
  · rw [eq] at asked ⊢
    refine ⟨gained, spare, within, asked.grows, fun other same => ?_⟩
    cases same
    exact modest

end Pool

theorem Modest.run {p : Program α} (modest : Modest own stores gained spare p)
    {txn : TransactionId} {pool : Pool} (within : pool.Within txn own gained) :
    Restrained txn own stores spare pool (pool.run txn p) := by
  induction modest generalizing pool with
  | @stop gained spare result =>
    exact ⟨gained, spare, within, (Pool.SameMedia.refl pool).grows, fun _ same => by cases same⟩
  | fetchOwn held rest ih =>
    rw [Pool.run_fetch]
    refine Pool.serve_restrained (.fetchOwn held rest) within (fun page known => ?_) false
      fun r mid => ih r
    rcases known with known | rfl
    · exact known
    · exact Or.inl held
  | fetch rest ih =>
    rw [Pool.run_fetch]
    refine Pool.serve_restrained (.fetch rest) within (fun page known => ?_) false
      fun r mid => ih r
    rcases known with (known | none) | rfl
    · exact Or.inl known
    · cases none
    · exact Or.inr rfl
  | @holds spare page next _ _ heldRun awayRun =>
    rw [Pool.run]
    cases held : pool.holdsLock txn page with
    | true =>
      have known := (within page held).resolve_right (Option.some_ne_none page).symm
      exact heldRun known within
    | false => exact awayRun within
  | @release spare page next _ ih =>
    rw [Pool.run]
    have media : Pool.SameMedia pool (pool.releaseLock txn page) :=
      Pool.media_of_same rfl rfl rfl
    refine .after media.grows (ih fun q held => ?_)
    obtain ⟨other, before⟩ := (LockTable.release_holds ..).mp held
    rcases within q before with known | same
    · exact Or.inl known
    · cases same
      exact absurd ⟨rfl, rfl⟩ other
  | @count gained spare store next _ ih =>
    rw [Pool.run]
    exact .after (pool.countPages_media store).grows (ih _ within)
  | allocate allowed _ ih =>
    rw [Pool.run]
    exact .after (Pool.allocatePage_grows allowed) (ih _ within)
  | look _ ih =>
    rw [Pool.run]
    exact ih _ within
  | edit _ ih =>
    rw [Pool.run]
    exact .after (pool.setObject_media _ _).grows (ih within)
  | spoil _ ih =>
    rw [Pool.run]
    exact .after (pool.setObject_media _ _).grows (ih within)

/-- Taking up a request that waits gains no more than the rest of its program does. -/
theorem Modest.retry {request : Waiting α} {txn : TransactionId} {pool : Pool}
    (modest : Modest own stores gained spare
      (.fetch request.page request.permission request.next))
    (within : pool.Within txn own gained) :
    Restrained txn own stores spare pool (pool.retry txn request) := by
  obtain ⟨page, permission, next⟩ := request
  have whole := modest
  rw [Pool.retry_eq_serve]
  cases modest with
  | fetchOwn held rest =>
    refine Pool.serve_restrained whole within (fun q known => ?_) true fun r mid => (rest r).run
    rcases known with known | rfl
    · exact known
    · exact Or.inl held
  | fetch rest =>
    refine Pool.serve_restrained whole within (fun q known => ?_) true fun r mid => (rest r).run
    rcases known with (known | none) | rfl
    · exact Or.inl known
    · cases none
    · exact Or.inr rfl

/-! ## Mutations of heap tables -/

namespace HeapTable

variable {table : TableId} {store : StoreRef} {tuple : Bytes}

theorem modest_placeOn {ref : PageRef} {ifFull : Bytes → Program (List PageRef)}
    (rest : ∀ data, Modest own stores gained spare (ifFull data)) :
    Modest own stores gained spare (placeOn ref tuple ifFull) := by
  refine .look fun p => ?_
  cases place p.data tuple with
  | full => exact rest p.data
  | placed new => exact .edit (.stop _)
  | refused e => exact .stop _
  | broken new fault => exact .spoil (.stop _)

theorem modest_insertNew (page : PageId) :
    Modest own stores none spare (insertNew tuple page) := by
  refine .fetch fun r => ?_
  cases r with
  | error e => exact .stop _
  | ok ref => exact modest_placeOn fun data => .stop _

/-- A page that was not held before is given back before the next one is asked for. -/
theorem modest_insertFrom (allowed : stores store) (left : Nat) (index : UInt32) :
    Modest own stores none true (insertFrom table store tuple left index) := by
  induction left generalizing index with
  | zero =>
    refine .allocate allowed fun r => ?_
    cases r with
    | error e => exact .stop _
    | ok page => exact modest_insertNew page
  | succ left ih =>
    refine .holds (fun held => .fetchOwn held fun r => ?_) (.fetch fun r => ?_)
    · cases r with
      | error e => exact .stop _
      | ok ref => exact modest_placeOn fun data => ih (index + 1)
    · cases r with
      | error e => exact .stop _
      | ok ref => exact modest_placeOn fun data => .release (ih (index + 1))

theorem modest_insert (allowed : stores store) (table : TableId) (pageSize : Nat)
    (tuple : Bytes) : Modest own stores none true (insert table pageSize store tuple) := by
  simp only [insert]
  split
  · exact .stop _
  · refine .count fun counted => ?_
    cases counted with
    | error e => exact .stop _
    | ok count => exact modest_insertFrom allowed _ _

theorem modest_delete (table : TableId) (record : RecordId) :
    Modest own stores none spare (delete table record) := by
  simp only [delete, onOwnPage]
  split
  · refine .fetch fun r => ?_
    cases r with
    | error e => exact .stop _
    | ok ref =>
      refine .look fun p => ?_
      cases SlottedPage.delete p.data record.slot with
      | error e => exact .stop _
      | ok new => exact .edit (.stop _)
  · exact .stop _

end HeapTable

/-- The store of a table, if the table is registered. -/
def Pool.StoreOf (pool : Pool) (id : TableId) (store : StoreRef) : Prop :=
  ∃ file, pool.catalog.file? id = some file ∧ file.store = store

theorem Pool.modest_mutation {pool : Pool} (heaps : pool.OverHeaps) (id : TableId)
    (mutation : Mutation) :
    Modest own (pool.StoreOf id) none true (pool.programOf (.mutate id mutation)) := by
  simp only [programOf, findTable]
  cases known : pool.catalog.file? id with
  | none => exact .stop _
  | some file =>
    have program : Modest own (pool.StoreOf id) none true (file.program mutation) := by
      rw [(heaps id file known).1]
      cases mutation with
      | insert tuple => exact HeapTable.modest_insert ⟨file, known, rfl⟩ ..
      | delete record => exact HeapTable.modest_delete ..
    exact program.map _

end TransactionalPages
