import TransactionalPages.Proofs.Operation
import TransactionalPages.Proofs.Rollback

/-!
# What a pool retains

A table is a program, and nothing more is asked of it here: it may drop pages
from the cache, answer with pages that it never fetched, or with several of one
name. It can make a page dirty and not clean again. A turn with such a program is
followed call by call. No call takes a dirty page from the cache unless it drops
it, and none writes to a store. Adopting changed pages may put one object in the
place of another, and rolling back may drop a page that cannot be restored; the
cache keeps to its capacity in any case.
-/

namespace TransactionalPages

/-! ## Turns -/

namespace Pool

variable {α κ : Type} [Foreign κ] {txn : TransactionId} {page : PageId} {ref : PageRef}
  {pool before after mid : Pool κ}

/-- One call of a program: what is left of the program then, and the pool behind the call. There is
none when the program has ended or has to wait. -/
def advance (txn : TransactionId) (waited : Bool) : Program α → Pool κ → Option (Program α × Pool κ)
  | .stop _, _ => none
  | .fetch page permission next, pool =>
    match pool.requestLock txn page permission.mode waited with
    | (pool, .granted) => some (next (pool.load page).2, (pool.load page).1)
    | (_, .refused) => none
    | (pool, .victim) => some (next (.error (.deadlock txn page)), pool)
  | .holds page next, pool => some (next (pool.holdsLock txn page), pool)
  | .release page next, pool => some (next, pool.releaseLock txn page)
  | .discard page next, pool => some (next, pool.discard page)
  | .count store next, pool => some (next (pool.countPages store).2, (pool.countPages store).1)
  | .allocate store next, pool =>
    some (next (pool.allocatePage store).2, (pool.allocatePage store).1)
  | .look ref next, pool => some (next (pool.object ref), pool)
  | .edit ref data next, pool =>
    some (next, pool.setObject ref { pool.object ref with data := data, dirtier := some txn })
  | .spoil ref data next, pool =>
    some (next, pool.setObject ref { pool.object ref with data := data })
  | .make page next, pool => some (next (pool.addObject page).2, (pool.addObject page).1)

/-- Where a turn comes by. `waited` says whether it begins with a fetch that was refused before. -/
inductive Leads (txn : TransactionId) : Bool → Program α × Pool κ → Program α × Pool κ → Prop where
  | here {waited : Bool} {place : Program α × Pool κ} : Leads txn waited place place
  | on {waited : Bool} {p : Program α} {pool : Pool κ} {next last : Program α × Pool κ}
    (call : advance txn waited p pool = some next) (rest : Leads txn false next last) :
    Leads txn waited (p, pool) last

/-- Takes a turn with a program. -/
def proceed (txn : TransactionId) (waited : Bool) : Program α → Pool κ → Pool κ × Progress α
  | .fetch page permission next, pool => pool.serve txn ⟨page, permission, next⟩ waited
  | p, pool => pool.run txn p

theorem proceed_run (p : Program α) (pool : Pool κ) :
    proceed txn false p pool = pool.run txn p := by
  cases p with
  | fetch page permission next => exact (run_fetch txn page permission next pool).symm
  | _ => rfl

/-- A call that does not wait is followed by the run of what is left. -/
theorem proceed_of_call {waited : Bool} {p q : Program α}
    (call : advance txn waited p pool = some (q, mid)) :
    proceed txn waited p pool = mid.run txn q := by
  cases p with
  | stop result => cases call
  | fetch page permission next =>
    simp only [advance] at call
    simp only [proceed, serve]
    rcases pool.requestLock_cases txn page permission.mode waited with
      ⟨locks, _, eq⟩ | ⟨_, _, eq⟩ | ⟨_, _, eq⟩
    · rw [eq] at call ⊢
      cases call
      rfl
    · rw [eq] at call ⊢
      cases call
      rfl
    · rw [eq] at call
      cases call
  | _ =>
    cases call
    rfl

/-- What a program that stands still has come to. -/
inductive Rests : Program α → Progress α → Prop where
  | done (result : Except PoolError α) : Rests (.stop result) (.done result)
  | waiting (request : Waiting α) :
    Rests (.fetch request.page request.permission request.next) (.waiting request)

/-- A turn goes through its calls and stops behind the last of them, where no more than an edge is
new. -/
def Halts (txn : TransactionId) (waited : Bool) (p : Program α) (pool : Pool κ)
    (result : Pool κ × Progress α) : Prop :=
  ∃ q last waits, Leads txn waited (p, pool) (q, last) ∧
    result.1 = { last with waits := waits } ∧ Rests q result.2

theorem Halts.on {waited : Bool} {p q : Program α}
    (call : advance txn waited p pool = some (q, mid))
    (halts : Halts txn false q mid (proceed txn false q mid)) :
    Halts txn waited p pool (proceed txn waited p pool) := by
  obtain ⟨left, last, waits, leads, rests⟩ := halts
  refine ⟨left, last, waits, .on call leads, ?_⟩
  rwa [proceed_of_call call, ← proceed_run]

theorem Halts.at_once {waited : Bool} {p : Program α} (halt : advance txn waited p pool = none) :
    Halts txn waited p pool (proceed txn waited p pool) := by
  cases p with
  | stop result => exact ⟨_, pool, pool.waits, .here, rfl, .done result⟩
  | fetch page permission next =>
    simp only [advance] at halt
    simp only [proceed, serve]
    rcases pool.requestLock_cases txn page permission.mode waited with
      ⟨locks, _, eq⟩ | ⟨_, _, eq⟩ | ⟨_, _, eq⟩
    · rw [eq] at halt
      cases halt
    · rw [eq] at halt
      cases halt
    · rw [eq]
      exact ⟨_, pool, _, .here, rfl, .waiting ⟨page, permission, next⟩⟩
  | _ => cases halt

theorem proceed_halts (txn : TransactionId) (waited : Bool) (p : Program α) (pool : Pool κ) :
    Halts txn waited p pool (proceed txn waited p pool) := by
  induction p generalizing waited pool with
  | stop result => exact .at_once rfl
  | fetch page permission next ih =>
    cases call : advance txn waited (.fetch page permission next) pool with
    | none => exact .at_once call
    | some place =>
      obtain ⟨left, mid⟩ := place
      have answered : ∃ answer, left = next answer := by
        simp only [advance] at call
        split at call <;> cases call <;> exact ⟨_, rfl⟩
      obtain ⟨answer, rfl⟩ := answered
      exact .on call (ih answer false mid)
  | holds page next ih => exact .on rfl (ih _ false _)
  | release page next ih => exact .on rfl (ih false _)
  | discard page next ih => exact .on rfl (ih false _)
  | count store next ih => exact .on rfl (ih _ false _)
  | allocate store next ih => exact .on rfl (ih _ false _)
  | look ref next ih => exact .on rfl (ih _ false _)
  | edit ref data next ih => exact .on rfl (ih false _)
  | spoil ref data next ih => exact .on rfl (ih false _)
  | make page next ih => exact .on rfl (ih _ false _)

/-! ## What is retained -/

/-- The cache keeps its capacity, and keeps to it. -/
structure Bounded (before after : Pool κ) : Prop where
  capacity : after.cache.capacity = before.cache.capacity
  sound : before.cache.Sound → after.cache.Sound

/-- Every page that could be read from a store can be, with the same bytes. -/
def KeepsStored (before after : Pool κ) : Prop :=
  ∀ store page stored, (before.store store).medium.read page = .ok stored →
    (after.store store).medium.read page = .ok stored

/-- Nothing is written to a store, what is dirty stays dirty, and dirty pages stay in the cache,
except for those that are `gone`. -/
structure Retains (gone : PageId → PageRef → Prop) (before after : Pool κ) : Prop where
  bounded : Bounded before after
  stored : KeepsStored before after
  tags : ∀ ref, (before.object ref).isDirty = true → (after.object ref).isDirty = true
  drafts : ∀ page ref, before.cache.peek? page = some ref →
    (before.object ref).isDirty = true → ¬gone page ref → after.cache.peek? page = some ref

theorem Bounded.refl {κ : Type} (pool : Pool κ) : Bounded pool pool := ⟨rfl, id⟩

theorem Bounded.trans {κ : Type} {a b c : Pool κ} (first : Bounded a b)
    (second : Bounded b c) : Bounded a c :=
  ⟨second.capacity.trans first.capacity, second.sound ∘ first.sound⟩

theorem bounded_of_cache {κ : Type} {before after : Pool κ}
    (same : after.cache = before.cache) : Bounded before after :=
  ⟨by rw [same], fun sound => by rwa [same]⟩

theorem Sheds.bounded (sheds : Sheds before after) : Bounded before after :=
  ⟨sheds.capacity, sheds.sound⟩

theorem KeepsStored.trans {a b c : Pool κ} (first : KeepsStored a b) (second : KeepsStored b c) :
    KeepsStored a c := fun store page stored readable =>
  second store page stored (first store page stored readable)

theorem SameMedia.keepsStored (media : SameMedia before after) : KeepsStored before after := by
  intro store page stored readable
  rwa [media.medium store]

variable {gone : PageId → PageRef → Prop}

theorem Retains.trans {a b c : Pool κ} (first : Retains gone a b) (second : Retains gone b c) :
    Retains gone a c where
  bounded := first.bounded.trans second.bounded
  stored := first.stored.trans second.stored
  tags ref dirty := second.tags ref (first.tags ref dirty)
  drafts page ref held dirty stays :=
    second.drafts page ref (first.drafts page ref held dirty stays) (first.tags ref dirty) stays

theorem Sheds.retains (sheds : Sheds before after) : Retains gone before after where
  bounded := sheds.bounded
  stored := sheds.media.keepsStored
  tags ref dirty := by rwa [sheds.object]
  drafts page ref held dirty _ := by
    rcases sheds.kept page with same | ⟨_, clean⟩
    · exact same.trans held
    · rw [clean ref held] at dirty
      cases dirty

/-- Pools that differ in their locks and edges only. -/
theorem retains_of_same (stores : after.stores = before.stores)
    (objects : after.objects = before.objects) (cache : after.cache = before.cache) :
    Retains gone before after where
  bounded := bounded_of_cache cache
  stored store page stored readable := by
    simp only [Pool.store] at readable ⊢
    rwa [stores]
  tags ref dirty := by
    simp only [Pool.object] at dirty ⊢
    rwa [objects]
  drafts page ref held _ _ := by rwa [cache]

theorem requestLock_retains (pool : Pool κ) (txn : TransactionId) (page : PageId) (mode : LockMode)
    (waited : Bool) : Retains gone pool (pool.requestLock txn page mode waited).1 := by
  rcases pool.requestLock_cases txn page mode waited with
    ⟨locks, _, eq⟩ | ⟨_, _, eq⟩ | ⟨_, _, eq⟩
  · rw [eq]
    exact retains_of_same rfl rfl rfl
  · rw [eq]
    exact retains_of_same rfl rfl rfl
  · rw [eq]
    exact retains_of_same rfl rfl rfl

/-- A dirty page object is there. -/
theorem known_of_dirty {κ : Type} {pool : Pool κ} (dirty : (pool.object ref).isDirty = true) :
    ref.index < pool.objects.size := by
  refine Classical.byContradiction fun absent => ?_
  have fallback : pool.object ref = default := by
    simp only [Pool.object, Array.getD_eq_getD_getElem?]
    rw [Array.getElem?_eq_none (Nat.le_of_not_lt absent)]
    rfl
  rw [fallback] at dirty
  cases dirty

theorem addObject_retains (pool : Pool κ) (p : Page) : Retains gone pool (pool.addObject p).1 where
  bounded := bounded_of_cache rfl
  stored := (media_of_same rfl rfl rfl : SameMedia pool (pool.addObject p).1).keepsStored
  tags ref dirty := by
    have known := known_of_dirty dirty
    rwa [object_addObject, if_neg (Nat.ne_of_lt known)]
  drafts _ _ held _ _ := held

theorem setObject_retains (pool : Pool κ) (ref : PageRef) (p : Page)
    (dirty : (pool.object ref).isDirty = true → p.isDirty = true) :
    Retains gone pool (pool.setObject ref p) where
  bounded := bounded_of_cache rfl
  stored := (setObject_media pool ref p).keepsStored
  tags other was := by
    rw [object_setObject]
    split
    next here =>
      rw [here.1] at was
      exact dirty was
    next => exact was
  drafts _ _ held _ _ := held

theorem setStore_keepsStored {ref : StoreRef} {store : Store κ}
    (kept : ∀ page stored, (pool.store ref).medium.read page = .ok stored →
      store.medium.read page = .ok stored) : KeepsStored pool (pool.setStore ref store) := by
  intro q page stored readable
  rw [store_setStore]
  split
  next here =>
    rw [here.1] at readable
    exact kept page stored readable
  next => exact readable

/-- A new store does not show through references to the stores that are there. -/
theorem store_addStore {κ : Type} (pool : Pool κ) (store : Store κ) (q : StoreRef) :
    (pool.addStore store).1.store q =
      if q.index = pool.stores.size then store else pool.store q := by
  simp only [Pool.store, addStore]
  simp only [Array.getD_eq_getD_getElem?, Array.getElem?_push]
  by_cases last : q.index = pool.stores.size
  · simp [last]
  · rw [if_neg last, if_neg last]

theorem addStore_keepsStored (pool : Pool κ) (store : Store κ) :
    KeepsStored pool (pool.addStore store).1 := by
  intro q page stored readable
  rw [store_addStore]
  split
  next last =>
    -- no page is read from a store that is not there
    have fallback : pool.store q = default := by
      simp only [Pool.store, Array.getD_eq_getD_getElem?]
      rw [Array.getElem?_eq_none (Nat.le_of_eq last.symm)]
      rfl
    rw [fallback] at readable
    obtain ⟨_, _, found, _⟩ := MemoryStore.read_eq_ok.mp readable
    cases found
  next => exact readable

theorem allocatePage_retains [Foreign.Lasting κ] (pool : Pool κ) (ref : StoreRef) :
    Retains gone pool (pool.allocatePage ref).1 where
  bounded := bounded_of_cache rfl
  stored := by
    rw [allocatePage_eq]
    apply setStore_keepsStored
    intro page stored readable
    rcases allocate_medium (pool.store ref) with same | grown
    · rwa [same]
    · rw [grown]
      exact Medium.read_allocate readable
  tags _ dirty := dirty
  drafts _ _ held _ _ := held

theorem discard_retains (pool : Pool κ) (page : PageId) (lost : ∀ ref, gone page ref) :
    Retains gone pool (pool.discard page) where
  bounded := ⟨pool.cache.remove_capacity page, fun sound => sound.remove page⟩
  stored := (media_of_same rfl rfl rfl : SameMedia pool (pool.discard page)).keepsStored
  tags _ dirty := dirty
  drafts q ref held _ stays := by
    have other : q ≠ page := fun same => stays (same ▸ lost ref)
    show (pool.cache.remove page).1.peek? q = some ref
    rw [Cache.remove_peek?, if_neg other]
    exact held

/-- A page is filed for which there is room, and which was not there. -/
theorem filed_retains (sheds : Sheds pool mid)
    (room : pool.cache.Sound → mid.cache.order.length < mid.cache.capacity)
    (absent : pool.cache.peek? page = none) (ref : PageRef) :
    Retains gone pool { mid with cache := mid.cache.insert page ref } where
  bounded := by
    refine ⟨(mid.cache.insert_capacity page ref).trans sheds.capacity, fun sound => ?_⟩
    exact (sheds.sound sound).insert page ref (room sound)
  stored := sheds.media.keepsStored
  tags := (sheds.retains : Retains gone pool mid).tags
  drafts q other held dirty stays := by
    have apart : q ≠ page := by
      rintro rfl
      rw [absent] at held
      cases held
    show (mid.cache.insert page ref).peek? q = some other
    rw [Cache.insert_peek?, if_neg apart]
    exact (sheds.retains : Retains gone pool mid).drafts q other held dirty stays

theorem load_retains (pool : Pool κ) (page : PageId) : Retains gone pool (pool.load page).1 := by
  rcases pool.load_cases page with
    ⟨ref, after, _, sheds, _, eq⟩ | ⟨e, after, _, sheds, _, eq⟩ |
    ⟨_, stored, mid, absent, _, _, _, sheds, room, eq⟩
  · rw [eq]
    exact sheds.retains
  · rw [eq]
    exact sheds.retains
  · rw [eq]
    exact (filed_retains sheds room absent ⟨mid.objects.size⟩).trans (addObject_retains _ stored)

/-! ## A turn -/

/-- One call keeps what the pool has, unless it drops a page from the cache. -/
theorem advance_retains [Foreign.Lasting κ] {waited : Bool} {p q : Program α}
    (call : advance txn waited p pool = some (q, mid))
    (drops : ∀ page next, p = .discard page next → ∀ ref, gone page ref) :
    Retains gone pool mid := by
  cases p with
  | stop result => cases call
  | fetch page permission next =>
    have asked : Retains gone pool (pool.requestLock txn page permission.mode waited).1 :=
      requestLock_retains pool txn page permission.mode waited
    simp only [advance] at call
    split at call
    next granted =>
      cases call
      rw [granted] at asked
      exact asked.trans (load_retains _ page)
    next => cases call
    next victim =>
      cases call
      rw [victim] at asked
      exact asked
  | holds page next =>
    cases call
    exact retains_of_same rfl rfl rfl
  | release page next =>
    cases call
    exact retains_of_same rfl rfl rfl
  | discard page next =>
    cases call
    exact discard_retains pool page (drops page q rfl)
  | count store next =>
    cases call
    exact (pool.countPages_sheds store).retains
  | allocate store next =>
    cases call
    exact allocatePage_retains pool store
  | look ref next =>
    cases call
    exact retains_of_same rfl rfl rfl
  | edit ref data next =>
    cases call
    exact setObject_retains pool ref _ fun _ => rfl
  | spoil ref data next =>
    cases call
    exact setObject_retains pool ref _ id
  | make page next =>
    cases call
    exact addObject_retains pool page

theorem Leads.retains [Foreign.Lasting κ] {waited : Bool} {first last : Program α × Pool κ}
    (leads : Leads txn waited first last)
    (drops : ∀ page next mid, Leads txn waited first (.discard page next, mid) →
      ∀ ref, gone page ref) : Retains gone first.2 last.2 := by
  induction leads with
  | here => exact retains_of_same rfl rfl rfl
  | @on waited p pool next last call rest ih =>
    have once : Retains gone pool next.2 := advance_retains call fun page left dropping ref => by
      rw [dropping] at drops
      exact drops page left pool .here ref
    exact once.trans (ih fun page left mid later => drops page left mid (.on call later))

theorem proceed_retains [Foreign.Lasting κ] (waited : Bool) (p : Program α) (pool : Pool κ)
    (drops : ∀ page next mid, Leads txn waited (p, pool) (.discard page next, mid) →
      ∀ ref, gone page ref) : Retains gone pool (proceed txn waited p pool).1 := by
  obtain ⟨q, last, waits, leads, eq, _⟩ := proceed_halts txn waited p pool
  rw [eq]
  exact (leads.retains drops).trans (retains_of_same rfl rfl rfl)

/-! ## Adopting pages -/

/-- A changed page is filed where there is room, or in place of another object, or it is filed
already, or there is no room. -/
theorem install_cases (pool : Pool κ) (page : PageId) (ref : PageRef) :
    Sheds pool (pool.install page ref).1 ∨
    (∃ mid, Sheds pool mid ∧ pool.cache.peek? page = none ∧
      (pool.cache.Sound → mid.cache.order.length < mid.cache.capacity) ∧
      (pool.install page ref).1 = { mid with cache := mid.cache.insert page ref }) ∨
    (∃ cached, pool.cache.peek? page = some cached ∧ cached ≠ ref ∧
      (pool.install page ref).1 = { pool with cache := pool.cache.insert page ref }) := by
  simp only [install]
  cases held : pool.cache.peek? page with
  | some cached =>
    dsimp only
    split
    next same =>
      left
      rw [Cache.get_eq, held]
      exact toBack_sheds held
    next other => exact Or.inr (Or.inr ⟨cached, rfl, other, rfl⟩)
  | none =>
    dsimp only
    cases made : pool.makeRoom with
    | mk mid answer =>
      rcases pool.makeRoom_cases with ⟨sheds, done, room⟩ | ⟨sheds, failed, _⟩
      · rw [made] at sheds done room
        obtain rfl : answer = .ok () := done
        exact Or.inr (Or.inl ⟨mid, sheds, rfl, room, rfl⟩)
      · rw [made] at sheds failed
        obtain rfl : answer = _ := failed
        exact Or.inl sheds

theorem install_objects (pool : Pool κ) (page : PageId) (ref : PageRef) :
    (pool.install page ref).1.objects = pool.objects := by
  rcases pool.install_cases page ref with sheds | ⟨mid, sheds, _, _, eq⟩ | ⟨cached, _, _, eq⟩
  · exact sheds.objects
  · rw [eq]
    exact sheds.objects
  · rw [eq]

theorem install_retains (pool : Pool κ) (page : PageId) (ref : PageRef)
    (replaces : ∀ other, other ≠ ref → gone page other) :
    Retains gone pool (pool.install page ref).1 := by
  rcases pool.install_cases page ref with
    sheds | ⟨mid, sheds, absent, room, eq⟩ | ⟨cached, held, differs, eq⟩
  · exact sheds.retains
  · rw [eq]
    exact filed_retains sheds room absent ref
  · rw [eq]
    refine ⟨⟨pool.cache.insert_capacity page ref, fun sound => ?_⟩,
      (media_of_same rfl rfl rfl : SameMedia pool _).keepsStored, fun _ dirty => dirty,
      fun q other there _ stays => ?_⟩
    · exact sound.refile ref (by rw [held]; rfl)
    · have apart : q ≠ page := by
        rintro rfl
        rw [held] at there
        cases there
        exact stays (replaces cached differs)
      show (pool.cache.insert page ref).peek? q = some other
      rw [Cache.insert_peek?, if_neg apart]
      exact there

/-- Pages that are adopted one after another keep what is cached, except for what they replace. -/
theorem adopt_retains (txn : TransactionId) (refs : List PageRef) (pool : Pool κ)
    (replaces : ∀ ref ∈ refs, ∀ other, other ≠ ref → gone (pool.object ref).id other) :
    Retains gone pool (pool.adopt txn refs).1 := by
  induction refs generalizing pool with
  | nil => exact retains_of_same rfl rfl rfl
  | cons ref rest ih =>
    simp only [adopt]
    have marks : Retains gone pool (pool.setObject ref ((pool.object ref).markDirty txn)) :=
      setObject_retains pool ref _ fun _ => rfl
    have named : ∀ q, ((pool.setObject ref ((pool.object ref).markDirty txn)).object q).id =
        (pool.object q).id := by
      intro q
      rw [object_setObject]
      split
      next here => rw [here.1]; rfl
      next => rfl
    generalize pool.setObject ref ((pool.object ref).markDirty txn) = mid at marks named
    have files : Retains gone mid (mid.install (mid.object ref).id ref).1 := by
      apply install_retains
      rw [named]
      exact replaces ref List.mem_cons_self
    have objects := mid.install_objects (mid.object ref).id ref
    cases installed : mid.install (mid.object ref).id ref with
    | mk after answer =>
      rw [installed] at files objects
      have objects : after.objects = mid.objects := objects
      cases answer with
      | error e => exact marks.trans files
      | ok _ =>
        refine (marks.trans files).trans (ih after fun other later => ?_)
        have same : after.object other = mid.object other := by
          simp only [Pool.object]
          rw [objects]
        rw [same, named]
        exact replaces other (List.mem_cons_of_mem _ later)

/-- A turn with an operation: the calls of its program, and then the adoption of what it changed. -/
theorem finish_retains (result : Pool κ × Progress Answer)
    (replaces : ∀ refs, result.2 = .done (.ok (.changed refs)) →
      ∀ ref ∈ refs, ∀ other, other ≠ ref → gone (result.1.object ref).id other) :
    Retains gone result.1 (finish txn result).1 := by
  rcases finish_cases txn result with same | ⟨refs, answers, adopts, _⟩
  · rw [same]
    exact retains_of_same rfl rfl rfl
  · rw [adopts]
    exact adopt_retains txn refs result.1 (replaces refs answers)

end Pool

/-! ## Programs that only read -/

/-- A program that looks at pages, and answers as it may. -/
inductive Program.Reads {α : Type} (answers : α → Prop) : Program α → Prop where
  | stop {result : Except PoolError α} (fits : ∀ a, result = .ok a → answers a) :
    Reads answers (.stop result)
  | fetch {page : PageId} {permission : Permission} {next : Except PoolError PageRef → Program α}
    (rest : ∀ r, Reads answers (next r)) : Reads answers (.fetch page permission next)
  | count {store : StoreRef} {next : Except StorageError UInt32 → Program α}
    (rest : ∀ r, Reads answers (next r)) : Reads answers (.count store next)
  | look {ref : PageRef} {next : Page → Program α} (rest : ∀ p, Reads answers (next p)) :
    Reads answers (.look ref next)

namespace Program

variable {α β : Type} {answers : α → Prop}

theorem Reads.fail (e : PoolError) : Reads answers (.fail e) := .stop fun _ same => by cases same

theorem Reads.failStorage (e : StorageError) : Reads answers (.failStorage e) :=
  .stop fun _ same => by cases same

theorem Reads.withResult {r : Except StorageError β} {next : β → Program α}
    (rest : ∀ b, Reads answers (next b)) : Reads answers (.withResult r next) := by
  cases r with
  | ok b => exact rest b
  | error e => exact .failStorage e

theorem Reads.fetchOrStop {page : PageId} {permission : Permission} {next : PageRef → Program α}
    (rest : ∀ ref, Reads answers (next ref)) :
    Reads answers (.fetchOrStop page permission next) := by
  refine .fetch fun r => ?_
  cases r with
  | ok ref => exact rest ref
  | error e => exact .fail e

theorem Reads.map {p : Program α} (reads : Reads answers p) (f : α → β) {answers' : β → Prop}
    (fits : ∀ a, answers a → answers' (f a)) : Reads answers' (p.map f) := by
  induction reads with
  | @stop result allowed =>
    refine .stop fun b same => ?_
    cases result with
    | ok a =>
      cases same
      exact fits a (allowed a rfl)
    | error e => cases same
  | fetch _ ih => exact .fetch ih
  | count _ ih => exact .count ih
  | look _ ih => exact .look ih

end Program

theorem HeapTable.reads_get (table : TableId) (record : RecordId) :
    (HeapTable.get table record).Reads fun _ => True := by
  simp only [HeapTable.get, HeapTable.onOwnPage]
  split
  · refine .fetchOrStop fun ref => .look fun seen => .withResult fun tuple => ?_
    exact .stop fun _ _ => trivial
  · exact .failStorage _

theorem HeapTable.reads_scanFrom (table : TableId) (left : Nat) (index : UInt32) (found : Rows) :
    (HeapTable.scanFrom table left index found).Reads fun _ => True := by
  induction left generalizing index found with
  | zero => exact .stop fun _ _ => trivial
  | succ left ih => exact .fetchOrStop fun ref => .look fun seen => .withResult fun tuples => ih _ _

theorem HeapTable.reads_scan (table : TableId) (store : StoreRef) :
    (HeapTable.scan table store).Reads fun _ => True :=
  .count fun _ => .withResult fun count => reads_scanFrom table count.toNat 0 []

namespace Pool

variable {α κ : Type} [Foreign κ] {txn : TransactionId} {page : PageId} {ref : PageRef}
  {pool before after mid : Pool κ} {answers : α → Prop}

/-- Only mutations change pages, whatever the tables are. -/
theorem programOf_reads {κ : Type} (pool : Pool κ) {op : Operation}
    (reading : ∀ table mutation, op ≠ .mutate table mutation) :
    (pool.programOf op).Reads fun answer => ∀ refs, answer ≠ .changed refs := by
  cases op with
  | fetch page permission =>
    exact .fetch fun r => .stop fun a same refs changed => by cases r <;> cases same; cases changed
  | mutate table mutation => exact absurd rfl (reading table mutation)
  | get table record =>
    exact (HeapTable.reads_get table record).map _ fun _ _ refs same => by cases same
  | scan table store =>
    exact (HeapTable.reads_scan table store).map _ fun _ _ refs same => by cases same

theorem advance_reads {waited : Bool} {p q : Program α} (reads : p.Reads answers)
    (call : advance txn waited p pool = some (q, mid)) : q.Reads answers := by
  cases reads with
  | stop fits => cases call
  | fetch rest =>
    simp only [advance] at call
    split at call
    · cases call
      exact rest _
    · cases call
    · cases call
      exact rest _
  | count rest =>
    cases call
    exact rest _
  | look rest =>
    cases call
    exact rest _

theorem Leads.reads {waited : Bool} {first last : Program α × Pool κ}
    (leads : Leads txn waited first last) (reads : first.1.Reads answers) :
    last.1.Reads answers := by
  induction leads with
  | here => exact reads
  | on call _ ih => exact ih (advance_reads reads call)

/-! ## Writing back -/

theorem flushPage_cache (pool : Pool κ) (page : PageId) :
    (pool.flushPage page).1.cache = pool.cache := by
  simp only [flushPage]
  split
  · rfl
  · split
    · rfl
    · split
      · split
        next failed => exact congrArg (fun r => r.1.cache) failed.symm
        next done => exact congrArg (fun r => r.1.cache) done.symm
      · rfl

theorem flushEach_cache (pages : List PageId) (pool : Pool κ) :
    (pool.flushEach pages).1.cache = pool.cache :=
  flushEach_keeps (P := fun mid => mid.cache = pool.cache)
    (fun mid page same => (mid.flushPage_cache page).trans same) pages rfl

theorem flushCached_cache (cached : List (PageId × PageRef)) (pool : Pool κ) :
    (pool.flushCached cached).1.cache = pool.cache :=
  flushCached_keeps (P := fun mid => mid.cache = pool.cache)
    (fun mid page same => (mid.flushPage_cache page).trans same) cached rfl

theorem commit_cache (pool : Pool κ) (txn : TransactionId) :
    (pool.commit txn).1.cache = pool.cache := by
  have flushed := pool.flushEach_cache (pool.locks.pagesHeldBy txn)
  simp only [commit, flushPages]
  cases done : pool.flushEach (pool.locks.pagesHeldBy txn) with
  | mk mid answer =>
    rw [done] at flushed
    cases answer <;> exact flushed

/-! ## Rolling back -/

/-- A page that cannot be restored when its turn comes in a roll-back of the listed pages. -/
def FailsToRestore (pool : Pool κ) (txn : TransactionId) (pages : List PageId) (page : PageId) :
    Prop :=
  ∃ done rest e, pages = done ++ page :: rest ∧
    (∀ met ∈ (pool.restoreEach txn done).2, met.isFault = false) ∧
    ((pool.restoreEach txn done).1.restorePage txn page).2 = .error e ∧ e.isFault = false

theorem restorePage_keeps (pool : Pool κ) (txn : TransactionId) (page : PageId) :
    Bounded pool (pool.restorePage txn page).1 ∧ KeepsStored pool (pool.restorePage txn page).1 ∧
      ∀ q, (pool.restorePage txn page).1.cache.peek? q = pool.cache.peek? q := by
  have demoted : (pool.cache.demote page).capacity = pool.cache.capacity := by
    simp only [Cache.demote]
    split <;> rfl
  rcases pool.restorePage_cases txn page with
    ⟨_, eq⟩ | ⟨_, _, _, eq⟩ | ⟨_, _, _, _, _, eq⟩ | ⟨table, ref, stored, _, _, _, _, eq⟩ |
    ⟨table, _, _, _, _, _, _, eq⟩
  · rw [eq]
    exact ⟨.refl pool, fun _ _ _ => id, fun _ => rfl⟩
  · rw [eq]
    exact ⟨.refl pool, fun _ _ _ => id, fun _ => rfl⟩
  · rw [eq]
    exact ⟨⟨demoted, fun sound => sound.demote page⟩, fun _ _ _ => id,
      pool.cache.demote_peek? page⟩
  · rw [eq]
    have media : SameMedia pool (pool.reloaded table.store page ref stored) :=
      (readStore_media pool table.store page).trans (media_of_same rfl rfl rfl)
    exact ⟨⟨demoted, fun sound => sound.demote page⟩, media.keepsStored,
      pool.cache.demote_peek? page⟩
  · rw [eq]
    have sheds := readStore_sheds pool table.store page
    exact ⟨sheds.bounded, sheds.media.keepsStored, fun _ => rfl⟩

theorem restoreEach_keeps (txn : TransactionId) (pages : List PageId) (pool : Pool κ) :
    Bounded pool (pool.restoreEach txn pages).1 ∧ KeepsStored pool (pool.restoreEach txn pages).1 ∧
      ∀ q ref, pool.cache.peek? q = some ref →
        (pool.restoreEach txn pages).1.cache.peek? q = some ref ∨
          pool.FailsToRestore txn pages q := by
  induction pages generalizing pool with
  | nil => exact ⟨.refl pool, fun _ _ _ => id, fun q ref held => Or.inl held⟩
  | cons page rest ih =>
    obtain ⟨bounded, stored, same⟩ := pool.restorePage_keeps txn page
    cases restored : pool.restorePage txn page with
    | mk mid answer =>
      rw [restored] at bounded stored same
      cases answer with
      | ok _ =>
        obtain ⟨boundedRest, storedRest, kept⟩ := ih mid
        simp only [restoreEach, restored]
        refine ⟨bounded.trans boundedRest, stored.trans storedRest, fun q ref held => ?_⟩
        rcases kept q ref ((same q).trans held) with still | ⟨done, left, e, rfl, fine, fails⟩
        · exact Or.inl still
        · have earlier : pool.restoreEach txn (page :: done) = mid.restoreEach txn done := by
            simp only [restoreEach, restored]
          exact Or.inr ⟨page :: done, left, e, rfl, by rwa [earlier], by rwa [earlier]⟩
      | error e =>
        cases fault : e.isFault with
        | true =>
          simp only [restoreEach, restored, fault, if_true]
          exact ⟨bounded, stored, fun q ref held => Or.inl ((same q).trans held)⟩
        | false =>
          have drops : Retains (fun p _ => p = page) mid (mid.discard page) :=
            discard_retains mid page fun _ => rfl
          obtain ⟨boundedRest, storedRest, kept⟩ := ih (mid.discard page)
          simp only [restoreEach, restored, fault, Bool.false_eq_true, if_false]
          refine ⟨(bounded.trans drops.bounded).trans boundedRest,
            (stored.trans drops.stored).trans storedRest, fun q ref held => ?_⟩
          by_cases here : q = page
          · subst here
            exact Or.inr ⟨[], rest, e, rfl, by simp [restoreEach], by
              simp only [restoreEach, restored], fault⟩
          have left : (mid.discard page).cache.peek? q = some ref := by
            show (mid.cache.remove page).1.peek? q = some ref
            rw [Cache.remove_peek?, if_neg here]
            exact (same q).trans held
          rcases kept q ref left with still | ⟨done, later, cause, rfl, fine, fails⟩
          · exact Or.inl still
          · have earlier : pool.restoreEach txn (page :: done) =
                (((mid.discard page).restoreEach txn done).1,
                  e :: ((mid.discard page).restoreEach txn done).2) := by
              simp only [restoreEach, restored, fault, Bool.false_eq_true, if_false]
            refine Or.inr ⟨page :: done, later, cause, rfl, ?_, by rwa [earlier]⟩
            rw [earlier]
            intro met listed
            rcases List.mem_cons.mp listed with rfl | behind
            · exact fault
            · exact fine met behind

/-- An abort does to the cache and the stores what restoring its pages does. -/
theorem abort_keeps (pool : Pool κ) (txn : TransactionId) :
    Bounded pool (pool.abort txn).1 ∧ KeepsStored pool (pool.abort txn).1 ∧
      ∀ q ref, pool.cache.peek? q = some ref → (pool.abort txn).1.cache.peek? q = some ref ∨
        pool.FailsToRestore txn (pool.locks.pagesHeldBy txn) q := by
  obtain ⟨bounded, stored, kept⟩ := restoreEach_keeps txn (pool.locks.pagesHeldBy txn) pool
  have released : ∀ moved : Pool κ, Bounded moved (moved.letGo txn) ∧
      KeepsStored moved (moved.letGo txn) := fun moved =>
    ⟨bounded_of_cache rfl, (letGo_media moved txn).keepsStored⟩
  unfold abort
  dsimp only
  split
  · exact ⟨bounded, stored, kept⟩
  · exact ⟨bounded.trans (released _).1, stored.trans (released _).2, kept⟩
  · exact ⟨bounded.trans (released _).1, stored.trans (released _).2, kept⟩

end Pool

end TransactionalPages
