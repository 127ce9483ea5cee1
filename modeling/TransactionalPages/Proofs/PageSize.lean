import TransactionalPages.Proofs.Residue

/-!
# The size of a page

A page is loaded only if it has the size of the pool's pages, and whatever is done
to it then, by tables or through references, keeps its size. The one way around
that is an abort. It reads a cached page again without a look at its size, from
the table that is registered by then, which may not be the one that the page was
loaded from. Such a page is odd from then on; all others have the size that the
pool was configured with, and so has every page that a fetch answers with.
-/

namespace TransactionalPages

namespace Pool

variable {pool base before after mid : Pool} {txn : TransactionId} {page : PageId} {ref : PageRef}
  {size : Nat} {odd : PageId → Prop}

/-- The pages of the pool have a size that a page may have. Cached pages are there under their own
names, and have that size unless they are odd. -/
structure Uniform (size : Nat) (odd : PageId → Prop) (pool : Pool) : Prop where
  small : size ≤ Config.maxPageSize
  config : pool.config.pageSize = size
  named : pool.Named
  sized : ∀ page ref, pool.cache.peek? page = some ref → ¬odd page → (pool.object ref).size = size

/-- Pages keep their size if their objects do and the cache takes up pages of that size only. -/
theorem Uniform.evolve (uniform : before.Uniform size odd) (config : after.config = before.config)
    (objects : SameObjects before after)
    (cached : ∀ page ref, after.cache.peek? page = some ref →
      before.cache.peek? page = some ref ∨ (ref.index < after.objects.size ∧
        (after.object ref).id = page ∧ (after.object ref).size = size)) :
    after.Uniform size odd := by
  refine ⟨uniform.small, by rw [config, uniform.config], fun page ref held => ?_,
    fun page ref held even => ?_⟩
  · rcases cached page ref held with old | ⟨known, id, _⟩
    · obtain ⟨known, id⟩ := uniform.named page ref old
      exact ⟨Nat.lt_of_lt_of_le known objects.count, (objects.id ref known).trans id⟩
    · exact ⟨known, id⟩
  · rcases cached page ref held with old | ⟨_, _, whole⟩
    · rw [objects.size ref (uniform.named page ref old).1]
      exact uniform.sized page ref old even
    · exact whole

theorem Uniform.same (uniform : before.Uniform size odd) (config : after.config = before.config)
    (objects : after.objects = before.objects) (cache : after.cache = before.cache) :
    after.Uniform size odd :=
  uniform.evolve config (sameObjects_of_eq objects) fun _ _ held => Or.inl (by rwa [cache] at held)

theorem Uniform.sheds (uniform : before.Uniform size odd) (sheds : Sheds before after) :
    after.Uniform size odd :=
  uniform.evolve sheds.control.config (sameObjects_of_eq sheds.objects)
    fun _ _ held => Or.inl (sheds.peek? held)

theorem Uniform.discard (uniform : pool.Uniform size odd) (page : PageId) :
    (pool.discard page).Uniform size odd :=
  uniform.evolve rfl (sameObjects_of_eq rfl) fun _ _ held => Or.inl (Cache.peek?_of_remove held)

theorem Uniform.setObject (uniform : pool.Uniform size odd) {new : Page}
    (id : new.id = (pool.object ref).id) (same : new.size = (pool.object ref).size) :
    (pool.setObject ref new).Uniform size odd :=
  uniform.evolve rfl (setObject_objects id same) fun _ _ held => Or.inl held

/-- The object of an odd page may become of any size. -/
theorem Uniform.setOdd (uniform : pool.Uniform size odd) (held : pool.cache.peek? page = some ref)
    (strange : odd page) {new : Page} (id : new.id = (pool.object ref).id) :
    (pool.setObject ref new).Uniform size odd := by
  refine ⟨uniform.small, uniform.config, uniform.named.setObject id, fun q r cached even => ?_⟩
  rw [object_setObject]
  split
  next here =>
    -- no two pages share an object
    have same : q = page := by
      rw [← (uniform.named q r cached).2, ← (uniform.named page ref held).2, here.1]
    exact absurd (same ▸ strange) even
  next => exact uniform.sized q r cached even

theorem Uniform.load (uniform : pool.Uniform size odd) (page : PageId) :
    (pool.load page).1.Uniform size odd := by
  rcases pool.load_cases page with
    ⟨_, after, _, sheds, _, eq⟩ | ⟨_, after, _, sheds, _, eq⟩ |
    ⟨table, stored, mid, _, _, read, same, sheds, _, eq⟩
  · rw [eq]
    exact uniform.sheds sheds
  · rw [eq]
    exact uniform.sheds sheds
  · rw [eq]
    have whole : stored.size = size := same.trans uniform.config
    have pushed := mid.addObject_objects stored
    have objects : SameObjects mid (mid.fileLoaded page stored).1 :=
      ⟨pushed.count, pushed.id, pushed.size⟩
    refine (uniform.sheds sheds).evolve rfl objects fun q ref held => ?_
    rw [fileLoaded_peek?] at held
    split at held
    next here =>
      cases held
      refine Or.inr ⟨Nat.lt_of_lt_of_eq (Nat.lt_succ_self _) (Array.size_push _).symm, ?_, ?_⟩
      · rw [fileLoaded_object, if_pos rfl, (Medium.read_eq_clean read).2, here]
        rfl
      · rw [fileLoaded_object, if_pos rfl, whole]
    next => exact Or.inl held

theorem Uniform.requestLock (uniform : pool.Uniform size odd) (txn : TransactionId) (page : PageId)
    (mode : LockMode) (waited : Bool) :
    (pool.requestLock txn page mode waited).1.Uniform size odd := by
  rcases pool.requestLock_cases txn page mode waited with
    ⟨locks, _, eq⟩ | ⟨_, _, eq⟩ | ⟨_, _, eq⟩ <;> rw [eq] <;> exact uniform.same rfl rfl rfl

/-! ## Turns -/

theorem Uniform.drift (uniform : base.Uniform size odd) (drift : Drift txn base after) :
    after.Uniform size odd := by
  induction drift with
  | start => exact uniform
  | ask _ page mode waited ih => exact ih.requestLock txn page mode waited
  | load _ page ih => exact ih.load page
  | release _ _ ih => exact ih.same rfl rfl rfl
  | count _ store ih => exact ih.sheds (countPages_sheds _ store)
  | allocate _ store ih => exact ih.same rfl rfl rfl
  | @spoil mid _ page ref held large new ih =>
    by_cases strange : odd page
    · exact ih.setOdd held strange rfl
    · -- only an odd page can be that large
      have whole : (mid.object ref).data.size = size := ih.sized page ref held strange
      have small := ih.small
      omega

theorem Uniform.finished (uniform : base.Uniform size odd) {op : Operation}
    {catalog : Catalog Table} {result : Pool × Progress Answer}
    (course : Course txn (op.purpose catalog) base result) :
    (finish txn result).1.Uniform size odd := by
  cases course with
  | waits drift => exact uniform.drift drift
  | fails drift => exact uniform.drift drift
  | answers drift reads =>
    rw [finish_answer reads.1]
    exact uniform.drift drift
  | @writes mid page ref new drift held _ _ same =>
    have moved := uniform.drift drift
    obtain ⟨known, name⟩ := moved.named page ref held
    have ended : finish txn _ = _ := finish_edited known name held new
    show (finish txn (_, .done (.ok (.changed [ref])))).1.Uniform size odd
    rw [ended]
    have edited : (mid.setObject ref
      { mid.object ref with data := new, dirtier := some txn }).Uniform size odd :=
      moved.setObject rfl same
    exact edited.sheds (toBack_sheds held)

/-! ## Endings -/

theorem Uniform.flushPage (uniform : pool.Uniform size odd) (page : PageId) :
    (pool.flushPage page).1.Uniform size odd := by
  rcases pool.flushPage_cases page with
    ⟨_, eq⟩ | ⟨table, ref, _, medium, _, _, _, _, eq⟩ | ⟨_, after, _, sheds, eq⟩
  · rw [eq]
    exact uniform
  · rw [eq]
    have wrote : (pool.written table.store medium).Uniform size odd := uniform.same rfl rfl rfl
    exact wrote.setObject rfl rfl
  · rw [eq]
    exact uniform.sheds sheds

theorem Uniform.commit (uniform : pool.Uniform size odd) (txn : TransactionId) :
    (pool.commit txn).1.Uniform size odd := by
  have flushed : (pool.flushPages txn).1.Uniform size odd :=
    flushEach_keeps (P := Uniform size odd) (fun _ page uniform => uniform.flushPage page) _ uniform
  simp only [Pool.commit]
  cases done : pool.flushPages txn with
  | mk moved answer =>
    rw [done] at flushed
    cases answer with
    | error e => exact flushed
    | ok _ => exact flushed.same rfl rfl rfl

/-- An abort of the transaction reads the page again and finds it to be of another size than the
pool's pages. -/
def Resizes (pool : Pool) (txn : TransactionId) (page : PageId) : Prop :=
  page ∈ pool.locks.pagesHeldBy txn ∧ pool.reloads txn page = true ∧
    ∃ table stored, pool.catalog.file? page.table = some table ∧
      (pool.store table.store).medium.read page = .ok stored ∧
      stored.size ≠ pool.config.pageSize

/-- A pool on the way back: what others have made dirty is as it was, and no page has come in. -/
structure Rewinds (txn : TransactionId) (base mid : Pool) : Prop where
  control : SameControl base mid
  media : SameMedia base mid
  cached : ∀ page ref, mid.cache.peek? page = some ref → base.cache.peek? page = some ref
  foreign : ∀ ref, ownsChanges txn (base.object ref) = false → mid.object ref = base.object ref

theorem Rewinds.sheds (rewinds : Rewinds txn base mid) (sheds : Sheds mid after) :
    Rewinds txn base after where
  control := rewinds.control.trans sheds.control
  media := rewinds.media.trans sheds.media
  cached page ref held := rewinds.cached page ref (sheds.peek? held)
  foreign ref theirs := (sheds.object ref).trans (rewinds.foreign ref theirs)

theorem Rewinds.discard (rewinds : Rewinds txn base mid) (page : PageId) :
    Rewinds txn base (mid.discard page) where
  control := rewinds.control.trans (discard_control ..)
  media := rewinds.media.trans (media_of_same rfl rfl rfl)
  cached q ref held := rewinds.cached q ref (Cache.peek?_of_remove held)
  foreign := rewinds.foreign

theorem Rewinds.setObject (rewinds : Rewinds txn base mid)
    (owns : ownsChanges txn (mid.object ref) = true) (new : Page) :
    Rewinds txn base (mid.setObject ref new) where
  control := rewinds.control.trans (setObject_control ..)
  media := rewinds.media.trans (setObject_media ..)
  cached := rewinds.cached
  foreign q theirs := by
    have same := rewinds.foreign q theirs
    rw [object_setObject, if_neg, same]
    rintro ⟨rfl, _⟩
    rw [same, theirs] at owns
    cases owns

/-- A page that is read again on the way would have been read again at the beginning. -/
theorem Rewinds.reloads (rewinds : Rewinds txn base mid)
    (held : mid.cache.peek? page = some ref) (owns : ownsChanges txn (mid.object ref) = true) :
    base.reloads txn page = true := by
  rw [reloads_of_cached (rewinds.cached page ref held)]
  cases theirs : ownsChanges txn (base.object ref) with
  | true => rfl
  | false => rw [rewinds.foreign ref theirs, theirs] at owns; cases owns

theorem Uniform.restorePage (uniform : mid.Uniform size odd) (rewinds : Rewinds txn base mid)
    (listed : page ∈ base.locks.pagesHeldBy txn) (resized : base.Resizes txn page → odd page) :
    (mid.restorePage txn page).1.Uniform size odd ∧
      Rewinds txn base (mid.restorePage txn page).1 := by
  rcases mid.restorePage_cases txn page with
    ⟨_, eq⟩ | ⟨_, _, _, eq⟩ | ⟨_, _, _, _, _, eq⟩ |
    ⟨table, ref, stored, known, held, owns, read, eq⟩ | ⟨table, _, _, _, _, _, _, eq⟩
  · rw [eq]
    exact ⟨uniform, rewinds⟩
  · rw [eq]
    exact ⟨uniform, rewinds⟩
  · rw [eq]
    exact ⟨uniform.sheds (mid.demote_sheds page), rewinds.sheds (mid.demote_sheds page)⟩
  · rw [eq]
    have sheds := mid.readStore_sheds table.store page
    have cached : (mid.readStore table.store page).1.cache.peek? page = some ref := held
    have mine : ownsChanges txn ((mid.readStore table.store page).1.object ref) = true := by
      rwa [sheds.object]
    have loaded : ((mid.readStore table.store page).1.setObject ref
        ((mid.object ref).restoreFrom stored)).Uniform size odd := by
      by_cases strange : odd page
      · exact (uniform.sheds sheds).setOdd cached strange rfl
      · have readable := readStore_eq_ok read
        rw [rewinds.media.medium] at readable
        rw [rewinds.control.catalog] at known
        have whole : stored.size = size := by
          refine Classical.byContradiction fun other => strange (resized ?_)
          refine ⟨listed, rewinds.reloads held owns, table, stored, known, readable, ?_⟩
          rwa [← rewinds.control.config, uniform.config]
        refine (uniform.sheds sheds).setObject rfl ?_
        rw [sheds.object, uniform.sized page ref held strange]
        exact whole
    exact ⟨loaded.sheds (demote_sheds _ page),
      ((rewinds.sheds sheds).setObject mine _).sheds (demote_sheds _ page)⟩
  · rw [eq]
    exact ⟨uniform.sheds (mid.readStore_sheds table.store page),
      rewinds.sheds (mid.readStore_sheds table.store page)⟩

theorem Uniform.restoreEach (uniform : mid.Uniform size odd) (rewinds : Rewinds txn base mid)
    (pages : List PageId) (listed : ∀ page ∈ pages, page ∈ base.locks.pagesHeldBy txn)
    (resized : ∀ page, base.Resizes txn page → odd page) :
    (mid.restoreEach txn pages).1.Uniform size odd := by
  induction pages generalizing mid with
  | nil => exact uniform
  | cons page rest ih =>
    have first := uniform.restorePage rewinds (listed page List.mem_cons_self) (resized page)
    have later : ∀ q ∈ rest, q ∈ base.locks.pagesHeldBy txn := fun q here =>
      listed q (List.mem_cons_of_mem page here)
    simp only [Pool.restoreEach]
    cases restored : mid.restorePage txn page with
    | mk next answer =>
      rw [restored] at first
      cases answer with
      | ok _ => exact ih first.1 first.2 later
      | error e =>
        dsimp only
        split
        · exact first.1
        · exact ih (first.1.discard page) (first.2.discard page) later

theorem Uniform.abort (uniform : pool.Uniform size odd) (txn : TransactionId)
    (resized : ∀ page, pool.Resizes txn page → odd page) : (pool.abort txn).1.Uniform size odd := by
  have rewinds : Rewinds txn pool pool := ⟨.refl pool, .refl pool, fun _ _ => id, fun _ _ => rfl⟩
  have restored := uniform.restoreEach rewinds (pool.locks.pagesHeldBy txn) (fun _ => id) resized
  simp only [Pool.abort]
  split
  · exact restored
  · exact restored.same rfl rfl rfl
  · exact restored.same rfl rfl rfl

theorem Uniform.ending (uniform : pool.Uniform size odd) (txn : TransactionId) (ending : Ending)
    (resized : ∀ base page, ending.rollsBack? pool txn = some base → base.Resizes txn page →
      odd page) : (ending.run pool txn).1.Uniform size odd := by
  cases ending with
  | commit => exact uniform.commit txn
  | close =>
    simp only [Ending.run]
    rcases pool.commitHandle_cases txn with ⟨_, eq⟩ | ⟨e, _, failed, eq, _⟩
    · rw [eq]
      exact uniform.commit txn
    · rw [eq]
      refine (uniform.commit txn).abort txn fun page => resized _ page ?_
      simp only [Ending.rollsBack?]
      cases committed : pool.commit txn with
      | mk mid answer =>
        rw [committed] at failed
        obtain rfl : answer = .error e := failed
        rfl
  | abort => exact uniform.abort txn fun page => resized pool page rfl
  | drop =>
    simp only [Ending.run]
    rw [dropHandle_pool]
    exact uniform.abort txn fun page => resized pool page rfl

/-! ## Fetching -/

/-- The program of a fetch asks for the page and answers with what it is given. -/
def Fetches (op : Operation) (p : Program Answer) : Prop :=
  ∀ page permission, op = .fetch page permission →
    ∃ next, p = .fetch page permission next ∧ ∀ answer, next answer = .stop (answer.map .page)

theorem programOf_fetches (pool : Pool) (op : Operation) : Fetches op (pool.programOf op) := by
  rintro page permission rfl
  exact ⟨_, rfl, fun _ => rfl⟩

/-- A fetch waits for the page that it asks for, or fails, or answers with the cached page. -/
theorem Fetches.proceed {p : Program Answer} {permission : Permission}
    (fetches : Fetches (.fetch page permission) p) (txn : TransactionId) (waited : Bool)
    (pool : Pool) :
    (∃ request, (pool.proceed txn waited p).2 = .waiting request ∧
      Fetches (.fetch page permission)
        (.fetch request.page request.permission request.next)) ∨
    (∃ e, (pool.proceed txn waited p).2 = .done (.error e)) ∨
    (∃ ref, (pool.proceed txn waited p).2 = .done (.ok (.page ref)) ∧
      (pool.proceed txn waited p).1.cache.peek? page = some ref) := by
  obtain ⟨next, rfl, stops⟩ := fetches page permission rfl
  simp only [Pool.proceed, serve]
  rcases pool.requestLock_cases txn page permission.mode waited with
    ⟨locks, _, eq⟩ | ⟨_, _, eq⟩ | ⟨_, _, eq⟩
  · rw [eq]
    dsimp only
    rw [stops, run]
    generalize { pool with
      locks := locks
      waits := if waited then pool.waits.clear txn else pool.waits } = asked
    cases loaded : (asked.load page).2 with
    | error e => exact Or.inr (Or.inl ⟨e, rfl⟩)
    | ok ref => exact Or.inr (Or.inr ⟨ref, rfl, load_filed loaded⟩)
  · rw [eq]
    dsimp only
    rw [stops, run]
    exact Or.inr (Or.inl ⟨_, rfl⟩)
  · rw [eq]
    exact Or.inl ⟨_, rfl, fun _ _ same => by cases same; exact ⟨next, rfl, stops⟩⟩

/-- A fetch that waits is still the same fetch. -/
theorem Fetches.waits {op : Operation} {p : Program Answer} {waited : Bool}
    {request : Waiting Answer} (fetches : Fetches op p)
    (waits : (finish txn (pool.proceed txn waited p)).2 = .waiting request) :
    Fetches op (.fetch request.page request.permission request.next) := by
  have waits := Interleaving.finish_waiting waits
  intro page permission same
  subst same
  rcases fetches.proceed txn waited pool with ⟨_, eq, later⟩ | ⟨_, eq⟩ | ⟨_, eq, _⟩
  · rw [waits] at eq
    cases eq
    exact later page permission rfl
  · rw [waits] at eq
    cases eq
  · rw [waits] at eq
    cases eq

theorem Fetches.answers {p : Program Answer} {permission : Permission} {waited : Bool}
    (fetches : Fetches (.fetch page permission) p)
    (ended : finish txn (pool.proceed txn waited p) = (after, .done (.ok (.page ref)))) :
    after.cache.peek? page = some ref := by
  have served := fetches.proceed txn waited pool
  generalize pool.proceed txn waited p = result at ended served
  obtain ⟨mid, progress⟩ := result
  rcases served with ⟨_, eq, _⟩ | ⟨_, eq⟩ | ⟨_, eq, held⟩
  · cases eq
    cases ended
  · cases eq
    cases ended
  · cases eq
    cases ended
    exact held

end Pool

/-! ## Runs -/

/-- A table that is registered is a heap table over a store that is there. -/
def Incident.OverHeaps (pool : Pool) : Incident → Prop
  | .register _ table => ∃ ref, ref.index < pool.stores.size ∧
    table = HeapTable.table (pool.store ref).table (pool.store ref).pageSize ref
  | _ => True

namespace Interleaving

variable {s : Interleaving} {size : Nat} {odd : PageId → Prop}

/-- Pages have one size unless they are odd, also those that fetches have answered with. -/
structure Even (size : Nat) (odd : PageId → Prop) (s : Interleaving) : Prop where
  poised : s.Poised fun _ _ => True
  uniform : s.pool.Uniform size odd
  fetching : ∀ r ∈ s.suspended,
    Pool.Fetches r.op (.fetch r.request.page r.request.permission r.request.next)
  told : ∀ txn page permission p,
    .answered txn (.fetch page permission) (.ok (.page p)) ∈ s.log → ¬odd page →
      p.id = page ∧ p.size = size

theorem Even.settle (even : s.Even size odd) {txn : TransactionId} {op : Operation}
    {catalog : Catalog Table} {program : Program Answer} {waited : Bool}
    (fetches : Pool.Fetches op program)
    (course : Course txn (op.purpose catalog) s.pool (s.pool.proceed txn waited program))
    {others : List Suspension} (apart : ∀ r ∈ others, r ∈ s.suspended)
    (poised : (settle others s.log txn op
      (Pool.finish txn (s.pool.proceed txn waited program))).Poised fun _ _ => True) :
    (settle others s.log txn op
      (Pool.finish txn (s.pool.proceed txn waited program))).Even size odd := by
  have uniform := even.uniform.finished course
  refine ⟨poised, by rwa [settle_pool], ?_, ?_⟩
  · intro r listed
    generalize ended : Pool.finish txn (s.pool.proceed txn waited program) = result at listed
    obtain ⟨after, progress⟩ := result
    cases progress with
    | done answer => exact even.fetching r (apart r listed)
    | waiting request =>
      rcases List.mem_append.mp listed with before | new
      · exact even.fetching r (apart r before)
      · rw [List.mem_singleton.mp new]
        exact fetches.waits (congrArg Prod.snd ended)
  · intro a page permission p listed regular
    generalize ended : Pool.finish txn (s.pool.proceed txn waited program) = result
      at listed uniform
    obtain ⟨after, progress⟩ := result
    cases progress with
    | waiting request => exact even.told a page permission p listed regular
    | done answer =>
      rcases List.mem_cons.mp listed with new | old
      · obtain ⟨rfl, rfl, shown⟩ := Event.answered.inj new
        cases answer with
        | error e => cases shown
        | ok answer =>
          cases answer with
          | page ref =>
            cases shown
            have held := fetches.answers ended
            exact ⟨(uniform.named page ref held).2, uniform.sized page ref held regular⟩
          | _ => cases shown
      · exact even.told a page permission p old regular

/-- What waits and what was told stays as it is while the pool changes. -/
theorem Even.change (even : s.Even size odd) {after : Interleaving}
    (poised : after.Poised fun _ _ => True) (uniform : after.pool.Uniform size odd)
    (suspended : after.suspended = s.suspended)
    (told : ∀ txn op reply, .answered txn op reply ∈ after.log → .answered txn op reply ∈ s.log) :
    after.Even size odd :=
  ⟨poised, uniform, by rw [suspended]; exact even.fetching,
    fun txn page permission p listed => even.told txn page permission p (told _ _ _ listed)⟩

theorem Even.step (even : s.Even size odd) (action : Action)
    (resized : ∀ txn ending base page, action = .finish txn ending →
      s.isSuspended txn = false → ending.rollsBack? s.pool txn = some base →
      base.Resizes txn page → odd page) : (s.step action).Even size odd := by
  have poised := even.poised.step action
  cases action with
  | call txn op =>
    rw [Interleaving.step] at poised ⊢
    split at poised
    next waits => rwa [if_pos waits]
    next free =>
      rw [if_neg free]
      have heaps := even.poised.owned.heaps
      have course : Course txn (op.purpose s.pool.catalog) s.pool (s.pool.run txn _) :=
        (Operation.orderly heaps op).course (Operation.purpose_placed heaps op).suits .start
          fun page here => absurd here (by simp)
      rw [Pool.submit, ← Pool.proceed_run] at poised ⊢
      rw [← Pool.proceed_run] at course
      exact even.settle (s.pool.programOf_fetches op) course (fun _ => id) poised
  | retry txn =>
    rw [Interleaving.step] at poised ⊢
    cases found : s.suspended.find? fun r => r.txn = txn with
    | none => exact even
    | some r =>
      rw [found] at poised
      obtain ⟨listed, same⟩ := mem_of_found found
      obtain ⟨catalog, pending, placed⟩ := even.poised.pending r listed
      rw [same] at pending
      exact even.settle (even.fetching r listed) (pending.course placed.suits)
        (fun q kept => (mem_of_rest kept).1) poised
  | flush txn =>
    rw [Interleaving.step] at poised ⊢
    split at poised
    next waits => rwa [if_pos waits]
    next free =>
      rw [if_neg free]
      have uniform : (s.pool.flushPages txn).1.Uniform size odd :=
        Pool.flushEach_keeps (P := Pool.Uniform size odd)
          (fun _ page uniform => uniform.flushPage page) _ even.uniform
      exact even.change poised uniform rfl fun _ _ _ => id
  | flushAll cached =>
    rw [Interleaving.step] at poised ⊢
    split at poised
    next listed =>
      rw [if_pos listed]
      have uniform : (s.pool.flushAll cached).1.Uniform size odd :=
        Pool.flushCached_keeps (P := Pool.Uniform size odd)
          (fun _ page uniform => uniform.flushPage page) _ even.uniform
      exact even.change poised uniform rfl fun _ _ _ => id
    next unlisted => rwa [if_neg unlisted]
  | finish txn ending =>
    rw [Interleaving.step] at poised ⊢
    split at poised
    next waits => rwa [if_pos waits]
    next free =>
      rw [if_neg free]
      have uniform := even.uniform.ending txn ending fun base page =>
        resized txn ending base page rfl (by simpa using free)
      refine even.change poised uniform rfl fun a op reply listed => ?_
      rcases List.mem_cons.mp listed with new | old
      · cases new
      · exact old

/-- An object that is changed through a reference keeps its name. -/
theorem Even.handled (even : s.Even size odd) {ref : PageRef} {new : Page}
    (name : new.id = (s.pool.object ref).id) (same : new.size = (s.pool.object ref).size) :
    Even size odd { s with pool := s.pool.setObject ref new } := by
  have owned := even.poised.owned
  have stays : (s.pool.setObject ref new).Owned fun _ _ => True :=
    ⟨owned.locks, owned.heaps.congr (Pool.setObject_media ..).stores, owned.named.setObject name,
      fun _ _ _ => Or.inr trivial⟩
  have poised : Poised (fun _ _ => True) { s with pool := s.pool.setObject ref new } :=
    even.poised.change stays
      (fun _ placed => placed.congr (Pool.setObject_media ..).stores) fun _ _ _ held => held
  exact even.change poised (even.uniform.setObject name same) rfl fun _ _ _ => id

theorem Even.undergo (even : s.Even size odd) {incident : Incident}
    (heaps : incident.OverHeaps s.pool)
    (resized : ∀ txn ending base page, incident = .deed (.act (.finish txn ending)) →
      s.isSuspended txn = false → ending.rollsBack? s.pool txn = some base →
      base.Resizes txn page → odd page) : (s.undergo incident).Even size odd := by
  have poised : incident.Lawful s.pool → (s.undergo incident).Poised fun _ _ => True :=
    fun lawful => even.poised.undergo lawful fun _ _ _ _ => trivial
  cases incident with
  | deed deed =>
    cases deed with
    | act action =>
      exact even.step action fun txn ending base page same =>
        resized txn ending base page (by rw [same])
    | write ref start new =>
      simp only [Interleaving.undergo, Interleaving.handle]
      split
      next written wrote =>
        simp only [Page.overwrite?] at wrote
        split at wrote
        next fits =>
          cases wrote
          exact even.handled rfl (Bytes.size_patch_of_le fits)
        next => cases wrote
      next => exact even
    | mark ref dirtier => exact even.handled rfl rfl
    | release txn page =>
      exact even.change (poised trivial) (even.uniform.same rfl rfl rfl) rfl fun _ _ _ => id
    | discard page =>
      exact even.change (poised trivial) (even.uniform.discard page) rfl fun _ _ _ => id
  | store store =>
    exact even.change (poised trivial) (even.uniform.same rfl rfl rfl) rfl fun _ _ _ => id
  | register name table =>
    exact even.change (poised heaps) (even.uniform.same rfl rfl rfl) rfl fun _ _ _ => id
  | remove table =>
    exact even.change (poised trivial) (even.uniform.same rfl rfl rfl) rfl fun _ _ _ => id

/-- All tables that are registered on the way are heap tables over stores that are there. -/
def StaysOverHeaps (s : Interleaving) : List Incident → Prop
  | [] => True
  | incident :: rest => incident.OverHeaps s.pool ∧ (s.undergo incident).StaysOverHeaps rest

/-- Somewhere on the way a transaction is rolled back that has the page read again, from a store
with pages of another size than the pool's. -/
def Resized (s : Interleaving) : List Incident → PageId → Prop
  | [], _ => False
  | incident :: rest, page =>
    (∃ txn ending base, incident = .deed (.act (.finish txn ending)) ∧
      s.isSuspended txn = false ∧ ending.rollsBack? s.pool txn = some base ∧
      base.Resizes txn page) ∨ (s.undergo incident).Resized rest page

theorem Even.undergoAll (even : s.Even size odd) {incidents : List Incident}
    (heaps : s.StaysOverHeaps incidents) (resized : ∀ page, s.Resized incidents page → odd page) :
    (s.undergoAll incidents).Even size odd := by
  induction incidents generalizing s with
  | nil => exact even
  | cons incident rest ih =>
    have next : (s.undergo incident).Even size odd :=
      even.undergo heaps.1 fun txn ending base page same free rolls reloads =>
        resized page (Or.inl ⟨txn, ending, base, same, free, rolls, reloads⟩)
    exact ih next heaps.2 fun page later => resized page (Or.inr later)

theorem even_start {pool : Pool} (coherent : pool.Coherent) :
    (start pool).Even pool.config.pageSize odd where
  poised := ⟨coherent.ownership, fun _ listed => absurd listed List.not_mem_nil⟩
  uniform := ⟨coherent.small, rfl, coherent.formed.named, fun page ref held _ =>
    (coherent.filed page ref held).size⟩
  fetching _ listed := absurd listed List.not_mem_nil
  told _ _ _ _ listed := absurd listed List.not_mem_nil

/-- Whatever becomes of the tables, every page that a fetch answers with has the size that the pool
was configured with, and so has every page that is cached, as long as no abort has read it again
from a store with pages of another size. -/
theorem fetched_pages_have_page_size {config : Config} {catalog : Catalog Table}
    {stores : Array Store} {objects : Array Page} {pool : Pool} {reached : Interleaving}
    (created : Pool.create config catalog stores objects = .ok pool) (heaps : pool.OverHeaps)
    (incidents : List Incident) (tables : (start pool).StaysOverHeaps incidents)
    (reaches : (start pool).undergoAll incidents = reached) (page : PageId)
    (regular : ¬(start pool).Resized incidents page) :
    (∀ txn permission p, .answered txn (.fetch page permission) (.ok (.page p)) ∈ reached.log →
      p.id = page ∧ p.size = config.pageSize) ∧
    ∀ ref, reached.pool.cache.peek? page = some ref →
      (reached.pool.object ref).size = config.pageSize := by
  have started : (start pool).Even pool.config.pageSize ((start pool).Resized incidents) :=
    even_start (Pool.coherent_create created heaps)
  have even := started.undergoAll tables fun _ => id
  have same : pool.config = config := by
    obtain ⟨_, rfl⟩ := Pool.create_eq_ok created
    rfl
  rw [reaches, same] at even
  exact ⟨fun txn permission p listed => even.told txn page permission p listed regular,
    fun ref held => even.uniform.sized page ref held regular⟩

/-- A store in memory with one blank page of 128 bytes. -/
def widePage : Store := .reliable (.memory ⟨⟨1⟩, 128, #[Bytes.zeros 128]⟩)

/-- A page is fetched, its table is replaced by one with wider pages, the transaction that has
fetched it ends, and the page is fetched again. -/
def fetchesAround (ending : Ending) : List Incident :=
  [.deed (.act (.call ⟨1⟩ (.fetch ⟨⟨1⟩, 0⟩ .readOnly))), .store widePage,
    .register "b" (HeapTable.table ⟨1⟩ widePage.pageSize ⟨1⟩),
    .deed (.act (.finish ⟨1⟩ ending)), .deed (.act (.call ⟨2⟩ (.fetch ⟨⟨1⟩, 0⟩ .readOnly)))]

/-- After a commit the page is still served as it was loaded. -/
theorem committed_page_keeps_size : ∃ pool,
    Pool.create (Config.sized 2 64) (Catalog.single "a" blankPair.medium) #[blankPair] #[] =
      .ok pool ∧
    (start pool).StaysOverHeaps (fetchesAround .commit) ∧
    ¬(start pool).Resized (fetchesAround .commit) ⟨⟨1⟩, 0⟩ ∧
    ∃ p, .answered ⟨2⟩ (.fetch ⟨⟨1⟩, 0⟩ .readOnly) (.ok (.page p)) ∈
        ((start pool).undergoAll (fetchesAround .commit)).log ∧ p.size = 64 := by
  have created : Pool.create (Config.sized 2 64) (Catalog.single "a" blankPair.medium)
    #[blankPair] #[] = .ok ⟨Config.sized 2 64, Catalog.single "a" blankPair.medium, #[blankPair],
      #[], .empty, .empty, .empty 2⟩ := rfl
  have tables : (start ⟨Config.sized 2 64, Catalog.single "a" blankPair.medium, #[blankPair], #[],
      .empty, .empty, .empty 2⟩).StaysOverHeaps (fetchesAround .commit) :=
    ⟨trivial, trivial, ⟨⟨1⟩, by decide +kernel, congrArg₂ (HeapTable.table · · ⟨1⟩)
      (by decide +kernel) (by decide +kernel)⟩, trivial, trivial, trivial⟩
  have regular : ¬(start ⟨Config.sized 2 64, Catalog.single "a" blankPair.medium, #[blankPair],
      #[], .empty, .empty, .empty 2⟩).Resized (fetchesAround .commit) ⟨⟨1⟩, 0⟩ := by
    rintro (⟨_, _, _, same, _⟩ | ⟨_, _, _, same, _⟩ | ⟨_, _, _, same, _⟩ |
      ⟨_, _, _, same, _, rolls, _⟩ | ⟨_, _, _, same, _⟩ | none)
    · cases same
    · cases same
    · cases same
    · cases same
      cases rolls
    · cases same
    · exact none
  refine ⟨_, created, tables, regular, .clean ⟨⟨1⟩, 0⟩ (Bytes.zeros 64), by decide +kernel, ?_⟩
  exact ((fetched_pages_have_page_size created (Pool.heaps_single created) _ tables rfl ⟨⟨1⟩, 0⟩
    regular).1 ⟨2⟩ .readOnly _ (by decide +kernel)).2

/-- An abort reads the page again from the table that took the place of its own, and the next fetch
answers with a page of 128 bytes in a pool of pages of 64. -/
theorem aborted_page_changes_size : ∃ pool,
    Pool.create (Config.sized 2 64) (Catalog.single "a" blankPair.medium) #[blankPair] #[] =
      .ok pool ∧
    (start pool).StaysOverHeaps (fetchesAround .abort) ∧
    ∃ p, .answered ⟨2⟩ (.fetch ⟨⟨1⟩, 0⟩ .readOnly) (.ok (.page p)) ∈
        ((start pool).undergoAll (fetchesAround .abort)).log ∧ p.size = 128 := by
  refine ⟨⟨Config.sized 2 64, Catalog.single "a" blankPair.medium, #[blankPair], #[], .empty,
    .empty, .empty 2⟩, rfl, ?_, .clean ⟨⟨1⟩, 0⟩ (Bytes.zeros 128), by decide +kernel, ?_⟩
  · exact ⟨trivial, trivial, ⟨⟨1⟩, by decide +kernel, congrArg₂ (HeapTable.table · · ⟨1⟩)
      (by decide +kernel) (by decide +kernel)⟩, trivial, trivial, trivial⟩
  · decide +kernel

end Interleaving

end TransactionalPages
