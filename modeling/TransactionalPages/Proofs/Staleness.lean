import TransactionalPages.Proofs.PageSize
import TransactionalPages.Proofs.PartialCommit

/-!
# Stale pages

A clean page in the cache should say what its store says at its place. Nothing that
a transaction does on its own makes a page stale: what is loaded is what was read,
what is changed is tagged, and what loses its tag has been written. It takes someone
who writes to a page through a reference and does not tag it, or takes the tag off,
or a change of the tables, after which the page has another store. Otherwise a page
can only become stale in a file that is cut at the end of what can be counted, or if
it has become larger than pages are.
-/

namespace TransactionalPages

namespace Pool

variable {pool base before mid after : Pool} {txn : TransactionId} {page : PageId} {ref : PageRef}
  {excused : PageId → Prop}

/-- A page is clean in the cache, and its store says something else at its place. -/
def Stale (pool : Pool) (page : PageId) : Prop :=
  ∃ ref, pool.cache.peek? page = some ref ∧ (pool.object ref).dirtier = none ∧
    pool.block? page ≠ some (pool.object ref).data

/-- No page has become stale, except for those that are excused. -/
def KeepsFresh (excused : PageId → Prop) (before after : Pool) : Prop :=
  ∀ page, after.Stale page → before.Stale page ∨ excused page

namespace KeepsFresh

theorem refl (pool : Pool) : KeepsFresh excused pool pool := fun _ => Or.inl

theorem trans {a b c : Pool} (first : KeepsFresh excused a b) (second : KeepsFresh excused b c) :
    KeepsFresh excused a c :=
  fun page stale => (second page stale).elim (first page) Or.inr

/-- Pages stay fresh if what their stores have at their places stays, and those that are cached
and clean then have been so before, or say what their stores say. -/
theorem evolve (blocks : ∀ page data, ¬excused page → before.block? page = some data →
      after.block? page = some data)
    (cached : ∀ page ref, ¬excused page → after.cache.peek? page = some ref →
      (after.object ref).dirtier = none →
      (before.cache.peek? page = some ref ∧ after.object ref = before.object ref) ∨
        after.block? page = some (after.object ref).data) :
    KeepsFresh excused before after := by
  rintro page ⟨ref, held, clean, differs⟩
  refine Classical.or_iff_not_imp_right.mpr fun strict => ?_
  rcases cached page ref strict held clean with ⟨old, same⟩ | agrees
  · rw [same] at clean differs
    exact ⟨ref, old, clean, fun agreed => differs (blocks page _ strict agreed)⟩
  · exact absurd agrees differs

end KeepsFresh

theorem block?_congr (catalog : after.catalog = before.catalog)
    (medium : ∀ store, (after.store store).medium = (before.store store).medium) :
    after.block? page = before.block? page := by
  simp only [block?, catalog, medium]

theorem block?_of_known {table : Table} (known : pool.catalog.file? page.table = some table) :
    pool.block? page = (pool.store table.store).medium.block? page.index := by
  rw [block?, known, Option.bind_some]

theorem Sheds.keepsFresh (sheds : Sheds before after) : KeepsFresh excused before after :=
  .evolve
    (fun _ _ _ there => (block?_congr sheds.control.catalog sheds.media.medium).trans there)
    fun _ ref _ held _ => Or.inl ⟨sheds.peek? held, sheds.object ref⟩

/-- A page object may become anything that is dirty, or as the store has it. -/
theorem setObject_keepsFresh {new : Page}
    (fits : ∀ page, ¬excused page → pool.cache.peek? page = some ref → new.dirtier = none →
      new = pool.object ref ∨ pool.block? page = some new.data) :
    KeepsFresh excused pool (pool.setObject ref new) := by
  refine .evolve (fun _ _ _ there => there) fun page r strict held clean => ?_
  rw [object_setObject] at clean ⊢
  split at clean
  next here =>
    rw [if_pos here]
    obtain ⟨rfl, _⟩ := here
    exact (fits page strict held clean).imp (fun same => ⟨held, same⟩) id
  next other =>
    rw [if_neg other]
    exact Or.inl ⟨held, rfl⟩

theorem discard_keepsFresh (pool : Pool) (page : PageId) :
    KeepsFresh excused pool (pool.discard page) :=
  .evolve (fun _ _ _ there => there) fun _ _ _ held _ => Or.inl ⟨Cache.peek?_of_remove held, rfl⟩

theorem Named.load_keepsFresh (named : pool.Named) (page : PageId) :
    KeepsFresh excused pool (pool.load page).1 := by
  rcases pool.load_cases page with
    ⟨_, after, _, sheds, _, eq⟩ | ⟨_, after, _, sheds, _, eq⟩ |
    ⟨table, stored, mid, _, known, read, _, sheds, _, eq⟩
  · rw [eq]
    exact sheds.keepsFresh
  · rw [eq]
    exact sheds.keepsFresh
  · rw [eq]
    have blocks : ∀ q, mid.block? q = pool.block? q := fun _ =>
      block?_congr sheds.control.catalog sheds.media.medium
    refine .evolve (fun q _ _ there => (blocks q).trans there) fun q ref _ held _ => ?_
    rw [fileLoaded_peek?] at held
    split at held
    next here =>
      cases held
      subst here
      right
      rw [fileLoaded_object, if_pos rfl]
      refine (blocks q).trans ?_
      rw [block?_of_known known]
      exact Medium.block?_of_read read
    next =>
      have old := sheds.peek? held
      refine Or.inl ⟨old, ?_⟩
      rw [fileLoaded_object, if_neg, sheds.object]
      rw [sheds.objects]
      exact Nat.ne_of_lt (named q ref old).1

/-! ## Turns -/

/-- The store of the table of a page has more pages than can be counted. -/
def Uncounted (pool : Pool) (page : PageId) : Prop :=
  ∃ table, pool.catalog.file? page.table = some table ∧
    ¬(pool.store table.store).medium.Countable

/-- A cached page has not the size that pages should have. -/
def Outsized (pool : Pool) (page : PageId) : Prop :=
  ∃ ref, pool.cache.peek? page = some ref ∧ (pool.object ref).size ≠ pool.config.pageSize

/-- All pages but those that are outsized have the size that they should have. -/
theorem Uniform.outsized {size : Nat} {odd : PageId → Prop} (uniform : pool.Uniform size odd) :
    pool.Uniform size pool.Outsized := by
  refine ⟨uniform.small, uniform.config, uniform.named, fun page ref held even => ?_⟩
  refine Classical.byContradiction fun differs => even ⟨ref, held, ?_⟩
  rwa [uniform.config]

theorem SameTables.uncounted (tables : SameTables before after) (many : after.Uncounted page) :
    before.Uncounted page := by
  obtain ⟨table, known, many⟩ := many
  exact ⟨table, by rwa [← tables.catalog], fun countable => many (tables.countable _ countable)⟩

theorem Drift.tables (drift : Drift txn base after) : SameTables base after := by
  induction drift with
  | start => exact .refl base
  | ask _ page mode waited ih =>
    exact ih.trans (requestLock_media _ txn page mode waited).toSameTables
  | load _ page ih => exact ih.trans (load_media _ page).toSameTables
  | @release mid _ page _ ih =>
    have media : SameMedia mid (mid.releaseLock txn page) := media_of_same rfl rfl rfl
    exact ih.trans media.toSameTables
  | count _ store ih => exact ih.trans (countPages_media _ store).toSameTables
  | allocate _ store ih => exact ih.trans (allocatePage_tables _ store)
  | spoil _ _ _ _ ih => exact ih.trans (setObject_media ..).toSameTables

theorem allocatePage_block? (store : StoreRef) (countable : ¬pool.Uncounted page) {data : Bytes}
    (there : pool.block? page = some data) :
    (pool.allocatePage store).1.block? page = some data := by
  obtain ⟨table, known, found⟩ := block?_eq_some.mp there
  have countable : (pool.store table.store).medium.Countable :=
    Classical.byContradiction fun many => countable ⟨table, known, many⟩
  refine block?_eq_some.mpr ⟨table, known, ?_⟩
  rw [allocatePage_eq, store_setStore]
  split
  next here =>
    rw [here.1] at countable found
    rcases allocate_medium (pool.store store) with same | grown
    · rwa [same]
    · rw [grown]
      exact Medium.block?_allocate countable found
  next => exact found

/-- What an operation does before it changes a page makes no page stale, unless there is something
odd about that page already. -/
theorem Drift.keepsFresh (drift : Drift txn base after) {size : Nat} {odd : PageId → Prop}
    (uniform : base.Uniform size odd) :
    KeepsFresh (fun page => base.Uncounted page ∨ base.Outsized page) base after := by
  induction drift with
  | start => exact .refl base
  | @ask mid _ page mode waited ih =>
    refine ih.trans ?_
    rcases mid.requestLock_cases txn page mode waited with ⟨_, _, eq⟩ | ⟨_, _, eq⟩ | ⟨_, _, eq⟩
    · rw [eq]
      exact .refl mid
    · rw [eq]
      exact .refl mid
    · rw [eq]
      exact .refl mid
  | load drift page ih => exact ih.trans ((uniform.drift drift).named.load_keepsFresh page)
  | @release mid _ _ _ ih => exact ih.trans (.refl mid)
  | count _ store ih => exact ih.trans (countPages_sheds _ store).keepsFresh
  | allocate drift store ih =>
    refine ih.trans (.evolve (fun page _ strict there => ?_) fun _ _ _ held _ => Or.inl ⟨held, rfl⟩)
    exact allocatePage_block? store (fun many => strict (Or.inl (drift.tables.uncounted many))) there
  | @spoil mid drift page ref held large new ih =>
    have moved := uniform.outsized.drift drift
    refine ih.trans (setObject_keepsFresh fun q strict cached _ => absurd large (Nat.not_lt.mpr ?_))
    -- only an outsized page can be that large
    have whole : (mid.object ref).data.size = size :=
      moved.sized q ref cached fun outsized => strict (Or.inr outsized)
    exact whole ▸ moved.small

theorem Uniform.finished_keepsFresh {size : Nat} {odd : PageId → Prop}
    (uniform : base.Uniform size odd) {op : Operation} {catalog : Catalog Table}
    {result : Pool × Progress Answer} (course : Course txn (op.purpose catalog) base result) :
    KeepsFresh (fun page => base.Uncounted page ∨ base.Outsized page) base
      (finish txn result).1 := by
  cases course with
  | waits drift => exact drift.keepsFresh uniform
  | fails drift => exact drift.keepsFresh uniform
  | answers drift reads =>
    rw [finish_answer reads.1]
    exact drift.keepsFresh uniform
  | @writes mid page ref new drift held =>
    obtain ⟨known, name⟩ := (uniform.drift drift).named page ref held
    have ended : finish txn _ = _ := finish_edited known name held new
    show KeepsFresh _ base (finish txn (_, .done (.ok (.changed [ref])))).1
    rw [ended]
    have edited : KeepsFresh (fun page => base.Uncounted page ∨ base.Outsized page) mid
        (mid.setObject ref { mid.object ref with data := new, dirtier := some txn }) :=
      setObject_keepsFresh fun _ _ _ clean => by cases clean
    refine ((drift.keepsFresh uniform).trans edited).trans ?_
    exact Sheds.keepsFresh (toBack_sheds held)

/-! ## Endings -/

/-- What has been written back is as its store says, and no other place has changed that had
anything. -/
theorem WritesBack.keepsFresh {among : PageId → Prop} (writes : WritesBack among before after)
    (named : before.Named) (heaps : before.OverHeaps) : KeepsFresh excused before after := by
  rintro page ⟨ref, held, clean, differs⟩
  rw [writes.cache] at held
  have data := writes.bytes ref
  have untagged : (before.object ref).dirtier = none := by
    by_cases here : among page
    · cases tag : (before.object ref).dirtier with
      | none => rfl
      | some owner =>
        have dirty : (before.object ref).isDirty = true := by rw [Page.isDirty, tag]; rfl
        exact absurd (data ▸ writes.forced page ref here held dirty) differs
    · rwa [writes.object_of_not_among named here held] at clean
  refine Or.inl ⟨ref, held, untagged, fun agreed => differs ?_⟩
  obtain ⟨table, known, there⟩ := block?_eq_some.mp agreed
  refine block?_eq_some.mpr ⟨table, by rwa [writes.control.catalog], ?_⟩
  rw [data]
  refine writes.kept _ _ _ (fun p _ due index => ?_) there
  obtain rfl := heaps.due_eq index due known rfl
  exact due.1 (by rw [dirtier?_of_cached held, untagged])

theorem Named.flushPage_keepsFresh (named : pool.Named) (heaps : pool.OverHeaps) (page : PageId) :
    KeepsFresh excused pool (pool.flushPage page).1 := by
  cases flushed : pool.flushPage page with
  | mk moved outcome =>
    cases outcome with
    | error _ => exact (flushPage_sheds flushed).1.keepsFresh
    | ok _ =>
      have writes := flushPage_writesBack named heaps (congrArg Prod.snd flushed)
      rw [flushed] at writes
      exact writes.keepsFresh named heaps

/-- Pages have faded, and none has become stale, except for those that are excused. -/
structure FadesFresh (excused : PageId → Prop) (before after : Pool) : Prop where
  fades : Fades before after
  fresh : KeepsFresh excused before after

theorem FadesFresh.refl (pool : Pool) : FadesFresh excused pool pool := ⟨.refl pool, .refl pool⟩

theorem FadesFresh.flushPage (kept : FadesFresh excused before mid) (named : before.Named)
    (heaps : before.OverHeaps) (page : PageId) :
    FadesFresh excused before (mid.flushPage page).1 :=
  ⟨kept.fades.trans (mid.flushPage_fades page), kept.fresh.trans
    ((kept.fades.named named).flushPage_keepsFresh (heaps.congr kept.fades.stores) page)⟩

theorem Named.flushEach_keepsFresh (named : pool.Named) (heaps : pool.OverHeaps)
    (pages : List PageId) : KeepsFresh excused pool (pool.flushEach pages).1 :=
  (flushEach_keeps (P := FadesFresh excused pool)
    (fun _ page kept => kept.flushPage named heaps page) pages (.refl pool)).fresh

theorem Named.flushCached_keepsFresh (named : pool.Named) (heaps : pool.OverHeaps)
    (cached : List (PageId × PageRef)) : KeepsFresh excused pool (pool.flushCached cached).1 :=
  (flushCached_keeps (P := FadesFresh excused pool)
    (fun _ page kept => kept.flushPage named heaps page) cached (.refl pool)).fresh

theorem Named.commit_keepsFresh (named : pool.Named) (heaps : pool.OverHeaps)
    (txn : TransactionId) : KeepsFresh excused pool (pool.commit txn).1 := by
  have flushed : KeepsFresh excused pool (pool.flushPages txn).1 :=
    named.flushEach_keepsFresh heaps _
  simp only [Pool.commit]
  cases done : pool.flushPages txn with
  | mk moved answer =>
    rw [done] at flushed
    cases answer with
    | error e => exact flushed
    | ok _ => exact flushed.trans (.refl moved)

theorem Named.restorePage_keepsFresh (named : pool.Named) (txn : TransactionId) (page : PageId) :
    KeepsFresh excused pool (pool.restorePage txn page).1 := by
  rcases pool.restorePage_cases txn page with
    ⟨_, eq⟩ | ⟨_, _, _, eq⟩ | ⟨_, _, _, _, _, eq⟩ |
    ⟨table, ref, stored, known, held, _, read, eq⟩ | ⟨table, _, _, _, _, _, _, eq⟩
  · rw [eq]
    exact .refl pool
  · rw [eq]
    exact .refl pool
  · rw [eq]
    exact (pool.demote_sheds page).keepsFresh
  · rw [eq]
    have sheds := pool.readStore_sheds table.store page
    have restored : KeepsFresh excused (pool.readStore table.store page).1
        ((pool.readStore table.store page).1.setObject ref
          ((pool.object ref).restoreFrom stored)) := by
      refine setObject_keepsFresh fun q _ cached _ => Or.inr ?_
      obtain rfl : q = page := by
        rw [← (named q ref cached).2, (named page ref held).2]
      have there := Medium.block?_of_read (readStore_eq_ok read)
      refine (block?_congr sheds.control.catalog sheds.media.medium).trans ?_
      rw [block?_of_known known, there]
      rfl
    exact (sheds.keepsFresh.trans restored).trans (demote_sheds _ page).keepsFresh
  · rw [eq]
    exact (pool.readStore_sheds table.store page).keepsFresh

theorem Named.restoreEach_keepsFresh (named : pool.Named) (txn : TransactionId)
    (pages : List PageId) : KeepsFresh excused pool (pool.restoreEach txn pages).1 := by
  induction pages generalizing pool with
  | nil => exact .refl pool
  | cons page rest ih =>
    have first : KeepsFresh excused pool (pool.restorePage txn page).1 :=
      named.restorePage_keepsFresh txn page
    have still := (pool.restorePage_fades txn page).named named
    simp only [Pool.restoreEach]
    cases restored : pool.restorePage txn page with
    | mk mid answer =>
      rw [restored] at first still
      cases answer with
      | ok _ => exact first.trans (ih still)
      | error e =>
        dsimp only
        split
        · exact first
        · exact (first.trans (mid.discard_keepsFresh page)).trans
            (ih ((mid.discard_fades page).named still))

theorem Named.abort_keepsFresh (named : pool.Named) (txn : TransactionId) :
    KeepsFresh excused pool (pool.abort txn).1 := by
  have restored : KeepsFresh excused pool
      (pool.restoreEach txn (pool.locks.pagesHeldBy txn)).1 :=
    named.restoreEach_keepsFresh txn _
  simp only [Pool.abort]
  split
  · exact restored
  · exact restored.trans (.refl _)
  · exact restored.trans (.refl _)

theorem Uniform.ending_keepsFresh {size : Nat} {odd : PageId → Prop}
    (uniform : pool.Uniform size odd) (heaps : pool.OverHeaps) (txn : TransactionId)
    (ending : Ending) : KeepsFresh excused pool (ending.run pool txn).1 := by
  rcases ending_pool pool txn ending with eq | eq | eq
  · rw [eq]
    exact uniform.named.commit_keepsFresh heaps txn
  · rw [eq]
    exact uniform.named.abort_keepsFresh txn
  · rw [eq]
    exact (uniform.named.commit_keepsFresh heaps txn).trans
      ((uniform.commit txn).named.abort_keepsFresh txn)

end Pool

namespace Interleaving

variable {s : Interleaving} {page : PageId} {size : Nat} {odd : PageId → Prop}

/-- What can part a page from what its store says at its place. -/
inductive Parts (s : Interleaving) (page : PageId) : Incident → Prop where
  /-- The page was written to while it was clean, and was not tagged for it. -/
  | written {ref : PageRef} (held : s.pool.cache.peek? page = some ref)
    (clean : (s.pool.object ref).isDirty = false) (start : Nat) (new : Bytes) :
    Parts s page (.deed (.write ref start new))
  /-- The tag was taken off the page by hand. -/
  | untagged {ref : PageRef} (held : s.pool.cache.peek? page = some ref)
    (dirty : (s.pool.object ref).isDirty = true) : Parts s page (.deed (.mark ref none))
  /-- The page has another table, or none, or one that it did not have. -/
  | retabled {incident : Incident} (differs : (s.undergo incident).pool.catalog.file? page.table ≠
      s.pool.catalog.file? page.table) : Parts s page incident
  /-- An operation took a turn while the store had more pages than can be counted. -/
  | uncounted {action : Action} {call : Call} (takes : s.call? action = some call)
    (many : s.pool.Uncounted page) : Parts s page (.deed (.act action))
  /-- An operation took a turn while the page had not the size that pages should have. -/
  | outsized {action : Action} {call : Call} (takes : s.call? action = some call)
    (large : s.pool.Outsized page) : Parts s page (.deed (.act action))

/-- Somewhere on the way the page was parted from what its store says, and whatever happened then
has not brought the two together. -/
def Parted (s : Interleaving) (incidents : List Incident) (page : PageId) : Prop :=
  ∃ done incident rest, incidents = done ++ incident :: rest ∧
    (s.undergoAll done).Parts page incident ∧
    ∀ more, more <+: rest → (s.undergoAll (done ++ incident :: more)).pool.Stale page

theorem Poised.course {strayed : TransactionId → PageId → Prop} (poised : s.Poised strayed)
    {action : Action} {call : Call} (takes : s.call? action = some call) : ∃ catalog,
      Course call.txn (call.op.purpose catalog) s.pool
        (s.pool.proceed call.txn call.waited call.program) := by
  cases action with
  | call txn op =>
    simp only [call?] at takes
    split at takes
    · cases takes
    · cases takes
      refine ⟨s.pool.catalog, ?_⟩
      rw [Pool.proceed_run]
      have heaps := poised.owned.heaps
      exact (Operation.orderly heaps op).course (Operation.purpose_placed heaps op).suits .start
        fun page here => absurd here (by simp)
  | retry txn =>
    simp only [call?] at takes
    cases found : s.suspended.find? fun r => r.txn = txn with
    | none =>
      rw [found] at takes
      cases takes
    | some r =>
      rw [found] at takes
      cases takes
      obtain ⟨listed, same⟩ := mem_of_found found
      obtain ⟨catalog, pending, placed⟩ := poised.pending r listed
      rw [same] at pending
      exact ⟨catalog, pending.course placed.suits⟩
  | flush txn => cases takes
  | flushAll cached => cases takes
  | finish txn ending => cases takes

theorem Even.step_keepsFresh (even : s.Even size odd) (action : Action) :
    Pool.KeepsFresh (fun page => s.Parts page (.deed (.act action))) s.pool
      (s.step action).pool := by
  have named := even.uniform.named
  have heaps := even.poised.owned.heaps
  cases takes : s.call? action with
  | some call =>
    obtain ⟨catalog, course⟩ := even.poised.course takes
    rw [step_call takes, settle_pool]
    intro page stale
    rcases even.uniform.finished_keepsFresh course page stale with before | many | large
    · exact Or.inl before
    · exact Or.inr (.uncounted takes many)
    · exact Or.inr (.outsized takes large)
  | none =>
    cases action with
    | call txn op =>
      simp only [call?] at takes
      split at takes
      next waits =>
        rw [Interleaving.step, if_pos waits]
        exact .refl _
      next => cases takes
    | retry txn =>
      simp only [call?, Option.map_eq_none_iff] at takes
      simp only [Interleaving.step, takes]
      exact .refl _
    | flush txn =>
      rw [Interleaving.step]
      split
      · exact .refl _
      · exact named.flushEach_keepsFresh heaps _
    | flushAll cached =>
      rw [Interleaving.step]
      split
      · exact named.flushCached_keepsFresh heaps _
      · exact .refl _
    | finish txn ending =>
      rw [Interleaving.step]
      split
      · exact .refl _
      · exact even.uniform.ending_keepsFresh heaps txn ending

theorem undergo_store_keepsFresh (heaps : s.pool.OverHeaps) (store : Store)
    {excused : PageId → Prop} :
    Pool.KeepsFresh excused s.pool (s.undergo (.store store)).pool := by
  refine .evolve (fun page data _ there => ?_) fun _ _ _ held _ => Or.inl ⟨held, rfl⟩
  obtain ⟨table, known, found⟩ := Pool.block?_eq_some.mp there
  refine Pool.block?_eq_some.mpr ⟨table, known, ?_⟩
  show ((s.pool.addStore store).1.store table.store).medium.block? page.index = _
  rw [Pool.store_addStore, if_neg (Nat.ne_of_lt (heaps _ _ known).2.1)]
  exact found

/-- The stores and the pages are as they were, so that a page which has kept its table is in line
with its store if it was. -/
theorem recatalog_keepsFresh {incident : Incident} {catalog : Catalog Table}
    (changes : (s.undergo incident).pool = { s.pool with catalog := catalog }) :
    Pool.KeepsFresh (fun page => s.Parts page incident) s.pool (s.undergo incident).pool := by
  have blocks : ∀ page, ¬s.Parts page incident →
      (s.undergo incident).pool.block? page = s.pool.block? page := by
    intro page strict
    have same := Classical.byContradiction fun differs => strict (.retabled differs)
    rw [Pool.block?, same, changes]
    rfl
  refine .evolve (fun page _ strict there => (blocks page strict).trans there) ?_
  intro page ref _ held _
  rw [changes] at held ⊢
  exact Or.inl ⟨held, rfl⟩

/-- One incident makes a page stale only if it parts it from its store. -/
theorem Even.undergo_keepsFresh (even : s.Even size odd) (incident : Incident) :
    Pool.KeepsFresh (fun page => s.Parts page incident) s.pool (s.undergo incident).pool := by
  cases incident with
  | deed deed =>
    cases deed with
    | act action => exact even.step_keepsFresh action
    | write ref start new =>
      simp only [Interleaving.undergo, Interleaving.handle]
      split
      next written wrote =>
        refine Pool.setObject_keepsFresh fun page strict held clean => absurd ?_ strict
        have tag : written.dirtier = (s.pool.object ref).dirtier := by
          simp only [Page.overwrite?] at wrote
          split at wrote
          · cases wrote
            rfl
          · cases wrote
        exact .written held (by rw [Page.isDirty, ← tag, clean]; rfl) start new
      next => exact .refl _
    | mark ref dirtier =>
      refine Pool.setObject_keepsFresh fun page strict held clean => Or.inl ?_
      obtain rfl : dirtier = none := clean
      cases tag : (s.pool.object ref).dirtier with
      | none => rw [← tag]
      | some owner => exact absurd (.untagged held (by rw [Page.isDirty, tag]; rfl)) strict
    | release txn page => exact .refl _
    | discard page => exact s.pool.discard_keepsFresh page
  | store store => exact undergo_store_keepsFresh even.poised.owned.heaps store
  | register name table => exact recatalog_keepsFresh rfl
  | remove table => exact recatalog_keepsFresh rfl

theorem undergoAll_concat (s : Interleaving) (incidents : List Incident) (incident : Incident) :
    s.undergoAll (incidents ++ [incident]) = (s.undergoAll incidents).undergo incident := by
  simp only [undergoAll, List.foldl_append, List.foldl_cons, List.foldl_nil]

theorem staysOverHeaps_append {first second : List Incident} :
    s.StaysOverHeaps (first ++ second) ↔
      s.StaysOverHeaps first ∧ (s.undergoAll first).StaysOverHeaps second := by
  induction first generalizing s with
  | nil => exact (iff_of_eq (true_and _)).symm
  | cons incident rest ih => exact (and_congr_right fun _ => ih).trans and_assoc.symm

theorem Parted.concat {incidents : List Incident} {incident : Incident}
    (parted : s.Parted incidents page)
    (stale : (s.undergoAll (incidents ++ [incident])).pool.Stale page) :
    s.Parted (incidents ++ [incident]) page := by
  obtain ⟨done, first, rest, rfl, parts, since⟩ := parted
  refine ⟨done, first, rest ++ [incident], by simp, parts, fun more before => ?_⟩
  rcases List.prefix_concat_iff.mp before with rfl | within
  · simpa using stale
  · exact since more within

/-- A page that is stale in the end has been so from the beginning, or has been parted from its
store on the way. -/
theorem Even.stale_parted (even : s.Even size fun _ => True) {incidents : List Incident}
    (heaps : s.StaysOverHeaps incidents) (stale : (s.undergoAll incidents).pool.Stale page) :
    s.pool.Stale page ∨ s.Parted incidents page := by
  induction incidents using List.reverseRecOn with
  | nil => exact Or.inl stale
  | append_singleton incidents incident ih =>
    obtain ⟨earlier, last⟩ := staysOverHeaps_append.mp heaps
    have reached := even.undergoAll earlier fun _ _ => trivial
    have now := stale
    rw [undergoAll_concat] at now
    rcases reached.undergo_keepsFresh incident page now with before | parts
    · exact (ih earlier before).imp id fun parted => parted.concat stale
    · refine Or.inr ⟨incidents, incident, [], rfl, parts, fun more before => ?_⟩
      rwa [List.prefix_nil.mp before]

end Interleaving

end TransactionalPages
