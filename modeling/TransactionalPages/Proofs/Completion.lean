import TransactionalPages.Proofs.Coherence

/-!
# What completing a transaction does to its pages

Writing pages back turns their drafts into what is stored, and rolling them back
forgets their drafts. A commit that succeeds stores every draft of its
transaction and an abort forgets them all; neither touches the pages of others.
-/

namespace TransactionalPages

namespace View

/-- The drafts of some pages are stored. -/
def flush (v : View) (pages : List PageId) : View where
  stored q := if q ∈ pages then ((v.draft q).map Prod.snd).or (v.stored q) else v.stored q
  draft q := if q ∈ pages then none else v.draft q

/-- The drafts of some pages are forgotten. -/
def forget (v : View) (pages : List PageId) : View :=
  { v with draft := fun q => if q ∈ pages then none else v.draft q }

/-- The bytes that a transaction has written to a page. -/
def wrote (v : View) (txn : TransactionId) (page : PageId) : Option Bytes :=
  (v.draft page).bind fun d => if d.1 = txn then some d.2 else none

/-- All drafts of a transaction are stored. -/
def commit (v : View) (txn : TransactionId) : View where
  stored q := (v.wrote txn q).or (v.stored q)
  draft q := if (v.wrote txn q).isSome then none else v.draft q

/-- All drafts of a transaction are forgotten. -/
def abort (v : View) (txn : TransactionId) : View :=
  { v with draft := fun q => if (v.wrote txn q).isSome then none else v.draft q }

theorem wrote_eq_some {v : View} {txn : TransactionId} {page : PageId} {data : Bytes} :
    v.wrote txn page = some data ↔ v.draft page = some (txn, data) := by
  simp only [wrote]
  cases draft : v.draft page with
  | none => simp
  | some d =>
    obtain ⟨owner, bytes⟩ := d
    by_cases mine : owner = txn
    · simp [mine]
    · simp [mine]

/-- When the drafts of a transaction are gone, it has written nothing. -/
theorem wrote_gone_self {v w : View} {txn : TransactionId}
    (gone : w.draft = fun q => if (v.wrote txn q).isSome then none else v.draft q) :
    w.wrote txn = fun _ => none := by
  funext q
  cases written : w.wrote txn q with
  | none => rfl
  | some data =>
    have draft : w.draft q = some (txn, data) := wrote_eq_some.mp written
    rw [gone] at draft
    dsimp only at draft
    split at draft
    · cases draft
    next unwritten => exact absurd (by rw [wrote_eq_some.mpr draft]; rfl) unwritten

/-- When the drafts of a transaction are gone, the others have written what they have. -/
theorem wrote_gone_other {v w : View} {txn a : TransactionId}
    (gone : w.draft = fun q => if (v.wrote txn q).isSome then none else v.draft q)
    (other : a ≠ txn) : w.wrote a = v.wrote a := by
  funext q
  simp only [wrote]
  rw [gone]
  dsimp only
  cases draft : v.draft q with
  | none => simp
  | some d =>
    obtain ⟨owner, bytes⟩ := d
    by_cases mine : owner = txn
    · have apart : owner ≠ a := fun same => other (same.symm.trans mine)
      rw [if_pos (by rw [mine] at draft; rw [wrote_eq_some.mpr draft]; rfl), Option.bind_some,
        if_neg apart]
      rfl
    · have unwritten : v.wrote txn q = none := by
        simp only [wrote]
        rw [draft, Option.bind_some, if_neg mine]
      rw [unwritten]
      rfl

theorem flush_nil (v : View) : v.flush [] = v := by simp [flush]

theorem flush_cons (v : View) (page : PageId) (rest : List PageId) :
    (v.flush [page]).flush rest = v.flush (page :: rest) := by
  simp only [flush]
  simp only [List.mem_cons, List.not_mem_nil, or_false]
  congr 1
  · funext q
    by_cases later : q ∈ rest
    · by_cases here : q = page
      · simp [here]
      · simp [here, later]
    · by_cases here : q = page
      · simp [here]
      · simp [here, later]
  · funext q
    by_cases later : q ∈ rest
    · simp [later]
    · simp [later]

theorem forget_nil (v : View) : v.forget [] = v := by simp [forget]

theorem forget_cons (v : View) (page : PageId) (rest : List PageId) :
    (v.forget [page]).forget rest = v.forget (page :: rest) := by
  simp only [forget]
  simp only [List.mem_cons, List.not_mem_nil, or_false]
  congr 1
  funext q
  by_cases later : q ∈ rest
  · simp [later]
  · simp [later]

end View

namespace Pool

variable {pool after : Pool} {txn : TransactionId} {page : PageId} {ref : PageRef}

/-! ## Writing back -/

/-- The pool once a store has been written. -/
def written (pool : Pool) (store : StoreRef) (medium : Medium) : Pool :=
  pool.setStore store { pool.store store with
    writes := (pool.store store).writes.next, medium := medium }

/-- A write reaches the medium, or changes no medium at all. -/
theorem writeStore_cases (pool : Pool) (ref : StoreRef) (p : Page) :
    (∃ medium, (pool.store ref).medium.write p = .ok medium ∧
      pool.writeStore ref p = (pool.written ref medium, .ok ())) ∨
    (∃ e, ((pool.store ref).writes.passes = false ∨
        (pool.store ref).medium.write p = .error e) ∧
      pool.writeStore ref p = (pool.setStore ref { pool.store ref with
        writes := (pool.store ref).writes.next }, .error (.storage e))) := by
  simp only [writeStore, Store.write]
  cases passes : (pool.store ref).writes.passes with
  | true =>
    cases wrote : (pool.store ref).medium.write p with
    | ok medium => exact Or.inl ⟨medium, rfl, rfl⟩
    | error e =>
      refine Or.inr ⟨e, Or.inr rfl, ?_⟩
      simp only [Medium.refused_eq, if_true]
      rfl
  | false => exact Or.inr ⟨.io .injected, Or.inl rfl, rfl⟩

/-- Why a page is not written back. -/
inductive FlushFailure (pool : Pool) (page : PageId) : Prop where
  | unregistered (unknown : pool.catalog.file? page.table = none)
  | stopped {table : Table} (known : pool.catalog.file? page.table = some table)
    (stopped : (pool.store table.store).writes.passes = false)
  | refused {table : Table} {ref : PageRef} {e : StorageError}
    (known : pool.catalog.file? page.table = some table)
    (held : pool.cache.peek? page = some ref)
    (refused : (pool.store table.store).medium.write (pool.object ref) = .error e)

/-- The bytes of one page change and those of all others stay. -/
theorem stored?_written (heaps : pool.OverHeaps) {table : Table} {old new : Page}
    {medium : Medium} (known : pool.catalog.file? new.id.table = some table)
    (read : (pool.store table.store).medium.read new.id = .ok old)
    (wrote : (pool.store table.store).medium.write new = .ok medium) (q : PageId) :
    (pool.written table.store medium).stored? q =
      if q = new.id then some new.data else pool.stored? q := by
  simp only [written]
  have inside := (heaps _ _ known).2.1
  have reads := Medium.read_write read wrote
  show ((pool.catalog.file? q.table).bind fun f => _) = _
  by_cases here : q = new.id
  · rw [if_pos here, here, known, Option.bind_some, store_setStore, if_pos ⟨rfl, inside⟩]
    show (medium.read new.id).toOption.map Page.data = _
    rw [reads, if_pos rfl]
    rfl
  · rw [if_neg here]
    simp only [stored?]
    cases file : pool.catalog.file? q.table with
    | none => rfl
    | some f =>
      rw [Option.bind_some, Option.bind_some, store_setStore]
      by_cases same : f.store = table.store
      · rw [if_pos ⟨same, inside⟩]
        show (medium.read q).toOption.map Page.data = _
        rw [reads, if_neg here, same]
      · rw [if_neg fun both => same both.1]

/-- The pool once a page is in its store and clean. -/
def flushed (pool : Pool) (store : StoreRef) (ref : PageRef) (medium : Medium) : Pool :=
  (pool.written store medium).setObject ref (pool.object ref).markClean

/-- A page that is no draft is left alone, and one that is gets written, unless that fails. -/
theorem flushPage_cases (pool : Pool) (page : PageId) :
    (pool.draft? page = none ∧ pool.flushPage page = (pool, .ok ())) ∨
    (∃ table ref owner medium, pool.catalog.file? page.table = some table ∧
      pool.cache.peek? page = some ref ∧ (pool.object ref).dirtier = some owner ∧
      (pool.store table.store).medium.write (pool.object ref) = .ok medium ∧
      pool.flushPage page = (pool.flushed table.store ref medium, .ok ())) ∨
    (∃ e after, FlushFailure pool page ∧ Sheds pool after ∧
      pool.flushPage page = (after, .error e)) := by
  simp only [Pool.flushPage, findTable]
  cases known : pool.catalog.file? page.table with
  | none => exact Or.inr (Or.inr ⟨_, pool, .unregistered known, .refl pool, rfl⟩)
  | some table =>
    dsimp only
    cases held : pool.cache.peek? page with
    | none => exact Or.inl ⟨draft?_of_uncached held, rfl⟩
    | some ref =>
      dsimp only
      cases dirty : (pool.object ref).dirtier with
      | none =>
        left
        rw [if_neg (by simp [Page.isDirty, dirty])]
        exact ⟨draft?_of_clean held dirty, rfl⟩
      | some owner =>
        right
        rw [if_pos (by rw [Page.isDirty, dirty]; rfl)]
        rcases pool.writeStore_cases table.store (pool.object ref) with
          ⟨medium, wrote, eq⟩ | ⟨e, cause, eq⟩
        · left
          rw [eq]
          exact ⟨table, ref, owner, medium, rfl, rfl, dirty, wrote, rfl⟩
        · right
          rw [eq]
          refine ⟨_, _, ?_, ?_, rfl⟩
          · rcases cause with stopped | refused
            · exact .stopped known stopped
            · exact .refused known held refused
          · exact sheds_of_same (setStore_control ..) (setStore_media rfl rfl rfl) rfl rfl id
              fun _ => rfl

/-- A page that is backed by its store is written there. -/
theorem Coherent.flush_dirty (coherent : pool.Coherent) {table : Table} {medium : Medium}
    (known : pool.catalog.file? page.table = some table)
    (held : pool.cache.peek? page = some ref)
    (wrote : (pool.store table.store).medium.write (pool.object ref) = .ok medium) :
    (pool.flushed table.store ref medium).Coherent ∧
      SameTables pool (pool.flushed table.store ref medium) ∧
      (pool.flushed table.store ref medium).view =
        { stored := fun q => if q = page then some (pool.object ref).data else pool.stored? q
          draft := fun q => if q = page then none else pool.draft? q } := by
  have filed := coherent.filed page ref held
  obtain ⟨data, there, _, _⟩ := filed.backed
  obtain ⟨table', known', read⟩ := stored?_eq_some.mp there
  cases known.symm.trans known'
  have id : (pool.object ref).id = page := filed.id
  subst id
  obtain ⟨sameTable, samePageSize, countable, tidy⟩ := Medium.table_write read wrote
  have tables : SameTables pool (pool.written table.store medium) :=
    setStore_tables sameTable samePageSize rfl rfl countable tidy
  have bytes := stored?_written coherent.heaps known read wrote
  have middle : (pool.written table.store medium).Coherent := by
    refine coherent.setStore tables fun q r filedQ => ?_
    show ∃ bytes, (pool.written table.store medium).stored? q = some bytes ∧ _
    rw [bytes]
    by_cases here : q = (pool.object ref).id
    · rw [if_pos here]
      subst here
      cases held.symm.trans filedQ
      exact ⟨_, rfl, filed.size, fun _ => rfl⟩
    · rw [if_neg here]
      exact (coherent.filed q r filedQ).backed
  obtain ⟨done, sameStored, drafts⟩ := middle.setObject held (pool.object ref).markClean rfl
    filed.size (fun _ => by rw [bytes, if_pos rfl]; rfl) (fun _ dirty => by cases dirty)
  refine ⟨done, tables.trans (setObject_media ..).toSameTables, ?_⟩
  simp only [flushed, view]
  rw [sameStored]
  congr 1
  · funext q
    exact bytes q
  · funext q
    exact drafts q

/-- A page is written back and is clean then, or it is left alone. -/
theorem Coherent.flushPage (coherent : pool.Coherent) (page : PageId) :
    (pool.flushPage page).1.Coherent ∧ SameTables pool (pool.flushPage page).1 ∧
      (((pool.flushPage page).2 = .ok () ∧ (pool.flushPage page).1.view = pool.view.flush [page]) ∨
        (FlushFailure pool page ∧ (pool.flushPage page).2 ≠ .ok () ∧
          (pool.flushPage page).1.view = pool.view)) := by
  have untouched : pool.draft? page = none → pool.view.flush [page] = pool.view := by
    intro clean
    simp only [view, View.flush]
    simp only [List.mem_singleton]
    congr 1
    · funext q
      by_cases here : q = page
      · simp [here, clean]
      · simp [here]
    · funext q
      by_cases here : q = page
      · simp [here, clean]
      · simp [here]
  rcases pool.flushPage_cases page with
    ⟨undrafted, eq⟩ | ⟨table, ref, owner, medium, known, held, dirty, wrote, eq⟩ |
      ⟨e, after, failure, sheds, eq⟩
  · rw [eq]
    exact ⟨coherent, .refl pool, Or.inl ⟨rfl, (untouched undrafted).symm⟩⟩
  · rw [eq]
    obtain ⟨done, tables, view⟩ := coherent.flush_dirty known held wrote
    refine ⟨done, tables, Or.inl ⟨rfl, view.trans ?_⟩⟩
    have draft : pool.draft? page = some (owner, (pool.object ref).data) :=
      draft?_eq_some.mpr ⟨ref, held, dirty, rfl⟩
    simp only [Pool.view, View.flush]
    simp only [List.mem_singleton]
    congr 1
    funext q
    by_cases here : q = page
    · simp [here, draft]
    · simp [here]
  · rw [eq]
    exact ⟨coherent.sheds sheds, sheds.media.toSameTables,
      Or.inr ⟨failure, by simp, sheds.view⟩⟩

theorem Coherent.flushEach (coherent : pool.Coherent) (pages : List PageId) :
    (pool.flushEach pages).1.Coherent ∧ SameTables pool (pool.flushEach pages).1 ∧
      ((pool.flushEach pages).2 = .ok () →
        (pool.flushEach pages).1.view = pool.view.flush pages) := by
  induction pages generalizing pool with
  | nil => exact ⟨coherent, .refl pool, fun _ => (View.flush_nil _).symm⟩
  | cons page rest ih =>
    obtain ⟨first, tables, outcome⟩ := coherent.flushPage page
    cases went : (pool.flushPage page).2 with
    | error e =>
      rw [flushEach_cons_error went]
      exact ⟨first, tables, fun ended => by cases ended⟩
    | ok _ =>
      obtain ⟨done, later, view⟩ := ih first
      rw [flushEach_cons went]
      refine ⟨done, tables.trans later, fun ended => ?_⟩
      rcases outcome with ⟨_, here⟩ | ⟨_, failed, _⟩
      · rw [view ended, here, View.flush_cons]
      · exact absurd went failed

theorem Coherent.flushCached (coherent : pool.Coherent) (cached : List (PageId × PageRef)) :
    (pool.flushCached cached).1.Coherent ∧ SameTables pool (pool.flushCached cached).1 :=
  flushCached_keeps (P := fun mid => mid.Coherent ∧ SameTables pool mid) (fun mid page here => by
    obtain ⟨done, tables, _⟩ := here.1.flushPage page
    exact ⟨done, here.2.trans tables⟩) cached ⟨coherent, .refl pool⟩

/-- What every writing back of a page does to a coherent pool, writing back many of them does. -/
theorem Coherent.flushEach_all {R : Pool → Pool → Prop} (refl : ∀ p, R p p)
    (trans : ∀ {a b c}, R a b → R b c → R a c)
    (one : ∀ (p : Pool) page, p.Coherent → R p (p.flushPage page).1) (coherent : pool.Coherent)
    (pages : List PageId) : R pool (pool.flushEach pages).1 :=
  (flushEach_keeps (P := fun mid => mid.Coherent ∧ R pool mid) (fun mid page here =>
    ⟨(here.1.flushPage page).1, trans here.2 (one mid page here.1)⟩) pages
      ⟨coherent, refl pool⟩).2

theorem Coherent.flushCached_all {R : Pool → Pool → Prop} (refl : ∀ p, R p p)
    (trans : ∀ {a b c}, R a b → R b c → R a c)
    (one : ∀ (p : Pool) page, p.Coherent → R p (p.flushPage page).1) (coherent : pool.Coherent)
    (cached : List (PageId × PageRef)) : R pool (pool.flushCached cached).1 :=
  (flushCached_keeps (P := fun mid => mid.Coherent ∧ R pool mid) (fun mid page here =>
    ⟨(here.1.flushPage page).1, trans here.2 (one mid page here.1)⟩) cached
      ⟨coherent, refl pool⟩).2

/-- Only a transaction that holds a page exclusively has a draft of it. -/
theorem Coherent.owner_of_holds (coherent : pool.Coherent) (held : pool.locks.holds txn page)
    {owner : TransactionId} {data : Bytes} (draft : pool.draft? page = some (owner, data)) :
    owner = txn :=
  (coherent.locks.alone page owner txn (coherent.owner draft) held).symm

theorem Coherent.wrote_iff (coherent : pool.Coherent) :
    page ∈ pool.locks.pagesHeldBy txn ∧ (pool.draft? page).isSome ↔
      (pool.view.wrote txn page).isSome := by
  rw [LockTable.mem_pagesHeldBy coherent.locks]
  constructor
  · rintro ⟨held, drafted⟩
    obtain ⟨⟨owner, data⟩, draft⟩ := Option.isSome_iff_exists.mp drafted
    cases coherent.owner_of_holds held draft
    rw [View.wrote_eq_some.mpr draft]
    rfl
  · intro written
    obtain ⟨data, wrote⟩ := Option.isSome_iff_exists.mp written
    have draft : pool.draft? page = some (txn, data) := View.wrote_eq_some.mp wrote
    exact ⟨coherent.owner_holds draft, by rw [draft]; rfl⟩

theorem Coherent.wrote_eq (coherent : pool.Coherent) (held : page ∈ pool.locks.pagesHeldBy txn) :
    pool.view.wrote txn page = (pool.draft? page).map Prod.snd := by
  rw [LockTable.mem_pagesHeldBy coherent.locks] at held
  simp only [View.wrote]
  show (pool.draft? page).bind _ = _
  cases draft : pool.draft? page with
  | none => rfl
  | some d =>
    obtain ⟨owner, data⟩ := d
    cases coherent.owner_of_holds held draft
    simp

theorem Coherent.flush_held (coherent : pool.Coherent) (txn : TransactionId) :
    pool.view.flush (pool.locks.pagesHeldBy txn) = pool.view.commit txn := by
  simp only [View.flush, View.commit]
  congr 1
  · funext q
    by_cases held : q ∈ pool.locks.pagesHeldBy txn
    · rw [if_pos held, coherent.wrote_eq held]
      rfl
    · have none : pool.view.wrote txn q = none :=
        Option.not_isSome_iff_eq_none.mp fun written => held (coherent.wrote_iff.mpr written).1
      rw [if_neg held, none, Option.none_or]
  · funext q
    by_cases held : q ∈ pool.locks.pagesHeldBy txn
    · rw [if_pos held, coherent.wrote_eq held]
      cases draft : pool.draft? q with
      | none => simp [view, draft]
      | some d => simp
    · have none : pool.view.wrote txn q = none :=
        Option.not_isSome_iff_eq_none.mp fun written => held (coherent.wrote_iff.mpr written).1
      rw [if_neg held, none]
      rfl

/-- A commit stores the drafts of its transaction and lets it go, or it fails. -/
theorem Coherent.commit (coherent : pool.Coherent) (txn : TransactionId) :
    (pool.commit txn).1.Coherent ∧ SameTables pool (pool.commit txn).1 ∧
      ((pool.commit txn).2 = .ok () → (pool.commit txn).1.view = pool.view.commit txn) := by
  obtain ⟨flushed, tables, view⟩ := coherent.flushEach (pool.locks.pagesHeldBy txn)
  simp only [Pool.commit, flushPages]
  cases outcome : pool.flushEach (pool.locks.pagesHeldBy txn) with
  | mk moved answer =>
    rw [outcome] at flushed tables view
    cases answer with
    | error e => exact ⟨flushed, tables, fun ended => by cases ended⟩
    | ok _ =>
      have stored : moved.view = pool.view.commit txn :=
        (view rfl).trans (coherent.flush_held txn)
      refine ⟨flushed.letGo fun page bytes draft => ?_, tables.trans ?_, fun _ => stored⟩
      · have none : moved.draft? page = if (pool.view.wrote txn page).isSome then none
            else pool.draft? page := congrFun (congrArg View.draft stored) page
        rw [none] at draft
        split at draft
        · cases draft
        next unwritten =>
          exact unwritten (by rw [View.wrote_eq_some.mpr draft]; rfl)
      · exact (letGo_media moved txn).toSameTables

/-! ## Rolling back -/

theorem forget_clean (clean : pool.draft? page = none) : pool.view.forget [page] = pool.view := by
  simp only [view, View.forget]
  simp only [List.mem_singleton]
  congr 1
  funext q
  by_cases here : q = page
  · simp [here, clean]
  · simp [here]

theorem demote_sheds {κ : Type} [Foreign κ] (pool : Pool κ) (page : PageId) :
    Sheds pool { pool with cache := pool.cache.demote page } :=
  sheds_of_same (setCache_control ..) (media_of_same rfl rfl rfl) rfl
    (by simp only [Cache.demote]; split <;> rfl) (fun sound => sound.demote page)
    (pool.cache.demote_peek? page)

theorem Coherent.demote (coherent : pool.Coherent) (page : PageId) :
    ({ pool with cache := pool.cache.demote page } : Pool).Coherent ∧
      ({ pool with cache := pool.cache.demote page } : Pool).view = pool.view :=
  ⟨coherent.sheds (pool.demote_sheds page), (pool.demote_sheds page).view⟩

theorem Coherent.discard (coherent : pool.Coherent) (page : PageId) :
    (pool.discard page).Coherent ∧ (pool.discard page).view = pool.view.forget [page] := by
  constructor
  · refine ⟨coherent.locks, coherent.small, coherent.heaps,
      (Cache.remove_capacity ..).trans coherent.capacity, coherent.cache.remove page,
      fun q ref held => ?_⟩
    have filed := coherent.filed q ref (Cache.peek?_of_remove held)
    exact ⟨filed.known, filed.id, filed.size, filed.backed, filed.owned⟩
  · simp only [view, View.forget]
    congr 1
    funext q
    show ((pool.cache.remove page).1.peek? q).bind _ = _
    rw [Cache.remove_peek?]
    by_cases here : q = page
    · simp [here]
    · simp only [if_neg here, List.mem_singleton]
      rfl

/-- A cached page that gets its stored bytes back is no draft any more. -/
theorem Coherent.restore_object (coherent : pool.Coherent)
    (held : pool.cache.peek? page = some ref) {data : Bytes}
    (stored : pool.stored? page = some data) (whole : data.size = pool.config.pageSize) :
    let restored := pool.setObject ref ((pool.object ref).restoreFrom (.clean page data))
    let demoted := { restored with cache := restored.cache.demote page }
    demoted.Coherent ∧ SameMedia pool demoted ∧ demoted.view = pool.view.forget [page] := by
  intro restored demoted
  have filed := coherent.filed page ref held
  obtain ⟨done, sameStored, drafts⟩ := coherent.setObject held
    ((pool.object ref).restoreFrom (.clean page data)) filed.id whole (fun _ => stored)
    fun _ dirty => by cases dirty
  obtain ⟨last, sameView⟩ := done.demote page
  have media : SameMedia pool restored := setObject_media ..
  refine ⟨last, media.trans (media_of_same rfl rfl rfl), sameView.trans ?_⟩
  simp only [view, View.forget]
  rw [sameStored]
  congr 1
  funext q
  rw [drafts]
  simp only [List.mem_singleton]
  rfl

/-- A cached page is reloaded from its store, which has it. -/
theorem Coherent.restorePage (coherent : pool.Coherent)
    (mine : ∀ owner data, pool.draft? page = some (owner, data) → owner = txn) :
    (pool.restorePage txn page).1.Coherent ∧ SameMedia pool (pool.restorePage txn page).1 ∧
      (((pool.restorePage txn page).2 = .ok () ∧
          (pool.restorePage txn page).1.view = pool.view.forget [page]) ∨
        (∃ e, (pool.restorePage txn page).2 = .error e ∧ e.isFault = false ∧
          (pool.restorePage txn page).1.view = pool.view)) := by
  simp only [Pool.restorePage, findTable]
  cases known : pool.catalog.file? page.table with
  | none => exact ⟨coherent, .refl pool, Or.inr ⟨_, rfl, rfl, rfl⟩⟩
  | some table =>
    dsimp only
    cases held : pool.cache.peek? page with
    | none =>
      have undrafted := draft?_of_uncached held
      exact ⟨coherent, .refl pool, Or.inl ⟨rfl, (forget_clean undrafted).symm⟩⟩
    | some ref =>
      dsimp only
      have filed := coherent.filed page ref held
      obtain ⟨data, stored, whole, _⟩ := filed.backed
      obtain ⟨table', known', readable⟩ := stored?_eq_some.mp stored
      cases known.symm.trans known'
      have owns : ownsChanges txn (pool.object ref) = true := by
        simp only [ownsChanges]
        cases dirty : (pool.object ref).dirtier with
        | none => rfl
        | some owner =>
          have same := mine owner _ (draft?_eq_some.mpr ⟨ref, held, dirty, rfl⟩)
          simp [same]
      rw [if_pos owns]
      have sheds := readStore_sheds pool table.store page
      have result := pool.readStore_result table.store page
      rw [readable] at result
      cases read : pool.readStore table.store page with
      | mk moved answer =>
        rw [read] at sheds result
        rcases result with reached | ⟨stopped, _⟩
        · have answered : answer = .ok (.clean page data) := reached
          subst answered
          dsimp only
          have heldMoved : moved.cache.peek? page = some ref :=
            (congrArg (fun r => r.1.cache.peek? page) read.symm).trans held
          have storedMoved : moved.stored? page = some data := by rw [sheds.stored?, stored]
          have wholeMoved : data.size = moved.config.pageSize := by
            rw [show moved.config = pool.config from sheds.control.config]
            exact whole
          obtain ⟨restored, media, view⟩ :=
            (coherent.sheds sheds).restore_object heldMoved storedMoved wholeMoved
          refine ⟨restored, sheds.media.trans media, Or.inl ⟨rfl, view.trans ?_⟩⟩
          rw [show moved.view = pool.view from sheds.view]
        · have answered : answer = .error (.storage (.io .injected)) := stopped
          subst answered
          exact ⟨coherent.sheds sheds, sheds.media, Or.inr ⟨_, rfl, rfl, sheds.view⟩⟩

/-- All pages are rolled back, and no fault is met on the way. -/
theorem Coherent.restoreEach (coherent : pool.Coherent) (pages : List PageId)
    (mine : ∀ page ∈ pages, ∀ owner data, pool.draft? page = some (owner, data) → owner = txn) :
    (pool.restoreEach txn pages).1.Coherent ∧ SameMedia pool (pool.restoreEach txn pages).1 ∧
      (pool.restoreEach txn pages).1.view = pool.view.forget pages ∧
      ∀ e ∈ (pool.restoreEach txn pages).2, e.isFault = false := by
  induction pages generalizing pool with
  | nil =>
    exact ⟨coherent, .refl pool, (View.forget_nil _).symm, fun e he => absurd he List.not_mem_nil⟩
  | cons page rest ih =>
    obtain ⟨first, media, outcome⟩ := coherent.restorePage (mine page List.mem_cons_self)
    -- forgetting one draft leaves the others with their owners
    have later : ∀ next : Pool, next.view = pool.view.forget [page] →
        ∀ q ∈ rest, ∀ owner data, next.draft? q = some (owner, data) → owner = txn := by
      intro next view q hq owner data draft
      have forgotten : next.draft? q = if q ∈ [page] then none else pool.draft? q :=
        congrFun (congrArg View.draft view) q
      rw [forgotten] at draft
      split at draft
      · cases draft
      · exact mine q (List.mem_cons_of_mem _ hq) owner data draft
    simp only [Pool.restoreEach]
    cases restored : pool.restorePage txn page with
    | mk moved answer =>
      rw [restored] at first media outcome
      rcases outcome with ⟨ended, view⟩ | ⟨e, failed, harmless, view⟩
      · have answered : answer = .ok () := ended
        subst answered
        obtain ⟨done, laterMedia, rest, faults⟩ := ih first (later moved view)
        refine ⟨done, media.trans laterMedia, ?_, faults⟩
        rw [rest, view, View.forget_cons]
      · have answered : answer = .error e := failed
        subst answered
        obtain ⟨dropped, dropView⟩ := first.discard page
        have viewDropped : (moved.discard page).view = pool.view.forget [page] := by
          rw [dropView]
          exact congrArg (View.forget · [page]) view
        obtain ⟨done, laterMedia, rest, faults⟩ := ih dropped (later _ viewDropped)
        simp only [harmless, Bool.false_eq_true, if_false]
        have droppedMedia : SameMedia moved (moved.discard page) := media_of_same rfl rfl rfl
        refine ⟨done, (media.trans droppedMedia).trans laterMedia, ?_, ?_⟩
        · rw [rest, viewDropped, View.forget_cons]
        · intro other listed
          rcases List.mem_cons.mp listed with rfl | listed
          · exact harmless
          · exact faults other listed

theorem Coherent.forget_held (coherent : pool.Coherent) (txn : TransactionId) :
    pool.view.forget (pool.locks.pagesHeldBy txn) = pool.view.abort txn := by
  simp only [View.forget, View.abort]
  congr 1
  funext q
  by_cases held : q ∈ pool.locks.pagesHeldBy txn
  · rw [if_pos held, coherent.wrote_eq held]
    cases draft : pool.draft? q with
    | none => simp [view, draft]
    | some d => simp
  · have none : pool.view.wrote txn q = none :=
      Option.not_isSome_iff_eq_none.mp fun written => held (coherent.wrote_iff.mpr written).1
    rw [if_neg held, none]
    rfl

/-- An abort forgets the drafts of its transaction and lets it go, whatever it reports. -/
theorem Coherent.abort (coherent : pool.Coherent) (txn : TransactionId) :
    (pool.abort txn).1.Coherent ∧ SameMedia pool (pool.abort txn).1 ∧
      (pool.abort txn).1.view = pool.view.abort txn ∧
      (pool.abort txn).1.locks = pool.locks.releaseAll txn ∧
      ∀ e, (pool.abort txn).2 = .error e → e.isFault = false := by
  have mine : ∀ page ∈ pool.locks.pagesHeldBy txn, ∀ owner data,
      pool.draft? page = some (owner, data) → owner = txn := fun page held owner data draft =>
    coherent.owner_of_holds ((LockTable.mem_pagesHeldBy coherent.locks txn page).mp held) draft
  obtain ⟨restored, media, view, faults⟩ := coherent.restoreEach _ mine
  have control := restoreEach_control txn (pool.locks.pagesHeldBy txn) pool
  rw [coherent.forget_held] at view
  simp only [Pool.abort]
  cases outcome : pool.restoreEach txn (pool.locks.pagesHeldBy txn) with
  | mk moved errors =>
    rw [outcome] at restored media view faults control
    have unfaulted : errors.find? PoolError.isFault = none :=
      List.find?_eq_none.mpr fun e he => by simp [faults e he]
    have gone : (moved.letGo txn).Coherent := restored.letGo fun page bytes draft => by
      have aborted : moved.draft? page = if (pool.view.wrote txn page).isSome then none
          else pool.draft? page := congrFun (congrArg View.draft view) page
      rw [aborted] at draft
      split at draft
      · cases draft
      next unwritten => exact unwritten (by rw [View.wrote_eq_some.mpr draft]; rfl)
    have locks : (moved.letGo txn).locks = pool.locks.releaseAll txn := by
      show moved.locks.releaseAll txn = _
      rw [control.locks]
    simp only [unfaulted]
    cases errors with
    | nil =>
      exact ⟨gone, media.trans (letGo_media ..), view, locks, fun e he => by cases he⟩
    | cons e rest =>
      refine ⟨gone, media.trans (letGo_media ..), view, locks, fun other he => ?_⟩
      cases he
      exact faults e List.mem_cons_self

end Pool

end TransactionalPages
