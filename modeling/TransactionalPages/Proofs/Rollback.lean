import TransactionalPages.Proofs.Formed
import TransactionalPages.Proofs.WaitFor
import TransactionalPages.Proofs.WriteBack

/-!
# Rolling back

An abort goes through the pages that its transaction holds and never stops early.
What becomes of a page depends on the pool as it was found, and on how many pages
of the same table are read again before it: every page that is met leaves the
cache, or goes to the front of the queue, and no page is met twice.
-/

namespace TransactionalPages.Pool

variable {pool base now after : Pool} {txn : TransactionId} {page : PageId} {ref : PageRef}
  {done rest : List PageId}

/-- Whether an abort reads a page again: it is cached, and nobody else has made it dirty. -/
def reloads (pool : Pool) (txn : TransactionId) (page : PageId) : Bool :=
  (pool.cache.peek? page).any fun ref => ownsChanges txn (pool.object ref)

/-- How many of some pages are read again from the store of a table. -/
def reloadCount (pool : Pool) (txn : TransactionId) (table : TableId) (pages : List PageId) : Nat :=
  pages.countP fun page => page.table = table && pool.reloads txn page

/-- Why an abort does not restore a page. Its table is not registered, or the page is read again,
after those of its table that come before it, and that read fails. -/
def restoreError? (pool : Pool) (txn : TransactionId) (page : PageId) : Option PoolError :=
  match pool.catalog.file? page.table with
  | none => some (.unknownTable page.table)
  | some table =>
    let store := pool.store table.store
    let earlier := (pool.locks.pagesHeldBy txn).takeWhile fun q => q ≠ page
    if pool.reloads txn page then
      if store.reads.works (store.reads.made + pool.reloadCount txn page.table earlier) then
        match store.medium.read page with
        | .ok _ => none
        | .error e => some (.storage e)
      else some (.storage (.io .injected))
    else none

/-- Whether a page is still cached when it has been rolled back. -/
def survives (pool : Pool) (txn : TransactionId) (page : PageId) : Bool :=
  (pool.cache.peek? page).isSome && (pool.restoreError? txn page).isNone

theorem reloadCount_append (pool : Pool) (txn : TransactionId) (table : TableId)
    (done : List PageId) (page : PageId) :
    pool.reloadCount txn table (done ++ [page]) =
      pool.reloadCount txn table done +
        if page.table = table ∧ pool.reloads txn page = true then 1 else 0 := by
  simp only [reloadCount]
  rw [List.countP_append, List.countP_singleton]
  simp only [Bool.and_eq_true, decide_eq_true_eq]

theorem reloads_of_cached (held : pool.cache.peek? page = some ref) :
    pool.reloads txn page = ownsChanges txn (pool.object ref) := by
  simp only [reloads]
  rw [held]
  rfl

theorem reloads_of_uncached (absent : pool.cache.peek? page = none) :
    pool.reloads txn page = false := by
  simp only [reloads]
  rw [absent]
  rfl

theorem discard_uncached (absent : pool.cache.peek? page = none) : pool.discard page = pool := by
  have same : pool.cache.remove page = (pool.cache, none) := by
    simp only [Cache.remove]
    rw [absent]
  simp only [discard]
  rw [same]

/-! ## One page -/

/-- The pool once a page has been read again and goes to the front of the queue. -/
def reloaded {κ : Type} [Foreign κ] (pool : Pool κ) (store : StoreRef) (page : PageId)
    (ref : PageRef) (stored : Page) : Pool κ :=
  let read := (pool.readStore store page).1.setObject ref ((pool.object ref).restoreFrom stored)
  { read with cache := read.cache.demote page }

/-- A page is not there, or belongs to someone else, or is read again. -/
theorem restorePage_cases {κ : Type} [Foreign κ] (pool : Pool κ) (txn : TransactionId) (page : PageId) :
    (pool.catalog.file? page.table = none ∧
      pool.restorePage txn page = (pool, .error (.unknownTable page.table))) ∨
    (∃ table, pool.catalog.file? page.table = some table ∧ pool.cache.peek? page = none ∧
      pool.restorePage txn page = (pool, .ok ())) ∨
    (∃ table ref, pool.catalog.file? page.table = some table ∧
      pool.cache.peek? page = some ref ∧ ownsChanges txn (pool.object ref) = false ∧
      pool.restorePage txn page = ({ pool with cache := pool.cache.demote page }, .ok ())) ∨
    (∃ table ref stored, pool.catalog.file? page.table = some table ∧
      pool.cache.peek? page = some ref ∧ ownsChanges txn (pool.object ref) = true ∧
      (pool.readStore table.store page).2 = .ok stored ∧
      pool.restorePage txn page = (pool.reloaded table.store page ref stored, .ok ())) ∨
    (∃ table ref e, pool.catalog.file? page.table = some table ∧
      pool.cache.peek? page = some ref ∧ ownsChanges txn (pool.object ref) = true ∧
      (pool.readStore table.store page).2 = .error e ∧
      pool.restorePage txn page = ((pool.readStore table.store page).1, .error e)) := by
  simp only [restorePage, findTable]
  cases known : pool.catalog.file? page.table with
  | none => exact Or.inl ⟨rfl, rfl⟩
  | some table =>
    right
    dsimp only
    cases held : pool.cache.peek? page with
    | none => exact Or.inl ⟨table, rfl, rfl, rfl⟩
    | some ref =>
      right
      dsimp only
      cases owns : ownsChanges txn (pool.object ref) with
      | false => exact Or.inl ⟨table, ref, rfl, rfl, owns, by simp⟩
      | true =>
        right
        rw [if_pos rfl]
        cases read : pool.readStore table.store page with
        | mk moved answer =>
          have moved_eq : moved = (pool.readStore table.store page).1 := by rw [read]
          cases answer with
          | ok stored =>
            refine Or.inl ⟨table, ref, stored, rfl, rfl, owns, by rw [read], ?_⟩
            simp only [reloaded]
            rw [moved_eq]
            rfl
          | error e => exact Or.inr ⟨table, ref, e, rfl, rfl, owns, by rw [read], by rw [read]⟩

/-- Only the store of the page's own table is read once more. -/
theorem readStore_made (heaps : pool.OverHeaps) {table file : Table} {id : TableId}
    (known : pool.catalog.file? page.table = some table)
    (other : pool.catalog.file? id = some file) :
    ((pool.readStore table.store page).1.store file.store).reads.made =
      (pool.store file.store).reads.made + if page.table = id then 1 else 0 := by
  have inside := (heaps _ _ known).2.1
  show ((pool.setStore table.store _).store file.store).reads.made = _
  rw [store_setStore]
  by_cases same : page.table = id
  · subst same
    cases known.symm.trans other
    rw [if_pos ⟨rfl, inside⟩, if_pos rfl]
    rfl
  · have apart : ¬(file.store = table.store ∧ table.store.index < pool.stores.size) := fun both =>
      same (heaps.apart known other both.1.symm)
    rw [if_neg apart, if_neg same]
    rfl

/-! ## Some of the pages -/

/-- The first pages that a transaction holds have been rolled back, and no other pages. -/
structure Restored (base : Pool) (txn : TransactionId) (done : List PageId) (now : Pool) :
    Prop where
  formed : now.Formed
  control : SameControl base now
  media : SameMedia base now
  reads : ∀ id file, base.catalog.file? id = some file →
    (now.store file.store).reads.made =
      (base.store file.store).reads.made + base.reloadCount txn id done
  cached : ∀ q, now.cache.peek? q =
    if q ∈ done ∧ (base.restoreError? txn q).isSome then none else base.cache.peek? q
  restored : ∀ q ref, q ∈ done → base.cache.peek? q = some ref →
    base.reloads txn q = true → base.restoreError? txn q = none →
    ∃ data, base.stored? q = some data ∧ now.object ref = ⟨q, data, none⟩
  untouched : ∀ q ref, base.cache.peek? q = some ref →
    (q ∈ done → base.reloads txn q = false) → now.object ref = base.object ref
  order : now.cache.order = (done.filter (base.survives txn)).reverse ++
    base.cache.order.filter fun q => q ∉ done

theorem restored_nil (formed : base.Formed) : Restored base txn [] base where
  formed := formed
  control := .refl base
  media := .refl base
  reads id file known := by simp [reloadCount]
  cached q := by simp
  restored q ref here := absurd here List.not_mem_nil
  untouched q ref held _ := rfl
  order := by simp

namespace Restored

/-- The queue once one page more has been taken out of it and, if it survives, put in front. -/
theorem order_next (restored : Restored base txn done now) (formed : base.Formed)
    (fresh : page ∉ done) :
    ((done ++ [page]).filter (base.survives txn)).reverse ++
        base.cache.order.filter (fun q => q ∉ done ++ [page]) =
      if base.survives txn page then page :: now.cache.order.erase page
      else now.cache.order.erase page := by
  have unlisted : page ∉ (done.filter (base.survives txn)).reverse := fun here =>
    fresh (List.mem_of_mem_filter (List.mem_reverse.mp here))
  have taken : (base.cache.order.filter fun q => q ∉ done).erase page =
      base.cache.order.filter fun q => q ∉ done ++ [page] := by
    rw [(formed.cache.distinct.filter _).erase_eq_filter, List.filter_filter]
    refine List.filter_congr fun q _ => ?_
    by_cases same : q = page
    · simp [same]
    · simp [same]
  rw [restored.order, List.erase_append_right _ unlisted, taken, List.filter_append,
    List.filter_singleton]
  cases base.survives txn page with
  | true => simp
  | false => simp

/-- What is left to show when one page more has been dealt with. -/
theorem next (restored : Restored base txn done now) (formed : base.Formed)
    (fresh : page ∉ done) (afterFormed : after.Formed) (control : SameControl now after)
    (media : SameMedia now after)
    (reads : ∀ id file, base.catalog.file? id = some file →
      (after.store file.store).reads.made = (now.store file.store).reads.made +
        if page.table = id ∧ base.reloads txn page = true then 1 else 0)
    (cached : ∀ q, after.cache.peek? q =
      if q = page ∧ (base.restoreError? txn q).isSome then none else now.cache.peek? q)
    (object : ∀ ref, base.cache.peek? page = some ref → base.reloads txn page = true →
      base.restoreError? txn page = none →
      ∃ data, base.stored? page = some data ∧ after.object ref = ⟨page, data, none⟩)
    (others : ∀ ref, (base.cache.peek? page = some ref → base.reloads txn page = false) →
      after.object ref = now.object ref)
    (order : after.cache.order = if base.survives txn page then page :: now.cache.order.erase page
      else now.cache.order.erase page) :
    Restored base txn (done ++ [page]) after where
  formed := afterFormed
  control := restored.control.trans control
  media := restored.media.trans media
  reads id file known := by
    rw [reads id file known, restored.reads id file known, reloadCount_append, Nat.add_assoc]
  cached q := by
    rw [cached, restored.cached]
    by_cases here : q = page
    · subst here
      by_cases lost : (base.restoreError? txn q).isSome
      · simp [lost]
      · simp [lost]
    · simp [here]
  restored q ref met held reload fine := by
    rcases List.mem_append.mp met with before | last
    · obtain ⟨data, stored, same⟩ := restored.restored q ref before held reload fine
      refine ⟨data, stored, (others ref fun here => ?_).trans same⟩
      rw [formed.ref_injective held here] at before
      exact absurd before fresh
    · rw [List.mem_singleton] at last
      subst last
      exact object ref held reload fine
  untouched q ref held spared := by
    refine (others ref fun here => ?_).trans
      (restored.untouched q ref held fun before => spared (List.mem_append_left _ before))
    rw [formed.ref_injective here held]
    exact spared (by rw [formed.ref_injective here held]; simp)
  order := by rw [order, restored.order_next formed fresh]

/-- The pages that a transaction holds are listed once. -/
theorem fresh_of_held (held : base.locks.pagesHeldBy txn = done ++ page :: rest) :
    page ∉ done := by
  have distinct : (done ++ page :: rest).Nodup := by
    rw [← held]
    exact Lookup.nodup_of_ordered (base.locks.pagesHeldBy_ordered txn)
  exact fun here => (List.nodup_append.mp distinct).2.2 page here page List.mem_cons_self rfl

/-- The answer of a read is what was to be expected from the pool as it was found. -/
theorem read_answer (restored : Restored base txn done now)
    (held : base.locks.pagesHeldBy txn = done ++ page :: rest) {table : Table}
    (known : base.catalog.file? page.table = some table) (reload : base.reloads txn page = true) :
    (∀ stored, (now.readStore table.store page).2 = .ok stored →
      base.restoreError? txn page = none ∧ base.stored? page = some stored.data) ∧
    (∀ e, (now.readStore table.store page).2 = .error e →
      base.restoreError? txn page = some e) := by
  have earlier : (base.locks.pagesHeldBy txn).takeWhile (fun q => q ≠ page) = done := by
    rw [held, List.takeWhile_append_of_pos]
    · simp
    · intro q listed
      have apart : q ≠ page := fun same => fresh_of_held held (same ▸ listed)
      simpa using apart
  have passes : (now.store table.store).reads.passes =
      (base.store table.store).reads.works
        ((base.store table.store).reads.made + base.reloadCount txn page.table done) := by
    rw [Outage.passes, restored.media.reads, restored.reads _ _ known]
  have result : (now.readStore table.store page).2 =
      if (base.store table.store).reads.works
          ((base.store table.store).reads.made + base.reloadCount txn page.table done)
      then ((base.store table.store).medium.read page).mapError .storage
      else .error (.storage (.io .injected)) := by
    simp only [readStore, Store.read]
    rw [passes, restored.media.medium]
    split <;> rfl
  simp only [restoreError?]
  rw [result, known]
  dsimp only
  rw [if_pos reload, earlier]
  cases (base.store table.store).reads.works
      ((base.store table.store).reads.made + base.reloadCount txn page.table done) with
  | false =>
    constructor
    · intro stored answer
      cases answer
    · intro e answer
      cases answer
      rfl
  | true =>
    cases read : (base.store table.store).medium.read page with
    | ok p =>
      constructor
      · intro stored answer
        cases answer
        exact ⟨rfl, stored?_of_read known read⟩
      · intro e answer
        cases answer
    | error cause =>
      constructor
      · intro stored answer
        cases answer
      · intro e answer
        cases answer
        rfl

theorem peek?_next (restored : Restored base txn done now) (fresh : page ∉ done) :
    now.cache.peek? page = base.cache.peek? page := by
  rw [restored.cached, if_neg fun both => fresh both.1]

theorem object_next (restored : Restored base txn done now) (fresh : page ∉ done)
    (here : base.cache.peek? page = some ref) : now.object ref = base.object ref :=
  restored.untouched page ref here fun before => absurd before fresh

/-- A page that is not read again has no error but that its table is unknown. -/
theorem error_of_spared {table : Table} (known : base.catalog.file? page.table = some table)
    (spared : base.reloads txn page = false) : base.restoreError? txn page = none := by
  simp only [restoreError?]
  rw [known]
  simp [spared]

/-- A page that is not cached is passed over. -/
theorem skip (restored : Restored base txn done now) (formed : base.Formed)
    (fresh : page ∉ done) (absent : base.cache.peek? page = none) :
    Restored base txn (done ++ [page]) now := by
  have peek := restored.peek?_next fresh
  have unread : base.reloads txn page = false := reloads_of_uncached absent
  have unlisted : page ∉ now.cache.order := fun listed => by
    have cached := (restored.formed.cache.listed page).mp listed
    rw [peek, absent] at cached
    cases cached
  refine restored.next formed fresh restored.formed (.refl now) (.refl now)
    (fun id file known => by simp [unread]) (fun q => ?_)
    (fun ref here => by rw [absent] at here; cases here) (fun _ _ => rfl) ?_
  · by_cases same : q = page
    · subst same
      simp [peek, absent]
    · simp [same]
  · simp [survives, absent, List.erase_of_not_mem unlisted]

/-- A page that someone else made dirty only moves in the queue. -/
theorem spare (restored : Restored base txn done now) (formed : base.Formed)
    (fresh : page ∉ done) {table : Table} (known : base.catalog.file? page.table = some table)
    (here : base.cache.peek? page = some ref)
    (foreign : ownsChanges txn (base.object ref) = false) :
    base.restoreError? txn page = none ∧
      Restored base txn (done ++ [page]) { now with cache := now.cache.demote page } := by
  have spared : base.reloads txn page = false := (reloads_of_cached here).trans foreign
  have fine := error_of_spared known spared
  refine ⟨fine, restored.next formed fresh (restored.formed.demote page) (setCache_control ..)
    (media_of_same rfl rfl rfl) (fun id file _ => ?_) (fun q => ?_)
    (fun _ _ reload => absurd reload (by simp [spared])) (fun _ _ => rfl) ?_⟩
  · have unread : ¬(page.table = id ∧ base.reloads txn page = true) := fun both => by
      rw [spared] at both
      cases both.2
    rw [if_neg unread]
    rfl
  · rw [Cache.demote_peek?, if_neg]
    rintro ⟨rfl, lost⟩
    rw [fine] at lost
    cases lost
  · have survivor : base.survives txn page = true := by simp [survives, here, fine]
    rw [if_pos survivor]
    simp [Cache.demote, Cache.contains_eq, restored.peek?_next fresh, here]

/-- A page that is read again has its stored bytes and is clean. -/
theorem reload (restored : Restored base txn done now) (formed : base.Formed)
    (held : base.locks.pagesHeldBy txn = done ++ page :: rest) {table : Table} {stored : Page}
    (known : base.catalog.file? page.table = some table)
    (here : base.cache.peek? page = some ref) (owns : ownsChanges txn (base.object ref) = true)
    (answer : (now.readStore table.store page).2 = .ok stored) :
    base.restoreError? txn page = none ∧
      Restored base txn (done ++ [page]) (now.reloaded table.store page ref stored) := by
  have fresh := fresh_of_held held
  have peek := restored.peek?_next fresh
  have object := restored.object_next fresh here
  have catalog := restored.control.catalog
  have reload : base.reloads txn page = true := (reloads_of_cached here).trans owns
  obtain ⟨fine, bytes⟩ := (restored.read_answer held known reload).1 stored answer
  have read := now.readStore_sheds table.store page
  have shelved := formed.shelved page ref here
  have inside : ref.index < now.objects.size :=
    (restored.formed.shelved page ref (peek.trans here)).known
  have size : stored.size = (now.object ref).size := by
    obtain ⟨other, known', shelves⟩ := shelved.shelf
    cases known.symm.trans known'
    have readable := readStore_eq_ok answer
    rw [restored.media.medium] at readable
    rw [object, shelved.size]
    exact shelves.size_of_read readable
  have setFormed : ((now.readStore table.store page).1.setObject ref
      ((now.object ref).restoreFrom stored)).Formed :=
    (restored.formed.sheds read).setObject rfl size
  have set : ∀ r, (now.reloaded table.store page ref stored).object r =
      if r = ref ∧ ref.index < now.objects.size then (now.object ref).restoreFrom stored
      else now.object r := fun r => object_setObject ..
  refine ⟨fine, restored.next formed fresh (setFormed.demote page)
    (read.control.trans ⟨rfl, rfl, rfl, rfl⟩) (read.media.trans (media_of_same rfl rfl rfl))
    (fun id file other => ?_) (fun q => ?_) (fun r cached _ _ => ?_) (fun r spared => ?_) ?_⟩
  · rw [← catalog] at known other
    refine Eq.trans (readStore_made restored.formed.heaps known other) ?_
    simp [reload]
  · have kept : (now.reloaded table.store page ref stored).cache.peek? q = now.cache.peek? q :=
      now.cache.demote_peek? page q
    rw [kept, if_neg]
    rintro ⟨rfl, lost⟩
    rw [fine] at lost
    cases lost
  · cases here.symm.trans cached
    refine ⟨stored.data, bytes, ?_⟩
    rw [set, if_pos ⟨rfl, inside⟩, Page.restoreFrom, object, shelved.id]
  · rw [set, if_neg]
    rintro ⟨rfl, _⟩
    rw [spared here] at reload
    cases reload
  · have survivor : base.survives txn page = true := by simp [survives, here, fine]
    rw [if_pos survivor]
    show (now.cache.demote page).order = _
    simp [Cache.demote, Cache.contains_eq, peek, here]

/-- A page that cannot be read again is dropped, and that is no fault. -/
theorem drop (restored : Restored base txn done now) (formed : base.Formed)
    (held : base.locks.pagesHeldBy txn = done ++ page :: rest) {table : Table} {e : PoolError}
    (known : base.catalog.file? page.table = some table)
    (here : base.cache.peek? page = some ref) (owns : ownsChanges txn (base.object ref) = true)
    (answer : (now.readStore table.store page).2 = .error e) :
    base.restoreError? txn page = some e ∧ e.isFault = false ∧
      Restored base txn (done ++ [page]) ((now.readStore table.store page).1.discard page) := by
  have fresh := fresh_of_held held
  have peek := restored.peek?_next fresh
  have catalog := restored.control.catalog
  have reload : base.reloads txn page = true := (reloads_of_cached here).trans owns
  have lost := (restored.read_answer held known reload).2 e answer
  have read := now.readStore_sheds table.store page
  have harmless : e.isFault = false := by
    obtain ⟨other, known', shelves⟩ := (formed.shelved page ref here).shelf
    cases known.symm.trans known'
    rcases now.readStore_result table.store page with reached | ⟨stopped, _⟩
    · rw [reached, restored.media.medium] at answer
      cases refused : (base.store table.store).medium.read page with
      | ok p =>
        rw [refused] at answer
        cases answer
      | error cause =>
        rw [refused] at answer
        cases answer
        obtain ⟨count, rfl⟩ := shelves.read_error refused
        rfl
    · rw [stopped] at answer
      cases answer
      rfl
  refine ⟨lost, harmless, restored.next formed fresh
    ((restored.formed.sheds read).discard page)
    (read.control.trans (discard_control ..)) (read.media.trans (media_of_same rfl rfl rfl))
    (fun id file other => ?_) (fun q => ?_) (fun _ _ _ fine => ?_) (fun _ _ => rfl) ?_⟩
  · rw [← catalog] at known other
    refine Eq.trans (readStore_made restored.formed.heaps known other) ?_
    simp [reload]
  · have gone : ((now.readStore table.store page).1.discard page).cache.peek? q =
        if q = page then none else now.cache.peek? q := now.cache.remove_peek? page q
    rw [gone]
    by_cases same : q = page
    · subst same
      simp [lost]
    · simp [same]
  · rw [lost] at fine
    cases fine
  · have gone : base.survives txn page = false := by simp [survives, lost]
    have removed : (now.cache.remove page).1.order = now.cache.order.erase page := by
      simp [Cache.remove, peek, here]
    rw [gone]
    exact removed

/-- One page more is rolled back, or found to have an error and dropped. -/
theorem step (restored : Restored base txn done now) (formed : base.Formed)
    (held : base.locks.pagesHeldBy txn = done ++ page :: rest) :
    (∃ after, now.restorePage txn page = (after, .ok ()) ∧
      base.restoreError? txn page = none ∧ Restored base txn (done ++ [page]) after) ∨
    (∃ after e, now.restorePage txn page = (after, .error e) ∧
      base.restoreError? txn page = some e ∧ e.isFault = false ∧
      Restored base txn (done ++ [page]) (after.discard page)) := by
  have fresh := fresh_of_held held
  rcases now.restorePage_cases txn page with
    ⟨unknown, eq⟩ | ⟨table, known, absent, eq⟩ | ⟨table, ref, known, here, foreign, eq⟩ |
    ⟨table, ref, stored, known, here, owns, answer, eq⟩ |
    ⟨table, ref, e, known, here, owns, answer, eq⟩
  · rw [restored.control.catalog] at unknown
    have absent : base.cache.peek? page = none := by
      cases cached : base.cache.peek? page with
      | none => rfl
      | some ref =>
        obtain ⟨table, known, _⟩ := (formed.shelved page ref cached).shelf
        rw [unknown] at known
        cases known
    have error : base.restoreError? txn page = some (.unknownTable page.table) := by
      simp only [restoreError?]
      rw [unknown]
    refine Or.inr ⟨now, _, eq, error, rfl, ?_⟩
    rw [discard_uncached ((restored.peek?_next fresh).trans absent)]
    exact restored.skip formed fresh absent
  · rw [restored.control.catalog] at known
    rw [restored.peek?_next fresh] at absent
    exact Or.inl ⟨now, eq, error_of_spared known (reloads_of_uncached absent),
      restored.skip formed fresh absent⟩
  · rw [restored.control.catalog] at known
    rw [restored.peek?_next fresh] at here
    rw [restored.object_next fresh here] at foreign
    exact Or.inl ⟨_, eq, restored.spare formed fresh known here foreign⟩
  · rw [restored.control.catalog] at known
    rw [restored.peek?_next fresh] at here
    rw [restored.object_next fresh here] at owns
    exact Or.inl ⟨_, eq, restored.reload formed held known here owns answer⟩
  · rw [restored.control.catalog] at known
    rw [restored.peek?_next fresh] at here
    rw [restored.object_next fresh here] at owns
    exact Or.inr ⟨_, e, eq, restored.drop formed held known here owns answer⟩

end Restored

/-! ## All of the pages -/

/-- An abort goes through all pages, and meets the errors that were to be expected. -/
theorem Restored.all (restored : Restored base txn done now) (formed : base.Formed)
    (held : base.locks.pagesHeldBy txn = done ++ rest) :
    Restored base txn (done ++ rest) (now.restoreEach txn rest).1 ∧
      (now.restoreEach txn rest).2 = rest.filterMap (base.restoreError? txn) ∧
      ∀ e ∈ rest.filterMap (base.restoreError? txn), e.isFault = false := by
  induction rest generalizing done now with
  | nil =>
    rw [List.append_nil]
    exact ⟨restored, rfl, fun e listed => absurd listed List.not_mem_nil⟩
  | cons page rest ih =>
    have split : base.locks.pagesHeldBy txn = (done ++ [page]) ++ rest := by simp [held]
    rcases restored.step formed held with ⟨after, eq, fine, next⟩ | ⟨after, e, eq, lost, harmless, next⟩
    · obtain ⟨last, errors, faults⟩ := ih next split
      simp only [restoreEach]
      rw [eq, List.filterMap_cons_none fine]
      dsimp only
      refine ⟨?_, errors, faults⟩
      rwa [List.append_assoc, List.singleton_append] at last
    · obtain ⟨last, errors, faults⟩ := ih next split
      simp only [restoreEach]
      rw [eq, List.filterMap_cons_some lost]
      dsimp only
      rw [harmless]
      refine ⟨?_, ?_, fun other listed => ?_⟩
      · rwa [List.append_assoc, List.singleton_append] at last
      · exact congrArg (List.cons e) errors
      · rcases List.mem_cons.mp listed with rfl | later
        · exact harmless
        · exact faults other later

/-- How an abort leaves a pool, and with what answer. -/
structure RolledBack (txn : TransactionId) (before after : Pool)
    (answer : Except PoolError Unit) : Prop where
  media : ∀ ref, (after.store ref).medium = (before.store ref).medium
  restored : ∀ page ref, before.locks.holds txn page → before.cache.peek? page = some ref →
    ownsChanges txn (before.object ref) → before.restoreError? txn page = none →
    after.cache.peek? page = some ref ∧
      ∃ data, before.stored? page = some data ∧ after.object ref = ⟨page, data, none⟩
  lost : ∀ page, before.locks.holds txn page → (before.restoreError? txn page).isSome →
    after.cache.peek? page = none
  foreign : ∀ page ref, before.locks.holds txn page → before.cache.peek? page = some ref →
    ownsChanges txn (before.object ref) = false →
    after.cache.peek? page = some ref ∧ after.object ref = before.object ref
  absent : ∀ page, before.locks.holds txn page → before.cache.peek? page = none →
    after.cache.peek? page = none
  unheld : ∀ page, ¬before.locks.holds txn page →
    after.cache.peek? page = before.cache.peek? page ∧
      ∀ ref, before.cache.peek? page = some ref → after.object ref = before.object ref
  /-- The pages that are kept come first, the last of them in front. -/
  order : ∃ front, after.cache.order =
      front ++ before.cache.order.filter (fun page => !before.locks.holds txn page) ∧
    front.Pairwise (fun p q => compare p q = .gt) ∧
    ∀ page, page ∈ front ↔ before.locks.holds txn page ∧
      (before.cache.peek? page).isSome ∧ before.restoreError? txn page = none
  released : ∀ page, after.locks.mode? txn page = none
  locks : ∀ a page, a ≠ txn → after.locks.mode? a page = before.locks.mode? a page
  unblocked : after.waits.waitsFor txn = []
  waits : ∀ a, a ≠ txn → after.waits.waitsFor a = before.waits.waitsFor a
  answer : answer = match (before.locks.pagesHeldBy txn).findSome? (before.restoreError? txn) with
    | none => .ok ()
    | some e => .error e

/-- An abort that has been through all pages has rolled its transaction back. -/
theorem Restored.rolledBack (formed : pool.Formed) {moved : Pool}
    (restored : Restored pool txn (pool.locks.pagesHeldBy txn) moved)
    {answer : Except PoolError Unit}
    (answered : answer =
      match (pool.locks.pagesHeldBy txn).findSome? (pool.restoreError? txn) with
      | none => .ok ()
      | some e => .error e) : RolledBack txn pool (moved.letGo txn) answer := by
  have listed := LockTable.mem_pagesHeldBy formed.locks txn
  have peek : ∀ q, (moved.letGo txn).cache.peek? q =
      if q ∈ pool.locks.pagesHeldBy txn ∧ (pool.restoreError? txn q).isSome then none
      else pool.cache.peek? q := restored.cached
  have modes : ∀ a page, (moved.letGo txn).locks.mode? a page =
      if a = txn then none else pool.locks.mode? a page := fun a page => by
    show (moved.locks.releaseAll txn).mode? a page = _
    rw [restored.control.locks, LockTable.releaseAll_mode? formed.locks]
  have edges : ∀ a, (moved.letGo txn).waits.waitsFor a =
      if a = txn then [] else pool.waits.waitsFor a := fun a => by
    show (moved.waits.clear txn).waitsFor a = _
    rw [restored.control.waits, WaitForGraph.waitsFor_clear]
  refine ⟨restored.media.medium, fun page ref held cached owns fine => ⟨?_, ?_⟩,
    fun page held lost => ?_, fun page ref held cached foreign => ⟨?_, ?_⟩,
    fun page held absent => ?_, fun page unheld => ⟨?_, fun ref cached => ?_⟩, ?_,
    fun page => by rw [modes, if_pos rfl], fun a page other => by rw [modes, if_neg other],
    by rw [edges, if_pos rfl], fun a other => by rw [edges, if_neg other], answered⟩
  · rw [peek, if_neg, cached]
    rintro ⟨_, lost⟩
    rw [fine] at lost
    cases lost
  · exact restored.restored page ref ((listed page).mpr held) cached
      ((reloads_of_cached cached).trans owns) fine
  · rw [peek, if_pos ⟨(listed page).mpr held, lost⟩]
  · obtain ⟨table, known, _⟩ := (formed.shelved page ref cached).shelf
    have spared : pool.reloads txn page = false := (reloads_of_cached cached).trans foreign
    have fine := Restored.error_of_spared known spared
    rw [peek, if_neg, cached]
    rintro ⟨_, lost⟩
    rw [fine] at lost
    cases lost
  · exact restored.untouched page ref cached fun _ => (reloads_of_cached cached).trans foreign
  · rw [peek, absent, ite_self]
  · rw [peek, if_neg]
    exact fun both => unheld ((listed page).mp both.1)
  · exact restored.untouched page ref cached fun here => absurd ((listed page).mp here) unheld
  · refine ⟨((pool.locks.pagesHeldBy txn).filter (pool.survives txn)).reverse, ?_, ?_,
      fun page => ?_⟩
    · refine restored.order.trans (congrArg _ (List.filter_congr fun q _ => ?_))
      rw [Bool.eq_iff_iff]
      simp [listed q]
    · rw [List.pairwise_reverse]
      refine ((pool.locks.pagesHeldBy_ordered txn).filter _).imp fun {p q} less => ?_
      rw [Std.OrientedOrd.eq_swap, less]
      rfl
    · rw [List.mem_reverse, List.mem_filter, listed]
      simp [survives]

/-- Whatever has been written to the pages, and whichever reads fail, an abort rolls back the
pages of its transaction and no others. -/
theorem Formed.abort (formed : pool.Formed) (txn : TransactionId) :
    (pool.abort txn).1.Formed ∧ RolledBack txn pool (pool.abort txn).1 (pool.abort txn).2 := by
  have held : pool.locks.pagesHeldBy txn = [] ++ pool.locks.pagesHeldBy txn := rfl
  obtain ⟨restored, errors, faults⟩ := (restored_nil formed).all formed held
  rw [List.nil_append] at restored
  have unfaulted : ((pool.locks.pagesHeldBy txn).filterMap (pool.restoreError? txn)).find?
      PoolError.isFault = none :=
    List.find?_eq_none.mpr fun e listed => by simp [faults e listed]
  simp only [Pool.abort]
  rw [errors, unfaulted]
  cases met : (pool.locks.pagesHeldBy txn).filterMap (pool.restoreError? txn) with
  | nil =>
    refine ⟨restored.formed.letGo txn, restored.rolledBack formed ?_⟩
    have first : (pool.locks.pagesHeldBy txn).findSome? (pool.restoreError? txn) = none := by
      rw [← List.head?_filterMap, met]
      rfl
    rw [first]
  | cons e rest =>
    refine ⟨restored.formed.letGo txn, restored.rolledBack formed ?_⟩
    have first : (pool.locks.pagesHeldBy txn).findSome? (pool.restoreError? txn) = some e := by
      rw [← List.head?_filterMap, met]
      rfl
    rw [first]

end TransactionalPages.Pool
