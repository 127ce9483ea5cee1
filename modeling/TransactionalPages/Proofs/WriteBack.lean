import TransactionalPages.Proofs.Access
import TransactionalPages.Proofs.Dependable

/-!
# What a commit writes

A commit writes the drafts of its transaction to the media of their stores, in
the order of their pages. Hence two pools with the same media, in which a
transaction has the same drafts, have the same media after its commit, whatever
else they have locked or cached. Pages that the transaction has not written are
served as before.
-/

namespace TransactionalPages

namespace Medium

/-- Only the name and the bytes of a page are written. -/
theorem write_congr {p q : Page} (id : p.id = q.id) (data : p.data = q.data) (m : Medium) :
    m.write p = m.write q := by
  have size : p.size = q.size := by
    simp only [Page.size]
    rw [data]
  cases m with
  | memory s =>
    simp only [write, MemoryStore.write]
    simp only [id, data, size]
  | file s =>
    simp only [write, FileStore.write]
    simp only [id, data, size]
  | foreign s => exact s.elim

end Medium

/-- The media of all stores. -/
abbrev Media := StoreRef → Medium

namespace Media

/-- Writes a page to the store of its table, if that accepts it. -/
def put (catalog : Catalog Table) (media : Media) (page : PageId) (data : Bytes) : Media :=
  match catalog.file? page.table with
  | none => media
  | some table => fun ref =>
    if ref = table.store then
      match (media ref).write (.clean page data) with
      | .ok medium => medium
      | .error _ => media ref
    else media ref

/-- Writes those of some pages that have new bytes, in order. -/
def putEach (catalog : Catalog Table) (wrote : PageId → Option Bytes) : List PageId → Media → Media
  | [], media => media
  | page :: rest, media =>
    match wrote page with
    | none => putEach catalog wrote rest media
    | some data => putEach catalog wrote rest (media.put catalog page data)

variable {catalog : Catalog Table} {wrote other : PageId → Option Bytes}

theorem putEach_congr {pages : List PageId} (same : ∀ page ∈ pages, wrote page = other page)
    (media : Media) : media.putEach catalog wrote pages = media.putEach catalog other pages := by
  induction pages generalizing media with
  | nil => rfl
  | cons page rest ih =>
    have later := ih fun q listed => same q (List.mem_cons_of_mem _ listed)
    rw [putEach, putEach, same page List.mem_cons_self]
    cases other page with
    | none => exact later _
    | some data => exact later _

theorem putEach_filter (pages : List PageId) (media : Media) :
    media.putEach catalog wrote (pages.filter fun page => (wrote page).isSome) =
      media.putEach catalog wrote pages := by
  induction pages generalizing media with
  | nil => rfl
  | cons page rest ih =>
    cases written : wrote page with
    | none =>
      rw [List.filter_cons_of_neg (by simp [written]), putEach, written]
      exact ih media
    | some data =>
      rw [List.filter_cons_of_pos (by simp [written]), putEach, putEach, written]
      exact ih _

/-- The store of the table of a page has that page. -/
def Has (catalog : Catalog Table) (media : Media) (page : PageId) : Prop :=
  ∃ table old, catalog.file? page.table = some table ∧ (media table.store).read page = .ok old

variable {media : Media} {page q : PageId}

/-- Putting a page leaves what can be read of the others, and the page can still be read. -/
theorem Has.put_read (has : media.Has catalog page) (data : Bytes) (q : PageId) (ref : StoreRef) :
    ((media.put catalog page data) ref).read q = (media ref).read q ∨
      (q = page ∧ ∃ new, ((media.put catalog page data) ref).read q = .ok new) := by
  obtain ⟨table, old, known, readable⟩ := has
  simp only [put]
  rw [known]
  by_cases here : ref = table.store
  · subst here
    simp only [if_true]
    cases wrote : (media table.store).write (.clean page data) with
    | error e => exact Or.inl rfl
    | ok medium =>
      have reads : medium.read q = if q = page then .ok (.clean q data)
          else (media table.store).read q := Medium.read_write readable wrote q
      by_cases same : q = page
      · rw [if_pos same] at reads
        exact Or.inr ⟨same, _, reads⟩
      · rw [if_neg same] at reads
        exact Or.inl reads
  · left
    dsimp only
    rw [if_neg here]

theorem Has.put (has : media.Has catalog page) (data : Bytes) (other : media.Has catalog q) :
    (media.put catalog page data).Has catalog q := by
  obtain ⟨table, old, known, readable⟩ := other
  rcases has.put_read data q table.store with same | ⟨_, new, there⟩
  · exact ⟨table, old, known, same.trans readable⟩
  · exact ⟨table, new, known, there⟩

theorem putEach_read {pages : List PageId}
    (has : ∀ page ∈ pages, (wrote page).isSome → media.Has catalog page)
    (unwritten : wrote q = none) (ref : StoreRef) :
    ((media.putEach catalog wrote pages) ref).read q = (media ref).read q := by
  induction pages generalizing media with
  | nil => rfl
  | cons page rest ih =>
    have later : ∀ p ∈ rest, (wrote p).isSome → media.Has catalog p :=
      fun p listed => has p (List.mem_cons_of_mem _ listed)
    rw [putEach]
    cases written : wrote page with
    | none => exact ih later
    | some data =>
      have here : media.Has catalog page := has page List.mem_cons_self (by rw [written]; rfl)
      refine (ih fun p listed drafted => here.put data (later p listed drafted)).trans ?_
      rcases here.put_read data q ref with same | ⟨same, _⟩
      · exact same
      · rw [same, written] at unwritten
        cases unwritten

end Media

namespace LockTable

theorem pagesHeldBy_ordered (t : LockTable) (txn : TransactionId) :
    (t.pagesHeldBy txn).Pairwise fun p q => compare p q = .lt :=
  Std.TreeSet.ordered_toList

end LockTable

namespace Pool

variable {pool mid other : Pool} {txn : TransactionId} {page : PageId}

def media (pool : Pool) : Media := fun ref => (pool.store ref).medium

theorem media_setStore (heaps : pool.OverHeaps) {table : Table}
    (known : pool.catalog.file? page.table = some table) (store : Store) :
    (pool.setStore table.store store).media =
      fun ref => if ref = table.store then store.medium else pool.media ref := by
  have inside := (heaps _ _ known).2.1
  funext ref
  show ((pool.setStore table.store store).store ref).medium = _
  rw [store_setStore]
  by_cases here : ref = table.store
  · rw [if_pos ⟨here, inside⟩, if_pos here]
  · rw [if_neg fun both => here both.1, if_neg here]
    rfl

/-- Writing a page back puts its draft into the media. -/
theorem Coherent.flushPage_media (coherent : pool.Coherent)
    (done : (pool.flushPage page).2 = .ok ()) :
    (pool.flushPage page).1.media =
      match pool.draft? page with
      | none => pool.media
      | some draft => pool.media.put pool.catalog page draft.2 := by
  rcases pool.flushPage_cases page with
    ⟨undrafted, eq⟩ | ⟨table, ref, owner, medium, known, held, dirty, wrote, eq⟩ |
      ⟨e, after, _, _, eq⟩
  · rw [eq, undrafted]
  · have draft : pool.draft? page = some (owner, (pool.object ref).data) :=
      draft?_eq_some.mpr ⟨ref, held, dirty, rfl⟩
    have id : (Page.clean page (pool.object ref).data).id = (pool.object ref).id :=
      (coherent.filed page ref held).id.symm
    have data : (Page.clean page (pool.object ref).data).data = (pool.object ref).data := rfl
    have put : (pool.media table.store).write (.clean page (pool.object ref).data) = .ok medium :=
      (Medium.write_congr id data _).trans wrote
    rw [eq, draft]
    show (pool.setStore table.store _).media = _
    rw [media_setStore coherent.heaps known]
    simp only [Media.put]
    rw [known]
    funext here
    by_cases same : here = table.store
    · subst same
      simp only [if_true, put]
    · simp only [if_neg same]
  · rw [eq] at done
    cases done

theorem Coherent.flushEach_media (coherent : pool.Coherent) {pages : List PageId}
    (distinct : pages.Nodup) (done : (pool.flushEach pages).2 = .ok ()) :
    (pool.flushEach pages).1.media =
      pool.media.putEach pool.catalog (fun page => (pool.draft? page).map Prod.snd) pages := by
  induction pages generalizing pool with
  | nil => rfl
  | cons page rest ih =>
    obtain ⟨missing, restDistinct⟩ := List.nodup_cons.mp distinct
    obtain ⟨moved, tables, outcome⟩ := coherent.flushPage page
    obtain ⟨here, others⟩ := flushEach_cons_ok done
    rcases outcome with ⟨_, view⟩ | ⟨_, failed, _⟩
    · have drafts : ∀ q ∈ rest, ((pool.flushPage page).1.draft? q).map Prod.snd =
          (pool.draft? q).map Prod.snd := by
        intro q listed
        have forgotten : (pool.flushPage page).1.draft? q =
            if q ∈ [page] then none else pool.draft? q := congrFun (congrArg View.draft view) q
        rw [forgotten, if_neg]
        intro same
        rw [List.mem_singleton.mp same] at listed
        exact missing listed
      rw [flushEach_cons here, ih moved restDistinct others, tables.catalog,
        Media.putEach_congr drafts, coherent.flushPage_media here, Media.putEach]
      cases pool.draft? page <;> rfl
    · exact absurd here failed

/-- A commit puts what its transaction has written into the media, page by page. -/
theorem Coherent.commit_media (coherent : pool.Coherent) (done : (pool.commit txn).2 = .ok ()) :
    (pool.commit txn).1.media =
      pool.media.putEach pool.catalog (pool.view.wrote txn) (pool.locks.pagesHeldBy txn) := by
  have distinct := Lookup.nodup_of_ordered (pool.locks.pagesHeldBy_ordered txn)
  have flushed := coherent.flushEach_media distinct
  simp only [Pool.commit, flushPages] at done ⊢
  cases outcome : pool.flushEach (pool.locks.pagesHeldBy txn) with
  | mk moved answer =>
    rw [outcome] at done flushed
    cases answer with
    | error e => cases done
    | ok _ =>
      show moved.media = _
      rw [show moved.media = _ from flushed rfl]
      exact Media.putEach_congr (fun page listed => (coherent.wrote_eq listed).symm) _

/-- A commit leaves the pages that its transaction has not written. -/
theorem Coherent.commit_served (coherent : pool.Coherent) (done : (pool.commit txn).2 = .ok ())
    (unwritten : pool.view.wrote txn page = none) :
    (pool.commit txn).1.served page = pool.served page := by
  have tables := (coherent.commit txn).2.1
  refine served_congr tables.config tables.catalog fun ref => ?_
  show ((pool.commit txn).1.media ref).read page = (pool.media ref).read page
  rw [coherent.commit_media done]
  refine Media.putEach_read (fun q _ written => ?_) unwritten ref
  obtain ⟨data, wrote⟩ := Option.isSome_iff_exists.mp written
  obtain ⟨there, held, _⟩ := draft?_eq_some.mp (View.wrote_eq_some.mp wrote)
  obtain ⟨old, stored, _⟩ := (coherent.filed q there held).backed
  obtain ⟨table, known, readable⟩ := stored?_eq_some.mp stored
  exact ⟨table, _, known, readable⟩

/-- The same drafts make the same media of the same media. -/
theorem Coherent.commit_media_congr (coherent : pool.Coherent) (otherCoherent : other.Coherent)
    (done : (pool.commit txn).2 = .ok ()) (otherDone : (other.commit txn).2 = .ok ())
    (catalog : other.catalog = pool.catalog) (media : other.media = pool.media)
    (wrote : other.view.wrote txn = pool.view.wrote txn) :
    (other.commit txn).1.media = (pool.commit txn).1.media := by
  rw [coherent.commit_media done, otherCoherent.commit_media otherDone, catalog, media, wrote,
    ← Media.putEach_filter (other.locks.pagesHeldBy txn),
    ← Media.putEach_filter (pool.locks.pagesHeldBy txn)]
  congr 1
  refine Lookup.eq_of_ordered ((other.locks.pagesHeldBy_ordered txn).filter _)
    ((pool.locks.pagesHeldBy_ordered txn).filter _) fun page => ?_
  rw [List.mem_filter, List.mem_filter]
  constructor
  · rintro ⟨_, written⟩
    exact ⟨(coherent.wrote_iff.mpr written).1, written⟩
  · rintro ⟨_, written⟩
    refine ⟨(otherCoherent.wrote_iff.mpr ?_).1, written⟩
    rw [wrote]
    exact written

end Pool

end TransactionalPages
