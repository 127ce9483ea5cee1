import TransactionalPages.Proofs.Cache

/-!
# The queue of a cache

A cache keeps its pages and the queue of their names in two places, and each of
its operations changes the two apart. Whatever is asked of it, and whatever
becomes of its pages outside of it, the queue lists what is cached. So its order
is a matter of the operations alone: looking a page up and filing it send it to
the back, demoting it brings it to the front, and the others keep their order.
An eviction takes the first clean page and turns the queue to what follows.
-/

namespace TransactionalPages

/-- What can be asked of a cache. Pages are made dirty and clean from outside. -/
inductive CacheCall (α : Type) where
  | insert (page : PageId) (a : α)
  | get (page : PageId)
  | peek (page : PageId)
  | remove (page : PageId)
  | demote (page : PageId)
  | evict
  | mark (a : α) (dirty : Bool)

/-- A cache, and which pages are dirty. -/
structure MarkedCache (α : Type) where
  cache : Cache α
  dirty : α → Bool

namespace MarkedCache

variable {α : Type} [DecidableEq α]

def serve (s : MarkedCache α) : CacheCall α → MarkedCache α
  | .insert page a => { s with cache := s.cache.insert page a }
  | .get page => { s with cache := (s.cache.get page).1 }
  | .peek _ => s
  | .remove page => { s with cache := (s.cache.remove page).1 }
  | .demote page => { s with cache := s.cache.demote page }
  | .evict => { s with cache := (s.cache.evict s.dirty).1 }
  | .mark a dirty => { s with dirty := fun b => if b = a then dirty else s.dirty b }

def serveAll (s : MarkedCache α) (calls : List (CacheCall α)) : MarkedCache α :=
  calls.foldl serve s

theorem serve_aligned {s : MarkedCache α} (aligned : s.cache.Aligned) (call : CacheCall α) :
    (s.serve call).cache.Aligned := by
  cases call with
  | insert page a => exact aligned.insert page a
  | get page => exact aligned.get page
  | peek page => exact aligned
  | remove page => exact aligned.remove page
  | demote page => exact aligned.demote page
  | evict => exact aligned.evict s.dirty
  | mark a dirty => exact aligned

theorem serveAll_aligned {s : MarkedCache α} (aligned : s.cache.Aligned)
    (calls : List (CacheCall α)) : (s.serveAll calls).cache.Aligned := by
  induction calls generalizing s with
  | nil => exact aligned
  | cons call rest ih => exact ih (serve_aligned aligned call)

end MarkedCache

namespace Cache

variable {α : Type} {c : Cache α} {dirty : α → Bool} {page : PageId} {a : α}

/-- The queue without a page. -/
def others (c : Cache α) (page : PageId) : List PageId := c.order.filter (· != page)

/-- What each operation answers and makes of the cached pages and the queue. -/
structure KeepsOrder (c : Cache α) (dirty : α → Bool) : Prop where
  get_cached : ∀ page a, c.peek? page = some a →
    c.get page = ({ c with order := c.others page ++ [page] }, some a)
  get_absent : ∀ page, c.peek? page = none → c.get page = (c, none)
  insert : ∀ page a, (c.insert page a).order = c.others page ++ [page] ∧
    ∀ p, (c.insert page a).peek? p = if p = page then some a else c.peek? p
  demote_cached : ∀ page a, c.peek? page = some a →
    c.demote page = { c with order := page :: c.others page }
  demote_absent : ∀ page, c.peek? page = none → c.demote page = c
  remove_cached : ∀ page a, c.peek? page = some a →
    (c.remove page).2 = some a ∧ (c.remove page).1.order = c.others page ∧
      ∀ p, (c.remove page).1.peek? p = if p = page then none else c.peek? p
  remove_absent : ∀ page, c.peek? page = none → c.remove page = (c, none)
  victim : ∀ page, (c.evict dirty).2 = some page → ∃ passed rest a,
    c.order = passed ++ page :: rest ∧ c.peek? page = some a ∧ dirty a = false ∧
      (∀ p ∈ passed, ∃ b, c.peek? p = some b ∧ dirty b = true) ∧
      (c.evict dirty).1.order = rest ++ passed ∧
      ∀ p, (c.evict dirty).1.peek? p = if p = page then none else c.peek? p
  no_victim_iff : (c.evict dirty).2 = none ↔ ∀ page a, c.peek? page = some a → dirty a = true
  no_victim : (c.evict dirty).2 = none → (c.evict dirty).1 = c

/-! ## Evictions -/

/-- The first clean page goes, and the queue begins behind it. -/
theorem evict_of_clean {passed rest : List PageId} (queue : c.order = passed ++ page :: rest)
    (all : ∀ p ∈ passed, (c.peek? p).any dirty = true)
    (clean : (c.peek? page).any dirty = false) :
    c.evict dirty = ({ c with pages := c.pages.erase page, order := rest ++ passed }, some page) := by
  have length : c.order.length = passed.length + (rest.length + 1) := by
    rw [queue, List.length_append, List.length_cons]
  have turned := evictWithin_of_dirty queue all (rest.length + 1)
  have stays : ¬(c.peek? page).any dirty = true := by
    rw [clean]
    exact Bool.false_ne_true
  rw [evict, length, turned, evictWithin]
  exact if_neg stays

theorem Aligned.any_iff (aligned : c.Aligned) (listed : page ∈ c.order) :
    (c.peek? page).any dirty = true ↔ ∃ a, c.peek? page = some a ∧ dirty a = true := by
  obtain ⟨a, held⟩ := Option.isSome_iff_exists.mp ((aligned.listed page).mp listed)
  simp [held]

theorem Aligned.no_victim_iff (aligned : c.Aligned) :
    (c.evict dirty).2 = none ↔ ∀ page a, c.peek? page = some a → dirty a = true :=
  evict_eq_none_iff.trans aligned.all_dirty_iff

theorem Aligned.victim (aligned : c.Aligned) (gone : (c.evict dirty).2 = some page) :
    ∃ passed rest a, c.order = passed ++ page :: rest ∧ c.peek? page = some a ∧
      dirty a = false ∧ (∀ p ∈ passed, ∃ b, c.peek? p = some b ∧ dirty b = true) ∧
      (c.evict dirty).1.order = rest ++ passed ∧
      ∀ p, (c.evict dirty).1.peek? p = if p = page then none else c.peek? p := by
  -- the search for the first clean page in the queue, which cannot come to nothing
  cases first : c.order.find? fun p => !(c.peek? p).any dirty with
  | none =>
    have all : ∀ p ∈ c.order, (c.peek? p).any dirty = true := by
      simpa using List.find?_eq_none.mp first
    rw [evict_of_dirty all] at gone
    cases gone
  | some found =>
    obtain ⟨clean, passed, rest, queue, all⟩ := List.find?_eq_some_iff_append.mp first
    have clean : (c.peek? found).any dirty = false := by simpa using clean
    have all : ∀ p ∈ passed, (c.peek? p).any dirty = true := by simpa using all
    have evicted := evict_of_clean queue all clean
    rw [evicted] at gone ⊢
    cases gone
    have listed : page ∈ c.order := by
      rw [queue]
      exact List.mem_append_right _ List.mem_cons_self
    obtain ⟨a, held⟩ := Option.isSome_iff_exists.mp ((aligned.listed page).mp listed)
    refine ⟨passed, rest, a, queue, held, by simpa [held] using clean, fun p here => ?_, rfl,
      fun p => Lookup.getElem?_erase c.pages page p⟩
    refine (aligned.any_iff ?_).mp (all p here)
    rw [queue]
    exact List.mem_append_left _ here

/-! ## The order -/

theorem Aligned.erase_eq (aligned : c.Aligned) (page : PageId) :
    c.order.erase page = c.others page := aligned.distinct.erase_eq_filter page

/-- A page that is not cached is not in the queue. -/
theorem Aligned.others_of_absent (aligned : c.Aligned) (absent : c.peek? page = none) :
    c.others page = c.order := by
  rw [← aligned.erase_eq]
  refine List.erase_of_not_mem fun listed => ?_
  rw [aligned.listed, absent] at listed
  cases listed

theorem Aligned.toBack_eq (aligned : c.Aligned) (page : PageId) :
    c.toBack page = { c with order := c.others page ++ [page] } := by
  rw [Cache.toBack, aligned.erase_eq]

theorem Aligned.keepsOrder (aligned : c.Aligned) (dirty : α → Bool) : c.KeepsOrder dirty where
  get_cached page a held := by
    rw [get_eq, held, aligned.toBack_eq]
    rfl
  get_absent page absent := by
    rw [get_eq, absent]
    rfl
  insert page a := by
    refine ⟨?_, c.insert_peek? page a⟩
    rw [insert_order, aligned.toBack_eq]
    cases held : c.peek? page with
    | none => rw [aligned.others_of_absent held]; rfl
    | some b => rfl
  demote_cached page a held := by
    have filed : c.contains page = true := by rw [contains_eq, held]; rfl
    rw [Cache.demote, if_pos filed, aligned.erase_eq]
  demote_absent page absent := by
    refine if_neg ?_
    rw [contains_eq, absent]
    exact Bool.false_ne_true
  remove_cached page a held := by
    refine ⟨?_, ?_, c.remove_peek? page⟩
    · simp only [Cache.remove, held]
    · rw [aligned.remove_order, aligned.erase_eq]
  remove_absent page absent := by simp only [Cache.remove, absent]
  victim page := aligned.victim
  no_victim_iff := aligned.no_victim_iff
  no_victim none := by rw [evict_of_dirty (evict_eq_none_iff.mp none)]

/-- Whatever was asked of a cache and whichever pages were made dirty or clean in the meantime, its
queue lists the cached pages, each once, and every operation does to the order what it is meant
to. -/
theorem queue_lists_cached [DecidableEq α] (capacity : Nat) (dirty : α → Bool)
    (calls : List (CacheCall α)) :
    let s := (MarkedCache.mk (.empty capacity) dirty).serveAll calls
    s.cache.order.Nodup ∧ (∀ page, page ∈ s.cache.order ↔ (s.cache.peek? page).isSome) ∧
      s.cache.size = s.cache.order.length ∧ s.cache.KeepsOrder s.dirty := by
  intro s
  have aligned : s.cache.Aligned := MarkedCache.serveAll_aligned (aligned_empty capacity) calls
  exact ⟨aligned.distinct, aligned.listed, aligned.size_eq, aligned.keepsOrder s.dirty⟩

end Cache

end TransactionalPages
