import TransactionalPages.Proofs.Backing
import TransactionalPages.Proofs.Isolation
import TransactionalPages.Proofs.Retention

/-!
# What is to be seen of a page

A page is seen in the cache or, if it is not there, in the store of its table. In a
faithful pool it makes no difference that clean pages leave the cache and come back
to it: a transaction that is on its way changes nothing that is to be seen. It may
bring a page that was not there before, and leaves that page as it was allocated.
-/

namespace TransactionalPages.Pool

variable {pool base before after : Pool} {txn : TransactionId} {page : PageId} {ref : PageRef}
  {data : Bytes}

/-- The bytes of a page in the cache or, if it is not cached, in the store of its table. -/
def visible? (pool : Pool) (page : PageId) : Option Bytes :=
  match pool.cache.peek? page with
  | some ref => some (pool.object ref).data
  | none => pool.stored? page

theorem visible?_of_cached (held : pool.cache.peek? page = some ref) :
    pool.visible? page = some (pool.object ref).data := by
  simp only [visible?]
  rw [held]

theorem visible?_of_uncached (absent : pool.cache.peek? page = none) :
    pool.visible? page = pool.stored? page := by
  simp only [visible?]
  rw [absent]

theorem dirtier?_eq (pool : Pool) (page : PageId) :
    pool.dirtier? page = (pool.draft? page).map Prod.fst := by
  cases draft : pool.draft? page with
  | none => exact dirtier?_of_undrafted draft
  | some d =>
    obtain ⟨owner, bytes⟩ := d
    obtain ⟨ref, held, dirty, _⟩ := draft?_eq_some.mp draft
    exact dirtier?_eq_some.mpr ⟨ref, held, dirty⟩

/-- A copy that is clean says what the store says. -/
theorem Faithful.visible?_eq (faithful : pool.Faithful) : pool.visible? = pool.shown := by
  funext page
  cases held : pool.cache.peek? page with
  | none =>
    rw [visible?_of_uncached held, shown, draft?_of_uncached held]
    rfl
  | some ref =>
    rw [visible?_of_cached held, shown]
    obtain ⟨data, stored, agrees⟩ := faithful.backed page ref held
    cases dirtier : (pool.object ref).dirtier with
    | none =>
      rw [draft?_of_clean held dirtier, stored, agrees dirtier]
      rfl
    | some owner =>
      rw [draft?_eq_some.mpr ⟨ref, held, dirtier, rfl⟩]
      rfl

/-- A page that is not stored is not to be seen either. -/
theorem Faithful.visible?_eq_none (faithful : pool.Faithful) :
    pool.visible? page = none ↔ pool.stored? page = none := by
  cases held : pool.cache.peek? page with
  | none => rw [visible?_of_uncached held]
  | some ref =>
    obtain ⟨data, stored, _⟩ := faithful.backed page ref held
    rw [visible?_of_cached held, stored]
    simp

/-! ## On the way -/

theorem Formed.load_draft? (formed : pool.Formed) (page : PageId) :
    (pool.load page).1.draft? = pool.draft? := by
  rcases pool.load_cases page with
    ⟨ref, after, _, sheds, _, eq⟩ | ⟨e, after, _, sheds, _, eq⟩ |
    ⟨table, stored, mid, absent, _, read, _, sheds, _, eq⟩
  · rw [eq]
    exact sheds.draft?
  · rw [eq]
    exact sheds.draft?
  · rw [eq, ← sheds.draft?]
    have clean : stored.dirtier = none := by rw [(Medium.read_eq_clean read).2]; rfl
    funext q
    simp only [draft?]
    rw [fileLoaded_peek?]
    split
    next here =>
      subst here
      have gone : mid.cache.peek? q = none := by
        rcases sheds.kept q with same | ⟨gone, _⟩
        · exact same.trans absent
        · exact gone
      rw [gone]
      simp [fileLoaded_object, clean]
    next =>
      cases held : mid.cache.peek? q with
      | none => rfl
      | some ref =>
        have old := ((formed.sheds sheds).shelved q ref held).known
        simp only [Option.bind_some]
        rw [fileLoaded_object, if_neg (Nat.ne_of_lt old)]

theorem Drift.trans {mid : Pool} (first : Drift txn base mid) (second : Drift txn mid after) :
    Drift txn base after := by
  induction second with
  | start => exact first
  | ask _ page mode waited ih => exact ih.ask page mode waited
  | load _ page ih => exact ih.load page
  | release _ fresh ih => exact ih.release (first.away fresh)
  | count _ store ih => exact ih.count store
  | allocate _ store ih => exact ih.allocate store
  | spoil _ held large new ih => exact ih.spoil held large new

/-- No page is made dirty on the way, and none is written back or dropped that is. -/
theorem Drift.draft? (drift : Drift txn base after) (formed : base.Formed) :
    after.draft? = base.draft? := by
  induction drift with
  | start => rfl
  | ask _ page mode waited ih =>
    exact (congrArg View.draft (requestLock_view _ txn page mode waited)).trans ih
  | load drift page ih => exact ((drift.formed formed).load_draft? page).trans ih
  | release _ _ ih => exact ih
  | count _ store ih => exact (countPages_sheds _ store).draft?.trans ih
  | allocate _ _ ih => exact ih
  | @spoil mid drift page ref held large _ ih =>
    have size : (mid.object ref).data.size = mid.config.pageSize :=
      ((drift.formed formed).shelved page ref held).size
    have small := (drift.formed formed).small
    omega

theorem Drift.retains (drift : Drift txn base after) :
    Retains (fun _ _ => False) base after := by
  induction drift with
  | start => exact retains_of_same rfl rfl rfl
  | ask _ page mode waited ih => exact ih.trans (requestLock_retains _ txn page mode waited)
  | load _ page ih => exact ih.trans (load_retains _ page)
  | release _ _ ih => exact ih.trans (retains_of_same rfl rfl rfl)
  | count _ store ih => exact ih.trans (countPages_sheds _ store).retains
  | allocate _ store ih => exact ih.trans (allocatePage_retains _ store)
  | spoil _ _ _ _ ih => exact ih.trans (setObject_retains _ _ _ id)

theorem Drift.stored? (drift : Drift txn base after) (stored : base.stored? page = some data) :
    after.stored? page = some data := by
  obtain ⟨table, known, read⟩ := stored?_eq_some.mp stored
  refine stored?_eq_some.mpr ⟨table, ?_, drift.retains.stored _ _ _ read⟩
  rw [drift.shape.catalog]
  exact known

/-- As long as nothing is allocated, no page comes into sight either. -/
theorem Faithful.visible?_drift (faithful : base.Faithful) (drift : Drift txn base after)
    (media : SameMedia base after) : after.visible? = base.visible? := by
  rw [(faithful.drift drift).visible?_eq, faithful.visible?_eq]
  apply shown_congr
  simp only [view]
  rw [drift.draft? faithful.formed, stored?_congr media.catalog media.medium]

/-- Every page that was there is to be seen as it was, and none became dirty, was written back, or
was dropped while it was dirty. A page that was not there is as the store has it. -/
structure Untouched (before after : Pool) : Prop where
  visible : ∀ page data, before.visible? page = some data → after.visible? page = some data
  dirtier : ∀ page, after.dirtier? page = before.dirtier? page
  cached : ∀ page ref, before.cache.peek? page = some ref →
    (before.object ref).isDirty = true → after.cache.peek? page = some ref
  stored : KeepsStored before after
  fresh : ∀ page, before.visible? page = none → after.visible? page = after.stored? page

theorem Faithful.untouched (faithful : base.Faithful) (drift : Drift txn base after) :
    Untouched base after := by
  have later := faithful.drift drift
  have drafts := drift.draft? faithful.formed
  constructor
  case visible =>
    intro page data seen
    rw [faithful.visible?_eq, shown] at seen
    rw [later.visible?_eq, shown, drafts]
    cases draft : base.draft? page with
    | some d =>
      rw [draft] at seen
      exact seen
    | none =>
      rw [draft] at seen
      exact drift.stored? seen
  case dirtier =>
    intro page
    rw [dirtier?_eq, dirtier?_eq, drafts]
  case cached =>
    intro page ref held dirty
    exact drift.retains.drafts page ref held dirty id
  case stored => exact drift.retains.stored
  case fresh =>
    intro page unseen
    have undrafted : base.draft? page = none := by
      rw [faithful.visible?_eq, shown, Option.or_eq_none_iff, Option.map_eq_none_iff] at unseen
      exact unseen.1
    rw [later.visible?_eq, shown, drafts, undrafted]
    rfl

end TransactionalPages.Pool
