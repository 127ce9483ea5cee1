import TransactionalPages.Proofs.HeapTable

/-!
# What an operation does

An operation moves pages about and then waits, fails, answers, or changes one
page. The page that it changed is a draft of its transaction then, and is filed
already when the pool adopts it.
-/

namespace TransactionalPages.Pool

variable {pool start : Pool} {txn : TransactionId} {page : PageId} {ref : PageRef}
  {op : Operation}

theorem setObject_self (known : ref.index < pool.objects.size) :
    pool.setObject ref (pool.object ref) = pool := by
  have same : pool.objects.setIfInBounds ref.index (pool.object ref) = pool.objects := by
    apply Array.ext (by simp)
    intro i hi hi'
    rw [Array.getElem_setIfInBounds]
    split
    next here =>
      subst here
      simp [object, known]
    next => rfl
  simp only [setObject]
  rw [same]

/-- Adopting a cached page that the transaction has marked already only moves it in the queue. -/
theorem adopt_cached (known : ref.index < pool.objects.size) (id : (pool.object ref).id = page)
    (held : pool.cache.peek? page = some ref) (dirty : (pool.object ref).dirtier = some txn) :
    pool.adopt txn [ref] = ({ pool with cache := pool.cache.toBack page }, .ok ()) := by
  have marked : (pool.object ref).markDirty txn = pool.object ref := by
    simp only [Page.markDirty]
    rw [← dirty]
  have moved : (pool.cache.get page).1 = pool.cache.toBack page := by
    rw [Cache.get_eq, held]
    rfl
  have installed :
      pool.install page ref = ({ pool with cache := pool.cache.toBack page }, .ok ()) := by
    simp only [install]
    simp [held, moved]
  unfold adopt
  rw [marked, setObject_self known]
  dsimp only
  rw [id, installed]
  rfl

theorem toBack_sheds {κ : Type} [Foreign κ] {pool : Pool κ}
    (held : pool.cache.peek? page = some ref) :
    Sheds pool { pool with cache := pool.cache.toBack page } :=
  sheds_of_same (setCache_control ..) (media_of_same rfl rfl rfl) rfl rfl
    (fun sound => sound.toBack (by rw [held]; rfl)) fun _ => rfl

/-- An answer that is no list of changed pages is passed on. -/
theorem finish_answer {answer : Answer} (reads : ∀ refs, answer ≠ .changed refs) :
    finish txn (pool, .done (.ok answer)) = (pool, .done (.ok answer)) := by
  cases answer with
  | changed refs => exact absurd rfl (reads refs)
  | page ref => rfl
  | tuple data => rfl
  | rows rows => rfl

/-- An operation is passed on as it stands, or it has answered with the pages that it changed and
these are adopted. -/
theorem finish_cases {κ : Type} [Foreign κ] (txn : TransactionId)
    (result : Pool κ × Progress Answer) :
    finish txn result = result ∨
    ∃ refs, result.2 = .done (.ok (.changed refs)) ∧
      (finish txn result).1 = (result.1.adopt txn refs).1 ∧
      ((finish txn result).2 = .done (.ok (.changed refs)) ∨
        ∃ e, (finish txn result).2 = .done (.error e)) := by
  obtain ⟨pool, progress⟩ := result
  cases progress with
  | waiting request => exact Or.inl rfl
  | done outcome =>
    cases outcome with
    | error e => exact Or.inl rfl
    | ok answer =>
      cases answer with
      | changed refs =>
        refine Or.inr ⟨refs, rfl, ?_⟩
        simp only [finish]
        cases pool.adopt txn refs with
        | mk after adopted =>
          cases adopted with
          | ok _ => exact ⟨rfl, Or.inl rfl⟩
          | error e => exact ⟨rfl, Or.inr ⟨e, rfl⟩⟩
      | _ => exact Or.inl rfl

/-- A changed page that is marked and filed already only moves in the queue. -/
theorem finish_cached (known : ref.index < pool.objects.size) (id : (pool.object ref).id = page)
    (held : pool.cache.peek? page = some ref) (dirty : (pool.object ref).dirtier = some txn) :
    finish txn (pool, .done (.ok (.changed [ref]))) =
      ({ pool with cache := pool.cache.toBack page }, .done (.ok (.changed [ref]))) := by
  simp only [finish]
  rw [adopt_cached known id held dirty]

/-- How an operation of a transaction leaves a pool. -/
inductive Effect (txn : TransactionId) (op : Operation) (start : Pool) :
    Pool × Progress Answer → Prop where
  | waits {after : Pool} {request : Waiting Answer}
    (quiet : Quiet txn (fun page => page.table = op.table) start after)
    (pending : Pending txn (op.purpose after.catalog) after request) :
    Effect txn op start (after, .waiting request)
  | fails {after : Pool} {e : PoolError}
    (quiet : Quiet txn (fun page => page.table = op.table) start after) :
    Effect txn op start (after, .done (.error e))
  | answers {after : Pool} {answer : Answer}
    (quiet : Quiet txn (fun page => page.table = op.table) start after)
    (reads : ∀ refs, answer ≠ .changed refs)
    (observes : ∀ table mutation, op ≠ .mutate table mutation) :
    Effect txn op start (after, .done (.ok answer))
  | writes {mid after : Pool} {table : TableId} {mutation : Mutation} {page : PageId}
    {ref : PageRef} {old new : Bytes} (mutates : op = .mutate table mutation)
    (quiet : Quiet txn (fun page => page.table = op.table) start mid)
    (alone : mid.locks.mode? txn page = some .exclusive)
    (visible : some old = ((mid.draft? page).map Prod.snd).or (mid.stored? page))
    (whole : old.size = mid.config.pageSize)
    (change : mutation.Changes table page old new) (coherent : after.Coherent)
    (tables : SameTables mid after) (locks : after.locks = mid.locks)
    (view : after.view = mid.view.write txn page new)
    (shown : after.object ref = ⟨page, new, some txn⟩) :
    Effect txn op start (after, .done (.ok (.changed [ref])))

/-- A page that was changed under an exclusive lock is a draft when the operation is finished. -/
theorem Coherent.finish_write {mid : Pool} {new : Bytes} (coherent : mid.Coherent)
    (held : mid.cache.peek? page = some ref) (alone : mid.locks.mode? txn page = some .exclusive)
    (size : new.size = mid.config.pageSize) :
    ∃ after, finish txn (mid.setObject ref { mid.object ref with data := new, dirtier := some txn },
        .done (.ok (.changed [ref]))) = (after, .done (.ok (.changed [ref]))) ∧
      after.Coherent ∧ SameMedia mid after ∧ after.locks = mid.locks ∧
      after.view = mid.view.write txn page new ∧ after.object ref = ⟨page, new, some txn⟩ := by
  have filed := coherent.filed page ref held
  obtain ⟨written, view⟩ := coherent.edit held alone size
  have object : (mid.setObject ref { mid.object ref with data := new, dirtier := some txn }).object
      ref = { mid.object ref with data := new, dirtier := some txn } := by
    rw [object_setObject, if_pos ⟨rfl, filed.known⟩]
  generalize edited : mid.setObject ref { mid.object ref with data := new, dirtier := some txn } =
    after at written view object ⊢
  have control : SameControl mid after := edited ▸ setObject_control ..
  have media : SameMedia mid after := edited ▸ setObject_media ..
  have heldAfter : after.cache.peek? page = some ref := edited ▸ held
  have filedAfter := written.filed page ref heldAfter
  have dirty : (after.object ref).dirtier = some txn := by rw [object]
  have ended := finish_cached filedAfter.known filedAfter.id heldAfter dirty
  have sheds := toBack_sheds heldAfter
  refine ⟨{ after with cache := after.cache.toBack page }, ended,
    written.sheds sheds, media.trans sheds.media, sheds.control.locks.trans control.locks,
    sheds.view.trans view, ?_⟩
  rw [sheds.object, object, ← filed.id]

/-- What a transaction sees of a cached page is its draft, or else what is stored. -/
theorem Coherent.seen (coherent : pool.Coherent) (held : pool.cache.peek? page = some ref) :
    some (pool.object ref).data = ((pool.draft? page).map Prod.snd).or (pool.stored? page) := by
  cases dirty : (pool.object ref).dirtier with
  | none =>
    obtain ⟨data, stored, _, clean⟩ := (coherent.filed page ref held).backed
    rw [draft?_of_clean held dirty, stored, clean dirty]
    rfl
  | some owner =>
    have drafted : pool.draft? page = some (owner, (pool.object ref).data) :=
      draft?_eq_some.mpr ⟨ref, held, dirty, rfl⟩
    rw [drafted]
    rfl

theorem finish_effect (coherent : start.Coherent) {result : Pool × Progress Answer}
    (outcome : Outcome txn (op.purpose start.catalog) start result) :
    Effect txn op start (finish txn result) := by
  cases outcome with
  | @waits mid request quiet pending =>
    have catalog := (quiet.effect coherent).2.1.catalog
    exact .waits quiet (by rw [catalog]; exact pending)
  | fails quiet => exact .fails quiet
  | @answers mid answer quiet reads =>
    rw [finish_answer reads.1]
    exact .answers quiet reads.1 reads.2
  | @writes mid page ref new quiet held alone change size =>
    obtain ⟨table, mutation, rfl, changes⟩ := change
    obtain ⟨midCoherent, _⟩ := quiet.effect coherent
    have whole : (mid.object ref).data.size = mid.config.pageSize :=
      (midCoherent.filed page ref held).size
    obtain ⟨after, ended, done, media, locks, view, shown⟩ :=
      midCoherent.finish_write held alone (size.trans whole)
    show Effect _ _ _ (finish txn (_, .done (.ok (.changed [ref]))))
    rw [ended]
    exact .writes rfl quiet alone (midCoherent.seen held) whole changes done media.toSameTables
      locks view shown

theorem submit_effect (coherent : pool.Coherent) (countable : pool.Countable)
    (txn : TransactionId) (op : Operation) : Effect txn op pool (pool.submit txn op) := by
  have orderly := Operation.orderly coherent.heaps op
  have fits := Operation.purpose_fits coherent.heaps countable op
  exact finish_effect coherent
    (orderly.outcome coherent fits fun page here => absurd here (by simp))

theorem resume_effect (coherent : pool.Coherent) (countable : pool.Countable)
    {request : Waiting Answer} (pending : Pending txn (op.purpose pool.catalog) pool request) :
    Effect txn op pool (pool.resume txn request) := by
  have fits := Operation.purpose_fits coherent.heaps countable op
  exact finish_effect coherent (pending.outcome coherent fits)

/-- An operation leaves a coherent pool coherent and the locks of others alone. -/
theorem Effect.coherent {result : Pool × Progress Answer} (effect : Effect txn op start result)
    (coherent : start.Coherent) :
    result.1.Coherent ∧ SameTables start result.1 ∧
      ∀ a page, a ≠ txn → result.1.locks.mode? a page = start.locks.mode? a page := by
  cases effect with
  | waits quiet =>
    obtain ⟨done, tables, _⟩ := quiet.effect coherent
    exact ⟨done, tables, fun a page other => quiet.others other page⟩
  | fails quiet =>
    obtain ⟨done, tables, _⟩ := quiet.effect coherent
    exact ⟨done, tables, fun a page other => quiet.others other page⟩
  | answers quiet =>
    obtain ⟨done, tables, _⟩ := quiet.effect coherent
    exact ⟨done, tables, fun a page other => quiet.others other page⟩
  | writes mutates quiet alone visible whole change done tables locks =>
    obtain ⟨_, before, _⟩ := quiet.effect coherent
    refine ⟨done, before.trans tables, fun a page other => ?_⟩
    show (LockTable.mode? _ a page) = _
    rw [locks]
    exact quiet.others other page

end TransactionalPages.Pool
