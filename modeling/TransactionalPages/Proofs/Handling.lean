import TransactionalPages.Proofs.Course
import TransactionalPages.Proofs.Interleaving
import TransactionalPages.Proofs.Rollback

/-!
# Handled pages

Whoever has a reference to a page object may write to it and tag it, whether or
not a lock is held on the page and whether or not the object is still cached.
Locks can be given back early and pages dropped from the cache. In all that, a
pool stays formed, and an abort does what it should.
-/

namespace TransactionalPages

/-- An action of the interleaving, or something that is done to the pool behind its back. -/
inductive Deed where
  | act (action : Action)
  /-- Bytes are written to a page object, which stays tagged as it is. -/
  | write (ref : PageRef) (start : Nat) (new : Bytes)
  | mark (ref : PageRef) (dirtier : Option TransactionId)
  | release (txn : TransactionId) (page : PageId)
  | discard (page : PageId)
  deriving DecidableEq, Repr

namespace Pool

variable {pool : Pool} {txn : TransactionId}

theorem commit_formed (formed : pool.Formed) (txn : TransactionId) :
    (pool.commit txn).1.Formed ∧ (pool.commit txn).1.catalog = pool.catalog ∧
      ∀ a page, a ≠ txn → (pool.commit txn).1.locks.mode? a page = pool.locks.mode? a page := by
  refine ⟨formed.commit txn, ?_, fun a page other => ?_⟩
  · obtain ⟨moved, control, same | gone⟩ := pool.commit_control txn
    · rw [same, control.catalog]
    · rw [gone]
      exact control.catalog
  · obtain ⟨moved, control, same | gone⟩ := pool.commit_control txn
    · rw [same, control.locks]
    · rw [gone]
      show (moved.locks.releaseAll txn).mode? a page = _
      rw [control.locks, LockTable.releaseAll_mode? formed.locks, if_neg other]

theorem abort_formed (formed : pool.Formed) (txn : TransactionId) :
    (pool.abort txn).1.Formed ∧ (pool.abort txn).1.catalog = pool.catalog ∧
      ∀ a page, a ≠ txn → (pool.abort txn).1.locks.mode? a page = pool.locks.mode? a page := by
  obtain ⟨aborted, rolled⟩ := formed.abort txn
  refine ⟨aborted, ?_, rolled.locks⟩
  obtain ⟨moved, control, same | gone⟩ := pool.abort_control txn
  · rw [same, control.catalog]
  · rw [gone]
    exact control.catalog

/-- However a transaction ends, the pool stays formed and the others keep their locks. -/
theorem ending_formed (formed : pool.Formed) (txn : TransactionId) (ending : Ending) :
    (ending.run pool txn).1.Formed ∧ (ending.run pool txn).1.catalog = pool.catalog ∧
      ∀ a page, a ≠ txn → (ending.run pool txn).1.locks.mode? a page =
        pool.locks.mode? a page := by
  rcases ending_pool pool txn ending with eq | eq | eq
  · rw [eq]
    exact commit_formed formed txn
  · rw [eq]
    exact abort_formed formed txn
  · obtain ⟨committed, catalog, others⟩ := commit_formed formed txn
    obtain ⟨aborted, again, still⟩ := abort_formed committed txn
    rw [eq]
    exact ⟨aborted, again.trans catalog, fun a page other =>
      (still a page other).trans (others a page other)⟩

end Pool

/-- A request can still be taken up when its transaction has lost locks. -/
theorem Pending.fewer {α : Type} {purpose : Purpose α} {txn : TransactionId} {before after : Pool}
    {request : Waiting α} (pending : Pending txn purpose before request)
    (fewer : after.locks.holds txn request.page → before.locks.holds txn request.page) :
    Pending txn purpose after request := by
  obtain ⟨allowed, fresh, away, failed, served⟩ := pending
  exact ⟨allowed, fresh, fun isFresh held => away isFresh (fewer held), failed, served⟩

namespace Interleaving

variable {s : Interleaving}

def handle (s : Interleaving) : Deed → Interleaving
  | .act action => s.step action
  | .write ref start new =>
    match (s.pool.object ref).overwrite? start new with
    | some written => { s with pool := s.pool.setObject ref written }
    | none => s
  | .mark ref dirtier =>
    { s with pool := s.pool.setObject ref { s.pool.object ref with dirtier := dirtier } }
  | .release txn page => { s with pool := s.pool.releaseLock txn page }
  | .discard page => { s with pool := s.pool.discard page }

def handleAll (s : Interleaving) (deeds : List Deed) : Interleaving := deeds.foldl handle s

/-- The pool is formed and what is suspended can be taken up. -/
structure Ready (s : Interleaving) : Prop where
  formed : s.pool.Formed
  pending : ∀ r ∈ s.suspended, Pending r.txn (r.op.purpose s.pool.catalog) s.pool r.request

theorem Ready.pending_found (ready : s.Ready) {txn : TransactionId} {r : Suspension}
    (found : (s.suspended.find? fun q => q.txn = txn) = some r) :
    Pending txn (r.op.purpose s.pool.catalog) s.pool r.request := by
  obtain ⟨listed, rfl⟩ := mem_of_found found
  exact ready.pending r listed

/-- The pool changes, and no transaction that waits holds a page that it did not hold. -/
theorem Ready.change (ready : s.Ready) {after : Pool} {log : List Event}
    (formed : after.Formed) (catalog : after.catalog = s.pool.catalog)
    (fewer : ∀ r ∈ s.suspended, ∀ page, after.locks.holds r.txn page →
      s.pool.locks.holds r.txn page) :
    Ready { s with pool := after, log := log } := by
  refine ⟨formed, fun r listed => ?_⟩
  show Pending r.txn (r.op.purpose after.catalog) after r.request
  rw [catalog]
  exact (ready.pending r listed).fewer (fewer r listed r.request.page)

theorem Ready.settle (ready : s.Ready) {txn : TransactionId} {op : Operation}
    {result : Pool × Progress Answer} (spares : Pool.Spares txn s.pool result.1)
    (waits : ∀ request, result.2 = .waiting request →
      Pending txn (op.purpose s.pool.catalog) result.1 request)
    {others : List Suspension} (apart : ∀ r ∈ others, r ∈ s.suspended ∧ r.txn ≠ txn)
    (log : List Event) : (settle others log txn op result).Ready := by
  have kept : ∀ r ∈ others, Pending r.txn (r.op.purpose result.1.catalog) result.1 r.request := by
    intro r listed
    obtain ⟨there, other⟩ := apart r listed
    rw [spares.shape.catalog]
    exact (ready.pending r there).stays fun page => spares.others r.txn page other
  obtain ⟨after, progress⟩ := result
  cases progress with
  | waiting request =>
    refine ⟨spares.formed, fun r listed => ?_⟩
    rcases List.mem_append.mp listed with before | new
    · exact kept r before
    · rw [List.mem_singleton.mp new]
      have pending := waits request rfl
      rwa [← spares.shape.catalog] at pending
  | done answer => exact ⟨spares.formed, kept⟩

theorem Ready.step (ready : s.Ready) (action : Action) : (s.step action).Ready := by
  cases action with
  | call txn op =>
    rw [Interleaving.step]
    split
    · exact ready
    next free =>
      obtain ⟨spares, waits⟩ := ready.formed.submit txn op
      exact ready.settle spares waits
        (fun r listed => ⟨listed, Sound.not_suspended free r listed⟩) s.log
  | retry txn =>
    rw [Interleaving.step]
    split
    · exact ready
    next r found =>
      obtain ⟨spares, waits⟩ := ready.formed.resume (ready.pending_found found)
      exact ready.settle spares waits (fun q listed => mem_of_rest listed) s.log
  | flush txn =>
    rw [Interleaving.step]
    split
    · exact ready
    · have control := s.pool.flushPages_control txn
      exact ready.change (ready.formed.flushEach _) control.catalog fun r _ page held => by
        rwa [control.locks] at held
  | flushAll cached =>
    rw [Interleaving.step]
    split
    · have control := Pool.flushCached_control cached s.pool
      exact ready.change (ready.formed.flushCached _) control.catalog fun r _ page held => by
        have same : (s.pool.flushAll cached).1.locks = s.pool.locks := control.locks
        rwa [same] at held
    · exact ready
  | finish txn ending =>
    rw [Interleaving.step]
    split
    · exact ready
    next free =>
      obtain ⟨formed, catalog, others⟩ := Pool.ending_formed ready.formed txn ending
      refine ready.change formed catalog fun r listed page held => ?_
      have other := Sound.not_suspended free r listed
      rwa [LockTable.holds_congr (others r.txn page other)] at held

theorem Ready.handle (ready : s.Ready) (deed : Deed) : (s.handle deed).Ready := by
  cases deed with
  | act action => exact ready.step action
  | write ref start new =>
    simp only [Interleaving.handle]
    split
    next written wrote =>
      simp only [Page.overwrite?] at wrote
      split at wrote
      next fits =>
        cases wrote
        refine ready.change (ready.formed.setObject rfl ?_) rfl fun _ _ _ held => held
        exact Bytes.size_patch_of_le fits
      next => cases wrote
    next => exact ready
  | mark ref dirtier =>
    exact ready.change (ready.formed.setObject rfl rfl) rfl fun _ _ _ held => held
  | release txn page =>
    refine ready.change (ready.formed.releaseLock txn page) rfl fun r _ p held => ?_
    exact ((LockTable.release_holds ..).mp held).2
  | discard page =>
    exact ready.change (ready.formed.discard page) rfl fun _ _ _ held => held

theorem Ready.handleAll (ready : s.Ready) (deeds : List Deed) :
    (s.handleAll deeds).Ready := by
  induction deeds generalizing s with
  | nil => exact ready
  | cons deed rest ih => exact ih (ready.handle deed)

theorem ready_start {pool : Pool} (formed : pool.Formed) : (start pool).Ready :=
  ⟨formed, fun _ listed => absurd listed List.not_mem_nil⟩

/-- Whatever was done to the pages before, an abort takes back what its transaction holds, as far
as it can be read again, and nothing else. -/
theorem abort_rolls_back {config : Config} {catalog : Catalog Table} {stores : Array Store}
    {objects : Array Page} {pool : Pool}
    (created : Pool.create config catalog stores objects = .ok pool) (heaps : pool.OverHeaps)
    (deeds : List Deed) (txn : TransactionId) (reached : Pool)
    (reaches : ((start pool).handleAll deeds).pool = reached) :
    Pool.RolledBack txn reached (reached.abort txn).1 (reached.abort txn).2 := by
  have formed := (Pool.coherent_create created heaps).formed
  have ready := (ready_start formed).handleAll deeds
  rw [← reaches]
  exact (ready.formed.abort txn).2

/-- Two blank pages whose third read is stopped. -/
def faltering : Store := { blankPair with reads := ⟨0, fun call => call ≠ 2⟩ }

/-- Of two pages that were written through references, one cannot be read again and is dropped,
and the other has its stored bytes back. -/
theorem scribbled_page_comes_back : ∃ pool reached,
    Pool.create (Config.sized 2 64) (Catalog.single "a" faltering.medium) #[faltering] #[] =
      .ok pool ∧
    ((start pool).handleAll [.act (.call ⟨1⟩ (.fetch ⟨⟨1⟩, 0⟩ .readWrite)),
      .act (.call ⟨1⟩ (.fetch ⟨⟨1⟩, 1⟩ .readOnly)), .write ⟨0⟩ 0 #[7], .mark ⟨0⟩ (some ⟨1⟩),
      .write ⟨1⟩ 0 #[9]]).pool = reached ∧
    (reached.object ⟨1⟩).data.byte 0 = 9 ∧
    (reached.abort ⟨1⟩).2 = .error (.storage (.io .injected)) ∧
    (reached.abort ⟨1⟩).1.cache.peek? ⟨⟨1⟩, 0⟩ = none ∧
    ∃ data, reached.stored? ⟨⟨1⟩, 1⟩ = some data ∧
      (reached.abort ⟨1⟩).1.object ⟨1⟩ = ⟨⟨⟨1⟩, 1⟩, data, none⟩ := by
  have created : Pool.create (Config.sized 2 64) (Catalog.single "a" faltering.medium)
    #[faltering] #[] = .ok _ := rfl
  have rolled := abort_rolls_back created (Pool.heaps_single created)
    [.act (.call ⟨1⟩ (.fetch ⟨⟨1⟩, 0⟩ .readWrite)),
      .act (.call ⟨1⟩ (.fetch ⟨⟨1⟩, 1⟩ .readOnly)), .write ⟨0⟩ 0 #[7], .mark ⟨0⟩ (some ⟨1⟩),
      .write ⟨1⟩ 0 #[9]] ⟨1⟩ _ rfl
  exact ⟨_, _, created, rfl, by decide +kernel, rolled.answer.trans (by decide +kernel),
    rolled.lost _ (by decide +kernel) (by decide +kernel),
    (rolled.restored _ ⟨1⟩ (by decide +kernel) (by decide +kernel) (by decide +kernel)
      (by decide +kernel)).2⟩

end Interleaving

end TransactionalPages
