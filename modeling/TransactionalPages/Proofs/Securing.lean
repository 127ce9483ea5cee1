import TransactionalPages.Proofs.Course

/-!
# Programs that secure a page

A program secures a page if it never answers before it was granted a lock on it,
and never gives that lock back. Whether it does can be read off the program, also
while it waits for another page. Fetches, reads, scans and deletes secure the
pages that they are about.
-/

namespace TransactionalPages

variable {α β : Type}

/-- A program that takes a page in some mode or a stronger one before it answers, unless it has
been `taken` already, and gives nothing back. -/
inductive Secures (page : PageId) (mode : LockMode) : (taken : Bool) → Program α → Prop where
  | fail {taken : Bool} (e : PoolError) : Secures page mode taken (.stop (.error e))
  | answer (a : α) : Secures page mode true (.stop (.ok a))
  | take {taken : Bool} {permission : Permission} {next : Except PoolError PageRef → Program α}
    (strong : permission.mode.Covers mode)
    (failed : ∀ e, Secures page mode taken (next (.error e)))
    (served : ∀ ref, Secures page mode true (next (.ok ref))) :
    Secures page mode taken (.fetch page permission next)
  | fetch {taken : Bool} {other : PageId} {permission : Permission}
    {next : Except PoolError PageRef → Program α}
    (failed : ∀ e, Secures page mode taken (next (.error e)))
    (served : ∀ ref, Secures page mode taken (next (.ok ref))) :
    Secures page mode taken (.fetch other permission next)
  | look {taken : Bool} {ref : PageRef} {next : Page → Program α}
    (rest : ∀ p, Secures page mode taken (next p)) : Secures page mode taken (.look ref next)
  | edit {taken : Bool} {ref : PageRef} {data : Bytes} {next : Program α}
    (rest : Secures page mode taken next) : Secures page mode taken (.edit ref data next)

theorem Secures.map {page : PageId} {mode : LockMode} {taken : Bool} {p : Program α}
    (secures : Secures page mode taken p) (f : α → β) : Secures page mode taken (p.map f) := by
  induction secures with
  | fail e => exact .fail e
  | answer a => exact .answer (f a)
  | take strong _ _ failed served => exact .take strong failed served
  | fetch _ _ failed served => exact .fetch failed served
  | look _ rest => exact .look rest
  | edit _ rest => exact .edit rest

/-- A request that secures a page when it is taken up. -/
def Awaits (txn : TransactionId) (page : PageId) (mode : LockMode) (pool : Pool)
    (request : Waiting α) : Prop :=
  ∃ taken, (taken = true → pool.locks.AtLeast txn page mode) ∧
    Secures page mode taken (.fetch request.page request.permission request.next)

/-- What has become of a program that secures a page. -/
def Secured (txn : TransactionId) (page : PageId) (mode : LockMode) :
    Pool × Progress α → Prop
  | (pool, .done (.ok _)) => pool.locks.AtLeast txn page mode
  | (_, .done (.error _)) => True
  | (pool, .waiting request) => Awaits txn page mode pool request

namespace Pool

variable {pool : Pool} {txn : TransactionId} {page : PageId} {mode : LockMode}

/-- A request is refused, or it goes on with at least the locks that there were and, if it was
answered, with the lock that it asked for. -/
theorem serve_secured {request : Waiting α} {taken held : Bool}
    (secures : Secures page mode taken (.fetch request.page request.permission request.next))
    (holds : taken = true → pool.locks.AtLeast txn page mode)
    (gains : held = true →
      taken = true ∨ (request.page = page ∧ request.permission.mode.Covers mode))
    (waited : Bool)
    (failed : ∀ e (mid : Pool), (taken = true → mid.locks.AtLeast txn page mode) →
      Secured txn page mode (mid.run txn (request.next (.error e))))
    (served : ∀ ref (mid : Pool), (held = true → mid.locks.AtLeast txn page mode) →
      Secured txn page mode (mid.run txn (request.next (.ok ref)))) :
    Secured txn page mode (pool.serve txn request waited) := by
  simp only [serve]
  rcases pool.requestLock_cases txn request.page request.permission.mode waited with
    ⟨locks, granted, eq⟩ | ⟨_, _, eq⟩ | ⟨_, _, eq⟩
  · rw [eq]
    dsimp only
    generalize asked : ({ pool with
        locks := locks
        waits := if waited then pool.waits.clear txn else pool.waits } : Pool) = mid
    have control := mid.load_control request.page
    have locked : (mid.load request.page).1.locks = locks := by
      rw [control.locks, ← asked]
    have before : taken = true → (mid.load request.page).1.locks.AtLeast txn page mode := by
      intro already
      rw [locked]
      exact (holds already).acquire granted
    have after : held = true → (mid.load request.page).1.locks.AtLeast txn page mode := by
      intro now
      rcases gains now with already | ⟨same, strong⟩
      · exact before already
      · rw [locked, ← same]
        exact (LockTable.atLeast_acquired granted).weaken strong
    cases loaded : mid.load request.page with
    | mk moved answer =>
      rw [loaded] at before after
      cases answer with
      | error e => exact failed e moved before
      | ok ref => exact served ref moved after
  · rw [eq]
    exact failed _ _ holds
  · rw [eq]
    exact ⟨taken, holds, secures⟩

end Pool

theorem Secures.run {page : PageId} {mode : LockMode} {taken : Bool} {p : Program α}
    (secures : Secures page mode taken p) {txn : TransactionId} {pool : Pool}
    (holds : taken = true → pool.locks.AtLeast txn page mode) :
    Secured txn page mode (pool.run txn p) := by
  induction secures generalizing pool with
  | fail e => trivial
  | answer a => exact holds rfl
  | @take taken permission next strong failed served failedRun servedRun =>
    rw [Pool.run_fetch]
    exact Pool.serve_secured (.take strong failed served) holds (fun _ => Or.inr ⟨rfl, strong⟩)
      false (fun e mid before => failedRun e before) fun ref mid after => servedRun ref after
  | @fetch taken other permission next failed served failedRun servedRun =>
    rw [Pool.run_fetch]
    exact Pool.serve_secured (.fetch failed served) holds Or.inl
      false (fun e mid before => failedRun e before) fun ref mid after => servedRun ref after
  | look _ ih =>
    rw [Pool.run]
    exact ih _ holds
  | edit _ ih =>
    rw [Pool.run]
    exact ih holds

theorem Awaits.retry {txn : TransactionId} {page : PageId} {mode : LockMode} {pool : Pool}
    {request : Waiting α} (awaits : Awaits txn page mode pool request) :
    Secured txn page mode (pool.retry txn request) := by
  obtain ⟨taken, holds, secures⟩ := awaits
  obtain ⟨asked, permission, next⟩ := request
  rw [Pool.retry_eq_serve]
  have whole := secures
  cases secures with
  | take strong failed served =>
    exact Pool.serve_secured whole holds (fun _ => Or.inr ⟨rfl, strong⟩) true
      (fun e mid before => (failed e).run before) fun ref mid after => (served ref).run after
  | fetch failed served =>
    exact Pool.serve_secured whole holds Or.inl true
      (fun e mid before => (failed e).run before) fun ref mid after => (served ref).run after

theorem Awaits.stays {txn : TransactionId} {page : PageId} {mode : LockMode} {before after : Pool}
    {request : Waiting α} (awaits : Awaits txn page mode before request)
    (kept : before.locks.AtLeast txn page mode → after.locks.AtLeast txn page mode) :
    Awaits txn page mode after request := by
  obtain ⟨taken, holds, secures⟩ := awaits
  exact ⟨taken, fun already => kept (holds already), secures⟩

/-! ## Adopting pages -/

namespace Pool

theorem install_control (pool : Pool) (page : PageId) (ref : PageRef) :
    SameControl pool (pool.install page ref).1 := by
  simp only [install]
  cases pool.cache.peek? page with
  | some cached =>
    dsimp only
    split
    · exact setCache_control ..
    · exact setCache_control ..
  | none =>
    have room : SameControl pool pool.makeRoom.1 := by
      rcases pool.makeRoom_cases with ⟨sheds, _⟩ | ⟨sheds, _⟩
      · exact sheds.control
      · exact sheds.control
    dsimp only
    cases made : pool.makeRoom with
    | mk roomy answer =>
      rw [made] at room
      cases answer with
      | error e => exact room
      | ok _ => exact room.trans (setCache_control ..)

theorem adopt_control (txn : TransactionId) (refs : List PageRef) (pool : Pool) :
    SameControl pool (pool.adopt txn refs).1 := by
  induction refs generalizing pool with
  | nil => exact .refl pool
  | cons ref rest ih =>
    simp only [adopt]
    have marked := pool.setObject_control ref ((pool.object ref).markDirty txn)
    generalize pool.setObject ref ((pool.object ref).markDirty txn) = mid at marked
    have filed := mid.install_control (mid.object ref).id ref
    cases installed : mid.install (mid.object ref).id ref with
    | mk after answer =>
      rw [installed] at filed
      cases answer with
      | error e => exact marked.trans filed
      | ok _ => exact (marked.trans filed).trans (ih after)

/-- Adopting the pages that were changed takes no lock away. -/
theorem finish_secured {txn : TransactionId} {page : PageId} {mode : LockMode}
    {result : Pool × Progress Answer} (secured : Secured txn page mode result) :
    Secured txn page mode (finish txn result) := by
  rcases finish_cases txn result with same | ⟨refs, answers, adopts, passed⟩
  · rwa [same]
  · have locks := (result.1.adopt_control txn refs).locks
    rw [← adopts] at locks
    obtain ⟨pool, progress⟩ := result
    obtain rfl : progress = _ := answers
    generalize finish txn _ = finished at locks passed
    obtain ⟨after, outcome⟩ := finished
    rcases passed with rfl | ⟨e, rfl⟩
    · show after.locks.AtLeast txn page mode
      rw [locks]
      exact secured
    · trivial

end Pool

/-! ## What operations secure -/

namespace HeapTable

variable {table : TableId} {page : PageId}

theorem secures_get (record : RecordId) :
    Secures record.page .shared false (get table record) := by
  simp only [get, onOwnPage]
  split
  · refine .take (LockMode.Covers.refl _) (fun e => .fail e) fun ref => .look fun seen => ?_
    cases SlottedPage.get seen.data record.slot with
    | error e => exact .fail _
    | ok tuple => exact .answer tuple
  · exact .fail _

theorem secures_delete (record : RecordId) :
    Secures record.page .exclusive false (delete table record) := by
  simp only [delete, onOwnPage]
  split
  · refine .take (LockMode.Covers.refl _) (fun e => .fail e) fun ref => .look fun seen => ?_
    cases SlottedPage.delete seen.data record.slot with
    | error e => exact .fail _
    | ok data => exact .edit (.answer _)
  · exact .fail _

/-- A scan that has taken a page keeps it while it goes on. -/
theorem secures_scanFrom_taken {mode : LockMode} (left : Nat) (index : UInt32) (found : Rows) :
    Secures page mode true (scanFrom table left index found) := by
  induction left generalizing index found with
  | zero => exact .answer found
  | succ left ih =>
    refine .fetch (fun e => .fail e) fun ref => .look fun seen => ?_
    cases SlottedPage.liveTuples? seen.data with
    | error e => exact .fail _
    | ok tuples => exact ih (index + 1) _

/-- A scan takes every page that it has before it. -/
theorem secures_scanFrom (own : page.table = table) (left : Nat) (index : UInt32) (found : Rows)
    (few : index.toNat + left < 4294967296) (lower : index.toNat ≤ page.index.toNat)
    (upper : page.index.toNat < index.toNat + left) :
    Secures page .shared false (scanFrom table left index found) := by
  induction left generalizing index found with
  | zero => omega
  | succ left ih =>
    by_cases here : page.index = index
    · have same : page = ⟨table, index⟩ := by
        rw [← own, ← here]
      rw [same]
      refine .take (LockMode.Covers.refl _) (fun e => .fail e) fun ref => .look fun seen => ?_
      cases SlottedPage.liveTuples? seen.data with
      | error e => exact .fail _
      | ok tuples => exact secures_scanFrom_taken left (index + 1) _
    · refine .fetch (fun e => .fail e) fun ref => .look fun seen => ?_
      cases SlottedPage.liveTuples? seen.data with
      | error e => exact .fail _
      | ok tuples =>
        have apart : page.index.toNat ≠ index.toNat := fun same => here (UInt32.toNat_inj.mp same)
        have next : (index + 1).toNat = index.toNat + 1 := by
          rw [UInt32.toNat_add]
          show (index.toNat + 1) % 4294967296 = _
          omega
        refine ih (index + 1) _ ?_ ?_ ?_
        · omega
        · omega
        · omega

end HeapTable

/-- The pages that an operation locks whenever it succeeds, if it is begun in this pool. -/
inductive Operation.Targets (called : Pool) : Operation → PageId → LockMode → Prop where
  | fetch (page : PageId) (permission : Permission) :
    Targets called (.fetch page permission) page permission.mode
  | get (table : TableId) (record : RecordId) :
    Targets called (.get table record) record.page .shared
  | scan {table : TableId} {store : StoreRef} {page : PageId} {count : UInt32}
    (counted : (called.store store).medium.numPages = .ok count) (own : page.table = table)
    (inside : page.index < count) : Targets called (.scan table store) page .shared
  | delete (table : TableId) (record : RecordId) :
    Targets called (.mutate table (.delete record)) record.page .exclusive

namespace Pool

variable {pool : Pool} {txn : TransactionId} {op : Operation} {page : PageId} {mode : LockMode}

theorem countPages_eq_ok {store : StoreRef} {count counted : UInt32}
    (expected : (pool.store store).medium.numPages = .ok count)
    (answer : (pool.countPages store).2 = .ok counted) : counted = count := by
  rcases pool.countPages_result store with reached | stopped
  · rw [reached, expected] at answer
    exact (Except.ok.inj answer).symm
  · rw [stopped] at answer
    cases answer

/-- An operation that is begun secures its targets. -/
theorem submit_secured (heaps : pool.OverHeaps) (targets : op.Targets pool page mode) :
    Secured txn page mode (pool.submit txn op) := by
  refine finish_secured ?_
  cases targets with
  | fetch page permission =>
    have secures : Secures page permission.mode false (pool.programOf (.fetch page permission)) :=
      .take (LockMode.Covers.refl _) (fun e => .fail e) fun ref => .answer _
    exact secures.run fun already => by cases already
  | get table record =>
    exact ((HeapTable.secures_get record).map Answer.tuple).run fun already => by cases already
  | @scan table store page count counted own inside =>
    show Secured txn page .shared (pool.run txn ((HeapTable.scan table store).map Answer.rows))
    simp only [HeapTable.scan, Program.map]
    rw [Pool.run]
    cases answered : pool.countPages store with
    | mk mid r =>
      cases r with
      | error e => trivial
      | ok answer =>
        have same : answer = count := countPages_eq_ok counted (by rw [answered])
        subst same
        have secures : Secures page .shared false (HeapTable.scanFrom table answer.toNat 0 []) := by
          refine HeapTable.secures_scanFrom own _ 0 [] ?_ ?_ ?_
          · have bound := answer.toNat_lt
            show 0 + answer.toNat < 4294967296
            omega
          · exact Nat.zero_le _
          · have below : page.index.toNat < answer.toNat := inside
            show page.index.toNat < 0 + answer.toNat
            omega
        exact (secures.map Answer.rows).run fun already => by cases already
  | delete table record =>
    simp only [programOf, findTable]
    cases known : pool.catalog.file? table with
    | none => trivial
    | some file =>
      have heap := (heaps table file known).1
      dsimp only
      rw [heap]
      exact ((HeapTable.secures_delete record).map Answer.changed).run fun already => by
        cases already

theorem resume_secured {request : Waiting Answer} (awaits : Awaits txn page mode pool request) :
    Secured txn page mode (pool.resume txn request) := finish_secured awaits.retry

end Pool

end TransactionalPages
