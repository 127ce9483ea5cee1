import TransactionalPages.Proofs.Modest
import TransactionalPages.Proofs.Visible

/-!
# Mutations that fail

An insert can fail after it has gone through many pages, and has taken locks, filled
the cache and allocated a page on the way. A mutation writes to a page last of all,
so that one which fails has not written to any: all pages are to be seen as before,
whoever has made them dirty, and the transaction has at most one lock and the table
at most one page more. That is so for the whole of a mutation that waits again and
again before it fails, whatever others do in the meantime.
-/

namespace TransactionalPages

theorem Medium.extent_allocate (m : Medium) : m.allocate.1.extent ≤ m.extent + 1 := by
  cases m with
  | memory s =>
    show s.allocate.1.blocks.size ≤ s.blocks.size + 1
    rcases s.allocate_blocks with same | grown
    · rw [same]
      exact Nat.le_succ _
    · rw [grown, Array.size_push]
  | file s =>
    show s.allocate.1.file.length / s.allocate.1.pageSize ≤ s.file.length / s.pageSize + 1
    rcases s.allocate_file with same | ⟨count, counted, few, grown, _⟩
    · rw [same]
      exact Nat.le_succ _
    · obtain ⟨positive, total⟩ := FileStore.numPages_eq_ok counted
      have below : count.toNat ≤ s.file.length / s.pageSize := by
        rw [total, UInt32.toNat_ofNat']
        exact Nat.mod_le ..
      rw [grown, FileStore.offset_next few]
      show (count.toNat + 1) * s.pageSize / s.pageSize ≤ _
      rw [Nat.mul_div_cancel _ positive]
      exact Nat.succ_le_succ below
  | foreign s => exact s.elim

/-! ## Turns -/

namespace Pool

variable {base before mid after : Pool} {txn : TransactionId} {id : TableId} {spare left : Bool}

/-- No store is written to; only that of a table may have been given a page more. -/
def Allots (id : TableId) (before after : Pool) : Prop :=
  ∀ store, (after.store store).medium = (before.store store).medium ∨
    (before.StoreOf id store ∧
      (after.store store).medium = (before.store store).medium.allocate.1)

/-- The number of pages that a table has in its store. -/
def extent (pool : Pool) (id : TableId) : Nat :=
  match pool.catalog.file? id with
  | some file => (pool.store file.store).medium.extent
  | none => 0

theorem Grows.allots (grows : Grows (before.StoreOf id) spare left before after) :
    Allots id before after := fun store =>
  (grows.media store).imp_right fun ⟨⟨own, _, _⟩, grown⟩ => ⟨own, grown⟩

theorem Grows.extent (grows : Grows (before.StoreOf id) spare left before after)
    (catalog : after.catalog = before.catalog) :
    after.extent id - before.extent id + left.toNat ≤ spare.toNat := by
  have fewer : left.toNat ≤ spare.toNat := Bool.toNat_le_toNat grows.fewer
  simp only [Pool.extent]
  rw [catalog]
  cases before.catalog.file? id with
  | none => simpa using fewer
  | some file =>
    dsimp only
    rcases grows.media file.store with same | ⟨⟨_, some, none⟩, grown⟩
    · rw [same]
      simpa using fewer
    · have one := (before.store file.store).medium.extent_allocate
      rw [grown, some, none, Bool.toNat_true, Bool.toNat_false]
      omega

/-- A turn that did no harm: what was there is as it was, no store was written to, the transaction
has all the locks that it had, and so have the others. -/
structure Harmless (txn : TransactionId) (id : TableId) (before after : Pool) : Prop
    extends Untouched before after where
  stores : Allots id before after
  kept : ∀ page mode, before.locks.AtLeast txn page mode → after.locks.AtLeast txn page mode
  others : ∀ a page, a ≠ txn → after.locks.mode? a page = before.locks.mode? a page

/-- A turn that does not end well has only been on its way. -/
theorem Formed.finish_drift (formed : base.Formed) {op : Operation}
    {result : Pool × Progress Answer} (course : Course txn (op.purpose base.catalog) base result)
    (unsuccessful : ∀ answer, (finish txn result).2 ≠ .done (.ok answer)) :
    finish txn result = result ∧ Drift txn base result.1 := by
  cases course with
  | waits drift => exact ⟨rfl, drift⟩
  | fails drift => exact ⟨rfl, drift⟩
  | @answers mid answer drift reads =>
    rw [finish_answer reads.1] at unsuccessful
    exact absurd rfl (unsuccessful answer)
  | @writes mid page ref new drift held =>
    have shelved := (drift.formed formed).shelved page ref held
    have ended : finish txn _ = _ := finish_edited shelved.known shelved.id held new
    exact absurd (congrArg Prod.snd ended) (unsuccessful (.changed [ref]))

end Pool

/-! ## What others do -/

/-- The transaction that acts or is let go of a page, if it is one. -/
def Deed.txn? : Deed → Option TransactionId
  | act action => action.txn?
  | release txn _ => some txn
  | _ => none

/-- The transaction whose operation is called or taken up. -/
def Deed.turn? : Deed → Option TransactionId
  | act (.call txn _) => some txn
  | act (.retry txn) => some txn
  | _ => none

theorem Deed.txn?_of_turn {deed : Deed} {txn : TransactionId} (turn : deed.turn? = some txn) :
    deed.txn? = some txn := by
  cases deed with
  | act action =>
    cases action with
    | call a op => exact turn
    | retry a => exact turn
    | flush | flushAll | finish => cases turn
  | write | mark | release | discard => cases turn

namespace Interleaving

variable {s : Interleaving} {called : Pool} {txn : TransactionId} {id : TableId} {op : Operation}
  {e : PoolError} {spare : Bool} {deeds : List Deed}

/-- Others leave a transaction its locks, and the tables registered. -/
theorem Ready.step_beside (ready : s.Ready) {action : Action} (other : action.txn? ≠ some txn) :
    (s.step action).pool.catalog = s.pool.catalog ∧
      ∀ page, (s.step action).pool.locks.mode? txn page = s.pool.locks.mode? txn page := by
  have unchanged : s.pool.catalog = s.pool.catalog ∧
      ∀ page, s.pool.locks.mode? txn page = s.pool.locks.mode? txn page := ⟨rfl, fun _ => rfl⟩
  cases action with
  | call a op =>
    have differ : txn ≠ a := fun same => other (congrArg some same.symm)
    rw [Interleaving.step]
    split
    · exact unchanged
    · rw [settle_pool]
      obtain ⟨spares, _⟩ := ready.formed.submit a op
      exact ⟨spares.shape.catalog, fun page => spares.others txn page differ⟩
  | retry a =>
    have differ : txn ≠ a := fun same => other (congrArg some same.symm)
    rw [Interleaving.step]
    split
    · exact unchanged
    next r found =>
      rw [settle_pool]
      obtain ⟨spares, _⟩ := ready.formed.resume (ready.pending_found found)
      exact ⟨spares.shape.catalog, fun page => spares.others txn page differ⟩
  | flush a =>
    rw [Interleaving.step]
    split
    · exact unchanged
    · have control := s.pool.flushPages_control a
      exact ⟨control.catalog, fun page => congrArg (·.mode? txn page) control.locks⟩
  | flushAll cached =>
    rw [Interleaving.step]
    split
    · have control := Pool.flushCached_control cached s.pool
      exact ⟨control.catalog, fun page => congrArg (·.mode? txn page) control.locks⟩
    · exact unchanged
  | finish a ending =>
    have differ : txn ≠ a := fun same => other (congrArg some same.symm)
    rw [Interleaving.step]
    split
    · exact unchanged
    · obtain ⟨_, catalog, others⟩ := Pool.ending_formed ready.formed a ending
      exact ⟨catalog, fun page => others txn page differ⟩

theorem Ready.handle_beside (ready : s.Ready) {deed : Deed} (other : deed.txn? ≠ some txn) :
    (s.handle deed).pool.catalog = s.pool.catalog ∧
      (∀ page, (s.handle deed).pool.locks.mode? txn page = s.pool.locks.mode? txn page) ∧
      ∀ r ∈ (s.handle deed).suspended, r.txn = txn → r ∈ s.suspended := by
  cases deed with
  | act action =>
    have others : action.txn? ≠ some txn := other
    obtain ⟨catalog, modes⟩ := ready.step_beside others
    exact ⟨catalog, modes, (step_others others).1⟩
  | write ref start new =>
    simp only [Interleaving.handle]
    split
    · exact ⟨rfl, fun _ => rfl, fun _ listed _ => listed⟩
    · exact ⟨rfl, fun _ => rfl, fun _ listed _ => listed⟩
  | mark ref dirtier => exact ⟨rfl, fun _ => rfl, fun _ listed _ => listed⟩
  | release a page =>
    have differ : txn ≠ a := fun same => other (congrArg some same.symm)
    refine ⟨rfl, fun q => ?_, fun _ listed _ => listed⟩
    exact (LockTable.release_mode? ..).trans (if_neg fun both => differ both.1)
  | discard page => exact ⟨rfl, fun _ => rfl, fun _ listed _ => listed⟩

/-! ## From the call to the answer -/

/-- A transaction waits until its operation is answered with an error. It does nothing but to try
again, while others go on. -/
def Fails (txn : TransactionId) (op : Operation) (e : PoolError) (s : Interleaving) :
    List Deed → Prop
  | [] => ¬s.isSuspended txn = true ∧ s.log.head? = some (.answered txn op (.error e))
  | deed :: rest =>
    s.isSuspended txn = true ∧ (deed = .act (.retry txn) ∨ deed.txn? ≠ some txn) ∧
      deed.Marks s.pool ∧ (s.handle deed).Fails txn op e rest

instance decidableFails (txn : TransactionId) (op : Operation) (e : PoolError)
    (s : Interleaving) (deeds : List Deed) : Decidable (s.Fails txn op e deeds) :=
  match deeds with
  | [] => inferInstanceAs (Decidable (¬s.isSuspended txn = true ∧
      s.log.head? = some (.answered txn op (.error e))))
  | deed :: rest =>
    have := decidableFails txn op e (s.handle deed) rest
    inferInstanceAs (Decidable (s.isSuspended txn = true ∧
      (deed = .act (.retry txn) ∨ deed.txn? ≠ some txn) ∧ deed.Marks s.pool ∧
        (s.handle deed).Fails txn op e rest))

/-- The pools before and after each turn of a transaction. -/
def turns (txn : TransactionId) (s : Interleaving) : List Deed → List (Pool × Pool)
  | [] => []
  | deed :: rest =>
    if deed.turn? = some txn then
      (s.pool, (s.handle deed).pool) :: (s.handle deed).turns txn rest
    else (s.handle deed).turns txn rest

/-- A turn of an operation that fails in the end has not been a success. -/
theorem Fails.unsuccessful {others : List Suspension} {log : List Event} {own : Operation}
    {result : Pool × Progress Answer}
    (fails : (settle others log txn own result).Fails txn op e deeds)
    (apart : ∀ r ∈ others, r.txn ≠ txn) (answer : Answer) : result.2 ≠ .done (.ok answer) := by
  obtain ⟨after, progress⟩ := result
  rintro rfl
  cases deeds with
  | nil => cases fails.2
  | cons deed rest =>
    obtain ⟨r, listed, same⟩ := (isSuspended_iff _ txn).mp fails.1
    exact apart r listed same

/-- A mutation that was called in a pool is on its way, and so far nothing is lost. -/
structure Underway (txn : TransactionId) (id : TableId) (called : Pool) (spare : Bool)
    (s : Interleaving) : Prop where
  ready : s.Ready
  faithful : s.pool.Faithful
  catalog : s.pool.catalog = called.catalog
  kept : ∀ page mode, called.locks.AtLeast txn page mode → s.pool.locks.AtLeast txn page mode
  modest : ∃ gained, s.pool.Within txn (called.locks.holds txn ·) gained ∧
    ∀ r ∈ s.suspended, r.txn = txn →
      Modest (called.locks.holds txn ·) (called.StoreOf id) gained spare
        (.fetch r.request.page r.request.permission r.request.next)

theorem Underway.beside (underway : Underway txn id called spare s) {deed : Deed}
    (other : deed.txn? ≠ some txn) (marks : deed.Marks s.pool) :
    Underway txn id called spare (s.handle deed) := by
  obtain ⟨catalog, modes, listed⟩ := underway.ready.handle_beside other
  obtain ⟨gained, within, modest⟩ := underway.modest
  refine ⟨underway.ready.handle deed, underway.ready.handle_faithful underway.faithful marks,
    catalog.trans underway.catalog, fun page mode held => ?_, gained, fun page held => ?_,
    fun r now same => modest r (listed r now same) same⟩
  · exact (underway.kept page mode held).congr (modes page)
  · exact within page ((LockTable.holds_congr (modes page)) ▸ held)

/-- One turn of a mutation that was not answered, or with an error. There may be no page left to
spare after it. -/
def Turned (txn : TransactionId) (id : TableId) (called : Pool) (spare : Bool)
    (before after : Interleaving) : Prop :=
  ∃ left, Underway txn id called left after ∧ Pool.Harmless txn id before.pool after.pool ∧
    after.pool.extent id - before.pool.extent id + left.toNat ≤ spare.toNat

theorem Underway.turn (underway : Underway txn id called spare s) {own : Operation}
    {result : Pool × Progress Answer} {others : List Suspension}
    (apart : ∀ r ∈ others, r.txn ≠ txn)
    (course : Course txn (own.purpose s.pool.catalog) s.pool result)
    (restrained : Restrained txn (called.locks.holds txn ·) (called.StoreOf id) spare s.pool result)
    (ready : (settle others s.log txn own (Pool.finish txn result)).Ready)
    (unsuccessful : ∀ answer, (Pool.finish txn result).2 ≠ .done (.ok answer)) :
    Turned txn id called spare s (settle others s.log txn own (Pool.finish txn result)) := by
  obtain ⟨unchanged, drift⟩ := underway.faithful.formed.finish_drift course unsuccessful
  obtain ⟨gained, left, within, grows, waits⟩ := restrained
  have stores : called.StoreOf id = s.pool.StoreOf id := by
    funext store
    simp only [Pool.StoreOf, underway.catalog]
  have catalog := drift.shape.catalog
  have growth := stores ▸ grows
  have harmless : Pool.Harmless txn id s.pool result.1 :=
    ⟨underway.faithful.untouched drift, growth.allots, fun _ _ held => drift.kept held,
      fun _ page other => drift.others other page⟩
  have pool := settle_pool others s.log txn own result
  rw [unchanged] at ready ⊢
  refine ⟨left, ⟨ready, ?_, ?_, fun page mode held => ?_, gained, ?_, fun r listed same => ?_⟩,
    ?_, ?_⟩
  · rw [pool]
    exact underway.faithful.drift drift
  · rw [pool]
    exact catalog.trans underway.catalog
  · rw [pool]
    exact drift.kept (underway.kept page mode held)
  · rw [pool]
    exact within
  · obtain ⟨after, progress⟩ := result
    cases progress with
    | done answer => exact absurd same (apart r listed)
    | waiting request =>
      rcases List.mem_append.mp listed with before | new
      · exact absurd same (apart r before)
      · rw [List.mem_singleton.mp new]
        exact waits request rfl
  · rw [pool]
    exact harmless
  · rw [pool]
    exact growth.extent catalog

/-- A mutation is called. -/
theorem turned_call (ready : s.Ready) (faithful : s.pool.Faithful)
    (free : ¬s.isSuspended txn = true) (id : TableId) (mutation : Mutation)
    (fails : (s.step (.call txn (.mutate id mutation))).Fails txn op e deeds) :
    Turned txn id s.pool true s (s.step (.call txn (.mutate id mutation))) := by
  have apart := Sound.not_suspended free
  have underway : Underway txn id s.pool true s :=
    ⟨ready, faithful, rfl, fun _ _ held => held, none, fun _ held => Or.inl held,
      fun r listed same => absurd same (apart r listed)⟩
  have after := ready.step (.call txn (.mutate id mutation))
  have heaps := faithful.formed.heaps
  rw [Interleaving.step, if_neg free] at fails after ⊢
  exact underway.turn apart ((Operation.orderly heaps _).course
    (Operation.purpose_suits heaps _) .start fun page here => absurd here (by simp))
    ((Pool.modest_mutation heaps id mutation).run fun _ held => Or.inl held) after
    (fails.unsuccessful apart)

/-- A mutation that waits is taken up again. -/
theorem Underway.retry (underway : Underway txn id called spare s)
    (waiting : s.isSuspended txn = true)
    (fails : (s.step (.retry txn)).Fails txn op e deeds) :
    Turned txn id called spare s (s.step (.retry txn)) := by
  have after := underway.ready.step (.retry txn)
  rw [Interleaving.step] at fails after ⊢
  split
  next none =>
    obtain ⟨r, listed, same⟩ := (isSuspended_iff s txn).mp waiting
    exact absurd (List.find?_eq_none.mp none r listed) (by simpa using same)
  next r found =>
    rw [found] at fails after
    obtain ⟨listed, same⟩ := mem_of_found found
    have pending := underway.ready.pending_found found
    have apart : ∀ q ∈ s.suspended.filter fun q => q.txn ≠ txn, q.txn ≠ txn := fun q kept =>
      (mem_of_rest kept).2
    obtain ⟨gained, within, modest⟩ := underway.modest
    exact underway.turn apart
      (pending.course (Operation.purpose_suits underway.faithful.formed.heaps r.op))
      ((modest r listed same).retry within) after (fails.unsuccessful apart)

/-! ## All turns -/

/-- Turns of a mutation that have done no harm, and have allocated no more than what there was to
spare before them. -/
structure Futile (txn : TransactionId) (id : TableId) (called : Pool) (spare : Bool)
    (turns : List (Pool × Pool)) (last : Interleaving) : Prop where
  harmless : ∀ turn ∈ turns, Pool.Harmless txn id turn.1 turn.2
  allotted : (turns.map fun turn => turn.2.extent id - turn.1.extent id).sum ≤ spare.toNat
  underway : ∃ left, Underway txn id called left last

theorem Turned.futile {after last : Interleaving} {turns : List (Pool × Pool)}
    (turned : Turned txn id called spare s after)
    (rest : ∀ left, Underway txn id called left after → Futile txn id called left turns last) :
    Futile txn id called spare ((s.pool, after.pool) :: turns) last := by
  obtain ⟨left, next, harmless, one⟩ := turned
  obtain ⟨all, sum, underway⟩ := rest left next
  refine ⟨fun turn listed => ?_, ?_, underway⟩
  · rcases List.mem_cons.mp listed with rfl | later
    · exact harmless
    · exact all turn later
  · rw [List.map_cons, List.sum_cons]
    exact Nat.le_trans (Nat.add_le_add_left sum _) one

theorem Underway.fails (underway : Underway txn id called spare s)
    (fails : s.Fails txn op e deeds) :
    Futile txn id called spare (s.turns txn deeds) (s.handleAll deeds) := by
  induction deeds generalizing s spare with
  | nil => exact ⟨fun _ listed => absurd listed List.not_mem_nil, Nat.zero_le _, spare, underway⟩
  | cons deed rest ih =>
    obtain ⟨waiting, only, marks, later⟩ := fails
    rw [turns]
    split
    next turn =>
      have again := only.resolve_right (absurd (Deed.txn?_of_turn turn))
      subst again
      exact (underway.retry waiting later).futile fun left next => ih next later
    next turn =>
      have other : deed.txn? ≠ some txn := only.resolve_left (by rintro rfl; exact turn rfl)
      exact ih (underway.beside other marks) later

/-- Turns of a mutation that came to nothing. What they leave behind is a page at the end of the
table and a lock, at most. -/
structure Fruitless (txn : TransactionId) (id : TableId) (called : Pool)
    (turns : List (Pool × Pool)) (last : Pool) : Prop where
  harmless : ∀ turn ∈ turns, Pool.Harmless txn id turn.1 turn.2
  allotted : (turns.map fun turn => turn.2.extent id - turn.1.extent id).sum ≤ 1
  kept : ∀ page mode, called.locks.AtLeast txn page mode → last.locks.AtLeast txn page mode
  gained : ∃ gained, last.Within txn (called.locks.holds txn ·) gained

/-- A mutation that fails changes no data, wherever it fails and however often it has waited
before: not in a turn of its own, and what others do in the meantime is theirs. -/
theorem failed_mutation_changes_nothing {config : Config} {catalog : Catalog Table}
    {stores : Array Store} {objects : Array Page} {pool : Pool}
    (created : Pool.create config catalog stores objects = .ok pool) (heaps : pool.OverHeaps)
    (deeds : List Deed) (tends : (start pool).Tends deeds) {s : Interleaving}
    (reaches : (start pool).handleAll deeds = s) (txn : TransactionId)
    (free : ¬s.isSuspended txn = true) (id : TableId) (mutation : Mutation) (e : PoolError)
    (during : List Deed)
    (fails : (s.handle (.act (.call txn (.mutate id mutation)))).Fails txn (.mutate id mutation) e
      during) :
    Fruitless txn id s.pool
      (s.turns txn (.act (.call txn (.mutate id mutation)) :: during))
      (s.handleAll (.act (.call txn (.mutate id mutation)) :: during)).pool := by
  have coherent := Pool.coherent_create created heaps
  have ready := (ready_start coherent.formed).handleAll deeds
  have faithful := (ready_start coherent.formed).handleAll_faithful coherent.faithful tends
  rw [reaches] at ready faithful
  have futile := (turned_call ready faithful free id mutation fails).futile fun left underway =>
    underway.fails fails
  obtain ⟨_, last⟩ := futile.underway
  obtain ⟨gained, within, _⟩ := last.modest
  have called : (Deed.act (.call txn (.mutate id mutation))).turn? = some txn := rfl
  rw [turns, if_pos called]
  exact ⟨futile.harmless, futile.allotted, last.kept, gained, within⟩

/-- The first two pages are full and dirty, and another transaction has the page after them. -/
def fillsCache : List Deed :=
  [.act (.call ⟨1⟩ (.mutate ⟨1⟩ (.insert (Bytes.zeros 40)))),
    .act (.call ⟨1⟩ (.mutate ⟨1⟩ (.insert (Bytes.zeros 40)))),
    .act (.call ⟨2⟩ (.fetch ⟨⟨1⟩, 2⟩ .readOnly))]

/-- An insert goes through two pages that are full and allocates a third one, for which it has to
wait. When it gets the lock, there is no room in the cache. -/
theorem insert_fails_after_allocation : ∃ pool s,
    Pool.create (Config.sized 2 64) (Catalog.single "a" blankPair.medium) #[blankPair] #[] =
      .ok pool ∧
    (start pool).Tends fillsCache ∧ (start pool).handleAll fillsCache = s ∧
    ¬s.isSuspended ⟨1⟩ = true ∧
    (s.handle (.act (.call ⟨1⟩ (.mutate ⟨1⟩ (.insert (Bytes.zeros 40)))))).Fails ⟨1⟩
      (.mutate ⟨1⟩ (.insert (Bytes.zeros 40))) (.evictionExhausted 2)
      [.act (.finish ⟨2⟩ .abort), .act (.retry ⟨1⟩)] ∧
    (s.turns ⟨1⟩ [.act (.call ⟨1⟩ (.mutate ⟨1⟩ (.insert (Bytes.zeros 40)))),
      .act (.finish ⟨2⟩ .abort), .act (.retry ⟨1⟩)]).map (fun turn =>
        (turn.1.extent ⟨1⟩, turn.2.extent ⟨1⟩, turn.2.locks.mode? ⟨1⟩ ⟨⟨1⟩, 2⟩)) =
      [(2, 3, none), (3, 3, some .exclusive)] ∧
    Fruitless ⟨1⟩ ⟨1⟩ s.pool
      (s.turns ⟨1⟩ [.act (.call ⟨1⟩ (.mutate ⟨1⟩ (.insert (Bytes.zeros 40)))),
        .act (.finish ⟨2⟩ .abort), .act (.retry ⟨1⟩)])
      (s.handleAll [.act (.call ⟨1⟩ (.mutate ⟨1⟩ (.insert (Bytes.zeros 40)))),
        .act (.finish ⟨2⟩ .abort), .act (.retry ⟨1⟩)]).pool := by
  have created : Pool.create (Config.sized 2 64) (Catalog.single "a" blankPair.medium)
    #[blankPair] #[] = .ok _ := rfl
  refine ⟨_, _, created, by decide +kernel, rfl, by decide +kernel, by decide +kernel,
    by decide +kernel, ?_⟩
  exact failed_mutation_changes_nothing created (Pool.heaps_single created) fillsCache
    (by decide +kernel) rfl ⟨1⟩ (by decide +kernel) ⟨1⟩ (.insert (Bytes.zeros 40))
    (.evictionExhausted 2) _ (by decide +kernel)

end Interleaving

end TransactionalPages
