import TransactionalPages.Proofs.Catalog
import TransactionalPages.Proofs.NoSteal
import TransactionalPages.Proofs.Ownership

/-!
# No residue

Tables are added, removed and replaced while transactions run, also by tables
over other stores with pages of other sizes, and any read or write may be
stopped. As long as pages are changed by operations on heap tables only, a handle
that ends leaves nothing of its transaction behind: no lock, no edge, and no dirty
page but those on which it gave its lock back too early and did not take it again.
-/

namespace TransactionalPages

/-- A change that leaves the pages to operations on heap tables. -/
def Incident.Lawful (pool : Pool) : Incident → Prop
  | .deed (.act _) => True
  | .deed (.release _ _) => True
  | .deed (.discard _) => True
  | .deed (.write ..) => False
  | .deed (.mark ..) => False
  | .store _ => True
  | .register _ table => ∃ ref, ref.index < pool.stores.size ∧
    table = HeapTable.table (pool.store ref).table (pool.store ref).pageSize ref
  | .remove _ => True

/-- The stores in which a program may allocate are there, for the tables that it says. -/
def Purpose.Placed {α : Type} (purpose : Purpose α) (pool : Pool) : Prop :=
  ∀ store table, purpose.allocates store table →
    store.index < pool.stores.size ∧ (pool.store store).medium.table = table

namespace Purpose

variable {α : Type} {purpose : Purpose α} {pool before after : Pool}

theorem Placed.suits (placed : purpose.Placed pool) : purpose.Suits pool :=
  fun store table allocates => (placed store table allocates).2

theorem Placed.congr (placed : purpose.Placed before) (stores : Pool.SameStores before after) :
    purpose.Placed after := by
  intro store table allocates
  obtain ⟨inside, belongs⟩ := placed store table allocates
  exact ⟨Nat.lt_of_lt_of_eq inside stores.count.symm, (stores.table store).trans belongs⟩

theorem Placed.addStore (placed : purpose.Placed pool) (new : Store) :
    purpose.Placed (pool.addStore new).1 := by
  intro store table allocates
  obtain ⟨inside, belongs⟩ := placed store table allocates
  refine ⟨Nat.lt_of_lt_of_eq (Nat.lt_succ_of_lt inside) (Array.size_push _).symm, ?_⟩
  rw [Pool.store_addStore, if_neg (Nat.ne_of_lt inside)]
  exact belongs

end Purpose

theorem Operation.purpose_placed {pool : Pool} (heaps : pool.OverHeaps) (op : Operation) :
    (op.purpose pool.catalog).Placed pool := by
  rintro store table ⟨tuple, file, _, known, rfl⟩
  exact (heaps table file known).2

namespace Pool

variable {pool : Pool}

theorem OverHeaps.addStore (heaps : pool.OverHeaps) (store : Store) :
    (pool.addStore store).1.OverHeaps := by
  intro id file known
  obtain ⟨heap, inside, belongs⟩ := heaps id file known
  have same : (pool.addStore store).1.store file.store = pool.store file.store := by
    rw [store_addStore, if_neg (Nat.ne_of_lt inside)]
  refine ⟨?_, Nat.lt_of_lt_of_eq (Nat.lt_succ_of_lt inside) (Array.size_push _).symm, ?_⟩
  · rw [same]
    exact heap
  · rw [same]
    exact belongs

theorem OverHeaps.register (heaps : pool.OverHeaps) (name : String) {ref : StoreRef}
    (inside : ref.index < pool.stores.size) :
    ({ pool with
      catalog := pool.catalog.add name (pool.store ref).table
        (HeapTable.table (pool.store ref).table (pool.store ref).pageSize ref) } :
      Pool).OverHeaps := by
  intro id file known
  rcases Catalog.file?_add known with ⟨rfl, rfl⟩ | old
  · exact ⟨rfl, inside, rfl⟩
  · exact heaps id file old

/-- A pool with another catalog of heap tables. -/
theorem Owned.recatalog {strayed : TransactionId → PageId → Prop} (owned : pool.Owned strayed)
    {catalog : Catalog Table}
    (heaps : ({ pool with catalog := catalog } : Pool).OverHeaps) :
    ({ pool with catalog := catalog } : Pool).Owned strayed :=
  ⟨owned.locks, heaps, owned.named, owned.owned⟩

end Pool

namespace Interleaving

variable {s : Interleaving} {strayed : TransactionId → PageId → Prop}

/-- Dirty pages are owned, and what is suspended can be taken up with the tables that there were
when it was begun. -/
structure Poised (strayed : TransactionId → PageId → Prop) (s : Interleaving) : Prop where
  owned : s.pool.Owned strayed
  pending : ∀ r ∈ s.suspended, ∃ catalog,
    Pending r.txn (r.op.purpose catalog) s.pool r.request ∧ (r.op.purpose catalog).Placed s.pool

theorem Poised.change (poised : s.Poised strayed) {after : Pool} {log : List Event}
    (owned : after.Owned strayed)
    (placed : ∀ purpose : Purpose Answer, purpose.Placed s.pool → purpose.Placed after)
    (fewer : ∀ r ∈ s.suspended, ∀ page, after.locks.holds r.txn page →
      s.pool.locks.holds r.txn page) :
    Poised strayed { s with pool := after, log := log } := by
  refine ⟨owned, fun r listed => ?_⟩
  obtain ⟨catalog, pending, there⟩ := poised.pending r listed
  exact ⟨catalog, pending.fewer (fewer r listed r.request.page), placed _ there⟩

theorem Poised.fades (poised : s.Poised strayed) {after : Pool}
    (fades : Pool.Fades s.pool after) : Poised strayed { s with pool := after } := by
  refine poised.change (poised.owned.fades fades) (fun _ there => there.congr fades.stores)
    fun r _ page held => ?_
  rwa [fades.control.locks] at held

theorem Poised.settle (poised : s.Poised strayed) {txn : TransactionId} {op : Operation}
    {catalog : Catalog Table} {result : Pool × Progress Answer}
    (placed : (op.purpose catalog).Placed s.pool)
    (minds : Pool.Minds strayed txn s.pool result.1)
    (waits : ∀ request, result.2 = .waiting request →
      Pending txn (op.purpose catalog) result.1 request)
    {others : List Suspension} (apart : ∀ r ∈ others, r ∈ s.suspended ∧ r.txn ≠ txn)
    (log : List Event) : (settle others log txn op result).Poised strayed := by
  have kept : ∀ r ∈ others, ∃ catalog,
      Pending r.txn (r.op.purpose catalog) result.1 r.request ∧
        (r.op.purpose catalog).Placed result.1 := by
    intro r listed
    obtain ⟨there, other⟩ := apart r listed
    obtain ⟨old, pending, stocked⟩ := poised.pending r there
    exact ⟨old, pending.stays fun page => minds.others r.txn page other,
      stocked.congr minds.stores⟩
  obtain ⟨after, progress⟩ := result
  cases progress with
  | done answer => exact ⟨minds.owned, kept⟩
  | waiting request =>
    refine ⟨minds.owned, fun r listed => ?_⟩
    rcases List.mem_append.mp listed with before | new
    · exact kept r before
    · rw [List.mem_singleton.mp new]
      exact ⟨catalog, waits request rfl, placed.congr minds.stores⟩

theorem Poised.step (poised : s.Poised strayed) (action : Action) :
    (s.step action).Poised strayed := by
  have heaps := poised.owned.heaps
  cases action with
  | call txn op =>
    rw [Interleaving.step]
    split
    · exact poised
    next free =>
      have placed := Operation.purpose_placed heaps op
      have course : Course txn (op.purpose s.pool.catalog) s.pool (s.pool.run txn _) :=
        (Operation.orderly heaps op).course placed.suits .start fun page here =>
          absurd here (by simp)
      obtain ⟨minds, waits⟩ := poised.owned.finished course
      exact poised.settle placed minds waits
        (fun r listed => ⟨listed, Sound.not_suspended free r listed⟩) s.log
  | retry txn =>
    rw [Interleaving.step]
    split
    · exact poised
    next r found =>
      obtain ⟨listed, same⟩ := mem_of_found found
      obtain ⟨catalog, pending, placed⟩ := poised.pending r listed
      rw [same] at pending
      obtain ⟨minds, waits⟩ := poised.owned.finished (pending.course placed.suits)
      exact poised.settle placed minds waits (fun q listed => mem_of_rest listed) s.log
  | flush txn =>
    rw [Interleaving.step]
    split
    · exact poised
    · exact poised.fades (Pool.flushEach_fades ..)
  | flushAll cached =>
    rw [Interleaving.step]
    split
    · exact poised.fades (Pool.flushCached_fades ..)
    · exact poised
  | finish txn ending =>
    rw [Interleaving.step]
    split
    · exact poised
    next free =>
      have minds := poised.owned.ending txn ending
      refine poised.change minds.owned (fun _ there => there.congr minds.stores)
        fun r listed page held => ?_
      have other := Sound.not_suspended free r listed
      rwa [LockTable.holds_congr (minds.others r.txn page other)] at held

theorem Poised.undergo (poised : s.Poised strayed) {incident : Incident}
    (lawful : incident.Lawful s.pool)
    (strays : ∀ txn page, incident = .deed (.release txn page) →
      s.pool.dirtier? page = some txn → strayed txn page) :
    (s.undergo incident).Poised strayed := by
  cases incident with
  | deed deed =>
    cases deed with
    | act action => exact poised.step action
    | write ref start new => exact absurd lawful id
    | mark ref dirtier => exact absurd lawful id
    | release txn page =>
      refine poised.change (poised.owned.releaseLock (strays txn page rfl)) (fun _ there => there)
        fun r _ p held => ?_
      exact ((LockTable.release_holds ..).mp held).2
    | discard page => exact poised.fades (s.pool.discard_fades page)
  | store store =>
    have owned := poised.owned
    refine poised.change ⟨owned.locks, owned.heaps.addStore store, owned.named, owned.owned⟩
      (fun _ there => there.addStore store) fun _ _ _ held => held
  | register name table =>
    obtain ⟨ref, inside, rfl⟩ := lawful
    exact poised.change (poised.owned.recatalog (poised.owned.heaps.register name inside))
      (fun _ there => there) fun _ _ _ held => held
  | remove table =>
    have heaps : ({ s.pool with catalog := (s.pool.catalog.remove table).1 } : Pool).OverHeaps :=
      fun id file known => poised.owned.heaps id file (Catalog.file?_remove known)
    exact poised.change (poised.owned.recatalog heaps) (fun _ there => there)
      fun _ _ _ held => held

/-- All that happens on the way leaves the pages to operations on heap tables. -/
def Lawful (s : Interleaving) : List Incident → Prop
  | [] => True
  | incident :: rest => incident.Lawful s.pool ∧ (s.undergo incident).Lawful rest

/-- Somewhere on the way a transaction gives back the lock on a page that it has made dirty. -/
def Strays (s : Interleaving) : List Incident → TransactionId → PageId → Prop
  | [], _, _ => False
  | incident :: rest, txn, page =>
    (incident = .deed (.release txn page) ∧ s.pool.dirtier? page = some txn) ∨
      (s.undergo incident).Strays rest txn page

theorem Poised.undergoAll (poised : s.Poised strayed) {incidents : List Incident}
    (lawful : s.Lawful incidents)
    (strays : ∀ txn page, s.Strays incidents txn page → strayed txn page) :
    (s.undergoAll incidents).Poised strayed := by
  induction incidents generalizing s with
  | nil => exact poised
  | cons incident rest ih =>
    have next : (s.undergo incident).Poised strayed :=
      poised.undergo lawful.1 fun txn page same dirty => strays txn page (Or.inl ⟨same, dirty⟩)
    exact ih next lawful.2 fun txn page later => strays txn page (Or.inr later)

/-- However a handle ends, nothing is left of its transaction but its tag on pages whose locks it
gave back while they were dirty and that it does not hold when it ends, unless a fault stops it. -/
theorem endings_leave_nothing {config : Config} {catalog : Catalog Table} {stores : Array Store}
    {objects : Array Page} {pool reached : Pool}
    (created : Pool.create config catalog stores objects = .ok pool) (heaps : pool.OverHeaps)
    (incidents : List Incident) (lawful : (start pool).Lawful incidents)
    (reaches : ((start pool).undergoAll incidents).pool = reached) (txn : TransactionId)
    (ending : Ending) (handled : ending ≠ .commit) :
    Pool.Settles ((start pool).Strays incidents) txn reached ending := by
  have poised : (start pool).Poised ((start pool).Strays incidents) :=
    ⟨(Pool.coherent_create created heaps).ownership, fun _ listed => absurd listed List.not_mem_nil⟩
  rw [← reaches]
  exact (poised.undergoAll lawful fun _ _ strays => strays).owned.settles txn handled

/-- A tuple is inserted, and its table is replaced by one over another store. -/
def replacement (store : Store) : List Incident :=
  [.deed (.act (.call ⟨1⟩ (.mutate ⟨1⟩ (.insert #[7])))), .store store,
    .register "b" (HeapTable.table ⟨1⟩ store.pageSize ⟨1⟩)]

/-- A store without pages that takes no writes and answers no reads. -/
def dead : Store :=
  { Store.reliable (.memory ⟨⟨1⟩, 32, #[]⟩) with
    reads := ⟨0, fun _ => false⟩
    writes := ⟨0, fun _ => false⟩ }

/-- A table is replaced while a tuple waits to be committed. The commit fails, and so does the
abort that follows it, and the transaction is gone. -/
theorem replaced_table_leaves_nothing : ∃ pool reached,
    Pool.create (Config.sized 2 64) (Catalog.single "a" blankPair.medium) #[blankPair] #[] =
      .ok pool ∧
    ((start pool).undergoAll (replacement dead)).pool = reached ∧
    (start pool).Lawful (replacement dead) ∧
    (∀ page, ¬(start pool).Strays (replacement dead) ⟨1⟩ page) ∧
    reached.locks.mode? ⟨1⟩ ⟨⟨1⟩, 0⟩ = some .exclusive ∧
    (reached.commit ⟨1⟩).2 = .error (.storage (.io .injected)) ∧
    (reached.commit ⟨1⟩).1.locks.mode? ⟨1⟩ ⟨⟨1⟩, 0⟩ = some .exclusive ∧
    Pool.Settles ((start pool).Strays (replacement dead)) ⟨1⟩ reached .close ∧
    Pool.Gone ((start pool).Strays (replacement dead)) ⟨1⟩ reached
      (reached.commitHandle ⟨1⟩).1 := by
  have created : Pool.create (Config.sized 2 64) (Catalog.single "a" blankPair.medium)
    #[blankPair] #[] = .ok ⟨Config.sized 2 64, Catalog.single "a" blankPair.medium, #[blankPair],
      #[], .empty, .empty, .empty 2⟩ := rfl
  refine ⟨_, _, created, rfl, ?_⟩
  have lawful : (start ⟨Config.sized 2 64, Catalog.single "a" blankPair.medium, #[blankPair], #[],
      .empty, .empty, .empty 2⟩).Lawful (replacement dead) :=
    ⟨trivial, trivial, ⟨⟨1⟩, by decide +kernel, congrArg₂ (HeapTable.table · · ⟨1⟩)
      (by decide +kernel) (by decide +kernel)⟩, trivial⟩
  have settles := endings_leave_nothing created (Pool.heaps_single created) _ lawful rfl ⟨1⟩ .close
    (by decide)
  have stays : ∀ page, ¬(start ⟨Config.sized 2 64, Catalog.single "a" blankPair.medium,
      #[blankPair], #[], .empty, .empty, .empty 2⟩).Strays (replacement dead) ⟨1⟩ page := by
    rintro page (⟨same, _⟩ | ⟨same, _⟩ | ⟨same, _⟩ | none)
    · cases same
    · cases same
    · cases same
    · exact none
  refine ⟨lawful, stays, by decide +kernel, by decide +kernel, by decide +kernel, settles, ?_⟩
  rcases settles.gone with gone | ⟨answer, _⟩
  · exact gone
  · exact absurd answer (by decide +kernel)

/-- A tuple is inserted, and the lock on its page is given back. -/
def forsaken : List Incident :=
  [.deed (.act (.call ⟨1⟩ (.mutate ⟨1⟩ (.insert #[7])))), .deed (.release ⟨1⟩ ⟨⟨1⟩, 0⟩)]

/-- A store in a file that has no page size. -/
def unsized : Store := .reliable (.file (.create ⟨1⟩ 0))

/-- A commit passes over a page that its transaction has given back, whose tag then stays. A drop
that meets a file without a page size is stopped by a fault, and the lock stays. -/
theorem given_back_page_keeps_tag : ∃ pool tagged stuck,
    Pool.create (Config.sized 2 64) (Catalog.single "a" blankPair.medium) #[blankPair] #[] =
      .ok pool ∧
    ((start pool).Lawful forsaken ∧ ((start pool).undergoAll forsaken).pool = tagged ∧
      (tagged.commitHandle ⟨1⟩).2 = .ok () ∧
      (tagged.commitHandle ⟨1⟩).1.dirtier? ⟨⟨1⟩, 0⟩ = some ⟨1⟩) ∧
    (start pool).Lawful (replacement unsized) ∧
      ((start pool).undergoAll (replacement unsized)).pool = stuck ∧
      (stuck.dropHandle ⟨1⟩).2 = .error (.storage (.fault .emptyPageSize)) ∧
      (stuck.dropHandle ⟨1⟩).1.locks.mode? ⟨1⟩ ⟨⟨1⟩, 0⟩ = some .exclusive := by
  refine ⟨⟨Config.sized 2 64, Catalog.single "a" blankPair.medium, #[blankPair], #[], .empty,
    .empty, .empty 2⟩, _, _, rfl, ⟨⟨trivial, trivial, trivial⟩, rfl, ?_, ?_⟩, ?_, rfl, ?_, ?_⟩
  · decide +kernel
  · decide +kernel
  · exact ⟨trivial, trivial, ⟨⟨1⟩, by decide +kernel, congrArg₂ (HeapTable.table · · ⟨1⟩)
      (by decide +kernel) (by decide +kernel)⟩, trivial⟩
  · decide +kernel
  · decide +kernel

end Interleaving

end TransactionalPages
