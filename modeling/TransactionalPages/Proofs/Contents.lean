import Mathlib.Data.List.Nodup
import TransactionalPages.Proofs.Ledger
import TransactionalPages.Proofs.Turn

/-!
# The contents of the stores

Over dependable stores that begin with blank pages, the pages of a store always
have the tuples that were inserted by committed transactions, without those that
committed transactions have deleted, and each where it was inserted. Transactions
may take turns at any lock wait and end in any way, and reads, counts and
allocations may fail.
-/

namespace TransactionalPages

/-! ## New pages -/

namespace Pool

variable {pool before after : Pool} {txn : TransactionId} {page : PageId} {data : Bytes}
  {fetches : PageId → Prop}

def Tidy (pool : Pool) : Prop := ∀ ref, (pool.store ref).medium.Tidy

theorem Tidy.congr (tidy : before.Tidy) (tables : SameTables before after) : after.Tidy :=
  fun ref => tables.tidy ref (tidy ref)

/-- A page that a move has added to a store is blank. -/
theorem Move.blank (move : Move txn fetches before after) (coherent : before.Coherent)
    (sized : before.Sized) (tidy : before.Tidy)
    (stored : after.stored? page = some data) :
    before.stored? page = some data ∨
      (before.stored? page = none ∧ data = Bytes.zeros before.config.pageSize) := by
  cases move with
  | @ask p _ mode waited =>
    have view := requestLock_view before txn p mode waited
    exact Or.inl ((congrFun (congrArg View.stored view) page).symm.trans stored)
  | load p =>
    have view := (coherent.load p).2.1
    exact Or.inl ((congrFun (congrArg View.stored view) page).symm.trans stored)
  | release p => exact Or.inl stored
  | count ref =>
    left
    rwa [(before.countPages_sheds ref).stored?] at stored
  | @allocate ref countable =>
    obtain ⟨table, known, read⟩ := stored?_eq_some.mp stored
    have known : before.catalog.file? page.table = some table := known
    have size := sized _ _ known
    rw [allocatePage_eq, store_setStore] at read
    split at read
    next here =>
      obtain ⟨here, _⟩ := here
      subst here
      rcases allocate_medium (before.store table.store) with same | grown
      · rw [same] at read
        exact Or.inl (stored?_eq_some.mpr ⟨table, known, read⟩)
      · rw [grown] at read
        rcases Medium.blank_allocate (tidy _) countable read with old | ⟨new, blank⟩
        · exact Or.inl (stored?_eq_some.mpr ⟨table, known, old⟩)
        · right
          constructor
          · cases absent : before.stored? page with
            | none => rfl
            | some bytes =>
              obtain ⟨other, known', readable⟩ := stored?_eq_some.mp absent
              cases known.symm.trans known'
              exact absurd readable (new _)
          · rw [← size]
            exact congrArg Page.data blank
    next => exact Or.inl (stored?_eq_some.mpr ⟨table, known, read⟩)

theorem Quiet.blank (quiet : Quiet txn fetches before after) (coherent : before.Coherent)
    (sized : before.Sized) (tidy : before.Tidy)
    (stored : after.stored? page = some data) :
    before.stored? page = some data ∨
      (before.stored? page = none ∧ data = Bytes.zeros before.config.pageSize) := by
  induction quiet with
  | refl => exact Or.inl stored
  | tail moves move ih =>
    obtain ⟨middle, tables, _⟩ := Quiet.effect moves coherent
    rcases move.blank middle (sized.congr tables) (tidy.congr tables) stored with
      there | ⟨absent, blank⟩
    · exact ih there
    · right
      rw [tables.config] at blank
      refine ⟨?_, blank⟩
      cases old : before.stored? page with
      | none => rfl
      | some bytes =>
        rw [(Quiet.effect moves coherent).2.2.2 page bytes old] at absent
        cases absent

theorem Quiet.accounted (quiet : Quiet txn fetches before after) (coherent : before.Coherent)
    (dependable : before.Dependable) (tidy : before.Tidy)
    (whole : SlottedPage.headerSize ≤ before.config.pageSize) {log : List Event}
    (accounted : before.view.Accounted log) : after.view.Accounted log := by
  obtain ⟨_, _, drafts, kept⟩ := quiet.effect coherent
  exact accounted.grow whole coherent.small drafts kept fun page data =>
    quiet.blank coherent dependable.pageSize tidy

end Pool

/-! ## Every turn is accounted for -/

namespace Interleaving

structure Accounted (s : Interleaving) : Prop where
  proper : s.Proper
  tidy : s.pool.Tidy
  whole : SlottedPage.headerSize ≤ s.pool.config.pageSize
  view : s.pool.view.Accounted s.log

variable {s : Interleaving}

theorem Accounted.act (accounted : s.Accounted) {txn : TransactionId} {op : Operation}
    {result : Pool × Progress Answer} (effect : Pool.Effect txn op s.pool result)
    (others : List Suspension) :
    (settle others s.log txn op result).pool.view.Accounted
      (settle others s.log txn op result).log := by
  obtain ⟨proper, tidy, whole, view⟩ := accounted
  have coherent := proper.sound.coherent
  have moved : ∀ {mid : Pool} {fetches : PageId → Prop},
      Pool.Quiet txn fetches s.pool mid → mid.view.Accounted s.log :=
    fun quiet => quiet.accounted coherent proper.dependable tidy whole view
  cases effect with
  | waits quiet => exact moved quiet
  | fails quiet =>
    apply (moved quiet).answer
    simp only [Event.change?]
    split <;> simp_all [Except.map]
  | answers quiet _ observes =>
    apply (moved quiet).answer
    cases op with
    | mutate table mutation => exact absurd rfl (observes table mutation)
    | _ => rfl
  | @writes mid after table mutation page ref old new mutates quiet alone visible _ change _ _ _
      view shown =>
    subst mutates
    obtain ⟨midCoherent, _⟩ := quiet.effect coherent
    have only : ∀ a data, mid.view.draft page = some (a, data) → a = txn := by
      intro a data draft
      exact midCoherent.owner_of_holds (LockTable.holds_of_mode alone) draft
    have written := (moved quiet).write only visible change
    rw [← view, ← shown] at written
    exact written

theorem Accounted.step (accounted : s.Accounted) {action : Action}
    (allowed : action.Proper s.pool.catalog) : (s.step action).Accounted := by
  have proper := accounted.proper.step allowed
  have turn := accounted.proper.turn allowed
  generalize s.step action = after at proper turn
  have tables := turn.tables accounted.proper.sound.coherent
  refine ⟨proper, accounted.tidy.congr tables, by rw [tables.config]; exact accounted.whole, ?_⟩
  cases turn with
  | passes => exact accounted.view
  | acts effect => exact accounted.act effect _
  | commits view _ _ lasts =>
    show View.Accounted (Pool.view _) _
    rw [view]
    exact accounted.view.commit lasts
  | rolls view _ _ lost gone =>
    show View.Accounted (Pool.view _) _
    rw [view]
    exact accounted.view.abort lost gone

theorem Accounted.run (accounted : s.Accounted) {actions : List Action}
    (allowed : ∀ action ∈ actions, action.Proper s.pool.catalog) :
    (s.run actions).Accounted ∧ (s.run actions).pool.catalog = s.pool.catalog := by
  induction actions generalizing s with
  | nil => exact ⟨accounted, rfl⟩
  | cons action rest ih =>
    have first := allowed action List.mem_cons_self
    have catalog := ((accounted.proper.turn first).tables accounted.proper.sound.coherent).catalog
    obtain ⟨done, same⟩ := ih (accounted.step first) fun later listed => by
      rw [catalog]
      exact allowed later (List.mem_cons_of_mem _ listed)
    exact ⟨done, same.trans catalog⟩

end Interleaving

/-! ## The tuples of a store -/

namespace Medium

variable {m : Medium} {page : PageId} {p : Page}

/-- The tuples on a page, each with its record. -/
def rowsOn (m : Medium) (page : PageId) : HeapTable.Rows :=
  match m.read page with
  | .ok stored => (SlottedPage.liveTuples stored.data).map fun t => (⟨page, t.1⟩, t.2)
  | .error _ => []

/-- The tuples on all pages. -/
def rows (m : Medium) : HeapTable.Rows :=
  (List.range m.extent).flatMap fun i => m.rowsOn ⟨m.table, UInt32.ofNat i⟩

theorem mem_rowsOn {row : RecordId × Bytes} :
    row ∈ m.rowsOn page ↔
      row.1.page = page ∧
        ∃ p, m.read page = .ok p ∧ SlottedPage.get p.data row.1.slot = .ok row.2 := by
  simp only [rowsOn]
  cases read : m.read page with
  | error e => simp
  | ok p =>
    dsimp only
    rw [List.mem_map]
    constructor
    · rintro ⟨⟨slot, tuple⟩, live, rfl⟩
      exact ⟨rfl, p, rfl, SlottedPage.mem_liveTuples.mp live⟩
    · rintro ⟨here, q, same, live⟩
      cases same
      obtain ⟨⟨there, slot⟩, tuple⟩ := row
      cases here
      exact ⟨(slot, tuple), SlottedPage.mem_liveTuples.mpr live, rfl⟩

theorem nodup_rowsOn (m : Medium) (page : PageId) : (m.rowsOn page).Nodup := by
  simp only [rowsOn]
  split
  · refine (SlottedPage.nodup_liveTuples _).map fun a b same => ?_
    simp only [Prod.mk.injEq, RecordId.mk.injEq, true_and] at same
    exact Prod.ext same.1 same.2
  · exact List.nodup_nil

theorem lt_extent (readable : m.read page = .ok p) : page.index.toNat < m.extent := by
  cases m with
  | memory s =>
    obtain ⟨_, _, found, _⟩ := MemoryStore.read_eq_ok.mp readable
    exact (Array.getElem?_eq_some_iff.mp found).1
  | file s =>
    obtain ⟨_, _, inside, _⟩ := FileStore.read_eq_ok.mp readable
    exact toNat_lt_of_lt_ofNat inside
  | foreign s => exact s.elim

theorem mem_rows {row : RecordId × Bytes} :
    row ∈ m.rows ↔
      ∃ p, m.read row.1.page = .ok p ∧ SlottedPage.get p.data row.1.slot = .ok row.2 := by
  simp only [rows]
  rw [List.mem_flatMap]
  constructor
  · rintro ⟨i, _, listed⟩
    obtain ⟨here, found⟩ := mem_rowsOn.mp listed
    rwa [← here] at found
  · rintro ⟨p, readable, live⟩
    have belongs := (read_eq_clean readable).1
    refine ⟨row.1.page.index.toNat, List.mem_range.mpr (lt_extent readable), ?_⟩
    have here : row.1.page = ⟨m.table, UInt32.ofNat row.1.page.index.toNat⟩ := by
      rw [UInt32.ofNat_toNat, ← belongs]
    rw [← here]
    exact mem_rowsOn.mpr ⟨rfl, p, readable, live⟩

/-- No tuple is listed twice, as long as the pages can be told apart by their numbers. -/
theorem nodup_rows (few : m.extent < 4294967295) : m.rows.Nodup := by
  simp only [rows]
  rw [List.nodup_flatMap]
  refine ⟨fun i _ => m.nodup_rowsOn _, List.nodup_range.imp_of_mem fun {i j} hi hj differ => ?_⟩
  intro row inFirst inSecond
  have first : row.1.page.index = UInt32.ofNat i := by rw [(mem_rowsOn.mp inFirst).1]
  have second : row.1.page.index = UInt32.ofNat j := by rw [(mem_rowsOn.mp inSecond).1]
  have same := congrArg UInt32.toNat (first.symm.trans second)
  rw [List.mem_range] at hi hj
  rw [UInt32.toNat_ofNat', UInt32.toNat_ofNat', Nat.mod_eq_of_lt (by omega),
    Nat.mod_eq_of_lt (by omega)] at same
  exact differ same

/-- Every page is blank, and a file ends with its last page. -/
def Zeroed : Medium → Prop
  | memory s => ∀ block ∈ s.blocks, block = Bytes.zeros s.pageSize
  | file s => s.file.length % s.pageSize = 0 ∧ ∀ i, s.file.byte i = 0

theorem Zeroed.tidy (zeroed : m.Zeroed) : m.Tidy := by
  cases m with
  | memory s => trivial
  | file s => exact ⟨zeroed.1, fun i _ => zeroed.2 i⟩
  | foreign s => exact s.elim

theorem Zeroed.read_blank (zeroed : m.Zeroed) (readable : m.read page = .ok p) :
    p.data = Bytes.zeros m.pageSize := by
  cases m with
  | memory s =>
    obtain ⟨_, data, found, rfl⟩ := MemoryStore.read_eq_ok.mp readable
    obtain ⟨inside, rfl⟩ := Array.getElem?_eq_some_iff.mp found
    exact zeroed _ (Array.getElem_mem inside)
  | file s =>
    obtain ⟨_, _, _, rfl⟩ := FileStore.read_eq_ok.mp readable
    exact ByteFile.read_eq_zeros fun i _ _ => zeroed.2 i
  | foreign s => exact s.elim

end Medium

/-- A store that begins with few pages, all of them blank and of the size that the pool wants, and
to which every write gets through. -/
structure Store.Fresh (store : Store) (config : Config) : Prop where
  pageSize : store.medium.pageSize = config.pageSize
  zeroed : store.medium.Zeroed
  few : store.medium.extent < 4294967295
  writes : ∀ call, store.writes.works call = true

namespace Interleaving

theorem tidy_create {config : Config} {catalog : Catalog Table} {stores : Array Store}
    {objects : Array Page} {pool : Pool}
    (created : Pool.create config catalog stores objects = .ok pool)
    (zeroed : ∀ store ∈ stores, store.medium.Zeroed) : pool.Tidy := by
  have sameStores : pool.stores = stores := by rw [(Pool.create_eq_ok created).2]
  intro ref
  simp only [Pool.store]
  rw [sameStores, Array.getD_eq_getD_getElem?]
  cases found : stores[ref.index]? with
  | none => trivial
  | some store =>
    obtain ⟨inside, rfl⟩ := Array.getElem?_eq_some_iff.mp found
    exact (zeroed _ (Array.getElem_mem inside)).tidy

theorem accounted_start {config : Config} {catalog : Catalog Table} {stores : Array Store}
    {objects : Array Page} {pool : Pool}
    (created : Pool.create config catalog stores objects = .ok pool) (heaps : pool.OverHeaps)
    (fresh : ∀ store ∈ stores, store.Fresh config) : (start pool).Accounted := by
  have coherent := Pool.coherent_create created heaps
  have countable := Pool.countable_create created fun store listed => (fresh store listed).few
  obtain ⟨valid, built⟩ := Pool.create_eq_ok created
  have bounds := Pool.pageSize_of_valid valid
  have sameConfig : pool.config = config := by rw [built]
  have sameStores : pool.stores = stores := by rw [built]
  have uncached : ∀ page, pool.draft? page = none := by
    intro page
    rw [built]
    rfl
  have dependable : pool.Dependable := by
    refine Pool.dependable_of_stores heaps (fun store listed => ?_) fun store listed => ?_
    · rw [sameStores] at listed
      rw [sameConfig]
      exact (fresh store listed).pageSize
    · rw [sameStores] at listed
      exact (fresh store listed).writes
  refine ⟨⟨sound_start coherent countable, dependable, ?_, ?_⟩, ?_, ?_, ?_⟩
  · exact fun txn page held => absurd held (Pool.unheld_create created txn page)
  · exact fun r listed => absurd listed List.not_mem_nil
  · exact tidy_create created fun store listed => (fresh store listed).zeroed
  · show SlottedPage.headerSize ≤ pool.config.pageSize
    rw [sameConfig]
    simp only [SlottedPage.headerSize]
    simp only [Config.minPageSize] at bounds
    omega
  · constructor
    · intro page data there
      obtain ⟨table, known, readable⟩ := Pool.stored?_eq_some.mp there
      have listed := heaps.store_mem known
      rw [sameStores] at listed
      obtain ⟨pageSize, zeroed, _, _⟩ := fresh _ listed
      have blank : data = _ := zeroed.read_blank readable
      rw [blank, pageSize]
      simp only [Config.minPageSize, Config.maxPageSize] at bounds
      exact ⟨[], .nil, SlottedPage.represents_zeros (by simp only [SlottedPage.headerSize]; omega)
        (by omega)⟩
    · exact fun page absent => rfl
    · intro page txn data draft
      have draft : pool.draft? page = some (txn, data) := draft
      rw [uncached] at draft
      cases draft
    · exact fun page txn unwritten => rfl

/-- Every mutation that was carried out was answered with the one page that it changed. -/
def Answered (log : List Event) : Prop :=
  ∀ txn table mutation reply, .answered txn (.mutate table mutation) (.ok reply) ∈ log →
    ∃ page, reply = .changed [page]

variable {s : Interleaving}

theorem Answered.settle (answered : Answered s.log) {txn : TransactionId} {op : Operation}
    {result : Pool × Progress Answer} (effect : Pool.Effect txn op s.pool result)
    (others : List Suspension) : Answered (settle others s.log txn op result).log := by
  cases effect with
  | waits quiet => exact answered
  | fails quiet =>
    intro a table mutation reply listed
    rcases List.mem_cons.mp listed with now | before
    · cases now
    · exact answered a table mutation reply before
  | answers quiet _ observes =>
    intro a table mutation reply listed
    rcases List.mem_cons.mp listed with now | before
    · cases now
      exact absurd rfl (observes table mutation)
    · exact answered a table mutation reply before
  | writes =>
    intro a table mutation reply listed
    rcases List.mem_cons.mp listed with now | before
    · cases now
      exact ⟨_, rfl⟩
    · exact answered a table mutation reply before

theorem Answered.step (answered : Answered s.log) (sound : s.Sound) (action : Action) :
    Answered (s.step action).log := by
  cases action with
  | call txn op =>
    rw [Interleaving.step]
    split
    · exact answered
    · exact answered.settle (Pool.submit_effect sound.coherent sound.countable txn op) s.suspended
  | retry txn =>
    rw [Interleaving.step]
    split
    · exact answered
    next r found =>
      exact answered.settle
        (Pool.resume_effect sound.coherent sound.countable (sound.pending_found found)) _
  | flush txn =>
    rw [Interleaving.step]
    split <;> exact answered
  | flushAll cached =>
    rw [Interleaving.step]
    split <;> exact answered
  | finish txn ending =>
    rw [Interleaving.step]
    split
    · exact answered
    · intro a table mutation reply listed
      rcases List.mem_cons.mp listed with now | before
      · cases now
      · exact answered a table mutation reply before

theorem Answered.run (answered : Answered s.log) (sound : s.Sound) (actions : List Action) :
    Answered (s.run actions).log := by
  induction actions generalizing s with
  | nil => exact answered
  | cons action rest ih => exact ih (answered.step sound action) (sound.step action)

/-- The ledger leaves out no mutation that was carried out. -/
theorem mutations_counted {config : Config} {catalog : Catalog Table} {stores : Array Store}
    {objects : Array Page} {pool : Pool}
    (created : Pool.create config catalog stores objects = .ok pool) (heaps : pool.OverHeaps)
    (few : ∀ store ∈ stores, store.medium.extent < 4294967295) (actions : List Action)
    {txn : TransactionId} {table : TableId} {mutation : Mutation} {reply : Reply}
    (listed : .answered txn (.mutate table mutation) (.ok reply) ∈
      ((start pool).run actions).log) :
    (Event.answered txn (.mutate table mutation) (.ok reply)).change?.isSome := by
  have sound := sound_start (Pool.coherent_create created heaps)
    (Pool.countable_create created few)
  have none : Answered (start pool).log := fun _ _ _ _ listed => absurd listed List.not_mem_nil
  obtain ⟨page, rfl⟩ := none.run sound actions txn table mutation reply listed
  cases mutation <;> rfl

/-- In every state that can be reached, the pages of a store have exactly the tuples that
committed transactions have inserted and not deleted. -/
theorem stored_rows_committed {config : Config} {catalog : Catalog Table} {stores : Array Store}
    {objects : Array Page} {pool : Pool}
    (created : Pool.create config catalog stores objects = .ok pool) (heaps : pool.OverHeaps)
    (fresh : ∀ store ∈ stores, store.Fresh config) (actions : List Action)
    (allowed : ∀ action ∈ actions, action.Proper catalog) (reached : Interleaving)
    (reaches : (start pool).run actions = reached) (id : TableId) (table : Table)
    (known : catalog.file? id = some table)
    (few : (reached.pool.store table.store).medium.extent < 4294967295) :
    (reached.pool.store table.store).medium.rows.Perm
      ((Change.survivors (Ledger.committed reached.log)).filter
        fun row => row.1.page.table = id) := by
  have catalogs : pool.catalog = catalog := by rw [(Pool.create_eq_ok created).2]
  have started := accounted_start created heaps fresh
  have proper : ∀ action ∈ actions, action.Proper (start pool).pool.catalog := by
    intro action listed
    rw [show (start pool).pool.catalog = catalog from catalogs]
    exact allowed action listed
  obtain ⟨accounted, same⟩ := started.run proper
  rw [reaches] at accounted same
  have known : reached.pool.catalog.file? id = some table := by
    rw [same]
    exact catalogs.symm ▸ known
  have view := accounted.view
  have replayed : ∀ page, ∃ slots,
      Change.Replays page (Change.onPage page (Ledger.committed reached.log)) slots := by
    intro page
    cases there : reached.pool.stored? page with
    | none =>
      have absent := view.absent page there
      exact ⟨[], by rw [absent]; exact .nil⟩
    | some data =>
      obtain ⟨slots, replays, _⟩ := view.stored page data there
      exact ⟨slots, replays⟩
  have belongs : (reached.pool.store table.store).medium.table = id :=
    (accounted.proper.sound.coherent.heaps id table known).2.2
  refine (List.perm_ext_iff_of_nodup (Medium.nodup_rows few)
    ((Change.nodup_survivors replayed).filter _)).mpr fun row => ?_
  rw [Medium.mem_rows, List.mem_filter, decide_eq_true_eq]
  obtain ⟨record, tuple⟩ := row
  dsimp only
  constructor
  · rintro ⟨p, readable, live⟩
    have own : record.page.table = id := (Medium.read_eq_clean readable).1.trans belongs
    have there : reached.pool.stored? record.page = some p.data :=
      Pool.stored?_of_read (by rwa [own]) readable
    obtain ⟨slots, replays, represents⟩ := view.stored _ _ there
    exact ⟨(Change.mem_survivors_iff replays).mpr (represents.get_iff.mp live), own⟩
  · rintro ⟨survives, own⟩
    cases there : reached.pool.stored? record.page with
    | none =>
      have absent : Change.inserted record tuple ∈ Change.onPage record.page
          (Ledger.committed reached.log) :=
        Change.mem_onPage.mpr ⟨(Change.mem_survivors.mp survives).1, rfl⟩
      rw [view.absent record.page there] at absent
      cases absent
    | some data =>
      obtain ⟨slots, replays, represents⟩ := view.stored _ _ there
      obtain ⟨other, known', readable⟩ := Pool.stored?_eq_some.mp there
      rw [own] at known'
      cases known.symm.trans known'
      exact ⟨_, readable, represents.get_iff.mpr ((Change.mem_survivors_iff replays).mp survives)⟩

/-- The second transaction waits for the first, inserts behind its tuple and is rolled back, and
the third has deleted that tuple but is not committed. -/
theorem committed_tuple_is_stored : ∃ pool reached,
    Pool.create (Config.sized 2 64) (Catalog.single "a" blankPair.medium) #[blankPair] #[] =
      .ok pool ∧
    (start pool).run [.call ⟨1⟩ (.mutate ⟨1⟩ (.insert #[7, 8])),
      .call ⟨2⟩ (.mutate ⟨1⟩ (.insert #[9])), .finish ⟨1⟩ .commit, .retry ⟨2⟩, .finish ⟨2⟩ .drop,
      .call ⟨3⟩ (.mutate ⟨1⟩ (.delete ⟨⟨⟨1⟩, 0⟩, 0⟩))] = reached ∧
    (reached.pool.store ⟨0⟩).medium.rows.Perm [(⟨⟨⟨1⟩, 0⟩, 0⟩, #[7, 8])] := by
  have created : Pool.create (Config.sized 2 64) (Catalog.single "a" blankPair.medium)
    #[blankPair] #[] = .ok _ := rfl
  have fresh : ∀ store ∈ #[blankPair], store.Fresh (Config.sized 2 64) := by
    intro store listed
    rw [Array.mem_singleton.mp listed]
    exact ⟨rfl, fun block listed => Array.eq_of_mem_replicate listed, by decide, fun _ => rfl⟩
  have allowed : ∀ action ∈ [Action.call ⟨1⟩ (.mutate ⟨1⟩ (.insert #[7, 8])),
      .call ⟨2⟩ (.mutate ⟨1⟩ (.insert #[9])), .finish ⟨1⟩ .commit, .retry ⟨2⟩, .finish ⟨2⟩ .drop,
      .call ⟨3⟩ (.mutate ⟨1⟩ (.delete ⟨⟨⟨1⟩, 0⟩, 0⟩))],
      action.Proper (Catalog.single "a" blankPair.medium) := by
    intro action listed
    have registered : ((Catalog.single "a" blankPair.medium).file? ⟨1⟩).isSome := rfl
    simp only [List.mem_cons, List.not_mem_nil, or_false] at listed
    rcases listed with rfl | rfl | rfl | rfl | rfl | rfl
    · exact registered
    · exact registered
    · trivial
    · trivial
    · trivial
    · exact registered
  have stored := stored_rows_committed created (Pool.heaps_single created) fresh _ allowed _ rfl ⟨1⟩
    (HeapTable.table ⟨1⟩ 64 ⟨0⟩) rfl (by decide +kernel)
  exact ⟨_, _, created, rfl, stored.trans (List.Perm.of_eq (by decide +kernel))⟩

end Interleaving

end TransactionalPages
