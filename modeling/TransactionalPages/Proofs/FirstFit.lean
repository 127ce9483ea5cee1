import TransactionalPages.Proofs.FileGrowth
import TransactionalPages.Proofs.Room
import TransactionalPages.Proofs.Visible

/-!
# First fit

An insert goes through the pages of its table in order and takes the first one
that has room. On the way it locks every page, reads it into the cache for which
others may have to leave, and gives the lock back if the page is full and was not
held before. When no page has room it takes the next one, which it allocates.

All of this is about what is to be seen of a page, so that it makes no difference
which pages are cached and how many there is room for.
-/

namespace TransactionalPages

/-! ## The next page -/

namespace Medium

variable {m : Medium} {page q : PageId} {p : Page}

/-- Whatever can be read after an allocation and not before is blank. -/
def GrowsBlank (m : Medium) : Prop :=
  ∀ page p, m.allocate.1.read page = .ok p →
    m.read page = .ok p ∨ p.data = Bytes.zeros m.pageSize

theorem growsBlank_of_tidy (tidy : m.Tidy) (countable : m.Countable) : m.GrowsBlank := by
  intro page p readable
  rcases blank_allocate tidy countable readable with old | ⟨_, blank⟩
  · exact Or.inl old
  · rw [blank]
    exact Or.inr rfl

theorem numPages_toNat (few : m.extent < 4294967295) {count : UInt32}
    (counted : m.numPages = .ok count) : count.toNat = m.extent := by
  cases m with
  | memory s =>
    have few : s.blocks.size < 4294967295 := few
    cases counted
    show (UInt32.ofNat s.blocks.size).toNat = s.blocks.size
    rw [UInt32.toNat_ofNat', Nat.mod_eq_of_lt (by omega)]
  | file s =>
    obtain ⟨_, rfl⟩ := FileStore.numPages_eq_ok counted
    exact FileStore.count_toNat (Nat.le_of_lt few)
  | foreign s => exact s.elim

/-- An allocation brings the page with the next number and no other one. -/
theorem allocate_next (few : m.extent < 4294967295) (allocated : m.allocate.2 = .ok page) :
    page.index.toNat = m.extent ∧
      ∀ q p, m.allocate.1.read q = .ok p → q = page ∨ m.read q = .ok p := by
  have belongs := allocate_eq_ok allocated
  cases m with
  | memory s =>
    have few : s.blocks.size < 4294967295 := few
    have fits : s.pageSize ≤ Limit.block := by
      refine Nat.le_of_not_lt fun large => ?_
      have refused : s.allocate.2 = .ok page := allocated
      rw [MemoryStore.allocate, if_pos large] at refused
      cases refused
    have answer : s.allocate.2 = .ok page := allocated
    rw [MemoryStore.allocate_eq fits few] at answer
    have number : page.index.toNat = s.blocks.size := by
      rw [← Except.ok.inj answer]
      show (UInt32.ofNat s.blocks.size).toNat = _
      rw [UInt32.toNat_ofNat', Nat.mod_eq_of_lt (by omega)]
    refine ⟨number, fun q p readable => ?_⟩
    rcases (s.read_allocate q).2 p readable with old | ⟨last, _⟩
    · exact Or.inr old
    · left
      have table := (read_eq_clean readable).1
      rw [(memory s).table_allocate.1, ← belongs] at table
      obtain ⟨_, _⟩ := q
      obtain ⟨_, _⟩ := page
      cases table
      cases UInt32.toNat_inj.mp (last.trans number.symm)
      rfl
  | file s =>
    have done : s.allocate = (s.allocate.1, .ok page) := by
      have answer : s.allocate.2 = .ok page := allocated
      rw [← answer]
    have countable : s.Countable := Nat.le_of_lt few
    obtain ⟨positive, below, table, number, grown⟩ := FileStore.allocate_eq_grow countable done
    refine ⟨number, fun q p readable => ?_⟩
    have readable : s.allocate.1.read q = .ok p := readable
    rw [grown] at readable
    obtain ⟨own, inside, same⟩ := (FileStore.read_grow positive countable (by omega)).mp readable
    by_cases old : q.index.toNat < s.pages
    · exact Or.inr ((FileStore.read_eq_ok_of_countable positive countable).mpr ⟨own, old, same⟩)
    · left
      have last : q.index.toNat = page.index.toNat := by omega
      obtain ⟨_, _⟩ := q
      obtain ⟨_, _⟩ := page
      cases own.trans table.symm
      cases UInt32.toNat_inj.mp last
      rfl
  | foreign s => exact s.elim

end Medium

/-! ## Programs that end well -/

namespace Pool

variable {α β : Type} {pool base mid now after : Pool} {txn : TransactionId} {page : PageId}
  {ref : PageRef} {store : StoreRef} {a : α}

/-- What is done with an answer comes after the program. -/
theorem run_map_ok {f : α → β} {p : Program α} {b : β}
    (ran : pool.run txn (p.map f) = (after, .done (.ok b))) :
    ∃ a, b = f a ∧ pool.run txn p = (after, .done (.ok a)) := by
  induction p generalizing pool with
  | stop result =>
    cases result with
    | ok a =>
      cases ran
      exact ⟨a, rfl, rfl⟩
    | error e => cases ran
  | fetch page permission next ih =>
    simp only [Program.map, run] at ran ⊢
    rcases pool.requestLock_cases txn page permission.mode false with
      ⟨locks, _, eq⟩ | ⟨_, _, eq⟩ | ⟨_, _, eq⟩
    · rw [eq] at ran ⊢
      exact ih _ ran
    · rw [eq] at ran ⊢
      exact ih _ ran
    · rw [eq] at ran
      cases ran
  | holds page next ih => exact ih _ ran
  | release page next ih => exact ih ran
  | discard page next ih => exact ih ran
  | count store next ih => exact ih _ ran
  | allocate store next ih => exact ih _ ran
  | look ref next ih => exact ih _ ran
  | edit ref data next ih => exact ih ran
  | spoil ref data next ih => exact ih ran
  | make page next ih => exact ih _ ran

theorem run_withResult_ok {r : Except StorageError β} {next : β → Program α}
    (ran : pool.run txn (.withResult r next) = (after, .done (.ok a))) :
    ∃ b, r = .ok b ∧ pool.run txn (next b) = (after, .done (.ok a)) := by
  cases r with
  | ok b => exact ⟨b, rfl, ran⟩
  | error e => cases ran

/-- A transaction was granted a page and served. -/
structure Served (txn : TransactionId) (page : PageId) (mode : LockMode) (ref : PageRef)
    (before after : Pool) : Prop where
  drift : Drift txn before after
  media : SameMedia before after
  granted : before.locks.acquire txn page mode = some after.locks
  filed : after.cache.peek? page = some ref

theorem run_fetchOrStop_ok {permission : Permission} {next : PageRef → Program α}
    (ran : pool.run txn (.fetchOrStop page permission next) = (after, .done (.ok a))) :
    ∃ ref now, Served txn page permission.mode ref pool now ∧
      now.run txn (next ref) = (after, .done (.ok a)) := by
  have drift : Drift txn pool _ := Drift.start.ask page permission.mode false
  have media := pool.requestLock_media txn page permission.mode false
  simp only [Program.fetchOrStop, run] at ran
  rcases pool.requestLock_cases txn page permission.mode false with
    ⟨locks, granted, eq⟩ | ⟨_, _, eq⟩ | ⟨_, _, eq⟩
  · rw [eq] at ran drift media
    dsimp only at ran drift media
    generalize asked : ({ pool with
        locks := locks
        waits := if false = true then pool.waits.clear txn else pool.waits } : Pool) = mid
      at ran drift media
    have locked : (mid.load page).1.locks = locks := by
      rw [(mid.load_control page).locks, ← asked]
    have filed : ∀ ref, (mid.load page).2 = .ok ref →
        (mid.load page).1.cache.peek? page = some ref := fun _ => load_filed
    cases loaded : (mid.load page).2 with
    | error e =>
      rw [loaded] at ran
      cases ran
    | ok ref =>
      rw [loaded] at ran
      refine ⟨ref, _, ⟨drift.load page, media.trans (mid.load_media page), ?_, filed ref loaded⟩,
        ran⟩
      rw [locked]
      exact granted
  · rw [eq] at ran
    cases ran
  · rw [eq] at ran
    cases ran

end Pool

namespace HeapTable

theorem hasRoomFor_of_full {data tuple : Bytes} (full : place data tuple = .full) :
    SlottedPage.hasRoomFor data tuple.size = false := by
  simp only [place, SlottedPage.hasRoomFor?] at full
  split at full
  · cases full
  next answer =>
    split at answer
    · cases answer
    · split at answer
      · cases answer
      · exact Except.ok.inj answer
  · split at full <;> cases full

open Pool

variable {pool after : Pool} {txn : TransactionId} {ref : PageRef} {tuple : Bytes}
  {refs : List PageRef}

/-- A page has no room, or the tuple is put onto it and it is the page that was changed. -/
theorem run_placeOn_ok {ifFull : Bytes → Program (List PageRef)}
    (ran : pool.run txn (placeOn ref tuple ifFull) = (after, .done (.ok refs))) :
    (SlottedPage.hasRoomFor (pool.object ref).data tuple.size = false ∧
      pool.run txn (ifFull (pool.object ref).data) = (after, .done (.ok refs))) ∨
    ∃ new slot, SlottedPage.insert (pool.object ref).data tuple = (new, .ok slot) ∧
      after = pool.setObject ref { pool.object ref with data := new, dirtier := some txn } ∧
      refs = [ref] := by
  simp only [placeOn, run] at ran
  cases placed : place (pool.object ref).data tuple with
  | full =>
    rw [placed] at ran
    exact Or.inl ⟨hasRoomFor_of_full placed, ran⟩
  | placed new =>
    rw [placed] at ran
    obtain ⟨slot, inserted⟩ := place_eq_placed placed
    cases ran
    exact Or.inr ⟨new, slot, inserted, rfl, rfl⟩
  | refused e =>
    rw [placed] at ran
    cases ran
  | broken new fault =>
    rw [placed] at ran
    cases ran

end HeapTable

/-! ## Passing pages over -/

/-- A page below the next bound was met earlier, or it is this one. -/
theorem lt_or_eq_of_lt_succ {i index : UInt32} {count : Nat} (number : index.toNat = count)
    (below : i.toNat < count + 1) : i.toNat < count ∨ i = index := by
  rcases Nat.lt_succ_iff_lt_or_eq.mp below with earlier | same
  · exact Or.inl earlier
  · exact Or.inr (UInt32.toNat_inj.mp (same.trans number.symm))

namespace Pool

variable {pool base before mid now after : Pool} {txn : TransactionId} {id : TableId}
  {page : PageId} {ref : PageRef} {mode : LockMode} {size count : Nat} {old new tuple : Bytes}

theorem Served.visible? (served : Served txn page mode ref before after)
    (faithful : before.Faithful) : before.visible? page = some (after.object ref).data := by
  rw [← faithful.visible?_drift served.drift served.media]
  exact visible?_of_cached served.filed

/-- A page that is passed over is kept exclusively if it was held before, and is given back
otherwise. -/
theorem Served.passes (served : Served txn page .exclusive ref mid now) :
    Drift txn mid (if mid.holdsLock txn page then now else now.releaseLock txn page) ∧
      SameMedia mid (if mid.holdsLock txn page then now else now.releaseLock txn page) ∧
      ∀ q, (if mid.holdsLock txn page then now else now.releaseLock txn page).locks.mode? txn q =
        if q = page then (mid.locks.mode? txn page).map fun _ => .exclusive
        else mid.locks.mode? txn q := by
  have granted := LockTable.acquire_mode? served.granted txn
  split
  next held =>
    obtain ⟨mode, found⟩ := (LockTable.holds_iff ..).mp held
    refine ⟨served.drift, served.media, fun q => ?_⟩
    rw [granted]
    by_cases here : q = page
    · rw [if_pos ⟨rfl, here⟩, if_pos here, found, LockMode.raise_covers_asked _ _ rfl]
      rfl
    · rw [if_neg fun both => here both.2, if_neg here]
  next unheld =>
    have none : mid.locks.mode? txn page = none := Option.not_isSome_iff_eq_none.mp unheld
    refine ⟨served.drift.release unheld, served.media.trans (media_of_same rfl rfl rfl),
      fun q => ?_⟩
    rw [releaseLock, LockTable.release_mode?]
    by_cases here : q = page
    · rw [if_pos ⟨rfl, here⟩, if_pos here, none]
      rfl
    · rw [if_neg fun both => here both.2, if_neg here, granted, if_neg fun both => here both.2]

/-- The pages of a table below `count` have no room, and the transaction has looked at them. It
holds those of them that it held when it set out. -/
structure Scanned (txn : TransactionId) (id : TableId) (size : Nat) (base : Pool) (count : Nat)
    (mid : Pool) : Prop where
  drift : Drift txn base mid
  media : SameMedia base mid
  full : ∀ index : UInt32, index.toNat < count → ∃ data,
    base.visible? ⟨id, index⟩ = some data ∧ SlottedPage.hasRoomFor data size = false
  passed : ∀ index : UInt32, index.toNat < count → mid.locks.mode? txn ⟨id, index⟩ =
    (base.locks.mode? txn ⟨id, index⟩).map fun _ => .exclusive
  unmet : ∀ q, (q.table = id → count ≤ q.index.toNat) →
    mid.locks.mode? txn q = base.locks.mode? txn q

theorem Scanned.visible? (scanned : Scanned txn id size base count mid) (faithful : base.Faithful) :
    mid.visible? = base.visible? := faithful.visible?_drift scanned.drift scanned.media

theorem Scanned.pass (scanned : Scanned txn id size base count mid) (faithful : base.Faithful)
    {index : UInt32} (number : index.toNat = count)
    (served : Served txn ⟨id, index⟩ .exclusive ref mid now)
    (full : SlottedPage.hasRoomFor (now.object ref).data size = false) :
    Scanned txn id size base (count + 1)
      (if mid.holdsLock txn ⟨id, index⟩ then now else now.releaseLock txn ⟨id, index⟩) := by
  obtain ⟨drift, media, modes⟩ := served.passes
  refine ⟨scanned.drift.trans drift, scanned.media.trans media, fun i below => ?_,
    fun i below => ?_, fun q away => ?_⟩
  · rcases lt_or_eq_of_lt_succ number below with earlier | rfl
    · exact scanned.full i earlier
    · refine ⟨_, ?_, full⟩
      rw [← scanned.visible? faithful]
      exact served.visible? (faithful.drift scanned.drift)
  · rw [modes]
    rcases lt_or_eq_of_lt_succ number below with earlier | rfl
    · have apart : (PageId.mk id i) ≠ ⟨id, index⟩ := by
        intro same
        cases same
        omega
      rw [if_neg apart]
      exact scanned.passed i earlier
    · rw [if_pos rfl, scanned.unmet _ fun _ => Nat.le_of_eq number.symm]
  · have apart : q ≠ ⟨id, index⟩ := by
      rintro rfl
      have past : count + 1 ≤ index.toNat := away rfl
      omega
    rw [modes, if_neg apart]
    exact scanned.unmet q fun own => Nat.le_of_succ_le (away own)

/-! ## The page that is taken -/

/-- The first page of a table that has room for so many bytes, and what is to be seen of it. When
none has room it is the next page, which is not there yet and is going to be blank. -/
structure FirstRoom (pool : Pool) (id : TableId) (size : Nat) (page : PageId) (old : Bytes) :
    Prop where
  table : page.table = id
  full : ∀ index < page.index, ∃ data, pool.visible? ⟨id, index⟩ = some data ∧
    SlottedPage.hasRoomFor data size = false
  room : SlottedPage.hasRoomFor old size = true
  next : pool.visible? page = some old ∨
    (old = Bytes.zeros pool.config.pageSize ∧
      ∀ index, page.index ≤ index → pool.visible? ⟨id, index⟩ = none)

/-- The stores are as they were if a page was there before. If it was not there it has been
allocated, and nothing else. -/
structure Provides (id : TableId) (page : PageId) (before after : Pool) : Prop where
  there : before.visible? page ≠ none →
    ∀ store, (after.store store).medium = (before.store store).medium
  allocated : before.visible? page = none → ∃ file, before.catalog.file? id = some file ∧
    (before.store file.store).medium.allocate = ((after.store file.store).medium, .ok page) ∧
    ∀ store, store ≠ file.store → (after.store store).medium = (before.store store).medium

/-- A transaction has taken the first page with room, and has not written to it yet. -/
structure Taken (txn : TransactionId) (id : TableId) (size : Nat) (base : Pool) (page : PageId)
    (old : Bytes) (ref : PageRef) (mid : Pool) : Prop where
  first : base.FirstRoom id size page old
  drift : Drift txn base mid
  provides : Provides id page base mid
  filed : mid.cache.peek? page = some ref
  data : (mid.object ref).data = old
  visible : ∀ q, q ≠ page → mid.visible? q = base.visible? q
  alone : mid.locks.mode? txn page = some .exclusive
  passed : ∀ index < page.index, mid.locks.mode? txn ⟨id, index⟩ =
    (base.locks.mode? txn ⟨id, index⟩).map fun _ => .exclusive
  unmet : ∀ q, q ≠ page → (q.table = id → page.index ≤ q.index) →
    mid.locks.mode? txn q = base.locks.mode? txn q

/-- The page after those that were passed over is served, be it an old one or a new one. -/
theorem Scanned.take {grown : Pool} {index : UInt32}
    (scanned : Scanned txn id size base count mid) (faithful : base.Faithful)
    (number : index.toNat = count) (drift : Drift txn mid grown) (locks : grown.locks = mid.locks)
    (provides : Provides id ⟨id, index⟩ mid grown)
    (visible : ∀ q, q ≠ ⟨id, index⟩ → grown.visible? q = mid.visible? q)
    (served : Served txn ⟨id, index⟩ .exclusive ref grown now)
    (room : SlottedPage.hasRoomFor (now.object ref).data size = true)
    (next : base.visible? ⟨id, index⟩ = some (now.object ref).data ∨
      ((now.object ref).data = Bytes.zeros base.config.pageSize ∧
        ∀ later, index ≤ later → base.visible? ⟨id, later⟩ = none)) :
    Taken txn id size base ⟨id, index⟩ (now.object ref).data ref now := by
  have faithfulGrown := (faithful.drift scanned.drift).drift drift
  have granted := LockTable.acquire_mode? served.granted txn
  rw [locks] at granted
  constructor
  case first =>
    refine ⟨rfl, fun i below => scanned.full i ?_, room, next⟩
    rw [← number]
    exact UInt32.lt_iff_toNat_lt.mp below
  case drift => exact (scanned.drift.trans drift).trans served.drift
  case provides =>
    refine ⟨fun there store => ?_, fun unseen => ?_⟩
    · rw [← scanned.visible? faithful] at there
      rw [served.media.medium, provides.there there, scanned.media.medium]
    · rw [← scanned.visible? faithful] at unseen
      obtain ⟨file, known, allocated, others⟩ := provides.allocated unseen
      rw [scanned.media.catalog] at known
      rw [scanned.media.medium] at allocated
      refine ⟨file, known, by rw [allocated, served.media.medium], fun store other => ?_⟩
      rw [served.media.medium, others store other, scanned.media.medium]
  case filed => exact served.filed
  case data => rfl
  case visible =>
    intro q apart
    rw [faithfulGrown.visible?_drift served.drift served.media, visible q apart,
      scanned.visible? faithful]
  case alone => rw [granted, if_pos ⟨rfl, rfl⟩, LockMode.raise_covers_asked _ _ rfl]
  case passed =>
    intro i below
    have earlier : i.toNat < index.toNat := UInt32.lt_iff_toNat_lt.mp below
    have apart : PageId.mk id i ≠ ⟨id, index⟩ := by
      intro same
      cases same
      omega
    rw [granted, if_neg fun both => apart both.2]
    exact scanned.passed i (by omega)
  case unmet =>
    intro q apart away
    rw [granted, if_neg fun both => apart both.2]
    refine scanned.unmet q fun own => ?_
    rw [← number]
    exact UInt32.le_iff_toNat_le.mp (away own)

/-! ## A new page -/

/-- An allocation has brought the next page of a table. -/
structure Brings (id : TableId) (file : Table) (before after : Pool) (page : PageId) : Prop where
  table : page.table = id
  number : page.index.toNat = (before.store file.store).medium.extent
  unseen : ∀ index, page.index ≤ index → before.visible? ⟨id, index⟩ = none
  visible : ∀ q, q ≠ page → after.visible? q = before.visible? q
  blank : ∀ data, after.visible? page = some data →
    data = Bytes.zeros (before.store file.store).medium.pageSize
  allocated : (before.store file.store).medium.allocate =
    ((after.store file.store).medium, .ok page)
  others : ∀ store, store ≠ file.store → (after.store store).medium = (before.store store).medium

theorem Faithful.brings {file : Table} (faithful : pool.Faithful)
    (known : pool.catalog.file? id = some file)
    (few : (pool.store file.store).medium.extent < 4294967295)
    (blank : (pool.store file.store).medium.GrowsBlank)
    (allocated : (pool.allocatePage file.store).2 = .ok page) :
    Brings id file pool (pool.allocatePage file.store).1 page := by
  obtain ⟨_, inside, belongs⟩ := faithful.formed.heaps id file known
  have belongs : (pool.store file.store).medium.table = id := belongs
  have drift : Drift ⟨0⟩ pool _ := Drift.start.allocate file.store
  have untouched := faithful.untouched drift
  have catalog : (pool.allocatePage file.store).1.catalog = pool.catalog := drift.shape.catalog
  have store : ∀ q, (pool.allocatePage file.store).1.store q =
      if q = file.store then (pool.store file.store).allocate.1 else pool.store q := by
    intro q
    rw [allocatePage_eq, store_setStore]
    simp only [inside, and_true]
  obtain ⟨grown, answer⟩ : (pool.store file.store).allocate.1.medium =
      (pool.store file.store).medium.allocate.1 ∧
      (pool.store file.store).medium.allocate.2 = .ok page := by
    rcases allocate_result (pool.store file.store) with ⟨grown, same⟩ | ⟨_, stopped⟩
    · exact ⟨grown, same.symm.trans allocated⟩
    · cases stopped.symm.trans allocated
  obtain ⟨number, only⟩ := Medium.allocate_next few answer
  have table : page.table = id := (Medium.allocate_eq_ok answer).trans belongs
  have unseen : ∀ index, page.index ≤ index → pool.visible? ⟨id, index⟩ = none := by
    intro index past
    rw [faithful.visible?_eq_none, Option.eq_none_iff_forall_ne_some]
    intro data stored
    obtain ⟨other, again, read⟩ := stored?_eq_some.mp stored
    cases known.symm.trans again
    have below : index.toNat < _ := Medium.lt_extent read
    have past := UInt32.le_iff_toNat_le.mp past
    omega
  refine ⟨table, number, unseen, fun q apart => ?_, fun data seen => ?_, ?_, fun q apart => ?_⟩
  · cases seen : pool.visible? q with
    | some data => exact untouched.visible q data seen
    | none =>
      rw [untouched.fresh q seen, Option.eq_none_iff_forall_ne_some]
      intro data stored
      obtain ⟨other, again, read⟩ := stored?_eq_some.mp stored
      rw [catalog] at again
      have unstored := faithful.visible?_eq_none.mp seen
      have old : (pool.store other.store).medium.read q = .ok (.clean q data) := by
        rw [store] at read
        split at read
        next here =>
          rw [grown] at read
          rw [here]
          exact (only q _ read).resolve_left apart
        next => exact read
      rw [stored?_eq_some.mpr ⟨other, again, old⟩] at unstored
      cases unstored
  · obtain ⟨_, index⟩ := page
    cases table
    rw [untouched.fresh _ (unseen index (UInt32.le_refl _))] at seen
    obtain ⟨other, again, read⟩ := stored?_eq_some.mp seen
    rw [catalog] at again
    cases known.symm.trans again
    rw [store, if_pos rfl, grown] at read
    rcases blank _ _ read with old | zeros
    · have below := Medium.lt_extent old
      exact absurd number (Nat.ne_of_lt below)
    · exact zeros
  · rw [store, if_pos rfl, grown, ← answer]
  · rw [store, if_neg apart]

end Pool

/-! ## The scan -/

namespace HeapTable

variable {base mid after : Pool} {txn : TransactionId} {id : TableId} {file : Table}
  {tuple : Bytes} {refs : List PageRef} {count : Nat}

/-- An insert that has put its tuple onto the page that it took. -/
def Puts (txn : TransactionId) (id : TableId) (tuple : Bytes) (base : Pool)
    (refs : List PageRef) (after : Pool) : Prop :=
  ∃ page old new slot ref mid, base.Taken txn id tuple.size page old ref mid ∧
    SlottedPage.insert old tuple = (new, .ok slot) ∧ refs = [ref] ∧
    after = mid.setObject ref { mid.object ref with data := new, dirtier := some txn }

/-- When no page has room, the tuple goes onto the page that is allocated then. -/
theorem insertNew_puts {grown : Pool} {page : PageId} (faithful : base.Faithful)
    (scanned : base.Scanned txn id tuple.size count mid)
    (total : count = (base.store file.store).medium.extent)
    (drift : Pool.Drift txn mid grown) (locks : grown.locks = mid.locks)
    (registered : mid.catalog.file? id = some file) (brings : Pool.Brings id file mid grown page)
    (ran : grown.run txn (insertNew tuple page) = (after, .done (.ok refs))) :
    Puts txn id tuple base refs after := by
  obtain ⟨_, index⟩ := page
  cases brings.table
  obtain ⟨ref, now, served, ran⟩ := Pool.run_fetchOrStop_ok ran
  have number : index.toNat = count := by
    rw [total, ← scanned.media.medium]
    exact brings.number
  have later := (faithful.drift scanned.drift).drift drift
  have zeros := brings.blank _ (served.visible? later)
  have size : (now.object ref).data.size = base.config.pageSize := by
    have whole := ((later.drift served.drift).formed.shelved _ ref served.filed).size
    rw [((scanned.drift.trans drift).trans served.drift).shape.config] at whole
    exact whole
  have blank : (now.object ref).data = Bytes.zeros base.config.pageSize := by
    rw [← size, zeros, Bytes.size_zeros]
  rcases run_placeOn_ok ran with ⟨_, failed⟩ | ⟨new, slot, inserted, done, rfl⟩
  · cases failed
  · have room := (SlottedPage.insert_eq_ok inserted).1
    have unseen := brings.unseen
    have provides : Pool.Provides _ ⟨_, index⟩ mid grown :=
      ⟨fun there => absurd (unseen index (UInt32.le_refl _)) there,
        fun _ => ⟨file, registered, brings.allocated, brings.others⟩⟩
    rw [scanned.visible? faithful] at unseen
    have taken := scanned.take faithful number drift locks provides brings.visible served room
      (Or.inr ⟨blank, unseen⟩)
    exact ⟨_, _, new, slot, ref, now, taken, inserted, rfl, done⟩

/-- From the page after those that were passed over, a scan takes the first one with room. -/
theorem insertFrom_puts (faithful : base.Faithful) (known : base.catalog.file? id = some file)
    (few : (base.store file.store).medium.extent < 4294967295)
    (blank : (base.store file.store).medium.GrowsBlank) {left : Nat} {index : UInt32}
    (scanned : base.Scanned txn id tuple.size count mid) (number : index.toNat = count)
    (total : count + left = (base.store file.store).medium.extent)
    (ran : mid.run txn (insertFrom id file.store tuple left index) = (after, .done (.ok refs))) :
    Puts txn id tuple base refs after := by
  induction left generalizing mid index count with
  | zero =>
    rw [insertFrom, Pool.run] at ran
    obtain ⟨page, allocated, ran⟩ := Pool.run_withResult_ok ran
    have registered : mid.catalog.file? id = some file := by
      rw [scanned.media.catalog]
      exact known
    have medium := scanned.media.medium file.store
    have brings := (faithful.drift scanned.drift).brings registered (by rwa [medium])
      (by rwa [medium]) allocated
    exact insertNew_puts faithful scanned total (.allocate .start file.store) rfl registered
      brings ran
  | succ left ih =>
    rw [insertFrom, Pool.run] at ran
    obtain ⟨ref, now, served, ran⟩ := Pool.run_fetchOrStop_ok ran
    have seen : base.visible? ⟨id, index⟩ = some (now.object ref).data := by
      rw [← scanned.visible? faithful]
      exact served.visible? (faithful.drift scanned.drift)
    rcases run_placeOn_ok ran with ⟨full, ran⟩ | ⟨new, slot, inserted, done, rfl⟩
    · have bound := index.toNat_lt
      have next : (index + 1).toNat = count + 1 := by
        rw [UInt32.toNat_add, UInt32.toNat_one, Nat.mod_eq_of_lt (by omega), number]
      have passed := scanned.pass faithful number served full
      refine ih passed next (by omega) ?_
      split at ran
      next held =>
        rw [if_pos held]
        exact ran
      next unheld =>
        rw [if_neg unheld]
        exact ran
    · have room := (SlottedPage.insert_eq_ok inserted).1
      have there : mid.visible? ⟨id, index⟩ ≠ none := by
        rw [scanned.visible? faithful, seen]
        exact Option.some_ne_none _
      have taken := scanned.take faithful number .start rfl
        ⟨fun _ _ => rfl, fun unseen => absurd unseen there⟩ (fun _ _ => rfl) served room
        (Or.inl seen)
      exact ⟨_, _, new, slot, ref, now, taken, inserted, rfl, done⟩

end HeapTable

/-! ## The whole insert -/

namespace Pool

variable {pool base mid after : Pool} {txn : TransactionId} {id : TableId} {page : PageId}
  {ref : PageRef} {old new tuple : Bytes} {slot : Nat}

/-- How an insert leaves a pool that has put its tuple onto a page and its new bytes there. -/
structure FirstFit (txn : TransactionId) (id : TableId) (tuple : Bytes) (before : Pool)
    (page : PageId) (old new : Bytes) (ref : PageRef) (after : Pool) : Prop where
  first : before.FirstRoom id tuple.size page old
  inserted : ∃ slot, SlottedPage.insert old tuple = (new, .ok slot)
  filed : after.cache.peek? page = some ref
  object : after.object ref = ⟨page, new, some txn⟩
  visible : ∀ q, after.visible? q = if q = page then some new else before.visible? q
  stored : KeepsStored before after
  provides : Provides id page before after
  alone : after.locks.mode? txn page = some .exclusive
  passed : ∀ index < page.index, after.locks.mode? txn ⟨id, index⟩ =
    (before.locks.mode? txn ⟨id, index⟩).map fun _ => .exclusive
  unmet : ∀ q, q ≠ page → (q.table = id → page.index ≤ q.index) →
    after.locks.mode? txn q = before.locks.mode? txn q
  others : ∀ a q, a ≠ txn → after.locks.mode? a q = before.locks.mode? a q

/-- One cached page has become another object's, and all other pages are seen as before. -/
theorem Formed.visible?_edited {p : Page} (formed : mid.Formed)
    (filed : mid.cache.peek? page = some ref)
    (object : ∀ r, after.object r = if r = ref then p else mid.object r)
    (peek : ∀ q, after.cache.peek? q = mid.cache.peek? q) (stored : after.stored? = mid.stored?)
    (q : PageId) :
    after.visible? q = if q = page then some p.data else mid.visible? q := by
  have found := peek q
  split
  next here =>
    rw [here, filed] at found
    rw [here, visible?_of_cached found, object, if_pos rfl]
  next apart =>
    cases held : mid.cache.peek? q with
    | none =>
      rw [held] at found
      rw [visible?_of_uncached held, visible?_of_uncached found, stored]
    | some r =>
      rw [held] at found
      have differ : r ≠ ref := by
        rintro rfl
        exact apart (formed.ref_injective held filed)
      rw [visible?_of_cached held, visible?_of_cached found, object, if_neg differ]

theorem Taken.finish (taken : Taken txn id tuple.size base page old ref mid)
    (faithful : base.Faithful) (inserted : SlottedPage.insert old tuple = (new, .ok slot)) :
    ∃ after, Pool.finish txn
        (mid.setObject ref { mid.object ref with data := new, dirtier := some txn },
          .done (.ok (.changed [ref]))) = (after, .done (.ok (.changed [ref]))) ∧
      FirstFit txn id tuple base page old new ref after := by
  have formed := (faithful.drift taken.drift).formed
  obtain ⟨known, named, _, _⟩ := formed.shelved page ref taken.filed
  refine ⟨_, finish_edited known named taken.filed new, ?_⟩
  have object : ∀ r, ({ mid.setObject ref
      { mid.object ref with data := new, dirtier := some txn } with
      cache := mid.cache.toBack page } : Pool).object r =
      if r = ref then ⟨page, new, some txn⟩ else mid.object r := by
    intro r
    refine (object_setObject ..).trans ?_
    simp only [known, and_true]
    rw [named]
  have others := fun (a : TransactionId) (q : PageId) (other : a ≠ txn) =>
    taken.drift.others other q
  refine ⟨taken.first, ⟨slot, inserted⟩, taken.filed, ?_, fun q => ?_, taken.drift.retains.stored,
    ⟨taken.provides.there, taken.provides.allocated⟩, taken.alone, taken.passed, taken.unmet,
    others⟩
  · rw [object, if_pos rfl]
  · have seen := formed.visible?_edited taken.filed object (fun _ => rfl) rfl q
    split at seen
    next here => rw [if_pos here]; exact seen
    next apart => rw [if_neg apart, ← taken.visible q apart]; exact seen

/-- An operation that ends well does so before its pages are adopted. -/
theorem finish_done_ok {result : Pool × Progress Answer} {answer : Answer}
    (ended : finish txn result = (after, .done (.ok answer))) :
    ∃ mid, result = (mid, .done (.ok answer)) := by
  rcases finish_cases txn result with same | ⟨refs, answered, _, passed | ⟨e, fails⟩⟩
  · exact ⟨after, same.symm.trans ended⟩
  · rw [ended] at passed
    exact ⟨result.1, Prod.ext rfl (answered.trans passed.symm)⟩
  · rw [ended] at fails
    cases fails

theorem Faithful.insert_fits {answer : Answer} (faithful : pool.Faithful)
    (few : ∀ file, pool.catalog.file? id = some file →
      (pool.store file.store).medium.extent < 4294967295)
    (blank : ∀ file, pool.catalog.file? id = some file →
      (pool.store file.store).medium.GrowsBlank)
    (answered : pool.submit txn (.mutate id (.insert tuple)) = (after, .done (.ok answer))) :
    ∃ page old new ref, answer = .changed [ref] ∧
      FirstFit txn id tuple pool page old new ref after := by
  obtain ⟨last, ran⟩ := finish_done_ok answered
  have answered : finish txn (last, .done (.ok answer)) = (after, .done (.ok answer)) := by
    rw [← ran]
    exact answered
  simp only [programOf, findTable] at ran
  cases known : pool.catalog.file? id with
  | none =>
    rw [known] at ran
    cases ran
  | some file =>
    rw [known] at ran
    dsimp only at ran
    obtain ⟨refs, rfl, inserts⟩ := run_map_ok ran
    rw [(faithful.formed.heaps id file known).1] at inserts
    simp only [Table.program, HeapTable.table, HeapTable.insert] at inserts
    split at inserts
    · cases inserts
    rw [run] at inserts
    obtain ⟨count, counted, scans⟩ := run_withResult_ok inserts
    have number : count.toNat = (pool.store file.store).medium.extent := by
      rcases pool.countPages_result file.store with reached | stopped
      · exact Medium.numPages_toNat (few file known) (reached.symm.trans counted)
      · cases stopped.symm.trans counted
    have scanned : Scanned txn id tuple.size pool 0 (pool.countPages file.store).1 :=
      ⟨.count .start _, pool.countPages_media file.store,
        fun i below => absurd below (Nat.not_lt_zero _),
        fun i below => absurd below (Nat.not_lt_zero _), fun _ _ => rfl⟩
    obtain ⟨page, old, new, slot, ref, mid, taken, inserted, rfl, rfl⟩ :=
      HeapTable.insertFrom_puts faithful known (few file known) (blank file known) scanned rfl
        (by omega) scans
    obtain ⟨done, finished, fits⟩ := taken.finish faithful inserted
    cases answered.symm.trans finished
    exact ⟨page, old, new, ref, rfl, fits⟩

end Pool

/-- What an operation was answered with if it ended well. -/
def Progress.answer? {α : Type} : Progress α → Option α
  | .done (.ok a) => some a
  | _ => none

theorem eq_done_of_answer? {α : Type} {result : Pool × Progress α} {a : α}
    (answered : result.2.answer? = some a) : result = (result.1, .done (.ok a)) := by
  obtain ⟨pool, progress⟩ := result
  cases progress with
  | waiting request => cases answered
  | done outcome =>
    cases outcome with
    | ok given =>
      cases answered
      rfl
    | error e => cases answered

namespace Interleaving

/-- An insert that succeeds at once puts its tuple onto the first page of its table that has room
for it, or onto the next one if none has. Of the pages that it passed over it holds those that it
held before. -/
theorem insert_is_first_fit {config : Config} {catalog : Catalog Table} {stores : Array Store}
    {objects : Array Page} {pool reached after : Pool}
    (created : Pool.create config catalog stores objects = .ok pool) (heaps : pool.OverHeaps)
    (deeds : List Deed) (tends : (start pool).Tends deeds)
    (reaches : ((start pool).handleAll deeds).pool = reached) (txn : TransactionId) (id : TableId)
    (few : ∀ store ∈ reached.stores, store.medium.extent < 4294967295)
    (blank : ∀ store ∈ reached.stores, store.medium.GrowsBlank) (tuple : Bytes) {answer : Answer}
    (answered : reached.submit txn (.mutate id (.insert tuple)) = (after, .done (.ok answer))) :
    ∃ page old new ref, answer = .changed [ref] ∧
      Pool.FirstFit txn id tuple reached page old new ref after := by
  have coherent := Pool.coherent_create created heaps
  have faithful := (ready_start coherent.formed).handleAll_faithful coherent.faithful tends
  rw [reaches] at faithful
  have stored := fun (file : Table) (known : reached.catalog.file? id = some file) =>
    faithful.formed.heaps.store_mem known
  exact faithful.insert_fits (fun file known => few _ (stored file known))
    (fun file known => blank _ (stored file known)) answered

theorem growsBlank_in_memory {stores : Array Store} {s : MemoryStore}
    (media : stores.map Store.medium = #[.memory s]) :
    ∀ store ∈ stores, store.medium.GrowsBlank := by
  intro store listed
  have medium : store.medium ∈ stores.map Store.medium := Array.mem_map_of_mem listed
  rw [media] at medium
  rw [Array.mem_singleton.mp medium]
  exact Medium.growsBlank_of_tidy trivial trivial

/-- The first two pages are full, and the transaction shares the first one. -/
def fillsTwoPages : List Deed :=
  [.act (.call ⟨2⟩ (.mutate ⟨1⟩ (.insert (Bytes.zeros 40)))), .act (.finish ⟨2⟩ .commit),
    .act (.call ⟨2⟩ (.mutate ⟨1⟩ (.insert (Bytes.zeros 40)))), .act (.finish ⟨2⟩ .commit),
    .act (.call ⟨1⟩ (.fetch ⟨⟨1⟩, 0⟩ .readOnly))]

/-- A page of 64 bytes with one tuple of 40 zeros. -/
def pageOfForty : Bytes := #[1, 0, 44, 0] ++ Bytes.zeros 56 ++ #[4, 0, 40, 0]

/-- With room for one page in the cache, an insert takes the first page for itself, gives the
second one back, and goes on to a third one. -/
theorem insert_passes_full_pages : ∃ pool reached after,
    Pool.create (Config.sized 1 64) (Catalog.single "a" blankPair.medium) #[blankPair] #[] =
      .ok pool ∧
    (start pool).Tends fillsTwoPages ∧ ((start pool).handleAll fillsTwoPages).pool = reached ∧
    reached.stores.map Store.medium = #[.memory ⟨⟨1⟩, 64, #[pageOfForty, pageOfForty]⟩] ∧
    reached.submit ⟨1⟩ (.mutate ⟨1⟩ (.insert (Bytes.zeros 40))) =
      (after, .done (.ok (.changed [⟨4⟩]))) ∧
    after.locks.mode? ⟨1⟩ ⟨⟨1⟩, 0⟩ = some .exclusive ∧
    after.locks.mode? ⟨1⟩ ⟨⟨1⟩, 1⟩ = none ∧
    ∃ page old new ref, Answer.changed [⟨4⟩] = .changed [ref] ∧
      Pool.FirstFit ⟨1⟩ ⟨1⟩ (Bytes.zeros 40) reached page old new ref after := by
  have created : Pool.create (Config.sized 1 64) (Catalog.single "a" blankPair.medium)
    #[blankPair] #[] = .ok _ := rfl
  refine ⟨_, _, _, created, by decide +kernel, rfl, by decide +kernel,
    eq_done_of_answer? (by decide +kernel), by decide +kernel, by decide +kernel, ?_⟩
  refine insert_is_first_fit created (Pool.heaps_single created) fillsTwoPages (by decide +kernel)
    rfl ⟨1⟩ ⟨1⟩ ?_ ?_ (Bytes.zeros 40) (eq_done_of_answer? (by decide +kernel))
  · decide +kernel
  · exact growsBlank_in_memory (s := ⟨⟨1⟩, 64, #[pageOfForty, pageOfForty]⟩) (by decide +kernel)

end Interleaving

end TransactionalPages
