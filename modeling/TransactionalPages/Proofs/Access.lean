import TransactionalPages.Proofs.Interleaving

/-!
# Accesses to one page

Fetching a page to read it, reading a tuple and deleting one concern one page
each. Such an access waits, or it is interrupted by a deadlock, a full cache or a
stopped read, or else its answer is a matter of what there is to be seen of the
page: the draft of it, or what its store serves.
-/

namespace TransactionalPages

/-- Whether a call with this error is taken as not performed. -/
def PoolError.interrupts : PoolError → Bool
  | .deadlock _ _ => true
  | .evictionExhausted _ => true
  | .storage (.io _) => true
  | _ => false

theorem PoolError.interrupts_storage {cause : StorageError} (sane : ∀ io, cause ≠ .io io) :
    (PoolError.storage cause).interrupts = false := by
  cases cause with
  | io io => exact absurd rfl (sane io)
  | _ => rfl

/-- An operation on one page that adds no tuple. -/
inductive Access where
  | fetch (page : PageId)
  | get (table : TableId) (record : RecordId)
  | delete (table : TableId) (record : RecordId)

namespace Access

def operation : Access → Operation
  | fetch page => .fetch page .readOnly
  | get table record => .get table record
  | delete table record => .mutate table (.delete record)

def table : Access → TableId
  | fetch page => page.table
  | get table _ => table
  | delete table _ => table

def page : Access → PageId
  | fetch page => page
  | get _ record => record.page
  | delete _ record => record.page

def permission : Access → Permission
  | fetch _ => .readOnly
  | get _ _ => .readOnly
  | delete _ _ => .readWrite

/-- What follows once the page is served. -/
def rest : Access → Except PoolError PageRef → Program Answer
  | fetch _, r => .stop (r.map .page)
  | get _ _, .error e => .fail e
  | get _ record, .ok ref =>
    (Program.look ref fun seen =>
      .withResult (SlottedPage.get seen.data record.slot) fun tuple => .stop (.ok tuple)).map .tuple
  | delete _ _, .error e => .fail e
  | delete _ record, .ok ref =>
    (Program.look ref fun seen =>
      .withResult (SlottedPage.delete seen.data record.slot) fun data =>
      .edit ref data (.stop (.ok [ref]))).map .changed

/-- What an access answers when it sees a page, and the bytes that it gives to the page if it
changes it. -/
def act (txn : TransactionId) : Access → Page → Except PoolError Reply × Option Bytes
  | fetch _, seen => (.ok (.page seen), none)
  | get _ record, seen =>
    (((SlottedPage.get seen.data record.slot).mapError .storage).map .tuple, none)
  | delete _ record, seen =>
    match SlottedPage.delete seen.data record.slot with
    | .ok new => (.ok (.changed [⟨seen.id, new, some txn⟩]), some new)
    | .error e => (.error (.storage e), none)

theorem act_error {txn : TransactionId} {a : Access} {seen : Page} {e : PoolError}
    (refused : (a.act txn seen).1 = .error e) : e.interrupts = false := by
  cases a with
  | fetch page => cases refused
  | get table record =>
    have refused : ((SlottedPage.get seen.data record.slot).mapError PoolError.storage).map
      Reply.tuple = .error e := refused
    cases got : SlottedPage.get seen.data record.slot with
    | ok tuple =>
      rw [got] at refused
      cases refused
    | error cause =>
      rw [got] at refused
      cases refused
      exact PoolError.interrupts_storage (SlottedPage.get_error got)
  | delete table record =>
    rw [act] at refused
    cases deleted : SlottedPage.delete seen.data record.slot with
    | ok new =>
      rw [deleted] at refused
      cases refused
    | error cause =>
      rw [deleted] at refused
      cases refused
      exact PoolError.interrupts_storage (SlottedPage.delete_error deleted)

/-- What an access answers and changes, given what there is to be seen of each page. -/
def perform (txn : TransactionId) (a : Access) (glimpse : PageId → Except PoolError Page) :
    Except PoolError Reply × Option Bytes :=
  if a.page.table = a.table then
    match glimpse a.page with
    | .ok seen => a.act txn seen
    | .error e => (.error e, none)
  else (.error (.storage (.tableMismatch a.page a.table)), none)

end Access

/-- A page and all drafts can be cached together. -/
def Roomy (capacity : Nat) (drafted : PageId → Bool) (page : PageId) : Prop :=
  ∀ pages : List PageId, pages.Nodup → (∀ q ∈ pages, q = page ∨ drafted q = true) →
    pages.length ≤ capacity

theorem Roomy.fewer {capacity : Nat} {drafted other : PageId → Bool} {page : PageId}
    (roomy : Roomy capacity drafted page) (fewer : ∀ q, other q = true → drafted q = true) :
    Roomy capacity other page := by
  intro pages distinct together
  refine roomy pages distinct fun q listed => ?_
  rcases together q listed with same | there
  · exact Or.inl same
  · exact Or.inr (fewer q there)

/-- Perhaps a transaction writes a page. -/
def View.leave (v : View) (txn : TransactionId) (page : PageId) : Option Bytes → View
  | none => v
  | some data => v.write txn page data

namespace Pool

variable {pool before after mid : Pool} {txn : TransactionId} {page : PageId} {ref : PageRef}

/-! ## What there is to be seen -/

/-- What the store of a page's table serves. -/
def served (pool : Pool) (page : PageId) : Except PoolError Bytes :=
  match pool.findTable page.table with
  | .error e => .error e
  | .ok table =>
    match (pool.store table.store).medium.read page with
    | .error e => .error (.storage e)
    | .ok stored =>
      if stored.size = pool.config.pageSize then .ok stored.data
      else .error (.storage (.pageSizeMismatch pool.config.pageSize stored.size))

/-- The draft of a page, or what its store serves. -/
def glimpse (pool : Pool) (page : PageId) : Except PoolError Page :=
  match pool.draft? page with
  | some (owner, data) => .ok ⟨page, data, some owner⟩
  | none => (pool.served page).map (Page.clean page)

/-- Whether there is a draft of a page. -/
def drafted (pool : Pool) (page : PageId) : Bool := (pool.draft? page).isSome

theorem served_congr (config : after.config = before.config)
    (catalog : after.catalog = before.catalog)
    (read : ∀ ref, (after.store ref).medium.read page = (before.store ref).medium.read page) :
    after.served page = before.served page := by
  simp only [served, findTable]
  simp only [config, catalog, read]

theorem served_of_media (media : SameMedia before after) : after.served = before.served := by
  funext page
  exact served_congr media.config media.catalog fun ref => by rw [media.medium]

theorem glimpse_congr (media : SameMedia before after) (drafts : after.draft? = before.draft?) :
    after.glimpse = before.glimpse := by
  funext page
  simp only [glimpse]
  rw [drafts, served_of_media media]

theorem served_of_stored {data : Bytes} (stored : pool.stored? page = some data)
    (size : data.size = pool.config.pageSize) : pool.served page = .ok data := by
  obtain ⟨table, known, readable⟩ := stored?_eq_some.mp stored
  have whole : (Page.clean page data).size = pool.config.pageSize := size
  simp only [served, findTable]
  rw [known]
  dsimp only
  rw [readable]
  dsimp only
  rw [if_pos whole]
  rfl

/-- A cached page is what there is to be seen of it. -/
theorem Coherent.glimpse_cached (coherent : pool.Coherent)
    (held : pool.cache.peek? page = some ref) : pool.glimpse page = .ok (pool.object ref) := by
  have filed := coherent.filed page ref held
  obtain ⟨data, stored, size, clean⟩ := filed.backed
  simp only [glimpse]
  cases dirty : (pool.object ref).dirtier with
  | some owner =>
    have draft : pool.draft? page = some (owner, (pool.object ref).data) :=
      draft?_eq_some.mpr ⟨ref, held, dirty, rfl⟩
    rw [draft]
    dsimp only
    rw [← filed.id, ← dirty]
  | none =>
    rw [draft?_of_clean held dirty, served_of_stored stored size]
    show Except.ok (Page.mk page data none) = _
    rw [← clean dirty, ← filed.id, ← dirty]

/-! ## Interruptions -/

theorem served_error {e : PoolError} (refused : pool.served page = .error e) :
    e.interrupts = false := by
  simp only [served, findTable] at refused
  cases known : pool.catalog.file? page.table with
  | none =>
    rw [known] at refused
    cases refused
    rfl
  | some table =>
    rw [known] at refused
    dsimp only at refused
    cases read : (pool.store table.store).medium.read page with
    | error cause =>
      rw [read] at refused
      cases refused
      exact PoolError.interrupts_storage (Medium.read_error read)
    | ok stored =>
      rw [read] at refused
      dsimp only at refused
      split at refused
      · cases refused
      · cases refused
        rfl

/-- An answer that depends on what there is to be seen is never an interruption. -/
theorem perform_error {a : Access} {e : PoolError}
    (refused : (a.perform txn pool.glimpse).1 = .error e) : e.interrupts = false := by
  simp only [Access.perform] at refused
  split at refused
  · simp only [glimpse] at refused
    cases seen : pool.draft? a.page with
    | some draft =>
      rw [seen] at refused
      exact Access.act_error refused
    | none =>
      rw [seen] at refused
      dsimp only at refused
      cases stored : pool.served a.page with
      | error cause =>
        rw [stored] at refused
        cases refused
        exact served_error stored
      | ok data =>
        rw [stored] at refused
        exact Access.act_error refused
  · cases refused
    rfl

/-- Why an access to a page is not performed. -/
inductive Interruption (pool : Pool) (txn : TransactionId) (page : PageId) : PoolError → Prop where
  | deadlock {other : TransactionId} (differ : other ≠ txn) (held : pool.locks.holds other page) :
    Interruption pool txn page (.deadlock txn page)
  | stopped {ref : StoreRef} {call : Nat} (stopped : (pool.store ref).reads.works call = false) :
    Interruption pool txn page (.storage (.io .injected))
  | exhausted {capacity : Nat} {seen : Page} (visible : pool.glimpse page = .ok seen)
    (full : ¬Roomy pool.config.capacity pool.drafted page) :
    Interruption pool txn page (.evictionExhausted capacity)

theorem Interruption.interrupts {e : PoolError} (interruption : Interruption pool txn page e) :
    e.interrupts = true := by
  cases interruption <;> rfl

/-- A page that cannot be loaded cannot be seen, or loading it was interrupted. -/
theorem Coherent.load_failure (coherent : pool.Coherent) (absent : pool.cache.peek? page = none)
    {e : PoolError} (failure : LoadFailure pool page e) (txn : TransactionId) :
    Interruption pool txn page e ∨ pool.glimpse page = .error e := by
  have glimpsed : pool.glimpse page = (pool.served page).map (Page.clean page) := by
    rw [glimpse, draft?_of_uncached absent]
  cases failure with
  | unregistered unknown =>
    right
    rw [glimpsed, served, findTable, unknown]
    rfl
  | stopped known stopped => exact Or.inl (.stopped stopped)
  | unreadable known refused =>
    right
    rw [glimpsed, served, findTable, known]
    dsimp only
    rw [refused]
    rfl
  | otherSize known readable differ =>
    right
    rw [glimpsed, served, findTable, known]
    dsimp only
    rw [readable]
    dsimp only
    rw [if_neg differ]
    rfl
  | @exhausted table stored known readable size full dirty =>
    left
    rw [Cache.isFull, decide_eq_true_eq, coherent.cache.size_eq] at full
    have missing : page ∉ pool.cache.order := fun listed => by
      rw [coherent.cache.listed, absent] at listed
      cases listed
    have visible : pool.glimpse page = .ok (.clean page stored.data) := by
      rw [glimpsed, served_of_stored (stored?_of_read known readable) size]
      rfl
    have distinct : (page :: pool.cache.order).Nodup :=
      List.nodup_cons.mpr ⟨missing, coherent.cache.distinct⟩
    have together : ∀ q ∈ page :: pool.cache.order, q = page ∨ pool.drafted q = true := by
      intro q listed
      rcases List.mem_cons.mp listed with same | listed
      · exact Or.inl same
      · right
        obtain ⟨ref, held⟩ := Option.isSome_iff_exists.mp ((coherent.cache.listed q).mp listed)
        obtain ⟨owner, written⟩ := Option.isSome_iff_exists.mp (dirty q listed ref held)
        rw [drafted, draft?_eq_some.mpr ⟨ref, held, written, rfl⟩]
        rfl
    refine .exhausted visible fun roomy => ?_
    have fits := roomy _ distinct together
    rw [List.length_cons, ← coherent.capacity] at fits
    omega

/-- A cached page is cached together with all drafts. -/
theorem Coherent.roomy_cached (coherent : pool.Coherent)
    (held : pool.cache.peek? page = some ref) :
    Roomy pool.config.capacity pool.drafted page := by
  intro pages distinct together
  have listed : pages ⊆ pool.cache.order := by
    intro q here
    rw [coherent.cache.listed]
    rcases together q here with same | dirty
    · rw [same, held]
      rfl
    · obtain ⟨⟨owner, data⟩, draft⟩ := Option.isSome_iff_exists.mp dirty
      obtain ⟨_, there, _⟩ := draft?_eq_some.mp draft
      rw [there]
      rfl
  rw [← coherent.capacity]
  exact Nat.le_trans (distinct.length_le_of_subset listed) coherent.cache.within

/-! ## Running an access -/

variable {start : Pool} {a : Access}

/-- What an access leaves alone: the stores, and the locks on other pages and of others. -/
structure Beside (txn : TransactionId) (a : Access) (before after : Pool) : Prop where
  coherent : after.Coherent
  media : SameMedia before after
  others : ∀ b p, b ≠ txn → after.locks.mode? b p = before.locks.mode? b p
  kept : ∀ p, before.locks.holds txn p → after.locks.holds txn p
  only : ∀ p, after.locks.holds txn p →
    before.locks.holds txn p ∨ (p = a.page ∧ a.page.table = a.table)

theorem Beside.refl (coherent : pool.Coherent) : Beside txn a pool pool :=
  ⟨coherent, .refl pool, fun _ _ _ => rfl, fun _ held => held, fun _ held => Or.inl held⟩

theorem Beside.then (first : Beside txn a before mid) (coherent : after.Coherent)
    (media : SameMedia mid after) (locks : after.locks = mid.locks) :
    Beside txn a before after := by
  refine ⟨coherent, first.media.trans media, ?_, ?_, ?_⟩
  · rw [locks]
    exact first.others
  · rw [locks]
    exact first.kept
  · rw [locks]
    exact first.only

/-- How an access ends or waits. -/
inductive Attended (txn : TransactionId) (a : Access) (start : Pool) :
    Pool × Progress Answer → Prop where
  | waits {after : Pool} {other : TransactionId} (beside : Beside txn a start after)
    (view : after.view = start.view) (own : a.page.table = a.table) (differ : other ≠ txn)
    (held : start.locks.holds other a.page) :
    Attended txn a start (after, .waiting ⟨a.page, a.permission, a.rest⟩)
  | interrupted {after : Pool} {e : PoolError} (beside : Beside txn a start after)
    (view : after.view = start.view) (own : a.page.table = a.table)
    (interruption : Interruption start txn a.page e) :
    Attended txn a start (after, .done (.error e))
  | performed {after : Pool} {answer : Except PoolError Answer}
    (beside : Beside txn a start after)
    (view : after.view = start.view.leave txn a.page (a.perform txn start.glimpse).2)
    (shown : (answer.map fun given => given.show after) = (a.perform txn start.glimpse).1)
    (held : a.page.table = a.table → after.locks.holds txn a.page)
    (roomy : a.page.table = a.table → (∃ seen, start.glimpse a.page = .ok seen) →
      Roomy start.config.capacity start.drafted a.page) :
    Attended txn a start (after, .done answer)

/-- An interruption after the page was locked is one before. -/
theorem Interruption.earlier {e : PoolError} (interruption : Interruption mid txn a.page e)
    (beside : Beside txn a start mid) (view : mid.view = start.view) :
    Interruption start txn a.page e := by
  cases interruption with
  | deadlock differ held =>
    rw [LockTable.holds_congr (beside.others _ _ differ)] at held
    exact .deadlock differ held
  | stopped stopped =>
    rw [beside.media.reads] at stopped
    exact .stopped stopped
  | exhausted visible full =>
    have drafts : mid.draft? = start.draft? := congrArg View.draft view
    have drafted : mid.drafted = start.drafted := by
      unfold Pool.drafted
      rw [drafts]
    rw [beside.media.config, drafted] at full
    rw [glimpse_congr beside.media drafts] at visible
    exact .exhausted visible full

theorem run_rest_error (txn : TransactionId) (a : Access) (e : PoolError) (pool : Pool) :
    pool.run txn (a.rest (.error e)) = (pool, .done (.error e)) := by
  cases a <;> rfl

/-- What follows when the page is served is what the access does when it sees the page. -/
theorem Coherent.finish_rest (coherent : mid.Coherent) (held : mid.cache.peek? a.page = some ref)
    (alone : a.permission = .readWrite → mid.locks.mode? txn a.page = some .exclusive) :
    ∃ after answer, finish txn (mid.run txn (a.rest (.ok ref))) = (after, .done answer) ∧
      after.Coherent ∧ SameMedia mid after ∧ after.locks = mid.locks ∧
      after.view = mid.view.leave txn a.page (a.act txn (mid.object ref)).2 ∧
      (answer.map fun given => given.show after) = (a.act txn (mid.object ref)).1 := by
  cases a with
  | fetch page => exact ⟨mid, _, rfl, coherent, .refl mid, rfl, rfl, rfl⟩
  | get table record =>
    have ran : mid.run txn ((Access.get table record).rest (.ok ref)) =
        (mid, .done (((SlottedPage.get (mid.object ref).data record.slot).mapError .storage).map
          .tuple)) := by
      simp only [Access.rest, Program.map, run]
      cases SlottedPage.get (mid.object ref).data record.slot <;> rfl
    refine ⟨mid, ((SlottedPage.get (mid.object ref).data record.slot).mapError .storage).map
      Answer.tuple, ?_, coherent, .refl mid, rfl, rfl, ?_⟩
    · rw [ran]
      cases SlottedPage.get (mid.object ref).data record.slot <;> rfl
    · show _ = ((SlottedPage.get (mid.object ref).data record.slot).mapError _).map _
      cases SlottedPage.get (mid.object ref).data record.slot <;> rfl
  | delete table record =>
    have ran : mid.run txn ((Access.delete table record).rest (.ok ref)) =
        match SlottedPage.delete (mid.object ref).data record.slot with
        | .ok new => (mid.setObject ref { mid.object ref with data := new, dirtier := some txn },
            .done (.ok (.changed [ref])))
        | .error e => (mid, .done (.error (.storage e))) := by
      simp only [Access.rest, Program.map, run]
      cases SlottedPage.delete (mid.object ref).data record.slot <;> rfl
    cases deleted : SlottedPage.delete (mid.object ref).data record.slot with
    | error e =>
      rw [ran, Access.act, deleted]
      exact ⟨mid, _, rfl, coherent, .refl mid, rfl, rfl, rfl⟩
    | ok new =>
      have filed := coherent.filed _ ref held
      have size : new.size = mid.config.pageSize :=
        (SlottedPage.size_delete deleted).trans filed.size
      obtain ⟨after, ended, done, media, locks, view, object⟩ :=
        coherent.finish_write held (alone rfl) size
      rw [ran, Access.act, deleted]
      refine ⟨after, _, ended, done, media, locks, view, ?_⟩
      show Except.ok (Reply.changed [after.object ref]) = _
      rw [object, filed.id]

theorem load_error {e : PoolError} (failed : (pool.load page).2 = .error e) :
    pool.cache.peek? page = none ∧ LoadFailure pool page e := by
  rcases pool.load_cases page with
    ⟨_, _, _, _, _, eq⟩ | ⟨_, _, absent, _, failure, eq⟩ | ⟨_, _, _, _, _, _, _, _, _, eq⟩
  · rw [eq] at failed
    cases failed
  · rw [eq] at failed
    cases failed
    exact ⟨absent, failure⟩
  · rw [eq] at failed
    cases failed

/-- An access that was granted its lock is performed, unless loading the page is interrupted. -/
theorem Beside.load_attended (beside : Beside txn a start mid) (view : mid.view = start.view)
    (own : a.page.table = a.table) (holds : mid.locks.holds txn a.page)
    (alone : a.permission = .readWrite → mid.locks.mode? txn a.page = some .exclusive) :
    Attended txn a start
      (finish txn ((mid.load a.page).1.run txn (a.rest (mid.load a.page).2))) := by
  obtain ⟨done, loadView, control, media⟩ := beside.coherent.load a.page
  have glimpsed : mid.glimpse = start.glimpse :=
    glimpse_congr beside.media (congrArg View.draft view)
  have filed : ∀ ref, (mid.load a.page).2 = .ok ref →
      (mid.load a.page).1.cache.peek? a.page = some ref := fun _ => load_filed
  have failing : ∀ e, (mid.load a.page).2 = .error e →
      mid.cache.peek? a.page = none ∧ LoadFailure mid a.page e := fun _ => load_error
  cases loaded : mid.load a.page with
  | mk after answer =>
    rw [loaded] at done loadView control media filed failing
    have afterView : after.view = start.view := loadView.trans view
    have besideAfter := beside.then done media control.locks
    have afterHolds : after.locks.holds txn a.page := by
      rw [control.locks]
      exact holds
    cases answer with
    | error e =>
      obtain ⟨absent, failure⟩ := failing e rfl
      show Attended txn a start (finish txn (after.run txn (a.rest (.error e))))
      rw [run_rest_error]
      rcases beside.coherent.load_failure absent failure txn with interruption | unseen
      · exact .interrupted besideAfter afterView own (interruption.earlier beside view)
      · rw [glimpsed] at unseen
        have performed : a.perform txn start.glimpse = (.error e, none) := by
          simp only [Access.perform]
          rw [if_pos own, unseen]
        refine .performed besideAfter ?_ ?_ (fun _ => afterHolds) fun _ seen => ?_
        · rw [performed]
          exact afterView
        · rw [performed]
          rfl
        · obtain ⟨page, seen⟩ := seen
          rw [unseen] at seen
          cases seen
    | ok ref =>
      have held := filed ref rfl
      have afterGlimpse : after.glimpse = start.glimpse :=
        (glimpse_congr media (congrArg View.draft loadView)).trans glimpsed
      have seen : start.glimpse a.page = .ok (after.object ref) := by
        rw [← afterGlimpse]
        exact done.glimpse_cached held
      have performed : a.perform txn start.glimpse = a.act txn (after.object ref) := by
        simp only [Access.perform]
        rw [if_pos own, seen]
      obtain ⟨last, answer, ended, lastCoherent, lastMedia, lastLocks, lastView, shown⟩ :=
        done.finish_rest held (by rw [control.locks]; exact alone)
      show Attended txn a start (finish txn (after.run txn (a.rest (.ok ref))))
      rw [ended]
      refine .performed (besideAfter.then lastCoherent lastMedia lastLocks) ?_ ?_ (fun _ => ?_)
        fun _ _ => ?_
      · rw [lastView, performed, afterView]
      · rw [performed]
        exact shown
      · rw [lastLocks]
        exact afterHolds
      · -- the page has been loaded beside all drafts
        have drafted : after.drafted = start.drafted := by
          unfold Pool.drafted
          rw [show after.draft? = start.draft? from congrArg View.draft afterView]
        rw [← besideAfter.media.config, ← drafted]
        exact done.roomy_cached held

/-- An access to a page of its own table waits, or is interrupted, or is performed. -/
theorem Coherent.serve_attended (coherent : start.Coherent) (txn : TransactionId) (a : Access)
    (own : a.page.table = a.table) (waited : Bool) :
    Attended txn a start
      (finish txn (start.serve txn ⟨a.page, a.permission, a.rest⟩ waited)) := by
  have asked := coherent.requestLock txn a.page a.permission.mode waited
  have view := requestLock_view start txn a.page a.permission.mode waited
  have media := requestLock_media start txn a.page a.permission.mode waited
  simp only [serve]
  rcases start.requestLock_cases txn a.page a.permission.mode waited with
    ⟨locks, granted, eq⟩ | ⟨refused, _, eq⟩ | ⟨refused, _, eq⟩
  · rw [eq] at asked view media ⊢
    have self := LockTable.acquire_self granted
    refine Beside.load_attended ⟨asked, media, ?_, ?_, ?_⟩ view own ?_ ?_
    · exact fun b p other => LockTable.acquire_other granted fun both => other both.1
    · exact fun p held => (LockTable.acquire_holds granted txn p).mpr (Or.inr held)
    · intro p held
      rcases (LockTable.acquire_holds granted txn p).mp held with ⟨_, here⟩ | before
      · exact Or.inr ⟨here, own⟩
      · exact Or.inl before
    · show (locks.mode? txn a.page).isSome
      rw [self]
      rfl
    · intro writes
      show locks.mode? txn a.page = _
      rw [self, writes]
      cases start.locks.mode? txn a.page with
      | none => rfl
      | some mode => cases mode <;> rfl
  · rw [eq] at asked view media ⊢
    obtain ⟨other, differ, held⟩ := LockTable.exists_holder_of_refused refused
    dsimp only
    rw [run_rest_error]
    exact .interrupted ((Beside.refl coherent).then asked media rfl) view own
      (.deadlock differ held)
  · rw [eq] at asked view media ⊢
    obtain ⟨other, differ, held⟩ := LockTable.exists_holder_of_refused refused
    exact .waits ((Beside.refl coherent).then asked media rfl) view own differ held

/-- What the program of an access is. -/
theorem programOf_access (heaps : pool.OverHeaps) (a : Access)
    (known : (pool.catalog.file? a.table).isSome) :
    pool.programOf a.operation =
      if a.page.table = a.table then .fetch a.page a.permission a.rest
      else .stop (.error (.storage (.tableMismatch a.page a.table))) := by
  cases a with
  | fetch page =>
    have own : (Access.fetch page).page.table = (Access.fetch page).table := rfl
    rw [if_pos own]
    rfl
  | get table record =>
    show (HeapTable.get table record).map Answer.tuple =
      if record.page.table = table then _ else _
    simp only [HeapTable.get, HeapTable.onOwnPage]
    by_cases own : record.page.table = table
    · rw [if_pos own, if_pos own]
      show Program.fetch _ _ _ = Program.fetch _ _ _
      congr 1
      funext r
      cases r <;> rfl
    · rw [if_neg own, if_neg own]
      rfl
  | delete table record =>
    obtain ⟨file, found⟩ := Option.isSome_iff_exists.mp known
    have found : pool.catalog.file? table = some file := found
    show (match pool.findTable table with
      | .error e => Program.fail e
      | .ok file => (file.program (.delete record)).map Answer.changed) =
        if record.page.table = table then _ else _
    simp only [findTable]
    rw [found, (heaps table file found).1]
    show (HeapTable.delete table record).map Answer.changed =
      if record.page.table = table then _ else _
    simp only [HeapTable.delete, HeapTable.onOwnPage]
    by_cases own : record.page.table = table
    · rw [if_pos own, if_pos own]
      show Program.fetch _ _ _ = Program.fetch _ _ _
      congr 1
      funext r
      cases r <;> rfl
    · rw [if_neg own, if_neg own]
      rfl

theorem Coherent.submit_attended (coherent : start.Coherent) (txn : TransactionId) (a : Access)
    (known : (start.catalog.file? a.table).isSome) :
    Attended txn a start (start.submit txn a.operation) := by
  simp only [submit]
  rw [programOf_access coherent.heaps a known]
  by_cases own : a.page.table = a.table
  · rw [if_pos own, run_fetch]
    exact coherent.serve_attended txn a own false
  · rw [if_neg own]
    have performed : a.perform txn start.glimpse =
        (.error (.storage (.tableMismatch a.page a.table)), none) := by
      simp only [Access.perform]
      rw [if_neg own]
    refine .performed (Beside.refl coherent) ?_ ?_ (fun same => absurd same own)
      fun same => absurd same own
    · rw [performed]
      rfl
    · rw [performed]
      rfl

theorem Coherent.resume_attended (coherent : start.Coherent) (txn : TransactionId) (a : Access)
    (own : a.page.table = a.table) :
    Attended txn a start (start.resume txn ⟨a.page, a.permission, a.rest⟩) := by
  simp only [resume]
  rw [retry_eq_serve]
  exact coherent.serve_attended txn a own true

end Pool

end TransactionalPages
