import TransactionalPages.Proofs.Securing
import TransactionalPages.Proofs.Turn

/-!
# Isolation by locks

While a transaction holds a page, nothing that others do takes the lock away or
changes what is to be seen of the page, whether they succeed or fail. The
transaction itself keeps every lock that it holds until it ends, and when one of
its operations has succeeded it holds the pages that this was about.
-/

namespace TransactionalPages

/-! ## What is shown of a page -/

namespace Pool

variable {pool before after : Pool} {txn a : TransactionId} {page : PageId} {data : Bytes}

/-- The bytes of the draft of a page, or else of what is stored. -/
def shown (pool : Pool) (page : PageId) : Option Bytes :=
  ((pool.draft? page).map Prod.snd).or (pool.stored? page)

theorem shown_congr (view : after.view = before.view) : after.shown = before.shown := by
  have drafts : after.draft? = before.draft? := congrArg View.draft view
  have stored : after.stored? = before.stored? := congrArg View.stored view
  funext page
  simp only [shown]
  rw [drafts, stored]

/-- Writing drafts back does not change what is shown. -/
theorem shown_flush {pages : List PageId} (view : after.view = before.view.flush pages) :
    after.shown = before.shown := by
  funext page
  have draft : after.draft? page = if page ∈ pages then none else before.draft? page :=
    congrFun (congrArg View.draft view) page
  have stored : after.stored? page =
      if page ∈ pages then before.shown page else before.stored? page :=
    congrFun (congrArg View.stored view) page
  by_cases flushed : page ∈ pages
  · rw [if_pos flushed] at draft stored
    rw [shown, draft, stored]
    rfl
  · rw [if_neg flushed] at draft stored
    rw [shown, draft, stored]
    rfl

theorem Coherent.flushPage_shown (coherent : pool.Coherent) (page : PageId) :
    (pool.flushPage page).1.shown = pool.shown := by
  obtain ⟨_, _, ⟨_, view⟩ | ⟨_, _, view⟩⟩ := coherent.flushPage page
  · exact shown_flush view
  · exact shown_congr view

theorem Coherent.flushEach_shown (coherent : pool.Coherent) (pages : List PageId) :
    (pool.flushEach pages).1.shown = pool.shown :=
  coherent.flushEach_all (R := fun before after => after.shown = before.shown) (fun _ => rfl)
    (fun first second => second.trans first) (fun _ page here => here.flushPage_shown page) pages

theorem Coherent.flushCached_shown (coherent : pool.Coherent) (cached : List (PageId × PageRef)) :
    (pool.flushCached cached).1.shown = pool.shown :=
  coherent.flushCached_all (R := fun before after => after.shown = before.shown) (fun _ => rfl)
    (fun first second => second.trans first) (fun _ page here => here.flushPage_shown page) cached

theorem Coherent.commit_shown (coherent : pool.Coherent) (txn : TransactionId) :
    (pool.commit txn).1.shown = pool.shown := by
  have flushed := coherent.flushEach_shown (pool.locks.pagesHeldBy txn)
  simp only [Pool.commit, flushPages]
  cases outcome : pool.flushEach (pool.locks.pagesHeldBy txn) with
  | mk moved answer =>
    rw [outcome] at flushed
    cases answer with
    | error e => exact flushed
    | ok _ => exact flushed

/-- An abort does not change what is shown of a page that someone else holds. -/
theorem Coherent.abort_shown (coherent : pool.Coherent) (held : pool.locks.holds a page)
    (other : a ≠ txn) : (pool.abort txn).1.shown page = pool.shown page := by
  obtain ⟨_, _, view, _⟩ := coherent.abort txn
  have unwritten : pool.view.wrote txn page = none := by
    cases written : pool.view.wrote txn page with
    | none => rfl
    | some data =>
      have draft : pool.draft? page = some (txn, data) := View.wrote_eq_some.mp written
      exact absurd (coherent.owner_of_holds held draft).symm other
  have draft : (pool.abort txn).1.draft? page =
      if (pool.view.wrote txn page).isSome then none else pool.draft? page :=
    congrFun (congrArg View.draft view) page
  have stored : (pool.abort txn).1.stored? page = pool.stored? page :=
    congrFun (congrArg View.stored view) page
  rw [unwritten] at draft
  rw [shown, draft, stored]
  rfl

theorem Coherent.ending_shown (coherent : pool.Coherent) (held : pool.locks.holds a page)
    (other : a ≠ txn) (ending : Ending) :
    (ending.run pool txn).1.shown page = pool.shown page := by
  have committed := congrFun (coherent.commit_shown txn) page
  rcases ending_pool pool txn ending with eq | eq | eq
  · rw [eq]
    exact committed
  · rw [eq]
    exact coherent.abort_shown held other
  · have still : (pool.commit txn).1.locks.holds a page := by
      rwa [LockTable.holds_congr (commit_others coherent other page)]
    rw [eq, (coherent.commit txn).1.abort_shown still other]
    exact committed

/-- Moving pages about does not change what is shown of those that are there. -/
theorem Quiet.shown {fetches : PageId → Prop} (quiet : Quiet txn fetches before after)
    (coherent : before.Coherent) (seen : before.shown page = some data) :
    after.shown page = some data := by
  obtain ⟨_, _, drafts, kept⟩ := quiet.effect coherent
  simp only [Pool.shown] at seen ⊢
  rw [drafts]
  cases draft : before.draft? page with
  | some d =>
    rw [draft] at seen
    exact seen
  | none =>
    rw [draft] at seen
    exact kept page data seen

/-- An operation does not change what is shown of a page that someone else holds. -/
theorem Effect.shown {op : Operation} {result : Pool × Progress Answer}
    (effect : Effect txn op pool result) (coherent : pool.Coherent)
    (held : pool.locks.holds a page) (other : a ≠ txn) (seen : pool.shown page = some data) :
    result.1.shown page = some data := by
  cases effect with
  | waits quiet => exact quiet.shown coherent seen
  | fails quiet => exact quiet.shown coherent seen
  | answers quiet => exact quiet.shown coherent seen
  | @writes mid after table mutation p ref old new _ quiet alone _ _ _ done _ locks view =>
    have apart : page ≠ p := by
      rintro rfl
      have still : mid.locks.holds a page := by
        rwa [LockTable.holds_congr (quiet.others other page)]
      exact other ((quiet.effect coherent).1.locks.alone page txn a alone still)
    have draft : after.draft? page = mid.draft? page :=
      (congrFun (congrArg View.draft view) page).trans (if_neg apart)
    have stored : after.stored? page = mid.stored? page := congrFun (congrArg View.stored view) page
    show after.shown page = some data
    rw [← quiet.shown coherent seen, Pool.shown, Pool.shown, draft, stored]

/-- A page that was changed is held exclusively when the change is answered. -/
theorem Effect.changed_held {op : Operation} {refs : List PageRef}
    (effect : Effect txn op pool (after, .done (.ok (.changed refs)))) {p : Page}
    (listed : p ∈ refs.map after.object) : after.locks.AtLeast txn p.id .exclusive := by
  cases effect with
  | answers quiet reads => exact absurd rfl (reads refs)
  | writes mutates quiet alone visible whole change done tables locks view shown =>
    rw [List.map_singleton, List.mem_singleton] at listed
    rw [listed, shown]
    refine LockTable.atLeast_of_mode ?_
    rw [locks]
    exact alone

/-- A fetch that succeeds answers with what is shown. -/
theorem Coherent.fetch_shown (coherent : pool.Coherent) {permission : Permission} {ref : PageRef}
    (answered : pool.submit txn (.fetch page permission) = (after, .done (.ok (.page ref)))) :
    pool.shown page = some (after.object ref).data := by
  have served : finish txn (pool.serve txn
      ⟨page, permission, fun r => (Program.stop r).map Answer.page⟩ false) =
      (after, .done (.ok (.page ref))) := by
    rw [← run_fetch]
    exact answered
  simp only [serve] at served
  rcases pool.requestLock_cases txn page permission.mode false with
    ⟨locks, granted, eq⟩ | ⟨_, _, eq⟩ | ⟨_, _, eq⟩
  · have asked := coherent.requestLock txn page permission.mode false
    have view := pool.requestLock_view txn page permission.mode false
    rw [eq] at served asked view
    dsimp only at served asked view
    generalize ({ pool with
        locks := locks
        waits := if false = true then pool.waits.clear txn else pool.waits } : Pool) = mid
      at served asked view
    obtain ⟨loaded, sameView, _, _⟩ := asked.load page
    have filed : ∀ ref, (mid.load page).2 = .ok ref →
        (mid.load page).1.cache.peek? page = some ref := fun _ => load_filed
    cases load : mid.load page with
    | mk moved answer =>
      rw [load] at served loaded sameView filed
      cases answer with
      | error e => cases served
      | ok found =>
        cases served
        have same : moved.shown = pool.shown := shown_congr (sameView.trans view)
        rw [← same]
        exact (loaded.seen (filed ref rfl)).symm
  · rw [eq] at served
    cases served
  · rw [eq] at served
    cases served

end Pool

/-! ## What others do -/

/-- The transaction that acts, if it is one. -/
def Action.txn? : Action → Option TransactionId
  | call txn _ => some txn
  | retry txn => some txn
  | flush txn => some txn
  | flushAll _ => none
  | finish txn _ => some txn

def Event.txn : Event → TransactionId
  | answered txn _ _ => txn
  | ended txn _ _ => txn

/-- The pages that an operation has to do with when it succeeds, and how it locks them. A mutation
answers with the pages that it changed. -/
inductive Operation.Touches (called : Pool) (op : Operation) (reply : Reply) :
    PageId → LockMode → Prop where
  | target {page : PageId} {mode : LockMode} (targets : op.Targets called page mode) :
    Touches called op reply page mode
  | changed {pages : List Page} {p : Page} (answer : reply = .changed pages) (listed : p ∈ pages) :
    Touches called op reply p.id .exclusive

namespace Interleaving

variable {s : Interleaving} {txn a : TransactionId} {page : PageId} {mode : LockMode}
  {op : Operation} {called : Pool} {log : List Event}

theorem Sound.retry_effect (sound : s.Sound) {r : Suspension} (listed : r ∈ s.suspended) :
    Pool.Effect r.txn r.op s.pool (s.pool.resume r.txn r.request) :=
  Pool.resume_effect sound.coherent sound.countable (sound.pending r listed)

/-- A step of others leaves a lock and what it protects alone. -/
theorem Sound.step_beside (sound : s.Sound) (held : s.pool.locks.mode? a page = some mode)
    {action : Action} (other : action.txn? ≠ some a) :
    (s.step action).pool.locks.mode? a page = some mode ∧
      ∀ data, s.pool.shown page = some data → (s.step action).pool.shown page = some data := by
  have holds := LockTable.holds_of_mode held
  have coherent := sound.coherent
  cases action with
  | call txn op =>
    have differ : a ≠ txn := fun same => other (congrArg some same.symm)
    rw [Interleaving.step]
    split
    · exact ⟨held, fun _ seen => seen⟩
    · rw [settle_pool]
      have effect := Pool.submit_effect coherent sound.countable txn op
      exact ⟨((effect.coherent coherent).2.2 a page differ).trans held,
        fun data => effect.shown coherent holds differ⟩
  | retry txn =>
    have differ : a ≠ txn := fun same => other (congrArg some same.symm)
    rw [Interleaving.step]
    split
    · exact ⟨held, fun _ seen => seen⟩
    next r found =>
      obtain ⟨listed, same⟩ := mem_of_found found
      have effect := sound.retry_effect listed
      rw [same] at effect
      rw [settle_pool]
      exact ⟨((effect.coherent coherent).2.2 a page differ).trans held,
        fun data => effect.shown coherent holds differ⟩
  | flush txn =>
    rw [Interleaving.step]
    split
    · exact ⟨held, fun _ seen => seen⟩
    · have control := s.pool.flushPages_control txn
      refine ⟨?_, fun data seen => ?_⟩
      · show (s.pool.flushPages txn).1.locks.mode? a page = some mode
        rw [control.locks]
        exact held
      · exact (congrFun (coherent.flushEach_shown _) page).trans seen
  | flushAll cached =>
    rw [Interleaving.step]
    split
    · have control := Pool.flushCached_control cached s.pool
      refine ⟨?_, fun data seen => ?_⟩
      · show (s.pool.flushCached cached).1.locks.mode? a page = some mode
        rw [control.locks]
        exact held
      · exact (congrFun (coherent.flushCached_shown _) page).trans seen
    · exact ⟨held, fun _ seen => seen⟩
  | finish txn ending =>
    have differ : a ≠ txn := fun same => other (congrArg some same.symm)
    rw [Interleaving.step]
    split
    · exact ⟨held, fun _ seen => seen⟩
    · exact ⟨((Pool.ending_coherent coherent txn ending).2.2 a page differ).trans held,
        fun data seen => (coherent.ending_shown holds differ ending).trans seen⟩

theorem Sound.run_beside (sound : s.Sound) (held : s.pool.locks.mode? a page = some mode)
    {actions : List Action} (others : ∀ action ∈ actions, action.txn? ≠ some a) :
    (s.run actions).pool.locks.mode? a page = some mode ∧
      ∀ data, s.pool.shown page = some data → (s.run actions).pool.shown page = some data := by
  induction actions generalizing s with
  | nil => exact ⟨held, fun _ seen => seen⟩
  | cons action rest ih =>
    obtain ⟨still, shown⟩ := sound.step_beside held (others action List.mem_cons_self)
    obtain ⟨later, laterShown⟩ := ih (sound.step action) still fun b listed =>
      others b (List.mem_cons_of_mem _ listed)
    exact ⟨later, fun data seen => laterShown data (shown data seen)⟩

/-! ## What a transaction keeps -/

/-- Only its end takes a lock from a transaction. -/
theorem Sound.step_keeps (sound : s.Sound) (held : s.pool.locks.AtLeast a page mode)
    {action : Action} (unfinished : ∀ ending, action ≠ .finish a ending) :
    (s.step action).pool.locks.AtLeast a page mode := by
  have formed := sound.coherent.formed
  cases action with
  | call txn op =>
    rw [Interleaving.step]
    split
    · exact held
    · rw [settle_pool]
      exact (formed.submit txn op).1.atLeast held
  | retry txn =>
    rw [Interleaving.step]
    split
    · exact held
    next r found =>
      rw [settle_pool]
      exact (formed.resume (sound.pending_found found)).1.atLeast held
  | flush txn =>
    rw [Interleaving.step]
    split
    · exact held
    · have control := s.pool.flushPages_control txn
      show (s.pool.flushPages txn).1.locks.AtLeast a page mode
      rw [control.locks]
      exact held
  | flushAll cached =>
    rw [Interleaving.step]
    split
    · have control := Pool.flushCached_control cached s.pool
      show (s.pool.flushCached cached).1.locks.AtLeast a page mode
      rw [control.locks]
      exact held
    · exact held
  | finish txn ending =>
    rw [Interleaving.step]
    split
    · exact held
    · have differ : a ≠ txn := fun same => unfinished ending (by rw [same])
      exact held.congr ((Pool.ending_coherent sound.coherent txn ending).2.2 a page differ)

theorem Sound.run_keeps (sound : s.Sound) (held : s.pool.locks.AtLeast a page mode)
    {actions : List Action} (unfinished : ∀ ending, .finish a ending ∉ actions) :
    (s.run actions).pool.locks.AtLeast a page mode := by
  induction actions generalizing s with
  | nil => exact held
  | cons action rest ih =>
    refine ih (sound.step action) (sound.step_keeps held fun ending same => ?_) fun ending listed =>
      unfinished ending (List.mem_cons_of_mem _ listed)
    exact unfinished ending (by rw [same]; exact List.mem_cons_self)

/-! ## What an answer is worth -/

/-- An operation is under way or was answered since the log was `log`. If it waits it secures what
it is about, and if it succeeded its transaction holds that. -/
structure Watched (called : Pool) (log : List Event) (txn : TransactionId) (op : Operation)
    (s : Interleaving) : Prop where
  sound : s.Sound
  waits : ∀ r ∈ s.suspended, r.txn = txn →
    r.op = op ∧ ∀ page mode, op.Targets called page mode → Awaits txn page mode s.pool r.request
  answered : ∃ events, s.log = events ++ log ∧
    ∀ reply, .answered txn op (.ok reply) ∈ events →
      ∀ page mode, op.Touches called reply page mode → s.pool.locks.AtLeast txn page mode

/-- Before it is begun, nothing is known of an operation. -/
theorem watched_call (sound : s.Sound) (free : ¬s.isSuspended txn = true) (op : Operation) :
    Watched s.pool s.log txn op s := by
  refine ⟨sound, fun r listed same => ?_, [], rfl, fun reply here => absurd here List.not_mem_nil⟩
  exact absurd same (Sound.not_suspended free r listed)

/-- The transaction's own turn. -/
theorem Watched.turn (watched : Watched called log txn op s) {result : Pool × Progress Answer}
    (effect : Pool.Effect txn op s.pool result) (spares : Pool.Spares txn s.pool result.1)
    (secured : ∀ page mode, op.Targets called page mode → Secured txn page mode result)
    {others : List Suspension} (apart : ∀ r ∈ others, r.txn ≠ txn)
    (sound : (settle others s.log txn op result).Sound) :
    Watched called log txn op (settle others s.log txn op result) := by
  obtain ⟨events, since, held⟩ := watched.answered
  obtain ⟨after, progress⟩ := result
  have kept : ∀ reply, .answered txn op (.ok reply) ∈ events → ∀ page mode,
      op.Touches called reply page mode → after.locks.AtLeast txn page mode :=
    fun reply here page mode touches => spares.kept page mode (held reply here page mode touches)
  cases progress with
  | waiting request =>
    refine ⟨sound, fun r listed same => ?_, events, since, kept⟩
    rcases List.mem_append.mp listed with before | new
    · exact absurd same (apart r before)
    · rw [List.mem_singleton.mp new]
      exact ⟨rfl, secured⟩
  | done answer =>
    have news : (settle others s.log txn op (after, .done answer)).log =
        [.answered txn op (answer.map fun given => given.show after)] ++ events ++ log := by
      rw [List.append_assoc, ← since]
      rfl
    refine ⟨sound, fun r listed same => absurd same (apart r listed), _, news,
      fun reply here page mode touches => ?_⟩
    rcases List.mem_append.mp here with new | before
    · have now := List.mem_singleton.mp new
      cases answer with
      | error e => cases now
      | ok given =>
        cases now
        cases touches with
        | target targets => exact secured page mode targets
        | @changed pages p shown listed =>
          cases given with
          | changed refs =>
            cases shown
            exact effect.changed_held listed
          | page ref => cases shown
          | tuple data => cases shown
          | rows rows => cases shown
    · exact kept reply before page mode touches

/-- What others do adds nothing that the transaction waits for or is answered. -/
theorem step_others {action : Action} (other : action.txn? ≠ some txn) :
    (∀ r ∈ (s.step action).suspended, r.txn = txn → r ∈ s.suspended) ∧
      ∃ events, (s.step action).log = events ++ s.log ∧ ∀ e ∈ events, e.txn ≠ txn := by
  have unchanged : (∀ r ∈ s.suspended, r.txn = txn → r ∈ s.suspended) ∧
      ∃ events, s.log = events ++ s.log ∧ ∀ e ∈ events, e.txn ≠ txn :=
    ⟨fun _ listed _ => listed, [], rfl, fun e here => absurd here List.not_mem_nil⟩
  have settled : ∀ {a : TransactionId} {op : Operation} {result : Pool × Progress Answer}
      {others : List Suspension}, a ≠ txn → (∀ r ∈ others, r ∈ s.suspended) →
      (∀ r ∈ (settle others s.log a op result).suspended, r.txn = txn → r ∈ s.suspended) ∧
        ∃ events, (settle others s.log a op result).log = events ++ s.log ∧
          ∀ e ∈ events, e.txn ≠ txn := by
    intro a op result others differ before
    refine ⟨fun r listed same => ?_, ?_⟩
    · rcases mem_suspended_settle listed with there | ⟨own, _⟩
      · exact before r there
      · exact absurd (own.symm.trans same) differ
    · obtain ⟨after, progress⟩ := result
      cases progress with
      | waiting request => exact ⟨[], rfl, fun e here => absurd here List.not_mem_nil⟩
      | done answer =>
        refine ⟨[_], rfl, fun e here => ?_⟩
        rw [List.mem_singleton.mp here]
        exact differ
  cases action with
  | call a op =>
    rw [Interleaving.step]
    split
    · exact unchanged
    · exact settled (fun same => other (congrArg some same)) fun r listed => listed
  | retry a =>
    rw [Interleaving.step]
    split
    · exact unchanged
    · exact settled (fun same => other (congrArg some same)) fun r listed =>
        (mem_of_rest listed).1
  | flush a =>
    rw [Interleaving.step]
    split
    · exact unchanged
    · exact unchanged
  | flushAll cached =>
    rw [Interleaving.step]
    split
    · exact unchanged
    · exact unchanged
  | finish a ending =>
    rw [Interleaving.step]
    split
    · exact unchanged
    · refine ⟨fun _ listed _ => listed, [_], rfl, fun e here => ?_⟩
      rw [List.mem_singleton.mp here]
      exact fun same => other (congrArg some same)

theorem Watched.beside (watched : Watched called log txn op s) {action : Action}
    (other : action.txn? ≠ some txn) : Watched called log txn op (s.step action) := by
  obtain ⟨events, since, held⟩ := watched.answered
  obtain ⟨suspended, news, added, foreign⟩ := step_others (s := s) other
  have kept : ∀ page mode, s.pool.locks.AtLeast txn page mode →
      (s.step action).pool.locks.AtLeast txn page mode := fun page mode before =>
    watched.sound.step_keeps before fun ending same => other (by rw [same]; rfl)
  refine ⟨watched.sound.step action, fun r listed same => ?_, news ++ events, ?_,
    fun reply here page mode touches => ?_⟩
  · obtain ⟨sameOp, awaits⟩ := watched.waits r (suspended r listed same) same
    exact ⟨sameOp, fun page mode targets => (awaits page mode targets).stays (kept page mode)⟩
  · rw [added, since, List.append_assoc]
  · rcases List.mem_append.mp here with new | before
    · exact absurd rfl (foreign _ new)
    · exact kept page mode (held reply before page mode touches)

theorem Watched.retry (watched : Watched called log txn op s) :
    Watched called log txn op (s.step (.retry txn)) := by
  have sound := watched.sound.step (.retry txn)
  rw [Interleaving.step] at sound ⊢
  split
  · exact watched
  next r found =>
    rw [found] at sound
    dsimp only at sound
    obtain ⟨listed, same⟩ := mem_of_found found
    obtain ⟨sameOp, awaits⟩ := watched.waits r listed same
    have effect := watched.sound.retry_effect listed
    have pending := watched.sound.pending r listed
    rw [same] at effect pending
    rw [sameOp] at effect pending sound ⊢
    exact watched.turn effect (watched.sound.coherent.formed.resume pending).1
      (fun page mode targets => Pool.resume_secured (awaits page mode targets))
      (fun q kept => (mem_of_rest kept).2) sound

theorem Watched.call (sound : s.Sound) (free : ¬s.isSuspended txn = true) (op : Operation) :
    Watched s.pool s.log txn op (s.step (.call txn op)) := by
  have after := sound.step (.call txn op)
  rw [Interleaving.step, if_neg free] at after ⊢
  exact (watched_call sound free op).turn
    (Pool.submit_effect sound.coherent sound.countable txn op)
    (sound.coherent.formed.submit txn op).1
    (fun page mode targets => Pool.submit_secured sound.coherent.heaps targets)
    (Sound.not_suspended free) after

theorem Watched.run (watched : Watched called log txn op s) {during : List Action}
    (only : ∀ action ∈ during, action = .retry txn ∨ action.txn? ≠ some txn) :
    Watched called log txn op (s.run during) := by
  induction during generalizing s with
  | nil => exact watched
  | cons action rest ih =>
    have next : Watched called log txn op (s.step action) := by
      rcases only action List.mem_cons_self with rfl | other
      · exact watched.retry
      · exact watched.beside other
    exact ih next fun b listed => only b (List.mem_cons_of_mem _ listed)

/-- Locks isolate transactions from each other. -/
theorem locks_isolate {config : Config} {catalog : Catalog Table} {stores : Array Store}
    {objects : Array Page} {pool : Pool}
    (created : Pool.create config catalog stores objects = .ok pool) (heaps : pool.OverHeaps)
    (few : ∀ store ∈ stores, store.medium.extent < 4294967295) (actions : List Action)
    (txn : TransactionId) (page : PageId) (s : Interleaving)
    (reaches : (start pool).run actions = s) :
    (∀ permission after ref,
      s.pool.submit txn (.fetch page permission) = (after, .done (.ok (.page ref))) →
      s.pool.shown page = some (after.object ref).data) ∧
    (∀ mode others, s.pool.locks.mode? txn page = some mode →
      (∀ action ∈ others, action.txn? ≠ some txn) →
      (s.run others).pool.locks.mode? txn page = some mode ∧
        ∀ data, s.pool.shown page = some data →
          (s.run others).pool.shown page = some data ∧
          ∀ permission after ref, (s.run others).pool.submit txn (.fetch page permission) =
            (after, .done (.ok (.page ref))) → (after.object ref).data = data) ∧
    (∀ mode later, s.pool.locks.mode? txn page = some mode →
      (∀ ending, .finish txn ending ∉ later) →
      (s.run later).pool.locks.AtLeast txn page mode) ∧
    (∀ op during events reply mode later, ¬s.isSuspended txn = true →
      (∀ action ∈ during, action = .retry txn ∨ action.txn? ≠ some txn) →
      (s.run (.call txn op :: during)).log = events ++ s.log →
      .answered txn op (.ok reply) ∈ events → op.Touches s.pool reply page mode →
      (∀ ending, .finish txn ending ∉ later) →
      ((s.run (.call txn op :: during)).run later).pool.locks.AtLeast txn page mode) := by
  have sound : s.Sound := by
    rw [← reaches]
    exact (sound_start (Pool.coherent_create created heaps)
      (Pool.countable_create created few)).run actions
  refine ⟨fun permission after ref answered => sound.coherent.fetch_shown answered,
    fun mode others held beside => ?_,
    fun mode later held unfinished => sound.run_keeps (LockTable.atLeast_of_mode held) unfinished,
    fun op during events reply mode later free only since answered touches unfinished => ?_⟩
  · obtain ⟨still, kept⟩ := sound.run_beside held beside
    refine ⟨still, fun data seen => ⟨kept data seen, fun permission after ref answered => ?_⟩⟩
    have again := (sound.run others).coherent.fetch_shown answered
    rw [kept data seen] at again
    exact (Option.some.inj again).symm
  · have watched : Watched s.pool s.log txn op (s.run (.call txn op :: during)) :=
      (Watched.call sound free op).run only
    obtain ⟨known, sameLog, held⟩ := watched.answered
    have same : known = events := List.append_cancel_right (sameLog.symm.trans since)
    rw [same] at held
    exact watched.sound.run_keeps (held reply answered page mode touches) unfinished

/-- A transaction fills a page. While others wait for it and everything is written back it keeps
the page, and so it does when it passes over it later. -/
theorem full_page_stays_locked : ∃ pool s,
    Pool.create (Config.sized 2 64) (Catalog.single "a" blankPair.medium) #[blankPair] #[] =
      .ok pool ∧
    (start pool).run [.call ⟨1⟩ (.mutate ⟨1⟩ (.insert (Bytes.zeros 40)))] = s ∧
    (s.run [.call ⟨2⟩ (.get ⟨1⟩ ⟨⟨⟨1⟩, 0⟩, 0⟩), .flushAll [(⟨⟨1⟩, 0⟩, ⟨0⟩)]]).pool.locks.mode? ⟨1⟩
      ⟨⟨1⟩, 0⟩ =
      some .exclusive ∧
    (s.run [.call ⟨1⟩ (.mutate ⟨1⟩ (.insert (Bytes.zeros 40))),
      .call ⟨2⟩ (.get ⟨1⟩ ⟨⟨⟨1⟩, 0⟩, 0⟩)]).pool.locks.AtLeast ⟨1⟩ ⟨⟨1⟩, 0⟩ .exclusive := by
  have created : Pool.create (Config.sized 2 64) (Catalog.single "a" blankPair.medium)
    #[blankPair] #[] = .ok _ := rfl
  have few : ∀ store ∈ #[blankPair], store.medium.extent < 4294967295 := by
    intro store listed
    rw [Array.mem_singleton.mp listed]
    decide
  obtain ⟨_, beside, keeps, _⟩ := locks_isolate created (Pool.heaps_single created) few
    [.call ⟨1⟩ (.mutate ⟨1⟩ (.insert (Bytes.zeros 40)))] ⟨1⟩ ⟨⟨1⟩, 0⟩ _ rfl
  exact ⟨_, _, created, rfl, (beside .exclusive _ (by decide +kernel) (by decide)).1,
    keeps .exclusive _ (by decide +kernel) fun ending => by simp⟩

end Interleaving

end TransactionalPages
