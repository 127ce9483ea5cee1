import TransactionalPages.Proofs.Access

/-!
# Replaying transactions

A log tells which calls of a transaction were performed since it began, and what
they were answered. The serial order of a log takes the committed transactions
one after another, in the order of their commits, each with its performed calls.

A replay of calls is about one transaction alone. It sees its own drafts and what
the stores serve, nothing else, and every answer follows from that.
-/

namespace TransactionalPages

variable {txn b : TransactionId} {page : PageId} {capacity : Nat}
  {served other : PageId → Except PoolError Bytes} {mine : PageId → Option Bytes}

/-! ## Serial orders -/

namespace Serial

/-- Whether a call with this answer was performed. -/
def performs : Except PoolError Reply → Bool
  | .ok _ => true
  | .error e => !e.interrupts

/-- The calls of a transaction that were performed since it began, oldest first. -/
def performed (txn : TransactionId) : List Event → List (Operation × Except PoolError Reply)
  | [] => []
  | .answered a op reply :: log =>
    if a = txn ∧ performs reply = true then performed txn log ++ [(op, reply)]
    else performed txn log
  | .ended a ending result :: log =>
    if a = txn ∧ ending.leaves result = false then [] else performed txn log

/-- What the committed transactions do one after another, oldest first. -/
def actions : List Event → List Action
  | [] => []
  | .answered _ _ _ :: log => actions log
  | .ended txn ending result :: log =>
    if ending.commits result then
      actions log ++ (performed txn log).map (fun c => .call txn c.1) ++ [.finish txn ending]
    else actions log

/-- The log of the committed transactions one after another, newest first. -/
def events : List Event → List Event
  | [] => []
  | .answered _ _ _ :: log => events log
  | .ended txn ending result :: log =>
    if ending.commits result then
      .ended txn ending result ::
        (((performed txn log).map fun c => .answered txn c.1 c.2).reverse ++ events log)
    else events log

variable {log : List Event} {op : Operation} {reply : Except PoolError Reply} {ending : Ending}
  {result : Except PoolError Unit}

theorem performed_self (performs : performs reply = true) :
    performed txn (.answered txn op reply :: log) = performed txn log ++ [(op, reply)] := by
  rw [performed, if_pos ⟨rfl, performs⟩]

theorem performed_skipped (skipped : performs reply = false) :
    performed b (.answered txn op reply :: log) = performed b log := by
  rw [performed, if_neg]
  rintro ⟨_, counted⟩
  rw [skipped] at counted
  cases counted

theorem performed_other (differ : b ≠ txn) :
    performed b (.answered txn op reply :: log) = performed b log := by
  rw [performed, if_neg fun both => differ both.1.symm]

theorem performed_ended_self (gone : ending.leaves result = false) :
    performed txn (.ended txn ending result :: log) = [] := by
  rw [performed, if_pos ⟨rfl, gone⟩]

theorem performed_ended_other (differ : b ≠ txn) :
    performed b (.ended txn ending result :: log) = performed b log := by
  rw [performed, if_neg fun both => differ both.1.symm]

theorem actions_lost (lost : ending.commits result = false) :
    actions (.ended txn ending result :: log) = actions log := by
  rw [actions, if_neg (by simp [lost])]

theorem events_lost (lost : ending.commits result = false) :
    events (.ended txn ending result :: log) = events log := by
  rw [events, if_neg (by simp [lost])]

end Serial

/-! ## What a transaction sees when it is alone -/

/-- Its own draft of a page, or what is served. -/
def sight (txn : TransactionId) (served : PageId → Except PoolError Bytes)
    (mine : PageId → Option Bytes) (page : PageId) : Except PoolError Page :=
  match mine page with
  | some data => .ok ⟨page, data, some txn⟩
  | none => (served page).map (Page.clean page)

/-- Perhaps one more page is written. -/
def overlay (mine : PageId → Option Bytes) (page : PageId) : Option Bytes → PageId → Option Bytes
  | none => mine
  | some data => fun q => if q = page then some data else mine q

/-- Calls of a transaction with their answers, oldest first, and the drafts that they leave. The
pages that a call sees fit into the cache together with the drafts. -/
inductive Replay (capacity : Nat) (txn : TransactionId)
    (served : PageId → Except PoolError Bytes) :
    List (Access × Except PoolError Reply) → (PageId → Option Bytes) → Prop where
  | nil : Replay capacity txn served [] fun _ => none
  | call {calls : List (Access × Except PoolError Reply)} {mine : PageId → Option Bytes}
    {a : Access} {reply : Except PoolError Reply} {change : Option Bytes}
    (earlier : Replay capacity txn served calls mine)
    (performed : a.perform txn (sight txn served mine) = (reply, change))
    (roomy : a.page.table = a.table → (∃ seen, sight txn served mine a.page = .ok seen) →
      Roomy capacity (fun q => (mine q).isSome) a.page) :
    Replay capacity txn served (calls ++ [(a, reply)]) (overlay mine a.page change)

/-- An access looks at its own page only, and only if that is a page of its table. -/
theorem Access.perform_congr {a : Access} {glimpse other : PageId → Except PoolError Page}
    (same : a.page.table = a.table → other a.page = glimpse a.page) :
    a.perform txn other = a.perform txn glimpse := by
  simp only [perform]
  by_cases own : a.page.table = a.table
  · rw [if_pos own, if_pos own, same own]
  · rw [if_neg own, if_neg own]

theorem sight_congr (same : other page = served page) :
    sight txn other mine page = sight txn served mine page := by
  simp only [sight]
  rw [same]

/-- A replay only asks for the pages of its calls. -/
theorem Replay.congr {calls : List (Access × Except PoolError Reply)}
    (replay : Replay capacity txn served calls mine)
    (same : ∀ c ∈ calls, c.1.page.table = c.1.table → other c.1.page = served c.1.page) :
    Replay capacity txn other calls mine := by
  induction replay with
  | nil => exact .nil
  | @call calls mine a reply change earlier performed roomy ih =>
    have here : a.page.table = a.table →
        sight txn other mine a.page = sight txn served mine a.page := by
      intro own
      exact sight_congr (same (a, reply) (List.mem_append_right _ List.mem_cons_self) own)
    refine .call (ih fun c listed => same c (List.mem_append_left _ listed)) ?_ ?_
    · rw [Access.perform_congr here]
      exact performed
    · intro own visible
      rw [here own] at visible
      exact roomy own visible

namespace View

variable {v : View}

theorem wrote_leave_self (v : View) (txn : TransactionId) (page : PageId) (change : Option Bytes) :
    (v.leave txn page change).wrote txn = overlay (v.wrote txn) page change := by
  cases change with
  | none => rfl
  | some data =>
    funext q
    show ((if q = page then some (txn, data) else v.draft q).bind _) =
      if q = page then some data else v.wrote txn q
    by_cases here : q = page
    · rw [if_pos here, if_pos here, Option.bind_some, if_pos rfl]
    · rw [if_neg here, if_neg here]
      rfl

theorem wrote_leave_other {change : Option Bytes} (differ : b ≠ txn)
    (apart : change.isSome → v.wrote b page = none) :
    (v.leave txn page change).wrote b = v.wrote b := by
  cases change with
  | none => rfl
  | some data =>
    funext q
    show ((if q = page then some (txn, data) else v.draft q).bind _) = v.wrote b q
    by_cases here : q = page
    · rw [if_pos here, Option.bind_some, if_neg (Ne.symm differ), here, apart rfl]
    · rw [if_neg here]
      rfl

end View

namespace Pool

variable {pool : Pool}

/-- If nobody else has a draft of a page then all there is to be seen is seen by a transaction
that is alone. -/
theorem glimpse_eq_sight
    (mine : ∀ owner data, pool.draft? page = some (owner, data) → owner = txn) :
    pool.glimpse page = sight txn pool.served (pool.view.wrote txn) page := by
  simp only [glimpse, sight]
  cases draft : pool.draft? page with
  | none =>
    have unwritten : pool.view.wrote txn page = none := by
      show (pool.draft? page).bind _ = none
      rw [draft]
      rfl
    rw [unwritten]
  | some d =>
    obtain ⟨owner, data⟩ := d
    cases mine owner data draft
    rw [View.wrote_eq_some.mpr draft]

end Pool

end TransactionalPages
