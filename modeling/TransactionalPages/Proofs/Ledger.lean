import TransactionalPages.Proofs.History
import TransactionalPages.Proofs.Interleaving

/-!
# What a log says about pages

A log tells which tuples every transaction has inserted and deleted since it
began, and which of these changes were committed. It accounts for what can be
seen of a pool if every stored page has the tuples of the committed changes, and
every draft those and the changes of its transaction.
-/

namespace TransactionalPages

/-- The change that an operation was answered with. An insert takes the last slot of the page
that it answers with. -/
def Event.change? : Event → Option Change
  | .answered _ (.mutate _ (.insert tuple)) (.ok (.changed [page])) =>
    some (.inserted ⟨page.id, SlottedPage.slotCount page.data - 1⟩ tuple)
  | .answered _ (.mutate _ (.delete record)) (.ok (.changed _)) => some (.deleted record)
  | _ => none

namespace Ledger

/-- What a transaction has changed since it began, oldest first. -/
def opened (txn : TransactionId) : List Event → List Change
  | [] => []
  | .answered a op reply :: log =>
    if a = txn then opened txn log ++ (Event.answered a op reply).change?.toList
    else opened txn log
  | .ended a ending result :: log =>
    if a = txn ∧ ending.leaves result = false then [] else opened txn log

/-- What was changed by transactions that were committed, in the order of their commits. -/
def committed : List Event → List Change
  | [] => []
  | .answered _ _ _ :: log => committed log
  | .ended txn ending result :: log =>
    if ending.commits result then committed log ++ opened txn log else committed log

variable {log : List Event} {txn a : TransactionId} {op : Operation}
  {reply : Except PoolError Reply} {ending : Ending} {result : Except PoolError Unit}

theorem opened_other (other : a ≠ txn) :
    opened a (.answered txn op reply :: log) = opened a log := by
  rw [opened, if_neg (Ne.symm other)]

theorem opened_unchanged (unchanged : (Event.answered txn op reply).change? = none) :
    opened a (.answered txn op reply :: log) = opened a log := by
  rw [opened]
  split
  · rw [unchanged]
    exact List.append_nil _
  · rfl

theorem opened_changed {c : Change} (changed : (Event.answered txn op reply).change? = some c) :
    opened txn (.answered txn op reply :: log) = opened txn log ++ [c] := by
  rw [opened, if_pos rfl, changed]
  rfl

theorem opened_ended_self (gone : ending.leaves result = false) :
    opened txn (.ended txn ending result :: log) = [] := by
  rw [opened, if_pos ⟨rfl, gone⟩]

theorem opened_ended_other (other : a ≠ txn) :
    opened a (.ended txn ending result :: log) = opened a log := by
  rw [opened, if_neg fun both => other both.1.symm]

end Ledger

/-! ## Pages and changes -/

open Change in
/-- A page has the tuples that its history says. -/
def Shows (page : PageId) (history : List Change) (data : Bytes) : Prop :=
  ∃ slots, Replays page (onPage page history) slots ∧ SlottedPage.Represents data slots

namespace Shows

open Change

variable {page : PageId} {history other : List Change} {data : Bytes}

theorem congr (shows : Shows page history data) (same : onPage page other = onPage page history) :
    Shows page other data := by
  obtain ⟨slots, replays, represents⟩ := shows
  exact ⟨slots, by rwa [same], represents⟩

/-- A change to a page is shown by its new bytes, and by the answer to it. -/
theorem change {table : TableId} {mutation : Mutation} {old new : Bytes}
    (changes : mutation.Changes table page old new) (txn : TransactionId) :
    ∃ c : Change, c.record.page = page ∧
      (Event.answered txn (.mutate table mutation)
        (.ok (.changed [⟨page, new, some txn⟩]))).change? = some c ∧
      ∀ history, Shows page history old → Shows page (history ++ [c]) new := by
  cases mutation with
  | insert tuple =>
    obtain ⟨_, slot, inserted⟩ := changes
    refine ⟨.inserted ⟨page, SlottedPage.slotCount new - 1⟩ tuple, rfl, rfl, ?_⟩
    rintro history ⟨slots, replays, represents⟩
    obtain ⟨_, grown⟩ := represents.insert inserted
    have last : SlottedPage.slotCount new - 1 = slots.length := by
      rw [grown.count, List.length_append, List.length_singleton, Nat.add_sub_cancel]
    rw [last]
    refine ⟨slots ++ [some tuple], ?_, grown⟩
    have single : onPage page [.inserted ⟨page, slots.length⟩ tuple] =
        [.inserted ⟨page, slots.length⟩ tuple] := onPage_single rfl
    rw [onPage_append, single]
    exact .insert tuple replays
  | delete record =>
    obtain ⟨_, here, deleted⟩ := changes
    refine ⟨.deleted record, here, rfl, ?_⟩
    rintro history ⟨slots, replays, represents⟩
    obtain ⟨⟨tuple, live⟩, emptied⟩ := represents.delete deleted
    refine ⟨slots.set record.slot none, ?_, emptied⟩
    rw [onPage_append, onPage_single (c := .deleted record) here]
    obtain ⟨there, slot⟩ := record
    cases here
    exact .delete replays live

end Shows

/-! ## Accounts -/

namespace View

variable {v w : View} {txn a : TransactionId} {page : PageId}

/-- The drafts that are left when those of a transaction are gone are drafts of others. -/
theorem draft_of_gone {data : Bytes}
    (gone : w.draft = fun q => if (v.wrote txn q).isSome then none else v.draft q)
    (draft : w.draft page = some (a, data)) :
    a ≠ txn ∧ v.wrote txn page = none ∧ v.draft page = some (a, data) := by
  rw [gone] at draft
  dsimp only at draft
  split at draft
  · cases draft
  next unwritten =>
    refine ⟨?_, Option.not_isSome_iff_eq_none.mp unwritten, draft⟩
    rintro rfl
    exact unwritten (by rw [View.wrote_eq_some.mpr draft]; rfl)

end View

/-- A log accounts for all that can be seen. -/
structure View.Accounted (v : View) (log : List Event) : Prop where
  stored : ∀ page data, v.stored page = some data → Shows page (Ledger.committed log) data
  absent : ∀ page, v.stored page = none → Change.onPage page (Ledger.committed log) = []
  drafts : ∀ page txn data, v.draft page = some (txn, data) →
    Shows page (Ledger.committed log ++ Ledger.opened txn log) data
  untouched : ∀ page txn, v.wrote txn page = none →
    Change.onPage page (Ledger.opened txn log) = []

namespace View.Accounted

open Change Ledger

variable {v w : View} {log : List Event} {txn : TransactionId} {page : PageId}

/-- More pages may be stored, as long as they are blank. -/
theorem grow (accounted : v.Accounted log) {size : Nat} (whole : SlottedPage.headerSize ≤ size)
    (small : size ≤ 65535) (drafts : w.draft = v.draft)
    (kept : ∀ page data, v.stored page = some data → w.stored page = some data)
    (blank : ∀ page data, w.stored page = some data →
      v.stored page = some data ∨ (v.stored page = none ∧ data = Bytes.zeros size)) :
    w.Accounted log := by
  have wrote : w.wrote = v.wrote := by
    unfold View.wrote
    rw [drafts]
  constructor
  · intro page data stored
    rcases blank page data stored with before | ⟨absent, rfl⟩
    · exact accounted.stored page data before
    · refine ⟨[], ?_, SlottedPage.represents_zeros whole small⟩
      rw [accounted.absent page absent]
      exact .nil
  · intro page absent
    apply accounted.absent page
    cases before : v.stored page with
    | none => rfl
    | some data =>
      rw [kept page data before] at absent
      cases absent
  · rw [drafts]
    exact accounted.drafts
  · rw [wrote]
    exact accounted.untouched

/-- An answer without a change says nothing new. -/
theorem answer (accounted : v.Accounted log) {op : Operation} {reply : Except PoolError Reply}
    (unchanged : (Event.answered txn op reply).change? = none) :
    v.Accounted (.answered txn op reply :: log) := by
  constructor
  · exact accounted.stored
  · exact accounted.absent
  · intro page a data draft
    rw [opened_unchanged unchanged]
    exact accounted.drafts page a data draft
  · intro page a unwritten
    rw [opened_unchanged unchanged]
    exact accounted.untouched page a unwritten

/-- A transaction that may write a page sees there what was committed and what it has changed. -/
theorem visible (accounted : v.Accounted log) {old : Bytes}
    (alone : ∀ a data, v.draft page = some (a, data) → a = txn)
    (visible : some old = ((v.draft page).map Prod.snd).or (v.stored page)) :
    Shows page (committed log ++ opened txn log) old := by
  cases draft : v.draft page with
  | some d =>
    obtain ⟨a, data⟩ := d
    rw [draft] at visible
    have mine := alone a data draft
    have same : old = data := Option.some.inj visible
    subst mine same
    exact accounted.drafts page _ _ draft
  | none =>
    rw [draft] at visible
    have stored : v.stored page = some old := visible.symm
    have untouched : onPage page (opened txn log) = [] := by
      apply accounted.untouched page txn
      simp only [View.wrote]
      rw [draft]
      rfl
    apply (accounted.stored page old stored).congr
    rw [onPage_append, untouched, List.append_nil]

/-- A change by a transaction that holds the page alone is one more of its changes. -/
theorem write (accounted : v.Accounted log) {table : TableId} {mutation : Mutation}
    {old new : Bytes} (alone : ∀ a data, v.draft page = some (a, data) → a = txn)
    (visible : some old = ((v.draft page).map Prod.snd).or (v.stored page))
    (changes : mutation.Changes table page old new) :
    (v.write txn page new).Accounted
      (.answered txn (.mutate table mutation) (.ok (.changed [⟨page, new, some txn⟩])) :: log) := by
  obtain ⟨c, here, changed, shows⟩ := Shows.change changes txn
  have before := accounted.visible alone visible
  have elsewhere : ∀ q a, q ≠ page ∨ a ≠ txn → onPage q (opened a
      (.answered txn (.mutate table mutation) (.ok (.changed [⟨page, new, some txn⟩])) :: log)) =
        onPage q (opened a log) := by
    intro q a apart
    by_cases mine : a = txn
    · subst mine
      have other : c.record.page ≠ q := fun same =>
        apart.elim (fun differ => differ (same.symm.trans here)) fun differ => differ rfl
      rw [opened_changed changed, onPage_append, onPage_other other, List.append_nil]
    · rw [opened_other mine]
  constructor
  · exact accounted.stored
  · exact accounted.absent
  · intro q a data draft
    have draft : (if q = page then some (txn, new) else v.draft q) = some (a, data) := draft
    split at draft
    next same =>
      cases draft
      subst same
      rw [opened_changed changed, ← List.append_assoc]
      exact shows _ before
    next other =>
      apply (accounted.drafts q a data draft).congr
      rw [onPage_append, onPage_append, elsewhere q a (Or.inl other)]
      rfl
  · intro q a unwritten
    have unwritten : ((if q = page then some (txn, new) else v.draft q).bind fun d =>
        if d.1 = a then some d.2 else none) = none := unwritten
    by_cases same : q = page
    · subst same
      have other : a ≠ txn := by
        rintro rfl
        simp at unwritten
      rw [elsewhere q a (Or.inr other)]
      apply accounted.untouched q a
      cases draft : v.wrote a q with
      | none => rfl
      | some data => exact absurd (alone a data (View.wrote_eq_some.mp draft)) other
    · rw [if_neg same] at unwritten
      rw [elsewhere q a (Or.inl same)]
      exact accounted.untouched q a unwritten

/-- A commit turns what a transaction has changed into what was committed. -/
theorem commit (accounted : v.Accounted log) {ending : Ending}
    (lasts : ending.commits (.ok ()) = true) :
    (v.commit txn).Accounted (.ended txn ending (.ok ()) :: log) := by
  have gone := ending.leaves_ok
  have grown : committed (.ended txn ending (.ok ()) :: log) = committed log ++ opened txn log := by
    rw [committed, if_pos lasts]
  constructor
  · intro q data stored
    rw [grown]
    have stored : (v.wrote txn q).or (v.stored q) = some data := stored
    cases written : v.wrote txn q with
    | some bytes =>
      rw [written] at stored
      have same : bytes = data := Option.some.inj stored
      subst same
      exact accounted.drafts q txn _ (View.wrote_eq_some.mp written)
    | none =>
      rw [written] at stored
      apply (accounted.stored q data stored).congr
      rw [onPage_append, accounted.untouched q txn written, List.append_nil]
  · intro q absent
    have absent : (v.wrote txn q).or (v.stored q) = none := absent
    rw [Option.or_eq_none_iff] at absent
    rw [grown, onPage_append, accounted.absent q absent.2, accounted.untouched q txn absent.1]
    rfl
  · intro q a data draft
    obtain ⟨other, unwritten, kept⟩ := View.draft_of_gone rfl draft
    apply (accounted.drafts q a data kept).congr
    rw [grown, opened_ended_other other, onPage_append, onPage_append, onPage_append,
      accounted.untouched q txn unwritten, List.append_nil]
  · intro q a unwritten
    by_cases mine : a = txn
    · rw [mine, opened_ended_self gone]
      rfl
    · rw [opened_ended_other mine]
      rw [View.wrote_gone_other rfl mine] at unwritten
      exact accounted.untouched q a unwritten

/-- What a transaction has changed is nowhere to be seen once it was rolled back. -/
theorem abort (accounted : v.Accounted log) {ending : Ending} {result : Except PoolError Unit}
    (lost : ending.commits result = false) (gone : ending.leaves result = false) :
    (v.abort txn).Accounted (.ended txn ending result :: log) := by
  have same : committed (.ended txn ending result :: log) = committed log := by
    rw [committed, if_neg (by simp [lost])]
  constructor
  · intro q data stored
    rw [same]
    exact accounted.stored q data stored
  · intro q absent
    rw [same]
    exact accounted.absent q absent
  · intro q a data draft
    obtain ⟨other, _, kept⟩ := View.draft_of_gone rfl draft
    rw [same, opened_ended_other other]
    exact accounted.drafts q a data kept
  · intro q a unwritten
    by_cases mine : a = txn
    · rw [mine, opened_ended_self gone]
      rfl
    · rw [opened_ended_other mine]
      rw [View.wrote_gone_other rfl mine] at unwritten
      exact accounted.untouched q a unwritten

end View.Accounted

end TransactionalPages
