import TransactionalPages.Proofs.Course

/-!
# The relation behind a lock table

Seen from outside, a lock table is a relation: in which mode, if in any, does a
transaction hold a page. On the relation a request is admitted or not by a plain
condition on the other holders, a grant changes one pair and a release clears
pairs. The table keeps two maps instead, from the pages to their holders and
from the transactions to their pages. Whatever requests were served, the two
maps are inverse to each other, hold no empty entries, and give the relation
that the same requests give.
-/

namespace TransactionalPages

/-- What can be asked of a lock table. -/
inductive LockRequest where
  | acquire (txn : TransactionId) (page : PageId) (mode : LockMode)
  | release (txn : TransactionId) (page : PageId)
  | releaseAll (txn : TransactionId)
  deriving DecidableEq, Repr

/-- The mode in which a transaction holds a page. -/
abbrev LockRelation := TransactionId → PageId → Option LockMode

namespace LockRelation

def empty : LockRelation := fun _ _ => none

/-- Whether a lock is to be had: only sharers are in the way of a share, the transaction has
what it asks for already, or nobody else is there. -/
def Admits (r : LockRelation) (txn : TransactionId) (page : PageId) (mode : LockMode) : Prop :=
  (mode = .shared ∧ ∀ b, b ≠ txn → ∀ held, r b page = some held → held = .shared) ∨
  (∃ held, r txn page = some held ∧ held.Covers mode) ∨
  (∀ b, b ≠ txn → r b page = none)

/-- One pair changes and no other. -/
def set (r : LockRelation) (txn : TransactionId) (page : PageId) (mode : Option LockMode) :
    LockRelation := fun a p => if a = txn ∧ p = page then mode else r a p

/-- One transaction is left without locks. -/
def clear (r : LockRelation) (txn : TransactionId) : LockRelation :=
  fun a p => if a = txn then none else r a p

/-- A granted lock is held in the stronger of the old and the new mode. -/
def grant (r : LockRelation) (txn : TransactionId) (page : PageId) (mode : LockMode) :
    LockRelation := r.set txn page (some (LockMode.raise (r txn page) mode))

open Classical in
/-- What a request makes of the relation. -/
noncomputable def serve (r : LockRelation) : LockRequest → LockRelation
  | .acquire txn page mode => if r.Admits txn page mode then r.grant txn page mode else r
  | .release txn page => r.set txn page none
  | .releaseAll txn => r.clear txn

/-- A page is free, shared by all its holders, or held by one transaction only. -/
def Excludes (r : LockRelation) (page : PageId) : Prop :=
  (∀ txn, r txn page = none) ∨
  ((∃ txn, r txn page = some .shared) ∧ ∀ txn mode, r txn page = some mode → mode = .shared) ∨
  ∃ owner, r owner page = some .exclusive ∧ ∀ txn, txn ≠ owner → r txn page = none

end LockRelation

namespace LockTable

/-- What a request makes of the table; a refusal leaves the table as it was. -/
def serve (t : LockTable) : LockRequest → LockTable
  | .acquire txn page mode => (t.acquire txn page mode).getD t
  | .release txn page => t.release txn page
  | .releaseAll txn => t.releaseAll txn

/-- Serves requests one after another. -/
def serveAll (t : LockTable) (requests : List LockRequest) : LockTable := requests.foldl serve t

/-- Neither map has an entry for nothing. -/
structure Tidy (t : LockTable) : Prop where
  holders : ∀ (page : PageId) (held : Holders), t.holders[page]? = some held →
    held.isEmpty = false
  pages : ∀ (txn : TransactionId) (held : Std.TreeSet PageId), t.pages[txn]? = some held →
    held.isEmpty = false

/-- The two maps say the same, and say nothing twice or in vain. -/
structure Inverse (t : LockTable) : Prop where
  inverse : ∀ txn page, page ∈ t.pagesHeldBy txn ↔ txn ∈ t.holderList page
  tidy : t.Tidy

/-- The answer to every request and what it makes of the table are those of the relation. -/
structure Follows (t : LockTable) (r : LockRelation) : Prop where
  same : t.mode? = r
  granted_iff : ∀ txn page mode, (t.acquire txn page mode).isSome ↔ r.Admits txn page mode
  granted : ∀ txn page mode t', t.acquire txn page mode = some t' →
    t'.mode? = r.grant txn page mode
  refused : ∀ txn page mode, t.acquire txn page mode = none →
    t.serve (.acquire txn page mode) = t
  released : ∀ txn page, (t.release txn page).mode? = r.set txn page none
  releasedAll : ∀ txn, (t.releaseAll txn).mode? = r.clear txn

/-! ## No empty entries -/

theorem tidy_empty : LockTable.empty.Tidy := by
  constructor
  · intro page held found
    simp [LockTable.empty] at found
  · intro txn held found
    simp [LockTable.empty] at found

theorem Tidy.insertHolder {t : LockTable} (tidy : t.Tidy) (page : PageId) (held : Holders)
    (txn : TransactionId) (mode : LockMode) :
    ∀ (p : PageId) (left : Holders), (t.holders.insert page (held.insert txn mode))[p]? =
      some left → left.isEmpty = false := by
  intro p left found
  rw [Lookup.getElem?_insert] at found
  split at found
  · cases found
    exact Std.TreeMap.isEmpty_insert
  · exact tidy.holders p left found

theorem Tidy.acquire {t t' : LockTable} (tidy : t.Tidy) {txn : TransactionId} {page : PageId}
    {mode : LockMode} (granted : t.acquire txn page mode = some t') : t'.Tidy := by
  rcases acquire_cases granted with ⟨_, rfl⟩ | ⟨_, _, _, rfl⟩ | ⟨_, _, rfl⟩
  · exact tidy
  · exact ⟨tidy.insertHolder page _ txn _, tidy.pages⟩
  · refine ⟨tidy.insertHolder page _ txn mode, ?_⟩
    intro a left found
    rw [LockTable.grant, Lookup.getElem?_insert] at found
    split at found
    · cases found
      exact Std.TreeSet.isEmpty_insert
    · exact tidy.pages a left found

theorem Tidy.release {t : LockTable} (tidy : t.Tidy) (txn : TransactionId) (page : PageId) :
    (t.release txn page).Tidy := by
  simp only [LockTable.release]
  split
  case isFalse => exact tidy
  constructor
  · intro p left found
    dsimp only at found
    split at found
    · rw [Lookup.getElem?_erase] at found
      split at found
      · cases found
      · exact tidy.holders p left found
    next some_left =>
      rw [Lookup.getElem?_insert] at found
      split at found
      · cases found
        exact eq_false_of_ne_true some_left
      · exact tidy.holders p left found
  · intro a left found
    dsimp only at found
    split at found
    · rw [Lookup.getElem?_erase] at found
      split at found
      · cases found
      · exact tidy.pages a left found
    next some_left =>
      rw [Lookup.getElem?_insert] at found
      split at found
      · cases found
        exact eq_false_of_ne_true some_left
      · exact tidy.pages a left found

theorem Tidy.releaseAll {t : LockTable} (tidy : t.Tidy) (txn : TransactionId) :
    (t.releaseAll txn).Tidy := by
  simp only [LockTable.releaseAll]
  generalize t.pagesHeldBy txn = pages
  induction pages generalizing t with
  | nil => exact tidy
  | cons page rest ih => exact ih (tidy.release txn page)

/-! ## Serving requests -/

theorem Sound.serve {t : LockTable} (sound : t.Sound) (request : LockRequest) :
    (t.serve request).Sound := by
  cases request with
  | acquire txn page mode =>
    simp only [LockTable.serve]
    cases granted : t.acquire txn page mode with
    | none => exact sound
    | some t' => exact sound_acquire sound granted
  | release txn page => exact sound_release sound txn page
  | releaseAll txn => exact sound_releaseAll sound txn

theorem Tidy.serve {t : LockTable} (tidy : t.Tidy) (request : LockRequest) :
    (t.serve request).Tidy := by
  cases request with
  | acquire txn page mode =>
    simp only [LockTable.serve]
    cases granted : t.acquire txn page mode with
    | none => exact tidy
    | some t' => exact tidy.acquire granted
  | release txn page => exact tidy.release txn page
  | releaseAll txn => exact tidy.releaseAll txn

theorem serveAll_keeps {t : LockTable} (sound : t.Sound) (tidy : t.Tidy)
    (requests : List LockRequest) :
    (t.serveAll requests).Sound ∧ (t.serveAll requests).Tidy := by
  induction requests generalizing t with
  | nil => exact ⟨sound, tidy⟩
  | cons request rest ih => exact ih (sound.serve request) (tidy.serve request)

/-! ## The relation of a sound table -/

theorem admits_of_granted {t t' : LockTable} {txn : TransactionId} {page : PageId}
    {mode : LockMode} (granted : t.acquire txn page mode = some t') :
    LockRelation.Admits t.mode? txn page mode := by
  rcases acquire_cases granted with ⟨had, _⟩ | ⟨shared, _, single, _⟩ | ⟨_, fits, _⟩
  · exact Or.inr (Or.inl ⟨_, had, LockMode.raise_covers_asked _ _⟩)
  · refine Or.inr (Or.inr fun b other => ?_)
    cases held : t.mode? b page with
    | none => rfl
    | some m =>
      exact absurd (Holders.eq_of_size_one single (holds_of_mode held) (holds_of_mode shared)) other
  · cases mode with
    | shared =>
      refine Or.inl ⟨rfl, fun b _ held found => ?_⟩
      cases held with
      | shared => rfl
      | exclusive => exact absurd (fits b _ found) (by decide)
    | exclusive =>
      refine Or.inr (Or.inr fun b _ => ?_)
      cases found : t.mode? b page with
      | none => rfl
      | some m => cases m <;> exact absurd (fits b _ found) (by decide)

theorem granted_of_admits {t : LockTable} {txn : TransactionId} {page : PageId} {mode : LockMode}
    (admits : LockRelation.Admits t.mode? txn page mode) :
    (t.acquire txn page mode).isSome := by
  cases answer : t.acquire txn page mode with
  | some t' => rfl
  | none =>
    obtain ⟨⟨b, held, other, found, unfit⟩, upgrade⟩ := blocked_of_refused answer
    rcases admits with ⟨rfl, sharers⟩ | ⟨mine, had, covers⟩ | nobody
    · rw [sharers b other held found] at unfit
      cases unfit
    · obtain ⟨rfl, rfl⟩ := upgrade mine had
      cases covers rfl
    · rw [nobody b other] at found
      cases found

theorem follows_mode? {t : LockTable} (sound : t.Sound) : t.Follows t.mode? where
  same := rfl
  granted_iff txn page mode := by
    constructor
    · intro answer
      obtain ⟨t', granted⟩ := Option.isSome_iff_exists.mp answer
      exact admits_of_granted granted
    · exact granted_of_admits
  granted txn page mode t' granted := by
    funext a p
    exact acquire_mode? granted a p
  refused txn page mode refused := by
    simp only [serve, refused, Option.getD_none]
  released txn page := by
    funext a p
    exact release_mode? t txn page a p
  releasedAll txn := by
    funext a p
    exact releaseAll_mode? sound txn a p

/-- One request does to the table what it does to the relation. -/
theorem serve_mode? {t : LockTable} (sound : t.Sound) (request : LockRequest) :
    (t.serve request).mode? = LockRelation.serve t.mode? request := by
  have follows := follows_mode? sound
  cases request with
  | acquire txn page mode =>
    simp only [LockRelation.serve]
    cases answer : t.acquire txn page mode with
    | none =>
      have barred : ¬LockRelation.Admits t.mode? txn page mode := fun admits => by
        simpa [answer] using granted_of_admits admits
      rw [if_neg barred, follows.refused txn page mode answer]
    | some t' =>
      rw [if_pos (admits_of_granted answer), ← follows.granted txn page mode t' answer]
      simp only [serve, answer, Option.getD_some]
  | release txn page => exact follows.released txn page
  | releaseAll txn => exact follows.releasedAll txn

theorem serveAll_mode? {t : LockTable} (sound : t.Sound) (requests : List LockRequest) :
    (t.serveAll requests).mode? = requests.foldl LockRelation.serve t.mode? := by
  induction requests generalizing t with
  | nil => rfl
  | cons request rest ih =>
    have once := serve_mode? sound request
    calc (t.serveAll (request :: rest)).mode?
        = ((t.serve request).serveAll rest).mode? := rfl
      _ = rest.foldl LockRelation.serve (t.serve request).mode? := ih (sound.serve request)
      _ = (request :: rest).foldl LockRelation.serve t.mode? := by rw [once, List.foldl_cons]

theorem Sound.excludes {t : LockTable} (sound : t.Sound) (page : PageId) :
    LockRelation.Excludes t.mode? page := by
  by_cases owned : ∃ owner, t.mode? owner page = some .exclusive
  · obtain ⟨owner, mine⟩ := owned
    refine Or.inr (Or.inr ⟨owner, mine, fun txn other => ?_⟩)
    cases held : t.mode? txn page with
    | none => rfl
    | some m => exact absurd (sound.alone page owner txn mine (holds_of_mode held)) other
  · have shares : ∀ txn mode, t.mode? txn page = some mode → mode = .shared := by
      intro txn mode held
      cases mode with
      | shared => rfl
      | exclusive => exact absurd ⟨txn, held⟩ owned
    by_cases used : ∃ txn mode, t.mode? txn page = some mode
    · obtain ⟨txn, mode, held⟩ := used
      exact Or.inr (Or.inl ⟨⟨txn, shares txn mode held ▸ held⟩, shares⟩)
    · refine Or.inl fun txn => ?_
      cases held : t.mode? txn page with
      | none => rfl
      | some mode => exact absurd ⟨txn, mode, held⟩ used

theorem Sound.inverse {t : LockTable} (sound : t.Sound) (tidy : t.Tidy) : t.Inverse where
  inverse txn page := by rw [mem_pagesHeldBy sound, mem_holderList]
  tidy := tidy

/-- Whatever was asked before, a lock table and the lock relation give the same answers, and the
two maps of the table are the relation and its inverse. -/
theorem table_refines_relation (requests : List LockRequest) :
    (LockTable.empty.serveAll requests).Follows
      (requests.foldl LockRelation.serve LockRelation.empty) ∧
    (LockTable.empty.serveAll requests).Inverse ∧
    ∀ page, LockRelation.Excludes (LockTable.empty.serveAll requests).mode? page := by
  have start : LockTable.empty.mode? = LockRelation.empty := by
    funext a p
    exact mode?_empty a p
  obtain ⟨sound, tidy⟩ := serveAll_keeps sound_empty tidy_empty requests
  rw [← start, ← serveAll_mode? sound_empty]
  exact ⟨follows_mode? sound, sound.inverse tidy, sound.excludes⟩

end LockTable

end TransactionalPages
