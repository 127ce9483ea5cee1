import TransactionalPages.Lock
import TransactionalPages.Proofs.Lookup

/-!
# What a lock table records

The lock relation says for a transaction and a page in which mode the one holds
the other. Every operation is described by what it does to that relation. A
table is sound when its two indices agree and a page held exclusively has one
holder only; granting and releasing keep a table sound.
-/

namespace TransactionalPages

theorem Holders.all_eq (h : Holders) (f : TransactionId → LockMode → Bool) :
    h.all f = h.toList.all fun e => f e.1 e.2 := by
  have unrolled : h.all f = Id.run (do
      for e in h do
        if f e.1 e.2 = false then return false
      return true) := rfl
  rw [unrolled, Std.TreeMap.forIn_eq_forIn_toList]
  induction h.toList with
  | nil => rfl
  | cons e rest ih =>
    by_cases he : f e.1 e.2 = false
    · simp [he]
    · simp only [List.forIn_cons, he, List.all_cons]
      simpa using ih

theorem Holders.all_iff (h : Holders) (f : TransactionId → LockMode → Bool) :
    h.all f = true ↔ ∀ txn mode, h[txn]? = some mode → f txn mode = true := by
  rw [Holders.all_eq, List.all_eq_true]
  constructor
  · intro all txn mode held
    exact all (txn, mode) (Std.TreeMap.mem_toList_iff_getElem?_eq_some.mpr held)
  · rintro all ⟨txn, mode⟩ member
    exact all txn mode (Std.TreeMap.mem_toList_iff_getElem?_eq_some.mp member)

/-- A single entry is the only one. -/
theorem Holders.eq_of_size_one {h : Holders} (single : h.size = 1) {a b : TransactionId}
    (ha : h[a]?.isSome) (hb : h[b]?.isSome) : a = b := by
  have la : a ∈ h.keys := by
    rw [Std.TreeMap.mem_keys, Std.TreeMap.mem_iff_isSome_getElem?]
    exact ha
  have lb : b ∈ h.keys := by
    rw [Std.TreeMap.mem_keys, Std.TreeMap.mem_iff_isSome_getElem?]
    exact hb
  obtain ⟨only, he⟩ := List.length_eq_one_iff.mp (h.length_keys.trans single)
  rw [he, List.mem_singleton] at la lb
  rw [la, lb]

/-- With one entry but not a single one there is another. -/
theorem Holders.exists_other {h : Holders} {a : TransactionId} (ha : h[a]?.isSome)
    (several : h.size ≠ 1) : ∃ b, b ≠ a ∧ h[b]?.isSome := by
  have la : a ∈ h.keys := by
    rw [Std.TreeMap.mem_keys, Std.TreeMap.mem_iff_isSome_getElem?]
    exact ha
  have many : h.keys.length ≠ 1 := by rwa [Std.TreeMap.length_keys]
  have distinct : h.keys.Nodup := h.nodup_keys
  cases hk : h.keys with
  | nil => rw [hk] at la; cases la
  | cons b rest =>
    have listed : ∀ c ∈ b :: rest, h[c]?.isSome := by
      intro c hc
      rwa [← hk, Std.TreeMap.mem_keys, Std.TreeMap.mem_iff_isSome_getElem?] at hc
    cases rest with
    | nil => rw [hk] at many; exact absurd rfl many
    | cons c rest =>
      have hne : b ≠ c := by
        intro same
        rw [hk, same, List.nodup_cons] at distinct
        exact distinct.1 List.mem_cons_self
      by_cases hb : b = a
      · exact ⟨c, fun hc => hne (hb.trans hc.symm),
          listed c (List.mem_cons_of_mem _ List.mem_cons_self)⟩
      · exact ⟨b, hb, listed b List.mem_cons_self⟩

namespace LockMode

/-- The mode that is held once `asked` has been granted on top of what was held. -/
def raise : (held : Option LockMode) → (asked : LockMode) → LockMode
  | some exclusive, _ => exclusive
  | some shared, asked => asked
  | none, asked => asked

end LockMode

namespace LockTable

/-- The indices agree, and an exclusive lock is the only one on its page. -/
structure Sound (t : LockTable) : Prop where
  indexed : ∀ txn page, page ∈ t.pageSet txn ↔ t.holds txn page
  alone : ∀ page a b, t.mode? a page = some .exclusive → t.holds b page → b = a

theorem holds_iff (t : LockTable) (txn : TransactionId) (page : PageId) :
    t.holds txn page ↔ ∃ mode, t.mode? txn page = some mode :=
  Option.isSome_iff_exists

theorem holds_of_mode {t : LockTable} {txn : TransactionId} {page : PageId} {mode : LockMode}
    (held : t.mode? txn page = some mode) : t.holds txn page :=
  (t.holds_iff txn page).mpr ⟨mode, held⟩

theorem holds_congr {t u : LockTable} {txn : TransactionId} {page : PageId}
    (same : u.mode? txn page = t.mode? txn page) : u.holds txn page = t.holds txn page :=
  congrArg Option.isSome same

theorem mem_holderList (t : LockTable) (txn : TransactionId) (page : PageId) :
    txn ∈ t.holderList page ↔ t.holds txn page := by
  rw [holderList, Std.TreeMap.mem_keys, Std.TreeMap.mem_iff_isSome_getElem?]
  rfl

theorem mem_keys_of_holds {t : LockTable} {txn : TransactionId} {page : PageId}
    (held : t.holds txn page) : page ∈ t.holders.keys := by
  rw [Std.TreeMap.mem_keys]
  refine Classical.byContradiction fun absent => ?_
  have nobody : t.holdersOf page = ∅ := Std.TreeMap.getD_eq_fallback absent
  rw [holds, mode?, nobody] at held
  cases held

theorem mem_pagesHeldBy {t : LockTable} (sound : t.Sound) (txn : TransactionId) (page : PageId) :
    page ∈ t.pagesHeldBy txn ↔ t.holds txn page := by
  rw [pagesHeldBy, Std.TreeSet.mem_toList]
  exact sound.indexed txn page

@[simp] theorem mode?_empty (txn : TransactionId) (page : PageId) :
    LockTable.empty.mode? txn page = none := rfl

@[simp] theorem holds_empty (txn : TransactionId) (page : PageId) :
    LockTable.empty.holds txn page = false := rfl

theorem sound_empty : LockTable.empty.Sound where
  indexed txn page := by
    simp [pageSet, LockTable.empty, holds, mode?, holdersOf, Std.TreeMap.getD_emptyc]
  alone page a b held := by simp at held

/-! ## The holders of a page -/

theorem mode?_mk (t : LockTable) (holders : Std.TreeMap PageId Holders) (page : PageId)
    (h : Holders) (changed : ∀ p, holders.getD p ∅ = if p = page then h else t.holdersOf p)
    (pages : Std.TreeMap TransactionId (Std.TreeSet PageId)) (a : TransactionId) (p : PageId) :
    (LockTable.mk holders pages).mode? a p = if p = page then h[a]? else t.mode? a p := by
  show (holders.getD p ∅)[a]? = _
  rw [changed]
  by_cases hp : p = page
  · rw [if_pos hp, if_pos hp]
  · rw [if_neg hp, if_neg hp]
    rfl

theorem grant_mode? (t : LockTable) (txn : TransactionId) (page : PageId) (mode : LockMode)
    (a : TransactionId) (p : PageId) :
    (t.grant txn page mode).mode? a p =
      if a = txn ∧ p = page then some mode else t.mode? a p := by
  rw [grant, mode?_mk t _ page ((t.holdersOf page).insert txn mode)
    (fun p => Lookup.getD_insert ..), Lookup.getElem?_insert]
  by_cases hp : p = page
  · subst p
    by_cases ha : a = txn
    · rw [if_pos rfl, if_pos ha, if_pos ⟨ha, rfl⟩]
    · rw [if_pos rfl, if_neg ha, if_neg (fun h => ha h.1)]
      rfl
  · rw [if_neg hp, if_neg (fun h => hp h.2)]

theorem grant_pageSet (t : LockTable) (txn : TransactionId) (page : PageId) (mode : LockMode)
    (a : TransactionId) (p : PageId) :
    p ∈ (t.grant txn page mode).pageSet a ↔ (a = txn ∧ p = page) ∨ p ∈ t.pageSet a := by
  show p ∈ (t.pages.insert txn ((t.pageSet txn).insert page)).getD a ∅ ↔ _
  rw [Lookup.getD_insert]
  by_cases ha : a = txn
  · subst a
    rw [if_pos rfl, Lookup.mem_insert]
    simp
  · simp [ha, pageSet]

/-! ## Asking for a lock -/

/-- The three ways in which a request is granted: the lock is there already, its only sharer
takes it for itself, or it joins compatible holders. -/
theorem acquire_cases {t t' : LockTable} {txn : TransactionId} {page : PageId} {mode : LockMode}
    (granted : t.acquire txn page mode = some t') :
    (t.mode? txn page = some (LockMode.raise (t.mode? txn page) mode) ∧ t' = t) ∨
    (t.mode? txn page = some .shared ∧ mode = .exclusive ∧ (t.holdersOf page).size = 1 ∧
      t' = { t with
        holders := t.holders.insert page ((t.holdersOf page).insert txn .exclusive) }) ∨
    (t.mode? txn page = none ∧
      (∀ b held, t.mode? b page = some held → held.compatible mode = true) ∧
      t' = t.grant txn page mode) := by
  simp only [acquire] at granted
  cases held : t.mode? txn page with
  | none =>
    rw [held] at granted
    dsimp only at granted
    split at granted
    next all =>
      cases granted
      exact Or.inr (Or.inr ⟨rfl, (Holders.all_iff _ _).mp all, rfl⟩)
    next => cases granted
  | some mine =>
    rw [held] at granted
    cases mine with
    | exclusive =>
      cases granted
      exact Or.inl ⟨rfl, rfl⟩
    | shared =>
      cases mode with
      | shared =>
        cases granted
        exact Or.inl ⟨rfl, rfl⟩
      | exclusive =>
        dsimp only at granted
        split at granted
        next single =>
          cases granted
          exact Or.inr (Or.inl ⟨rfl, rfl, single, rfl⟩)
        next => cases granted

/-- A granted request changes the mode of one transaction on one page. -/
theorem acquire_mode? {t t' : LockTable} {txn : TransactionId} {page : PageId} {mode : LockMode}
    (granted : t.acquire txn page mode = some t') (a : TransactionId) (p : PageId) :
    t'.mode? a p =
      if a = txn ∧ p = page then some (LockMode.raise (t.mode? txn page) mode)
      else t.mode? a p := by
  rcases acquire_cases granted with ⟨had, rfl⟩ | ⟨shared, rfl, _, rfl⟩ | ⟨free, _, rfl⟩
  · by_cases h : a = txn ∧ p = page
    · rw [if_pos h, h.1, h.2]
      exact had
    · rw [if_neg h]
  · rw [shared, mode?_mk t _ page ((t.holdersOf page).insert txn .exclusive)
      (fun p => Lookup.getD_insert ..), Lookup.getElem?_insert]
    by_cases hp : p = page
    · subst p
      by_cases ha : a = txn
      · rw [if_pos rfl, if_pos ha, if_pos ⟨ha, rfl⟩]
        rfl
      · rw [if_pos rfl, if_neg ha, if_neg (fun h => ha h.1)]
        rfl
    · rw [if_neg hp, if_neg (fun h => hp h.2)]
  · rw [grant_mode?, free]
    rfl

theorem acquire_self {t t' : LockTable} {txn : TransactionId} {page : PageId} {mode : LockMode}
    (granted : t.acquire txn page mode = some t') :
    t'.mode? txn page = some (LockMode.raise (t.mode? txn page) mode) := by
  rw [acquire_mode? granted, if_pos ⟨rfl, rfl⟩]

theorem acquire_other {t t' : LockTable} {txn : TransactionId} {page : PageId} {mode : LockMode}
    (granted : t.acquire txn page mode = some t') {a : TransactionId} {p : PageId}
    (other : ¬(a = txn ∧ p = page)) : t'.mode? a p = t.mode? a p := by
  rw [acquire_mode? granted, if_neg other]

/-- Granting never weakens a lock. -/
theorem acquire_holds {t t' : LockTable} {txn : TransactionId} {page : PageId} {mode : LockMode}
    (granted : t.acquire txn page mode = some t') (a : TransactionId) (p : PageId) :
    t'.holds a p ↔ (a = txn ∧ p = page) ∨ t.holds a p := by
  simp only [holds]
  rw [acquire_mode? granted]
  by_cases h : a = txn ∧ p = page
  · simp [h]
  · simp [h]

/-- Who is granted a lock meets no other holder, or asked to share with sharers only. -/
theorem acquire_compatible {t t' : LockTable} {txn : TransactionId} {page : PageId}
    {mode : LockMode} (sound : t.Sound) (granted : t.acquire txn page mode = some t')
    {b : TransactionId} (other : b ≠ txn) (held : t.holds b page) :
    LockMode.raise (t.mode? txn page) mode = .shared ∧ t.mode? b page = some .shared := by
  obtain ⟨m, hm⟩ := (t.holds_iff b page).mp held
  have notAlone : t.mode? txn page ≠ some .exclusive := fun mine =>
    other (sound.alone page txn b mine held)
  have notExclusive : ∀ mine, t.mode? txn page = some mine → m ≠ .exclusive := fun mine hmine e =>
    other (sound.alone page b txn (e ▸ hm) ((t.holds_iff txn page).mpr ⟨mine, hmine⟩)).symm
  rcases acquire_cases granted with ⟨had, _⟩ | ⟨shared, _, single, _⟩ | ⟨free, all, _⟩
  · generalize LockMode.raise (t.mode? txn page) mode = mine at had ⊢
    have notMine := notExclusive mine had
    cases mine with
    | exclusive => exact absurd had notAlone
    | shared =>
      cases m with
      | exclusive => exact absurd rfl notMine
      | shared => exact ⟨rfl, hm⟩
  · exact absurd (Holders.eq_of_size_one single held
      (show (t.mode? txn page).isSome by rw [shared]; rfl)) other
  · have fits := all b m hm
    rw [free]
    cases m with
    | exclusive => cases mode <;> exact absurd fits (by decide)
    | shared =>
      cases mode with
      | exclusive => exact absurd fits (by decide)
      | shared => exact ⟨rfl, hm⟩

/-- A refusal is on account of another holder whose mode does not go with what is asked for; a
lock that the transaction has already is then a shared one to be made exclusive. -/
theorem blocked_of_refused {t : LockTable} {txn : TransactionId} {page : PageId}
    {mode : LockMode} (refused : t.acquire txn page mode = none) :
    (∃ b held, b ≠ txn ∧ t.mode? b page = some held ∧ held.compatible mode = false) ∧
      ∀ mine, t.mode? txn page = some mine → mine = .shared ∧ mode = .exclusive := by
  simp only [acquire] at refused
  cases mine : t.mode? txn page with
  | some held =>
    have present : (t.holdersOf page)[txn]?.isSome := holds_of_mode mine
    rw [mine] at refused
    cases held with
    | exclusive => cases refused
    | shared =>
      cases mode with
      | shared => cases refused
      | exclusive =>
        dsimp only at refused
        split at refused
        next => cases refused
        next several =>
          obtain ⟨b, other, there⟩ := Holders.exists_other present several
          obtain ⟨held, found⟩ := (t.holds_iff b page).mp there
          refine ⟨⟨b, held, other, found, ?_⟩, ?_⟩
          · cases held <;> rfl
          · rintro mine ⟨⟩
            exact ⟨rfl, rfl⟩
  | none =>
    rw [mine] at refused
    dsimp only at refused
    split at refused
    next => cases refused
    next unfit =>
      rw [Holders.all_iff] at unfit
      obtain ⟨b, hb⟩ := Classical.not_forall.mp unfit
      obtain ⟨m, hm⟩ := Classical.not_forall.mp hb
      obtain ⟨held, differs⟩ := Classical.not_imp.mp hm
      have found : t.mode? b page = some m := held
      refine ⟨⟨b, m, fun same => ?_, found, eq_false_of_ne_true differs⟩, nofun⟩
      rw [same, mine] at found
      cases found

theorem exists_holder_of_refused {t : LockTable} {txn : TransactionId} {page : PageId}
    {mode : LockMode} (refused : t.acquire txn page mode = none) :
    ∃ b, b ≠ txn ∧ t.holds b page := by
  obtain ⟨⟨b, held, other, found, _⟩, _⟩ := blocked_of_refused refused
  exact ⟨b, other, holds_of_mode found⟩

theorem sound_acquire {t t' : LockTable} {txn : TransactionId} {page : PageId} {mode : LockMode}
    (sound : t.Sound) (granted : t.acquire txn page mode = some t') : t'.Sound where
  indexed a p := by
    rw [acquire_holds granted]
    have kept : p ∈ t.pageSet a ↔ (a = txn ∧ p = page ∧ t.holds txn page) ∨ t.holds a p := by
      rw [sound.indexed]
      exact ⟨Or.inr, fun h => h.elim (fun e => by rw [e.1, e.2.1]; exact e.2.2) id⟩
    rcases acquire_cases granted with ⟨had, rfl⟩ | ⟨shared, _, _, rfl⟩ | ⟨_, _, rfl⟩
    · have held := (holds_iff t' txn page).mpr ⟨_, had⟩
      simpa [held] using kept
    · have held := (t.holds_iff txn page).mpr ⟨_, shared⟩
      show p ∈ t.pageSet a ↔ _
      simpa [held] using kept
    · rw [grant_pageSet, sound.indexed]
  alone p a b owner held := by
    rw [acquire_mode? granted] at owner
    rw [acquire_holds granted] at held
    by_cases ha : a = txn ∧ p = page
    · obtain ⟨rfl, rfl⟩ := ha
      rcases held with hb | held
      · exact hb.1
      · by_cases hb : b = a
        · exact hb
        · rw [if_pos ⟨rfl, rfl⟩, (acquire_compatible sound granted hb held).1] at owner
          cases owner
    · rw [if_neg ha] at owner
      rcases held with hb | held
      · obtain ⟨rfl, rfl⟩ := hb
        by_cases same : a = b
        · exact same.symm
        · have shares := (acquire_compatible sound granted same
            ((t.holds_iff a p).mpr ⟨_, owner⟩)).2
          rw [owner] at shares
          cases shares
      · exact sound.alone p a b owner held

/-! ## Giving locks back -/

theorem release_mode? (t : LockTable) (txn : TransactionId) (page : PageId)
    (a : TransactionId) (p : PageId) :
    (t.release txn page).mode? a p =
      if a = txn ∧ p = page then none else t.mode? a p := by
  have left : ∀ q, (if ((t.holdersOf page).erase txn).isEmpty then t.holders.erase page
      else t.holders.insert page ((t.holdersOf page).erase txn)).getD q ∅ =
      if q = page then (if ((t.holdersOf page).erase txn).isEmpty then ∅
        else (t.holdersOf page).erase txn) else t.holdersOf q := by
    intro q
    split
    · exact Lookup.getD_erase ..
    · exact Lookup.getD_insert ..
  have entries : ∀ b, (if ((t.holdersOf page).erase txn).isEmpty then (∅ : Holders)
      else (t.holdersOf page).erase txn)[b]? = if b = txn then none else t.mode? b page := by
    intro b
    have erased : ((t.holdersOf page).erase txn)[b]? =
        if b = txn then none else t.mode? b page := Lookup.getElem?_erase ..
    split
    next none_left =>
      rw [← erased, Std.TreeMap.getElem?_of_isEmpty none_left]
      rfl
    next => exact erased
  simp only [release]
  split
  next held =>
    rw [mode?_mk t _ page _ left, entries]
    by_cases hp : p = page
    · subst p
      by_cases ha : a = txn
      · simp [ha]
      · simp [ha]
    · simp [hp]
  next free =>
    by_cases h : a = txn ∧ p = page
    · obtain ⟨rfl, rfl⟩ := h
      simpa [holds] using free
    · rw [if_neg h]

theorem release_holds (t : LockTable) (txn : TransactionId) (page : PageId)
    (a : TransactionId) (p : PageId) :
    (t.release txn page).holds a p ↔ ¬(a = txn ∧ p = page) ∧ t.holds a p := by
  simp only [holds]
  rw [release_mode?]
  by_cases h : a = txn ∧ p = page
  · simp [h]
  · simp [h]

theorem release_pageSet {t : LockTable} (sound : t.Sound) (txn : TransactionId) (page : PageId)
    (a : TransactionId) (p : PageId) :
    p ∈ (t.release txn page).pageSet a ↔ ¬(a = txn ∧ p = page) ∧ p ∈ t.pageSet a := by
  simp only [release]
  split
  next held =>
    show p ∈ (if ((t.pageSet txn).erase page).isEmpty then t.pages.erase txn
      else t.pages.insert txn ((t.pageSet txn).erase page)).getD a ∅ ↔ _
    by_cases ha : a = txn
    · subst a
      split
      next none_left =>
        have gone := Std.TreeSet.not_mem_of_isEmpty (a := p) none_left
        rw [Lookup.mem_erase] at gone
        rw [Lookup.getD_erase, if_pos rfl]
        simp only [true_and]
        exact ⟨fun h => absurd h Std.TreeSet.not_mem_emptyc, fun h => absurd h gone⟩
      next =>
        rw [Lookup.getD_insert, if_pos rfl, Lookup.mem_erase]
        simp
    · split
      · simp [Lookup.getD_erase, ha, pageSet]
      · simp [Lookup.getD_insert, ha, pageSet]
  next free =>
    refine ⟨fun h => ⟨fun e => ?_, h⟩, fun h => h.2⟩
    rw [e.1, e.2, sound.indexed] at h
    exact free h

theorem sound_release {t : LockTable} (sound : t.Sound) (txn : TransactionId) (page : PageId) :
    (t.release txn page).Sound where
  indexed a p := by rw [release_pageSet sound, release_holds, sound.indexed]
  alone p a b owner held := by
    rw [release_holds] at held
    rw [release_mode?] at owner
    by_cases ha : a = txn ∧ p = page
    · rw [if_pos ha] at owner
      cases owner
    · rw [if_neg ha] at owner
      exact sound.alone p a b owner held.2

/-- Gives back the listed pages one after another. -/
theorem foldl_release_mode? (txn : TransactionId) (pages : List PageId) (t : LockTable)
    (a : TransactionId) (p : PageId) :
    (pages.foldl (fun t page => t.release txn page) t).mode? a p =
      if a = txn ∧ p ∈ pages then none else t.mode? a p := by
  induction pages generalizing t with
  | nil => simp
  | cons page rest ih =>
    rw [List.foldl_cons, ih, release_mode?]
    by_cases ha : a = txn
    · by_cases hp : p = page
      · simp [ha, hp]
      · simp [ha, hp]
    · simp [ha]

theorem releaseAll_mode? {t : LockTable} (sound : t.Sound) (txn : TransactionId)
    (a : TransactionId) (p : PageId) :
    (t.releaseAll txn).mode? a p = if a = txn then none else t.mode? a p := by
  rw [releaseAll, foldl_release_mode?]
  by_cases ha : a = txn
  · subst ha
    rw [if_pos rfl]
    by_cases held : t.holds a p
    · rw [if_pos ⟨rfl, (mem_pagesHeldBy sound a p).mpr held⟩]
    · rw [if_neg (fun h => held ((mem_pagesHeldBy sound a p).mp h.2))]
      simpa [holds] using held
  · rw [if_neg ha, if_neg (fun h => ha h.1)]

/-- Whoever holds a page after a transaction has released all is another and held it before. -/
theorem holds_of_releaseAll {t : LockTable} (sound : t.Sound) {txn a : TransactionId}
    {page : PageId} (held : (t.releaseAll txn).holds a page) : a ≠ txn ∧ t.holds a page := by
  rw [holds, releaseAll_mode? sound] at held
  split at held
  · cases held
  next other => exact ⟨other, held⟩

theorem sound_releaseAll {t : LockTable} (sound : t.Sound) (txn : TransactionId) :
    (t.releaseAll txn).Sound := by
  simp only [releaseAll]
  generalize t.pagesHeldBy txn = pages
  induction pages generalizing t with
  | nil => exact sound
  | cons page rest ih => exact ih (sound_release sound txn page)

end LockTable

end TransactionalPages
