import TransactionalPages.Bytes

/-!
# Byte by byte

A byte string is known by its size and by its bytes, which are zero beyond the
end. Overwriting part of it is described by the bytes inside and outside that
part, and a number or a slice depends on the bytes it lies over and on no others.
-/

namespace TransactionalPages.Bytes

theorem ext_byte {b c : Bytes} (size : b.size = c.size)
    (same : ∀ i, i < b.size → b.byte i = c.byte i) : b = c := by
  apply Array.ext size
  intro i hb hc
  simpa [byte, hb, hc] using same i hb

theorem byte_of_size_le {b : Bytes} {i : Nat} (beyond : b.size ≤ i) : b.byte i = 0 := by
  simp [byte, beyond]

@[simp] theorem size_zeros (n : Nat) : (zeros n).size = n := by simp [zeros]

@[simp] theorem byte_zeros (n i : Nat) : (zeros n).byte i = 0 := by
  by_cases h : i < n
  · simp [byte, zeros, h]
  · exact byte_of_size_le (by simpa using h)

theorem byte_append (b c : Bytes) (i : Nat) :
    Bytes.byte (b ++ c) i = if i < b.size then b.byte i else c.byte (i - b.size) := by
  simp only [byte, Array.getD_eq_getD_getElem?, Array.getElem?_append]
  split <;> rfl

/-! ## Overwriting -/

@[simp] theorem size_setFrom (new : List UInt8) (b : Bytes) (start : Nat) :
    (setFrom b start new).size = b.size := by
  induction new generalizing b start with
  | nil => rfl
  | cons x rest ih => simp [setFrom, ih]

theorem byte_set (b : Bytes) (start i : Nat) (x : UInt8) (h : start < b.size) :
    Bytes.byte (b.setIfInBounds start x) i = if i = start then x else b.byte i := by
  simp only [byte, Array.getD_eq_getD_getElem?, Array.getElem?_setIfInBounds]
  by_cases same : start = i
  · subst i
    simp [h]
  · simp [same, Ne.symm same]

theorem byte_setFrom (new : List UInt8) (b : Bytes) (start i : Nat)
    (fits : start + new.length ≤ b.size) :
    (setFrom b start new).byte i =
      if start ≤ i ∧ i < start + new.length then new.getD (i - start) 0 else b.byte i := by
  induction new generalizing b start with
  | nil =>
    rw [if_neg (by simp only [List.length_nil]; omega)]
    rfl
  | cons x rest ih =>
    simp only [List.length_cons] at fits ⊢
    rw [setFrom, ih _ _ (by simp only [Array.size_setIfInBounds]; omega),
      byte_set _ _ _ _ (by omega)]
    by_cases here : i = start
    · subst i
      rw [if_neg (by omega), if_pos rfl, if_pos (by omega)]
      simp
    · by_cases later : start + 1 ≤ i ∧ i < start + 1 + rest.length
      · rw [if_pos later, if_pos (by omega)]
        rw [show i - start = i - (start + 1) + 1 by omega]
        simp
      · rw [if_neg later, if_neg here, if_neg (by omega)]

theorem size_patch (b : Bytes) (start : Nat) (new : Bytes) :
    (patch b start new).size = max b.size (start + new.size) := by
  simp only [patch, size_setFrom, Array.size_append, size_zeros]
  omega

theorem size_patch_of_le {b new : Bytes} {start : Nat} (fits : start + new.size ≤ b.size) :
    (patch b start new).size = b.size := by
  rw [size_patch]
  omega

theorem byte_patch (b : Bytes) (start : Nat) (new : Bytes) (i : Nat) :
    (patch b start new).byte i =
      if start ≤ i ∧ i < start + new.size then new.byte (i - start) else b.byte i := by
  have fits : start + new.toList.length ≤ (b ++ zeros (start + new.size - b.size)).size := by
    simp only [Array.length_toList, Array.size_append, size_zeros]
    omega
  rw [patch, byte_setFrom _ _ _ _ fits, Array.length_toList]
  have outside : Bytes.byte (b ++ zeros (start + new.size - b.size)) i = b.byte i := by
    rw [byte_append]
    by_cases h : i < b.size
    · rw [if_pos h]
    · rw [if_neg h, byte_zeros, byte_of_size_le (by omega)]
  rw [outside]
  by_cases inside : start ≤ i ∧ i < start + new.size
  · rw [if_pos inside, if_pos inside]
    simp [byte]
  · rw [if_neg inside, if_neg inside]

theorem byte_patch_outside {b new : Bytes} {start i : Nat}
    (outside : i < start ∨ start + new.size ≤ i) : (patch b start new).byte i = b.byte i := by
  rw [byte_patch, if_neg (by omega)]

theorem byte_patch_inside {b new : Bytes} {start i : Nat} (lower : start ≤ i)
    (upper : i < start + new.size) : (patch b start new).byte i = new.byte (i - start) := by
  rw [byte_patch, if_pos ⟨lower, upper⟩]

/-! ## Numbers -/

@[simp] theorem length_ofNat (width n : Nat) : (ofNat width n).length = width := by
  induction width generalizing n with
  | zero => rfl
  | succ width ih => simp [ofNat, ih]

@[simp] theorem size_little (width n : Nat) : (little width n).size = width := by
  simp [little]

theorem natAt_congr {b c : Bytes} {start width : Nat}
    (same : ∀ i, start ≤ i → i < start + width → b.byte i = c.byte i) :
    natAt b start width = natAt c start width := by
  induction width generalizing start with
  | zero => rfl
  | succ width ih =>
    rw [natAt, natAt, same start (Nat.le_refl _) (by omega),
      ih fun i lower upper => same i (by omega) (by omega)]

/-- A number reads the same after bytes elsewhere have been overwritten. -/
theorem natAt_patch_outside {b new : Bytes} {start place width : Nat}
    (outside : place + width ≤ start ∨ start + new.size ≤ place) :
    natAt (patch b start new) place width = natAt b place width :=
  natAt_congr fun i lower upper => byte_patch_outside (by omega)

theorem natAt_two (b : Bytes) (start : Nat) :
    natAt b start 2 = (b.byte start).toNat + 256 * (b.byte (start + 1)).toNat := by
  simp [natAt]

theorem natAt_two_lt (b : Bytes) (start : Nat) : natAt b start 2 < 65536 := by
  have low := (b.byte start).toNat_lt
  have high := (b.byte (start + 1)).toNat_lt
  rw [natAt_two]
  omega

/-- A number in two bytes reads back if it fits there. -/
theorem natAt_patch_little (b : Bytes) (start n : Nat) (fits : n < 65536) :
    natAt (patch b start (little 2 n)) start 2 = n := by
  have low : (patch b start (little 2 n)).byte start = UInt8.ofNat n := by
    rw [byte_patch_inside (Nat.le_refl _) (by simp)]
    simp [byte, little, ofNat]
  have high : (patch b start (little 2 n)).byte (start + 1) = UInt8.ofNat (n / 256) := by
    rw [byte_patch_inside (by omega) (by simp)]
    simp [byte, little, ofNat]
  have short : n / 256 < 256 := Nat.div_lt_of_lt_mul fits
  rw [natAt_two, low, high, UInt8.toNat_ofNat', UInt8.toNat_ofNat']
  omega

@[simp] theorem natAt_zeros (n start : Nat) : natAt (zeros n) start 2 = 0 := by
  simp [natAt_two]

/-! ## Slices -/

theorem size_slice (b : Bytes) (start n : Nat) :
    (slice b start n).size = min (start + n) b.size - start := by
  simp [slice]

theorem byte_slice {b : Bytes} {start n i : Nat} (within : start + n ≤ b.size) (hi : i < n) :
    (slice b start n).byte i = b.byte (start + i) := by
  have size : i < (slice b start n).size := by
    rw [size_slice]
    omega
  have place : start + i < b.size := by omega
  simp only [byte, Array.getD_eq_getD_getElem?]
  rw [Array.getElem?_eq_getElem size, Array.getElem?_eq_getElem place]
  simp [slice]

theorem slice_congr {b c : Bytes} {start n : Nat} (hb : start + n ≤ b.size)
    (hc : start + n ≤ c.size) (same : ∀ i, start ≤ i → i < start + n → b.byte i = c.byte i) :
    slice b start n = slice c start n := by
  apply ext_byte
  · simp only [size_slice]
    omega
  · intro i hi
    rw [size_slice] at hi
    rw [byte_slice hb (by omega), byte_slice hc (by omega)]
    exact same _ (by omega) (by omega)

/-- A slice is its first byte and the slice behind it. -/
theorem slice_succ {b : Bytes} {start n : Nat} (within : start + (n + 1) ≤ b.size) :
    #[b.byte start] ++ slice b (start + 1) n = slice b start (n + 1) := by
  have size : (slice b (start + 1) n).size = n := by
    rw [size_slice]
    omega
  refine ext_byte (by rw [Array.size_append, size, size_slice, Array.size_singleton]; omega) ?_
  intro i below
  rw [Array.size_append, size, Array.size_singleton] at below
  rw [byte_append, byte_slice within (by omega), Array.size_singleton]
  split
  next first =>
    obtain rfl : i = 0 := by omega
    rfl
  next later =>
    rw [byte_slice (by omega) (by omega)]
    congr 1
    omega

theorem slice_patch_self {b new : Bytes} {start : Nat} (fits : start + new.size ≤ b.size) :
    slice (patch b start new) start new.size = new := by
  have within : start + new.size ≤ (patch b start new).size := by
    rw [size_patch_of_le fits]
    exact fits
  apply ext_byte
  · rw [size_slice]
    omega
  · intro i hi
    rw [size_slice] at hi
    rw [byte_slice within (by omega), byte_patch_inside (by omega) (by omega)]
    congr 1
    omega

end TransactionalPages.Bytes
