import TransactionalPages.Proofs.Bytes
import TransactionalPages.Store.ByteFile

/-!
# What a byte file says

The shortcuts that reading takes do not show: what is read is, byte by byte, what
the last extent over each byte says. Writing changes the bytes of one stretch and
changing the length changes none of those that are left.
-/

namespace TransactionalPages

namespace Extent

theorem covers_iff (e : Extent) (i : Nat) : e.covers i = true ↔ e.start ≤ i ∧ i < e.stop := by
  simp [covers]

theorem byteOf_filter {keep : Extent → Bool} {i : Nat} (extents : List Extent)
    (kept : ∀ e ∈ extents, e.covers i = true → keep e = true) :
    byteOf (extents.filter keep) i = byteOf extents i := by
  induction extents with
  | nil => rfl
  | cons e rest ih =>
    have later := ih fun d hd => kept d (List.mem_cons_of_mem e hd)
    by_cases here : keep e = true
    · rw [List.filter_cons_of_pos here, byteOf, byteOf, later]
    · rw [List.filter_cons_of_neg here, byteOf, later, if_neg]
      exact fun covered => here (kept e List.mem_cons_self covered)

theorem byteOf_eq_zero {extents : List Extent} {i : Nat}
    (bare : ∀ e ∈ extents, e.covers i = false) : byteOf extents i = 0 := by
  induction extents with
  | nil => rfl
  | cons e rest ih =>
    rw [byteOf, if_neg (by simp [bare e List.mem_cons_self])]
    exact ih fun d hd => bare d (List.mem_cons_of_mem e hd)

theorem not_covers_of_not_meets {e : Extent} {start n i : Nat} (lower : start ≤ i)
    (upper : i < start + n) (apart : e.meets start (start + n) = false) : e.covers i = false := by
  simp only [meets, covers, Bool.and_eq_false_iff, decide_eq_false_iff_not] at apart ⊢
  omega

/-- The first extent that meets a stretch is the one that speaks where it lies. -/
theorem byteOf_of_find {extents : List Extent} {start n i : Nat} {e : Extent}
    (found : extents.find? (fun e => e.meets start (start + n)) = some e)
    (lower : start ≤ i) (upper : i < start + n) (covered : e.covers i = true) :
    byteOf extents i = e.data.byte (i - e.start) := by
  induction extents with
  | nil => cases found
  | cons d rest ih =>
    by_cases here : d.meets start (start + n) = true
    · simp only [List.find?_cons, here] at found
      cases found
      rw [byteOf, if_pos covered]
    · simp only [List.find?_cons, here] at found
      rw [byteOf, if_neg (by simp [not_covers_of_not_meets lower upper (by simpa using here)])]
      exact ih found

theorem byte_before {e : Extent} {place i : Nat} (below : i < place) :
    (e.before place).covers i = e.covers i ∧
      (e.covers i = true → (e.before place).data.byte (i - (e.before place).start) =
        e.data.byte (i - e.start)) := by
  simp only [before]
  split
  · exact ⟨rfl, fun _ => rfl⟩
  next beyond =>
    simp only [stop] at beyond
    have size : (e.data.extract 0 (place - e.start)).size = place - e.start := by
      simp only [Array.size_extract]
      omega
    constructor
    · apply Bool.eq_iff_iff.mpr
      rw [covers_iff, covers_iff, stop, stop, size]
      show e.start ≤ i ∧ i < e.start + (place - e.start) ↔ _
      omega
    · intro covered
      rw [covers_iff, stop] at covered
      have inside : i - e.start < (e.data.extract 0 (place - e.start)).size := by omega
      have whole : i - e.start < e.data.size := by omega
      show (e.data.extract 0 (place - e.start)).getD (i - e.start) 0 = e.data.getD (i - e.start) 0
      rw [Array.getD_eq_getD_getElem?, Array.getD_eq_getD_getElem?,
        Array.getElem?_eq_getElem inside, Array.getElem?_eq_getElem whole, Array.getElem_extract]
      simp

theorem before_not_covers {e : Extent} {place i : Nat} (past : place ≤ i) :
    (e.before place).covers i = false := by
  apply Bool.eq_false_iff.mpr
  rw [Ne, covers_iff]
  rintro ⟨lower, upper⟩
  simp only [before] at lower upper
  split at upper
  next within =>
    simp only [stop] at within upper
    omega
  next beyond =>
    rw [if_neg beyond] at lower
    simp only [stop] at upper
    simp only [Array.size_extract] at lower upper
    simp only [stop] at beyond
    omega

theorem byteOf_map_before {place i : Nat} (below : i < place) (extents : List Extent) :
    byteOf (extents.map fun e => e.before place) i = byteOf extents i := by
  induction extents with
  | nil => rfl
  | cons e rest ih =>
    obtain ⟨covers, byte⟩ := byte_before (e := e) below
    rw [List.map_cons, byteOf, byteOf, ih, covers]
    by_cases covered : e.covers i = true
    · rw [if_pos covered, if_pos covered, byte covered]
    · rw [if_neg covered, if_neg covered]

end Extent

namespace ByteFile

theorem size_read (f : ByteFile) (start n : Nat) : (f.read start n).size = n := by
  simp only [read]
  split
  · exact Bytes.size_zeros n
  · split
    next whole => exact whole.2
    next => simp [collect]

theorem byte_read (f : ByteFile) {start n i : Nat} (hi : i < n) :
    (f.read start n).byte i = f.byte (start + i) := by
  simp only [read]
  split
  next bare =>
    rw [List.find?_eq_none] at bare
    rw [Bytes.byte_zeros, byte, Extent.byteOf_eq_zero]
    exact fun e he => Extent.not_covers_of_not_meets (by omega) (by omega : start + i < start + n)
      (by simpa using bare e he)
  next e found =>
    split
    next whole =>
      obtain ⟨hstart, hsize⟩ := whole
      have covered : e.covers (start + i) = true := by
        rw [Extent.covers_iff, Extent.stop]
        omega
      rw [byte, Extent.byteOf_of_find found (by omega) (by omega) covered, hstart]
      congr 1
      omega
    next =>
      have collected : (f.collect start n).byte i =
          Extent.byteOf (f.written.filter fun e => e.meets start (start + n)) (start + i) := by
        simp [collect, Bytes.byte, hi]
      rw [collected, byte, Extent.byteOf_filter]
      intro d _ covered
      cases meets : d.meets start (start + n) with
      | true => rfl
      | false =>
        rw [Extent.not_covers_of_not_meets (by omega) (by omega) meets] at covered
        cases covered

theorem read_congr {f g : ByteFile} {start n : Nat}
    (same : ∀ i, start ≤ i → i < start + n → f.byte i = g.byte i) :
    f.read start n = g.read start n := by
  apply Bytes.ext_byte
  · rw [size_read, size_read]
  · intro i hi
    rw [size_read] at hi
    rw [byte_read f hi, byte_read g hi]
    exact same _ (by omega) (by omega)

theorem byte_write (f : ByteFile) (start : Nat) (data : Bytes) (i : Nat) :
    (f.write start data).byte i =
      if start ≤ i ∧ i < start + data.size then data.byte (i - start) else f.byte i := by
  have covers : (Extent.mk start data).covers i = true ↔ start ≤ i ∧ i < start + data.size :=
    Extent.covers_iff _ i
  show Extent.byteOf (Extent.mk start data :: f.written.filter _) i = _
  rw [Extent.byteOf]
  by_cases inside : start ≤ i ∧ i < start + data.size
  · rw [if_pos (covers.mpr inside), if_pos inside]
  · rw [if_neg (fun h => inside (covers.mp h)), if_neg inside, Extent.byteOf_filter]
    · rfl
    · intro e _ covered
      rw [Extent.covers_iff] at covered
      simp only [Extent.within, Bool.not_eq_true', Bool.and_eq_false_iff,
        decide_eq_false_iff_not]
      omega

theorem read_write_self (f : ByteFile) (start : Nat) (data : Bytes) :
    (f.write start data).read start data.size = data := by
  apply Bytes.ext_byte (size_read ..)
  intro i hi
  rw [size_read] at hi
  rw [byte_read _ hi, byte_write, if_pos (by omega)]
  congr 1
  omega

theorem read_write_apart {f : ByteFile} {start place n : Nat} {data : Bytes}
    (apart : place + n ≤ start ∨ start + data.size ≤ place) :
    (f.write start data).read place n = f.read place n :=
  read_congr fun i lower upper => by rw [byte_write, if_neg (by omega)]

theorem byte_setLength {f : ByteFile} {length i : Nat} (below : i < length) :
    (f.setLength length).byte i = f.byte i := Extent.byteOf_map_before below f.written

theorem read_setLength {f : ByteFile} {length start n : Nat} (below : start + n ≤ length) :
    (f.setLength length).read start n = f.read start n :=
  read_congr fun i _ upper => byte_setLength (by omega)

theorem resize_eq_ok {f g : ByteFile} {length : Nat} (resized : f.resize length = .ok g) :
    g = f.setLength length := by
  simp only [resize] at resized
  split at resized
  · cases resized
  · split at resized
    · cases resized
    · exact (Except.ok.inj resized).symm

/-- Nothing is kept of what lay past the new end. -/
theorem byte_setLength_past {f : ByteFile} {length i : Nat} (past : length ≤ i) :
    (f.setLength length).byte i = 0 := by
  apply Extent.byteOf_eq_zero
  intro e listed
  obtain ⟨d, _, rfl⟩ := List.mem_map.mp listed
  exact Extent.before_not_covers past

theorem read_eq_zeros {f : ByteFile} {start n : Nat}
    (bare : ∀ i, start ≤ i → i < start + n → f.byte i = 0) : f.read start n = Bytes.zeros n := by
  apply Bytes.ext_byte
  · rw [size_read, Bytes.size_zeros]
  · intro i hi
    rw [size_read] at hi
    rw [byte_read f hi, Bytes.byte_zeros]
    exact bare _ (by omega) (by omega)

end ByteFile

end TransactionalPages
