import TransactionalPages.Fault
import TransactionalPages.Row
import TransactionalPages.Proofs.Bytes

/-!
# Rows as byte strings

Of a format no more is assumed than what it makes of one number, of one length
and of bytes that remain. Then each number of a row has its place, at which its
bytes stand with the lowest one first, and the payload follows. This says when a
byte string begins with a row. A written row is the shortest such byte string, and
reading answers with the row at the beginning, if there is one. So no part of a
row is read as a row, whatever length it promises.
-/

namespace TransactionalPages

namespace Bytes

variable {b : Bytes} {start width n : Nat}

/-- The bytes from `start` on are those of a number, low byte first. -/
def Lays (b : Bytes) (start width n : Nat) : Prop :=
  ∀ i < width, b.byte (start + i) = UInt8.ofNat (n >>> (8 * i))

/-- The bytes of a number behind its lowest one. -/
theorem shift_succ (n i : Nat) : n >>> (8 * (i + 1)) = (n / 256) >>> (8 * i) := by
  rw [Nat.mul_succ, Nat.add_comm, Nat.shiftRight_add, Nat.shiftRight_eq_div_pow n 8]

theorem lays_succ : b.Lays start (width + 1) n ↔
    b.byte start = UInt8.ofNat n ∧ b.Lays (start + 1) width (n / 256) := by
  constructor
  · intro lays
    refine ⟨lays 0 (Nat.succ_pos width), fun i below => ?_⟩
    rw [← shift_succ, Nat.add_assoc, Nat.add_comm 1 i]
    exact lays (i + 1) (Nat.succ_lt_succ below)
  · rintro ⟨first, later⟩ i below
    cases i with
    | zero => exact first
    | succ i =>
      rw [shift_succ, Nat.add_comm i 1, ← Nat.add_assoc]
      exact later i (Nat.lt_of_succ_lt_succ below)

/-- A number reads as the one whose bytes stand there. -/
theorem lays_iff (fits : n >>> (8 * width) = 0) :
    b.Lays start width n ↔ natAt b start width = n := by
  induction width generalizing start n with
  | zero =>
    have zero : n = 0 := fits
    rw [zero]
    exact ⟨fun _ => rfl, fun _ i below => absurd below (Nat.not_lt_zero i)⟩
  | succ width ih =>
    rw [shift_succ] at fits
    rw [lays_succ, ih fits, natAt, ← UInt8.toNat_inj, UInt8.toNat_ofNat']
    have small := (b.byte start).toNat_lt
    omega

/-- A number that is read fits into its bytes. -/
theorem natAt_shift (b : Bytes) (start width : Nat) : natAt b start width >>> (8 * width) = 0 := by
  induction width generalizing start with
  | zero => rfl
  | succ width ih =>
    have small := (b.byte start).toNat_lt
    have high : natAt b start (width + 1) / 256 = natAt b (start + 1) width := by
      rw [natAt]
      omega
    rw [shift_succ, high]
    exact ih (start + 1)

theorem lays_natAt (b : Bytes) (start width : Nat) : b.Lays start width (natAt b start width) :=
  (lays_iff (natAt_shift b start width)).mpr rfl

theorem Lays.congr {c : Bytes} (lays : b.Lays start width n)
    (same : ∀ i < start + width, c.byte i = b.byte i) : c.Lays start width n := by
  intro i below
  rw [same _ (by omega)]
  exact lays i below

theorem lays_little (width n : Nat) : (little width n).Lays 0 width n := by
  induction width generalizing n with
  | zero => exact fun i below => absurd below (Nat.not_lt_zero i)
  | succ width ih =>
    refine lays_succ.mpr ⟨rfl, fun i below => ?_⟩
    have later := ih (n / 256) i below
    rw [Nat.zero_add] at later ⊢
    rw [← later, Nat.add_comm 1 i]
    simp [byte, little, ofNat]

/-- A byte string behind another one is found where that one ends. -/
theorem Lays.append {c : Bytes} (lays : c.Lays 0 width n) (place : b.size = start) :
    Bytes.Lays (b ++ c) start width n := by
  intro i below
  have here := lays i below
  rw [Nat.zero_add] at here
  rw [byte_append, if_neg (by omega), ← here]
  congr 1
  omega

end Bytes

/-! ## Formats -/

namespace Codec

variable {α : Type} {c : Codec α} {width : Nat} {toNat : α → Nat} {b : Bytes}

/-- A value is written as a number of fixed width, low byte first, and is read wherever the bytes
of a number are all there. -/
structure IsFixed (c : Codec α) (width : Nat) (toNat : α → Nat) : Prop where
  writes : ∀ a, c.write a = Bytes.little width (toNat a)
  reads : ∀ b start, start + width ≤ b.size →
    ∃ a, c.read b start = .ok (a, start + width) ∧ toNat a = Bytes.natAt b start width
  ends : ∀ b start, b.size < start + width → c.read b start = .error .truncated

theorem isFixed_little {ofNat : Nat → α}
    (back : ∀ n, n >>> (8 * width) = 0 → toNat (ofNat n) = n) :
    (little width toNat ofNat).IsFixed width toNat where
  writes _ := rfl
  reads b start there := ⟨_, if_neg (by omega), back _ (Bytes.natAt_shift b start width)⟩
  ends b start short := if_pos short

/-- Single bytes are written as they are. -/
theorem IsFixed.writeAll (fixed : c.IsFixed 1 toNat) (values : List α) (written : Bytes) :
    c.writeAll values written = written ++ (values.map fun a => UInt8.ofNat (toNat a)).toArray := by
  induction values generalizing written with
  | nil => simp [Codec.writeAll]
  | cons a rest ih =>
    have first : c.write a = #[UInt8.ofNat (toNat a)] := fixed.writes a
    show c.writeAll rest (written ++ c.write a) = _
    rw [ih, first]
    simp

/-- Bytes that are read one by one are the bytes that stand there. -/
theorem IsFixed.readMany {c : Codec UInt8} (fixed : c.IsFixed 1 UInt8.toNat) {start : Nat}
    (within : start ≤ b.size) (n : Nat) (found : Bytes) :
    c.readMany b n start found =
      if b.size < start + n then .error .truncated
      else .ok (found ++ Bytes.slice b start n, start + n) := by
  induction n generalizing start found with
  | zero =>
    have none : Bytes.slice b start 0 = #[] := Array.extract_eq_empty_of_le (by omega)
    rw [if_neg (by omega), none]
    rfl
  | succ n ih =>
    rcases Nat.lt_or_ge b.size (start + 1) with short | there
    · rw [Codec.readMany, fixed.ends b start short, if_pos (by omega)]
    · obtain ⟨x, read, value⟩ := fixed.reads b start there
      have here : x = b.byte start := UInt8.toNat_inj.mp value
      have place : start + 1 + n = start + (n + 1) := by omega
      rw [Codec.readMany, read]
      dsimp only
      rw [ih there, place, here]
      split
      · rfl
      next fits =>
        have all : #[b.byte start] ++ Bytes.slice b (start + 1) n = Bytes.slice b start (n + 1) :=
          Bytes.slice_succ (by omega)
        rw [Array.push_eq_append, Array.append_assoc, all]

end Codec

/-- Numbers have a fixed width and their low byte first, a sequence begins with its length in 64
bits, and bytes may remain. -/
structure RowFormat.Standard (format : RowFormat) : Prop where
  u8 : format.u8.IsFixed 1 UInt8.toNat
  u32 : format.u32.IsFixed 4 UInt32.toNat
  u64 : format.u64.IsFixed 8 UInt64.toNat
  length : format.length = format.u64.asLength
  remain : ∀ b start, format.remain b start = .ok ()

theorem RowFormat.standard_fixedWidth : RowFormat.fixedWidth.Standard where
  u8 := Codec.isFixed_little fun n fits => UInt8.toNat_ofNat_of_lt (by
    rw [UInt8.size]
    omega)
  u32 := Codec.isFixed_little fun n fits => UInt32.toNat_ofNat_of_lt (by
    rw [UInt32.size]
    omega)
  u64 := Codec.isFixed_little fun n fits => UInt64.toNat_ofNat_of_lt (by
    rw [UInt64.size]
    omega)
  length := rfl
  remain _ _ := rfl

namespace Row

open Bytes

variable {format : RowFormat} {r : Row} {b c : Bytes}

/-- The bytes before the payload. -/
def headSize : Nat := 20

/-- A byte string begins with a row. -/
structure Heads (r : Row) (b : Bytes) : Prop where
  size : headSize + r.payload.size ≤ b.size
  worker : b.Lays 0 4 r.worker.toNat
  seq : b.Lays 4 8 r.seq.toNat
  length : b.Lays 12 8 r.payload.size
  payload : ∀ i < r.payload.size, b.byte (headSize + i) = r.payload.byte i

theorem Heads.congr (heads : r.Heads b) (size : headSize + r.payload.size ≤ c.size)
    (same : ∀ i < headSize + r.payload.size, c.byte i = b.byte i) : r.Heads c where
  size := size
  worker := heads.worker.congr fun i below => same i (by simp only [headSize]; omega)
  seq := heads.seq.congr fun i below => same i (by simp only [headSize]; omega)
  length := heads.length.congr fun i below => same i (by simp only [headSize]; omega)
  payload i below := by
    rw [same _ (by omega)]
    exact heads.payload i below

theorem Heads.append (heads : r.Heads b) (rest : Bytes) : r.Heads (b ++ rest) := by
  have size := heads.size
  refine heads.congr (by rw [Array.size_append]; omega) fun i below => ?_
  rw [byte_append, if_pos (by omega)]

/-- What a byte string begins with leaves no choice for its bytes. -/
theorem Heads.same (hb : r.Heads b) (hc : r.Heads c) {i : Nat}
    (below : i < headSize + r.payload.size) : b.byte i = c.byte i := by
  have lays {start width n : Nat} (lb : b.Lays start width n) (lc : c.Lays start width n)
      (lower : start ≤ i) (upper : i < start + width) : b.byte i = c.byte i := by
    have place : start + (i - start) = i := by omega
    rw [← place, lb _ (by omega), lc _ (by omega)]
  rcases Nat.lt_or_ge i 4 with inWorker | afterWorker
  · exact lays hb.worker hc.worker (Nat.zero_le i) (by omega)
  rcases Nat.lt_or_ge i 12 with inSeq | afterSeq
  · exact lays hb.seq hc.seq afterWorker (by omega)
  rcases Nat.lt_or_ge i headSize with inLength | inPayload
  · exact lays hb.length hc.length afterSeq inLength
  · have place : headSize + (i - headSize) = i := by omega
    rw [← place, hb.payload _ (by omega), hc.payload _ (by omega)]

/-! ## Writing -/

/-- A row in a standard format. -/
theorem encode_eq (standard : format.Standard) (fits : r.payload.size ≤ Limit.word) :
    r.encode format = little 4 r.worker.toNat ++ little 8 r.seq.toNat ++
      little 8 r.payload.size ++ r.payload := by
  have length : (UInt64.ofNat r.payload.size).toNat = r.payload.size :=
    UInt64.toNat_ofNat_of_lt (Nat.lt_succ_of_le fits)
  have bytes : (r.payload.toList.map fun x => UInt8.ofNat x.toNat).toArray = r.payload := by simp
  rw [encode, standard.u8.writeAll, bytes, standard.u32.writes, standard.u64.writes,
    standard.length]
  simp only [Codec.asLength, standard.u64.writes, length]

theorem size_encode (standard : format.Standard) (fits : r.payload.size ≤ Limit.word) :
    (r.encode format).size = headSize + r.payload.size := by
  rw [encode_eq standard fits]
  simp only [Array.size_append, size_little, headSize]

theorem heads_encode (standard : format.Standard) (fits : r.payload.size ≤ Limit.word) :
    r.Heads (r.encode format) := by
  have first : (little 4 r.worker.toNat ++ little 8 r.seq.toNat : Bytes).size = 12 := by
    rw [Array.size_append, size_little, size_little]
  have head : (little 4 r.worker.toNat ++ little 8 r.seq.toNat ++
      little 8 r.payload.size : Bytes).size = headSize := by
    rw [Array.size_append, first, size_little, headSize]
  have size := size_encode standard fits
  rw [encode_eq standard fits] at size ⊢
  constructor
  case size => exact Nat.le_of_eq size.symm
  case worker =>
    refine (lays_little 4 _).congr fun i below => ?_
    simp only [Array.append_assoc]
    rw [byte_append, if_pos (by simpa using below)]
  case seq =>
    refine (((lays_little 8 r.seq.toNat).append (size_little 4 r.worker.toNat)).congr
      fun i below => ?_)
    rw [byte_append, if_pos (by rw [head, headSize]; omega), byte_append, if_pos (by omega)]
  case length =>
    refine ((lays_little 8 r.payload.size).append first).congr fun i below => ?_
    rw [byte_append, if_pos (by rw [head, headSize]; omega)]
  case payload =>
    intro i below
    rw [byte_append, if_neg (by omega), head, Nat.add_sub_cancel_left]

/-- A byte string begins with a row exactly when the written row is the first part of it. -/
theorem heads_iff (standard : format.Standard) (fits : r.payload.size ≤ Limit.word) :
    r.Heads b ↔ ∃ rest, b = r.encode format ++ rest := by
  have whole := size_encode standard fits
  have written := heads_encode standard fits
  generalize r.encode format = e at whole written
  constructor
  · intro heads
    have size := heads.size
    refine ⟨slice b e.size (b.size - e.size), ext_byte ?_ fun i below => ?_⟩
    · rw [Array.size_append, size_slice]
      omega
    · rw [byte_append]
      split
      next here =>
        rw [whole] at here
        exact heads.same written here
      next beyond =>
        rw [byte_slice (by omega) (by omega)]
        congr 1
        omega
  · rintro ⟨rest, rfl⟩
    exact written.append rest

/-! ## Reading -/

/-- What the readers of a standard format make of a byte string, one after another. -/
theorem decode_eq (standard : format.Standard) (b : Bytes) :
    decode b format =
      if b.size < headSize ∨ b.size - headSize < natAt b 12 8 then .error .truncated
      else .ok ⟨UInt32.ofNat (natAt b 0 4), UInt64.ofNat (natAt b 4 8),
        slice b headSize (natAt b 12 8)⟩ := by
  have size : headSize = 20 := rfl
  simp only [decode, standard.length, Codec.asLength, bind, Except.bind]
  rcases Nat.lt_or_ge b.size 4 with short | there
  · rw [standard.u32.ends b 0 (by omega), if_pos (by omega)]
  obtain ⟨worker, readWorker, workerValue⟩ := standard.u32.reads b 0 (by omega)
  rw [readWorker]
  dsimp only
  rcases Nat.lt_or_ge b.size 12 with short | there
  · rw [standard.u64.ends b _ (by omega), if_pos (by omega)]
  obtain ⟨seq, readSeq, seqValue⟩ := standard.u64.reads b 4 (by omega)
  rw [readSeq]
  dsimp only
  rcases Nat.lt_or_ge b.size 20 with short | there
  · rw [standard.u64.ends b _ (by omega), if_pos (by omega)]
    rfl
  obtain ⟨length, readLength, lengthValue⟩ := standard.u64.reads b 12 (by omega)
  rw [readLength]
  simp only [Except.map]
  rw [standard.u8.readMany (by omega), lengthValue]
  by_cases past : b.size < 20 + natAt b 12 8
  · rw [if_pos past, if_pos (by omega)]
  · rw [if_neg past, if_neg (by omega)]
    simp only [standard.remain]
    rw [← workerValue, ← seqValue, UInt32.ofNat_toNat, UInt64.ofNat_toNat]
    simp [pure, Except.pure, size]

theorem decode_isOk_iff (standard : format.Standard) : (∃ r, decode b format = .ok r) ↔
    headSize ≤ b.size ∧ natAt b 12 8 ≤ b.size - headSize := by
  rw [decode_eq standard]
  constructor
  · rintro ⟨r, read⟩
    split at read
    · cases read
    next enough => omega
  · rintro ⟨head, payload⟩
    rw [if_neg (by omega)]
    exact ⟨_, rfl⟩

theorem heads_of_decode (standard : format.Standard) (read : decode b format = .ok r) :
    r.payload.size ≤ Limit.word ∧ r.Heads b := by
  obtain ⟨head, payload⟩ := (decode_isOk_iff standard).mp ⟨r, read⟩
  rw [decode_eq standard, if_neg (by omega)] at read
  have worker : r.worker.toNat = natAt b 0 4 := by
    have fits := natAt_shift b 0 4
    rw [← Except.ok.inj read]
    exact UInt32.toNat_ofNat_of_lt (n := natAt b 0 4) (by rw [UInt32.size]; omega)
  have seq : r.seq.toNat = natAt b 4 8 := by
    have fits := natAt_shift b 4 8
    rw [← Except.ok.inj read]
    exact UInt64.toNat_ofNat_of_lt (n := natAt b 4 8) (by rw [UInt64.size]; omega)
  have rest : r.payload = slice b headSize (natAt b 12 8) := by rw [← Except.ok.inj read]
  have size : r.payload.size = natAt b 12 8 := by
    rw [rest, size_slice]
    omega
  have length := natAt_shift b 12 8
  refine ⟨by rw [Limit.word]; omega, ?_⟩
  constructor
  case size => omega
  case worker =>
    rw [worker]
    exact lays_natAt b 0 4
  case seq =>
    rw [seq]
    exact lays_natAt b 4 8
  case length =>
    rw [size]
    exact lays_natAt b 12 8
  case payload =>
    intro i below
    rw [rest, byte_slice (by omega) (by omega)]

theorem Heads.decode (standard : format.Standard) (heads : r.Heads b)
    (fits : r.payload.size ≤ Limit.word) : decode b format = .ok r := by
  have size := heads.size
  have small := r.worker.toNat_lt
  have smaller := r.seq.toNat_lt
  have fits : r.payload.size ≤ 18446744073709551615 := fits
  have worker := (lays_iff (by omega)).mp heads.worker
  have seq := (lays_iff (by omega)).mp heads.seq
  have length := (lays_iff (by omega)).mp heads.length
  have payload : slice b headSize r.payload.size = r.payload := by
    refine ext_byte (by rw [size_slice]; omega) fun i below => ?_
    rw [size_slice] at below
    rw [byte_slice size (by omega)]
    exact heads.payload i (by omega)
  rw [decode_eq standard, length, if_neg (by omega), worker, seq, payload,
    UInt32.ofNat_toNat, UInt64.ofNat_toNat]

theorem decode_error (read : ∀ r, decode b format ≠ .ok r) :
    decode b format = .error .truncated := by
  cases answered : decode b format with
  | ok r => exact absurd answered (read r)
  | error e =>
    cases e
    rfl

/-- A row is not complete before its last byte. -/
theorem decode_part (standard : format.Standard) (fits : r.payload.size ≤ Limit.word) {n : Nat}
    (part : n < (r.encode format).size) :
    decode ((r.encode format).extract 0 n) format = .error .truncated := by
  apply decode_error
  intro found read
  obtain ⟨fitsFound, heads⟩ := heads_of_decode standard read
  -- what the part begins with, the whole begins with
  have whole := heads.append ((r.encode format).extract n (r.encode format).size)
  rw [Array.extract_append_extract, Nat.zero_min, Nat.max_eq_right (Nat.le_of_lt part),
    Array.extract_size] at whole
  have same := (whole.decode standard fitsFound).symm.trans
    ((heads_encode standard fits).decode standard fits)
  cases same
  have short := heads.size
  rw [← size_encode standard fits, Array.size_extract] at short
  omega

/-- In a standard format, a row is written with its numbers in their places, and is read from every
byte string that begins with it, but from no part of it. What can be read is what is long enough for
the length that it promises, and it begins with the row that is read. The length of a payload has 64
bits. -/
theorem reads_what_begins_with_row (standard : format.Standard) (r : Row)
    (fits : r.payload.size ≤ Limit.word) :
    (r.encode format).size = 20 + r.payload.size ∧ r.Heads (r.encode format) ∧
      (∀ rest, decode (r.encode format ++ rest) format = .ok r) ∧
      (∀ n < (r.encode format).size,
        decode ((r.encode format).extract 0 n) format = .error .truncated) ∧
      ∀ b, ((∃ row, decode b format = .ok row) ↔ 20 ≤ b.size ∧ natAt b 12 8 ≤ b.size - 20) ∧
        ∀ row, decode b format = .ok row → ∃ rest, b = row.encode format ++ rest := by
  have written := heads_encode standard fits
  refine ⟨size_encode standard fits, written, fun rest => ?_,
    fun n part => decode_part standard fits part,
    fun b => ⟨decode_isOk_iff standard, fun row read => ?_⟩⟩
  · exact (written.append rest).decode standard fits
  · obtain ⟨fitsRow, heads⟩ := heads_of_decode standard read
    exact (heads_iff standard fitsRow).mp heads

/-- A row with two bytes of payload takes 22 bytes, and 21 of them are no row. Neither are 20 bytes
that promise as many more as can be. -/
theorem small_row_is_read :
    RowFormat.fixedWidth.Standard ∧ (Row.mk 7 300 #[9, 8]).payload.size ≤ Limit.word ∧
      encode ⟨7, 300, #[9, 8]⟩ .fixedWidth =
        #[7, 0, 0, 0, 44, 1, 0, 0, 0, 0, 0, 0, 2, 0, 0, 0, 0, 0, 0, 0, 9, 8] ∧
      decode (encode ⟨7, 300, #[9, 8]⟩ .fixedWidth ++ #[5]) .fixedWidth =
        .ok ⟨7, 300, #[9, 8]⟩ ∧
      decode ((encode ⟨7, 300, #[9, 8]⟩ .fixedWidth).extract 0 21) .fixedWidth =
        .error .truncated ∧
      ¬∃ row, decode (Array.replicate 20 255) .fixedWidth = .ok row := by
  have fits : (Row.mk 7 300 #[9, 8]).payload.size ≤ Limit.word := by decide
  obtain ⟨_, _, reads, parts, all⟩ :=
    reads_what_begins_with_row RowFormat.standard_fixedWidth ⟨7, 300, #[9, 8]⟩ fits
  refine ⟨RowFormat.standard_fixedWidth, fits, by decide, reads #[5], parts 21 (by decide), ?_⟩
  rw [(all _).1]
  decide

end Row

end TransactionalPages
