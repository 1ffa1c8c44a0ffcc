import Foyer.Basic
import Mathlib.Data.List.Basic

/-! # Buffers and big-endian fields

    A region's dirty buffer and a region's bytes on the device are modelled as
    total maps `Nat → UInt8` from offsets to bytes (`Buffer`); the region
    geometry, carried elsewhere, says which offsets exist. A slice handed to a
    parser (`&[u8]`) is a `List UInt8` cut out of a buffer by `readBytes`, and
    writing through a `WriteSlice` is `writeBytes`.

    Entry and region headers use the `bytes` crate: `put_u32` and `put_u64`
    write big-endian, and `get_u32`, `get_u64` read big-endian from the front
    of a slice and advance it, panicking when too few bytes remain. -/

namespace Foyer

/-! ## Section 1: Buffers -/

/-- Bytes of a region, by offset. -/
def Buffer := Nat → UInt8

/-- The buffer of zero bytes. -/
def Buffer.zero : Buffer := fun _ => 0

/-- The slice `buf[start..start + len]`. -/
def readBytes (b : Buffer) (start len : Nat) : List UInt8 :=
  (List.range len).map fun i => b (start + i)

/-- `b` with `bs` copied to `start..start + bs.length`. -/
def writeBytes (b : Buffer) (start : Nat) (bs : List UInt8) : Buffer :=
  fun i => if start ≤ i then bs.getD (i - start) (b i) else b i

section buffer
variable {b : Buffer} {s s' n m : Nat} {bs : List UInt8}

@[simp] theorem length_readBytes : (readBytes b s n).length = n := by simp [readBytes]

theorem readBytes_add : readBytes b s (n + m) = readBytes b s n ++ readBytes b (s + n) m := by
  simp [readBytes, List.range_add, Function.comp_def, Nat.add_assoc]

theorem getElem_readBytes {i : Nat} (h : i < (readBytes b s n).length) :
    (readBytes b s n)[i] = b (s + i) := by simp [readBytes]

theorem readBytes_ext {b b' : Buffer} (h : ∀ i, s ≤ i → i < s + n → b i = b' i) :
    readBytes b s n = readBytes b' s n := by
  simp only [readBytes, List.map_inj_left, List.mem_range]
  intro i hi; exact h _ (by omega) (by omega)

theorem writeBytes_apply_of_lt (h : i < s ∨ s + bs.length ≤ i) : writeBytes b s bs i = b i := by
  unfold writeBytes; split
  · rw [List.getD_eq_getElem?_getD, List.getElem?_eq_none (by omega)]; rfl
  · rfl

theorem writeBytes_apply_of_mem {i : Nat} (h₁ : s ≤ i) (h₂ : i < s + bs.length) :
    writeBytes b s bs i = bs.get ⟨i - s, by omega⟩ := by
  simp [writeBytes, h₁, List.getD_eq_getElem?_getD, List.getElem?_eq_getElem (show i - s < bs.length by omega)]

/-- Reading back what was just written. -/
@[simp] theorem readBytes_writeBytes_self : readBytes (writeBytes b s bs) s bs.length = bs := by
  apply List.ext_getElem (by simp)
  intro i h₁ _
  rw [getElem_readBytes, writeBytes_apply_of_mem (by omega) (by simp at h₁; omega)]
  simp

/-- A read of a range disjoint from the written one sees the old bytes. -/
theorem readBytes_writeBytes_of_disjoint (h : s' + n ≤ s ∨ s + bs.length ≤ s') :
    readBytes (writeBytes b s bs) s' n = readBytes b s' n :=
  readBytes_ext fun _ _ _ => writeBytes_apply_of_lt (by omega)

/-- A read inside the written range sees a piece of what was written. -/
theorem readBytes_writeBytes_inner {k : Nat} (h : k + n ≤ bs.length) :
    readBytes (writeBytes b s bs) (s + k) n = (bs.drop k).take n := by
  apply List.ext_getElem (by simp; omega)
  intro i h₁ _
  rw [getElem_readBytes, writeBytes_apply_of_mem (by omega) (by simp at h₁; omega)]
  simp [Nat.add_assoc, Nat.add_sub_cancel_left]

theorem take_readBytes : (readBytes b s n).take m = readBytes b s (min m n) := by
  simp [readBytes, ← List.map_take, List.take_range]

theorem drop_readBytes : (readBytes b s n).drop m = readBytes b (s + m) (n - m) := by
  apply List.ext_getElem (by simp)
  intro i _ _
  simp [getElem_readBytes, Nat.add_assoc]

/-- A piece of a read is a read of the piece. -/
theorem readBytes_of_readBytes {l : List UInt8} {d : Nat} (h : readBytes b s n = l)
    (hm : d + m ≤ n) : readBytes b (s + d) m = (l.drop d).take m := by
  rw [← h, drop_readBytes, take_readBytes, Nat.min_eq_left (by omega)]

@[simp] theorem writeBytes_nil : writeBytes b s [] = b := by
  funext i; simp [writeBytes]

/-- Two writes end to end are one write. -/
theorem writeBytes_append (x y : List UInt8) :
    writeBytes (writeBytes b s x) (s + x.length) y = writeBytes b s (x ++ y) := by
  funext i
  by_cases h₁ : i < s
  · simp [writeBytes, show ¬ s ≤ i by omega, show ¬ s + x.length ≤ i by omega]
  by_cases h₂ : i < s + x.length
  · simp only [writeBytes, show ¬ s + x.length ≤ i by omega, if_true, show s ≤ i by omega,
      List.getD_eq_getElem?_getD, List.getElem?_append_left (show i - s < x.length by omega), ite_false]
  · simp only [writeBytes, show s + x.length ≤ i by omega, show s ≤ i by omega, if_true,
      List.getD_eq_getElem?_getD, List.getElem?_append_right (show x.length ≤ i - s by omega),
      List.getElem?_eq_none (show x.length ≤ i - s by omega), Option.getD_none]
    congr 2; omega

end buffer

/-! ## Section 2: Big-endian fields -/

/-- The `w` big-endian bytes of `n`, most significant first; bits above
    `8 * w` are dropped. -/
def putBE : Nat → Nat → List UInt8
  | 0, _ => []
  | w + 1, n => putBE w (n / 256) ++ [UInt8.ofNat (n % 256)]

/-- The natural number with the given big-endian bytes. -/
def getBE (l : List UInt8) : Nat := l.foldl (fun acc x => acc * 256 + x.toNat) 0

@[simp] theorem length_putBE (w n : Nat) : (putBE w n).length = w := by
  induction w generalizing n with
  | zero => rfl
  | succ w ih => simp [putBE, ih]

theorem getBE_append_singleton (l : List UInt8) (x : UInt8) :
    getBE (l ++ [x]) = getBE l * 256 + x.toNat := by
  simp [getBE, List.foldl_append]

theorem getBE_putBE (w n : Nat) : getBE (putBE w n) = n % 256 ^ w := by
  induction w generalizing n with
  | zero => simp [putBE, getBE, Nat.mod_one]
  | succ w ih =>
    rw [putBE, getBE_append_singleton, ih, UInt8.toNat_ofNat_mod,
      show n % 256 % 2 ^ 8 = n % 256 by omega, Nat.pow_succ', Nat.mod_mul]
    omega

theorem getBE_lt (l : List UInt8) : getBE l < 256 ^ l.length := by
  induction l using List.reverseRecOn with
  | nil => simp [getBE]
  | append_singleton l x ih =>
    rw [getBE_append_singleton, List.length_append, List.length_singleton, Nat.pow_succ]
    have : x.toNat < 256 := x.toNat_lt_size
    omega

/-- `BufMut::put_u32`. -/
def putU32 (x : UInt32) : List UInt8 := putBE 4 x.toNat

/-- `BufMut::put_u64`. -/
def putU64 (x : UInt64) : List UInt8 := putBE 8 x.toNat

/-- `Buf::get_u32` on a byte slice: the big-endian `u32` at its front and the
    rest; it panics on fewer than four bytes. -/
def getU32 (buf : List UInt8) : Res (UInt32 × List UInt8) :=
  if buf.length < 4 then .panic else .ok (UInt32.ofNat (getBE (buf.take 4)), buf.drop 4)

/-- `Buf::get_u64` on a byte slice. -/
def getU64 (buf : List UInt8) : Res (UInt64 × List UInt8) :=
  if buf.length < 8 then .panic else .ok (UInt64.ofNat (getBE (buf.take 8)), buf.drop 8)

@[simp] theorem length_putU32 (x : UInt32) : (putU32 x).length = 4 := length_putBE _ _

@[simp] theorem length_putU64 (x : UInt64) : (putU64 x).length = 8 := length_putBE _ _

theorem getBE_putU32 (x : UInt32) : getBE (putU32 x) = x.toNat := by
  have : x.toNat < 256 ^ 4 := x.toNat_lt_size
  rw [putU32, getBE_putBE, Nat.mod_eq_of_lt this]

theorem getBE_putU64 (x : UInt64) : getBE (putU64 x) = x.toNat := by
  have : x.toNat < 256 ^ 8 := x.toNat_lt_size
  rw [putU64, getBE_putBE, Nat.mod_eq_of_lt this]

@[simp] theorem getU32_putU32 (x : UInt32) (rest : List UInt8) :
    getU32 (putU32 x ++ rest) = .ok (x, rest) := by
  unfold getU32
  rw [List.take_left' (length_putU32 x), List.drop_left' (length_putU32 x), getBE_putU32,
    if_neg (by simp)]
  congr; apply UInt32.toNat.inj
  rw [UInt32.toNat_ofNat_mod]; exact Nat.mod_eq_of_lt x.toNat_lt_size

@[simp] theorem getU64_putU64 (x : UInt64) (rest : List UInt8) :
    getU64 (putU64 x ++ rest) = .ok (x, rest) := by
  unfold getU64
  rw [List.take_left' (length_putU64 x), List.drop_left' (length_putU64 x), getBE_putU64,
    if_neg (by simp)]
  congr; apply UInt64.toNat.inj
  rw [UInt64.toNat_ofNat_mod]; exact Nat.mod_eq_of_lt x.toNat_lt_size

theorem putBE_getBE (l : List UInt8) : putBE l.length (getBE l) = l := by
  induction l using List.reverseRecOn with
  | nil => rfl
  | append_singleton l x ih =>
    have hx : x.toNat < 256 := x.toNat_lt_size
    rw [List.length_append, List.length_singleton, putBE, getBE_append_singleton,
      show (getBE l * 256 + x.toNat) / 256 = getBE l by omega,
      show (getBE l * 256 + x.toNat) % 256 = x.toNat by omega, ih]
    congr; exact UInt8.toNat.inj (by simp [Nat.mod_eq_of_lt hx])

/-- What `get_u32` read, put back in front of what it left, is the slice it
    read from. -/
theorem putU32_of_getU32 {buf rest : List UInt8} {x : UInt32} (h : getU32 buf = .ok (x, rest)) :
    putU32 x ++ rest = buf := by
  unfold getU32 at h
  split at h
  · cases h
  · cases h
    have hl : (buf.take 4).length = 4 := by simp; omega
    have hb := putBE_getBE (buf.take 4)
    rw [hl] at hb
    rw [putU32, UInt32.toNat_ofNat_mod,
      Nat.mod_eq_of_lt (by have := getBE_lt (buf.take 4); rw [hl] at this; exact this), hb,
      List.take_append_drop]

theorem putU64_of_getU64 {buf rest : List UInt8} {x : UInt64} (h : getU64 buf = .ok (x, rest)) :
    putU64 x ++ rest = buf := by
  unfold getU64 at h
  split at h
  · cases h
  · cases h
    have hl : (buf.take 8).length = 8 := by simp; omega
    have hb := putBE_getBE (buf.take 8)
    rw [hl] at hb
    rw [putU64, UInt64.toNat_ofNat_mod,
      Nat.mod_eq_of_lt (by have := getBE_lt (buf.take 8); rw [hl] at this; exact this), hb,
      List.take_append_drop]

end Foyer
