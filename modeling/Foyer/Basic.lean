import Mathlib.Data.Nat.Defs
import Mathlib.Order.Basic
import Mathlib.Algebra.Order.Ring.Nat

/-! # Foyer storage: results, machine integers and alignment

    The storage engine of foyer is written against three small pieces of
    vocabulary that every later module shares:

    * `Res`, the outcome of a Rust call: a value, an `Err` of the crate's
      `Error`, or a panic (an `unwrap` on `None`, an out-of-range slice, a
      failed `assert!`). A panic is kept apart from an `Err` because callers
      such as `GenericStore::lookup` react to an `Err` and never see a panic.
    * the wrap-around arithmetic of `u32` and `u64`, read through `toNat`
      (release builds: overflow wraps);
    * `bits::align_up` and `bits::align_down` of foyer-common.

    Quantities of Rust type `usize` (offsets, lengths, counters) are `Nat`:
    they index a region of at most a few gigabytes and never come near
    `2 ^ 64`. -/

/-! ## Section 1: Wrap-around arithmetic of `u8`, `u32` and `u64` -/

@[simp] theorem UInt8.toNat_ofNat_mod (n : Nat) : (UInt8.ofNat n).toNat = n % 2 ^ 8 := by
  simp [UInt8.toNat, UInt8.ofNat, BitVec.toNat_ofNat]

@[simp] theorem UInt32.toNat_ofNat_mod (n : Nat) : (UInt32.ofNat n).toNat = n % 2 ^ 32 := by
  simp [UInt32.toNat, UInt32.ofNat, BitVec.toNat_ofNat]

@[simp] theorem UInt64.toNat_ofNat_mod (n : Nat) : (UInt64.ofNat n).toNat = n % 2 ^ 64 := by
  simp [UInt64.toNat, UInt64.ofNat, BitVec.toNat_ofNat]

@[simp] theorem UInt32.toNat_add_mod (a b : UInt32) :
    (a + b).toNat = (a.toNat + b.toNat) % 2 ^ 32 := by
  simp [UInt32.toNat, UInt32.add_def, BitVec.toNat_add]

@[simp] theorem UInt64.toNat_add_mod (a b : UInt64) :
    (a + b).toNat = (a.toNat + b.toNat) % 2 ^ 64 := by
  simp [UInt64.toNat, UInt64.add_def, BitVec.toNat_add]

theorem UInt32.eq_iff_toNat_eq {a b : UInt32} : a = b ↔ a.toNat = b.toNat :=
  ⟨congrArg _, UInt32.toNat.inj⟩

theorem UInt64.eq_iff_toNat_eq {a b : UInt64} : a = b ↔ a.toNat = b.toNat :=
  ⟨congrArg _, UInt64.toNat.inj⟩

theorem UInt64.lt_iff_toNat_lt {a b : UInt64} : a < b ↔ a.toNat < b.toNat := by
  simp [UInt64.lt_def, UInt64.toNat, BitVec.lt_def]

theorem UInt64.le_iff_toNat_le {a b : UInt64} : a ≤ b ↔ a.toNat ≤ b.toNat := by
  simp [UInt64.le_def, UInt64.toNat, BitVec.le_def]

namespace Foyer

/-! ## Section 2: Errors and results -/

/-- The errors the modelled code returns with `Err`. -/
inductive Error where
  /-- An I/O error of the device. -/
  | device
  /-- A `CodingError` of a key or value codec or of a decompressor. -/
  | coding
  /-- `Compression::try_from` on a byte that is no compression tag. -/
  | compression (tag : UInt8)
  /-- The `anyhow!` error "magic mismatch, expected: {}, got: {}". `read_entry`
      raises it for a wrong entry magic and, with the same text, for a wrong
      checksum. -/
  | magicMismatch (expected got : Nat)
  deriving DecidableEq, Repr

/-- The outcome of a Rust call: `Ok`, `Err`, or a panic. -/
inductive Res (α : Type) where
  | ok (a : α)
  | err (e : Error)
  | panic
  deriving DecidableEq, Repr

namespace Res

/-- `?` and sequencing: an `Err` or a panic ends the computation. -/
def bind {α β : Type} : Res α → (α → Res β) → Res β
  | ok a, f => f a
  | err e, _ => err e
  | panic, _ => panic

instance : Monad Res where
  pure := ok
  bind := bind

@[simp] theorem ok_bind {α β : Type} (a : α) (f : α → Res β) : (ok a >>= f) = f a := rfl
@[simp] theorem err_bind {α β : Type} (e : Error) (f : α → Res β) : (err e >>= f) = err e := rfl
@[simp] theorem panic_bind {α β : Type} (f : α → Res β) : (panic >>= f) = panic := rfl
@[simp] theorem pure_eq {α : Type} (a : α) : (pure a : Res α) = ok a := rfl

@[simp] theorem bind_ok_left {α β : Type} (a : α) (f : α → Res β) : (ok a).bind f = f a := rfl

@[simp] theorem bind_ok {α : Type} (x : Res α) : x.bind ok = x := by cases x <;> rfl

theorem bind_bind {α β γ : Type} (x : Res α) (f : α → Res β) (g : β → Res γ) :
    (x.bind f).bind g = x.bind fun a => (f a).bind g := by
  cases x <;> rfl

theorem bind_eq_ok {α β : Type} {x : Res α} {f : α → Res β} {b : β} :
    (x >>= f) = ok b ↔ ∃ a, x = ok a ∧ f a = ok b := by
  cases x <;> simp

instance : LawfulMonad Res :=
  LawfulMonad.mk' Res (fun x => by cases x <;> rfl) (fun _ _ => rfl) (fun x _ _ => by cases x <;> rfl)

end Res

/-! ## Section 3: Alignment -/

/-- Modelled from the spec: `bits::align_up` of foyer-common is not among the
    sources. It rounds `v` up to a multiple of `align`, which is what its bit
    trick `(v + align - 1) & !(align - 1)` computes for a power-of-two `align`. -/
def alignUp (align v : Nat) : Nat := (v + align - 1) / align * align

/-- Modelled from the spec: `bits::align_down` rounds `v` down to a multiple
    of `align`. -/
def alignDown (align v : Nat) : Nat := v / align * align

section align
variable {a v m : Nat}

theorem dvd_alignUp : a ∣ alignUp a v := Nat.dvd_mul_left _ _

theorem dvd_alignDown : a ∣ alignDown a v := Nat.dvd_mul_left _ _

theorem le_alignUp (ha : 0 < a) : v ≤ alignUp a v := by
  have : v + a - 1 < _ := Nat.lt_div_mul_add ha
  unfold alignUp; omega

theorem alignDown_le : alignDown a v ≤ v := Nat.div_mul_le_self v a

/-- Rounding up never passes a multiple of `align` that lies above `v`. -/
theorem alignUp_le_of_dvd (ha : 0 < a) (hm : a ∣ m) (hv : v ≤ m) : alignUp a v ≤ m := by
  obtain ⟨k, rfl⟩ := hm
  have h : (v + a - 1) / a < k + 1 := by
    rw [Nat.div_lt_iff_lt_mul ha]; rw [Nat.add_mul, Nat.one_mul, Nat.mul_comm]; omega
  have : (v + a - 1) / a * a ≤ k * a := Nat.mul_le_mul_right _ (by omega)
  unfold alignUp; rw [Nat.mul_comm a k]; exact this

/-- Rounding down never passes a multiple of `align` that lies below `v`. -/
theorem le_alignDown_of_dvd (hm : a ∣ m) (hv : m ≤ v) : m ≤ alignDown a v := by
  rcases Nat.eq_zero_or_pos a with rfl | ha
  · obtain ⟨k, rfl⟩ := hm; simp
  obtain ⟨k, rfl⟩ := hm
  have : k ≤ v / a := (Nat.le_div_iff_mul_le ha).2 (by rw [Nat.mul_comm]; exact hv)
  unfold alignDown; rw [Nat.mul_comm a k]; exact Nat.mul_le_mul_right _ this

theorem alignUp_pos (ha : 0 < a) (hv : 0 < v) : a ≤ alignUp a v := by
  obtain ⟨k, hk⟩ : a ∣ alignUp a v := dvd_alignUp
  have : v ≤ alignUp a v := le_alignUp ha
  rcases k with _ | k
  · omega
  · rw [hk, Nat.mul_succ]; omega

end align

end Foyer
