import Mathlib.Data.Nat.Basic
import Mathlib.Tactic.Ring

/-!
# Big-endian fixed-width fields

Naturals as byte strings of a fixed length, most significant byte first.
-/

namespace UdpArq

/-- A byte string. -/
abbrev Bytes := List UInt8

/-- The `n` low-order bytes of `x`, most significant first. -/
def toBE : ℕ → ℕ → Bytes
  | 0, _ => []
  | n + 1, x => UInt8.ofNat (x / 256 ^ n) :: toBE n x

/-- The number that a byte string spells. -/
def fromBE : Bytes → ℕ
  | [] => 0
  | b :: bs => b.toNat * 256 ^ bs.length + fromBE bs

@[simp] theorem length_toBE (n x : ℕ) : (toBE n x).length = n := by
  induction n with
  | zero => rfl
  | succ n ih => simp [toBE, ih]

theorem toNat_ofNat_mod (x : ℕ) : (UInt8.ofNat x).toNat = x % 256 :=
  UInt8.toNat_ofNat'

theorem fromBE_lt (bs : Bytes) : fromBE bs < 256 ^ bs.length := by
  induction bs with
  | nil => simp [fromBE]
  | cons b bs ih =>
      have hb : b.toNat + 1 ≤ 256 := b.toNat_lt
      calc fromBE (b :: bs) < (b.toNat + 1) * 256 ^ bs.length := by
            rw [fromBE, add_mul, one_mul]
            omega
        _ ≤ 256 * 256 ^ bs.length := Nat.mul_le_mul_right _ hb
        _ = 256 ^ (b :: bs).length := by
            rw [List.length_cons, pow_succ, mul_comm]

theorem fromBE_toBE_mod (n x : ℕ) : fromBE (toBE n x) = x % 256 ^ n := by
  induction n with
  | zero => simp [toBE, fromBE, Nat.mod_one]
  | succ n ih =>
      have hpow : 256 ^ (n + 1) = 256 ^ n * 256 := pow_succ 256 n
      rw [toBE, fromBE, length_toBE, ih, toNat_ofNat_mod, hpow, Nat.mod_mul,
        mul_comm (256 ^ n), add_comm]

/-- Reading back a field that was wide enough. -/
theorem fromBE_toBE {n x : ℕ} (hx : x < 256 ^ n) : fromBE (toBE n x) = x := by
  rw [fromBE_toBE_mod, Nat.mod_eq_of_lt hx]

theorem toBE_add_mul (n k x : ℕ) : toBE n (k * 256 ^ n + x) = toBE n x := by
  induction n generalizing k with
  | zero => rfl
  | succ n ih =>
      have hhead : UInt8.ofNat ((k * 256 ^ (n + 1) + x) / 256 ^ n) =
          UInt8.ofNat (x / 256 ^ n) := by
        apply UInt8.toNat_inj.mp
        have hdiv : (k * 256 ^ (n + 1) + x) / 256 ^ n =
            x / 256 ^ n + 256 * k := by
          rw [show k * 256 ^ (n + 1) + x = x + 256 ^ n * (256 * k) by ring]
          exact Nat.add_mul_div_left _ _ (Nat.pow_pos (by decide))
        rw [toNat_ofNat_mod, toNat_ofNat_mod, hdiv]
        omega
      rw [toBE, toBE, hhead,
        show k * 256 ^ (n + 1) + x = k * 256 * 256 ^ n + x by ring, ih]

/-- Every byte string is the big-endian form of the number it spells. -/
theorem toBE_fromBE (bs : Bytes) : toBE bs.length (fromBE bs) = bs := by
  induction bs with
  | nil => rfl
  | cons b bs ih =>
      rw [List.length_cons, toBE, fromBE, toBE_add_mul, ih]
      congr 1
      apply UInt8.toNat_inj.mp
      have hpos : 0 < 256 ^ bs.length :=
        Nat.pow_pos (by decide)
      rw [toNat_ofNat_mod, mul_comm, Nat.mul_add_div hpos,
        Nat.div_eq_of_lt (fromBE_lt bs), add_zero]
      exact Nat.mod_eq_of_lt b.toNat_lt

end UdpArq
