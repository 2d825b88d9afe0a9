import UdpArq.Lib.BigEndian
import Mathlib.Data.Nat.Bitwise
import Mathlib.Data.Nat.ModEq
import Mathlib.Data.Nat.Prime.Basic

/-!
# Error bursts

An error pattern is the byte string whose set bits are the changed bits.  Read
as numbers, a byte string and its damaged copy differ by the exclusive or with
the pattern.  A burst of at most `w - 1` consecutive positions is a short number
shifted to the left, and therefore changes the residue modulo `2 ^ w - 1`
wherever it lies.
-/

namespace UdpArq

/-! ## Bursts in numbers -/

theorem xor_mul_two_pow (x m k : ℕ) :
    x ^^^ m * 2 ^ k = 2 ^ k * (x / 2 ^ k ^^^ m) + x % 2 ^ k := by
  have hhigh : (x ^^^ m * 2 ^ k) / 2 ^ k = x / 2 ^ k ^^^ m := by
    rw [Nat.xor_div_two_pow, Nat.mul_div_cancel _ (Nat.two_pow_pos k)]
  have hlow : (x ^^^ m * 2 ^ k) % 2 ^ k = x % 2 ^ k := by
    rw [Nat.xor_mod_two_pow, Nat.mul_mod_left, Nat.xor_zero]
  rw [← hhigh, ← hlow, Nat.div_add_mod]

/-- Changing some of the last `L` bits moves a number by a distance below
`2 ^ L`. -/
theorem xor_short {m L : ℕ} (hpos : 0 < m) (hm : m < 2 ^ L) (y : ℕ) :
    ∃ d, 0 < d ∧ d < 2 ^ L ∧ ((y ^^^ m) = y + d ∨ (y ^^^ m) + d = y) := by
  have hhigh : (y ^^^ m) / 2 ^ L = y / 2 ^ L := by
    rw [Nat.xor_div_two_pow, Nat.div_eq_of_lt hm, Nat.xor_zero]
  have hold := Nat.div_add_mod y (2 ^ L)
  have hnew := Nat.div_add_mod (y ^^^ m) (2 ^ L)
  rw [hhigh] at hnew
  have hu : y % 2 ^ L < 2 ^ L := Nat.mod_lt _ (Nat.two_pow_pos L)
  have hv : (y ^^^ m) % 2 ^ L < 2 ^ L := Nat.mod_lt _ (Nat.two_pow_pos L)
  have hne : (y ^^^ m) ≠ y := by
    intro heq
    have hzero : m = 0 := by
      calc m = y ^^^ y ^^^ m := by rw [Nat.xor_self, Nat.zero_xor]
        _ = y ^^^ (y ^^^ m) := Nat.xor_assoc y y m
        _ = 0 := by rw [heq, Nat.xor_self]
    exact hpos.ne' hzero
  rcases Nat.lt_or_gt_of_ne hne with hlt | hgt
  · exact ⟨y - (y ^^^ m), by omega, by omega, Or.inr (by omega)⟩
  · exact ⟨(y ^^^ m) - y, by omega, by omega, Or.inl (by omega)⟩

/-- A number is not moved within its residue class modulo `2 ^ w - 1` by a
distance of less than `2 ^ w - 1` units of a power of two. -/
theorem not_modEq_add_two_pow_mul {d w : ℕ} (hpos : 0 < d)
    (hd : d < 2 ^ w - 1) (hw : 0 < w) (x k : ℕ) :
    ¬ x + 2 ^ k * d ≡ x [MOD 2 ^ w - 1] := by
  intro hmod
  have hzero : 2 ^ k * d ≡ 0 [MOD 2 ^ w - 1] :=
    Nat.ModEq.add_left_cancel' x hmod
  have hodd : Odd (2 ^ w - 1) :=
    Nat.Even.sub_odd Nat.one_le_two_pow (Nat.even_pow.mpr ⟨even_two, hw.ne'⟩)
      odd_one
  have hcoprime : Nat.Coprime (2 ^ w - 1) (2 ^ k) :=
    hodd.coprime_two_right.pow_right k
  have hdvd : 2 ^ w - 1 ∣ d :=
    hcoprime.dvd_of_dvd_mul_left (Nat.modEq_zero_iff_dvd.mp hzero)
  exact absurd (Nat.le_of_dvd hpos hdvd) (not_le.mpr hd)

/-- A burst within `L < w` positions, wherever it lies, changes the residue
modulo `2 ^ w - 1`. -/
theorem xor_burst_not_modEq {m L w : ℕ} (hpos : 0 < m) (hm : m < 2 ^ L)
    (hL : L < w) (x k : ℕ) : ¬ (x ^^^ m * 2 ^ k) ≡ x [MOD 2 ^ w - 1] := by
  obtain ⟨d, hd, hdL, hmoved⟩ := xor_short hpos hm (x / 2 ^ k)
  have hdw : d < 2 ^ w - 1 := by
    have hpow : 2 ^ (L + 1) ≤ 2 ^ w := Nat.pow_le_pow_right (by decide) hL
    rw [pow_succ] at hpow
    omega
  have hw : 0 < w := Nat.zero_lt_of_lt hL
  have hsplit := Nat.div_add_mod x (2 ^ k)
  have hnew := xor_mul_two_pow x m k
  rcases hmoved with hup | hdown
  · have hsum : (x ^^^ m * 2 ^ k) = x + 2 ^ k * d := by
      rw [hnew, hup, Nat.mul_add]
      omega
    rw [hsum]
    exact not_modEq_add_two_pow_mul hd hdw hw x k
  · have hsum : x = (x ^^^ m * 2 ^ k) + 2 ^ k * d := by
      rw [← hdown, Nat.mul_add] at hsplit
      omega
    intro hmod
    apply not_modEq_add_two_pow_mul hd hdw hw (x ^^^ m * 2 ^ k) k
    rw [← hsum]
    exact hmod.symm

/-! ## Bursts in byte strings -/

/-- The exclusive or of two byte strings of the same length. -/
def xorBytes (buf pattern : Bytes) : Bytes :=
  List.zipWith (fun a b => a ^^^ b) buf pattern

/-- Bit `i` of a byte string in network order: the most significant bit of the
first byte comes first. -/
def networkBit (buf : Bytes) (i : ℕ) : Bool :=
  (buf.getD (i / 8) 0).toNat.testBit (7 - i % 8)

theorem pow_256 (n : ℕ) : 256 ^ n = 2 ^ (8 * n) := by
  rw [pow_mul]
  rfl

theorem fromBE_cons (b : UInt8) (bs : Bytes) :
    fromBE (b :: bs) = 2 ^ (8 * bs.length) * b.toNat + fromBE bs := by
  rw [fromBE, pow_256, mul_comm]

theorem fromBE_lt_two_pow (bs : Bytes) : fromBE bs < 2 ^ (8 * bs.length) := by
  rw [← pow_256]
  exact fromBE_lt bs

theorem fromBE_pos {bs : Bytes} (h : ∃ b ∈ bs, b ≠ 0) : 0 < fromBE bs := by
  induction bs with
  | nil => simp at h
  | cons b bs ih =>
      rw [fromBE_cons]
      by_cases hb : b = 0
      · obtain ⟨c, hc, hne⟩ := h
        rcases List.mem_cons.mp hc with rfl | hrest
        · exact absurd hb hne
        · exact Nat.add_pos_right _ (ih ⟨c, hrest, hne⟩)
      · have hpos : 0 < b.toNat := by
          rw [Nat.pos_iff_ne_zero]
          exact fun hzero => hb (UInt8.toNat_inj.mp hzero)
        exact Nat.add_pos_left (Nat.mul_pos (Nat.two_pow_pos _) hpos) _

/-- The number spelled by an exclusive or. -/
theorem fromBE_xorBytes :
    ∀ {buf pattern : Bytes}, pattern.length = buf.length →
      fromBE (xorBytes buf pattern) = fromBE buf ^^^ fromBE pattern
  | [], [], _ => rfl
  | a :: as, b :: bs, hlen => by
      have hrest : bs.length = as.length := by simpa using hlen
      have hzip : (xorBytes as bs).length = as.length := by
        simp [xorBytes, hrest]
      have ih := fromBE_xorBytes hrest
      have hcons : xorBytes (a :: as) (b :: bs) = (a ^^^ b) :: xorBytes as bs :=
        rfl
      have hlt := fromBE_lt_two_pow as
      have hlt' := fromBE_lt_two_pow bs
      rw [hrest] at hlt'
      rw [hcons, fromBE_cons, fromBE_cons, fromBE_cons, ih, hzip, hrest,
        UInt8.toNat_xor]
      apply Nat.eq_of_testBit_eq
      intro j
      rw [Nat.testBit_xor, Nat.testBit_two_pow_mul_add _ hlt,
        Nat.testBit_two_pow_mul_add _ hlt',
        Nat.testBit_two_pow_mul_add _ (Nat.xor_lt_two_pow hlt hlt')]
      split <;> rw [Nat.testBit_xor]

/-- Network order counts from the most significant bit of the number. -/
theorem networkBit_eq_testBit {buf : Bytes} {i : ℕ} (hi : i < 8 * buf.length) :
    networkBit buf i = (fromBE buf).testBit (8 * buf.length - 1 - i) := by
  induction buf generalizing i with
  | nil => simp at hi
  | cons b bs ih =>
      rw [fromBE_cons, Nat.testBit_two_pow_mul_add _ (fromBE_lt_two_pow bs)]
      rw [List.length_cons] at hi ⊢
      by_cases hfirst : i < 8
      · have hdiv : i / 8 = 0 := Nat.div_eq_of_lt hfirst
        have hmod : i % 8 = i := Nat.mod_eq_of_lt hfirst
        have hplace : 8 * (bs.length + 1) - 1 - i - 8 * bs.length = 7 - i := by
          omega
        rw [if_neg (by omega), hplace, networkBit, hdiv, hmod]
        rfl
      · have hdiv : i / 8 = (i - 8) / 8 + 1 := by omega
        have hmod : i % 8 = (i - 8) % 8 := by omega
        have hplace : 8 * (bs.length + 1) - 1 - i =
            8 * bs.length - 1 - (i - 8) := by omega
        rw [if_pos (by omega), hplace, ← ih (by omega), networkBit, hdiv, hmod]
        rfl

theorem networkBit_lt {buf : Bytes} {i : ℕ} (hi : networkBit buf i = true) :
    i < 8 * buf.length := by
  by_contra hout
  have hnone : buf[i / 8]? = none := by
    rw [List.getElem?_eq_none_iff]
    omega
  simp [networkBit, List.getD_eq_getElem?_getD, hnone] at hi

/-- Every set bit of the number has its place in the byte string. -/
theorem networkBit_of_testBit {buf : Bytes} {j : ℕ}
    (hj : (fromBE buf).testBit j = true) :
    j < 8 * buf.length ∧ networkBit buf (8 * buf.length - 1 - j) = true := by
  have hlt : j < 8 * buf.length := by
    by_contra hge
    have hsmall : fromBE buf < 2 ^ j :=
      lt_of_lt_of_le (fromBE_lt_two_pow buf)
        (Nat.pow_le_pow_right (by decide) (not_lt.mp hge))
    rw [Nat.testBit_lt_two_pow hsmall] at hj
    cases hj
  have hi : 8 * buf.length - 1 - j < 8 * buf.length := by omega
  have hplace : 8 * buf.length - 1 - (8 * buf.length - 1 - j) = j := by omega
  rw [networkBit_eq_testBit hi, hplace]
  exact ⟨hlt, hj⟩

/-- All set bits lie within `L` consecutive positions. -/
def IsBurst (L : ℕ) (pattern : Bytes) : Prop :=
  ∃ start, ∀ i, networkBit pattern i = true → start ≤ i ∧ i < start + L

/-- A burst is a short number shifted to its place. -/
theorem IsBurst.fromBE_eq {L : ℕ} {pattern : Bytes} (h : IsBurst L pattern) :
    ∃ m k, m < 2 ^ L ∧ fromBE pattern = m * 2 ^ k := by
  obtain ⟨start, hwindow⟩ := h
  obtain ⟨k, hk⟩ : ∃ k, k = 8 * pattern.length - (start + L) := ⟨_, rfl⟩
  have hbit : ∀ j, (fromBE pattern).testBit j = true → k ≤ j ∧ j < L + k := by
    intro j hj
    obtain ⟨hlt, hnetwork⟩ := networkBit_of_testBit hj
    have hrange := hwindow _ hnetwork
    omega
  have hlow : fromBE pattern % 2 ^ k = 0 := by
    apply Nat.eq_of_testBit_eq
    intro j
    rw [Nat.testBit_mod_two_pow, Nat.zero_testBit, Bool.and_eq_false_imp]
    intro hj
    by_contra hset
    exact not_le.mpr (of_decide_eq_true hj)
      (hbit j (Bool.not_eq_false _ ▸ hset)).1
  have hhigh : fromBE pattern / 2 ^ k < 2 ^ L := by
    apply Nat.lt_pow_two_of_testBit
    intro j hj
    rw [Nat.testBit_div_two_pow]
    by_contra hset
    have hrange := hbit (j + k) (Bool.not_eq_false _ ▸ hset)
    omega
  refine ⟨fromBE pattern / 2 ^ k, k, hhigh, ?_⟩
  exact (Nat.div_mul_cancel (Nat.dvd_of_mod_eq_zero hlow)).symm

end UdpArq
