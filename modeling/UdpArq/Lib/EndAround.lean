import Mathlib.Data.Nat.ModEq

/-!
# End-around-carry sums

Adding `w`-bit words and folding every carry back into the low end computes
with residues modulo `m = 2 ^ w - 1`, where the residue zero has two
representatives: `0`, reached only by the empty sum and by sums of zeros, and
`m`.  `canonical m s` is the representative that a folded sum ends up with.
-/

namespace UdpArq

/-- The folded form of the exact sum `s`: zero for zero, and otherwise the
residue of `s` modulo `m` in `1, ..., m`. -/
def canonical (m s : ℕ) : ℕ := if s = 0 then 0 else (s - 1) % m + 1

/-- Fold the part of `u` above the word back into the word. -/
def foldOnce (m u : ℕ) : ℕ := u % (m + 1) + u / (m + 1)

theorem canonical_zero (m : ℕ) : canonical m 0 = 0 := if_pos rfl

theorem canonical_pos {m s : ℕ} (hs : 0 < s) :
    canonical m s = (s - 1) % m + 1 := if_neg (Nat.pos_iff_ne_zero.mp hs)

theorem canonical_le {m s : ℕ} (hm : 0 < m) : canonical m s ≤ m := by
  rcases Nat.eq_zero_or_pos s with rfl | hs
  · rw [canonical_zero]
    exact Nat.zero_le m
  · rw [canonical_pos hs]
    exact Nat.mod_lt _ hm

theorem canonical_modEq (m s : ℕ) : canonical m s ≡ s [MOD m] := by
  rcases Nat.eq_zero_or_pos s with rfl | hs
  · rw [canonical_zero]
  · rw [canonical_pos hs]
    have hmod : (s - 1) % m + 1 ≡ s - 1 + 1 [MOD m] :=
      (Nat.mod_modEq (s - 1) m).add_right 1
    rwa [Nat.sub_add_cancel hs] at hmod

/-- Folding once is enough for the sum of two words. -/
theorem foldOnce_eq {m u : ℕ} (hu : u ≤ 2 * m) :
    foldOnce m u = if u ≤ m then u else u - m := by
  unfold foldOnce
  split
  · rename_i hle
    rw [Nat.mod_eq_of_lt (by omega), Nat.div_eq_of_lt (by omega), add_zero]
  · rename_i hgt
    have hdiv : u / (m + 1) = 1 := by
      rw [Nat.div_eq_iff (by omega)]
      omega
    rw [Nat.mod_eq_sub_mod (by omega), Nat.mod_eq_of_lt (by omega), hdiv]
    omega

/-- Adding one word to a folded sum and folding again gives the folded form
of the longer exact sum. -/
theorem foldOnce_canonical_add {m s x : ℕ} (hm : 0 < m) (hx : x ≤ m) :
    foldOnce m (canonical m s + x) = canonical m (s + x) := by
  have hle : canonical m s ≤ m := canonical_le hm
  rw [foldOnce_eq (by omega)]
  rcases Nat.eq_zero_or_pos s with rfl | hs
  · simp only [canonical_zero, zero_add, if_pos hx]
    rcases Nat.eq_zero_or_pos x with rfl | hx0
    · rw [canonical_zero]
    · rw [canonical_pos hx0, Nat.mod_eq_of_lt (by omega)]
      omega
  · have hsum : 0 < s + x := by omega
    have hshift : s + x - 1 = s - 1 + x := by omega
    have hr : (s - 1) % m < m := Nat.mod_lt _ hm
    rw [canonical_pos hs, canonical_pos hsum, hshift, Nat.add_mod]
    generalize (s - 1) % m = r at hr
    rcases Nat.lt_or_ge x m with hxm | hxm
    · rw [Nat.mod_eq_of_lt hxm]
      split
      · rw [Nat.mod_eq_of_lt (by omega)]
        omega
      · rw [Nat.mod_eq_sub_mod (by omega), Nat.mod_eq_of_lt (by omega)]
        omega
    · have hxeq : x = m := by omega
      rw [hxeq, Nat.mod_self, add_zero, Nat.mod_eq_of_lt hr]
      split <;> omega

theorem canonical_of_le {m s : ℕ} (hs : s ≤ m) : canonical m s = s := by
  rcases Nat.eq_zero_or_pos s with rfl | hpos
  · exact canonical_zero m
  · rw [canonical_pos hpos, Nat.mod_eq_of_lt (by omega)]
    omega

/-- Folding keeps the residue. -/
theorem foldOnce_modEq (m u : ℕ) : foldOnce m u ≡ u [MOD m] := by
  have hsplit : foldOnce m u + m * (u / (m + 1)) = u := by
    have hdiv := Nat.mod_add_div u (m + 1)
    rw [Nat.add_mul, Nat.one_mul] at hdiv
    unfold foldOnce
    omega
  have hzero : m * (u / (m + 1)) ≡ 0 [MOD m] :=
    Nat.modEq_zero_iff_dvd.mpr (Nat.dvd_mul_right _ _)
  calc foldOnce m u
      ≡ foldOnce m u + m * (u / (m + 1)) [MOD m] := (hzero.symm.add_left _)
    _ ≡ u [MOD m] := by rw [hsplit]

/-- Folding a sum that has a carry makes it smaller but not zero. -/
theorem foldOnce_lt {m u : ℕ} (hm : 0 < m) (hu : m < u) :
    0 < foldOnce m u ∧ foldOnce m u < u := by
  have hdiv := Nat.mod_add_div u (m + 1)
  have hquot : 0 < u / (m + 1) := Nat.div_pos hu (Nat.succ_pos m)
  have hcarry : u / (m + 1) < (m + 1) * (u / (m + 1)) := by
    rw [Nat.add_mul, Nat.one_mul]
    exact Nat.lt_add_of_pos_left (Nat.mul_pos hm hquot)
  unfold foldOnce
  omega

/-- Sums of one residue that are both not zero fold to the same word. -/
theorem canonical_congr {m s s' : ℕ} (hs : 0 < s) (hs' : 0 < s')
    (h : s ≡ s' [MOD m]) : canonical m s = canonical m s' := by
  have hpred : s - 1 ≡ s' - 1 [MOD m] := by
    apply Nat.ModEq.add_right_cancel' 1
    rwa [Nat.sub_add_cancel hs, Nat.sub_add_cancel hs']
  rw [canonical_pos hs, canonical_pos hs', hpred]

/-- Folding a sum that has a carry keeps its folded form. -/
theorem canonical_foldOnce {m u : ℕ} (hm : 0 < m) (hu : m < u) :
    canonical m (foldOnce m u) = canonical m u :=
  canonical_congr (foldOnce_lt hm hu).1 (Nat.zero_lt_of_lt hu)
    (foldOnce_modEq m u)

/-- Two exact sums that differ by less than a full residue class fold
differently. -/
theorem canonical_add_ne {m s d : ℕ} (hd : 0 < d) (hdm : d < m) :
    canonical m (s + d) ≠ canonical m s := by
  intro heq
  have hmod : s + d ≡ s + 0 [MOD m] :=
    (canonical_modEq m (s + d)).symm.trans (heq ▸ canonical_modEq m s)
  have hzero : d ≡ 0 [MOD m] := Nat.ModEq.add_left_cancel' s hmod
  have hdvd : m ∣ d := (Nat.modEq_zero_iff_dvd).mp hzero
  exact absurd (Nat.le_of_dvd hd hdvd) (by omega)

end UdpArq
