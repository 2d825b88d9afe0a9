import UdpArq.Lib.Burst
import UdpArq.Checksum
import Mathlib.Algebra.Order.Ring.Rat

/-!
# Corruption and its detection

The corruption step of `Channel.sendto`, and what `verify` makes of damaged
packets.  A packet verifies only if its words add up to a multiple of `0xFFFF`.
Since `2 ^ 16` is one modulo `0xFFFF`, that sum is the number which the packet
spells, up to a power of two, so that no burst of fewer than 16 bits passes.
-/

namespace UdpArq

/-! ## The residue of a packet -/

/-- The words of a byte string add up to the number it spells, padded to even
length. -/
theorem wordSum_modEq (buf : Bytes) :
    wordSum buf ≡ fromBE buf * 256 ^ (buf.length % 2) [MOD 0xFFFF] := by
  induction buf using wordSum.induct with
  | case1 hi lo rest ih =>
      have heven : 256 ^ rest.length * 256 ^ (rest.length % 2) ≡ 1
          [MOD 0xFFFF] := by
        have hhalf : rest.length + rest.length % 2 =
            2 * ((rest.length + 1) / 2) := by omega
        rw [← pow_add, hhalf, pow_mul]
        simpa using Nat.ModEq.pow ((rest.length + 1) / 2)
          (show 256 ^ 2 ≡ 1 [MOD 0xFFFF] by decide)
      have hparity : (hi :: lo :: rest).length % 2 = rest.length % 2 := by
        simp only [List.length_cons]
        omega
      have hspell : fromBE (hi :: lo :: rest) * 256 ^ (rest.length % 2) =
          (hi.toNat * 256 + lo.toNat) *
              (256 ^ rest.length * 256 ^ (rest.length % 2)) +
            fromBE rest * 256 ^ (rest.length % 2) := by
        simp only [fromBE, List.length_cons]
        ring
      rw [hparity, hspell, wordSum]
      refine Nat.ModEq.add ?_ ih
      simpa using (heven.mul_left (hi.toNat * 256 + lo.toNat)).symm
  | case2 hi => simp [wordSum, fromBE, Nat.ModEq.refl]
  | case3 => rfl

/-- The words of a packet that verifies, the stored checksum among them, add up
to a multiple of `0xFFFF`. -/
theorem wordSum_of_verify {buf : Bytes} (hbuf : verify buf = true) :
    wordSum buf ≡ 0 [MOD 0xFFFF] := by
  match buf, hbuf with
  | [], hbuf => simp [verify] at hbuf
  | [a], hbuf => simp [verify] at hbuf
  | a :: b :: rest, hbuf =>
      rw [verify_cons] at hbuf
      have hle : canonical 0xFFFF (wordSum rest) ≤ 0xFFFF :=
        canonical_le (by decide)
      have hsum : a.toNat * 256 + b.toNat + canonical 0xFFFF (wordSum rest) =
          0xFFFF := by omega
      calc wordSum (a :: b :: rest)
          = a.toNat * 256 + b.toNat + wordSum rest := rfl
        _ ≡ a.toNat * 256 + b.toNat + canonical 0xFFFF (wordSum rest)
            [MOD 0xFFFF] := (canonical_modEq 0xFFFF (wordSum rest)).symm.add_left _
        _ ≡ 0 [MOD 0xFFFF] := by rw [hsum]; rfl

/-- Two packets of the same length that both verify spell numbers of the same
residue. -/
theorem fromBE_modEq_of_verify {buf buf' : Bytes} (hbuf : verify buf = true)
    (hbuf' : verify buf' = true) (hlen : buf'.length = buf.length) :
    fromBE buf' ≡ fromBE buf [MOD 0xFFFF] := by
  have hsum : wordSum buf' ≡ wordSum buf [MOD 0xFFFF] :=
    (wordSum_of_verify hbuf').trans (wordSum_of_verify hbuf).symm
  have hpadded : fromBE buf' * 256 ^ (buf.length % 2) ≡
      fromBE buf * 256 ^ (buf.length % 2) [MOD 0xFFFF] := by
    have hold := wordSum_modEq buf
    have hnew := wordSum_modEq buf'
    rw [hlen] at hnew
    exact hnew.symm.trans (hsum.trans hold)
  have hcoprime : Nat.gcd 0xFFFF (256 ^ (buf.length % 2)) = 1 :=
    Nat.Coprime.pow_right _ (by decide)
  exact Nat.ModEq.cancel_right_of_coprime hcoprime hpadded

/-- A valid packet damaged within 15 consecutive bit positions is rejected. -/
theorem verify_xorBytes {buf pattern : Bytes} (hbuf : verify buf = true)
    (hlen : pattern.length = buf.length) (hne : ∃ b ∈ pattern, b ≠ 0)
    (hburst : IsBurst 15 pattern) : verify (xorBytes buf pattern) = false := by
  obtain ⟨m, k, hm, hpattern⟩ := hburst.fromBE_eq
  have hpos : 0 < m := by
    rw [Nat.pos_iff_ne_zero]
    rintro rfl
    have hzero := fromBE_pos hne
    omega
  rw [← Bool.not_eq_true]
  intro hdamaged
  have hlen' : (xorBytes buf pattern).length = buf.length := by
    simp [xorBytes, hlen]
  have hmod := fromBE_modEq_of_verify hbuf hdamaged hlen'
  rw [fromBE_xorBytes hlen, hpattern] at hmod
  have hwidth : 15 < 16 := by decide
  exact xor_burst_not_modEq hpos hm hwidth (fromBE buf) k hmod

/-! ## The corruption of the channel -/

namespace Channel

/-- The largest UDP payload that fits in one IPv4 datagram. -/
def MAX_DATAGRAM : ℕ := 65507

/-- The bit that the corruption draw selects. -/
def bitPosition (draw : ℚ) (totalBits : ℕ) : ℕ :=
  let position := (draw * totalBits).floor.toNat
  if position ≥ totalBits then totalBits - 1 else position

/-- The corruption step of `Channel.sendto`. -/
def corruptData (corruption draw : ℚ) (data : Bytes) : Bytes :=
  if draw < corruption ∧ data ≠ [] then
    flipBit data (bitPosition draw (data.length * 8))
  else data

theorem bitPosition_lt (draw : ℚ) {totalBits : ℕ} (h : 0 < totalBits) :
    bitPosition draw totalBits < totalBits := by
  simp only [bitPosition]
  split <;> omega

/-- Bit `i` of a byte string; the least significant bit of each byte comes
first. -/
def bitOf (buf : Bytes) (i : ℕ) : Bool :=
  (buf.getD (i / 8) 0).toNat.testBit (i % 8)

/-- `buf'` is `buf` with bit `i` flipped and no other. -/
def FlippedAt (buf buf' : Bytes) (i : ℕ) : Prop :=
  buf'.length = buf.length ∧ ∀ j, bitOf buf' j = (bitOf buf j ^^ decide (j = i))

/-- The byte strings have the same length and differ in exactly one bit. -/
def OneBitFlipped (buf buf' : Bytes) : Prop :=
  buf'.length = buf.length ∧ ∃ i < 8 * buf.length,
    ∀ j, bitOf buf' j = (bitOf buf j ^^ decide (j = i))

theorem testBit_xor_bit (b : UInt8) {k : ℕ} (hk : k < 8) (m : ℕ) :
    (b ^^^ (1 <<< UInt8.ofNat k)).toNat.testBit m =
      (b.toNat.testBit m ^^ decide (m = k)) := by
  have hall : ∀ k : Fin 8, (1 <<< UInt8.ofNat k : UInt8).toNat = 2 ^ k.val := by
    decide
  have hbit : (1 <<< UInt8.ofNat k : UInt8).toNat = 2 ^ k := hall ⟨k, hk⟩
  rw [UInt8.toNat_xor, Nat.testBit_xor, hbit, Nat.testBit_two_pow]
  simp [eq_comm]

theorem bitOf_flipBit {buf : Bytes} {i : ℕ} (hi : i < 8 * buf.length) (j : ℕ) :
    bitOf (flipBit buf i) j = (bitOf buf j ^^ decide (j = i)) := by
  have hlt : i / 8 < buf.length := by omega
  have hk : i % 8 < 8 := Nat.mod_lt i (by decide)
  unfold bitOf flipBit
  rw [List.getD_eq_getElem?_getD, List.getElem?_modify,
    List.getD_eq_getElem?_getD]
  by_cases hbyte : i / 8 = j / 8
  · have hsame : j = i ↔ j % 8 = i % 8 := by omega
    rw [← hbyte, List.getElem?_eq_getElem hlt]
    simp only [if_true, Option.map_eq_map, Option.map_some, Option.getD_some,
      testBit_xor_bit _ hk, hsame]
  · have hne : j ≠ i := by
      rintro rfl
      exact hbyte rfl
    simp [hbyte, hne]

theorem flippedAt_flipBit {buf : Bytes} {i : ℕ} (hi : i < 8 * buf.length) :
    FlippedAt buf (flipBit buf i) i :=
  ⟨List.length_modify _ _ _, bitOf_flipBit hi⟩

theorem FlippedAt.unique {buf buf' : Bytes} {i k : ℕ} (hi : FlippedAt buf buf' i)
    (hk : FlippedAt buf buf' k) : i = k := by
  have hbit : (bitOf buf i ^^ decide (i = i)) = (bitOf buf i ^^ decide (i = k)) :=
    (hi.2 i).symm.trans (hk.2 i)
  by_contra hne
  rw [decide_eq_true rfl, decide_eq_false hne] at hbit
  cases hvalue : bitOf buf i <;> simp [hvalue] at hbit

theorem oneBitFlipped_flipBit {buf : Bytes} {i : ℕ} (hi : i < 8 * buf.length) :
    OneBitFlipped buf (flipBit buf i) :=
  ⟨List.length_modify _ _ _, i, hi, bitOf_flipBit hi⟩

theorem corruptData_of_lt {corruption draw : ℚ} {data : Bytes}
    (hdraw : draw < corruption) (hdata : data ≠ []) :
    OneBitFlipped data (corruptData corruption draw data) := by
  have hpos : 0 < data.length * 8 :=
    Nat.mul_pos (List.length_pos_iff.mpr hdata) (by decide)
  rw [corruptData, if_pos ⟨hdraw, hdata⟩]
  apply oneBitFlipped_flipBit
  rw [mul_comm 8]
  exact bitPosition_lt draw hpos

/-- Corruption leaves a packet alone or flips one of its bits. -/
theorem corruptData_cases (corruption draw : ℚ) (data : Bytes) :
    corruptData corruption draw data = data ∨
      OneBitFlipped data (corruptData corruption draw data) := by
  by_cases h : draw < corruption ∧ data ≠ []
  · exact Or.inr (corruptData_of_lt h.1 h.2)
  · exact Or.inl (if_neg h)

end Channel

/-- Short bursts are always detected, wherever they lie; and so is the bit that
the channel flips. -/
theorem short_burst_detected :
    (∀ buf pattern : Bytes, 2 ≤ buf.length → verify buf = true →
      pattern.length = buf.length → (∃ b ∈ pattern, b ≠ 0) →
        IsBurst 15 pattern → verify (xorBytes buf pattern) = false) ∧
    ∀ (corruption draw : ℚ) (buf : Bytes), verify buf = true →
      draw < corruption →
        verify (Channel.corruptData corruption draw buf) = false := by
  constructor
  · intro buf pattern _ hbuf hlen hne hburst
    exact verify_xorBytes hbuf hlen hne hburst
  · intro corruption draw buf hbuf hdraw
    have hne : buf ≠ [] := by
      rintro rfl
      simp [verify] at hbuf
    have hpos : 0 < buf.length * 8 :=
      Nat.mul_pos (List.length_pos_iff.mpr hne) (by decide)
    rw [Channel.corruptData, if_pos ⟨hdraw, hne⟩]
    apply verify_flipBit hbuf
    rw [mul_comm 8]
    exact Channel.bitPosition_lt draw hpos

/-- A burst across the boundary between the checksum field and the body, and the
flip of one bit. -/
theorem short_burst_detected_abc :
    verify (xorBytes [0x9d, 0x9d, 0x62, 0x62] [0, 3, 0x80, 0]) = false ∧
      verify (Channel.corruptData (1 / 2) (1 / 4) [0x9d, 0x9d, 0x62, 0x62]) =
        false := by
  constructor
  · refine short_burst_detected.1 _ _ (by decide) (by decide) rfl ?_ ⟨14, ?_⟩
    · exact ⟨3, by decide, by decide⟩
    · intro i hi
      have hall : ∀ i < 32, networkBit [0, 3, 0x80, 0] i = true →
          14 ≤ i ∧ i < 14 + 15 := by decide
      exact hall i (networkBit_lt hi) hi
  · exact short_burst_detected.2 _ _ _ (by decide) (by decide +kernel)

end UdpArq
