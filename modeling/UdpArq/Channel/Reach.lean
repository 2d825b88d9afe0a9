import UdpArq.Channel.Fate
import Mathlib.Data.Rat.Floor

/-!
# Which bits corruption can reach

One draw decides whether a packet is corrupted and, unscaled, which of its bits
is flipped.  A draw below the corruption rate selects a position in the same
part of the packet, so that at a rate below one the last bits are never hit.
-/

namespace UdpArq

namespace Channel

variable {p : Impairments} {rng : ℕ → Draw} {c : Channel}

/-! ## The selected position -/

/-- The guard against the upper boundary never applies to a draw below one. -/
theorem bitPosition_eq_iff (draw : Draw) {totalBits : ℕ} (h : 0 < totalBits)
    {i : ℕ} : bitPosition draw totalBits = i ↔
      (i : ℚ) ≤ draw * totalBits ∧ (draw : ℚ) * totalBits < i + 1 := by
  have htotal : (0 : ℚ) < totalBits := Nat.cast_pos.mpr h
  have hpos : 0 ≤ ((draw : ℚ) * totalBits).floor :=
    Rat.le_floor_iff.mpr (by simpa using mul_nonneg draw.2.1 htotal.le)
  have hbelow : ((draw : ℚ) * totalBits).floor < totalBits :=
    Rat.floor_lt_iff.mpr (by simpa using mul_lt_of_lt_one_left htotal draw.2.2)
  have hguard : ¬ ((draw : ℚ) * totalBits).floor.toNat ≥ totalBits := by omega
  have hfloor : ((draw : ℚ) * totalBits).floor = (i : ℤ) ↔
      (i : ℚ) ≤ draw * totalBits ∧ (draw : ℚ) * totalBits < i + 1 := by
    change ⌊(draw : ℚ) * totalBits⌋ = (i : ℤ) ↔ _
    rw [Int.floor_eq_iff, Int.cast_natCast]
  rw [bitPosition, if_neg hguard, ← hfloor]
  omega

/-- A draw that corrupts flips the selected bit and no other. -/
theorem flippedAt_corruptData_iff {corruption : ℚ} {draw : Draw} {data : Bytes}
    (hdraw : (draw : ℚ) < corruption) (hdata : data ≠ []) {i : ℕ} :
    FlippedAt data (corruptData corruption draw data) i ↔
      bitPosition draw (data.length * 8) = i := by
  have hpos : 0 < data.length * 8 :=
    Nat.mul_pos (List.length_pos_iff.mpr hdata) (by decide)
  have hlt := bitPosition_lt draw hpos
  have hflip : FlippedAt data
      (flipBit data (bitPosition draw (data.length * 8)))
      (bitPosition draw (data.length * 8)) := flippedAt_flipBit (by omega)
  rw [corruptData, if_pos ⟨hdraw, hdata⟩]
  constructor
  · exact fun hi => hflip.unique hi
  · rintro rfl
    exact hflip

/-- The positions below the corruption rate are the ones that some draw
selects. -/
theorem exists_bitPosition_iff {corruption : ℚ} {totalBits i : ℕ}
    (hi : i < totalBits) :
    (∃ draw : Draw, (draw : ℚ) < corruption ∧ bitPosition draw totalBits = i) ↔
      (i : ℚ) < corruption * totalBits := by
  have hpos : 0 < totalBits := Nat.zero_lt_of_lt hi
  have htotal : (0 : ℚ) < totalBits := Nat.cast_pos.mpr hpos
  constructor
  · rintro ⟨draw, hdraw, hposition⟩
    have hle := ((bitPosition_eq_iff draw hpos).mp hposition).1
    exact hle.trans_lt (mul_lt_mul_of_pos_right hdraw htotal)
  · intro hreach
    have hvalue : (i : ℚ) / totalBits * totalBits = i :=
      div_mul_cancel₀ _ htotal.ne'
    have hone : (i : ℚ) / totalBits < 1 :=
      (div_lt_one htotal).mpr (Nat.cast_lt.mpr hi)
    let draw : Draw :=
      ⟨(i : ℚ) / totalBits, div_nonneg (Nat.cast_nonneg i) htotal.le, hone⟩
    refine ⟨draw, (div_lt_iff₀ htotal).mpr hreach, ?_⟩
    rw [bitPosition_eq_iff draw hpos]
    exact ⟨hvalue.ge, hvalue.trans_lt (lt_add_one _)⟩

/-! ## The bits that a call can flip -/

/-- The generator with another fifth draw for the next packet. -/
def redraw (rng : ℕ → Draw) (n : ℕ) (draw : Draw) : ℕ → Draw :=
  Function.update rng (n + 4) draw

/-- The call puts the packet on the heap, and the bytes of each copy satisfy
`P`. -/
def Carries (p : Impairments) (rng : ℕ → Draw) (c : Channel) (data : Bytes)
    (addr : Address) (now : ℚ) (P : Bytes → Prop) : Prop :=
  ∃ f, (c.sendto p rng (.bytesLike data) addr now).map (fate c) = .ok f ∧
    f.copies ≠ [] ∧ ∀ packet ∈ f.copies, P packet.1

/-- With the corruption draw `draw`, the call decides to corrupt its packet and
flips bit `i` and no other. -/
def Flips (p : Impairments) (rng : ℕ → Draw) (c : Channel) (data : Bytes)
    (addr : Address) (now : ℚ) (draw : Draw) (i : ℕ) : Prop :=
  (draw : ℚ) < p.corruption ∧
    Carries p (redraw rng c.drawn draw) c data addr now
      fun sent => FlippedAt data sent i

/-- An accepted packet that is not lost. -/
theorem carries_redraw_iff (hnumbered : c.Numbered) (hopen : c.closed = false)
    {data : Bytes} (hsize : data.length ≤ MAX_DATAGRAM)
    (hkept : p.loss ≤ rng c.drawn) (addr : Address) (now : ℚ) (draw : Draw)
    (P : Bytes → Prop) :
    Carries p (redraw rng c.drawn draw) c data addr now P ↔
      P (corruptData p.corruption draw data) := by
  have hloss : p.loss ≤ (nextDraws (redraw rng c.drawn draw) c.drawn).loss := by
    have hsame : (nextDraws (redraw rng c.drawn draw) c.drawn).loss =
        rng c.drawn := Function.update_of_ne (by omega) _ _
    rwa [hsame]
  have hdraw : (nextDraws (redraw rng c.drawn draw) c.drawn).corruption = draw :=
    Function.update_self _ _ _
  have hmem : ∀ packet,
      packet ∈ (decided p data addr
        (nextDraws (redraw rng c.drawn draw) c.drawn)).copies ↔
      packet = (corruptData p.corruption draw data, addr) := by
    intro packet
    rw [mem_decided_copies hloss, hdraw]
  unfold Carries
  rw [sendto_accepted hnumbered hopen hsize]
  constructor
  · rintro ⟨f, hf, -, hall⟩
    cases hf
    exact hall _ ((hmem _).mpr rfl)
  · intro hP
    refine ⟨_, rfl, decided_copies_ne_nil hloss data addr, ?_⟩
    intro packet hpacket
    rw [(hmem packet).mp hpacket]
    exact hP

theorem flips_iff (hnumbered : c.Numbered) (hopen : c.closed = false)
    {data : Bytes} (hdata : data ≠ []) (hsize : data.length ≤ MAX_DATAGRAM)
    (hkept : p.loss ≤ rng c.drawn) (addr : Address) (now : ℚ) (draw : Draw)
    (i : ℕ) :
    Flips p rng c data addr now draw i ↔ (draw : ℚ) < p.corruption ∧
      bitPosition draw (data.length * 8) = i := by
  unfold Flips
  rw [carries_redraw_iff hnumbered hopen hsize hkept]
  exact and_congr_right fun hdraw => flippedAt_corruptData_iff hdraw hdata

end Channel

open Channel in
/-- A bit of a packet can be flipped exactly if its position, as a part of the
packet, lies below the corruption rate; so all bits can be flipped only at a rate
that exceeds the position of the last one.  Every draw that corrupts flips
exactly one bit. -/
theorem corruption_reaches (p : Impairments) (rng : ℕ → Draw)
    (es : List Channel.Event) (data : Bytes) (addr : Address) (now : ℚ)
    (hdata : data ≠ []) (hsize : data.length ≤ MAX_DATAGRAM)
    (hopen : (run (Channel.step p rng) Channel.init es).closed = false)
    (hkept : p.loss ≤ rng (run (Channel.step p rng) Channel.init es).drawn) :
    let c := run (Channel.step p rng) Channel.init es
    ((∀ i < 8 * data.length, ∃ draw, Flips p rng c data addr now draw i) ↔
      (8 * data.length - 1 : ℚ) < p.corruption * (8 * data.length)) ∧
    (∀ i < 8 * data.length, (∃ draw, Flips p rng c data addr now draw i) ↔
      (i : ℚ) < p.corruption * (8 * data.length)) ∧
    ∀ draw : Draw, (draw : ℚ) < p.corruption →
      ∃ i < 8 * data.length, Flips p rng c data addr now draw i := by
  intro c
  have hnumbered := (balanced_run p rng es).numbered
  have hlength : 0 < data.length := List.length_pos_iff.mpr hdata
  have hbits : ((data.length * 8 : ℕ) : ℚ) = 8 * data.length := by
    push_cast
    ring
  have hbit : ∀ i < 8 * data.length,
      (∃ draw, Flips p rng c data addr now draw i) ↔
        (i : ℚ) < p.corruption * (8 * data.length) := by
    intro i hi
    rw [← hbits, ← exists_bitPosition_iff (by omega)]
    exact exists_congr fun draw =>
      flips_iff hnumbered hopen hdata hsize hkept addr now draw i
  refine ⟨⟨fun hall => ?_, fun hrate i hi => ?_⟩, hbit, fun draw hdraw => ?_⟩
  · have hlast := (hbit (8 * data.length - 1) (by omega)).mp
      (hall _ (by omega))
    rwa [Nat.cast_sub (by omega), Nat.cast_mul] at hlast
  · apply (hbit i hi).mpr
    have hle : (i : ℚ) + 1 ≤ 8 * data.length := by exact_mod_cast hi
    linarith
  · have hpos : 0 < data.length * 8 := by omega
    have hlt := bitPosition_lt (draw : ℚ) hpos
    refine ⟨bitPosition draw (data.length * 8), by omega, ?_⟩
    rw [flips_iff hnumbered hopen hdata hsize hkept]
    exact ⟨hdraw, rfl⟩

open Channel in
/-- At rate one half the lower half of a byte can be hit. -/
theorem corruption_reaches_half :
    let p : Impairments := ⟨{ corruption := 1 / 2 }, by decide +kernel⟩
    let rng : ℕ → Draw := fun _ => Draw.sixteenths 3
    ∃ draw, Flips p rng Channel.init [7] ("b", 2) 0 draw 3 := by
  intro p rng
  refine ((corruption_reaches p rng [] [7] ("b", 2) 0 ?_ ?_ rfl ?_).2.1 3 ?_).mpr
    ?_
  · decide
  · decide
  · decide +kernel
  · decide
  · decide +kernel

open Channel in
/-- At rate one half no draw flips the last bit of a byte. -/
theorem corruption_misses_bit :
    let p : Impairments := ⟨{ corruption := 1 / 2 }, by decide +kernel⟩
    let rng : ℕ → Draw := fun _ => Draw.sixteenths 3
    0 < p.corruption ∧ p.corruption ≤ 1 ∧
      ¬ ∃ draw, Flips p rng Channel.init [7] ("b", 2) 0 draw 7 := by
  intro p rng
  refine ⟨by decide +kernel, by decide +kernel, ?_⟩
  rintro ⟨draw, hdraw⟩
  have hnumbered : Channel.init.Numbered := (balanced_init p).numbered
  rw [flips_iff hnumbered rfl (by decide) (by decide) (by decide +kernel)] at hdraw
  have hbits : 7 < [7].length * 8 := by decide
  have hreach := (exists_bitPosition_iff hbits).mp ⟨draw, hdraw⟩
  exact absurd hreach (by decide +kernel)

end UdpArq
