import UdpArq.Lib.EndAround
import UdpArq.Packet

/-!
# One's-complement checksum

`checksum.py` and the two-pass framing that every transport uses.  The checksum
is computed by the source's loop, which folds the carry after each word; its
closed form goes through the exact sum of the words.  A packet with one flipped
bit changes that sum by a power of two below `2 ^ 16` and is therefore always
rejected.
-/

namespace UdpArq

/-! ## The loop of the source and the exact sum -/

/-- The loop over the 16-bit words; the buffer has even length. -/
def sumWords : ℕ → Bytes → ℕ
  | total, hi :: lo :: rest =>
      let word := hi.toNat <<< 8 ||| lo.toNat
      let total := total + word
      sumWords ((total &&& 0xFFFF) + (total >>> 16)) rest
  | total, _ => total

/-- `while total >> 16`, with a bound on the number of iterations. -/
def foldCarries : ℕ → ℕ → ℕ
  | 0, total => total
  | n + 1, total =>
      if total >>> 16 = 0 then total
      else foldCarries n ((total &&& 0xFFFF) + (total >>> 16))

/-- `checksum`. -/
def checksum (buf : Bytes) : ℕ :=
  let buf := if buf.length % 2 ≠ 0 then buf ++ [0] else buf
  let total := sumWords 0 buf
  (~~~BitVec.ofNat 16 (foldCarries total total)).toNat

/-- `verify`. -/
def verify (buf : Bytes) : Bool :=
  if buf.length < 2 then false
  else
    let expected := fromBE (buf.take 2)
    checksum (0 :: 0 :: buf.drop 2) = expected

/-- The exact sum of the big-endian words, zero-padded to even length. -/
def wordSum : Bytes → ℕ
  | hi :: lo :: rest => hi.toNat * 256 + lo.toNat + wordSum rest
  | [hi] => hi.toNat * 256
  | [] => 0

theorem word_eq (hi lo : UInt8) :
    hi.toNat <<< 8 ||| lo.toNat = hi.toNat * 256 + lo.toNat := by
  rw [← Nat.shiftLeft_add_eq_or_of_lt lo.toNat_lt, Nat.shiftLeft_eq]

theorem foldCarry_eq (total : ℕ) :
    (total &&& 0xFFFF) + (total >>> 16) = foldOnce 0xFFFF total := by
  rw [Nat.shiftRight_eq_div_pow, foldOnce]
  exact congrArg (· + total / 2 ^ 16) (Nat.and_two_pow_sub_one_eq_mod total 16)

theorem wordSum_append_zero (buf : Bytes) :
    wordSum (buf ++ [0]) = wordSum buf := by
  induction buf using wordSum.induct with
  | case1 hi lo rest ih => simp only [List.cons_append, wordSum, ih]
  | case2 hi => simp [wordSum]
  | case3 => simp [wordSum]

/-- After any number of words the running total is the folded exact sum. -/
theorem sumWords_canonical {buf : Bytes} (heven : buf.length % 2 = 0) (s : ℕ) :
    sumWords (canonical 0xFFFF s) buf = canonical 0xFFFF (s + wordSum buf) := by
  induction buf using wordSum.induct generalizing s with
  | case1 hi lo rest ih =>
      have hword : hi.toNat * 256 + lo.toNat ≤ 0xFFFF := by
        have h1 := hi.toNat_lt
        have h2 := lo.toNat_lt
        omega
      have hfold := foldOnce_canonical_add (s := s) (by decide) hword
      have hrest : rest.length % 2 = 0 := by
        simp only [List.length_cons] at heven
        omega
      rw [sumWords, word_eq, foldCarry_eq, hfold, ih hrest, wordSum, add_assoc]
  | case2 hi => simp at heven
  | case3 => simp [sumWords, wordSum]

theorem foldCarries_of_le {n total : ℕ} (h : total ≤ 0xFFFF) :
    foldCarries n total = total := by
  cases n with
  | zero => rfl
  | succ n =>
      rw [foldCarries, Nat.shiftRight_eq_div_pow,
        if_pos (Nat.div_eq_of_lt (by omega))]

/-- The checksum in closed form. -/
theorem checksum_eq_canonical (buf : Bytes) :
    checksum buf = 0xFFFF - canonical 0xFFFF (wordSum buf) := by
  have hclosed : ∀ even : Bytes, even.length % 2 = 0 →
      (~~~BitVec.ofNat 16
          (foldCarries (sumWords 0 even) (sumWords 0 even))).toNat =
        0xFFFF - canonical 0xFFFF (wordSum even) := by
    intro even heven
    have hsum : sumWords 0 even = canonical 0xFFFF (wordSum even) := by
      simpa [canonical_zero] using sumWords_canonical heven 0
    have hle : canonical 0xFFFF (wordSum even) ≤ 0xFFFF :=
      canonical_le (by decide)
    rw [hsum, foldCarries_of_le hle, BitVec.toNat_not, BitVec.toNat_ofNat,
      Nat.mod_eq_of_lt (by omega)]
  unfold checksum
  by_cases hodd : buf.length % 2 ≠ 0
  · rw [if_pos hodd]
    have heven : (buf ++ [0]).length % 2 = 0 := by
      simp only [List.length_append, List.length_singleton]
      omega
    rw [← wordSum_append_zero buf]
    exact hclosed _ heven
  · rw [if_neg hodd]
    exact hclosed _ (by omega)

/-! ## The checksum as arithmetic -/

/-- The big-endian words, the last one zero-padded. -/
def words : Bytes → List ℕ
  | hi :: lo :: rest => (hi.toNat * 256 + lo.toNat) :: words rest
  | [hi] => [hi.toNat * 256]
  | [] => []

theorem sum_words (buf : Bytes) : (words buf).sum = wordSum buf := by
  induction buf using words.induct with
  | case1 hi lo rest ih => rw [words, List.sum_cons, ih, wordSum]
  | case2 hi => simp [words, wordSum]
  | case3 => rfl

/-- The buffer that the loop runs over. -/
def padded (buf : Bytes) : Bytes :=
  if buf.length % 2 ≠ 0 then buf ++ [0] else buf

theorem length_padded (buf : Bytes) : (padded buf).length % 2 = 0 := by
  unfold padded
  split_ifs
  · rw [List.length_append, List.length_singleton]
    omega
  · omega

theorem wordSum_padded (buf : Bytes) : wordSum (padded buf) = wordSum buf := by
  unfold padded
  split_ifs
  · exact wordSum_append_zero buf
  · rfl

/-- The loop goes on from the total of the words before. -/
theorem sumWords_append {xs : Bytes} (heven : xs.length % 2 = 0) (total : ℕ)
    (ys : Bytes) : sumWords total (xs ++ ys) = sumWords (sumWords total xs) ys := by
  induction xs using wordSum.induct generalizing total with
  | case1 hi lo rest ih =>
      have hrest : rest.length % 2 = 0 := by
        simp only [List.length_cons] at heven
        omega
      simp only [List.cons_append, sumWords]
      exact ih hrest _
  | case2 hi => simp at heven
  | case3 => simp [sumWords]

theorem sumWords_eq {buf : Bytes} (heven : buf.length % 2 = 0) :
    sumWords 0 buf = canonical 0xFFFF (wordSum buf) := by
  simpa [canonical_zero] using sumWords_canonical heven 0

/-- With as many iterations as it takes, folding all carries of an exact sum
gives its folded form. -/
theorem foldCarries_eq {n total : ℕ} (hn : total ≤ n + 0xFFFF) :
    foldCarries n total = canonical 0xFFFF total := by
  induction n generalizing total with
  | zero =>
      rw [foldCarries, canonical_of_le (by omega)]
  | succ n ih =>
      rcases Nat.lt_or_ge 0xFFFF total with hcarry | hle
      · have hshift : ¬ total >>> 16 = 0 := by
          rw [Nat.shiftRight_eq_div_pow]
          omega
        have hfold := foldOnce_lt (by decide) hcarry
        rw [foldCarries, if_neg hshift, foldCarry_eq, ih (by omega)]
        exact canonical_foldOnce (by decide) hcarry
      · rw [foldCarries_of_le hle, canonical_of_le hle]

/-- The checksum in terms of the exact sum `S` of the words; after any number of
iterations the total of the loop fits 16 bits; summing everything first and
folding then gives the same; and so do the words in any other order. -/
theorem checksum_arithmetic (buf : Bytes) :
    let S := (words buf).sum
    (checksum buf = if S = 0 then 0xFFFF else 0xFFFF - ((S - 1) % 65535 + 1)) ∧
    (∀ n, sumWords 0 ((padded buf).take (2 * n)) < 2 ^ 16 ∧
      sumWords 0 (padded buf) =
        sumWords (sumWords 0 ((padded buf).take (2 * n)))
          ((padded buf).drop (2 * n))) ∧
    sumWords 0 (padded buf) = foldCarries S S ∧
    checksum buf = (~~~BitVec.ofNat 16 (foldCarries S S)).toNat ∧
    ∀ buf' : Bytes, (words buf').Perm (words buf) →
      checksum buf' = checksum buf := by
  intro S
  have hS : S = wordSum buf := sum_words buf
  have hle : canonical 0xFFFF S ≤ 0xFFFF := canonical_le (by decide)
  have hfolded : foldCarries S S = canonical 0xFFFF S := foldCarries_eq (by omega)
  have heven : ∀ n, ((padded buf).take (2 * n)).length % 2 = 0 := by
    intro n
    have hlen := length_padded buf
    rw [List.length_take]
    omega
  refine ⟨?_, fun n => ⟨?_, ?_⟩, ?_, ?_, fun buf' hperm => ?_⟩
  · rw [checksum_eq_canonical, ← hS]
    by_cases hzero : S = 0
    · rw [if_pos hzero, hzero, canonical_zero]
    · rw [if_neg hzero, canonical_pos (Nat.pos_of_ne_zero hzero)]
  · rw [sumWords_eq (heven n)]
    exact Nat.lt_succ_of_le (canonical_le (by decide))
  · rw [← sumWords_append (heven n), List.take_append_drop]
  · rw [sumWords_eq (length_padded buf), wordSum_padded, hfolded, hS]
  · rw [checksum_eq_canonical, hfolded, ← hS, BitVec.toNat_not,
      BitVec.toNat_ofNat, Nat.mod_eq_of_lt (by omega)]
  · rw [checksum_eq_canonical, checksum_eq_canonical, ← sum_words buf',
      ← sum_words buf, hperm.sum_nat]

/-- Two words in either order, the second one padded. -/
theorem checksum_arithmetic_swap :
    checksum [0xFF, 0, 0x12, 0x34] = checksum [0x12, 0x34, 0xFF] :=
  (checksum_arithmetic [0x12, 0x34, 0xFF]).2.2.2.2 _ (by decide)

theorem checksum_lt (buf : Bytes) : checksum buf < 256 ^ 2 := by
  rw [checksum_eq_canonical]
  omega

/-! ## Verification -/

theorem verify_cons (a b : UInt8) (rest : Bytes) :
    verify (a :: b :: rest) = true ↔
      0xFFFF - canonical 0xFFFF (wordSum rest) = a.toNat * 256 + b.toNat := by
  have hlen : ¬ (a :: b :: rest).length < 2 := by simp
  rw [verify, if_neg hlen]
  simp [checksum_eq_canonical, wordSum, fromBE]

/-- Storing the checksum of the zeroed packet makes it verify. -/
theorem verify_toBE_checksum (rest : Bytes) :
    verify (toBE 2 (checksum (0 :: 0 :: rest)) ++ rest) = true := by
  have hlt := checksum_lt (0 :: 0 :: rest)
  have hlen : ¬ (toBE 2 (checksum (0 :: 0 :: rest)) ++ rest).length < 2 := by
    rw [List.length_append, length_toBE]
    omega
  rw [verify, if_neg hlen, List.take_left' (length_toBE _ _),
    List.drop_left' (length_toBE _ _), fromBE_toBE hlt]
  simp

/-! ## Flipping one bit -/

/-- Flip bit `i` of a packet, as the corruption step of the channel does. -/
def flipBit (buf : Bytes) (i : ℕ) : Bytes :=
  buf.modify (i / 8) fun b => b ^^^ (1 <<< UInt8.ofNat (i % 8))

/-- The weight of byte `j` in the sum of the words. -/
def byteWeight (j : ℕ) : ℕ := if j % 2 = 0 then 256 else 1

theorem xor_bit (b : UInt8) {k : ℕ} (hk : k < 8) :
    (b ^^^ (1 <<< UInt8.ofNat k)).toNat = b.toNat + 2 ^ k ∨
      (b ^^^ (1 <<< UInt8.ofNat k)).toNat + 2 ^ k = b.toNat := by
  have hall : ∀ x : Fin 256, ∀ k : Fin 8,
      (UInt8.ofNat x ^^^ (1 <<< UInt8.ofNat k)).toNat = x + 2 ^ k.val ∨
        (UInt8.ofNat x ^^^ (1 <<< UInt8.ofNat k)).toNat + 2 ^ k.val = x := by
    decide +kernel
  have hb := hall ⟨b.toNat, b.toNat_lt⟩ ⟨k, hk⟩
  simpa using hb

theorem wordSum_modify (f : UInt8 → UInt8) :
    ∀ (buf : Bytes) (j : ℕ) (hj : j < buf.length),
      wordSum (buf.modify j f) + buf[j].toNat * byteWeight j =
        wordSum buf + (f buf[j]).toNat * byteWeight j
  | [], j, hj => by simp at hj
  | [hi], j, hj => by
      have hj0 : j = 0 := by simpa using hj
      subst hj0
      simp [wordSum, byteWeight, add_comm]
  | hi :: lo :: rest, 0, _ => by
      simp [wordSum, byteWeight]
      omega
  | hi :: lo :: rest, 1, _ => by
      simp [wordSum, byteWeight]
      omega
  | hi :: lo :: rest, j + 2, hj => by
      have hj' : j < rest.length := by simpa using hj
      have ih := wordSum_modify f rest j hj'
      have hw : byteWeight (j + 2) = byteWeight j := by simp [byteWeight]
      simp only [List.modify_succ_cons, wordSum, List.getElem_cons_succ, hw]
      omega

theorem sum_shift {s s' b b' p w : ℕ} (hsum : s' + b * w = s + b' * w)
    (hbit : b' = b + p ∨ b' + p = b) :
    s' = s + p * w ∨ s' + p * w = s := by
  rcases hbit with rfl | rfl
  · left
    rw [add_mul] at hsum
    omega
  · right
    rw [add_mul] at hsum
    omega

/-- A flipped bit moves the exact sum by a power of two below `2 ^ 16`. -/
theorem wordSum_flipBit {buf : Bytes} {i : ℕ} (hi : i < 8 * buf.length) :
    ∃ m < 16, wordSum (flipBit buf i) = wordSum buf + 2 ^ m ∨
      wordSum (flipBit buf i) + 2 ^ m = wordSum buf := by
  have hj : i / 8 < buf.length := by omega
  have hk : i % 8 < 8 := Nat.mod_lt _ (by decide)
  have hshift := sum_shift
    (wordSum_modify (fun b => b ^^^ (1 <<< UInt8.ofNat (i % 8))) buf (i / 8) hj)
    (xor_bit buf[i / 8] hk)
  by_cases heven : i / 8 % 2 = 0
  · refine ⟨i % 8 + 8, by omega, ?_⟩
    rw [byteWeight, if_pos heven] at hshift
    rwa [pow_add]
  · refine ⟨i % 8, by omega, ?_⟩
    rwa [byteWeight, if_neg heven, mul_one] at hshift

theorem canonical_flipBit_ne {buf : Bytes} {i : ℕ} (hi : i < 8 * buf.length) :
    canonical 0xFFFF (wordSum (flipBit buf i)) ≠
      canonical 0xFFFF (wordSum buf) := by
  obtain ⟨m, hm, hcases⟩ := wordSum_flipBit hi
  have hpow : 2 ^ m < 0xFFFF :=
    lt_of_le_of_lt (Nat.pow_le_pow_right (by decide) (Nat.le_of_lt_succ hm))
      (by decide)
  have hpos : 0 < 2 ^ m := Nat.pow_pos (by decide)
  rcases hcases with hup | hdown
  · rw [hup]
    exact canonical_add_ne hpos hpow
  · rw [← hdown]
    exact (canonical_add_ne hpos hpow).symm

theorem xor_bit_ne (b : UInt8) {k : ℕ} (hk : k < 8) :
    (b ^^^ (1 <<< UInt8.ofNat k)).toNat ≠ b.toNat := by
  have hpos : 0 < 2 ^ k := Nat.pow_pos (by decide)
  rcases xor_bit b hk with h | h <;> omega

/-- A valid packet with one flipped bit is rejected. -/
theorem verify_flipBit {buf : Bytes} (hbuf : verify buf = true) {i : ℕ}
    (hi : i < 8 * buf.length) : verify (flipBit buf i) = false := by
  have hk : i % 8 < 8 := Nat.mod_lt _ (by decide)
  match buf, hbuf, hi with
  | [], hbuf, _ => simp [verify] at hbuf
  | [a], hbuf, _ => simp [verify] at hbuf
  | a :: b :: rest, hbuf, hi =>
      rw [verify_cons] at hbuf
      rw [← Bool.not_eq_true]
      intro hflip
      rcases Nat.lt_or_ge i 8 with h8 | h8
      · -- the flipped bit lies in the first byte of the stored checksum
        have hdiv : i / 8 = 0 := by omega
        rw [flipBit, hdiv, List.modify_zero_cons, verify_cons] at hflip
        have hne := xor_bit_ne a hk
        omega
      · rcases Nat.lt_or_ge i 16 with h16 | h16
        · have hdiv : i / 8 = 1 := by omega
          rw [flipBit, hdiv, List.modify_succ_cons, List.modify_zero_cons,
            verify_cons] at hflip
          have hne := xor_bit_ne b hk
          omega
        · -- the stored checksum is intact and the recomputed one differs
          have hdiv : i / 8 = (i - 16) / 8 + 2 := by omega
          have hmod : i % 8 = (i - 16) % 8 := by omega
          have hrest : flipBit (a :: b :: rest) i =
              a :: b :: flipBit rest (i - 16) := by
            rw [flipBit, hdiv, hmod, List.modify_succ_cons,
              List.modify_succ_cons, flipBit]
          rw [hrest, verify_cons] at hflip
          have hlen : i - 16 < 8 * rest.length := by
            simp only [List.length_cons] at hi
            omega
          have h1 : canonical 0xFFFF (wordSum rest) ≤ 0xFFFF :=
            canonical_le (by decide)
          have h2 : canonical 0xFFFF (wordSum (flipBit rest (i - 16))) ≤
              0xFFFF := canonical_le (by decide)
          have hne := canonical_flipBit_ne hlen
          omega

/-! ## Framing -/

/-- `_encode_with_checksum`: encode with a zero checksum, then again with the
checksum of that draft. -/
def encodeWithChecksum (header : HeaderFields) (payload : Bytes) :
    Except PacketError Bytes := do
  let draftHeader ← Header.new header
  let draft ← encode draftHeader payload
  let final ← Header.new { header with checksum := checksum draft }
  encode final payload

/-- What framing a zero-checksum header yields: it succeeds exactly on valid
headers that announce the payload's length, the frame verifies, and it decodes
to the payload and to the header with the checksum filled in. -/
theorem encodeWithChecksum_spec {f : HeaderFields} {payload : Bytes}
    (hzero : f.checksum = 0) (hf : f.Valid)
    (hlen : f.payloadLen = payload.length) :
    ∃ raw h, encodeWithChecksum f payload = .ok raw ∧ verify raw = true ∧
      decode raw = .ok (h, payload) ∧
      h.toHeaderFields = { f with checksum := h.checksum } := by
  obtain ⟨h₀, hnew₀, hfields₀⟩ := Header.new_eq_ok hf
  have hdraft : encode h₀ payload = .ok (packHeader f ++ payload) := by
    rw [encode_eq_ok_iff, hfields₀]
    exact ⟨hlen, rfl⟩
  have hvalid : HeaderFields.Valid
      { f with checksum := checksum (packHeader f ++ payload) } :=
    { hf with checksum := Nat.le_of_lt_succ (checksum_lt _) }
  obtain ⟨h, hnew, hfields⟩ := Header.new_eq_ok hvalid
  have hfinal : encode h payload =
      .ok (packHeader h.toHeaderFields ++ payload) := by
    rw [encode_eq_ok_iff, hfields]
    exact ⟨hlen, rfl⟩
  refine ⟨packHeader h.toHeaderFields ++ payload, h, ?_, ?_, ?_, ?_⟩
  · have hstep : encodeWithChecksum f payload = encode h payload := by
      simp only [encodeWithChecksum, hnew₀, hdraft, hnew, bind, Except.bind]
    rw [hstep, hfinal]
  · have hsplit : packHeader f ++ payload =
        0 :: 0 :: (packHeader f ++ payload).drop 2 := by
      rw [packHeader_append, hzero]
      rfl
    have hhead : packHeader h.toHeaderFields ++ payload =
        toBE 2 (checksum (packHeader f ++ payload)) ++
          (packHeader f ++ payload).drop 2 := by
      rw [hfields, packHeader_append, packHeader_append,
        List.drop_left' (length_toBE _ _)]
    rw [hhead]
    conv_lhs => rw [hsplit]
    exact verify_toBE_checksum _
  · exact decode_encode hfinal
  · rw [hfields]

theorem encodeWithChecksum_ok {f : HeaderFields} {payload raw : Bytes}
    (hraw : encodeWithChecksum f payload = .ok raw) :
    f.Valid ∧ f.payloadLen = payload.length := by
  unfold encodeWithChecksum at hraw
  cases hnew : Header.new f with
  | error e => simp [hnew, bind, Except.bind] at hraw
  | ok h₀ =>
      have hfields := Header.fields_of_new hnew
      cases hdraft : encode h₀ payload with
      | error e => simp [hnew, hdraft, bind, Except.bind] at hraw
      | ok draft =>
          have hlen := (encode_eq_ok_iff.mp hdraft).1
          rw [hfields] at hlen
          exact ⟨hfields ▸ h₀.isValid, hlen⟩

end UdpArq
