import UdpArq.Checksum

/-!
# The packets on the wire

Which byte strings are packets, and which of them are frames.  `decode` accepts
exactly the documented format and inverts `encode` there.  A byte string that
decodes and verifies is the framing of its own header and payload, so that a
checksummed packet has one encoding only.
-/

namespace UdpArq

/-! ## The documented format -/

/-- The documented format: the length of a packet and what its big-endian fields
must contain. -/
structure IsPacket (buf : Bytes) : Prop where
  header : 16 ≤ buf.length
  datagram : buf.length ≤ 65507
  magic : field buf 14 2 = 0xA55A
  version : field buf 11 1 = 1
  flags : field buf 10 1 &&& 0x07 = field buf 10 1
  payloadLen : field buf 12 2 = buf.length - 16

/-- The header fields at their places in a buffer. -/
def fieldsOf (buf : Bytes) : HeaderFields where
  seq := field buf 2 4
  ack := field buf 6 4
  flags := field buf 10 1
  version := field buf 11 1
  payloadLen := field buf 12 2
  checksum := field buf 0 2

theorem field_lt (buf : Bytes) (i n : ℕ) : field buf i n < 256 ^ n := by
  have hlen : ((buf.drop i).take n).length ≤ n := List.length_take_le _ _
  calc field buf i n < 256 ^ ((buf.drop i).take n).length := fromBE_lt _
    _ ≤ 256 ^ n := Nat.pow_le_pow_right (by decide) hlen

theorem IsPacket.valid {buf : Bytes} (h : IsPacket buf) :
    (fieldsOf buf).Valid where
  seq := Nat.le_of_lt_succ (field_lt buf 2 4)
  ack := Nat.le_of_lt_succ (field_lt buf 6 4)
  flags := h.flags
  version := h.version
  payloadLen := by
    have hlen := h.payloadLen
    have hmax := h.datagram
    simp only [fieldsOf, MAX_PAYLOAD, HEADER_SIZE]
    omega
  checksum := Nat.le_of_lt_succ (field_lt buf 0 2)

/-- `decode` accepts the documented format and reads every field at its
place. -/
theorem decode_eq_ok_iff {buf payload : Bytes} {header : Header} :
    decode buf = .ok (header, payload) ↔
      IsPacket buf ∧ header.toHeaderFields = fieldsOf buf ∧
        payload = buf.drop 16 := by
  constructor
  · intro hdecode
    simp only [decode] at hdecode
    split_ifs at hdecode with hshort hmagic hversion hflags hlen
    split at hdecode
    · cases hdecode
    · rename_i hnew
      cases hdecode
      have hfields : header.toHeaderFields = fieldsOf buf :=
        Header.fields_of_new hnew
      have hmax := header.isValid.payloadLen
      rw [hfields] at hmax
      simp only [fieldsOf, MAX_PAYLOAD, HEADER_SIZE] at hmax hshort hlen
      refine ⟨?_, hfields, rfl⟩
      exact ⟨by omega, by omega, not_not.mp hmagic, not_not.mp hversion,
        not_not.mp hflags, not_not.mp hlen⟩
  · rintro ⟨h, hfields, rfl⟩
    have hnew : Header.new (fieldsOf buf) = .ok header := by
      rw [← hfields]
      exact header.new_toFields
    have hshort : ¬ buf.length < HEADER_SIZE := not_lt.mpr h.header
    have hmagic : field buf 14 2 = MAGIC := h.magic
    have hversion : field buf 11 1 = PROTOCOL_VERSION := h.version
    have hflags : field buf 10 1 &&& KNOWN_FLAGS = field buf 10 1 := h.flags
    have hlen : field buf 12 2 = buf.length - HEADER_SIZE := h.payloadLen
    unfold decode
    rw [if_neg hshort]
    dsimp only
    rw [if_neg (not_not.mpr hmagic), if_neg (not_not.mpr hversion),
      if_neg (not_not.mpr hflags), if_neg (not_not.mpr hlen)]
    rw [fieldsOf] at hnew
    rw [hnew]
    rfl

theorem decode_isOk_iff {buf : Bytes} :
    (∃ header payload, decode buf = .ok (header, payload)) ↔ IsPacket buf := by
  constructor
  · rintro ⟨header, payload, hdecode⟩
    exact (decode_eq_ok_iff.mp hdecode).1
  · intro h
    obtain ⟨header, -, hfields⟩ := Header.new_eq_ok h.valid
    exact ⟨header, buf.drop 16, decode_eq_ok_iff.mpr ⟨h, hfields, rfl⟩⟩

/-! ## Packing the fields of a buffer -/

/-- The field at offset `i`, packed again, is what the buffer has there. -/
theorem toBE_field_append {buf : Bytes} (i n : ℕ) (h : i + n ≤ buf.length) :
    toBE n (field buf i n) ++ buf.drop (i + n) = buf.drop i := by
  have hlen : ((buf.drop i).take n).length = n := by
    rw [List.length_take, List.length_drop]
    omega
  have hfield : toBE n (field buf i n) = (buf.drop i).take n := by
    have hpack := toBE_fromBE ((buf.drop i).take n)
    rwa [hlen] at hpack
  rw [hfield, ← List.drop_drop, List.take_append_drop]

/-- A buffer with the magic number is its packed fields and the rest. -/
theorem packHeader_fieldsOf {buf : Bytes} (hlen : 16 ≤ buf.length)
    (hmagic : field buf 14 2 = MAGIC) :
    packHeader (fieldsOf buf) ++ buf.drop 16 = buf := by
  rw [packHeader_append, ← hmagic]
  simp only [fieldsOf]
  rw [toBE_field_append 14 2 (by omega), toBE_field_append 12 2 (by omega),
    toBE_field_append 11 1 (by omega), toBE_field_append 10 1 (by omega),
    toBE_field_append 6 4 (by omega), toBE_field_append 2 4 (by omega),
    toBE_field_append 0 2 (by omega), List.drop_zero]

/-- Encoding is a left inverse of decoding. -/
theorem encode_decode {buf payload : Bytes} {header : Header}
    (hdecode : decode buf = .ok (header, payload)) :
    encode header payload = .ok buf := by
  obtain ⟨h, hfields, rfl⟩ := decode_eq_ok_iff.mp hdecode
  rw [encode_eq_ok_iff, hfields]
  refine ⟨?_, packHeader_fieldsOf h.header h.magic⟩
  rw [List.length_drop]
  exact h.payloadLen

/-- `encode` and `decode` are inverse to each other on exactly the documented
format, and any other byte string is rejected with a `PacketError`. -/
theorem codec_inverse :
    (∀ (header : Header) (payload : Bytes),
      payload.length = header.payloadLen →
        encode header payload >>= decode = .ok (header, payload)) ∧
    (∀ buf header payload, decode buf = .ok (header, payload) →
      encode header payload = .ok buf) ∧
    (∀ buf, (∃ header payload, decode buf = .ok (header, payload)) ↔
      IsPacket buf) ∧
    ∀ buf, ¬ IsPacket buf → ∃ e : PacketError, decode buf = .error e := by
  refine ⟨fun header payload hlen => ?_, fun _ _ _ => encode_decode,
    fun _ => decode_isOk_iff, fun buf hbuf => ?_⟩
  · have henc : encode header payload =
        .ok (packHeader header.toHeaderFields ++ payload) :=
      encode_eq_ok_iff.mpr ⟨hlen.symm, rfl⟩
    simp only [henc, bind, Except.bind]
    exact decode_encode henc
  · cases hdecode : decode buf with
    | error e => exact ⟨e, rfl⟩
    | ok result =>
        exact absurd (decode_isOk_iff.mp ⟨result.1, result.2, hdecode⟩) hbuf

theorem codec_inverse_hi :
    let header : Header := ⟨{ seq := 5, payloadLen := 2 }, by decide⟩
    encode header [104, 105] >>= decode = .ok (header, [104, 105]) := by
  intro header
  exact codec_inverse.1 header [104, 105] rfl

/-! ## Frames -/

/-- The header with its checksum zeroed. -/
def Header.cleared (h : Header) : HeaderFields :=
  { h.toHeaderFields with checksum := 0 }

theorem Header.cleared_valid (h : Header) : h.cleared.Valid :=
  { h.isValid with checksum := Nat.zero_le _ }

/-- A packet verifies exactly when it states the checksum of its zeroed
draft. -/
theorem verify_packHeader (h : Header) (payload : Bytes) :
    verify (packHeader h.toHeaderFields ++ payload) = true ↔
      checksum (packHeader h.cleared ++ payload) = h.checksum := by
  have hlen : ¬ (packHeader h.toHeaderFields ++ payload).length < 2 := by
    rw [List.length_append, length_packHeader]
    omega
  have hdraft : 0 :: 0 :: (packHeader h.toHeaderFields ++ payload).drop 2 =
      packHeader h.cleared ++ payload := by
    have hzero : h.cleared.checksum = 0 := rfl
    rw [packHeader_append, packHeader_append,
      List.drop_left' (length_toBE _ _), hzero]
    rfl
  have hstated : fromBE ((packHeader h.toHeaderFields ++ payload).take 2) =
      h.checksum := field_checksum h.isValid payload
  simp only [verify, if_neg hlen, hdraft, hstated, decide_eq_true_eq]

/-- Frames of the same payload whose headers agree up to the checksum are
equal. -/
theorem frame_unique {buf buf' payload : Bytes} {h h' : Header}
    (hverify : verify buf = true) (hdecode : decode buf = .ok (h, payload))
    (hverify' : verify buf' = true) (hdecode' : decode buf' = .ok (h', payload))
    (hsame : h.cleared = h'.cleared) : buf = buf' := by
  obtain ⟨-, rfl⟩ := encode_eq_ok_iff.mp (encode_decode hdecode)
  obtain ⟨-, rfl⟩ := encode_eq_ok_iff.mp (encode_decode hdecode')
  have hchecksum : h.checksum = h'.checksum := by
    calc h.checksum = checksum (packHeader h.cleared ++ payload) :=
          ((verify_packHeader h payload).mp hverify).symm
      _ = checksum (packHeader h'.cleared ++ payload) := by rw [hsame]
      _ = h'.checksum := (verify_packHeader h' payload).mp hverify'
  have hfields : h.toHeaderFields = h'.toHeaderFields := by
    calc h.toHeaderFields = { h.cleared with checksum := h.checksum } := rfl
      _ = { h'.cleared with checksum := h'.checksum } := by
          rw [hsame, hchecksum]
      _ = h'.toHeaderFields := rfl
  rw [hfields]

/-- The framing of a zero-checksum header, seen from the receiver: it verifies
and decodes to the payload and to the header with the checksum filled in. -/
theorem encodeWithChecksum_accepted {f : HeaderFields} {payload : Bytes}
    (hzero : f.checksum = 0) (hf : f.Valid)
    (hlen : f.payloadLen = payload.length) :
    ∃ raw h, encodeWithChecksum f payload = .ok raw ∧ verify raw = true ∧
      decode raw = .ok (h, payload) ∧ h.cleared = f := by
  obtain ⟨raw, h, hraw, hverify, hdecode, hfields⟩ :=
    encodeWithChecksum_spec hzero hf hlen
  refine ⟨raw, h, hraw, hverify, hdecode, ?_⟩
  rw [Header.cleared, hfields, ← hzero]

/-- What a receiver accepts is the framing of the header and payload that it
reads. -/
theorem encodeWithChecksum_of_accepted {buf payload : Bytes} {h : Header}
    (hverify : verify buf = true) (hdecode : decode buf = .ok (h, payload)) :
    encodeWithChecksum h.cleared payload = .ok buf := by
  have hlen : h.cleared.payloadLen = payload.length :=
    (length_of_decode hdecode).symm
  obtain ⟨raw, h', hraw, hverify', hdecode', hsame⟩ :=
    encodeWithChecksum_accepted rfl h.cleared_valid hlen
  rw [frame_unique hverify hdecode hverify' hdecode' hsame.symm]
  exact hraw

/-- Checksummed framing is canonical: what a receiver accepts is the framing of
the header and payload that it reads, whatever is framed is accepted and read
back, and no header and payload have two frames. -/
theorem framing_canonical :
    (∀ buf payload f, f.checksum = 0 →
      ((verify buf = true ∧
          ∃ h, decode buf = .ok (h, payload) ∧ h.cleared = f) ↔
        encodeWithChecksum f payload = .ok buf)) ∧
    (∀ f payload, f.Valid → f.checksum = 0 → f.payloadLen = payload.length →
      payload.length ≤ MAX_PAYLOAD →
        ∃ raw h, encodeWithChecksum f payload = .ok raw ∧
          verify raw = true ∧ decode raw = .ok (h, payload) ∧
          h.cleared = f) ∧
    ∀ buf, (verify buf = true ∧ ∃ result, decode buf = .ok result) ↔
      ∃ f payload, f.checksum = 0 ∧
        encodeWithChecksum f payload = .ok buf := by
  have hiff : ∀ buf payload f, f.checksum = 0 →
      ((verify buf = true ∧
          ∃ h, decode buf = .ok (h, payload) ∧ h.cleared = f) ↔
        encodeWithChecksum f payload = .ok buf) := by
    intro buf payload f hzero
    constructor
    · rintro ⟨hverify, h, hdecode, rfl⟩
      exact encodeWithChecksum_of_accepted hverify hdecode
    · intro hframe
      obtain ⟨hf, hlen⟩ := encodeWithChecksum_ok hframe
      obtain ⟨raw, h, hraw, hverify, hdecode, hsame⟩ :=
        encodeWithChecksum_accepted hzero hf hlen
      have heq : raw = buf := Except.ok.inj (hraw.symm.trans hframe)
      rw [← heq]
      exact ⟨hverify, h, hdecode, hsame⟩
  refine ⟨hiff, fun f payload hf hzero hlen _ =>
    encodeWithChecksum_accepted hzero hf hlen, fun buf => ⟨?_, ?_⟩⟩
  · rintro ⟨hverify, ⟨h, payload⟩, hdecode⟩
    exact ⟨h.cleared, payload, rfl,
      encodeWithChecksum_of_accepted hverify hdecode⟩
  · rintro ⟨f, payload, hzero, hframe⟩
    obtain ⟨hverify, h, hdecode, -⟩ := (hiff buf payload f hzero).mpr hframe
    exact ⟨hverify, _, hdecode⟩

theorem framing_canonical_hi :
    ∃ raw h, encodeWithChecksum { seq := 5, payloadLen := 2 } [104, 105] =
        .ok raw ∧ verify raw = true ∧ decode raw = .ok (h, [104, 105]) ∧
      h.cleared = { seq := 5, payloadLen := 2 } := by
  refine framing_canonical.2.1 { seq := 5, payloadLen := 2 } [104, 105] ?_ rfl
    rfl (by decide)
  exact ⟨by decide, by decide, by decide, rfl, by decide, by decide⟩

end UdpArq
