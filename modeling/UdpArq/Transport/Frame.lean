import UdpArq.Transport.Core

/-!
# How a receiver classifies a byte string

`_handle_incoming` drops what fails `verify` or `decode`, treats what carries
the ACK flag as an acknowledgement and of the rest treats what carries the DATA
flag as a datagram.  The frames that a transport builds itself are classified
as intended, and no frame with one bit flipped is classified at all.
-/

namespace UdpArq

/-- The byte string is handled as an acknowledgement of `n`. -/
def IsAck (raw : Bytes) (n : ℕ) : Prop :=
  verify raw = true ∧ ∃ header payload,
    decode raw = .ok (header, payload) ∧
      header.flags &&& FLAG_ACK ≠ 0 ∧ header.ack = n

/-- The byte string is handled as datagram number `seq`. -/
def IsData (raw : Bytes) (seq : ℕ) (payload : Bytes) : Prop :=
  verify raw = true ∧ ∃ header,
    decode raw = .ok (header, payload) ∧ header.flags &&& FLAG_ACK = 0 ∧
      header.flags &&& FLAG_DATA ≠ 0 ∧ header.seq = seq

theorem IsAck.unique {raw : Bytes} {m n : ℕ} (hm : IsAck raw m)
    (hn : IsAck raw n) : m = n := by
  obtain ⟨-, h, p, hdecode, -, rfl⟩ := hm
  obtain ⟨-, h', p', hdecode', -, rfl⟩ := hn
  rw [hdecode] at hdecode'
  cases hdecode'
  rfl

theorem IsData.unique {raw : Bytes} {seq seq' : ℕ} {p p' : Bytes}
    (h : IsData raw seq p) (h' : IsData raw seq' p') :
    seq = seq' ∧ p = p' := by
  obtain ⟨-, header, hdecode, -, -, rfl⟩ := h
  obtain ⟨-, header', hdecode', -, -, rfl⟩ := h'
  rw [hdecode] at hdecode'
  cases hdecode'
  exact ⟨rfl, rfl⟩

theorem IsData.not_isAck {raw : Bytes} {seq n : ℕ} {p : Bytes}
    (hdata : IsData raw seq p) : ¬ IsAck raw n := by
  rintro ⟨-, h', p', hdecode', hflags', -⟩
  obtain ⟨-, h, hdecode, hflags, -, -⟩ := hdata
  rw [hdecode] at hdecode'
  cases hdecode'
  exact hflags' hflags

/-- The byte string is handled as nothing. -/
def IsOther (raw : Bytes) : Prop :=
  (∀ n, ¬ IsAck raw n) ∧ ∀ seq payload, ¬ IsData raw seq payload

theorem isAck_or_isData_or_isOther (raw : Bytes) :
    (∃ n, IsAck raw n) ∨ (∃ seq payload, IsData raw seq payload) ∨
      IsOther raw := by
  by_cases hack : ∃ n, IsAck raw n
  · exact Or.inl hack
  by_cases hdata : ∃ seq payload, IsData raw seq payload
  · exact Or.inr (Or.inl hdata)
  · right
    right
    exact ⟨fun n h => hack ⟨n, h⟩, fun seq payload h => hdata ⟨seq, payload, h⟩⟩

/-- What is handled as nothing fails a check or carries neither flag. -/
theorem IsOther.flags {raw payload : Bytes} {header : Header} (h : IsOther raw)
    (hverify : verify raw = true) (hdecode : decode raw = .ok (header, payload)) :
    header.flags &&& FLAG_ACK = 0 ∧ header.flags &&& FLAG_DATA = 0 := by
  have hack : header.flags &&& FLAG_ACK = 0 := by
    by_contra hne
    exact h.1 _ ⟨hverify, header, payload, hdecode, hne, rfl⟩
  refine ⟨hack, ?_⟩
  by_contra hne
  exact h.2 _ _ ⟨hverify, header, hdecode, hack, hne, rfl⟩

/-- A datagram that was received fits a DATA packet. -/
theorem IsData.fits {raw : Bytes} {seq : ℕ} {p : Bytes}
    (hdata : IsData raw seq p) : seq ≤ 0xFFFFFFFF ∧ p.length ≤ MAX_PAYLOAD := by
  obtain ⟨-, header, hdecode, -, -, rfl⟩ := hdata
  rw [length_of_decode hdecode]
  exact ⟨header.isValid.seq, header.isValid.payloadLen⟩

/-! ## The frames built by the transports -/

namespace Core

/-- What the peer reads from a DATA packet. -/
theorem decode_dataPacket {seq : ℕ} {data raw : Bytes}
    (hraw : dataPacket seq data = .ok raw) :
    verify raw = true ∧ ∃ header, decode raw = .ok (header, data) ∧
      header.flags = FLAG_DATA ∧ header.seq = seq := by
  obtain ⟨hvalid, hlen⟩ := encodeWithChecksum_ok hraw
  obtain ⟨raw', h, hraw', hverify, hdecode, hfields⟩ :=
    encodeWithChecksum_spec rfl hvalid hlen
  have heq : raw' = raw := by
    have h' : Except.ok raw' = Except.ok raw := hraw'.symm.trans hraw
    exact Except.ok.inj h'
  subst heq
  exact ⟨hverify, h, hdecode, by rw [hfields], by rw [hfields]⟩

/-- What the peer reads from an ACK packet. -/
theorem decode_ackPacket {n : ℕ} {raw : Bytes}
    (hraw : ackPacket n = .ok raw) :
    verify raw = true ∧ ∃ header, decode raw = .ok (header, []) ∧
      header.flags = FLAG_ACK ∧ header.ack = n := by
  obtain ⟨hvalid, hlen⟩ := encodeWithChecksum_ok hraw
  obtain ⟨raw', h, hraw', hverify, hdecode, hfields⟩ :=
    encodeWithChecksum_spec rfl hvalid hlen
  have heq : raw' = raw := by
    have h' : Except.ok raw' = Except.ok raw := hraw'.symm.trans hraw
    exact Except.ok.inj h'
  subst heq
  exact ⟨hverify, h, hdecode, by rw [hfields], by rw [hfields]⟩

/-- A DATA packet can be built exactly when number and length fit the header. -/
theorem dataPacket_isOk_iff {seq : ℕ} {data : Bytes} :
    (∃ raw, dataPacket seq data = .ok raw) ↔
      seq ≤ 0xFFFFFFFF ∧ data.length ≤ MAX_PAYLOAD := by
  constructor
  · rintro ⟨raw, hraw⟩
    obtain ⟨hvalid, -⟩ := encodeWithChecksum_ok hraw
    exact ⟨hvalid.seq, hvalid.payloadLen⟩
  · rintro ⟨hseq, hlen⟩
    have hvalid : HeaderFields.Valid
        { seq, ack := 0, flags := FLAG_DATA, payloadLen := data.length } :=
      { seq := hseq
        ack := Nat.zero_le _
        flags := show FLAG_DATA &&& KNOWN_FLAGS = FLAG_DATA by decide
        version := rfl
        payloadLen := hlen
        checksum := Nat.zero_le _ }
    obtain ⟨raw, -, hraw, -⟩ := encodeWithChecksum_spec rfl hvalid rfl
    exact ⟨raw, hraw⟩

/-- An ACK packet can be built exactly when the number fits the header. -/
theorem ackPacket_isOk_iff {n : ℕ} :
    (∃ raw, ackPacket n = .ok raw) ↔ n ≤ 0xFFFFFFFF := by
  constructor
  · rintro ⟨raw, hraw⟩
    obtain ⟨hvalid, -⟩ := encodeWithChecksum_ok hraw
    exact hvalid.ack
  · intro hn
    have hvalid : HeaderFields.Valid
        { seq := 0, ack := n, flags := FLAG_ACK, payloadLen := 0 } :=
      { seq := Nat.zero_le _
        ack := hn
        flags := show FLAG_ACK &&& KNOWN_FLAGS = FLAG_ACK by decide
        version := rfl
        payloadLen := Nat.zero_le _
        checksum := Nat.zero_le _ }
    have hlen : 0 = ([] : Bytes).length := rfl
    obtain ⟨raw, -, hraw, -⟩ := encodeWithChecksum_spec rfl hvalid hlen
    exact ⟨raw, hraw⟩

theorem isData_of_dataPacket {seq : ℕ} {data raw : Bytes}
    (hraw : dataPacket seq data = .ok raw) : IsData raw seq data := by
  obtain ⟨hverify, h, hdecode, hflags, hseq⟩ := decode_dataPacket hraw
  refine ⟨hverify, h, hdecode, ?_, ?_, hseq⟩
  · rw [hflags]
    decide
  · rw [hflags]
    decide

theorem isAck_of_ackPacket {n : ℕ} {raw : Bytes}
    (hraw : ackPacket n = .ok raw) : IsAck raw n := by
  obtain ⟨hverify, h, hdecode, hflags, hack⟩ := decode_ackPacket hraw
  refine ⟨hverify, h, [], hdecode, ?_, hack⟩
  rw [hflags]
  decide

end Core

/-! ## Copies with one bit flipped -/

/-- What the network delivers for a packet: a copy, with one bit flipped if a
position inside the packet is given. -/
def corrupt (raw : Bytes) : Option ℕ → Bytes
  | none => raw
  | some i => if i < 8 * raw.length then flipBit raw i else raw

/-- A damaged copy of a packet that verifies does not verify. -/
theorem corrupt_eq_or_verify {raw : Bytes} (hraw : verify raw = true)
    (flip : Option ℕ) :
    corrupt raw flip = raw ∨ verify (corrupt raw flip) = false := by
  cases flip with
  | none => exact Or.inl rfl
  | some i =>
      by_cases hi : i < 8 * raw.length
      · right
        rw [corrupt, if_pos hi]
        exact verify_flipBit hraw hi
      · exact Or.inl (if_neg hi)

theorem IsAck.corrupt {raw : Bytes} {flip : Option ℕ} {n : ℕ}
    (hraw : verify raw = true) (h : IsAck (corrupt raw flip) n) :
    IsAck raw n := by
  rcases corrupt_eq_or_verify hraw flip with heq | hbad
  · rwa [heq] at h
  · exact absurd h.1 (by simp [hbad])

theorem IsData.corrupt {raw : Bytes} {flip : Option ℕ} {seq : ℕ}
    {payload : Bytes} (hraw : verify raw = true)
    (h : IsData (corrupt raw flip) seq payload) : IsData raw seq payload := by
  rcases corrupt_eq_or_verify hraw flip with heq | hbad
  · rwa [heq] at h
  · exact absurd h.1 (by simp [hbad])

end UdpArq
