import UdpArq.Lib.BigEndian
import Mathlib.Tactic.SplitIfs

/-!
# Wire format

The 16-byte big-endian header of `packet.py` and the two functions that move
between headers and byte strings.  A `Header` carries the proof that it passed
`validate`, as the frozen dataclass of the source does by construction.
-/

namespace UdpArq

def HEADER_SIZE : ℕ := 16
def PROTOCOL_VERSION : ℕ := 1
def MAGIC : ℕ := 0xA55A

def FLAG_DATA : ℕ := 0x01
def FLAG_ACK : ℕ := 0x02
def FLAG_FIN : ℕ := 0x04
def KNOWN_FLAGS : ℕ := FLAG_DATA ||| FLAG_ACK ||| FLAG_FIN

def MAX_PAYLOAD : ℕ := 65507 - HEADER_SIZE

/-- The reasons for which a header or a buffer is rejected. -/
inductive PacketError
  | seqOutOfRange (seq : ℕ)
  | ackOutOfRange (ack : ℕ)
  | unknownFlagBits (flags : ℕ)
  | unsupportedVersion (version : ℕ)
  | payloadLenOutOfRange (payloadLen : ℕ)
  | checksumOutOfRange (checksum : ℕ)
  | payloadLenMismatch (payloadLen actual : ℕ)
  | truncated (length : ℕ)
  | badMagic (magic : ℕ)
  deriving DecidableEq

/-- The arguments of the `Header` constructor. -/
structure HeaderFields where
  seq : ℕ := 0
  ack : ℕ := 0
  flags : ℕ := FLAG_DATA
  version : ℕ := PROTOCOL_VERSION
  payloadLen : ℕ := 0
  checksum : ℕ := 0
  deriving DecidableEq

namespace HeaderFields

/-- `Header.validate`; the lower bounds of the source hold by type. -/
def validate (h : HeaderFields) : Except PacketError Unit :=
  if ¬ h.seq ≤ 0xFFFFFFFF then .error (.seqOutOfRange h.seq)
  else if ¬ h.ack ≤ 0xFFFFFFFF then .error (.ackOutOfRange h.ack)
  else if h.flags &&& KNOWN_FLAGS ≠ h.flags then
    .error (.unknownFlagBits h.flags)
  else if h.version ≠ PROTOCOL_VERSION then
    .error (.unsupportedVersion h.version)
  else if ¬ h.payloadLen ≤ MAX_PAYLOAD then
    .error (.payloadLenOutOfRange h.payloadLen)
  else if ¬ h.checksum ≤ 0xFFFF then .error (.checksumOutOfRange h.checksum)
  else .ok ()

/-- The ranges that `validate` enforces. -/
structure Valid (h : HeaderFields) : Prop where
  seq : h.seq ≤ 0xFFFFFFFF
  ack : h.ack ≤ 0xFFFFFFFF
  flags : h.flags &&& KNOWN_FLAGS = h.flags
  version : h.version = PROTOCOL_VERSION
  payloadLen : h.payloadLen ≤ MAX_PAYLOAD
  checksum : h.checksum ≤ 0xFFFF

theorem validate_eq_ok_iff {h : HeaderFields} :
    h.validate = .ok () ↔ h.Valid := by
  constructor
  · intro hok
    unfold validate at hok
    split_ifs at hok with h1 h2 h3 h4 h5 h6
    exact ⟨h1, h2, not_not.mp h3, not_not.mp h4, h5, h6⟩
  · rintro ⟨h1, h2, h3, h4, h5, h6⟩
    simp [validate, h1, h2, h3, h4, h5, h6]

end HeaderFields

/-- A header that has passed `validate`. -/
structure Header extends HeaderFields where
  valid : toHeaderFields.validate = .ok ()
  deriving DecidableEq

namespace Header

/-- The constructor with its `__post_init__` check. -/
def new (f : HeaderFields) : Except PacketError Header :=
  match h : f.validate with
  | .ok () => .ok ⟨f, h⟩
  | .error e => .error e

theorem ext_fields {h₁ h₂ : Header}
    (h : h₁.toHeaderFields = h₂.toHeaderFields) : h₁ = h₂ := by
  cases h₁
  cases h₂
  simpa using h

theorem new_eq_ok {f : HeaderFields} (hf : f.Valid) :
    ∃ h : Header, new f = .ok h ∧ h.toHeaderFields = f := by
  have hok := HeaderFields.validate_eq_ok_iff.mpr hf
  refine ⟨⟨f, hok⟩, ?_, rfl⟩
  unfold new
  split
  · rfl
  · rename_i e he
    rw [hok] at he
    cases he

theorem fields_of_new {f : HeaderFields} {h : Header} (hnew : new f = .ok h) :
    h.toHeaderFields = f := by
  unfold new at hnew
  split at hnew
  · cases hnew
    rfl
  · cases hnew

theorem new_toFields (h : Header) : new h.toHeaderFields = .ok h := by
  obtain ⟨h', hnew, hfields⟩ :=
    new_eq_ok (HeaderFields.validate_eq_ok_iff.mp h.valid)
  rw [hnew, ext_fields hfields]

theorem isValid (h : Header) : h.Valid :=
  HeaderFields.validate_eq_ok_iff.mp h.valid

end Header

/-! ## Encoding -/

/-- `struct.pack("!HIIBBHH", ...)`. -/
def packHeader (h : HeaderFields) : Bytes :=
  toBE 2 h.checksum ++ (toBE 4 h.seq ++ (toBE 4 h.ack ++ (toBE 1 h.flags ++
    (toBE 1 h.version ++ (toBE 2 h.payloadLen ++ toBE 2 MAGIC)))))

/-- `encode`. -/
def encode (header : Header) (payload : Bytes) : Except PacketError Bytes :=
  match header.validate with
  | .error e => .error e
  | .ok () =>
      if header.payloadLen ≠ payload.length then
        .error (.payloadLenMismatch header.payloadLen payload.length)
      else .ok (packHeader header.toHeaderFields ++ payload)

@[simp] theorem length_packHeader (h : HeaderFields) :
    (packHeader h).length = 16 := by
  simp [packHeader]

theorem encode_eq_ok_iff {header : Header} {payload raw : Bytes} :
    encode header payload = .ok raw ↔
      header.payloadLen = payload.length ∧
        packHeader header.toHeaderFields ++ payload = raw := by
  unfold encode
  rw [header.valid]
  by_cases hlen : header.payloadLen = payload.length
  · simp [hlen]
  · simp [hlen]

/-! ## Decoding -/

/-- The unsigned field of `n` bytes at offset `i`. -/
def field (buf : Bytes) (i n : ℕ) : ℕ := fromBE ((buf.drop i).take n)

/-- `decode`. -/
def decode (buf : Bytes) : Except PacketError (Header × Bytes) :=
  if buf.length < HEADER_SIZE then .error (.truncated buf.length)
  else
    let checksum := field buf 0 2
    let seq := field buf 2 4
    let ack := field buf 6 4
    let flags := field buf 10 1
    let version := field buf 11 1
    let payloadLen := field buf 12 2
    let magic := field buf 14 2
    if magic ≠ MAGIC then .error (.badMagic magic)
    else if version ≠ PROTOCOL_VERSION then .error (.unsupportedVersion version)
    else if flags &&& KNOWN_FLAGS ≠ flags then .error (.unknownFlagBits flags)
    else
      let actualLen := buf.length - HEADER_SIZE
      if payloadLen ≠ actualLen then
        .error (.payloadLenMismatch payloadLen actualLen)
      else
        match Header.new { seq, ack, flags, version, payloadLen, checksum } with
        | .error e => .error e
        | .ok header => .ok (header, buf.drop HEADER_SIZE)

/-- A decoded payload has the length that its header states. -/
theorem length_of_decode {buf payload : Bytes} {header : Header}
    (h : decode buf = .ok (header, payload)) :
    payload.length = header.payloadLen := by
  simp only [decode] at h
  split_ifs at h with hshort hmagic hversion hflags hlen
  split at h
  · cases h
  · rename_i header' hnew
    cases h
    rw [Header.fields_of_new hnew, List.length_drop]
    exact (not_not.mp hlen).symm

theorem field_toBE_head {n x : ℕ} (rest : Bytes) (hx : x < 256 ^ n) :
    field (toBE n x ++ rest) 0 n = x := by
  simp [field, fromBE_toBE hx]

theorem field_toBE_skip (m i n x : ℕ) (rest : Bytes) :
    field (toBE m x ++ rest) (m + i) n = field rest i n := by
  rw [field, ← List.drop_drop, List.drop_left' (length_toBE m x), field]

theorem packHeader_append (h : HeaderFields) (p : Bytes) :
    packHeader h ++ p =
      toBE 2 h.checksum ++ (toBE 4 h.seq ++ (toBE 4 h.ack ++
        (toBE 1 h.flags ++ (toBE 1 h.version ++ (toBE 2 h.payloadLen ++
          (toBE 2 MAGIC ++ p)))))) := by
  simp only [packHeader, List.append_assoc]

section

variable {h : HeaderFields} (hv : h.Valid) (p : Bytes)

include hv

theorem field_checksum : field (packHeader h ++ p) 0 2 = h.checksum := by
  have hlt : h.checksum < 256 ^ 2 := by have := hv.checksum; omega
  rw [packHeader_append, field_toBE_head _ hlt]

theorem field_seq : field (packHeader h ++ p) 2 4 = h.seq := by
  have hlt : h.seq < 256 ^ 4 := by have := hv.seq; omega
  rw [packHeader_append, field_toBE_skip 2 0, field_toBE_head _ hlt]

theorem field_ack : field (packHeader h ++ p) 6 4 = h.ack := by
  have hlt : h.ack < 256 ^ 4 := by have := hv.ack; omega
  rw [packHeader_append, field_toBE_skip 2 4, field_toBE_skip 4 0,
    field_toBE_head _ hlt]

theorem field_flags : field (packHeader h ++ p) 10 1 = h.flags := by
  have hlt : h.flags < 256 ^ 1 := by
    rw [← hv.flags]
    exact lt_of_le_of_lt Nat.and_le_right (by decide)
  rw [packHeader_append, field_toBE_skip 2 8, field_toBE_skip 4 4,
    field_toBE_skip 4 0, field_toBE_head _ hlt]

theorem field_version : field (packHeader h ++ p) 11 1 = h.version := by
  have hlt : h.version < 256 ^ 1 := by rw [hv.version]; decide
  rw [packHeader_append, field_toBE_skip 2 9, field_toBE_skip 4 5,
    field_toBE_skip 4 1, field_toBE_skip 1 0, field_toBE_head _ hlt]

theorem field_payloadLen :
    field (packHeader h ++ p) 12 2 = h.payloadLen := by
  have hlt : h.payloadLen < 256 ^ 2 := by
    have := hv.payloadLen
    simp only [MAX_PAYLOAD, HEADER_SIZE] at this
    omega
  rw [packHeader_append, field_toBE_skip 2 10, field_toBE_skip 4 6,
    field_toBE_skip 4 2, field_toBE_skip 1 1, field_toBE_skip 1 0,
    field_toBE_head _ hlt]

omit hv in
theorem field_magic : field (packHeader h ++ p) 14 2 = MAGIC := by
  have hlt : MAGIC < 256 ^ 2 := by decide
  rw [packHeader_append, field_toBE_skip 2 12, field_toBE_skip 4 8,
    field_toBE_skip 4 4, field_toBE_skip 1 3, field_toBE_skip 1 2,
    field_toBE_skip 2 0, field_toBE_head _ hlt]

end

/-- Decoding what was packed from a header gives the header back. -/
theorem decode_packHeader (h : Header) {p : Bytes}
    (hlen : h.payloadLen = p.length) :
    decode (packHeader h.toHeaderFields ++ p) = .ok (h, p) := by
  have hv := h.isValid
  have hlength : (packHeader h.toHeaderFields ++ p).length = 16 + p.length := by
    simp
  unfold decode
  rw [field_checksum hv, field_seq hv, field_ack hv, field_flags hv,
    field_version hv, field_payloadLen hv, field_magic, hlength]
  rw [if_neg (by simp [HEADER_SIZE])]
  dsimp only
  rw [if_neg (not_not.mpr rfl), if_neg (not_not.mpr hv.version),
    if_neg (not_not.mpr hv.flags), if_neg (by simp [HEADER_SIZE, hlen]),
    h.new_toFields]
  simp [HEADER_SIZE, List.drop_left' (length_packHeader h.toHeaderFields)]

/-- Decoding is a left inverse of encoding. -/
theorem decode_encode {header : Header} {payload raw : Bytes}
    (henc : encode header payload = .ok raw) :
    decode raw = .ok (header, payload) := by
  obtain ⟨hlen, rfl⟩ := encode_eq_ok_iff.mp henc
  exact decode_packHeader header hlen

end UdpArq
