import UdpArq.SelectiveRepeat.Reassembly
import UdpArq.StopAndWait.Refinement
import UdpArq.Windowed.Flush

/-!
# Accepting a datagram and handing it over

All three receivers advance their state first, send the ACK second and hand the
payload over third.  If the ACK is not sent, the third part does not happen: a
payload that the state has already passed is lost, because a retransmission of
it counts as a duplicate.

A reception that passes nothing loses nothing.  With the next expected datagram
the windowed receivers pass at least that one, and Stop-and-Wait passes every
datagram that it accepts.
-/

namespace UdpArq

open UdpArq.Core

namespace Lane

/-- The lane after the reception `r` and the attempt to acknowledge it. -/
def respond (l : Lane) (r : Reception) (sendResult : Option String) : Lane :=
  match ackPacket r.ackFor with
  | .error _ => (l.advance r).crash
  | .ok packet =>
      match sendResult with
      | some _ => l.advance r
      | none => ((l.advance r).transmit packet).deliver r.payloads

theorem lane_acknowledge_respond {c : Core} {buffer : Dict ℕ Bytes}
    {addr : Address} {l : Lane} {r : Reception}
    (hlane : c.lane buffer addr = l.advance r) (sendResult : Option String) :
    (c.acknowledge addr r.ackFor r.payloads sendResult).lane buffer addr =
      l.respond r sendResult := by
  rw [lane_acknowledge, hlane]
  unfold respond
  cases ackPacket r.ackFor with
  | error e => rfl
  | ok packet =>
      cases sendResult with
      | none => exact if_pos rfl
      | some what => rfl

/-- A running receiver delivers or buffers datagram `q` if it arrives now, and
has not delivered it yet. -/
def Accepts (D : Discipline) (l : Lane) (q : ℕ) (payload : Bytes) : Prop :=
  l.crashed = false ∧ l.expected ≤ q ∧
    (l.advance (D.receive l q payload)).Has q

/-- What becomes of the payloads when datagram `seq` arrives: `expected` does
not move back, the payloads that it passes are handed to the application, each
once and in order, and those that it does not pass are still accepted. -/
structure HandsOver (D : Discipline) (l : Lane) (seq : ℕ) (payload : Bytes)
    (l' : Lane) : Prop where
  moves : l.expected ≤ l'.expected
  handed : ∃ payloads, l'.delivered = l.delivered ++ payloads ∧
    payloads.map some =
      (List.range' l.expected (l'.expected - l.expected)).map fun q =>
        if q = seq then some payload else l.buffer.get? q
  kept : ∀ q p, l'.expected ≤ q →
    (q = seq ∧ p = payload ∨ l.buffer.get? q = some p) → l'.Accepts D q p

/-- What a reception does with a datagram that is accepted. -/
structure TakesIn (l : Lane) (seq : ℕ) (payload : Bytes) (r : Reception) :
    Prop where
  moves : l.expected ≤ r.expected
  passes : l.expected < r.expected ↔ seq = l.expected
  taken : r.payloads.map some =
    (List.range' l.expected (r.expected - l.expected)).map fun q =>
      if q = seq then some payload else l.buffer.get? q
  ackFor : r.ackFor = seq + 1

section

variable {D : Discipline} {l l' : Lane} {seq : ℕ} {payload : Bytes}

/-- If nothing is delivered, the datagram was not the expected one. -/
theorem HandsOver.ne_expected (h : l.HandsOver D seq payload l')
    (htakes : l.TakesIn seq payload (D.receive l seq payload))
    (hexpected : l'.expected = (D.receive l seq payload).expected)
    (hdelivered : l'.delivered = l.delivered) : seq ≠ l.expected := by
  intro hseq
  obtain ⟨payloads, happend, hpayloads⟩ := h.handed
  have hnil : payloads = [] := by
    rw [hdelivered] at happend
    exact List.self_eq_append_right.mp happend
  have hlength := congrArg List.length hpayloads
  have hpasses := htakes.passes.mpr hseq
  simp only [hnil, List.map_nil, List.length_nil, List.length_map,
    List.length_range', hexpected] at hlength
  omega

theorem TakesIn.expected_eq
    (htakes : l.TakesIn seq payload (D.receive l seq payload))
    (hseq : seq ≠ l.expected) :
    (D.receive l seq payload).expected = l.expected := by
  have hmoves := htakes.moves
  have hpasses := htakes.passes.not.mpr hseq
  omega

/-- What a running receiver has taken in and not passed, it still accepts. -/
theorem Accepts.kept
    (hkeeps : ∀ (l : Lane) seq payload q, q ∈ l.buffer.keys →
      (l.advance (D.receive l seq payload)).Has q)
    (haccepts : l.Accepts D seq payload) {q : ℕ} {p : Bytes}
    (hq : l'.expected ≤ q)
    (hheld : q = seq ∧ p = payload ∨ l.buffer.get? q = some p)
    (hcrashed : l'.crashed = l.crashed)
    (hexpected : l'.expected = (D.receive l seq payload).expected)
    (hbuffer : l'.buffer = (D.receive l seq payload).buffer) :
    l'.Accepts D q p := by
  obtain ⟨hrun, -, hhas⟩ := haccepts
  have hin : (l.advance (D.receive l seq payload)).Has q := by
    rcases hheld with ⟨rfl, -⟩ | hget
    · exact hhas
    · exact hkeeps l seq payload q (Dict.mem_keys.mpr ⟨p, hget⟩)
  refine ⟨hcrashed.trans hrun, hq, hkeeps l' q p q ?_⟩
  rw [hbuffer]
  rw [hexpected] at hq
  exact hin.resolve_left (not_lt.mpr hq)

/-- A datagram below the greatest sequence number is handed over or kept,
unless it is the expected one and its acknowledgement is not sent. -/
theorem handsOver_respond_iff
    (htakes : l.TakesIn seq payload (D.receive l seq payload))
    (hkeeps : ∀ (l : Lane) seq payload q, q ∈ l.buffer.keys →
      (l.advance (D.receive l seq payload)).Has q)
    (haccepts : l.Accepts D seq payload) (sendResult : Option String) :
    l.HandsOver D seq payload
        (l.respond (D.receive l seq payload) sendResult) ↔
      seq < 0xFFFFFFFF ∧ (seq = l.expected → sendResult = none) := by
  by_cases hsize : seq < 0xFFFFFFFF
  · obtain ⟨packet, hpacket⟩ := ackPacket_isOk_iff.mpr
      (htakes.ackFor.trans_le hsize)
    cases sendResult with
    | none =>
        have hrespond : l.respond (D.receive l seq payload) none =
            ((l.advance (D.receive l seq payload)).transmit packet).deliver
              (D.receive l seq payload).payloads := by
          simp only [respond, hpacket]
        rw [hrespond]
        refine ⟨fun _ => ⟨hsize, fun _ => rfl⟩, fun _ => ⟨htakes.moves, ?_, ?_⟩⟩
        · exact ⟨_, rfl, htakes.taken⟩
        · intro q p hq hheld
          exact haccepts.kept hkeeps hq hheld rfl rfl rfl
    | some what =>
        have hrespond : l.respond (D.receive l seq payload) (some what) =
            l.advance (D.receive l seq payload) := by
          simp only [respond, hpacket]
        rw [hrespond]
        constructor
        · intro h
          exact ⟨hsize, fun hseq => absurd hseq (h.ne_expected htakes rfl rfl)⟩
        · rintro ⟨-, hsent⟩
          have hne : seq ≠ l.expected := fun hseq => by cases hsent hseq
          have hstay : (l.advance (D.receive l seq payload)).expected =
              l.expected := htakes.expected_eq hne
          refine ⟨htakes.moves, ⟨[], (List.append_nil _).symm, ?_⟩, ?_⟩
          · rw [hstay, Nat.sub_self]
            rfl
          · intro q p hq hheld
            exact haccepts.kept hkeeps hq hheld rfl rfl rfl
  · -- The number of the acknowledgement does not fit the header.
    cases hpacket : ackPacket (D.receive l seq payload).ackFor with
    | ok packet =>
        have hfits := ackPacket_isOk_iff.mp ⟨packet, hpacket⟩
        have hack := htakes.ackFor
        omega
    | error e =>
        have hrespond : l.respond (D.receive l seq payload) sendResult =
            (l.advance (D.receive l seq payload)).crash := by
          simp only [respond, hpacket]
        rw [hrespond]
        refine ⟨fun h => ?_, fun h => absurd h.1 hsize⟩
        have hstay := htakes.expected_eq (h.ne_expected htakes rfl rfl)
        have hkept := h.kept seq payload (hstay.trans_le haccepts.2.1)
          (Or.inl ⟨rfl, rfl⟩)
        cases hkept.1

end

end Lane

/-! ## The receivers of the windowed transports -/

namespace GoBackNTransport

variable {cfg : Config} {s : GoBackNTransport}

/-- Go-Back-N accepts the next expected datagram and no other. -/
theorem accepts_iff {l : Lane} {seq : ℕ} {payload : Bytes}
    (hbuffer : l.buffer = ∅) :
    l.Accepts discipline seq payload ↔
      l.crashed = false ∧ seq = l.expected := by
  constructor
  · rintro ⟨hrun, hle, hhas⟩
    refine ⟨hrun, ?_⟩
    by_contra hne
    have hreceive : discipline.receive l seq payload =
        ⟨l.expected, l.buffer, l.expected, []⟩ := if_neg hne
    rw [hreceive] at hhas
    rcases hhas with hlt | hmem
    · exact absurd hle (not_le.mpr hlt)
    · simp [Lane.advance, hbuffer] at hmem
  · rintro ⟨hrun, rfl⟩
    have hreceive : discipline.receive l l.expected payload =
        ⟨l.expected + 1, l.buffer, l.expected + 1, [payload]⟩ := if_pos rfl
    refine ⟨hrun, le_rfl, Or.inl ?_⟩
    rw [hreceive]
    exact Nat.lt_succ_self _

theorem takesIn {l : Lane} {seq : ℕ} {payload : Bytes} (hbuffer : l.buffer = ∅)
    (haccepts : l.Accepts discipline seq payload) :
    l.TakesIn seq payload (discipline.receive l seq payload) := by
  obtain ⟨-, rfl⟩ := (accepts_iff hbuffer).mp haccepts
  have hreceive : discipline.receive l l.expected payload =
      ⟨l.expected + 1, l.buffer, l.expected + 1, [payload]⟩ := if_pos rfl
  rw [hreceive]
  refine ⟨Nat.le_succ _, by simp, ?_, rfl⟩
  rw [Nat.add_sub_cancel_left]
  simp [List.range']

theorem keeps (l : Lane) (seq : ℕ) (payload : Bytes) (q : ℕ)
    (hq : q ∈ l.buffer.keys) :
    (l.advance (discipline.receive l seq payload)).Has q := by
  right
  change q ∈ (receive l seq payload).buffer.keys
  unfold receive
  split <;> exact hq

theorem lane_incoming (hrun : s.crashed = none) {raw payload : Bytes} {seq : ℕ}
    (hraw : IsData raw seq payload) (addr : Address) (input : IncomingInput) :
    (step cfg s (.incoming raw addr input)).lane addr =
      (s.lane addr).respond (discipline.receive (s.lane addr) seq payload)
        input.sendResult := by
  obtain ⟨c, hlane, hcore⟩ := handleIncoming_data hraw addr input
  have hself : c.lane ∅ addr =
      (s.lane addr).advance (receive (s.lane addr) seq payload) :=
    (hlane addr).trans (if_pos rfl)
  rw [step, if_neg (by simp [hrun]), lane, hcore]
  exact Lane.lane_acknowledge_respond hself input.sendResult

end GoBackNTransport

namespace SelectiveRepeatTransport

variable {cfg : Config} {s : SelectiveRepeatTransport}

theorem store_of_inWindow {window : ℕ} {l : Lane} {seq : ℕ}
    (hlo : l.expected ≤ seq) (hhi : seq < l.expected + window)
    (payload : Bytes) (q : ℕ) :
    (store window l seq payload).get? q =
      if q = seq then some payload else l.buffer.get? q := by
  simp [get?_store, hlo, hhi]

theorem keeps (l : Lane) (seq : ℕ) (payload : Bytes) (q : ℕ)
    (hq : q ∈ l.buffer.keys) :
    (l.advance ((discipline cfg).receive l seq payload)).Has q :=
  has_receive (Or.inl (Or.inr hq))

/-- A reception moves on exactly if the expected datagram is stored. -/
theorem passes_iff (window : ℕ) (l : Lane) (seq : ℕ) (payload : Bytes) :
    l.expected < (receive window l seq payload).expected ↔
      (store window l seq payload).get? l.expected ≠ none := by
  obtain ⟨hmoves, htaken, hleft, hstop⟩ := receive_eq window l seq payload
  constructor
  · intro hlt
    have hmem : (store window l seq payload).get? l.expected ∈
        (receive window l seq payload).payloads.map some := by
      rw [htaken]
      exact List.mem_map_of_mem (List.mem_range'_1.mpr ⟨le_rfl, by omega⟩)
    obtain ⟨p, -, hp⟩ := List.mem_map.mp hmem
    rw [← hp]
    exact Option.some_ne_none p
  · intro hstored
    by_contra hle
    have hstay : (receive window l seq payload).expected = l.expected := by omega
    rw [hleft, hstay, if_neg (by omega)] at hstop
    exact hstored hstop

theorem get?_expected {l : Lane} {window : ℕ} (h : l.Ahead window) :
    l.buffer.get? l.expected = none := by
  rw [Dict.get?_eq_none_iff]
  exact fun hmem => absurd (h _ hmem).1 (lt_irrefl _)

/-- Selective Repeat accepts the datagrams in its window. -/
theorem accepts_iff {l : Lane} {seq : ℕ} {payload : Bytes}
    (hahead : l.Ahead cfg.windowSize) :
    l.Accepts (discipline cfg) seq payload ↔
      l.crashed = false ∧ l.expected ≤ seq ∧
        seq < l.expected + cfg.windowSize := by
  obtain ⟨hmoves, -, hleft, -⟩ := receive_eq cfg.windowSize l seq payload
  constructor
  · rintro ⟨hrun, hle, hhas⟩
    refine ⟨hrun, hle, ?_⟩
    -- Outside the window nothing is stored, so nothing is taken out either.
    by_contra hbeyond
    have hstore : store cfg.windowSize l seq payload = l.buffer :=
      if_neg fun h => hbeyond h.2
    have hpasses := passes_iff cfg.windowSize l seq payload
    rw [hstore] at hpasses hleft
    have hstay : ¬ l.expected < (receive cfg.windowSize l seq payload).expected :=
      fun hlt => hpasses.mp hlt (get?_expected hahead)
    rcases hhas with hlt | hmem
    · exact hstay (hle.trans_lt hlt)
    · obtain ⟨p, hp⟩ := Dict.mem_keys.mp hmem
      have hold := (hleft seq).symm.trans hp
      rw [if_neg (by omega)] at hold
      exact hbeyond (hahead seq (Dict.mem_keys.mpr ⟨p, hold⟩)).2
  · rintro ⟨hrun, hle, hwindow⟩
    refine ⟨hrun, hle, ?_⟩
    by_cases hlt : seq < (receive cfg.windowSize l seq payload).expected
    · exact Or.inl hlt
    · right
      refine Dict.mem_keys.mpr ⟨payload, (hleft seq).trans ?_⟩
      rw [if_neg (fun h => hlt h.2), store_of_inWindow hle hwindow, if_pos rfl]

theorem takesIn {l : Lane} {seq : ℕ} {payload : Bytes}
    (hahead : l.Ahead cfg.windowSize)
    (haccepts : l.Accepts (discipline cfg) seq payload) :
    l.TakesIn seq payload ((discipline cfg).receive l seq payload) := by
  obtain ⟨-, hle, hwindow⟩ := (accepts_iff hahead).mp haccepts
  obtain ⟨hmoves, htaken, -, -⟩ := receive_eq cfg.windowSize l seq payload
  have hpasses := passes_iff cfg.windowSize l seq payload
  have hget := store_of_inWindow hle hwindow payload
  refine ⟨hmoves, hpasses.trans ?_, ?_, ?_⟩
  · rw [hget]
    by_cases hseq : l.expected = seq
    · simp [hseq]
    · rw [if_neg hseq]
      exact ⟨fun h => absurd (get?_expected hahead) h,
        fun h => absurd h.symm hseq⟩
  · exact htaken.trans (List.map_congr_left fun q _ => hget q)
  · exact if_pos (Or.inl ⟨hle, hwindow⟩)

theorem lane_incoming (hrun : s.crashed = none) {raw payload : Bytes} {seq : ℕ}
    (hraw : IsData raw seq payload) (addr : Address) (input : IncomingInput) :
    (step cfg s (.incoming raw addr input)).lane addr =
      (s.lane addr).respond
        ((discipline cfg).receive (s.lane addr) seq payload)
        input.sendResult := by
  have hself : ({ s.toCore with
      expected := s.expected.set addr
        (receive cfg.windowSize (s.lane addr) seq payload).expected } :
          Core).lane
        (sub (s.buffer.set addr
          (receive cfg.windowSize (s.lane addr) seq payload).buffer) addr)
        addr =
      (s.lane addr).advance
        (receive cfg.windowSize (s.lane addr) seq payload) := by
    rw [lane_expected, sub_set, if_pos rfl, if_pos rfl]
    rfl
  rw [step, if_neg (by simp [hrun]), handleIncoming_data hraw, handleData_eq]
  exact Lane.lane_acknowledge_respond hself input.sendResult

end SelectiveRepeatTransport

/-! ## The receiver of Stop-and-Wait -/

namespace StopAndWaitTransport

/-- The datagram is returned by `recvfrom` exactly if the bit moves past it;
otherwise the bit still expects it. -/
def HandsOver (t : StopAndWaitTransport) (addr : Address) (payload : Bytes)
    (result : StopAndWaitTransport × Received) : Prop :=
  (∃ ack, result.2 = .returning ack payload) ↔
    result.1.recvBit.getD addr 0 ≠ t.recvBit.getD addr 0

theorem xor_one_ne (n : ℕ) : n ^^^ 1 ≠ n := by
  intro h
  have hone : n ^^^ 1 ^^^ n = 0 := by rw [h, Nat.xor_self]
  rw [Nat.xor_comm, ← Nat.xor_assoc, Nat.xor_self, Nat.zero_xor] at hone
  exact one_ne_zero hone

/-- The bit always moves past the expected datagram. -/
theorem acceptData_expected {t : StopAndWaitTransport} {addr : Address}
    (hfits : t.recvBit.getD addr 0 ≤ 0xFFFFFFFF) (payload : Bytes)
    (sendResult : Option String) :
    ∃ ack, t.acceptData addr (t.recvBit.getD addr 0) payload sendResult =
      ({ t with recvBit := t.recvBit.set addr (t.recvBit.getD addr 0 ^^^ 1) },
        match sendResult with
        | some what => .raised (.channel what)
        | none => .returning ack payload) := by
  have hturned : t.recvBit.getD addr 0 ^^^ 1 < 2 ^ 32 :=
    Nat.xor_lt_two_pow (by omega) (by norm_num)
  obtain ⟨ack, hack⟩ := ackPacket_isOk_iff.mpr (Nat.le_of_lt_succ hturned)
  refine ⟨ack, ?_⟩
  cases sendResult with
  | none => simp [acceptData, hack]
  | some what => simp [acceptData, hack]

theorem handsOver_recvPacket_iff (t : StopAndWaitTransport) (addr : Address)
    {raw payload : Bytes}
    (hraw : IsDatagram raw (t.recvBit.getD addr 0) payload)
    (sendResult : Option String) :
    t.HandsOver addr payload (t.recvPacket raw addr sendResult) ↔
      sendResult = none := by
  have hfits : t.recvBit.getD addr 0 ≤ 0xFFFFFFFF := by
    obtain ⟨-, header, -, -, hseq⟩ := hraw
    rw [← hseq]
    exact header.isValid.seq
  obtain ⟨ack, hresult⟩ := acceptData_expected hfits payload sendResult
  have hmoved : (t.recvBit.set addr (t.recvBit.getD addr 0 ^^^ 1)).getD addr 0 ≠
      t.recvBit.getD addr 0 := by
    rw [Dict.getD, Dict.get?_set, if_pos rfl]
    exact xor_one_ne _
  rw [recvPacket_of_isDatagram hraw, hresult, HandsOver]
  cases sendResult with
  | none => exact ⟨fun _ => rfl, fun _ => ⟨fun _ => hmoved, fun _ => ⟨ack, rfl⟩⟩⟩
  | some what =>
      constructor
      · intro h
        obtain ⟨_, hraised⟩ := h.mpr hmoved
        cases hraised
      · intro h
        cases h

end StopAndWaitTransport

/-! ## All three receivers -/

/-- A windowed receiver hands over or keeps what it accepts, unless the
acknowledgement of the expected datagram is not sent. -/
theorem Windowed.handsOver_incoming_iff {cfg : Config} (t : Windowed)
    (es : List Event) {raw payload : Bytes} {seq : ℕ} (addr : Address)
    (input : IncomingInput) :
    let E := t.endpoint cfg
    let s := run E.step E.init es
    IsData raw seq payload → (E.lane s addr).Accepts E.discipline seq payload →
      ((E.lane s addr).HandsOver E.discipline seq payload
          (E.lane (E.step s (.incoming raw addr input)) addr) ↔
        seq < 0xFFFFFFFF ∧
          (seq = (E.lane s addr).expected → input.sendResult = none)) := by
  intro E s hraw haccepts
  have hrun : (E.core s).crashed = none := by
    simpa [Endpoint.lane, Core.lane] using haccepts.1
  cases t with
  | goBackN =>
      have hlane : E.lane (E.step s (.incoming raw addr input)) addr =
          (E.lane s addr).respond (E.discipline.receive (E.lane s addr) seq
            payload) input.sendResult :=
        GoBackNTransport.lane_incoming hrun hraw addr input
      rw [hlane]
      exact Lane.handsOver_respond_iff
        (GoBackNTransport.takesIn rfl haccepts) GoBackNTransport.keeps haccepts
        input.sendResult
  | selectiveRepeat =>
      have hlane : E.lane (E.step s (.incoming raw addr input)) addr =
          (E.lane s addr).respond (E.discipline.receive (E.lane s addr) seq
            payload) input.sendResult :=
        SelectiveRepeatTransport.lane_incoming hrun hraw addr input
      have hahead := SelectiveRepeatTransport.ahead_run cfg es addr
      rw [hlane]
      exact Lane.handsOver_respond_iff
        (SelectiveRepeatTransport.takesIn hahead haccepts)
        SelectiveRepeatTransport.keeps haccepts input.sendResult

/-- In every reachable state, a datagram that is accepted is handed over or
kept if and only if its acknowledgement is sent or `expected` does not pass it;
the number that is acknowledged must fit the header.  Stop-and-Wait passes
every datagram that it accepts. -/
theorem handedOver_iff_acknowledged (cfg : Config) :
    (∀ (t : Windowed) (es : List Event) (raw payload : Bytes) (seq : ℕ)
      (addr : Address) (input : IncomingInput),
      let E := t.endpoint cfg
      let s := run E.step E.init es
      IsData raw seq payload →
        (E.lane s addr).Accepts E.discipline seq payload →
          ((E.lane s addr).HandsOver E.discipline seq payload
              (E.lane (E.step s (.incoming raw addr input)) addr) ↔
            seq < 0xFFFFFFFF ∧
              (seq = (E.lane s addr).expected → input.sendResult = none))) ∧
    ∀ (t : StopAndWaitTransport) (addr : Address) (raw payload : Bytes)
      (sendResult : Option String),
      IsDatagram raw (t.recvBit.getD addr 0) payload →
        (t.HandsOver addr payload (t.recvPacket raw addr sendResult) ↔
          sendResult = none) :=
  ⟨fun t es _ _ _ addr input => t.handsOver_incoming_iff es addr input,
    fun t addr _ _ sendResult hraw =>
      t.handsOver_recvPacket_iff addr hraw sendResult⟩

/-- A DATA packet with datagram 0. -/
def firstPacket : Bytes :=
  [82, 163, 0, 0, 0, 0, 0, 0, 0, 0, 1, 1, 0, 1, 165, 90, 7]

theorem isData_firstPacket : IsData firstPacket 0 [7] :=
  isData_of_dataPacket (show dataPacket 0 [7] = .ok firstPacket by decide +kernel)

theorem isDatagram_firstPacket : IsDatagram firstPacket 0 [7] :=
  isDatagram_of_dataPacket
    (show dataPacket 0 [7] = .ok firstPacket by decide +kernel)

/-- The equivalence where the acknowledgement is sent. -/
theorem handedOver_iff_acknowledged_first :
    (let E := Windowed.selectiveRepeat.endpoint {}
     (E.lane E.init ("a", 1)).HandsOver E.discipline 0 [7]
       (E.lane (E.step E.init (.incoming firstPacket ("a", 1) ⟨0, 0, none⟩))
         ("a", 1))) ∧
    ({} : StopAndWaitTransport).HandsOver ("a", 1) [7]
      (({} : StopAndWaitTransport).recvPacket firstPacket ("a", 1) none) := by
  constructor
  · exact ((handedOver_iff_acknowledged {}).1 .selectiveRepeat [] firstPacket [7]
      0 ("a", 1) ⟨0, 0, none⟩ isData_firstPacket
      ⟨rfl, le_rfl, Or.inl (by decide +kernel)⟩).mpr
        ⟨by decide, fun _ => rfl⟩
  · exact ((handedOver_iff_acknowledged {}).2 {} ("a", 1) firstPacket [7] none
      isDatagram_firstPacket).mpr rfl

/-- The first datagram arrives at a fresh windowed receiver and the send of its
acknowledgement raises: `expected` has passed it and nothing is delivered. -/
def Windowed.Loses (t : Windowed) : Prop :=
  let E := t.endpoint {}
  let s := E.step E.init
    (.incoming firstPacket ("a", 1) ⟨0, 0, some "unreachable"⟩)
  IsData firstPacket 0 [7] ∧
    (E.lane E.init ("a", 1)).Accepts E.discipline 0 [7] ∧
    (E.lane s ("a", 1)).expected = 1 ∧ (E.lane s ("a", 1)).delivered = [] ∧
    ¬ (E.lane E.init ("a", 1)).HandsOver E.discipline 0 [7] (E.lane s ("a", 1))

theorem Windowed.loses (t : Windowed) : t.Loses := by
  have haccepts : ((t.endpoint {}).lane (t.endpoint {}).init ("a", 1)).Accepts
      (t.endpoint {}).discipline 0 [7] := by
    cases t <;> exact ⟨rfl, le_rfl, Or.inl (by decide +kernel)⟩
  refine ⟨isData_firstPacket, haccepts, ?_, ?_, ?_⟩
  · cases t <;> decide +kernel
  · cases t <;> decide +kernel
  · intro h
    have hiff := t.handsOver_incoming_iff [] ("a", 1)
      ⟨0, 0, some "unreachable"⟩ isData_firstPacket haccepts
    have hsent := (hiff.mp h).2 (by cases t <;> rfl)
    cases hsent

/-- With the acknowledgement not sent, all three receivers lose the datagram. -/
theorem unacknowledged_lost :
    Windowed.goBackN.Loses ∧ Windowed.selectiveRepeat.Loses ∧
      IsDatagram firstPacket 0 [7] ∧
      ¬ ({} : StopAndWaitTransport).HandsOver ("a", 1) [7]
        (({} : StopAndWaitTransport).recvPacket firstPacket ("a", 1)
          (some "unreachable")) := by
  refine ⟨Windowed.loses _, Windowed.loses _, isDatagram_firstPacket, fun h => ?_⟩
  cases (StopAndWaitTransport.handsOver_recvPacket_iff {} ("a", 1)
    isDatagram_firstPacket _).mp h

end UdpArq
