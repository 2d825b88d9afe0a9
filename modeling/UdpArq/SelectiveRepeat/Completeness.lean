import UdpArq.SelectiveRepeat.Reassembly

/-!
# A Selective Repeat receiver is complete

The receive window slides while packets arrive, but only upwards, so what has
once been in the window has been delivered or is buffered from then on.  Since
the drain loop leaves nothing deliverable behind, a window full of packets is
delivered whatever the order in which they arrive.
-/

namespace UdpArq

namespace SelectiveRepeatTransport

open UdpArq.Core

/-! ## Sequences of datagrams -/

/-- A packet that arrives from the peer, with the clock and the outcome of the
ACK send. -/
abbrev Arrival := Bytes × IncomingInput

/-- `_handle_incoming` for one packet of the sequence. -/
def arrive (cfg : Config) (addr : Address) (s : SelectiveRepeatTransport)
    (x : Arrival) : SelectiveRepeatTransport :=
  handleIncoming cfg s x.1 addr x.2

/-- The number that acknowledges the packet fits the header: it is not the last
sequence number, unless that is too far ahead. -/
def Answerable (cfg : Config) (addr : Address) (s : SelectiveRepeatTransport)
    (x : Arrival) : Prop :=
  ∀ payload, IsData x.1 0xFFFFFFFF payload →
    s.expected.getD addr 0 + cfg.windowSize ≤ 0xFFFFFFFF

variable {cfg : Config} {addr : Address} {s : SelectiveRepeatTransport}

theorem Answerable.ackPacket {x : Arrival} (h : Answerable cfg addr s x)
    {seq : ℕ} {payload : Bytes} (hraw : IsData x.1 seq payload) :
    ∃ packet, ackPacket
      (receive cfg.windowSize (s.lane addr) seq payload).ackFor = .ok packet := by
  have hseq := hraw.fits.1
  apply ackPacket_isOk_iff.mpr
  have hexpected : (s.lane addr).expected = s.expected.getD addr 0 := rfl
  simp only [receive, hexpected]
  by_cases hlast : seq = 0xFFFFFFFF
  · subst hlast
    have hfar := h payload hraw
    split_ifs <;> omega
  · split_ifs <;> omega

/-- Any other sequence number can be answered in any state. -/
theorem meets_answerable {arrivals : List Arrival}
    (h : ∀ x ∈ arrivals, ∃ q payload, IsData x.1 q payload ∧ q ≠ 0xFFFFFFFF) :
    Meets (arrive cfg addr) (Answerable cfg addr) s arrivals := by
  refine (meets_of_forall h).mono fun s x hx => ?_
  obtain ⟨q, payload, hraw, hne⟩ := hx
  exact fun payload' hlast => absurd (hraw.unique hlast).1 hne

/-- A datagram that can be answered is taken in and answered by one ACK. -/
theorem arrive_eq {x : Arrival} {seq : ℕ} {payload packet : Bytes}
    (hraw : IsData x.1 seq payload) (hsend : x.2.sendResult = none)
    (hpacket : ackPacket
      (receive cfg.windowSize (s.lane addr) seq payload).ackFor = .ok packet) :
    (arrive cfg addr s x).channel = (packet, addr) :: s.channel ∧
      (arrive cfg addr s x).incomingData.puts = s.incomingData.puts ++
        (receive cfg.windowSize (s.lane addr) seq payload).payloads.map
          (fun p => (p, addr)) ∧
      ((arrive cfg addr s x).lane addr).expected =
        (receive cfg.windowSize (s.lane addr) seq payload).expected ∧
      ((arrive cfg addr s x).lane addr).buffer =
        (receive cfg.windowSize (s.lane addr) seq payload).buffer := by
  rw [arrive, handleIncoming_data hraw, handleData_eq]
  simp only [acknowledge, hpacket, hsend, transmit, puts_foldl_put]
  refine ⟨trivial, trivial, ?_, ?_⟩
  · simp [lane, Core.lane, Dict.getD]
  · simp [lane, Core.lane]

variable {data : ℕ → Bytes} {s' s'' : SelectiveRepeatTransport}

/-- The buffer lies in the window and holds payloads of `data`. -/
structure Agrees (cfg : Config) (addr : Address) (data : ℕ → Bytes)
    (s : SelectiveRepeatTransport) : Prop where
  ahead : (s.lane addr).Ahead cfg.windowSize
  buffered : ∀ q p, (sub s.buffer addr).get? q = some p → p = data q

/-- The `n` next payloads have been delivered, and nothing that was there before
is lost. -/
structure Delivers (addr : Address) (data : ℕ → Bytes)
    (s s' : SelectiveRepeatTransport) (n : ℕ) : Prop where
  expected : s'.expected.getD addr 0 = s.expected.getD addr 0 + n
  puts : s'.incomingData.puts = s.incomingData.puts ++
    (List.range' (s.expected.getD addr 0) n).map fun q => (data q, addr)
  has : ∀ q, (s.lane addr).Has q → (s'.lane addr).Has q

theorem Delivers.refl (addr : Address) (data : ℕ → Bytes)
    (s : SelectiveRepeatTransport) : Delivers addr data s s 0 where
  expected := rfl
  puts := (List.append_nil _).symm
  has _ hq := hq

theorem Delivers.trans {n n' : ℕ} (h : Delivers addr data s s' n)
    (h' : Delivers addr data s' s'' n') : Delivers addr data s s'' (n + n') where
  expected := by rw [h'.expected, h.expected, Nat.add_assoc]
  puts := by
    rw [h'.puts, h.puts, h.expected, List.append_assoc, ← List.map_append,
      ← List.range'_append_1]
  has q hq := h'.has q (h.has q hq)

/-- One datagram. -/
theorem Agrees.one (h : Agrees cfg addr data s) {x : Arrival} {seq : ℕ}
    (hraw : IsData x.1 seq (data seq)) (hsend : x.2.sendResult = none)
    (hfits : Answerable cfg addr s x) :
    ∃ n, Delivers addr data s (arrive cfg addr s x) n ∧
      Agrees cfg addr data (arrive cfg addr s x) ∧
      (seq < s.expected.getD addr 0 + cfg.windowSize →
        ((arrive cfg addr s x).lane addr).Has seq) ∧
      ∃ ack k, IsAck ack k ∧ (arrive cfg addr s x).channel =
        (ack, addr) :: s.channel := by
  obtain ⟨packet, hpacket⟩ := hfits.ackPacket hraw
  obtain ⟨hchannel, hputs, hexpected, hbuffer⟩ := arrive_eq hraw hsend hpacket
  have hmove := (receive_eq cfg.windowSize (s.lane addr) seq (data seq)).1
  have hbuffered : ∀ q p, (s.lane addr).buffer.get? q = some p → p = data q :=
    h.buffered
  obtain ⟨hpayloads, hagrees⟩ :=
    receive_agrees cfg.windowSize seq hbuffered
  have hlane : ∀ q, ((s.lane addr).advance
      (receive cfg.windowSize (s.lane addr) seq (data seq))).Has q →
        ((arrive cfg addr s x).lane addr).Has q := by
    intro q hq
    rwa [Lane.Has, hexpected, hbuffer]
  refine ⟨(receive cfg.windowSize (s.lane addr) seq (data seq)).expected -
    (s.lane addr).expected, ⟨?_, ?_, fun q hq => ?_⟩, ⟨?_, ?_⟩,
    fun hwindow => ?_, packet, _, isAck_of_ackPacket hpacket, hchannel⟩
  · exact hexpected.trans (Nat.add_sub_cancel' hmove).symm
  · rw [hputs, hpayloads, List.map_map]
    rfl
  · exact hlane q (has_receive (Or.inl hq))
  · have hahead := ahead_receive h.ahead seq (data seq)
    intro q hq
    rw [hbuffer] at hq
    rw [hexpected]
    exact hahead q hq
  · intro q p hp
    have hget : ((arrive cfg addr s x).lane addr).buffer.get? q = some p := hp
    rw [hbuffer] at hget
    exact hagrees q p hget
  · exact hlane seq (has_receive (Or.inr ⟨rfl, hwindow⟩))

/-- A sequence of datagrams: what was in the window when the sequence began and
has arrived is delivered or buffered. -/
theorem Agrees.all {arrivals : List Arrival}
    (hdata : ∀ x ∈ arrivals, ∃ q, IsData x.1 q (data q))
    (hsend : ∀ x ∈ arrivals, x.2.sendResult = none)
    {s : SelectiveRepeatTransport} (h : Agrees cfg addr data s)
    (hfits : Meets (arrive cfg addr) (Answerable cfg addr) s arrivals) :
    ∃ n, Delivers addr data s (run (arrive cfg addr) s arrivals) n ∧
      Agrees cfg addr data (run (arrive cfg addr) s arrivals) ∧
      ∀ x ∈ arrivals, ∀ q, IsData x.1 q (data q) →
        q < s.expected.getD addr 0 + cfg.windowSize →
          ((run (arrive cfg addr) s arrivals).lane addr).Has q := by
  induction arrivals generalizing s with
  | nil => exact ⟨0, .refl addr data s, h, by simp⟩
  | cons x rest ih =>
      obtain ⟨hfirst, hrest⟩ := hfits
      obtain ⟨seq, hraw⟩ := hdata x List.mem_cons_self
      obtain ⟨n, hone, hagrees, hwindow, -⟩ :=
        h.one hraw (hsend x List.mem_cons_self) hfirst
      obtain ⟨n', hmore, hagrees', harrived⟩ := ih
        (fun y hy => hdata y (List.mem_cons_of_mem _ hy))
        (fun y hy => hsend y (List.mem_cons_of_mem _ hy)) hagrees hrest
      refine ⟨n + n', hone.trans hmore, hagrees', fun y hy q hq hlt => ?_⟩
      rcases List.mem_cons.mp hy with rfl | hy
      · obtain ⟨rfl, -⟩ := hraw.unique hq
        exact hmore.has seq (hwindow hlt)
      · -- The window has only moved up in the meantime.
        apply harrived y hy q hq
        rw [hone.expected]
        omega

/-- Datagrams from the peer, each number with its payload of `data`, whose ACK
sends do not raise and among which are the `m` next ones. -/
structure Continues (addr : Address) (data : ℕ → Bytes) (m : ℕ)
    (s : SelectiveRepeatTransport) (arrivals : List Arrival) : Prop where
  datagrams : ∀ x ∈ arrivals, ∃ q, IsData x.1 q (data q)
  sends : ∀ x ∈ arrivals, x.2.sendResult = none
  next : ∀ i < m, ∃ x ∈ arrivals, IsData x.1 (s.expected.getD addr 0 + i)
    (data (s.expected.getD addr 0 + i))

/-- What is asked of a receiver: after the sequence the numbers up to `k + m`
have been delivered, `k` being the next expected one before it, and nothing but
the payloads that follow; each packet was answered by one ACK. -/
structure Completes (cfg : Config) (addr : Address) (data : ℕ → Bytes) (m : ℕ)
    (s : SelectiveRepeatTransport) (arrivals : List Arrival) : Prop where
  delivered : ∃ n, m ≤ n ∧
    (run (arrive cfg addr) s arrivals).expected.getD addr 0 =
      s.expected.getD addr 0 + n ∧
    (run (arrive cfg addr) s arrivals).incomingData.puts =
      s.incomingData.puts ++ (List.range' (s.expected.getD addr 0) n).map
        fun q => (data q, addr)
  answered : ∀ pre x post, arrivals = pre ++ x :: post →
    ∃ ack k, IsAck ack k ∧
      (run (arrive cfg addr) s (pre ++ [x])).channel =
        (ack, addr) :: (run (arrive cfg addr) s pre).channel

/-- From every reachable state, a sequence of datagrams that contains the `m`
next ones, in whatever order and with whatever else, is delivered completely
and answered packet by packet, as long as no packet with the last sequence
number arrives that is not too far ahead. -/
theorem receiver_complete (cfg : Config) (es : List Event) (addr : Address)
    (data : ℕ → Bytes) (m : ℕ) (arrivals : List Arrival)
    (hbuffered : ∀ q p,
      (sub (run (step cfg) init es).buffer addr).get? q = some p → p = data q)
    (harrivals : Continues addr data m (run (step cfg) init es) arrivals)
    (hm : m ≤ cfg.windowSize)
    (hfits : Meets (arrive cfg addr) (Answerable cfg addr)
      (run (step cfg) init es) arrivals) :
    Completes cfg addr data m (run (step cfg) init es) arrivals := by
  have hagrees : Agrees cfg addr data (run (step cfg) init es) :=
    ⟨ahead_run cfg es addr, hbuffered⟩
  obtain ⟨hdata, hsend, hall⟩ := harrivals
  generalize run (step cfg) init es = s at *
  constructor
  · obtain ⟨n, hdelivers, hagrees', harrived⟩ := hagrees.all hdata hsend hfits
    refine ⟨n, ?_, hdelivers.expected, hdelivers.puts⟩
    -- The next expected number is not buffered, so it has not arrived.
    by_contra hlt
    obtain ⟨x, hx, hraw⟩ := hall n (not_le.mp hlt)
    rw [← hdelivers.expected] at hraw
    have hhas := harrived x hx _ hraw (by rw [hdelivers.expected]; omega)
    rcases hhas with hold | hbuffer
    · exact lt_irrefl _ hold
    · exact lt_irrefl _ (hagrees'.ahead _ hbuffer).1
  · rintro pre x post rfl
    have hpre : ∀ y ∈ pre, y ∈ pre ++ x :: post :=
      fun y hy => List.mem_append_left _ hy
    have hx : x ∈ pre ++ x :: post :=
      List.mem_append_right _ List.mem_cons_self
    obtain ⟨hmeets, hnow, -⟩ := (meets_append s pre (x :: post)).mp hfits
    obtain ⟨n, -, hagrees', -⟩ := hagrees.all
      (fun y hy => hdata y (hpre y hy)) (fun y hy => hsend y (hpre y hy)) hmeets
    obtain ⟨seq, hraw⟩ := hdata x hx
    obtain ⟨-, -, -, -, ack, k, hack, hchannel⟩ :=
      hagrees'.one hraw (hsend x hx) hnow
    rw [run_concat]
    exact ⟨ack, k, hack, hchannel⟩

/-- The packet with one datagram, and an ACK send that does not raise. -/
def arrivalOf (q : ℕ) (payload : Bytes) : Arrival :=
  (match dataPacket q payload with
    | .ok packet => packet
    | .error _ => [], ⟨0, 0, none⟩)

theorem isData_arrivalOf {q : ℕ} {payload : Bytes} (hq : q ≤ 0xFFFFFFFF)
    (hlen : payload.length ≤ MAX_PAYLOAD) :
    IsData (arrivalOf q payload).1 q payload := by
  obtain ⟨packet, hpacket⟩ := dataPacket_isOk_iff.mpr ⟨hq, hlen⟩
  rw [arrivalOf, hpacket]
  exact isData_of_dataPacket hpacket

/-- Three datagrams that arrive in reverse order, the middle one twice. -/
theorem receiver_complete_reversed :
    Completes {} ("a", 1) (fun q => [UInt8.ofNat q]) 3 init
      ([2, 1, 1, 0].map fun q => arrivalOf q [UInt8.ofNat q]) := by
  have hsmall : ∀ q ∈ [2, 1, 1, 0], q < 3 := by decide
  have hraw : ∀ q ∈ [2, 1, 1, 0], IsData (arrivalOf q [UInt8.ofNat q]).1 q
      [UInt8.ofNat q] := by
    intro q hq
    have hlt := hsmall q hq
    exact isData_arrivalOf (by omega) (by simp [MAX_PAYLOAD, HEADER_SIZE])
  refine receiver_complete {} [] ("a", 1) (fun q => [UInt8.ofNat q]) 3 _
    (fun q p hp => by cases hp) ⟨?_, ?_, ?_⟩ (by decide) ?_
  · intro x hx
    obtain ⟨q, hq, rfl⟩ := List.mem_map.mp hx
    exact ⟨q, hraw q hq⟩
  · intro x hx
    obtain ⟨q, hq, rfl⟩ := List.mem_map.mp hx
    rfl
  · intro i hi
    have hmem : i ∈ [2, 1, 1, 0] := by
      simp only [List.mem_cons, List.not_mem_nil, or_false]
      omega
    have hzero : (run (step {}) init []).expected.getD ("a", 1) 0 + i = i :=
      Nat.zero_add i
    rw [hzero]
    exact ⟨_, List.mem_map_of_mem hmem, hraw i hmem⟩
  · refine meets_answerable fun x hx => ?_
    obtain ⟨q, hq, rfl⟩ := List.mem_map.mp hx
    have hlt := hsmall q hq
    exact ⟨q, _, hraw q hq, by omega⟩

/-- A receiver whose window contains the last sequence number does not answer
it. -/
theorem receiver_incomplete :
    let cfg : Config := { windowSize := 2 ^ 32 }
    let arrivals := [arrivalOf 0xFFFFFFFF [], arrivalOf 0 []]
    Continues ("a", 1) (fun _ => []) 1 init arrivals ∧ 1 ≤ cfg.windowSize ∧
      ¬ Completes cfg ("a", 1) (fun _ => []) 1 init arrivals := by
  have hempty : ∀ q ≤ 0xFFFFFFFF, IsData (arrivalOf q []).1 q [] :=
    fun q hq => isData_arrivalOf hq (Nat.zero_le _)
  refine ⟨⟨?_, ?_, ?_⟩, by decide, fun h => ?_⟩
  · intro x hx
    rcases List.mem_pair.mp hx with rfl | rfl
    · exact ⟨_, hempty _ le_rfl⟩
    · exact ⟨_, hempty _ (Nat.zero_le _)⟩
  · intro x hx
    rcases List.mem_pair.mp hx with rfl | rfl <;> rfl
  · intro i hi
    obtain rfl : i = 0 := by omega
    exact ⟨_, List.mem_pair.mpr (Or.inr rfl), hempty 0 (Nat.zero_le _)⟩
  · obtain ⟨ack, k, -, hchannel⟩ := h.answered [] _ _ rfl
    have hnone : (run (arrive { windowSize := 2 ^ 32 } ("a", 1)) init
        ([] ++ [arrivalOf 0xFFFFFFFF []])).channel = [] := by
      decide +kernel
    rw [hnone] at hchannel
    cases hchannel

end SelectiveRepeatTransport

end UdpArq
