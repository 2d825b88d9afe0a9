import UdpArq.Windowed.Flush

/-!
# The critical sections of the background thread

`_drain_outbound` takes an item with `get_nowait` and only then acquires
`_lock` to store it; Go-Back-N releases the lock several times in one timeout
sweep.  What lies between two such sections is visible to the application.

The sections are given here for channels whose sends do not raise.  All the
other operations hold the lock once, or touch nothing that the sections share
when they do not hold it.
-/

namespace UdpArq

open UdpArq.Core

namespace GoBackNTransport

variable (cfg : Config)

/-- The locked section of `_drain_outbound`. -/
def registerItem (s : GoBackNTransport) (item : Item) : GoBackNTransport :=
  let s : GoBackNTransport :=
    { toCore := s.register item s.outbound
      timerDeadline := s.timerDeadline.setdefault item.addr none }
  match newEstimator cfg with
  | none => { s with toCore := s.crash .rtoBounds }
  | some r =>
      { s with
        rto := s.rto.setdefault item.addr r
        sendTime := s.sendTime.setdefault item.addr ∅
        retransmitted := s.retransmitted.setdefault item.addr ∅ }

/-- The locked sections of `_handle_timeouts` for one peer: the decision what
to do, the mark on a packet that is about to be sent again, and the restart of
the timer. -/
inductive TimeoutSection
  | expire (addr : Address) (now : ℚ)
  | mark (addr : Address) (seq : ℕ)
  | restart (addr : Address) (now : ℚ)

/-- The first locked section of `_handle_timeouts` for one peer. -/
def expirePeer (s : GoBackNTransport) (addr : Address) (now : ℚ) :
    GoBackNTransport :=
  match s.timerDeadline.getD addr none with
  | none => s
  | some deadline =>
      if now < deadline then s
      else if (sub s.outstanding addr).keys = [] then
        { s with timerDeadline := s.timerDeadline.set addr none }
      else
        let retries := s.retries.getD addr 0 + 1
        let s := { s with retries := s.retries.set addr retries }
        if retries > cfg.maxRetries then
          failPeer s addr (.noAck addr cfg.maxRetries)
        else s

/-- `self._retransmitted.setdefault(addr, set()).add(seq)`, in adaptive mode. -/
def markRetransmitted (s : GoBackNTransport) (addr : Address) (seq : ℕ) :
    GoBackNTransport :=
  if cfg.adaptive then
    { s with
      retransmitted := s.retransmitted.set addr
        (insert seq (s.retransmitted.getD addr ∅)) }
  else s

def timeoutSection (s : GoBackNTransport) :
    TimeoutSection → GoBackNTransport
  | .expire addr now => expirePeer cfg s addr now
  | .mark addr seq => markRetransmitted cfg s addr seq
  | .restart addr now => restartTimer cfg s addr now

variable {cfg} {s : GoBackNTransport}

theorem drainItem_eq_registerItem {item : Item} {rest : List Item}
    (hqueue : s.outbound = item :: rest) :
    drainItem cfg s =
      registerItem cfg { s with toCore := { s.toCore with outbound := rest } }
        item := by
  simp only [drainItem, hqueue]
  rfl

/-- The retransmission loop is made of marks and sends. -/
theorem retransmit_eq_sections {input : SweepInput} {addr : Address}
    (hsend : ∀ seq, input.sendResult addr seq = none)
    (outstanding : Dict ℕ Bytes) (seqs : List ℕ) (s : GoBackNTransport) :
    retransmit cfg input addr outstanding seqs s =
      seqs.foldl (fun s seq =>
        let s := timeoutSection cfg s (.mark addr seq)
        { s with toCore := s.transmit (outstanding.getD seq []) addr }) s := by
  induction seqs generalizing s with
  | nil => rfl
  | cons seq rest ih =>
      rw [List.foldl_cons, ← ih]
      simp only [retransmit, hsend]
      rfl

/-- A timeout sweep of one peer begins with the first section and ends with the
last one. -/
theorem timeoutPeer_eq_sections (input : SweepInput) (addr : Address)
    (s : GoBackNTransport) :
    timeoutPeer cfg input s addr =
      let expired := timeoutSection cfg s (.expire addr input.now)
      if expired.retries.getD addr 0 = s.retries.getD addr 0 ∨
          expired.retries.getD addr 0 > cfg.maxRetries then expired
      else
        timeoutSection cfg
          (retransmit cfg input addr (sub s.outstanding addr)
            ((sub s.outstanding addr).keys.insertionSort fun a b => a ≤ b)
            expired)
          (.restart addr (input.restartAt addr)) := by
  cases htimer : s.timerDeadline.getD addr none with
  | none => simp [timeoutPeer, timeoutSection, expirePeer, htimer]
  | some deadline =>
      by_cases hdue : input.now < deadline
      · simp [timeoutPeer, timeoutSection, expirePeer, htimer, hdue]
      · by_cases hempty : (sub s.outstanding addr).keys = []
        · simp [timeoutPeer, timeoutSection, expirePeer, htimer, hdue, hempty]
        · have hretries : (s.retries.set addr
              (s.retries.getD addr 0 + 1)).getD addr 0 =
                s.retries.getD addr 0 + 1 := by simp [Dict.getD]
          by_cases hmax : cfg.maxRetries < s.retries.getD addr 0 + 1
          · simp [timeoutPeer, timeoutSection, expirePeer, htimer, hdue, hempty,
              hmax, hretries, failPeer, Core.failPeer, setStatus]
          · simp [timeoutPeer, timeoutSection, expirePeer, htimer, hdue, hempty,
              hmax, hretries]

/-! ### On the lanes -/

/-- Only the first section can touch a lane, by giving the peer up. -/
theorem lane_expirePeer (addr : Address) (now : ℚ) (b : Address) :
    (expirePeer cfg s addr now).lane b = s.lane b ∨
      ∃ e, (expirePeer cfg s addr now).lane b = (s.lane b).failPeer e := by
  cases htimer : s.timerDeadline.getD addr none with
  | none =>
      left
      simp only [expirePeer, htimer]
  | some deadline =>
      simp only [expirePeer, htimer]
      split_ifs with hdue hempty hmax
      · exact Or.inl rfl
      · exact Or.inl rfl
      · by_cases hb : b = addr
        · subst hb
          exact Or.inr ⟨_, lane_failPeer_self _ b _⟩
        · exact Or.inl (congrArg Prod.fst (view_failPeer _ addr _ hb))
      · exact Or.inl rfl

theorem markRetransmitted_lane (addr : Address) (seq : ℕ) (b : Address) :
    (markRetransmitted cfg s addr seq).lane b = s.lane b := by
  unfold markRetransmitted
  split <;> rfl

/-- Restarting the timer can at most kill the thread. -/
theorem lane_restartTimer (addr : Address) (now : ℚ) (b : Address) :
    (restartTimer cfg s addr now).lane b = s.lane b ∨
      (restartTimer cfg s addr now).lane b = (s.lane b).crash := by
  by_cases hempty : (sub s.outstanding addr).keys = []
  · rw [restartTimer, if_pos hempty]
    exact Or.inl rfl
  by_cases hrto : (s.rto.get? addr).isSome
  · obtain ⟨s', rfl, hself, hother, -⟩ := restartTimer_spec cfg s hrto now
    by_cases hb : b = addr
    · exact Or.inl (hb ▸ hself)
    · exact Or.inl (congrArg Prod.fst (hother b hb))
  · have hnone : s.rto.get? addr = none := Option.not_isSome_iff_eq_none.mp hrto
    by_cases hadaptive : cfg.adaptive
    · right
      simp [restartTimer, hempty, hadaptive, hnone, rtoValue, lane, Core.lane,
        Core.crash, Lane.crash]
    · left
      simp [restartTimer, hempty, hadaptive, rtoValue, lane]

theorem timeoutSection_step (t : TimeoutSection) (input : SweepInput)
    (b : Address) :
    Lane.Step cfg discipline (fun _ => True) (s.lane b) (.timeouts input)
      ((timeoutSection cfg s t).lane b) := by
  cases t with
  | expire addr now =>
      rcases lane_expirePeer addr now b with hsame | ⟨e, hfailed⟩
      · rw [timeoutSection, hsame]
        exact .idle _
      · have hstep : Lane.Step cfg discipline (fun _ => True) (s.lane b)
            (.timeouts input) (((s.lane b).resend []).failPeer e) :=
          .giveUp (fun raw hraw => absurd hraw List.not_mem_nil) trivial
        rw [timeoutSection, hfailed]
        exact hstep
  | mark addr seq =>
      rw [timeoutSection, markRetransmitted_lane]
      exact .idle _
  | restart addr now =>
      rcases lane_restartTimer addr now b with hsame | hcrashed
      · rw [timeoutSection, hsame]
        exact .idle _
      · rw [timeoutSection, hcrashed]
        exact .crash _

end GoBackNTransport

namespace SelectiveRepeatTransport

variable (cfg : Config)

/-- The locked section of `_drain_outbound`. -/
def registerItem (s : SelectiveRepeatTransport) (item : Item) :
    SelectiveRepeatTransport :=
  let s : SelectiveRepeatTransport :=
    { s with
      toCore := s.register item s.outbound
      buffer := s.buffer.setdefault item.addr ∅ }
  let s : SelectiveRepeatTransport :=
    { s with
      retransmitted := s.retransmitted.setdefault item.addr ∅ }
  match newEstimator cfg with
  | none => { s with toCore := s.crash .rtoBounds }
  | some r =>
      { s with
        rto := s.rto.setdefault item.addr r
        sendTime := s.sendTime.setdefault item.addr ∅ }

/-- A timeout sweep, which holds the lock from its first change to its end. -/
structure TimeoutSection where
  now : ℚ
  rearmAt : Address → ℕ → ℚ

def TimeoutSection.input (t : TimeoutSection) : SweepInput where
  now := t.now
  restartAt _ := t.now
  rearmAt := t.rearmAt
  sendResult _ _ := none

def timeoutSection (s : SelectiveRepeatTransport) (t : TimeoutSection) :
    SelectiveRepeatTransport :=
  handleTimeouts cfg s t.input

variable {cfg} {s : SelectiveRepeatTransport}

theorem drainItem_eq_registerItem {item : Item} {rest : List Item}
    (hqueue : s.outbound = item :: rest) :
    drainItem cfg s =
      registerItem cfg { s with toCore := { s.toCore with outbound := rest } }
        item := by
  simp only [drainItem, hqueue]
  rfl

theorem timeoutSection_step (hrun : s.crashed = none) (h : s.WellFormed)
    (t : TimeoutSection) (b : Address) :
    Lane.Step cfg (discipline cfg) (PeerFails cfg s b) (s.lane b)
      (.timeouts t.input) ((timeoutSection cfg s t).lane b) := by
  have hsweep : step cfg s (.timeouts t.input) = timeoutSection cfg s t :=
    if_neg (by simp [hrun])
  rw [← hsweep]
  exact step_refines h (.timeouts t.input) b

end SelectiveRepeatTransport

/-! ## Both transports by sections -/

/-- An endpoint with the sections that are smaller than its steps: the two
halves of `drain`, and what a timeout sweep is made of. -/
structure Sectioned (cfg : Config) extends Endpoint cfg where
  Timeout : Type
  setOutbound : State → List Item → State
  registerItem : State → Item → State
  timeout : State → Timeout → State
  core_setOutbound : ∀ s queue,
    core (setOutbound s queue) = { core s with outbound := queue }
  setOutbound_self : ∀ s, setOutbound s (core s).outbound = s
  setOutbound_setOutbound : ∀ s queue queue',
    setOutbound (setOutbound s queue) queue' = setOutbound s queue'
  step_sendto : ∀ s data addr item,
    step (setOutbound s (item :: (core s).outbound)) (.sendto data addr) =
      setOutbound (step s (.sendto data addr))
        (item :: (core (step s (.sendto data addr))).outbound)
  step_recvfrom : ∀ s item,
    step (setOutbound s (item :: (core s).outbound)) .recvfrom =
      setOutbound (step s .recvfrom)
        (item :: (core (step s .recvfrom)).outbound)
  step_drain : ∀ s item, (core s).crashed = none →
    step (setOutbound s (item :: (core s).outbound)) .drain =
      registerItem s item
  step_timeout : ∀ s t b, (core s).crashed = none → toEndpoint.WellFormed s →
    ∃ fails input, Lane.Step cfg discipline fails (toEndpoint.lane s b)
      (.timeouts input) (toEndpoint.lane (timeout s t) b)
  step_unencodable : ∀ s addr input seq item e, (core s).crashed = none →
    (core s).nextToSend cfg addr = some (seq, item) →
      dataPacket seq item.data = .error e →
        core (step s (.pump addr input)) =
          ((core s).popPending addr seq).crash (.packet e)

end UdpArq
