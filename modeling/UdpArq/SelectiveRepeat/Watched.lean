import UdpArq.SelectiveRepeat.Armed

/-!
# Per-packet timers never miss a packet

Whenever the lock is free, every outstanding packet has an entry in the timer
heap, and every call of the channel is for a packet that is still outstanding
and has not been settled.
-/

namespace UdpArq

namespace Lane

variable {cfg : Config} {D : Discipline} {l l' : Lane}

theorem Turn.nextSeq_le (ht : Turn cfg D l l') : l.nextSeq ≤ l'.nextSeq := by
  cases ht with
  | event hclose hstep => exact hstep.nextSeq_le
  | launch => exact le_rfl
  | discard => exact le_rfl

/-- What waits afterwards waited before, or has just been numbered. -/
theorem Turn.waiting (hwf : l.WellFormed) (ht : Turn cfg D l l') {w : ℕ}
    (hw : w ∈ l'.waiting) : w ∈ l.waiting ∨ w = l.nextSeq := by
  cases ht with
  | event hclose hstep => exact hstep.waiting hwf hw
  | launch => exact Or.inl (mem_waiting_popPending hw)
  | discard => exact Or.inl hw

end Lane

namespace SelectiveRepeatTransport

open UdpArq.Core

/-- An acknowledgement of an outstanding packet is taken. -/
theorem slide_of_outstanding {l : Lane} (hwf : l.WellFormed) {q : ℕ}
    (hq : q ∈ l.outstanding.keys) :
    ∃ base, slide l (q + 1) = some ([q], base) := by
  have hlt := Lane.lt_nextSeq_of_held hwf (Or.inl hq)
  rcases hbase : l.base with _ | base
  · rw [(hwf.ready.base_none hbase).2] at hq
    cases hq
  · refine ⟨advanceBase (l.outstanding.eraseAll [q]) l.nextSeq
      (l.nextSeq - base) base, ?_⟩
    simp only [slide, hbase, if_neg (not_lt.mpr (Nat.succ_le_of_lt hlt)),
      if_pos hq]

namespace Threaded

variable {cfg : Config} {m : Threaded}

theorem whole_of_free (h : m.phase = .free) : m.whole = m.transport := by
  rw [whole, h]

theorem busy_eq_false :
    m.busy = false ↔ m.phase = .free ∧ ¬ m.transport.crashed.isSome := by
  rcases hphase : m.phase <;> simp [busy, hphase]

/-- The item that is put back changes the queue only. -/
theorem whole_eq (m : Threaded) :
    ∃ queue, m.whole = setOutbound m.transport queue := by
  rcases hphase : m.phase
  case storing item =>
    exact ⟨item :: m.transport.outbound, by rw [whole, hphase]⟩
  all_goals exact ⟨m.transport.outbound, by rw [whole, hphase]; rfl⟩

theorem whole_lane (m : Threaded) (b : Address) :
    (m.whole.lane b).outstanding = sub m.transport.outstanding b ∧
      (m.whole.lane b).sentItems = sub m.transport.sentItems b ∧
      (m.whole.lane b).pending = sub m.transport.pending b ∧
      (m.whole.lane b).status = m.transport.status b := by
  obtain ⟨queue, hwhole⟩ := m.whole_eq
  rw [hwhole]
  exact ⟨rfl, rfl, rfl, rfl⟩

/-- A thread that has a section to finish runs, and the packet that this
section is about is outstanding. -/
def Pursues (s : SelectiveRepeatTransport) : Phase → Prop
  | .free => True
  | .storing _ => s.crashed = none
  | .sending addr seq packet _ => s.crashed = none ∧
      (sub s.outstanding addr).get? seq = some packet
  | .discarding addr seq _ => s.crashed = none ∧
      seq ∈ (sub s.outstanding addr).keys

theorem Pursues.congr {s s' : SelectiveRepeatTransport} {p : Phase}
    (h : Pursues s p) (hout : s'.outstanding = s.outstanding)
    (hcrashed : s'.crashed = s.crashed) : Pursues s' p := by
  rcases p
  case free => trivial
  all_goals simpa only [Pursues, hout, hcrashed] using h

/-- What holds whenever the lock is free. -/
structure Sound (m : Threaded) : Prop where
  wellFormed : m.whole.WellFormed
  settles : ∀ b, (m.whole.lane b).Settles
  errors : ∀ b, (m.whole.lane b).ErrorsSet
  timed : Timed m.transport fun _ _ => False
  pursues : Pursues m.transport m.phase
  attempted : ∀ b,
    Timing.Attempted (m.whole.lane b) (Attempt.toPeer b m.calls)

theorem Sound.init : ({} : Threaded).Sound where
  wellFormed := Endpoint.WellFormed.init (E := endpoint {})
  settles b := fun q hq => by cases hq
  errors b := fun q hq => absurd rfl hq
  timed := ⟨TimerHeap.faithful_empty, fun a q hq => by cases hq⟩
  pursues := trivial
  attempted b := Timing.attempted_nil _

/-! ## Turns on the lanes -/

/-- Only the queue differs, and it holds the item at its front. -/
theorem whole_step_app (m : Threaded) (e : Event)
    (hfree : ∀ s item, SelectiveRepeatTransport.step cfg
      (setOutbound s (item :: s.outbound)) e =
        setOutbound (SelectiveRepeatTransport.step cfg s e)
          (item :: (SelectiveRepeatTransport.step cfg s e).outbound)) :
    ({ m with transport :=
        SelectiveRepeatTransport.step cfg m.transport e } : Threaded).whole =
      SelectiveRepeatTransport.step cfg m.whole e := by
  rcases hphase : m.phase
  case storing item =>
    simp only [whole, hphase]
    exact (hfree m.transport item).symm
  all_goals simp only [whole, hphase]

/-- Putting the item back undoes `get_nowait`. -/
theorem setOutbound_cons {s : SelectiveRepeatTransport} {item : Item}
    {rest : List Item} (hqueue : s.outbound = item :: rest) :
    setOutbound (setOutbound s rest) (item :: rest) = s := by
  rw [← hqueue]
  rfl

theorem launchPacket_lane {s : SelectiveRepeatTransport} (hwf : s.WellFormed)
    (hrun : ¬ s.crashed.isSome) (addr : Address) (sentAt timerAt : ℚ)
    (b : Address) :
    Lane.Turn cfg (discipline cfg) (s.lane b)
      ((launchPacket cfg s addr sentAt timerAt).1.lane b) := by
  rcases hnext : s.nextToSend cfg addr with _ | ⟨seq, item⟩
  · simp only [launchPacket, hnext]
    exact .idle _
  rcases hpacket : dataPacket seq item.data with e | packet
  · simp only [launchPacket, hnext, hpacket]
    have hstep : Lane.Step cfg (discipline cfg) (fun _ => True) (s.lane b) _ _ :=
      .pumpCrash hnext hpacket (sub s.buffer b) ⟨sentAt, timerAt, none⟩ b
    exact .event (by simp) hstep
  have hlane : (s.lane addr).nextToSend cfg = some (seq, item) := hnext
  have hrto : (s.rto.get? addr).isSome :=
    hwf.estimator hrun ((hwf addr).ready.base_ne_none hlane)
  obtain ⟨d, harm⟩ := armTimer_schedule cfg
    { s with
      toCore := (s.popPending addr seq).launch addr seq item packet sentAt }
    hrto seq timerAt
  simp only [launchPacket, hnext, hpacket, harm]
  have hlaunched := lane_launch (s.popPending addr seq) (sub s.buffer b) addr b
    seq item packet sentAt
  rw [lane_popPending] at hlaunched
  have hturn : Lane.Turn cfg (discipline cfg) (s.lane b)
      (((s.popPending addr seq).launch addr seq item packet sentAt).lane
        (sub s.buffer b) b) := by
    rw [hlaunched]
    by_cases hb : b = addr
    · subst hb
      rw [if_pos rfl, if_pos rfl]
      exact .launch hnext hpacket
    · rw [if_neg hb, if_neg hb]
      exact .idle _
  exact hturn

theorem discardPacket_lane (s : SelectiveRepeatTransport) (addr b : Address)
    (seq : ℕ) (what : String) :
    (discardPacket s addr seq (.channel what)).lane b =
      if b = addr then (s.lane b).discard seq (.channel what)
      else s.lane b := by
  have hdiscard : (s.toCore.discard addr seq (.channel what)).lane
      (sub s.buffer b) b =
        if b = addr then (s.lane b).discard seq (.channel what) else s.lane b :=
    lane_discard s.toCore (sub s.buffer b) addr b seq (.channel what)
  rw [← hdiscard]
  unfold discardPacket
  dsimp only
  split
  · rfl
  · rfl

theorem whole_take (m : Threaded) : (m.step cfg .take).whole = m.whole := by
  by_cases hbusy : m.busy = true
  · simp only [step, turn, if_pos hbusy]
    rfl
  obtain ⟨hfree, -⟩ := busy_eq_false.mp (Bool.not_eq_true _ ▸ hbusy)
  rw [whole_of_free hfree]
  rcases hqueue : m.transport.outbound with _ | ⟨item, rest⟩
  · simp only [step, turn, if_neg hbusy, hqueue, whole]
  · simp only [step, turn, if_neg hbusy, hqueue]
    exact setOutbound_cons hqueue

theorem Sound.whole_store (cfg : Config) (h : m.Sound) :
    (m.step cfg .store).whole = m.whole ∨
      (m.step cfg .store).whole =
        SelectiveRepeatTransport.step cfg m.whole .drain := by
  rcases hphase : m.phase
  case storing item =>
    have hcrashed := h.pursues
    rw [hphase] at hcrashed
    simp only [step, turn, hphase, whole]
    exact Or.inr ((SelectiveRepeatTransport.handled cfg).drain_front
      drainItem_eq_registerItem m.transport item hcrashed).symm
  all_goals
    left
    simp only [step, turn, hphase, whole]

/-- A turn for which the background thread must be free. -/
theorem whole_guarded (m : Threaded) {t : Turn} {s : SelectiveRepeatTransport}
    {p : Phase} (hp : ∀ item, p ≠ .storing item)
    (hturn : m.turn cfg t =
      if m.busy then (m.transport, m.phase) else (s, p)) :
    (m.step cfg t).whole = m.whole ∨
      m.busy = false ∧ (m.step cfg t).whole = s := by
  by_cases hbusy : m.busy = true
  · left
    simp only [step, hturn, if_pos hbusy]
    rfl
  · refine Or.inr ⟨Bool.not_eq_true _ ▸ hbusy, ?_⟩
    simp only [step, hturn, if_neg hbusy]
    rcases p
    case storing item => exact absurd rfl (hp item)
    all_goals rfl

/-- A guarded turn that is an event. -/
theorem Sound.turn_guarded (h : m.Sound) {t : Turn} (e : Event)
    (hclose : e ≠ .close) (hturn : m.turn cfg t =
      if m.busy then (m.transport, m.phase)
      else (SelectiveRepeatTransport.step cfg m.transport e, .free))
    (b : Address) :
    Lane.Turn cfg (discipline cfg) (m.whole.lane b)
      ((m.step cfg t).whole.lane b) := by
  rcases whole_guarded m (by simp) hturn with hsame | ⟨hidle, hstep⟩
  · rw [hsame]
    exact .idle _
  · have hwhole := whole_of_free (busy_eq_false.mp hidle).1
    rw [hstep, ← hwhole]
    exact .event hclose (step_refines h.wellFormed e b)

theorem Sound.turn_launch (h : m.Sound) (addr : Address) (sentAt timerAt : ℚ)
    (b : Address) :
    Lane.Turn cfg (discipline cfg) (m.whole.lane b)
      ((m.step cfg (.launch addr sentAt timerAt)).whole.lane b) := by
  obtain ⟨p, hp, hturn⟩ : ∃ p, (∀ item, p ≠ .storing item) ∧
      m.turn cfg (.launch addr sentAt timerAt) =
        if m.busy then (m.transport, m.phase)
        else ((launchPacket cfg m.transport addr sentAt timerAt).1, p) := by
    rcases hlaunched : (launchPacket cfg m.transport addr sentAt timerAt).2 with
      _ | ⟨seq, packet⟩
    · exact ⟨.free, by simp, by simp only [turn, hlaunched]⟩
    · exact ⟨.sending addr seq packet sentAt, by simp,
        by simp only [turn, hlaunched]⟩
  rcases whole_guarded m hp hturn with hsame | ⟨hidle, hstep⟩
  · rw [hsame]
    exact .idle _
  · obtain ⟨hfree, hrun⟩ := busy_eq_false.mp hidle
    have hwhole := whole_of_free hfree
    have hwf := h.wellFormed
    rw [hwhole] at hwf ⊢
    rw [hstep]
    exact launchPacket_lane hwf hrun addr sentAt timerAt b

/-- A send that does not raise transmits a stored packet. -/
theorem Sound.turn_send (h : m.Sound) (result : Option String) (b : Address) :
    Lane.Turn cfg (discipline cfg) (m.whole.lane b)
      ((m.step cfg (.send result)).whole.lane b) := by
  rcases hphase : m.phase
  case sending addr seq packet sentAt =>
    rcases result with _ | what
    · have hpursues := h.pursues
      rw [hphase] at hpursues
      have hturn : Lane.Turn cfg (discipline cfg) (m.transport.lane b)
          ((m.transport.transmit packet addr).lane
            (sub m.transport.buffer b) b) := by
        rw [lane_transmit]
        by_cases hb : b = addr
        · subst hb
          rw [if_pos rfl]
          exact .transmit hpursues.2
        · rw [if_neg hb]
          exact .idle _
      simp only [step, turn, hphase, whole]
      exact hturn
    · simp only [step, turn, hphase, whole]
      exact .idle _
  all_goals
    rcases result <;>
      · simp only [step, turn, hphase, whole]
        exact .idle _

theorem Sound.turn_discard (h : m.Sound) (b : Address) :
    Lane.Turn cfg (discipline cfg) (m.whole.lane b)
      ((m.step cfg .discard).whole.lane b) := by
  rcases hphase : m.phase
  case discarding addr seq what =>
    have hpursues := h.pursues
    rw [hphase] at hpursues
    simp only [step, turn, hphase, whole]
    rw [discardPacket_lane]
    by_cases hb : b = addr
    · subst hb
      rw [if_pos rfl]
      exact .discard hpursues.2 _
    · rw [if_neg hb]
      exact .idle _
  all_goals
    simp only [step, turn, hphase, whole]
    exact .idle _

/-- One turn, on every lane. -/
theorem Sound.turn_lane (h : m.Sound) (t : Turn) (b : Address) :
    Lane.Turn cfg (discipline cfg) (m.whole.lane b)
      ((m.step cfg t).whole.lane b) := by
  have hevent : ∀ (m' : Threaded) (e : Event), e ≠ .close →
      m'.whole = SelectiveRepeatTransport.step cfg m.whole e →
      Lane.Turn cfg (discipline cfg) (m.whole.lane b) (m'.whole.lane b) :=
    fun m' e hclose heq => .event hclose (heq ▸ step_refines h.wellFormed e b)
  cases t with
  | sendto data addr =>
      exact hevent _ (.sendto data addr) (by simp)
        (whole_step_app m _ fun s =>
          (SelectiveRepeatTransport.handled cfg).sendto_front s data addr)
  | recvfrom =>
      exact hevent _ .recvfrom (by simp)
        (whole_step_app m _
          (SelectiveRepeatTransport.handled cfg).recvfrom_front)
  | take =>
      rw [whole_take]
      exact .idle _
  | store =>
      rcases h.whole_store cfg with hsame | hdrain
      · rw [hsame]
        exact .idle _
      · exact hevent _ .drain (by simp) hdrain
  | launch addr sentAt timerAt => exact h.turn_launch addr sentAt timerAt b
  | send result => exact h.turn_send result b
  | discard => exact h.turn_discard b
  | timeouts input =>
      refine h.turn_guarded (.timeouts input) (by simp) ?_ b
      by_cases hbusy : m.busy = true
      · simp only [turn, if_pos hbusy]
      · have hrun := (busy_eq_false.mp (Bool.not_eq_true _ ▸ hbusy)).2
        simp only [turn, if_neg hbusy, SelectiveRepeatTransport.step,
          if_neg hrun]
  | incoming raw addr input =>
      refine h.turn_guarded (.incoming raw addr input) (by simp) ?_ b
      by_cases hbusy : m.busy = true
      · simp only [turn, if_pos hbusy]
      · have hrun := (busy_eq_false.mp (Bool.not_eq_true _ ▸ hbusy)).2
        simp only [turn, if_neg hbusy, SelectiveRepeatTransport.step,
          if_neg hrun]

/-! ## The invariant -/

theorem Sound.free_wellFormed (h : m.Sound) (hidle : m.busy = false) :
    m.transport.WellFormed ∧ ¬ m.transport.crashed.isSome := by
  obtain ⟨hfree, hrun⟩ := busy_eq_false.mp hidle
  exact ⟨whole_of_free hfree ▸ h.wellFormed, hrun⟩

theorem Sound.timed_step (h : m.Sound) (t : Turn) :
    Timed (m.step cfg t).transport fun _ _ => False := by
  have htimed := h.timed
  have happ : ∀ e, (∃ data addr, e = .sendto data addr) ∨ e = .recvfrom →
      Timed (SelectiveRepeatTransport.step cfg m.transport e)
        fun _ _ => False := by
    intro e he
    obtain ⟨hheap, hout, -⟩ := step_app cfg m.transport he
    exact htimed.congr hheap fun a q hq => hout ▸ hq
  have hguarded : ∀ s : SelectiveRepeatTransport,
      (m.busy = false → Timed s fun _ _ => False) →
      Timed (if m.busy then (m.transport, m.phase) else (s, .free)).1
        fun _ _ => False := by
    intro s hs
    split_ifs with hbusy
    · exact htimed
    · exact hs (Bool.not_eq_true _ ▸ hbusy)
  cases t with
  | sendto data addr => exact happ _ (Or.inl ⟨data, addr, rfl⟩)
  | recvfrom => exact happ _ (Or.inr rfl)
  | take =>
      simp only [step, turn]
      split_ifs
      · exact htimed
      · rcases m.transport.outbound with _ | ⟨item, rest⟩
        · exact htimed
        · exact htimed.congr rfl fun a q hq => hq
  | store =>
      simp only [step, turn]
      rcases m.phase
      case storing item => exact htimed.registerItem item
      all_goals exact htimed
  | launch addr sentAt timerAt =>
      simp only [step, turn]
      split_ifs with hbusy
      · exact htimed
      · obtain ⟨hwf, hrun⟩ := h.free_wellFormed (Bool.not_eq_true _ ▸ hbusy)
        have hlaunched :=
          htimed.launchPacket cfg hwf hrun addr sentAt timerAt
        rcases (launchPacket cfg m.transport addr sentAt timerAt).2 with
          _ | ⟨seq, packet⟩
        · exact hlaunched
        · exact hlaunched
  | send result =>
      simp only [step, turn]
      rcases m.phase
      case sending addr seq packet sentAt =>
        rcases result with _ | what
        · exact htimed.congr rfl fun a q hq => hq
        · exact htimed
      all_goals exact htimed
  | discard =>
      simp only [step, turn]
      rcases m.phase
      case discarding addr seq what => exact htimed.discardPacket addr seq _
      all_goals exact htimed
  | timeouts input =>
      refine hguarded _ fun hidle => ?_
      obtain ⟨hwf, hrun⟩ := h.free_wellFormed hidle
      exact htimed.handleTimeouts hwf hrun input
  | incoming raw addr input =>
      exact hguarded _ fun _ => htimed.handleIncoming raw addr input

/-- A packet that enters the window is stored, and the thread runs on. -/
theorem launchPacket_flying {s : SelectiveRepeatTransport} {addr : Address}
    {sentAt timerAt : ℚ} {seq : ℕ} {packet : Bytes}
    (h : (launchPacket cfg s addr sentAt timerAt).2 = some (seq, packet)) :
    (sub (launchPacket cfg s addr sentAt timerAt).1.outstanding addr).get? seq =
        some packet ∧
      (launchPacket cfg s addr sentAt timerAt).1.crashed = none := by
  rcases hnext : s.nextToSend cfg addr with _ | ⟨q, item⟩
  · simp [launchPacket, hnext] at h
  rcases hpacket : dataPacket q item.data with e | raw
  · simp [launchPacket, hnext, hpacket] at h
  simp only [launchPacket, hnext, hpacket] at h ⊢
  split_ifs at h with hcrashed
  simp only [Option.some.injEq, Prod.mk.injEq] at h
  obtain ⟨rfl, rfl⟩ := h
  refine ⟨?_, Option.not_isSome_iff_eq_none.mp hcrashed⟩
  rw [(armTimer_metered cfg _ addr q timerAt).2.1]
  simp [launch, subSet]

theorem Sound.pursues_step (h : m.Sound) (t : Turn) :
    Pursues (m.step cfg t).transport (m.step cfg t).phase := by
  have hpursues := h.pursues
  cases t with
  | sendto data addr =>
      obtain ⟨-, hout, hcrashed⟩ := step_app cfg m.transport
        (Or.inl ⟨data, addr, rfl⟩)
      exact hpursues.congr hout hcrashed
  | recvfrom =>
      obtain ⟨-, hout, hcrashed⟩ := step_app cfg m.transport (Or.inr rfl)
      exact hpursues.congr hout hcrashed
  | take =>
      simp only [step, turn]
      split_ifs with hbusy
      · exact hpursues
      · obtain ⟨-, hrun⟩ := busy_eq_false.mp (Bool.not_eq_true _ ▸ hbusy)
        rcases m.transport.outbound with _ | ⟨item, rest⟩
        · trivial
        · exact Option.not_isSome_iff_eq_none.mp hrun
  | store =>
      simp only [step, turn]
      rcases hphase : m.phase
      case storing item => trivial
      all_goals
        rw [hphase] at hpursues
        exact hpursues
  | launch addr sentAt timerAt =>
      simp only [step, turn]
      split_ifs
      · exact hpursues
      · rcases hlaunched :
          (launchPacket cfg m.transport addr sentAt timerAt).2 with
          _ | ⟨seq, packet⟩
        · trivial
        · exact (launchPacket_flying hlaunched).symm
  | send result =>
      simp only [step, turn]
      rcases hphase : m.phase
      case sending addr seq packet sentAt =>
        rw [hphase] at hpursues
        rcases result with _ | what
        · trivial
        · exact ⟨hpursues.1, Dict.mem_keys.mpr ⟨packet, hpursues.2⟩⟩
      all_goals
        rw [hphase] at hpursues
        rcases result <;> exact hpursues
  | discard =>
      simp only [step, turn]
      rcases hphase : m.phase
      case discarding addr seq what => trivial
      all_goals
        rw [hphase] at hpursues
        exact hpursues
  | timeouts input =>
      simp only [step, turn]
      split_ifs
      · exact hpursues
      · trivial
  | incoming raw addr input =>
      simp only [step, turn]
      split_ifs
      · exact hpursues
      · trivial

/-- Every call of the channel is for an outstanding packet. -/
theorem Sound.handed_outstanding (h : m.Sound) (t : Turn) :
    ∀ a ∈ m.handed cfg t, a.seq ∈ (sub m.transport.outstanding a.addr).keys := by
  intro a ha
  cases t with
  | send result =>
      rcases hphase : m.phase
      case sending addr seq packet sentAt =>
        have hpursues := h.pursues
        rw [hphase] at hpursues
        simp only [handed, hphase, List.mem_singleton] at ha
        subst ha
        exact Dict.mem_keys.mpr ⟨packet, hpursues.2⟩
      all_goals simp [handed, hphase] at ha
  | timeouts input =>
      simp only [handed] at ha
      split_ifs at ha with hbusy
      · cases ha
      · obtain ⟨hwf, hrun⟩ := h.free_wellFormed (Bool.not_eq_true _ ▸ hbusy)
        apply (handleTimeouts_metered hwf hrun input a.addr).2 a
        exact List.mem_filter.mpr ⟨ha, by simp⟩
  | _ => simp [handed] at ha

/-- One turn keeps the invariant. -/
theorem Sound.step (h : m.Sound) (t : Turn) : (m.step cfg t).Sound where
  wellFormed b := (h.wellFormed b).turn (h.turn_lane t b)
  settles b := (h.settles b).turn (h.wellFormed b) (h.turn_lane t b)
  errors b := (h.errors b).turn (h.turn_lane t b)
  timed := h.timed_step t
  pursues := h.pursues_step t
  attempted b := by
    have hturn : Lane.Turn cfg (discipline cfg) (m.whole.lane b)
        ((m.step cfg t).whole.lane b) := h.turn_lane t b
    have hwaiting : ∀ w ∈ ((m.step cfg t).whole.lane b).waiting,
        w ∈ (m.whole.lane b).waiting ∨ w = (m.whole.lane b).nextSeq :=
      fun w hw => hturn.waiting (h.wellFormed b) hw
    change Timing.Attempted _ (Attempt.toPeer b (m.calls ++ m.handed cfg t))
    rw [Attempt.toPeer_append]
    apply (h.attempted b).append hturn.nextSeq_le hwaiting
    intro a ha
    obtain ⟨hmem, haddr⟩ := List.mem_filter.mp ha
    have haddr' : a.addr = b := by simpa using haddr
    apply Timing.lt_waiting_of_outstanding (h.wellFormed b) hwaiting
    rw [(m.whole_lane b).1, ← haddr']
    exact h.handed_outstanding t a hmem

theorem sound_after (cfg : Config) (ts : List Turn) : (after cfg ts).Sound :=
  run_invariant Sound (fun _ t h => h.step t) Sound.init ts

/-! ## What is settled is not sent again -/

/-- An event that has been set stays set, whatever turns follow. -/
theorem Sound.set_run (cfg : Config) (h : m.Sound) (ts : List Turn) {addr : Address} {q : ℕ}
    (hset : (m.transport.status addr q).event = true) :
    ((run (Threaded.step cfg) m ts).transport.status addr q).event = true := by
  refine (run_invariant (fun m : Threaded =>
    m.Sound ∧ (m.transport.status addr q).event = true) ?_ ⟨h, hset⟩ ts).2
  rintro m t ⟨hm, hq⟩
  refine ⟨hm.step t, ?_⟩
  rw [← (m.whole_lane addr).2.2.2] at hq
  rw [← ((m.step cfg t).whole_lane addr).2.2.2]
  exact (hm.turn_lane t addr).set hq

/-- What is handed to the channel is not settled. -/
theorem Sound.handed_unset (h : m.Sound) (t : Turn) :
    ∀ a ∈ m.handed cfg t,
      (m.transport.status a.addr a.seq).event = false := by
  intro a ha
  by_contra hset
  rw [Bool.not_eq_false, ← (m.whole_lane a.addr).2.2.2] at hset
  apply (h.settles a.addr a.seq hset).2
  left
  rw [(m.whole_lane a.addr).1]
  exact h.handed_outstanding t a ha

/-- In this turn the ACK of an outstanding packet is processed. -/
def Acknowledges (m : Threaded) (t : Turn) (addr : Address) (seq : ℕ) : Prop :=
  m.busy = false ∧ seq ∈ (sub m.transport.outstanding addr).keys ∧
    ∃ raw input, t = .incoming raw addr input ∧ IsAck raw (seq + 1)

/-- In this turn the packet is failed. -/
def Fails (cfg : Config) (m : Threaded) (t : Turn) (addr : Address)
    (seq : ℕ) : Prop :=
  (m.transport.status addr seq).error = none ∧
    ((m.step cfg t).transport.status addr seq).error ≠ none

theorem Sound.set_of_acknowledges (h : m.Sound) {t : Turn} {addr : Address}
    {seq : ℕ} (hack : m.Acknowledges t addr seq) :
    ((m.step cfg t).transport.status addr seq).event = true := by
  obtain ⟨hidle, hout, raw, input, rfl, hraw⟩ := hack
  obtain ⟨hwf, hrun⟩ := h.free_wellFormed hidle
  obtain ⟨base, hslide⟩ := slide_of_outstanding (hwf addr) hout
  have hlane := handleIncoming_ack cfg hwf hrun hraw addr input addr
  simp only [hslide, if_true] at hlane
  have hsent : seq ∈ (m.transport.lane addr).sentItems.keys :=
    ((hwf addr).labelled.keys seq).mpr hout
  have hstatus := congrFun (congrArg Lane.status hlane) seq
  simp only [Lane.slideTo, Lane.complete, List.mem_singleton, hsent,
    and_self, if_true] at hstatus
  simp only [Threaded.step, turn, hidle]
  exact congrArg Status.event hstatus

theorem Sound.set_of_fails (h : m.Sound) {t : Turn} {addr : Address} {seq : ℕ}
    (hfails : m.Fails cfg t addr seq) :
    ((m.step cfg t).transport.status addr seq).event = true := by
  have herror := hfails.2
  rw [← ((m.step cfg t).whole_lane addr).2.2.2] at herror ⊢
  exact (h.step t).errors addr seq herror

/-! ## Inside one sweep -/

/-- Among the calls for one peer nothing follows a send that raises, and if none
raises either nothing is called or the peer is not given up. -/
structure Concluded (new : List Attempt) (kept : Prop) : Prop where
  last : ∀ pre a post, new = pre ++ a :: post → a.result ≠ none → post = []
  quiet : (∀ a ∈ new, a.result = none) → new = [] ∨ kept

theorem concluded_nil (kept : Prop) : Concluded [] kept where
  last pre a post h := by simp at h
  quiet _ := Or.inl rfl

theorem armTimer_status (cfg : Config) (s : SelectiveRepeatTransport)
    (addr : Address) (seq : ℕ) (now : ℚ) :
    (armTimer cfg s addr seq now).status = s.status := by
  unfold armTimer
  split <;> rfl

theorem resends_concluded (cfg : Config) (input : SweepInput) (addr : Address)
    (seqs : List ℕ) (s : SelectiveRepeatTransport) :
    (∀ pre a post, resends cfg input addr seqs s = pre ++ a :: post →
        a.result ≠ none → post = []) ∧
      ((∀ a ∈ resends cfg input addr seqs s, a.result = none) →
        (retransmit cfg input addr seqs s).status = s.status) := by
  induction seqs generalizing s with
  | nil => exact ⟨fun pre a post h => by simp [resends] at h, fun _ => rfl⟩
  | cons seq rest ih =>
      rcases hget : (sub s.outstanding addr).get? seq with _ | packet
      · simp only [resends, retransmit, hget]
        exact ih s
      obtain ⟨s₁, hs₁⟩ : ∃ s₁ : SelectiveRepeatTransport, armTimer cfg
        { s with
          retransmitted := s.retransmitted.set addr
            (insert seq (s.retransmitted.getD addr ∅))
          retransmissions := s.retransmissions + 1 } addr seq
          (input.rearmAt addr seq) = s₁ := ⟨_, rfl⟩
      have hstatus : s₁.status = s.status := hs₁ ▸ armTimer_status cfg _ _ _ _
      simp only [resends, retransmit, hget, hs₁]
      split_ifs
      · exact ⟨fun pre a post h => by simp at h, fun _ => hstatus⟩
      rcases hsend : input.sendResult addr seq with _ | what
      · obtain ⟨hlast, hquiet⟩ := ih { s₁ with toCore := s₁.transmit packet addr }
        refine ⟨fun pre a post h hraised => ?_, fun hnone => ?_⟩
        · rcases pre with _ | ⟨x, pre⟩
          · obtain ⟨rfl, -⟩ := List.cons.inj h
            exact absurd rfl hraised
          · exact hlast pre a post (List.cons.inj h).2 hraised
        · exact (hquiet (List.forall_mem_cons.mp hnone).2).trans hstatus
      · refine ⟨fun pre a post h _ => ?_, fun hnone => ?_⟩
        · rcases pre with _ | ⟨x, pre⟩
          · exact (List.cons.inj h).2.symm
          · simp at h
        · simp at hnone

theorem peerAttempts_concluded (cfg : Config) (input : SweepInput)
    (s : SelectiveRepeatTransport) (addr : Address) (seqs : List ℕ) :
    Concluded (peerAttempts cfg input s addr seqs)
      ((timeoutPeer cfg input s addr seqs).status = s.status) := by
  obtain ⟨s₁, ⟨rto, crashed, hs₁⟩, hresult, hcalls⟩ :=
    timeoutPeer_begin cfg input s addr seqs
  have hstatus : s₁.status = s.status := by rw [hs₁]
  rw [hresult, hcalls]
  split_ifs
  · exact concluded_nil _
  · exact concluded_nil _
  · obtain ⟨hlast, hquiet⟩ := resends_concluded cfg input addr seqs s₁
    exact ⟨hlast, fun hnone => Or.inr ((hquiet hnone).trans hstatus)⟩

theorem visit_concluded (cfg : Config) (input : SweepInput)
    (s : SelectiveRepeatTransport) (x : Address × List ℕ) :
    Concluded (visitAttempts cfg input s x)
      ((visit cfg input s x).status = s.status) := by
  unfold visit visitAttempts
  split_ifs
  · exact concluded_nil _
  · exact peerAttempts_concluded cfg input s x.1 x.2

/-- In one sweep the calls for a peer are those of its only visit. -/
theorem sweepAttempts_concluded (cfg : Config) {s : SelectiveRepeatTransport}
    (hwf : s.WellFormed) (hrun : ¬ s.crashed.isSome) (input : SweepInput)
    (b : Address) :
    Concluded (Attempt.toPeer b (sweepAttempts cfg s input))
      ((handleTimeouts cfg s input).status b = s.status b) := by
  obtain ⟨groups, hgroups⟩ : ∃ groups,
      groupDue s (s.timerHeap.popDue input.now).1 ∅ = groups := ⟨_, rfl⟩
  have hrto : ∀ x ∈ groups.entries, (s.lane x.1).estimator = true :=
    fun x hx => due_estimator hwf hrun hgroups hx
  have hsweep := foldl_view
    (sweepStep (visit cfg input) (visitAttempts cfg input)) Prod.fst
    (fun p => (p.1.status b, Attempt.toPeer b p.2))
    (fun p => ¬ p.1.crashed.isSome ∧
      ∀ y ∈ groups.entries, (p.1.lane y.1).estimator = true) b
    (fun p x hx hp => by
      simp only [sweepStep, visit, if_neg hp.1]
      exact timeoutPeer_keeps hp.1 hp.2 input hx)
    (fun p x hx hp hb => by
      have hvisited := visit_visited cfg input p.1 x
      have hview : view b (visit cfg input p.1 x) = view b p.1 := by
        rw [visit, if_neg hp.1]
        exact (timeoutPeer_spec cfg hp.1 input (hp.2 x hx) x.2).1 b (Ne.symm hb)
      have hstatus : (visit cfg input p.1 x).status b = p.1.status b :=
        congrArg (fun v : Lane × ℕ => v.1.status) hview
      rw [sweepStep, Attempt.toPeer_append, hstatus,
        Attempt.toPeer_eq_nil (Ne.symm hb)
          fun a ha => (hvisited.attempts a ha).1, List.append_nil])
    groups.nodupKeys
    ({ s with timerHeap := (s.timerHeap.popDue input.now).2 }, []) ⟨hrun, hrto⟩
  rw [handleTimeouts_eq_fst, sweepAttempts, hgroups]
  rcases hsweep with ⟨-, hsame⟩ | ⟨x, -, rfl, p, -, hview, hfinal⟩
  · obtain ⟨-, hnil⟩ := Prod.mk.inj hsame
    rw [hnil]
    exact concluded_nil _
  · obtain ⟨hstatus, hnil⟩ := Prod.mk.inj hview
    obtain ⟨hstatus', hcalls⟩ := Prod.mk.inj hfinal
    have hnew : Attempt.toPeer x.1 p.2 = [] := hnil
    have hvisited := visit_visited cfg input p.1 x
    have hself : Attempt.toPeer x.1
        (p.2 ++ visitAttempts cfg input p.1 x) =
          visitAttempts cfg input p.1 x := by
      rw [Attempt.toPeer_append, hnew, List.nil_append,
        Attempt.toPeer_eq_self fun a ha => (hvisited.attempts a ha).1]
    obtain ⟨hlast, hquiet⟩ := visit_concluded cfg input p.1 x
    rw [hcalls, hstatus', sweepStep, hself]
    refine ⟨hlast, fun hnone => (hquiet hnone).imp_right fun hkept => ?_⟩
    exact (congrFun hkept x.1).trans hstatus

/-- In one turn nothing is handed for a peer after a send that raises, and a
peer that is given up otherwise has nothing handed for it. -/
theorem Sound.handed_concluded (h : m.Sound) (t : Turn) (b : Address) :
    (∀ pre a post, Attempt.toPeer b (m.handed cfg t) = pre ++ a :: post →
        a.result ≠ none → post = []) ∧
      ∀ seq, m.Fails cfg t b seq →
        (∀ a ∈ Attempt.toPeer b (m.handed cfg t), a.result = none) →
          Attempt.toPeer b (m.handed cfg t) = [] := by
  have hnil : m.handed cfg t = [] →
      (∀ pre a post, Attempt.toPeer b (m.handed cfg t) = pre ++ a :: post →
        a.result ≠ none → post = []) ∧
      ∀ seq, m.Fails cfg t b seq →
        (∀ a ∈ Attempt.toPeer b (m.handed cfg t), a.result = none) →
          Attempt.toPeer b (m.handed cfg t) = [] := by
    intro hcalls
    rw [hcalls]
    exact ⟨fun pre a post h => by simp [Attempt.toPeer] at h, fun _ _ _ => rfl⟩
  cases t with
  | timeouts input =>
      by_cases hbusy : m.busy = true
      · exact hnil (if_pos hbusy)
      · obtain ⟨hwf, hrun⟩ := h.free_wellFormed (Bool.not_eq_true _ ▸ hbusy)
        obtain ⟨hlast, hquiet⟩ := sweepAttempts_concluded cfg hwf hrun input b
        simp only [handed, if_neg hbusy]
        refine ⟨hlast, fun seq hfails hnone => ?_⟩
        apply (hquiet hnone).resolve_right
        intro hkept
        obtain ⟨herror, herror'⟩ := hfails
        simp only [Threaded.step, turn, if_neg hbusy, hkept] at herror'
        exact herror' herror
  | send result =>
      rcases hphase : m.phase
      case sending addr seq packet sentAt =>
        have hlen : (Attempt.toPeer b (m.handed cfg (.send result))).length ≤
            1 := by
          simp only [handed, hphase]
          exact List.length_filter_le _ _
        refine ⟨fun pre a post hcalls _ => ?_, fun q hfails _ => ?_⟩
        · rw [hcalls] at hlen
          apply List.eq_nil_of_length_eq_zero
          simp only [List.length_append, List.length_cons] at hlen
          omega
        · -- The error is recorded by the handler, in a later turn.
          obtain ⟨herror, herror'⟩ := hfails
          simp only [Threaded.step, turn, hphase] at herror'
          rcases result <;> exact absurd herror herror'
      all_goals exact hnil (by simp only [handed, hphase])
  | _ => exact hnil rfl

/-- The timers watch every packet in flight: what is outstanding has its item
and a live timer, and what is pending comes after everything handed to the
channel. -/
structure Watched (m : Threaded) : Prop where
  keys : ∀ addr seq, seq ∈ (sub m.transport.outstanding addr).keys ↔
    seq ∈ (sub m.transport.sentItems addr).keys
  timer : ∀ addr, ∀ seq ∈ (sub m.transport.outstanding addr).keys,
    ∃ e ∈ m.transport.timerHeap.heap, e.key = (addr, seq) ∧
      m.transport.timerHeap.keyToDeadline.get? e.key = some e.deadline
  order : ∀ a ∈ m.calls, ∀ seq ∈ (sub m.transport.pending a.addr).keys,
    a.seq < seq

theorem Sound.watched (h : m.Sound) : m.Watched where
  keys addr seq := by
    have hkeys := (h.wellFormed addr).labelled.keys seq
    rw [(m.whole_lane addr).1, (m.whole_lane addr).2.1] at hkeys
    exact hkeys.symm
  timer addr seq hseq := by
    have hlive := (h.timed.live addr seq hseq).resolve_left not_false
    obtain ⟨d, hd⟩ := Option.ne_none_iff_exists'.mp hlive
    obtain ⟨e, he, hkey, rfl⟩ := h.timed.faithful.covers _ d hd
    exact ⟨e, he, hkey, hkey ▸ hd⟩
  order a ha seq hseq := by
    apply (h.attempted a.addr).lt_waiting a (List.mem_filter.mpr ⟨ha, by simp⟩)
    apply List.mem_append_left
    rwa [(m.whole_lane a.addr).2.2.1]

/-- Whenever the lock is free, in every run of turns before `close`, the timers
watch every packet in flight.  A packet whose ACK has been processed or that has
been failed is not handed to the channel in a later turn, and in the turn itself
nothing for its peer follows the failure. -/
theorem timers_never_miss (cfg : Config) (ts : List Turn) :
    (after cfg ts).Watched ∧
      (∀ t addr seq, (after cfg ts).Acknowledges t addr seq ∨
          (after cfg ts).Fails cfg t addr seq →
        ∀ ts' t', ∀ a ∈ (after cfg (ts ++ t :: ts')).handed cfg t',
          (a.addr, a.seq) ≠ (addr, seq)) ∧
      ∀ t addr, let new := Attempt.toPeer addr ((after cfg ts).handed cfg t)
        (∀ pre a post, new = pre ++ a :: post → a.result ≠ none → post = []) ∧
        ∀ seq, (after cfg ts).Fails cfg t addr seq →
          (∀ a ∈ new, a.result = none) → new = [] := by
  have hsound := sound_after cfg ts
  refine ⟨hsound.watched, fun t addr seq hends ts' t' a ha heq => ?_,
    hsound.handed_concluded⟩
  obtain ⟨haddr, hseq⟩ := Prod.mk.inj heq
  have hset : (((after cfg ts).step cfg t).transport.status addr seq).event =
      true := by
    rcases hends with hack | hfails
    · exact hsound.set_of_acknowledges hack
    · exact hsound.set_of_fails hfails
  have hafter : after cfg (ts ++ t :: ts') =
      run (Threaded.step cfg) ((after cfg ts).step cfg t) ts' := by
    rw [after, run_append]
    rfl
  have hlater := (hsound.step t).set_run cfg ts' hset
  rw [← hafter] at hlater
  have hunset := (sound_after cfg (ts ++ t :: ts')).handed_unset t' a ha
  rw [haddr, hseq, hlater] at hunset
  cases hunset

end Threaded

end SelectiveRepeatTransport

end UdpArq
