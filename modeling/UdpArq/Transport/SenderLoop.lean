import UdpArq.Transport.Liveness
import Mathlib.Algebra.Order.BigOperators.Group.List
import Mathlib.Order.Bounds.Basic
import Mathlib.Tactic.Linarith

/-!
# The loop of the background thread

`_sender_loop` drains the queue, pumps the windows, sweeps the timers, and then
waits for a packet at most until the next timer is due.  A turn of the thread is
one step of a transport or none, so that whatever holds in every run of a link
holds with the loop.  Conversely the loop goes round again and again, and takes
every step that stays possible.

While the thread drains the queue, application threads may go on filling it:
the loop leaves `_drain_outbound` only if it has caught up with them.
-/

namespace UdpArq

open Filter UdpArq.Core

namespace SenderLoop

/-- `_next_wait_time`, for the earliest deadline. -/
def nextWaitTime (nearest : Option ℚ) (now : ℚ) : ℚ :=
  match nearest with
  | none => 1 / 20
  | some nearest => max 0 (min (1 / 20) (nearest - now))

/-- A wait of at most a twentieth of a second that outlasts no deadline, and is
cut short only by one. -/
structure Punctual (running : ℚ → Prop) (now wait : ℚ) : Prop where
  bounds : 0 ≤ wait ∧ wait ≤ 1 / 20
  wakes : ∀ d, running d → now + wait ≤ max now d
  sleeps : wait < 1 / 20 → ∃ d, running d ∧ wait = max 0 (d - now)

theorem punctual_nextWaitTime {running : ℚ → Prop} {nearest : Option ℚ}
    (hnone : nearest = none → ∀ d, ¬ running d)
    (hsome : ∀ d, nearest = some d → IsLeast {d | running d} d) (now : ℚ) :
    Punctual running now (nextWaitTime nearest now) := by
  cases nearest with
  | none =>
      refine ⟨⟨?_, le_rfl⟩, fun d hd => absurd hd (hnone rfl d),
        fun hlt => absurd hlt (lt_irrefl _)⟩
      exact div_nonneg zero_le_one (by norm_num)
  | some least =>
      obtain ⟨hrunning, hleast⟩ := hsome least rfl
      have hle : nextWaitTime (some least) now ≤ max 0 (least - now) :=
        max_le_max_left 0 (min_le_right _ _)
      refine ⟨⟨le_max_left _ _, ?_⟩, fun d hd => ?_,
        fun hlt => ⟨least, hrunning, ?_⟩⟩
      · exact max_le (by norm_num) (min_le_left _ _)
      · have hd' : least ≤ d := hleast hd
        calc now + nextWaitTime (some least) now
            ≤ now + max 0 (least - now) := by linarith only [hle]
          _ = max now least := by
            rw [← max_add_add_left, add_zero, add_sub_cancel]
          _ ≤ max now d := max_le_max_left now hd'
      · have hcut : min (1 / 20) (least - now) < 1 / 20 :=
          (le_max_right 0 _).trans_lt hlt
        have hmin : min (1 / 20) (least - now) = least - now :=
          min_eq_right ((min_lt_iff.mp hcut).resolve_left (lt_irrefl _)).le
        simp only [nextWaitTime, hmin]

/-- Where the thread is.  `pumping` has the addresses that `_pump_windows` has
still to visit, `receiving` the clock reading and the result of
`_next_wait_time`. -/
inductive Place
  | top
  | draining
  | pumping (addresses : List Address)
  | sweeping
  | receiving (now wait : ℚ)
  | stopped
  deriving DecidableEq

/-- The outcome of `channel.recvfrom`. -/
inductive Arrival
  | timedOut
  | raised
  | fromPeer (raw : Bytes) (flip : Option ℕ)
  | fromOther (raw : Bytes) (addr : Address)

/-- What the thread reads in one turn. -/
structure TurnInput where
  pump : PumpInput
  sweep : SweepInput
  now : ℚ
  arrival : Arrival
  incoming : IncomingInput

variable {cfg : Config} (T : Endpoint cfg) (nearest : T.State → Option ℚ)

/-- The next turn of the thread: the step that it takes, and where it is
then.  Nobody else touches the timers, so that the sweep and the computation of
the wait are one step. -/
def turn (place : Place) (s : T.State) (input : TurnInput) :
    Option LinkEvent × (T.State → Place) :=
  match place with
  | .top =>
      (none, fun s => if (T.core s).stopEvent then .stopped else .draining)
  | .draining =>
      if (T.core s).outbound = [] then
        (none, fun s => .pumping (T.core s).pending.keys)
      else (some (.tx .drain), fun _ => .draining)
  | .pumping [] => (none, fun _ => .sweeping)
  | .pumping (addr :: addresses) =>
      match (T.core s).nextToSend cfg addr with
      | none => (none, fun _ => .pumping addresses)
      | some _ =>
          (some (.tx (.pump addr input.pump)),
            fun _ => .pumping (addr :: addresses))
  | .sweeping =>
      (some (.tx (.timeouts input.sweep)), fun s =>
        if (T.core s).stopEvent then .stopped
        else .receiving input.now (nextWaitTime (nearest s) input.now))
  | .receiving _ _ =>
      match input.arrival with
      | .timedOut => (none, fun _ => .top)
      | .raised =>
          (none, fun s => if (T.core s).stopEvent then .stopped else .top)
      | .fromPeer raw flip =>
          (some (.toTx raw flip input.incoming), fun _ => .top)
      | .fromOther raw addr =>
          (some (.tx (.incoming raw addr input.incoming)), fun _ => .top)
  | .stopped => (none, fun _ => .stopped)

end SenderLoop

open SenderLoop

/-- A step that only the background thread of the sender takes. -/
def LinkEvent.ofThread : LinkEvent → Bool
  | .tx (.sendto _ _) => false
  | .tx .recvfrom => false
  | .tx .close => false
  | .rx _ => false
  | .toRx _ _ _ => false
  | _ => true

/-- A link whose sender runs the loop. -/
structure LoopedLink {cfgT cfgR : Config} (T : Endpoint cfgT)
    (R : Endpoint cfgR) where
  link : Link T R
  place : Place

/-- The thread has a turn, or somebody else takes a step. -/
inductive LoopedEvent
  | turn (input : TurnInput)
  | other (e : LinkEvent)

namespace LoopedLink

variable {cfgT cfgR : Config} (T : Endpoint cfgT) (R : Endpoint cfgR)
  (nearest : T.State → Option ℚ) (txAddr rxAddr : Address)

/-- The step of the link that an event is. -/
def event (w : LoopedLink T R) : LoopedEvent → Option LinkEvent
  | .turn input => (turn T nearest w.place w.link.tx input).1
  | .other e => if e.ofThread then none else some e

/-- Where the thread is after an event.  An exception ends it. -/
def next (w : LoopedLink T R) (s : T.State) : LoopedEvent → Place
  | .turn input =>
      if (T.core s).crashed.isSome then .stopped
      else (turn T nearest w.place w.link.tx input).2 s
  | .other _ => w.place

def step (w : LoopedLink T R) (e : LoopedEvent) : LoopedLink T R :=
  let link := (event T R nearest w e).elim w.link
    (Link.step T R txAddr rxAddr w.link)
  ⟨link, next T R nearest w link.tx e⟩

/-- Fresh transports, and the thread of the sender at the top of its loop. -/
def init : LoopedLink T R := ⟨Link.init T R, .top⟩

/-- Nothing happens at the link. -/
def idleEvent : LinkEvent := .tx (.incoming [] rxAddr ⟨0, 0, none⟩)

variable {T R nearest txAddr rxAddr}

theorem step_idleEvent (n : Link T R) :
    Link.step T R txAddr rxAddr n (idleEvent rxAddr) = n := by
  simp [Link.step, idleEvent, Event.isFrom]

theorem link_step (w : LoopedLink T R) (e : LoopedEvent) :
    (step T R nearest txAddr rxAddr w e).link =
      Link.step T R txAddr rxAddr w.link
        ((event T R nearest w e).getD (idleEvent rxAddr)) := by
  cases hevent : event T R nearest w e with
  | none => simp [step, hevent, step_idleEvent]
  | some e' => simp [step, hevent]

end LoopedLink

open LoopedLink

/-- An infinite run with the loop. -/
structure LoopedRun {cfgT cfgR : Config} (T : Endpoint cfgT)
    (R : Endpoint cfgR) where
  nearest : T.State → Option ℚ
  txAddr : Address
  rxAddr : Address
  event : ℕ → LoopedEvent

namespace LoopedRun

variable {cfgT cfgR : Config} {T : Endpoint cfgT} {R : Endpoint cfgR}
  (r : LoopedRun T R)

/-- The state after the first `i` events. -/
def moment (i : ℕ) : LoopedLink T R :=
  stateAt (step T R r.nearest r.txAddr r.rxAddr) (init T R) r.event i

def place (i : ℕ) : Place := (r.moment i).place

def tx (i : ℕ) : T.State := (r.moment i).link.tx

/-- The run of the link under it. -/
def linkEvent (i : ℕ) : LinkEvent :=
  (LoopedLink.event T R r.nearest (r.moment i) (r.event i)).getD
    (idleEvent r.rxAddr)

/-- The thread has a turn. -/
def Turn (i : ℕ) : Prop := ∃ input, r.event i = .turn input

/-- Nothing fails. -/
abbrev Calm : Prop := Link.CalmRun T R r.txAddr r.rxAddr r.linkEvent

abbrev DeliversAll : Prop := Link.DeliversAll T R r.txAddr r.rxAddr r.linkEvent

/-- The thread gets its turns, its clock passes every time, and what is sent
again and again gets through again and again.  Either the application stops
sending at some time, or the thread catches up with it every time. -/
structure Fair : Prop where
  turns : ∃ᶠ i in atTop, r.Turn i
  clock : ∀ t, ∀ᶠ i in atTop, ∀ input, r.event i = .turn input →
    t ≤ input.sweep.now
  catchesUp : (∀ᶠ i in atTop, ∀ data addr,
      r.event i ≠ .other (.tx (.sendto data addr))) ∨
    ∀ i, r.place i = .draining → ∃ j, i ≤ j ∧ r.place j ≠ .draining
  toRx : ∀ raw,
    (∃ᶠ i in atTop, Link.SendsToRx T R r.txAddr r.rxAddr r.linkEvent raw i) →
      ∃ᶠ i in atTop, Link.ReachesRx T R r.txAddr r.rxAddr r.linkEvent raw i
  toTx : ∀ raw,
    (∃ᶠ i in atTop, Link.SendsToTx T R r.txAddr r.rxAddr r.linkEvent raw i) →
      ∃ᶠ i in atTop, Link.ReachesTx T R r.txAddr r.rxAddr r.linkEvent raw i

variable {r}

theorem moment_succ (i : ℕ) :
    r.moment (i + 1) =
      step T R r.nearest r.txAddr r.rxAddr (r.moment i) (r.event i) := rfl

/-- A link with the loop is a link. -/
theorem link_moment (i : ℕ) :
    (r.moment i).link = Link.moment T R r.txAddr r.rxAddr r.linkEvent i := by
  induction i with
  | zero => rfl
  | succ i ih => rw [moment_succ, link_step, Link.moment_succ, ← ih, linkEvent]

theorem link_turn {i : ℕ} {input : TurnInput} (he : r.event i = .turn input) :
    (r.moment (i + 1)).link =
      (turn T r.nearest (r.place i) (r.tx i) input).1.elim (r.moment i).link
        (Link.step T R r.txAddr r.rxAddr (r.moment i).link) := by
  rw [moment_succ, he]
  rfl

theorem place_other {i : ℕ} (hturn : ¬ r.Turn i) :
    r.place (i + 1) = r.place i := by
  rw [place, moment_succ]
  cases he : r.event i with
  | turn input => exact absurd ⟨input, he⟩ hturn
  | other e => rfl

end LoopedRun

/-! ## What the application leaves alone -/

/-- Only `close` sets the flag. -/
theorem Lane.Step.stopped {cfg : Config} {D : Discipline}
    {fails : SweepInput → Prop} {l l' : Lane} {e : Event}
    (h : Lane.Step cfg D fails l e l') (hcalm : ¬ l.Marks cfg fails e) :
    l'.stopped = l.stopped := by
  cases h with
  | close => exact absurd trivial hcalm
  | _ => rfl

/-- A call leaves alone what waits in `_pending`. -/
theorem Lane.Step.of_isCall {cfg : Config} {D : Discipline}
    {fails : SweepInput → Prop} {l l' : Lane} {e : Event}
    (h : Lane.Step cfg D fails l e l') (he : e.isCall = true) :
    l'.pending = l.pending ∧ l'.base = l.base := by
  cases h with
  | idle => exact ⟨rfl, rfl⟩
  | crash => exact ⟨rfl, rfl⟩
  | accept => exact ⟨rfl, rfl⟩
  | close =>
      unfold Lane.close
      split <;> exact ⟨rfl, rfl⟩
  | _ => cases he

/-- `recvfrom` puts nothing into `_outbound`. -/
theorem Lane.Step.queued_recvfrom {cfg : Config} {D : Discipline}
    {fails : SweepInput → Prop} {l l' : Lane}
    (h : Lane.Step cfg D fails l .recvfrom l') : l'.queued = l.queued := by
  cases h <;> rfl

theorem Link.Prompt.outbound_recvfrom {cfgT cfgR : Config} {T : Endpoint cfgT}
    {R : Endpoint cfgR} {txAddr rxAddr : Address}
    (P : Link.Prompt T R txAddr rxAddr) {s : T.State} (hwf : T.WellFormed s) :
    (T.core (T.step s .recvfrom)).outbound = (T.core s).outbound := by
  obtain ⟨more, hmore⟩ := P.queue s .recvfrom nofun nofun
  rw [← hmore]
  convert List.append_nil _
  rw [List.eq_nil_iff_forall_not_mem]
  intro item hitem
  -- It would wait for its own peer.
  have hqueued := (hwf.lane_step .recvfrom item.addr).queued_recvfrom
  have hlane : (T.lane (T.step s .recvfrom) item.addr).queued =
      (T.lane s item.addr).queued ++
        more.filter fun other => other.addr = item.addr := by
    simp [Endpoint.lane, Core.lane, ← hmore]
  rw [hlane, List.append_right_eq_self, List.filter_eq_nil_iff] at hqueued
  exact hqueued item hitem (by simp)

namespace LoopedRun

variable {cfgT cfgR : Config} {T : Endpoint cfgT} {R : Endpoint cfgR}
  {r : LoopedRun T R}

/-! ## One step -/

/-- Somebody else's step is a call of the application or none. -/
theorem tx_other {i : ℕ} (hturn : ¬ r.Turn i) :
    r.tx (i + 1) = r.tx i ∨ ∃ e, e.isCall = true ∧
      (e = .recvfrom ∨ r.linkEvent i = .tx e ∧ r.event i = .other (.tx e)) ∧
        r.tx (i + 1) = T.step (r.tx i) e := by
  rw [tx, moment_succ, link_step, linkEvent]
  cases he : r.event i with
  | turn input => exact absurd ⟨input, he⟩ hturn
  | other e =>
      cases e with
      | rx e => exact Or.inl (Link.tx_step T R _ _ _ (.rx e))
      | toRx raw flip input =>
          exact Or.inl (Link.tx_step T R _ _ _ (.toRx raw flip input))
      | toTx raw flip input =>
          exact Or.inl (congrArg Link.tx (step_idleEvent _))
      | tx e =>
          cases e with
          | sendto data addr =>
              exact Or.inr ⟨.sendto data addr, rfl, Or.inr ⟨rfl, rfl⟩, rfl⟩
          | recvfrom => exact Or.inr ⟨.recvfrom, rfl, Or.inl rfl, rfl⟩
          | close => exact Or.inr ⟨.close, rfl, Or.inr ⟨rfl, rfl⟩, rfl⟩
          | _ => exact Or.inl (congrArg Link.tx (step_idleEvent _))

/-- While the thread waits its timers stay as they are. -/
theorem wait_eq (hcalls : ∀ s (e : Event), e.isCall = true →
    r.nearest (T.step s e) = r.nearest s) {now wait : ℚ} (i : ℕ)
    (hi : r.place i = .receiving now wait) :
    wait = nextWaitTime (r.nearest (r.tx i)) now := by
  induction i with
  | zero => cases hi
  | succ i ih =>
      by_cases hturn : r.Turn i
      · obtain ⟨input, he⟩ := hturn
        have hplace : r.place (i + 1) =
            next T R r.nearest (r.moment i) (r.tx (i + 1)) (r.event i) := rfl
        rw [hi, he] at hplace
        simp only [next] at hplace
        split_ifs at hplace
        cases hat : (r.moment i).place with
        | sweeping =>
            simp only [hat, turn] at hplace
            split_ifs at hplace
            cases hplace
            rfl
        | draining =>
            simp only [hat, turn] at hplace
            split_ifs at hplace
        | pumping addresses =>
            cases addresses with
            | nil =>
                rw [hat] at hplace
                cases hplace
            | cons addr addresses =>
                simp only [hat, turn] at hplace
                split at hplace <;> cases hplace
        | receiving now wait =>
            simp only [hat, turn] at hplace
            split at hplace
            · cases hplace
            · dsimp only at hplace
              split_ifs at hplace
            · cases hplace
            · cases hplace
        | top =>
            simp only [hat, turn] at hplace
            split_ifs at hplace
        | stopped =>
            rw [hat] at hplace
            cases hplace
      · have hwait := ih ((place_other hturn).symm.trans hi)
        rcases tx_other hturn with hsame | ⟨e, hcall, -, hstep⟩
        · rwa [hsame]
        · rwa [hstep, hcalls _ _ hcall]

theorem wellFormed_tx (r : LoopedRun T R) (i : ℕ) : T.WellFormed (r.tx i) := by
  rw [tx, link_moment]
  induction i with
  | zero => exact Endpoint.WellFormed.init
  | succ i ih => exact Link.wellFormed_step ih _

/-- What waits in `_pending` is left alone. -/
theorem lane_other {i : ℕ} (hturn : ¬ r.Turn i) (addr : Address) :
    (T.lane (r.tx (i + 1)) addr).pending = (T.lane (r.tx i) addr).pending ∧
      (T.lane (r.tx (i + 1)) addr).base = (T.lane (r.tx i) addr).base := by
  rcases tx_other hturn with hsame | ⟨e, hcall, -, hstep⟩
  · rw [hsame]
    exact ⟨rfl, rfl⟩
  · rw [hstep]
    exact ((wellFormed_tx r i).lane_step e addr).of_isCall hcall

/-- What the steps of a lane keep is kept in every run. -/
theorem lane_tx_keeps {P : Lane → Prop} {addr : Address}
    (hstep : ∀ fails l e l', Lane.Step cfgT T.discipline fails l e l' → P l → P l')
    (i : ℕ) (hP : P (T.lane (r.tx i) addr)) : P (T.lane (r.tx (i + 1)) addr) := by
  have hnext : r.tx (i + 1) =
      (Link.step T R r.txAddr r.rxAddr (r.moment i).link (r.linkEvent i)).tx :=
    congrArg Link.tx (LoopedLink.link_step _ _)
  rcases Link.tx_cases T R r.txAddr r.rxAddr (r.moment i).link (r.linkEvent i) with
    hsame | ⟨e, -, htx⟩
  · rw [hnext, hsame]
    exact hP
  · rw [hnext, htx]
    exact hstep _ _ e _ ((wellFormed_tx r i).lane_step e addr) hP

/-- After its turn the thread has ended, or is alive and goes on. -/
theorem place_turn_cases {i : ℕ} {input : TurnInput}
    (he : r.event i = .turn input) :
    r.place (i + 1) = .stopped ∨ (T.core (r.tx (i + 1))).crashed = none ∧
      r.place (i + 1) =
        (turn T r.nearest (r.place i) (r.tx i) input).2 (r.tx (i + 1)) := by
  have hplace : r.place (i + 1) =
      next T R r.nearest (r.moment i) (r.tx (i + 1)) (r.event i) := rfl
  rw [he] at hplace
  simp only [next] at hplace
  split_ifs at hplace with hcrashed
  · exact Or.inl hplace
  · exact Or.inr ⟨by simpa using hcrashed, hplace⟩

/-- A thread that is alive has been alive before. -/
theorem alive_of_succ {i : ℕ} (h : (T.core (r.tx (i + 1))).crashed = none) :
    (T.core (r.tx i)).crashed = none := by
  by_contra hcrashed
  have hlane : (T.lane (r.tx (i + 1)) ("", 0)).crashed = true :=
    lane_tx_keeps (P := fun l => l.crashed = true)
      (fun _ _ _ _ hstep hl => hstep.crashed hl) i
      (by simpa [Endpoint.lane, Core.lane, Option.isSome_iff_ne_none] using
        hcrashed)
  simp [Endpoint.lane, Core.lane, h] at hlane

/-! ## One step of a calm run -/

section

variable (h : r.Calm)
include h

theorem healthy_moment (i : ℕ) :
    Link.Healthy r.rxAddr (r.moment i).link ∧ T.WellFormed (r.tx i) := by
  rw [tx, link_moment]
  exact h.healthy i

theorem stopEvent_tx (i : ℕ) : (T.core (r.tx i)).stopEvent = false := by
  rw [tx, link_moment]
  induction i with
  | zero => exact congrArg Lane.stopped (T.lane_init r.rxAddr)
  | succ i ih =>
      obtain ⟨e, hstep, hcalm⟩ := h.lane_step i
      exact (hstep.stopped hcalm).trans ih

theorem place_turn {i : ℕ} {input : TurnInput} (he : r.event i = .turn input) :
    r.place (i + 1) =
      (turn T r.nearest (r.place i) (r.tx i) input).2 (r.tx (i + 1)) := by
  have halive : ¬ (T.core (r.tx (i + 1))).crashed.isSome := by
    simp [show (T.core (r.tx (i + 1))).crashed = none from
      (healthy_moment h (i + 1)).1.alive.tx]
  have hplace : r.place (i + 1) =
      next T R r.nearest (r.moment i) (r.tx (i + 1)) (r.event i) := rfl
  rw [hplace, he]
  exact if_neg halive

end

/-! ## Round and round -/

/-- The steps that `_pump_windows` can take at most for the addresses. -/
def pumpBound (T : Endpoint cfgT) (s : T.State) (addresses : List Address) : ℕ :=
  (addresses.map fun addr => (T.lane s addr).pending.keys.length + 1).sum

section

variable {s : T.State} {addr : Address} {input : PumpInput} {seq : ℕ} {item : Item}
  (hwf : T.WellFormed s) (hrun : (T.core s).crashed = none)
  (hrun' : (T.core (T.step s (.pump addr input))).crashed = none)
  (hnext : (T.core s).nextToSend cfgT addr = some (seq, item))
include hwf hrun hrun' hnext

/-- Pumping a packet takes its datagram out of `_pending`. -/
theorem pending_pump (b : Address) :
    (T.lane (T.step s (.pump addr input)) b).pending =
      if b = addr then (T.lane s addr).pending.erase seq
      else (T.lane s b).pending := by
  split_ifs with hb
  · subst hb
    exact T.pump_pending s b input seq item hrun hnext
  · have hother := (hwf.lane_step (.pump addr input) b).pump_other (Ne.symm hb)
    have halive := Endpoint.lane_crashed hrun' b
    exact congrArg Lane.pending (hother.resolve_right (by simp [halive]))

theorem pumpBound_pump (addresses : List Address) :
    pumpBound T (T.step s (.pump addr input)) (addr :: addresses) <
      pumpBound T s (addr :: addresses) := by
  have hmem : seq ∈ (T.lane s addr).pending.keys :=
    Dict.mem_keys.mpr ⟨item, Lane.pending_of_nextToSend hnext⟩
  have hlt := Dict.length_keys_erase hmem
  have hpending := pending_pump hwf hrun hrun' hnext
  have hrest : pumpBound T (T.step s (.pump addr input)) addresses ≤
      pumpBound T s addresses := by
    refine List.sum_le_sum fun b _ => Nat.succ_le_succ ?_
    rw [hpending b]
    split_ifs with hb
    · rw [hb]
      exact hlt.le
    · exact le_rfl
  have hhead := hpending addr
  rw [if_pos rfl] at hhead
  simp only [pumpBound, List.map_cons, List.sum_cons, hhead] at hrest ⊢
  omega

end

section

variable (h : r.Calm)

/-- The thread gets a turn where it is. -/
theorem exists_turn_at (hturns : ∃ᶠ i in atTop, r.Turn i) (i : ℕ) :
    ∃ j input, i ≤ j ∧ r.event j = .turn input ∧ r.place j = r.place i := by
  have hkept : ∀ j, i ≤ j → r.place j = r.place i →
      r.Turn j ∨ r.place (j + 1) = r.place i := fun j _ hplace => by
    by_cases hturn : r.Turn j
    · exact Or.inl hturn
    · exact Or.inr ((place_other hturn).trans hplace)
  obtain ⟨j, hj, ⟨input, hinput⟩, hplace⟩ :=
    exists_turn (P := fun j => r.place j = r.place i) hturns hkept rfl
  exact ⟨j, input, hj, hinput, hplace⟩

/-- `_pump_windows` returns, or an exception ends the thread. -/
theorem leaves_pumping (hturns : ∃ᶠ i in atTop, r.Turn i) {i : ℕ}
    {addresses : List Address} (hi : r.place i = .pumping addresses) :
    ∃ j, i ≤ j ∧ (r.place j = .sweeping ∨ r.place j = .stopped) := by
  let bound (j : ℕ) : ℕ :=
    match r.place j with
    | .pumping addresses => pumpBound T (r.tx j) addresses + 1
    | _ => 0
  apply exists_of_variant bound hturns (P := fun j =>
    (∃ addresses, r.place j = .pumping addresses) ∨
      r.place j = .sweeping ∨ r.place j = .stopped) _ (Or.inl ⟨addresses, hi⟩)
  rintro j hj (⟨addresses, hplace⟩ | hdone)
  · right
    by_cases hturn : r.Turn j
    · obtain ⟨input, he⟩ := hturn
      have hlink := link_turn he
      have hbound : bound j = pumpBound T (r.tx j) addresses + 1 := by
        simp only [bound, hplace]
      rcases place_turn_cases he with hstopped | ⟨halive, hplace'⟩
      · have hbound' : bound (j + 1) = 0 := by simp only [bound, hstopped]
        exact ⟨Or.inr (Or.inr hstopped), by omega, fun _ => by omega⟩
      rw [hplace] at hplace' hlink
      cases addresses with
      | nil =>
          have hswept : r.place (j + 1) = .sweeping := hplace'
          have hbound' : bound (j + 1) = 0 := by simp only [bound, hswept]
          exact ⟨Or.inr (Or.inl hswept), by omega, fun _ => by omega⟩
      | cons addr addresses =>
          cases hnext : (T.core (r.tx j)).nextToSend cfgT addr with
          | none =>
              simp only [turn, hnext] at hplace' hlink
              have htx : r.tx (j + 1) = r.tx j := congrArg Link.tx hlink
              have hbound' : bound (j + 1) = pumpBound T (r.tx j) addresses + 1 := by
                simp only [bound, hplace', htx]
              have hcons : pumpBound T (r.tx j) (addr :: addresses) =
                  (T.lane (r.tx j) addr).pending.keys.length + 1 +
                    pumpBound T (r.tx j) addresses := by
                simp [pumpBound]
              exact ⟨Or.inl ⟨addresses, hplace'⟩, by omega, fun _ => by omega⟩
          | some next =>
              simp only [turn, hnext] at hplace' hlink
              have htx : r.tx (j + 1) = T.step (r.tx j) (.pump addr input.pump) :=
                congrArg Link.tx hlink
              have hbound' : bound (j + 1) =
                  pumpBound T (r.tx (j + 1)) (addr :: addresses) + 1 := by
                simp only [bound, hplace']
              have hrun := alive_of_succ halive
              rw [htx] at hbound' halive
              have hlt := pumpBound_pump (wellFormed_tx r j) hrun halive hnext
                addresses
              exact ⟨Or.inl ⟨addr :: addresses, hplace'⟩, by omega,
                fun _ => by omega⟩
    · have hplace' := (place_other hturn).trans hplace
      have hbound : bound (j + 1) = bound j := by
        simp only [bound, hplace, hplace', pumpBound, (lane_other hturn _).1]
      exact ⟨Or.inl ⟨addresses, hplace'⟩, hbound.le, fun ht => absurd ht hturn⟩
  · exact Or.inl hdone

include h

/-- The thread is never stopped. -/
theorem place_ne_stopped (i : ℕ) : r.place i ≠ .stopped := by
  induction i with
  | zero => exact nofun
  | succ i ih =>
      by_cases hturn : r.Turn i
      · obtain ⟨input, he⟩ := hturn
        rw [place_turn h he]
        cases hplace : r.place i with
        | stopped => exact absurd hplace ih
        | top => simp [turn, stopEvent_tx h]
        | draining =>
            simp only [turn]
            split_ifs <;> simp
        | pumping addresses =>
            cases addresses with
            | nil => simp [turn]
            | cons addr addresses =>
                simp only [turn]
                split <;> simp
        | sweeping => simp [turn, stopEvent_tx h]
        | receiving now wait =>
            cases harrival : input.arrival <;>
              simp [turn, harrival, stopEvent_tx h]
      · rw [place_other hturn]
        exact ih

theorem draining_of_top (hturns : ∃ᶠ i in atTop, r.Turn i) {i : ℕ}
    (hi : r.place i = .top) : ∃ j, i ≤ j ∧ r.place j = .draining := by
  obtain ⟨j, input, hj, he, hplace⟩ := exists_turn_at hturns i
  refine ⟨j + 1, by omega, ?_⟩
  rw [place_turn h he, hplace, hi]
  simp [turn, stopEvent_tx h]

theorem receiving_of_sweeping (hturns : ∃ᶠ i in atTop, r.Turn i) {i : ℕ}
    (hi : r.place i = .sweeping) :
    ∃ j now wait, i ≤ j ∧ r.place j = .receiving now wait := by
  obtain ⟨j, input, hj, he, hplace⟩ := exists_turn_at hturns i
  refine ⟨j + 1, input.now,
    nextWaitTime (r.nearest (r.tx (j + 1))) input.now, by omega, ?_⟩
  rw [place_turn h he, hplace, hi]
  simp only [turn, stopEvent_tx h, Bool.false_eq_true, if_false]

theorem top_of_receiving (hturns : ∃ᶠ i in atTop, r.Turn i) {i : ℕ} {now wait : ℚ}
    (hi : r.place i = .receiving now wait) : ∃ j, i ≤ j ∧ r.place j = .top := by
  obtain ⟨j, input, hj, he, hplace⟩ := exists_turn_at hturns i
  refine ⟨j + 1, by omega, ?_⟩
  rw [place_turn h he, hplace, hi]
  cases harrival : input.arrival <;> simp [turn, harrival, stopEvent_tx h]

/-- `_pump_windows` returns. -/
theorem sweeping_of_pumping (hturns : ∃ᶠ i in atTop, r.Turn i) {i : ℕ}
    {addresses : List Address} (hi : r.place i = .pumping addresses) :
    ∃ j, i ≤ j ∧ r.place j = .sweeping := by
  obtain ⟨j, hj, hswept | hstopped⟩ := leaves_pumping hturns hi
  · exact ⟨j, hj, hswept⟩
  · exact absurd hstopped (place_ne_stopped h j)

/-- `_drain_outbound` returns when the thread has caught up. -/
theorem pumping_of_draining (P : Link.Prompt T R r.txAddr r.rxAddr)
    (hfair : r.Fair) {i : ℕ} (hi : r.place i = .draining) :
    ∃ j addresses, i ≤ j ∧ r.place j = .pumping addresses := by
  have hleaves : ∀ j input, r.event j = .turn input → r.place j = .draining →
      (T.core (r.tx j)).outbound = [] →
        r.place (j + 1) = .pumping (T.core (r.tx (j + 1))).pending.keys := by
    intro j input he hplace hempty
    rw [place_turn h he, hplace]
    simp only [turn, if_pos hempty]
  have hstays : ∀ j input, r.event j = .turn input → r.place j = .draining →
      (T.core (r.tx j)).outbound ≠ [] → r.place (j + 1) = .draining ∧
        r.tx (j + 1) = T.step (r.tx j) .drain := by
    intro j input he hplace hne
    have hlink := link_turn he
    rw [place_turn h he, hplace]
    rw [hplace] at hlink
    simp only [turn, if_neg hne] at hlink ⊢
    exact ⟨trivial, congrArg Link.tx hlink⟩
  obtain ⟨j, hj, ⟨input, he⟩, hplace, hempty⟩ : ∃ j, i ≤ j ∧ r.Turn j ∧
      r.place j = .draining ∧ (T.core (r.tx j)).outbound = [] := by
    by_contra hno
    push Not at hno
    have hforever : ∀ j, i ≤ j → r.place j = .draining := by
      intro j hj
      refine holds_of_le (P := fun j => r.place j = .draining) (fun k hk hplace => ?_)
        hi hj
      by_cases hturn : r.Turn k
      · obtain ⟨input, he⟩ := hturn
        exact (hstays k input he hplace (hno k hk ⟨input, he⟩ hplace)).1
      · exact (place_other hturn).trans hplace
    rcases hfair.catchesUp with hstops | hreturns
    · -- No more comes in, and every turn takes an item out.
      obtain ⟨i₁, hquiet⟩ := eventually_atTop.mp hstops
      have hshrinks : ∀ j, max i i₁ ≤ j →
          (T.core (r.tx (j + 1))).outbound.length ≤
              (T.core (r.tx j)).outbound.length ∧
            (r.Turn j → (T.core (r.tx (j + 1))).outbound.length <
              (T.core (r.tx j)).outbound.length) := by
        intro j hj
        have hplace := hforever j ((le_max_left i i₁).trans hj)
        by_cases hturn : r.Turn j
        · obtain ⟨input, he⟩ := hturn
          have hne := hno j ((le_max_left i i₁).trans hj) ⟨input, he⟩ hplace
          have htail := P.drain (r.tx j) (healthy_moment h j).1.alive.tx
          have hpos : 0 < (T.core (r.tx j)).outbound.length :=
            List.length_pos_iff.mpr hne
          rw [(hstays j input he hplace hne).2, htail, List.length_tail]
          omega
        · have hsame : (T.core (r.tx (j + 1))).outbound =
              (T.core (r.tx j)).outbound := by
            rcases tx_other hturn with hsame | ⟨e, hcall, he, hstep⟩
            · rw [hsame]
            · rw [hstep]
              cases e with
              | sendto data addr =>
                  obtain ⟨-, hsends⟩ := he.resolve_left nofun
                  exact absurd hsends
                    (hquiet j ((le_max_right i i₁).trans hj) data addr)
              | recvfrom => exact P.outbound_recvfrom (healthy_moment h j).2
              | close =>
                  obtain ⟨hclose, -⟩ := he.resolve_left nofun
                  have hcalm := (h.calm j).undisturbed
                  rw [hclose] at hcalm
                  exact absurd trivial hcalm
              | _ => cases hcall
          rw [hsame]
          exact ⟨le_rfl, fun ht => absurd ht hturn⟩
      obtain ⟨j, -, hnever⟩ := exists_of_variant (P := fun _ => True)
        (Q := fun _ => False) (fun j => (T.core (r.tx j)).outbound.length)
        hfair.turns (fun j hj _ => Or.inr ⟨trivial, hshrinks j hj⟩) trivial
      exact hnever
    · obtain ⟨j, hj, hleft⟩ := hreturns i hi
      exact hleft (hforever j hj)
  exact ⟨j + 1, _, by omega, hleaves j input he hplace hempty⟩

/-- The thread goes round and round. -/
theorem exists_top (P : Link.Prompt T R r.txAddr r.rxAddr) (hfair : r.Fair)
    (i : ℕ) : ∃ j, i ≤ j ∧ r.place j = .top := by
  have hsweeping : ∀ i, r.place i = .sweeping → ∃ j, i ≤ j ∧ r.place j = .top := by
    intro i hi
    obtain ⟨j, now, wait, hj, hplace⟩ := receiving_of_sweeping h hfair.turns hi
    obtain ⟨k, hk, htop⟩ := top_of_receiving h hfair.turns hplace
    exact ⟨k, hj.trans hk, htop⟩
  have hpumping : ∀ i addresses, r.place i = .pumping addresses →
      ∃ j, i ≤ j ∧ r.place j = .top := by
    intro i addresses hi
    obtain ⟨j, hj, hplace⟩ := sweeping_of_pumping h hfair.turns hi
    obtain ⟨k, hk, htop⟩ := hsweeping j hplace
    exact ⟨k, hj.trans hk, htop⟩
  cases hi : r.place i with
  | top => exact ⟨i, le_rfl, hi⟩
  | draining =>
      obtain ⟨j, addresses, hj, hplace⟩ := pumping_of_draining h P hfair hi
      obtain ⟨k, hk, htop⟩ := hpumping j addresses hplace
      exact ⟨k, hj.trans hk, htop⟩
  | pumping addresses => exact hpumping i addresses hi
  | sweeping => exact hsweeping i hi
  | receiving now wait => exact top_of_receiving h hfair.turns hi
  | stopped => exact absurd hi (place_ne_stopped h i)

/-- When `_pump_windows` has visited a peer, no packet to it may be sent. -/
def Pumped (addr : Address) : Place → T.State → Prop
  | .pumping addresses, s =>
      addr ∉ addresses → (T.core s).nextToSend cfgT addr = none
  | .sweeping, s => (T.core s).nextToSend cfgT addr = none
  | _, _ => True

theorem pumped (addr : Address) (i : ℕ) :
    Pumped (T := T) addr (r.place i) (r.tx i) := by
  induction i with
  | zero => trivial
  | succ i ih =>
      by_cases hturn : r.Turn i
      · obtain ⟨input, he⟩ := hturn
        have hplace := place_turn h he
        have hlink := link_turn he
        cases hi : r.place i with
        | top =>
            rw [hplace, hi]
            simp [turn, stopEvent_tx h, Pumped]
        | draining =>
            rw [hplace, hi]
            simp only [turn]
            split_ifs
            · intro hnot
              have hempty : sub (T.core (r.tx (i + 1))).pending addr = ∅ := by
                rw [sub, Dict.getD, Dict.get?_eq_none_iff.mpr hnot]
                rfl
              simp [nextToSend, hempty]
            · trivial
        | pumping addresses =>
            rw [hi] at hplace hlink ih
            cases addresses with
            | nil =>
                have htx : r.tx (i + 1) = r.tx i := congrArg Link.tx hlink
                rw [hplace, htx]
                exact ih List.not_mem_nil
            | cons a addresses =>
                cases hnext : (T.core (r.tx i)).nextToSend cfgT a with
                | none =>
                    simp only [turn, hnext] at hplace hlink
                    have htx : r.tx (i + 1) = r.tx i := congrArg Link.tx hlink
                    rw [hplace, htx]
                    intro hnot
                    by_cases ha : addr = a
                    · rw [ha, hnext]
                    · exact ih (by simp [ha, hnot])
                | some next =>
                    simp only [turn, hnext] at hplace hlink
                    have htx : r.tx (i + 1) =
                        T.step (r.tx i) (.pump a input.pump) :=
                      congrArg Link.tx hlink
                    rw [hplace]
                    intro hnot
                    have ha : a ≠ addr := by
                      rintro rfl
                      exact hnot List.mem_cons_self
                    have halive : (T.lane (r.tx (i + 1)) addr).crashed = false :=
                      Endpoint.lane_crashed
                        (healthy_moment h (i + 1)).1.alive.tx addr
                    have hstep := (healthy_moment h i).2.lane_step
                      (.pump a input.pump) addr
                    rw [← htx] at hstep
                    have hlane := (hstep.pump_other ha).resolve_right
                      (by simpa using halive)
                    exact (congrArg (Lane.nextToSend cfgT) hlane).trans (ih hnot)
        | sweeping =>
            rw [hplace, hi]
            simp [turn, stopEvent_tx h, Pumped]
        | receiving now wait =>
            rw [hplace, hi]
            cases harrival : input.arrival <;>
              simp [turn, harrival, stopEvent_tx h, Pumped]
        | stopped => exact absurd hi (place_ne_stopped h i)
      · obtain ⟨hpending, hbase⟩ := lane_other hturn addr
        have hnext : (T.core (r.tx (i + 1))).nextToSend cfgT addr =
            (T.core (r.tx i)).nextToSend cfgT addr := by
          change (T.lane (r.tx (i + 1)) addr).nextToSend cfgT =
            (T.lane (r.tx i) addr).nextToSend cfgT
          simp only [Lane.nextToSend, hpending, hbase]
        rw [place_other hturn]
        cases hi : r.place i with
        | pumping addresses =>
            rw [hi] at ih
            exact fun hnot => hnext.trans (ih hnot)
        | sweeping =>
            rw [hi] at ih
            exact hnext.trans ih
        | _ => trivial

/-- The loop puts off no step that stays possible. -/
theorem fair_linkEvent (P : Link.Prompt T R r.txAddr r.rxAddr) (hfair : r.Fair) :
    Link.Fair T R r.txAddr r.rxAddr r.linkEvent := by
  have hdraining : ∀ i, ∃ j, i ≤ j ∧ r.place j = .draining := by
    intro i
    obtain ⟨j, hj, htop⟩ := exists_top h P hfair i
    obtain ⟨k, hk, hplace⟩ := draining_of_top h hfair.turns htop
    exact ⟨k, hj.trans hk, hplace⟩
  have hsweeping : ∀ i, ∃ j, i ≤ j ∧ r.place j = .sweeping := by
    intro i
    obtain ⟨j, hj, hplace⟩ := hdraining i
    obtain ⟨k, addresses, hk, hplace'⟩ := pumping_of_draining h P hfair hplace
    obtain ⟨l, hl, hswept⟩ := sweeping_of_pumping h hfair.turns hplace'
    exact ⟨l, hj.trans (hk.trans hl), hswept⟩
  refine ⟨?_, ?_, ?_, hfair.toRx, hfair.toTx⟩
  · rw [frequently_atTop]
    intro i
    obtain ⟨j, hj, hplace⟩ := hdraining i
    obtain ⟨k, input, hk, he, hsame⟩ := exists_turn_at hfair.turns j
    refine ⟨k, hj.trans hk, ?_⟩
    by_cases hempty : (T.core (r.tx k)).outbound = []
    · right
      rw [← link_moment]
      exact hempty
    · left
      have hturn : turn T r.nearest (r.moment k).place (r.moment k).link.tx input =
          (some (.tx .drain), fun _ => .draining) := by
        have hat : (r.moment k).place = .draining := hsame.trans hplace
        simp only [hat, turn]
        exact if_neg hempty
      simp [linkEvent, he, LoopedLink.event, hturn]
  · rw [frequently_atTop]
    intro i
    obtain ⟨j, hj, hplace⟩ := hsweeping i
    have hpumped := pumped h r.rxAddr j
    rw [hplace] at hpumped
    refine ⟨j, hj, Or.inr ?_⟩
    rw [Link.txLane, ← link_moment]
    exact hpumped
  · intro t
    rw [frequently_atTop]
    intro i
    obtain ⟨i₁, hlate⟩ := eventually_atTop.mp (hfair.clock t)
    obtain ⟨j, hj, hplace⟩ := hsweeping (max i i₁)
    obtain ⟨k, input, hk, he, hsame⟩ := exists_turn_at hfair.turns j
    have hat : (r.moment k).place = .sweeping := hsame.trans hplace
    refine ⟨k, ((le_max_left i i₁).trans hj).trans hk, input.sweep, ?_,
      hlate k (((le_max_right i i₁).trans hj).trans hk) input he⟩
    simp [linkEvent, he, LoopedLink.event, hat, turn]

end

end LoopedRun

end UdpArq
