import UdpArq.GoBackN.Refinement
import UdpArq.SelectiveRepeat.Refinement

/-!
# Waiting datagrams and the window that should let them in

A datagram enters the window when its number is below the base plus the window
size, and only acknowledgements of packets in flight move the base.  As long as
the next datagram of every peer with nothing in flight lies in the window, the
sender cannot block itself.  Acknowledgements keep this.  A failure need not: it
takes packets out of flight and leaves the base where it is.
-/

namespace UdpArq

open UdpArq.Core

namespace Lane

variable {cfg : Config} {D : Discipline} {fails : SweepInput → Prop}
  {l l' : Lane} {e : Event}

/-- The number that follows those in `_pending`. -/
def afterPending (l : Lane) : ℕ := (l.queued.head?.map Item.seq).getD l.nextSeq

/-- The event fails packets such that nothing is left in flight and the next
datagram, which waits already or may still be handed over, lies beyond the
window. -/
def Blocks (cfg : Config) (fails : SweepInput → Prop) (l : Lane) : Event → Prop
  | .pump addr input => addr = l.peer ∧ input.sendResult ≠ none ∧
      l.outstanding.keys = [] ∧
      ∃ seq item, l.nextToSend cfg = some (seq, item) ∧
        (∃ packet, dataPacket seq item.data = .ok packet) ∧
        (l.stopped = false ∨ seq + 1 ∈ l.waiting) ∧
        l.base.getD 0 + cfg.windowSize ≤ seq + 1
  | .timeouts input => fails input ∧ (l.stopped = false ∨ l.queued ≠ []) ∧
      l.base.getD 0 + cfg.windowSize ≤ l.afterPending
  | _ => False

/-- The numbers not yet sent start in the window or right behind it; with
nothing in flight they start in the window, unless none can follow. -/
structure Open (cfg : Config) (l : Lane) (lo n : ℕ) : Prop where
  span : l.Span lo n
  le : ∀ base, l.base = some base → lo ≤ base + cfg.windowSize
  room : ∀ base, l.base = some base → l.outstanding.keys = [] →
    lo < base + cfg.windowSize ∨ (n = 0 ∧ l.stopped = true)

theorem Open.congr {lo n : ℕ} (h : l.Open cfg lo n) (hspan : l'.Span lo n)
    (hbase : l'.base = l.base) (hstopped : l'.stopped = l.stopped)
    (hout : l'.outstanding = l.outstanding) : l'.Open cfg lo n := by
  refine ⟨hspan, ?_, ?_⟩
  · rw [hbase]
    exact h.le
  · rw [hbase, hout, hstopped]
    exact h.room

theorem Open.accept {lo n : ℕ} (h : l.Open cfg lo n) (hopen : l.stopped = false)
    (data : Bytes) : (l.accept data).Open cfg lo (n + 1) := by
  refine ⟨h.span.accept hopen data, h.le, fun base hbase hnil => ?_⟩
  rcases h.room base hbase hnil with hlt | ⟨-, hstopped⟩
  · exact Or.inl hlt
  · simp [hopen] at hstopped

theorem Open.register {lo n : ℕ} (h : l.Open cfg lo n) {item : Item}
    {rest : List Item} (hwf : l.WellFormed) (hqueue : l.queued = item :: rest) :
    (l.register item rest).Open cfg lo n := by
  have hspan := h.span.register hqueue
  cases hbase : l.base with
  | some base =>
      apply h.congr hspan _ rfl rfl
      simp [Lane.register, hbase]
  | none =>
      obtain ⟨hpending, hout⟩ := hwf.ready.base_none hbase
      have hlo : item.seq = lo := by
        have hrange := h.span.waiting_eq
        rw [waiting, hpending, hqueue] at hrange
        cases n with
        | zero => simp at hrange
        | succ n => exact (List.cons.inj hrange).1
      have hnew : ∀ base, (l.register item rest).base = some base →
          base = lo := by
        intro base hb
        rw [← hlo]
        simpa [Lane.register, hbase] using hb.symm
      have hpos := cfg.windowPos
      refine ⟨hspan, fun base hb => ?_, fun base hb _ => ?_⟩
      · rw [hnew base hb]
        exact Nat.le_add_right _ _
      · rw [hnew base hb]
        exact Or.inl (Nat.lt_add_of_pos_right hpos)

/-- A packet leaves `_pending`, and something is in flight or the next number
lies in the window. -/
theorem Open.popPending {lo n seq : ℕ} {item : Item} (h : l.Open cfg lo n)
    (hnext : l.nextToSend cfg = some (seq, item))
    (hspan : l'.Span (seq + 1) (n - 1)) (hbase : l'.base = l.base)
    (hroom : ∀ base, l.base = some base → l'.outstanding.keys = [] →
      seq + 1 < base + cfg.windowSize ∨ (n - 1 = 0 ∧ l'.stopped = true)) :
    l'.Open cfg (seq + 1) (n - 1) := by
  obtain ⟨rfl, -, hlt, -⟩ := h.span.next hnext
  refine ⟨hspan, fun base hb => ?_, fun base hb => hroom base (hbase ▸ hb)⟩
  rw [hbase] at hb
  rw [hb] at hlt
  exact hlt

theorem Open.send {lo n seq : ℕ} {item : Item} (h : l.Open cfg lo n)
    (hnext : l.nextToSend cfg = some (seq, item)) (packet : Bytes) :
    (((l.popPending seq).launch seq item packet).transmit packet).Open cfg
      (seq + 1) (n - 1) := by
  have hspan := (h.span.popPending hnext).launch item packet
  refine h.popPending hnext (hspan.shrink rfl rfl rfl fun _ hq => hq) rfl ?_
  intro base _ hnil
  have hmem : seq ∈ (l.outstanding.set seq packet).keys :=
    Dict.mem_keys.mpr ⟨packet, by simp⟩
  exact absurd hnil (List.ne_nil_of_mem hmem)

theorem Open.unsent {lo n seq : ℕ} {item : Item} {packet : Bytes}
    {input : PumpInput} (h : l.Open cfg lo n)
    (hnext : l.nextToSend cfg = some (seq, item))
    (hpacket : dataPacket seq item.data = .ok packet)
    (hsend : input.sendResult ≠ none)
    (hblocks : ¬ l.Blocks cfg fails (.pump l.peer input)) (e : Err) :
    (((l.popPending seq).launch seq item packet).discard seq e).Open cfg
      (seq + 1) (n - 1) := by
  obtain ⟨hlo, ⟨k, m, hn, hpending, hqueued⟩, -, -⟩ := h.span.next hnext
  have hspan := (h.span.popPending hnext).launch item packet
  refine h.popPending hnext (hspan.shrink rfl rfl rfl fun q hq => ?_) rfl ?_
  · exact (Dict.mem_keys_erase.mp hq).1
  intro base hbase hnil
  -- Without this packet the window is as empty as before.
  have hold : l.outstanding.keys = [] := by
    rw [List.eq_nil_iff_forall_not_mem] at hnil ⊢
    intro q hq
    have hlt := h.span.outstanding_lt q hq
    have hne : q ≠ seq := by omega
    apply hnil q
    exact Dict.mem_keys_erase.mpr ⟨Dict.mem_keys_set.mpr (Or.inr hq), hne⟩
  by_contra hno
  rw [not_or, not_and_or] at hno
  refine hblocks ⟨rfl, hsend, hold, seq, item, hnext, ⟨packet, hpacket⟩, ?_, ?_⟩
  · by_cases hstopped : l.stopped = true
    · right
      have hmore : n - 1 ≠ 0 := hno.2.resolve_right (fun hbad => hbad hstopped)
      rw [h.span.waiting_eq, List.mem_range'_1]
      omega
    · exact Or.inl (by simpa using hstopped)
  · rw [hbase]
    exact not_lt.mp hno.1

/-- Giving the peer up leaves room for the next number, unless none follows. -/
theorem Open.giveUp {lo n : ℕ} {packets : List Bytes} {input : SweepInput}
    (h : l.Open cfg lo n) (hfails : fails input)
    (hblocks : ¬ l.Blocks cfg fails (.timeouts input)) (e : Err) :
    ∃ lo' n', ((l.resend packets).failPeer e).Open cfg lo' n' := by
  obtain ⟨k, m, hn, hpending, hqueued⟩ := h.span.split
  have hfull := h.span.full
  have hle := h.span.le_nextSeq
  by_cases hmore : l.stopped = false ∨ l.queued ≠ []
  · have hafter : l.afterPending = lo + k := by
      cases hq : l.queued with
      | nil =>
          have hm : m = 0 := by simpa [hq] using hqueued.symm
          have hstopped := hmore.resolve_right fun hne => hne hq
          have hnext := hfull hstopped
          simp only [afterPending, hq, List.head?_nil, Option.map_none,
            Option.getD_none]
          omega
      | cons item rest =>
          rw [hq, List.map_cons] at hqueued
          cases m with
          | zero => simp at hqueued
          | succ m =>
              rw [List.range'_succ] at hqueued
              simp [afterPending, hq, (List.cons.inj hqueued).1]
    have hlt : lo + k < l.base.getD 0 + cfg.windowSize := by
      by_contra hge
      exact hblocks ⟨hfails, hmore, by rw [hafter]; exact not_lt.mp hge⟩
    have hroom : ∀ base, l.base = some base → lo + k < base + cfg.windowSize := by
      intro base hbase
      rwa [hbase] at hlt
    refine ⟨lo + k, m, ⟨?_, ?_, fun hopen => ?_, by simp [Lane.failPeer]⟩,
      fun base hb => (hroom base hb).le, fun base hb _ => Or.inl (hroom base hb)⟩
    · simpa [waiting, Lane.failPeer, Lane.resend] using hqueued
    · change lo + k + m ≤ l.nextSeq
      omega
    · have hfull' := hfull hopen
      change lo + k + m = l.nextSeq
      omega
  · rw [not_or, not_not] at hmore
    have hstopped : l.stopped = true := by simpa using hmore.1
    refine ⟨lo, 0, ⟨?_, ?_, fun hopen => ?_, by simp [Lane.failPeer]⟩, h.le,
      fun _ _ _ => Or.inr ⟨rfl, hstopped⟩⟩
    · simp [waiting, Lane.failPeer, Lane.resend, hmore.2]
    · change lo + 0 ≤ l.nextSeq
      omega
    · exact absurd hopen hmore.1

/-- An acknowledgement that empties the window moves the base. -/
theorem Open.ack {lo n k base : ℕ} {seqs : List ℕ} (h : l.Open cfg lo n)
    (hslide : D.slide l k = some (seqs, base)) :
    ((l.complete seqs).slideTo base).Open cfg lo n := by
  obtain ⟨old, hold, hmove, -, hempty⟩ := (D.slide_sound hslide).old
  have hle := h.le old hold
  refine ⟨h.span.shrink rfl rfl rfl fun q hq => Dict.mem_keys_of_eraseAll hq,
    ?_, ?_⟩
  · intro b hb
    cases hb
    omega
  · intro b hb hnil
    cases hb
    left
    rcases hempty (Dict.eq_empty_iff.mpr hnil) with hlt | hall
    · omega
    · have hnext := h.span.le_nextSeq
      have hpos := cfg.windowPos
      omega

theorem Open.close {lo n : ℕ} (h : l.Open cfg lo n) :
    ∃ n', l.close.Open cfg lo n' := by
  by_cases hstopped : l.stopped
  · rw [Lane.close, if_pos hstopped]
    exact ⟨n, h⟩
  · obtain ⟨k, hk, hspan⟩ := h.span.close
    rw [Lane.close, if_neg hstopped] at hspan ⊢
    refine ⟨k, hspan, h.le, fun base hb hnil => ?_⟩
    exact (h.room base hb hnil).imp_right fun hbad => absurd hbad.2 hstopped

/-- Every event that blocks nothing keeps the window of a running thread
open. -/
theorem Open.step (h : l.crashed = false → ∃ lo n, l.Open cfg lo n)
    (hwf : l.WellFormed) (hstep : Step cfg D fails l e l')
    (hblocks : ¬ l.Blocks cfg fails e) :
    l'.crashed = false → ∃ lo n, l'.Open cfg lo n := by
  have hcongr : ∀ {lo n : ℕ} {l' : Lane}, l.Open cfg lo n →
      l'.waiting = l.waiting → l'.nextSeq = l.nextSeq →
      l'.stopped = l.stopped → l'.outstanding = l.outstanding →
      l'.base = l.base → ∃ lo n, l'.Open cfg lo n := by
    intro lo n l' h hwaiting hnext hstopped hout hbase
    have hspan := h.span.shrink hwaiting hnext hstopped
      fun q hq => by rwa [hout] at hq
    exact ⟨lo, n, h.congr hspan hbase hstopped hout⟩
  cases hstep with
  | crash => exact fun hdead => by cases hdead
  | registerCrash => exact fun hdead => by cases hdead
  | unencodable => exact fun hdead => by cases hdead
  | muteCrash => exact fun hdead => by cases hdead
  | accept _ hopen =>
      intro hrun
      obtain ⟨lo, n, h⟩ := h hrun
      exact ⟨lo, n + 1, h.accept hopen _⟩
  | register hqueue =>
      intro hrun
      obtain ⟨lo, n, h⟩ := h hrun
      have h' := h.register hwf hqueue
      exact ⟨lo, n, h'.congr (h'.span.shrink rfl rfl rfl fun _ hq => hq)
        rfl rfl rfl⟩
  | send hnext =>
      intro hrun
      obtain ⟨lo, n, h⟩ := h hrun
      exact ⟨_, _, h.send hnext _⟩
  | unsent hnext hpacket hsend =>
      intro hrun
      obtain ⟨lo, n, h⟩ := h hrun
      exact ⟨_, _, h.unsent hnext hpacket (by simp [hsend]) hblocks _⟩
  | giveUp _ hfails =>
      intro hrun
      obtain ⟨lo, n, h⟩ := h hrun
      exact h.giveUp hfails hblocks _
  | ack _ hslide =>
      intro hrun
      obtain ⟨lo, n, h⟩ := h hrun
      exact ⟨lo, n, h.ack hslide⟩
  | close =>
      intro hrun
      have hrun' : l.crashed = false := by
        unfold Lane.close at hrun
        split at hrun <;> exact hrun
      obtain ⟨lo, n, h⟩ := h hrun'
      obtain ⟨n', h'⟩ := h.close
      exact ⟨lo, n', h'⟩
  | _ =>
      intro hrun
      obtain ⟨lo, n, h⟩ := h hrun
      exact hcongr h rfl rfl rfl rfl rfl

/-- In an open window whatever waits can be sent, unless something is in
flight. -/
theorem Open.pending_eq_nil {lo n : ℕ} (h : l.Open cfg lo n)
    (hwf : l.WellFormed) (hnext : l.nextToSend cfg = none)
    (hnil : l.outstanding.keys = []) : l.pending.keys = [] := by
  obtain ⟨k, m, hn, hpending, -⟩ := h.span.split
  cases k with
  | zero => exact hpending
  | succ k =>
      have hbase : l.base ≠ none := by
        intro hnone
        rw [(hwf.ready.base_none hnone).1] at hpending
        simp at hpending
      obtain ⟨base, hbase⟩ := Option.ne_none_iff_exists'.mp hbase
      have hlt := (h.room base hbase hnil).resolve_right (by omega)
      have hmem : lo ∈ l.pending.keys := by
        rw [hpending, List.mem_range'_1]
        omega
      obtain ⟨item, hitem⟩ := Dict.mem_keys.mp hmem
      rw [nextToSend, hpending, min?_range'] at hnext
      simp [hbase, not_le.mpr hlt, hitem] at hnext

end Lane

namespace Endpoint

variable {cfg : Config} {E : Endpoint cfg}

variable (E) in
/-- The event blocks no peer. -/
def BlocksNone (s : E.State) (e : Event) : Prop :=
  ∀ addr, ¬ (E.lane s addr).Blocks cfg (E.PeerFails s addr) e

variable (E) in
/-- The windows of all peers are open while the thread runs. -/
def Unblocked (s : E.State) : Prop :=
  E.WellFormed s ∧ ∀ addr, (E.lane s addr).crashed = false →
    ∃ lo n, (E.lane s addr).Open cfg lo n

theorem unblocked_init : Unblocked E E.init := by
  refine ⟨Endpoint.WellFormed.init, fun addr _ => ⟨0, 0, ?_⟩⟩
  rw [Endpoint.lane, E.lane_init]
  exact ⟨⟨rfl, le_rfl, fun _ => rfl, by simp⟩, by simp, by simp⟩

theorem Unblocked.step {s : E.State} (h : Unblocked E s) {e : Event}
    (he : BlocksNone E s e) : Unblocked E (E.step s e) := by
  refine ⟨h.1.step e, fun addr => ?_⟩
  exact Lane.Open.step (h.2 addr) (h.1 addr) (h.1.lane_step e addr) (he addr)

/-- As long as fewer datagrams have been handed over than fit the window, and none
of them is in `_outbound`, a sweep blocks nobody. -/
theorem WellFormed.blocksNone_timeouts {s : E.State} (h : E.WellFormed s)
    (hqueue : (E.core s).outbound = [])
    (hfew : (E.core s).handed.length < cfg.windowSize) (input : SweepInput) :
    BlocksNone E s (.timeouts input) := by
  rintro addr ⟨-, -, hfull⟩
  have hqueued : (E.lane s addr).queued = [] := by
    simp [Endpoint.lane, Core.lane, hqueue]
  have hnext : (E.lane s addr).nextSeq ≤ (E.core s).handed.length := by
    rw [(h addr).nextSeq_eq]
    exact List.length_filterMap_le _ _
  simp only [Lane.afterPending, hqueued, List.head?_nil, Option.map_none,
    Option.getD_none] at hfull
  omega

/-- The steps of the two loops fail nothing as long as the sends succeed. -/
theorem blocksNone_of_isLoopStep {input : Address → ℕ → PumpInput}
    (hsend : ∀ addr seq, (input addr seq).sendResult = none) {e : Event}
    (he : IsLoopStep input e) (s : E.State) : BlocksNone E s e := by
  intro addr hblocks
  rcases he with rfl | ⟨addr', seq, rfl⟩
  · exact hblocks
  · exact hblocks.2.1 (hsend addr' seq)

/-- After a round of the two loops whatever waits has something in flight before
it. -/
theorem Unblocked.pumpWindows {s : E.State} (h : Unblocked E s)
    {input : Address → ℕ → PumpInput}
    (hsend : ∀ addr seq, (input addr seq).sendResult = none)
    (hrun : (E.core (E.pumpWindows input (E.drainOutbound s))).crashed = none)
    {addr : Address}
    (hpending : (sub (E.core (E.pumpWindows input
      (E.drainOutbound s))).pending addr).keys ≠ []) :
    (sub (E.core (E.pumpWindows input
      (E.drainOutbound s))).outstanding addr).keys ≠ [] := by
  have hdrained : E.WellFormed (E.drainOutbound s) := by
    rw [drainOutbound_eq_run]
    exact h.1.run _
  have hexhausted := pumpWindows_exhausted hdrained input addr
  have hmeets : Meets E.step (BlocksNone E) s (E.roundEvents input s) :=
    (meets_of_forall fun _ he => isLoopStep_of_mem_roundEvents he).mono
      fun s e he => blocksNone_of_isLoopStep hsend he s
  have hopen : Unblocked E (E.pumpWindows input (E.drainOutbound s)) := by
    rw [loop_eq_run]
    exact run_invariant_of_meets (Unblocked E)
      (fun _ _ h he => h.step he) h hmeets
  intro hnil
  apply hpending
  obtain ⟨lo, n, hlane⟩ := hopen.2 addr (by simp [Endpoint.lane, Core.lane, hrun])
  have hnext := hexhausted.resolve_left (by simp [hrun])
  exact hlane.pending_eq_nil (hopen.1 addr) hnext hnil

end Endpoint

/-- In every run in which no failure blocks a peer, a round of `_drain_outbound`
and `_pump_windows` with successful sends leaves no peer with waiting datagrams
and nothing in flight. -/
theorem waiting_has_outstanding (cfg : Config) (es : List Event)
    (input : Address → ℕ → PumpInput)
    (hsend : ∀ addr seq, (input addr seq).sendResult = none) :
    (let s := GoBackNTransport.pumpWindows cfg input
        (GoBackNTransport.drainOutbound cfg
          (run (GoBackNTransport.step cfg) GoBackNTransport.init es))
     Meets (GoBackNTransport.step cfg)
        (Endpoint.BlocksNone (GoBackNTransport.endpoint cfg))
        GoBackNTransport.init es →
      s.crashed = none → ∀ addr, (sub s.pending addr).keys ≠ [] →
        (sub s.outstanding addr).keys ≠ []) ∧
    (let s := SelectiveRepeatTransport.pumpWindows cfg input
        (SelectiveRepeatTransport.drainOutbound cfg
          (run (SelectiveRepeatTransport.step cfg)
            SelectiveRepeatTransport.init es))
     Meets (SelectiveRepeatTransport.step cfg)
        (Endpoint.BlocksNone (SelectiveRepeatTransport.endpoint cfg))
        SelectiveRepeatTransport.init es →
      s.crashed = none → ∀ addr, (sub s.pending addr).keys ≠ [] →
        (sub s.outstanding addr).keys ≠ []) := by
  constructor
  · intro s hes hrun addr hpending
    have heq : s = (GoBackNTransport.endpoint cfg).pumpWindows input
        ((GoBackNTransport.endpoint cfg).drainOutbound
          (run (GoBackNTransport.step cfg) GoBackNTransport.init es)) :=
      GoBackNTransport.pumpWindows_eq cfg input _
    have hopen : Endpoint.Unblocked (GoBackNTransport.endpoint cfg)
        (run (GoBackNTransport.step cfg) GoBackNTransport.init es) :=
      run_invariant_of_meets (Endpoint.Unblocked _)
        (fun _ _ h he => h.step he) Endpoint.unblocked_init hes
    rw [heq] at hrun hpending ⊢
    exact hopen.pumpWindows hsend hrun hpending
  · intro s hes hrun addr hpending
    have heq : s = (SelectiveRepeatTransport.endpoint cfg).pumpWindows input
        ((SelectiveRepeatTransport.endpoint cfg).drainOutbound
          (run (SelectiveRepeatTransport.step cfg)
            SelectiveRepeatTransport.init es)) :=
      SelectiveRepeatTransport.pumpWindows_eq cfg input _
    have hopen : Endpoint.Unblocked (SelectiveRepeatTransport.endpoint cfg)
        (run (SelectiveRepeatTransport.step cfg)
          SelectiveRepeatTransport.init es) :=
      run_invariant_of_meets (Endpoint.Unblocked _)
        (fun _ _ h he => h.step he) Endpoint.unblocked_init hes
    rw [heq] at hrun hpending ⊢
    exact hopen.pumpWindows hsend hrun hpending

/-- Datagram 0 enters a window of two and fails, and two more are handed over. -/
def refilledRun (addr : Address) : List Event :=
  [.sendto [7] addr, .drain, .pump addr ⟨0, 0, none⟩,
    .timeouts ⟨1, fun _ => 1, fun _ _ => 1, fun _ _ => some "unreachable"⟩,
    .sendto [8] addr, .sendto [9] addr]

theorem blocksNone_refilledRun {cfg : Config} {E : Endpoint cfg}
    (hqueue : (E.core (run E.step E.init
      ((refilledRun ("b", 2)).take 3))).outbound = [])
    (hfew : (E.core (run E.step E.init
      ((refilledRun ("b", 2)).take 3))).handed.length < cfg.windowSize) :
    Meets E.step (Endpoint.BlocksNone E) E.init (refilledRun ("b", 2)) := by
  refine ⟨fun _ h => h, fun _ h => h, fun _ h => h.2.1 rfl, ?_, fun _ h => h,
    fun _ h => h, trivial⟩
  exact (Endpoint.wellFormed_run _).blocksNone_timeouts hqueue hfew _

/-- One of the two enters the window, and the other one waits behind it. -/
theorem waiting_has_outstanding_refilledRun :
    let cfg : Config := { windowSize := 2 }
    let input : Address → ℕ → PumpInput := fun _ _ => ⟨2, 2, none⟩
    (let s := GoBackNTransport.pumpWindows cfg input
        (GoBackNTransport.drainOutbound cfg
          (run (GoBackNTransport.step cfg) GoBackNTransport.init
            (refilledRun ("b", 2))))
     (sub s.pending ("b", 2)).keys = [2] ∧ (sub s.outstanding ("b", 2)).keys ≠ []) ∧
    (let s := SelectiveRepeatTransport.pumpWindows cfg input
        (SelectiveRepeatTransport.drainOutbound cfg
          (run (SelectiveRepeatTransport.step cfg)
            SelectiveRepeatTransport.init (refilledRun ("b", 2))))
     (sub s.pending ("b", 2)).keys = [2] ∧
      (sub s.outstanding ("b", 2)).keys ≠ []) := by
  intro cfg input
  obtain ⟨hgbn, hsr⟩ :=
    waiting_has_outstanding cfg (refilledRun ("b", 2)) input (fun _ _ => rfl)
  refine ⟨⟨by decide +kernel, ?_⟩, ⟨by decide +kernel, ?_⟩⟩
  · refine hgbn ?_ (by decide +kernel) ("b", 2) (by decide +kernel)
    exact blocksNone_refilledRun (E := GoBackNTransport.endpoint cfg)
      (by decide +kernel) (by decide +kernel)
  · refine hsr ?_ (by decide +kernel) ("b", 2) (by decide +kernel)
    exact blocksNone_refilledRun (E := SelectiveRepeatTransport.endpoint cfg)
      (by decide +kernel) (by decide +kernel)

/-- Datagram 0 fills a window of one and fails; datagram 1 is handed over
afterwards. -/
def blockedRun (addr : Address) : List Event :=
  [.sendto [7] addr, .drain, .pump addr ⟨0, 0, none⟩,
    .timeouts ⟨1, fun _ => 1, fun _ _ => 1, fun _ _ => some "unreachable"⟩,
    .sendto [8] addr]

/-- Datagram 1 waits for ever for a window that nothing in flight can open. -/
theorem blockedRun_waits :
    let cfg : Config := { windowSize := 1 }
    let input : Address → ℕ → PumpInput := fun _ _ => ⟨2, 2, none⟩
    (let s := GoBackNTransport.pumpWindows cfg input
        (GoBackNTransport.drainOutbound cfg
          (run (GoBackNTransport.step cfg) GoBackNTransport.init
            (blockedRun ("b", 2))))
     s.crashed = none ∧ (sub s.pending ("b", 2)).keys = [1] ∧
      (sub s.outstanding ("b", 2)).keys = []) ∧
    (let s := SelectiveRepeatTransport.pumpWindows cfg input
        (SelectiveRepeatTransport.drainOutbound cfg
          (run (SelectiveRepeatTransport.step cfg)
            SelectiveRepeatTransport.init (blockedRun ("b", 2))))
     s.crashed = none ∧ (sub s.pending ("b", 2)).keys = [1] ∧
      (sub s.outstanding ("b", 2)).keys = []) := by
  decide +kernel

end UdpArq
