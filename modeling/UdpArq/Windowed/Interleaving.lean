import UdpArq.Transport.Tracking
import UdpArq.Windowed.Encoding
import UdpArq.Windowed.Sections

/-!
# What a snapshot of `flush` can miss

The application threads and the background thread interleave at their critical
sections.  Between `get_nowait` and the lock, `_drain_outbound` holds an item
that is in no container, and a `flush` that acquires the lock there does not see
it.  At all other points the containers hold every datagram that is not settled,
each in one of them, unless the pump took out one that does not fit a packet.
-/

namespace UdpArq

open UdpArq.Core

/-! ## Containers -/

inductive Container
  | outbound
  | pending
  | sentItems

namespace Core

/-- Datagram `q` of peer `addr` is in the container. -/
def Contains (c : Core) (addr : Address) (q : ℕ) : Container → Prop
  | .outbound => ∃ item ∈ c.outbound, item.addr = addr ∧ item.seq = q
  | .pending => q ∈ (sub c.pending addr).keys
  | .sentItems => q ∈ (sub c.sentItems addr).keys

/-- Every datagram that has a number and is neither acknowledged nor failed is
in exactly one container. -/
def Accounted (c : Core) : Prop :=
  ∀ addr, ∀ q < c.nextSeq.getD addr 0, (c.status addr q).event = false →
    ∃! k, c.Contains addr q k

variable {c : Core} {buffer : Dict ℕ Bytes} {addr : Address}

theorem mem_queued_iff {q : ℕ} :
    q ∈ (c.lane buffer addr).queued.map Item.seq ↔
      c.Contains addr q .outbound := by
  simp [lane, Contains, and_assoc]

/-- What is in a container is held by the sending half. -/
theorem Contains.held (hwf : (c.lane buffer addr).WellFormed) {q : ℕ}
    {k : Container} (h : c.Contains addr q k) :
    (c.lane buffer addr).Held q := by
  cases k with
  | outbound => exact Or.inr (List.mem_append_right _ (mem_queued_iff.mpr h))
  | pending => exact Or.inr (List.mem_append_left _ h)
  | sentItems => exact Or.inl ((hwf.labelled.keys q).mp h)

/-- No datagram is in two containers. -/
theorem Contains.unique (hwf : (c.lane buffer addr).WellFormed) {q : ℕ}
    {k k' : Container} (h : c.Contains addr q k) (h' : c.Contains addr q k') :
    k = k' := by
  have hpending : ∀ {q}, c.Contains addr q .pending →
      ¬ c.Contains addr q .outbound := fun hq hqueued =>
    hwf.not_queued hq (mem_queued_iff.mpr hqueued)
  have hsent : ∀ {q}, c.Contains addr q .sentItems →
      q ∉ (c.lane buffer addr).waiting := fun hq =>
    hwf.disjoint.2 _ ((hwf.labelled.keys _).mp hq)
  cases k with
  | outbound =>
      cases k' with
      | outbound => rfl
      | pending => exact absurd h (hpending h')
      | sentItems =>
          exact absurd (List.mem_append_right _ (mem_queued_iff.mpr h))
            (hsent h')
  | pending =>
      cases k' with
      | outbound => exact absurd h' (hpending h)
      | pending => rfl
      | sentItems => exact absurd (List.mem_append_left _ h) (hsent h')
  | sentItems =>
      cases k' with
      | outbound =>
          exact absurd (List.mem_append_right _ (mem_queued_iff.mpr h'))
            (hsent h)
      | pending => exact absurd (List.mem_append_left _ h') (hsent h)
      | sentItems => rfl

theorem exists_contains_iff (hwf : (c.lane buffer addr).WellFormed) {q : ℕ} :
    (∃ k, c.Contains addr q k) ↔ (c.lane buffer addr).Held q := by
  constructor
  · rintro ⟨k, hk⟩
    exact hk.held hwf
  · rintro (hout | hwaiting)
    · exact ⟨.sentItems, (hwf.labelled.keys q).mpr hout⟩
    · rcases List.mem_append.mp hwaiting with hpending | hqueued
      · exact ⟨.pending, hpending⟩
      · exact ⟨.outbound, mem_queued_iff.mp hqueued⟩

/-- In a well-formed state the containers show everything that is tracked. -/
theorem accounted_iff_tracked {buffer : Address → Dict ℕ Bytes}
    (hwf : ∀ addr, (c.lane (buffer addr) addr).WellFormed) :
    c.Accounted ↔ ∀ addr, (c.lane (buffer addr) addr).Tracked := by
  constructor
  · intro h addr q hq
    cases hevent : (c.status addr q).event with
    | true => exact Or.inl hevent
    | false =>
        obtain ⟨k, hk, -⟩ := h addr q hq hevent
        exact Or.inr (hk.held (hwf addr))
  · intro h addr q hq hevent
    rcases h addr q hq with hset | hheld
    · have hset' : (c.status addr q).event = true := hset
      rw [hevent] at hset'
      cases hset'
    · obtain ⟨k, hk⟩ := (exists_contains_iff (hwf addr)).mpr hheld
      exact ⟨k, hk, fun k' hk' => hk'.unique (hwf addr) hk⟩

end Core

/-! ## Interleavings of sections -/

/-- The sections of the application threads and of the background thread; `T`
are those of a timeout sweep. -/
inductive Section (T : Type)
  | sendto (data : Bytes) (addr : Address)
  | recvfrom
  | take
  | register
  | pump (addr : Address) (sentAt timerAt : ℚ)
  | incoming (raw : Bytes) (addr : Address) (ackedAt restartAt : ℚ)
  | timeout (t : T)

/-- A transport, and the item that its background thread has taken from the
queue and not yet stored. -/
structure Interleaved {cfg : Config} (S : Sectioned cfg) where
  transport : S.State
  item : Option Item := none

namespace Interleaved

variable {cfg : Config} {S : Sectioned cfg}

def core (m : Interleaved S) : Core := S.core m.transport

/-- The background thread is dead, or has an item to store first. -/
def busy (m : Interleaved S) : Bool := m.item.isSome || m.core.crashed.isSome

def init (S : Sectioned cfg) : Interleaved S := { transport := S.init }

/-- One section, run without interruption by the others. -/
def step (m : Interleaved S) : Section S.Timeout → Interleaved S
  | .sendto data addr =>
      { m with transport := S.step m.transport (.sendto data addr) }
  | .recvfrom => { m with transport := S.step m.transport .recvfrom }
  | .take =>
      if m.busy then m
      else
        match m.core.outbound with
        | [] => m
        | item :: rest =>
            { transport := S.setOutbound m.transport rest, item := some item }
  | .register =>
      match m.item with
      | none => m
      | some item =>
          if m.core.crashed.isSome then m
          else { transport := S.registerItem m.transport item }
  | .pump addr sentAt timerAt =>
      if m.busy then m
      else
        { m with transport :=
            S.step m.transport (.pump addr ⟨sentAt, timerAt, none⟩) }
  | .incoming raw addr ackedAt restartAt =>
      if m.busy then m
      else
        { m with transport :=
            S.step m.transport (.incoming raw addr ⟨ackedAt, restartAt, none⟩) }
  | .timeout t =>
      if m.busy then m else { m with transport := S.timeout m.transport t }

/-- If the section pumps a datagram, it fits a packet. -/
def PumpFits (m : Interleaved S) : Section S.Timeout → Prop
  | .pump addr _ _ => m.busy = false →
      ∀ seq item, m.core.nextToSend cfg addr = some (seq, item) →
        seq ≤ 0xFFFFFFFF ∧ item.data.length ≤ MAX_PAYLOAD
  | _ => True

/-! ### The item put back -/

/-- The transport with the item back at the front of the queue. -/
def whole (m : Interleaved S) : S.State :=
  match m.item with
  | none => m.transport
  | some item => S.setOutbound m.transport (item :: m.core.outbound)

theorem whole_of_idle {m : Interleaved S} (h : m.item = none) :
    m.whole = m.transport := by
  rw [whole, h]

theorem busy_eq_false {m : Interleaved S} :
    m.busy = false ↔ m.item = none ∧ m.core.crashed = none := by
  simp [busy]

/-- What holds between any two sections. -/
structure Sound (m : Interleaved S) : Prop where
  wellFormed : S.WellFormed m.whole
  settles : ∀ b, (S.lane m.whole b).Settles

theorem Sound.init : (init S).Sound where
  wellFormed := Endpoint.WellFormed.init
  settles b := by
    intro q hq
    change ((S.lane S.init b).status q).event = true at hq
    rw [Endpoint.lane, S.lane_init] at hq
    cases hq

/-- The section pumps for the peer, and the background thread is free to. -/
def Pumps (m : Interleaved S) (sec : Section S.Timeout) (addr : Address) :
    Prop :=
  m.busy = false ∧ ∃ sentAt timerAt, sec = .pump addr sentAt timerAt

theorem whole_background {m : Interleaved S} (hidle : m.busy = false)
    (f : S.State → S.State) :
    ({ m with transport := f m.transport } : Interleaved S).whole =
      f m.whole := by
  have hnone := (busy_eq_false.mp hidle).1
  have hnone' : ({ m with transport := f m.transport } : Interleaved S).item =
      none := hnone
  rw [whole_of_idle hnone, whole_of_idle hnone']

/-- A section that runs only when the background thread is free. -/
theorem whole_guarded (m : Interleaved S) (sec : Section S.Timeout)
    (f : S.State → S.State)
    (hstep : m.step sec =
      if m.busy then m else { m with transport := f m.transport }) :
    (m.step sec).whole = m.whole ∨
      m.busy = false ∧ (m.step sec).whole = f m.whole := by
  by_cases hbusy : m.busy = true
  · rw [hstep, if_pos hbusy]
    exact Or.inl rfl
  · have hidle : m.busy = false := Bool.not_eq_true _ ▸ hbusy
    rw [hstep, if_neg hbusy]
    exact Or.inr ⟨hidle, whole_background hidle f⟩

theorem whole_sendto (m : Interleaved S) (data : Bytes) (addr : Address) :
    (m.step (.sendto data addr)).whole =
      S.step m.whole (.sendto data addr) := by
  obtain ⟨s, _ | item⟩ := m
  · rfl
  · exact (S.step_sendto s data addr item).symm

theorem whole_recvfrom (m : Interleaved S) :
    (m.step .recvfrom).whole = S.step m.whole .recvfrom := by
  obtain ⟨s, _ | item⟩ := m
  · rfl
  · exact (S.step_recvfrom s item).symm

/-- Taking an item from the queue puts it where it can be put back. -/
theorem whole_take (m : Interleaved S) : (m.step .take).whole = m.whole := by
  by_cases hbusy : m.busy = true
  · rw [step, if_pos hbusy]
  · have hnone := (busy_eq_false.mp (Bool.not_eq_true _ ▸ hbusy)).1
    rw [step, if_neg hbusy]
    rcases hqueue : m.core.outbound with _ | ⟨item, rest⟩
    · rfl
    · have hrest : (S.core (S.setOutbound m.transport rest)).outbound = rest := by
        rw [S.core_setOutbound]
      have hself := S.setOutbound_self m.transport
      rw [show (S.core m.transport).outbound = item :: rest from hqueue] at hself
      rw [whole_of_idle hnone]
      simp only [whole, core, hrest, S.setOutbound_setOutbound, hself]

/-- Storing the item is a step of `_drain_outbound` with the item put back. -/
theorem whole_register (m : Interleaved S) :
    (m.step .register).whole = m.whole ∨
      (m.step .register).whole = S.step m.whole .drain := by
  obtain ⟨s, _ | item⟩ := m
  · exact Or.inl rfl
  · by_cases hrun : (S.core s).crashed.isSome
    · exact Or.inl (congrArg whole (if_pos hrun))
    · have hdrain := S.step_drain s item (Option.not_isSome_iff_eq_none.mp hrun)
      exact Or.inr ((congrArg whole (if_neg hrun)).trans hdrain.symm)

/-- With its item put back, the transport stays as it is, takes an event or runs
a section of a timeout sweep. -/
theorem whole_step (m : Interleaved S) (sec : Section S.Timeout) :
    (m.step sec).whole = m.whole ∨
      (∃ e, e ≠ .close ∧
        (∀ addr input, e = .pump addr input → m.Pumps sec addr) ∧
        (m.step sec).whole = S.step m.whole e) ∨
      ∃ t, m.busy = false ∧ (m.step sec).whole = S.timeout m.whole t := by
  rcases sec with ⟨data, addr⟩ | _ | _ | _ | ⟨addr, sentAt, timerAt⟩ |
    ⟨raw, addr, ackedAt, restartAt⟩ | t
  · exact Or.inr (Or.inl
      ⟨.sendto data addr, by simp, by simp, whole_sendto m data addr⟩)
  · exact Or.inr (Or.inl ⟨.recvfrom, by simp, by simp, whole_recvfrom m⟩)
  · exact Or.inl (whole_take m)
  · rcases whole_register m with hsame | hdrain
    · exact Or.inl hsame
    · exact Or.inr (Or.inl ⟨.drain, by simp, by simp, hdrain⟩)
  · rcases whole_guarded m (.pump addr sentAt timerAt)
      (fun s => S.step s (.pump addr ⟨sentAt, timerAt, none⟩)) rfl with
        hsame | ⟨hidle, hpump⟩
    · exact Or.inl hsame
    · refine Or.inr (Or.inl
        ⟨.pump addr ⟨sentAt, timerAt, none⟩, by simp, ?_, hpump⟩)
      rintro a input heq
      cases heq
      exact ⟨hidle, sentAt, timerAt, rfl⟩
  · rcases whole_guarded m (.incoming raw addr ackedAt restartAt)
      (fun s => S.step s (.incoming raw addr ⟨ackedAt, restartAt, none⟩)) rfl with
        hsame | ⟨-, harrived⟩
    · exact Or.inl hsame
    · exact Or.inr (Or.inl ⟨.incoming raw addr ⟨ackedAt, restartAt, none⟩,
        by simp, by simp, harrived⟩)
  · rcases whole_guarded m (.timeout t) (fun s => S.timeout s t) rfl with
      hsame | ⟨hidle, hswept⟩
    · exact Or.inl hsame
    · exact Or.inr (Or.inr ⟨t, hidle, hswept⟩)

/-- With its item put back, the transport takes a step of the protocol on every
lane. -/
theorem lane_step {m : Interleaved S} (h : m.Sound)
    (sec : Section S.Timeout) (b : Address) :
    ∃ fails e, e ≠ .close ∧ (∀ input, e = .pump b input → m.Pumps sec b) ∧
      Lane.Step cfg S.discipline fails (S.lane m.whole b) e
        (S.lane (m.step sec).whole b) := by
  rcases whole_step m sec with hsame | ⟨e, hclose, hpumps, he⟩ | ⟨t, hidle, ht⟩
  · rw [hsame]
    exact ⟨fun _ => True, .drain, by simp, by simp, .idle _⟩
  · rw [he]
    exact ⟨_, e, hclose, hpumps b, h.wellFormed.lane_step e b⟩
  · rw [ht]
    obtain ⟨hnone, hrun⟩ := busy_eq_false.mp hidle
    have hcrashed : (S.core m.whole).crashed = none := by
      rwa [whole_of_idle hnone]
    obtain ⟨fails, input, hstep⟩ :=
      S.step_timeout m.whole t b hcrashed h.wellFormed
    exact ⟨fails, .timeouts input, by simp, by simp, hstep⟩

theorem Sound.step {m : Interleaved S} (h : m.Sound)
    (sec : Section S.Timeout) : (m.step sec).Sound := by
  refine ⟨fun b => ?_, fun b => ?_⟩
  · obtain ⟨fails, e, -, -, hstep⟩ := lane_step h sec b
    exact (h.wellFormed b).step hstep
  · obtain ⟨fails, e, hclose, -, hstep⟩ := lane_step h sec b
    exact (h.settles b).step (h.wellFormed b) hstep hclose

/-- Everything assigned is settled, in a container or about to be stored. -/
def Tracks (m : Interleaved S) : Prop := ∀ b, (S.lane m.whole b).Tracked

theorem Tracks.step {m : Interleaved S} (h : m.Sound) (htracks : m.Tracks)
    {sec : Section S.Timeout} (hfits : m.PumpFits sec) :
    (m.step sec).Tracks := by
  intro b
  obtain ⟨fails, e, -, hpumps, hstep⟩ := lane_step h sec b
  refine (htracks b).step (h.wellFormed b) hstep ?_
  rintro input seq item heq hnext
  obtain ⟨hidle, sentAt, timerAt, rfl⟩ := hpumps input heq
  have hwhole := whole_of_idle (busy_eq_false.mp hidle).1
  rw [hwhole] at hnext
  exact dataPacket_isOk_iff.mpr (hfits hidle seq item hnext)

/-! ### A datagram that does not fit -/

/-- Pumping a datagram that does not fit loses it. -/
theorem lost_of_not_pumpFits {m : Interleaved S} (h : m.Sound)
    {sec : Section S.Timeout} (hfits : ¬ m.PumpFits sec) :
    (m.step sec).item = none ∧
      ∃ b q, (S.lane (m.step sec).transport b).Lost q := by
  rcases sec with _ | _ | _ | _ | ⟨addr, sentAt, timerAt⟩ | _ | _
  case pump =>
    simp only [PumpFits, not_forall] at hfits
    obtain ⟨hidle, seq, item, hnext, hbig⟩ := hfits
    obtain ⟨hnone, hrun⟩ := busy_eq_false.mp hidle
    obtain ⟨e, hpacket⟩ : ∃ e, dataPacket seq item.data = .error e := by
      rcases hpacket : dataPacket seq item.data with e | packet
      · exact ⟨e, rfl⟩
      · exact absurd (dataPacket_isOk_iff.mp ⟨packet, hpacket⟩) hbig
    have hlane : (S.lane m.transport addr).nextToSend cfg = some (seq, item) :=
      hnext
    have hwaiting := Lane.mem_waiting_of_nextToSend hlane
    have hpending : seq ∈ (S.lane m.transport addr).pending.keys :=
      Dict.mem_keys.mpr ⟨item, Lane.pending_of_nextToSend hlane⟩
    obtain ⟨hwf, hsettles⟩ : (S.lane m.transport addr).WellFormed ∧
        (S.lane m.transport addr).Settles := by
      rw [← whole_of_idle hnone]
      exact ⟨h.wellFormed addr, h.settles addr⟩
    have hafter : S.lane (m.step (.pump addr sentAt timerAt)).transport addr =
        { ((S.lane m.transport addr).popPending seq).crash with
          buffer := S.buffer (m.step (.pump addr sentAt timerAt)).transport
            addr } := by
      have hcore : S.core (m.step (.pump addr sentAt timerAt)).transport =
          (m.core.popPending addr seq).crash (.packet e) := by
        rw [step, if_neg (by simp [hidle])]
        exact S.step_unencodable _ _ _ _ _ _ hrun hnext hpacket
      have hpopped := lane_popPending m.core
        (S.buffer (m.step (.pump addr sentAt timerAt)).transport addr) addr addr
        seq
      rw [if_pos rfl] at hpopped
      rw [Endpoint.lane, hcore]
      exact congrArg Lane.crash hpopped
    refine ⟨by rwa [step, if_neg (by simp [hidle])], addr, seq, ?_⟩
    rw [hafter]
    refine ⟨rfl, Lane.lt_nextSeq_of_held hwf (Or.inr hwaiting), ?_, ?_⟩
    · rw [← Bool.not_eq_true]
      exact fun hset => (hsettles seq hset).2 (Or.inr hwaiting)
    · rintro (hout | hleft)
      · exact hwf.disjoint.2 seq hout hwaiting
      · exact hwf.not_waiting_popPending hpending hleft
  all_goals exact absurd trivial hfits

/-- A dead thread does not find a lost datagram again. -/
theorem lost_step {m : Interleaved S} (h : m.Sound) (hnone : m.item = none)
    {b : Address} {q : ℕ} (hlost : (S.lane m.transport b).Lost q)
    (sec : Section S.Timeout) :
    (m.step sec).item = none ∧ (S.lane (m.step sec).transport b).Lost q := by
  have hbusy : m.busy = true := by
    have hdead : m.core.crashed.isSome = true := hlost.dead
    simp [busy, hdead]
  have hwf : S.WellFormed m.transport := by
    rw [← whole_of_idle hnone]
    exact h.wellFormed
  rcases sec with ⟨data, addr⟩ | _ | _ | _ | _ | _ | _
  · exact ⟨hnone, hlost.sendto (hwf.lane_step (.sendto data addr) b)⟩
  · exact ⟨hnone, hlost.recvfrom (hwf.lane_step .recvfrom b)⟩
  · rw [step, if_pos hbusy]
    exact ⟨hnone, hlost⟩
  · rw [step, hnone]
    exact ⟨hnone, hlost⟩
  all_goals
    rw [step, if_pos hbusy]
    exact ⟨hnone, hlost⟩

/-! ### When everything is accounted for -/

/-- An item in the hands of the background thread is not accounted
for. -/
theorem not_accounted_of_item {m : Interleaved S} (h : m.Sound)
    (hitem : m.item ≠ none) : ¬ m.core.Accounted := by
  obtain ⟨s, _ | item⟩ := m
  · exact absurd rfl hitem
  intro haccounted
  have hcore : S.core (whole ⟨s, some item⟩) =
      { S.core s with outbound := item :: (S.core s).outbound } :=
    S.core_setOutbound s _
  have hwf := h.wellFormed item.addr
  have hsettles := h.settles item.addr
  rw [Endpoint.lane, hcore] at hwf hsettles
  have hback : ({ S.core s with outbound := item :: (S.core s).outbound } :
      Core).Contains item.addr item.seq .outbound :=
    ⟨item, List.mem_cons_self, rfl, rfl⟩
  have hheld := hback.held hwf
  have hevent : ((S.core s).status item.addr item.seq).event = false := by
    rw [← Bool.not_eq_true]
    exact fun hset => (hsettles item.seq hset).2 hheld
  obtain ⟨k, hk, -⟩ := haccounted item.addr item.seq
    (Lane.lt_nextSeq_of_held hwf hheld) hevent
  rcases k with _ | _ | _
  · -- A second item with the same number would be in the queue.
    have hnodup := (List.nodup_append.mp hwf.disjoint.1).2.1
    obtain ⟨other, hmem, haddr, hseq⟩ := hk
    simp only [Core.lane, List.filter_cons, decide_true, if_true, List.map_cons,
      List.nodup_cons] at hnodup
    apply hnodup.1
    rw [← hseq]
    exact List.mem_map_of_mem (List.mem_filter.mpr ⟨hmem, by simpa using haddr⟩)
  · have hpending : ({ S.core s with
        outbound := item :: (S.core s).outbound } : Core).Contains item.addr
          item.seq .pending := hk
    cases hpending.unique hwf hback
  · have hsent : ({ S.core s with
        outbound := item :: (S.core s).outbound } : Core).Contains item.addr
          item.seq .sentItems := hk
    cases hsent.unique hwf hback

/-- Everything stays tracked in a run in which every pumped datagram fits. -/
theorem tracks_run {m : Interleaved S} (h : m.Sound) (htracks : m.Tracks)
    {es : List (Section S.Timeout)} (hfits : Meets step PumpFits m es) :
    (run step m es).Sound ∧ (run step m es).Tracks :=
  run_invariant_of_meets (fun m => m.Sound ∧ m.Tracks)
    (fun _ sec hm hsec => ⟨hm.1.step sec, hm.2.step hm.1 hsec⟩)
    ⟨h, htracks⟩ hfits

/-- In a run in which some pumped datagram does not fit, one is lost. -/
theorem lost_run {m : Interleaved S} (h : m.Sound)
    {es : List (Section S.Timeout)} (hfits : ¬ Meets step PumpFits m es) :
    (run step m es).item = none ∧
      ∃ b q, (S.lane (run step m es).transport b).Lost q := by
  induction es generalizing m with
  | nil => exact absurd trivial hfits
  | cons sec es ih =>
      rw [run_cons]
      by_cases hsec : m.PumpFits sec
      · exact ih (h.step sec) fun hrest => hfits ⟨hsec, hrest⟩
      · obtain ⟨hnone, b, q, hlost⟩ := lost_of_not_pumpFits h hsec
        have hlast := run_invariant
          (fun m : Interleaved S => m.Sound ∧ m.item = none ∧
            (S.lane m.transport b).Lost q)
          (fun m sec hm =>
            ⟨hm.1.step sec, lost_step hm.1 hm.2.1 hm.2.2 sec⟩)
          ⟨h.step sec, hnone, hlost⟩ es
        exact ⟨hlast.2.1, b, q, hlast.2.2⟩

/-- Everything is accounted for at a point of a run exactly if the background thread
has no item in its hands and every datagram pumped before fits. -/
theorem accounted_iff {m : Interleaved S} (h : m.Sound) (htracks : m.Tracks)
    (es : List (Section S.Timeout)) :
    (run step m es).core.Accounted ↔
      (run step m es).item = none ∧ Meets step PumpFits m es := by
  have hsound : (run step m es).Sound :=
    run_invariant Sound (fun _ sec hm => hm.step sec) h es
  constructor
  · intro haccounted
    have hnone : (run step m es).item = none := by
      by_contra hitem
      exact not_accounted_of_item hsound hitem haccounted
    refine ⟨hnone, ?_⟩
    by_contra hfits
    obtain ⟨-, b, q, hlost⟩ := lost_run h hfits
    have hwf := hsound.wellFormed
    rw [whole_of_idle hnone] at hwf
    exact hlost.not_tracked ((accounted_iff_tracked hwf).mp haccounted b)
  · rintro ⟨hnone, hfits⟩
    have hall := (tracks_run h htracks hfits).2
    have hwf := hsound.wellFormed
    rw [Tracks, whole_of_idle hnone] at hall
    rw [whole_of_idle hnone] at hwf
    exact (accounted_iff_tracked hwf).mpr hall

end Interleaved

/-! ## Both transports -/

/-- `sendto` appends to the queue, whatever stands at its front. -/
theorem Core.sendto_outbound (cfg : Config) (c : Core) (data : Bytes)
    (addr : Address) (item : Item) :
    ({ c with outbound := item :: c.outbound } : Core).sendto cfg data addr =
      (c.sendto cfg data addr).map fun c' =>
        { c' with outbound := item :: c'.outbound } := by
  by_cases hlen : cfg.mss < data.length
  · simp [Core.sendto, hlen, Except.map]
  · by_cases hstop : c.stopEvent = true
    · simp [Core.sendto, hlen, hstop, Except.map]
    · simp [Core.sendto, hlen, hstop, Core.accept, Except.map]

theorem Core.recvfrom_outbound (c : Core) (item : Item) :
    ({ c with outbound := item :: c.outbound } : Core).recvfrom =
      c.recvfrom.map fun r =>
        (r.1, { r.2 with outbound := item :: r.2.outbound }) := by
  simp only [Core.recvfrom]
  rcases c.incomingData.get? with _ | ⟨x, q⟩ <;> rfl

namespace Endpoint.Handled

variable {cfg : Config} {E : Endpoint cfg} (H : E.Handled)

/-- The state with one more item at the front of `_outbound`. -/
def front (item : Item) (s : E.State) : E.State :=
  H.withCore s { E.core s with outbound := item :: (E.core s).outbound }

/-- A call of the application does not see the front of the queue. -/
theorem sendto_front (s : E.State) (data : Bytes) (addr : Address)
    (item : Item) : E.step (H.front item s) (.sendto data addr) =
      H.front item (E.step s (.sendto data addr)) := by
  simp only [front, H.step_eq, H.step_sendto, H.core_withCore,
    H.withCore_withCore, Core.sendto_outbound]
  rcases (E.core s).sendto cfg data addr with e | c <;> rfl

theorem recvfrom_front (s : E.State) (item : Item) :
    E.step (H.front item s) .recvfrom = H.front item (E.step s .recvfrom) := by
  simp only [front, H.step_eq, H.step_recvfrom, H.core_withCore,
    H.withCore_withCore, Core.recvfrom_outbound]
  rcases (E.core s).recvfrom with e | ⟨x, c⟩ <;> rfl

/-- `_drain_outbound` takes the front off and registers it. -/
theorem drain_front {registerItem : E.State → Item → E.State}
    (hdrain : ∀ {s item rest}, (E.core s).outbound = item :: rest → H.drain s =
      registerItem (H.withCore s { E.core s with outbound := rest }) item)
    (s : E.State) (item : Item) (hrun : (E.core s).crashed = none) :
    E.step (H.front item s) .drain = registerItem s item := by
  have hcore : E.core (H.front item s) =
      { E.core s with outbound := item :: (E.core s).outbound } :=
    H.core_withCore s _
  have hrun' : ¬ (E.core (H.front item s)).crashed.isSome := by
    rw [hcore]
    exact Option.not_isSome_iff_eq_none.mpr hrun
  have hqueue : (E.core (H.front item s)).outbound =
      item :: (E.core s).outbound := by
    rw [hcore]
  rw [H.step_eq, Handlers.step, if_neg hrun', hdrain hqueue, hcore, front,
    H.withCore_withCore]
  exact congrArg (fun s => registerItem s item) (H.withCore_core s)

end Endpoint.Handled

namespace GoBackNTransport

def setOutbound (s : GoBackNTransport) (queue : List Item) :
    GoBackNTransport :=
  { s with toCore := { s.toCore with outbound := queue } }

/-- Go-Back-N by sections. -/
def sectioned (cfg : Config) : Sectioned cfg where
  toEndpoint := endpoint cfg
  Timeout := TimeoutSection
  setOutbound := setOutbound
  registerItem := registerItem cfg
  timeout := timeoutSection cfg
  core_setOutbound _ _ := rfl
  setOutbound_self _ := rfl
  setOutbound_setOutbound _ _ _ := rfl
  step_sendto := (handled cfg).sendto_front
  step_recvfrom := (handled cfg).recvfrom_front
  step_drain := (handled cfg).drain_front drainItem_eq_registerItem
  step_timeout _ t b _ _ :=
    ⟨fun _ => True, ⟨0, fun _ => 0, fun _ _ => 0, fun _ _ => none⟩,
      timeoutSection_step t _ b⟩
  step_unencodable _ _ input _ _ _ hrun hnext hpacket :=
    (handled cfg).core_pump_error (Option.not_isSome_iff_eq_none.mpr hrun) hnext
      hpacket input

end GoBackNTransport

namespace SelectiveRepeatTransport

def setOutbound (s : SelectiveRepeatTransport) (queue : List Item) :
    SelectiveRepeatTransport :=
  { s with toCore := { s.toCore with outbound := queue } }

/-- Selective Repeat by sections. -/
def sectioned (cfg : Config) : Sectioned cfg where
  toEndpoint := endpoint cfg
  Timeout := TimeoutSection
  setOutbound := setOutbound
  registerItem := registerItem cfg
  timeout := timeoutSection cfg
  core_setOutbound _ _ := rfl
  setOutbound_self _ := rfl
  setOutbound_setOutbound _ _ _ := rfl
  step_sendto := (handled cfg).sendto_front
  step_recvfrom := (handled cfg).recvfrom_front
  step_drain := (handled cfg).drain_front drainItem_eq_registerItem
  step_timeout _ t b hrun hwf := ⟨_, t.input, timeoutSection_step hrun hwf t b⟩
  step_unencodable _ _ input _ _ _ hrun hnext hpacket :=
    (handled cfg).core_pump_error (Option.not_isSome_iff_eq_none.mpr hrun) hnext
      hpacket input

end SelectiveRepeatTransport

def Windowed.sectioned (cfg : Config) : Windowed → Sectioned cfg
  | .goBackN => GoBackNTransport.sectioned cfg
  | .selectiveRepeat => SelectiveRepeatTransport.sectioned cfg

/-- In every interleaving of sections, with sends that do not raise and without
`close`: at every point at which a snapshot of `flush` can acquire the lock,
every datagram that is neither acknowledged nor failed is in exactly one
container, if and only if the background thread is not between `get_nowait` and
the lock, and every datagram that was pumped before fits a packet. -/
theorem accounted_iff_not_between (cfg : Config) (t : Windowed)
    (secs : List (Section (t.sectioned cfg).Timeout)) :
    let S := t.sectioned cfg
    let m := run Interleaved.step (Interleaved.init S) secs
    m.core.Accounted ↔ m.item = none ∧
      Meets Interleaved.step Interleaved.PumpFits (Interleaved.init S) secs := by
  intro S m
  refine Interleaved.accounted_iff Interleaved.Sound.init (fun b q hq => ?_) secs
  change q < (S.lane S.init b).nextSeq at hq
  rw [Endpoint.lane, S.lane_init] at hq
  exact absurd hq (Nat.not_lt_zero q)

/-- A datagram is handed to `sendto` and taken from the queue. -/
def takenRun {T : Type} : List (Section T) := [.sendto [7] ("b", 2), .take]

/-- The point between `get_nowait` and the lock: the datagram is not settled and
in no container, and a flush of all peers returns. -/
def Windowed.Hides (t : Windowed) : Prop :=
  let m := run Interleaved.step (Interleaved.init (t.sectioned {})) takenRun
  m.core.nextSeq.getD ("b", 2) 0 = 1 ∧
    m.core.status ("b", 2) 0 = { event := false, error := none } ∧
    (∀ k, ¬ m.core.Contains ("b", 2) 0 k) ∧ m.core.flush none 1 = .returned ∧
    ¬ m.core.Accounted

theorem Windowed.hides (t : Windowed) : t.Hides := by
  have hgone : ∀ k, ¬ (run Interleaved.step
      (Interleaved.init (t.sectioned {})) takenRun).core.Contains ("b", 2) 0 k := by
    rintro (_ | _ | _) hk
    · obtain ⟨item, hmem, -⟩ := hk
      rcases t with _ | _ <;> cases hmem
    · rcases t with _ | _ <;> cases hk
    · rcases t with _ | _ <;> cases hk
  refine ⟨?_, ?_, hgone, ?_, fun h => ?_⟩
  · rcases t with _ | _ <;> rfl
  · rcases t with _ | _ <;> rfl
  · rcases t with _ | _ <;> rfl
  · obtain ⟨k, hk, -⟩ := h ("b", 2) 0 (by rcases t with _ | _ <;> decide)
      (by rcases t with _ | _ <;> rfl)
    exact hgone k hk

/-- In both transports a snapshot of `flush` can miss a datagram. -/
theorem taken_hidden :
    Windowed.goBackN.Hides ∧ Windowed.selectiveRepeat.Hides :=
  ⟨Windowed.hides _, Windowed.hides _⟩

end UdpArq
