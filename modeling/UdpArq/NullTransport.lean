import UdpArq.Channel.Line
import UdpArq.StopAndWait.Transport
import UdpArq.Transport.Frame
import Mathlib.Data.List.Perm.Subperm

/-!
# The transport that does nothing

`null.py` frames each datagram and sends it once; the receiver passes on what
verifies and decodes.  What it passes on was handed over by the sender, never
damaged.  Over a channel that does not duplicate nothing arrives twice, and over
one that also keeps the order, what arrives is a sublist of what was sent.
-/

namespace UdpArq

open Channel

namespace NullTransport

variable (cfg : Config)

/-- `sendto`: the packet for `channel.sendto`. -/
def sendto (data : Bytes) : Except Err Bytes :=
  if data.length > cfg.mss then .error (.payloadTooLarge data.length cfg.mss)
  else
    match encodeWithChecksum { seq := 0, ack := 0, payloadLen := data.length }
      data with
    | .error e => .error (.packet e)
    | .ok packet => .ok packet

/-- How an iteration of the loop of `recvfrom` ends. -/
inductive Received
  | ignored
  | returned (payload : Bytes) (addr : Address)
  | raised (e : Err)

/-- The time that is left for `channel.recvfrom`. -/
def remaining (timeout : Option ℚ) (elapsed : ℚ) : Option ℚ :=
  timeout.map fun t => max 0 (t - elapsed)

/-- One iteration of the loop of `recvfrom`. -/
def recvfrom (timeout : Option ℚ) (elapsed : ℚ) (arrival : ChannelRecv) :
    Received :=
  if remaining timeout elapsed = some 0 then .raised .noDatagram
  else
    match arrival with
    | .timedOut => .raised .noDatagram
    | .raised what => .raised (.channel what)
    | .packet raw addr =>
        if verify raw = false then .ignored
        else
          match decode raw with
          | .error _ => .ignored
          | .ok (_, payload) => .returned payload addr

/-- The payload that `recvfrom` passes on. -/
def payload? (raw : Bytes) : Option Bytes :=
  if verify raw = false then none
  else
    match decode raw with
    | .error _ => none
    | .ok (_, payload) => some payload

theorem recvfrom_packet {timeout : Option ℚ} {elapsed : ℚ}
    (h : remaining timeout elapsed ≠ some 0) (raw : Bytes) (addr : Address) :
    recvfrom timeout elapsed (.packet raw addr) =
      (payload? raw).elim .ignored fun payload => .returned payload addr := by
  by_cases hverify : verify raw = false
  · simp only [recvfrom, payload?, if_neg h, if_pos hverify, Option.elim_none]
  · simp only [recvfrom, payload?, if_neg h, if_neg hverify]
    split <;> rfl

/-- The packet that is sent verifies and decodes to the datagram. -/
theorem payload?_of_sendto {data packet : Bytes}
    (h : sendto cfg data = .ok packet) :
    verify packet = true ∧ payload? packet = some data := by
  unfold sendto at h
  split_ifs at h
  split at h
  · cases h
  · rename_i packet' hpacket
    cases h
    obtain ⟨hvalid, hlen⟩ := encodeWithChecksum_ok hpacket
    obtain ⟨raw, header, hraw, hverify, hdecode, -⟩ :=
      encodeWithChecksum_spec rfl hvalid hlen
    rw [hpacket] at hraw
    cases hraw
    exact ⟨hverify, by simp [payload?, hverify, hdecode]⟩

/-- A damaged packet is dropped. -/
theorem payload?_corrupt {raw : Bytes} (hraw : verify raw = true)
    (flip : Option ℕ) :
    payload? (corrupt raw flip) = payload? raw ∨
      payload? (corrupt raw flip) = none := by
  rcases corrupt_eq_or_verify hraw flip with hsame | hbad
  · exact Or.inl (congrArg payload? hsame)
  · exact Or.inr (if_pos hbad)

end NullTransport

open NullTransport

/-! ## A sender and a receiver -/

/-- The line from the sender to the receiver, the datagrams for which `sendto`
has returned, and those that `recvfrom` has returned. -/
structure NullLink where
  line : Line := {}
  handed : List Bytes := []
  received : List Bytes := []

inductive NullEvent
  | sendto (data : Bytes) (now : ℚ)
  | channel (e : Channel.Event)
  | recvfrom (timeout : Option ℚ) (elapsed : ℚ) (j : ℕ)

namespace NullLink

variable (cfg : Config) (txAddr rxAddr : Address) (p : Emulator)

def step (w : NullLink) : NullEvent → NullLink
  | .sendto data now =>
      match NullTransport.sendto cfg data with
      | .error _ => w
      | .ok packet =>
          if w.line.admits (some now) then
            { w with
              line := w.line.turn p (.sendto (.bytesLike packet) rxAddr now)
              handed :=
                if w.line.refusal p packet rxAddr now = none then
                  w.handed ++ [data]
                else w.handed }
          else w
  | .channel e =>
      if e.call.isNone ∧ w.line.admits e.reading then
        { w with line := w.line.turn p e }
      else w
  | .recvfrom timeout elapsed j =>
      match w.line.datagram rxAddr j with
      | none => w
      | some raw =>
          match NullTransport.recvfrom timeout elapsed (.packet raw txAddr) with
          | .raised _ => w
          | .ignored => { w with line := { w.line with read := j + 1 } }
          | .returned payload _ =>
              { w with
                line := { w.line with read := j + 1 }
                received := w.received ++ [payload] }

def init : NullLink := {}

def after (es : List NullEvent) : NullLink :=
  run (step cfg txAddr rxAddr p) init es

variable {cfg txAddr rxAddr p} {w : NullLink}

/-! ## What has been received -/

/-- What the channel has accepted are the packets of `handed`, and `received` are
the payloads of some of the datagrams read so far. -/
structure Sound (rxAddr : Address) (p : Emulator) (w : NullLink) : Prop where
  balanced : Balanced p.impairments w.line.channel
  sent : w.line.channel.sent = w.line.channel.accepted.length
  verifies : ∀ x ∈ w.line.channel.accepted, verify x.data = true
  handed : w.line.channel.accepted.map (fun x => payload? x.data) =
    w.handed.map some
  received : ∃ raws : List Bytes,
    raws.Sublist (((w.line.arrivals rxAddr).take w.line.read).map
      fun x => x.entry.data) ∧ w.received = raws.filterMap payload?

theorem sound_init : Sound rxAddr p init where
  balanced := balanced_init p.impairments
  sent := rfl
  verifies x hx := by cases hx
  handed := rfl
  received := ⟨[], List.nil_sublist _, rfl⟩

/-- What has been read stays when the channel takes a step. -/
theorem exists_popped_turn (rxAddr : Address) (l : Line) (e : Channel.Event) :
    ∃ more, (l.turn p e).arrivals rxAddr = l.arrivals rxAddr ++ more := by
  have hpopped : ∃ more, (l.turn p e).channel.popped = l.channel.popped ++ more := by
    rcases hcall : e.call with _ | call
    · rcases (idle_step hcall p.impairments p.draws l.channel).packets with
        ⟨-, hsame⟩ | ⟨x, rest, -, -, hnew⟩
      · exact ⟨[], hsame.trans (List.append_nil _).symm⟩
      · exact ⟨[x], hnew⟩
    · obtain ⟨now, rfl⟩ := Event.exists_of_call hcall
      refine ⟨[], Eq.trans ?_ (List.append_nil _).symm⟩
      rcases sendto_cases p.impairments p.draws l.channel call.argument call.addr
        now with hsame | ⟨-, data, -, hstep⟩
      · exact congrArg popped hsame
      · exact (congrArg popped hstep).trans
          (schedules_impair p.impairments _ data call.addr _ now).books.popped
  obtain ⟨more, hmore⟩ := hpopped
  exact ⟨more.filter fun x => decide (x.entry.addr = rxAddr), by
    rw [Line.arrivals, hmore, List.filter_append, Line.arrivals]⟩

/-- A step of the channel that accepts `new`. -/
theorem Sound.turn (h : Sound rxAddr p w) {e : Channel.Event}
    {new : List Accepted} (payloads : List Bytes)
    (hnew : (w.line.turn p e).channel.accepted = w.line.channel.accepted ++ new)
    (hpayloads : new.map (fun x => payload? x.data) = payloads.map some)
    (hverifies : ∀ x ∈ new, verify x.data = true) :
    Sound rxAddr p
      { w with line := w.line.turn p e, handed := w.handed ++ payloads } where
  balanced := h.balanced.step p.draws e
  sent := sent_step p h.sent e
  verifies x hx := by
    rw [hnew, List.mem_append] at hx
    rcases hx with hold | hx
    · exact h.verifies x hold
    · exact hverifies x hx
  handed := by
    rw [hnew, List.map_append, List.map_append, h.handed, hpayloads]
  received := by
    obtain ⟨raws, hraws, hreceived⟩ := h.received
    obtain ⟨more, hmore⟩ := exists_popped_turn rxAddr w.line e
    refine ⟨raws, hraws.trans (List.Sublist.map _ ?_), hreceived⟩
    rw [hmore, List.take_append]
    exact List.sublist_append_left _ _

theorem Sound.idle (h : Sound rxAddr p w) {e : Channel.Event}
    (hsame : (w.line.turn p e).channel.accepted = w.line.channel.accepted) :
    Sound rxAddr p { w with line := w.line.turn p e } := by
  have hturn := h.turn [] (hsame.trans (List.append_nil _).symm) rfl
    fun x hx => absurd hx List.not_mem_nil
  rwa [List.append_nil] at hturn

/-- A datagram that is read. -/
theorem Sound.read (h : Sound rxAddr p w) {j : ℕ} {raw : Bytes}
    (hraw : w.line.datagram rxAddr j = some raw) :
    Sound rxAddr p
      { w with
        line := { w.line with read := j + 1 }
        received := w.received ++ (payload? raw).toList } where
  balanced := h.balanced
  sent := h.sent
  verifies := h.verifies
  handed := h.handed
  received := by
    obtain ⟨raws, hraws, hreceived⟩ := h.received
    obtain ⟨hread, x, hget, -, rfl⟩ := Line.datagram_eq_some hraw
    refine ⟨raws ++ [x.entry.data], ?_, ?_⟩
    · have htake : (w.line.arrivals rxAddr).take (j + 1) =
          (w.line.arrivals rxAddr).take j ++ [x] := by
        rw [List.take_add_one, hget, Option.toList_some]
      change List.Sublist _ (((w.line.arrivals rxAddr).take (j + 1)).map _)
      rw [htake, List.map_append]
      exact (hraws.trans ((List.take_prefix_take_left hread).sublist.map _)).append
        (List.Sublist.refl _)
    · rw [List.filterMap_append, ← hreceived]
      cases hpayload : payload? x.entry.data <;> simp [hpayload]

theorem Sound.step (h : Sound rxAddr p w) (e : NullEvent) :
    Sound rxAddr p (NullLink.step cfg txAddr rxAddr p w e) := by
  cases e with
  | sendto data now =>
      simp only [NullLink.step]
      split
      · exact h
      · rename_i packet hpacket
        split_ifs with hadmits hrefusal
        · obtain ⟨hverify, hpayload⟩ := payload?_of_sendto cfg hpacket
          obtain ⟨d, haccepted⟩ := Line.exists_accepted hrefusal
          exact h.turn [data] haccepted (by simp [hpayload])
            (by simpa using hverify)
        · obtain ⟨what, hwhat⟩ := Option.ne_none_iff_exists'.mp hrefusal
          have hsame := congrArg accepted (Line.channel_turn_of_refusal hwhat)
          exact h.idle hsame
        · exact h
  | channel e =>
      simp only [NullLink.step]
      split_ifs with hturn
      · have hsame := (idle_step (Option.isNone_iff_eq_none.mp hturn.1)
          p.impairments p.draws w.line.channel).accepted
        exact h.idle hsame
      · exact h
  | recvfrom timeout elapsed j =>
      simp only [NullLink.step]
      split
      · exact h
      · rename_i raw hraw
        by_cases hexpired : remaining timeout elapsed = some 0
        · have hraised : NullTransport.recvfrom timeout elapsed
              (.packet raw txAddr) = .raised .noDatagram := if_pos hexpired
          rw [hraised]
          exact h
        · have hread := h.read hraw
          rw [recvfrom_packet hexpired]
          cases hpayload : payload? raw with
          | none =>
              rw [hpayload, Option.toList_none, List.append_nil] at hread
              exact hread
          | some payload =>
              rw [hpayload] at hread
              exact hread

/-! ## What can be received -/

/-- The payloads of the copies that the channel makes of what it has accepted. -/
def payloads (p : Impairments) (xs : List Accepted) : List Bytes :=
  ((xs.flatMap (Accepted.copies p)).map Prod.fst).filterMap payload?

/-- A copy has the payload of its packet or none. -/
theorem payloads_cases {x : Accepted} (hverify : verify x.data = true)
    {payload : Bytes} (h : payload? (x.carried p.impairments).1 = some payload) :
    payload? x.data = some payload := by
  obtain ⟨flip, hflip⟩ :=
    exists_corrupt p.impairments.corruption x.draws.corruption x.data
  have hcarried : (x.carried p.impairments).1 = corrupt x.data flip := hflip
  rw [hcarried] at h
  rcases payload?_corrupt hverify flip with hsame | hnone
  · rwa [hsame] at h
  · rw [hnone] at h
    cases h

theorem Sound.mem_handed (h : Sound rxAddr p w) {payload : Bytes}
    (hpayload : payload ∈ payloads p.impairments w.line.channel.accepted) :
    payload ∈ w.handed := by
  obtain ⟨raw, hraw, hdecoded⟩ := List.mem_filterMap.mp hpayload
  obtain ⟨packet, hpacket, rfl⟩ := List.mem_map.mp hraw
  obtain ⟨x, hx, hcopy⟩ := List.mem_flatMap.mp hpacket
  have hcarried : packet = x.carried p.impairments := by
    unfold Accepted.copies at hcopy
    split_ifs at hcopy
    · cases hcopy
    · simpa using hcopy
    · exact List.mem_singleton.mp hcopy
  rw [hcarried] at hdecoded
  have hdata := payloads_cases (h.verifies x hx) hdecoded
  have hmem : some payload ∈ w.handed.map some := by
    rw [← h.handed, ← hdata]
    exact List.mem_map_of_mem hx
  simpa using hmem

/-- Without duplication each packet arrives at most once. -/
theorem Sound.payloads_sublist (h : Sound rxAddr p w)
    (honce : p.impairments.duplication = 0) :
    (payloads p.impairments w.line.channel.accepted).Sublist w.handed := by
  have hhanded : w.handed =
      w.line.channel.accepted.filterMap fun x => payload? x.data := by
    have hmap := congrArg (List.filterMap id) h.handed
    simpa [List.filterMap_map, Function.comp_def] using hmap.symm
  have hcopy : ∀ x ∈ w.line.channel.accepted,
      (((x.copies p.impairments).map Prod.fst).filterMap payload?).Sublist
        (payload? x.data).toList := by
    intro x hx
    have hnot : ¬ (x.draws.duplication : ℚ) < p.impairments.duplication := by
      rw [honce]
      exact not_lt.mpr x.draws.duplication.property.1
    unfold Accepted.copies
    by_cases hlost : x.Lost p.impairments
    · rw [if_pos hlost]
      exact List.nil_sublist _
    · rw [if_neg hlost, if_neg hnot, List.map_singleton]
      cases hpayload : payload? (x.carried p.impairments).1 with
      | none => simp [hpayload]
      | some payload =>
          rw [payloads_cases (h.verifies x hx) hpayload]
          simp [hpayload]
  have hflat := List.Sublist.flatMap_right _ hcopy
  rw [payloads, hhanded, List.map_flatMap, List.filterMap_flatMap]
  rw [List.filterMap_eq_flatMap_toList]
  exact hflat

/-- What has been received are payloads of copies that were handed over. -/
theorem Sound.received_sublist (h : Sound rxAddr p w) :
    w.received.Sublist
      (((w.line.arrivals rxAddr).map fun x => x.entry.data).filterMap
        payload?) := by
  obtain ⟨raws, hraws, hreceived⟩ := h.received
  rw [hreceived]
  exact (hraws.trans ((List.take_sublist _ _).map _)).filterMap _

theorem Sound.received_subperm (h : Sound rxAddr p w) :
    w.received.Subperm (payloads p.impairments w.line.channel.accepted) := by
  have harrivals : ((w.line.arrivals rxAddr).map fun x => x.entry.data).Sublist
      (w.line.channel.handed.map Prod.fst) := by
    rw [Channel.handed, List.map_map]
    exact List.filter_sublist.map _
  have hall : (w.line.channel.handed.map Prod.fst).Sublist
      ((w.line.channel.scheduled ++ w.line.channel.handed).map Prod.fst) :=
    (List.sublist_append_right _ _).map _
  have hperm := (h.balanced.packets.map Prod.fst).filterMap payload?
  exact (h.received_sublist.trans
    ((harrivals.trans hall).filterMap payload?)).subperm.trans hperm.subperm

/-- Without duplication each packet that is not dropped arrives at most once. -/
theorem Sound.length_le (h : Sound rxAddr p w)
    (honce : p.impairments.duplication = 0) :
    w.received.length + w.line.channel.dropped ≤ w.handed.length := by
  have hcopies : ∀ xs : List Accepted,
      (xs.flatMap (Accepted.copies p.impairments)).length ≤
        (xs.filter fun x => ¬ x.Lost p.impairments).length := by
    intro xs
    induction xs with
    | nil => exact le_rfl
    | cons x xs ih =>
        have hnot : ¬ (x.draws.duplication : ℚ) < p.impairments.duplication := by
          rw [honce]
          exact not_lt.mpr x.draws.duplication.property.1
        rw [List.flatMap_cons, List.length_append, List.filter_cons]
        by_cases hlost : x.Lost p.impairments
        · rw [Accepted.copies, if_pos hlost, if_neg (by simpa using hlost),
            List.length_nil, Nat.zero_add]
          exact ih
        · rw [Accepted.copies, if_neg hlost, if_neg hnot,
            if_pos (by simpa using hlost), List.length_singleton,
            List.length_cons]
          omega
  have hreceived := h.received_subperm.length_le
  have hpayloads : (payloads p.impairments w.line.channel.accepted).length ≤
      (w.line.channel.accepted.flatMap
        (Accepted.copies p.impairments)).length := by
    rw [payloads]
    exact (List.length_filterMap_le _ _).trans (List.length_map _).le
  have hhanded := congrArg List.length h.handed
  rw [List.length_map, List.length_map] at hhanded
  have hkept := hcopies w.line.channel.accepted
  have hsent := h.balanced.sent
  rw [h.sent] at hsent
  omega

/-! ## Channels that keep the order -/

theorem exists_carries_step (hjitter : p.impairments.jitter = 0)
    (hreorder : p.impairments.reorder = 0)
    (h : ∃ log latest, w.line.Carries p rxAddr log latest) (e : NullEvent) :
    ∃ log latest, (NullLink.step cfg txAddr rxAddr p w e).line.Carries p rxAddr
      log latest := by
  obtain ⟨log, latest, hcarries⟩ := h
  cases e with
  | sendto data now =>
      simp only [NullLink.step]
      split
      · exact ⟨log, latest, hcarries⟩
      · rename_i packet hpacket
        by_cases hadmits : w.line.admits (some now) = true
        · rw [if_pos hadmits]
          exact ⟨_, latest, hcarries.send hjitter hreorder packet hadmits⟩
        · rw [if_neg hadmits]
          exact ⟨log, latest, hcarries⟩
  | channel e =>
      simp only [NullLink.step]
      split_ifs with hturn
      · have hsame := (idle_step (Option.isNone_iff_eq_none.mp hturn.1)
          p.impairments p.draws w.line.channel).accepted
        exact ⟨log, latest, hcarries.idle hjitter hreorder hturn.2 hsame⟩
      · exact ⟨log, latest, hcarries⟩
  | recvfrom timeout elapsed j =>
      simp only [NullLink.step]
      split
      · exact ⟨log, latest, hcarries⟩
      · rename_i raw hraw
        have hread := (Line.datagram_eq_some hraw).1
        split
        · exact ⟨log, latest, hcarries⟩
        · exact ⟨log, latest, hcarries.skip hread⟩
        · exact ⟨log, latest, hcarries.skip hread⟩

/-- Without jitter, reordering and duplication the payloads stay in order. -/
theorem Sound.sublist (h : Sound rxAddr p w)
    (hcarries : ∃ log latest, w.line.Carries p rxAddr log latest)
    (honce : p.impairments.duplication = 0) : w.received.Sublist w.handed := by
  obtain ⟨log, latest, hcarries⟩ := hcarries
  have hsent : (w.line.sentTo rxAddr).flatMap (Accepted.copies p.impairments)
      |>.Sublist (w.line.channel.accepted.flatMap
        (Accepted.copies p.impairments)) :=
    List.filter_sublist.flatMap _
  have harrivals : ((w.line.arrivals rxAddr).map fun x => x.entry.data).Sublist
      ((w.line.channel.accepted.flatMap
        (Accepted.copies p.impairments)).map Prod.fst) := by
    have hall := (hcarries.arrivals_prefix.sublist.trans hsent).map Prod.fst
    rwa [List.map_map] at hall
  exact (h.received_sublist.trans (harrivals.filterMap payload?)).trans
    (h.payloads_sublist honce)

variable (cfg txAddr rxAddr p) in
theorem sound_after (es : List NullEvent) :
    Sound rxAddr p (after cfg txAddr rxAddr p es) :=
  run_invariant (Sound rxAddr p) (fun _ e h => h.step e) sound_init es

variable (cfg txAddr rxAddr) in
theorem exists_carries_after (hjitter : p.impairments.jitter = 0)
    (hreorder : p.impairments.reorder = 0) (es : List NullEvent) :
    ∃ log latest, (after cfg txAddr rxAddr p es).line.Carries p rxAddr log
      latest :=
  run_invariant (fun w : NullLink => ∃ log latest,
    w.line.Carries p rxAddr log latest)
    (fun _ e h => exists_carries_step hjitter hreorder h e)
    ⟨[], 0, Line.carries_init p rxAddr⟩ es

end NullLink

/-- Whatever the channel does, `recvfrom` returns only datagrams that `sendto`
has taken.  Without duplication it returns each at most once, and at least as
many are missing as the channel has dropped; without jitter and reordering too
they come in order. -/
theorem nullTransport_delivers (cfg : Config) (txAddr rxAddr : Address)
    (p : Emulator) (es : List NullEvent) :
    let w := NullLink.after cfg txAddr rxAddr p es
    (∀ payload ∈ w.received, payload ∈ w.handed) ∧
      (p.impairments.duplication = 0 → w.received.Subperm w.handed ∧
        w.received.length + w.line.channel.dropped ≤ w.handed.length) ∧
      (p.impairments.duplication = 0 → p.impairments.jitter = 0 →
        p.impairments.reorder = 0 → w.received.Sublist w.handed) := by
  intro w
  have hsound : NullLink.Sound rxAddr p w :=
    NullLink.sound_after cfg txAddr rxAddr p es
  refine ⟨fun payload hpayload => ?_, fun honce => ⟨?_, ?_⟩,
    fun honce hjitter hreorder => ?_⟩
  · exact hsound.mem_handed (hsound.received_subperm.subset hpayload)
  · exact hsound.received_subperm.trans (hsound.payloads_sublist honce).subperm
  · exact hsound.length_le honce
  · exact hsound.sublist
      (NullLink.exists_carries_after cfg txAddr rxAddr hjitter hreorder es) honce

/-- A channel that damages the first packet and drops the second. -/
def exampleNullChannel : Emulator where
  impairments := { loss := 1 / 4, corruption := 1 / 4, valid := by decide +kernel }
  draws n := if n = 4 ∨ n = 5 then Draw.sixteenths 3 else Draw.sixteenths 13

def exampleNullRun : List NullEvent :=
  [.sendto [1] 0, .sendto [2] 0, .sendto [3] 0, .channel (.wake 0 false),
    .channel (.wake 0 false), .recvfrom (some 1) 0 0, .recvfrom (some 1) 0 1]

/-- Of three datagrams the last one arrives. -/
theorem nullTransport_delivers_exampleNullRun :
    let w := NullLink.after {} ("a", 1) ("b", 2) exampleNullChannel exampleNullRun
    w.handed = [[1], [2], [3]] ∧ w.received = [[3]] ∧
      w.received.length + w.line.channel.dropped ≤ w.handed.length ∧
      w.received.Sublist w.handed := by
  intro w
  obtain ⟨-, hcount, horder⟩ := nullTransport_delivers {} ("a", 1) ("b", 2)
    exampleNullChannel exampleNullRun
  exact ⟨by decide +kernel, by decide +kernel, (hcount rfl).2, horder rfl rfl rfl⟩

end UdpArq
