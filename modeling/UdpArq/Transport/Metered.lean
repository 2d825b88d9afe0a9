import UdpArq.Transport.Acks
import UdpArq.Transport.Transmission

/-!
# Send times and round-trip samples

What Karn's rule needs to know about a peer: when each packet was first sent and
which packets have been sent again.  A metered endpoint is a transport together
with the calls of `channel.sendto` for DATA packets and the calls of
`RTOEstimator.sample` that each of its steps makes.
-/

namespace UdpArq

open UdpArq.Core

/-- A call of `channel.sendto` with a DATA packet.  For a first transmission
`sentAt` is the time recorded in `_send_time`. -/
structure Attempt where
  addr : Address
  seq : ℕ
  packet : Bytes
  sentAt : Option ℚ
  result : Option String

namespace Attempt

/-- What the channel has taken, newest first. -/
def taken (attempts : List Attempt) : List (Bytes × Address) :=
  ((attempts.filter fun a => a.result = none).map
    fun a => (a.packet, a.addr)).reverse

/-- The attempts for one peer. -/
def toPeer (addr : Address) (attempts : List Attempt) : List Attempt :=
  attempts.filter fun a => a.addr = addr

/-- The attempts with one sequence number. -/
def ofSeq (q : ℕ) (attempts : List Attempt) : List Attempt :=
  attempts.filter fun a => a.seq = q

@[simp] theorem taken_nil : taken [] = [] := rfl

theorem taken_append (xs ys : List Attempt) :
    taken (xs ++ ys) = taken ys ++ taken xs := by
  simp [taken]

theorem toPeer_append (addr : Address) (xs ys : List Attempt) :
    toPeer addr (xs ++ ys) = toPeer addr xs ++ toPeer addr ys :=
  List.filter_append ..

theorem ofSeq_append (q : ℕ) (xs ys : List Attempt) :
    ofSeq q (xs ++ ys) = ofSeq q xs ++ ofSeq q ys :=
  List.filter_append ..

theorem ofSeq_eq_nil_iff {q : ℕ} {xs : List Attempt} :
    ofSeq q xs = [] ↔ ∀ a ∈ xs, a.seq ≠ q := by
  simp [ofSeq, List.filter_eq_nil_iff]

theorem toPeer_eq_self {addr : Address} {xs : List Attempt}
    (h : ∀ a ∈ xs, a.addr = addr) : toPeer addr xs = xs := by
  apply List.filter_eq_self.mpr
  simpa using h

theorem toPeer_eq_nil {addr b : Address} (hb : b ≠ addr) {xs : List Attempt}
    (h : ∀ a ∈ xs, a.addr = addr) : toPeer b xs = [] := by
  apply List.filter_eq_nil_iff.mpr
  intro a ha
  simpa [h a ha] using Ne.symm hb

end Attempt

/-- The send times of a peer and its retransmission marks. -/
structure Timing where
  sendTime : Dict ℕ ℚ
  retransmitted : Finset ℕ

def Core.timing (c : Core) (addr : Address) : Timing :=
  ⟨sub c.sendTime addr, c.retransmitted.getD addr ∅⟩

namespace Timing

variable {cfg : Config} {l l' : Lane} {t t' : Timing} {new old : List Attempt}

/-- An acknowledgement of datagram `q` may be sampled against `sentAt`. -/
def Samples (t : Timing) (q : ℕ) (sentAt : ℚ) : Prop :=
  t.sendTime.get? q = some sentAt ∧ q ∉ t.retransmitted

/-- What may be sampled afterwards could be sampled before, and is none of the
packets sent again. -/
def Narrows (t t' : Timing) (new : List Attempt) : Prop :=
  ∀ q x, t'.Samples q x → t.Samples q x ∧ ∀ a ∈ new, a.seq ≠ q

/-- What one event makes of the send times of a peer, with the attempts `new`
for that peer: either a packet enters the window, or packets are sent again and
none of them may be sampled any more. -/
inductive Step (cfg : Config) (l l' : Lane) (t t' : Timing)
    (new : List Attempt) : Prop
  | launch (item : Item) (a : Attempt) (sentAt : ℚ)
      (hnext : l.nextToSend cfg = some (a.seq, item))
      (hwaiting : l'.waiting = (l.popPending a.seq).waiting)
      (hsentAt : a.sentAt = some sentAt) (hnew : new = [a])
      (ht : t' = { t with sendTime := t.sendTime.set a.seq sentAt })
  | keep (hout : ∀ a ∈ new, a.seq ∈ l.outstanding.keys)
      (hnarrows : Narrows t t' new)

theorem Narrows.of_eq (h : t' = t) : Narrows t t' [] := by
  subst h
  exact fun _ _ hq => ⟨hq, by simp⟩

theorem Narrows.trans {t'' : Timing} {new' : List Attempt}
    (h : Narrows t t' new) (h' : Narrows t' t'' new') :
    Narrows t t'' (new ++ new') := by
  intro q x hq
  obtain ⟨hq', hnot'⟩ := h' q x hq
  obtain ⟨hq'', hnot⟩ := h q x hq'
  exact ⟨hq'', List.forall_mem_append.mpr ⟨hnot, hnot'⟩⟩

theorem Step.idle (cfg : Config) (l l' : Lane) (h : t' = t) :
    Step cfg l l' t t' [] :=
  .keep (by simp) (.of_eq h)

/-- What may be sampled has been handed to the channel once. -/
def SentOnce (t : Timing) (attempts : List Attempt) : Prop :=
  ∀ q sentAt, t.Samples q sentAt →
    ∃ a, Attempt.ofSeq q attempts = [a] ∧ a.sentAt = some sentAt

/-- Everything handed to the channel comes before everything that waits. -/
structure Attempted (l : Lane) (attempts : List Attempt) : Prop where
  lt_nextSeq : ∀ a ∈ attempts, a.seq < l.nextSeq
  lt_waiting : ∀ a ∈ attempts, ∀ w ∈ l.waiting, a.seq < w

theorem attempted_nil (l : Lane) : Attempted l [] where
  lt_nextSeq := by simp
  lt_waiting := by simp

theorem Step.sentOnce (h : Step cfg l l' t t' new) (hold : t.SentOnce old)
    (hattempted : Attempted l old) : t'.SentOnce (old ++ new) := by
  intro q x hq
  rw [Attempt.ofSeq_append]
  cases h with
  | launch item a sentAt hnext hwaiting hsentAt hnew ht =>
      have hfresh : Attempt.ofSeq a.seq old = [] := by
        rw [Attempt.ofSeq_eq_nil_iff]
        intro b hb
        exact (hattempted.lt_waiting b hb _
          (Lane.mem_waiting_of_nextToSend hnext)).ne
      obtain ⟨htime, hmark⟩ := hq
      subst hnew ht
      rw [Dict.get?_set] at htime
      by_cases hseq : q = a.seq
      · rw [if_pos hseq, Option.some.injEq] at htime
        refine ⟨a, ?_, hsentAt.trans (congrArg some htime)⟩
        rw [hseq, hfresh]
        simp [Attempt.ofSeq]
      · rw [if_neg hseq] at htime
        obtain ⟨b, hb, hbx⟩ := hold q x ⟨htime, hmark⟩
        refine ⟨b, ?_, hbx⟩
        rw [hb]
        simp [Attempt.ofSeq, Ne.symm hseq]
  | keep hout hnarrows =>
      obtain ⟨hq', hnot⟩ := hnarrows q x hq
      obtain ⟨a, ha, hax⟩ := hold q x hq'
      refine ⟨a, ?_, hax⟩
      rw [ha, Attempt.ofSeq_eq_nil_iff.mpr hnot, List.append_nil]

/-- What is outstanding comes before what waits afterwards. -/
theorem lt_waiting_of_outstanding (hwf : l.WellFormed)
    (hwaiting : ∀ w ∈ l'.waiting, w ∈ l.waiting ∨ w = l.nextSeq) {q : ℕ}
    (hq : q ∈ l.outstanding.keys) :
    q < l.nextSeq ∧ ∀ w ∈ l'.waiting, q < w := by
  obtain ⟨lo, n, hspan⟩ := hwf.span
  have hlow : q < lo := hspan.outstanding_lt q hq
  have hlt : q < l.nextSeq := Lane.lt_nextSeq_of_held hwf (Or.inl hq)
  refine ⟨hlt, fun w hw => ?_⟩
  rcases hwaiting w hw with hold | rfl
  · rw [hspan.waiting_eq, List.mem_range'_1] at hold
    exact hlow.trans_le hold.1
  · exact hlt

/-- What is attempted comes before what waits afterwards. -/
theorem Step.lt_waiting (h : Step cfg l l' t t' new) (hwf : l.WellFormed)
    (hnextSeq : ∀ w ∈ l'.waiting, w ∈ l.waiting ∨ w = l.nextSeq) :
    ∀ a ∈ new, a.seq < l.nextSeq ∧ ∀ w ∈ l'.waiting, a.seq < w := by
  intro a ha
  cases h with
  | launch item b sentAt hnext hwaiting hsentAt hnew ht =>
      obtain ⟨lo, n, hspan⟩ := hwf.span
      subst hnew
      rw [List.mem_singleton] at ha
      subst ha
      refine ⟨Lane.lt_nextSeq_of_held hwf
        (Or.inr (Lane.mem_waiting_of_nextToSend hnext)), fun w hw => ?_⟩
      rw [hwaiting, (hspan.popPending hnext).waiting_eq,
        List.mem_range'_1] at hw
      exact hw.1
  | keep hout hnarrows =>
      exact lt_waiting_of_outstanding hwf hnextSeq (hout a ha)

/-- New attempts that come before everything that waits afterwards. -/
theorem Attempted.append (hold : Attempted l old)
    (hnextSeq : l.nextSeq ≤ l'.nextSeq)
    (hwaiting : ∀ w ∈ l'.waiting, w ∈ l.waiting ∨ w = l.nextSeq)
    (hnew : ∀ a ∈ new, a.seq < l.nextSeq ∧ ∀ w ∈ l'.waiting, a.seq < w) :
    Attempted l' (old ++ new) := by
  constructor
  · intro a ha
    apply lt_of_lt_of_le _ hnextSeq
    rcases List.mem_append.mp ha with ha | ha
    · exact hold.lt_nextSeq a ha
    · exact (hnew a ha).1
  · intro a ha w hw
    rcases List.mem_append.mp ha with ha | ha
    · rcases hwaiting w hw with hw' | rfl
      · exact hold.lt_waiting a ha w hw'
      · exact hold.lt_nextSeq a ha
    · exact (hnew a ha).2 w hw

theorem Step.attempted {D : Discipline} {fails : SweepInput → Prop} {e : Event}
    (h : Step cfg l l' t t' new) (hold : Attempted l old) (hwf : l.WellFormed)
    (hlane : Lane.Step cfg D fails l e l') : Attempted l' (old ++ new) := by
  have hwaiting : ∀ w ∈ l'.waiting, w ∈ l.waiting ∨ w = l.nextSeq :=
    fun w hw => hlane.waiting hwf hw
  exact hold.append hlane.nextSeq_le hwaiting (h.lt_waiting hwf hwaiting)

end Timing

namespace Core

variable (c : Core) (addr b : Address) (seq : ℕ) (acknowledged : List ℕ)
  (now : ℚ)

/-- The argument of the call of `sample` in the adaptive part of
`_handle_ack`. -/
def rttSample : Option ℚ :=
  match (sub c.sendTime addr).get? seq with
  | none => none
  | some sentAt =>
      if seq ∈ c.retransmitted.getD addr ∅ then none
      else (c.rto.get? addr).map fun _ => max (1 / 10000) (now - sentAt)

theorem rttSample_eq_some {rtt : ℚ} (h : c.rttSample addr seq now = some rtt) :
    ∃ sentAt, (c.timing addr).Samples seq sentAt ∧
      rtt = max (1 / 10000) (now - sentAt) := by
  unfold rttSample at h
  rcases htime : (sub c.sendTime addr).get? seq with _ | sentAt
  · simp [htime] at h
  · simp only [htime] at h
    split_ifs at h with hmark
    obtain ⟨r, -, hrtt⟩ := Option.map_eq_some_iff.mp h
    exact ⟨sentAt, ⟨htime, hmark⟩, hrtt.symm⟩

/-- Sampling feeds the estimator of the peer, and forgets the send times of the
acknowledged packets unless it raises. -/
theorem sampleRtt_spec :
    (c.sampleRtt addr seq acknowledged now).rto =
        (match c.rttSample addr seq now with
        | none => c.rto
        | some rtt => c.rto.modify addr fun r => r.sample rtt) ∧
      ((c.sampleRtt addr seq acknowledged now).timing b = c.timing b ∨
        (c.sampleRtt addr seq acknowledged now).sendTime =
          c.sendTime.set addr ((sub c.sendTime addr).eraseAll acknowledged) ∧
        (c.sampleRtt addr seq acknowledged now).retransmitted =
          c.retransmitted.set addr ((c.retransmitted.getD addr ∅).filter
            fun q => q ∉ acknowledged)) := by
  simp only [sampleRtt, rttSample]
  rcases (sub c.sendTime addr).get? seq with _ | sentAt
  · exact ⟨rfl, Or.inr ⟨rfl, rfl⟩⟩
  by_cases hmark : seq ∈ c.retransmitted.getD addr ∅
  · simp [hmark]
  simp only [if_neg hmark]
  rcases hrto : c.rto.get? addr with _ | r
  · exact ⟨rfl, Or.inl rfl⟩
  · refine ⟨?_, Or.inr ⟨rfl, rfl⟩⟩
    simp only [Option.map_some, Dict.modify, hrto]

/-- Sampling makes nothing available for another sample. -/
theorem samples_sampleRtt {q : ℕ} {x : ℚ}
    (h : ((c.sampleRtt addr seq acknowledged now).timing b).Samples q x) :
    (c.timing b).Samples q x := by
  rcases (c.sampleRtt_spec addr b seq acknowledged now).2 with
    hsame | ⟨hsend, hmarks⟩
  · rwa [hsame] at h
  obtain ⟨htime, hmark⟩ := h
  simp only [timing, hsend, hmarks] at htime hmark
  by_cases hb : b = addr
  · subst hb
    rw [sub_set, if_pos rfl, Dict.get?_eraseAll] at htime
    split_ifs at htime with hforget
    refine ⟨htime, fun hmem => hmark ?_⟩
    have hmem' : q ∈ c.retransmitted.getD b ∅ := hmem
    rw [Dict.getD, Dict.get?_set, if_pos rfl, Option.getD_some,
      Finset.mem_filter]
    exact ⟨hmem', hforget⟩
  · rw [sub_set, if_neg hb] at htime
    rw [Dict.getD, Dict.get?_set, if_neg hb] at hmark
    exact ⟨htime, hmark⟩

theorem acknowledge_timing (ackFor : ℕ) (payloads : List Bytes)
    (sendResult : Option String) :
    (c.acknowledge addr ackFor payloads sendResult).timing b = c.timing b ∧
      (c.acknowledge addr ackFor payloads sendResult).rto = c.rto := by
  unfold acknowledge
  rcases ackPacket ackFor with e | packet
  · exact ⟨rfl, rfl⟩
  · rcases sendResult with _ | what <;> exact ⟨rfl, rfl⟩

/-- New entries for a peer are empty. -/
theorem timing_setdefault {c c' : Core}
    (hsend : c'.sendTime = c.sendTime ∨
      c'.sendTime = c.sendTime.setdefault addr ∅)
    (hmarks : c'.retransmitted = c.retransmitted ∨
      c'.retransmitted = c.retransmitted.setdefault addr ∅) :
    c'.timing b = c.timing b := by
  have hsend' : sub c'.sendTime b = sub c.sendTime b := by
    rcases hsend with h | h <;> simp [h]
  have hmarks' : c'.retransmitted.getD b ∅ = c.retransmitted.getD b ∅ := by
    rcases hmarks with h | h
    · rw [h]
    · by_cases hb : b = addr
      · rw [h, hb]
        rcases hget : c.retransmitted.get? addr with _ | x
        · simp [Dict.getD, hget]
        · simp [Dict.getD, hget]
      · simp [h, Dict.getD, hb]
  rw [timing, timing, hsend', hmarks']

theorem timing_launch (item : Item) (packet : Bytes) :
    ((c.popPending addr seq).launch addr seq item packet now).timing b =
      if b = addr then
        { c.timing b with sendTime := (c.timing b).sendTime.set seq now }
      else c.timing b := by
  by_cases hb : b = addr
  · subst hb
    simp [timing, launch, popPending, subSet]
  · simp [timing, launch, popPending, subSet, hb]

end Core

/-- The acknowledgement number that `_handle_incoming` hands on to
`_handle_ack`. -/
def ackOf (raw : Bytes) : Option ℕ :=
  if verify raw = false then none
  else
    match decode raw with
    | .error _ => none
    | .ok (header, _) =>
        if header.flags &&& FLAG_ACK ≠ 0 then some header.ack else none

theorem ackOf_eq_some_iff {raw : Bytes} {n : ℕ} :
    ackOf raw = some n ↔ IsAck raw n := by
  unfold ackOf IsAck
  by_cases hverify : verify raw = false
  · simp [hverify]
  rw [if_neg hverify]
  rw [Bool.not_eq_false] at hverify
  rcases hdecode : decode raw with e | ⟨header, payload⟩
  · simp
  · by_cases hack : header.flags &&& FLAG_ACK = 0
    · simp [hack]
    · simp [hverify, hack, eq_comm]

theorem ackOf_eq_none {raw : Bytes} (h : ∀ n, ¬ IsAck raw n) :
    ackOf raw = none := by
  rcases hack : ackOf raw with _ | n
  · rfl
  · exact absurd (ackOf_eq_some_iff.mp hack) (h n)

/-! ## Sweeps -/

/-- What one visit of a timeout sweep makes of the channel and the send times,
with the calls `new` for the visited peer; `marks` says that retransmissions are
marked. -/
structure Core.Visited (c c' : Core) (addr : Address) (marks : Prop)
    (new : List Attempt) : Prop where
  channel : c'.channel = Attempt.taken new ++ c.channel
  other : ∀ b, b ≠ addr → c'.timing b = c.timing b
  narrows : marks → (c.timing addr).Narrows (c'.timing addr) new
  attempts : ∀ a ∈ new, a.addr = addr ∧ a.seq ∈ (sub c.outstanding addr).keys

/-- Two parts of a visit, of which the first keeps what is outstanding. -/
theorem Core.Visited.trans {c c' c'' : Core} {addr : Address} {marks : Prop}
    {new new' : List Attempt} (h : c.Visited c' addr marks new)
    (hout : c'.outstanding = c.outstanding)
    (h' : c'.Visited c'' addr marks new') :
    c.Visited c'' addr marks (new ++ new') where
  channel := by
    rw [h'.channel, h.channel, Attempt.taken_append, List.append_assoc]
  other b hb := (h'.other b hb).trans (h.other b hb)
  narrows hmarks := (h.narrows hmarks).trans (h'.narrows hmarks)
  attempts := by
    rw [List.forall_mem_append, ← hout]
    exact ⟨hout ▸ h.attempts, h'.attempts⟩

/-- A visit that sends nothing. -/
theorem Core.Visited.idle {c c' : Core} {addr : Address} {marks : Prop}
    (hchannel : c'.channel = c.channel)
    (htiming : ∀ b, c'.timing b = c.timing b) :
    c.Visited c' addr marks [] where
  channel := hchannel
  other b _ := htiming b
  narrows _ := .of_eq (htiming addr)
  attempts a ha := by cases ha

/-- One visit of a sweep, with the calls made so far. -/
def sweepStep {σ ι : Type} (visit : σ → ι → σ) (calls : σ → ι → List Attempt)
    (p : σ × List Attempt) (x : ι) : σ × List Attempt :=
  (visit p.1 x, p.2 ++ calls p.1 x)

section

variable {σ ι : Type} {visit : σ → ι → σ} {calls : σ → ι → List Attempt}

theorem fst_foldl_sweepStep (xs : List ι) (p : σ × List Attempt) :
    (xs.foldl (sweepStep visit calls) p).1 = xs.foldl visit p.1 :=
  (List.foldl_hom Prod.fst fun _ _ => rfl).symm

variable (core : σ → Core) (key : ι → Address) (I : σ → Prop) {marks : Prop}
  {xs : List ι}

/-- The channel takes what the sweep sends. -/
theorem foldl_sweepStep_channel (hI : ∀ s, ∀ x ∈ xs, I s → I (visit s x))
    (hvisited : ∀ s, ∀ x ∈ xs, I s →
      (core s).Visited (core (visit s x)) (key x) marks (calls s x))
    {s : σ} (p : σ × List Attempt) (hp : I p.1)
    (hchannel : (core p.1).channel = Attempt.taken p.2 ++ (core s).channel) :
    let p' := xs.foldl (sweepStep visit calls) p
    (core p'.1).channel = Attempt.taken p'.2 ++ (core s).channel := by
  induction xs generalizing p with
  | nil => exact hchannel
  | cons x xs ih =>
      have hmem : x ∈ x :: xs := List.mem_cons_self
      apply ih (fun s y hy => hI s y (List.mem_cons_of_mem _ hy))
        (fun s y hy => hvisited s y (List.mem_cons_of_mem _ hy))
        (sweepStep visit calls p x) (hI p.1 x hmem hp)
      rw [sweepStep, (hvisited p.1 x hmem hp).channel, hchannel,
        Attempt.taken_append, List.append_assoc]

/-- A sweep that visits distinct peers narrows what may be sampled of each of
them. -/
theorem foldl_sweepStep_narrows (hI : ∀ s, ∀ x ∈ xs, I s → I (visit s x))
    (hvisited : ∀ s, ∀ x ∈ xs, I s →
      (core s).Visited (core (visit s x)) (key x) marks (calls s x))
    (hother : ∀ s, ∀ x ∈ xs, I s → ∀ b, b ≠ key x →
      sub (core (visit s x)).outstanding b = sub (core s).outstanding b)
    (hnodup : (xs.map key).Nodup) {s : σ} (hs : I s) (hmarks : marks)
    (b : Address) :
    let p := xs.foldl (sweepStep visit calls) (s, [])
    ((core s).timing b).Narrows ((core p.1).timing b) (Attempt.toPeer b p.2) ∧
      ∀ a ∈ Attempt.toPeer b p.2, a.seq ∈ (sub (core s).outstanding b).keys := by
  have hsweep := foldl_view (sweepStep visit calls) key
    (fun p => (sub (core p.1).outstanding b, (core p.1).timing b,
      Attempt.toPeer b p.2))
    (fun p => I p.1) b (fun p x hx hp => hI p.1 x hx hp)
    (fun p x hx hp hb => by
      have hv := hvisited p.1 x hx hp
      rw [sweepStep, Attempt.toPeer_append,
        Attempt.toPeer_eq_nil (Ne.symm hb) fun a ha => (hv.attempts a ha).1,
        List.append_nil, hother p.1 x hx hp b (Ne.symm hb),
        hv.other b (Ne.symm hb)])
    hnodup (s, []) hs
  intro p
  rcases hsweep with ⟨-, hsame⟩ | ⟨x, hx, rfl, q, hq, hview, hfinal⟩
  · simp only [Prod.mk.injEq] at hsame
    obtain ⟨-, htiming, hnil⟩ := hsame
    rw [hnil]
    exact ⟨.of_eq htiming, by simp [Attempt.toPeer]⟩
  · simp only [Prod.mk.injEq] at hview hfinal
    obtain ⟨hout, htiming, hnil⟩ := hview
    obtain ⟨-, htiming', hattempts'⟩ := hfinal
    have hv := hvisited q.1 x hx hq
    have hnew : Attempt.toPeer (key x) q.2 = [] := hnil
    rw [htiming', hattempts', sweepStep, Attempt.toPeer_append, hnew,
      List.nil_append,
      Attempt.toPeer_eq_self fun a ha => (hv.attempts a ha).1, ← htiming]
    refine ⟨hv.narrows hmarks, fun a ha => ?_⟩
    exact hout ▸ (hv.attempts a ha).2

end

/-! ## The window pump -/

namespace Core

variable {cfg : Config} {c c' : Core}

theorem Drained.timing (h : Drained cfg c c') (b : Address) :
    c'.timing b = c.timing b := by
  cases h with
  | idle => rfl
  | @crash item _ _ _ _ hmarks =>
      exact timing_setdefault item.addr b (Or.inl rfl) hmarks
  | @register item =>
      exact timing_setdefault item.addr b (Or.inr rfl) (Or.inr rfl)

/-- The call made by `_pump_windows` for one packet, if the timer of the packet
can be set. -/
def pumpCalls (cfg : Config) (c : Core) (addr : Address) (input : PumpInput) :
    List Attempt :=
  match c.nextToSend cfg addr with
  | none => []
  | some (seq, item) =>
      match dataPacket seq item.data with
      | .error _ => []
      | .ok packet => [⟨addr, seq, packet, some input.sentAt, input.sendResult⟩]

/-- One packet of the window pump: the call and the send time recorded. -/
theorem Pumped.metered {addr : Address} {input : PumpInput}
    (h : Pumped cfg addr input c c')
    (hrto : c.nextToSend cfg addr ≠ none → (c.rto.get? addr).isSome) :
    c'.channel = Attempt.taken (c.pumpCalls cfg addr input) ++ c.channel ∧
      ∀ buffer b, Timing.Step cfg (c.lane buffer b) (c'.lane buffer b)
        (c.timing b) (c'.timing b)
        (Attempt.toPeer b (c.pumpCalls cfg addr input)) := by
  rcases hnext : c.nextToSend cfg addr with _ | ⟨seq, item⟩
  · have hcalls : c.pumpCalls cfg addr input = [] := by
      simp only [pumpCalls, hnext]
    rw [h.eq_self hnext, hcalls]
    exact ⟨rfl, fun _ b => .idle cfg _ _ rfl⟩
  rcases hpacket : dataPacket seq item.data with e | packet
  · have hcalls : c.pumpCalls cfg addr input = [] := by
      simp only [pumpCalls, hnext, hpacket]
    rw [h.eq_crash hnext hpacket, hcalls]
    exact ⟨rfl, fun _ b => .idle cfg _ _ rfl⟩
  have hcalls : c.pumpCalls cfg addr input =
      [⟨addr, seq, packet, some input.sentAt, input.sendResult⟩] := by
    simp only [pumpCalls, hnext, hpacket]
  have hrto := hrto (by simp [hnext])
  have hlaunched := h.launched hrto hnext hpacket
  have hlane := h.lane hrto hnext hpacket
  have htiming : ∀ b, c'.timing b =
      ((c.popPending addr seq).launch addr seq item packet
        input.sentAt).timing b := by
    intro b
    rw [hlaunched]
    rcases input.sendResult with _ | what <;> rfl
  rw [hcalls]
  refine ⟨?_, fun buffer b => ?_⟩
  · rw [hlaunched]
    rcases input.sendResult with _ | what <;> rfl
  · rw [htiming b, timing_launch c addr b seq input.sentAt item packet,
      hlane buffer b]
    by_cases hb : b = addr
    · subst hb
      rw [if_pos rfl, if_pos rfl]
      refine .launch item
        ⟨b, seq, packet, some input.sentAt, input.sendResult⟩ input.sentAt
        hnext ?_ rfl
        (Attempt.toPeer_eq_self (List.forall_mem_singleton.mpr rfl)) rfl
      rcases input.sendResult with _ | what <;> rfl
    · rw [if_neg hb, if_neg hb,
        Attempt.toPeer_eq_nil hb (List.forall_mem_singleton.mpr rfl)]
      exact .idle cfg _ _ rfl

end Core

/-! ## The calls of a step -/

namespace Handlers

variable {σ : Type} {core : σ → Core} (H : Handlers core) (cfg : Config)

/-- The call made by `_pump_windows` for one packet. -/
def pumpAttempts (s : σ) (addr : Address) (input : PumpInput) : List Attempt :=
  match (core s).nextToSend cfg addr with
  | none => []
  | some (seq, item) =>
      match dataPacket seq item.data with
      | .error _ => []
      | .ok packet =>
          let s := H.withCore s (((core s).popPending addr seq).launch addr seq
            item packet input.sentAt)
          if (core (H.armTimer s addr seq input.timerAt)).crashed.isSome then []
          else [⟨addr, seq, packet, some input.sentAt, input.sendResult⟩]

/-- The calls of `channel.sendto` for DATA packets: those of the window pump, and
those of a timeout sweep. -/
def attempts (sweep : σ → SweepInput → List Attempt) (s : σ) :
    Event → List Attempt
  | .pump addr input =>
      if (core s).crashed.isSome then [] else H.pumpAttempts cfg s addr input
  | .timeouts input => if (core s).crashed.isSome then [] else sweep s input
  | _ => []

end Handlers

/-- What the timeout sweeps of a transport hand to the channel, and what becomes
of the send times in its other methods. -/
structure Endpoint.Handled.Meters {cfg : Config} {E : Endpoint cfg}
    (H : E.Handled) (attempts : E.State → Event → List Attempt)
    (sweep : E.State → SweepInput → List Attempt) : Prop where
  attempts_eq : ∀ s e, attempts s e = H.attempts cfg sweep s e
  channel : ∀ s input, (E.core (H.timeouts s input)).channel =
    Attempt.taken (sweep s input) ++ (E.core s).channel
  timeouts : ∀ s input b, cfg.adaptive = true → E.WellFormed s →
    ¬ (E.core s).crashed.isSome →
    ((E.core s).timing b).Narrows ((E.core (H.timeouts s input)).timing b)
        (Attempt.toPeer b (sweep s input)) ∧
      ∀ a ∈ Attempt.toPeer b (sweep s input),
        a.seq ∈ (sub (E.core s).outstanding b).keys
  incoming : ∀ s raw addr input b, ((E.core s).timing b).Narrows
    ((E.core (E.step s (.incoming raw addr input))).timing b) []

namespace Endpoint.Handled

variable {cfg : Config} {E : Endpoint cfg} {H : E.Handled}
  {attempts : E.State → Event → List Attempt}
  {sweep : E.State → SweepInput → List Attempt} {s : E.State} {e : Event}

theorem attempts_of_dead (hdead : (E.core s).crashed.isSome) :
    H.attempts cfg sweep s e = [] := by
  cases e with
  | pump addr input => exact if_pos hdead
  | timeouts input => exact if_pos hdead
  | _ => rfl

/-- The timer of a packet can be set. -/
theorem pumpAttempts_eq (H : E.Handled) (hs : E.WellFormed s)
    (hrun : ¬ (E.core s).crashed.isSome) (addr : Address) (input : PumpInput) :
    H.pumpAttempts cfg s addr input = (E.core s).pumpCalls cfg addr input := by
  rcases hnext : (E.core s).nextToSend cfg addr with _ | ⟨seq, item⟩
  · simp only [Handlers.pumpAttempts, pumpCalls, hnext]
  rcases hpacket : dataPacket seq item.data with e | packet
  · simp only [Handlers.pumpAttempts, pumpCalls, hnext, hpacket]
  simp only [Handlers.pumpAttempts, pumpCalls, hnext, hpacket]
  have hrto := estimator_of_nextToSend cfg (hs addr) hrun (by simp [hnext])
  have harm := H.shared.core_armTimer (H.withCore s
    (((E.core s).popPending addr seq).launch addr seq item packet
      input.sentAt)) addr seq input.timerAt
  rw [H.core_withCore] at harm
  exact if_neg (by rw [armed_eq harm hrto]; exact hrun)

/-- A call of the application hands nothing to the channel. -/
theorem call_metered (H : E.Handled) (s : E.State) (hcall : e.isCall = true) :
    (E.core (E.step s e)).channel = (E.core s).channel ∧
      ∀ b, (E.core (E.step s e)).timing b = (E.core s).timing b := by
  cases e with
  | sendto data addr =>
      rw [H.core_sendto, Core.sendto]
      split_ifs <;> exact ⟨rfl, fun _ => rfl⟩
  | recvfrom =>
      rw [H.core_recvfrom, Core.recvfrom]
      rcases (E.core s).incomingData.get? with _ | ⟨x, q⟩ <;>
        exact ⟨rfl, fun _ => rfl⟩
  | close =>
      rw [H.core_close, Core.close]
      split <;> exact ⟨rfl, fun _ => rfl⟩
  | _ => cases hcall

/-- The pump of a running thread. -/
theorem pump_metered (H : E.Handled) (hs : E.WellFormed s)
    (hrun : ¬ (E.core s).crashed.isSome) (addr : Address) (input : PumpInput) :
    let s' := E.step s (.pump addr input)
    let calls := (E.core s).pumpCalls cfg addr input
    (E.core s').channel = Attempt.taken calls ++ (E.core s).channel ∧
      ∀ b, Timing.Step cfg (E.lane s b) (E.lane s' b) ((E.core s).timing b)
        ((E.core s').timing b) (Attempt.toPeer b calls) := by
  intro s' calls
  obtain ⟨hchannel, htiming⟩ := (H.pumped hrun addr input).metered
    (estimator_of_nextToSend cfg (hs addr) hrun)
  refine ⟨hchannel, fun b => ?_⟩
  have hbuffer : E.buffer s' = E.buffer s := by
    change E.buffer (E.step s _) = _
    rw [H.step_eq, Handlers.step, if_neg hrun, H.shared.buffer_pump]
  rw [lane, lane, hbuffer]
  exact htiming (E.buffer s b) b

/-- What the steps hand to the channel, apart from the answers to what arrives. -/
theorem Meters.channel_eq (h : H.Meters attempts sweep) (hs : E.WellFormed s)
    (he : ∀ raw addr input, e ≠ .incoming raw addr input) :
    (E.core (E.step s e)).channel =
      Attempt.taken (attempts s e) ++ (E.core s).channel := by
  rw [h.attempts_eq]
  by_cases hdead : e.isCall = false ∧ (E.core s).crashed.isSome
  · rw [H.step_of_dead hdead.1 hdead.2, attempts_of_dead hdead.2]
    rfl
  rw [not_and] at hdead
  cases e with
  | drain => exact (H.drained (hdead rfl)).channel
  | pump addr input =>
      rw [Handlers.attempts, if_neg (hdead rfl), H.pumpAttempts_eq hs (hdead rfl)]
      exact (H.pump_metered hs (hdead rfl) addr input).1
  | timeouts input =>
      rw [H.step_eq, Handlers.step, Handlers.attempts, if_neg (hdead rfl),
        if_neg (hdead rfl)]
      exact h.channel s input
  | incoming raw addr input => exact absurd rfl (he raw addr input)
  | _ => exact (H.call_metered s rfl).1

/-- Every step keeps the rules of the send times. -/
theorem Meters.timing_step (h : H.Meters attempts sweep)
    (hadaptive : cfg.adaptive = true) (hs : E.WellFormed s) (e : Event)
    (b : Address) :
    Timing.Step cfg (E.lane s b) (E.lane (E.step s e) b) ((E.core s).timing b)
      ((E.core (E.step s e)).timing b) (Attempt.toPeer b (attempts s e)) := by
  rw [h.attempts_eq]
  by_cases hdead : e.isCall = false ∧ (E.core s).crashed.isSome
  · rw [H.step_of_dead hdead.1 hdead.2, attempts_of_dead hdead.2]
    exact .idle cfg _ _ rfl
  rw [not_and] at hdead
  cases e with
  | drain => exact .idle cfg _ _ ((H.drained (hdead rfl)).timing b)
  | pump addr input =>
      rw [Handlers.attempts, if_neg (hdead rfl), H.pumpAttempts_eq hs (hdead rfl)]
      exact (H.pump_metered hs (hdead rfl) addr input).2 b
  | timeouts input =>
      obtain ⟨hnarrows, hout⟩ :=
        h.timeouts s input b hadaptive hs (hdead rfl)
      rw [Handlers.attempts, if_neg (hdead rfl)]
      refine .keep hout ?_
      rw [H.step_eq, Handlers.step, if_neg (hdead rfl)]
      exact hnarrows
  | incoming raw addr input =>
      exact .keep (by simp [Handlers.attempts, Attempt.toPeer])
        (h.incoming s raw addr input b)
  | _ => exact .idle cfg _ _ ((H.call_metered s rfl).2 b)

end Endpoint.Handled

/-! ## Metered endpoints -/

/-- The estimators after a step that may call `sample`. -/
def feed (rto : Dict Address RTOEstimator) :
    Option (Address × ℕ × ℚ) → Dict Address RTOEstimator
  | none => rto
  | some (a, _, rtt) => rto.modify a fun r => r.sample rtt

/-- What arrives calls `sample` as `_handle_ack` does. -/
theorem Endpoint.Handled.incoming_metered {cfg : Config} {E : Endpoint cfg}
    (H : E.Handled) (A : E.HandlesAcks) {s : E.State} {raw : Bytes}
    {addr : Address} {input : IncomingInput}
    (sample : ℕ → Option (Address × ℕ × ℚ))
    (hack : ∀ n, IsAck raw n →
      (E.core (A.handle s raw addr input)).rto =
          feed (E.core s).rto (sample n) ∧
        ∀ b, ((E.core s).timing b).Narrows
          ((E.core (A.handle s raw addr input)).timing b) []) :
    let s' := E.step s (.incoming raw addr input)
    (E.core s').rto = feed (E.core s).rto
        (if (E.core s).crashed.isSome then none
        else
          match ackOf raw with
          | none => none
          | some ack => sample ack) ∧
      ∀ b, ((E.core s).timing b).Narrows ((E.core s').timing b) [] := by
  intro s'
  by_cases hdead : (E.core s).crashed.isSome
  · have hsame : s' = s := H.step_of_dead rfl hdead
    rw [if_pos hdead, hsame]
    exact ⟨rfl, fun _ => .of_eq rfl⟩
  have harrived := A.arrived s raw addr input hdead
  rw [if_neg hdead]
  change Arrived _ _ _ _ _ _ (E.core s') at harrived
  generalize E.core s' = c at harrived ⊢
  cases harrived with
  | ack hraw =>
      rw [ackOf_eq_some_iff.mpr hraw]
      exact hack _ hraw
  | data hraw =>
      rw [ackOf_eq_none fun n => hraw.not_isAck]
      refine ⟨(acknowledge_timing _ addr addr _ _ _).2, fun b => .of_eq ?_⟩
      exact (acknowledge_timing _ addr b _ _ _).1
  | other hraw =>
      rw [ackOf_eq_none hraw.1]
      exact ⟨rfl, fun _ => .of_eq rfl⟩

/-- A transport with the attempts and the samples of each step.  `spent` holds
of the numbers that can not be sampled again. -/
structure Metered (cfg : Config) extends Endpoint cfg where
  attempts : State → Event → List Attempt
  sampled : State → Event → Option (Address × ℕ × ℚ)
  spent : State → Address → ℕ → Prop
  channel_eq : ∀ s e, toEndpoint.WellFormed s →
    (∀ raw addr input, e ≠ .incoming raw addr input) →
      (core (step s e)).channel =
        Attempt.taken (attempts s e) ++ (core s).channel
  attempts_incoming : ∀ s raw addr input,
    attempts s (.incoming raw addr input) = []
  timing_init : ∀ b, (core init).timing b = ⟨∅, ∅⟩
  rto_eq : ∀ s raw addr input,
    (core (step s (.incoming raw addr input))).rto =
      feed (core s).rto (sampled s (.incoming raw addr input))
  timing_step : cfg.adaptive = true → ∀ s e b, toEndpoint.WellFormed s →
    Timing.Step cfg (toEndpoint.lane s b) (toEndpoint.lane (step s e) b)
      ((core s).timing b) ((core (step s e)).timing b)
      (Attempt.toPeer b (attempts s e))
  sampled_spec : ∀ s e addr seq rtt, toEndpoint.WellFormed s →
    sampled s e = some (addr, seq, rtt) →
      cfg.adaptive = true ∧ ¬ spent s addr seq ∧ spent (step s e) addr seq ∧
      ∃ raw input sentAt, e = .incoming raw addr input ∧
        ((core s).timing addr).Samples seq sentAt ∧
        rtt = max (1 / 10000) (input.ackedAt - sentAt)
  spent_step : ∀ s e addr seq, toEndpoint.WellFormed s → spent s addr seq →
    spent (step s e) addr seq

/-- What the steps of a run have attempted and sampled. -/
structure MeterRecord where
  attempts : List Attempt := []
  samples : List (Address × ℕ) := []

namespace Metered

variable {cfg : Config} (M : Metered cfg)

def recordStep (p : M.State × MeterRecord) (e : Event) :
    M.State × MeterRecord :=
  (M.step p.1 e,
    { attempts := p.2.attempts ++ M.attempts p.1 e
      samples := (M.sampled p.1 e).toList.map (fun x => (x.1, x.2.1)) ++
        p.2.samples })

/-- Every call of `sample` is for a packet that has been handed to the channel
exactly once, is measured from the send time of that attempt, is positive, and
is the first one for its number. -/
def KarnRule : Prop :=
  ∀ (es : List Event) (e : Event) (addr : Address) (seq : ℕ) (rtt : ℚ),
    let p := run M.recordStep (M.init, {}) es
    M.sampled p.1 e = some (addr, seq, rtt) →
      (∃ a raw input sentAt,
        Attempt.ofSeq seq (Attempt.toPeer addr p.2.attempts) = [a] ∧
        a.sentAt = some sentAt ∧ e = .incoming raw addr input ∧
        rtt = max (1 / 10000) (input.ackedAt - sentAt)) ∧
      0 < rtt ∧ (addr, seq) ∉ p.2.samples

variable {M} in
theorem sampled_pos {s : M.State} (h : M.WellFormed s) {e : Event}
    {addr : Address} {seq : ℕ} {rtt : ℚ}
    (hsample : M.sampled s e = some (addr, seq, rtt)) : 0 < rtt := by
  obtain ⟨-, -, -, raw, input, sentAt, -, -, rfl⟩ :=
    M.sampled_spec s e addr seq rtt h hsample
  exact lt_max_of_lt_left (by decide +kernel)

/-- The invariant of a recorded run. -/
structure Recorded (p : M.State × MeterRecord) : Prop where
  wellFormed : M.toEndpoint.WellFormed p.1
  attempted : ∀ b, Timing.Attempted (M.toEndpoint.lane p.1 b)
    (Attempt.toPeer b p.2.attempts)
  sentOnce : ∀ b, ((M.core p.1).timing b).SentOnce
    (Attempt.toPeer b p.2.attempts)
  spent : ∀ x ∈ p.2.samples, M.spent p.1 x.1 x.2

variable {M}

theorem recorded_init : M.Recorded (M.init, {}) where
  wellFormed := Endpoint.WellFormed.init
  attempted b := Timing.attempted_nil _
  sentOnce b := by
    rintro q sentAt ⟨htime, -⟩
    simp [M.timing_init] at htime
  spent := by simp

theorem Recorded.step (hadaptive : cfg.adaptive = true)
    {p : M.State × MeterRecord} (h : M.Recorded p) (e : Event) :
    M.Recorded (M.recordStep p e) where
  wellFormed := h.wellFormed.step e
  attempted b := by
    have htiming := M.timing_step hadaptive p.1 e b h.wellFormed
    rw [recordStep, Attempt.toPeer_append]
    exact htiming.attempted (h.attempted b) (h.wellFormed b)
      (h.wellFormed.lane_step e b)
  sentOnce b := by
    have htiming := M.timing_step hadaptive p.1 e b h.wellFormed
    rw [recordStep, Attempt.toPeer_append]
    exact htiming.sentOnce (h.sentOnce b) (h.attempted b)
  spent x hx := by
    rcases List.mem_append.mp hx with hnew | hold
    · obtain ⟨⟨addr, seq, rtt⟩, hsample, rfl⟩ := List.mem_map.mp hnew
      rw [Option.mem_toList] at hsample
      exact (M.sampled_spec p.1 e addr seq rtt h.wellFormed hsample).2.2.1
    · exact M.spent_step p.1 e x.1 x.2 h.wellFormed (h.spent x hold)

/-- Karn's rule holds of every metered endpoint. -/
theorem karnRule (M : Metered cfg) : M.KarnRule := by
  intro es e addr seq rtt p hsample
  have hwf : M.toEndpoint.WellFormed p.1 :=
    run_invariant (fun p : M.State × MeterRecord => M.toEndpoint.WellFormed p.1)
      (fun _ e h => h.step e) Endpoint.WellFormed.init es
  obtain ⟨hadaptive, hunspent, -, raw, input, sentAt, he, hsamples, hrtt⟩ :=
    M.sampled_spec p.1 e addr seq rtt hwf hsample
  have hrecorded : M.Recorded p :=
    run_invariant M.Recorded (fun _ e h => h.step hadaptive e) recorded_init es
  obtain ⟨a, ha, hsentAt⟩ := hrecorded.sentOnce addr seq sentAt hsamples
  refine ⟨⟨a, raw, input, sentAt, ha, hsentAt, he, hrtt⟩, ?_, fun hmem => ?_⟩
  · exact sampled_pos hwf hsample
  · exact hunspent (hrecorded.spent (addr, seq) hmem)

end Metered

end UdpArq
