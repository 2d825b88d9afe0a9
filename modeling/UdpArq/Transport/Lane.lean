import UdpArq.Transport.Core

/-!
# What a transport holds for one peer

Both transports keep one dictionary per quantity, keyed by peer address.
Turned around, they hold one *lane* per peer: everything the dictionaries store
under one address, together with the part of the shared queues that concerns
it.  Every operation on the shared state works on the lane of a single peer and
leaves the other lanes alone, except that the background thread dies for all
peers at once.
-/

namespace UdpArq

/-- The state that a transport keeps for one peer.  The fields `handed`, `wire`
(newest first) and `delivered` are the histories of the calls that concern the
peer. -/
@[ext]
structure Lane where
  peer : Address
  base : Option ℕ := none
  nextSeq : ℕ := 0
  outstanding : Dict ℕ Bytes := ∅
  sentItems : Dict ℕ Item := ∅
  pending : Dict ℕ Item := ∅
  queued : List Item := []
  error : Option Err := none
  status : ℕ → Status := fun _ => {}
  estimator : Bool := false
  handed : List Bytes := []
  wire : List Bytes := []
  expected : ℕ := 0
  buffer : Dict ℕ Bytes := ∅
  delivered : List Bytes := []
  stopped : Bool := false
  crashed : Bool := false

/-! ## Operations on a lane -/

namespace Lane

def crash (l : Lane) : Lane := { l with crashed := true }

def transmit (l : Lane) (packet : Bytes) : Lane :=
  { l with wire := packet :: l.wire }

def accept (l : Lane) (data : Bytes) : Lane :=
  { l with
    error := none
    nextSeq := l.nextSeq + 1
    queued := l.queued ++ [⟨l.peer, l.nextSeq, data⟩]
    handed := l.handed ++ [data] }

def register (l : Lane) (item : Item) (rest : List Item) : Lane :=
  { l with
    queued := rest
    pending := l.pending.set item.seq item
    base := some (l.base.getD item.seq) }

def popPending (l : Lane) (seq : ℕ) : Lane :=
  { l with pending := l.pending.erase seq }

def launch (l : Lane) (seq : ℕ) (item : Item) (packet : Bytes) : Lane :=
  { l with
    outstanding := l.outstanding.set seq packet
    sentItems := l.sentItems.set seq item }

def discard (l : Lane) (seq : ℕ) (e : Err) : Lane :=
  { l with
    outstanding := l.outstanding.erase seq
    sentItems := l.sentItems.erase seq
    status := fun q =>
      if q = seq then Core.markError e (l.status q) else l.status q }

def complete (l : Lane) (seqs : List ℕ) : Lane :=
  { l with
    outstanding := l.outstanding.eraseAll seqs
    sentItems := l.sentItems.eraseAll seqs
    status := fun q =>
      if q ∈ seqs ∧ q ∈ l.sentItems.keys then
        { l.status q with event := true }
      else l.status q }

def failPeer (l : Lane) (e : Err) : Lane :=
  { l with
    sentItems := ∅
    pending := ∅
    outstanding := ∅
    error := some (l.error.getD e)
    status := fun q =>
      if q ∈ l.sentItems.keys ∨ q ∈ l.pending.keys then
        Core.markError e (l.status q)
      else l.status q }

def close (l : Lane) : Lane :=
  if l.stopped then l
  else
    { l with
      stopped := true
      queued := []
      status := fun q =>
        if q ∈ l.sentItems.keys ∨ q ∈ l.pending.keys ∨
            ∃ item ∈ l.queued, item.seq = q then
          Core.markError .transportClosed (l.status q)
        else l.status q }

def slideTo (l : Lane) (base : ℕ) : Lane := { l with base := some base }

def deliver (l : Lane) (payloads : List Bytes) : Lane :=
  { l with delivered := l.delivered ++ payloads }

/-- Packets sent again; the newest comes first. -/
def resend (l : Lane) (packets : List Bytes) : Lane :=
  { l with wire := packets ++ l.wire }

/-- `Core.nextToSend` on a lane. -/
def nextToSend (cfg : Config) (l : Lane) : Option (ℕ × Item) :=
  match l.pending.keys.min? with
  | none => none
  | some seq =>
      if seq ≥ l.base.getD 0 + cfg.windowSize then none
      else (l.pending.get? seq).map fun item => (seq, item)

end Lane

namespace Core

/-! ## The lanes of a transport -/

/-- The part of a log of `(bytes, peer)` pairs that concerns one peer. -/
def toPeer (addr : Address) (log : List (Bytes × Address)) : List Bytes :=
  log.filterMap fun p => if p.2 = addr then some p.1 else none

@[simp] theorem toPeer_nil (addr : Address) : toPeer addr [] = [] := rfl

@[simp] theorem toPeer_cons (addr : Address) (p : Bytes × Address)
    (log : List (Bytes × Address)) :
    toPeer addr (p :: log) =
      if p.2 = addr then p.1 :: toPeer addr log else toPeer addr log := by
  by_cases h : p.2 = addr <;> simp [toPeer, h]

@[simp] theorem toPeer_append (addr : Address)
    (log log' : List (Bytes × Address)) :
    toPeer addr (log ++ log') = toPeer addr log ++ toPeer addr log' :=
  List.filterMap_append

theorem mem_toPeer {addr : Address} {log : List (Bytes × Address)} {x : Bytes} :
    x ∈ toPeer addr log ↔ (x, addr) ∈ log := by
  simp only [toPeer, List.mem_filterMap, Option.ite_none_right_eq_some,
    Option.some.injEq]
  constructor
  · rintro ⟨p, hmem, rfl, rfl⟩
    exact hmem
  · intro hmem
    exact ⟨(x, addr), hmem, rfl, rfl⟩

/-- The lane of `addr`; the receive buffer is a field of one transport only. -/
def lane (c : Core) (buffer : Dict ℕ Bytes) (addr : Address) : Lane where
  peer := addr
  base := c.base.get? addr
  nextSeq := c.nextSeq.getD addr 0
  outstanding := sub c.outstanding addr
  sentItems := sub c.sentItems addr
  pending := sub c.pending addr
  queued := c.outbound.filter fun item => item.addr = addr
  error := c.peerErrors.get? addr
  status := c.status addr
  estimator := (c.rto.get? addr).isSome
  handed := toPeer addr c.handed
  wire := toPeer addr c.channel
  expected := c.expected.getD addr 0
  buffer := buffer
  delivered := toPeer addr c.incomingData.puts
  stopped := c.stopEvent
  crashed := c.crashed.isSome

section Sub

variable {ν : Type} (d : Dict Address (Dict ℕ ν)) (a b : Address)

@[simp] theorem sub_empty : sub (∅ : Dict Address (Dict ℕ ν)) a = ∅ := rfl

@[simp] theorem sub_set (x : Dict ℕ ν) :
    sub (d.set a x) b = if b = a then x else sub d b := by
  by_cases h : b = a <;> simp [sub, Dict.getD, h]

@[simp] theorem sub_setdefault_empty :
    sub (d.setdefault a ∅) b = sub d b := by
  by_cases h : b = a
  · subst h
    cases hget : d.get? b <;> simp [sub, Dict.getD, hget]
  · simp [sub, Dict.getD, h]

theorem sub_modify {f : Dict ℕ ν → Dict ℕ ν} (hf : f ∅ = ∅) :
    sub (d.modify a f) b = if b = a then f (sub d b) else sub d b := by
  by_cases h : b = a
  · subst h
    cases hget : d.get? b <;> simp [sub, Dict.getD, hget, hf]
  · simp [sub, Dict.getD, h]

@[simp] theorem sub_modify_erase (seq : ℕ) :
    sub (d.modify a fun x => x.erase seq) b =
      if b = a then (sub d b).erase seq else sub d b :=
  sub_modify d a b rfl

@[simp] theorem sub_modify_eraseAll (seqs : List ℕ) :
    sub (d.modify a fun x => x.eraseAll seqs) b =
      if b = a then (sub d b).eraseAll seqs else sub d b := by
  refine sub_modify d a b (Dict.eq_empty_of_get? fun k => ?_)
  simp

@[simp] theorem sub_modify_clear :
    sub (d.modify a fun _ => ∅) b = if b = a then ∅ else sub d b :=
  sub_modify d a b rfl

end Sub

/-! ## Each operation changes one lane -/

section Operations

variable (c : Core) (buffer : Dict ℕ Bytes) (addr b : Address)

theorem lane_transmit (packet : Bytes) :
    (c.transmit packet addr).lane buffer b =
      if b = addr then (c.lane buffer b).transmit packet
      else c.lane buffer b := by
  by_cases h : b = addr
  · simp [lane, transmit, Lane.transmit, h]
  · simp [lane, transmit, h, Ne.symm h]

theorem lane_accept (data : Bytes) :
    (c.accept data addr).lane buffer b =
      if b = addr then (c.lane buffer b).accept data
      else c.lane buffer b := by
  by_cases h : b = addr
  · simp [lane, accept, Lane.accept, Dict.getD, h]
  · simp [lane, accept, Dict.getD, h, Ne.symm h]

theorem lane_register {item : Item} {rest : List Item}
    (hqueue : c.outbound = item :: rest) :
    (c.register item rest).lane buffer b =
      if b = item.addr then
        (c.lane buffer b).register item
          (rest.filter fun other => other.addr = b)
      else c.lane buffer b := by
  by_cases h : b = item.addr
  · simp [lane, register, Lane.register, subSet, h]
  · simp [lane, register, subSet, hqueue, h, Ne.symm h]

theorem lane_popPending (seq : ℕ) :
    (c.popPending addr seq).lane buffer b =
      if b = addr then (c.lane buffer b).popPending seq
      else c.lane buffer b := by
  by_cases h : b = addr <;> simp [lane, popPending, Lane.popPending, h]

theorem lane_launch (seq : ℕ) (item : Item) (packet : Bytes) (now : ℚ) :
    (c.launch addr seq item packet now).lane buffer b =
      if b = addr then (c.lane buffer b).launch seq item packet
      else c.lane buffer b := by
  by_cases h : b = addr <;> simp [lane, launch, Lane.launch, subSet, h]

theorem lane_discard (seq : ℕ) (e : Err) :
    (c.discard addr seq e).lane buffer b =
      if b = addr then (c.lane buffer b).discard seq e
      else c.lane buffer b := by
  by_cases h : b = addr <;>
    simp [lane, discard, setStatus, Lane.discard, h]

theorem lane_complete (seqs : List ℕ) :
    (c.complete addr seqs).lane buffer b =
      if b = addr then (c.lane buffer b).complete seqs
      else c.lane buffer b := by
  by_cases h : b = addr <;>
    simp [lane, complete, setStatus, Lane.complete, h]

theorem lane_failPeer (e : Err) :
    (c.failPeer addr e).lane buffer b =
      if b = addr then (c.lane buffer b).failPeer e
      else c.lane buffer b := by
  by_cases h : b = addr <;>
    simp [lane, failPeer, setStatus, Lane.failPeer, h]

theorem lane_close : c.close.lane buffer b = (c.lane buffer b).close := by
  by_cases h : c.stopEvent
  · simp [lane, close, Lane.close, h]
  · simp [lane, close, Lane.close, h, and_assoc]

theorem lane_slideTo (base : ℕ) (retries : Dict Address ℕ) :
    ({ c with base := c.base.set addr base, retries := retries } : Core).lane
        buffer b =
      if b = addr then (c.lane buffer b).slideTo base
      else c.lane buffer b := by
  by_cases h : b = addr <;> simp [lane, Lane.slideTo, h]

theorem lane_expected (expected : ℕ) :
    ({ c with expected := c.expected.set addr expected } : Core).lane
        buffer b =
      if b = addr then { c.lane buffer b with expected := expected }
      else c.lane buffer b := by
  by_cases h : b = addr <;> simp [lane, Dict.getD, h]

theorem rtoValue_isSome (cfg : Config) (hrto : (c.rto.get? addr).isSome) :
    ∃ rto, c.rtoValue cfg addr = some rto := by
  obtain ⟨r, hr⟩ := Option.isSome_iff_exists.mp hrto
  by_cases hadaptive : cfg.adaptive
  · exact ⟨r.rto, by simp [rtoValue, hadaptive, hr]⟩
  · exact ⟨cfg.timeout, by simp [rtoValue, hadaptive]⟩

/-- With an estimator for the peer, sampling is invisible in the lanes. -/
theorem lane_sampleRtt (hrto : (c.rto.get? addr).isSome) (seq : ℕ)
    (acknowledged : List ℕ) (now : ℚ) :
    (c.sampleRtt addr seq acknowledged now).lane buffer b =
      c.lane buffer b := by
  obtain ⟨r, hr⟩ := Option.isSome_iff_exists.mp hrto
  simp only [sampleRtt]
  cases hsent : (sub c.sendTime addr).get? seq with
  | none => rfl
  | some sentAt =>
      by_cases hseq : seq ∈ c.retransmitted.getD addr ∅
      · simp only [if_pos hseq]
        rfl
      · simp only [if_neg hseq, hr]
        by_cases hb : b = addr
        · simp [lane, hb, hr]
        · simp [lane, hb]

theorem puts_foldl_put (payloads : List Bytes) (q : Queue (Bytes × Address)) :
    (payloads.foldl (fun q payload => q.put (payload, addr)) q).puts =
      q.puts ++ payloads.map fun payload => (payload, addr) := by
  induction payloads generalizing q with
  | nil => simp
  | cons payload payloads ih => simp [ih]

theorem toPeer_map (payloads : List Bytes) :
    toPeer b (payloads.map fun payload => (payload, addr)) =
      if b = addr then payloads else [] := by
  by_cases h : b = addr
  · simp [toPeer, List.filterMap_map, h]
  · simp [toPeer, List.filterMap_map, h, Ne.symm h]

theorem lane_acknowledge (ackFor : ℕ) (payloads : List Bytes)
    (sendResult : Option String) :
    (c.acknowledge addr ackFor payloads sendResult).lane buffer b =
      match ackPacket ackFor with
      | .error _ => (c.lane buffer b).crash
      | .ok packet =>
          match sendResult with
          | some _ => c.lane buffer b
          | none =>
              if b = addr then
                ((c.lane buffer b).transmit packet).deliver payloads
              else c.lane buffer b := by
  unfold acknowledge
  cases ackPacket ackFor with
  | error e => rfl
  | ok packet =>
      cases sendResult with
      | some what => rfl
      | none =>
          by_cases hb : b = addr
          · simp [lane, transmit, Lane.transmit, Lane.deliver, puts_foldl_put,
              toPeer_map, hb]
          · simp [lane, transmit, puts_foldl_put, toPeer_map, hb, Ne.symm hb]

end Operations

end Core

end UdpArq
