import UdpArq.Transport.WellFormed

/-!
# What concerns one peer

The entries that a transport stores under one address, with the packets that it
has sent there, and the transport that is left when the entries of all other
peers are dropped.  An operation for one peer leaves the entries of the others
alone and reads none of them.
-/

namespace UdpArq

/-- The entries of one peer, and what was sent to it. -/
@[ext]
structure Holding where
  base : Option ℕ
  nextSeq : Option ℕ
  outstanding : Option (Dict ℕ Bytes)
  sentItems : Option (Dict ℕ Item)
  pending : Option (Dict ℕ Item)
  retries : Option ℕ
  peerError : Option Err
  rto : Option RTOEstimator
  sendTime : Option (Dict ℕ ℚ)
  retransmitted : Option (Finset ℕ)
  expected : Option ℕ
  status : ℕ → Status
  queued : List Item
  delivered : List Bytes
  sent : List Bytes

/-- The lane of an address that is no peer is well formed. -/
theorem Lane.wellFormed_blank (addr : Address) (stopped crashed : Bool) :
    Lane.WellFormed { peer := addr, stopped, crashed } where
  span := ⟨0, 0, rfl, le_rfl, fun _ => rfl, by simp⟩
  labelled := ⟨by simp, by simp, by simp, by simp, by simp, by simp⟩
  ready := ⟨by simp, by simp, by simp⟩
  nextSeq_eq := rfl

namespace Core

/-- The entries of `b`. -/
def holding (c : Core) (b : Address) : Holding where
  base := c.base.get? b
  nextSeq := c.nextSeq.get? b
  outstanding := c.outstanding.get? b
  sentItems := c.sentItems.get? b
  pending := c.pending.get? b
  retries := c.retries.get? b
  peerError := c.peerErrors.get? b
  rto := c.rto.get? b
  sendTime := c.sendTime.get? b
  retransmitted := c.retransmitted.get? b
  expected := c.expected.get? b
  status := c.status b
  queued := c.outbound.filter fun item => item.addr = b
  delivered := toPeer b c.incomingData.puts
  sent := toPeer b c.channel

/-- The same transport, if `b` is its only peer. -/
def only (c : Core) (b : Address) : Core :=
  { c with
    base := c.base.restrict fun a => a = b
    nextSeq := c.nextSeq.restrict fun a => a = b
    outstanding := c.outstanding.restrict fun a => a = b
    sentItems := c.sentItems.restrict fun a => a = b
    pending := c.pending.restrict fun a => a = b
    retries := c.retries.restrict fun a => a = b
    peerErrors := c.peerErrors.restrict fun a => a = b
    rto := c.rto.restrict fun a => a = b
    sendTime := c.sendTime.restrict fun a => a = b
    retransmitted := c.retransmitted.restrict fun a => a = b
    expected := c.expected.restrict fun a => a = b
    incomingData :=
      { puts := c.incomingData.puts.filter fun x => x.2 = b
        taken := ((c.incomingData.puts.take c.incomingData.taken).filter
          fun x => x.2 = b).length }
    outbound := c.outbound.filter fun item => item.addr = b
    status := fun a q => if a = b then c.status a q else {}
    channel := c.channel.filter fun x => x.2 = b
    handed := c.handed.filter fun x => x.2 = b
    failures := c.failures.filter fun x => x.1 = b }

/-- Every datagram that is still to be sent fits a packet. -/
def Encodable (c : Core) : Prop :=
  ∀ a seq item, (sub c.pending a).get? seq = some item →
    ∃ packet, dataPacket seq item.data = .ok packet

theorem toPeer_filter (b : Address) (log : List (Bytes × Address)) :
    toPeer b (log.filter fun x => x.2 = b) = toPeer b log := by
  rw [toPeer, List.filterMap_filter]
  apply List.filterMap_congr
  intro x _
  by_cases hx : x.2 = b <;> simp [hx]

section

variable (c : Core) (addr b : Address)

@[simp] theorem holding_only : (c.only b).holding b = c.holding b := by
  simp [holding, only, toPeer_filter]

theorem sub_only {ν : Type} (d : Dict Address (Dict ℕ ν)) (a : Address) :
    sub (d.restrict fun x => x = b) a = if a = b then sub d a else ∅ := by
  by_cases h : a = b <;> simp [sub, Dict.getD, h]

theorem Encodable.only {c : Core} (h : c.Encodable) (b : Address) :
    (c.only b).Encodable := by
  intro a seq item hitem
  rw [Core.only, sub_only] at hitem
  split_ifs at hitem
  · exact h a seq item hitem
  · cases hitem

theorem mem_keys_only {ν : Type} (d : Dict Address ν) (b : Address) :
    b ∈ d.keys ↔ b ∈ (d.restrict fun a => a = b).keys := by
  simp [Dict.mem_keys]

theorem lane_only_self (buffer : Dict ℕ Bytes) :
    (c.only b).lane buffer b = c.lane buffer b := by
  simp [lane, only, sub_only, Dict.getD, toPeer_filter]

theorem lane_only_of_ne {a b : Address} (h : a ≠ b) :
    (c.only b).lane ∅ a =
      { peer := a, stopped := c.stopEvent, crashed := c.crashed.isSome } := by
  have hlog : ∀ log : List (Bytes × Address),
      toPeer a (log.filter fun x => x.2 = b) = [] := by
    intro log
    rw [toPeer, List.filterMap_filter, List.filterMap_eq_nil_iff]
    intro x _
    by_cases hx : x.2 = b <;> simp [hx, h.symm]
  have hqueue : (c.outbound.filter fun item => item.addr = b).filter
      (fun item => item.addr = a) = [] := by
    rw [List.filter_filter, List.filter_eq_nil_iff]
    intro item _
    by_cases hitem : item.addr = b <;> simp [hitem, h.symm]
  simp only [lane, only, sub_only, if_neg h, Dict.getD, Dict.get?_restrict,
    hlog, hqueue, Option.getD_none, Option.isSome_none]

/-! ## Calls and arrivals -/

variable {c addr b}

theorem holding_accept (hne : b ≠ addr) (data : Bytes) :
    (c.accept data addr).holding b = c.holding b := by
  simp [holding, accept, hne, hne.symm]

theorem holding_register {item : Item} {rest : List Item}
    (hqueue : c.outbound = item :: rest) (hne : b ≠ item.addr) :
    (c.register item rest).holding b = c.holding b := by
  simp [holding, register, subSet, hqueue, hne, hne.symm]

theorem holding_complete (hne : b ≠ addr) (seqs : List ℕ) :
    (c.complete addr seqs).holding b = c.holding b := by
  simp [holding, complete, setStatus, hne]

theorem holding_sampleRtt (hne : b ≠ addr) (seq : ℕ) (acknowledged : List ℕ)
    (now : ℚ) :
    (c.sampleRtt addr seq acknowledged now).holding b = c.holding b := by
  simp only [sampleRtt]
  split
  · simp [holding, hne]
  · split
    · simp [holding, hne]
    · split
      · rfl
      · simp [holding, hne]

theorem holding_acknowledge (hne : b ≠ addr) (ackFor : ℕ)
    (payloads : List Bytes) (sendResult : Option String) :
    (c.acknowledge addr ackFor payloads sendResult).holding b =
      c.holding b := by
  unfold acknowledge
  rcases ackPacket ackFor with e | packet
  · rfl
  · rcases sendResult with _ | what
    · simp [holding, transmit, puts_foldl_put, toPeer_map, hne, hne.symm]
    · rfl

/-! ## Sending -/

variable (c addr b)

theorem holding_transmit (packet : Bytes) :
    (c.transmit packet addr).holding b =
      if b = addr then
        { c.holding b with sent := packet :: (c.holding b).sent }
      else c.holding b := by
  by_cases h : b = addr
  · simp [holding, transmit, h]
  · simp [holding, transmit, h, Ne.symm h]

theorem holding_popPending (seq : ℕ) :
    (c.popPending addr seq).holding b =
      if b = addr then
        { c.holding b with
          pending := (c.holding b).pending.map fun d => d.erase seq }
      else c.holding b := by
  by_cases h : b = addr <;> simp [holding, popPending, h]

theorem holding_launch (seq : ℕ) (item : Item) (packet : Bytes) (now : ℚ) :
    (c.launch addr seq item packet now).holding b =
      if b = addr then
        { c.holding b with
          outstanding :=
            some (((c.holding b).outstanding.getD ∅).set seq packet)
          sentItems := some (((c.holding b).sentItems.getD ∅).set seq item)
          sendTime := some (((c.holding b).sendTime.getD ∅).set seq now) }
      else c.holding b := by
  by_cases h : b = addr <;>
    simp [holding, launch, subSet, sub, Dict.getD, h]

theorem holding_discard (seq : ℕ) (e : Err) :
    (c.discard addr seq e).holding b =
      if b = addr then
        { c.holding b with
          outstanding := (c.holding b).outstanding.map fun d => d.erase seq
          sentItems := (c.holding b).sentItems.map fun d => d.erase seq
          status := fun q =>
            if q = seq then markError e ((c.holding b).status q)
            else (c.holding b).status q }
      else c.holding b := by
  by_cases h : b = addr <;> simp [holding, discard, setStatus, h]

theorem holding_failPeer (e : Err) :
    (c.failPeer addr e).holding b =
      if b = addr then
        { c.holding b with
          sentItems := (c.holding b).sentItems.map fun _ => ∅
          pending := (c.holding b).pending.map fun _ => ∅
          outstanding := (c.holding b).outstanding.map fun _ => ∅
          peerError := some ((c.holding b).peerError.getD e)
          status := fun q =>
            if q ∈ ((c.holding b).sentItems.getD ∅).keys ∨
                q ∈ ((c.holding b).pending.getD ∅).keys then
              markError e ((c.holding b).status q)
            else (c.holding b).status q }
      else c.holding b := by
  by_cases h : b = addr
  · simp only [holding, failPeer, setStatus, sub, Dict.getD, Dict.get?_modify,
      Dict.get?_setdefault, h, if_true]
    rfl
  · simp [holding, failPeer, setStatus, h]

/-! ## What an operation reads -/

variable {c c' : Core} {b}

theorem sub_eq_of_holding {ν : Type} {d d' : Dict Address (Dict ℕ ν)}
    (h : d.get? b = d'.get? b) : sub d b = sub d' b := by
  rw [sub, sub, Dict.getD, Dict.getD, h]

theorem nextToSend_of_holding (cfg : Config) (h : c.holding b = c'.holding b) :
    c.nextToSend cfg b = c'.nextToSend cfg b := by
  have hpending : sub c.pending b = sub c'.pending b :=
    sub_eq_of_holding (congrArg Holding.pending h)
  have hbase : c.base.get? b = c'.base.get? b := congrArg Holding.base h
  unfold nextToSend
  rw [hpending, Dict.getD, Dict.getD, hbase]

theorem rtoValue_of_holding (cfg : Config) (h : c.holding b = c'.holding b) :
    c.rtoValue cfg b = c'.rtoValue cfg b := by
  have hrto : c.rto.get? b = c'.rto.get? b := congrArg Holding.rto h
  unfold rtoValue
  rw [hrto]

end

end Core

end UdpArq
