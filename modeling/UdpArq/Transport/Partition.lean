import UdpArq.Transport.Loop
import UdpArq.Transport.Peer

/-!
# Sweeping over peers that do not interfere

What the pump does for one peer leaves the entries of the others alone, and
depends on the entries of this peer only.  Then a sweep of the pump does with
each peer what it would do if this were the only one, as long as the thread can
send whatever it holds.
-/

namespace UdpArq

open UdpArq.Core

namespace Endpoint

variable {cfg : Config}

/-- What a transport holds for one peer, the transport with this peer only, and
what becomes of them when a timer is set or stopped. -/
structure Partition {E : Endpoint cfg} (H : E.Handled) where
  Peer : Type
  peer : E.State → Address → Peer
  only : E.State → Address → E.State
  core_only : ∀ s b, E.core (only s b) = (E.core s).only b
  peer_only : ∀ s b, peer (only s b) b = peer s b
  wellFormed_only : ∀ s b, E.WellFormed s → E.WellFormed (only s b)
  holding : ∀ s t b, peer s b = peer t b →
    (E.core s).holding b = (E.core t).holding b
  withCore : ∀ s t b c c', peer s b = peer t b → c.holding b = c'.holding b →
    peer (H.withCore s c) b = peer (H.withCore t c') b
  armTimer_apart : ∀ s a b seq now, b ≠ a →
    peer (H.armTimer s a seq now) b = peer s b
  armTimer_alike : ∀ s t b seq now, peer s b = peer t b →
    (E.core s).crashed = (E.core t).crashed →
      peer (H.armTimer s b seq now) b = peer (H.armTimer t b seq now) b ∧
        (E.core (H.armTimer s b seq now)).crashed =
          (E.core (H.armTimer t b seq now)).crashed
  stopTimer_apart : ∀ s a b seq, b ≠ a →
    peer (H.stopTimer s a seq) b = peer s b
  stopTimer_alike : ∀ s t b seq, peer s b = peer t b →
    peer (H.stopTimer s b seq) b = peer (H.stopTimer t b seq) b

/-- The thread is running and can send whatever it holds. -/
structure Steady (E : Endpoint cfg) (s : E.State) : Prop where
  wellFormed : E.WellFormed s
  running : (E.core s).crashed = none
  encodable : (E.core s).Encodable

namespace Partition

variable {E : Endpoint cfg} {H : E.Handled} (P : E.Partition H) {s t : E.State}
  {a b : Address}
include P

/-! ## One packet -/

/-- The other peers keep their entries if the common state keeps them. -/
theorem apart_withCore {c : Core}
    (h : c.holding b = (E.core s).holding b) :
    P.peer (H.withCore s c) b = P.peer s b := by
  rw [P.withCore s s b c (E.core s) rfl h, H.withCore_core]

theorem apart_sendto (hb : b ≠ a) (data : Bytes) :
    P.peer (E.step s (.sendto data a)) b = P.peer s b := by
  rw [H.step_eq, H.step_sendto]
  apply P.apart_withCore
  unfold Core.sendto
  split_ifs
  · rfl
  · rfl
  · exact holding_accept hb data

theorem apart_sendPacket (hb : b ≠ a) (seq : ℕ) (packet : Bytes)
    (sendResult : Option String) :
    P.peer (H.sendPacket s a seq packet sendResult) b = P.peer s b := by
  rcases sendResult with _ | what
  · exact P.apart_withCore (by rw [holding_transmit, if_neg hb])
  · have hdiscard : P.peer (H.withCore s
        ((E.core s).discard a seq (.channel what))) b = P.peer s b :=
      P.apart_withCore (by rw [holding_discard, if_neg hb])
    rw [H.sendPacket_unsent]
    split_ifs
    · rw [P.stopTimer_apart _ _ _ _ hb, hdiscard]
    · exact hdiscard

/-- The other peers keep their entries. -/
theorem apart_pump (hb : b ≠ a) (input : PumpInput) :
    P.peer (E.step s (.pump a input)) b = P.peer s b := by
  by_cases hdead : (E.core s).crashed.isSome
  · rw [H.step_of_dead rfl hdead]
  rw [H.step_eq, Handlers.step, if_neg hdead, H.shared.pump_eq]
  rcases hnext : (E.core s).nextToSend cfg a with _ | ⟨seq, item⟩
  · rw [H.pumpPacket_idle hnext]
  rcases hpacket : dataPacket seq item.data with e | packet
  · rw [H.pumpPacket_unencodable hnext hpacket]
    refine P.apart_withCore ?_
    exact (holding_popPending (E.core s) a b seq).trans (if_neg hb)
  · have hlaunch : P.peer (H.withCore s
        (((E.core s).popPending a seq).launch a seq item packet
          input.sentAt)) b = P.peer s b :=
      P.apart_withCore
        (by rw [holding_launch, if_neg hb, holding_popPending, if_neg hb])
    rw [H.pumpPacket_launched hnext hpacket]
    split_ifs
    · rw [P.armTimer_apart _ _ _ _ _ hb, hlaunch]
    · rw [P.apart_sendPacket hb, P.armTimer_apart _ _ _ _ _ hb, hlaunch]

theorem alike_sendPacket (h : P.peer s b = P.peer t b) (seq : ℕ)
    (packet : Bytes) (sendResult : Option String) :
    P.peer (H.sendPacket s b seq packet sendResult) b =
      P.peer (H.sendPacket t b seq packet sendResult) b := by
  have hheld := P.holding s t b h
  rcases sendResult with _ | what
  · exact P.withCore _ _ _ _ _ h
      (by rw [holding_transmit, holding_transmit, hheld])
  · have hsame : ((E.core s).discard b seq (.channel what)).holding b =
        ((E.core t).discard b seq (.channel what)).holding b := by
      rw [holding_discard, holding_discard, hheld]
    have hdiscard := P.withCore _ _ _ _ _ h hsame
    rw [H.sendPacket_unsent, H.sendPacket_unsent,
      sub_eq_of_holding (congrArg Holding.outstanding hsame)]
    split_ifs
    · exact P.stopTimer_alike _ _ _ _ hdiscard
    · exact hdiscard

/-- The entries of the peer itself decide. -/
theorem alike_pump (hs : (E.core s).crashed = none)
    (ht : (E.core t).crashed = none) (h : P.peer s b = P.peer t b)
    (input : PumpInput) :
    P.peer (E.step s (.pump b input)) b =
      P.peer (E.step t (.pump b input)) b := by
  have hheld := P.holding s t b h
  have hsame := nextToSend_of_holding cfg hheld
  rw [H.step_eq, Handlers.step, if_neg (by simp [hs]), H.shared.pump_eq,
    H.step_eq, Handlers.step, if_neg (by simp [ht]), H.shared.pump_eq]
  rcases hnext : (E.core t).nextToSend cfg b with _ | ⟨seq, item⟩
  · rw [H.pumpPacket_idle hnext, H.pumpPacket_idle (hsame.trans hnext), h]
  have hpop : ((E.core s).popPending b seq).holding b =
      ((E.core t).popPending b seq).holding b := by
    rw [holding_popPending, holding_popPending, hheld]
  rcases hpacket : dataPacket seq item.data with e | packet
  · rw [H.pumpPacket_unencodable hnext hpacket,
      H.pumpPacket_unencodable (hsame.trans hnext) hpacket]
    exact P.withCore _ _ _ _ _ h hpop
  · rw [H.pumpPacket_launched hnext hpacket,
      H.pumpPacket_launched (hsame.trans hnext) hpacket]
    have hlaunch := P.withCore s t b
      (((E.core s).popPending b seq).launch b seq item packet input.sentAt)
      (((E.core t).popPending b seq).launch b seq item packet input.sentAt) h
      (by rw [holding_launch, holding_launch, hpop])
    obtain ⟨harm, hcrashed⟩ := P.armTimer_alike _ _ _ seq input.timerAt hlaunch
      (by rw [H.core_withCore, H.core_withCore]; exact hs.trans ht.symm)
    rw [hcrashed]
    split_ifs
    · exact harm
    · exact P.alike_sendPacket harm seq packet input.sendResult

/-! ## A running thread -/

theorem steady_only (h : E.Steady s) (b : Address) : E.Steady (P.only s b) where
  wellFormed := P.wellFormed_only s b h.wellFormed
  running := by
    rw [P.core_only]
    exact h.running
  encodable := by
    rw [P.core_only]
    exact h.encodable.only b

theorem steady_pump (h : E.Steady s) {seq : ℕ} {item : Item}
    (hnext : (E.core s).nextToSend cfg a = some (seq, item)) (input : PumpInput) :
    E.Steady (E.step s (.pump a input)) := by
  have hlane : (E.lane s a).nextToSend cfg = some (seq, item) := hnext
  obtain ⟨packet, hpacket⟩ :=
    h.encodable a seq item (Lane.pending_of_nextToSend hlane)
  refine ⟨h.wellFormed.step _,
    Option.not_isSome_iff_eq_none.mp
      (H.pump_crashed h.wellFormed (by simp [h.running]) hnext hpacket input),
    fun a' seq' item' hitem => ?_⟩
  apply h.encodable a' seq' item'
  by_cases ha : a' = a
  · subst ha
    rw [E.pump_pending s a' input seq item h.running hnext, Dict.get?_erase]
      at hitem
    split_ifs at hitem
    exact hitem
  · have hother := P.holding _ _ a' (P.apart_pump (s := s) ha input)
    rwa [sub_eq_of_holding (congrArg Holding.pending hother)] at hitem

/-! ## One peer -/

theorem steady_pumpPeer (h : E.Steady s) (input : Address → ℕ → PumpInput)
    (a : Address) (n : ℕ) : E.Steady (E.pumpPeer input a n s) := by
  induction n generalizing s with
  | zero => exact h
  | succ n ih =>
      rw [pumpPeer, if_neg (by simp [h.running])]
      cases hnext : (E.core s).nextToSend cfg a with
      | none => exact h
      | some p => exact ih (P.steady_pump h hnext _)

/-- The other peers keep their entries. -/
theorem apart_pumpPeer (input : Address → ℕ → PumpInput) (n : ℕ) (hb : b ≠ a) :
    P.peer (E.pumpPeer input a n s) b = P.peer s b := by
  induction n generalizing s with
  | zero => rfl
  | succ n ih =>
      rw [pumpPeer]
      split_ifs
      · rfl
      · cases (E.core s).nextToSend cfg a with
        | none => rfl
        | some p => exact ih.trans (P.apart_pump hb _)

/-- The entries of the peer itself decide. -/
theorem alike_pumpPeer (hs : E.Steady s) (ht : E.Steady t)
    (h : P.peer s b = P.peer t b) (input : Address → ℕ → PumpInput) (n : ℕ) :
    P.peer (E.pumpPeer input b n s) b = P.peer (E.pumpPeer input b n t) b := by
  induction n generalizing s t with
  | zero => exact h
  | succ n ih =>
      have hsame := nextToSend_of_holding cfg (P.holding s t b h)
      rw [pumpPeer, pumpPeer, if_neg (by simp [hs.running]),
        if_neg (by simp [ht.running]), hsame]
      cases hnext : (E.core t).nextToSend cfg b with
      | none => exact h
      | some p =>
          exact ih (P.steady_pump hs (hsame.trans hnext) _)
            (P.steady_pump ht hnext _)
            (P.alike_pump hs.running ht.running h _)

/-! ## All peers -/

/-- One sweep of the pump over many peers. -/
theorem pumpWindows_only (h : E.Steady s) (input : Address → ℕ → PumpInput)
    (b : Address) :
    P.peer (E.pumpWindows input (P.only s b)) b =
      P.peer (E.pumpWindows input s) b := by
  refine foldl_view_eq
    (fun s a => E.pumpPeer input a (sub (E.core s).pending a).keys.length s)
    id (fun s => P.peer s b) E.Steady E.Steady b _ _
    (fun s a _ hs => P.steady_pumpPeer hs input a _)
    (fun s a _ hs => P.steady_pumpPeer hs input a _)
    (fun s a _ _ ha => P.apart_pumpPeer input _ (Ne.symm ha))
    (fun s a _ _ ha => P.apart_pumpPeer input _ (Ne.symm ha))
    (fun s t hs ht hst x _ y _ hx hy => ?_)
    (by simpa using (E.core (P.only s b)).pending.nodup_keys)
    (by simpa using (E.core s).pending.nodup_keys) ?_ (P.steady_only h b) h
    (P.peer_only s b)
  · obtain rfl : x = b := hx
    obtain rfl : y = x := hy
    have hpending := congrArg Holding.pending (P.holding s t y hst)
    have hlength : (sub (E.core s).pending y).keys.length =
        (sub (E.core t).pending y).keys.length := by
      rw [sub_eq_of_holding hpending]
    rw [hlength]
    exact P.alike_pumpPeer hs ht hst input _
  · rw [List.map_id, List.map_id, P.core_only]
    exact (mem_keys_only (E.core s).pending b).symm

end Partition

/-- A dead thread pumps nothing. -/
theorem pumpWindows_dead {E : Endpoint cfg} {s : E.State}
    (hcrashed : (E.core s).crashed.isSome) (input : Address → ℕ → PumpInput) :
    E.pumpWindows input s = s := by
  have hpeer : ∀ a n, E.pumpPeer input a n s = s := by
    intro a n
    cases n with
    | zero => rfl
    | succ n => exact if_pos hcrashed
  rw [pumpWindows]
  induction (E.core s).pending.keys with
  | nil => rfl
  | cons a addrs ih => rw [List.foldl_cons, hpeer, ih]

/-- With a running or a dead thread. -/
theorem Partition.pump_only {E : Endpoint cfg} {H : E.Handled}
    (P : E.Partition H) {s : E.State} (h : E.WellFormed s)
    (hencodable : (E.core s).Encodable) (b : Address) (input : Address → ℕ → PumpInput) :
    P.peer (E.pumpWindows input (P.only s b)) b =
      P.peer (E.pumpWindows input s) b := by
  by_cases hcrashed : (E.core s).crashed.isSome
  · have hdead : (E.core (P.only s b)).crashed.isSome := by
      rw [P.core_only]
      exact hcrashed
    rw [pumpWindows_dead hcrashed, pumpWindows_dead hdead, P.peer_only]
  · have hrun := Option.not_isSome_iff_eq_none.mp hcrashed
    exact P.pumpWindows_only ⟨h, hrun, hencodable⟩ input b

end Endpoint

end UdpArq
