import UdpArq.Transport.Endpoint
import Mathlib.Logic.Relation

/-!
# Acknowledgements

What `_handle_ack` reads from a packet, what it makes of the lane of the peer,
and the few assignments that it consists of.  The transports differ in how the
window slides and in their timers.
-/

namespace UdpArq

open UdpArq.Core

/-! ## The number -/

/-- The number that `_handle_ack` reads from a packet. -/
def ackNumber (raw : Bytes) : Option ℕ :=
  match decode raw with
  | .error _ => none
  | .ok (header, _) =>
      if header.flags &&& FLAG_ACK = 0 then none else some header.ack

theorem ackNumber_eq_some {raw : Bytes} {n : ℕ} (h : ackNumber raw = some n) :
    ∃ header payload, decode raw = .ok (header, payload) ∧
      header.flags &&& FLAG_ACK ≠ 0 ∧ header.ack = n := by
  unfold ackNumber at h
  rcases hdecode : decode raw with e | ⟨header, payload⟩
  · simp [hdecode] at h
  · simp only [hdecode] at h
    split_ifs at h with hflag
    exact ⟨header, payload, rfl, hflag, Option.some.inj h⟩

theorem ackNumber_eq_none {raw payload : Bytes} {header : Header}
    (h : ackNumber raw = none) (hdecode : decode raw = .ok (header, payload)) :
    header.flags &&& FLAG_ACK = 0 := by
  simpa only [ackNumber, hdecode, ite_eq_left_iff, reduceCtorEq, imp_false,
    not_not] using h

theorem exists_isAck {raw : Bytes} {n : ℕ} (h : ackNumber raw = some n) :
    ∃ packet, IsAck packet n := by
  obtain ⟨header, payload, -, -, rfl⟩ := ackNumber_eq_some h
  obtain ⟨packet, hpacket⟩ := ackPacket_isOk_iff.mpr header.isValid.ack
  exact ⟨packet, isAck_of_ackPacket hpacket⟩

/-! ## The lane -/

/-- What an acknowledgement `n` makes of a lane. -/
def Lane.acked (slide : Lane → ℕ → Option (List ℕ × ℕ)) (l : Lane) (n : ℕ) :
    Lane :=
  match slide l n with
  | none => l
  | some (seqs, base) => (l.complete seqs).slideTo base

theorem Lane.crashed_acked (slide : Lane → ℕ → Option (List ℕ × ℕ)) (l : Lane)
    (n : ℕ) : (l.acked slide n).crashed = l.crashed := by
  unfold Lane.acked
  cases slide l n <;> rfl

/-! ## The assignments -/

namespace Core

/-- One assignment of `_handle_ack` to the common state. -/
inductive AckStep (addr : Address) (c : Core) : Core → Prop
  | complete (seqs : List ℕ) : AckStep addr c (c.complete addr seqs)
  | sample (seq : ℕ) (acknowledged : List ℕ) (now : ℚ) :
      AckStep addr c (c.sampleRtt addr seq acknowledged now)
  | slide (base : ℕ) : AckStep addr c
      { c with
        base := c.base.set addr base
        retries := c.retries.set addr 0 }
  | crash (e : Err) : AckStep addr c (c.crash e)

/-- Any number of them. -/
abbrev AckSteps (addr : Address) : Core → Core → Prop :=
  Relation.ReflTransGen (AckStep addr)

variable {addr : Address} {c c' : Core}

theorem channel_sampleRtt (c : Core) (addr : Address) (seq : ℕ)
    (acknowledged : List ℕ) (now : ℚ) :
    (c.sampleRtt addr seq acknowledged now).channel = c.channel := by
  simp only [sampleRtt]
  split
  · rfl
  · split_ifs
    · rfl
    · split <;> rfl

/-- No acknowledgement is answered. -/
theorem AckSteps.channel (h : AckSteps addr c c') : c'.channel = c.channel := by
  induction h with
  | refl => rfl
  | tail _ hstep ih =>
      rw [← ih]
      cases hstep with
      | sample seq acknowledged now => exact channel_sampleRtt _ _ _ _ _
      | _ => rfl

/-- What `_handle_incoming` makes of the common state, if `_handle_ack` makes
`acked` of it. -/
inductive Arrived (cfg : Config) (raw : Bytes) (addr : Address)
    (input : IncomingInput) (acked c : Core) : Core → Prop
  | ack {n : ℕ} (hraw : IsAck raw n) : Arrived cfg raw addr input acked c acked
  | data {seq : ℕ} {payload : Bytes} (hraw : IsData raw seq payload)
      {expected : Dict Address ℕ}
      (hother : ∀ b, b ≠ addr → expected.get? b = c.expected.get? b) {k : ℕ}
      (payloads : List Bytes) (hle : k ≤ c.expected.getD addr 0 + cfg.windowSize) :
      Arrived cfg raw addr input acked c
        (({ c with expected } : Core).acknowledge addr k payloads
          input.sendResult)
  | other (hraw : IsOther raw) : Arrived cfg raw addr input acked c c

end Core

/-! ## Endpoints -/

namespace Endpoint

variable {cfg : Config} {E : Endpoint cfg}

/-- The `_handle_ack` of a transport, as a part of `_handle_incoming`. -/
structure HandlesAcks (E : Endpoint cfg) where
  handle : E.State → Bytes → Address → IncomingInput → E.State
  other : ∀ s raw addr input, ackNumber raw = none →
    handle s raw addr input = s
  lane : ∀ s raw addr input n, E.WellFormed s → ¬ (E.core s).crashed.isSome →
    ackNumber raw = some n → ∀ b, E.lane (handle s raw addr input) b =
      if b = addr then (E.lane s b).acked E.discipline.slide n
      else E.lane s b
  steps : ∀ s raw addr input,
    AckSteps addr (E.core s) (E.core (handle s raw addr input))
  arrived : ∀ s raw addr input, ¬ (E.core s).crashed.isSome →
    Arrived cfg raw addr input (E.core (handle s raw addr input)) (E.core s)
      (E.core (E.step s (.incoming raw addr input)))
  ignores : ∀ s raw addr input, IsOther raw →
    E.step s (.incoming raw addr input) = s

/-- An acknowledgement does not kill the thread. -/
theorem HandlesAcks.crashed (H : E.HandlesAcks) {s : E.State}
    (hs : E.WellFormed s) (hrun : ¬ (E.core s).crashed.isSome) (raw : Bytes)
    (addr : Address) (input : IncomingInput) :
    ¬ (E.core (H.handle s raw addr input)).crashed.isSome := by
  rcases hnumber : ackNumber raw with _ | n
  · rwa [H.other s raw addr input hnumber]
  · have hlane := H.lane s raw addr input n hs hrun hnumber addr
    rw [if_pos rfl] at hlane
    change ¬ (E.lane (H.handle s raw addr input) addr).crashed = true
    rw [hlane, Lane.crashed_acked]
    exact hrun

end Endpoint

end UdpArq
