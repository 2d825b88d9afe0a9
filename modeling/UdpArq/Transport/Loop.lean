import UdpArq.Transport.Effects
import UdpArq.Transport.Endpoint

/-!
# The window pump as a run

`_drain_outbound` and `_pump_windows` are loops over single steps.  A call that
completes is the run of these steps, and when the window pump is done no peer has
a packet left that may be sent.
-/

namespace UdpArq

open UdpArq.Core

/-! ## Frame conditions of the pump -/

section

variable {cfg : Config} {D : Discipline} {fails : SweepInput → Prop}
  {l l' : Lane} {e : Event}

/-- The thread does not come back. -/
theorem Lane.Step.crashed (h : Lane.Step cfg D fails l e l')
    (hl : l.crashed = true) : l'.crashed = true := by
  cases h with
  | close =>
      unfold Lane.close
      split <;> exact hl
  | crash => rfl
  | registerCrash => rfl
  | unencodable => rfl
  | muteCrash => rfl
  | _ => exact hl

/-- Pumping a packet of another peer changes nothing, unless the thread dies. -/
theorem Lane.Step.pump_other {addr : Address} {input : PumpInput}
    (h : Lane.Step cfg D fails l (.pump addr input) l') (haddr : addr ≠ l.peer) :
    l' = l ∨ l'.crashed = true := by
  generalize he : Event.pump addr input = e at h
  cases h with
  | idle => exact Or.inl rfl
  | crash => exact Or.inr rfl
  | send => exact absurd (Event.pump.inj he).1 haddr
  | unsent => exact absurd (Event.pump.inj he).1 haddr
  | unencodable => exact absurd (Event.pump.inj he).1 haddr
  | _ => cases he

end

namespace Endpoint

variable {cfg : Config} (E : Endpoint cfg)

/-! ## The loops -/

def drainOutbound (s : E.State) : E.State :=
  (E.core s).outbound.foldl (fun s _ => E.step s .drain) s

def pumpPeer (input : Address → ℕ → PumpInput) (addr : Address) :
    ℕ → E.State → E.State
  | 0, s => s
  | n + 1, s =>
      if (E.core s).crashed.isSome then s
      else
        match (E.core s).nextToSend cfg addr with
        | none => s
        | some (seq, _) =>
            pumpPeer input addr n (E.step s (.pump addr (input addr seq)))

def pumpWindows (input : Address → ℕ → PumpInput) (s : E.State) : E.State :=
  (E.core s).pending.keys.foldl
    (fun s addr =>
      E.pumpPeer input addr (sub (E.core s).pending addr).keys.length s) s

/-! ## Their steps -/

def pumpPeerEvents (input : Address → ℕ → PumpInput) (addr : Address) :
    ℕ → E.State → List Event
  | 0, _ => []
  | n + 1, s =>
      if (E.core s).crashed.isSome then []
      else
        match (E.core s).nextToSend cfg addr with
        | none => []
        | some (seq, _) =>
            .pump addr (input addr seq) ::
              pumpPeerEvents input addr n (E.step s (.pump addr (input addr seq)))

def pumpEvents (input : Address → ℕ → PumpInput) :
    List Address → E.State → List Event
  | [], _ => []
  | addr :: addrs, s =>
      let es := E.pumpPeerEvents input addr
        (sub (E.core s).pending addr).keys.length s
      es ++ pumpEvents input addrs (run E.step s es)

/-- The steps of a round of the two loops. -/
def roundEvents (input : Address → ℕ → PumpInput) (s : E.State) : List Event :=
  let es := (E.core s).outbound.map fun _ => .drain
  let drained := run E.step s es
  es ++ E.pumpEvents input (E.core drained).pending.keys drained

variable {E}

/-- The event is one step of the two loops. -/
def IsLoopStep (input : Address → ℕ → PumpInput) (e : Event) : Prop :=
  e = .drain ∨ ∃ addr seq, e = .pump addr (input addr seq)

theorem drainOutbound_eq_run (s : E.State) :
    E.drainOutbound s =
      run E.step s ((E.core s).outbound.map fun _ => .drain) := by
  rw [drainOutbound, run, List.foldl_map]

theorem pumpPeer_eq_run (input : Address → ℕ → PumpInput) (addr : Address)
    (n : ℕ) (s : E.State) :
    E.pumpPeer input addr n s =
      run E.step s (E.pumpPeerEvents input addr n s) := by
  induction n generalizing s with
  | zero => rfl
  | succ n ih =>
      rw [pumpPeer, pumpPeerEvents]
      split_ifs with hcrashed
      · rfl
      · cases (E.core s).nextToSend cfg addr with
        | none => rfl
        | some p => exact ih _

/-- A completed call of the two loops is the run of their steps. -/
theorem loop_eq_run (input : Address → ℕ → PumpInput) (s : E.State) :
    E.pumpWindows input (E.drainOutbound s) =
      run E.step s (E.roundEvents input s) := by
  have hpump : ∀ (addrs : List Address) (s : E.State),
      addrs.foldl (fun s addr => E.pumpPeer input addr
        (sub (E.core s).pending addr).keys.length s) s =
          run E.step s (E.pumpEvents input addrs s) := by
    intro addrs
    induction addrs with
    | nil => exact fun s => rfl
    | cons addr addrs ih =>
        intro s
        rw [List.foldl_cons, ih, pumpEvents, run_append, pumpPeer_eq_run]
  rw [roundEvents, run_append, pumpWindows, drainOutbound_eq_run, hpump]

theorem isLoopStep_of_mem_pumpPeerEvents {input : Address → ℕ → PumpInput}
    {addr : Address} {n : ℕ} {s : E.State} {e : Event}
    (he : e ∈ E.pumpPeerEvents input addr n s) : IsLoopStep input e := by
  induction n generalizing s with
  | zero => cases he
  | succ n ih =>
      rw [pumpPeerEvents] at he
      split_ifs at he
      · cases he
      · cases hnext : (E.core s).nextToSend cfg addr with
        | none =>
            simp only [hnext] at he
            cases he
        | some p =>
            simp only [hnext, List.mem_cons] at he
            rcases he with rfl | he
            · exact Or.inr ⟨addr, p.1, rfl⟩
            · exact ih he

theorem isLoopStep_of_mem_roundEvents {input : Address → ℕ → PumpInput}
    {s : E.State} {e : Event} (he : e ∈ E.roundEvents input s) :
    IsLoopStep input e := by
  have hpump : ∀ (addrs : List Address) (s : E.State),
      e ∈ E.pumpEvents input addrs s → IsLoopStep input e := by
    intro addrs
    induction addrs with
    | nil => exact fun s he => by cases he
    | cons addr addrs ih =>
        intro s he
        rcases List.mem_append.mp he with he | he
        · exact isLoopStep_of_mem_pumpPeerEvents he
        · exact ih _ he
  rcases List.mem_append.mp he with he | he
  · obtain ⟨-, -, rfl⟩ := List.mem_map.mp he
    exact Or.inl rfl
  · exact hpump _ _ he

variable (E) in
/-- The recursion equation determines the inner loop. -/
theorem pumpPeer_unique (pumpPacket : E.State → Address → PumpInput → E.State)
    (hpump : ∀ s addr input, ¬ (E.core s).crashed.isSome →
      E.step s (.pump addr input) = pumpPacket s addr input)
    (input : Address → ℕ → PumpInput) (addr : Address)
    (f : ℕ → E.State → E.State) (hzero : ∀ s, f 0 s = s)
    (hsucc : ∀ n s, f (n + 1) s =
      if (E.core s).crashed.isSome then s
      else
        match (E.core s).nextToSend cfg addr with
        | none => s
        | some (seq, _) => f n (pumpPacket s addr (input addr seq)))
    (n : ℕ) (s : E.State) : f n s = E.pumpPeer input addr n s := by
  induction n generalizing s with
  | zero => exact hzero s
  | succ n ih =>
      rw [hsucc, pumpPeer]
      split_ifs with hcrashed
      · rfl
      · cases (E.core s).nextToSend cfg addr with
        | none => rfl
        | some p => simp only [ih, hpump s addr _ hcrashed]

/-! ## The pump leaves nothing that may be sent -/

/-- Nothing of the peer may be sent, or the thread is dead. -/
def Exhausted (s : E.State) (addr : Address) : Prop :=
  (E.core s).crashed.isSome ∨ (E.core s).nextToSend cfg addr = none

theorem WellFormed.pumpPeer {s : E.State} (h : E.WellFormed s)
    (input : Address → ℕ → PumpInput) (addr : Address) (n : ℕ) :
    E.WellFormed (E.pumpPeer input addr n s) := by
  rw [pumpPeer_eq_run]
  exact h.run _

/-- The rounds that the inner loop may take are enough. -/
theorem pumpPeer_exhausted (input : Address → ℕ → PumpInput) (addr : Address)
    (n : ℕ) (s : E.State) (hn : (sub (E.core s).pending addr).keys.length ≤ n) :
    Exhausted (E.pumpPeer input addr n s) addr := by
  induction n generalizing s with
  | zero =>
      right
      have hnil : (sub (E.core s).pending addr).keys = [] :=
        List.length_eq_zero_iff.mp (Nat.le_zero.mp hn)
      simp [Endpoint.pumpPeer, Core.nextToSend, hnil]
  | succ n ih =>
      rw [Endpoint.pumpPeer]
      split_ifs with hcrashed
      · exact Or.inl hcrashed
      · cases hnext : (E.core s).nextToSend cfg addr with
        | none => exact Or.inr hnext
        | some p =>
            obtain ⟨seq, item⟩ := p
            have hlane : (E.lane s addr).nextToSend cfg = some (seq, item) :=
              hnext
            have hmem : seq ∈ (sub (E.core s).pending addr).keys :=
              Dict.mem_keys.mpr ⟨item, Lane.pending_of_nextToSend hlane⟩
            have hless := Dict.length_keys_erase hmem
            apply ih
            rw [E.pump_pending s addr _ seq item (by simpa using hcrashed) hnext]
            omega

/-- Pumping the packets of one peer leaves the others exhausted. -/
theorem Exhausted.pumpPeer {s : E.State} (hwf : E.WellFormed s)
    {addr b : Address} (h : Exhausted s b) (hb : b ≠ addr)
    (input : Address → ℕ → PumpInput) (n : ℕ) :
    Exhausted (E.pumpPeer input addr n s) b := by
  induction n generalizing s with
  | zero => exact h
  | succ n ih =>
      rw [Endpoint.pumpPeer]
      split_ifs with hcrashed
      · exact Or.inl hcrashed
      · cases hnext : (E.core s).nextToSend cfg addr with
        | none => exact h
        | some p =>
            obtain ⟨seq, item⟩ := p
            apply ih (hwf.step _)
            have hstep := hwf.lane_step (.pump addr (input addr seq)) b
            rcases hstep.pump_other (Ne.symm hb) with hsame | hdead
            · rcases h with hdead | hnone
              · exact absurd hdead hcrashed
              · right
                have hlane : (E.lane s b).nextToSend cfg = none := hnone
                rw [← hsame] at hlane
                exact hlane
            · exact Or.inl hdead

/-- After the window pump nothing may be sent to any peer, or the thread is
dead. -/
theorem pumpWindows_exhausted {s : E.State} (hwf : E.WellFormed s)
    (input : Address → ℕ → PumpInput) (addr : Address) :
    Exhausted (E.pumpWindows input s) addr := by
  have hsweep : ∀ (addrs : List Address) (s : E.State), E.WellFormed s →
      (∀ a, a ∈ addrs ∨ Exhausted s a) →
        ∀ a, Exhausted (addrs.foldl (fun s addr => E.pumpPeer input addr
          (sub (E.core s).pending addr).keys.length s) s) a := by
    intro addrs
    induction addrs with
    | nil =>
        intro s _ h a
        exact (h a).resolve_left (List.not_mem_nil)
    | cons addr addrs ih =>
        intro s hwf h
        rw [List.foldl_cons]
        refine ih _ (hwf.pumpPeer input addr _) fun a => ?_
        by_cases ha : a = addr
        · subst ha
          exact Or.inr (pumpPeer_exhausted input a _ s le_rfl)
        · rcases h a with hmem | hdone
          · exact Or.inl (List.mem_of_ne_of_mem ha hmem)
          · exact Or.inr (hdone.pumpPeer hwf ha input _)
  refine hsweep _ s hwf (fun a => ?_) addr
  by_cases ha : a ∈ (E.core s).pending.keys
  · exact Or.inl ha
  · have hsub : sub (E.core s).pending a = ∅ := by
      rw [sub, Dict.getD, Dict.get?_eq_none_iff.mpr ha]
      rfl
    exact Or.inr (Or.inr (by simp [Core.nextToSend, hsub]))

end Endpoint

end UdpArq
