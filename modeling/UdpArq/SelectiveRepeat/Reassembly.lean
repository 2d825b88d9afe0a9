import UdpArq.SelectiveRepeat.Refinement

/-!
# What a Selective Repeat receiver keeps

A datagram in the window is buffered, and the drain loop takes out what follows
the next expected number.  What is left in the buffer lies in the window and
beyond that number, and nothing that was in the window is ever lost.
-/

namespace UdpArq

namespace Lane

variable {D : Discipline} {l l' : Lane}

/-- The buffered datagrams lie in the window, above the next expected one. -/
def Ahead (window : ℕ) (l : Lane) : Prop :=
  ∀ q ∈ l.buffer.keys, l.expected < q ∧ q < l.expected + window

/-- Only a datagram that arrives moves `expected` or changes the buffer. -/
theorem Ahead.step {cfg : Config} {fails : SweepInput → Prop} {e : Event}
    {window : ℕ} (h : l.Ahead window)
    (hreceive : ∀ seq payload,
      (l.advance (D.receive l seq payload)).Ahead window)
    (hstep : Step cfg D fails l e l') : l'.Ahead window := by
  cases hstep with
  | reply => exact hreceive _ _
  | mute => exact hreceive _ _
  | muteCrash => exact hreceive _ _
  | close =>
      unfold Lane.close
      split <;> exact h
  | _ => exact h

end Lane

namespace SelectiveRepeatTransport

open UdpArq.Core

variable {cfg : Config} {window : ℕ} {l : Lane}

/-- A datagram is stored if it is in the window. -/
theorem get?_store (window : ℕ) (l : Lane) (seq : ℕ) (payload : Bytes)
    (q : ℕ) :
    (store window l seq payload).get? q =
      if q = seq ∧ l.expected ≤ seq ∧ seq < l.expected + window then
        some payload
      else l.buffer.get? q := by
  unfold store
  by_cases hin : l.expected ≤ seq ∧ seq < l.expected + window
  · rw [if_pos hin, Dict.get?_set]
    simp [hin]
  · rw [if_neg hin, if_neg fun h => hin h.2]

/-- What a reception takes out of the buffer and what it leaves there. -/
theorem receive_eq (window : ℕ) (l : Lane) (seq : ℕ) (payload : Bytes) :
    let r := receive window l seq payload
    l.expected ≤ r.expected ∧
      r.payloads.map some =
        (List.range' l.expected (r.expected - l.expected)).map
          (store window l seq payload).get? ∧
      (∀ q, r.buffer.get? q =
        if l.expected ≤ q ∧ q < r.expected then none
        else (store window l seq payload).get? q) ∧
      r.buffer.get? r.expected = none :=
  drainBuffer_eq _ _ _ le_rfl

/-- A reception leaves nothing in the buffer that does not lie ahead. -/
theorem ahead_receive {l : Lane} (h : l.Ahead cfg.windowSize) (seq : ℕ)
    (payload : Bytes) :
    (l.advance ((discipline cfg).receive l seq payload)).Ahead
      cfg.windowSize := by
  obtain ⟨hmoves, -, hleft, hstop⟩ := receive_eq cfg.windowSize l seq payload
  intro q hq
  obtain ⟨p, hp⟩ := Dict.mem_keys.mp hq
  have hkept : (receive cfg.windowSize l seq payload).buffer.get? q = some p := hp
  have hne : q ≠ (receive cfg.windowSize l seq payload).expected := by
    rintro rfl
    rw [hstop] at hkept
    cases hkept
  rw [hleft, get?_store] at hkept
  change (receive cfg.windowSize l seq payload).expected < q ∧
    q < (receive cfg.windowSize l seq payload).expected + cfg.windowSize
  split_ifs at hkept with hdrained hseq
  · omega
  · have hold := h q (Dict.mem_keys.mpr ⟨p, hkept⟩)
    omega

/-- What has been delivered or buffered stays so, and so does a datagram in the
window or below it. -/
theorem has_receive {seq q : ℕ} {payload : Bytes}
    (hq : l.Has q ∨ q = seq ∧ q < l.expected + window) :
    (l.advance (receive window l seq payload)).Has q := by
  obtain ⟨hmoves, -, hleft, -⟩ := receive_eq window l seq payload
  by_cases hlt : q < (receive window l seq payload).expected
  · exact Or.inl hlt
  right
  have hstored : ∃ p, (store window l seq payload).get? q = some p := by
    rw [get?_store]
    rcases hq with (hdelivered | hbuffered) | ⟨rfl, hwindow⟩
    · omega
    · obtain ⟨p, hp⟩ := Dict.mem_keys.mp hbuffered
      split_ifs
      · exact ⟨payload, rfl⟩
      · exact ⟨p, hp⟩
    · exact ⟨payload, if_pos ⟨rfl, by omega, hwindow⟩⟩
  obtain ⟨p, hp⟩ := hstored
  refine Dict.mem_keys.mpr ⟨p, ?_⟩
  exact (hleft q).trans ((if_neg fun hin => hlt hin.2).trans hp)

/-- Payloads that belong to their numbers are delivered and buffered as such. -/
theorem receive_agrees (window seq : ℕ) {data : ℕ → Bytes}
    (hbuffer : ∀ q p, l.buffer.get? q = some p → p = data q) :
    let r := receive window l seq (data seq)
    r.payloads =
        (List.range' l.expected (r.expected - l.expected)).map data ∧
      ∀ q p, r.buffer.get? q = some p → p = data q := by
  intro r
  obtain ⟨-, htaken, hleft, -⟩ := receive_eq window l seq (data seq)
  have hstore : ∀ q p, (store window l seq (data seq)).get? q = some p →
      p = data q := by
    intro q p hp
    rw [get?_store] at hp
    split_ifs at hp with hseq
    · rw [Option.some.injEq] at hp
      rw [← hp, hseq.1]
    · exact hbuffer q p hp
  constructor
  · apply List.map_injective_iff.mpr (Option.some_injective Bytes)
    refine htaken.trans ?_
    rw [List.map_map]
    refine List.map_congr_left fun q hq => ?_
    have hmem : (store window l seq (data seq)).get? q ∈
        r.payloads.map some := by
      rw [htaken]
      exact List.mem_map_of_mem hq
    obtain ⟨p, -, hp⟩ := List.mem_map.mp hmem
    rw [← hp, Function.comp_apply, hstore q p hp.symm]
  · intro q p hp
    rw [hleft] at hp
    split_ifs at hp
    exact hstore q p hp

/-- In every reachable state the buffered datagrams lie ahead. -/
theorem ahead_run (cfg : Config) (es : List Event) (addr : Address) :
    ((run (step cfg) init es).lane addr).Ahead cfg.windowSize := by
  have h : ∀ b, ((run (step cfg) init es).lane b).WellFormed ∧
      ((run (step cfg) init es).lane b).Ahead cfg.windowSize := by
    refine run_invariant
      (fun s : SelectiveRepeatTransport => ∀ b, (s.lane b).WellFormed ∧
        (s.lane b).Ahead cfg.windowSize) ?_ ?_ es
    · intro s e hs b
      have hstep : Lane.Step cfg (discipline cfg) (PeerFails cfg s b) (s.lane b)
          e ((step cfg s e).lane b) := step_refines (fun b => (hs b).1) e b
      exact ⟨(hs b).1.step hstep,
        (hs b).2.step (ahead_receive (hs b).2) hstep⟩
    · intro b
      exact ⟨Lane.wellFormed_fresh b, fun q hq => by cases hq⟩
  exact (h addr).2

end SelectiveRepeatTransport

end UdpArq
