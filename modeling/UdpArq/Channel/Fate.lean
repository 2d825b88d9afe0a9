import UdpArq.Channel.Conservation

/-!
# The fate of a call

What a call of `sendto` does to its packet can be read off the channel: it
raises, it counts the packet as dropped, or it puts copies on the heap under new
tie-breaks.  In every reachable state this is decided by the five draws of the
call and the probabilities alone, and not by the clock, by the other parameters
or by what else is on the heap.
-/

namespace UdpArq

namespace Channel

variable {p : Impairments} {rng : ℕ → Draw} {c : Channel}

/-! ## Calls and their fates -/

/-- A call of `sendto`, without its clock reading. -/
structure Call where
  argument : Argument
  addr : Address

/-- The call of `sendto` that a step is. -/
def Event.call : Event → Option Call
  | .sendto argument addr _ => some ⟨argument, addr⟩
  | .wake _ _ => none
  | .close => none
  | .join => none

theorem Event.exists_of_call {e : Event} {call : Call} (h : e.call = some call) :
    ∃ now, e = .sendto call.argument call.addr now := by
  cases e with
  | sendto argument addr now =>
      cases h
      exact ⟨now, rfl⟩
  | wake now raised => cases h
  | close => cases h
  | join => cases h

/-- What a step other than a call leaves alone: it draws and accepts nothing,
opens no channel, and at most takes the first entry off the heap. -/
structure Idle (c c' : Channel) : Prop where
  drawn : c'.drawn = c.drawn
  closed : c.closed = true → c'.closed = true
  accepted : c'.accepted = c.accepted
  packets : (c'.heap = c.heap ∧ c'.popped = c.popped) ∨
    ∃ x rest, c.heap = x.entry :: rest ∧ c'.heap = rest ∧
      c'.popped = c.popped ++ [x]

theorem Idle.refl (c : Channel) : Idle c c :=
  ⟨rfl, id, rfl, Or.inl ⟨rfl, rfl⟩⟩

theorem idle_step {e : Event} (h : e.call = none) (p : Impairments)
    (rng : ℕ → Draw) (c : Channel) : Idle c (step p rng c e) := by
  cases e with
  | sendto argument addr now => cases h
  | wake now raised =>
      rcases wake_cases p rng c now raised with
        hsame | ⟨-, -, hstep⟩ | ⟨entry, rest, hheap, -, hstep⟩
      · rw [hsame]
        exact Idle.refl c
      · rw [hstep]
        exact ⟨rfl, id, rfl, Or.inl ⟨rfl, rfl⟩⟩
      · rw [hstep]
        exact ⟨rfl, id, rfl, Or.inr ⟨⟨entry, now, raised⟩, rest, hheap, rfl, rfl⟩⟩
  | close =>
      rcases close_cases p rng c with hsame | ⟨-, hstep⟩
      · rw [hsame]
        exact Idle.refl c
      · rw [hstep]
        exact ⟨rfl, fun _ => rfl, rfl, Or.inl ⟨rfl, rfl⟩⟩
  | join =>
      rcases join_cases p rng c with hsame | ⟨-, hstep⟩
      · rw [hsame]
        exact Idle.refl c
      · rw [hstep]
        exact ⟨rfl, id, rfl, Or.inl ⟨rfl, rfl⟩⟩

/-- The fate of the packet of an accepted call. -/
structure Fate where
  dropped : Bool
  copies : List (Bytes × Address)
  deriving DecidableEq

/-- What is on the heap under the tie-breaks from `n` on. -/
def fresh (n : ℕ) (c : Channel) : List (Bytes × Address) :=
  (c.heap.filter fun e => n ≤ e.tiebreak).map Entry.packet

/-- The fate of a packet as the channel shows it before and after the call:
whether `dropped` was counted up, and what was put on the heap. -/
def fate (c c' : Channel) : Fate where
  dropped := c.dropped < c'.dropped
  copies := fresh c.tiebreak c'

/-- What a step shows: for a call of `sendto`, the exception that it raises or
the fate of its packet. -/
def shown (p : Impairments) (rng : ℕ → Draw) (c : Channel) :
    Event → Option (Except SendError Fate)
  | .sendto argument addr now =>
      some ((c.sendto p rng argument addr now).map (fate c))
  | .wake _ _ => none
  | .close => none
  | .join => none

theorem shown_eq_none {e : Event} (h : e.call = none) (p : Impairments)
    (rng : ℕ → Draw) (c : Channel) : shown p rng c e = none := by
  cases e with
  | sendto argument addr now => cases h
  | wake now raised => rfl
  | close => rfl
  | join => rfl

/-- The exceptions and fates of the calls in a run of a fresh channel. -/
def fates (p : Impairments) (rng : ℕ → Draw) (es : List Event) :
    List (Except SendError Fate) :=
  observed (shown p rng) (step p rng) init es

/-! ## What decides a fate -/

/-- The fate that the draws decide. -/
def decided (p : Impairments) (data : Bytes) (addr : Address) (d : Draws) :
    Fate where
  dropped := d.loss < p.loss
  copies :=
    let packet := (corruptData p.corruption d.corruption data, addr)
    if d.loss < p.loss then []
    else if d.duplication < p.duplication then [packet, packet]
    else [packet]

theorem copies_eq_decided (p : Impairments) (x : Accepted) :
    x.copies p = (decided p x.data x.addr x.draws).copies := rfl

theorem decided_copies_ne_nil {d : Draws} (hkept : p.loss ≤ d.loss)
    (data : Bytes) (addr : Address) : (decided p data addr d).copies ≠ [] := by
  simp only [decided, if_neg (not_lt.mpr hkept)]
  split_ifs <;> simp

theorem mem_decided_copies {d : Draws} (hkept : p.loss ≤ d.loss) {data : Bytes}
    {addr : Address} {packet : Bytes × Address} :
    packet ∈ (decided p data addr d).copies ↔
      packet = (corruptData p.corruption d.corruption data, addr) := by
  simp only [decided, if_neg (not_lt.mpr hkept)]
  split_ifs <;> simp

theorem Numbered.fresh_eq_nil (h : c.Numbered) : fresh c.tiebreak c = [] := by
  rw [fresh, List.filter_eq_nil_iff.mpr, List.map_nil]
  intro e he
  simpa using h.tiebreak_lt he

theorem fresh_push {n : ℕ} (hn : n ≤ c.tiebreak) (at_ : ℚ) (data : Bytes)
    (addr : Address) :
    (fresh n (c.push at_ data addr)).Perm ((data, addr) :: fresh n c) := by
  have hheap : (c.push at_ data addr).heap.Perm
      (⟨at_, c.tiebreak, data, addr⟩ :: c.heap) :=
    List.perm_orderedInsert Entry.Upto _ c.heap
  have hfilter := (hheap.filter fun e => n ≤ e.tiebreak).map Entry.packet
  rwa [List.filter_cons_of_pos (by simpa using hn), List.map_cons] at hfilter

/-- The packet of an accepted call meets the fate that its draws decide. -/
theorem fate_impair (h : fresh c.tiebreak c = []) (p : Impairments)
    (data : Bytes) (addr : Address) (d : Draws) (now : ℚ) :
    fate c (impair p c data addr d now) = decided p data addr d := by
  unfold impair decided
  by_cases hlost : d.loss < p.loss
  · rw [if_pos hlost, if_pos hlost]
    exact congrArg₂ Fate.mk (by simp [hlost]) h
  · rw [if_neg hlost, if_neg hlost]
    set packet := corruptData p.corruption d.corruption data
    have hkept : decide (c.dropped < c.dropped) = decide (d.loss < p.loss) := by
      simp [hlost]
    have hone : (fresh c.tiebreak (c.push (deliverAt p d now) packet addr)).Perm
        [(packet, addr)] := by
      have hpush := fresh_push (c := c) le_rfl (deliverAt p d now) packet addr
      rwa [h] at hpush
    by_cases htwice : d.duplication < p.duplication
    · rw [if_pos htwice, if_pos htwice]
      have htwo : (fresh c.tiebreak ((c.push (deliverAt p d now) packet addr).push
          (deliverAt p d now) packet addr)).Perm
          (List.replicate 2 (packet, addr)) :=
        (fresh_push (Nat.le_succ c.tiebreak) _ _ _).trans (hone.cons _)
      exact congrArg₂ Fate.mk hkept (List.perm_replicate.mp htwo)
    · rw [if_neg htwice, if_neg htwice]
      exact congrArg₂ Fate.mk hkept (List.perm_singleton.mp hone)

/-- The exceptions of `sendto` that do not depend on the channel. -/
def Argument.check : Argument → Except SendError Bytes
  | .other typeName => .error (.notBytesLike typeName)
  | .bytesLike data =>
      if data.length > MAX_DATAGRAM then .error (.tooLarge data.length)
      else .ok data

/-- The number of draws that a call of an open channel takes. -/
def Argument.draws (argument : Argument) : ℕ :=
  if argument.check.isOk then 5 else 0

/-- A call of `sendto` checks its argument and the flag, and only then draws.
Each draw serves one decision on this packet. -/
theorem shown_sendto (h : c.Numbered) (p : Impairments) (rng : ℕ → Draw)
    (argument : Argument) (addr : Address) (now : ℚ) :
    (c.sendto p rng argument addr now).map (fate c) =
      argument.check.bind fun data =>
        if c.closed then .error .closed
        else .ok (decided p data addr (nextDraws rng c.drawn)) := by
  rcases argument with data | typeName
  · rw [sendto, Argument.check]
    by_cases hlarge : data.length > MAX_DATAGRAM
    · rw [if_pos hlarge, if_pos hlarge]
      rfl
    · rw [if_neg hlarge, if_neg hlarge]
      by_cases hclosed : c.closed
      · simp only [if_pos hclosed, Except.map, Except.bind]
      · let d := nextDraws rng c.drawn
        let c₀ := c.intake data addr d now
        have hnone : fresh c₀.tiebreak c₀ = [] := h.fresh_eq_nil
        simp only [if_neg hclosed, Except.map, Except.bind]
        exact congrArg Except.ok (fate_impair hnone p data addr d now)
  · rfl

/-- How many draws a call of an open channel takes depends on its argument
alone. -/
theorem step_sendto_drawn (p : Impairments) (rng : ℕ → Draw) (c : Channel)
    (argument : Argument) (addr : Address) (now : ℚ) :
    (step p rng c (.sendto argument addr now)).closed = c.closed ∧
      (c.closed = false → (step p rng c (.sendto argument addr now)).drawn =
        c.drawn + argument.draws) := by
  rcases argument with data | typeName
  · rw [step, sendto, Argument.draws, Argument.check]
    by_cases hlarge : data.length > MAX_DATAGRAM
    · rw [if_pos hlarge, if_pos hlarge]
      exact ⟨rfl, fun _ => rfl⟩
    · rw [if_neg hlarge, if_neg hlarge]
      by_cases hclosed : c.closed
      · rw [if_pos hclosed]
        exact ⟨rfl, fun hopen => absurd hclosed (by simp [hopen])⟩
      · have hbooks := (schedules_impair p (c.intake data addr
          (nextDraws rng c.drawn) now) data addr (nextDraws rng c.drawn)
          now).books
        rw [if_neg hclosed]
        exact ⟨hbooks.closed, fun _ => hbooks.drawn⟩
  · exact ⟨rfl, fun _ => rfl⟩

theorem sendto_accepted (h : c.Numbered) (hopen : c.closed = false)
    {data : Bytes} (hsize : data.length ≤ MAX_DATAGRAM) (p : Impairments)
    (rng : ℕ → Draw) (addr : Address) (now : ℚ) :
    (c.sendto p rng (.bytesLike data) addr now).map (fate c) =
      .ok (decided p data addr (nextDraws rng c.drawn)) := by
  have hcheck : (Argument.bytesLike data).check = .ok data :=
    if_neg (not_lt.mpr hsize)
  rw [shown_sendto h, hcheck]
  exact if_neg (by simp [hopen])

end Channel

end UdpArq
