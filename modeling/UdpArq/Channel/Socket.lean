import UdpArq.Channel.Fifo

/-!
# Channels in use

What a real socket has taken from the delivery thread of a channel, in any state
that calls of `sendto`, wake-ups and `close` lead to.
-/

namespace UdpArq

namespace Channel

/-- The settings of a channel and the draws of its generator. -/
structure Emulator where
  impairments : Impairments
  draws : ℕ → Draw

/-- The state of a channel that has been in use. -/
def Reachable (p : Emulator) (c : Channel) : Prop :=
  ∃ es, c = run (step p.impairments p.draws) init es

/-- What the real socket has taken. -/
def onWire (c : Channel) : List (Bytes × Address) :=
  (c.popped.filter fun x => ¬ x.raised).map fun x => x.entry.packet

/-- The calls of `sendto` for the packets, with their clock readings. -/
def calls (packets : List (Bytes × Address)) (nows : ℕ → ℚ) :
    List Channel.Event :=
  packets.mapIdx fun i x => .sendto (.bytesLike x.1) x.2 (nows i)

variable {p : Emulator} {c : Channel}

theorem Reachable.run (h : Reachable p c) (es : List Event) :
    Reachable p (run (step p.impairments p.draws) c es) := by
  obtain ⟨before, rfl⟩ := h
  exact ⟨before ++ es, (run_append _ _ _).symm⟩

/-- What the real socket has taken is a copy of an accepted packet with at most
one bit flipped. -/
theorem Reachable.mem_onWire (h : Reachable p c) {packet : Bytes × Address}
    (hpacket : packet ∈ c.onWire) :
    ∃ x ∈ c.accepted, ∃ flip, packet = (corrupt x.data flip, x.addr) := by
  obtain ⟨es, rfl⟩ := h
  apply mem_accepted_of_handed
  obtain ⟨x, hx, rfl⟩ := List.mem_map.mp hpacket
  exact List.mem_map.mpr ⟨x, List.mem_of_mem_filter hx, rfl⟩

/-- The calls accept only their own packets. -/
theorem mem_accepted_calls (p : Emulator) (c : Channel)
    (packets : List (Bytes × Address)) (nows : ℕ → ℚ) {x : Accepted}
    (hx : x ∈ (run (step p.impairments p.draws) c
      (calls packets nows)).accepted) :
    x ∈ c.accepted ∨ (x.data, x.addr) ∈ packets := by
  have hcalls : ∀ e ∈ calls packets nows, ∀ call, e.call = some call →
      ∃ packet ∈ packets, call = ⟨.bytesLike packet.1, packet.2⟩ := by
    intro e he call hcall
    obtain ⟨i, hi, rfl⟩ := List.mem_mapIdx.mp he
    cases hcall
    exact ⟨packets[i], List.getElem_mem hi, rfl⟩
  generalize calls packets nows = es at hx hcalls
  induction es generalizing c with
  | nil => exact Or.inl hx
  | cons e es ih =>
      rcases ih _ hx fun e' he' => hcalls e' (List.mem_cons_of_mem _ he') with
        hold | hnew
      · rcases accepted_step p.impairments p.draws c e with hsame | ⟨y, hy, hcall⟩
        · rw [hsame] at hold
          exact Or.inl hold
        · rw [hy] at hold
          rcases List.mem_append.mp hold with hold | hlast
          · exact Or.inl hold
          · obtain rfl := List.mem_singleton.mp hlast
            obtain ⟨packet, hpacket, heq⟩ :=
              hcalls e List.mem_cons_self _ hcall
            right
            simp only [Accepted.call, Call.mk.injEq, Argument.bytesLike.injEq]
              at heq
            rwa [heq.1, heq.2]
      · exact Or.inr hnew

theorem closed_step (p : Emulator) (hclosed : c.closed = true) (e : Event) :
    (step p.impairments p.draws c e).closed = true := by
  rcases hcall : e.call with _ | call
  · exact (idle_step hcall p.impairments p.draws c).closed hclosed
  · obtain ⟨now, rfl⟩ := Event.exists_of_call hcall
    rcases sendto_cases p.impairments p.draws c call.argument call.addr now with
      hsame | ⟨hopen, -⟩
    · rwa [hsame]
    · rw [hclosed] at hopen
      cases hopen

/-- The calls that have been accepted are counted. -/
theorem sent_step (p : Emulator) (h : c.sent = c.accepted.length) (e : Event) :
    (step p.impairments p.draws c e).sent =
      (step p.impairments p.draws c e).accepted.length := by
  cases e with
  | sendto argument addr now =>
      rcases sendto_cases p.impairments p.draws c argument addr now with
        hsame | ⟨-, data, -, hstep⟩
      · rwa [hsame]
      · have hbooks := (schedules_impair p.impairments (c.intake data addr
          (nextDraws p.draws c.drawn) now) data addr (nextDraws p.draws c.drawn)
          now).books
        rw [hstep, hbooks.sent, hbooks.accepted]
        change c.sent + 1 = (c.accepted ++ [_]).length
        rw [h, List.length_append, List.length_singleton]
  | wake now raised =>
      rcases wake_cases p.impairments p.draws c now raised with
        hsame | ⟨-, -, hstep⟩ | ⟨entry, rest, -, -, hstep⟩
      · rwa [hsame]
      · rwa [hstep]
      · rwa [hstep]
  | close =>
      rcases close_cases p.impairments p.draws c with hsame | ⟨-, hstep⟩
      · rwa [hsame]
      · rwa [hstep]
  | join =>
      rcases join_cases p.impairments p.draws c with hsame | ⟨-, hstep⟩
      · rwa [hsame]
      · rwa [hstep]

end Channel

end UdpArq
