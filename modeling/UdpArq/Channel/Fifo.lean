import UdpArq.Channel.Fate
import Mathlib.Data.List.TakeWhile

/-!
# A channel without jitter and reordering is a queue

With `jitter = 0` and `reorder = 0` the delivery times are the clock readings,
all moved by the same delay.  On a clock that never runs backwards each packet
then joins the heap behind all others, and the channel hands over the copies of
the accepted packets in the order of their calls.
-/

namespace UdpArq

namespace Channel

variable {p : Impairments} {rng : ℕ → Draw} {c : Channel}

/-! ## Entries that join at the end -/

theorem heappush_last {e : Entry} {heap : List Entry}
    (h : ∀ e' ∈ heap, e'.Precedes e) : heappush e heap = heap ++ [e] := by
  have hnot : ∀ e' ∈ heap, ¬ e.Upto e' := fun e' he' hupto => hupto (h e' he')
  rw [heappush, List.orderedInsert_eq_take_drop,
    List.takeWhile_eq_self_iff.mpr (by simpa using hnot),
    List.dropWhile_eq_nil_iff.mpr (by simpa using hnot)]

/-- An entry that is at least as late as all others becomes the last one. -/
theorem heap_push_last (hnumbered : ∀ e ∈ c.heap, e.tiebreak < c.tiebreak)
    {at_ : ℚ} (hlate : ∀ e ∈ c.heap, e.deliverAt ≤ at_) (data : Bytes)
    (addr : Address) :
    (c.push at_ data addr).heap = c.heap ++ [⟨at_, c.tiebreak, data, addr⟩] := by
  apply heappush_last
  intro e he
  rcases (hlate e he).lt_or_eq with hlt | heq
  · exact Or.inl hlt
  · exact Or.inr ⟨heq, hnumbered e he⟩

/-- The copies of a packet that is at least as late as all others are put at the
end. -/
theorem heap_impair_last (hnumbered : ∀ e ∈ c.heap, e.tiebreak < c.tiebreak)
    (p : Impairments) (data : Bytes) (addr : Address) (d : Draws) (now : ℚ)
    (hlate : ∀ e ∈ c.heap, e.deliverAt ≤ deliverAt p d now) :
    ∃ new, (impair p c data addr d now).heap = c.heap ++ new ∧
      new.map Entry.packet = Accepted.copies p ⟨data, addr, d, now⟩ ∧
      ∀ e ∈ new, e.deliverAt = deliverAt p d now := by
  rw [copies_eq_decided]
  unfold impair decided
  by_cases hlost : d.loss < p.loss
  · rw [if_pos hlost]
    exact ⟨[], (List.append_nil _).symm, (if_pos hlost).symm, by simp⟩
  · simp only [if_neg hlost]
    set packet := corruptData p.corruption d.corruption data
    have hone := heap_push_last hnumbered hlate packet addr
    by_cases htwice : d.duplication < p.duplication
    · rw [if_pos htwice, if_pos htwice]
      have hnumbered' : ∀ e ∈ (c.push (deliverAt p d now) packet addr).heap,
          e.tiebreak < c.tiebreak + 1 := by
        intro e he
        rw [hone, List.mem_append] at he
        rcases he with hold | hnew
        · exact Nat.lt_succ_of_lt (hnumbered e hold)
        · rw [List.mem_singleton.mp hnew]
          exact Nat.lt_succ_self _
      have hlate' : ∀ e ∈ (c.push (deliverAt p d now) packet addr).heap,
          e.deliverAt ≤ deliverAt p d now := by
        intro e he
        rw [hone, List.mem_append] at he
        rcases he with hold | hnew
        · exact hlate e hold
        · rw [List.mem_singleton.mp hnew]
      have htwo := heap_push_last hnumbered' hlate' packet addr
      rw [hone, List.append_assoc] at htwo
      exact ⟨_, htwo, rfl, by simp⟩
    · rw [if_neg htwice, if_neg htwice]
      exact ⟨_, hone, rfl, by simp⟩

/-! ## The queue -/

/-- The clock reading of a step. -/
def Event.reading : Event → Option ℚ
  | .sendto _ _ now => some now
  | .wake now _ => some now
  | .close => none
  | .join => none

/-- After the clock readings `readings`, what has been handed over and what is on
the heap are the copies of the accepted packets, in the order of their calls. -/
structure Queued (p : Impairments) (readings : List ℚ) (c : Channel) :
    Prop where
  packets : c.handed ++ c.scheduled = c.accepted.flatMap (Accepted.copies p)
  early : ∀ e ∈ c.heap, ∃ r ∈ readings, e.deliverAt = r + p.delay

theorem queued_init (p : Impairments) : Queued p [] init :=
  ⟨rfl, fun _ he => absurd he List.not_mem_nil⟩

theorem deliverAt_of_steady (hjitter : p.jitter = 0) (hreorder : p.reorder = 0)
    (d : Draws) (now : ℚ) : deliverAt p d now = now + p.delay := by
  have hdelay : now ≤ now + p.delay := le_add_of_nonneg_right p.isValid.delay
  simp [deliverAt, offset, hjitter, hreorder, hdelay]

/-- A packet that is accepted at the latest reading. -/
theorem Queued.impair {readings : List ℚ} (h : Queued p readings c)
    (hnumbered : c.Numbered) (hjitter : p.jitter = 0) (hreorder : p.reorder = 0)
    (data : Bytes) (addr : Address) (d : Draws) {now : ℚ}
    (hnow : ∀ r ∈ readings, r ≤ now) :
    Queued p (readings ++ [now])
      (impair p (c.intake data addr d now) data addr d now) := by
  have hat := deliverAt_of_steady hjitter hreorder d now
  have hlate : ∀ e ∈ (c.intake data addr d now).heap,
      e.deliverAt ≤ deliverAt p d now := by
    intro e he
    obtain ⟨r, hr, heq⟩ := h.early e he
    rw [heq, hat]
    exact add_le_add_left (hnow r hr) _
  obtain ⟨new, hheap, hnew, hdue⟩ := heap_impair_last (c := c.intake data addr d
    now) (fun _ he => hnumbered.tiebreak_lt he) p data addr d now hlate
  have hbooks := (schedules_impair p (c.intake data addr d now) data addr d
    now).books
  refine ⟨?_, fun e he => ?_⟩
  · rw [handed, scheduled, hbooks.popped, hbooks.accepted, hheap, List.map_append,
      hnew, ← List.append_assoc]
    change c.handed ++ c.scheduled ++ _ = (c.accepted ++ [_]).flatMap _
    rw [h.packets, List.flatMap_append, List.flatMap_singleton]
  · rw [hheap, List.mem_append] at he
    rcases he with hold | hnew
    · obtain ⟨r, hr, heq⟩ := h.early e hold
      exact ⟨r, List.mem_append_left _ hr, heq⟩
    · exact ⟨now, List.mem_append_right _ (List.mem_singleton_self now),
        (hdue e hnew).trans hat⟩

/-- An entry that is taken off the heap moves to the end of those handed
over. -/
theorem Queued.idle {readings : List ℚ} (h : Queued p readings c)
    {c' : Channel} (hidle : Idle c c') (more : List ℚ) :
    Queued p (readings ++ more) c' := by
  have hearly : ∀ e ∈ c.heap, ∃ r ∈ readings ++ more,
      e.deliverAt = r + p.delay := by
    intro e he
    obtain ⟨r, hr, heq⟩ := h.early e he
    exact ⟨r, List.mem_append_left _ hr, heq⟩
  rcases hidle.packets with
    ⟨hheap, hpopped⟩ | ⟨x, rest, hheap, hrest, hpopped⟩
  · refine ⟨?_, fun e he => hearly e (hheap ▸ he)⟩
    rw [handed, scheduled, hheap, hpopped, hidle.accepted]
    exact h.packets
  · refine ⟨?_, fun e he => hearly e ?_⟩
    · have hpackets := h.packets
      rw [scheduled, hheap, List.map_cons] at hpackets
      rw [handed, scheduled, hrest, hpopped, hidle.accepted, ← hpackets]
      simp [handed]
    · rw [hheap, ← hrest]
      exact List.mem_cons_of_mem _ he

theorem Queued.step {readings : List ℚ} (h : Queued p readings c)
    (hnumbered : c.Numbered) (hjitter : p.jitter = 0) (hreorder : p.reorder = 0)
    (rng : ℕ → Draw) (e : Event)
    (hclock : ∀ r ∈ readings, ∀ r' ∈ e.reading, r ≤ r') :
    Queued p (readings ++ e.reading.toList) (step p rng c e) := by
  cases hcall : e.call with
  | none => exact h.idle (idle_step hcall p rng c) _
  | some call =>
      obtain ⟨now, rfl⟩ := Event.exists_of_call hcall
      rcases sendto_cases p rng c call.argument call.addr now with
        hsame | ⟨-, data, -, hstep⟩
      · rw [hsame]
        exact h.idle (Idle.refl c) _
      · rw [hstep]
        exact h.impair hnumbered hjitter hreorder data call.addr _
          fun r hr => hclock r hr now rfl

theorem queued_run (hjitter : p.jitter = 0) (hreorder : p.reorder = 0)
    (rng : ℕ → Draw) {es : List Event}
    (hclock : (es.filterMap Event.reading).Pairwise (· ≤ ·)) :
    Queued p (es.filterMap Event.reading) (run (step p rng) init es) := by
  induction es using List.reverseRecOn with
  | nil => exact queued_init p
  | append_singleton es e ih =>
      rw [List.filterMap_append, List.pairwise_append] at hclock
      obtain ⟨hbefore, -, hafter⟩ := hclock
      rw [run_concat, List.filterMap_append]
      have hnumbered := (balanced_run p rng es).numbered
      have hstep := (ih hbefore).step hnumbered hjitter hreorder rng e
        fun r hr r' hr' => hafter r hr r' (by simpa using hr')
      cases hreading : e.reading <;> simpa [hreading] using hstep

/-- The call that was accepted. -/
def Accepted.call (x : Accepted) : Call := ⟨.bytesLike x.data, x.addr⟩

theorem accepted_step (p : Impairments) (rng : ℕ → Draw) (c : Channel)
    (e : Event) : (step p rng c e).accepted = c.accepted ∨
      ∃ x, (step p rng c e).accepted = c.accepted ++ [x] ∧
        e.call = some x.call := by
  cases hcall : e.call with
  | none => exact Or.inl (idle_step hcall p rng c).accepted
  | some call =>
      obtain ⟨now, rfl⟩ := Event.exists_of_call hcall
      rcases sendto_cases p rng c call.argument call.addr now with
        hsame | ⟨-, data, hargument, hstep⟩
      · exact Or.inl (congrArg accepted hsame)
      · have hbooks := (schedules_impair p (c.intake data call.addr
          (nextDraws rng c.drawn) now) data call.addr (nextDraws rng c.drawn)
          now).books
        have hcalled : call = ⟨.bytesLike data, call.addr⟩ := by rw [← hargument]
        rw [hstep, hcalled]
        exact Or.inr ⟨_, hbooks.accepted, rfl⟩

/-- The packets are accepted in the order of their calls. -/
theorem accepted_sublist (p : Impairments) (rng : ℕ → Draw) (es : List Event) :
    ((run (step p rng) init es).accepted.map Accepted.call).Sublist
      (es.filterMap Event.call) := by
  induction es using List.reverseRecOn with
  | nil => exact List.Sublist.refl _
  | append_singleton es e ih =>
      rw [run_concat, List.filterMap_append]
      rcases accepted_step p rng (run (step p rng) init es) e with
        hsame | ⟨x, hnew, hcall⟩
      · rw [hsame]
        exact ih.trans (List.sublist_append_left _ _)
      · rw [hnew, List.map_append, List.filterMap_cons_some hcall]
        exact ih.append (List.Sublist.refl _)

end Channel

open Channel in
/-- Without jitter and reordering a channel is a queue: on a clock that does not
run backwards, what it has handed over and what still waits on its heap are the
copies of the accepted packets, in the order of their calls. -/
theorem channel_fifo (p : Impairments) (rng : ℕ → Draw)
    (es : List Channel.Event) (hjitter : p.jitter = 0) (hreorder : p.reorder = 0)
    (hclock : (es.filterMap Event.reading).Pairwise (· ≤ ·)) :
    let c := run (Channel.step p rng) Channel.init es
    c.handed ++ c.scheduled = c.accepted.flatMap (Accepted.copies p) ∧
      (c.accepted.map Accepted.call).Sublist (es.filterMap Event.call) :=
  ⟨(queued_run hjitter hreorder rng hclock).packets, accepted_sublist p rng es⟩

open Channel in
/-- A duplicated packet and a lost one, the second call made while the first
packet waits, at the same clock reading. -/
theorem channel_fifo_duplicated :
    let p : Impairments :=
      ⟨{ loss := 1 / 4, delay := 1, duplication := 1 / 2 }, by decide +kernel⟩
    let rng : ℕ → Draw := fun n =>
      if n = 5 then Draw.sixteenths 2
      else Draw.sixteenths 6
    let c := run (Channel.step p rng) Channel.init
      [.sendto (.bytesLike [1]) ("b", 2) 0, .sendto (.bytesLike [2]) ("b", 2) 0,
        .wake 1 false, .sendto (.bytesLike [3]) ("b", 2) 1, .wake 1 true]
    c.handed ++ c.scheduled = c.accepted.flatMap (Accepted.copies p) ∧
      c.handed = [([1], ("b", 2)), ([1], ("b", 2))] ∧
      c.scheduled = [([3], ("b", 2)), ([3], ("b", 2))] := by
  intro p rng c
  refine ⟨(channel_fifo p rng _ rfl rfl ?_).1, ?_⟩
  · decide +kernel
  · decide +kernel

end UdpArq
