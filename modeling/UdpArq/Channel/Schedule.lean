import UdpArq.Channel.Fifo
import UdpArq.Lib.StableSort
import Mathlib.Data.List.Flatten
import Mathlib.Tactic.Linarith

/-!
# A channel sorts its packets by their delivery times

Nothing is taken off the heap before its time, and on a clock that never runs
backwards nothing that joins the heap later is due earlier.  What has been
handed over and what still waits are therefore the copies of the accepted
packets in the order of their delivery times, and of their calls where these
agree.  A packet is never held back longer than `delay + jitter + reorder`, and
never overtaken by one that was sent `2 * jitter + reorder` later.
-/

namespace UdpArq

namespace Channel

variable {p : Impairments} {rng : ℕ → Draw} {c : Channel} {readings : List ℚ}

/-! ## Delivery times -/

/-- The packet of an entry with its delivery time. -/
def Entry.timed (e : Entry) : ℚ × Bytes × Address := (e.deliverAt, e.packet)

def Accepted.deliverAt (p : Impairments) (x : Accepted) : ℚ :=
  Channel.deliverAt p x.draws x.now

/-- The copies of the packet with their delivery time. -/
def Accepted.timed (p : Impairments) (x : Accepted) :
    List (ℚ × Bytes × Address) :=
  (x.copies p).map fun packet => (x.deliverAt p, packet)

/-- What has been handed over and what still waits, with the delivery times. -/
def timeline (c : Channel) : List (ℚ × Bytes × Address) :=
  c.popped.map (fun x => x.entry.timed) ++ c.heap.map Entry.timed

theorem map_snd_timeline (c : Channel) :
    c.timeline.map Prod.snd = c.handed ++ c.scheduled := by
  simp [timeline, handed, scheduled, Entry.timed, Function.comp_def]

theorem Accepted.map_snd_timed (p : Impairments) (x : Accepted) :
    (x.timed p).map Prod.snd = x.copies p := by
  simp [Accepted.timed, Function.comp_def]

theorem offset_le (p : Impairments) (d : Draws) :
    -p.jitter ≤ offset p d ∧ offset p d ≤ p.jitter := by
  have hjitter := p.isValid.jitter
  have hlow := mul_nonneg hjitter d.jitter.property.1
  have hhigh := mul_le_mul_of_nonneg_left d.jitter.property.2.le hjitter
  constructor
  · unfold offset
    linarith
  · unfold offset
    linarith

theorem hold_le (p : Impairments) (d : Draws) :
    0 ≤ (d.reorder : ℚ) * p.reorder ∧ (d.reorder : ℚ) * p.reorder ≤ p.reorder := by
  have hreorder := p.isValid.reorder.1
  constructor
  · exact mul_nonneg d.reorder.property.1 hreorder
  · exact mul_le_of_le_one_left hreorder d.reorder.property.2.le

theorem now_le_deliverAt (p : Impairments) (d : Draws) (now : ℚ) :
    now ≤ deliverAt p d now := le_max_left _ _

/-- A packet waits at least for `delay - jitter`. -/
theorem le_deliverAt (p : Impairments) (d : Draws) (now : ℚ) :
    now + p.delay - p.jitter ≤ deliverAt p d now := by
  apply le_max_of_le_right
  linarith [(offset_le p d).1, (hold_le p d).1]

/-- A packet waits at most for `delay + jitter + reorder`. -/
theorem deliverAt_le (p : Impairments) (d : Draws) (now : ℚ) :
    deliverAt p d now ≤ now + p.delay + p.jitter + p.reorder := by
  have hvalid := p.isValid
  apply max_le
  · linarith [hvalid.delay, hvalid.jitter, hvalid.reorder.1]
  · linarith [(offset_le p d).2, (hold_le p d).2]

/-! ## The timeline is sorted -/

theorem heappush_eq_insertLate {e : Entry} {heap : List Entry}
    (h : ∀ e' ∈ heap, e'.tiebreak < e.tiebreak) :
    heappush e heap = insertLate Entry.deliverAt e heap := by
  induction heap with
  | nil => rfl
  | cons e' heap ih =>
      have hlt := h e' List.mem_cons_self
      have hrest := ih fun x hx => h x (List.mem_cons_of_mem _ hx)
      unfold heappush at hrest ⊢
      rcases le_or_gt e'.deliverAt e.deliverAt with hle | hgt
      · have hnot : ¬ e.Upto e' := by
          rw [Entry.upto_iff]
          rintro (hlt' | ⟨-, hle'⟩)
          · exact absurd hle (not_le.mpr hlt')
          · exact absurd hlt (not_lt.mpr hle')
        rw [List.orderedInsert_of_not_le _ _ hnot, hrest,
          insertLate_cons_of_le hle]
      · have hupto : e.Upto e' := Entry.upto_iff.mpr (Or.inl hgt)
        rw [List.orderedInsert_cons_of_le _ _ hupto, insertLate_cons_of_lt hgt]

/-- An entry that is not due before what has been handed over goes to its place
in the timeline. -/
theorem timeline_push (hnumbered : ∀ e ∈ c.heap, e.tiebreak < c.tiebreak)
    {at_ : ℚ} (hpast : ∀ x ∈ c.popped, x.entry.deliverAt ≤ at_) (data : Bytes)
    (addr : Address) :
    (c.push at_ data addr).timeline =
      insertLate Prod.fst (at_, data, addr) c.timeline := by
  have hpopped : ∀ y ∈ c.popped.map (fun x => x.entry.timed), y.1 ≤ at_ := by
    intro y hy
    obtain ⟨x, hx, rfl⟩ := List.mem_map.mp hy
    exact hpast x hx
  have hheap : (c.push at_ data addr).heap =
      insertLate Entry.deliverAt ⟨at_, c.tiebreak, data, addr⟩ c.heap :=
    heappush_eq_insertLate hnumbered
  have hmap : (insertLate Entry.deliverAt ⟨at_, c.tiebreak, data, addr⟩
      c.heap).map Entry.timed =
        insertLate Prod.fst (at_, data, addr) (c.heap.map Entry.timed) :=
    map_insertLate Prod.fst Entry.timed _ _
  rw [timeline, hheap, hmap, timeline, insertLate_append hpopped]
  rfl

theorem timeline_impair (hnumbered : c.Numbered) (data : Bytes) (addr : Address)
    (d : Draws) (now : ℚ)
    (hpast : ∀ x ∈ c.popped, x.entry.deliverAt ≤ deliverAt p d now) :
    (impair p c data addr d now).timeline =
      (Accepted.timed p ⟨data, addr, d, now⟩).foldl
        (fun l x => insertLate Prod.fst x l) c.timeline := by
  rw [Accepted.timed, copies_eq_decided]
  unfold impair decided
  by_cases hlost : d.loss < p.loss
  · rw [if_pos hlost]
    simp [hlost, timeline]
  · simp only [if_neg hlost]
    set packet := corruptData p.corruption d.corruption data
    have hone := timeline_push (fun _ he => hnumbered.tiebreak_lt he) hpast
      packet addr
    by_cases htwice : d.duplication < p.duplication
    · have htwo := timeline_push (c := c.push (deliverAt p d now) packet addr)
        (fun _ he => (hnumbered.push _ _ _).tiebreak_lt he) hpast packet addr
      rw [if_pos htwice, if_pos htwice, htwo, hone]
      rfl
    · rw [if_neg htwice, if_neg htwice, hone]
      rfl

/-- After the clock readings `readings`, the timeline is sorted, and what has
been handed over was due. -/
structure Sorted (p : Impairments) (readings : List ℚ) (c : Channel) :
    Prop where
  timeline : c.timeline =
    stableSort Prod.fst (c.accepted.flatMap (Accepted.timed p))
  past : ∀ x ∈ c.popped, ∃ r ∈ readings, x.entry.deliverAt ≤ r

theorem sorted_init (p : Impairments) : Sorted p [] init :=
  ⟨rfl, fun _ hx => absurd hx List.not_mem_nil⟩

/-- Nothing is handed over or put on the heap. -/
theorem Sorted.same (h : Sorted p readings c) {c' : Channel}
    (hpopped : c'.popped = c.popped) (hheap : c'.heap = c.heap)
    (haccepted : c'.accepted = c.accepted) (more : List ℚ) :
    Sorted p (readings ++ more) c' where
  timeline := by
    rw [Channel.timeline, hpopped, hheap, haccepted]
    exact h.timeline
  past x hx := by
    obtain ⟨r, hr, hle⟩ := h.past x (hpopped ▸ hx)
    exact ⟨r, List.mem_append_left _ hr, hle⟩

theorem Sorted.impair (h : Sorted p readings c) (hnumbered : c.Numbered)
    (data : Bytes) (addr : Address) (d : Draws) {now : ℚ}
    (hnow : ∀ r ∈ readings, r ≤ now) :
    Sorted p (readings ++ [now])
      (impair p (c.intake data addr d now) data addr d now) := by
  have hbooks := (schedules_impair p (c.intake data addr d now) data addr d
    now).books
  have hpast : ∀ x ∈ c.popped, x.entry.deliverAt ≤ deliverAt p d now := by
    intro x hx
    obtain ⟨r, hr, hle⟩ := h.past x hx
    exact hle.trans ((hnow r hr).trans (now_le_deliverAt p d now))
  constructor
  · rw [timeline_impair (c := c.intake data addr d now) hnumbered data addr d
      now hpast, hbooks.accepted]
    change List.foldl _ c.timeline _ =
      stableSort Prod.fst ((c.accepted ++ [_]).flatMap _)
    rw [h.timeline, List.flatMap_append, List.flatMap_singleton,
      stableSort_append]
  · intro x hx
    rw [hbooks.popped] at hx
    obtain ⟨r, hr, hle⟩ := h.past x hx
    exact ⟨r, List.mem_append_left _ hr, hle⟩

theorem Sorted.pop (h : Sorted p readings c) {e : Entry} {rest : List Entry}
    (hheap : c.heap = e :: rest) {now : ℚ} (hdue : e.deliverAt ≤ now)
    (raised : Bool) (delivered : ℕ) :
    Sorted p (readings ++ [now])
      { c with
        heap := rest
        popped := c.popped ++ [⟨e, now, raised⟩]
        delivered := delivered } := by
  constructor
  · have htimeline := h.timeline
    rw [Channel.timeline, hheap, List.map_cons] at htimeline
    rw [Channel.timeline, ← htimeline]
    simp
  · intro x hx
    rcases List.mem_append.mp hx with hold | hnew
    · obtain ⟨r, hr, hle⟩ := h.past x hold
      exact ⟨r, List.mem_append_left _ hr, hle⟩
    · rw [List.mem_singleton.mp hnew]
      exact ⟨now, List.mem_append_right _ (List.mem_singleton_self now), hdue⟩

theorem Sorted.step (h : Sorted p readings c) (hnumbered : c.Numbered)
    (rng : ℕ → Draw) (e : Event)
    (hclock : ∀ r ∈ readings, ∀ r' ∈ e.reading, r ≤ r') :
    Sorted p (readings ++ e.reading.toList) (step p rng c e) := by
  cases e with
  | sendto argument addr now =>
      rcases sendto_cases p rng c argument addr now with
        hsame | ⟨-, data, -, hstep⟩
      · rw [hsame]
        apply h.same <;> rfl
      · rw [hstep]
        exact h.impair hnumbered data addr _ fun r hr => hclock r hr now rfl
  | wake now raised =>
      rcases wake_cases p rng c now raised with
        hsame | ⟨-, -, hstep⟩ | ⟨entry, rest, hheap, hdue, hstep⟩
      · rw [hsame]
        apply h.same <;> rfl
      · rw [hstep]
        apply h.same <;> rfl
      · rw [hstep]
        exact h.pop hheap hdue raised _
  | close =>
      rcases close_cases p rng c with hsame | ⟨-, hstep⟩
      · rw [hsame]
        apply h.same <;> rfl
      · rw [hstep]
        apply h.same <;> rfl
  | join =>
      rcases join_cases p rng c with hsame | ⟨-, hstep⟩
      · rw [hsame]
        apply h.same <;> rfl
      · rw [hstep]
        apply h.same <;> rfl

theorem sorted_run (p : Impairments) (rng : ℕ → Draw) {es : List Event}
    (hclock : (es.filterMap Event.reading).Pairwise (· ≤ ·)) :
    Sorted p (es.filterMap Event.reading) (run (Channel.step p rng) init es) := by
  induction es using List.reverseRecOn with
  | nil => exact sorted_init p
  | append_singleton es e ih =>
      rw [List.filterMap_append, List.pairwise_append] at hclock
      obtain ⟨hbefore, -, hafter⟩ := hclock
      rw [run_concat, List.filterMap_append]
      have hnumbered := (balanced_run p rng es).numbered
      have hstep := (ih hbefore).step hnumbered rng e
        fun r hr r' hr' => hafter r hr r' (by simpa using hr')
      cases hreading : e.reading <;> simpa [hreading] using hstep

/-! ## Overtaking -/

theorem Accepted.mem_timed {x : Accepted} {y : ℚ × Bytes × Address}
    (h : y ∈ x.timed p) : y.1 = x.deliverAt p := by
  obtain ⟨packet, -, rfl⟩ := List.mem_map.mp h
  rfl

/-- Packets that were sent far enough apart keep their order. -/
theorem Sorted.sublist (h : Sorted p readings c) {xs : List Accepted}
    (hsub : xs.Sublist c.accepted)
    (hapart : xs.Pairwise fun x y =>
      x.now + 2 * p.jitter + p.reorder ≤ y.now) :
    (xs.flatMap (Accepted.copies p)).Sublist (c.handed ++ c.scheduled) := by
  have hsorted : (xs.flatMap (Accepted.timed p)).Pairwise
      fun a b => a.1 ≤ b.1 := by
    rw [List.pairwise_flatMap]
    constructor
    · rintro x -
      apply List.pairwise_of_forall_mem_list
      intro a ha b hb
      rw [Accepted.mem_timed ha, Accepted.mem_timed hb]
    · apply hapart.imp
      intro x y hxy a ha b hb
      rw [Accepted.mem_timed ha, Accepted.mem_timed hb]
      have hle := deliverAt_le p x.draws x.now
      have hge := le_deliverAt p y.draws y.now
      unfold Accepted.deliverAt
      linarith
  have hflat : (xs.flatMap (Accepted.timed p)).Sublist
      (c.accepted.flatMap (Accepted.timed p)) := hsub.flatMap _
  have hkept := (sublist_stableSort hsorted hflat).map Prod.snd
  rw [← h.timeline, map_snd_timeline, List.map_flatMap] at hkept
  simpa only [Accepted.map_snd_timed] using hkept

/-! ## Closing -/

/-- The delivery thread looks at its heap, at `t` or later. -/
def Event.wakesFrom (t : ℚ) : Event → Bool
  | .wake now _ => t ≤ now
  | _ => false

/-- The delivery thread does not wait when everything is due. -/
theorem returned_of_wake_eq (hclosed : c.closed = true) {now : ℚ} {raised : Bool}
    (hdue : ∀ e ∈ c.heap, e.deliverAt ≤ now)
    (hsame : step p rng c (.wake now raised) = c) : c.workerReturned = true := by
  by_contra hreturned
  have hstep : step p rng c (.wake now raised) = c.deliver now raised :=
    if_neg hreturned
  rw [hstep, deliver] at hsame
  cases hheap : c.heap with
  | nil =>
      simp only [hheap, if_pos hclosed] at hsame
      exact hreturned (congrArg workerReturned hsame).symm
  | cons e rest =>
      have hnot : ¬ e.deliverAt - now > 0 :=
        not_lt.mpr (sub_nonpos.mpr (hdue e (hheap ▸ List.mem_cons_self)))
      simp only [hheap, if_neg hnot] at hsame
      have hrest := congrArg heap hsame
      rw [hheap] at hrest
      cases raised with
      | true => exact List.cons_ne_self e rest hrest.symm
      | false => exact List.cons_ne_self e rest hrest.symm

/-- A closed channel whose packets are all due at `t`, and whose delivery thread
returns when it has looked at its heap `n` times from then on. -/
structure Draining (t : ℚ) (n : ℕ) (c : Channel) : Prop where
  closed : c.closed = true
  due : ∀ e ∈ c.heap, e.deliverAt ≤ t
  count : c.workerReturned = true ∨ c.heap.length < n

theorem Draining.step {t : ℚ} {n : ℕ} {e : Event}
    (h : Draining t (if e.wakesFrom t then n + 1 else n) c) :
    Draining t n (step p rng c e) ∧
      (step p rng c e).accepted = c.accepted := by
  have hkeep : e.wakesFrom t = false → Draining t n c := by
    intro he
    rwa [he, if_neg Bool.false_ne_true] at h
  cases e with
  | sendto argument addr now =>
      rcases sendto_cases p rng c argument addr now with hsame | ⟨hopen, -⟩
      · rw [hsame]
        exact ⟨hkeep rfl, rfl⟩
      · rw [h.closed] at hopen
        cases hopen
  | close =>
      rcases close_cases p rng c with hsame | ⟨hopen, -⟩
      · rw [hsame]
        exact ⟨hkeep rfl, rfl⟩
      · rw [h.closed] at hopen
        cases hopen
  | join =>
      have hdraining := hkeep rfl
      rcases join_cases p rng c with hsame | ⟨-, hstep⟩
      · rw [hsame]
        exact ⟨hdraining, rfl⟩
      · rw [hstep]
        exact ⟨⟨h.closed, h.due, hdraining.count⟩, rfl⟩
  | wake now raised =>
      rcases wake_cases p rng c now raised with
        hsame | ⟨hempty, -, hstep⟩ | ⟨entry, rest, hheap, -, hstep⟩
      · rw [hsame]
        by_cases hlate : t ≤ now
        · have hreturned := returned_of_wake_eq h.closed
            (fun e he => (h.due e he).trans hlate) hsame
          exact ⟨⟨h.closed, h.due, Or.inl hreturned⟩, rfl⟩
        · exact ⟨hkeep (decide_eq_false hlate), rfl⟩
      · rw [hstep]
        exact ⟨⟨h.closed, h.due, Or.inl rfl⟩, rfl⟩
      · rw [hstep]
        refine ⟨⟨h.closed, fun e he => h.due e ?_, ?_⟩, rfl⟩
        · rw [hheap]
          exact List.mem_cons_of_mem _ he
        · apply h.count.imp_right
          intro hlt
          rw [hheap, List.length_cons] at hlt
          change rest.length < n
          split_ifs at hlt <;> omega

variable (p rng) in
theorem Draining.run {t : ℚ} {es : List Event}
    (h : Draining t (es.filter (Event.wakesFrom t)).length c) :
    Draining t 0 (run (Channel.step p rng) c es) ∧
      (UdpArq.run (Channel.step p rng) c es).accepted = c.accepted := by
  induction es generalizing c with
  | nil => exact ⟨h, rfl⟩
  | cons e es ih =>
      have hcount : (if e.wakesFrom t then (es.filter (Event.wakesFrom t)).length + 1
          else (es.filter (Event.wakesFrom t)).length) =
            ((e :: es).filter (Event.wakesFrom t)).length := by
        rw [List.filter_cons]
        split_ifs <;> simp
      rw [← hcount] at h
      obtain ⟨hstep, haccepted⟩ := h.step (p := p)
      obtain ⟨hdraining, hsame⟩ := ih hstep
      exact ⟨hdraining, hsame.trans haccepted⟩

/-- The call that set the flag is under way or has returned. -/
theorem closeCall_run (p : Impairments) (rng : ℕ → Draw) (es : List Event) :
    (run (Channel.step p rng) init es).closed = true →
      (run (Channel.step p rng) init es).closeCall ≠ .pending := by
  refine run_invariant (fun c : Channel => c.closed = true →
    c.closeCall ≠ .pending) ?_ (fun hclosed => by cases hclosed) es
  intro c e h
  cases e with
  | sendto argument addr now =>
      rcases sendto_cases p rng c argument addr now with
        hsame | ⟨-, data, -, hstep⟩
      · rwa [hsame]
      · have hbooks := (schedules_impair p (c.intake data addr (nextDraws rng
          c.drawn) now) data addr (nextDraws rng c.drawn) now).books
        rw [hstep, hbooks.closed, hbooks.closeCall]
        exact h
  | wake now raised =>
      rcases wake_cases p rng c now raised with
        hsame | ⟨-, -, hstep⟩ | ⟨entry, rest, -, -, hstep⟩
      · rwa [hsame]
      · rw [hstep]
        exact h
      · rw [hstep]
        exact h
  | close =>
      rcases close_cases p rng c with hsame | ⟨-, hstep⟩
      · rwa [hsame]
      · rw [hstep]
        exact fun _ => CloseCall.noConfusion
  | join =>
      rcases join_cases p rng c with hsame | ⟨-, hstep⟩
      · rwa [hsame]
      · rw [hstep]
        exact fun _ => CloseCall.noConfusion

/-- The join of a channel that has drained. -/
theorem closeCall_join (hdraining : ∃ t, Draining t 0 c)
    (hcall : c.closeCall ≠ .pending) :
    (step p rng c .join).closeCall = .returned := by
  obtain ⟨t, h⟩ := hdraining
  have hreturned : c.workerReturned = true :=
    h.count.resolve_right (Nat.not_lt_zero _)
  simp only [step, join]
  cases hclose : c.closeCall with
  | pending => exact absurd hclose hcall
  | joining => rw [if_pos ⟨rfl, hreturned⟩]
  | returned =>
      rw [if_neg fun hjoin => CloseCall.noConfusion hjoin.1]
      exact hclose

/-- On a clock that does not run backwards, everything on the heap was accepted
and is due in time. -/
theorem Sorted.due (h : Sorted p readings c) {latest : ℚ}
    (hlatest : ∀ x ∈ c.accepted, x.now ≤ latest) :
    ∀ e ∈ c.heap, e.deliverAt ≤ latest + p.delay + p.jitter + p.reorder := by
  intro e he
  have hmem : e.timed ∈ c.timeline :=
    List.mem_append_right _ (List.mem_map_of_mem he)
  rw [h.timeline, mem_stableSort] at hmem
  obtain ⟨x, hx, hcopy⟩ := List.mem_flatMap.mp hmem
  have hat : e.deliverAt = x.deliverAt p := Accepted.mem_timed hcopy
  have hle := deliverAt_le p x.draws x.now
  have hnow := hlatest x hx
  rw [hat]
  unfold Accepted.deliverAt
  linarith

end Channel

open Channel in
/-- A channel is a stable sort.  On a clock that does not run backwards, what it
has handed over and what still waits are the copies of the accepted packets,
ordered by delivery time and, among equal times, by the calls.  In particular
packets sent at least `2 * jitter + reorder` apart are never reordered. -/
theorem channel_sorts (p : Impairments) (rng : ℕ → Draw)
    (es : List Channel.Event)
    (hclock : (es.filterMap Event.reading).Pairwise (· ≤ ·)) :
    let c := run (Channel.step p rng) Channel.init es
    c.timeline = stableSort Prod.fst (c.accepted.flatMap (Accepted.timed p)) ∧
      ∀ xs : List Accepted, xs.Sublist c.accepted →
        (xs.Pairwise fun x y => x.now + 2 * p.jitter + p.reorder ≤ y.now) →
          (xs.flatMap (Accepted.copies p)).Sublist (c.handed ++ c.scheduled) := by
  have hsorted := sorted_run (p := p) rng hclock
  exact ⟨hsorted.timeline, fun xs hsub hapart => hsorted.sublist hsub hapart⟩

open Channel in
/-- Of three packets the second overtakes the first, and the third, which is
sent late enough, overtakes nobody. -/
theorem channel_sorts_overtaken :
    let p : Impairments :=
      ⟨{ delay := 1, jitter := 1 / 2, reorder := 1 }, by decide +kernel⟩
    let rng : ℕ → Draw := fun n =>
      if n < 5 then Draw.sixteenths 12
      else Draw.sixteenths 4
    let c := run (Channel.step p rng) Channel.init
      [.sendto (.bytesLike [1]) ("b", 2) 0, .sendto (.bytesLike [2]) ("b", 2) 0,
        .wake 1 false, .sendto (.bytesLike [3]) ("b", 2) 3, .wake 3 false]
    c.timeline = stableSort Prod.fst (c.accepted.flatMap (Accepted.timed p)) ∧
      c.handed = [([2], ("b", 2)), ([1], ("b", 2))] ∧
      c.scheduled = [([3], ("b", 2))] := by
  intro p rng c
  refine ⟨(channel_sorts p rng _ ?_).1, ?_⟩
  · decide +kernel
  · decide +kernel

open Channel in
/-- `close` returns.  After the call, once the delivery thread has looked at its
heap once more than there are packets on it, from `delay + jitter + reorder`
after the latest accepted packet on, the join returns, nothing having been
accepted meanwhile and every packet handed over in the order of the delivery
times. -/
theorem close_returns (p : Impairments) (rng : ℕ → Draw)
    (pre post : List Channel.Event) (latest : ℚ)
    (hclock : ((pre ++ post).filterMap Event.reading).Pairwise (· ≤ ·))
    (hclosed : (run (Channel.step p rng) Channel.init pre).closed = true)
    (hlatest : ∀ x ∈ (run (Channel.step p rng) Channel.init pre).accepted,
      x.now ≤ latest)
    (hwakes : (run (Channel.step p rng) Channel.init pre).heap.length <
      (post.filter (Event.wakesFrom
        (latest + p.delay + p.jitter + p.reorder))).length) :
    let c := run (Channel.step p rng) Channel.init pre
    let c' := run (Channel.step p rng) Channel.init (pre ++ post ++ [.join])
    c'.closeCall = .returned ∧ c'.accepted = c.accepted ∧
      c'.handed = (stableSort Prod.fst
        (c.accepted.flatMap (Accepted.timed p))).map Prod.snd := by
  intro c c'
  have hsorted := sorted_run (p := p) rng hclock
  have hdue := (sorted_run (p := p) rng (hclock.sublist
    ((List.sublist_append_left pre post).filterMap _))).due hlatest
  obtain ⟨hdrained, haccepted⟩ :=
    Draining.run p rng ⟨hclosed, hdue, Or.inr hwakes⟩
  rw [← run_append] at hdrained haccepted
  set drained := run (Channel.step p rng) Channel.init (pre ++ post) with hdef
  have hjoin : c' = Channel.step p rng drained .join := run_concat _ _ _
  have hbalanced : Balanced p drained := balanced_run p rng (pre ++ post)
  have hempty : drained.heap = [] :=
    (hbalanced.drained (hdrained.count.resolve_right (Nat.not_lt_zero _))).2
  have hhanded : drained.handed = (stableSort Prod.fst
      (c.accepted.flatMap (Accepted.timed p))).map Prod.snd := by
    have hall := congrArg (List.map Prod.snd) hsorted.timeline
    rw [map_snd_timeline, scheduled, hempty, List.map_nil, List.append_nil,
      haccepted] at hall
    exact hall
  have hsame := (idle_step (e := .join) rfl p rng drained).accepted
  have hpopped : (Channel.step p rng drained .join).handed = drained.handed := by
    rcases join_cases p rng drained with hsame | ⟨-, hstep⟩
    · rw [hsame]
    · rw [hstep]
      rfl
  rw [hjoin]
  exact ⟨closeCall_join ⟨_, hdrained⟩ (closeCall_run p rng _ hdrained.closed),
    hsame.trans haccepted, hpopped.trans hhanded⟩

open Channel in
/-- Two packets wait when the channel is closed, and leave in the order of their
delivery times. -/
theorem close_returns_two :
    let p : Impairments := ⟨{ delay := 1, reorder := 1 }, by decide +kernel⟩
    let rng : ℕ → Draw := fun n =>
      if n < 5 then Draw.sixteenths 14
      else Draw.sixteenths 0
    let c' := run (Channel.step p rng) Channel.init
      ([.sendto (.bytesLike [1]) ("b", 2) 0, .sendto (.bytesLike [2]) ("b", 2) 0,
          .close] ++
        [.wake 1 false, .wake 2 false, .wake 2 true, .wake 3 false] ++ [.join])
    c'.closeCall = .returned ∧
      c'.handed = [([2], ("b", 2)), ([1], ("b", 2))] := by
  intro p rng c'
  obtain ⟨hreturned, -, hhanded⟩ := close_returns p rng
    [.sendto (.bytesLike [1]) ("b", 2) 0, .sendto (.bytesLike [2]) ("b", 2) 0,
      .close] [.wake 1 false, .wake 2 false, .wake 2 true, .wake 3 false] 0
    (by decide +kernel) (by decide +kernel) (by decide +kernel)
    (by decide +kernel)
  refine ⟨hreturned, hhanded.trans ?_⟩
  decide +kernel

end UdpArq
