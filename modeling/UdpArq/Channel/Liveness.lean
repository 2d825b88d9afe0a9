import UdpArq.Channel.Schedule
import UdpArq.Channel.Socket
import UdpArq.Lib.Recurrence
import Mathlib.Algebra.Order.Archimedean.Basic
import Mathlib.Data.Finset.Order

/-!
# A channel starves no packet

The delivery thread takes the earliest entry off the heap whenever it wakes up
and finds it due.  New packets may be due at once and go before those that wait,
but once the clock has passed the delivery time of a packet, none that comes
later goes before it.  As long as the thread keeps waking up, everything that
`sendto` has accepted is therefore handed over in the end.
-/

namespace UdpArq

open Filter

namespace Channel

variable {p : Impairments} {rng : ℕ → Draw} {c : Channel} {t : ℚ}

/-! ## What is due before a time -/

/-- How many entries on the heap are due before `t`. -/
def dueBefore (t : ℚ) (c : Channel) : ℕ :=
  c.heap.countP fun e => e.deliverAt < t

theorem dueBefore_push {at_ : ℚ} (h : t ≤ at_) (c : Channel) (data : Bytes)
    (addr : Address) : (c.push at_ data addr).dueBefore t = c.dueBefore t := by
  have hperm : (c.push at_ data addr).heap.Perm
      (⟨at_, c.tiebreak, data, addr⟩ :: c.heap) :=
    List.perm_orderedInsert Entry.Upto _ c.heap
  have hnot : ¬ at_ < t := not_lt.mpr h
  rw [dueBefore, hperm.countP_eq, List.countP_cons_of_neg (by simpa using hnot),
    dueBefore]

/-- A packet that is accepted after `t` is not due before it. -/
theorem dueBefore_impair (p : Impairments) (c : Channel) (data : Bytes)
    (addr : Address) (d : Draws) {now : ℚ} (h : t ≤ now) :
    (impair p c data addr d now).dueBefore t = c.dueBefore t := by
  have hat := h.trans (now_le_deliverAt p d now)
  unfold impair
  split_ifs
  · rfl
  · rw [dueBefore_push hat, dueBefore_push hat]
  · exact dueBefore_push hat _ _ _

/-- On a heap whose first entry is due from `t` on, everything is. -/
theorem dueBefore_eq_zero (hascending : c.Ascending) {e : Entry}
    {rest : List Entry} (hheap : c.heap = e :: rest) (he : t ≤ e.deliverAt) :
    c.dueBefore t = 0 := by
  rw [dueBefore, List.countP_eq_zero]
  intro e' he'
  have hle : e.deliverAt ≤ e'.deliverAt := by
    rw [hheap] at he'
    rcases List.mem_cons.mp he' with rfl | hrest
    · exact le_rfl
    · rw [Ascending, hheap] at hascending
      have hupto := Entry.upto_iff.mp (List.rel_of_pairwise_cons hascending hrest)
      exact hupto.elim le_of_lt fun h => h.1.le
  simpa using he.trans hle

/-- The delivery thread takes the first entry off the heap when it is due. -/
theorem heap_wake (p : Impairments) (rng : ℕ → Draw)
    (hreturned : c.workerReturned = false) {e : Entry} {rest : List Entry}
    (hheap : c.heap = e :: rest) {now : ℚ}
    (hdue : e.deliverAt ≤ now) (raised : Bool) :
    (step p rng c (.wake now raised)).heap = rest := by
  have hnot : ¬ e.deliverAt - now > 0 := not_lt.mpr (sub_nonpos.mpr hdue)
  simp only [step, hreturned, Bool.false_eq_true, if_false, deliver, hheap,
    if_neg hnot]
  split_ifs <;> rfl

/-- After `t` a step adds nothing to what is due before `t`, and a wake-up takes
one entry of it away. -/
theorem Balanced.dueBefore_step (h : Balanced p c) (rng : ℕ → Draw) {e : Event}
    (hlate : ∀ r ∈ e.reading, t ≤ r) :
    (Channel.step p rng c e).dueBefore t ≤
      c.dueBefore t - if e.wakesFrom t then 1 else 0 := by
  cases e with
  | sendto argument addr now =>
      rcases sendto_cases p rng c argument addr now with
        hsame | ⟨-, data, -, hstep⟩
      · rw [hsame]
        exact le_rfl
      · rw [hstep, dueBefore_impair p _ data addr _ (hlate now rfl)]
        exact le_rfl
  | close =>
      rcases close_cases p rng c with hsame | ⟨-, hstep⟩
      · rw [hsame]
        exact le_rfl
      · rw [hstep]
        exact le_rfl
  | join =>
      rcases join_cases p rng c with hsame | ⟨-, hstep⟩
      · rw [hsame]
        exact le_rfl
      · rw [hstep]
        exact le_rfl
  | wake now raised =>
      have hwakes : Event.wakesFrom t (.wake now raised) = true :=
        decide_eq_true (hlate now rfl)
      rw [if_pos hwakes]
      rcases wake_cases p rng c now raised with
        hsame | ⟨hempty, -, hstep⟩ | ⟨entry, rest, hheap, -, hstep⟩
      · -- The thread waits, so that nothing on the heap is due.
        rw [hsame]
        have hzero : c.dueBefore t = 0 := by
          cases hheap : c.heap with
          | nil => rw [dueBefore, hheap, List.countP_nil]
          | cons e rest =>
              apply dueBefore_eq_zero h.ascending hheap
              by_contra hnot
              have hdue : e.deliverAt ≤ now :=
                (not_le.mp hnot).le.trans (hlate now rfl)
              have hreturned : c.workerReturned = false := by
                rw [← Bool.not_eq_true]
                intro hreturned
                rw [(h.drained hreturned).2] at hheap
                cases hheap
              have hrest := heap_wake p rng hreturned hheap hdue raised
              rw [hsame, hheap] at hrest
              exact List.cons_ne_self e rest hrest
        omega
      · rw [hstep]
        change List.countP _ c.heap ≤ _
        rw [hempty]
        exact Nat.zero_le _
      · rw [hstep]
        change List.countP _ rest ≤ _
        by_cases hentry : entry.deliverAt < t
        · rw [dueBefore, hheap, List.countP_cons_of_pos (by simpa using hentry)]
          exact le_rfl
        · have hzero := dueBefore_eq_zero h.ascending hheap (not_lt.mp hentry)
          rw [dueBefore, hheap, List.countP_cons_of_neg (by simpa using hentry)]
            at hzero
          omega

theorem Balanced.dueBefore_run (h : Balanced p c) (rng : ℕ → Draw) {es : List Event}
    (hlate : ∀ e ∈ es, ∀ r ∈ e.reading, t ≤ r) :
    (UdpArq.run (Channel.step p rng) c es).dueBefore t ≤
      c.dueBefore t - (es.filter (Event.wakesFrom t)).length := by
  induction es generalizing c with
  | nil => exact le_rfl
  | cons e es ih =>
      have hstep := h.dueBefore_step rng (hlate e List.mem_cons_self)
      have hrest := ih (h.step rng e) fun e' he' =>
        hlate e' (List.mem_cons_of_mem _ he')
      rw [run_cons, List.filter_cons]
      split_ifs at hstep ⊢
      · rw [List.length_cons]
        omega
      · omega

/-! ## Channels that keep running -/

/-- The clock never runs backwards, and the delivery thread keeps waking up at
ever later times. -/
structure Ticking (bs : ℕ → List Event) : Prop where
  clock : ∀ i,
    (((List.range i).flatMap bs).filterMap Event.reading).Pairwise (· ≤ ·)
  wakes : ∀ t, ∃ᶠ i in atTop, ∃ e ∈ bs i, e.wakesFrom t

/-- The channel after `i` batches of steps. -/
def moment (p : Emulator) (bs : ℕ → List Event) (i : ℕ) : Channel :=
  stateAt (run (step p.impairments p.draws)) init bs i

section

variable {p : Emulator} {bs : ℕ → List Event}

theorem moment_succ (p : Emulator) (bs : ℕ → List Event) (i : ℕ) :
    moment p bs (i + 1) =
      run (step p.impairments p.draws) (moment p bs i) (bs i) := rfl

theorem balanced_moment (p : Emulator) (bs : ℕ → List Event) (i : ℕ) :
    Balanced p.impairments (moment p bs i) := by
  rw [moment, stateAt_run]
  exact balanced_run p.impairments p.draws _

theorem accepted_run (p : Emulator) (c : Channel) (es : List Event) :
    c.accepted <+: (run (step p.impairments p.draws) c es).accepted := by
  induction es generalizing c with
  | nil => exact List.prefix_rfl
  | cons e es ih =>
      refine List.IsPrefix.trans ?_ (ih _)
      rcases accepted_step p.impairments p.draws c e with hsame | ⟨x, hnew, -⟩
      · rw [hsame]
      · rw [hnew]
        exact List.prefix_append _ _

theorem accepted_moment (p : Emulator) (bs : ℕ → List Event) {i j : ℕ}
    (hij : i ≤ j) : (moment p bs i).accepted <+: (moment p bs j).accepted := by
  induction j, hij using Nat.le_induction with
  | base => exact List.prefix_rfl
  | succ j _ ih => exact ih.trans (accepted_run p _ _)

/-- Later batches read the clock later. -/
theorem Ticking.reading_le (h : Ticking bs) {i j : ℕ} (hij : i < j)
    {e e' : Event} (he : e ∈ bs i) (he' : e' ∈ bs j) :
    ∀ r ∈ e.reading, ∀ r' ∈ e'.reading, r ≤ r' := by
  intro r hr r' hr'
  have hclock := h.clock (j + 1)
  rw [List.range_succ, List.flatMap_append, List.flatMap_singleton,
    List.filterMap_append, List.pairwise_append] at hclock
  apply hclock.2.2 r _ r'
  · exact List.mem_filterMap.mpr ⟨e', he', hr'⟩
  · refine List.mem_filterMap.mpr ⟨e, ?_, hr⟩
    exact List.mem_flatMap.mpr ⟨i, List.mem_range.mpr hij, he⟩

theorem Event.exists_reading {e : Event} {t : ℚ} (h : e.wakesFrom t) :
    ∃ r ∈ e.reading, t ≤ r := by
  cases e with
  | wake now raised => exact ⟨now, rfl, of_decide_eq_true h⟩
  | _ => cases h

/-- From some batch on, nothing on the heap is due before `t`. -/
theorem Ticking.dueBefore (h : Ticking bs) (t : ℚ) :
    ∀ᶠ j in atTop, (moment p bs j).dueBefore t = 0 := by
  obtain ⟨i, -, e, he, hwake⟩ := exists_of_recurs (h.wakes t) 0
  obtain ⟨r, hr, hlate⟩ := Event.exists_reading hwake
  -- From the wake-up `e` on all clock readings are `t` or later.
  have hreadings : ∀ j, i + 1 ≤ j → ∀ e' ∈ bs j, ∀ r' ∈ e'.reading, t ≤ r' :=
    fun j hj e' he' r' hr' => hlate.trans (h.reading_le hj he he' r hr r' hr')
  have hshrinks : ∀ j, i + 1 ≤ j → (moment p bs (j + 1)).dueBefore t ≤
      (moment p bs j).dueBefore t -
        ((bs j).filter (Event.wakesFrom t)).length := fun j hj =>
    (balanced_moment p bs j).dueBefore_run p.draws (hreadings j hj)
  obtain ⟨j, hj, hzero⟩ := exists_of_variant
    (P := fun _ => True) (Q := fun j => (moment p bs j).dueBefore t = 0)
    (fun j => (moment p bs j).dueBefore t) (h.wakes t) (fun j hj _ => by
      by_cases hzero : (moment p bs j).dueBefore t = 0
      · exact Or.inl hzero
      · have hstep := hshrinks j hj
        refine Or.inr ⟨trivial, by omega, ?_⟩
        rintro ⟨e', he', hwakes⟩
        have hpos : 0 < ((bs j).filter (Event.wakesFrom t)).length :=
          List.length_pos_of_mem (List.mem_filter.mpr ⟨he', hwakes⟩)
        omega) trivial
  rw [eventually_atTop]
  refine ⟨j, fun k hk => holds_of_le
    (P := fun k => (moment p bs k).dueBefore t = 0) ?_ hzero hk⟩
  intro k hk hzero
  have hstep := hshrinks k (hj.trans hk)
  rw [hzero] at hstep
  exact Nat.le_zero.mp (hstep.trans (Nat.sub_le _ _))

theorem exists_after (xs : List (ℚ × Bytes × Address)) :
    ∃ t, ∀ x ∈ xs, x.1 < t := by
  obtain ⟨m, hm⟩ := (xs.map Prod.fst).toFinset.exists_le
  refine ⟨m + 1, fun x hx => ?_⟩
  have hle := hm x.1 (List.mem_toFinset.mpr (List.mem_map_of_mem hx))
  exact hle.trans_lt (lt_add_one m)

/-- Everything that has been accepted is handed over in the end. -/
theorem Ticking.hands_over (h : Ticking bs) (i : ℕ) :
    ∀ᶠ j in atTop, ((moment p bs i).accepted.flatMap
      (Accepted.copies p.impairments)).Subperm (moment p bs j).handed := by
  obtain ⟨t, ht⟩ := exists_after
    ((moment p bs i).accepted.flatMap (Accepted.timed p.impairments))
  filter_upwards [h.dueBefore t, eventually_ge_atTop i] with j hzero hj
  set early : ℚ × Bytes × Address → Bool := fun x => x.1 < t
  set timed := Accepted.timed p.impairments
  have hsorted : (moment p bs j).timeline =
      stableSort Prod.fst ((moment p bs j).accepted.flatMap timed) := by
    rw [moment, stateAt_run]
    exact (sorted_run p.impairments p.draws (h.clock j)).timeline
  have hperm : (moment p bs j).timeline.Perm
      ((moment p bs j).accepted.flatMap timed) := by
    rw [hsorted]
    exact List.perm_insertionSort _ _
  have hsub : ((moment p bs i).accepted.flatMap timed).Subperm
      (moment p bs j).timeline :=
    (((accepted_moment p bs hj).sublist.flatMap timed).subperm).trans
      hperm.symm.subperm
  -- What is due before `t` is not on the heap any more.
  have hheap : ((moment p bs j).heap.map Entry.timed).filter early = [] := by
    rw [List.filter_eq_nil_iff]
    intro x hx
    obtain ⟨e, he, rfl⟩ := List.mem_map.mp hx
    exact List.countP_eq_zero.mp hzero e he
  have hfiltered := hsub.filter early
  rw [List.filter_eq_self.mpr (by simpa [early] using ht), timeline,
    List.filter_append, hheap, List.append_nil] at hfiltered
  obtain ⟨l, hl, hpopped⟩ := hfiltered.trans List.filter_sublist.subperm
  have hcopies : (l.map Prod.snd).Perm ((moment p bs i).accepted.flatMap
      (Accepted.copies p.impairments)) := by
    have hmap := hl.map Prod.snd
    rw [List.map_flatMap] at hmap
    simpa only [timed, Accepted.map_snd_timed] using hmap
  have hhanded := hpopped.map Prod.snd
  rw [List.map_map] at hhanded
  exact ⟨l.map Prod.snd, hcopies, hhanded⟩

/-- Once nothing more is accepted, the heap runs empty. -/
theorem Ticking.drains (h : Ticking bs) {i : ℕ}
    (hquiet : ∀ j, i ≤ j → (moment p bs j).accepted = (moment p bs i).accepted) :
    ∀ᶠ j in atTop, (moment p bs j).heap = [] := by
  filter_upwards [h.hands_over (p := p) i, eventually_ge_atTop i] with
    j hhanded hj
  have hpackets := (balanced_moment p bs j).packets
  rw [hquiet j hj] at hpackets
  have hlength := hpackets.length_eq
  have hle := hhanded.length_le
  rw [List.length_append, scheduled, List.length_map] at hlength
  exact List.eq_nil_of_length_eq_zero (by omega)

end

end Channel

open Channel in
/-- No packet is starved.  On a clock that never runs backwards, with the delivery
thread waking up at ever later times, every copy of every accepted packet is
handed over in the end; and once `sendto` accepts nothing more, the heap runs
empty and everything has been handed over in the order of the delivery times. -/
theorem channel_starves_none (p : Emulator) (bs : ℕ → List Channel.Event)
    (h : Ticking bs) :
    (∀ i, ∀ᶠ j in atTop, ((moment p bs i).accepted.flatMap
      (Accepted.copies p.impairments)).Subperm (moment p bs j).handed) ∧
    ∀ i, (∀ j, i ≤ j → (moment p bs j).accepted = (moment p bs i).accepted) →
      ∀ᶠ j in atTop, (moment p bs j).heap = [] ∧
        (moment p bs j).handed = (stableSort Prod.fst ((moment p bs i).accepted.flatMap
          (Accepted.timed p.impairments))).map Prod.snd := by
  refine ⟨h.hands_over, fun i hquiet => ?_⟩
  filter_upwards [h.drains hquiet, eventually_ge_atTop i] with j hempty hj
  have hsorted : (moment p bs j).timeline = stableSort Prod.fst
      ((moment p bs j).accepted.flatMap (Accepted.timed p.impairments)) := by
    rw [moment, stateAt_run]
    exact (sorted_run p.impairments p.draws (h.clock j)).timeline
  refine ⟨hempty, ?_⟩
  rw [← hquiet j hj, ← hsorted, map_snd_timeline, scheduled, hempty, List.map_nil,
    List.append_nil]

namespace Channel

section

variable {bs : ℕ → List Event} {k : ℕ}

/-- A run in which the clock reads `i` in step `i`, and that from some step on
only wakes the delivery thread up. -/
theorem ticking_of_reading
    (hreading : ∀ i, ∀ t ∈ (bs i).filterMap Event.reading, t = (i : ℚ))
    (hwakes : ∀ i, k ≤ i → bs i = [.wake i false]) : Ticking bs where
  clock i := by
    rw [List.filterMap_flatMap, List.pairwise_flatMap]
    constructor
    · intro j _
      rw [List.pairwise_iff_forall_sublist]
      intro t t' hsub
      have hmem := hsub.subset
      rw [hreading j t (hmem (by simp)), hreading j t' (hmem (by simp))]
    · refine List.pairwise_lt_range.imp fun hlt t ht t' ht' => ?_
      rw [hreading _ t ht, hreading _ t' ht']
      exact Nat.cast_le.mpr hlt.le
  wakes t := by
    obtain ⟨m, hm⟩ := exists_nat_ge t
    rw [frequently_atTop]
    intro i
    refine ⟨m + i + k, by omega, .wake (m + i + k : ℕ) false, ?_, ?_⟩
    · rw [hwakes _ (by omega)]
      exact List.mem_singleton_self _
    · apply decide_eq_true
      exact hm.trans (Nat.cast_le.mpr (by omega))

theorem accepted_of_wakes (p : Emulator)
    (hwakes : ∀ i, k ≤ i → bs i = [.wake i false]) {j : ℕ} (hj : k ≤ j) :
    (moment p bs j).accepted = (moment p bs k).accepted := by
  induction j, hj using Nat.le_induction with
  | base => rfl
  | succ j hj ih =>
      have hidle : (Event.wake j false).call = none := rfl
      rw [moment_succ, hwakes j hj]
      exact (idle_step hidle p.impairments p.draws _).accepted.trans ih

end

end Channel

open Channel in
/-- Two packets, the second of which overtakes the first, in a run that then only
wakes the delivery thread up. -/
theorem channel_starves_none_overtaken :
    let p : Emulator :=
      { impairments := { delay := 2, jitter := 2, valid := by decide +kernel }
        draws := fun n => if n < 5 then Draw.sixteenths 13
          else Draw.sixteenths 2 }
    let bs : ℕ → List Channel.Event := fun i =>
      if i < 2 then [.sendto (.bytesLike [i.toUInt8]) ("b", 2) i] else [.wake i false]
    ∀ᶠ j in atTop, (moment p bs j).handed = [([1], ("b", 2)), ([0], ("b", 2))] := by
  intro p bs
  have hwakes : ∀ i, 2 ≤ i → bs i = [.wake i false] := fun i hi =>
    if_neg (not_lt.mpr hi)
  have hticking : Ticking bs := by
    refine ticking_of_reading (fun i => ?_) hwakes
    by_cases hi : i < 2
    · have hsend : bs i = [.sendto (.bytesLike [i.toUInt8]) ("b", 2) i] := if_pos hi
      simp [hsend, Event.reading]
    · simp [hwakes i (not_lt.mp hi), Event.reading]
  have haccepted := fun j => accepted_of_wakes p hwakes (j := j)
  filter_upwards [(channel_starves_none p bs hticking).2 2 haccepted] with j hj
  rw [hj.2]
  decide +kernel

end UdpArq
