import UdpArq.Windowed.SenderLoop

/-!
# Closing a windowed transport

`close` sets a flag that the background thread looks at between its waits.
Whatever fails, the thread ends after finitely many turns, and then nothing is
sent or delivered any more.  A pump that is under way when `close` is called goes
on until it has filled the windows.
-/

namespace UdpArq

open Filter UdpArq.Core SenderLoop

namespace Lane.Step

variable {cfg : Config} {D : Discipline} {fails : SweepInput → Prop}
  {l l' : Lane} {e : Event}

/-- The flag stays set. -/
theorem stays_stopped (h : Step cfg D fails l e l') (hstopped : l.stopped = true) :
    l'.stopped = true := by
  cases h with
  | close =>
      rw [Lane.close, if_pos hstopped]
      exact hstopped
  | _ => exact hstopped

/-- Nothing is queued once the flag is set. -/
theorem queued_of_stopped (h : Step cfg D fails l e l')
    (hqueue : l.stopped = true → l.queued = []) :
    l'.stopped = true → l'.queued = [] := by
  intro hstopped
  cases h with
  | accept hlen hopen =>
      have hclosed : l.stopped = true := hstopped
      rw [hopen] at hclosed
      cases hclosed
  | register hnext =>
      rw [hqueue hstopped] at hnext
      cases hnext
  | registerCrash hnext =>
      rw [hqueue hstopped] at hnext
      cases hnext
  | close =>
      unfold Lane.close at hstopped ⊢
      split at hstopped
      · next hclosed =>
          rw [if_pos hclosed]
          exact hqueue hclosed
      · next hopen => rw [if_neg hopen]
  | _ => exact hqueue hstopped

/-- Calls of the application send and deliver nothing. -/
theorem silent (h : Step cfg D fails l e l') (he : e.isCall = true) :
    l'.wire = l.wire ∧ l'.delivered = l.delivered := by
  cases h with
  | idle => exact ⟨rfl, rfl⟩
  | crash => exact ⟨rfl, rfl⟩
  | accept => exact ⟨rfl, rfl⟩
  | close =>
      unfold Lane.close
      split <;> exact ⟨rfl, rfl⟩
  | _ => cases he

end Lane.Step

namespace LoopedRun

variable {cfgT cfgR : Config} {T : Endpoint cfgT} {R : Endpoint cfgR}
  {r : LoopedRun T R} {i : ℕ}

/-! ## After `close` -/

theorem stopEvent_of_le (hclosed : (T.core (r.tx i)).stopEvent = true) {j : ℕ}
    (hj : i ≤ j) : (T.core (r.tx j)).stopEvent = true := by
  have hlane : ∀ k, (T.lane (r.tx k) ("", 0)).stopped =
      (T.core (r.tx k)).stopEvent := fun _ => rfl
  rw [← hlane] at hclosed ⊢
  induction j, hj using Nat.le_induction with
  | base => exact hclosed
  | succ j _ ih =>
      exact lane_tx_keeps (P := fun l => l.stopped = true)
        (fun _ _ _ _ hstep hl => hstep.stays_stopped hl) j ih

theorem stopEvent_close (he : r.event i = .other (.tx .close))
    (hstep : ∀ s, T.core (T.step s .close) = (T.core s).close) :
    (T.core (r.tx (i + 1))).stopEvent = true := by
  have htx : r.tx (i + 1) = T.step (r.tx i) .close := by
    rw [tx, moment_succ, he]
    rfl
  rw [htx, hstep, Core.close]
  split
  · assumption
  · rfl

/-- The queue of a closed transport is empty. -/
theorem outbound_of_stopEvent (hclosed : (T.core (r.tx i)).stopEvent = true) :
    (T.core (r.tx i)).outbound = [] := by
  have hqueues : ∀ k addr, (T.lane (r.tx k) addr).stopped = true →
      (T.lane (r.tx k) addr).queued = [] := by
    intro k addr
    induction k with
    | zero =>
        have hfresh : T.lane (r.tx 0) addr = { peer := addr } := T.lane_init addr
        rw [hfresh]
        exact fun _ => rfl
    | succ k ih =>
        exact lane_tx_keeps
          (P := fun l => l.stopped = true → l.queued = [])
          (fun _ _ _ _ hstep hl => hstep.queued_of_stopped hl) k ih
  rw [List.eq_nil_iff_forall_not_mem]
  intro item hitem
  have hmem : item ∈ (T.lane (r.tx i) item.addr).queued :=
    List.mem_filter.mpr ⟨hitem, by simp⟩
  rw [hqueues i item.addr hclosed] at hmem
  cases hmem

/-! ## The thread ends -/

theorem exists_stopped (hturns : ∃ᶠ i in atTop, r.Turn i)
    (hclosed : (T.core (r.tx i)).stopEvent = true) :
    ∃ j, i ≤ j ∧ r.place j = .stopped := by
  have hstop : ∀ j, i ≤ j → (T.core (r.tx j)).stopEvent = true := fun j hj =>
    stopEvent_of_le hclosed hj
  have htop : ∀ j, i ≤ j → r.place j = .top → ∃ k, i ≤ k ∧ r.place k = .stopped := by
    intro j hj hplace
    obtain ⟨k, input, hk, he, hsame⟩ := exists_turn_at hturns j
    refine ⟨k + 1, by omega, ?_⟩
    rcases place_turn_cases he with hstopped | ⟨-, hnext⟩
    · exact hstopped
    · rw [hnext, hsame, hplace]
      simp [turn, hstop (k + 1) (by omega)]
  have hsweeping : ∀ j, i ≤ j → r.place j = .sweeping →
      ∃ k, i ≤ k ∧ r.place k = .stopped := by
    intro j hj hplace
    obtain ⟨k, input, hk, he, hsame⟩ := exists_turn_at hturns j
    refine ⟨k + 1, by omega, ?_⟩
    rcases place_turn_cases he with hstopped | ⟨-, hnext⟩
    · exact hstopped
    · rw [hnext, hsame, hplace]
      simp [turn, hstop (k + 1) (by omega)]
  have hpumping : ∀ j addresses, i ≤ j → r.place j = .pumping addresses →
      ∃ k, i ≤ k ∧ r.place k = .stopped := by
    intro j addresses hj hplace
    obtain ⟨k, hk, hswept | hstopped⟩ := leaves_pumping hturns hplace
    · exact hsweeping k (hj.trans hk) hswept
    · exact ⟨k, hj.trans hk, hstopped⟩
  cases hplace : r.place i with
  | stopped => exact ⟨i, le_rfl, hplace⟩
  | top => exact htop i le_rfl hplace
  | sweeping => exact hsweeping i le_rfl hplace
  | pumping addresses => exact hpumping i addresses le_rfl hplace
  | draining =>
      obtain ⟨k, input, hk, he, hsame⟩ := exists_turn_at hturns i
      rcases place_turn_cases he with hstopped | ⟨-, hnext⟩
      · exact ⟨k + 1, by omega, hstopped⟩
      · rw [hsame, hplace] at hnext
        simp only [turn, if_pos (outbound_of_stopEvent (hstop k hk))] at hnext
        exact hpumping (k + 1) _ (by omega) hnext
  | receiving now wait =>
      obtain ⟨k, input, hk, he, hsame⟩ := exists_turn_at hturns i
      rcases place_turn_cases he with hstopped | ⟨-, hnext⟩
      · exact ⟨k + 1, by omega, hstopped⟩
      · rw [hsame, hplace] at hnext
        cases harrival : input.arrival with
        | raised =>
            simp only [turn, harrival, hstop (k + 1) (by omega), if_true] at hnext
            exact ⟨k + 1, by omega, hnext⟩
        | _ =>
            simp only [turn, harrival] at hnext
            exact htop (k + 1) (by omega) hnext

/-- A thread that has ended stays so, and nothing is sent or delivered. -/
theorem silent_step (hplace : r.place i = .stopped) :
    r.place (i + 1) = .stopped ∧ ∀ addr,
      (T.lane (r.tx (i + 1)) addr).wire = (T.lane (r.tx i) addr).wire ∧
      (T.lane (r.tx (i + 1)) addr).delivered = (T.lane (r.tx i) addr).delivered := by
  by_cases hturn : r.Turn i
  · obtain ⟨input, he⟩ := hturn
    have hlink := link_turn he
    rw [hplace] at hlink
    have htx : r.tx (i + 1) = r.tx i := congrArg Link.tx hlink
    refine ⟨?_, fun addr => by rw [htx]; exact ⟨rfl, rfl⟩⟩
    rcases place_turn_cases he with hstopped | ⟨-, hnext⟩
    · exact hstopped
    · rw [hnext, hplace]
      rfl
  · refine ⟨(place_other hturn).trans hplace, fun addr => ?_⟩
    rcases tx_other hturn with hsame | ⟨e, hcall, -, hstep⟩
    · rw [hsame]
      exact ⟨rfl, rfl⟩
    · rw [hstep]
      exact ((wellFormed_tx r i).lane_step e addr).silent hcall

variable (r) in
/-- From step `i` on the thread has ended, and nothing is sent or delivered. -/
def Silent (i : ℕ) : Prop :=
  ∀ j, i ≤ j → r.place j = .stopped ∧ ∀ addr,
    (T.lane (r.tx j) addr).wire = (T.lane (r.tx i) addr).wire ∧
    (T.lane (r.tx j) addr).delivered = (T.lane (r.tx i) addr).delivered

theorem silent_of_stopped (hplace : r.place i = .stopped) : r.Silent i := by
  intro j hj
  induction j, hj using Nat.le_induction with
  | base => exact ⟨hplace, fun _ => ⟨rfl, rfl⟩⟩
  | succ j _ ih =>
      obtain ⟨hstopped, hsame⟩ := silent_step ih.1
      refine ⟨hstopped, fun addr => ?_⟩
      rw [(hsame addr).1, (hsame addr).2]
      exact ih.2 addr

theorem eventually_silent (hturns : ∃ᶠ i in atTop, r.Turn i)
    (hclosed : (T.core (r.tx i)).stopEvent = true) :
    ∀ᶠ j in atTop, r.Silent j := by
  obtain ⟨j, -, hplace⟩ := exists_stopped hturns hclosed
  rw [eventually_atTop]
  exact ⟨j, fun k hk => silent_of_stopped (silent_of_stopped hplace k hk).1⟩

end LoopedRun

/-- In every run in which the thread gets turns, once `close` has been called the
thread ends, whatever it was doing and whatever has failed, and the transport
falls silent. -/
theorem close_silences (cfgT cfgR : Config) (txAddr rxAddr : Address)
    (ls : ℕ → LoopedEvent) (i : ℕ) :
    (let r : LoopedRun (GoBackNTransport.endpoint cfgT)
       (GoBackNTransport.endpoint cfgR) :=
       ⟨GoBackNTransport.nearest, txAddr, rxAddr, ls⟩
     (∃ᶠ i in atTop, r.Turn i) → r.event i = .other (.tx .close) →
       ∀ᶠ j in atTop, r.Silent j) ∧
    (let r : LoopedRun (SelectiveRepeatTransport.polledEndpoint cfgT)
       (SelectiveRepeatTransport.polledEndpoint cfgR) :=
       ⟨SelectiveRepeatTransport.nearest, txAddr, rxAddr, ls⟩
     (∃ᶠ i in atTop, r.Turn i) → r.event i = .other (.tx .close) →
       ∀ᶠ j in atTop, r.Silent j) := by
  constructor
  · intro r hturns hclose
    exact LoopedRun.eventually_silent hturns
      (LoopedRun.stopEvent_close hclose fun _ => rfl)
  · intro r hturns hclose
    exact LoopedRun.eventually_silent hturns
      (LoopedRun.stopEvent_close hclose fun _ => rfl)

/-- The transport is closed while its two packets are on their way. -/
theorem close_silences_exampleLooped :
    let T := GoBackNTransport.endpoint {}
    let r : LoopedRun T T := ⟨GoBackNTransport.nearest, ("a", 1), ("b", 2), fun i =>
      if i = 8 then .other (.tx .close)
      else LoopedRun.exampleLooped ("b", 2) [97, 98] [99] i⟩
    ∀ᶠ j in atTop, r.Silent j := by
  apply (close_silences {} {} ("a", 1) ("b", 2) (fun i =>
    if i = 8 then .other (.tx .close)
    else LoopedRun.exampleLooped ("b", 2) [97, 98] [99] i) 8).1
  · rw [frequently_atTop]
    intro i
    refine ⟨i + 28, Nat.le_add_right i 28, ?_⟩
    simp only [LoopedRun.Turn, if_neg (show i + 28 ≠ 8 by omega)]
    exact ⟨_, LoopedRun.exampleLooped_quiet (i + 28) (Nat.le_add_left 28 i)⟩
  · rfl

end UdpArq
