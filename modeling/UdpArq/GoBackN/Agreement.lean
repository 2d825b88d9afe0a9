import UdpArq.GoBackN.Refinement
import UdpArq.Transport.Frontier
import UdpArq.Transport.Link

/-!
# The windows of a Go-Back-N sender and its receiver

The frontier of the sender is one more than the highest number that it ever
moved into `_outstanding`.  What the receiver expects lies between the base and
the frontier of the sender: an acknowledgement never runs ahead of the
receiver, and a datagram on the wire is always below the frontier.
-/

namespace UdpArq

namespace GoBackNTransport

open UdpArq.Core

/-- The number of the packet that the event moves into `_outstanding` of the
peer. -/
def entering (cfg : Config) (s : GoBackNTransport) (addr : Address) :
    Event → Option ℕ
  | .pump a _ =>
      if a = addr ∧ s.crashed = none then
        match s.nextToSend cfg addr with
        | none => none
        | some (seq, item) =>
            match dataPacket seq item.data with
            | .error _ => none
            | .ok _ => some seq
      else none
  | _ => none

/-- The frontier after the event, if it was `m` before. -/
def advanceFrontier (cfg : Config) (s : GoBackNTransport) (addr : Address)
    (e : Event) (m : ℕ) : ℕ :=
  match entering cfg s addr e with
  | none => m
  | some seq => max m (seq + 1)

variable {cfg : Config} {s : GoBackNTransport} {addr : Address} {m : ℕ}

/-! ## The sender -/

theorem advanceFrontier_of_none {e : Event}
    (hnone : entering cfg s addr e = none) (m : ℕ) :
    advanceFrontier cfg s addr e m = m := by
  rw [advanceFrontier, hnone]

theorem le_advanceFrontier (cfg : Config) (s : GoBackNTransport)
    (addr : Address) (e : Event) (m : ℕ) :
    m ≤ advanceFrontier cfg s addr e m := by
  rcases hentering : entering cfg s addr e with _ | seq
  · exact (advanceFrontier_of_none hentering m).ge
  · rw [advanceFrontier, hentering]
    exact le_max_left m (seq + 1)

/-- One packet of the window pump. -/
theorem frontier_pump (hwf : s.WellFormed)
    (h : (s.lane addr).Frontier cfg m) (a : Address) (input : PumpInput) :
    ((step cfg s (.pump a input)).lane addr).Frontier cfg
        (advanceFrontier cfg s addr (.pump a input) m) ∧
      ((step cfg s (.pump a input)).lane addr).base = (s.lane addr).base := by
  by_cases hrun : s.crashed.isSome
  · have hdead : ¬ (a = addr ∧ s.crashed = none) := by
      rintro ⟨-, hnone⟩
      simp [hnone] at hrun
    rw [step, if_pos hrun, advanceFrontier, entering, if_neg hdead]
    exact ⟨h, rfl⟩
  have hnone : s.crashed = none := by simpa using hrun
  have hrunLane : (s.lane addr).crashed = false := by
    simp [lane, Core.lane, hnone]
  rw [step, if_neg hrun]
  rcases hnext : s.nextToSend cfg a with _ | ⟨seq, item⟩
  · have hsame : pumpPacket cfg s a input = s := by
      simp only [pumpPacket, hnext]
    have hentering : entering cfg s addr (.pump a input) = none := by
      rw [entering]
      split_ifs with ha
      · rw [← ha.1, hnext]
      · rfl
    rw [hsame, advanceFrontier_of_none hentering]
    exact ⟨h, rfl⟩
  rcases hpacket : dataPacket seq item.data with e | packet
  · have hentering : entering cfg s addr (.pump a input) = none := by
      rw [entering]
      split_ifs with ha
      · rw [← ha.1, hnext]
        simp only [hpacket]
      · rfl
    have hlane : (pumpPacket cfg s a input).lane addr =
        (if addr = a then (s.lane addr).popPending seq
        else s.lane addr).crash := by
      have hpump : pumpPacket cfg s a input =
          { s with toCore := (s.popPending a seq).crash (.packet e) } := by
        simp only [pumpPacket, hnext, hpacket]
      rw [hpump]
      exact congrArg Lane.crash (lane_popPending s.toCore ∅ a addr seq)
    rw [hlane, advanceFrontier_of_none hentering]
    split_ifs with ha
    · exact ⟨h.popPending_crash seq, rfl⟩
    · exact ⟨h.crash, rfl⟩
  · have hlane : (pumpPacket cfg s a input).lane addr = _ :=
      ((shared cfg).pumped s a input hrun).lane
        (estimator_of_nextToSend cfg (hwf a) hrun (by simp [hnext])) hnext
        hpacket ∅ addr
    rw [hlane]
    by_cases ha : addr = a
    · subst ha
      have hm : advanceFrontier cfg s addr (.pump addr input) m =
          max m (seq + 1) := by
        rw [advanceFrontier, entering, if_pos ⟨rfl, hnone⟩, hnext]
        simp only [hpacket]
      obtain ⟨hle, hlaunched⟩ := h.launch (hwf addr) hrunLane hnext packet
      rw [hm, max_eq_right (hle.trans (Nat.le_succ seq)), if_pos rfl]
      rcases input.sendResult with _ | what
      · exact ⟨hlaunched.transmit hpacket, rfl⟩
      · exact ⟨hlaunched.discard seq _, rfl⟩
    · have hentering : entering cfg s addr (.pump a input) = none :=
        if_neg fun hself => ha hself.1.symm
      rw [advanceFrontier_of_none hentering, if_neg ha]
      exact ⟨h, rfl⟩

/-- An acknowledgement below the frontier slides the window. -/
theorem frontier_slide {l : Lane} (h : l.Frontier cfg m) {n base : ℕ}
    {seqs : List ℕ} (hslide : slide l n = some (seqs, base)) (hle : n ≤ m) :
    ((l.complete seqs).slideTo base).Frontier cfg m := by
  obtain ⟨rfl, -, rfl, old, hold, hlt⟩ := slide_eq_some hslide
  have hbase : l.base.getD 0 = old := by simp [hold]
  have hkept : ∀ q, q ∈ ((l.complete (l.outstanding.keys.filter
      fun q => q < base)).slideTo base).outstanding.keys ↔
        q ∈ l.outstanding.keys ∧ base ≤ q := by
    intro q
    simp only [Lane.slideTo, Lane.complete, Dict.mem_keys, Dict.get?_eraseAll]
    by_cases hq : q < base
    · by_cases hout : ∃ x, l.outstanding.get? q = some x
      · simp [Dict.mem_keys, hq, hout, not_le.mpr hq]
      · simp [Dict.mem_keys, hq, hout]
    · simp [hq, not_lt.mp hq]
  have hfailed : ∀ q, l.Failed q → ((l.complete (l.outstanding.keys.filter
      fun q => q < base)).slideTo base).Failed q := by
    intro q hq
    simp only [Lane.Failed, Lane.slideTo, Lane.complete]
    split_ifs <;> exact hq
  refine ⟨h.le_nextSeq, hle, ?_, ?_, h.waiting, h.sent, ?_, ?_, ?_⟩
  · have hwindow := h.le_window
    rw [hbase] at hwindow
    exact hwindow.trans (Nat.add_le_add_right hlt.le _)
  · intro q hq
    obtain ⟨hout, hge⟩ := (hkept q).mp hq
    exact ⟨hge, (h.outstanding q hout).2⟩
  · intro q hlo hhi
    have hge : base ≤ q := hlo
    rcases h.entered q (hbase ▸ hlt.le.trans hge) hhi with hout | hmarked
    · exact Or.inl ((hkept q).mpr ⟨hout, hge⟩)
    · exact Or.inr (hfailed q hmarked)
  · intro hrun q hlo hhi
    exact (h.ahead hrun q hlo hhi).imp_right (hfailed q)
  · intro hnone
    cases hnone

/-- Only an acknowledgement of the peer moves the base, and only forward. -/
theorem base_step {fails : SweepInput → Prop} {l l' : Lane} {e : Event}
    (h : l.Frontier cfg m) (hstep : Lane.Step cfg discipline fails l e l') :
    l'.base.getD 0 = l.base.getD 0 ∨
      ∃ raw input n, e = .incoming raw l.peer input ∧ IsAck raw n ∧
        l'.base = some n ∧ l.base.getD 0 < n := by
  rcases hstep with _ | _ | _ | hqueue | hqueue | _ | _ | _ | _ | _ |
    ⟨hraw, hsome⟩ | _ | _ | _ | _
  · exact Or.inl rfl
  · exact Or.inl rfl
  · exact Or.inl rfl
  · exact Or.inl (h.base_register hqueue)
  · exact Or.inl (h.base_register hqueue)
  · exact Or.inl rfl
  · exact Or.inl rfl
  · exact Or.inl rfl
  · exact Or.inl rfl
  · exact Or.inl rfl
  · obtain ⟨rfl, -, -, old, hold, hlt⟩ := slide_eq_some hsome
    refine Or.inr ⟨_, _, _, rfl, hraw, rfl, ?_⟩
    rwa [hold, Option.getD_some]
  · exact Or.inl rfl
  · exact Or.inl rfl
  · exact Or.inl rfl
  · left
    unfold Lane.close
    split <;> rfl

/-- Every event of the sender keeps the frontier, if the window slides only to
numbers that are not beyond it. -/
theorem frontier_step_of_slides (hwf : s.WellFormed)
    (h : (s.lane addr).Frontier cfg m) {e : Event}
    (hslides : ∀ raw input n seqs base, e = .incoming raw addr input →
      s.crashed = none → IsAck raw n →
        slide (s.lane addr) n = some (seqs, base) → n ≤ m) :
    ((step cfg s e).lane addr).Frontier cfg
      (advanceFrontier cfg s addr e m) := by
  by_cases hpump : ∃ a input, e = .pump a input
  · obtain ⟨a, input, rfl⟩ := hpump
    exact (frontier_pump hwf h a input).1
  have hentering : entering cfg s addr e = none := by
    rcases e with _ | _ | _ | _ | ⟨a, input⟩ | _ | _
    · rfl
    · rfl
    · rfl
    · rfl
    · exact absurd ⟨a, input, rfl⟩ hpump
    · rfl
    · rfl
  rw [advanceFrontier_of_none hentering]
  by_cases hdead : ∃ raw input, e = .incoming raw addr input ∧
    s.crashed.isSome = true
  · obtain ⟨raw, input, rfl, hdead⟩ := hdead
    rwa [step, if_pos hdead]
  apply h.step (hwf addr) (step_refines hwf e addr)
  · exact fun input he => hpump ⟨_, input, he⟩
  · intro raw input n seqs base he hraw hslide
    have hrun : s.crashed = none := by
      rcases hcrashed : s.crashed with _ | err
      · rfl
      · exact absurd ⟨raw, input, he, by rw [hcrashed]; rfl⟩ hdead
    exact frontier_slide h hslide
      (hslides raw input n seqs base he hrun hraw hslide)

/-- Every event of the sender keeps the frontier and does not move the base
back, if the acknowledgements that it handles are not ahead of the receiver. -/
theorem frontier_step (hwf : s.WellFormed)
    (h : (s.lane addr).Frontier cfg m) {e : Event} {expected : ℕ}
    (hbase : (s.lane addr).base.getD 0 ≤ expected) (hexpected : expected ≤ m)
    (hack : ∀ raw input n, e = .incoming raw addr input → IsAck raw n →
      n ≤ expected) :
    ((step cfg s e).lane addr).Frontier cfg (advanceFrontier cfg s addr e m) ∧
      (s.lane addr).base.getD 0 ≤ ((step cfg s e).lane addr).base.getD 0 ∧
      ((step cfg s e).lane addr).base.getD 0 ≤ expected := by
  refine ⟨?_, ?_⟩
  · apply frontier_step_of_slides hwf h
    intro raw input n seqs base he _ hraw _
    exact (hack raw input n he hraw).trans hexpected
  · rcases base_step h (step_refines hwf e addr) with
      hsame | ⟨raw, input, n, he, hraw, hmoved, hlt⟩
    · rw [hsame]
      exact ⟨le_rfl, hbase⟩
    · rw [hmoved]
      exact ⟨hlt.le, hack raw input n he hraw⟩

/-! ## The receiver -/

/-- No acknowledgement that the receiver has sent is ahead of it. -/
def NotAhead (l : Lane) : Prop :=
  ∀ raw ∈ l.wire, ∀ n, IsAck raw n → n ≤ l.expected

/-- The receiver moves on by one datagram, the one that it expects. -/
theorem receiver_step {fails : SweepInput → Prop} {l l' : Lane} {e : Event}
    (hl : l.Labelled) (h : NotAhead l)
    (hstep : Lane.Step cfg discipline fails l e l') :
    NotAhead l' ∧ (l'.expected = l.expected ∨
      l'.expected = l.expected + 1 ∧
        ∃ raw input payload, e = .incoming raw l.peer input ∧
          IsData raw l.expected payload) := by
  rcases hstep.receiving hl with
    ⟨hexpected, -, -, hwire⟩ | ⟨raw, input, seq, payload, rfl, hraw⟩
  · refine ⟨fun raw hmem n hack => ?_, Or.inl hexpected⟩
    rw [hexpected]
    rcases hwire raw hmem with hold | ⟨q, payload, -, hdata⟩
    · exact h raw hold n hack
    · exact absurd hack hdata.not_isAck
  obtain ⟨hackFor, hreceive⟩ : (receive l seq payload).ackFor =
      (receive l seq payload).expected ∧
        ((receive l seq payload).expected = l.expected ∨
          (receive l seq payload).expected = l.expected + 1 ∧
            seq = l.expected) := by
    unfold receive
    split_ifs with heq
    · exact ⟨rfl, Or.inr ⟨rfl, heq⟩⟩
    · exact ⟨rfl, Or.inl rfl⟩
  have hmoved : (receive l seq payload).expected = l.expected ∨
      (receive l seq payload).expected = l.expected + 1 ∧
        ∃ raw' input' payload', Event.incoming raw l.peer input =
          .incoming raw' l.peer input' ∧ IsData raw' l.expected payload' := by
    rcases hreceive with hsame | ⟨hnext, rfl⟩
    · exact Or.inl hsame
    · exact Or.inr ⟨hnext, raw, input, payload, rfl, hraw⟩
  have hkept : ∀ raw ∈ l.wire, ∀ n, IsAck raw n →
      n ≤ (receive l seq payload).expected := by
    intro raw hmem n hack
    have hle := h raw hmem n hack
    omega
  cases hstep with
  | idle => exact ⟨h, Or.inl rfl⟩
  | crash => exact ⟨h, Or.inl rfl⟩
  | ack hack => exact absurd hack hraw.not_isAck
  | reply hraw' hpacket =>
      obtain ⟨rfl, rfl⟩ := hraw.unique hraw'
      refine ⟨fun raw' hmem n hack => ?_, hmoved⟩
      rcases List.mem_cons.mp hmem with rfl | hold
      · rw [hack.unique (Core.isAck_of_ackPacket hpacket)]
        exact hackFor.le
      · exact hkept raw' hold n hack
  | mute hraw' =>
      obtain ⟨rfl, rfl⟩ := hraw.unique hraw'
      exact ⟨hkept, hmoved⟩
  | muteCrash hraw' =>
      obtain ⟨rfl, rfl⟩ := hraw.unique hraw'
      exact ⟨hkept, hmoved⟩

/-! ## The two ends together -/

/-- The windows of the two ends agree, with the frontier of the sender at
`m`. -/
structure Agree (cfgT cfgR : Config) (txAddr rxAddr : Address)
    (n : Link (endpoint cfgT) (endpoint cfgR)) (m : ℕ) : Prop where
  tx : (endpoint cfgT).WellFormed n.tx
  rx : (endpoint cfgR).WellFormed n.rx
  frontier : (lane n.tx rxAddr).Frontier cfgT m
  notAhead : NotAhead (lane n.rx txAddr)
  base_le : (lane n.tx rxAddr).base.getD 0 ≤ (lane n.rx txAddr).expected
  expected_le : (lane n.rx txAddr).expected ≤ m

/-- A step of a link together with the frontier of the sender. -/
def watchStep (cfgT cfgR : Config) (txAddr rxAddr : Address)
    (p : Link (endpoint cfgT) (endpoint cfgR) × ℕ) (e : LinkEvent) :
    Link (endpoint cfgT) (endpoint cfgR) × ℕ :=
  (Link.step (endpoint cfgT) (endpoint cfgR) txAddr rxAddr p.1 e,
    match Link.txEvent (endpoint cfgT) (endpoint cfgR) txAddr rxAddr p.1 e with
    | none => p.2
    | some e => advanceFrontier cfgT p.1.tx rxAddr e p.2)

section

variable {cfgT cfgR : Config} {txAddr rxAddr : Address}
  {n : Link (endpoint cfgT) (endpoint cfgR)}

theorem agree_init : Agree cfgT cfgR txAddr rxAddr
    (Link.init (endpoint cfgT) (endpoint cfgR)) 0 where
  tx := Endpoint.WellFormed.init
  rx := Endpoint.WellFormed.init
  frontier := Lane.frontier_fresh cfgT rxAddr
  notAhead := fun _ hraw => absurd hraw List.not_mem_nil
  base_le := le_rfl
  expected_le := le_rfl

/-- The sender takes a step. -/
theorem Agree.txStep (h : Agree cfgT cfgR txAddr rxAddr n m) (e : Event)
    (hack : ∀ raw input k, e = .incoming raw rxAddr input → IsAck raw k →
      k ≤ (lane n.rx txAddr).expected) :
    Agree cfgT cfgR txAddr rxAddr ⟨step cfgT n.tx e, n.rx⟩
        (advanceFrontier cfgT n.tx rxAddr e m) ∧
      (lane n.tx rxAddr).base.getD 0 ≤
        (lane (step cfgT n.tx e) rxAddr).base.getD 0 := by
  obtain ⟨hfrontier, hmono, hbase⟩ :=
    frontier_step h.tx h.frontier h.base_le h.expected_le hack
  exact ⟨⟨h.tx.step e, h.rx, hfrontier, h.notAhead, hbase,
    h.expected_le.trans (le_advanceFrontier cfgT n.tx rxAddr e m)⟩, hmono⟩

/-- The receiver takes a step. -/
theorem Agree.rxStep (h : Agree cfgT cfgR txAddr rxAddr n m) (e : Event)
    (hdata : ∀ raw input seq payload, e = .incoming raw txAddr input →
      IsData raw seq payload → seq < m) :
    Agree cfgT cfgR txAddr rxAddr ⟨n.tx, step cfgR n.rx e⟩ m ∧
      (lane n.rx txAddr).expected ≤ (lane (step cfgR n.rx e) txAddr).expected := by
  have hstep : Lane.Step cfgR discipline (PeerFails cfgR n.rx txAddr)
      (lane n.rx txAddr) e (lane (step cfgR n.rx e) txAddr) :=
    step_refines h.rx e txAddr
  obtain ⟨hnotAhead, hmoved⟩ :=
    receiver_step (h.rx txAddr).labelled h.notAhead hstep
  have hbounds : (lane n.rx txAddr).expected ≤
        (lane (step cfgR n.rx e) txAddr).expected ∧
      (lane (step cfgR n.rx e) txAddr).expected ≤ m := by
    rcases hmoved with hsame | ⟨hnext, raw, input, payload, he, hraw⟩
    · rw [hsame]
      exact ⟨le_rfl, h.expected_le⟩
    · rw [hnext]
      exact ⟨Nat.le_succ _, hdata raw input _ payload he hraw⟩
  exact ⟨⟨h.tx, h.rx.step e, h.frontier, hnotAhead, h.base_le.trans hbounds.1,
    hbounds.2⟩, hbounds.1⟩

/-- Every step of the link keeps the windows in agreement and moves neither the
base nor the expected number back. -/
theorem Agree.watchStep (h : Agree cfgT cfgR txAddr rxAddr n m)
    (e : LinkEvent) :
    let p := GoBackNTransport.watchStep cfgT cfgR txAddr rxAddr (n, m) e
    Agree cfgT cfgR txAddr rxAddr p.1 p.2 ∧
      (lane n.tx rxAddr).base.getD 0 ≤ (lane p.1.tx rxAddr).base.getD 0 ∧
      (lane n.rx txAddr).expected ≤ (lane p.1.rx txAddr).expected := by
  rcases e with e | e | ⟨raw, flip, input⟩ | ⟨raw, flip, input⟩
  · simp only [GoBackNTransport.watchStep, Link.step, Link.txEvent]
    split_ifs with hfrom
    · exact ⟨h, le_rfl, le_rfl⟩
    · obtain ⟨hagree, hmono⟩ := h.txStep e fun _ input k he => by
        simp [he, Event.isFrom] at hfrom
      exact ⟨hagree, hmono, le_rfl⟩
  · simp only [GoBackNTransport.watchStep, Link.step, Link.txEvent]
    split_ifs with hfrom
    · exact ⟨h, le_rfl, le_rfl⟩
    · obtain ⟨hagree, hmono⟩ := h.rxStep e fun raw input seq payload he => by
        simp [he, Event.isFrom] at hfrom
      exact ⟨hagree, le_rfl, hmono⟩
  · simp only [GoBackNTransport.watchStep, Link.step, Link.txEvent]
    split_ifs with hmem
    · have hwire : raw ∈ (lane n.tx rxAddr).wire := mem_toPeer.mpr hmem
      have hverify := (h.tx rxAddr).labelled.verify hwire
      obtain ⟨hagree, hmono⟩ := h.rxStep
        (.incoming (corrupt raw flip) txAddr input)
        fun raw' input' seq payload he hdata => by
          cases he
          exact h.frontier.sent raw hwire seq payload (hdata.corrupt hverify)
      exact ⟨hagree, le_rfl, hmono⟩
    · exact ⟨h, le_rfl, le_rfl⟩
  · simp only [GoBackNTransport.watchStep, Link.step, Link.txEvent]
    split_ifs with hmem
    · have hwire : raw ∈ (lane n.rx txAddr).wire := mem_toPeer.mpr hmem
      have hverify := (h.rx txAddr).labelled.verify hwire
      obtain ⟨hagree, hmono⟩ := h.txStep
        (.incoming (corrupt raw flip) rxAddr input)
        fun raw' input' k he hack => by
          cases he
          exact h.notAhead raw hwire k (hack.corrupt hverify)
      exact ⟨hagree, hmono, le_rfl⟩
    · exact ⟨h, le_rfl, le_rfl⟩

theorem Agree.run {p : Link (endpoint cfgT) (endpoint cfgR) × ℕ}
    (h : Agree cfgT cfgR txAddr rxAddr p.1 p.2) (es : List LinkEvent) :
    let p' := UdpArq.run
      (GoBackNTransport.watchStep cfgT cfgR txAddr rxAddr) p es
    Agree cfgT cfgR txAddr rxAddr p'.1 p'.2 ∧
      (lane p.1.tx rxAddr).base.getD 0 ≤ (lane p'.1.tx rxAddr).base.getD 0 ∧
      (lane p.1.rx txAddr).expected ≤ (lane p'.1.rx txAddr).expected := by
  induction es generalizing p with
  | nil => exact ⟨h, le_rfl, le_rfl⟩
  | cons e es ih =>
      obtain ⟨hagree, hbase, hexpected⟩ := h.watchStep e
      obtain ⟨hagree', hbase', hexpected'⟩ := ih hagree
      exact ⟨hagree', hbase.trans hbase', hexpected.trans hexpected'⟩

end

/-- In every state of a link, with the frontier `m` of the sender, the base, the
number that the receiver expects and `m` are in this order and span at most a
window; what is outstanding lies between base and `m` and is what
`_sent_items` holds, what is pending lies above, and what lies between and is
not outstanding has failed.  Neither the base nor the expected number ever
decreases. -/
theorem goBackN_windows_agree (cfgT cfgR : Config) (txAddr rxAddr : Address)
    (es : List LinkEvent) :
    let start := (Link.init (endpoint cfgT) (endpoint cfgR), 0)
    let p := run (watchStep cfgT cfgR txAddr rxAddr) start es
    let tx : GoBackNTransport := p.1.tx
    let rx : GoBackNTransport := p.1.rx
    let m := p.2
    let base := tx.base.getD rxAddr 0
    let expected := rx.expected.getD txAddr 0
    (base ≤ expected ∧ expected ≤ m ∧ m ≤ base + cfgT.windowSize) ∧
    (∀ q ∈ (sub tx.outstanding rxAddr).keys, base ≤ q ∧ q < m) ∧
    (∀ q, q ∈ (sub tx.outstanding rxAddr).keys ↔
      q ∈ (sub tx.sentItems rxAddr).keys) ∧
    (∀ q ∈ (sub tx.pending rxAddr).keys, m ≤ q) ∧
    (∀ q, base ≤ q → q < m → q ∈ (sub tx.outstanding rxAddr).keys ∨
      (tx.status rxAddr q).error ≠ none) ∧
    ∀ es', let p' := run (watchStep cfgT cfgR txAddr rxAddr) start (es ++ es')
      let tx' : GoBackNTransport := p'.1.tx
      let rx' : GoBackNTransport := p'.1.rx
      base ≤ tx'.base.getD rxAddr 0 ∧ expected ≤ rx'.expected.getD txAddr 0 := by
  intro start p tx rx m base expected
  have hstart : Agree cfgT cfgR txAddr rxAddr start.1 start.2 := agree_init
  have h : Agree cfgT cfgR txAddr rxAddr p.1 p.2 := (hstart.run es).1
  refine ⟨⟨h.base_le, h.expected_le, h.frontier.le_window⟩,
    h.frontier.outstanding, ?_, ?_, h.frontier.entered, fun es' => ?_⟩
  · exact fun q => ((h.tx rxAddr).labelled.keys q).symm
  · exact fun q hq => h.frontier.waiting q (List.mem_append_left _ hq)
  · intro p' tx' rx'
    have hp' : p' = run (watchStep cfgT cfgR txAddr rxAddr) p es' :=
      run_append start es es'
    obtain ⟨-, hbase, hexpected⟩ := h.run es'
    rw [← hp'] at hbase hexpected
    exact ⟨hbase, hexpected⟩

end GoBackNTransport

end UdpArq
