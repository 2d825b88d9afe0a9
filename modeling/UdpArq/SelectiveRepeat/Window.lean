import UdpArq.SelectiveRepeat.Refinement
import UdpArq.Transport.Link
import UdpArq.Transport.Window

/-!
# The send window of Selective Repeat

`_handle_ack` advances the base "past all acknowledged packets", but all that it
tests is whether a number is outstanding.  When an acknowledgement empties the
window while datagrams of the peer still wait, the base runs past them to the
counter.  In every other step the window is kept.
-/

namespace UdpArq

namespace SelectiveRepeatTransport

open UdpArq.Core

/-- Sliding the base keeps the window exactly if packets stay outstanding or
nothing waits. -/
theorem slide_inWindow_iff {cfg : Config} {l : Lane} (h : l.InWindow cfg)
    (hwf : l.WellFormed) {n base : ℕ} {seqs : List ℕ}
    (hslide : slide l n = some (seqs, base)) :
    ((l.complete seqs).slideTo base).InWindow cfg ↔
      (l.outstanding.eraseAll seqs = ∅ → l.waiting = []) := by
  obtain ⟨old, acked, hold, rfl, hle, hmem, rfl, rfl⟩ := slide_eq_some hslide
  obtain ⟨lo, k, hspan⟩ := hwf.span
  obtain ⟨hmove, hmax, hskip, hstop⟩ := advanceBase_spec
    (l.outstanding.eraseAll [acked]) l.nextSeq (l.nextSeq - old) old (by omega)
  have hbound : old ≤ l.nextSeq := (hwf.ready.base_le old hold).1
  rw [max_eq_right hbound] at hmax
  constructor
  · intro hwindow hempty
    by_contra hne
    obtain ⟨q, hq⟩ := List.exists_mem_of_ne_nil _ hne
    have hbelow := hwindow.base_le _ rfl q hq
    have hlt : q < l.nextSeq := by
      rw [hspan.waiting_eq, List.mem_range'_1] at hq
      have hle := hspan.le_nextSeq
      omega
    have hin := hstop (hbelow.trans_lt hlt)
    rw [hempty] at hin
    simp at hin
  · intro hnone
    have hfirst : ∀ q ∈ (l.outstanding.eraseAll [acked]).keys,
        advanceBase (l.outstanding.eraseAll [acked]) l.nextSeq
          (l.nextSeq - old) old ≤ q := by
      intro q hq
      by_contra hlt
      obtain ⟨b, hb, hlo, -⟩ := h.window q (Dict.mem_keys_of_eraseAll hq)
      rw [hold, Option.some.injEq] at hb
      exact hskip q (hb.trans_le hlo) (not_le.mp hlt) hq
    constructor
    · intro q hq
      obtain ⟨b, hb, -, hhi⟩ := h.window q (Dict.mem_keys_of_eraseAll hq)
      rw [hold, Option.some.injEq] at hb
      subst hb
      exact ⟨_, rfl, hfirst q hq, hhi.trans_le (Nat.add_le_add_right hmove _)⟩
    · intro b hb q hq
      cases hb
      have hwaits : q ∈ l.waiting := hq
      have hout : l.outstanding.eraseAll [acked] ≠ ∅ := by
        intro hempty
        simp [hnone hempty] at hwaits
      obtain ⟨q', x, hx⟩ := Dict.exists_mem_of_ne_empty hout
      have hq' := Dict.mem_keys.mpr ⟨x, hx⟩
      have hlt := hspan.outstanding_lt q' (Dict.mem_keys_of_eraseAll hq')
      rw [hspan.waiting_eq, List.mem_range'_1] at hwaits
      exact (hfirst q' hq').trans (hlt.le.trans hwaits.1)

variable (cfg : Config)

/-- For every peer: what is outstanding lies in the window, at most
`window_size` packets are in flight, and the base does not exceed any number
that is outstanding, pending or queued. -/
def InWindow (s : SelectiveRepeatTransport) : Prop :=
  ∀ addr,
    (∀ q ∈ (sub s.outstanding addr).keys, ∃ base,
      s.base.get? addr = some base ∧ base ≤ q ∧ q < base + cfg.windowSize) ∧
    (sub s.outstanding addr).keys.length ≤ cfg.windowSize ∧
    ∀ base, s.base.get? addr = some base → ∀ q,
      (q ∈ (sub s.outstanding addr).keys ∨ q ∈ (sub s.pending addr).keys ∨
        ∃ item ∈ s.outbound, item.addr = addr ∧ item.seq = q) → base ≤ q

/-- The event is the acknowledgement of the only packet outstanding for a peer
that has further datagrams pending or queued. -/
def Overtakes (s : SelectiveRepeatTransport) : Event → Prop
  | .incoming raw addr _ => s.crashed = none ∧
      ∃ seq, IsAck raw (seq + 1) ∧ (sub s.outstanding addr).keys = [seq] ∧
        ((sub s.pending addr).keys ≠ [] ∨ ∃ item ∈ s.outbound, item.addr = addr)
  | _ => False

variable {cfg} {s : SelectiveRepeatTransport}

theorem mem_waiting {addr : Address} {q : ℕ} :
    q ∈ (s.lane addr).waiting ↔ q ∈ (sub s.pending addr).keys ∨
      ∃ item ∈ s.outbound, item.addr = addr ∧ item.seq = q := by
  simp [Lane.waiting, lane, Core.lane, and_assoc]

theorem inWindow_iff :
    InWindow cfg s ↔ ∀ addr, (s.lane addr).InWindow cfg := by
  constructor
  · intro h addr
    obtain ⟨hwindow, -, hbase⟩ := h addr
    refine ⟨hwindow, fun base hb q hq => ?_⟩
    exact hbase base hb q (Or.inr (mem_waiting.mp hq))
  · intro h addr
    refine ⟨(h addr).window, (h addr).length_le, ?_⟩
    rintro base hb q (hq | hq)
    · obtain ⟨b, hb', hlo, -⟩ := (h addr).window q hq
      have heq := hb.symm.trans hb'
      rw [Option.some.injEq] at heq
      exact heq.trans_le hlo
    · exact (h addr).base_le base hb q (mem_waiting.mpr hq)

theorem waiting_ne_nil {addr : Address} :
    (s.lane addr).waiting ≠ [] ↔ (sub s.pending addr).keys ≠ [] ∨
      ∃ item ∈ s.outbound, item.addr = addr := by
  rw [Lane.waiting, ne_eq, List.append_eq_nil_iff, not_and_or]
  simp [lane, Core.lane]

theorem inWindow_init : InWindow cfg init := by
  rw [inWindow_iff]
  intro addr
  exact ⟨by simp [lane, Core.lane, init], by simp [lane, Core.lane, init]⟩

/-- What an acknowledgement makes of the lanes of a running transport. -/
theorem step_ack_lane (hwf : s.WellFormed) (hrun : s.crashed = none)
    {raw : Bytes} {n : ℕ} (hraw : IsAck raw n) (addr : Address)
    (input : IncomingInput) (b : Address) :
    (step cfg s (.incoming raw addr input)).lane b =
      match slide (s.lane addr) n with
      | none => s.lane b
      | some (seqs, base) =>
          if b = addr then ((s.lane b).complete seqs).slideTo base
          else s.lane b := by
  have hrun' : ¬ s.crashed.isSome := by simp [hrun]
  rw [step, if_neg hrun']
  exact handleIncoming_ack cfg hwf hrun' hraw addr input b

/-- A step keeps the windows exactly if it is not an acknowledgement that
overtakes datagrams that wait. -/
theorem step_inWindow_iff (hwf : s.WellFormed) (h : InWindow cfg s)
    (e : Event) : InWindow cfg (step cfg s e) ↔ ¬ Overtakes s e := by
  rw [inWindow_iff] at h ⊢
  constructor
  · intro hnext hovertakes
    cases e with
    | incoming raw addr input =>
        obtain ⟨hrun, seq, hraw, hkeys, hwaits⟩ := hovertakes
        have hmem : seq ∈ (s.lane addr).outstanding.keys :=
          hkeys ▸ List.mem_singleton_self seq
        obtain ⟨base, hbase, -, -⟩ := (h addr).window seq hmem
        obtain ⟨lo, k, hspan⟩ := (hwf addr).span
        have hlt : seq + 1 ≤ (s.lane addr).nextSeq := by
          have hlo := hspan.outstanding_lt seq hmem
          have hle := hspan.le_nextSeq
          omega
        obtain ⟨base', hslide⟩ : ∃ base',
            slide (s.lane addr) (seq + 1) = some ([seq], base') := by
          simp only [slide, hbase, if_neg (not_lt.mpr hlt), if_pos hmem]
          exact ⟨_, rfl⟩
        have hlane := hnext addr
        rw [step_ack_lane hwf hrun hraw, hslide] at hlane
        simp only [if_true] at hlane
        have hempty := (Dict.eraseAll_singleton_eq_empty_iff hmem).mpr hkeys
        exact waiting_ne_nil.mpr hwaits
          ((slide_inWindow_iff (h addr) (hwf addr) hslide).mp hlane hempty)
    | _ => exact hovertakes
  · intro hkeeps addr
    by_cases hidle : step cfg s e = s
    · rw [hidle]
      exact h addr
    refine (h addr).step (hwf addr) (step_refines hwf e addr) ?_
    rintro raw input n seqs base rfl hraw hslide
    have hrun : s.crashed = none := by
      by_contra hcrashed
      exact hidle (by simp [step, Option.isSome_iff_ne_none.mpr hcrashed])
    refine (slide_inWindow_iff (h addr) (hwf addr) hslide).mpr fun hempty => ?_
    by_contra hwaits
    obtain ⟨old, acked, -, rfl, -, hmem, rfl, -⟩ := slide_eq_some hslide
    exact hkeeps ⟨hrun, acked, hraw,
      (Dict.eraseAll_singleton_eq_empty_iff hmem).mp hempty,
      waiting_ne_nil.mp hwaits⟩

/-- The windows of the sender are kept throughout a run exactly if no
acknowledgement overtakes datagrams that wait. -/
theorem inWindow_throughout_iff (cfgT cfgR : Config) (txAddr rxAddr : Address)
    (es : List LinkEvent) :
    let T := endpoint cfgT
    let R := endpoint cfgR
    Throughout (Link.step T R txAddr rxAddr) (fun n => InWindow cfgT n.tx)
        (Link.init T R) es ↔
      Meets (Link.step T R txAddr rxAddr)
        (fun n e => ∀ e', Link.txEvent T R txAddr rxAddr n e = some e' →
          ¬ Overtakes n.tx e') (Link.init T R) es := by
  intro T R
  refine throughout_iff_meets (fun n : Link T R => T.WellFormed n.tx)
    (fun n e hwf => Link.wellFormed_step hwf e) ?_
    Endpoint.WellFormed.init inWindow_init es
  intro n e hwf h
  rw [Link.tx_step]
  cases Link.txEvent T R txAddr rxAddr n e with
  | none => simpa using h
  | some e' =>
      have hiff : InWindow cfgT (T.step n.tx e') ↔ ¬ Overtakes n.tx e' :=
        step_inWindow_iff hwf h e'
      simpa using hiff

/-- The acknowledgement of datagram 0 arrives while datagram 1 is queued. -/
def overtakenRun (rxAddr : Address) : List LinkEvent :=
  let packet := (dataPacket 0 [7]).toOption.getD []
  let ack := (ackPacket 1).toOption.getD []
  [.tx (.sendto [7] rxAddr), .tx .drain, .tx (.pump rxAddr ⟨0, 0, none⟩),
    .toRx packet none ⟨0, 0, none⟩, .tx (.sendto [8] rxAddr),
    .toTx ack none ⟨0, 0, none⟩]

/-- The base passes datagram 1, which has never been sent. -/
theorem overtakenRun_not_inWindow :
    let T := endpoint {}
    ¬ InWindow {} (Link.after T T ("a", 1) ("b", 2)
      (overtakenRun ("b", 2))).tx := by
  intro T h
  have hbase := (h ("b", 2)).2.2 2 (by decide +kernel) 1 (by decide +kernel)
  exact absurd hbase (by decide)

end SelectiveRepeatTransport

end UdpArq
