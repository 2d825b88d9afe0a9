import UdpArq.SelectiveRepeat.Refinement
import UdpArq.GoBackN.Refinement

/-!
# The order of acknowledgements does not matter

Two acknowledgements that arrive for one peer may change places, and one that
has been taken in may arrive again.  The cumulative base of Go-Back-N is a
maximum; that of Selective Repeat is the first gap in what is outstanding, and
a gap can be reached in several moves.
-/

namespace UdpArq

open UdpArq.Core

namespace Lane

theorem complete_complete (l : Lane) (xs ys : List ℕ) :
    (l.complete xs).complete ys = l.complete (xs ++ ys) := by
  have hstatus : ((l.complete xs).complete ys).status =
      (l.complete (xs ++ ys)).status := by
    funext q
    simp only [complete, Dict.mem_keys_eraseAll, List.mem_append]
    by_cases hsent : q ∈ l.sentItems.keys
    · by_cases hx : q ∈ xs <;> simp [hsent, hx]
    · simp [hsent]
  apply Lane.ext <;> first | rfl | skip
  · exact (Dict.eraseAll_append _ xs ys).symm
  · exact (Dict.eraseAll_append _ xs ys).symm
  · exact hstatus

theorem complete_congr (l : Lane) {xs ys : List ℕ} (h : ∀ q, q ∈ xs ↔ q ∈ ys) :
    l.complete xs = l.complete ys := by
  simp only [complete, Dict.eraseAll_congr _ h, h]

end Lane

/-! ## Go-Back-N -/

namespace GoBackNTransport

variable {l : Lane} {base m n : ℕ}

theorem acked_of_new (hbase : l.base = some base) (hnew : base < n)
    (hnext : n ≤ l.nextSeq) :
    l.acked slide n =
      (l.complete (l.outstanding.keys.filter fun q => q < n)).slideTo n := by
  simp [Lane.acked, slide, hbase, not_le.mpr hnew, not_lt.mpr hnext]

theorem acked_of_stale (hbase : l.base = some base) (hstale : n ≤ base) :
    l.acked slide n = l := by
  simp [Lane.acked, slide, hbase, hstale]

theorem acked_of_beyond (hbeyond : l.nextSeq < n) : l.acked slide n = l := by
  unfold Lane.acked slide
  cases l.base with
  | none => rfl
  | some base => by_cases hstale : n ≤ base <;> simp [hstale, hbeyond]

theorem acked_of_base_none (hbase : l.base = none) : l.acked slide n = l := by
  simp [Lane.acked, slide, hbase]

theorem nextSeq_acked : (l.acked slide n).nextSeq = l.nextSeq := by
  unfold Lane.acked
  cases slide l n <;> rfl

/-- The larger of two acknowledgements decides. -/
theorem acked_acked_of_le (hle : m ≤ n) (hnext : n ≤ l.nextSeq) :
    (l.acked slide m).acked slide n = l.acked slide n ∧
      (l.acked slide n).acked slide m = l.acked slide n := by
  cases hbase : l.base with
  | none => simp only [acked_of_base_none hbase, and_self]
  | some base =>
      by_cases hn : n ≤ base
      · rw [acked_of_stale hbase hn, acked_of_stale hbase (hle.trans hn)]
        exact ⟨acked_of_stale hbase hn, rfl⟩
      have hnew := acked_of_new hbase (not_le.mp hn) hnext
      have hbase' : (l.acked slide n).base = some n := by
        rw [hnew]
        rfl
      refine ⟨?_, acked_of_stale hbase' hle⟩
      by_cases hm : m ≤ base
      · rw [acked_of_stale hbase hm]
      have hfirst := acked_of_new hbase (not_le.mp hm) (hle.trans hnext)
      have hbaseM : (l.acked slide m).base = some m := by
        rw [hfirst]
        rfl
      rcases hle.eq_or_lt with rfl | hlt
      · exact acked_of_stale hbaseM le_rfl
      · rw [acked_of_new hbaseM hlt (nextSeq_acked.symm ▸ hnext), hnew, hfirst]
        change ((l.complete _).complete _).slideTo n = _
        rw [Lane.complete_complete]
        congr 1
        apply Lane.complete_congr
        intro q
        simp only [Lane.slideTo, Lane.complete, List.mem_append,
          List.mem_filter, Dict.mem_keys_eraseAll, decide_eq_true_iff]
        constructor
        · rintro (⟨hq, hqm⟩ | ⟨⟨hq, -⟩, hqn⟩)
          · exact ⟨hq, hqm.trans hlt⟩
          · exact ⟨hq, hqn⟩
        · rintro ⟨hq, hqn⟩
          by_cases hqm : q < m
          · exact Or.inl ⟨hq, hqm⟩
          · exact Or.inr ⟨⟨hq, fun h => hqm h.2⟩, hqn⟩

theorem acked_comm (l : Lane) (m n : ℕ) :
    (l.acked slide m).acked slide n = (l.acked slide n).acked slide m := by
  rcases le_or_gt m l.nextSeq with hm | hm
  · rcases le_or_gt n l.nextSeq with hn | hn
    · rcases le_total m n with hle | hle
      · obtain ⟨h, h'⟩ := acked_acked_of_le hle hn
        rw [h, h']
      · obtain ⟨h, h'⟩ := acked_acked_of_le hle hm
        rw [h, h']
    · rw [acked_of_beyond (nextSeq_acked.symm ▸ hn), acked_of_beyond hn]
  · have hm' : (l.acked slide n).nextSeq < m := nextSeq_acked.symm ▸ hm
    rw [acked_of_beyond hm, acked_of_beyond hm']

theorem acked_idem (l : Lane) (n : ℕ) :
    (l.acked slide n).acked slide n = l.acked slide n := by
  rcases le_or_gt n l.nextSeq with hn | hn
  · exact (acked_acked_of_le le_rfl hn).1
  · exact acked_of_beyond (nextSeq_acked.symm ▸ hn)

end GoBackNTransport

/-! ## Selective Repeat -/

namespace SelectiveRepeatTransport

variable {l : Lane} {base q : ℕ}

theorem advanceBase_eq {outstanding : Dict ℕ Bytes} {nextSeq base base' : ℕ}
    (hle : base ≤ base') (hmax : base' ≤ max base nextSeq)
    (hskip : ∀ q, base ≤ q → q < base' → q ∉ outstanding.keys)
    (hstop : base' < nextSeq → base' ∈ outstanding.keys) :
    advanceBase outstanding nextSeq (nextSeq - base) base = base' := by
  obtain ⟨hle', hmax', hskip', hstop'⟩ := advanceBase_spec outstanding nextSeq
    (nextSeq - base) base (by omega)
  rcases lt_trichotomy (advanceBase outstanding nextSeq (nextSeq - base) base)
    base' with hlt | heq | hgt
  · exact absurd (hstop' (by omega)) (hskip _ hle' hlt)
  · exact heq
  · exact absurd (hstop (by omega)) (hskip' _ hle hgt)

/-- The base may stop at a gap that closes later. -/
theorem advanceBase_advanceBase {d d' : Dict ℕ Bytes} (nextSeq base : ℕ)
    (hsub : ∀ q ∈ d'.keys, q ∈ d.keys) :
    advanceBase d' nextSeq
        (nextSeq - advanceBase d nextSeq (nextSeq - base) base)
        (advanceBase d nextSeq (nextSeq - base) base) =
      advanceBase d' nextSeq (nextSeq - base) base := by
  obtain ⟨hle, hmax, hskip, -⟩ := advanceBase_spec d nextSeq (nextSeq - base)
    base (by omega)
  generalize advanceBase d nextSeq (nextSeq - base) base = mid at *
  obtain ⟨hle', hmax', hskip', hstop'⟩ := advanceBase_spec d' nextSeq
    (nextSeq - mid) mid (by omega)
  symm
  apply advanceBase_eq (hle.trans hle') (by omega) _ hstop'
  intro q hlo hhi
  by_cases hmid : q < mid
  · exact fun hq => hskip q hlo hmid (hsub q hq)
  · exact hskip' q (not_lt.mp hmid) hhi

/-- The packet `q` is there to be acknowledged. -/
def Awaits (l : Lane) (q : ℕ) : Prop :=
  q + 1 ≤ l.nextSeq ∧ q ∈ l.outstanding.keys

theorem acked_zero : l.acked slide 0 = l := by
  unfold Lane.acked slide
  cases l.base <;> simp

theorem acked_of_awaits (hbase : l.base = some base) (h : Awaits l q) :
    l.acked slide (q + 1) =
      (l.complete [q]).slideTo (advanceBase (l.outstanding.eraseAll [q])
        l.nextSeq (l.nextSeq - base) base) := by
  simp [Lane.acked, slide, hbase, not_lt.mpr h.1, h.2]

theorem acked_of_not_awaits (h : ¬ Awaits l q) :
    l.acked slide (q + 1) = l := by
  unfold Lane.acked
  cases hslide : slide l (q + 1) with
  | none => rfl
  | some result =>
      obtain ⟨-, acked, -, heq, hle, hmem, -⟩ := slide_eq_some hslide
      cases heq
      exact absurd ⟨hle, hmem⟩ h

theorem acked_of_base_none (hbase : l.base = none) (n : ℕ) :
    l.acked slide n = l := by
  simp [Lane.acked, slide, hbase]

theorem awaits_acked {p : ℕ} (h : Awaits (l.acked slide (q + 1)) p) :
    Awaits l p := by
  unfold Lane.acked at h
  cases hslide : slide l (q + 1) with
  | none => rwa [hslide] at h
  | some result =>
      rw [hslide] at h
      exact ⟨h.1, Dict.mem_keys_of_eraseAll h.2⟩

/-- Two packets of the window. -/
theorem acked_acked (hbase : l.base = some base) {p : ℕ} (hp : Awaits l p)
    (hq : Awaits l q) (hne : p ≠ q) :
    (l.acked slide (p + 1)).acked slide (q + 1) =
      (l.complete [p, q]).slideTo (advanceBase
        (l.outstanding.eraseAll [p, q]) l.nextSeq (l.nextSeq - base) base) := by
  have hfirst := acked_of_awaits hbase hp
  have hbase' : (l.acked slide (p + 1)).base =
      some (advanceBase (l.outstanding.eraseAll [p]) l.nextSeq
        (l.nextSeq - base) base) := by
    rw [hfirst]
    rfl
  have hq' : Awaits (l.acked slide (p + 1)) q := by
    rw [hfirst]
    refine ⟨hq.1, Dict.mem_keys_eraseAll.mpr ⟨hq.2, ?_⟩⟩
    simpa using hne.symm
  rw [acked_of_awaits hbase' hq', hfirst]
  change ((l.complete [p]).complete [q]).slideTo _ = _
  rw [Lane.complete_complete]
  congr 1
  exact advanceBase_advanceBase l.nextSeq base
    fun r hr => Dict.mem_keys_of_eraseAll hr

theorem acked_comm (l : Lane) (m n : ℕ) :
    (l.acked slide m).acked slide n = (l.acked slide n).acked slide m := by
  rcases m with _ | p
  · rw [acked_zero, acked_zero]
  rcases n with _ | q
  · rw [acked_zero, acked_zero]
  by_cases hp : Awaits l p
  · by_cases hq : Awaits l q
    · rcases hbase : l.base with _ | base
      · simp only [acked_of_base_none hbase]
      by_cases hne : p = q
      · rw [hne]
      rw [acked_acked hbase hp hq hne, acked_acked hbase hq hp (Ne.symm hne),
        Lane.complete_congr l fun r => (List.Perm.swap q p []).mem_iff,
        Dict.eraseAll_congr _ fun r => (List.Perm.swap q p []).mem_iff]
    · rw [acked_of_not_awaits hq,
        acked_of_not_awaits fun h => hq (awaits_acked h)]
  · rw [acked_of_not_awaits hp,
      acked_of_not_awaits fun h => hp (awaits_acked h)]

theorem acked_idem (l : Lane) (n : ℕ) :
    (l.acked slide n).acked slide n = l.acked slide n := by
  rcases n with _ | q
  · rw [acked_zero, acked_zero]
  by_cases hq : Awaits l q
  · rcases hbase : l.base with _ | base
    · simp only [acked_of_base_none hbase]
    · apply acked_of_not_awaits
      rw [acked_of_awaits hbase hq]
      intro h
      exact (Dict.mem_keys_eraseAll.mp h.2).2 (List.mem_singleton_self q)
  · rw [acked_of_not_awaits hq, acked_of_not_awaits hq]

end SelectiveRepeatTransport

/-! ## Lists of acknowledgements -/

/-- The same acknowledgement numbers, in whatever order and however often. -/
def SameNumbers (xs ys : List (Bytes × IncomingInput)) : Prop :=
  ∀ n, (∃ x ∈ xs, ackNumber x.1 = some n) ↔ ∃ y ∈ ys, ackNumber y.1 = some n

/-- The sending halves hold the same. -/
structure SameSender (c c' : Core) : Prop where
  base : ∀ b, c.base.get? b = c'.base.get? b
  outstanding : ∀ b, c.outstanding.get? b = c'.outstanding.get? b
  sentItems : ∀ b, c.sentItems.get? b = c'.sentItems.get? b
  status : ∀ b q, c.status b q = c'.status b q

/-- The order and the number of acknowledgements taken in from the state `s` do
not matter. -/
structure Insensitive {σ : Type} (core : σ → Core)
    (handle : σ → Bytes × IncomingInput → σ) (s : σ) : Prop where
  same : ∀ xs ys, SameNumbers xs ys →
    SameSender (core (run handle s xs)) (core (run handle s ys))
  base_le : ∀ pre post b, (core (run handle s pre)).base.getD b 0 ≤
    (core (run handle s (pre ++ post))).base.getD b 0

/-- The dictionaries of the window hold entries for the same peers. -/
def SamePeers (c c' : Core) : Prop :=
  ∀ b, (c'.outstanding.get? b).isSome = (c.outstanding.get? b).isSome ∧
    (c'.sentItems.get? b).isSome = (c.sentItems.get? b).isSome

theorem SamePeers.refl (c : Core) : SamePeers c c := fun _ => ⟨rfl, rfl⟩

theorem SamePeers.trans {c c' c'' : Core} (h : SamePeers c c')
    (h' : SamePeers c' c'') : SamePeers c c'' :=
  fun b => ⟨(h' b).1.trans (h b).1, (h' b).2.trans (h b).2⟩

theorem isSome_modify {ν : Type} (d : Dict Address ν) (addr b : Address)
    (f : ν → ν) : ((d.modify addr f).get? b).isSome = (d.get? b).isSome := by
  rw [Dict.get?_modify]
  split_ifs with hb
  · rw [hb, Option.isSome_map]
  · rfl

/-- No assignment of `_handle_ack` makes or drops an entry. -/
theorem Core.AckSteps.samePeers {addr : Address} {c c' : Core}
    (h : AckSteps addr c c') : SamePeers c c' := by
  induction h with
  | refl => exact .refl c
  | tail _ hstep ih =>
      refine ih.trans ?_
      cases hstep with
      | complete seqs =>
          exact fun b => ⟨isSome_modify _ addr b _, isSome_modify _ addr b _⟩
      | sample seq acknowledged now =>
          simp only [sampleRtt]
          split
          · exact .refl _
          · split
            · exact .refl _
            · split <;> exact .refl _
      | slide base => exact .refl _
      | crash e => exact .refl _

namespace Endpoint

variable {cfg : Config} {E : Endpoint cfg} {addr : Address}
  {handle : E.State → Bytes × IncomingInput → E.State}

/-- What is needed of a function that takes in acknowledgements from one
peer. -/
structure TakesAcks (E : Endpoint cfg) (addr : Address)
    (handle : E.State → Bytes × IncomingInput → E.State) : Prop where
  dead : ∀ s x, (E.core s).crashed.isSome → handle s x = s
  other : ∀ s x, ackNumber x.1 = none → handle s x = s
  lane : ∀ s x n, E.WellFormed s → ¬ (E.core s).crashed.isSome →
    ackNumber x.1 = some n → ∀ b, E.lane (handle s x) b =
      if b = addr then (E.lane s b).acked E.discipline.slide n
      else E.lane s b
  peers : ∀ s x, SamePeers (E.core s) (E.core (handle s x))
  comm : ∀ (l : Lane) (m n : ℕ),
    (l.acked E.discipline.slide m).acked E.discipline.slide n =
      (l.acked E.discipline.slide n).acked E.discipline.slide m
  idem : ∀ (l : Lane) (n : ℕ),
    (l.acked E.discipline.slide n).acked E.discipline.slide n =
      l.acked E.discipline.slide n

theorem wellFormed_acked {l : Lane} (h : l.WellFormed) {raw : Bytes} {n : ℕ}
    (hraw : ackNumber raw = some n) :
    (l.acked E.discipline.slide n).WellFormed := by
  obtain ⟨packet, hpacket⟩ := exists_isAck hraw
  unfold Lane.acked
  rcases hslide : E.discipline.slide l n with _ | ⟨seqs, base⟩
  · exact h
  · have hstep : Lane.Step cfg E.discipline (fun _ => False) l
        (.incoming packet l.peer ⟨0, 0, none⟩)
        ((l.complete seqs).slideTo base) := .ack hpacket hslide
    exact h.step hstep

/-- The base does not move back. -/
theorem base_acked_le (l : Lane) (n : ℕ) :
    l.base.getD 0 ≤ (l.acked E.discipline.slide n).base.getD 0 := by
  unfold Lane.acked
  rcases hslide : E.discipline.slide l n with _ | ⟨seqs, base⟩
  · exact le_rfl
  · obtain ⟨old, hold, hle, -⟩ := (E.discipline.slide_sound hslide).old
    rw [hold]
    exact hle

/-- The numbers that a list of packets acknowledges. -/
def numbers (xs : List (Bytes × IncomingInput)) : List ℕ :=
  xs.filterMap fun x => ackNumber x.1

namespace TakesAcks

variable (h : TakesAcks E addr handle) {s : E.State}
include h

/-- One packet that is taken in. -/
theorem lane_handle (hs : E.WellFormed s) (hrun : ¬ (E.core s).crashed.isSome)
    (x : Bytes × IncomingInput) (b : Address) :
    E.lane (handle s x) b = E.lane s b ∨ ∃ n, ackNumber x.1 = some n ∧
      E.lane (handle s x) b = (E.lane s b).acked E.discipline.slide n := by
  rcases hnumber : ackNumber x.1 with _ | n
  · left
    rw [h.other s x hnumber]
  · have hlane := h.lane s x n hs hrun hnumber b
    split_ifs at hlane
    · exact Or.inr ⟨n, rfl, hlane⟩
    · exact Or.inl hlane

theorem wellFormed (hs : E.WellFormed s) (x : Bytes × IncomingInput) :
    E.WellFormed (handle s x) := by
  intro b
  by_cases hcrashed : (E.core s).crashed.isSome
  · rw [h.dead s x hcrashed]
    exact hs b
  · rcases h.lane_handle hs hcrashed x b with hlane | ⟨n, hnumber, hlane⟩
    · rw [hlane]
      exact hs b
    · rw [hlane]
      exact wellFormed_acked (hs b) hnumber

theorem crashed_handle (hs : E.WellFormed s)
    (hrun : ¬ (E.core s).crashed.isSome) (x : Bytes × IncomingInput) :
    ¬ (E.core (handle s x)).crashed.isSome := by
  change ¬ (E.lane (handle s x) addr).crashed = true
  rcases h.lane_handle hs hrun x addr with hlane | ⟨n, -, hlane⟩
  · rw [hlane]
    exact hrun
  · rw [hlane, Lane.crashed_acked]
    exact hrun

/-- The lane of the peer takes in the numbers one after another. -/
theorem lane_run (hs : E.WellFormed s) (hrun : ¬ (E.core s).crashed.isSome)
    (xs : List (Bytes × IncomingInput)) (b : Address) :
    E.lane (run handle s xs) b =
      if b = addr then
        run (Lane.acked E.discipline.slide) (E.lane s b) (numbers xs)
      else E.lane s b := by
  induction xs generalizing s with
  | nil => split_ifs <;> rfl
  | cons x xs ih =>
      rw [run_cons, ih (h.wellFormed hs x) (h.crashed_handle hs hrun x)]
      rcases hnumber : ackNumber x.1 with _ | n
      · have hskip : numbers (x :: xs) = numbers xs := by
          simp [numbers, hnumber]
        rw [hskip, h.other s x hnumber]
      · have htake : numbers (x :: xs) = n :: numbers xs := by
          simp [numbers, hnumber]
        rw [htake, h.lane s x n hs hrun hnumber b]
        split_ifs <;> rfl

theorem run_dead (hcrashed : (E.core s).crashed.isSome)
    (xs : List (Bytes × IncomingInput)) : run handle s xs = s := by
  induction xs with
  | nil => rfl
  | cons x xs ih => rw [run_cons, h.dead s x hcrashed, ih]

/-- All lanes are the same after lists with the same numbers. -/
theorem lane_eq (hs : E.WellFormed s) {xs ys : List (Bytes × IncomingInput)}
    (hsame : SameNumbers xs ys) (b : Address) :
    E.lane (run handle s xs) b = E.lane (run handle s ys) b := by
  by_cases hcrashed : (E.core s).crashed.isSome
  · rw [h.run_dead hcrashed, h.run_dead hcrashed]
  · rw [h.lane_run hs hcrashed, h.lane_run hs hcrashed]
    split_ifs
    · apply run_eq_of_mem_iff h.comm h.idem
      simpa only [numbers, SameNumbers, List.mem_filterMap] using hsame
    · rfl

theorem peers_run (xs : List (Bytes × IncomingInput)) :
    SamePeers (E.core s) (E.core (run handle s xs)) := by
  induction xs generalizing s with
  | nil => exact .refl _
  | cons x xs ih => exact (h.peers s x).trans ih

end TakesAcks

end Endpoint

/-- A stored dictionary is known from its contents and whether it is there. -/
theorem get?_eq_of_sub {ν : Type} {d d' : Dict Address (Dict ℕ ν)}
    {b : Address} (hsub : sub d b = sub d' b)
    (hsome : (d.get? b).isSome = (d'.get? b).isSome) : d.get? b = d'.get? b := by
  unfold sub Dict.getD at hsub
  rcases hd : d.get? b with _ | x <;> rcases hd' : d'.get? b with _ | x'
  · rfl
  · simp [hd, hd'] at hsome
  · simp [hd, hd'] at hsome
  · simp only [hd, hd', Option.getD_some] at hsub
    rw [hsub]

namespace Endpoint.TakesAcks

variable {cfg : Config} {E : Endpoint cfg} {addr : Address}
  {handle : E.State → Bytes × IncomingInput → E.State}

/-- Order and repetition do not matter. -/
theorem sameSender (h : TakesAcks E addr handle) {s : E.State}
    (hs : E.WellFormed s) {xs ys : List (Bytes × IncomingInput)}
    (hsame : SameNumbers xs ys) :
    SameSender (E.core (run handle s xs)) (E.core (run handle s ys)) := by
  have hlane := h.lane_eq hs hsame
  refine ⟨fun b => congrArg Lane.base (hlane b), fun b => ?_, fun b => ?_,
    fun b q => congrFun (congrArg Lane.status (hlane b)) q⟩
  · apply get?_eq_of_sub (congrArg Lane.outstanding (hlane b))
    rw [(h.peers_run xs b).1, (h.peers_run ys b).1]
  · apply get?_eq_of_sub (congrArg Lane.sentItems (hlane b))
    rw [(h.peers_run xs b).2, (h.peers_run ys b).2]

theorem base_le (h : TakesAcks E addr handle) {s : E.State}
    (hs : E.WellFormed s) (pre post : List (Bytes × IncomingInput))
    (b : Address) :
    (E.core (run handle s pre)).base.getD b 0 ≤
      (E.core (run handle s (pre ++ post))).base.getD b 0 := by
  have hone : ∀ s, E.WellFormed s → ∀ x,
      (E.core s).base.getD b 0 ≤ (E.core (handle s x)).base.getD b 0 := by
    intro s hs x
    by_cases hcrashed : (E.core s).crashed.isSome
    · rw [h.dead s x hcrashed]
    · change (E.lane s b).base.getD 0 ≤ (E.lane (handle s x) b).base.getD 0
      rcases h.lane_handle hs hcrashed x b with hlane | ⟨n, -, hlane⟩
      · rw [hlane]
      · rw [hlane]
        exact base_acked_le _ n
  have hwf := run_invariant E.WellFormed (fun _ x hs => h.wellFormed hs x) hs
    pre
  rw [run_append]
  generalize run handle s pre = s' at hwf
  induction post generalizing s' with
  | nil => exact le_rfl
  | cons x post ih => exact (hone s' hwf x).trans (ih _ (h.wellFormed hwf x))

theorem insensitive (h : TakesAcks E addr handle) {s : E.State}
    (hs : E.WellFormed s) : Insensitive E.core handle s :=
  ⟨fun _ _ hsame => h.sameSender hs hsame, h.base_le hs⟩

end Endpoint.TakesAcks

/-- A `_handle_ack` whose effects on a lane commute and are idempotent. -/
theorem Endpoint.HandlesAcks.takesAcks {cfg : Config} {E : Endpoint cfg}
    (H : E.HandlesAcks) (addr : Address)
    (hcomm : ∀ (l : Lane) (m n : ℕ),
      (l.acked E.discipline.slide m).acked E.discipline.slide n =
        (l.acked E.discipline.slide n).acked E.discipline.slide m)
    (hidem : ∀ (l : Lane) (n : ℕ),
      (l.acked E.discipline.slide n).acked E.discipline.slide n =
        l.acked E.discipline.slide n) :
    E.TakesAcks addr fun s x =>
      if (E.core s).crashed.isSome then s else H.handle s x.1 addr x.2 where
  dead _ _ hcrashed := if_pos hcrashed
  other s x hnumber := by rw [H.other s x.1 addr x.2 hnumber, ite_self]
  lane s x n h hrun hnumber b := by
    rw [if_neg hrun]
    exact H.lane s x.1 addr x.2 n h hrun hnumber b
  peers s x := by
    split_ifs
    · exact .refl _
    · exact (H.steps s x.1 addr x.2).samePeers
  comm := hcomm
  idem := hidem

/-- `_handle_ack` for one packet of a list; a thread that has died takes
none. -/
def GoBackNTransport.takeAck (cfg : Config) (addr : Address)
    (s : GoBackNTransport) (x : Bytes × IncomingInput) : GoBackNTransport :=
  if s.crashed.isSome then s else handleAck cfg s x.1 addr x.2

/-- `_handle_ack` for one packet of a list; a thread that has died takes
none. -/
def SelectiveRepeatTransport.takeAck (cfg : Config) (addr : Address)
    (s : SelectiveRepeatTransport) (x : Bytes × IncomingInput) :
    SelectiveRepeatTransport :=
  if s.crashed.isSome then s else handleAck cfg s x.1 addr x.2

/-- Whatever state the run has reached: two lists of packets that acknowledge
the same numbers, taken in by `_handle_ack` one after another, leave a windowed
transport with the same window and the same completed datagrams, and the base
never moves back. -/
theorem acks_insensitive (cfg : Config) (es : List Event) (addr : Address) :
    Insensitive (fun s => s.toCore) (GoBackNTransport.takeAck cfg addr)
        (run (GoBackNTransport.step cfg) GoBackNTransport.init es) ∧
      Insensitive (fun s => s.toCore)
        (SelectiveRepeatTransport.takeAck cfg addr)
        (run (SelectiveRepeatTransport.step cfg) SelectiveRepeatTransport.init
          es) := by
  constructor
  · have htakes := (GoBackNTransport.handlesAcks cfg).takesAcks addr
      GoBackNTransport.acked_comm GoBackNTransport.acked_idem
    exact htakes.insensitive (Endpoint.wellFormed_run es)
  · have htakes := (SelectiveRepeatTransport.handlesAcks cfg).takesAcks addr
      SelectiveRepeatTransport.acked_comm SelectiveRepeatTransport.acked_idem
    exact htakes.insensitive (Endpoint.wellFormed_run es)

end UdpArq
