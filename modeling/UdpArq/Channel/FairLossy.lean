import UdpArq.Channel.Liveness
import UdpArq.Transport.Frame

/-!
# Fair-lossy channels

A channel loses and damages packets by its draws.  If the draws spare a packet
again and again as long as it is sent again and again, and the delivery thread
keeps running, the packet is handed to the socket again and again: the channel is
a fair-lossy link.
-/

namespace UdpArq

open Filter

namespace Channel

/-- The packet of an accepted call. -/
def Accepted.packet (x : Accepted) : Bytes × Address := (x.data, x.addr)

/-- The packet is neither lost nor damaged. -/
def Accepted.Spared (p : Impairments) (x : Accepted) : Prop :=
  ¬ x.Lost p ∧ x.carried p = x.packet

instance (p : Impairments) : DecidablePred (Accepted.Spared p) :=
  fun _ => inferInstanceAs (Decidable (_ ∧ _))

/-- The packets that have been accepted. -/
def offered (c : Channel) : List (Bytes × Address) :=
  c.accepted.map Accepted.packet

/-- The packets that have been accepted and are neither lost nor damaged. -/
def spared (p : Impairments) (c : Channel) : List (Bytes × Address) :=
  (c.accepted.filter fun x => x.Spared p).map Accepted.packet

/-- A spared packet is among the copies that the channel makes. -/
theorem Accepted.Spared.mem_copies {p : Impairments} {x : Accepted}
    (h : x.Spared p) : x.packet ∈ x.copies p := by
  rw [Accepted.copies, if_neg h.1, h.2]
  split_ifs
  · exact List.mem_cons_self
  · exact List.mem_cons_self

theorem spared_sublist (p : Impairments) (c : Channel) :
    (c.spared p).Sublist (c.accepted.flatMap (Accepted.copies p)) := by
  unfold spared
  induction c.accepted with
  | nil => exact List.Sublist.slnil
  | cons x xs ih =>
      rw [List.flatMap_cons, List.filter_cons]
      split_ifs with hspared
      · have hcopy : x.packet ∈ x.copies p :=
          (of_decide_eq_true hspared : x.Spared p).mem_copies
        exact (List.singleton_sublist.mpr hcopy).append ih
      · exact ih.trans (List.sublist_append_right _ _)

section

variable {p : Emulator} {bs : ℕ → List Event} {x : Bytes × Address}

/-- Step `i` accepts the packet. -/
def Accepts (p : Emulator) (bs : ℕ → List Event) (x : Bytes × Address) (i : ℕ) :
    Prop :=
  (moment p bs i).offered.count x < (moment p bs (i + 1)).offered.count x

/-- Step `i` accepts the packet and spares it. -/
def Spares (p : Emulator) (bs : ℕ → List Event) (x : Bytes × Address) (i : ℕ) :
    Prop :=
  ((moment p bs i).spared p.impairments).count x <
    ((moment p bs (i + 1)).spared p.impairments).count x

/-- Step `i` hands the packet to the socket. -/
def HandsOver (p : Emulator) (bs : ℕ → List Event) (x : Bytes × Address)
    (i : ℕ) : Prop :=
  (moment p bs i).handed.count x < (moment p bs (i + 1)).handed.count x

theorem handed_run (p : Emulator) (c : Channel) (es : List Event) :
    c.handed <+: (run (step p.impairments p.draws) c es).handed := by
  induction es generalizing c with
  | nil => exact List.prefix_rfl
  | cons e es ih =>
      refine List.IsPrefix.trans ?_ (ih _)
      have hpopped : c.popped <+: (step p.impairments p.draws c e).popped := by
        cases e with
        | sendto argument addr now =>
            rcases sendto_cases p.impairments p.draws c argument addr now with
              hsame | ⟨-, data, -, hstep⟩
            · rw [hsame]
            · rw [hstep, (schedules_impair p.impairments _ data addr _
                now).books.popped]
              exact List.prefix_rfl
        | wake now raised =>
            rcases wake_cases p.impairments p.draws c now raised with
              hsame | ⟨-, -, hstep⟩ | ⟨e, rest, -, -, hstep⟩
            · rw [hsame]
            · rw [hstep]
            · rw [hstep]
              exact List.prefix_append _ _
        | close =>
            rcases close_cases p.impairments p.draws c with hsame | ⟨-, hstep⟩
            · rw [hsame]
            · rw [hstep]
        | join =>
            rcases join_cases p.impairments p.draws c with hsame | ⟨-, hstep⟩
            · rw [hsame]
            · rw [hstep]
      exact hpopped.map _

/-- A packet that is spared again and again is handed over again and again. -/
theorem Ticking.hands_over_again (h : Ticking bs)
    (hspared : ∃ᶠ i in atTop, Spares p bs x i) :
    ∃ᶠ i in atTop, HandsOver p bs x i := by
  refine rises_again (f := fun i => ((moment p bs i).spared p.impairments).count x)
    (g := fun i => (moment p bs i).handed.count x) ?_ ?_ (fun i => ?_) hspared
  · intro i j hij
    have hgrow := (accepted_moment p bs hij).filter
      fun a => a.Spared p.impairments
    exact (hgrow.map Accepted.packet).sublist.count_le x
  · apply monotone_nat_of_le_succ
    intro i
    exact (handed_run p (moment p bs i) (bs i)).sublist.count_le x
  · obtain ⟨j, hj⟩ := (h.hands_over (p := p) i).exists
    exact ⟨j, ((spared_sublist p.impairments _).count_le x).trans (hj.count_le x)⟩

end

/-- A channel that runs for ever and conveys the packets `sent` for `addr` to a
reader: it has accepted what has been sent, its delivery thread keeps running,
its draws do not hit one packet for ever, and what is handed to the socket again
and again is read again and again. -/
structure Conveys (p : Emulator) (bs : ℕ → List Event)
    (sent : ℕ → List (Bytes × Address)) (addr : Address)
    (reads : Bytes → ℕ → Prop) : Prop where
  takes : ∀ i, (moment p bs i).offered = sent i
  ticking : Ticking bs
  lossy : ∀ x, (∃ᶠ i in atTop, Accepts p bs x i) →
    ∃ᶠ i in atTop, Spares p bs x i
  reads : ∀ raw, (∃ᶠ i in atTop, HandsOver p bs (raw, addr) i) →
    ∃ᶠ i in atTop, reads raw i

/-- Such a channel is a fair-lossy link. -/
theorem Conveys.again {p : Emulator} {bs : ℕ → List Event}
    {sent : ℕ → List (Bytes × Address)} {addr : Address}
    {reads : Bytes → ℕ → Prop} (h : Conveys p bs sent addr reads) {raw : Bytes}
    (hsent : ∃ᶠ i in atTop,
      (sent i).count (raw, addr) < (sent (i + 1)).count (raw, addr)) :
    ∃ᶠ i in atTop, (raw, addr) ∈ sent i ∧ reads raw i := by
  have haccepts : ∃ᶠ i in atTop, Accepts p bs (raw, addr) i := by
    apply hsent.mono
    intro i hi
    rwa [Accepts, h.takes, h.takes]
  have hreads := h.reads raw
    (h.ticking.hands_over_again (h.lossy (raw, addr) haccepts))
  obtain ⟨k, -, hk⟩ := exists_of_recurs hsent 0
  have hmem : (raw, addr) ∈ sent (k + 1) :=
    List.count_pos_iff.mp (Nat.zero_lt_of_lt hk)
  apply (hreads.and_eventually (eventually_ge_atTop (k + 1))).mono
  rintro i ⟨hread, hi⟩
  refine ⟨?_, hread⟩
  rw [← h.takes] at hmem ⊢
  exact ((accepted_moment p bs hi).map _).subset hmem

/-! ## Channels at rest -/

theorem moment_of_idle {p : Emulator} {bs : ℕ → List Event} {n : ℕ}
    (hwakes : ∀ i, n ≤ i → bs i = [.wake i false])
    (hempty : (moment p bs n).heap = []) (hopen : (moment p bs n).closed = false)
    {i : ℕ} (hi : n ≤ i) : moment p bs i = moment p bs n := by
  induction i, hi using Nat.le_induction with
  | base => rfl
  | succ i hi ih =>
      rw [moment_succ, hwakes i hi, ih]
      simp only [run_cons, run_nil, step, deliver, hempty, hopen,
        Bool.false_eq_true, if_false, ite_self]

/-- A channel that has come to rest conveys what has been sent so far. -/
theorem conveys_of_idle {p : Emulator} {bs : ℕ → List Event} {n : ℕ}
    {sent : ℕ → List (Bytes × Address)} (addr : Address)
    (reads : Bytes → ℕ → Prop)
    (hreading : ∀ i, ∀ t ∈ (bs i).filterMap Event.reading, t = (i : ℚ))
    (hwakes : ∀ i, n ≤ i → bs i = [.wake i false])
    (hempty : (moment p bs n).heap = []) (hopen : (moment p bs n).closed = false)
    (htakes : ∀ i ≤ n, (moment p bs i).offered = sent i)
    (hsent : ∀ i, n ≤ i → sent i = sent n) : Conveys p bs sent addr reads := by
  have hrest : ∀ i, n ≤ i → moment p bs i = moment p bs n := fun i hi =>
    moment_of_idle hwakes hempty hopen hi
  have hnever : ∀ f : Channel → ℕ,
      ¬ ∃ᶠ i in atTop, f (moment p bs i) < f (moment p bs (i + 1)) := by
    intro f hrises
    obtain ⟨i, hi, hlt⟩ := exists_of_recurs hrises n
    rw [hrest i hi, hrest (i + 1) (by omega)] at hlt
    exact lt_irrefl _ hlt
  refine ⟨fun i => ?_, ticking_of_reading hreading hwakes, fun x haccepts => ?_,
    fun raw hhands => ?_⟩
  · rcases le_total i n with hi | hi
    · exact htakes i hi
    · rw [hrest i hi, hsent i hi, htakes n le_rfl]
  · exact absurd haccepts (hnever fun c => c.offered.count x)
  · exact absurd hhands (hnever fun c => c.handed.count (raw, addr))

end Channel

end UdpArq
