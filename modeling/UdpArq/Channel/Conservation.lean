import UdpArq.Lib.Run
import UdpArq.Channel.Emulator
import UdpArq.Transport.Frame

/-!
# The channel keeps its books

Every packet that `sendto` accepts is lost by its first draw, or is on the heap,
or has been handed to the real socket; once or twice, and with at most one bit
flipped.  The delivery thread takes out only what is due and first in line, and
returns only when nothing is left.
-/

namespace UdpArq

namespace Channel

variable {p : Impairments} {rng : ℕ → Draw} {c : Channel}

/-! ## The heap -/

theorem Entry.upto_iff {e e' : Entry} :
    e.Upto e' ↔ e.deliverAt < e'.deliverAt ∨
      (e.deliverAt = e'.deliverAt ∧ e.tiebreak ≤ e'.tiebreak) := by
  unfold Upto Precedes
  rcases lt_trichotomy e.deliverAt e'.deliverAt with hlt | heq | hgt
  · simp [hlt, hlt.not_gt, hlt.ne']
  · simp [heq]
  · simp [hgt, hgt.not_gt, hgt.ne']

instance : Std.Total Entry.Upto where
  total e e' := by
    rw [Entry.upto_iff, Entry.upto_iff]
    rcases lt_trichotomy e.deliverAt e'.deliverAt with hlt | heq | hgt
    · exact Or.inl (Or.inl hlt)
    · rcases le_total e.tiebreak e'.tiebreak with hle | hle
      · exact Or.inl (Or.inr ⟨heq, hle⟩)
      · exact Or.inr (Or.inr ⟨heq.symm, hle⟩)
    · exact Or.inr (Or.inl hgt)

instance : IsTrans Entry Entry.Upto where
  trans e e' e'' h h' := by
    rw [Entry.upto_iff] at h h' ⊢
    rcases h with hlt | ⟨heq, hle⟩
    · rcases h' with hlt' | ⟨heq', -⟩
      · exact Or.inl (hlt.trans hlt')
      · exact Or.inl (hlt.trans_eq heq')
    · rcases h' with hlt' | ⟨heq', hle'⟩
      · exact Or.inl (heq.trans_lt hlt')
      · exact Or.inr ⟨heq.trans heq', hle.trans hle'⟩

/-- The first entry is the one that `heapq` keeps on top. -/
def Ascending (c : Channel) : Prop := c.heap.Pairwise Entry.Upto

theorem Ascending.push (h : c.Ascending) (at_ : ℚ) (data : Bytes)
    (addr : Address) : (c.push at_ data addr).Ascending :=
  List.Pairwise.orderedInsert _ _ h

/-- The tie-breaks handed out so far, on the heap or taken off it. -/
def tiebreaks (c : Channel) : List ℕ :=
  c.heap.map Entry.tiebreak ++ c.popped.map fun x => x.entry.tiebreak

/-- Each tie-break has been used once. -/
def Numbered (c : Channel) : Prop := c.tiebreaks.Perm (List.range c.tiebreak)

theorem Numbered.push (h : c.Numbered) (at_ : ℚ) (data : Bytes)
    (addr : Address) : (c.push at_ data addr).Numbered := by
  have hpush : ((c.push at_ data addr).heap.map Entry.tiebreak).Perm
      (c.tiebreak :: c.heap.map Entry.tiebreak) :=
    (List.perm_orderedInsert Entry.Upto _ c.heap).map Entry.tiebreak
  have hrange : (List.range c.tiebreak ++ [c.tiebreak]).Perm
      (c.tiebreak :: List.range c.tiebreak) := List.perm_append_singleton _ _
  change (_ ++ c.popped.map _).Perm (List.range (c.tiebreak + 1))
  rw [List.range_succ]
  exact (hpush.append_right _).trans ((h.cons c.tiebreak).trans hrange.symm)

/-- The pairs that `heapq` compares are distinct. -/
theorem Numbered.distinct (h : c.Numbered) :
    c.heap.Pairwise fun e e' => e.tiebreak ≠ e'.tiebreak := by
  have hnodup : c.tiebreaks.Nodup := h.nodup_iff.mpr List.nodup_range
  exact List.pairwise_map.mp (List.nodup_append.mp hnodup).1

theorem Numbered.tiebreak_lt (h : c.Numbered) {e : Entry} (he : e ∈ c.heap) :
    e.tiebreak < c.tiebreak := by
  apply List.mem_range.mp
  apply h.subset
  exact List.mem_append_left _ (List.mem_map_of_mem he)

/-- What is on the heap. -/
def scheduled (c : Channel) : List (Bytes × Address) :=
  c.heap.map Entry.packet

theorem scheduled_push (c : Channel) (at_ : ℚ) (data : Bytes)
    (addr : Address) :
    (c.push at_ data addr).scheduled.Perm ((data, addr) :: c.scheduled) :=
  (List.perm_orderedInsert Entry.Upto _ c.heap).map Entry.packet

/-! ## What becomes of an accepted packet -/

/-- The packet is lost. -/
def Accepted.Lost (p : Impairments) (x : Accepted) : Prop :=
  x.draws.loss < p.loss

instance (p : Impairments) : DecidablePred (Accepted.Lost p) :=
  fun _ => inferInstanceAs (Decidable (_ < _))

/-- The packet as it leaves the channel. -/
def Accepted.carried (p : Impairments) (x : Accepted) : Bytes × Address :=
  (corruptData p.corruption x.draws.corruption x.data, x.addr)

/-- The copies that the channel makes of the packet. -/
def Accepted.copies (p : Impairments) (x : Accepted) : List (Bytes × Address) :=
  if x.Lost p then []
  else if x.draws.duplication < p.duplication then [x.carried p, x.carried p]
  else [x.carried p]

/-- All but the heap, its tie-breaks and the loss counter is the same. -/
structure SameBooks (c c' : Channel) : Prop where
  drawn : c'.drawn = c.drawn
  closed : c'.closed = c.closed
  sent : c'.sent = c.sent
  delivered : c'.delivered = c.delivered
  workerReturned : c'.workerReturned = c.workerReturned
  closeCall : c'.closeCall = c.closeCall
  accepted : c'.accepted = c.accepted
  popped : c'.popped = c.popped

theorem sameBooks_push (c : Channel) (at_ : ℚ) (data : Bytes)
    (addr : Address) : SameBooks c (c.push at_ data addr) :=
  ⟨rfl, rfl, rfl, rfl, rfl, rfl, rfl, rfl⟩

/-- What a packet adds to the heap, and what it leaves alone. -/
structure Schedules (p : Impairments) (x : Accepted) (c c' : Channel) :
    Prop where
  ascending : c.Ascending → c'.Ascending
  numbered : c.Numbered → c'.Numbered
  scheduled : c'.scheduled.Perm (x.copies p ++ c.scheduled)
  dropped : c'.dropped = if x.Lost p then c.dropped + 1 else c.dropped
  books : SameBooks c c'

theorem schedules_impair (p : Impairments) (c : Channel) (data : Bytes)
    (addr : Address) (d : Draws) (now : ℚ) :
    Schedules p ⟨data, addr, d, now⟩ c (impair p c data addr d now) := by
  unfold impair
  by_cases hlost : d.loss < p.loss
  · have hlost' : (⟨data, addr, d, now⟩ : Accepted).Lost p := hlost
    have hcopies : (⟨data, addr, d, now⟩ : Accepted).copies p = [] :=
      if_pos hlost'
    rw [if_pos hlost]
    refine ⟨fun h => h, fun h => h, ?_, (if_pos hlost').symm,
      ⟨rfl, rfl, rfl, rfl, rfl, rfl, rfl, rfl⟩⟩
    rw [hcopies]
    exact List.Perm.refl _
  · have hlost' : ¬ (⟨data, addr, d, now⟩ : Accepted).Lost p := hlost
    simp only [if_neg hlost]
    by_cases htwice : d.duplication < p.duplication
    · have hcopies : (⟨data, addr, d, now⟩ : Accepted).copies p =
          [Accepted.carried p ⟨data, addr, d, now⟩,
            Accepted.carried p ⟨data, addr, d, now⟩] := by
        rw [Accepted.copies, if_neg hlost', if_pos htwice]
      rw [if_pos htwice]
      refine ⟨fun h => (h.push _ _ _).push _ _ _,
        fun h => (h.push _ _ _).push _ _ _, ?_, (if_neg hlost').symm,
        ⟨rfl, rfl, rfl, rfl, rfl, rfl, rfl, rfl⟩⟩
      rw [hcopies]
      exact (scheduled_push _ _ _ _).trans ((scheduled_push _ _ _ _).cons _)
    · have hcopies : (⟨data, addr, d, now⟩ : Accepted).copies p =
          [Accepted.carried p ⟨data, addr, d, now⟩] := by
        rw [Accepted.copies, if_neg hlost', if_neg htwice]
      rw [if_neg htwice]
      refine ⟨fun h => h.push _ _ _, fun h => h.push _ _ _, ?_,
        (if_neg hlost').symm,
        sameBooks_push _ _ _ _⟩
      rw [hcopies]
      exact scheduled_push _ _ _ _

/-! ## What a step can do -/

/-- A call of `sendto` is rejected, or counts its packet and schedules it. -/
theorem sendto_cases (p : Impairments) (rng : ℕ → Draw) (c : Channel)
    (argument : Argument) (addr : Address) (now : ℚ) :
    (step p rng c (.sendto argument addr now) = c) ∨
      c.closed = false ∧ ∃ data, argument = .bytesLike data ∧
        step p rng c (.sendto argument addr now) =
          impair p (c.intake data addr (nextDraws rng c.drawn) now) data addr
            (nextDraws rng c.drawn) now := by
  rcases argument with data | typeName
  · by_cases hlarge : data.length > MAX_DATAGRAM
    · left
      simp only [step, sendto, if_pos hlarge]
    · by_cases hclosed : c.closed
      · left
        simp only [step, sendto, if_neg hlarge, if_pos hclosed]
      · right
        refine ⟨by simpa using hclosed, data, rfl, ?_⟩
        simp only [step, sendto, if_neg hlarge, if_neg hclosed]
  · exact Or.inl rfl

/-- An iteration of the delivery loop waits, returns, or takes the first entry
off the heap. -/
theorem wake_cases (p : Impairments) (rng : ℕ → Draw) (c : Channel) (now : ℚ)
    (raised : Bool) :
    step p rng c (.wake now raised) = c ∨
      (c.heap = [] ∧ c.closed = true ∧
        step p rng c (.wake now raised) = { c with workerReturned := true }) ∨
      ∃ e rest, c.heap = e :: rest ∧ e.deliverAt ≤ now ∧
        step p rng c (.wake now raised) = { c with
          heap := rest
          popped := c.popped ++ [⟨e, now, raised⟩]
          delivered := if raised then c.delivered else c.delivered + 1 } := by
  simp only [step]
  by_cases hreturned : c.workerReturned
  · exact Or.inl (if_pos hreturned)
  rw [if_neg hreturned]
  cases hheap : c.heap with
  | nil =>
      by_cases hclosed : c.closed
      · refine Or.inr (Or.inl ⟨rfl, hclosed, ?_⟩)
        simp only [deliver, hheap, if_pos hclosed]
      · left
        simp only [deliver, hheap, if_neg hclosed]
  | cons e rest =>
      by_cases hwait : e.deliverAt - now > 0
      · left
        simp only [deliver, hheap, if_pos hwait]
      · have hdue : e.deliverAt ≤ now := sub_nonpos.mp (not_lt.mp hwait)
        refine Or.inr (Or.inr ⟨e, rest, rfl, hdue, ?_⟩)
        simp only [deliver, hheap, if_neg hwait]
        cases raised <;> rfl

theorem close_cases (p : Impairments) (rng : ℕ → Draw) (c : Channel) :
    step p rng c .close = c ∨
      c.closed = false ∧ step p rng c .close =
        { c with closed := true, closeCall := .joining } := by
  simp only [step, close]
  by_cases hclosed : c.closed
  · exact Or.inl (if_pos hclosed)
  · exact Or.inr ⟨Bool.eq_false_iff.mpr hclosed, if_neg hclosed⟩

theorem join_cases (p : Impairments) (rng : ℕ → Draw) (c : Channel) :
    step p rng c .join = c ∨
      c.workerReturned = true ∧ step p rng c .join =
        { c with closeCall := .returned } := by
  simp only [step, join]
  by_cases hjoin : c.closeCall = .joining ∧ c.workerReturned
  · exact Or.inr ⟨hjoin.2, if_pos hjoin⟩
  · exact Or.inl (if_neg hjoin)

/-! ## The books -/

/-- What has been taken off the heap. -/
def handed (c : Channel) : List (Bytes × Address) :=
  c.popped.map fun x => x.entry.packet

/-- The counters, the heap and the history of a channel agree. -/
structure Balanced (p : Impairments) (c : Channel) : Prop where
  ascending : c.Ascending
  numbered : c.Numbered
  sent : c.sent =
    c.dropped + (c.accepted.filter fun x => ¬ x.Lost p).length
  packets : (c.scheduled ++ c.handed).Perm
    (c.accepted.flatMap (Accepted.copies p))
  delivered : c.delivered + (c.popped.filter fun x => x.raised).length =
    c.popped.length
  due : ∀ x ∈ c.popped, x.entry.deliverAt ≤ x.now
  drained : c.workerReturned = true → c.closed = true ∧ c.heap = []

theorem balanced_init (p : Impairments) : Balanced p init where
  ascending := List.Pairwise.nil
  numbered := List.Perm.refl _
  sent := rfl
  packets := List.Perm.refl _
  delivered := rfl
  due := by simp [init]
  drained := by simp [init]

/-- A packet that is accepted while the channel is open. -/
theorem Balanced.sendto (h : Balanced p c) (hopen : c.closed = false)
    {data : Bytes} {addr : Address} {d : Draws} {now : ℚ} {c' : Channel}
    (hc' : Schedules p ⟨data, addr, d, now⟩ (c.intake data addr d now) c') :
    Balanced p c' := by
  obtain ⟨hascending, hnumbered, hscheduled, hdropped, hbooks⟩ := hc'
  refine ⟨hascending h.ascending, hnumbered h.numbered, ?_, ?_, ?_, ?_, ?_⟩
  · rw [hbooks.sent, hbooks.accepted, hdropped]
    change c.sent + 1 = (if _ then c.dropped + 1 else c.dropped) +
      ((c.accepted ++ [_]).filter _).length
    rw [h.sent, List.filter_append, List.length_append]
    by_cases hlost : d.loss < p.loss
    · simp [Accepted.Lost, hlost, Nat.add_right_comm]
    · simp [Accepted.Lost, hlost, not_lt.mp hlost, Nat.add_assoc]
  · rw [handed, hbooks.popped, hbooks.accepted]
    change (_ ++ c.handed).Perm ((c.accepted ++ [_]).flatMap _)
    rw [List.flatMap_append, List.flatMap_singleton]
    refine (hscheduled.append_right _).trans ?_
    rw [List.append_assoc]
    exact (h.packets.append_left _).trans List.perm_append_comm
  · rw [hbooks.delivered, hbooks.popped]
    exact h.delivered
  · rw [hbooks.popped]
    exact h.due
  · intro hreturned
    rw [hbooks.workerReturned] at hreturned
    have hclosed := (h.drained hreturned).1
    rw [hopen] at hclosed
    cases hclosed

/-- An entry that is taken off the heap. -/
theorem Balanced.pop (h : Balanced p c) {e : Entry} {rest : List Entry}
    (hheap : c.heap = e :: rest) {now : ℚ} (hdue : e.deliverAt ≤ now)
    (raised : Bool) :
    Balanced p { c with
      heap := rest
      popped := c.popped ++ [⟨e, now, raised⟩]
      delivered := if raised then c.delivered else c.delivered + 1 } := by
  have hascending : (e :: rest).Pairwise Entry.Upto := hheap ▸ h.ascending
  refine ⟨hascending.of_cons, ?_, h.sent, ?_, ?_, ?_, ?_⟩
  · have hnumbered := h.numbered
    rw [Numbered, tiebreaks, hheap, List.map_cons, List.cons_append]
      at hnumbered
    refine List.Perm.trans ?_ hnumbered
    rw [tiebreaks, List.map_append, ← List.append_assoc]
    exact List.perm_append_singleton _ _
  · have hscheduled : c.scheduled = e.packet :: rest.map Entry.packet := by
      rw [scheduled, hheap, List.map_cons]
    have hpackets := h.packets
    rw [hscheduled, List.cons_append] at hpackets
    refine List.Perm.trans ?_ hpackets
    rw [handed, List.map_append, ← List.append_assoc]
    exact List.perm_append_singleton _ _
  · have hdelivered := h.delivered
    simp only [List.filter_append, List.length_append, List.length_singleton]
    cases raised with
    | true =>
        simp only [if_true, List.filter_cons, List.filter_nil,
          List.length_singleton]
        omega
    | false =>
        simp only [Bool.false_eq_true, if_false, List.filter_cons,
          List.filter_nil, List.length_nil]
        omega
  · intro x hx
    rcases List.mem_append.mp hx with hold | hnew
    · exact h.due x hold
    · rw [List.mem_singleton.mp hnew]
      exact hdue
  · intro hreturned
    have hempty := (h.drained hreturned).2
    rw [hheap] at hempty
    cases hempty

/-- Every step keeps the books. -/
theorem Balanced.step (h : Balanced p c) (rng : ℕ → Draw) (e : Event) :
    Balanced p (step p rng c e) := by
  cases e with
  | sendto argument addr now =>
      rcases sendto_cases p rng c argument addr now with
        hsame | ⟨hopen, data, -, hstep⟩
      · rwa [hsame]
      · rw [hstep]
        exact h.sendto hopen (schedules_impair p _ data addr _ now)
  | wake now raised =>
      rcases wake_cases p rng c now raised with
        hsame | ⟨hempty, hclosed, hstep⟩ | ⟨e, rest, hheap, hdue, hstep⟩
      · rwa [hsame]
      · rw [hstep]
        exact ⟨h.ascending, h.numbered, h.sent, h.packets, h.delivered, h.due,
          fun _ => ⟨hclosed, hempty⟩⟩
      · rw [hstep]
        exact h.pop hheap hdue raised
  | close =>
      rcases close_cases p rng c with hsame | ⟨hopen, hstep⟩
      · rwa [hsame]
      · rw [hstep]
        refine ⟨h.ascending, h.numbered, h.sent, h.packets, h.delivered, h.due,
          fun hreturned => ?_⟩
        have hclosed := (h.drained hreturned).1
        rw [hopen] at hclosed
        cases hclosed
  | join =>
      rcases join_cases p rng c with hsame | ⟨hreturned, hstep⟩
      · rwa [hsame]
      · rw [hstep]
        exact ⟨h.ascending, h.numbered, h.sent, h.packets, h.delivered, h.due,
          h.drained⟩

theorem balanced_run (p : Impairments) (rng : ℕ → Draw) (es : List Event) :
    Balanced p (run (Channel.step p rng) init es) :=
  run_invariant (Balanced p) (fun _ e h => h.step rng e) (balanced_init p) es

/-! ## The network of a link -/

theorem exists_corrupt (corruption draw : ℚ) (data : Bytes) :
    ∃ flip, corruptData corruption draw data = corrupt data flip := by
  by_cases h : draw < corruption ∧ data ≠ []
  · have hpos : 0 < data.length * 8 :=
      Nat.mul_pos (List.length_pos_iff.mpr h.2) (by decide)
    have hlt := bitPosition_lt draw hpos
    refine ⟨some (bitPosition draw (data.length * 8)), ?_⟩
    rw [corruptData, if_pos h, corrupt, if_pos (by omega)]
  · exact ⟨none, if_neg h⟩

/-- What a channel hands to the real socket is what the network of a link may
deliver: a copy of a packet given to `sendto`, at most one bit flipped. -/
theorem mem_accepted_of_handed (p : Impairments) (rng : ℕ → Draw)
    (es : List Event) {packet : Bytes × Address}
    (hpacket : packet ∈ (run (step p rng) init es).handed) :
    ∃ x ∈ (run (step p rng) init es).accepted, ∃ flip,
      packet = (corrupt x.data flip, x.addr) := by
  have hbalanced := balanced_run p rng es
  have hmem := hbalanced.packets.subset (List.mem_append_right _ hpacket)
  obtain ⟨x, hx, hcopy⟩ := List.mem_flatMap.mp hmem
  obtain ⟨flip, hflip⟩ :=
    exists_corrupt p.corruption x.draws.corruption x.data
  have hcarried : packet = x.carried p := by
    unfold Accepted.copies at hcopy
    split_ifs at hcopy
    · cases hcopy
    · simpa using hcopy
    · exact List.mem_singleton.mp hcopy
  exact ⟨x, hx, flip, hcarried.trans (congrArg (Prod.mk · x.addr) hflip)⟩

end Channel

end UdpArq
