import UdpArq.Lib.Run

/-!
# The alternating-bit protocol

A sender passes payloads to a receiver, the next one only after the previous
one has been acknowledged.  A message carries the parity of the number of its
payload, and an acknowledgement the parity of the number of payloads accepted
when it was sent.  The links keep every message ever sent, and a step may
deliver any of them, damaged or intact: loss, duplication and reordering are
choices of the steps.

The parities decide rightly as long as nothing out of date is delivered
(`Fresh`), and links that never go back to an older message (`InOrder`) deliver
nothing out of date.
-/

namespace UdpArq

universe u

/-- The two parties and the two links.  Messages are represented by the
numbers whose parities they carry, and `dataRead` and `ackRead` are the
positions of the latest deliveries. -/
structure AlternatingBit (α : Type u) where
  handed : List α := []
  completed : ℕ := 0
  accepted : List α := []
  data : List ℕ := []
  acks : List ℕ := []
  dataRead : ℕ := 0
  ackRead : ℕ := 0

namespace AlternatingBit

/-- The steps: the sender takes a payload or sends its message, and a link
delivers a copy of the message at a position. -/
inductive Event (α : Type u)
  | call (x : α)
  | transmit
  | data (i : ℕ) (intact : Bool)
  | ack (i : ℕ) (intact : Bool)

variable {α : Type u}

/-- The receiver accepts message number `q` if it has the expected parity. -/
def accept (s : AlternatingBit α) (q : ℕ) : AlternatingBit α :=
  if q % 2 = s.accepted.length % 2 then
    { s with accepted := s.accepted ++ s.handed[q]?.toList }
  else s

/-- The receiver acknowledges what it has accepted. -/
def reply (s : AlternatingBit α) : AlternatingBit α :=
  { s with acks := s.acks ++ [s.accepted.length] }

/-- The sender is done with its payload if the acknowledgement has the awaited
parity. -/
def complete (s : AlternatingBit α) (j : ℕ) : AlternatingBit α :=
  if s.completed < s.handed.length ∧ j % 2 = (s.completed + 1) % 2 then
    { s with completed := s.completed + 1 }
  else s

def step (s : AlternatingBit α) : Event α → AlternatingBit α
  | .call x =>
      if s.handed.length = s.completed then
        { s with handed := s.handed ++ [x] }
      else s
  | .transmit =>
      if s.completed < s.handed.length then
        { s with data := s.data ++ [s.completed] }
      else s
  | .data i intact =>
      match s.data[i]? with
      | none => s
      | some q =>
          { (if intact then (s.accept q).reply else s) with dataRead := i }
  | .ack i intact =>
      match s.acks[i]? with
      | none => s
      | some j => { (if intact then s.complete j else s) with ackRead := i }

/-! ## Accepting and completing -/

theorem accept_of_eq {s : AlternatingBit α} {q : ℕ} {x : α}
    (hq : q % 2 = s.accepted.length % 2) (hx : s.handed[q]? = some x) :
    s.accept q = { s with accepted := s.accepted ++ [x] } := by
  simp [accept, hq, hx]

theorem accept_of_ne {s : AlternatingBit α} {q : ℕ}
    (hq : q % 2 ≠ s.accepted.length % 2) : s.accept q = s :=
  if_neg hq

/-- Accepting touches nothing but the accepted payloads. -/
@[simp] theorem accept_frame (s : AlternatingBit α) (q : ℕ) :
    (s.accept q).completed = s.completed ∧ (s.accept q).data = s.data ∧
      (s.accept q).acks = s.acks ∧ (s.accept q).ackRead = s.ackRead := by
  unfold accept
  split <;> exact ⟨rfl, rfl, rfl, rfl⟩

/-- Completing touches nothing but the number of completed payloads. -/
@[simp] theorem complete_frame (s : AlternatingBit α) (j : ℕ) :
    (s.complete j).accepted = s.accepted ∧ (s.complete j).data = s.data ∧
      (s.complete j).acks = s.acks ∧ (s.complete j).dataRead = s.dataRead := by
  unfold complete
  split <;> exact ⟨rfl, rfl, rfl, rfl⟩

/-- Completing with an up-to-date acknowledgement stays below it. -/
theorem complete_le {s : AlternatingBit α} {j : ℕ}
    (hge : s.completed ≤ j) :
    (s.complete j).completed ≤ j := by
  unfold complete
  split_ifs with hawaited
  · have hparity := hawaited.2
    dsimp only
    omega
  · exact hge

/-! ## Runs in which nothing out of date is delivered -/

/-- The parties agree: what is accepted are the first payloads handed over,
all the completed ones and at most one more. -/
structure Coherent (s : AlternatingBit α) : Prop where
  accepted : s.accepted = s.handed.take s.accepted.length
  completed_le : s.completed ≤ s.accepted.length
  handed_le : s.handed.length ≤ s.completed + 1
  data : ∀ q ∈ s.data, q < s.handed.length
  acks : ∀ j ∈ s.acks, j ≤ s.accepted.length

/-- The step delivers no message of an accepted payload with the expected
parity, and no acknowledgement with the awaited parity before the payload is
accepted. -/
def Fresh (s : AlternatingBit α) : Event α → Prop
  | .data i true => ∀ q, s.data[i]? = some q → q < s.accepted.length →
      q % 2 ≠ s.accepted.length % 2
  | .ack i true => ∀ j, s.acks[i]? = some j → s.completed < s.handed.length →
      s.accepted.length = s.completed → j % 2 ≠ (s.completed + 1) % 2
  | _ => True

section

variable {s : AlternatingBit α}

theorem coherent_init : Coherent ({} : AlternatingBit α) where
  accepted := rfl
  completed_le := le_rfl
  handed_le := Nat.zero_le _
  data := by simp
  acks := by simp

theorem Coherent.accepted_le (h : Coherent s) :
    s.accepted.length ≤ s.handed.length := by
  rw [h.accepted]
  exact List.length_take_le' _ _

/-- A message that is accepted and up to date is the next one. -/
theorem Coherent.number_eq (h : Coherent s) {q : ℕ} (hq : q ∈ s.data)
    (hfresh : q < s.accepted.length → q % 2 ≠ s.accepted.length % 2)
    (hparity : q % 2 = s.accepted.length % 2) : q = s.accepted.length := by
  have hge : s.accepted.length ≤ q := by
    by_contra hlt
    exact hfresh (not_le.mp hlt) hparity
  have hlt := h.data q hq
  have hhanded := h.handed_le
  have hcompleted := h.completed_le
  omega

theorem Coherent.accept (h : Coherent s) {q : ℕ} (hq : q ∈ s.data)
    (hfresh : q < s.accepted.length → q % 2 ≠ s.accepted.length % 2) :
    Coherent (s.accept q) := by
  unfold AlternatingBit.accept
  split_ifs with hparity
  · have hnumber := h.number_eq hq hfresh hparity
    have hlt := h.data q hq
    have hlength : (s.accepted ++ s.handed[q]?.toList).length =
        s.accepted.length + 1 := by
      simp [List.getElem?_eq_getElem hlt]
    refine ⟨?_, ?_, h.handed_le, h.data, fun j hj => ?_⟩
    · dsimp only
      rw [hlength, List.take_add_one, ← h.accepted, hnumber]
    · dsimp only
      rw [hlength]
      exact h.completed_le.trans (Nat.le_succ _)
    · dsimp only
      rw [hlength]
      exact (h.acks j hj).trans (Nat.le_succ _)
  · exact h

/-- Accepting an up-to-date message leaves the receiver at most one ahead. -/
theorem Coherent.accept_le (hc : Coherent s) {q : ℕ}
    (hfresh : q < s.accepted.length → q % 2 ≠ s.accepted.length % 2)
    (hq : q ∈ s.data) (hge : s.accepted.length ≤ q + 1) :
    (s.accept q).accepted.length ≤ q + 1 := by
  unfold AlternatingBit.accept
  split_ifs with hparity
  · have hnumber := hc.number_eq hq hfresh hparity
    have hlt := hc.data q hq
    simp [List.getElem?_eq_getElem hlt, ← hnumber]
  · exact hge

theorem Coherent.reply (h : Coherent s) : Coherent s.reply where
  accepted := h.accepted
  completed_le := h.completed_le
  handed_le := h.handed_le
  data := h.data
  acks := by
    intro j hj
    rcases List.mem_append.mp hj with hold | hnew
    · exact h.acks j hold
    · exact (List.mem_singleton.mp hnew).le

theorem Coherent.complete (h : Coherent s) {j : ℕ}
    (hfresh : s.completed < s.handed.length →
      s.accepted.length = s.completed → j % 2 ≠ (s.completed + 1) % 2) :
    Coherent (s.complete j) := by
  unfold AlternatingBit.complete
  split_ifs with hawaited
  · have hne : s.accepted.length ≠ s.completed := fun heq =>
      hfresh hawaited.1 heq hawaited.2
    have hlt := lt_of_le_of_ne h.completed_le hne.symm
    exact ⟨h.accepted, hlt, h.handed_le.trans (Nat.le_succ _), h.data, h.acks⟩
  · exact h

/-- The reading positions do not matter for coherence. -/
theorem Coherent.read (h : Coherent s) (i j : ℕ) :
    Coherent { s with dataRead := i, ackRead := j } :=
  ⟨h.accepted, h.completed_le, h.handed_le, h.data, h.acks⟩

theorem Coherent.step (h : Coherent s) {e : Event α} (he : Fresh s e) :
    Coherent (s.step e) := by
  cases e with
  | call x =>
      simp only [AlternatingBit.step]
      split_ifs with hdone
      · refine ⟨?_, h.completed_le, ?_, fun q hq => ?_, h.acks⟩
        · dsimp only
          rw [List.take_append_of_le_length h.accepted_le]
          exact h.accepted
        · simp [hdone]
        · have hlt := h.data q hq
          simp only [List.length_append, List.length_singleton]
          exact hlt.trans (Nat.lt_succ_self _)
      · exact h
  | transmit =>
      simp only [AlternatingBit.step]
      split_ifs with hcalling
      · refine ⟨h.accepted, h.completed_le, h.handed_le, fun q hq => ?_, h.acks⟩
        rcases List.mem_append.mp hq with hold | hnew
        · exact h.data q hold
        · rw [List.mem_singleton.mp hnew]
          exact hcalling
      · exact h
  | data i intact =>
      simp only [AlternatingBit.step]
      split
      · exact h
      · rename_i q hget
        cases intact with
        | false => exact h.read i s.ackRead
        | true =>
            have hmem := List.mem_of_getElem? hget
            exact (h.accept hmem (he q hget)).reply.read i (s.accept q).ackRead
  | ack i intact =>
      simp only [AlternatingBit.step]
      split
      · exact h
      · rename_i j hget
        cases intact with
        | false => exact h.read s.dataRead i
        | true => exact (h.complete (he j hget)).read (s.complete j).dataRead i

/-! ## Links that keep the order -/

/-- The step does not deliver a message older than the latest delivered one. -/
def InOrder (s : AlternatingBit α) : Event α → Prop
  | .data i _ => s.dataRead ≤ i
  | .ack i _ => s.ackRead ≤ i
  | _ => True

/-- The latest deliveries are recent: the receiver has read the message of the
last payload that it accepted, and the sender an acknowledgement of the last
payload that it completed, and later messages have larger numbers. -/
structure Recent (s : AlternatingBit α) : Prop where
  data : s.data.Pairwise (· ≤ ·)
  acks : s.acks.Pairwise (· ≤ ·)
  dataRead : 0 < s.accepted.length →
    ∃ q, s.data[s.dataRead]? = some q ∧ s.accepted.length ≤ q + 1
  ackRead : 0 < s.completed →
    ∃ j, s.acks[s.ackRead]? = some j ∧ s.completed ≤ j

theorem recent_init : Recent ({} : AlternatingBit α) where
  data := List.Pairwise.nil
  acks := List.Pairwise.nil
  dataRead := fun h => absurd h (lt_irrefl 0)
  ackRead := fun h => absurd h (lt_irrefl 0)

theorem getElem?_le_of_pairwise {xs : List ℕ} (hxs : xs.Pairwise (· ≤ ·))
    {i j x y : ℕ} (hij : i ≤ j) (hx : xs[i]? = some x) (hy : xs[j]? = some y) :
    x ≤ y := by
  obtain ⟨hi, rfl⟩ := List.getElem?_eq_some_iff.mp hx
  obtain ⟨hj, rfl⟩ := List.getElem?_eq_some_iff.mp hy
  rcases hij.lt_or_eq with hlt | rfl
  · exact List.pairwise_iff_getElem.mp hxs i j hi hj hlt
  · exact le_rfl

theorem pairwise_concat {xs : List ℕ} (hxs : xs.Pairwise (· ≤ ·)) {x : ℕ}
    (hx : ∀ y ∈ xs, y ≤ x) : (xs ++ [x]).Pairwise (· ≤ ·) :=
  List.pairwise_append.mpr
    ⟨hxs, List.pairwise_singleton _ _, by simpa using hx⟩

theorem getElem?_concat {β : Type*} {xs : List β} {i : ℕ} {x : β} (y : β)
    (hx : xs[i]? = some x) : (xs ++ [y])[i]? = some x := by
  have hi : i < xs.length := (List.getElem?_eq_some_iff.mp hx).1
  rwa [List.getElem?_append_left hi]

/-- Messages read in order are numbered from the last accepted one on. -/
theorem Recent.data_ge (h : Recent s) {i q : ℕ} (hi : s.dataRead ≤ i)
    (hq : s.data[i]? = some q) : s.accepted.length ≤ q + 1 := by
  rcases Nat.eq_zero_or_pos s.accepted.length with hzero | hpos
  · rw [hzero]
    exact Nat.zero_le _
  · obtain ⟨r, hr, hle⟩ := h.dataRead hpos
    have hrq := getElem?_le_of_pairwise h.data hi hr hq
    exact hle.trans (Nat.succ_le_succ hrq)

/-- Acknowledgements read in order cover all completed payloads. -/
theorem Recent.ack_ge (h : Recent s) {i j : ℕ} (hi : s.ackRead ≤ i)
    (hj : s.acks[i]? = some j) : s.completed ≤ j := by
  rcases Nat.eq_zero_or_pos s.completed with hzero | hpos
  · rw [hzero]
    exact Nat.zero_le _
  · obtain ⟨r, hr, hle⟩ := h.ackRead hpos
    exact hle.trans (getElem?_le_of_pairwise h.acks hi hr hj)

/-- What is delivered in order is not out of date. -/
theorem Recent.fresh (h : Recent s) (hc : Coherent s) {e : Event α}
    (he : InOrder s e) : Fresh s e := by
  cases e with
  | call x => trivial
  | transmit => trivial
  | data i intact =>
      cases intact with
      | false => trivial
      | true =>
          intro q hq hlt
          have hge := h.data_ge he hq
          omega
  | ack i intact =>
      cases intact with
      | false => trivial
      | true =>
          intro j hj hcalling hwaiting
          have hge := h.ack_ge he hj
          have hle := hc.acks j (List.mem_of_getElem? hj)
          omega

theorem Recent.step (h : Recent s) (hc : Coherent s) {e : Event α}
    (he : InOrder s e) : Recent (s.step e) := by
  have hfresh := h.fresh hc he
  cases e with
  | call x =>
      simp only [AlternatingBit.step]
      split_ifs
      · exact ⟨h.data, h.acks, h.dataRead, h.ackRead⟩
      · exact h
  | transmit =>
      simp only [AlternatingBit.step]
      split_ifs
      · refine ⟨pairwise_concat h.data fun q hq => ?_, h.acks, fun hpos => ?_,
          h.ackRead⟩
        · exact Nat.lt_succ_iff.mp ((hc.data q hq).trans_le hc.handed_le)
        · obtain ⟨q, hq, hle⟩ := h.dataRead hpos
          exact ⟨q, getElem?_concat s.completed hq, hle⟩
      · exact h
  | data i intact =>
      simp only [AlternatingBit.step]
      split
      · exact h
      · rename_i q hget
        have hge := h.data_ge he hget
        cases intact with
        | false => exact ⟨h.data, h.acks, fun _ => ⟨q, hget, hge⟩, h.ackRead⟩
        | true =>
            have hmem := List.mem_of_getElem? hget
            have hacks := (hc.accept hmem (hfresh q hget)).acks
            refine ⟨?_, pairwise_concat ?_ hacks, fun _ => ⟨q, ?_, ?_⟩, ?_⟩
            · simpa [reply] using h.data
            · simpa using h.acks
            · simpa [reply] using hget
            · exact hc.accept_le (hfresh q hget) hmem hge
            · intro hpos
              rw [reply, (accept_frame s q).1] at hpos
              obtain ⟨j, hj, hle⟩ := h.ackRead hpos
              refine ⟨j, ?_, ?_⟩
              · simpa [reply] using getElem?_concat _ hj
              · simpa [reply] using hle
  | ack i intact =>
      simp only [AlternatingBit.step]
      split
      · exact h
      · rename_i j hget
        have hge := h.ack_ge he hget
        cases intact with
        | false => exact ⟨h.data, h.acks, h.dataRead, fun _ => ⟨j, hget, hge⟩⟩
        | true =>
            refine ⟨?_, ?_, ?_, fun _ => ⟨j, ?_, ?_⟩⟩
            · simpa using h.data
            · simpa using h.acks
            · simpa using h.dataRead
            · simpa using hget
            · exact complete_le hge

/-- A step in order keeps both invariants. -/
theorem Coherent.step_inOrder (hc : Coherent s) (h : Recent s) {e : Event α}
    (he : InOrder s e) {s' : AlternatingBit α} (hs' : s.step e = s') :
    Coherent s' ∧ Recent s' := by
  subst hs'
  exact ⟨hc.step (h.fresh hc he), h.step hc he⟩

/-! ## A payload that takes the place of another -/

/-- The sender gives up the payload that it has not completed and takes `x`, or
takes `x` if it has completed all of them.  The messages sent for the old
payload stay in the link, under the same number. -/
def restart (s : AlternatingBit α) (x : α) : AlternatingBit α :=
  { s with handed := s.handed.take s.completed ++ [x] }

theorem Coherent.length_take (h : Coherent s) :
    (s.handed.take s.completed).length = s.completed :=
  List.length_take_of_le (h.completed_le.trans h.accepted_le)

/-- The sender may change its payload as long as the receiver has not accepted
one under this number. -/
theorem Coherent.restart (h : Coherent s) (x : α)
    (hopen : s.accepted.length = s.completed) : Coherent (s.restart x) := by
  have hhanded : (s.restart x).handed.length = s.completed + 1 := by
    simp only [AlternatingBit.restart, List.length_append, h.length_take,
      List.length_singleton]
  refine ⟨?_, h.completed_le, hhanded.le, fun q hq => ?_, h.acks⟩
  · calc
      s.accepted = s.handed.take s.completed := by
        rw [← hopen]
        exact h.accepted
      _ = (s.handed.take s.completed ++ [x]).take s.accepted.length := by
        rw [hopen]
        exact (List.take_left' h.length_take).symm
  · rw [hhanded]
    exact (h.data q hq).trans_le h.handed_le

theorem Recent.restart (h : Recent s) (x : α) : Recent (s.restart x) :=
  ⟨h.data, h.acks, h.dataRead, h.ackRead⟩

theorem Coherent.restart_getElem? (h : Coherent s) (x : α) :
    (s.restart x).handed[s.completed]? = some x := by
  rw [AlternatingBit.restart, List.getElem?_append_right h.length_take.le,
    h.length_take, Nat.sub_self]
  rfl

theorem Coherent.restart_take (h : Coherent s) (x : α) :
    (s.restart x).handed.take s.completed = s.handed.take s.completed :=
  List.take_left' h.length_take

end

end AlternatingBit

end UdpArq
