import UdpArq.Transport.Protocol

/-!
# Invariants of a lane

Whatever the discipline, every event keeps three groups of facts about a lane.
The sequence numbers not yet sent are consecutive and end at the counter, with
everything outstanding below them.  Every item, every stored packet and every
packet on the wire belongs to the datagram whose number it carries.  And a peer
with sender state has a timeout estimator, so that looking it up never raises.
-/

namespace UdpArq

namespace Lane

/-! ## Sequence numbers -/

/-- The numbers not yet sent are `lo, …, lo + n - 1`. -/
structure Span (l : Lane) (lo n : ℕ) : Prop where
  waiting_eq : l.waiting = List.range' lo n
  le_nextSeq : lo + n ≤ l.nextSeq
  full : l.stopped = false → lo + n = l.nextSeq
  outstanding_lt : ∀ q ∈ l.outstanding.keys, q < lo

theorem Span.split {l : Lane} {lo n : ℕ} (h : l.Span lo n) :
    ∃ k m, n = k + m ∧ l.pending.keys = List.range' lo k ∧
      l.queued.map Item.seq = List.range' (lo + k) m := by
  obtain ⟨k, hk, hpending, hqueued⟩ :=
    List.range'_eq_append_iff.mp h.waiting_eq.symm
  refine ⟨k, n - k, by omega, hpending, ?_⟩
  rw [hqueued, Nat.mul_one]

theorem min?_range' (lo k : ℕ) : (List.range' lo (k + 1)).min? = some lo := by
  rw [List.min?_eq_some_iff]
  refine ⟨by simp, fun b hb => ?_⟩
  exact (List.mem_range'_1.mp hb).1

/-- The packet that the window pump takes next is the first one waiting. -/
theorem Span.next {cfg : Config} {l : Lane} {lo n seq : ℕ} {item : Item}
    (h : l.Span lo n) (hnext : l.nextToSend cfg = some (seq, item)) :
    seq = lo ∧ (∃ k m, n = k + 1 + m ∧
      l.pending.keys = List.range' lo (k + 1) ∧
      l.queued.map Item.seq = List.range' (lo + (k + 1)) m) ∧
      seq < l.base.getD 0 + cfg.windowSize ∧
      l.pending.get? seq = some item := by
  obtain ⟨k, m, hn, hpending, hqueued⟩ := h.split
  rw [nextToSend, hpending] at hnext
  cases k with
  | zero => simp at hnext
  | succ k =>
      rw [min?_range'] at hnext
      by_cases hfull : lo ≥ l.base.getD 0 + cfg.windowSize
      · simp [hfull] at hnext
      · simp only [if_neg hfull, Option.map_eq_some_iff, Prod.mk.injEq] at hnext
        obtain ⟨x, hx, rfl, rfl⟩ := hnext
        exact ⟨rfl, ⟨k, m, hn, hpending, hqueued⟩, not_le.mp hfull, hx⟩

theorem Span.accept {l : Lane} {lo n : ℕ} (h : l.Span lo n)
    (hopen : l.stopped = false) (data : Bytes) :
    (l.accept data).Span lo (n + 1) := by
  have hfull := h.full hopen
  refine ⟨?_, ?_, fun _ => ?_, h.outstanding_lt⟩
  · have hwaiting : (l.accept data).waiting = l.waiting ++ [l.nextSeq] := by
      simp [waiting, Lane.accept]
    rw [hwaiting, h.waiting_eq, List.range'_concat, Nat.one_mul, hfull]
  · simp only [Lane.accept]
    omega
  · simp only [Lane.accept]
    omega

theorem Span.register {l : Lane} {lo n : ℕ} (h : l.Span lo n) {item : Item}
    {rest : List Item} (hqueue : l.queued = item :: rest) :
    (l.register item rest).Span lo n := by
  obtain ⟨k, m, hn, hpending, hqueued⟩ := h.split
  have hfresh : item.seq ∉ l.pending.keys := by
    rw [hqueue, List.map_cons] at hqueued
    cases m with
    | zero => simp at hqueued
    | succ m =>
        rw [List.range'_succ, List.cons.injEq] at hqueued
        rw [hpending, hqueued.1, List.mem_range'_1]
        omega
  have hwaiting : (l.register item rest).waiting = l.waiting := by
    simp only [waiting, Lane.register]
    rw [Dict.keys_set_of_fresh item hfresh, hqueue]
    simp
  exact ⟨hwaiting.trans h.waiting_eq, h.le_nextSeq, h.full, h.outstanding_lt⟩

theorem Span.popPending {cfg : Config} {l : Lane} {lo n seq : ℕ} {item : Item}
    (h : l.Span lo n) (hnext : l.nextToSend cfg = some (seq, item)) :
    (l.popPending seq).Span (seq + 1) (n - 1) := by
  obtain ⟨rfl, ⟨k, m, rfl, hpending, hqueued⟩, -, -⟩ := h.next hnext
  have hkeys : (l.popPending seq).pending.keys =
      List.range' (seq + 1) k := by
    rw [Lane.popPending, Dict.keys_erase, hpending, List.range'_succ,
      List.filter_cons_of_neg (by simp), List.filter_eq_self]
    intro a ha
    have hlt := (List.mem_range'_1.mp ha).1
    simp only [ne_eq, decide_eq_true_eq]
    omega
  have hle := h.le_nextSeq
  refine ⟨?_, ?_, fun hopen => ?_, fun q hq => ?_⟩
  · have hcount : k + 1 + m - 1 = k + m := by omega
    have hshift : seq + 1 + k = seq + (k + 1) := by omega
    rw [waiting, hkeys, hcount, ← List.range'_append_1, hshift, ← hqueued]
    rfl
  · change seq + 1 + (k + 1 + m - 1) ≤ l.nextSeq
    omega
  · have hfull := h.full hopen
    change seq + 1 + (k + 1 + m - 1) = l.nextSeq
    omega
  · have hlt := h.outstanding_lt q hq
    omega

theorem Span.launch {l : Lane} {lo n : ℕ} (h : l.Span (lo + 1) n) (item : Item)
    (packet : Bytes) : (l.launch lo item packet).Span (lo + 1) n := by
  refine ⟨h.waiting_eq, h.le_nextSeq, h.full, fun q hq => ?_⟩
  rw [Lane.launch, Dict.mem_keys] at hq
  obtain ⟨x, hx⟩ := hq
  rw [Dict.get?_set] at hx
  by_cases hlo : q = lo
  · omega
  · rw [if_neg hlo] at hx
    exact h.outstanding_lt q (Dict.mem_keys.mpr ⟨x, hx⟩)

/-- Dropping outstanding packets keeps the span. -/
theorem Span.shrink {l l' : Lane} {lo n : ℕ} (h : l.Span lo n)
    (hwaiting : l'.waiting = l.waiting) (hnext : l'.nextSeq = l.nextSeq)
    (hstopped : l'.stopped = l.stopped)
    (hsub : ∀ q ∈ l'.outstanding.keys, q ∈ l.outstanding.keys) :
    l'.Span lo n := by
  refine ⟨hwaiting.trans h.waiting_eq, hnext ▸ h.le_nextSeq, ?_, ?_⟩
  · rw [hstopped, hnext]
    exact h.full
  · intro q hq
    exact h.outstanding_lt q (hsub q hq)

theorem Span.failPeer {l : Lane} {lo n : ℕ} (h : l.Span lo n) (e : Err) :
    ∃ k m, n = k + m ∧ (l.failPeer e).Span (lo + k) m := by
  obtain ⟨k, m, hn, hpending, hqueued⟩ := h.split
  refine ⟨k, m, hn, ?_, ?_, fun hopen => ?_, by simp [Lane.failPeer]⟩
  · simpa [waiting, Lane.failPeer] using hqueued
  · have hle := h.le_nextSeq
    change lo + k + m ≤ l.nextSeq
    omega
  · have hfull := h.full hopen
    change lo + k + m = l.nextSeq
    omega

theorem Span.close {l : Lane} {lo n : ℕ} (h : l.Span lo n) :
    ∃ k ≤ n, l.close.Span lo k := by
  by_cases hstopped : l.stopped
  · rw [Lane.close, if_pos hstopped]
    exact ⟨n, le_rfl, h⟩
  · obtain ⟨k, m, hn, hpending, hqueued⟩ := h.split
    have hle := h.le_nextSeq
    rw [Lane.close, if_neg hstopped]
    refine ⟨k, by omega, ?_, ?_, ?_, h.outstanding_lt⟩
    · simpa [waiting] using hpending
    · change lo + k ≤ l.nextSeq
      omega
    · intro hopen
      exact absurd hopen (by simp)

/-- Every event keeps the numbers not yet sent consecutive. -/
theorem Span.step {cfg : Config} {D : Discipline}
    {fails : SweepInput → Prop} {l l' : Lane} {e : Event}
    (h : ∃ lo n, l.Span lo n) (hstep : Step cfg D fails l e l') :
    ∃ lo n, l'.Span lo n := by
  obtain ⟨lo, n, h⟩ := h
  cases hstep with
  | idle => exact ⟨lo, n, h⟩
  | crash => exact ⟨lo, n, h.shrink rfl rfl rfl fun _ hq => hq⟩
  | accept _ hopen => exact ⟨lo, n + 1, h.accept hopen _⟩
  | register hqueue =>
      exact ⟨lo, n, (h.register hqueue).shrink rfl rfl rfl fun _ hq => hq⟩
  | registerCrash hqueue =>
      exact ⟨lo, n, (h.register hqueue).shrink rfl rfl rfl fun _ hq => hq⟩
  | @send _ _ item packet hnext =>
      exact ⟨_, _, ((h.popPending hnext).launch item packet).shrink rfl rfl rfl
        fun _ hq => hq⟩
  | @unsent _ _ item packet _ hnext =>
      refine ⟨_, _, ((h.popPending hnext).launch item packet).shrink
        rfl rfl rfl fun q hq => ?_⟩
      exact (Dict.mem_keys_erase.mp hq).1
  | unencodable hnext =>
      exact ⟨_, _, (h.popPending hnext).shrink rfl rfl rfl fun _ hq => hq⟩
  | resend => exact ⟨lo, n, h.shrink rfl rfl rfl fun _ hq => hq⟩
  | @giveUp _ packets e =>
      have hresent : (l.resend packets).Span lo n :=
        h.shrink rfl rfl rfl fun _ hq => hq
      obtain ⟨k, m, -, hspan⟩ := hresent.failPeer e
      exact ⟨_, _, hspan⟩
  | ack hraw hslide =>
      refine ⟨lo, n, h.shrink rfl rfl rfl fun q hq => ?_⟩
      exact Dict.mem_keys_of_eraseAll hq
  | reply => exact ⟨lo, n, h.shrink rfl rfl rfl fun _ hq => hq⟩
  | mute => exact ⟨lo, n, h.shrink rfl rfl rfl fun _ hq => hq⟩
  | muteCrash => exact ⟨lo, n, h.shrink rfl rfl rfl fun _ hq => hq⟩
  | close =>
      obtain ⟨k, -, hspan⟩ := h.close
      exact ⟨lo, k, hspan⟩

/-! ## Contents -/

/-- The item stands for datagram `q` of the lane. -/
def Issued (l : Lane) (q : ℕ) (item : Item) : Prop :=
  item.addr = l.peer ∧ item.seq = q ∧ l.handed[q]? = some item.data

/-- The packet is read as datagram `q` of the lane. -/
def Carries (l : Lane) (raw : Bytes) (q : ℕ) : Prop :=
  ∃ payload, l.handed[q]? = some payload ∧ IsData raw q payload

structure Labelled (l : Lane) : Prop where
  pending : ∀ q item, l.pending.get? q = some item → l.Issued q item
  sent : ∀ q item, l.sentItems.get? q = some item → l.Issued q item
  queued : ∀ item ∈ l.queued, l.Issued item.seq item
  outstanding : ∀ q raw, l.outstanding.get? q = some raw → l.Carries raw q
  wire : ∀ raw ∈ l.wire, (∃ q, l.Carries raw q) ∨ ∃ n, IsAck raw n
  keys : ∀ q, q ∈ l.sentItems.keys ↔ q ∈ l.outstanding.keys

/-- Everything on the wire passes the checksum. -/
theorem Labelled.verify {l : Lane} (h : l.Labelled) {raw : Bytes}
    (hraw : raw ∈ l.wire) : UdpArq.verify raw = true := by
  rcases h.wire raw hraw with ⟨q, payload, -, hdata⟩ | ⟨n, hack⟩
  · exact hdata.1
  · exact hack.1

theorem Labelled.accept {l : Lane} (h : l.Labelled)
    (hcount : l.nextSeq = l.handed.length) (data : Bytes) :
    (l.accept data).Labelled := by
  have hold : ∀ {q : ℕ} {payload : Bytes}, l.handed[q]? = some payload →
      (l.accept data).handed[q]? = some payload := by
    intro q payload hq
    obtain ⟨hlt, -⟩ := List.getElem?_eq_some_iff.mp hq
    rw [Lane.accept, List.getElem?_append_left hlt]
    exact hq
  have hcarries : ∀ {raw : Bytes} {q : ℕ}, l.Carries raw q →
      (l.accept data).Carries raw q := by
    rintro raw q ⟨payload, hq, hraw⟩
    exact ⟨payload, hold hq, hraw⟩
  constructor
  · intro q item hget
    obtain ⟨haddr, hseq, hdata⟩ := h.pending q item hget
    exact ⟨haddr, hseq, hold hdata⟩
  · intro q item hget
    obtain ⟨haddr, hseq, hdata⟩ := h.sent q item hget
    exact ⟨haddr, hseq, hold hdata⟩
  · intro item hmem
    rcases List.mem_append.mp hmem with hmem | hnew
    · obtain ⟨haddr, hseq, hdata⟩ := h.queued item hmem
      exact ⟨haddr, hseq, hold hdata⟩
    · rw [List.mem_singleton.mp hnew]
      refine ⟨rfl, rfl, ?_⟩
      simp [Lane.accept, hcount]
  · intro q raw hget
    exact hcarries (h.outstanding q raw hget)
  · intro raw hmem
    rcases h.wire raw hmem with ⟨q, hq⟩ | hack
    · exact Or.inl ⟨q, hcarries hq⟩
    · exact Or.inr hack
  · exact h.keys

theorem Labelled.register {l : Lane} (h : l.Labelled) {item : Item}
    {rest : List Item} (hqueue : l.queued = item :: rest) :
    (l.register item rest).Labelled := by
  have hissued : ∀ other ∈ item :: rest, l.Issued other.seq other := by
    rw [← hqueue]
    exact h.queued
  refine ⟨?_, h.sent, ?_, h.outstanding, h.wire, h.keys⟩
  · intro q other hget
    rw [Lane.register, Dict.get?_set] at hget
    by_cases hq : q = item.seq
    · rw [if_pos hq, Option.some.injEq] at hget
      subst hget
      rw [hq]
      exact hissued item List.mem_cons_self
    · rw [if_neg hq] at hget
      exact h.pending q other hget
  · intro other hmem
    exact hissued other (List.mem_cons_of_mem _ hmem)

theorem Labelled.popPending {l : Lane} (h : l.Labelled) (seq : ℕ) :
    (l.popPending seq).Labelled := by
  refine ⟨?_, h.sent, h.queued, h.outstanding, h.wire, h.keys⟩
  intro q item hget
  rw [Lane.popPending, Dict.get?_erase] at hget
  by_cases hq : q = seq
  · simp [hq] at hget
  · rw [if_neg hq] at hget
    exact h.pending q item hget

theorem Labelled.launch {l : Lane} (h : l.Labelled) {seq : ℕ} {item : Item}
    {packet : Bytes} (hitem : l.Issued seq item)
    (hpacket : l.Carries packet seq) :
    (l.launch seq item packet).Labelled := by
  refine ⟨h.pending, ?_, h.queued, ?_, h.wire, ?_⟩
  · intro q other hget
    rw [Lane.launch, Dict.get?_set] at hget
    by_cases hq : q = seq
    · rw [if_pos hq, Option.some.injEq] at hget
      subst hget
      rw [hq]
      exact hitem
    · rw [if_neg hq] at hget
      exact h.sent q other hget
  · intro q raw hget
    rw [Lane.launch, Dict.get?_set] at hget
    by_cases hq : q = seq
    · rw [if_pos hq, Option.some.injEq] at hget
      subst hget
      rw [hq]
      exact hpacket
    · rw [if_neg hq] at hget
      exact h.outstanding q raw hget
  · intro q
    have hkeys := h.keys q
    simp only [Lane.launch, Dict.mem_keys, Dict.get?_set] at hkeys ⊢
    by_cases hq : q = seq
    · simp [hq]
    · simpa [hq] using hkeys

/-- Dropping items and packets keeps the rest labelled. -/
theorem Labelled.shrink {l l' : Lane} (h : l.Labelled)
    (hpeer : l'.peer = l.peer) (hhanded : l'.handed = l.handed)
    (hpending : ∀ q item, l'.pending.get? q = some item →
      l.pending.get? q = some item)
    (hsent : ∀ q item, l'.sentItems.get? q = some item →
      l.sentItems.get? q = some item)
    (hqueued : ∀ item ∈ l'.queued, item ∈ l.queued)
    (houtstanding : ∀ q raw, l'.outstanding.get? q = some raw →
      l.outstanding.get? q = some raw)
    (hwire : ∀ raw ∈ l'.wire, raw ∈ l.wire)
    (hkeys : ∀ q, q ∈ l'.sentItems.keys ↔ q ∈ l'.outstanding.keys) :
    l'.Labelled := by
  have hissued : ∀ {q : ℕ} {item : Item}, l.Issued q item →
      l'.Issued q item := by
    rintro q item ⟨haddr, hseq, hdata⟩
    exact ⟨haddr.trans hpeer.symm, hseq, hhanded ▸ hdata⟩
  have hcarries : ∀ {raw : Bytes} {q : ℕ}, l.Carries raw q →
      l'.Carries raw q := by
    rintro raw q ⟨payload, hq, hraw⟩
    exact ⟨payload, hhanded ▸ hq, hraw⟩
  constructor
  · intro q item hget
    exact hissued (h.pending q item (hpending q item hget))
  · intro q item hget
    exact hissued (h.sent q item (hsent q item hget))
  · intro item hmem
    exact hissued (h.queued item (hqueued item hmem))
  · intro q raw hget
    exact hcarries (h.outstanding q raw (houtstanding q raw hget))
  · intro raw hmem
    rcases h.wire raw (hwire raw hmem) with ⟨q, hq⟩ | hack
    · exact Or.inl ⟨q, hcarries hq⟩
    · exact Or.inr hack
  · exact hkeys

theorem pending_of_nextToSend {cfg : Config} {l : Lane} {seq : ℕ} {item : Item}
    (hnext : l.nextToSend cfg = some (seq, item)) :
    l.pending.get? seq = some item := by
  unfold nextToSend at hnext
  split at hnext
  · simp at hnext
  · split at hnext
    · simp at hnext
    · obtain ⟨x, hx, heq⟩ := Option.map_eq_some_iff.mp hnext
      cases heq
      exact hx

/-- The packet that enters the window carries the datagram of its item. -/
theorem Labelled.carries {cfg : Config} {l : Lane} (h : l.Labelled) {seq : ℕ}
    {item : Item} {packet : Bytes}
    (hnext : l.nextToSend cfg = some (seq, item))
    (hpacket : Core.dataPacket seq item.data = .ok packet) :
    l.Carries packet seq := by
  obtain ⟨-, -, hdata⟩ := h.pending seq item (pending_of_nextToSend hnext)
  exact ⟨item.data, hdata, Core.isData_of_dataPacket hpacket⟩

theorem Labelled.failPeer {l : Lane} (h : l.Labelled) (e : Err) :
    (l.failPeer e).Labelled := by
  refine h.shrink rfl rfl ?_ ?_ ?_ ?_ ?_ ?_
  · intro q item hget
    simp [Lane.failPeer] at hget
  · intro q item hget
    simp [Lane.failPeer] at hget
  · exact fun _ hmem => hmem
  · intro q raw hget
    simp [Lane.failPeer] at hget
  · exact fun _ hmem => hmem
  · simp [Lane.failPeer]

theorem Labelled.complete {l : Lane} (h : l.Labelled) (seqs : List ℕ) :
    (l.complete seqs).Labelled := by
  refine h.shrink rfl rfl ?_ ?_ ?_ ?_ ?_ ?_
  · exact fun _ _ hget => hget
  · exact fun _ _ hget => Dict.get?_of_eraseAll hget
  · exact fun _ hmem => hmem
  · exact fun _ _ hget => Dict.get?_of_eraseAll hget
  · exact fun _ hmem => hmem
  · intro q
    have hkeys := h.keys q
    simp only [Lane.complete, Dict.mem_keys, Dict.get?_eraseAll] at hkeys ⊢
    by_cases hq : q ∈ seqs
    · simp [hq]
    · simpa [hq] using hkeys

theorem Labelled.discard {l : Lane} (h : l.Labelled) (seq : ℕ) (e : Err) :
    (l.discard seq e).Labelled := by
  have hget_erase : ∀ {ν : Type} {d : Dict ℕ ν} {q : ℕ} {x : ν},
      (d.erase seq).get? q = some x → d.get? q = some x := by
    intro ν d q x hget
    rw [Dict.get?_erase] at hget
    by_cases hq : q = seq
    · simp [hq] at hget
    · rwa [if_neg hq] at hget
  refine h.shrink rfl rfl ?_ ?_ ?_ ?_ ?_ ?_
  · exact fun _ _ hget => hget
  · exact fun _ _ hget => hget_erase hget
  · exact fun _ hmem => hmem
  · exact fun _ _ hget => hget_erase hget
  · exact fun _ hmem => hmem
  · intro q
    have hkeys := h.keys q
    simp only [Lane.discard, Dict.mem_keys, Dict.get?_erase] at hkeys ⊢
    by_cases hq : q = seq
    · simp [hq]
    · simpa [hq] using hkeys

theorem Labelled.resend {l : Lane} (h : l.Labelled) {packets : List Bytes}
    (hpackets : ∀ raw ∈ packets, ∃ q, l.outstanding.get? q = some raw) :
    (l.resend packets).Labelled := by
  refine ⟨h.pending, h.sent, h.queued, h.outstanding, ?_, h.keys⟩
  intro raw hmem
  rcases List.mem_append.mp hmem with hnew | hold
  · obtain ⟨q, hget⟩ := hpackets raw hnew
    exact Or.inl ⟨q, h.outstanding q raw hget⟩
  · exact h.wire raw hold

theorem Labelled.close {l : Lane} (h : l.Labelled) : l.close.Labelled := by
  by_cases hstopped : l.stopped
  · rwa [Lane.close, if_pos hstopped]
  · rw [Lane.close, if_neg hstopped]
    exact ⟨h.pending, h.sent, by simp, h.outstanding, h.wire, h.keys⟩

theorem Labelled.transmit {l : Lane} (h : l.Labelled) {packet : Bytes}
    (hpacket : (∃ q, l.Carries packet q) ∨ ∃ n, IsAck packet n) :
    (l.transmit packet).Labelled := by
  refine ⟨h.pending, h.sent, h.queued, h.outstanding, ?_, h.keys⟩
  intro raw hmem
  rcases List.mem_cons.mp hmem with rfl | hold
  · exact hpacket
  · exact h.wire raw hold

/-- Every event keeps items and packets labelled. -/
theorem Labelled.step {cfg : Config} {D : Discipline}
    {fails : SweepInput → Prop} {l l' : Lane} {e : Event} (h : l.Labelled)
    (hcount : l.nextSeq = l.handed.length) (hstep : Step cfg D fails l e l') :
    l'.Labelled := by
  cases hstep with
  | idle => exact h
  | crash => exact ⟨h.pending, h.sent, h.queued, h.outstanding, h.wire, h.keys⟩
  | accept => exact h.accept hcount _
  | register hqueue =>
      have h' := h.register hqueue
      exact ⟨h'.pending, h'.sent, h'.queued, h'.outstanding, h'.wire, h'.keys⟩
  | registerCrash hqueue =>
      have h' := h.register hqueue
      exact ⟨h'.pending, h'.sent, h'.queued, h'.outstanding, h'.wire, h'.keys⟩
  | send hnext hpacket =>
      have hitem := h.pending _ _ (pending_of_nextToSend hnext)
      have hcarries := h.carries hnext hpacket
      apply ((h.popPending _).launch hitem hcarries).transmit
      exact Or.inl ⟨_, hcarries⟩
  | unsent hnext hpacket =>
      have hitem := h.pending _ _ (pending_of_nextToSend hnext)
      have hcarries := h.carries hnext hpacket
      exact ((h.popPending _).launch hitem hcarries).discard _ _
  | @unencodable _ seq =>
      have h' := h.popPending seq
      exact ⟨h'.pending, h'.sent, h'.queued, h'.outstanding, h'.wire, h'.keys⟩
  | resend hpackets => exact h.resend hpackets
  | giveUp hpackets => exact (h.resend hpackets).failPeer _
  | @ack _ _ _ _ seqs =>
      have h' := h.complete seqs
      exact ⟨h'.pending, h'.sent, h'.queued, h'.outstanding, h'.wire, h'.keys⟩
  | reply _ hpacket =>
      have h' := h.transmit (Or.inr ⟨_, Core.isAck_of_ackPacket hpacket⟩)
      exact ⟨h'.pending, h'.sent, h'.queued, h'.outstanding, h'.wire, h'.keys⟩
  | mute => exact ⟨h.pending, h.sent, h.queued, h.outstanding, h.wire, h.keys⟩
  | muteCrash =>
      exact ⟨h.pending, h.sent, h.queued, h.outstanding, h.wire, h.keys⟩
  | close => exact h.close

/-! ## The estimator of a peer with sender state -/

structure Ready (l : Lane) : Prop where
  base_le : ∀ base, l.base = some base → base ≤ l.nextSeq ∧ 0 < l.nextSeq
  base_none : l.base = none → l.pending = ∅ ∧ l.outstanding = ∅
  estimator : l.crashed = false → l.base ≠ none → l.estimator = true

theorem Ready.base_ne_none {cfg : Config} {l : Lane} (h : l.Ready) {seq : ℕ}
    {item : Item} (hnext : l.nextToSend cfg = some (seq, item)) :
    l.base ≠ none := by
  intro hnone
  have hget := pending_of_nextToSend hnext
  rw [(h.base_none hnone).1] at hget
  simp at hget

/-- The invariants that hold of every lane of a transport. -/
structure WellFormed (l : Lane) : Prop where
  span : ∃ lo n, l.Span lo n
  labelled : l.Labelled
  ready : l.Ready
  nextSeq_eq : l.nextSeq = l.handed.length

theorem Ready.register {l : Lane} (h : l.WellFormed) {item : Item}
    {rest : List Item} (hqueue : l.queued = item :: rest) :
    ∀ base, (l.register item rest).base = some base →
      base ≤ l.nextSeq ∧ 0 < l.nextSeq := by
  intro base hbase
  obtain ⟨-, -, hdata⟩ :=
    h.labelled.queued item (hqueue ▸ List.mem_cons_self)
  obtain ⟨hlt, -⟩ := List.getElem?_eq_some_iff.mp hdata
  rw [← h.nextSeq_eq] at hlt
  cases hold : l.base with
  | none =>
      have heq : item.seq = base := by simpa [Lane.register, hold] using hbase
      omega
  | some b =>
      have heq : b = base := by simpa [Lane.register, hold] using hbase
      subst heq
      exact h.ready.base_le b hold

theorem Ready.step {cfg : Config} {D : Discipline}
    {fails : SweepInput → Prop} {l l' : Lane} {e : Event} (h : l.WellFormed)
    (hstep : Step cfg D fails l e l') : l'.Ready := by
  have hr := h.ready
  cases hstep with
  | idle => exact hr
  | crash => exact ⟨hr.base_le, hr.base_none, fun hc => by cases hc⟩
  | accept =>
      refine ⟨fun base hbase => ?_, hr.base_none, hr.estimator⟩
      obtain ⟨hle, hpos⟩ := hr.base_le base hbase
      exact ⟨Nat.le_succ_of_le hle, Nat.succ_pos _⟩
  | register hqueue =>
      refine ⟨Ready.register h hqueue, ?_, fun _ _ => rfl⟩
      intro hnone
      simp [Lane.register] at hnone
  | registerCrash hqueue =>
      refine ⟨Ready.register h hqueue, ?_, fun hc => by cases hc⟩
      intro hnone
      simp [Lane.register, Lane.crash] at hnone
  | send hnext =>
      have hsome := hr.base_ne_none hnext
      exact ⟨hr.base_le, fun hnone => absurd hnone hsome, hr.estimator⟩
  | unsent hnext =>
      have hsome := hr.base_ne_none hnext
      exact ⟨hr.base_le, fun hnone => absurd hnone hsome, hr.estimator⟩
  | unencodable hnext =>
      have hsome := hr.base_ne_none hnext
      exact ⟨hr.base_le, fun hnone => absurd hnone hsome, fun hc => by cases hc⟩
  | resend => exact ⟨hr.base_le, hr.base_none, hr.estimator⟩
  | giveUp => exact ⟨hr.base_le, fun _ => ⟨rfl, rfl⟩, hr.estimator⟩
  | ack _ hslide =>
      obtain ⟨old, hold, -, hmax, -⟩ := (D.slide_sound hslide).old
      obtain ⟨hle, hpos⟩ := hr.base_le old hold
      refine ⟨fun base hbase => ?_, fun hnone => ?_, fun hc _ => ?_⟩
      · cases hbase
        rw [max_eq_right hle] at hmax
        exact ⟨hmax, hpos⟩
      · simp [slideTo] at hnone
      · exact hr.estimator hc (by simp [hold])
  | reply => exact ⟨hr.base_le, hr.base_none, hr.estimator⟩
  | mute => exact ⟨hr.base_le, hr.base_none, hr.estimator⟩
  | muteCrash => exact ⟨hr.base_le, hr.base_none, fun hc => by cases hc⟩
  | close =>
      unfold Lane.close
      split
      · exact hr
      · exact ⟨hr.base_le, hr.base_none, hr.estimator⟩

theorem nextSeq_eq_step {cfg : Config} {D : Discipline}
    {fails : SweepInput → Prop} {l l' : Lane} {e : Event}
    (h : l.nextSeq = l.handed.length) (hstep : Step cfg D fails l e l') :
    l'.nextSeq = l'.handed.length := by
  cases hstep with
  | accept => simp [Lane.accept, h]
  | close =>
      unfold Lane.close
      split <;> exact h
  | _ => exact h

/-- Every event keeps a lane well formed. -/
theorem WellFormed.step {cfg : Config} {D : Discipline}
    {fails : SweepInput → Prop} {l l' : Lane} {e : Event} (h : l.WellFormed)
    (hstep : Step cfg D fails l e l') : l'.WellFormed where
  span := Span.step h.span hstep
  labelled := h.labelled.step h.nextSeq_eq hstep
  ready := Ready.step h hstep
  nextSeq_eq := nextSeq_eq_step h.nextSeq_eq hstep

/-- A lane before its first event is well formed. -/
theorem wellFormed_fresh (addr : Address) :
    WellFormed ({ peer := addr } : Lane) where
  span := ⟨0, 0, rfl, le_rfl, fun _ => rfl, by simp⟩
  labelled := ⟨by simp, by simp, by simp, by simp, by simp, by simp⟩
  ready := ⟨by simp, by simp, by simp⟩
  nextSeq_eq := rfl

end Lane

end UdpArq
