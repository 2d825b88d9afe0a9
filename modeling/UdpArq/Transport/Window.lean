import UdpArq.Transport.Effects

/-!
# The send window of a lane

What is outstanding lies in the window that starts at the base, and the base has
not passed anything that still waits to be sent.  Every event keeps this, except
that an acknowledgement may slide the base too far.
-/

namespace UdpArq

namespace Lane

variable {cfg : Config} {D : Discipline} {fails : SweepInput → Prop}
  {l l' : Lane} {e : Event}

/-- What is outstanding lies in the send window, and the base is below
everything that waits. -/
structure InWindow (cfg : Config) (l : Lane) : Prop where
  window : ∀ q ∈ l.outstanding.keys, ∃ base, l.base = some base ∧
    base ≤ q ∧ q < base + cfg.windowSize
  base_le : ∀ base, l.base = some base → ∀ q ∈ l.waiting, base ≤ q

/-- No more packets are in flight than the window has places. -/
theorem InWindow.length_le (h : l.InWindow cfg) :
    l.outstanding.keys.length ≤ cfg.windowSize := by
  by_cases hnil : l.outstanding.keys = []
  · rw [hnil]
    exact Nat.zero_le _
  obtain ⟨q, hq⟩ := List.exists_mem_of_ne_nil _ hnil
  obtain ⟨base, hbase, -, -⟩ := h.window q hq
  have hsub : l.outstanding.keys ⊆ List.range' base cfg.windowSize := by
    intro q' hq'
    obtain ⟨base', hbase', hlo, hhi⟩ := h.window q' hq'
    rw [hbase, Option.some.injEq] at hbase'
    subst hbase'
    exact List.mem_range'_1.mpr ⟨hlo, hhi⟩
  have hlength := (List.subperm_of_subset l.outstanding.nodup_keys hsub).length_le
  rwa [List.length_range'] at hlength

/-- Dropping packets keeps the window. -/
theorem InWindow.shrink (h : l.InWindow cfg) (hbase : l'.base = l.base)
    (hout : ∀ q ∈ l'.outstanding.keys, q ∈ l.outstanding.keys)
    (hwaiting : ∀ q ∈ l'.waiting, q ∈ l.waiting) : l'.InWindow cfg := by
  constructor
  · intro q hq
    rw [hbase]
    exact h.window q (hout q hq)
  · intro base hb q hq
    exact h.base_le base (hbase ▸ hb) q (hwaiting q hq)

theorem InWindow.accept (h : l.InWindow cfg) (hwf : l.WellFormed)
    (data : Bytes) : (l.accept data).InWindow cfg := by
  refine ⟨h.window, fun base hbase q hq => ?_⟩
  have hwaiting : (l.accept data).waiting = l.waiting ++ [l.nextSeq] := by
    simp [waiting, Lane.accept]
  rw [hwaiting, List.mem_append, List.mem_singleton] at hq
  rcases hq with hq | rfl
  · exact h.base_le base hbase q hq
  · exact (hwf.ready.base_le base hbase).1

/-- The first item that a peer ever registers sets its base. -/
theorem InWindow.register (h : l.InWindow cfg) (hwf : l.WellFormed)
    {item : Item} {rest : List Item} (hqueue : l.queued = item :: rest) :
    (l.register item rest).InWindow cfg := by
  obtain ⟨lo, n, hspan⟩ := hwf.span
  have hwaiting : (l.register item rest).waiting = l.waiting :=
    (hspan.register hqueue).waiting_eq.trans hspan.waiting_eq.symm
  cases hbase : l.base with
  | some base =>
      have hbase' : (l.register item rest).base = l.base := by
        simp [Lane.register, hbase]
      refine h.shrink hbase' (fun _ hq => hq) fun q hq => ?_
      rwa [hwaiting] at hq
  | none =>
      obtain ⟨hpending, hout⟩ := hwf.ready.base_none hbase
      have hfirst : l.waiting = item.seq :: rest.map Item.seq := by
        simp [waiting, hpending, hqueue]
      have hlo : item.seq = lo := by
        have hrange := hfirst.symm.trans hspan.waiting_eq
        cases n with
        | zero => simp at hrange
        | succ n => exact (List.cons.inj hrange).1
      constructor
      · intro q hq
        have hq' : q ∈ l.outstanding.keys := hq
        simp [hout] at hq'
      · intro base hb q hq
        rw [hwaiting, hspan.waiting_eq, List.mem_range'_1] at hq
        have heq : item.seq = base := by
          simpa [Lane.register, hbase] using hb
        exact (heq.symm.trans hlo).trans_le hq.1

theorem InWindow.popPending (h : l.InWindow cfg) (seq : ℕ) :
    (l.popPending seq).InWindow cfg := by
  refine h.shrink rfl (fun _ hq => hq) fun q hq => ?_
  simp only [waiting, Lane.popPending, List.mem_append,
    Dict.mem_keys_erase] at hq ⊢
  exact hq.imp_left And.left

/-- The packet that enters passes the test of the window pump. -/
theorem InWindow.launch (h : l.InWindow cfg) (hwf : l.WellFormed) {seq : ℕ}
    {item : Item} (hnext : l.nextToSend cfg = some (seq, item))
    (packet : Bytes) :
    ((l.popPending seq).launch seq item packet).InWindow cfg := by
  obtain ⟨lo, n, hspan⟩ := hwf.span
  obtain ⟨-, -, hlt, hget⟩ := hspan.next hnext
  obtain ⟨base, hbase⟩ :=
    Option.ne_none_iff_exists'.mp (hwf.ready.base_ne_none hnext)
  have hwaits : seq ∈ l.waiting :=
    List.mem_append_left _ (Dict.mem_keys.mpr ⟨item, hget⟩)
  rw [hbase, Option.getD_some] at hlt
  refine ⟨fun q hq => ?_, (h.popPending seq).base_le⟩
  rcases Dict.mem_keys_set.mp hq with rfl | hold
  · exact ⟨base, hbase, h.base_le base hbase q hwaits, hlt⟩
  · exact h.window q hold

/-- Every event but a sliding acknowledgement keeps the window. -/
theorem InWindow.step (h : l.InWindow cfg) (hwf : l.WellFormed)
    (hstep : Step cfg D fails l e l')
    (hslide : ∀ raw input n seqs base, e = .incoming raw l.peer input →
      IsAck raw n → D.slide l n = some (seqs, base) →
        ((l.complete seqs).slideTo base).InWindow cfg) :
    l'.InWindow cfg := by
  cases hstep with
  | accept => exact h.accept hwf _
  | register hqueue =>
      exact (h.register hwf hqueue).shrink rfl (fun _ hq => hq) fun _ hq => hq
  | registerCrash hqueue =>
      exact (h.register hwf hqueue).shrink rfl (fun _ hq => hq) fun _ hq => hq
  | send hnext =>
      exact (h.launch hwf hnext _).shrink rfl (fun _ hq => hq) fun _ hq => hq
  | @unsent _ _ _ packet _ hnext =>
      refine (h.launch hwf hnext packet).shrink rfl (fun q hq => ?_)
        fun _ hq => hq
      exact (Dict.mem_keys_erase.mp hq).1
  | unencodable =>
      exact (h.popPending _).shrink rfl (fun _ hq => hq) fun _ hq => hq
  | giveUp =>
      refine h.shrink rfl (fun q hq => ?_) fun q hq => ?_
      · simp [Lane.failPeer] at hq
      · exact List.mem_append_right _ (by
          simpa [waiting, Lane.failPeer, Lane.resend] using hq)
  | ack hraw hsome => exact hslide _ _ _ _ _ rfl hraw hsome
  | close =>
      unfold Lane.close
      split
      · exact h
      · refine h.shrink rfl (fun _ hq => hq) fun q hq => ?_
        exact List.mem_append_left _ (by simpa [waiting] using hq)
  | _ => exact h.shrink rfl (fun _ hq => hq) fun _ hq => hq

end Lane

end UdpArq
