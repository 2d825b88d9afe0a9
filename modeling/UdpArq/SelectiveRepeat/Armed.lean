import UdpArq.SelectiveRepeat.Threaded
import UdpArq.TimerHeap.Refinement

/-!
# Per-packet timers

`pop_due` removes all due timers before the first one of them is set again.  In
between, the outstanding packets without a timer are among those that the sweep
has still to visit.
-/

namespace UdpArq

namespace TimerHeap

variable {κ : Type} [DecidableEq κ] (t : TimerHeap κ) (k a : κ)

@[simp] theorem get?_schedule (d : ℚ) :
    (t.schedule k d).keyToDeadline.get? a =
      if a = k then some d else t.keyToDeadline.get? a :=
  Dict.get?_set _ _ _ _

@[simp] theorem get?_cancel :
    (t.cancel k).keyToDeadline.get? a =
      if a = k then none else t.keyToDeadline.get? a :=
  Dict.get?_erase _ _ _

variable {t}

theorem Faithful.cancels (h : t.Faithful) (ks : List κ) :
    (ks.foldl TimerHeap.cancel t).Faithful := by
  induction ks generalizing t with
  | nil => exact h
  | cons k ks ih => exact ih (h.cancel k)

theorem get?_cancels (t : TimerHeap κ) (ks : List κ) (ha : a ∉ ks) :
    (ks.foldl TimerHeap.cancel t).keyToDeadline.get? a =
      t.keyToDeadline.get? a := by
  induction ks generalizing t with
  | nil => rfl
  | cons k ks ih =>
      rw [List.mem_cons, not_or] at ha
      rw [List.foldl_cons, ih _ ha.2, get?_cancel, if_neg ha.1]

end TimerHeap

namespace SelectiveRepeatTransport

open UdpArq.Core

variable {cfg : Config} {s : SelectiveRepeatTransport}

/-- Every outstanding packet has a timer, unless it is one of the packets `due`
whose timers have been taken out of the heap. -/
structure Timed (s : SelectiveRepeatTransport) (due : Address → ℕ → Prop) :
    Prop where
  faithful : s.timerHeap.Faithful
  live : ∀ a, ∀ q ∈ (sub s.outstanding a).keys,
    due a q ∨ s.timerHeap.keyToDeadline.get? (a, q) ≠ none

variable {due due' : Address → ℕ → Prop}

theorem Timed.mono (h : Timed s due)
    (hdue : ∀ a, ∀ q ∈ (sub s.outstanding a).keys, due a q → due' a q) :
    Timed s due' :=
  ⟨h.faithful, fun a q hq => (h.live a q hq).imp_left (hdue a q hq)⟩

/-- What leaves the heap alone and makes nothing outstanding keeps the
timers. -/
theorem Timed.congr {s' : SelectiveRepeatTransport} (h : Timed s due)
    (hheap : s'.timerHeap = s.timerHeap)
    (hout : ∀ a, ∀ q ∈ (sub s'.outstanding a).keys,
      q ∈ (sub s.outstanding a).keys) : Timed s' due := by
  refine ⟨hheap ▸ h.faithful, fun a q hq => ?_⟩
  rw [hheap]
  exact h.live a q (hout a q hq)

/-- A packet that is no longer outstanding needs no timer. -/
theorem Timed.cancel {s' : SelectiveRepeatTransport} (h : Timed s due)
    {addr : Address} {seq : ℕ}
    (hheap : s'.timerHeap = s.timerHeap.cancel (addr, seq))
    (hout : ∀ a, ∀ q ∈ (sub s'.outstanding a).keys,
      q ∈ (sub s.outstanding a).keys ∧ (a, q) ≠ (addr, seq)) :
    Timed s' due := by
  refine ⟨hheap ▸ h.faithful.cancel _, fun a q hq => ?_⟩
  obtain ⟨hold, hne⟩ := hout a q hq
  rw [hheap, TimerHeap.get?_cancel, if_neg hne]
  exact h.live a q hold

/-- Setting the timer of one packet. -/
theorem Timed.schedule {s' : SelectiveRepeatTransport} (h : Timed s due)
    {addr : Address} {seq : ℕ} {d : ℚ}
    (hheap : s'.timerHeap = s.timerHeap.schedule (addr, seq) d)
    (hout : ∀ a, ∀ q ∈ (sub s'.outstanding a).keys,
      (a, q) = (addr, seq) ∨ q ∈ (sub s.outstanding a).keys)
    (hdue : ∀ a q, due a q → (a, q) = (addr, seq) ∨ due' a q) :
    Timed s' due' := by
  refine ⟨hheap ▸ h.faithful.schedule _ _, fun a q hq => ?_⟩
  rw [hheap, TimerHeap.get?_schedule]
  by_cases heq : (a, q) = (addr, seq)
  · simp [heq]
  · rw [if_neg heq]
    apply (h.live a q ((hout a q hq).resolve_left heq)).imp_left
    exact fun hd => (hdue a q hd).resolve_left heq

theorem armTimer_schedule (cfg : Config) (s : SelectiveRepeatTransport)
    {addr : Address} (hrto : (s.rto.get? addr).isSome) (seq : ℕ) (now : ℚ) :
    ∃ d, armTimer cfg s addr seq now =
      { s with timerHeap := s.timerHeap.schedule (addr, seq) d } := by
  obtain ⟨rto, hvalue⟩ := rtoValue_isSome s.toCore addr cfg hrto
  refine ⟨now + rto, ?_⟩
  simp only [armTimer, hvalue]

/-! ## Timeout sweeps -/

/-- A peer that is given up has nothing outstanding. -/
theorem Timed.failPeer (h : Timed s due) {addr : Address} (e : Err)
    (hdue : ∀ a q, due a q → a = addr ∨ due' a q) :
    Timed (SelectiveRepeatTransport.failPeer s addr e) due' := by
  have hheap : (SelectiveRepeatTransport.failPeer s addr e).timerHeap =
      ((sub s.outstanding addr).keys.map fun seq => (addr, seq)).foldl
        TimerHeap.cancel s.timerHeap := by
    rw [List.foldl_map]
    rfl
  have hout : ∀ a, sub (SelectiveRepeatTransport.failPeer s addr e).outstanding
      a = if a = addr then ∅ else sub s.outstanding a :=
    fun a => sub_modify_clear s.outstanding addr a
  refine ⟨hheap ▸ h.faithful.cancels _, fun a q hq => ?_⟩
  rw [hout] at hq
  split_ifs at hq with ha
  · cases hq
  · have hfresh : (a, q) ∉
        (sub s.outstanding addr).keys.map fun seq => (addr, seq) := by
      simp [Ne.symm ha]
    rw [hheap, TimerHeap.get?_cancels _ _ _ hfresh]
    apply (h.live a q hq).imp_left
    exact fun hd => (hdue a q hd).resolve_left ha

/-- The retransmission loop sets the timers of its packets again, or gives the
peer up. -/
theorem Timed.retransmit (cfg : Config) (input : SweepInput) (addr : Address)
    (seqs : List ℕ) {s : SelectiveRepeatTransport} (hrun : ¬ s.crashed.isSome)
    (hrto : (s.rto.get? addr).isSome)
    (h : Timed s fun a q => a = addr ∧ q ∈ seqs ∨ due a q) :
    Timed (SelectiveRepeatTransport.retransmit cfg input addr seqs s) due := by
  induction seqs generalizing s with
  | nil => exact h.mono fun a q _ hd => by simpa using hd
  | cons seq rest ih =>
      rcases hget : (sub s.outstanding addr).get? seq with _ | packet
      · simp only [SelectiveRepeatTransport.retransmit, hget]
        refine ih hrun hrto (h.mono fun a q hq hd => hd.imp_left ?_)
        rintro ⟨rfl, hmem⟩
        refine ⟨rfl, (List.mem_cons.mp hmem).resolve_left ?_⟩
        rintro rfl
        obtain ⟨packet, hpacket⟩ := Dict.mem_keys.mp hq
        rw [hget] at hpacket
        cases hpacket
      · obtain ⟨d, harm⟩ := armTimer_schedule cfg
          { s with
            retransmitted := s.retransmitted.set addr
              (insert seq (s.retransmitted.getD addr ∅))
            retransmissions := s.retransmissions + 1 } hrto seq
          (input.rearmAt addr seq)
        obtain ⟨s₁, hs₁⟩ : ∃ s₁ : SelectiveRepeatTransport,
            { s with
              retransmitted := s.retransmitted.set addr
                (insert seq (s.retransmitted.getD addr ∅))
              retransmissions := s.retransmissions + 1
              timerHeap := s.timerHeap.schedule (addr, seq) d } = s₁ :=
          ⟨_, rfl⟩
        have hrun₁ : ¬ s₁.crashed.isSome := by rw [← hs₁]; exact hrun
        have hrto₁ : (s₁.rto.get? addr).isSome := by rw [← hs₁]; exact hrto
        have htimed : Timed s₁ fun a q => a = addr ∧ q ∈ rest ∨ due a q := by
          refine h.schedule (by rw [← hs₁]) (fun a q hq => Or.inr ?_)
            fun a q hd => ?_
          · rwa [← hs₁] at hq
          · rw [Prod.mk.injEq]
            rcases hd with ⟨rfl, hmem⟩ | hd
            · rcases List.mem_cons.mp hmem with rfl | hrest
              · exact Or.inl ⟨rfl, rfl⟩
              · exact Or.inr (Or.inl ⟨rfl, hrest⟩)
            · exact Or.inr (Or.inr hd)
        simp only [SelectiveRepeatTransport.retransmit, hget, harm, hs₁,
          if_neg hrun₁]
        rcases input.sendResult addr seq with _ | what
        · exact ih hrun₁ hrto₁ (htimed.congr rfl fun a q hq => hq)
        · exact htimed.failPeer _ fun a q hd => hd.imp_left And.left

theorem Timed.timeoutPeer (cfg : Config) (input : SweepInput)
    (hrun : ¬ s.crashed.isSome) {addr : Address}
    (hrto : (s.rto.get? addr).isSome) {seqs : List ℕ}
    (h : Timed s fun a q => a = addr ∧ q ∈ seqs ∨ due a q) :
    Timed (SelectiveRepeatTransport.timeoutPeer cfg input s addr seqs) due := by
  obtain ⟨r, hr⟩ := Option.isSome_iff_exists.mp hrto
  obtain ⟨s₁, hresult, hrun₁, hrto₁, htimed⟩ : ∃ s₁ : SelectiveRepeatTransport,
      SelectiveRepeatTransport.timeoutPeer cfg input s addr seqs =
        (if s₁.crashed.isSome then s₁
        else if s.retries.getD addr 0 + 1 > cfg.maxRetries then
          SelectiveRepeatTransport.failPeer s₁ addr
            (.noAck addr cfg.maxRetries)
        else SelectiveRepeatTransport.retransmit cfg input addr seqs s₁) ∧
      ¬ s₁.crashed.isSome ∧ (s₁.rto.get? addr).isSome ∧
      Timed s₁ fun a q => a = addr ∧ q ∈ seqs ∨ due a q := by
    by_cases hadaptive : cfg.adaptive
    · refine ⟨{ s with
        retries := s.retries.set addr (s.retries.getD addr 0 + 1)
        rto := s.rto.set addr r.onTimeout }, ?_, hrun, by simp,
        h.congr rfl fun _ _ hq => hq⟩
      simp only [SelectiveRepeatTransport.timeoutPeer, if_pos hadaptive, hr]
    · refine ⟨{ s with
        retries := s.retries.set addr (s.retries.getD addr 0 + 1) }, ?_, hrun,
        hrto, h.congr rfl fun _ _ hq => hq⟩
      simp only [SelectiveRepeatTransport.timeoutPeer, if_neg hadaptive]
  rw [hresult, if_neg hrun₁]
  split_ifs
  · exact htimed.failPeer _ fun a q hd => hd.imp_left And.left
  · exact htimed.retransmit cfg input addr seqs hrun₁ hrto₁

/-- Due packets that are outstanding are visited. -/
theorem mem_groupDue (s : SelectiveRepeatTransport) {a : Address} {q : ℕ}
    (hout : q ∈ (sub s.outstanding a).keys) (popped : List (Address × ℕ))
    (groups : Dict Address (List ℕ))
    (h : (a, q) ∈ popped ∨ q ∈ groups.getD a []) :
    q ∈ (groupDue s popped groups).getD a [] := by
  induction popped generalizing groups with
  | nil => exact h.resolve_left List.not_mem_nil
  | cons p popped ih =>
      obtain ⟨addr, seq⟩ := p
      rw [groupDue]
      split_ifs with hmem
      · apply ih
        rcases h with hmem' | hgroup
        · rcases List.mem_cons.mp hmem' with heq | hrest
          · obtain ⟨rfl, rfl⟩ := Prod.mk.inj heq
            exact Or.inr (by simp [Dict.getD])
          · exact Or.inl hrest
        · right
          by_cases ha : a = addr
          · subst ha
            simp only [Dict.getD, Dict.get?_set, if_pos, Option.getD_some]
            exact List.mem_append_left _ hgroup
          · simpa [Dict.getD, ha] using hgroup
      · apply ih
        refine h.imp_left fun hmem' => (List.mem_cons.mp hmem').resolve_left ?_
        rintro heq
        obtain ⟨rfl, rfl⟩ := Prod.mk.inj heq
        exact hmem hout

/-- The visits of the groups `xs`, whose packets are due. -/
theorem Timed.visits (cfg : Config) (input : SweepInput)
    {groups : Dict Address (List ℕ)} {xs : List (Address × List ℕ)}
    (hsub : ∀ x ∈ xs, x ∈ groups.entries) {s : SelectiveRepeatTransport}
    (hrun : ¬ s.crashed.isSome)
    (hrto : ∀ x ∈ groups.entries, (s.lane x.1).estimator = true)
    (h : Timed s fun a q => ∃ x ∈ xs, x.1 = a ∧ q ∈ x.2) :
    Timed (xs.foldl (visit cfg input) s) fun _ _ => False := by
  induction xs generalizing s with
  | nil => exact h.mono fun a q _ hd => by simp at hd
  | cons x xs ih =>
      have hx := hsub x List.mem_cons_self
      obtain ⟨hrun', hrto'⟩ := timeoutPeer_keeps hrun hrto input hx
      rw [List.foldl_cons, visit, if_neg hrun]
      refine ih (fun y hy => hsub y (List.mem_cons_of_mem _ hy)) hrun' hrto'
        (Timed.timeoutPeer cfg input hrun (hrto x hx) ?_)
      refine h.mono fun a q _ hd => ?_
      obtain ⟨y, hy, rfl, hq⟩ := hd
      rcases List.mem_cons.mp hy with rfl | hy
      · exact Or.inl ⟨rfl, hq⟩
      · exact Or.inr ⟨y, hy, rfl, hq⟩

/-- A sweep sets the timer of every due packet that is still outstanding. -/
theorem Timed.handleTimeouts (hwf : s.WellFormed) (hrun : ¬ s.crashed.isSome)
    (h : Timed s fun _ _ => False) (input : SweepInput) :
    Timed (SelectiveRepeatTransport.handleTimeouts cfg s input)
      fun _ _ => False := by
  obtain ⟨groups, hgroups⟩ : ∃ groups,
      groupDue s (s.timerHeap.popDue input.now).1 ∅ = groups := ⟨_, rfl⟩
  have hpops := TimerHeap.popDueLoop_spec input.now h.faithful.ascending
    h.faithful.covers
  have hpopped : Timed { s with timerHeap := (s.timerHeap.popDue input.now).2 }
      fun a q => ∃ x ∈ groups.entries, x.1 = a ∧ q ∈ x.2 := by
    refine ⟨⟨hpops.ascending, hpops.covers⟩, fun a q hq => ?_⟩
    have hlive := (h.live a q hq).resolve_left not_false
    obtain ⟨d, hd⟩ := Option.ne_none_iff_exists'.mp hlive
    by_cases hdue : input.now < d
    · right
      have hleft := congrFun hpops.live (a, q)
      simp only [Deadlines.call, hd, Option.filter_some, hdue, decide_true,
        if_true] at hleft
      exact (Option.ne_none_iff_exists'.mpr ⟨d, hleft⟩)
    · left
      have hmem := (hpops.answers.2.1 (a, q)).mpr ⟨d, hd, not_lt.mp hdue⟩
      have hgroup := mem_groupDue s hq (s.timerHeap.popDue input.now).1 ∅
        (Or.inl hmem)
      rw [hgroups] at hgroup
      rcases hget : groups.get? a with _ | seqs
      · simp [Dict.getD, hget] at hgroup
      · simp only [Dict.getD, hget, Option.getD_some] at hgroup
        exact ⟨(a, seqs), Dict.mem_entries.mpr hget, rfl, hgroup⟩
  have hrto : ∀ x ∈ groups.entries, (s.lane x.1).estimator = true :=
    fun x hx => due_estimator hwf hrun hgroups hx
  rw [handleTimeouts_eq hgroups]
  exact hpopped.visits cfg input (fun x hx => hx) hrun hrto

/-! ## Incoming packets -/

theorem sampleRtt_outstanding (c : Core) (addr : Address) (seq : ℕ)
    (acknowledged : List ℕ) (now : ℚ) :
    (c.sampleRtt addr seq acknowledged now).outstanding = c.outstanding := by
  simp only [sampleRtt]
  split
  · rfl
  · split
    · rfl
    · split <;> rfl

theorem acknowledge_outstanding (c : Core) (addr : Address) (ackFor : ℕ)
    (payloads : List Bytes) (sendResult : Option String) :
    (c.acknowledge addr ackFor payloads sendResult).outstanding =
      c.outstanding := by
  unfold acknowledge
  rcases ackPacket ackFor with e | packet
  · rfl
  · rcases sendResult with _ | what <;> rfl

theorem Timed.handleAck (h : Timed s due) (raw : Bytes) (addr : Address)
    (input : IncomingInput) :
    Timed (SelectiveRepeatTransport.handleAck cfg s raw addr input) due := by
  rcases hdecode : decode raw with e | ⟨header, payload⟩
  · simpa only [SelectiveRepeatTransport.handleAck, hdecode] using h
  by_cases hflag : header.flags &&& FLAG_ACK = 0
  · simpa only [SelectiveRepeatTransport.handleAck, hdecode, if_pos hflag]
      using h
  rcases hbase : s.base.get? addr with _ | base
  · simpa only [SelectiveRepeatTransport.handleAck, hdecode, if_neg hflag,
      hbase] using h
  by_cases hbeyond : header.ack > s.nextSeq.getD addr base
  · simpa only [SelectiveRepeatTransport.handleAck, hdecode, if_neg hflag,
      hbase, if_pos hbeyond] using h
  rcases hnumber : header.ack with _ | acked
  · simp only [SelectiveRepeatTransport.handleAck, hdecode, if_neg hflag,
      hbase, hnumber]
    split_ifs <;> exact h
  by_cases hmem : acked ∈ (sub s.outstanding addr).keys
  · -- The packet is no longer outstanding when its timer is cancelled.
    have hcancelled : Timed { s with
        toCore := s.complete addr [acked]
        timerHeap := s.timerHeap.cancel (addr, acked) } due := by
      refine h.cancel rfl fun a q hq => ?_
      simp only [complete, setStatus, sub_modify_eraseAll] at hq
      by_cases ha : a = addr
      · rw [if_pos ha, Dict.mem_keys] at hq
        obtain ⟨x, hx⟩ := hq
        rw [Dict.get?_eraseAll] at hx
        split_ifs at hx with hforget
        refine ⟨Dict.mem_keys.mpr ⟨x, hx⟩, fun heq => hforget ?_⟩
        exact List.mem_singleton.mpr (Prod.mk.inj heq).2
      · rw [if_neg ha] at hq
        exact ⟨hq, fun heq => ha (Prod.mk.inj heq).1⟩
    simp only [SelectiveRepeatTransport.handleAck, hdecode, if_neg hflag,
      hbase, hnumber, if_pos hmem]
    rw [hnumber] at hbeyond
    rw [if_neg hbeyond]
    by_cases hadaptive : cfg.adaptive
    · simp only [if_pos hadaptive]
      have hsampled := sampleRtt_outstanding (s.complete addr [acked]) addr
        acked [acked] input.ackedAt
      split_ifs
      · refine hcancelled.congr rfl fun a q hq => ?_
        rwa [hsampled] at hq
      · refine hcancelled.congr rfl fun a q hq => ?_
        simp only [hsampled] at hq
        exact hq
    · simp only [if_neg hadaptive]
      split_ifs
      · exact hcancelled
      · exact hcancelled.congr rfl fun a q hq => hq
  · simp only [SelectiveRepeatTransport.handleAck, hdecode, if_neg hflag,
      hbase, hnumber, if_neg hmem]
    split_ifs <;> exact h

theorem Timed.handleIncoming (h : Timed s due) (raw : Bytes) (addr : Address)
    (input : IncomingInput) :
    Timed (SelectiveRepeatTransport.handleIncoming cfg s raw addr input)
      due := by
  rcases handleIncoming_cases cfg s raw addr input with
    ⟨n, -, hack⟩ | ⟨seq, payload, -, hdata⟩ | ⟨-, hsame⟩
  · rw [hack]
    exact h.handleAck raw addr input
  · rw [hdata, handleData_eq]
    refine h.congr rfl fun a q hq => ?_
    rwa [acknowledge_outstanding] at hq
  · rwa [hsame]

/-! ## The sections of the window pump -/

/-- A packet enters the window with its timer set. -/
theorem Timed.launchPacket (cfg : Config) (h : Timed s due)
    (hwf : s.WellFormed) (hrun : ¬ s.crashed.isSome) (addr : Address)
    (sentAt timerAt : ℚ) :
    Timed (SelectiveRepeatTransport.launchPacket cfg s addr sentAt timerAt).1
      due := by
  rcases hnext : s.nextToSend cfg addr with _ | ⟨seq, item⟩
  · simpa only [SelectiveRepeatTransport.launchPacket, hnext] using h
  rcases hpacket : dataPacket seq item.data with e | packet
  · simp only [SelectiveRepeatTransport.launchPacket, hnext, hpacket]
    exact h.congr rfl fun a q hq => hq
  have hlane : (s.lane addr).nextToSend cfg = some (seq, item) := hnext
  have hrto : (s.rto.get? addr).isSome :=
    hwf.estimator hrun ((hwf addr).ready.base_ne_none hlane)
  obtain ⟨d, harm⟩ := armTimer_schedule cfg
    { s with
      toCore := (s.popPending addr seq).launch addr seq item packet sentAt }
    hrto seq timerAt
  simp only [SelectiveRepeatTransport.launchPacket, hnext, hpacket, harm]
  refine h.schedule rfl (fun a q hq => ?_) fun a q hd => Or.inr hd
  simp only [launch, popPending, subSet, sub_set] at hq
  by_cases ha : a = addr
  · rw [if_pos ha] at hq
    rcases Dict.mem_keys_set.mp hq with hseq | hold
    · exact Or.inl (Prod.ext ha hseq)
    · exact Or.inr (ha ▸ hold)
  · rw [if_neg ha] at hq
    exact Or.inr hq

/-- The handler cancels at most the timer of its packet. -/
theorem Timed.discardPacket (h : Timed s due) (addr : Address) (seq : ℕ)
    (e : Err) :
    Timed (SelectiveRepeatTransport.discardPacket s addr seq e) due := by
  have hout : ∀ a, ∀ q ∈ (sub (s.discard addr seq e).outstanding a).keys,
      q ∈ (sub s.outstanding a).keys ∧ (a, q) ≠ (addr, seq) := by
    intro a q hq
    simp only [Core.discard, setStatus, sub_modify_erase] at hq
    by_cases ha : a = addr
    · rw [if_pos ha, Dict.mem_keys_erase] at hq
      exact ⟨hq.1, fun heq => hq.2 (Prod.mk.inj heq).2⟩
    · rw [if_neg ha] at hq
      exact ⟨hq, fun heq => ha (Prod.mk.inj heq).1⟩
  simp only [SelectiveRepeatTransport.discardPacket]
  split
  · exact h.cancel rfl hout
  · exact h.congr rfl fun a q hq => (hout a q hq).1

/-! ## The other sections -/

/-- The calls of the application leave the window and its timers alone. -/
theorem step_app (cfg : Config) (s : SelectiveRepeatTransport) {e : Event}
    (he : (∃ data addr, e = .sendto data addr) ∨ e = .recvfrom) :
    (SelectiveRepeatTransport.step cfg s e).timerHeap = s.timerHeap ∧
      (SelectiveRepeatTransport.step cfg s e).outstanding = s.outstanding ∧
      (SelectiveRepeatTransport.step cfg s e).crashed = s.crashed := by
  rcases he with ⟨data, addr, rfl⟩ | rfl
  · simp only [SelectiveRepeatTransport.step, Core.sendto]
    split_ifs <;> exact ⟨rfl, rfl, rfl⟩
  · simp only [SelectiveRepeatTransport.step, Core.recvfrom]
    rcases s.incomingData.get? with _ | x <;> exact ⟨rfl, rfl, rfl⟩

theorem Timed.registerItem (h : Timed s due) (item : Item) :
    Timed (SelectiveRepeatTransport.registerItem cfg s item) due := by
  have hout : ∀ a, sub (s.register item s.outbound).outstanding a =
      sub s.outstanding a := by
    intro a
    simp [register]
  simp only [SelectiveRepeatTransport.registerItem]
  rcases newEstimator cfg with _ | r
  · exact h.congr rfl fun a q hq => hout a ▸ hq
  · exact h.congr rfl fun a q hq => hout a ▸ hq

/-! ## Whole steps -/

theorem Timed.pumpPacket (h : Timed s due) (hwf : s.WellFormed)
    (hrun : ¬ s.crashed.isSome) (addr : Address) (input : PumpInput) :
    Timed (SelectiveRepeatTransport.pumpPacket cfg s addr input) due := by
  have hlaunched := h.launchPacket cfg hwf hrun addr input.sentAt input.timerAt
  rw [pumpPacket_eq_sections]
  dsimp only
  split
  · exact hlaunched
  · exact hlaunched.congr rfl fun a q hq => hq
  · exact hlaunched.discardPacket addr _ _

/-- At the end of every step each outstanding packet has its timer. -/
theorem Timed.step (h : Timed s fun _ _ => False) (hwf : s.WellFormed)
    (e : Event) :
    Timed (SelectiveRepeatTransport.step cfg s e) fun _ _ => False := by
  have happ : ∀ e, (∃ data addr, e = .sendto data addr) ∨ e = .recvfrom →
      Timed (SelectiveRepeatTransport.step cfg s e) fun _ _ => False := by
    intro e he
    obtain ⟨hheap, hout, -⟩ := step_app cfg s he
    exact h.congr hheap fun a q hq => hout ▸ hq
  have hguarded : ∀ s' : SelectiveRepeatTransport,
      (¬ s.crashed.isSome → Timed s' fun _ _ => False) →
      Timed (if s.crashed.isSome then s else s') fun _ _ => False := by
    intro s' hs'
    split_ifs with hcrashed
    · exact h
    · exact hs' hcrashed
  cases e with
  | sendto data addr => exact happ _ (Or.inl ⟨data, addr, rfl⟩)
  | recvfrom => exact happ _ (Or.inr rfl)
  | close =>
      refine h.congr rfl fun a q hq => ?_
      simp only [SelectiveRepeatTransport.step, Core.close] at hq
      split_ifs at hq <;> exact hq
  | drain =>
      refine hguarded _ fun _ => ?_
      rcases hqueue : s.outbound with _ | ⟨item, rest⟩
      · simpa only [drainItem, hqueue] using h
      · rw [drainItem_eq_registerItem hqueue]
        apply Timed.registerItem
        exact h.congr rfl fun a q hq => hq
  | pump addr input =>
      exact hguarded _ fun hrun => h.pumpPacket hwf hrun addr input
  | timeouts input => exact hguarded _ fun hrun => h.handleTimeouts hwf hrun input
  | incoming raw addr input =>
      exact hguarded _ fun _ => h.handleIncoming raw addr input

theorem timed_run (cfg : Config) (es : List Event) :
    Timed (run (SelectiveRepeatTransport.step cfg) init es)
      fun _ _ => False := by
  have hinit : init.WellFormed ∧ Timed init fun _ _ => False :=
    ⟨Endpoint.WellFormed.init (E := endpoint cfg),
      TimerHeap.faithful_empty, fun a q hq => by cases hq⟩
  exact (run_invariant (fun s => s.WellFormed ∧ Timed s fun _ _ => False)
    (fun s e hs => ⟨Endpoint.WellFormed.step (E := endpoint cfg) hs.1 e,
      hs.2.step hs.1 e⟩) hinit es).2

end SelectiveRepeatTransport

end UdpArq
