import UdpArq.Lib.Deadlines
import UdpArq.Lib.Run
import UdpArq.TimerHeap

/-!
# The timer heap refines a map of deadlines

Deletion is lazy: a cancelled or moved timer leaves a stale entry in the heap,
and a timer that returns to an old deadline makes old entries valid again.  The
heap stays in order and holds an entry for the current deadline of every key,
and that is all that the two loops need.
-/

namespace UdpArq

namespace TimerHeap

variable {κ : Type}

/-- Entries in ascending order of their deadlines. -/
def Ascending (heap : List (TimerEntry κ)) : Prop :=
  heap.Pairwise fun a b => a.deadline ≤ b.deadline

theorem mem_heappush {e x : TimerEntry κ} {heap : List (TimerEntry κ)} :
    x ∈ heappush e heap ↔ x = e ∨ x ∈ heap := by
  induction heap with
  | nil => simp [heappush]
  | cons y heap ih =>
      rw [heappush]
      split_ifs
      · rw [List.mem_cons]
      · rw [List.mem_cons, ih, List.mem_cons]
        tauto

theorem ascending_heappush {heap : List (TimerEntry κ)} (h : Ascending heap)
    (e : TimerEntry κ) : Ascending (heappush e heap) := by
  induction heap with
  | nil => exact List.pairwise_singleton _ _
  | cons y heap ih =>
      obtain ⟨hy, hheap⟩ := List.pairwise_cons.mp h
      rw [heappush]
      split_ifs with hbefore
      · have hle : e.deadline ≤ y.deadline := by
          rcases hbefore with hlt | ⟨heq, -⟩
          · exact hlt.le
          · exact heq.le
        refine List.pairwise_cons.mpr ⟨fun x hx => ?_, h⟩
        rcases List.mem_cons.mp hx with rfl | hx
        · exact hle
        · exact hle.trans (hy x hx)
      · have hle : y.deadline ≤ e.deadline := by
          rw [not_or] at hbefore
          exact not_lt.mp hbefore.1
        refine List.pairwise_cons.mpr ⟨fun x hx => ?_, ih hheap⟩
        rcases mem_heappush.mp hx with rfl | hx
        · exact hle
        · exact hy x hx

variable [DecidableEq κ]

/-- Every live timer has an entry with its current deadline. -/
def Covers (heap : List (TimerEntry κ)) (live : Dict κ ℚ) : Prop :=
  ∀ k d, live.get? k = some d → ∃ e ∈ heap, e.key = k ∧ e.deadline = d

/-- The invariant of the heap. -/
structure Faithful (t : TimerHeap κ) : Prop where
  ascending : Ascending t.heap
  covers : Covers t.heap t.keyToDeadline

/-- A stale entry covers nothing. -/
theorem Covers.tail_of_stale {e : TimerEntry κ} {heap : List (TimerEntry κ)}
    {live : Dict κ ℚ} (h : Covers (e :: heap) live)
    (hstale : live.get? e.key ≠ some e.deadline) : Covers heap live := by
  intro k d hk
  obtain ⟨x, hx, rfl, rfl⟩ := h k d hk
  rcases List.mem_cons.mp hx with rfl | hx
  · exact absurd hk hstale
  · exact ⟨x, hx, rfl, rfl⟩

/-- The entry of a timer that is removed is not needed any more. -/
theorem Covers.tail_erase {e : TimerEntry κ} {heap : List (TimerEntry κ)}
    {live : Dict κ ℚ} (h : Covers (e :: heap) live) :
    Covers heap (live.erase e.key) := by
  intro k d hk
  rw [Dict.get?_erase] at hk
  split_ifs at hk with hne
  obtain ⟨x, hx, rfl, rfl⟩ := h k d hk
  rcases List.mem_cons.mp hx with rfl | hx
  · exact absurd rfl hne
  · exact ⟨x, hx, rfl, rfl⟩

/-- What the loop of `nearest` returns, and what it leaves. -/
theorem nearestLoop_spec {live : Dict κ ℚ} {heap : List (TimerEntry κ)}
    (hascending : Ascending heap) (hcovers : Covers heap live) :
    Deadlines.Answers live.get? .nearest (.deadline (nearestLoop live heap).1) ∧
      Ascending (nearestLoop live heap).2 ∧
      Covers (nearestLoop live heap).2 live := by
  induction heap with
  | nil =>
      refine ⟨fun k => ?_, hascending, hcovers⟩
      by_contra hk
      obtain ⟨d, hd⟩ := Option.ne_none_iff_exists'.mp hk
      obtain ⟨x, hx, -⟩ := hcovers k d hd
      cases hx
  | cons e heap ih =>
      obtain ⟨hfirst, htail⟩ := List.pairwise_cons.mp hascending
      rw [nearestLoop]
      by_cases hvalid : live.get? e.key = some e.deadline
      · rw [if_pos hvalid]
        refine ⟨⟨⟨e.key, hvalid⟩, ?_⟩, hascending, hcovers⟩
        rintro d ⟨k, hk⟩
        obtain ⟨x, hx, -, rfl⟩ := hcovers k d hk
        rcases List.mem_cons.mp hx with rfl | hx
        · exact le_rfl
        · exact hfirst x hx
      · rw [if_neg hvalid]
        exact ih htail (hcovers.tail_of_stale hvalid)

/-- What the loop of `pop_due` returns, and what it leaves. -/
structure PopsDue (now : ℚ) (live : Dict κ ℚ)
    (left : List κ × List (TimerEntry κ) × Dict κ ℚ) : Prop where
  answers : Deadlines.Answers live.get? (.popDue now) (.keys left.1)
  ascending : Ascending left.2.1
  covers : Covers left.2.1 left.2.2
  live : left.2.2.get? = Deadlines.call live.get? (.popDue now)

/-- Nothing is due before the first valid entry. -/
theorem popsDue_nil {now : ℚ} {live : Dict κ ℚ} {heap : List (TimerEntry κ)}
    (hascending : Ascending heap) (hcovers : Covers heap live)
    (hlate : ∀ k d, live.get? k = some d → now < d) :
    PopsDue now live ([], heap, live) where
  answers := by
    refine ⟨List.nodup_nil, fun k => ?_, List.Pairwise.nil⟩
    refine ⟨fun hk => absurd hk List.not_mem_nil, ?_⟩
    rintro ⟨d, hk, hle⟩
    exact absurd hle (not_le.mpr (hlate k d hk))
  ascending := hascending
  covers := hcovers
  live := by
    funext k
    rcases hk : live.get? k with _ | d
    · simp [Deadlines.call, hk]
    · simp [Deadlines.call, hk, Option.filter_some, hlate k d hk]

/-- The first entry is valid and due. -/
theorem PopsDue.cons {now : ℚ} {live : Dict κ ℚ} {e : TimerEntry κ}
    {heap : List (TimerEntry κ)}
    {left : List κ × List (TimerEntry κ) × Dict κ ℚ}
    (hvalid : live.get? e.key = some e.deadline) (hdue : e.deadline ≤ now)
    (hfirst : ∀ x ∈ heap, e.deadline ≤ x.deadline)
    (hcovers : Covers heap (live.erase e.key))
    (h : PopsDue now (live.erase e.key) left) :
    PopsDue now live (e.key :: left.1, left.2) where
  answers := by
    obtain ⟨hnodup, hmem, hsorted⟩ := h.answers
    have hfresh : e.key ∉ left.1 := by
      intro hin
      obtain ⟨d, hd, -⟩ := (hmem e.key).mp hin
      simp at hd
    refine ⟨List.nodup_cons.mpr ⟨hfresh, hnodup⟩, fun k => ?_, ?_⟩
    · rw [List.mem_cons, hmem]
      by_cases hk : k = e.key
      · subst hk
        exact ⟨fun _ => ⟨e.deadline, hvalid, hdue⟩, fun _ => Or.inl rfl⟩
      · simp [Deadlines.Due, hk]
    · refine List.pairwise_cons.mpr ⟨fun k hk da db ha hb => ?_, ?_⟩
      · obtain ⟨d, hd, -⟩ := (hmem k).mp hk
        rw [Dict.get?_erase] at hd
        split_ifs at hd
        rw [hvalid, Option.some.injEq] at ha
        rw [hd, Option.some.injEq] at hb
        subst ha hb
        obtain ⟨x, hx, -, rfl⟩ := hcovers k d (by rw [Dict.get?_erase]; simp [*])
        exact hfirst x hx
      · refine hsorted.imp_of_mem fun {a b} ha hb hle da db hda hdb => ?_
        have hne : ∀ c ∈ left.1, c ≠ e.key := fun c hc heq => hfresh (heq ▸ hc)
        exact hle da db (by simp [hne a ha, hda]) (by simp [hne b hb, hdb])
  ascending := h.ascending
  covers := h.covers
  live := by
    rw [h.live]
    funext k
    by_cases hk : k = e.key
    · subst hk
      simp [Deadlines.call, hvalid, Option.filter_some, not_lt.mpr hdue]
    · simp [Deadlines.call, hk]

theorem popDueLoop_spec (now : ℚ) {live : Dict κ ℚ}
    {heap : List (TimerEntry κ)} (hascending : Ascending heap)
    (hcovers : Covers heap live) :
    PopsDue now live (popDueLoop now live heap) := by
  induction heap generalizing live with
  | nil =>
      refine popsDue_nil hascending hcovers fun k d hk => ?_
      obtain ⟨x, hx, -⟩ := hcovers k d hk
      cases hx
  | cons e heap ih =>
      obtain ⟨hfirst, htail⟩ := List.pairwise_cons.mp hascending
      rw [popDueLoop]
      by_cases hvalid : live.get? e.key = some e.deadline
      · rw [if_neg (not_not.mpr hvalid)]
        by_cases hdue : e.deadline ≤ now
        · rw [if_pos hdue]
          exact .cons hvalid hdue hfirst hcovers.tail_erase
            (ih htail hcovers.tail_erase)
        · rw [if_neg hdue]
          refine popsDue_nil hascending hcovers fun k d hk => ?_
          apply (not_le.mp hdue).trans_le
          obtain ⟨x, hx, -, rfl⟩ := hcovers k d hk
          rcases List.mem_cons.mp hx with rfl | hx
          · exact le_rfl
          · exact hfirst x hx
      · rw [if_pos hvalid]
        exact ih htail (hcovers.tail_of_stale hvalid)

/-! ## The timers of one group of keys -/

/-- The heap without the entries of other keys. -/
def restrict (t : TimerHeap κ) (p : κ → Prop) [DecidablePred p] :
    TimerHeap κ where
  heap := t.heap.filter fun e => p e.key
  keyToDeadline := t.keyToDeadline.restrict p
  counter := t.counter

/-- Nothing is popped from a heap without due entries. -/
theorem popDueLoop_late {now : ℚ} {heap : List (TimerEntry κ)}
    (hlate : ∀ e ∈ heap, now < e.deadline) (live : Dict κ ℚ) :
    (popDueLoop now live heap).1 = [] ∧ (popDueLoop now live heap).2.2 = live := by
  induction heap with
  | nil => exact ⟨rfl, rfl⟩
  | cons e heap ih =>
      rw [popDueLoop]
      split_ifs with hstale hdue
      · exact ih fun x hx => hlate x (List.mem_cons_of_mem _ hx)
      · exact absurd hdue (not_le.mpr (hlate e List.mem_cons_self))
      · exact ⟨rfl, rfl⟩

/-- What is popped of one group of keys does not depend on the other entries. -/
theorem popDueLoop_filter {p : κ → Prop} [DecidablePred p] (now : ℚ)
    {heap : List (TimerEntry κ)} (hascending : Ascending heap)
    {live live' : Dict κ ℚ} (hlive : ∀ k, p k → live'.get? k = live.get? k) :
    (popDueLoop now live' (heap.filter fun e => p e.key)).1 =
        (popDueLoop now live heap).1.filter (fun k => p k) ∧
      ∀ k, p k →
        (popDueLoop now live' (heap.filter fun e => p e.key)).2.2.get? k =
          (popDueLoop now live heap).2.2.get? k := by
  induction heap generalizing live live' with
  | nil => exact ⟨rfl, hlive⟩
  | cons e heap ih =>
      obtain ⟨hfirst, htail⟩ := List.pairwise_cons.mp hascending
      by_cases hp : p e.key
      · rw [List.filter_cons_of_pos (by simpa using hp), popDueLoop, popDueLoop,
          hlive e.key hp]
        split_ifs
        · exact ih htail hlive
        · have herase : ∀ k, p k →
              (live'.erase e.key).get? k = (live.erase e.key).get? k := by
            intro k hk
            rw [Dict.get?_erase, Dict.get?_erase, hlive k hk]
          obtain ⟨hkeys, hrest⟩ := ih htail herase
          refine ⟨?_, hrest⟩
          rw [List.filter_cons_of_pos (by simpa using hp), ← hkeys]
        · exact ⟨rfl, hlive⟩
      · rw [List.filter_cons_of_neg (by simpa using hp), popDueLoop]
        split_ifs with hstale hdue
        · exact ih htail hlive
        · have herase : ∀ k, p k →
              live'.get? k = (live.erase e.key).get? k := by
            intro k hk
            have hne : k ≠ e.key := fun heq => hp (heq ▸ hk)
            rw [Dict.get?_erase, if_neg hne, hlive k hk]
          obtain ⟨hkeys, hrest⟩ := ih htail herase
          refine ⟨?_, hrest⟩
          rw [List.filter_cons_of_neg (by simpa using hp), ← hkeys]
        · -- The other entries are not due either.
          have hlate : ∀ x ∈ heap.filter (fun e => p e.key),
              now < x.deadline := by
            intro x hx
            exact (not_le.mp hdue).trans_le (hfirst x (List.mem_of_mem_filter hx))
          obtain ⟨hkeys, hrest⟩ := popDueLoop_late hlate live'
          rw [hkeys, hrest]
          exact ⟨rfl, hlive⟩

theorem popDue_restrict {t : TimerHeap κ} (h : Ascending t.heap) (p : κ → Prop)
    [DecidablePred p] (now : ℚ) :
    ((t.restrict p).popDue now).1 = (t.popDue now).1.filter (fun k => p k) ∧
      ∀ k, p k → ((t.restrict p).popDue now).2.keyToDeadline.get? k =
        (t.popDue now).2.keyToDeadline.get? k :=
  popDueLoop_filter now h fun k hk => by
    rw [restrict, Dict.get?_restrict, if_pos hk]

/-! ## Every sequence of calls -/

/-- One call: the reply and the heap that is left. -/
def call (t : TimerHeap κ) : TimerCall κ ℚ → TimerReply κ ℚ × TimerHeap κ
  | .schedule k d => (.done, t.schedule k d)
  | .cancel k => (.done, t.cancel k)
  | .nearest => (.deadline t.nearest.1, t.nearest.2)
  | .popDue now => (.keys (t.popDue now).1, (t.popDue now).2)
  | .len => (.count t.len, t)

theorem faithful_empty : Faithful ({} : TimerHeap κ) where
  ascending := List.Pairwise.nil
  covers := by simp [Covers]

theorem Faithful.schedule {t : TimerHeap κ} (h : Faithful t) (k : κ) (d : ℚ) :
    Faithful (t.schedule k d) where
  ascending := ascending_heappush h.ascending _
  covers := by
    intro a x ha
    simp only [TimerHeap.schedule, Dict.get?_set] at ha
    split_ifs at ha with heq
    · cases ha
      exact ⟨_, mem_heappush.mpr (Or.inl rfl), heq.symm, rfl⟩
    · obtain ⟨e, he, hkey, hdeadline⟩ := h.covers a x ha
      exact ⟨e, mem_heappush.mpr (Or.inr he), hkey, hdeadline⟩

theorem Faithful.cancel {t : TimerHeap κ} (h : Faithful t) (k : κ) :
    Faithful (t.cancel k) where
  ascending := h.ascending
  covers := by
    intro a x ha
    simp only [TimerHeap.cancel, Dict.get?_erase] at ha
    split_ifs at ha
    exact h.covers a x ha

/-- One call answers as the map of deadlines does, changes it as the map is
changed, and keeps the invariant. -/
theorem Faithful.call {t : TimerHeap κ} (h : Faithful t)
    (c : TimerCall κ ℚ) :
    Faithful (TimerHeap.call t c).2 ∧
      Deadlines.Answers t.keyToDeadline.get? c (TimerHeap.call t c).1 ∧
      (TimerHeap.call t c).2.keyToDeadline.get? =
        Deadlines.call t.keyToDeadline.get? c := by
  rcases c with ⟨k, d⟩ | k | _ | now | _
  · refine ⟨h.schedule k d, trivial, ?_⟩
    funext a
    simp [TimerHeap.call, TimerHeap.schedule, Deadlines.call,
      Function.update_apply]
  · refine ⟨h.cancel k, trivial, ?_⟩
    funext a
    simp [TimerHeap.call, TimerHeap.cancel, Deadlines.call,
      Function.update_apply]
  · obtain ⟨hanswers, hascending, hcovers⟩ :=
      nearestLoop_spec h.ascending h.covers
    exact ⟨⟨hascending, hcovers⟩, hanswers, rfl⟩
  · have hpops := popDueLoop_spec now h.ascending h.covers
    exact ⟨⟨hpops.ascending, hpops.covers⟩, hpops.answers, hpops.live⟩
  · refine ⟨h, ⟨t.keyToDeadline.keys.toFinset, ?_, fun k => ?_⟩, rfl⟩
    · exact List.toFinset_card_of_nodup t.keyToDeadline.nodup_keys
    · rw [List.mem_toFinset, Dict.mem_keys, Option.ne_none_iff_exists']

theorem Faithful.run {t : TimerHeap κ} (h : Faithful t)
    (calls : List (TimerCall κ ℚ)) :
    let t' := UdpArq.run (fun t c => (TimerHeap.call t c).2) t calls
    Faithful t' ∧ t'.keyToDeadline.get? =
      UdpArq.run Deadlines.call t.keyToDeadline.get? calls := by
  induction calls generalizing t with
  | nil => exact ⟨h, rfl⟩
  | cons c calls ih =>
      obtain ⟨hfaithful, -, hcall⟩ := h.call c
      obtain ⟨hrun, hmap⟩ := ih hfaithful
      refine ⟨hrun, hmap.trans ?_⟩
      rw [run_cons, hcall]

/-- After every sequence of calls the heap holds the map of deadlines that these
calls describe, answers the next call as that map does, and has an entry for
every scheduled key. -/
theorem timerHeap_refines_deadlines (calls : List (TimerCall κ ℚ))
    (c : TimerCall κ ℚ) :
    let t := run (fun t c => (call t c).2) ({} : TimerHeap κ) calls
    let m := run Deadlines.call (fun _ => none) calls
    t.keyToDeadline.get? = m ∧ m.Answers c (call t c).1 ∧
      ∀ k d, m k = some d → ∃ e ∈ t.heap, e.key = k ∧ e.deadline = d := by
  intro t m
  obtain ⟨hfaithful, hm⟩ := faithful_empty.run calls
  obtain ⟨-, hanswers, -⟩ := hfaithful.call c
  rw [hm] at hanswers
  exact ⟨hm, hanswers, fun k d hk =>
    hfaithful.covers k d ((congrFun hm k).trans hk)⟩

end TimerHeap

end UdpArq
