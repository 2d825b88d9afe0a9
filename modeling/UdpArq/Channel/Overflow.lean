import UdpArq.Channel.Schedule

/-!
# A channel keeps its books, as long as its thread lives

The calls of `sendto` that a run admits can be read off its events: those with
bytes of at most `MAX_DATAGRAM`, up to the first `close`.  Each of them is
counted, and lost by its first draw, or on the heap, or handed to the real
socket.  The constructor bounds no delay, though, and a wait of more than
`TIMEOUT_MAX` ends the delivery thread with an `OverflowError`: then `close`
returns all the same, and what is on the heap stays there.
-/

namespace UdpArq

namespace Channel

variable {p : Impairments} {rng : ℕ → Draw} {c : Channel}

/-! ## The calls of a run -/

def Event.isClose : Event → Bool
  | .close => true
  | _ => false

/-- The packet and the clock reading of a call of `sendto` with an admissible
argument. -/
def Event.submits : Event → Option (Bytes × Address × ℚ)
  | .sendto (.bytesLike data) addr now =>
      if data.length ≤ MAX_DATAGRAM then some (data, addr, now) else none
  | _ => none

/-- The calls of `sendto` that return, each with the next five draws. -/
def admitted (rng : ℕ → Draw) (es : List Event) : List Accepted :=
  ((es.takeWhile fun e => !e.isClose).filterMap Event.submits).mapIdx
    fun i x => ⟨x.1, x.2.1, nextDraws rng (5 * i), x.2.2⟩

theorem admitted_concat (rng : ℕ → Draw) (es : List Event) (e : Event) :
    admitted rng (es ++ [e]) = admitted rng es ++
      (if es.any Event.isClose then none else e.submits).toList.map fun x =>
        ⟨x.1, x.2.1, nextDraws rng (5 * (admitted rng es).length), x.2.2⟩ := by
  by_cases hclosed : es.any Event.isClose
  · have hsame : (es ++ [e]).takeWhile (fun e => !e.isClose) =
        es.takeWhile fun e => !e.isClose := by
      rw [List.takeWhile_append, if_neg]
      intro hlength
      have hself := (List.takeWhile_prefix (l := es) fun e : Event =>
        !e.isClose).eq_of_length hlength
      obtain ⟨e', hmem, he'⟩ := List.any_eq_true.mp hclosed
      simpa [he'] using List.takeWhile_eq_self_iff.mp hself e' hmem
    simp [admitted, hsame, hclosed]
  · have hopen : ∀ e' ∈ es, (!e'.isClose) = true := by
      simpa using hclosed
    have hself : es.takeWhile (fun e => !e.isClose) = es :=
      List.takeWhile_eq_self_iff.mpr hopen
    have hlast : ([e].takeWhile fun e => !e.isClose).filterMap Event.submits =
        e.submits.toList := by
      cases e with
      | sendto argument addr now =>
          change [Event.sendto argument addr now].filterMap _ = _
          cases hsubmits : (Event.sendto argument addr now).submits <;>
            simp [hsubmits]
      | _ => rfl
    simp only [admitted, List.takeWhile_append_of_pos hopen, hself, if_neg hclosed,
      List.filterMap_append, hlast]
    cases e.submits with
    | none => simp
    | some x => simp [List.mapIdx_append]

theorem reading_of_mem_admitted {es : List Event} {x : Accepted}
    (hx : x ∈ admitted rng es) : x.now ∈ es.filterMap Event.reading := by
  obtain ⟨i, hi, rfl⟩ := List.mem_mapIdx.mp hx
  obtain ⟨e, hmem, hsubmits⟩ := List.mem_filterMap.mp (List.getElem_mem hi)
  refine List.mem_filterMap.mpr ⟨e, (List.takeWhile_prefix _).subset hmem, ?_⟩
  cases e with
  | sendto argument addr now =>
      cases argument with
      | other typeName => cases hsubmits
      | bytesLike data =>
          simp only [Event.submits] at hsubmits
          split_ifs at hsubmits
          rw [← Option.some.inj hsubmits]
          rfl
  | _ => cases hsubmits

/-! ## What the channel admits -/

/-- The calls of `sendto` that return are those that the run admits. -/
structure Admits (rng : ℕ → Draw) (es : List Event) (c : Channel) : Prop where
  accepted : c.accepted = admitted rng es
  drawn : c.drawn = 5 * c.accepted.length
  sent : c.sent = c.accepted.length
  closed : c.closed = es.any Event.isClose

theorem admits_init (rng : ℕ → Draw) : Admits rng [] init := ⟨rfl, rfl, rfl, rfl⟩

/-- Such an argument is accepted as long as the channel is open. -/
theorem exists_sendto_iff (p : Impairments) (rng : ℕ → Draw) (c : Channel)
    (argument : Argument) (addr : Address) (now : ℚ) :
    (∃ c', c.sendto p rng argument addr now = .ok c') ↔ c.closed = false ∧
      ((Event.sendto argument addr now).submits).isSome := by
  cases argument with
  | other typeName => simp [sendto, Event.submits]
  | bytesLike data =>
      by_cases hlarge : MAX_DATAGRAM < data.length
      · simp [sendto, Event.submits, hlarge]
      · by_cases hclosed : c.closed
        · simp [sendto, hlarge, hclosed]
        · simp [sendto, Event.submits, hlarge, hclosed, not_lt.mp hlarge]

/-- A step other than a call of `sendto` admits nothing. -/
theorem Admits.idle {es : List Event} (h : Admits rng es c) {e : Event}
    (hcall : e.submits = none) {c' : Channel} (haccepted : c'.accepted = c.accepted)
    (hdrawn : c'.drawn = c.drawn) (hsent : c'.sent = c.sent)
    (hclosed : c'.closed = (c.closed || e.isClose)) :
    Admits rng (es ++ [e]) c' where
  accepted := by
    rw [admitted_concat, hcall, haccepted, h.accepted]
    simp
  drawn := by rw [hdrawn, haccepted, h.drawn]
  sent := by rw [hsent, haccepted, h.sent]
  closed := by simp [hclosed, h.closed]

theorem Event.eq_of_submits {argument : Argument} {addr : Address} {now : ℚ}
    {x : Bytes × Address × ℚ} (h : (Event.sendto argument addr now).submits = some x) :
    ∃ data, argument = .bytesLike data ∧ ¬ data.length > MAX_DATAGRAM ∧
      x = (data, addr, now) := by
  cases argument with
  | other typeName => cases h
  | bytesLike data =>
      simp only [submits] at h
      split_ifs at h with hle
      cases h
      exact ⟨data, rfl, not_lt.mpr hle, rfl⟩

/-- A call of `sendto` that raises leaves the channel as it is. -/
theorem step_sendto_of_not {p : Impairments} {argument : Argument} {addr : Address}
    {now : ℚ} (h : ¬ ∃ c', c.sendto p rng argument addr now = .ok c') :
    step p rng c (.sendto argument addr now) = c := by
  simp only [Channel.step]
  cases hresult : c.sendto p rng argument addr now with
  | ok c' => exact absurd ⟨c', hresult⟩ h
  | error err => rfl

/-- A call of `sendto` that returns is the next one that the run admits. -/
theorem Admits.accept {es : List Event} (h : Admits rng es c) (p : Impairments)
    {argument : Argument} {addr : Address} {now : ℚ} {x : Bytes × Address × ℚ}
    (hopen : c.closed = false)
    (hsubmits : (Event.sendto argument addr now).submits = some x) :
    Admits rng (es ++ [.sendto argument addr now])
      (step p rng c (.sendto argument addr now)) := by
  obtain ⟨data, rfl, hsmall, rfl⟩ := Event.eq_of_submits hsubmits
  have hstep : step p rng c (.sendto (.bytesLike data) addr now) =
      impair p (c.intake data addr (nextDraws rng c.drawn) now) data addr
        (nextDraws rng c.drawn) now := by
    simp only [Channel.step, sendto, if_neg hsmall, hopen]
    rfl
  have hbooks := (schedules_impair p (c.intake data addr (nextDraws rng c.drawn)
    now) data addr (nextDraws rng c.drawn) now).books
  have haccepted : (step p rng c (.sendto (.bytesLike data) addr now)).accepted =
      c.accepted ++ [⟨data, addr, nextDraws rng c.drawn, now⟩] := by
    rw [hstep]
    exact hbooks.accepted
  refine ⟨?_, ?_, ?_, ?_⟩
  · rw [haccepted, admitted_concat, hsubmits, ← h.closed, hopen, ← h.accepted,
      ← h.drawn]
    rfl
  · rw [haccepted, hstep, hbooks.drawn, List.length_append, List.length_singleton]
    exact congrArg (· + 5) h.drawn
  · rw [haccepted, hstep, hbooks.sent, List.length_append, List.length_singleton]
    exact congrArg (· + 1) h.sent
  · rw [hstep, hbooks.closed, List.any_append, ← h.closed]
    simp [Event.isClose, intake]

theorem Admits.step {es : List Event} (h : Admits rng es c) (p : Impairments)
    (e : Event) : Admits rng (es ++ [e]) (step p rng c e) := by
  cases e with
  | sendto argument addr now =>
      have hreturns := exists_sendto_iff p rng c argument addr now
      by_cases hok : ∃ c', c.sendto p rng argument addr now = .ok c'
      · obtain ⟨hopen, hsome⟩ := hreturns.mp hok
        obtain ⟨x, hsubmits⟩ := Option.isSome_iff_exists.mp hsome
        exact h.accept p hopen hsubmits
      · rw [step_sendto_of_not hok]
        refine ⟨?_, h.drawn, h.sent, by simpa [Event.isClose] using h.closed⟩
        rw [admitted_concat, ← h.closed, ← h.accepted]
        cases hclosed : c.closed with
        | true => simp
        | false =>
            have hnone : (Event.sendto argument addr now).submits = none := by
              simpa [hclosed] using mt hreturns.mpr hok
            simp [hnone]
  | wake now raised =>
      rcases wake_cases p rng c now raised with
        hsame | ⟨-, -, hstep⟩ | ⟨entry, rest, -, -, hstep⟩
      · rw [hsame]
        exact h.idle rfl rfl rfl rfl (by simp [Event.isClose])
      · rw [hstep]
        exact h.idle rfl rfl rfl rfl (by simp [Event.isClose])
      · rw [hstep]
        exact h.idle rfl rfl rfl rfl (by simp [Event.isClose])
  | close =>
      rcases close_cases p rng c with hsame | ⟨-, hstep⟩
      · have hclosed : c.closed = true := by
          have hset : (Channel.step p rng c .close).closed = true := by
            simp only [Channel.step, close]
            split_ifs with hclosed
            · exact hclosed
            · rfl
          rwa [hsame] at hset
        rw [hsame]
        exact h.idle rfl rfl rfl rfl (by simp [hclosed])
      · rw [hstep]
        exact h.idle rfl rfl rfl rfl (by simp [Event.isClose])
  | join =>
      rcases join_cases p rng c with hsame | ⟨-, hstep⟩
      · rw [hsame]
        exact h.idle rfl rfl rfl rfl (by simp [Event.isClose])
      · rw [hstep]
        exact h.idle rfl rfl rfl rfl (by simp [Event.isClose])

/-! ## The thread -/

/-- A step takes nothing off the heap, or the delivery thread takes one entry
that is due and that no entry of the heap precedes. -/
theorem Balanced.takesFirst (h : Balanced p c) (rng : ℕ → Draw) (e : Event) :
    (Channel.step p rng c e).popped = c.popped ∨
      ∃ now raised entry, e = .wake now raised ∧
        (Channel.step p rng c e).popped = c.popped ++ [⟨entry, now, raised⟩] ∧
        entry ∈ c.heap ∧ entry.deliverAt ≤ now ∧
        ∀ entry' ∈ c.heap, ¬ entry'.Precedes entry := by
  cases e with
  | sendto argument addr now =>
      left
      rcases sendto_cases p rng c argument addr now with
        hsame | ⟨-, data, -, hstep⟩
      · rw [hsame]
      · rw [hstep]
        exact (schedules_impair p _ data addr _ now).books.popped
  | wake now raised =>
      rcases wake_cases p rng c now raised with
        hsame | ⟨-, -, hstep⟩ | ⟨entry, rest, hheap, hdue, hstep⟩
      · exact Or.inl (by rw [hsame])
      · exact Or.inl (by rw [hstep])
      · have hascending : (entry :: rest).Pairwise Entry.Upto :=
          hheap ▸ h.ascending
        right
        refine ⟨now, raised, entry, rfl, by rw [hstep], ?_, hdue, ?_⟩
        · rw [hheap]
          exact List.mem_cons_self
        · rw [hheap]
          intro entry' hmem
          rcases List.mem_cons.mp hmem with rfl | hrest
          · exact (total_of Entry.Upto entry' entry').elim id id
          · exact List.rel_of_pairwise_cons hascending hrest
  | close =>
      left
      rcases close_cases p rng c with hsame | ⟨-, hstep⟩
      · rw [hsame]
      · rw [hstep]
  | join =>
      left
      rcases join_cases p rng c with hsame | ⟨-, hstep⟩
      · rw [hsame]
      · rw [hstep]

/-- A call of `sendto` or of `close`. -/
def Event.isCall : Event → Bool
  | .sendto _ _ _ => true
  | .close => true
  | _ => false

/-- A call takes nothing off the heap, and does not return from a join. -/
theorem step_of_isCall (p : Impairments) (rng : ℕ → Draw) (c : Channel) {e : Event}
    (he : e.isCall = true) :
    (step p rng c e).workerReturned = c.workerReturned ∧
      (c.heap ≠ [] → (step p rng c e).heap ≠ []) := by
  cases e with
  | sendto argument addr now =>
      rcases sendto_cases p rng c argument addr now with
        hsame | ⟨-, data, -, hstep⟩
      · rw [hsame]
        exact ⟨rfl, id⟩
      · have hadds := schedules_impair p (c.intake data addr
          (nextDraws rng c.drawn) now) data addr (nextDraws rng c.drawn) now
        rw [hstep]
        refine ⟨hadds.books.workerReturned, fun hne hempty => hne ?_⟩
        have hnone := hadds.scheduled
        rw [scheduled, hempty, List.map_nil, List.nil_perm, List.append_eq_nil_iff]
          at hnone
        exact List.map_eq_nil_iff.mp hnone.2
  | close =>
      rcases close_cases p rng c with hsame | ⟨-, hstep⟩
      · rw [hsame]
        exact ⟨rfl, id⟩
      · rw [hstep]
        exact ⟨rfl, id⟩
  | _ => cases he

/-- The join of `close` waits for the thread. -/
theorem joined_step (p : Impairments) (rng : ℕ → Draw) (c : Channel) (e : Event)
    (h : (step p rng c e).closeCall = .returned) :
    c.closeCall = .returned ∧ (c.workerReturned = true →
        (step p rng c e).workerReturned = true) ∨
      (step p rng c e).workerReturned = true := by
  cases e with
  | sendto argument addr now =>
      rcases sendto_cases p rng c argument addr now with
        hsame | ⟨-, data, -, hstep⟩
      · rw [hsame] at h ⊢
        exact Or.inl ⟨h, id⟩
      · have hbooks := (schedules_impair p (c.intake data addr
          (nextDraws rng c.drawn) now) data addr (nextDraws rng c.drawn) now).books
        rw [hstep, hbooks.closeCall] at h
        rw [hstep, hbooks.workerReturned]
        exact Or.inl ⟨h, id⟩
  | wake now raised =>
      rcases wake_cases p rng c now raised with
        hsame | ⟨-, -, hstep⟩ | ⟨entry, rest, -, -, hstep⟩
      · rw [hsame] at h ⊢
        exact Or.inl ⟨h, id⟩
      · rw [hstep]
        exact Or.inr rfl
      · rw [hstep] at h ⊢
        exact Or.inl ⟨h, id⟩
  | close =>
      rcases close_cases p rng c with hsame | ⟨-, hstep⟩
      · rw [hsame] at h ⊢
        exact Or.inl ⟨h, id⟩
      · rw [hstep] at h
        cases h
  | join =>
      rcases join_cases p rng c with hsame | ⟨hreturned, hstep⟩
      · rw [hsame] at h ⊢
        exact Or.inl ⟨h, id⟩
      · rw [hstep]
        exact Or.inr hreturned

/-- No step would have the delivery thread wait for too long. -/
def Fragile.Timely (f : Fragile) (e : Event) : Prop := ¬ f.channel.Overlong e

namespace Fragile

variable {f : Fragile}

/-- What a step does to the channel, and to the thread. -/
theorem step_cases (p : Impairments) (rng : ℕ → Draw) (f : Fragile) (e : Event) :
    (f.channel.Overlong e ∧ step p rng f e = { f with died := true }) ∨
      ¬ f.channel.Overlong e ∧
        ((f.died = true → e.isCall = true) ∧
            step p rng f e = { f with channel := f.channel.step p rng e } ∨
          f.died = true ∧ e.submits = none ∧ e.isClose = false ∧
            (step p rng f e = f ∨ step p rng f e =
              { f with channel := { f.channel with closeCall := .returned } })) := by
  by_cases hlong : f.channel.Overlong e
  · exact Or.inl ⟨hlong, if_pos hlong⟩
  refine Or.inr ⟨hlong, ?_⟩
  unfold step
  rw [if_neg hlong]
  by_cases hdied : f.died
  · rw [if_pos hdied]
    cases e with
    | wake now raised => exact Or.inr ⟨hdied, rfl, rfl, Or.inl rfl⟩
    | join =>
        refine Or.inr ⟨hdied, rfl, rfl, ?_⟩
        by_cases hjoin : f.channel.closeCall = .joining
        · exact Or.inr (if_pos hjoin)
        · exact Or.inl (if_neg hjoin)
    | _ => exact Or.inl ⟨fun _ => rfl, rfl⟩
  · exact Or.inl ⟨fun h => absurd h hdied, if_neg hdied⟩

/-- The thread is dead exactly if it would once have waited for too long. -/
theorem died_run (p : Impairments) (rng : ℕ → Draw) (es : List Event) :
    (run (step p rng) init es).died = false ↔
      Meets (step p rng) Timely init es := by
  induction es using List.reverseRecOn with
  | nil => simp [init]
  | append_singleton es e ih =>
      rw [run_concat, meets_append, ← ih, meets_cons]
      rcases step_cases p rng (run (step p rng) init es) e with
        ⟨hlong, hstep⟩ | ⟨htimely, ⟨-, hstep⟩ | ⟨hdied, -, -, hstep | hstep⟩⟩
      · simp [hstep, Timely, hlong]
      · simp [hstep, Timely, htimely]
      · simp [hstep, Timely, htimely]
      · simp [hstep, Timely, htimely]

/-- As long as the thread lives, the channel is as if it could not die. -/
theorem channel_run {es : List Event} (h : Meets (step p rng) Timely init es) :
    (run (step p rng) init es).channel =
      run (Channel.step p rng) Channel.init es := by
  induction es using List.reverseRecOn with
  | nil => rfl
  | append_singleton es e ih =>
      have hbefore := ((meets_append _ es [e]).mp h).1
      have hlives := (died_run p rng es).mpr hbefore
      have htimely := ((meets_append _ es [e]).mp h).2.1
      rw [run_concat, run_concat, ← ih hbefore]
      rcases step_cases p rng (run (step p rng) init es) e with
        ⟨hlong, -⟩ | ⟨-, ⟨-, hstep⟩ | ⟨hdied, -⟩⟩
      · exact absurd hlong htimely
      · rw [hstep]
      · rw [hlives] at hdied
        cases hdied

/-- The books of a channel whose thread may have died: then there is something on
the heap. -/
structure Sound (p : Impairments) (rng : ℕ → Draw) (es : List Event) (f : Fragile) :
    Prop where
  balanced : Balanced p f.channel
  admits : Admits rng es f.channel
  joined : f.channel.closeCall = .returned →
    f.channel.workerReturned = true ∨ f.died = true
  stuck : f.died = true → f.channel.workerReturned = false ∧ f.channel.heap ≠ []

theorem sound_init (p : Impairments) (rng : ℕ → Draw) : Sound p rng [] init where
  balanced := balanced_init p
  admits := admits_init rng
  joined hreturned := by cases hreturned
  stuck hdied := by cases hdied

theorem Sound.step {es : List Event} (h : Sound p rng es f) (e : Event) :
    Sound p rng (es ++ [e]) (step p rng f e) := by
  rcases step_cases p rng f e with
    ⟨hlong, hstep⟩ | ⟨-, ⟨hcall, hstep⟩ | ⟨hdied, hsubmits, hclose, hstep | hstep⟩⟩
  · rw [hstep]
    cases e with
    | wake now raised =>
        obtain ⟨hrunning, entry, hhead, -⟩ := hlong
        refine ⟨h.balanced, h.admits.idle rfl rfl rfl rfl (by simp [Event.isClose]),
          fun _ => Or.inr rfl, fun _ => ⟨hrunning, fun hempty => ?_⟩⟩
        have hnil : f.channel.heap = [] := hempty
        simp [hnil] at hhead
    | _ => cases hlong
  · rw [hstep]
    refine ⟨h.balanced.step rng e, h.admits.step p e, fun hreturned => ?_,
      fun hdied => ?_⟩
    · rcases joined_step p rng f.channel e hreturned with ⟨hbefore, hkept⟩ | hended
      · exact (h.joined hbefore).imp_left hkept
      · exact Or.inl hended
    · obtain ⟨hrunning, hheap⟩ := h.stuck hdied
      obtain ⟨hworker, hkept⟩ := step_of_isCall p rng f.channel (hcall hdied)
      exact ⟨hworker.trans hrunning, hkept hheap⟩
  · rw [hstep]
    exact ⟨h.balanced, h.admits.idle hsubmits rfl rfl rfl (by simp [hclose]),
      h.joined, h.stuck⟩
  · rw [hstep]
    have hbooks := h.balanced
    exact ⟨⟨hbooks.ascending, hbooks.numbered, hbooks.sent, hbooks.packets,
        hbooks.delivered, hbooks.due, hbooks.drained⟩,
      h.admits.idle hsubmits rfl rfl rfl (by simp [hclose]),
      fun _ => Or.inr hdied, h.stuck⟩

theorem sound_run (p : Impairments) (rng : ℕ → Draw) (es : List Event) :
    Sound p rng es (run (Fragile.step p rng) init es) := by
  induction es using List.reverseRecOn with
  | nil => exact sound_init p rng
  | append_singleton es e ih =>
      rw [run_concat]
      exact ih.step e

/-- A step takes nothing off the heap, or the delivery thread takes one entry
that is due and that no entry of the heap precedes. -/
def TakesFirst (p : Impairments) (rng : ℕ → Draw) (f : Fragile) : Prop :=
  ∀ e : Event, (step p rng f e).channel.popped = f.channel.popped ∨
    ∃ now raised entry, e = .wake now raised ∧
      (step p rng f e).channel.popped = f.channel.popped ++ [⟨entry, now, raised⟩] ∧
      entry ∈ f.channel.heap ∧ entry.deliverAt ≤ now ∧
      ∀ entry' ∈ f.channel.heap, ¬ entry'.Precedes entry

theorem takesFirst (h : Balanced p f.channel) (rng : ℕ → Draw) :
    f.TakesFirst p rng := by
  intro e
  rcases step_cases p rng f e with
    ⟨-, hstep⟩ | ⟨-, ⟨-, hstep⟩ | ⟨-, -, -, hstep | hstep⟩⟩
  · exact Or.inl (by rw [hstep])
  · rw [hstep]
    exact h.takesFirst rng e
  · exact Or.inl (by rw [hstep])
  · exact Or.inl (by rw [hstep])

/-- On a clock that never runs backwards, no wait is longer than
`delay + jitter + reorder`. -/
theorem timely_run (p : Impairments) (rng : ℕ → Draw) {es : List Event}
    (hclock : (es.filterMap Event.reading).Pairwise (· ≤ ·))
    (hbound : p.delay + p.jitter + p.reorder ≤ TIMEOUT_MAX) :
    Meets (step p rng) Timely init es := by
  induction es using List.reverseRecOn with
  | nil => trivial
  | append_singleton es e ih =>
      rw [List.filterMap_append, List.pairwise_append] at hclock
      obtain ⟨hbefore, -, hafter⟩ := hclock
      have htimely := ih hbefore
      refine (meets_append _ es [e]).mpr ⟨htimely, ?_, trivial⟩
      rw [Timely, channel_run htimely]
      intro hlong
      cases e with
      | wake now raised =>
          obtain ⟨-, entry, hhead, hlate⟩ := hlong
          have hnow : ∀ x ∈ (run (Channel.step p rng) Channel.init es).accepted,
              x.now ≤ now := by
            intro x hx
            rw [← channel_run htimely, (sound_run p rng es).admits.accepted] at hx
            exact hafter _ (reading_of_mem_admitted hx) now (by simp [Event.reading])
          have hdue := (sorted_run p rng hbefore).due hnow entry
            (List.mem_of_mem_head? hhead)
          linarith
      | _ => exact hlong

end Fragile

/-! ## Conservation -/

/-- What holds of the counters, the heap and the packets of a channel after the
steps `es`. -/
structure Conserves (p : Impairments) (rng : ℕ → Draw) (es : List Event)
    (f : Fragile) : Prop where
  returns : ∀ argument addr now,
    (∃ c, f.channel.sendto p rng argument addr now = .ok c) ↔
      es.any Event.isClose = false ∧
        (Event.sendto argument addr now).submits.isSome
  admitted : f.channel.sent = (admitted rng es).length
  sent : f.channel.sent =
    f.channel.dropped + ((Channel.admitted rng es).filter fun x => ¬ x.Lost p).length
  packets : (f.channel.scheduled ++ f.channel.handed).Perm
    ((Channel.admitted rng es).flatMap (Accepted.copies p))
  carried : ∀ x : Accepted, (x.carried p).2 = x.addr ∧
    ((x.carried p).1 = x.data ∨ OneBitFlipped x.data (x.carried p).1)
  delivered : f.channel.delivered +
    (f.channel.popped.filter fun x => x.raised).length = f.channel.popped.length
  distinct : f.channel.heap.Pairwise fun e e' => e.tiebreak ≠ e'.tiebreak
  due : ∀ x ∈ f.channel.popped, x.entry.deliverAt ≤ x.now
  takesFirst : f.TakesFirst p rng

end Channel

open Channel in
/-- Conservation: in every reachable state of a channel, whatever its settings,
its draws and the order of its steps, each packet that `sendto` has taken is
accounted for.  When `close` has returned all of them have been handed over if
and only if the delivery thread never had to wait for more than `TIMEOUT_MAX`,
which it does not on a clock that never runs backwards with a smaller
`delay + jitter + reorder`. -/
theorem channel_conserves (p : Impairments) (rng : ℕ → Draw)
    (es : List Channel.Event) :
    let f := run (Fragile.step p rng) Fragile.init es
    Conserves p rng es f ∧
      (f.channel.closeCall = .returned →
        (f.channel.heap = [] ∧ f.channel.handed.Perm
            ((admitted rng es).flatMap (Accepted.copies p)) ↔
          Meets (Fragile.step p rng) Fragile.Timely Fragile.init es)) ∧
      ((es.filterMap Event.reading).Pairwise (· ≤ ·) →
        p.delay + p.jitter + p.reorder ≤ TIMEOUT_MAX →
          Meets (Fragile.step p rng) Fragile.Timely Fragile.init es) := by
  intro f
  have h : Fragile.Sound p rng es f := Fragile.sound_run p rng es
  have hadmitted : f.channel.accepted = admitted rng es := h.admits.accepted
  have hpackets := h.balanced.packets
  rw [hadmitted] at hpackets
  refine ⟨?_, fun hreturned => ?_, Fragile.timely_run p rng⟩
  · refine ⟨fun argument addr now => ?_, ?_, ?_, hpackets, fun x => ⟨rfl, ?_⟩,
      h.balanced.delivered, h.balanced.numbered.distinct, h.balanced.due,
      Fragile.takesFirst h.balanced rng⟩
    · rw [exists_sendto_iff, h.admits.closed]
    · rw [h.admits.sent, hadmitted]
    · rw [h.balanced.sent, hadmitted]
    · exact corruptData_cases p.corruption x.draws.corruption x.data
  · rw [← Fragile.died_run]
    constructor
    · rintro ⟨hempty, -⟩
      by_contra hdied
      exact (h.stuck (by simpa using hdied)).2 hempty
    · intro hlives
      have hended := (h.joined hreturned).resolve_right
        fun hdied => Bool.false_ne_true (hlives.symm.trans hdied)
      have hempty := (h.balanced.drained hended).2
      rw [scheduled, hempty] at hpackets
      exact ⟨hempty, hpackets⟩

open Channel in
/-- Of three packets one is sent twice, one is lost and one is damaged; two calls
raise, and so does one real `sendto`. -/
theorem channel_conserves_close :
    let p : Impairments :=
      ⟨{ loss := 1 / 4, delay := 1, duplication := 1 / 2, corruption := 1 / 2 },
        by decide +kernel⟩
    let rng : ℕ → Draw := fun n =>
      if n = 2 ∨ n = 5 then Draw.sixteenths 2
      else if n = 14 then Draw.sixteenths 3 else Draw.sixteenths 10
    let f := run (Fragile.step p rng) Fragile.init
      [.sendto (.bytesLike [1]) ("b", 2) 0, .sendto (.bytesLike [2]) ("b", 2) 0,
        .sendto (.other "str") ("b", 2) 0, .wake (1 / 2) false,
        .sendto (.bytesLike [4]) ("b", 2) 1, .close,
        .sendto (.bytesLike [5]) ("b", 2) 1, .wake 1 false, .wake 1 true,
        .wake 2 false, .wake 2 false, .join]
    f.channel.heap = [] ∧ f.channel.sent = 3 ∧ f.channel.dropped = 1 ∧
      f.channel.handed.Perm
        [([1], ("b", 2)), ([1], ("b", 2)), ([6], ("b", 2))] := by
  intro p rng f
  obtain ⟨hbooks, hreturned, htimely⟩ := channel_conserves p rng
    [.sendto (.bytesLike [1]) ("b", 2) 0, .sendto (.bytesLike [2]) ("b", 2) 0,
      .sendto (.other "str") ("b", 2) 0, .wake (1 / 2) false,
      .sendto (.bytesLike [4]) ("b", 2) 1, .close,
      .sendto (.bytesLike [5]) ("b", 2) 1, .wake 1 false, .wake 1 true,
      .wake 2 false, .wake 2 false, .join]
  obtain ⟨hempty, hhanded⟩ := (hreturned (by decide +kernel)).mpr
    (htimely (by decide +kernel) (by decide +kernel))
  refine ⟨hempty, hbooks.admitted.trans (by decide +kernel), by decide +kernel, ?_⟩
  exact hhanded.trans (List.Perm.of_eq (by decide +kernel))

open Channel in
/-- With a delay of more than `TIMEOUT_MAX` the thread dies at once, and `close`
returns with the packet on the heap. -/
theorem channel_strands_overlong :
    let p : Impairments := ⟨{ delay := 10 ^ 10 }, by decide +kernel⟩
    let rng : ℕ → Draw := fun _ => Draw.sixteenths 4
    let f := run (Fragile.step p rng) Fragile.init
      [.sendto (.bytesLike [7]) ("b", 2) 0, .wake 0 false, .close, .join]
    f.channel.closeCall = .returned ∧ f.channel.dropped = 0 ∧
      f.channel.handed = [] ∧ f.channel.scheduled = [([7], ("b", 2))] := by
  decide +kernel

end UdpArq
