import UdpArq.Channel.Corruption
import UdpArq.Transport.Core
import Mathlib.Data.List.Sort
import Mathlib.Order.Interval.Set.Defs
import Mathlib.Tactic.Positivity

/-!
# The channel emulator

`channel.py`: the sending half of a `Channel`, and its delivery thread.  Clock
readings and the outcome of the real `sendto` are inputs of the operations, and
the random generator is the sequence of its draws.

The heap is kept as its list of entries in ascending order.  Both `sendto` and
the delivery thread hold the lock throughout, so that a call and an iteration
of the delivery loop are atomic; the thread may run an iteration at any time,
which covers every wake-up.  Two fields are histories that no operation reads:
`accepted` and `popped`, both oldest first.
-/

namespace UdpArq

namespace Channel

/-! ## The constructor -/

/-- The `ValueError`s of `__init__`. -/
inductive InitError
  | outsideUnit (name : String) (got : ℚ)
  | negative (name : String) (got : ℚ)
  deriving DecidableEq

/-- The keyword arguments of `__init__`. -/
structure Settings where
  loss : ℚ := 0
  delay : ℚ := 0
  jitter : ℚ := 0
  duplication : ℚ := 0
  reorder : ℚ := 0
  corruption : ℚ := 0

namespace Settings

/-- The checks of `__init__`. -/
def validate (s : Settings) : Except InitError Unit :=
  if ¬ (0 ≤ s.loss ∧ s.loss ≤ 1) then .error (.outsideUnit "loss" s.loss)
  else if s.delay < 0 then .error (.negative "delay" s.delay)
  else if s.jitter < 0 then .error (.negative "jitter" s.jitter)
  else if ¬ (0 ≤ s.duplication ∧ s.duplication ≤ 1) then
    .error (.outsideUnit "duplication" s.duplication)
  else if ¬ (0 ≤ s.reorder ∧ s.reorder ≤ 1) then
    .error (.outsideUnit "reorder" s.reorder)
  else if ¬ (0 ≤ s.corruption ∧ s.corruption ≤ 1) then
    .error (.outsideUnit "corruption" s.corruption)
  else .ok ()

/-- The ranges that `validate` enforces. -/
structure Valid (s : Settings) : Prop where
  loss : 0 ≤ s.loss ∧ s.loss ≤ 1
  delay : 0 ≤ s.delay
  jitter : 0 ≤ s.jitter
  duplication : 0 ≤ s.duplication ∧ s.duplication ≤ 1
  reorder : 0 ≤ s.reorder ∧ s.reorder ≤ 1
  corruption : 0 ≤ s.corruption ∧ s.corruption ≤ 1

theorem validate_eq_ok_iff {s : Settings} : s.validate = .ok () ↔ s.Valid := by
  constructor
  · intro hok
    unfold validate at hok
    split_ifs at hok with h1 h2 h3 h4 h5 h6
    exact ⟨h1, not_lt.mp h2, not_lt.mp h3, h4, h5, h6⟩
  · rintro ⟨h1, h2, h3, h4, h5, h6⟩
    simp [validate, h1, not_lt.mpr h2, not_lt.mpr h3, h4, h5, h6]

end Settings

/-- Settings that `__init__` accepts. -/
structure Impairments extends Settings where
  valid : toSettings.validate = .ok ()

theorem Impairments.isValid (p : Impairments) : p.toSettings.Valid :=
  Settings.validate_eq_ok_iff.mp p.valid

/-! ## Draws -/

/-- A value of `random.random()`. -/
abbrev Draw := Set.Ico (0 : ℚ) 1

/-- `k` sixteenths, modulo one. -/
def Draw.sixteenths (k : ℕ) : Draw :=
  ⟨((k % 16 : ℕ) : ℚ) / 16, by positivity,
    (div_lt_one (by positivity)).mpr
      (by exact_mod_cast Nat.mod_lt k (by decide))⟩

/-- The five draws that one packet consumes, in their order. -/
structure Draws where
  loss : Draw
  jitter : Draw
  duplication : Draw
  reorder : Draw
  corruption : Draw

/-- The next five draws of a generator that has been used `n` times. -/
def nextDraws (rng : ℕ → Draw) (n : ℕ) : Draws where
  loss := rng n
  jitter := rng (n + 1)
  duplication := rng (n + 2)
  reorder := rng (n + 3)
  corruption := rng (n + 4)

/-! ## The heap -/

/-- A heap entry `(deliver_at, tiebreak, data, addr)`. -/
structure Entry where
  deliverAt : ℚ
  tiebreak : ℕ
  data : Bytes
  addr : Address

namespace Entry

/-- The order of the pairs `(deliver_at, tiebreak)`; tie-breaks are distinct, so
that `data` and `addr` are never compared. -/
def Precedes (e e' : Entry) : Prop :=
  e.deliverAt < e'.deliverAt ∨
    (e.deliverAt = e'.deliverAt ∧ e.tiebreak < e'.tiebreak)

instance : DecidableRel Precedes := fun _ _ => inferInstanceAs (Decidable (_ ∨ _))

/-- Nothing precedes an entry that is at most as late. -/
def Upto (e e' : Entry) : Prop := ¬ e'.Precedes e

instance : DecidableRel Upto := fun _ _ => inferInstanceAs (Decidable (¬ _))

/-- What the entry hands to the real socket. -/
def packet (e : Entry) : Bytes × Address := (e.data, e.addr)

end Entry

/-- `heapq.heappush`. -/
def heappush (e : Entry) (heap : List Entry) : List Entry :=
  heap.orderedInsert Entry.Upto e

/-! ## The state -/

/-- An accepted call of `sendto`, with the draws and the clock reading that it
used. -/
structure Accepted where
  data : Bytes
  addr : Address
  draws : Draws
  now : ℚ

/-- An entry taken from the heap: when, and whether the real `sendto` raised
`OSError`. -/
structure Popped where
  entry : Entry
  now : ℚ
  raised : Bool

/-- The progress of the call of `close` that sets the flag. -/
inductive CloseCall
  | pending
  | joining
  | returned
  deriving DecidableEq

end Channel

open Channel

/-- `Channel`. -/
structure Channel where
  heap : List Entry := []
  tiebreak : ℕ := 0
  drawn : ℕ := 0
  closed : Bool := false
  sent : ℕ := 0
  dropped : ℕ := 0
  delivered : ℕ := 0
  workerReturned : Bool := false
  closeCall : CloseCall := .pending
  accepted : List Accepted := []
  popped : List Popped := []

namespace Channel

/-! ## `sendto` -/

/-- The `data` argument of `sendto`: bytes-like, or of another type. -/
inductive Argument
  | bytesLike (data : Bytes)
  | other (typeName : String)

/-- The exceptions of `sendto`. -/
inductive SendError
  | notBytesLike (typeName : String)
  | tooLarge (size : ℕ)
  | closed
  deriving DecidableEq

/-- The jitter of a packet. -/
def offset (p : Impairments) (d : Draws) : ℚ :=
  -p.jitter + 2 * p.jitter * d.jitter

/-- The delivery time of a packet. -/
def deliverAt (p : Impairments) (d : Draws) (now : ℚ) : ℚ :=
  max now (now + p.delay + offset p d + d.reorder * p.reorder)

/-- `heappush` with the next tie-break. -/
def push (c : Channel) (deliverAt : ℚ) (data : Bytes) (addr : Address) :
    Channel :=
  { c with
    heap := heappush ⟨deliverAt, c.tiebreak, data, addr⟩ c.heap
    tiebreak := c.tiebreak + 1 }

/-- The counting and the draws with which `sendto` begins under the lock. -/
def intake (c : Channel) (data : Bytes) (addr : Address) (d : Draws) (now : ℚ) :
    Channel :=
  { c with
    sent := c.sent + 1
    drawn := c.drawn + 5
    accepted := c.accepted ++ [⟨data, addr, d, now⟩] }

/-- The impairments and the pushes of `sendto`. -/
def impair (p : Impairments) (c : Channel) (data : Bytes) (addr : Address)
    (d : Draws) (now : ℚ) : Channel :=
  if d.loss < p.loss then { c with dropped := c.dropped + 1 }
  else
    let data := corruptData p.corruption d.corruption data
    let deliverAt := deliverAt p d now
    if d.duplication < p.duplication then
      (c.push deliverAt data addr).push deliverAt data addr
    else c.push deliverAt data addr

/-- `sendto`. -/
def sendto (p : Impairments) (rng : ℕ → Draw) (c : Channel)
    (argument : Argument) (addr : Address) (now : ℚ) :
    Except SendError Channel :=
  match argument with
  | .other typeName => .error (.notBytesLike typeName)
  | .bytesLike data =>
      if data.length > MAX_DATAGRAM then .error (.tooLarge data.length)
      else if c.closed then .error .closed
      else
        let d := nextDraws rng c.drawn
        .ok (impair p (c.intake data addr d now) data addr d now)

/-! ## `close` and the delivery thread -/

/-- `close` up to the join.  A call that finds the flag set returns at once. -/
def close (c : Channel) : Channel :=
  if c.closed then c else { c with closed := true, closeCall := .joining }

/-- The join returns, and with it the call that set the flag. -/
def join (c : Channel) : Channel :=
  if c.closeCall = .joining ∧ c.workerReturned then
    { c with closeCall := .returned }
  else c

/-- One iteration of `_deliver_loop`, in which `Condition.wait` accepts the time
to wait. -/
def deliver (c : Channel) (now : ℚ) (raised : Bool) : Channel :=
  match c.heap with
  | [] => if c.closed then { c with workerReturned := true } else c
  | e :: rest =>
      if e.deliverAt - now > 0 then c
      else
        let c := { c with
          heap := rest
          popped := c.popped ++ [⟨e, now, raised⟩] }
        if raised then c else { c with delivered := c.delivered + 1 }

/-! ## Steps -/

/-- The atomic steps of a channel. -/
inductive Event
  | sendto (argument : Argument) (addr : Address) (now : ℚ)
  | wake (now : ℚ) (raised : Bool)
  | close
  | join

/-- One atomic step. -/
def step (p : Impairments) (rng : ℕ → Draw) (c : Channel) : Event → Channel
  | .sendto argument addr now =>
      match c.sendto p rng argument addr now with
      | .ok c => c
      | .error _ => c
  | .wake now raised => if c.workerReturned then c else c.deliver now raised
  | .close => c.close
  | .join => c.join

/-- A fresh channel. -/
def init : Channel := {}

/-! ## Waits that are too long -/

/-- `threading.TIMEOUT_MAX`, in seconds, as on Linux. -/
def TIMEOUT_MAX : ℚ := 9223372036

/-- In this step the delivery thread would wait for longer than `Condition.wait`
accepts. -/
def Overlong (c : Channel) : Event → Prop
  | .wake now _ => c.workerReturned = false ∧
      ∃ e ∈ c.heap.head?, TIMEOUT_MAX < e.deliverAt - now
  | _ => False

instance (c : Channel) : DecidablePred c.Overlong
  | .wake now _ =>
      match hheap : c.heap.head? with
      | none => isFalse (by simp [Overlong, hheap])
      | some e => decidable_of_iff
          (c.workerReturned = false ∧ TIMEOUT_MAX < e.deliverAt - now)
          (by simp [Overlong, hheap])
  | .sendto _ _ _ => isFalse id
  | .close => isFalse id
  | .join => isFalse id

/-- A channel whose delivery thread an `OverflowError` of `Condition.wait` may
have ended. -/
structure Fragile where
  channel : Channel := {}
  died : Bool := false

namespace Fragile

/-- One atomic step.  The join returns as well when the thread has died. -/
def step (p : Impairments) (rng : ℕ → Draw) (f : Fragile) (e : Event) : Fragile :=
  if f.channel.Overlong e then { f with died := true }
  else if f.died then
    match e with
    | .wake _ _ => f
    | .join =>
        if f.channel.closeCall = .joining then
          { f with channel := { f.channel with closeCall := .returned } }
        else f
    | e => { f with channel := f.channel.step p rng e }
  else { f with channel := f.channel.step p rng e }

/-- A fresh channel with a running thread. -/
def init : Fragile := {}

end Fragile

end Channel

end UdpArq
