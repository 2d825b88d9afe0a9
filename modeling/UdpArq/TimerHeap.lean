import UdpArq.Lib.Dict
import Mathlib.Data.Rat.Defs
import Mathlib.Algebra.Order.Ring.Rat

/-!
# Timer heap

`timer_heap.py`: a heap of `(deadline, counter, key)` entries with lazy
deletion, next to the map from keys to their current deadlines.  The heap is
kept as its list of entries in ascending order; only its first entry is ever
looked at.
-/

namespace UdpArq

/-- A heap entry `(deadline, counter, key)`. -/
structure TimerEntry (κ : Type) where
  deadline : ℚ
  counter : ℕ
  key : κ

/-- `TimerHeap`. -/
structure TimerHeap (κ : Type) where
  heap : List (TimerEntry κ) := []
  keyToDeadline : Dict κ ℚ := ∅
  counter : ℕ := 0

namespace TimerHeap

variable {κ : Type} [DecidableEq κ]

/-- `heapq.heappush`: counters are distinct, so keys are never compared. -/
def heappush (e : TimerEntry κ) : List (TimerEntry κ) → List (TimerEntry κ)
  | [] => [e]
  | x :: xs =>
      if e.deadline < x.deadline ∨
          (e.deadline = x.deadline ∧ e.counter < x.counter) then e :: x :: xs
      else x :: heappush e xs

/-- `schedule`. -/
def schedule (t : TimerHeap κ) (key : κ) (deadline : ℚ) : TimerHeap κ where
  heap := heappush ⟨deadline, t.counter, key⟩ t.heap
  keyToDeadline := t.keyToDeadline.set key deadline
  counter := t.counter + 1

/-- `cancel`. -/
def cancel (t : TimerHeap κ) (key : κ) : TimerHeap κ :=
  { t with keyToDeadline := t.keyToDeadline.erase key }

/-- The loop of `nearest`: stale entries leave the heap until one is valid. -/
def nearestLoop (live : Dict κ ℚ) :
    List (TimerEntry κ) → Option ℚ × List (TimerEntry κ)
  | [] => (none, [])
  | e :: rest =>
      if live.get? e.key = some e.deadline then (some e.deadline, e :: rest)
      else nearestLoop live rest

/-- `nearest`. -/
def nearest (t : TimerHeap κ) : Option ℚ × TimerHeap κ :=
  let left := nearestLoop t.keyToDeadline t.heap
  (left.1, { t with heap := left.2 })

/-- The loop of `pop_due`: the due keys, the heap and the map that are left. -/
def popDueLoop (now : ℚ) (live : Dict κ ℚ) :
    List (TimerEntry κ) → List κ × List (TimerEntry κ) × Dict κ ℚ
  | [] => ([], [], live)
  | e :: rest =>
      if live.get? e.key ≠ some e.deadline then popDueLoop now live rest
      else if e.deadline ≤ now then
        let left := popDueLoop now (live.erase e.key) rest
        (e.key :: left.1, left.2)
      else ([], e :: rest, live)

/-- `pop_due`. -/
def popDue (t : TimerHeap κ) (now : ℚ) : List κ × TimerHeap κ :=
  let left := popDueLoop now t.keyToDeadline t.heap
  (left.1, { t with heap := left.2.1, keyToDeadline := left.2.2 })

/-- `__len__`. -/
def len (t : TimerHeap κ) : ℕ := t.keyToDeadline.keys.length

end TimerHeap

end UdpArq
