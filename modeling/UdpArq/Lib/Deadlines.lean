import Mathlib.Data.Finset.Card
import Mathlib.Order.Bounds.Defs

/-!
# Maps from keys to deadlines

What a collection of timers is for: a finite map from keys to deadlines.  Timers
are set, moved and removed by key, the earliest deadline can be asked for, and
everything due can be taken out in the order of the deadlines.
-/

namespace UdpArq

universe u v

/-- The calls of a collection of timers. -/
inductive TimerCall (κ : Type u) (δ : Type v)
  | schedule (key : κ) (deadline : δ)
  | cancel (key : κ)
  | nearest
  | popDue (now : δ)
  | len

/-- What the calls return. -/
inductive TimerReply (κ : Type u) (δ : Type v)
  | done
  | deadline (d : Option δ)
  | keys (ks : List κ)
  | count (n : ℕ)

/-- The current deadline of every scheduled key. -/
abbrev Deadlines (κ : Type u) (δ : Type v) := κ → Option δ

namespace Deadlines

variable {κ : Type u} {δ : Type v} [LinearOrder δ]

/-- The key is due. -/
def Due (m : Deadlines κ δ) (now : δ) (k : κ) : Prop :=
  ∃ d, m k = some d ∧ d ≤ now

/-- The map after a call. -/
def call [DecidableEq κ] (m : Deadlines κ δ) : TimerCall κ δ → Deadlines κ δ
  | .schedule k d => Function.update m k (some d)
  | .cancel k => Function.update m k none
  | .nearest => m
  | .popDue now => fun k => (m k).filter fun d => now < d
  | .len => m

/-- The reply of a call is right for the map before it. -/
def Answers (m : Deadlines κ δ) : TimerCall κ δ → TimerReply κ δ → Prop
  | .schedule _ _, .done => True
  | .cancel _, .done => True
  | .nearest, .deadline none => ∀ k, m k = none
  | .nearest, .deadline (some d) => IsLeast {d | ∃ k, m k = some d} d
  | .popDue now, .keys ks =>
      ks.Nodup ∧ (∀ k, k ∈ ks ↔ m.Due now k) ∧
        ks.Pairwise fun a b =>
          ∀ da db, m a = some da → m b = some db → da ≤ db
  | .len, .count n =>
      ∃ keys : Finset κ, keys.card = n ∧ ∀ k, k ∈ keys ↔ m k ≠ none
  | _, _ => False

end Deadlines

end UdpArq
