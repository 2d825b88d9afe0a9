import Mathlib.Algebra.Order.Floor.Div
import Mathlib.Data.List.Basic
import Mathlib.Data.List.Flatten

/-!
# Cutting a list into blocks

A list is cut into blocks of length `n` if the blocks are nonempty, make up the
list, and have length `n` apart from a last one that may be shorter.  There is
only one way to do so, so that any two procedures that cut a list agree.
Conversely, every position of a concatenation lies in one of its blocks.
-/

namespace UdpArq

universe u

variable {α : Type u}

/-- `bs` cuts `xs` into blocks of length `n`. -/
structure Cuts (n : ℕ) (xs : List α) (bs : List (List α)) : Prop where
  flatten : bs.flatten = xs
  nonempty : ∀ b ∈ bs, b ≠ []
  full : ∀ b ∈ bs.dropLast, b.length = n
  le : ∀ b ∈ bs, b.length ≤ n

namespace Cuts

variable {n : ℕ} {xs : List α} {b : List α} {bs bs' : List (List α)}

theorem nil (n : ℕ) : Cuts n ([] : List α) [] := by
  constructor <;> simp

theorem eq_nil_iff (h : Cuts n xs bs) : bs = [] ↔ xs = [] := by
  constructor
  · rintro rfl
    exact h.flatten.symm
  · intro hxs
    cases bs with
    | nil => rfl
    | cons b bs =>
        have hempty := h.flatten
        rw [hxs, List.flatten_cons, List.append_eq_nil_iff] at hempty
        exact absurd hempty.1 (h.nonempty b List.mem_cons_self)

/-- The first block is what the rest does not hold, and the only block if it is
short. -/
theorem head_eq (h : Cuts n xs (b :: bs)) :
    b = xs.take n ∧ bs.flatten = xs.drop n := by
  have hflatten : b ++ bs.flatten = xs := h.flatten
  have hle : b.length ≤ n := h.le b List.mem_cons_self
  cases bs with
  | nil =>
      rw [List.flatten_nil, List.append_nil] at hflatten
      subst hflatten
      exact ⟨(List.take_of_length_le hle).symm,
        (List.drop_eq_nil_iff.mpr hle).symm⟩
  | cons b' bs =>
      have hlength : b.length = n := h.full b (by simp)
      rw [← hflatten, ← hlength, List.take_left', List.drop_left'] <;> simp

theorem tail (h : Cuts n xs (b :: bs)) : Cuts n (xs.drop n) bs := by
  refine ⟨h.head_eq.2, fun c hc => h.nonempty c (List.mem_cons_of_mem _ hc),
    fun c hc => h.full c ?_, fun c hc => h.le c (List.mem_cons_of_mem _ hc)⟩
  cases bs with
  | nil => cases hc
  | cons b' bs => exact List.mem_cons_of_mem _ hc

/-- A first block is put before the blocks of the rest. -/
theorem cons (hn : 0 < n) (hne : xs ≠ []) (h : Cuts n (xs.drop n) bs) :
    Cuts n xs (xs.take n :: bs) := by
  refine ⟨?_, ?_, ?_, ?_⟩
  · rw [List.flatten_cons, h.flatten, List.take_append_drop]
  · rintro b (_ | ⟨_, hb⟩)
    · simp [hn.ne', hne]
    · exact h.nonempty b hb
  · intro b hb
    cases bs with
    | nil => cases hb
    | cons b' bs =>
        rcases List.mem_cons.mp hb with rfl | hb
        · -- There is a second block, so the first one is full.
          have hrest : xs.drop n ≠ [] := by
            intro hdrop
            exact absurd (h.eq_nil_iff.mpr hdrop) (by simp)
          have hlt : n < xs.length := by simpa using hrest
          exact List.length_take_of_le hlt.le
        · exact h.full b hb
  · rintro b (_ | ⟨_, hb⟩)
    · exact List.length_take_le _ _
    · exact h.le b hb

/-- There is only one way to cut a list. -/
theorem unique (h : Cuts n xs bs) (h' : Cuts n xs bs') : bs = bs' := by
  induction bs generalizing xs bs' with
  | nil => exact (h'.eq_nil_iff.mpr (h.eq_nil_iff.mp rfl)).symm
  | cons b bs ih =>
      cases bs' with
      | nil => exact absurd (h.eq_nil_iff.mpr (h'.eq_nil_iff.mp rfl)) (by simp)
      | cons b' bs' =>
          rw [h.head_eq.1, h'.head_eq.1, ih h.tail h'.tail]

/-- The number of blocks. -/
theorem length_eq (hn : 0 < n) (h : Cuts n xs bs) :
    bs.length = xs.length ⌈/⌉ n := by
  rw [Nat.ceilDiv_eq_add_pred_div]
  induction bs generalizing xs with
  | nil =>
      rw [h.eq_nil_iff.mp rfl, List.length_nil, List.length_nil,
        Nat.div_eq_of_lt (by omega)]
  | cons b bs ih =>
      have hpos : 0 < xs.length := by
        rw [List.length_pos_iff]
        intro hxs
        exact absurd (h.eq_nil_iff.mpr hxs) (by simp)
      have hshift : xs.length + n - 1 = (xs.length - 1) + n := by omega
      rw [List.length_cons, ih h.tail, List.length_drop, hshift,
        Nat.add_div_right _ hn]
      rcases Nat.lt_or_ge xs.length n with hlt | hge
      · rw [Nat.div_eq_of_lt (by omega), Nat.div_eq_of_lt (by omega)]
      · rw [show xs.length - n + n - 1 = xs.length - 1 by omega]

end Cuts

/-! ## Positions in a concatenation -/

variable {β : Type*} {f : α → List β} {l : List α} {i j : ℕ}

/-- Position `j` of `l.flatMap f` belongs to the item at position `i` of `l`. -/
structure Within (f : α → List β) (l : List α) (i j : ℕ) : Prop where
  ge : ((l.take i).flatMap f).length ≤ j
  lt : j < ((l.take (i + 1)).flatMap f).length

theorem exists_within {b : β} (h : (l.flatMap f)[j]? = some b) :
    ∃ i a, l[i]? = some a ∧ b ∈ f a ∧ Within f l i j := by
  induction l generalizing j with
  | nil => simp at h
  | cons a l ih =>
      rw [List.flatMap_cons] at h
      rcases lt_or_ge j (f a).length with hlt | hge
      · rw [List.getElem?_append_left hlt] at h
        exact ⟨0, a, rfl, List.mem_of_getElem? h, by simp, by simpa using hlt⟩
      · rw [List.getElem?_append_right hge] at h
        obtain ⟨i, a', hget, hmem, hwithin⟩ := ih h
        have hlo := hwithin.ge
        have hhi := hwithin.lt
        refine ⟨i + 1, a', hget, hmem, ?_, ?_⟩
        · rw [List.take_succ_cons, List.flatMap_cons, List.length_append]
          omega
        · rw [List.take_succ_cons, List.flatMap_cons, List.length_append]
          omega

/-- Later positions belong to later items. -/
theorem Within.le (h : Within f l i j) {k : ℕ}
    (hk : ((l.take k).flatMap f).length ≤ j) : k ≤ i := by
  by_contra hlt
  have htake : ((l.take (i + 1)).flatMap f).length ≤
      ((l.take k).flatMap f).length :=
    ((List.take_prefix_take_left (by omega)).sublist.flatMap f).length_le
  have hj := h.lt
  omega

end UdpArq
