import Mathlib.Data.List.Sort

/-!
# Stable sorting, one item after another

`insertLate key x l` puts `x` behind the items of `l` that are not later than
it.  Items that come one after another and are put so end up stably sorted, and
nothing changes when the first ones are taken away early, as long as no later
item belongs before them.
-/

namespace UdpArq

variable {α β κ : Type*} [LinearOrder κ] (key : α → κ)

/-- `x` behind all items that are not later. -/
def insertLate (x : α) : List α → List α
  | [] => [x]
  | y :: l => if key y ≤ key x then y :: insertLate x l else x :: y :: l

/-- `x` before all items that are not earlier. -/
def insertEarly (x : α) (l : List α) : List α :=
  l.orderedInsert (fun a b => key a ≤ key b) x

/-- The items by their keys, those with the same key in their order. -/
def stableSort (l : List α) : List α :=
  l.insertionSort fun a b => key a ≤ key b

variable {key}

theorem insertLate_cons_of_le {x y : α} (h : key y ≤ key x) (l : List α) :
    insertLate key x (y :: l) = y :: insertLate key x l := if_pos h

theorem insertLate_cons_of_lt {x y : α} (h : key x < key y) (l : List α) :
    insertLate key x (y :: l) = x :: y :: l := if_neg (not_le.mpr h)

theorem insertEarly_cons_of_le {x y : α} (h : key x ≤ key y) (l : List α) :
    insertEarly key x (y :: l) = x :: y :: l :=
  List.orderedInsert_cons_of_le (fun a b => key a ≤ key b) l h

theorem insertEarly_cons_of_lt {x y : α} (h : key y < key x) (l : List α) :
    insertEarly key x (y :: l) = y :: insertEarly key x l :=
  List.orderedInsert_of_not_le (fun a b => key a ≤ key b) l (not_le.mpr h)

/-- Items that are not later do not move. -/
theorem insertLate_append {x : α} {xs : List α} (h : ∀ y ∈ xs, key y ≤ key x)
    (ys : List α) :
    insertLate key x (xs ++ ys) = xs ++ insertLate key x ys := by
  induction xs with
  | nil => rfl
  | cons y xs ih =>
      rw [List.cons_append, insertLate_cons_of_le (h y List.mem_cons_self),
        ih fun z hz => h z (List.mem_cons_of_mem _ hz), List.cons_append]

theorem map_insertLate (key' : β → κ) (f : α → β) (x : α) (l : List α) :
    (insertLate (fun a => key' (f a)) x l).map f =
      insertLate key' (f x) (l.map f) := by
  induction l with
  | nil => rfl
  | cons y l ih =>
      rcases le_or_gt (key' (f y)) (key' (f x)) with hle | hlt
      · simp only [insertLate, if_pos hle, List.map_cons, ih]
      · simp only [insertLate, if_neg hlt.not_ge, List.map_cons]

/-- An item put before those of its key and one put behind them do not get into
each other's way. -/
theorem insertEarly_insertLate (a x : α) (l : List α) :
    insertEarly key a (insertLate key x l) =
      insertLate key x (insertEarly key a l) := by
  induction l with
  | nil =>
      rcases le_or_gt (key a) (key x) with hle | hlt
      · simp [insertLate, insertEarly, hle]
      · simp [insertLate, insertEarly, hlt.not_ge]
  | cons y l ih =>
      rcases le_or_gt (key y) (key x) with hyx | hxy
      · rw [insertLate_cons_of_le hyx]
        rcases le_or_gt (key a) (key y) with hay | hya
        · rw [insertEarly_cons_of_le hay, insertEarly_cons_of_le hay,
            insertLate_cons_of_le (hay.trans hyx), insertLate_cons_of_le hyx]
        · rw [insertEarly_cons_of_lt hya, insertEarly_cons_of_lt hya,
            insertLate_cons_of_le hyx, ih]
      · rw [insertLate_cons_of_lt hxy]
        rcases le_or_gt (key a) (key x) with hax | hxa
        · rw [insertEarly_cons_of_le hax, insertEarly_cons_of_le (hax.trans hxy.le),
            insertLate_cons_of_le hax, insertLate_cons_of_lt hxy]
        · rw [insertEarly_cons_of_lt hxa]
          rcases le_or_gt (key a) (key y) with hay | hya
          · rw [insertEarly_cons_of_le hay, insertLate_cons_of_lt hxa]
          · rw [insertEarly_cons_of_lt hya, insertLate_cons_of_lt hxy]

theorem stableSort_cons (a : α) (l : List α) :
    stableSort key (a :: l) = insertEarly key a (stableSort key l) := rfl

/-- The item that comes last. -/
theorem stableSort_concat (l : List α) (x : α) :
    stableSort key (l ++ [x]) = insertLate key x (stableSort key l) := by
  induction l with
  | nil => rfl
  | cons a l ih =>
      rw [List.cons_append, stableSort_cons, stableSort_cons, ih,
        insertEarly_insertLate]

theorem stableSort_append (l xs : List α) :
    stableSort key (l ++ xs) =
      xs.foldl (fun l x => insertLate key x l) (stableSort key l) := by
  induction xs generalizing l with
  | nil => rw [List.append_nil, List.foldl_nil]
  | cons x xs ih =>
      rw [← List.singleton_append, ← List.append_assoc, ih, stableSort_concat,
        List.singleton_append, List.foldl_cons]

theorem mem_stableSort {l : List α} {x : α} :
    x ∈ stableSort key l ↔ x ∈ l := List.mem_insertionSort _

/-- Items that stand in the order of their keys keep this order. -/
theorem sublist_stableSort {xs l : List α}
    (hsorted : xs.Pairwise fun a b => key a ≤ key b) (hsub : xs.Sublist l) :
    xs.Sublist (stableSort key l) :=
  List.sublist_insertionSort hsorted hsub

end UdpArq
