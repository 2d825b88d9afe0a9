import Mathlib.Data.List.Nodup
import Mathlib.Data.List.Lattice

/-!
# Insertion-ordered dictionaries

A finite map that keeps its entries in the order in which the keys were first
inserted.  Replacing the value of a present key keeps its place; a new key goes
to the end.  Keys are unique by construction, so that lookups, iteration over
the keys and iteration over the values describe one and the same map.
-/

namespace UdpArq

universe u v

/-- An insertion-ordered map with pairwise distinct keys. -/
structure Dict (κ : Type u) (ν : Type v) where
  entries : List (κ × ν)
  nodupKeys : (entries.map Prod.fst).Nodup

namespace Dict

variable {κ : Type u} {ν : Type v}

/-- The map without entries. -/
def empty : Dict κ ν := ⟨[], List.nodup_nil⟩

instance : EmptyCollection (Dict κ ν) := ⟨empty⟩

instance : Inhabited (Dict κ ν) := ⟨empty⟩

/-- The keys in insertion order. -/
def keys (d : Dict κ ν) : List κ := d.entries.map Prod.fst

/-- The values in insertion order. -/
def values (d : Dict κ ν) : List ν := d.entries.map Prod.snd

@[simp] theorem keys_empty : (∅ : Dict κ ν).keys = [] := rfl

@[simp] theorem values_empty : (∅ : Dict κ ν).values = [] := rfl

theorem nodup_keys (d : Dict κ ν) : d.keys.Nodup := d.nodupKeys

theorem eq_empty_iff {d : Dict κ ν} : d = ∅ ↔ d.keys = [] := by
  constructor
  · rintro rfl
    rfl
  · intro h
    obtain ⟨es, hnodup⟩ := d
    have hnil : es = [] := List.map_eq_nil_iff.mp h
    subst hnil
    rfl

/-! ## Operations -/

variable [DecidableEq κ]

/-- `d.get(k)`. -/
def get? (d : Dict κ ν) (k : κ) : Option ν := d.entries.lookup k

/-- `d.get(k, default)`. -/
def getD (d : Dict κ ν) (k : κ) (default : ν) : ν := (d.get? k).getD default

/-- Replace the entry of `k` where it stands, or append a new one. -/
def setEntries (k : κ) (x : ν) : List (κ × ν) → List (κ × ν)
  | [] => [(k, x)]
  | e :: es => if e.1 = k then (k, x) :: es else e :: setEntries k x es

theorem mem_keys_setEntries {k a : κ} {x : ν} {es : List (κ × ν)} :
    a ∈ (setEntries k x es).map Prod.fst ↔ a = k ∨ a ∈ es.map Prod.fst := by
  induction es with
  | nil => simp [setEntries]
  | cons e es ih =>
      by_cases he : e.1 = k
      · simp [setEntries, he]
      · simp only [setEntries, if_neg he, List.map_cons, List.mem_cons, ih]
        tauto

theorem nodup_setEntries {k : κ} {x : ν} {es : List (κ × ν)}
    (hes : (es.map Prod.fst).Nodup) :
    ((setEntries k x es).map Prod.fst).Nodup := by
  induction es with
  | nil => simp [setEntries]
  | cons e es ih =>
      rw [List.map_cons, List.nodup_cons] at hes
      by_cases he : e.1 = k
      · rw [setEntries, if_pos he, List.map_cons, List.nodup_cons, ← he]
        exact hes
      · rw [setEntries, if_neg he, List.map_cons, List.nodup_cons]
        refine ⟨fun hmem => ?_, ih hes.2⟩
        rcases mem_keys_setEntries.mp hmem with hk | hold
        · exact he hk
        · exact hes.1 hold

/-- `d[k] = x`. -/
def set (d : Dict κ ν) (k : κ) (x : ν) : Dict κ ν :=
  ⟨setEntries k x d.entries, nodup_setEntries d.nodupKeys⟩

/-- `d.pop(k, None)`, the map that is left. -/
def erase (d : Dict κ ν) (k : κ) : Dict κ ν :=
  ⟨d.entries.filter fun e => e.1 ≠ k,
    d.nodupKeys.sublist (List.filter_sublist.map Prod.fst)⟩

/-- Pop every key of a list, one after another. -/
def eraseAll (d : Dict κ ν) (ks : List κ) : Dict κ ν :=
  ks.foldl erase d

/-- `d.setdefault(k, x)`. -/
def setdefault (d : Dict κ ν) (k : κ) (x : ν) : Dict κ ν :=
  if (d.get? k).isSome then d else d.set k x

/-- Change the value stored under `k` in place; a missing key stays missing. -/
def modify (d : Dict κ ν) (k : κ) (f : ν → ν) : Dict κ ν :=
  match d.get? k with
  | some x => d.set k (f x)
  | none => d

/-- The entries whose keys satisfy `p`. -/
def restrict (d : Dict κ ν) (p : κ → Prop) [DecidablePred p] : Dict κ ν :=
  ⟨d.entries.filter fun e => p e.1,
    d.nodupKeys.sublist (List.filter_sublist.map Prod.fst)⟩

/-! ## Lookup after each operation -/

theorem lookup_cons_eq (e : κ × ν) (es : List (κ × ν)) (a : κ) :
    (e :: es).lookup a = if a = e.1 then some e.2 else es.lookup a := by
  rw [List.lookup_cons]
  by_cases ha : a = e.1
  · simp [ha]
  · have hne : (a == e.1) = false := by simpa using ha
    rw [hne, if_neg ha]

@[simp] theorem get?_empty (k : κ) : (∅ : Dict κ ν).get? k = none := rfl

theorem lookup_setEntries (k a : κ) (x : ν) (es : List (κ × ν)) :
    (setEntries k x es).lookup a =
      if a = k then some x else es.lookup a := by
  induction es with
  | nil => rw [setEntries, lookup_cons_eq]
  | cons e es ih =>
      by_cases he : e.1 = k
      · rw [setEntries, if_pos he, lookup_cons_eq, lookup_cons_eq, he]
        split <;> rfl
      · rw [setEntries, if_neg he, lookup_cons_eq, lookup_cons_eq, ih]
        by_cases ha : a = k
        · have hne : a ≠ e.1 := fun h => he (h.symm.trans ha)
          rw [if_neg hne, if_pos ha, if_pos ha]
        · rw [if_neg ha, if_neg ha]

@[simp] theorem get?_set (d : Dict κ ν) (k a : κ) (x : ν) :
    (d.set k x).get? a = if a = k then some x else d.get? a :=
  lookup_setEntries k a x d.entries

theorem lookup_filter_ne (k a : κ) (es : List (κ × ν)) :
    (es.filter fun e => e.1 ≠ k).lookup a =
      if a = k then none else es.lookup a := by
  induction es with
  | nil => simp
  | cons e es ih =>
      by_cases he : e.1 = k
      · rw [List.filter_cons_of_neg (by simp [he]), ih, lookup_cons_eq, he]
        split <;> rfl
      · rw [List.filter_cons_of_pos (by simp [he]), lookup_cons_eq,
          lookup_cons_eq, ih]
        by_cases ha : a = k
        · have hne : a ≠ e.1 := fun h => he (h.symm.trans ha)
          rw [if_neg hne, if_pos ha, if_pos ha]
        · rw [if_neg ha, if_neg ha]

@[simp] theorem get?_erase (d : Dict κ ν) (k a : κ) :
    (d.erase k).get? a = if a = k then none else d.get? a :=
  lookup_filter_ne k a d.entries

@[simp] theorem get?_eraseAll (d : Dict κ ν) (ks : List κ) (a : κ) :
    (d.eraseAll ks).get? a = if a ∈ ks then none else d.get? a := by
  induction ks generalizing d with
  | nil => simp [eraseAll]
  | cons k ks ih =>
      have hstep : d.eraseAll (k :: ks) = (d.erase k).eraseAll ks := rfl
      rw [hstep, ih, get?_erase]
      by_cases hks : a ∈ ks <;> by_cases hk : a = k <;> simp [hks, hk]

@[simp] theorem get?_setdefault (d : Dict κ ν) (k a : κ) (x : ν) :
    (d.setdefault k x).get? a =
      if a = k then some ((d.get? k).getD x) else d.get? a := by
  unfold setdefault
  cases h : d.get? k with
  | none => simp
  | some y =>
      by_cases ha : a = k
      · simp [ha, h]
      · simp [ha]

@[simp] theorem get?_modify (d : Dict κ ν) (k a : κ) (f : ν → ν) :
    (d.modify k f).get? a =
      if a = k then (d.get? k).map f else d.get? a := by
  unfold modify
  cases h : d.get? k with
  | none =>
      by_cases ha : a = k
      · simp [ha, h]
      · simp [ha]
  | some y => simp

@[simp] theorem get?_restrict (d : Dict κ ν) (p : κ → Prop) [DecidablePred p]
    (a : κ) : (d.restrict p).get? a = if p a then d.get? a else none := by
  obtain ⟨es, hnodup⟩ := d
  simp only [get?, restrict]
  clear hnodup
  induction es with
  | nil => simp
  | cons e es ih =>
      by_cases he : p e.1
      · rw [List.filter_cons_of_pos (by simp [he]), lookup_cons_eq, ih,
          lookup_cons_eq]
        by_cases ha : a = e.1
        · simp [ha, he]
        · simp [ha]
      · rw [List.filter_cons_of_neg (by simp [he]), ih, lookup_cons_eq]
        by_cases ha : a = e.1
        · simp [ha, he]
        · simp [ha]

/-! ## Keys, values and entries -/

theorem mem_keys {d : Dict κ ν} {k : κ} :
    k ∈ d.keys ↔ ∃ x, d.get? k = some x := by
  rw [← Option.isSome_iff_exists, get?, List.lookup_isSome_iff]
  simp only [keys, List.mem_map, beq_iff_eq]
  exact ⟨fun ⟨e, he, h⟩ => ⟨e, he, h.symm⟩, fun ⟨e, he, h⟩ => ⟨e, he, h.symm⟩⟩

theorem get?_eq_none_iff {d : Dict κ ν} {k : κ} :
    d.get? k = none ↔ k ∉ d.keys := by
  rw [mem_keys]
  cases d.get? k <;> simp

theorem mem_entries {d : Dict κ ν} {k : κ} {x : ν} :
    (k, x) ∈ d.entries ↔ d.get? k = some x := by
  obtain ⟨es, hnodup⟩ := d
  simp only [get?]
  induction es with
  | nil => simp
  | cons e es ih =>
      rw [List.map_cons, List.nodup_cons] at hnodup
      rw [List.mem_cons, lookup_cons_eq, ih hnodup.2]
      by_cases hk : k = e.1
      · subst hk
        have hnone : es.lookup e.1 = none := by
          rw [List.lookup_eq_none_iff]
          intro p hp
          have hne : e.1 ≠ p.1 := fun h =>
            hnodup.1 (List.mem_map.mpr ⟨p, hp, h.symm⟩)
          simpa using hne
        simp [hnone, Prod.ext_iff, eq_comm]
      · have hne : (k, x) ≠ e := fun h => hk (by rw [← h])
        simp [hk, hne]

theorem mem_values {d : Dict κ ν} {x : ν} :
    x ∈ d.values ↔ ∃ k, d.get? k = some x := by
  simp only [values, List.mem_map, Prod.exists]
  constructor
  · rintro ⟨k, y, hmem, rfl⟩
    exact ⟨k, mem_entries.mp hmem⟩
  · rintro ⟨k, hk⟩
    exact ⟨k, x, mem_entries.mpr hk, rfl⟩

theorem keys_set_of_fresh {d : Dict κ ν} {k : κ} (x : ν)
    (hk : k ∉ d.keys) : (d.set k x).keys = d.keys ++ [k] := by
  obtain ⟨es, hnodup⟩ := d
  simp only [keys, set] at hk ⊢
  clear hnodup
  induction es with
  | nil => simp [setEntries]
  | cons e es ih =>
      rw [List.map_cons, List.mem_cons, not_or] at hk
      rw [setEntries, if_neg (fun h => hk.1 h.symm), List.map_cons, ih hk.2]
      rfl

theorem keys_erase (d : Dict κ ν) (k : κ) :
    (d.erase k).keys = d.keys.filter fun a => a ≠ k := by
  simp only [keys, erase, List.filter_map]
  rfl

theorem mem_keys_erase {d : Dict κ ν} {k a : κ} :
    a ∈ (d.erase k).keys ↔ a ∈ d.keys ∧ a ≠ k := by
  rw [keys_erase, List.mem_filter, decide_eq_true_iff]

theorem mem_keys_set {d : Dict κ ν} {k a : κ} {x : ν} :
    a ∈ (d.set k x).keys ↔ a = k ∨ a ∈ d.keys := by
  simp only [mem_keys, get?_set]
  by_cases ha : a = k <;> simp [ha]

theorem length_keys_erase {d : Dict κ ν} {k : κ} (hk : k ∈ d.keys) :
    (d.erase k).keys.length < d.keys.length := by
  rw [keys_erase]
  apply List.length_filter_lt_length_iff_exists.mpr
  exact ⟨k, hk, by simp⟩

theorem get?_of_eraseAll {d : Dict κ ν} {ks : List κ} {k : κ} {x : ν}
    (h : (d.eraseAll ks).get? k = some x) : d.get? k = some x := by
  rw [get?_eraseAll] at h
  by_cases hk : k ∈ ks
  · simp [hk] at h
  · rwa [if_neg hk] at h

theorem mem_keys_of_eraseAll {d : Dict κ ν} {ks : List κ} {k : κ}
    (h : k ∈ (d.eraseAll ks).keys) : k ∈ d.keys := by
  obtain ⟨x, hx⟩ := mem_keys.mp h
  exact mem_keys.mpr ⟨x, get?_of_eraseAll hx⟩

theorem entries_eraseAll (d : Dict κ ν) (ks : List κ) :
    (d.eraseAll ks).entries = d.entries.filter fun e => e.1 ∉ ks := by
  induction ks generalizing d with
  | nil => simp [eraseAll]
  | cons k ks ih =>
      have hstep : d.eraseAll (k :: ks) = (d.erase k).eraseAll ks := rfl
      rw [hstep, ih, erase, List.filter_filter]
      apply List.filter_congr
      intro e _
      simp [Bool.and_comm]

omit [DecidableEq κ] in
theorem ext_entries {d d' : Dict κ ν} (h : d.entries = d'.entries) :
    d = d' := by
  obtain ⟨es, _⟩ := d
  obtain ⟨es', _⟩ := d'
  cases h
  rfl

theorem eraseAll_congr (d : Dict κ ν) {ks ks' : List κ}
    (h : ∀ k, k ∈ ks ↔ k ∈ ks') : d.eraseAll ks = d.eraseAll ks' := by
  apply ext_entries
  rw [entries_eraseAll, entries_eraseAll]
  apply List.filter_congr
  intro e _
  simp only [h e.1]

theorem eraseAll_append (d : Dict κ ν) (ks ks' : List κ) :
    d.eraseAll (ks ++ ks') = (d.eraseAll ks).eraseAll ks' :=
  List.foldl_append

theorem mem_keys_eraseAll {d : Dict κ ν} {ks : List κ} {k : κ} :
    k ∈ (d.eraseAll ks).keys ↔ k ∈ d.keys ∧ k ∉ ks := by
  simp only [mem_keys, get?_eraseAll]
  by_cases hk : k ∈ ks <;> simp [hk]

theorem getD_of_ne_default {d : Dict κ ν} {k : κ} {x : ν} (h : d.getD k x ≠ x)
    (y : ν) : d.getD k y = d.getD k x := by
  unfold getD at h ⊢
  cases hget : d.get? k with
  | none => simp [hget] at h
  | some z => rfl

theorem eq_empty_of_get? {d : Dict κ ν} (h : ∀ k, d.get? k = none) :
    d = ∅ := by
  rw [eq_empty_iff, List.eq_nil_iff_forall_not_mem]
  intro k hk
  exact get?_eq_none_iff.mp (h k) hk

theorem exists_mem_of_ne_empty {d : Dict κ ν} (h : d ≠ ∅) :
    ∃ k x, d.get? k = some x := by
  by_contra hno
  push Not at hno
  exact h (eq_empty_of_get? fun k =>
    Option.eq_none_iff_forall_ne_some.mpr (hno k))

/-- Popping one key empties a map exactly if the map has no other key. -/
theorem eraseAll_singleton_eq_empty_iff {d : Dict κ ν} {k : κ}
    (hk : k ∈ d.keys) : d.eraseAll [k] = ∅ ↔ d.keys = [k] := by
  constructor
  · intro hempty
    have hall : ∀ a ∈ d.keys, a = k := by
      intro a ha
      by_contra hne
      obtain ⟨x, hx⟩ := mem_keys.mp ha
      have hget : (d.eraseAll [k]).get? a = some x := by simp [hne, hx]
      simp [hempty] at hget
    have hperm : d.keys.Perm [k] := by
      rw [List.perm_ext_iff_of_nodup d.nodup_keys (List.nodup_singleton k)]
      intro a
      rw [List.mem_singleton]
      exact ⟨hall a, fun ha => ha ▸ hk⟩
    exact List.perm_singleton.mp hperm
  · intro hkeys
    apply eq_empty_of_get?
    intro a
    rw [get?_eraseAll]
    split_ifs with ha
    · rfl
    · rw [get?_eq_none_iff, hkeys]
      exact ha

end Dict

end UdpArq
