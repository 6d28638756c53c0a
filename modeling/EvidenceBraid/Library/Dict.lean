import Mathlib.Algebra.BigOperators.Group.List.Basic
import Mathlib.Algebra.GroupWithZero.Nat
import Mathlib.Data.List.Nodup

/-!
# Insertion-ordered dicts

A dict is its items in insertion order, each key once. Setting a present key replaces its value in
place; a new key goes to the end.
-/

/-- An insertion-ordered dict. -/
structure Dict (κ α : Type) where
  items : List (κ × α)
  nodup : (items.map Prod.fst).Nodup

namespace Dict

variable {κ α : Type} [DecidableEq κ]

def keys (d : Dict κ α) : List κ := d.items.map Prod.fst

def values (d : Dict κ α) : List α := d.items.map Prod.snd

def empty : Dict κ α := ⟨[], List.nodup_nil⟩

/-- The value of a key. -/
def get? (d : Dict κ α) (k : κ) : Option α := d.items.lookup k

/-- Replace the value of a present key, or add the key at the end. -/
def setItems (k : κ) (a : α) : List (κ × α) → List (κ × α)
  | [] => [(k, a)]
  | (l, b) :: rest => if l = k then (k, a) :: rest else (l, b) :: setItems k a rest

theorem map_fst_setItems (k : κ) (a : α) (kvs : List (κ × α)) :
    (setItems k a kvs).map Prod.fst =
      if k ∈ kvs.map Prod.fst then kvs.map Prod.fst else kvs.map Prod.fst ++ [k] := by
  induction kvs with
  | nil => simp [setItems]
  | cons lb rest ih =>
    obtain ⟨l, b⟩ := lb
    by_cases hl : l = k
    · simp [setItems, hl]
    · simp only [setItems, if_neg hl, List.map_cons, ih, List.mem_cons, Ne.symm hl, false_or]
      split_ifs <;> simp

/-- `d[k] = a`. -/
def set (d : Dict κ α) (k : κ) (a : α) : Dict κ α where
  items := setItems k a d.items
  nodup := by
    rw [map_fst_setItems]
    split_ifs with hk
    · exact d.nodup
    · exact List.nodup_append.mpr ⟨d.nodup, List.nodup_singleton k, by
        intro x hx y hy
        rw [List.mem_singleton] at hy
        exact fun hxy => hk (hy ▸ hxy ▸ hx)⟩

/-- The dict that these assignments make, in their order. -/
def ofItems (items : List (κ × α)) : Dict κ α := items.foldl (fun d kv => d.set kv.1 kv.2) empty

@[simp] theorem get?_empty (k : κ) : (empty : Dict κ α).get? k = none := rfl

theorem get?_set (d : Dict κ α) (k l : κ) (a : α) :
    (d.set k a).get? l = if l = k then some a else d.get? l := by
  have hitems : ∀ kvs : List (κ × α),
      (setItems k a kvs).lookup l = if l = k then some a else kvs.lookup l := by
    intro kvs
    induction kvs with
    | nil => by_cases hl : l = k <;> simp [setItems, List.lookup_cons, List.lookup_nil, hl, beq_eq_false_iff_ne.mpr]
    | cons mb rest ih =>
      obtain ⟨m, b⟩ := mb
      by_cases hm : m = k
      · subst hm
        by_cases hl : l = m
        · simp [setItems, hl]
        · simp [setItems, List.lookup_cons, hl, beq_eq_false_iff_ne.mpr hl]
      · by_cases hl : l = m
        · subst hl
          simp [setItems, hm]
        · simp [setItems, List.lookup_cons, hm, beq_eq_false_iff_ne.mpr hl, ih]
  exact hitems d.items

@[simp] theorem get?_set_self (d : Dict κ α) (k : κ) (a : α) : (d.set k a).get? k = some a := by
  rw [get?_set, if_pos rfl]

theorem get?_set_ne (d : Dict κ α) {k l : κ} (h : l ≠ k) (a : α) :
    (d.set k a).get? l = d.get? l := by
  rw [get?_set, if_neg h]

/-- A key's value is one of its dict's items. -/
theorem mem_items_iff (d : Dict κ α) {k : κ} {a : α} : (k, a) ∈ d.items ↔ d.get? k = some a := by
  obtain ⟨items, hnodup⟩ := d
  change (k, a) ∈ items ↔ items.lookup k = some a
  induction items with
  | nil => simp
  | cons lb rest ih =>
    obtain ⟨l, b⟩ := lb
    obtain ⟨hl, hrest⟩ := List.nodup_cons.mp hnodup
    by_cases hk : k = l
    · subst hk
      have hnot : (k, a) ∉ rest := fun h => hl (List.mem_map.mpr ⟨_, h, rfl⟩)
      simp [hnot, eq_comm]
    · simp [List.lookup_cons, beq_eq_false_iff_ne.mpr hk, hk, ih hrest]

theorem mem_keys_iff (d : Dict κ α) {k : κ} : k ∈ d.keys ↔ (d.get? k).isSome := by
  rw [keys, List.mem_map, Option.isSome_iff_exists]
  constructor
  · rintro ⟨⟨l, a⟩, h, rfl⟩
    exact ⟨a, d.mem_items_iff.mp h⟩
  · rintro ⟨a, h⟩
    exact ⟨(k, a), d.mem_items_iff.mpr h, rfl⟩

/-- A sum over the values changes by the value that is set. -/
theorem sum_values_set (d : Dict κ α) (f : α → ℕ) (k : κ) (a : α) :
    ((d.set k a).values.map f).sum + ((d.get? k).map f).getD 0 = (d.values.map f).sum + f a := by
  have hitems : ∀ kvs : List (κ × α), (kvs.map Prod.fst).Nodup →
      (((setItems k a kvs).map Prod.snd).map f).sum + ((kvs.lookup k).map f).getD 0 =
        ((kvs.map Prod.snd).map f).sum + f a := by
    intro kvs hnodup
    induction kvs with
    | nil => simp [setItems]
    | cons lb rest ih =>
      obtain ⟨l, b⟩ := lb
      obtain ⟨-, hrest⟩ := List.nodup_cons.mp hnodup
      by_cases hl : l = k
      · subst hl
        simp [setItems]
        omega
      · have hrec := ih hrest
        simp only [setItems, if_neg hl, List.map_cons, List.sum_cons, List.lookup_cons,
          beq_eq_false_iff_ne.mpr (Ne.symm hl)]
        omega
  exact hitems d.items d.nodup

end Dict
