import Mathlib.Data.List.Dedup
import Mathlib.Data.List.Sort
import Mathlib.Data.Prod.Lex

/-!
# Sorting by a key

`sorted(xs, key=…)`: a stable sort by the values of a key in a linear order. When the keys of a list
are distinct, its sort depends only on which items it has (`sortOn_eq_of_perm`), and a sorted list
that is filtered is the sort of the filtered list (`filter_sortOn`).
-/

namespace List

variable {α β : Type} [LinearOrder β] {key : α → β} {xs ys : List α}

/-- `sorted(xs, key=key)`. -/
def sortOn (key : α → β) (xs : List α) : List α := xs.insertionSort fun a b => key a ≤ key b

theorem sortOn_perm (key : α → β) (xs : List α) : (xs.sortOn key).Perm xs := perm_insertionSort _ _

@[simp] theorem sortOn_nil (key : α → β) : ([] : List α).sortOn key = [] := rfl

@[simp] theorem mem_sortOn {a : α} : a ∈ xs.sortOn key ↔ a ∈ xs := (sortOn_perm key xs).mem_iff

@[simp] theorem length_sortOn : (xs.sortOn key).length = xs.length := (sortOn_perm key xs).length_eq

theorem nodup_sortOn : (xs.sortOn key).Nodup ↔ xs.Nodup := (sortOn_perm key xs).nodup_iff

theorem pairwise_sortOn (key : α → β) (xs : List α) :
    (xs.sortOn key).Pairwise fun a b => key a ≤ key b := by
  have : Std.Total fun a b : α => key a ≤ key b := ⟨fun a b => le_total (key a) (key b)⟩
  have : IsTrans α fun a b => key a ≤ key b := ⟨fun _ _ _ => le_trans⟩
  exact pairwise_insertionSort _ xs

/-- Lists with distinct keys that are sorted and have the same items are equal. -/
theorem eq_of_perm_of_sortedOn (hperm : xs.Perm ys) (hnodup : (xs.map key).Nodup)
    (hxs : xs.Pairwise fun a b => key a ≤ key b) (hys : ys.Pairwise fun a b => key a ≤ key b) :
    xs = ys := by
  apply Perm.eq_of_pairwise _ hxs hys hperm
  intro a b ha _ hab hba
  have hb : b ∈ xs := hperm.mem_iff.mpr ‹_›
  exact inj_on_of_nodup_map hnodup ha hb (le_antisymm hab hba)

/-- **Sorting by distinct keys** forgets the order of the items. -/
theorem sortOn_eq_of_perm (hperm : xs.Perm ys) (hnodup : (xs.map key).Nodup) :
    xs.sortOn key = ys.sortOn key := by
  have hsorted := (sortOn_perm key xs).trans (hperm.trans (sortOn_perm key ys).symm)
  have hkeys : ((xs.sortOn key).map key).Nodup :=
    ((sortOn_perm key xs).map key).nodup_iff.mpr hnodup
  exact eq_of_perm_of_sortedOn hsorted hkeys (pairwise_sortOn key xs) (pairwise_sortOn key ys)

/-- Sorting values by themselves forgets their order. -/
theorem sortOn_id_eq_of_perm {xs ys : List β} (hperm : xs.Perm ys) :
    xs.sortOn id = ys.sortOn id := by
  apply Perm.eq_of_pairwise _ (pairwise_sortOn id xs) (pairwise_sortOn id ys)
  · exact (sortOn_perm id xs).trans (hperm.trans (sortOn_perm id ys).symm)
  · exact fun a b _ _ hab hba => le_antisymm hab hba

/-- A sorted list is its own sort. -/
theorem sortOn_of_pairwise (hxs : xs.Pairwise fun a b => key a ≤ key b) : xs.sortOn key = xs :=
  hxs.insertionSort_eq

/-- A map that keeps keys can be applied before sorting or after it. -/
theorem sortOn_map {γ : Type} (f : γ → α) (key : α → β) (xs : List γ) :
    (xs.map f).sortOn key = (xs.sortOn fun x => key (f x)).map f :=
  (map_insertionSort _ _ f xs fun _ _ _ _ => Iff.rfl).symm

/-- **Filtering a sorted list** sorts the filtered list. -/
theorem filter_sortOn (p : α → Bool) (hnodup : (xs.map key).Nodup) :
    (xs.sortOn key).filter p = (xs.filter p).sortOn key := by
  have hperm : ((xs.sortOn key).filter p).Perm ((xs.filter p).sortOn key) :=
    ((sortOn_perm key xs).filter p).trans (sortOn_perm key _).symm
  apply eq_of_perm_of_sortedOn hperm _ ((pairwise_sortOn key xs).filter p) (pairwise_sortOn key _)
  have hkeys : ((xs.sortOn key).map key).Nodup :=
    ((sortOn_perm key xs).map key).nodup_iff.mpr hnodup
  exact hkeys.sublist ((filter_sublist).map key)

/-- `sorted(set(xs))`. -/
def sortedSet [DecidableEq β] (xs : List β) : List β := xs.dedup.sortOn id

section SortedSet

variable [DecidableEq β] {xs ys : List β}

@[simp] theorem mem_sortedSet {b : β} : b ∈ sortedSet xs ↔ b ∈ xs := by
  rw [sortedSet, mem_sortOn, mem_dedup]

theorem nodup_sortedSet (xs : List β) : (sortedSet xs).Nodup := nodup_sortOn.mpr (nodup_dedup xs)

/-- A sorted set depends only on its members. -/
theorem sortedSet_congr (h : ∀ b, b ∈ xs ↔ b ∈ ys) : sortedSet xs = sortedSet ys := by
  apply sortOn_id_eq_of_perm
  rw [perm_ext_iff_of_nodup (nodup_dedup xs) (nodup_dedup ys)]
  simpa only [mem_dedup] using h

/-- Filtering a sorted set. -/
theorem filter_sortedSet (p : β → Bool) (xs : List β) :
    (sortedSet xs).filter p = sortedSet (xs.filter p) := by
  rw [sortedSet, filter_sortOn p (by simpa using nodup_dedup xs)]
  apply sortOn_id_eq_of_perm
  rw [perm_ext_iff_of_nodup ((nodup_dedup xs).filter p) (nodup_dedup _)]
  intro b
  simp only [mem_filter, mem_dedup]

end SortedSet

end List
