import EvidenceBraid.Library.JsonNodes
import EvidenceBraid.Library.JsonLayout

/-!
# Setting a member of an object

`assign` replaces the value of a key, or adds the key in its place. What an object says of all its
members, and the number of its nodes, change by the one member.
-/

namespace Json

/-- `d[k] = v`. -/
def assign (k : String) (v : Json) (kvs : List (String × Json)) : List (String × Json) :=
  insertKey (k, v) (kvs.filter fun kv => kv.1 ≠ k)

/-- A new key is added among the others. -/
theorem insertKey_perm {k : String} {v : Json} {kvs : List (String × Json)} (h : k ∉ keys kvs) :
    (insertKey (k, v) kvs).Perm ((k, v) :: kvs) := by
  induction kvs with
  | nil => exact .refl _
  | cons lw kvs ih =>
    rw [keys, List.map_cons, List.mem_cons, not_or] at h
    rw [insertKey]
    rcases lt_trichotomy k lw.1 with hlt | heq | hgt
    · rw [if_pos hlt]
    · exact absurd heq h.1
    · rw [if_neg hgt.not_gt, if_pos hgt]
      exact ((ih h.2).cons lw).trans (.swap _ _ _)

theorem not_mem_keys_filter (k : String) (kvs : List (String × Json)) :
    k ∉ keys (kvs.filter fun kv => kv.1 ≠ k) := by
  intro h
  obtain ⟨kv, hkv, hk⟩ := List.mem_map.mp h
  exact of_decide_eq_true (List.mem_filter.mp hkv).2 hk

theorem assign_perm (k : String) (v : Json) (kvs : List (String × Json)) :
    (assign k v kvs).Perm ((k, v) :: kvs.filter fun kv => kv.1 ≠ k) :=
  insertKey_perm (not_mem_keys_filter k kvs)

theorem mem_assign {k : String} {v : Json} {kvs : List (String × Json)} {x : String × Json} :
    x ∈ assign k v kvs ↔ x = (k, v) ∨ x ∈ kvs ∧ x.1 ≠ k := by
  rw [(assign_perm k v kvs).mem_iff, List.mem_cons, List.mem_filter, decide_eq_true_eq]

theorem keysSorted_assign {k : String} {v : Json} {kvs : List (String × Json)} (h : KeysSorted kvs) :
    KeysSorted (assign k v kvs) := by
  apply keysSorted_insertKey
  exact List.Pairwise.sublist (List.filter_sublist.map Prod.fst) h

theorem get?_assign (k : String) (v : Json) (kvs : List (String × Json)) (l : String) :
    get? (assign k v kvs) l = if l = k then some v else get? kvs l := by
  rw [assign, get?_insertKey (not_mem_keys_filter k kvs)]
  by_cases hl : l = k
  · rw [if_pos hl, if_pos hl]
  · rw [if_neg hl, if_neg hl]
    induction kvs with
    | nil => rfl
    | cons mw kvs ih =>
      by_cases hm : mw.1 = k
      · rw [List.filter_cons_of_neg (by simp [hm]), ih, get?_cons, if_neg (hm ▸ hl)]
      · rw [List.filter_cons_of_pos (by simp [hm]), get?_cons, get?_cons, ih]

theorem keys_assign {k : String} {v : Json} {kvs : List (String × Json)} {l : String} :
    l ∈ keys (assign k v kvs) ↔ l = k ∨ l ∈ keys kvs := by
  rw [mem_keys_iff, get?_assign, mem_keys_iff]
  by_cases hl : l = k <;> simp [hl]

theorem wellKeyed_assign {k : String} {v : Json} {kvs : List (String × Json)} (hv : WellKeyed v)
    (h : WellKeyed (.obj kvs)) : WellKeyed (.obj (assign k v kvs)) := by
  obtain ⟨hsorted, hall⟩ := wellKeyed_obj.mp h
  refine wellKeyed_obj.mpr ⟨keysSorted_assign hsorted, fun kv hkv => ?_⟩
  rcases mem_assign.mp hkv with rfl | ⟨hkv, -⟩
  · exact hv
  · exact hall kv hkv

/-! ## Nodes -/

theorem nodes_obj (kvs : List (String × Json)) :
    nodes (.obj kvs) = 1 + (kvs.map fun kv => nodes kv.2).sum := by
  rw [nodes, popped, List.length_cons, length_poppedMembers, Nat.add_comm]

theorem forall_popped_obj {P : Json → Prop} {kvs : List (String × Json)} :
    (∀ v ∈ popped (.obj kvs), P v) ↔ P (.obj kvs) ∧ ∀ kv ∈ kvs, ∀ v ∈ popped kv.2, P v := by
  rw [popped, List.forall_mem_cons, forall_poppedMembers]

theorem nodes_assign (k : String) (v : Json) (kvs : List (String × Json)) :
    nodes (.obj (assign k v kvs)) =
      1 + nodes v + ((kvs.filter fun kv => kv.1 ≠ k).map fun kv => nodes kv.2).sum := by
  rw [nodes_obj, ((assign_perm k v kvs).map fun kv => nodes kv.2).sum_eq, List.map_cons,
    List.sum_cons, Nat.add_assoc]

/-- A new member adds its nodes. -/
theorem nodes_assign_new {k : String} {v : Json} {kvs : List (String × Json)} (h : k ∉ keys kvs) :
    nodes (.obj (assign k v kvs)) = nodes (.obj kvs) + nodes v := by
  have hall : kvs.filter (fun kv => kv.1 ≠ k) = kvs := by
    apply List.filter_eq_self.mpr
    exact fun kv hkv => decide_eq_true fun hk => h (hk ▸ List.mem_map_of_mem hkv)
  rw [nodes_assign, hall, nodes_obj]
  omega

/-- A replaced member changes the number by its own nodes. -/
theorem nodes_assign_old {k : String} {v w : Json} {kvs : List (String × Json)}
    (hnodup : (keys kvs).Nodup) (h : get? kvs k = some w) :
    nodes (.obj (assign k v kvs)) + nodes w = nodes (.obj kvs) + nodes v := by
  have hback : assign k w kvs |>.Perm kvs := by
    apply (List.perm_ext_iff_of_nodup _ hnodup.of_map).mpr
    · rintro ⟨l, x⟩
      rw [mem_assign, mem_iff_get? hnodup, Prod.mk.injEq]
      constructor
      · rintro (⟨rfl, rfl⟩ | ⟨hx, -⟩)
        · exact h
        · exact hx
      · intro hx
        by_cases hl : l = k
        · subst hl
          exact .inl ⟨rfl, Option.some.inj (hx.symm.trans h)⟩
        · exact .inr ⟨hx, hl⟩
    · have hperm := assign_perm k w kvs
      rw [hperm.nodup_iff]
      refine List.nodup_cons.mpr ⟨fun hmem => ?_, hnodup.of_map.filter _⟩
      exact not_mem_keys_filter k kvs (List.mem_map_of_mem hmem)
  have hold := ((hback.map fun kv => nodes kv.2)).sum_eq
  have hassign := nodes_assign k w kvs
  rw [nodes_obj, hold] at hassign
  rw [nodes_assign, nodes_obj]
  omega

/-! ## Sorted keys -/

mutual

/-- A document has sorted keys if all of its objects have. -/
theorem wellKeyed_iff_popped : ∀ v : Json,
    WellKeyed v ↔ ∀ item ∈ popped v, ∀ kvs, item = .obj kvs → KeysSorted kvs
  | .null | .bool _ | .int _ | .float _ | .str _ => by simp [popped]
  | .arr xs => by
    rw [wellKeyed_arr, forall_popped_arr, wellKeyedItems_iff_popped xs]
    simp
  | .obj kvs => by
    rw [wellKeyed_obj, forall_popped_obj, wellKeyedMembers_iff_popped kvs]
    simp

theorem wellKeyedItems_iff_popped : ∀ xs : List Json, (∀ x ∈ xs, WellKeyed x) ↔
    ∀ x ∈ xs, ∀ item ∈ popped x, ∀ kvs, item = .obj kvs → KeysSorted kvs
  | [] => by simp
  | x :: xs => by
    rw [List.forall_mem_cons, List.forall_mem_cons, wellKeyed_iff_popped x, wellKeyedItems_iff_popped xs]

theorem wellKeyedMembers_iff_popped : ∀ kvs : List (String × Json), (∀ kv ∈ kvs, WellKeyed kv.2) ↔
    ∀ kv ∈ kvs, ∀ item ∈ popped kv.2, ∀ lws, item = .obj lws → KeysSorted lws
  | [] => by simp
  | (k, x) :: kvs => by
    rw [List.forall_mem_cons, List.forall_mem_cons, wellKeyed_iff_popped x, wellKeyedMembers_iff_popped kvs]

end

end Json
