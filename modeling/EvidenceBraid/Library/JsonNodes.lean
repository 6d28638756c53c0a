import EvidenceBraid.Library.JsonRoundTrip
import EvidenceBraid.Library.JsonSize

/-!
# The nodes of a document

The nodes of a document in the order in which a stack yields them when its last item is taken and
that item's children are put in its place (`popped`), what can be said of all of them at once, and
that a document has no more of them than its text has bytes (`nodes_le_size`).
-/

namespace Json

mutual

/-- A document's nodes: the document itself, then its children's, from the last child on. -/
def popped : Json → List Json
  | .arr xs => .arr xs :: poppedItems xs
  | .obj kvs => .obj kvs :: poppedMembers kvs
  | v => [v]

def poppedItems : List Json → List Json
  | [] => []
  | x :: xs => poppedItems xs ++ popped x

def poppedMembers : List (String × Json) → List Json
  | [] => []
  | (_, x) :: kvs => poppedMembers kvs ++ popped x

end

/-- The number of a document's nodes. -/
def nodes (v : Json) : ℕ := (popped v).length

theorem length_poppedItems (xs : List Json) : (poppedItems xs).length = (xs.map nodes).sum := by
  induction xs with
  | nil => rfl
  | cons x xs ih =>
    rw [poppedItems, List.length_append, ih, List.map_cons, List.sum_cons, nodes, Nat.add_comm]

theorem length_poppedMembers (kvs : List (String × Json)) :
    (poppedMembers kvs).length = (kvs.map fun kv => nodes kv.2).sum := by
  induction kvs with
  | nil => rfl
  | cons kv kvs ih =>
    rw [poppedMembers, List.length_append, ih, List.map_cons, List.sum_cons, nodes, Nat.add_comm]

theorem nodes_arr (xs : List Json) : nodes (.arr xs) = 1 + (xs.map nodes).sum := by
  rw [nodes, popped, List.length_cons, length_poppedItems, Nat.add_comm]

/-- A dict counts once, and its values' nodes in any order. -/
theorem nodes_dict {kvs : List (String × Json)} (h : (keys kvs).Nodup) :
    nodes (dict kvs) = 1 + (kvs.map fun kv => nodes kv.2).sum := by
  have hsum := ((foldr_insertKey_perm h).map fun kv => nodes kv.2).sum_eq
  rw [nodes, dict, popped, List.length_cons, length_poppedMembers, hsum, Nat.add_comm]

/-! ## Nodes and bytes -/

theorem size_pos (v : Json) : 0 < size v := by
  have hnumeral : ∀ {t : Numeral}, t.Wf → 0 < t.text.length := by
    intro t ht
    obtain ⟨c, cs, htext, -⟩ := numeral_head ht
    rw [htext]
    exact Nat.succ_pos _
  have hdumps : 0 < (dumps v).length := by
    cases v with
    | null => rw [dumps]; decide
    | bool b => cases b <;> rw [dumps] <;> decide
    | int n => rw [dumps]; exact hnumeral (Numeral.wf_ofInt n)
    | float x => rw [dumps]; exact hnumeral (Numeral.wf_repr x)
    | str s => rw [dumps, dumpsString_eq]; exact Nat.succ_pos _
    | arr xs => rw [dumps]; exact Nat.succ_pos _
    | obj kvs => rw [dumps]; exact Nat.succ_pos _
  exact lt_of_lt_of_le hdumps (Utf8.length_le_length_encode _)

mutual

/-- **Each node takes a byte.** -/
theorem nodes_le_size : ∀ v : Json, nodes v ≤ size v
  | .arr xs => by
    have hsum := sum_nodes_le_items xs
    rw [nodes_arr]
    cases xs with
    | nil => rw [size_arr_nil]; decide
    | cons x xs => rw [size_arr_of_ne (List.cons_ne_nil x xs)]; omega
  | .obj kvs => by
    have hsum := sum_nodes_le_members kvs
    rw [nodes, popped, List.length_cons, length_poppedMembers]
    cases kvs with
    | nil => rw [size_obj_nil]; decide
    | cons kv kvs =>
      obtain ⟨k, x⟩ := kv
      rw [size_obj_cons]
      simp only [List.map_cons, List.sum_cons] at hsum ⊢
      omega
  | .null => size_pos _
  | .bool _ => size_pos _
  | .int _ => size_pos _
  | .float _ => size_pos _
  | .str _ => size_pos _

theorem sum_nodes_le_items : ∀ xs : List Json,
    (xs.map nodes).sum ≤ (xs.map fun x => size x + 1).sum
  | [] => le_rfl
  | x :: xs => by
    have hfirst := nodes_le_size x
    have hrest := sum_nodes_le_items xs
    simp only [List.map_cons, List.sum_cons]
    omega

theorem sum_nodes_le_members : ∀ kvs : List (String × Json),
    (kvs.map fun kv => nodes kv.2).sum ≤
      (kvs.map fun kv => quotedSize kv.1 + size kv.2 + 2).sum
  | [] => le_rfl
  | (k, x) :: kvs => by
    have hfirst := nodes_le_size x
    have hrest := sum_nodes_le_members kvs
    simp only [List.map_cons, List.sum_cons]
    omega

end

/-! ## All nodes -/

section All

variable {P : Json → Prop}

theorem forall_poppedItems {xs : List Json} :
    (∀ v ∈ poppedItems xs, P v) ↔ ∀ x ∈ xs, ∀ v ∈ popped x, P v := by
  induction xs with
  | nil => simp [poppedItems]
  | cons x xs ih =>
    simp only [poppedItems, List.forall_mem_append, ih, List.forall_mem_cons]
    exact and_comm

theorem forall_poppedMembers {kvs : List (String × Json)} :
    (∀ v ∈ poppedMembers kvs, P v) ↔ ∀ kv ∈ kvs, ∀ v ∈ popped kv.2, P v := by
  induction kvs with
  | nil => simp [poppedMembers]
  | cons kv kvs ih =>
    simp only [poppedMembers, List.forall_mem_append, ih, List.forall_mem_cons]
    exact and_comm

theorem forall_popped_arr {xs : List Json} :
    (∀ v ∈ popped (.arr xs), P v) ↔ P (.arr xs) ∧ ∀ x ∈ xs, ∀ v ∈ popped x, P v := by
  rw [popped, List.forall_mem_cons, forall_poppedItems]

theorem forall_popped_dict {kvs : List (String × Json)} (h : (keys kvs).Nodup) :
    (∀ v ∈ popped (dict kvs), P v) ↔ P (dict kvs) ∧ ∀ kv ∈ kvs, ∀ v ∈ popped kv.2, P v := by
  have hmem : ∀ kv, kv ∈ kvs.foldr insertKey [] ↔ kv ∈ kvs := fun _ =>
    (foldr_insertKey_perm h).mem_iff
  rw [dict, popped, List.forall_mem_cons, forall_poppedMembers]
  simp only [hmem]

end All

end Json
