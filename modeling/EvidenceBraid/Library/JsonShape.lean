import EvidenceBraid.Library.JsonDepth
import EvidenceBraid.Library.JsonNodes

/-!
# Documents of a bounded height whose nodes are all of a kind

What a reader with a bound on the nesting and a test of every node asks of a document, built along
the document: a leaf passes the test, an array or a dict does and is one higher than its parts.
-/

namespace Json

theorem heightItems_le {xs : List Json} {n : ℕ} (h : ∀ x ∈ xs, height x ≤ n) :
    heightItems xs ≤ n := by
  induction xs with
  | nil => exact Nat.zero_le _
  | cons x xs ih =>
    rw [List.forall_mem_cons] at h
    exact max_le h.1 (ih h.2)

theorem heightMembers_le {kvs : List (String × Json)} {n : ℕ} (h : ∀ kv ∈ kvs, height kv.2 ≤ n) :
    heightMembers kvs ≤ n := by
  induction kvs with
  | nil => exact Nat.zero_le _
  | cons kv kvs ih =>
    rw [List.forall_mem_cons] at h
    exact max_le h.1 (ih h.2)

theorem height_arr_le {xs : List Json} {n : ℕ} (h : ∀ x ∈ xs, height x ≤ n) :
    height (.arr xs) ≤ n + 1 := by
  rw [height]
  exact Nat.add_le_add_right (heightItems_le h) 1

theorem height_dict_le {kvs : List (String × Json)} {n : ℕ} (hnodup : (keys kvs).Nodup)
    (h : ∀ kv ∈ kvs, height kv.2 ≤ n) : height (dict kvs) ≤ n + 1 := by
  rw [dict, height]
  exact Nat.add_le_add_right (heightMembers_le fun kv hkv =>
    h kv ((foldr_insertKey_perm hnodup).mem_iff.mp hkv)) 1

/-- A readable document of bounded height, all of whose nodes pass a test. -/
structure Shape (hooks : Hooks) (P : Json → Prop) (v : Json) (n : ℕ) : Prop where
  readable : Readable hooks v
  height_le : height v ≤ n
  admitted : ∀ w ∈ popped v, P w

namespace Shape

variable {hooks : Hooks} {P : Json → Prop} {n : ℕ}

theorem mono {v : Json} {m : ℕ} (h : Shape hooks P v m) (hle : m ≤ n) : Shape hooks P v n :=
  ⟨h.readable, h.height_le.trans hle, h.admitted⟩

/-- A document without children. -/
theorem leaf {v : Json} (hpopped : popped v = [v]) (hreadable : Readable hooks v)
    (hheight : height v = 0) (h : P v) : Shape hooks P v n := by
  refine ⟨hreadable, hheight.le.trans (Nat.zero_le n), ?_⟩
  rw [hpopped]
  exact List.forall_mem_singleton.mpr h

theorem str {s : String} (h : P (.str s)) : Shape hooks P (.str s) n :=
  leaf rfl (readable_str s) rfl h

theorem arr {xs : List Json} (hself : P (.arr xs)) (h : ∀ x ∈ xs, Shape hooks P x n) :
    Shape hooks P (.arr xs) (n + 1) where
  readable := readable_arr.mpr fun x hx => (h x hx).readable
  height_le := height_arr_le fun x hx => (h x hx).height_le
  admitted := forall_popped_arr.mpr ⟨hself, fun x hx => (h x hx).admitted⟩

theorem dict {kvs : List (String × Json)} (hnodup : (keys kvs).Nodup) (hself : P (Json.dict kvs))
    (h : ∀ kv ∈ kvs, Shape hooks P kv.2 n) : Shape hooks P (Json.dict kvs) (n + 1) where
  readable := readable_dict fun kv hkv => (h kv hkv).readable
  height_le := height_dict_le hnodup fun kv hkv => (h kv hkv).height_le
  admitted := (forall_popped_dict hnodup).mpr ⟨hself, fun kv hkv => (h kv hkv).admitted⟩

end Shape

end Json
