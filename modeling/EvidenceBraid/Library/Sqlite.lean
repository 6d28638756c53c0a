import EvidenceBraid.Library.Utf8
import Mathlib.Algebra.GroupWithZero.Nat
import Mathlib.Algebra.Order.BigOperators.Group.List
import Mathlib.Data.List.Sort
import Mathlib.Data.List.TakeWhile
import Mathlib.Tactic.SplitIfs

/-!
# Values and tables of SQLite

* `Cell` — a value that is not `NULL`, by its storage class.
* `admitted` — what a bounded admission query over a column reports.
* `Table` — a table with an integer primary key, its rows in the order of the key. An insertion
  fails on a key that is taken (`insert_eq_some`), and one past the last key goes to the end
  (`insert_last`).
-/

namespace Sqlite

/-- A value of a column that is not `NULL`. -/
inductive Cell where
  | integer (n : ℤ)
  | real (bits : UInt64)
  | text (bytes : Bytes)
  | blob (bytes : Bytes)
  deriving DecidableEq

namespace Cell

/-- `typeof(x) = 'blob'`. -/
def isBlob : Cell → Bool
  | blob _ => true
  | _ => false

/-- `typeof(x) = 'text'`. -/
def isText : Cell → Bool
  | text _ => true
  | _ => false

/-- The length in bytes of a `BLOB`, or of a `TEXT` that is cast to one. The queries refuse other
values whatever their lengths are. -/
def size : Cell → ℕ
  | text bytes | blob bytes => bytes.length
  | _ => 0

@[simp] theorem size_blob (bytes : Bytes) : (blob bytes).size = bytes.length := rfl

@[simp] theorem size_text (bytes : Bytes) : (text bytes).size = bytes.length := rfl

theorem isBlob_iff {c : Cell} : c.isBlob = true ↔ ∃ bytes, c = blob bytes := by
  cases c <;> simp [isBlob]

theorem isText_iff {c : Cell} : c.isText = true ↔ ∃ bytes, c = text bytes := by
  cases c <;> simp [isText]

end Cell

/-- `count(*)`, `sum(length(x))`, `max(length(x))` and the count of other types are within their
bounds. -/
def admitted (kind : Cell → Bool) (cells : List Cell) (count item total : ℕ) : Bool :=
  decide (cells.length ≤ count) && decide ((cells.map Cell.size).sum ≤ total) &&
    cells.all fun c => kind c && decide (c.size ≤ item)

theorem admitted_iff {kind : Cell → Bool} {cells : List Cell} {count item total : ℕ} :
    admitted kind cells count item total = true ↔ cells.length ≤ count ∧
      (cells.map Cell.size).sum ≤ total ∧ ∀ c ∈ cells, kind c = true ∧ c.size ≤ item := by
  simp [admitted, and_assoc]

/-- Few short cells are admitted. -/
theorem admitted_of {kind : Cell → Bool} {cells : List Cell} {count bound item total : ℕ}
    (hcount : cells.length ≤ count) (h : ∀ c ∈ cells, kind c = true ∧ c.size ≤ bound)
    (hitem : bound ≤ item) (htotal : count * bound ≤ total) :
    admitted kind cells count item total = true := by
  have hsum : (cells.map Cell.size).sum ≤ (cells.map fun _ => bound).sum :=
    List.sum_le_sum fun c hc => (h c hc).2
  rw [List.map_const', List.sum_replicate_nat] at hsum
  refine admitted_iff.mpr ⟨hcount, ?_, fun c hc => ⟨(h c hc).1, (h c hc).2.trans hitem⟩⟩
  exact (hsum.trans (Nat.mul_le_mul_right bound hcount)).trans htotal

/-! ## Tables -/

/-- A table with an integer primary key that is at least zero. -/
structure Table (ρ : Type) where
  rows : List (ℕ × ρ)
  sorted : (rows.map Prod.fst).Pairwise (· < ·)

namespace Table

variable {ρ : Type}

@[ext] theorem ext {s t : Table ρ} (h : s.rows = t.rows) : s = t := by
  cases s; cases t; cases h; rfl

def empty : Table ρ := ⟨[], List.Pairwise.nil⟩

/-- The rows without their keys. -/
def values (t : Table ρ) : List ρ := t.rows.map Prod.snd

/-- The rows after an insertion, if the key is free. -/
def insertRow (k : ℕ) (r : ρ) (rows : List (ℕ × ρ)) : List (ℕ × ρ) :=
  rows.takeWhile (fun x => decide (x.1 < k)) ++ (k, r) :: rows.dropWhile fun x => decide (x.1 < k)

/-- `INSERT INTO`, which fails where the key is taken. -/
def insert (k : ℕ) (r : ρ) (t : Table ρ) : Option (Table ρ) :=
  if h : ((insertRow k r t.rows).map Prod.fst).Pairwise (· < ·) then some ⟨_, h⟩ else none

/-- An insertion keeps the rows that were there. -/
theorem insert_eq_some {k : ℕ} {r : ρ} {t u : Table ρ} (h : t.insert k r = some u) :
    u.rows.Perm ((k, r) :: t.rows) := by
  unfold insert at h
  split_ifs at h
  rw [← Option.some.inj h]
  refine List.perm_middle.trans (List.Perm.cons _ ?_)
  rw [List.takeWhile_append_dropWhile]

theorem insertRow_last {k : ℕ} {r : ρ} {rows : List (ℕ × ρ)} (h : ∀ x ∈ rows, x.1 < k) :
    insertRow k r rows = rows ++ [(k, r)] := by
  have hall : ∀ x ∈ rows, decide (x.1 < k) = true := fun x hx => decide_eq_true (h x hx)
  rw [insertRow, List.takeWhile_eq_self_iff.mpr hall, List.dropWhile_eq_nil_iff.mpr hall]

theorem sorted_last {k : ℕ} {r : ρ} {t : Table ρ} (h : ∀ x ∈ t.rows, x.1 < k) :
    ((t.rows ++ [(k, r)]).map Prod.fst).Pairwise (· < ·) := by
  rw [List.map_append, List.pairwise_append]
  refine ⟨t.sorted, by simp, ?_⟩
  intro a ha b hb
  obtain ⟨x, hx, rfl⟩ := List.mem_map.mp ha
  simp only [List.map_cons, List.map_nil, List.mem_singleton] at hb
  rw [hb]
  exact h x hx

/-- **A row past the last key goes to the end.** -/
theorem insert_last {k : ℕ} {r : ρ} {t : Table ρ} (h : ∀ x ∈ t.rows, x.1 < k) :
    t.insert k r = some ⟨t.rows ++ [(k, r)], sorted_last h⟩ := by
  have hlast := insertRow_last (r := r) h
  have hsorted : ((insertRow k r t.rows).map Prod.fst).Pairwise (· < ·) := by
    rw [hlast]
    exact sorted_last h
  rw [insert, dif_pos hsorted]
  congr 2

/-! ## Contiguous tables -/

/-- The table of these rows, with the keys `0, 1, …`. -/
def ofValues (rs : List ρ) : Table ρ where
  rows := (List.range rs.length).zip rs
  sorted := by
    rw [List.map_fst_zip (by simp)]
    exact List.pairwise_lt_range

@[simp] theorem values_ofValues (rs : List ρ) : (ofValues rs).values = rs := by
  rw [values, ofValues, List.map_snd_zip (by simp)]

@[simp] theorem length_rows_ofValues (rs : List ρ) : (ofValues rs).rows.length = rs.length := by
  simp [ofValues]

/-- The keys are `0, 1, …`. -/
def Contiguous (t : Table ρ) : Prop := t.rows.map Prod.fst = List.range t.rows.length

instance (t : Table ρ) : Decidable t.Contiguous := by unfold Contiguous; infer_instance

theorem contiguous_ofValues (rs : List ρ) : (ofValues rs).Contiguous := by
  rw [Contiguous, length_rows_ofValues, ofValues, List.map_fst_zip (by simp)]

/-- **A contiguous table is its rows.** -/
theorem eq_ofValues {t : Table ρ} (h : t.Contiguous) : t = ofValues t.values := by
  ext1
  have hlength : t.values.length = t.rows.length := List.length_map _
  have hzip : t.rows = (t.rows.map Prod.fst).zip (t.rows.map Prod.snd) := by
    rw [List.zip_map']
    simp
  change t.rows = (List.range t.values.length).zip t.values
  rw [hlength, ← h]
  exact hzip

theorem insert_ofValues (rs : List ρ) (r : ρ) :
    (ofValues rs).insert rs.length r = some (ofValues (rs ++ [r])) := by
  have hlt : ∀ x ∈ (ofValues rs).rows, x.1 < rs.length := fun x hx =>
    List.mem_range.mp (List.of_mem_zip hx).1
  rw [insert_last hlt]
  congr 1
  ext1
  simp only [ofValues, List.length_append, List.length_singleton, List.range_succ]
  rw [List.zip_append (by simp)]
  rfl

end Table

end Sqlite
