import Mathlib.Data.Nat.Log
import Mathlib.Data.List.Basic
import Mathlib.Tactic.Ring

/-!
# Merkle trees over a list of leaf digests

The tree of `n ≥ 2` leaves has the largest power of two below `n` of them on its left. The node
hash is any function of two digests, so a tree is determined by its leaves; under an injective
node hash a root determines the leaves of a tree of known size (`root_inj`).

* `split` — where a tree of `n` leaves is divided.
* `root` — the digest of the tree.
* `climb` — folding an audit path from a leaf to the root; `siblings` is the honest one.

Main results: `root_inj`, `climb_siblings` and `climb_sound`.
-/

namespace Merkle

/-! ## Where a tree is divided -/

/-- The number of binary digits of `n`. -/
def bitLength (n : ℕ) : ℕ := if n = 0 then 0 else Nat.log2 n + 1

/-- The size of the left subtree of a tree of `n ≥ 2` leaves. -/
def split (n : ℕ) : ℕ := 1 <<< (bitLength (n - 1) - 1)

theorem split_eq_pow (n : ℕ) : ∃ k, split n = 2 ^ k :=
  ⟨bitLength (n - 1) - 1, by simp [split, Nat.shiftLeft_eq]⟩

theorem split_pos (n : ℕ) : 0 < split n := by
  obtain ⟨k, hk⟩ := split_eq_pow n
  rw [hk]
  exact Nat.two_pow_pos k

/-- The division is at the power of two that a tree's size lies just above. -/
theorem split_of_between {n k : ℕ} (hlo : 2 ^ k < n) (hhi : n ≤ 2 ^ (k + 1)) :
    split n = 2 ^ k := by
  have hpos := Nat.two_pow_pos k
  have hlog : Nat.log2 (n - 1) = k :=
    (Nat.log2_eq_iff (by omega)).mpr ⟨by omega, by omega⟩
  rw [split, bitLength, if_neg (by omega), hlog, Nat.shiftLeft_eq, Nat.add_sub_cancel, one_mul]

theorem exists_between {n : ℕ} (hn : 2 ≤ n) : ∃ k, 2 ^ k < n ∧ n ≤ 2 ^ (k + 1) := by
  have hlo := Nat.log2_self_le (n := n - 1) (by omega)
  have hhi := Nat.lt_log2_self (n := n - 1)
  exact ⟨Nat.log2 (n - 1), by omega, by omega⟩

theorem split_lt {n : ℕ} (hn : 2 ≤ n) : split n < n := by
  obtain ⟨k, hlo, hhi⟩ := exists_between hn
  rwa [split_of_between hlo hhi]

theorem le_two_mul_split {n : ℕ} (hn : 2 ≤ n) : n ≤ 2 * split n := by
  obtain ⟨k, hlo, hhi⟩ := exists_between hn
  rw [split_of_between hlo hhi]
  rwa [pow_succ, mul_comm] at hhi

/-- A prefix that reaches into the right subtree is divided at the same place. -/
theorem split_of_le {m n : ℕ} (hlo : split n < m) (hmn : m ≤ n) : split m = split n := by
  have hpos := split_pos n
  obtain ⟨k, hk, hk'⟩ := exists_between (n := n) (by omega)
  have hs := split_of_between hk hk'
  rw [hs] at hlo ⊢
  exact split_of_between hlo (by omega)

/-! ## Roots -/

variable {D : Type} (node : D → D → D) (empty : D)

/-- The root digest of a tree. -/
def root : List D → D
  | [] => empty
  | [d] => d
  | d :: e :: ds =>
    let s := split (ds.length + 2)
    node (root ((d :: e :: ds).take s)) (root ((d :: e :: ds).drop s))
termination_by ds => ds.length
decreasing_by
  · have := split_lt (n := ds.length + 2) (by omega)
    simp only [List.length_take, List.length_cons]
    omega
  · have := split_pos (ds.length + 2)
    simp only [List.length_drop, List.length_cons]
    omega

@[simp] theorem root_singleton (d : D) : root node empty [d] = d := by rw [root]

theorem root_split {ds : List D} (h : 2 ≤ ds.length) :
    root node empty ds = node (root node empty (ds.take (split ds.length)))
      (root node empty (ds.drop (split ds.length))) := by
  match ds, h with
  | d :: e :: ds, _ =>
    rw [root]
    rfl

/-- A prefix that reaches into the right subtree shares the left one. -/
theorem root_take_right {m : ℕ} {ds : List D} (hright : split ds.length < m)
    (hle : m ≤ ds.length) :
    root node empty (ds.take m) = node (root node empty (ds.take (split ds.length)))
      (root node empty ((ds.drop (split ds.length)).take (m - split ds.length))) := by
  have hpos := split_pos ds.length
  have hlm : (ds.take m).length = m := by simp; omega
  rw [@root_split _ node empty (ds.take m) (by omega), hlm, split_of_le hright hle,
    List.take_take, Nat.min_eq_left hright.le, List.drop_take]

/-- The root over a left subtree that is a power of two and a right one that is no larger. -/
theorem root_append {as bs : List D} {k : ℕ} (ha : as.length = 2 ^ k) (hb : bs ≠ [])
    (hle : bs.length ≤ 2 ^ k) :
    root node empty (as ++ bs) = node (root node empty as) (root node empty bs) := by
  have hpos := Nat.two_pow_pos k
  have hbpos := List.length_pos_iff.mpr hb
  have hlen : (as ++ bs).length = 2 ^ k + bs.length := by rw [List.length_append, ha]
  have hsplit : split (as ++ bs).length = as.length := by
    rw [ha]
    exact split_of_between (by omega) (by rw [hlen, pow_succ]; omega)
  rw [root_split node empty (by omega), hsplit, List.take_left, List.drop_left]

section Injective

variable {node} (hnode : Function.Injective2 node)
include hnode

/-- **A root determines the leaves of a tree of known size.** -/
theorem root_inj {as bs : List D} (hlen : as.length = bs.length)
    (hroot : root node empty as = root node empty bs) : as = bs := by
  induction hn : as.length using Nat.strong_induction_on generalizing as bs with
  | _ n ih =>
    rcases Nat.lt_or_ge n 2 with hsmall | hbig
    · match as, bs, hlen, hn with
      | [], [], _, _ => rfl
      | [a], [b], _, _ => simpa using hroot
      | _ :: _ :: _, _, _, hn => simp at hn; omega
    · have hs := split_pos n
      have hs' := split_lt hbig
      rw [@root_split _ node empty as (by omega), @root_split _ node empty bs (by omega),
        ← hlen, hn] at hroot
      obtain ⟨hl, hr⟩ := hnode hroot
      have hleft : as.take (split n) = bs.take (split n) :=
        ih (split n) hs' (by simp [hlen]) hl (by simp [hn]; omega)
      have hright : as.drop (split n) = bs.drop (split n) :=
        ih (n - split n) (by omega) (by simp [hlen]) hr (by simp [hn])
      rw [← List.take_append_drop (split n) as, hleft, hright, List.take_append_drop]

end Injective

/-! ## Audit paths -/

/-- Fold an audit path, bottom up, from a digest. An entry is `true` when its sibling stands on
the left. -/
def climb (d : D) (path : List (Bool × D)) : D :=
  path.foldl (fun acc p => if p.1 then node p.2 acc else node acc p.2) d

@[simp] theorem climb_nil (d : D) : climb node d [] = d := rfl

theorem climb_concat (d : D) (path : List (Bool × D)) (p : Bool × D) :
    climb node d (path ++ [p]) =
      if p.1 then node p.2 (climb node d path) else node (climb node d path) p.2 := by
  simp [climb]

/-- The sides on which the siblings of a position stand, bottom up. -/
def sides (i n : ℕ) : List Bool :=
  if _h : 2 ≤ n then
    if split n ≤ i then sides (i - split n) (n - split n) ++ [true]
    else sides i (split n) ++ [false]
  else []
termination_by n
decreasing_by
  · have := split_pos n; omega
  · exact split_lt ‹_›

theorem sides_right {i n : ℕ} (hn : 2 ≤ n) (hi : split n ≤ i) :
    sides i n = sides (i - split n) (n - split n) ++ [true] := by
  rw [sides, dif_pos hn, if_pos hi]

theorem sides_left {i n : ℕ} (hn : 2 ≤ n) (hi : i < split n) :
    sides i n = sides i (split n) ++ [false] := by
  rw [sides, dif_pos hn, if_neg (by omega)]

theorem sides_small {i n : ℕ} (hn : n < 2) : sides i n = [] := by
  rw [sides, dif_neg (by omega)]

/-- The left subtree of a tree of at most `2 ^ (k + 1)` leaves has at most `2 ^ k`. -/
theorem split_le_two_pow {n k : ℕ} (hn : 2 ≤ n) (hk : n ≤ 2 ^ (k + 1)) : split n ≤ 2 ^ k := by
  obtain ⟨j, hlo, hhi⟩ := exists_between hn
  rw [split_of_between hlo hhi]
  have hjk : j < k + 1 := (Nat.pow_lt_pow_iff_right (by omega)).mp (hlo.trans_le hk)
  exact Nat.pow_le_pow_right (by omega) (by omega)

/-- A tree of at most `2 ^ k` leaves has audit paths of length at most `k`. -/
theorem length_sides_le {k : ℕ} : ∀ {i n : ℕ}, n ≤ 2 ^ k → (sides i n).length ≤ k := by
  induction k with
  | zero =>
    intro i n hn
    rw [sides_small (by omega), List.length_nil]
  | succ k ih =>
    intro i n hn
    rcases Nat.lt_or_ge n 2 with hsmall | hbig
    · rw [sides_small hsmall, List.length_nil]
      omega
    · have hsplit := split_le_two_pow hbig hn
      have hrest := le_two_mul_split hbig
      rcases Nat.lt_or_ge i (split n) with hi | hi
      · rw [sides_left hbig hi, List.length_append, List.length_singleton]
        exact Nat.succ_le_succ (ih hsplit)
      · rw [sides_right hbig hi, List.length_append, List.length_singleton]
        exact Nat.succ_le_succ (ih (by omega))

/-- The digests of the siblings of a position, bottom up. -/
def siblings (i : ℕ) (ds : List D) : List D :=
  if 2 ≤ ds.length then
    let s := split ds.length
    if s ≤ i then siblings (i - s) (ds.drop s) ++ [root node empty (ds.take s)]
    else siblings i (ds.take s) ++ [root node empty (ds.drop s)]
  else []
termination_by ds.length
decreasing_by
  · have := split_pos ds.length
    simp only [List.length_drop]
    omega
  · have := split_lt (n := ds.length) ‹_›
    simp only [List.length_take]
    omega

theorem siblings_right {i : ℕ} {ds : List D} (h : 2 ≤ ds.length) (hi : split ds.length ≤ i) :
    siblings node empty i ds = siblings node empty (i - split ds.length)
      (ds.drop (split ds.length)) ++ [root node empty (ds.take (split ds.length))] := by
  rw [siblings, if_pos h]
  exact if_pos hi

theorem siblings_left {i : ℕ} {ds : List D} (h : 2 ≤ ds.length) (hi : i < split ds.length) :
    siblings node empty i ds = siblings node empty i (ds.take (split ds.length)) ++
      [root node empty (ds.drop (split ds.length))] := by
  rw [siblings, if_pos h]
  exact if_neg (by omega)

theorem siblings_small {i : ℕ} {ds : List D} (h : ds.length < 2) :
    siblings node empty i ds = [] := by
  rw [siblings, if_neg (by omega)]

theorem length_siblings (i : ℕ) (ds : List D) :
    (siblings node empty i ds).length = (sides i ds.length).length := by
  induction hn : ds.length using Nat.strong_induction_on generalizing i ds with
  | _ n ih =>
    subst hn
    rcases Nat.lt_or_ge ds.length 2 with hsmall | hbig
    · rw [siblings_small node empty hsmall, sides_small hsmall, List.length_nil,
        List.length_nil]
    · have hs := split_pos ds.length
      have hs' := split_lt hbig
      rcases Nat.lt_or_ge i (split ds.length) with hi | hi
      · have hlen : (ds.take (split ds.length)).length = split ds.length := by simp; omega
        rw [siblings_left node empty hbig hi, sides_left hbig hi, List.length_append,
          List.length_append, ih _ hs' i _ hlen]
        rfl
      · have hlen : (ds.drop (split ds.length)).length = ds.length - split ds.length := by simp
        rw [siblings_right node empty hbig hi, sides_right hbig hi, List.length_append,
          List.length_append, ih _ (by omega) (i - split ds.length) _ hlen]
        rfl

/-- **The honest path leads from a leaf to the root.** -/
theorem climb_siblings {i : ℕ} {ds : List D} (hi : i < ds.length) :
    climb node ds[i] ((sides i ds.length).zip (siblings node empty i ds)) =
      root node empty ds := by
  induction hn : ds.length using Nat.strong_induction_on generalizing i ds with
  | _ n ih =>
    subst hn
    rcases Nat.lt_or_ge ds.length 2 with hsmall | hbig
    · obtain ⟨d, rfl⟩ := List.length_eq_one_iff.mp (show ds.length = 1 by omega)
      obtain rfl : i = 0 := by simpa using hi
      simp [sides_small]
    · have hs := split_pos ds.length
      have hs' := split_lt hbig
      rcases Nat.lt_or_ge i (split ds.length) with hlt | hge
      · have hlen : (ds.take (split ds.length)).length = split ds.length := by simp; omega
        have hrec := @ih _ hs' i (ds.take (split ds.length)) (by omega) hlen
        rw [List.getElem_take] at hrec
        rw [sides_left hbig hlt, siblings_left node empty hbig hlt,
          List.zip_append (by rw [length_siblings, hlen])]
        rw [List.zip_cons_cons, List.zip_nil_right, climb_concat, hrec, root_split node empty hbig]
        rfl
      · have hlen : (ds.drop (split ds.length)).length = ds.length - split ds.length := by simp
        have hrec := @ih _ (by omega) (i - split ds.length)
          (ds.drop (split ds.length)) (by omega) hlen
        rw [List.getElem_drop] at hrec
        simp only [Nat.add_sub_cancel' hge] at hrec
        rw [sides_right hbig hge, siblings_right node empty hbig hge,
          List.zip_append (by rw [length_siblings, hlen])]
        rw [List.zip_cons_cons, List.zip_nil_right, climb_concat, hrec, root_split node empty hbig]
        rfl

/-- **Only the leaf at a position leads to the root**, whatever the siblings on the way. -/
theorem climb_sound (hnode : Function.Injective2 node) {i : ℕ} {ds : List D} {d : D}
    {path : List D} (hi : i < ds.length) (hlen : path.length = (sides i ds.length).length)
    (hroot : climb node d ((sides i ds.length).zip path) = root node empty ds) : d = ds[i] := by
  induction hn : ds.length using Nat.strong_induction_on generalizing i ds path with
  | _ n ih =>
    subst hn
    rcases Nat.lt_or_ge ds.length 2 with hsmall | hbig
    · obtain ⟨e, rfl⟩ := List.length_eq_one_iff.mp (show ds.length = 1 by omega)
      obtain rfl : i = 0 := by simpa using hi
      simpa [sides_small] using hroot
    · have hs := split_pos ds.length
      have hs' := split_lt hbig
      -- the last sibling joins at the top, where the true root is divided
      have htop : path ≠ [] := by
        intro hnil
        rw [sides, dif_pos hbig] at hlen
        split_ifs at hlen <;> simp [hnil] at hlen
      obtain ⟨below, sib, rfl⟩ : ∃ below sib, path = below ++ [sib] :=
        ⟨_, _, (List.dropLast_append_getLast htop).symm⟩
      rw [root_split node empty hbig] at hroot
      rcases Nat.lt_or_ge i (split ds.length) with hlt | hge
      · rw [sides_left hbig hlt] at hlen hroot
        simp only [List.length_append, List.length_singleton, Nat.add_right_cancel_iff] at hlen
        rw [List.zip_append hlen.symm, List.zip_cons_cons, List.zip_nil_right,
          climb_concat] at hroot
        have hltake : (ds.take (split ds.length)).length = split ds.length := by simp; omega
        have hget := @ih _ hs' i (ds.take (split ds.length)) below
          (by omega) (by rw [hltake, hlen]) (by rw [hltake]; exact (hnode hroot).1) hltake
        rwa [List.getElem_take] at hget
      · rw [sides_right hbig hge] at hlen hroot
        simp only [List.length_append, List.length_singleton, Nat.add_right_cancel_iff] at hlen
        rw [List.zip_append hlen.symm, List.zip_cons_cons, List.zip_nil_right,
          climb_concat] at hroot
        have hldrop : (ds.drop (split ds.length)).length = ds.length - split ds.length := by simp
        have hget := @ih _ (by omega) (i - split ds.length) (ds.drop (split ds.length)) below
          (by omega) (by rw [hldrop, hlen])
          (by rw [hldrop]; exact (hnode hroot).2) hldrop
        rw [List.getElem_drop] at hget
        simpa only [Nat.add_sub_cancel' hge] using hget

end Merkle
