import EvidenceBraid.Library.Merkle

/-!
# Proving that one tree's leaves are a prefix of another's

Both roots are rebuilt together, bottom up, from the largest subtree that ends exactly at the
prefix's last leaf (`shared`). At each level above it a sibling joins on the left of both roots
(`true`), or on the right of the larger one only (`false`).

* `turns m n` — the sides of the siblings, bottom up, found by dividing the trees from the top.
* `walk` — the same list read off the binary digits of the two last positions (`turns_eq_walk`).
* `joins` — the two roots rebuilt; `Consistent` — what a verifier has to check.

Main results: `consistent_sound`, `consistent_honest` and `turns_eq_walk`.
-/

namespace Merkle

/-! ## The turns from the top -/

/-- The sides of the siblings between a prefix of `m` leaves and the root over `n`, bottom up. -/
def turns (m n : ℕ) : List Bool :=
  if _h : 0 < m ∧ m < n then
    if m ≤ split n then turns m (split n) ++ [false]
    else turns (m - split n) (n - split n) ++ [true]
  else []
termination_by n
decreasing_by
  · exact split_lt (by omega)
  · have := split_pos n; omega

theorem turns_self (n : ℕ) : turns n n = [] := by
  rw [turns, dif_neg (by omega)]

theorem turns_left {m n : ℕ} (hm : 0 < m) (hmn : m < n) (h : m ≤ split n) :
    turns m n = turns m (split n) ++ [false] := by
  rw [turns, dif_pos ⟨hm, hmn⟩, if_pos h]

theorem turns_right {m n : ℕ} (hmn : m < n) (h : split n < m) :
    turns m n = turns (m - split n) (n - split n) ++ [true] := by
  rw [turns, dif_pos ⟨by omega, hmn⟩, if_neg (by omega)]

/-- A tree of at most `2 ^ k` leaves has at most `k` turns. -/
theorem length_turns_le {k : ℕ} : ∀ {m n : ℕ}, n ≤ 2 ^ k → (turns m n).length ≤ k := by
  induction k with
  | zero =>
    intro m n hn
    rw [turns, dif_neg (by omega), List.length_nil]
  | succ k ih =>
    intro m n hn
    by_cases hmn : 0 < m ∧ m < n
    · have hsplit := split_le_two_pow (n := n) (by omega) hn
      have hrest := le_two_mul_split (n := n) (by omega)
      rcases Nat.lt_or_ge (split n) m with hright | hleft
      · rw [turns_right hmn.2 hright, List.length_append, List.length_singleton]
        exact Nat.succ_le_succ (ih (by omega))
      · rw [turns_left hmn.1 hmn.2 hleft, List.length_append, List.length_singleton]
        exact Nat.succ_le_succ (ih hsplit)
    · rw [turns, dif_neg hmn, List.length_nil]
      omega

/-! ## Rebuilding two roots -/

variable {D : Type} (node : D → D → D) (empty : D)

/-- One level: the sibling joins both roots on the left, or the larger tree's on the right. -/
def join (r : D × D) (p : Bool × D) : D × D :=
  if p.1 then (node p.2 r.1, node p.2 r.2) else (r.1, node r.2 p.2)

def joins (r : D × D) (path : List (Bool × D)) : D × D := path.foldl (join node) r

@[simp] theorem joins_nil (r : D × D) : joins node r [] = r := rfl

theorem joins_concat (r : D × D) (path : List (Bool × D)) (p : Bool × D) :
    joins node r (path ++ [p]) = join node (joins node r path) p := by
  simp [joins]

/-- Without a sibling on the left the smaller root stays as it is. -/
theorem joins_fst_of_right {r : D × D} {path : List (Bool × D)} (h : ∀ p ∈ path, p.1 = false) :
    (joins node r path).1 = r.1 := by
  induction path generalizing r with
  | nil => rfl
  | cons p path ih =>
    have hp : p.1 = false := h p (by simp)
    have hrest := ih (r := join node r p) fun q hq => h q (by simp [hq])
    rw [joins, List.foldl_cons]
    exact hrest.trans (by simp [join, hp])

/-- **What a verifier checks.** The path starts with the shared subtree's root, unless the prefix
is that subtree, and its siblings rebuild both roots. -/
def Consistent (m n : ℕ) (old new : D) (path : List D) : Prop :=
  if true ∈ turns m n then
    ∃ base rest, path = base :: rest ∧ rest.length = (turns m n).length ∧
      joins node (base, base) ((turns m n).zip rest) = (old, new)
  else
    path.length = (turns m n).length ∧
      joins node (old, old) ((turns m n).zip path) = (old, new)

/-- **Rebuilding both roots shows the smaller tree's leaves are a prefix of the larger one's.** -/
theorem joins_sound (hnode : Function.Injective2 node) {as bs : List D} {d : D} {path : List D}
    (hpos : 0 < as.length) (hle : as.length ≤ bs.length)
    (hlen : path.length = (turns as.length bs.length).length)
    (hroots : joins node (d, d) ((turns as.length bs.length).zip path) =
      (root node empty as, root node empty bs)) :
    as = bs.take as.length := by
  induction hn : bs.length using Nat.strong_induction_on generalizing as bs path with
  | _ n ih =>
    subst hn
    rcases Nat.eq_or_lt_of_le hle with heq | hlt
    · rw [heq, turns_self, List.zip_nil_left, joins_nil, Prod.mk.injEq] at hroots
      rw [root_inj empty hnode heq (hroots.1.symm.trans hroots.2), List.take_length]
    · have hs := split_pos bs.length
      have hs' := split_lt (n := bs.length) (by omega)
      have htop : path ≠ [] := by
        intro hnil
        rw [turns, dif_pos ⟨hpos, hlt⟩] at hlen
        split_ifs at hlen <;> simp [hnil] at hlen
      obtain ⟨below, sib, rfl⟩ : ∃ below sib, path = below ++ [sib] :=
        ⟨_, _, (List.dropLast_append_getLast htop).symm⟩
      have hbs := @root_split _ node empty bs (by omega)
      rcases Nat.lt_or_ge (split bs.length) as.length with hright | hleft
      · -- the prefix reaches into the right subtree: both roots are divided at the same place
        rw [turns_right hlt hright] at hlen hroots
        simp only [List.length_append, List.length_singleton, Nat.add_right_cancel_iff] at hlen
        have has := @root_split _ node empty as (by omega)
        rw [split_of_le hright hle] at has
        rw [List.zip_append hlen.symm, List.zip_cons_cons, List.zip_nil_right, joins_concat,
          join, if_pos rfl, has, hbs, Prod.mk.injEq] at hroots
        obtain ⟨hold, hnew⟩ := hroots
        have hshared : as.take (split bs.length) = bs.take (split bs.length) :=
          root_inj empty hnode (by simp; omega) ((hnode hold).1.symm.trans (hnode hnew).1)
        have hda : (as.drop (split bs.length)).length = as.length - split bs.length := by simp
        have hdb : (bs.drop (split bs.length)).length = bs.length - split bs.length := by simp
        have hdrop : as.drop (split bs.length) =
            (bs.drop (split bs.length)).take (as.length - split bs.length) := by
          rw [← hda]
          refine @ih _ (by omega) _ _ below (by omega) (by omega) (by rw [hda, hdb, hlen]) ?_ hdb
          rw [hda, hdb]
          exact Prod.ext (hnode hold).2 (hnode hnew).2
        conv_lhs => rw [← List.take_append_drop (split bs.length) as, hshared, hdrop]
        rw [← List.take_add, Nat.add_sub_cancel' hright.le]
      · rw [turns_left hpos hlt hleft] at hlen hroots
        simp only [List.length_append, List.length_singleton, Nat.add_right_cancel_iff] at hlen
        rw [List.zip_append hlen.symm, List.zip_cons_cons, List.zip_nil_right, joins_concat,
          join, if_neg (by simp), hbs, Prod.mk.injEq] at hroots
        obtain ⟨hold, hnew⟩ := hroots
        have htb : (bs.take (split bs.length)).length = split bs.length := by simp; omega
        have htake : as = (bs.take (split bs.length)).take as.length := by
          refine @ih _ hs' _ _ below hpos (by omega) (by rw [htb, hlen]) ?_ htb
          rw [htb]
          exact Prod.ext hold (hnode hnew).1
        rwa [List.take_take, Nat.min_eq_left hleft] at htake

/-- **An accepted path shows the prefix.** -/
theorem consistent_sound (hnode : Function.Injective2 node) {as bs : List D} {path : List D}
    (hpos : 0 < as.length) (hle : as.length ≤ bs.length)
    (h : Consistent node as.length bs.length (root node empty as) (root node empty bs) path) :
    as = bs.take as.length := by
  unfold Consistent at h
  split_ifs at h
  · obtain ⟨base, rest, rfl, hlen, hroots⟩ := h
    exact joins_sound node empty hnode hpos hle hlen hroots
  · exact joins_sound node empty hnode hpos hle h.1 h.2

/-! ## The honest path -/

/-- The root of the largest subtree that ends at the prefix's last leaf. -/
def shared (m : ℕ) (ds : List D) : D :=
  if 0 < m ∧ m < ds.length then
    if m ≤ split ds.length then shared m (ds.take (split ds.length))
    else shared (m - split ds.length) (ds.drop (split ds.length))
  else root node empty ds
termination_by ds.length
decreasing_by
  · have := split_lt (n := ds.length) (by omega)
    simp only [List.length_take]
    omega
  · have := split_pos ds.length
    simp only [List.length_drop]
    omega

/-- The siblings on the way from that subtree to the root, bottom up. -/
def joiners (m : ℕ) (ds : List D) : List D :=
  if 0 < m ∧ m < ds.length then
    if m ≤ split ds.length then
      joiners m (ds.take (split ds.length)) ++ [root node empty (ds.drop (split ds.length))]
    else
      joiners (m - split ds.length) (ds.drop (split ds.length)) ++
        [root node empty (ds.take (split ds.length))]
  else []
termination_by ds.length
decreasing_by
  · have := split_lt (n := ds.length) (by omega)
    simp only [List.length_take]
    omega
  · have := split_pos ds.length
    simp only [List.length_drop]
    omega

theorem shared_length (ds : List D) : shared node empty ds.length ds = root node empty ds := by
  rw [shared, if_neg (by omega)]

theorem shared_left {m : ℕ} {ds : List D} (hm : 0 < m) (hmn : m < ds.length)
    (h : m ≤ split ds.length) :
    shared node empty m ds = shared node empty m (ds.take (split ds.length)) := by
  rw [shared, if_pos ⟨hm, hmn⟩, if_pos h]

theorem shared_right {m : ℕ} {ds : List D} (hmn : m < ds.length) (h : split ds.length < m) :
    shared node empty m ds =
      shared node empty (m - split ds.length) (ds.drop (split ds.length)) := by
  rw [shared, if_pos ⟨by omega, hmn⟩, if_neg (by omega)]

theorem joiners_length (ds : List D) : joiners node empty ds.length ds = [] := by
  rw [joiners, if_neg (by omega)]

theorem joiners_left {m : ℕ} {ds : List D} (hm : 0 < m) (hmn : m < ds.length)
    (h : m ≤ split ds.length) :
    joiners node empty m ds = joiners node empty m (ds.take (split ds.length)) ++
      [root node empty (ds.drop (split ds.length))] := by
  rw [joiners, if_pos ⟨hm, hmn⟩, if_pos h]

theorem joiners_right {m : ℕ} {ds : List D} (hmn : m < ds.length) (h : split ds.length < m) :
    joiners node empty m ds =
      joiners node empty (m - split ds.length) (ds.drop (split ds.length)) ++
        [root node empty (ds.take (split ds.length))] := by
  rw [joiners, if_pos ⟨by omega, hmn⟩, if_neg (by omega)]

/-- **The honest siblings rebuild both roots.** -/
theorem joins_joiners {m : ℕ} {ds : List D} (hm : 0 < m) (hle : m ≤ ds.length) :
    (joiners node empty m ds).length = (turns m ds.length).length ∧
      joins node (shared node empty m ds, shared node empty m ds)
        ((turns m ds.length).zip (joiners node empty m ds)) =
          (root node empty (ds.take m), root node empty ds) := by
  induction hn : ds.length using Nat.strong_induction_on generalizing m ds with
  | _ n ih =>
    subst hn
    rcases Nat.eq_or_lt_of_le hle with rfl | hlt
    · rw [joiners_length, shared_length, turns_self, List.take_length]
      exact ⟨rfl, rfl⟩
    · have hs := split_pos ds.length
      have hs' := split_lt (n := ds.length) (by omega)
      have hroot := @root_split _ node empty ds (by omega)
      rcases Nat.lt_or_ge (split ds.length) m with hright | hleft
      · have hdb : (ds.drop (split ds.length)).length = ds.length - split ds.length := by simp
        obtain ⟨hlen, hroots⟩ := @ih _ (by omega) (m - split ds.length)
          (ds.drop (split ds.length)) (by omega) (by omega) hdb
        have htake := root_take_right node empty hright hle
        rw [joiners_right node empty hlt hright, shared_right node empty hlt hright, turns_right hlt hright, List.zip_append hlen.symm,
          List.zip_cons_cons, List.zip_nil_right, joins_concat, hroots, htake, hroot]
        exact ⟨by simp [hlen], rfl⟩
      · have htb : (ds.take (split ds.length)).length = split ds.length := by simp; omega
        obtain ⟨hlen, hroots⟩ := @ih _ hs' m (ds.take (split ds.length)) hm (by omega) htb
        rw [List.take_take, Nat.min_eq_left hleft] at hroots
        rw [joiners_left node empty hm hlt hleft, shared_left node empty hm hlt hleft,
          turns_left hm hlt hleft, List.zip_append hlen.symm, List.zip_cons_cons,
          List.zip_nil_right, joins_concat, hroots, hroot]
        exact ⟨by simp [hlen], rfl⟩

/-- The path an honest prover sends. -/
def prefixPath (m : ℕ) (ds : List D) : List D :=
  if true ∈ turns m ds.length then shared node empty m ds :: joiners node empty m ds
  else joiners node empty m ds

/-- The honest path has one digest a turn, and the shared subtree's root. -/
theorem length_prefixPath {m : ℕ} {ds : List D} (hle : m ≤ ds.length) :
    (prefixPath node empty m ds).length =
      (turns m ds.length).length + if true ∈ turns m ds.length then 1 else 0 := by
  have hlen : (joiners node empty m ds).length = (turns m ds.length).length := by
    rcases Nat.eq_zero_or_pos m with rfl | hm
    · rw [joiners, if_neg (by omega), turns, dif_neg (by omega)]
      rfl
    · exact (joins_joiners node empty hm hle).1
  unfold prefixPath
  split_ifs
  · rw [List.length_cons, hlen]
  · exact hlen

/-- **The honest path is accepted.** -/
theorem consistent_honest {m : ℕ} {ds : List D} (hm : 0 < m) (hle : m ≤ ds.length) :
    Consistent node m ds.length (root node empty (ds.take m)) (root node empty ds)
      (prefixPath node empty m ds) := by
  obtain ⟨hlen, hroots⟩ := joins_joiners node empty hm hle
  unfold Consistent prefixPath
  split_ifs with hturn
  · exact ⟨_, _, rfl, hlen, hroots⟩
  · -- no sibling joins the smaller root: the shared subtree is the prefix
    have hright : ∀ p ∈ (turns m ds.length).zip (joiners node empty m ds), p.1 = false := by
      intro p hp
      by_contra htrue
      exact hturn ((Bool.not_eq_false _).mp htrue ▸ (List.of_mem_zip hp).1)
    have hfst := joins_fst_of_right node (r := (shared node empty m ds, shared node empty m ds))
      hright
    rw [hroots] at hfst
    change root node empty (ds.take m) = shared node empty m ds at hfst
    refine ⟨hlen, ?_⟩
    conv_lhs => rw [hfst]
    exact hroots

/-! ## The turns from the bottom -/

/-- The sides of the siblings met on the way up from positions `i ≤ j` of one level, where `j` is
the last one: a last position at an even place has no sibling and is passed up. -/
def levels (i j : ℕ) : List Bool :=
  if _h : j = 0 then []
  else if i % 2 = 1 then true :: levels (i / 2) (j / 2)
  else if i = j then levels (i / 2) (j / 2)
  else false :: levels (i / 2) (j / 2)
termination_by j

theorem levels_zero (i : ℕ) : levels i 0 = [] := by rw [levels, dif_pos rfl]

theorem levels_odd {i j : ℕ} (hj : 0 < j) (hi : i % 2 = 1) :
    levels i j = true :: levels (i / 2) (j / 2) := by
  rw [levels, dif_neg (by omega), if_pos hi]

theorem levels_last {i : ℕ} (hpos : 0 < i) (hi : i % 2 = 0) :
    levels i i = levels (i / 2) (i / 2) := by
  rw [levels, dif_neg (by omega), if_neg (by omega), if_pos rfl]

theorem levels_even {i j : ℕ} (hi : i % 2 = 0) (hij : i < j) :
    levels i j = false :: levels (i / 2) (j / 2) := by
  rw [levels, dif_neg (by omega), if_neg (by omega), if_neg (by omega)]

/-- Only the root has no sibling above it. -/
theorem levels_eq_nil_iff {i j : ℕ} (hij : i ≤ j) : levels i j = [] ↔ j = 0 := by
  induction j using Nat.strong_induction_on generalizing i with
  | _ j ih =>
    rcases Nat.eq_zero_or_pos j with rfl | hj
    · simp [levels_zero]
    · rcases Nat.mod_two_eq_zero_or_one i with he | ho
      · rcases Nat.eq_or_lt_of_le hij with rfl | hlt
        · rw [levels_last hj he, ih (i / 2) (by omega) le_rfl]
          omega
        · rw [levels_even he hlt]
          simp [hj.ne']
      · rw [levels_odd hj ho]
        simp [hj.ne']

/-- Above a full left subtree there is one more sibling, on the right. -/
theorem levels_full {k : ℕ} : ∀ {i j : ℕ}, i < 2 ^ k → 2 ^ k ≤ j → j < 2 ^ (k + 1) →
    levels i j = levels i (2 ^ k - 1) ++ [false] := by
  induction k with
  | zero =>
    intro i j hi hlo hhi
    obtain rfl : i = 0 := by omega
    obtain rfl : j = 1 := by omega
    simp [levels_even, levels_zero]
  | succ k ih =>
    intro i j hi hlo hhi
    have hpos := Nat.two_pow_pos k
    rw [pow_succ] at hi hlo hhi
    rw [pow_succ] at hhi
    have hrec := ih (i := i / 2) (j := j / 2) (by omega) (by omega) (by rw [pow_succ]; omega)
    have hhalf : (2 ^ (k + 1) - 1) / 2 = 2 ^ k - 1 := by rw [pow_succ]; omega
    have hij : i < j := by omega
    rcases Nat.mod_two_eq_zero_or_one i with he | ho
    · rw [levels_even he hij, levels_even he (by rw [pow_succ]; omega), hrec, hhalf,
        List.cons_append]
    · rw [levels_odd (by omega) ho, levels_odd (by rw [pow_succ]; omega) ho, hrec, hhalf,
        List.cons_append]

/-- To the right of a full left subtree there is one more sibling, on the left. -/
theorem levels_add {k : ℕ} : ∀ {i j : ℕ}, i ≤ j → j < 2 ^ k →
    levels (2 ^ k + i) (2 ^ k + j) = levels i j ++ [true] := by
  induction k with
  | zero =>
    intro i j hij hj
    obtain rfl : j = 0 := by omega
    obtain rfl : i = 0 := by omega
    rw [levels_odd (by simp) (by simp), levels_zero, List.nil_append]
    simp [levels_zero]
  | succ k ih =>
    intro i j hij hj
    have hpos := Nat.two_pow_pos k
    rw [pow_succ] at hj
    have hrec := ih (i := i / 2) (j := j / 2) (by omega) (by omega)
    have hi2 : (2 ^ (k + 1) + i) / 2 = 2 ^ k + i / 2 := by rw [pow_succ]; omega
    have hj2 : (2 ^ (k + 1) + j) / 2 = 2 ^ k + j / 2 := by rw [pow_succ]; omega
    have hmod : (2 ^ (k + 1) + i) % 2 = i % 2 := by rw [pow_succ]; omega
    rcases Nat.mod_two_eq_zero_or_one i with he | ho
    · rcases Nat.eq_or_lt_of_le hij with rfl | hlt
      · rw [levels_last (by omega) (by omega), hi2, hrec]
        rcases Nat.eq_zero_or_pos i with rfl | hpos
        · simp [levels_zero]
        · rw [levels_last hpos he]
      · rw [levels_even (by omega) (by omega), levels_even he hlt, hi2, hj2, hrec,
          List.cons_append]
    · rw [levels_odd (by omega) (by omega), levels_odd (by omega) ho, hi2, hj2, hrec,
        List.cons_append]

/-- Pass up while the smaller tree's last position is a right child: those levels lie inside the
shared subtree. -/
def climbShared (i j : ℕ) : ℕ × ℕ :=
  if _h : i % 2 = 1 then climbShared (i / 2) (j / 2) else (i, j)
termination_by i

theorem climbShared_odd {i j : ℕ} (hi : i % 2 = 1) :
    climbShared i j = climbShared (i / 2) (j / 2) := by
  rw [climbShared, dif_pos hi]

theorem climbShared_even {i j : ℕ} (hi : i % 2 = 0) : climbShared i j = (i, j) := by
  rw [climbShared, dif_neg (by omega)]

theorem climbShared_le {i j : ℕ} (hij : i ≤ j) : (climbShared i j).1 ≤ (climbShared i j).2 := by
  induction i using Nat.strong_induction_on generalizing j with
  | _ i ih =>
    rcases Nat.mod_two_eq_zero_or_one i with he | ho
    · rwa [climbShared_even he]
    · rw [climbShared_odd ho]
      exact ih (i / 2) (by omega) (by omega)

/-- The turns above the shared subtree, from the last positions. -/
def walk (i j : ℕ) : List Bool := levels (climbShared i j).1 (climbShared i j).2

theorem walk_odd {i j : ℕ} (hi : i % 2 = 1) : walk i j = walk (i / 2) (j / 2) := by
  rw [walk, climbShared_odd hi, walk]

theorem walk_even {i j : ℕ} (hi : i % 2 = 0) : walk i j = levels i j := by
  rw [walk, climbShared_even hi]

theorem walk_full {k : ℕ} : ∀ {i j : ℕ}, i < 2 ^ k → 2 ^ k ≤ j → j < 2 ^ (k + 1) →
    walk i j = walk i (2 ^ k - 1) ++ [false] := by
  induction k with
  | zero =>
    intro i j hi hlo hhi
    rw [walk_even (by omega), walk_even (by omega), levels_full hi hlo hhi]
  | succ k ih =>
    intro i j hi hlo hhi
    rcases Nat.mod_two_eq_zero_or_one i with he | ho
    · rw [walk_even he, walk_even he, levels_full hi hlo hhi]
    · have hhalf : (2 ^ (k + 1) - 1) / 2 = 2 ^ k - 1 := by rw [pow_succ]; omega
      rw [pow_succ] at hi hlo hhi
      rw [pow_succ] at hhi
      rw [walk_odd ho, walk_odd ho, hhalf,
        ih (i := i / 2) (j := j / 2) (by omega) (by omega) (by rw [pow_succ]; omega)]

theorem walk_add {k : ℕ} : ∀ {i j : ℕ}, i < j → j < 2 ^ k →
    walk (2 ^ k + i) (2 ^ k + j) = walk i j ++ [true] := by
  induction k with
  | zero => intro i j hij hj; omega
  | succ k ih =>
    intro i j hij hj
    have hmod : (2 ^ (k + 1) + i) % 2 = i % 2 := by rw [pow_succ]; omega
    rcases Nat.mod_two_eq_zero_or_one i with he | ho
    · rw [walk_even (by omega), walk_even he, levels_add hij.le hj]
    · rw [pow_succ] at hj
      have hi2 : (2 ^ (k + 1) + i) / 2 = 2 ^ k + i / 2 := by rw [pow_succ]; omega
      have hj2 : (2 ^ (k + 1) + j) / 2 = 2 ^ k + j / 2 := by rw [pow_succ]; omega
      rw [walk_odd (by omega), walk_odd ho, hi2, hj2, ih (by omega) (by omega)]

theorem climbShared_ones (k : ℕ) : climbShared (2 ^ k - 1) (2 ^ k - 1) = (0, 0) := by
  induction k with
  | zero => exact climbShared_even rfl
  | succ k ih =>
    have hpos := Nat.two_pow_pos k
    have hhalf : (2 ^ (k + 1) - 1) / 2 = 2 ^ k - 1 := by rw [pow_succ]; omega
    rw [climbShared_odd (by rw [pow_succ]; omega), hhalf, ih]

/-- The smaller tree's index after `climbShared` depends on that tree only. -/
theorem climbShared_fst (i j j' : ℕ) : (climbShared i j).1 = (climbShared i j').1 := by
  induction i using Nat.strong_induction_on generalizing j j' with
  | _ i ih =>
    rcases Nat.mod_two_eq_zero_or_one i with he | ho
    · rw [climbShared_even he, climbShared_even he]
    · rw [climbShared_odd ho, climbShared_odd ho, ih (i / 2) (by omega) (j / 2) (j' / 2)]

theorem climbShared_add_ne {k : ℕ} : ∀ {i j : ℕ}, i + 1 < 2 ^ k →
    (climbShared (2 ^ k + i) j).1 ≠ 0 := by
  induction k with
  | zero => intro i j hi; omega
  | succ k ih =>
    intro i j hi
    have hpos := Nat.two_pow_pos k
    rw [pow_succ] at hi
    have hi2 : (2 ^ (k + 1) + i) / 2 = 2 ^ k + i / 2 := by rw [pow_succ]; omega
    rcases Nat.mod_two_eq_zero_or_one i with he | ho
    · rw [climbShared_even (by rw [pow_succ]; omega)]
      simp
    · rw [climbShared_odd (by rw [pow_succ]; omega), hi2]
      exact ih (by omega)

/-- **The turns from the top and from the bottom agree**, and the prefix is the shared subtree
exactly when its last position has passed up to zero. -/
theorem turns_eq_walk {m n : ℕ} (hm : 0 < m) (hmn : m < n) :
    turns m n = walk (m - 1) (n - 1) ∧
      (true ∈ turns m n ↔ (climbShared (m - 1) (n - 1)).1 ≠ 0) := by
  induction n using Nat.strong_induction_on generalizing m with
  | _ n ih =>
    obtain ⟨k, hlo, hhi⟩ := exists_between (n := n) (by omega)
    have hsplit := split_of_between hlo hhi
    have hpow : 2 ^ (k + 1) = 2 ^ k * 2 := pow_succ 2 k
    rcases Nat.lt_or_ge (2 ^ k) m with hright | hleft
    · obtain ⟨hturns, -⟩ := @ih (n - 2 ^ k) (by have := Nat.two_pow_pos k; omega) (m - 2 ^ k)
        (by omega) (by omega)
      have hadd := walk_add (k := k) (i := m - 2 ^ k - 1) (j := n - 2 ^ k - 1) (by omega) (by omega)
      have hne := climbShared_add_ne (k := k) (i := m - 2 ^ k - 1) (j := n - 1) (by omega)
      have hi : 2 ^ k + (m - 2 ^ k - 1) = m - 1 := by omega
      have hj : 2 ^ k + (n - 2 ^ k - 1) = n - 1 := by omega
      rw [hi, hj] at hadd
      rw [hi] at hne
      rw [turns_right hmn (by rw [hsplit]; exact hright), hsplit, hturns, hadd]
      exact ⟨rfl, by simp [hne]⟩
    · have hfull := walk_full (k := k) (i := m - 1) (j := n - 1) (by omega) (by omega) (by omega)
      rw [turns_left hm hmn (by rw [hsplit]; exact hleft), hsplit, hfull]
      rcases Nat.eq_or_lt_of_le hleft with rfl | hlt
      · rw [turns_self, walk, climbShared_ones, levels_zero,
          climbShared_fst _ _ (2 ^ k - 1), climbShared_ones]
        simp
      · obtain ⟨hturns, hmem⟩ := ih (2 ^ k) hlo hm hlt
        rw [climbShared_fst _ _ (2 ^ k - 1), ← hmem, hturns]
        simp

end Merkle
