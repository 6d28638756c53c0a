import EvidenceBraid.MembershipCodec
import EvidenceBraid.Library.JsonNodes

/-!
# What freezing admits

`freezeUnchecked` is `_freeze_json` without the checks of scalars. It admits a document exactly when
its keys are XML text, its nesting is within the attribute depth and its nodes within the budget
(`freezeUnchecked_eq_ok`). `freezeJson` admits, of these, the documents whose scalars pass their checks
(`freezeJson_eq_ok`).
-/

namespace EvidenceBraid

open Json (WellKeyed nodes popped poppedItems poppedMembers)

mutual

/-- `_freeze_json(…, validate_scalars=False)`: the frozen value and what is left of the node budget. -/
def freezeUnchecked (value : Json) (path : String) (depth budget : ℕ) : Result (Json × ℕ) := do
  valid (budget ≠ 0)
    (path ++ " exceeds the maximum JSON value count of " ++ toString maxAttributeNodes)
  let budget := budget - 1
  valid (depth ≤ maxAttributeDepth)
    (path ++ " exceeds the maximum attribute nesting depth of " ++ toString maxAttributeDepth)
  match value with
  | .null => .ok (.null, budget)
  | .bool b => .ok (.bool b, budget)
  | .int n => .ok (.int n, budget)
  | .float x => .ok (.float x, budget)
  | .str s => .ok (.str s, budget)
  | .arr xs => do
    let (items, budget) ← freezeUncheckedItems xs path 0 (depth + 1) budget
    .ok (.arr items, budget)
  | .obj kvs => do
    let (members, budget) ← freezeUncheckedMembers kvs path (depth + 1) budget
    .ok (.obj members, budget)

def freezeUncheckedItems (xs : List Json) (path : String) (index depth budget : ℕ) :
    Result (List Json × ℕ) :=
  match xs with
  | [] => .ok ([], budget)
  | x :: xs => do
    let (item, budget) ← freezeUnchecked x (path ++ "[" ++ toString index ++ "]") depth budget
    let (items, budget) ← freezeUncheckedItems xs path (index + 1) depth budget
    .ok (item :: items, budget)

def freezeUncheckedMembers (kvs : List (String × Json)) (path : String) (depth budget : ℕ) :
    Result (List (String × Json) × ℕ) :=
  match kvs with
  | [] => .ok ([], budget)
  | (k, x) :: kvs => do
    valid (isXmlCharacter k = true) (path ++ " contains a key not allowed by XML 1.0")
    let (item, budget) ← freezeUnchecked x (path ++ "." ++ k) depth budget
    let (members, budget) ← freezeUncheckedMembers kvs path depth budget
    .ok (Json.insertKey (k, item) members, budget)

end

/-- An object's keys are XML text. -/
def XmlKeys : Json → Prop
  | .obj kvs => ∀ kv ∈ kvs, isXmlCharacter kv.1 = true
  | _ => True

instance : DecidablePred XmlKeys
  | .obj kvs => inferInstanceAs (Decidable (∀ kv ∈ kvs, isXmlCharacter kv.1 = true))
  | .null | .bool _ | .int _ | .float _ | .str _ | .arr _ => .isTrue trivial

/-- A scalar that passes its check. -/
def ScalarAdmitted : Json → Prop
  | .int n => n.natAbs ≤ maxAttributeInteger
  | .str s => isXmlCharacter s = true
  | _ => True

/-! ## Shape -/

theorem scalar_eq_ok {v w : Json} {d b k : ℕ} {m m' : String} {freeze : Result (Json × ℕ)}
    (hfreeze : freeze = do
      valid (b ≠ 0) m
      valid (d ≤ maxAttributeDepth) m'
      .ok (v, b - 1))
    (hpopped : popped v = [v]) (hreach : reach v = 0) (hkeys : XmlKeys v) :
    freeze = .ok (w, k) ↔ (∀ x ∈ popped v, XmlKeys x) ∧
      d + reach v ≤ maxAttributeDepth ∧ nodes v ≤ b ∧ w = v ∧ k = b - nodes v := by
  simp only [hfreeze, bind_eq_ok, valid_eq_ok, exists_unit, Except.ok.injEq, Prod.mk.injEq, nodes,
    hpopped, hreach, List.forall_mem_singleton, List.length_singleton, Nat.add_zero]
  constructor
  · rintro ⟨hb, hd, rfl, rfl⟩
    exact ⟨hkeys, hd, Nat.one_le_iff_ne_zero.mpr hb, rfl, rfl⟩
  · rintro ⟨-, hd, hb, rfl, rfl⟩
    exact ⟨Nat.one_le_iff_ne_zero.mp hb, hd, rfl, rfl⟩

mutual

/-- **What freezing admits**, scalars aside: XML keys, within the depth and the budget. -/
theorem freezeUnchecked_eq_ok : ∀ {v w : Json} {path : String} {d b k : ℕ}, WellKeyed v →
    (freezeUnchecked v path d b = .ok (w, k) ↔ (∀ x ∈ popped v, XmlKeys x) ∧
      d + reach v ≤ maxAttributeDepth ∧ nodes v ≤ b ∧ w = v ∧ k = b - nodes v)
  | .arr xs, w, path, d, b, k, hv => by
    rw [freezeUnchecked]
    simp only [bind_eq_ok, valid_eq_ok, exists_unit, Prod.exists, Except.ok.injEq, Prod.mk.injEq]
    rw [Json.forall_popped_arr, reach, nodes, popped, List.length_cons, ← Json.forall_poppedItems]
    constructor
    · rintro ⟨hb, hd, items, left, hitems, rfl, rfl⟩
      obtain ⟨hkeys, hreach, hlength, rfl, rfl⟩ :=
        (freezeUncheckedItems_eq_ok hd (Json.wellKeyed_arr.mp hv)).mp hitems
      exact ⟨⟨trivial, hkeys⟩, hreach, by omega, rfl, by omega⟩
    · rintro ⟨⟨-, hkeys⟩, hreach, hlength, rfl, rfl⟩
      have hd : d ≤ maxAttributeDepth := by omega
      refine ⟨by omega, hd, xs, _, (freezeUncheckedItems_eq_ok hd (Json.wellKeyed_arr.mp hv)).mpr
        ⟨hkeys, hreach, by omega, rfl, rfl⟩, rfl, by omega⟩
  | .obj kvs, w, path, d, b, k, hv => by
    obtain ⟨hsorted, hall⟩ := Json.wellKeyed_obj.mp hv
    rw [freezeUnchecked]
    simp only [bind_eq_ok, valid_eq_ok, exists_unit, Prod.exists, Except.ok.injEq, Prod.mk.injEq]
    rw [popped, List.forall_mem_cons, reach, nodes, popped, List.length_cons]
    constructor
    · rintro ⟨hb, hd, members, left, hmembers, rfl, rfl⟩
      obtain ⟨hxml, hkeys, hreach, hlength, rfl, rfl⟩ :=
        (freezeUncheckedMembers_eq_ok hd hsorted hall).mp hmembers
      exact ⟨⟨hxml, hkeys⟩, hreach, by omega, rfl, by omega⟩
    · rintro ⟨⟨hxml, hkeys⟩, hreach, hlength, rfl, rfl⟩
      have hd : d ≤ maxAttributeDepth := by omega
      refine ⟨by omega, hd, kvs, _, (freezeUncheckedMembers_eq_ok hd hsorted hall).mpr
        ⟨hxml, hkeys, hreach, by omega, rfl, rfl⟩, rfl, by omega⟩
  | .null, w, path, d, b, k, _ => scalar_eq_ok (by rw [freezeUnchecked]) rfl rfl trivial
  | .bool _, w, path, d, b, k, _ => scalar_eq_ok (by rw [freezeUnchecked]) rfl rfl trivial
  | .int _, w, path, d, b, k, _ => scalar_eq_ok (by rw [freezeUnchecked]) rfl rfl trivial
  | .float _, w, path, d, b, k, _ => scalar_eq_ok (by rw [freezeUnchecked]) rfl rfl trivial
  | .str _, w, path, d, b, k, _ => scalar_eq_ok (by rw [freezeUnchecked]) rfl rfl trivial

theorem freezeUncheckedItems_eq_ok : ∀ {xs ys : List Json} {path : String} {i d b k : ℕ},
    d ≤ maxAttributeDepth → (∀ x ∈ xs, WellKeyed x) →
    (freezeUncheckedItems xs path i (d + 1) b = .ok (ys, k) ↔ (∀ x ∈ poppedItems xs, XmlKeys x) ∧
      d + reachItems xs ≤ maxAttributeDepth ∧ (poppedItems xs).length ≤ b ∧ ys = xs ∧
      k = b - (poppedItems xs).length)
  | [], ys, path, i, d, b, k, hd, _ => by
    simp only [freezeUncheckedItems, Except.ok.injEq, Prod.mk.injEq, poppedItems, List.not_mem_nil,
      false_implies, implies_true, true_and, reachItems, Nat.add_zero, List.length_nil, Nat.zero_le,
      Nat.sub_zero, hd, eq_comm]
  | x :: xs, ys, path, i, d, b, k, hd, hxs => by
    rw [freezeUncheckedItems]
    simp only [bind_eq_ok, Prod.exists, Except.ok.injEq, Prod.mk.injEq]
    rw [poppedItems, List.forall_mem_append, List.length_append, reachItems, ← nodes]
    rw [List.forall_mem_cons] at hxs
    constructor
    · rintro ⟨item, left, hitem, items, left', hitems, rfl, rfl⟩
      obtain ⟨hkx, hrx, hnx, rfl, rfl⟩ := (freezeUnchecked_eq_ok hxs.1).mp hitem
      obtain ⟨hkxs, hrxs, hnxs, rfl, rfl⟩ := (freezeUncheckedItems_eq_ok hd hxs.2).mp hitems
      exact ⟨⟨hkxs, hkx⟩, by omega, by omega, rfl, by omega⟩
    · rintro ⟨⟨hkxs, hkx⟩, hr, hn, rfl, rfl⟩
      exact ⟨x, b - nodes x, (freezeUnchecked_eq_ok hxs.1).mpr ⟨hkx, by omega, by omega, rfl, rfl⟩, xs,
        _, (freezeUncheckedItems_eq_ok hd hxs.2).mpr ⟨hkxs, by omega, by omega, rfl, rfl⟩, rfl,
        by omega⟩

theorem freezeUncheckedMembers_eq_ok : ∀ {kvs lws : List (String × Json)} {path : String}
    {d b k : ℕ}, d ≤ maxAttributeDepth → Json.KeysSorted kvs → (∀ kv ∈ kvs, WellKeyed kv.2) →
    (freezeUncheckedMembers kvs path (d + 1) b = .ok (lws, k) ↔
      (∀ kv ∈ kvs, isXmlCharacter kv.1 = true) ∧ (∀ x ∈ poppedMembers kvs, XmlKeys x) ∧
      d + reachMembers kvs ≤ maxAttributeDepth ∧ (poppedMembers kvs).length ≤ b ∧ lws = kvs ∧
      k = b - (poppedMembers kvs).length)
  | [], lws, path, d, b, k, hd, _, _ => by
    simp only [freezeUncheckedMembers, Except.ok.injEq, Prod.mk.injEq, poppedMembers,
      List.not_mem_nil, false_implies, implies_true, true_and, reachMembers, Nat.add_zero,
      List.length_nil, Nat.zero_le, Nat.sub_zero, hd, eq_comm]
  | (l, x) :: kvs, lws, path, d, b, k, hd, hsorted, hall => by
    rw [freezeUncheckedMembers]
    simp only [bind_eq_ok, valid_eq_ok, exists_unit, Prod.exists, Except.ok.injEq, Prod.mk.injEq]
    rw [poppedMembers, List.forall_mem_append, List.length_append, reachMembers, ← nodes,
      List.forall_mem_cons]
    have hx : WellKeyed x := hall (l, x) List.mem_cons_self
    have hkvs : ∀ kv ∈ kvs, WellKeyed kv.2 := fun kv hkv => hall kv (List.mem_cons_of_mem _ hkv)
    have hrest := Json.keysSorted_tail hsorted
    have hinsert : Json.insertKey (l, x) kvs = (l, x) :: kvs := by
      have hfold := Json.foldr_insertKey_of_sorted hsorted
      rwa [List.foldr_cons, Json.foldr_insertKey_of_sorted hrest] at hfold
    constructor
    · rintro ⟨hl, item, left, hitem, members, left', hmembers, rfl, rfl⟩
      obtain ⟨hkx, hrx, hnx, rfl, rfl⟩ := (freezeUnchecked_eq_ok hx).mp hitem
      obtain ⟨hxml, hkxs, hrxs, hnxs, rfl, rfl⟩ :=
        (freezeUncheckedMembers_eq_ok hd hrest hkvs).mp hmembers
      exact ⟨⟨hl, hxml⟩, ⟨hkxs, hkx⟩, by omega, by omega, hinsert, by omega⟩
    · rintro ⟨⟨hl, hxml⟩, ⟨hkxs, hkx⟩, hr, hn, rfl, rfl⟩
      exact ⟨hl, x, b - nodes x,
        (freezeUnchecked_eq_ok hx).mpr ⟨hkx, by omega, by omega, rfl, rfl⟩, kvs, _,
        (freezeUncheckedMembers_eq_ok hd hrest hkvs).mpr ⟨hxml, hkxs, by omega, by omega, rfl, rfl⟩,
        hinsert, by omega⟩

end

/-! ## Scalars -/

mutual

/-- Checked freezing is freezing of a document whose scalars pass their checks. -/
theorem freezeJson_eq_ok : ∀ {v w : Json} {path : String} {d b k : ℕ},
    freezeJson v path d b = .ok (w, k) ↔
      (∀ x ∈ popped v, ScalarAdmitted x) ∧ freezeUnchecked v path d b = .ok (w, k)
  | .arr xs, w, path, d, b, k => by
    rw [freezeJson, freezeUnchecked, popped, List.forall_mem_cons]
    simp only [bind_eq_ok, valid_eq_ok, exists_unit, Prod.exists, freezeItems_eq_ok]
    tauto
  | .obj kvs, w, path, d, b, k => by
    rw [freezeJson, freezeUnchecked, popped, List.forall_mem_cons]
    simp only [bind_eq_ok, valid_eq_ok, exists_unit, Prod.exists, freezeMembers_eq_ok]
    tauto
  | .null, w, path, d, b, k => by
    simp [freezeJson, freezeUnchecked, popped, ScalarAdmitted]
  | .bool _, w, path, d, b, k => by
    simp [freezeJson, freezeUnchecked, popped, ScalarAdmitted]
  | .float _, w, path, d, b, k => by
    simp [freezeJson, freezeUnchecked, popped, ScalarAdmitted]
  | .int n, w, path, d, b, k => by
    have hpopped : popped (.int n) = [.int n] := rfl
    rw [freezeJson, freezeUnchecked, hpopped, List.forall_mem_singleton, ScalarAdmitted]
    simp only [bind_eq_ok, valid_eq_ok, exists_unit]
    rw [and_left_comm (b := n.natAbs ≤ maxAttributeInteger),
      and_left_comm (b := n.natAbs ≤ maxAttributeInteger)]
  | .str s, w, path, d, b, k => by
    have hpopped : popped (.str s) = [.str s] := rfl
    rw [freezeJson, freezeUnchecked, hpopped, List.forall_mem_singleton, ScalarAdmitted]
    simp only [bind_eq_ok, valid_eq_ok, exists_unit]
    rw [and_left_comm (b := isXmlCharacter s = true), and_left_comm (b := isXmlCharacter s = true)]

theorem freezeItems_eq_ok : ∀ {xs ys : List Json} {path : String} {i d b k : ℕ},
    freezeItems xs path i d b = .ok (ys, k) ↔
      (∀ x ∈ poppedItems xs, ScalarAdmitted x) ∧ freezeUncheckedItems xs path i d b = .ok (ys, k)
  | [], ys, path, i, d, b, k => by
    simp [freezeItems, freezeUncheckedItems, poppedItems]
  | x :: xs, ys, path, i, d, b, k => by
    rw [freezeItems, freezeUncheckedItems, poppedItems, List.forall_mem_append]
    simp only [bind_eq_ok, Prod.exists, freezeJson_eq_ok, freezeItems_eq_ok]
    constructor
    · rintro ⟨item, left, ⟨hx, hitem⟩, items, left', ⟨hxs, hitems⟩, h⟩
      exact ⟨⟨hxs, hx⟩, item, left, hitem, items, left', hitems, h⟩
    · rintro ⟨⟨hxs, hx⟩, item, left, hitem, items, left', hitems, h⟩
      exact ⟨item, left, ⟨hx, hitem⟩, items, left', ⟨hxs, hitems⟩, h⟩

theorem freezeMembers_eq_ok : ∀ {kvs lws : List (String × Json)} {path : String} {d b k : ℕ},
    freezeMembers kvs path d b = .ok (lws, k) ↔
      (∀ x ∈ poppedMembers kvs, ScalarAdmitted x) ∧
        freezeUncheckedMembers kvs path d b = .ok (lws, k)
  | [], lws, path, d, b, k => by
    simp [freezeMembers, freezeUncheckedMembers, poppedMembers]
  | (l, x) :: kvs, lws, path, d, b, k => by
    rw [freezeMembers, freezeUncheckedMembers, poppedMembers, List.forall_mem_append]
    simp only [bind_eq_ok, valid_eq_ok, exists_unit, Prod.exists, freezeJson_eq_ok,
      freezeMembers_eq_ok]
    constructor
    · rintro ⟨hl, item, left, ⟨hx, hitem⟩, members, left', ⟨hxs, hmembers⟩, h⟩
      exact ⟨⟨hxs, hx⟩, hl, item, left, hitem, members, left', hmembers, h⟩
    · rintro ⟨⟨hxs, hx⟩, hl, item, left, hitem, members, left', hmembers, h⟩
      exact ⟨hl, item, left, ⟨hx, hitem⟩, members, left', ⟨hxs, hmembers⟩, h⟩

end

end EvidenceBraid
