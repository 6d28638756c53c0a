import EvidenceBraid.CommitmentProof

/-!
# The membership wire format

`_preflight` bounds a parsed graph by its work, its depth, its scalar bytes and its integers, and
by nothing else (`preflight_eq_ok`). So a bundle that `to_bytes` admits is read back by
`from_bytes` (`fromBytes_toBytes`).
-/

namespace EvidenceBraid

open Hashing
open Json (WellKeyed)

/-! ## Graph admission, exactly -/

mutual

/-- The nodes of a graph, object keys included. -/
def graphWork : Json → ℕ
  | .arr xs => graphWorkItems xs + 1
  | .obj kvs => graphWorkMembers kvs + kvs.length + 1
  | .null | .bool _ | .int _ | .float _ | .str _ => 1

def graphWorkItems : List Json → ℕ
  | [] => 0
  | x :: xs => graphWork x + graphWorkItems xs

def graphWorkMembers : List (String × Json) → ℕ
  | [] => 0
  | (_, x) :: kvs => graphWork x + graphWorkMembers kvs

end

/-- The bytes of an object's keys. -/
def keyBytes : List (String × Json) → ℕ
  | [] => 0
  | (k, _) :: kvs => (Utf8.encode k.toList).length + keyBytes kvs

mutual

/-- The bytes of the keys and scalars of a graph. -/
def scalarBytes : Json → ℕ
  | .null | .bool _ => 5
  | .int n => (Numeral.ofInt n).text.length
  | .float x => (Numeral.repr x).text.length
  | .str s => (Utf8.encode s.toList).length
  | .arr xs => scalarBytesItems xs
  | .obj kvs => keyBytes kvs + scalarBytesMembers kvs

def scalarBytesItems : List Json → ℕ
  | [] => 0
  | x :: xs => scalarBytes x + scalarBytesItems xs

def scalarBytesMembers : List (String × Json) → ℕ
  | [] => 0
  | (_, x) :: kvs => scalarBytes x + scalarBytesMembers kvs

end

mutual

/-- How far below a value its deepest item is. -/
def reach : Json → ℕ
  | .arr xs => reachItems xs
  | .obj kvs => reachMembers kvs
  | .null | .bool _ | .int _ | .float _ | .str _ => 0

def reachItems : List Json → ℕ
  | [] => 0
  | x :: xs => max (reach x + 1) (reachItems xs)

def reachMembers : List (String × Json) → ℕ
  | [] => 0
  | (_, x) :: kvs => max (reach x + 1) (reachMembers kvs)

end

mutual

/-- Every integer is within the attribute bound. -/
def SmallIntegers : Json → Prop
  | .int n => n.natAbs ≤ maxAttributeInteger
  | .arr xs => SmallIntegersItems xs
  | .obj kvs => SmallIntegersMembers kvs
  | .null | .bool _ | .float _ | .str _ => True

def SmallIntegersItems : List Json → Prop
  | [] => True
  | x :: xs => SmallIntegers x ∧ SmallIntegersItems xs

def SmallIntegersMembers : List (String × Json) → Prop
  | [] => True
  | (_, x) :: kvs => SmallIntegers x ∧ SmallIntegersMembers kvs

end

theorem textSize_eq_ok {s : String} {remaining size : ℕ} :
    textSize s remaining = .ok size ↔
      s.toList.length ≤ remaining ∧ (Utf8.encode s.toList).length = size := by
  simp only [textSize, bind_eq_ok, valid_eq_ok, exists_unit, Except.ok.injEq]

/-- A text has no more characters than bytes. -/
theorem length_le_encode (cs : List Char) : cs.length ≤ (Utf8.encode cs).length := by
  induction cs with
  | nil => exact Nat.le_refl _
  | cons c cs ih =>
    have hc := c.utf8Size_pos
    rw [Utf8.encode_cons, List.length_append, String.length_utf8EncodeChar, List.length_cons]
    omega

/-- A text that still fits. -/
theorem textSize_settle {s : String} {n b : ℕ} {w' : Work} :
    (∃ size, textSize s (maxBundleBytes - b) = .ok size ∧ Work.settle ⟨n, b + size⟩ = .ok w') ↔
      b + (Utf8.encode s.toList).length ≤ maxBundleBytes ∧
        w' = ⟨n, b + (Utf8.encode s.toList).length⟩ := by
  have hs := length_le_encode s.toList
  simp only [textSize_eq_ok, Work.settle, bind_eq_ok, valid_eq_ok, exists_unit, Except.ok.injEq]
  constructor
  · rintro ⟨size, ⟨-, rfl⟩, hle, rfl⟩
    exact ⟨hle, rfl⟩
  · rintro ⟨hle, rfl⟩
    exact ⟨_, ⟨by omega, rfl⟩, hle, rfl⟩

namespace Work

@[simp] theorem settle_eq_ok {w w' : Work} :
    w.settle = .ok w' ↔ w.bytes ≤ maxBundleBytes ∧ w' = w := by
  simp only [settle, bind_eq_ok, valid_eq_ok, exists_unit, Except.ok.injEq, @eq_comm _ w w']

theorem eq_of_keys {kvs : List (String × Json)} : ∀ {w u : Work}, w.keys kvs = .ok u →
    u = { w with bytes := w.bytes + keyBytes kvs } := by
  induction kvs with
  | nil =>
    intro w u h
    simpa [keys, keyBytes] using h.symm
  | cons kv kvs ih =>
    obtain ⟨k, x⟩ := kv
    intro w u h
    simp only [keys, bind_eq_ok, textSize_eq_ok] at h
    obtain ⟨size, ⟨-, rfl⟩, hu⟩ := h
    rw [ih hu]
    simp [keyBytes, Nat.add_assoc]

theorem keys_of_le {kvs : List (String × Json)} : ∀ {w : Work},
    w.bytes + keyBytes kvs ≤ maxBundleBytes →
      w.keys kvs = .ok { w with bytes := w.bytes + keyBytes kvs } := by
  induction kvs with
  | nil => intro w _; rfl
  | cons kv kvs ih =>
    obtain ⟨k, x⟩ := kv
    intro w h
    have hk := length_le_encode k.toList
    rw [keyBytes] at h
    have hsize : textSize k (maxBundleBytes - w.bytes) = .ok (Utf8.encode k.toList).length :=
      textSize_eq_ok.mpr ⟨by omega, rfl⟩
    rw [keys, hsize]
    simp only [bind, Except.bind]
    rw [ih (by change _ + _ + _ ≤ _; omega), keyBytes]
    simp [Nat.add_assoc]

/-- The keys of an object, when what they take still fits. -/
theorem keys_settle {kvs : List (String × Json)} {w w' : Work} :
    (∃ u, w.keys kvs = .ok u ∧ u.settle = .ok w') ↔
      w.bytes + keyBytes kvs ≤ maxBundleBytes ∧
        w' = { w with bytes := w.bytes + keyBytes kvs } := by
  constructor
  · rintro ⟨u, hu, hsettle⟩
    obtain rfl := eq_of_keys hu
    exact settle_eq_ok.mp hsettle
  · rintro ⟨hle, rfl⟩
    exact ⟨_, keys_of_le hle, settle_eq_ok.mpr ⟨hle, rfl⟩⟩

end Work

theorem graphWork_pos (v : Json) : 0 < graphWork v := by
  cases v <;> simp [graphWork]

theorem length_le_graphWorkItems (xs : List Json) : xs.length ≤ graphWorkItems xs := by
  induction xs with
  | nil => exact Nat.le_refl _
  | cons x xs ih =>
    have hx := graphWork_pos x
    rw [graphWorkItems, List.length_cons]
    omega

theorem length_le_graphWorkMembers (kvs : List (String × Json)) :
    kvs.length ≤ graphWorkMembers kvs := by
  induction kvs with
  | nil => exact Nat.le_refl _
  | cons kv kvs ih =>
    obtain ⟨k, x⟩ := kv
    have hx := graphWork_pos x
    rw [graphWorkMembers, List.length_cons]
    omega

/-- What admission asks of the work done before and of what an item adds to it. -/
structure Fits (w : Work) (nodes bytes depth : ℕ) (small : Prop) : Prop where
  nodes_le : w.nodes + nodes ≤ maxJsonNodes
  bytes_le : w.bytes + bytes ≤ maxBundleBytes
  depth_le : depth ≤ maxJsonDepth
  small : small

/-- The work after an item. -/
def Work.plus (w : Work) (nodes bytes : ℕ) : Work := ⟨w.nodes + nodes, w.bytes + bytes⟩

/-- One item, and then the rest. -/
theorem fits_add {w w' : Work} {n m b c d e : ℕ} {P Q : Prop} :
    (∃ u, (Fits w n b d P ∧ u = w.plus n b) ∧ Fits u m c e Q ∧ w' = u.plus m c) ↔
      Fits w (n + m) (b + c) (max d e) (P ∧ Q) ∧ w' = w.plus (n + m) (b + c) := by
  constructor
  · rintro ⟨u, ⟨⟨hn, hb, hd, hp⟩, rfl⟩, ⟨hm, hc, he, hq⟩, rfl⟩
    simp only [Work.plus] at hm hc
    exact ⟨⟨by omega, by omega, by omega, hp, hq⟩, by simp [Work.plus, Nat.add_assoc]⟩
  · rintro ⟨⟨hn, hb, hd, hp, hq⟩, rfl⟩
    exact ⟨_, ⟨⟨by omega, by omega, by omega, hp⟩, rfl⟩,
      ⟨by simp only [Work.plus]; omega, by simp only [Work.plus]; omega, by omega, hq⟩,
      by simp [Work.plus, Nat.add_assoc]⟩

/-- A scalar adds one node and its bytes. -/
theorem fits_scalar {w w' : Work} {depth bytes : ℕ} {P : Prop} :
    (w.nodes + 1 ≤ maxJsonNodes ∧ depth ≤ maxJsonDepth) ∧ P ∧ w.bytes + bytes ≤ maxBundleBytes ∧
        w' = ⟨w.nodes + 1, w.bytes + bytes⟩ ↔
      Fits w 1 bytes depth P ∧ w' = w.plus 1 bytes := by
  constructor
  · rintro ⟨⟨hn, hd⟩, hp, hb, rfl⟩
    exact ⟨⟨hn, hb, hd, hp⟩, rfl⟩
  · rintro ⟨⟨hn, hb, hd, hp⟩, rfl⟩
    exact ⟨⟨hn, hd⟩, hp, hb, rfl⟩

/-- A container adds its own nodes and bytes, and then its items'. -/
theorem fits_container {w w' : Work} {n b m c depth below : ℕ} {Q : Prop} (hn : 0 < n) :
    (w.nodes + 1 ≤ maxJsonNodes ∧ depth ≤ maxJsonDepth) ∧
        (w.nodes + n ≤ maxJsonNodes ∧ w.bytes + b ≤ maxBundleBytes ∧
          Fits (w.plus n b) m c (depth + below) Q ∧ w' = (w.plus n b).plus m c) ↔
      Fits w (m + n) (b + c) (depth + below) Q ∧ w' = w.plus (m + n) (b + c) := by
  simp only [Work.plus]
  constructor
  · rintro ⟨-, -, -, ⟨hm, hc, hd, hq⟩, rfl⟩
    exact ⟨⟨by simp only at hm; omega, by simp only at hc; omega, hd, hq⟩, by
      simp only [Work.mk.injEq]; omega⟩
  · rintro ⟨⟨hm, hc, hd, hq⟩, rfl⟩
    exact ⟨⟨by omega, by omega⟩, by omega, by omega,
      ⟨by simp only; omega, by simp only; omega, hd, hq⟩, by simp only [Work.mk.injEq]; omega⟩

mutual

/-- **`_preflight` is exact**: it admits a graph when its work, scalars, depth and integers are
within their bounds. -/
theorem preflightItem_eq_ok : ∀ (v : Json) {depth : ℕ} {w w' : Work},
    preflightItem v depth w = .ok w' ↔
      Fits w (graphWork v) (scalarBytes v) (depth + reach v) (SmallIntegers v) ∧
        w' = w.plus (graphWork v) (scalarBytes v)
  | .null, depth, w, w' => by
    rw [preflightItem, bind_eq_ok]
    simp only [valid_eq_ok, exists_unit, Work.settle_eq_ok, graphWork, scalarBytes, reach,
      SmallIntegers, ← fits_scalar, true_and, Nat.add_zero]
  | .bool _, depth, w, w' => by
    rw [preflightItem, bind_eq_ok]
    simp only [valid_eq_ok, exists_unit, Work.settle_eq_ok, graphWork, scalarBytes, reach,
      SmallIntegers, ← fits_scalar, true_and, Nat.add_zero]
  | .int n, depth, w, w' => by
    rw [preflightItem, bind_eq_ok]
    simp only [valid_eq_ok, exists_unit, bind_eq_ok, Work.settle_eq_ok, graphWork, scalarBytes,
      reach, SmallIntegers, ← fits_scalar, Nat.add_zero]
  | .float x, depth, w, w' => by
    rw [preflightItem, bind_eq_ok]
    simp only [valid_eq_ok, exists_unit, Work.settle_eq_ok, graphWork, scalarBytes, reach,
      SmallIntegers, ← fits_scalar, true_and, Nat.add_zero]
  | .str s, depth, w, w' => by
    rw [preflightItem, bind_eq_ok]
    simp only [valid_eq_ok, exists_unit, bind_eq_ok, textSize_settle, graphWork, scalarBytes,
      reach, SmallIntegers, ← fits_scalar, true_and, Nat.add_zero]
  | .arr xs, depth, w, w' => by
    have hlen := length_le_graphWorkItems xs
    have hitems := fun h => @preflightItems_eq_ok xs depth (w.plus 1 0) w' h
    rw [preflightItem, bind_eq_ok]
    simp only [valid_eq_ok, exists_unit, bind_eq_ok, Work.settle_eq_ok, graphWork, scalarBytes,
      reach, SmallIntegers]
    rw [← Nat.zero_add (scalarBytesItems xs), ← fits_container (by omega)]
    refine and_congr_right fun ⟨hn, hd⟩ => ?_
    constructor
    · rintro ⟨-, u, ⟨hb, rfl⟩, h⟩
      exact ⟨hn, hb, (hitems ⟨hn, hb, hd, trivial⟩).mp h⟩
    · rintro ⟨-, hb, h⟩
      have := h.1.nodes_le
      simp only [Work.plus] at this
      exact ⟨by omega, _, ⟨hb, rfl⟩, (hitems ⟨hn, hb, hd, trivial⟩).mpr h⟩
  | .obj kvs, depth, w, w' => by
    have hlen := length_le_graphWorkMembers kvs
    have hmembers := fun h =>
      @preflightMembers_eq_ok kvs depth (w.plus (kvs.length + 1) (keyBytes kvs)) w' h
    rw [preflightItem, bind_eq_ok]
    simp only [valid_eq_ok, exists_unit, bind_eq_ok, graphWork, scalarBytes, reach, SmallIntegers]
    have hplus : (⟨w.nodes + 1 + kvs.length, w.bytes + keyBytes kvs⟩ : Work) =
        w.plus (kvs.length + 1) (keyBytes kvs) := by
      simp only [Work.plus, Work.mk.injEq, and_true]
      omega
    rw [Nat.add_assoc (graphWorkMembers kvs), ← fits_container (by omega)]
    refine and_congr_right fun ⟨hn, hd⟩ => ?_
    constructor
    · rintro ⟨hle, u, hu, v, hv, h⟩
      obtain ⟨hb, rfl⟩ := Work.keys_settle.mp ⟨u, hu, hv⟩
      have hn' : w.nodes + (kvs.length + 1) ≤ maxJsonNodes := by omega
      exact ⟨hn', hb, (hmembers ⟨hn', hb, hd, trivial⟩).mp (hplus ▸ h)⟩
    · rintro ⟨hn', hb, h⟩
      have hnodes := h.1.nodes_le
      simp only [Work.plus] at hnodes
      obtain ⟨u, hu, hv⟩ := (@Work.keys_settle kvs ⟨w.nodes + 1 + kvs.length, w.bytes⟩ _).mpr
        ⟨hb, rfl⟩
      exact ⟨by omega, u, hu, _, hv, hplus ▸ (hmembers ⟨hn', hb, hd, trivial⟩).mpr h⟩

theorem preflightItems_eq_ok : ∀ (xs : List Json) {depth : ℕ} {w w' : Work},
    Fits w 0 0 depth True →
      (preflightItems xs (depth + 1) w = .ok w' ↔
        Fits w (graphWorkItems xs) (scalarBytesItems xs) (depth + reachItems xs)
          (SmallIntegersItems xs) ∧ w' = w.plus (graphWorkItems xs) (scalarBytesItems xs))
  | [], depth, w, w', hw => by
    simp [preflightItems, graphWorkItems, scalarBytesItems, reachItems, SmallIntegersItems, hw,
      Work.plus, @eq_comm _ w w']
  | x :: xs, depth, w, w', hw => by
    have hmax : depth + max (reach x + 1) (reachItems xs) =
        max (depth + 1 + reach x) (depth + reachItems xs) := by omega
    rw [preflightItems, bind_eq_ok]
    simp only [preflightItem_eq_ok x, graphWorkItems, scalarBytesItems, reachItems,
      SmallIntegersItems, hmax]
    rw [← fits_add]
    refine exists_congr fun u => and_congr_right fun ⟨hfits, hu⟩ => ?_
    subst hu
    exact preflightItems_eq_ok xs ⟨hfits.nodes_le, hfits.bytes_le, hw.depth_le, trivial⟩

theorem preflightMembers_eq_ok : ∀ (kvs : List (String × Json)) {depth : ℕ} {w w' : Work},
    Fits w 0 0 depth True →
      (preflightMembers kvs (depth + 1) w = .ok w' ↔
        Fits w (graphWorkMembers kvs) (scalarBytesMembers kvs) (depth + reachMembers kvs)
          (SmallIntegersMembers kvs) ∧ w' = w.plus (graphWorkMembers kvs) (scalarBytesMembers kvs))
  | [], depth, w, w', hw => by
    simp [preflightMembers, graphWorkMembers, scalarBytesMembers, reachMembers,
      SmallIntegersMembers, hw, Work.plus, @eq_comm _ w w']
  | (k, x) :: kvs, depth, w, w', hw => by
    have hmax : depth + max (reach x + 1) (reachMembers kvs) =
        max (depth + 1 + reach x) (depth + reachMembers kvs) := by omega
    rw [preflightMembers, bind_eq_ok]
    simp only [preflightItem_eq_ok x, graphWorkMembers, scalarBytesMembers, reachMembers,
      SmallIntegersMembers, hmax]
    rw [← fits_add]
    refine exists_congr fun u => and_congr_right fun ⟨hfits, hu⟩ => ?_
    subst hu
    exact preflightMembers_eq_ok kvs ⟨hfits.nodes_le, hfits.bytes_le, hw.depth_le, trivial⟩

end

/-- `_preflight` admits a graph by its measures alone. -/
theorem preflight_eq_ok {v : Json} : preflight v = .ok () ↔
    graphWork v ≤ maxJsonNodes ∧ scalarBytes v ≤ maxBundleBytes ∧ reach v ≤ maxJsonDepth ∧
      SmallIntegers v := by
  simp only [preflight, bind_eq_ok, preflightItem_eq_ok, and_true]
  constructor
  · rintro ⟨w, ⟨hn, hb, hd, hs⟩, -⟩
    exact ⟨by simpa using hn, by simpa using hb, by simpa using hd, hs⟩
  · rintro ⟨hn, hb, hd, hs⟩
    exact ⟨_, ⟨by simpa using hn, by simpa using hb, by simpa using hd, hs⟩, rfl⟩

/-! ## Parts of admitted graphs -/

theorem measures_le_items {xs : List Json} {x : Json} (hx : x ∈ xs) :
    graphWork x ≤ graphWorkItems xs ∧ scalarBytes x ≤ scalarBytesItems xs ∧
      reach x + 1 ≤ reachItems xs ∧ (SmallIntegersItems xs → SmallIntegers x) := by
  induction xs with
  | nil => simp at hx
  | cons y xs ih =>
    simp only [graphWorkItems, scalarBytesItems, reachItems, SmallIntegersItems]
    rcases List.mem_cons.mp hx with rfl | hx
    · exact ⟨by omega, by omega, by omega, fun h => h.1⟩
    · obtain ⟨hw, hs, hr, hi⟩ := ih hx
      exact ⟨by omega, by omega, by omega, fun h => hi h.2⟩

theorem measures_le_members {kvs : List (String × Json)} {kv : String × Json} (hkv : kv ∈ kvs) :
    graphWork kv.2 ≤ graphWorkMembers kvs ∧ scalarBytes kv.2 ≤ scalarBytesMembers kvs ∧
      reach kv.2 + 1 ≤ reachMembers kvs ∧ (SmallIntegersMembers kvs → SmallIntegers kv.2) := by
  induction kvs with
  | nil => simp at hkv
  | cons lw kvs ih =>
    obtain ⟨l, y⟩ := lw
    simp only [graphWorkMembers, scalarBytesMembers, reachMembers, SmallIntegersMembers]
    rcases List.mem_cons.mp hkv with rfl | hkv
    · exact ⟨Nat.le_add_right _ _, Nat.le_add_right _ _, Nat.le_max_left _ _, fun h => h.1⟩
    · obtain ⟨hw, hs, hr, hi⟩ := ih hkv
      exact ⟨by omega, by omega, by omega, fun h => hi h.2⟩

theorem preflight_item {xs : List Json} (h : preflight (.arr xs) = .ok ()) :
    ∀ x ∈ xs, preflight x = .ok () := by
  intro x hx
  obtain ⟨hw, hs, hr, hi⟩ := preflight_eq_ok.mp h
  obtain ⟨hw', hs', hr', hi'⟩ := measures_le_items hx
  simp only [graphWork, scalarBytes, reach] at hw hs hr
  exact preflight_eq_ok.mpr ⟨by omega, by omega, by omega, hi' hi⟩

theorem preflight_member {kvs : List (String × Json)} (h : preflight (.obj kvs) = .ok ()) :
    ∀ kv ∈ kvs, preflight kv.2 = .ok () := by
  intro kv hkv
  obtain ⟨hw, hs, hr, hi⟩ := preflight_eq_ok.mp h
  obtain ⟨hw', hs', hr', hi'⟩ := measures_le_members hkv
  simp only [graphWork, scalarBytes, reach] at hw hs hr
  exact preflight_eq_ok.mpr ⟨by omega, by omega, by omega, hi' hi⟩

/-! ## Measures of documents -/

mutual

/-- A graph is nested at most one container deeper than its deepest item. -/
theorem height_le_reach : ∀ v : Json, v.height ≤ reach v + 1
  | .null | .bool _ | .int _ | .float _ | .str _ => Nat.zero_le _
  | .arr xs => by
    rw [Json.height, reach]
    exact Nat.succ_le_succ (heightItems_le_reach xs)
  | .obj kvs => by
    rw [Json.height, reach]
    exact Nat.succ_le_succ (heightMembers_le_reach kvs)

theorem heightItems_le_reach : ∀ xs : List Json, Json.heightItems xs ≤ reachItems xs
  | [] => Nat.zero_le _
  | x :: xs => by
    have hx := height_le_reach x
    have hxs := heightItems_le_reach xs
    rw [Json.heightItems, reachItems]
    omega

theorem heightMembers_le_reach : ∀ kvs : List (String × Json),
    Json.heightMembers kvs ≤ reachMembers kvs
  | [] => Nat.zero_le _
  | (k, x) :: kvs => by
    have hx := height_le_reach x
    have hkvs := heightMembers_le_reach kvs
    rw [Json.heightMembers, reachMembers]
    omega

end

mutual

/-- The keys and scalars of a graph fit in its canonical text. -/
theorem scalarBytes_le_size : ∀ v : Json, scalarBytes v ≤ v.size + 1
  | .null => by decide
  | .bool true => by decide
  | .bool false => by decide
  | .int n => by
    rw [scalarBytes, Json.size, Json.dumps, Json.length_encode_text (Numeral.wf_ofInt n)]
    omega
  | .float x => by
    rw [scalarBytes, Json.size, Json.dumps, Json.length_encode_text (Numeral.wf_repr x)]
    omega
  | .str s => by
    have hs := Json.length_encode_le_quotedSize s
    rw [scalarBytes, Json.size_str]
    omega
  | .arr [] => by
    rw [Json.size_arr_nil]
    decide
  | .arr (x :: xs) => by
    have hx := scalarBytes_le_size x
    have hxs := scalarBytesItems_le_size xs
    rw [scalarBytes, scalarBytesItems, Json.size_arr_cons]
    omega
  | .obj [] => by
    rw [Json.size_obj_nil]
    decide
  | .obj ((k, x) :: kvs) => by
    have hk := Json.length_encode_le_quotedSize k
    have hx := scalarBytes_le_size x
    have hkvs := scalarBytesMembers_le_size kvs
    rw [scalarBytes, scalarBytesMembers, keyBytes, Json.size_obj_cons]
    omega

theorem scalarBytesItems_le_size : ∀ xs : List Json,
    scalarBytesItems xs ≤ (xs.map fun x => x.size + 1).sum
  | [] => Nat.le_refl _
  | x :: xs => by
    have hx := scalarBytes_le_size x
    have hxs := scalarBytesItems_le_size xs
    rw [scalarBytesItems, List.map_cons, List.sum_cons]
    omega

theorem scalarBytesMembers_le_size : ∀ kvs : List (String × Json),
    keyBytes kvs + scalarBytesMembers kvs ≤
      (kvs.map fun kv => Json.quotedSize kv.1 + kv.2.size + 2).sum
  | [] => Nat.le_refl _
  | (k, x) :: kvs => by
    have hk := Json.length_encode_le_quotedSize k
    have hx := scalarBytes_le_size x
    have hkvs := scalarBytesMembers_le_size kvs
    rw [keyBytes, scalarBytesMembers, List.map_cons, List.sum_cons]
    change _ ≤ Json.quotedSize k + x.size + 2 + _
    omega

end

mutual

/-- What is frozen is nested within the attribute depth, and its integers are bounded. -/
theorem freezeJson_measures : ∀ {v w : Json} {path : String} {d b k : ℕ},
    freezeJson v path d b = .ok (w, k) → d + reach v ≤ maxAttributeDepth ∧ SmallIntegers v
  | v, w, path, d, b, k, h => by
    rw [freezeJson] at h
    simp only [bind_eq_ok, valid_eq_ok, exists_and_left, exists_unit] at h
    obtain ⟨-, hd, h⟩ := h
    cases v with
    | int n =>
      simp only [bind_eq_ok, valid_eq_ok, exists_unit] at h
      exact ⟨hd, h.1⟩
    | arr xs =>
      simp only [bind_eq_ok, Prod.exists] at h
      obtain ⟨items, _, hitems, -⟩ := h
      exact freezeItems_measures hd hitems
    | obj kvs =>
      simp only [bind_eq_ok, Prod.exists] at h
      obtain ⟨members, _, hmembers, -⟩ := h
      exact freezeMembers_measures hd hmembers
    | null => exact ⟨hd, trivial⟩
    | bool => exact ⟨hd, trivial⟩
    | float x => exact ⟨hd, trivial⟩
    | str s => exact ⟨hd, trivial⟩

theorem freezeItems_measures : ∀ {xs ys : List Json} {path : String} {i d b k : ℕ},
    d ≤ maxAttributeDepth → freezeItems xs path i (d + 1) b = .ok (ys, k) →
      d + reachItems xs ≤ maxAttributeDepth ∧ SmallIntegersItems xs
  | [], ys, path, i, d, b, k, hd, h => ⟨hd, trivial⟩
  | x :: xs, ys, path, i, d, b, k, hd, h => by
    rw [freezeItems] at h
    simp only [bind_eq_ok, Prod.exists] at h
    obtain ⟨item, _, hitem, items, _, hitems, -⟩ := h
    obtain ⟨hx, hsx⟩ := freezeJson_measures hitem
    obtain ⟨hxs, hsxs⟩ := freezeItems_measures hd hitems
    rw [reachItems]
    exact ⟨by omega, hsx, hsxs⟩

theorem freezeMembers_measures : ∀ {kvs lws : List (String × Json)} {path : String} {d b k : ℕ},
    d ≤ maxAttributeDepth → freezeMembers kvs path (d + 1) b = .ok (lws, k) →
      d + reachMembers kvs ≤ maxAttributeDepth ∧ SmallIntegersMembers kvs
  | [], lws, path, d, b, k, hd, h => ⟨hd, trivial⟩
  | (l, x) :: kvs, lws, path, d, b, k, hd, h => by
    rw [freezeMembers] at h
    simp only [bind_eq_ok, valid_eq_ok, Prod.exists] at h
    obtain ⟨-, -, item, _, hitem, members, _, hmembers, -⟩ := h
    obtain ⟨hx, hsx⟩ := freezeJson_measures hitem
    obtain ⟨hkvs, hskvs⟩ := freezeMembers_measures hd hmembers
    rw [reachMembers]
    exact ⟨by omega, hsx, hskvs⟩

end

variable {D : Type} [Hashing D]

theorem smallIntegers_nat {n : ℕ} (h : n ≤ maxLedgerEntries) : SmallIntegers (.int n) := by
  have hmax : maxLedgerEntries ≤ maxAttributeInteger := by decide +kernel
  exact h.trans hmax

/-- A receipt's document is one container deeper than its event's. -/
theorem LedgerEntry.measures_toDict (e : LedgerEntry D) (h : e.sequence < maxLedgerEntries) :
    reach e.toDict ≤ maxAttributeDepth + 1 ∧ SmallIntegers e.toDict := by
  obtain ⟨left, hfrozen⟩ := e.event.frozen
  obtain ⟨hreach, hsmall⟩ := freezeJson_measures hfrozen
  rw [Nat.zero_add] at hreach
  rw [e.toDict_eq]
  refine ⟨?_, trivial, hsmall, trivial, trivial, smallIntegers_nat h.le, trivial⟩
  simp only [reach, reachMembers] at hreach ⊢
  unfold maxAttributeDepth at *
  omega

theorem measures_hashes (ds : List D) :
    graphWorkItems (ds.map fun d => .str (hex d)) = ds.length ∧
      reachItems (ds.map fun d => .str (hex d)) ≤ 1 ∧
        SmallIntegersItems (ds.map fun d => .str (hex d)) := by
  induction ds with
  | nil => exact ⟨rfl, Nat.zero_le _, trivial⟩
  | cons d ds ih =>
    obtain ⟨hw, hr, hs⟩ := ih
    simp only [List.map_cons, graphWorkItems, reachItems, SmallIntegersItems, graphWork, reach,
      SmallIntegers, List.length_cons]
    exact ⟨by omega, by omega, trivial, hs⟩

theorem LedgerCommitment.measures_toDict (c : LedgerCommitment D) :
    graphWork c.toDict = 17 ∧ reach c.toDict = 1 ∧ SmallIntegers c.toDict := by
  rw [c.toDict_eq]
  exact ⟨rfl, rfl, trivial, smallIntegers_nat c.count_le, trivial, trivial, trivial, trivial,
    trivial, trivial, trivial⟩

/-- A supported ledger version is a text of three characters. -/
theorem LedgerCommitment.version_eq (c : LedgerCommitment D) :
    c.ledgerVersion = "1.0" ∨ c.ledgerVersion = "2.0" := by
  have h := c.genesis_eq
  unfold versions? at h
  split_ifs at h with h1 h2
  · exact .inl h1
  · exact .inr h2

/-- A header takes at most 700 bytes. -/
theorem LedgerCommitment.size_toDict_le [WideHex D] (c : LedgerCommitment D) :
    Json.size c.toDict ≤ 700 := by
  have hversion : Json.quotedSize c.ledgerVersion = 5 := by
    rcases c.version_eq with h | h <;> rw [h] <;> exact Json.quotedSize_literal rfl
  have hcount : Json.size (.int c.entryCount) ≤ 6 :=
    Json.size_nat_le (by omega) (c.count_le.trans_lt (by decide))
  rw [c.toDict_eq]
  refine (Json.size_obj_le _).trans ?_
  simp only [List.map_cons, List.map_nil, List.sum_cons, List.sum_nil, Json.size_str,
    quotedSize_hex, hversion]
  have hkeys : Json.quotedSize "commitment_digest" = 19 ∧ Json.quotedSize "entry_count" = 13 ∧
      Json.quotedSize "genesis" = 9 ∧ Json.quotedSize "head_digest" = 13 ∧
      Json.quotedSize "kind" = 6 ∧ Json.quotedSize "evidence-braid-ledger-commitment" = 34 ∧
      Json.quotedSize "ledger_version" = 16 ∧ Json.quotedSize "root_hash" = 11 ∧
      Json.quotedSize "schema_version" = 16 ∧ Json.quotedSize "1.0" = 5 := by
    and_intros <;> exact Json.quotedSize_literal rfl
  simp only [hkeys]
  clear hkeys
  omega

mutual

/-- Sorted keys and bounded integers are all that the reader's hooks ask. -/
theorem readable_of_smallIntegers : ∀ {v : Json}, WellKeyed v → SmallIntegers v →
    Json.Readable LedgerMembershipBundle.hooks v
  | .null, _, _ => trivial
  | .bool _, _, _ => trivial
  | .int n, _, hs => by
    have hdigits : (Nat.toDigits 10 n.natAbs).length ≤ maxAttributeIntegerDigits := by
      have hlt : n.natAbs < 10 ^ maxAttributeIntegerDigits := by
        have hpos : 0 < 10 ^ maxAttributeIntegerDigits := Nat.pow_pos (by omega)
        have hle : n.natAbs ≤ 10 ^ maxAttributeIntegerDigits - 1 := hs
        omega
      exact (Nat.length_toDigits_le_iff (by omega) (by decide)).mpr hlt
    change (if (Nat.toDigits 10 n.natAbs).length ≤ maxAttributeIntegerDigits then _ else none) = _
    rw [if_pos hdigits, Numeral.toInt_ofInt]
  | .float x, _, _ => Numeral.toFinite?_repr x
  | .str _, _, _ => trivial
  | .arr xs, hv, hs => readableItems_of_smallIntegers (Json.wellKeyed_arr.mp hv) hs
  | .obj kvs, hv, hs =>
    ⟨(Json.wellKeyed_obj.mp hv).1,
      readableMembers_of_smallIntegers (Json.wellKeyed_obj.mp hv).2 hs⟩

theorem readableItems_of_smallIntegers : ∀ {xs : List Json}, (∀ x ∈ xs, WellKeyed x) →
    SmallIntegersItems xs → Json.ReadableItems LedgerMembershipBundle.hooks xs
  | [], _, _ => trivial
  | x :: xs, hv, hs => ⟨readable_of_smallIntegers (hv x (by simp)) hs.1,
      readableItems_of_smallIntegers (fun y hy => hv y (by simp [hy])) hs.2⟩

theorem readableMembers_of_smallIntegers : ∀ {kvs : List (String × Json)},
    (∀ kv ∈ kvs, WellKeyed kv.2) → SmallIntegersMembers kvs →
      Json.ReadableMembers LedgerMembershipBundle.hooks kvs
  | [], _, _ => trivial
  | (k, x) :: kvs, hv, hs => ⟨readable_of_smallIntegers (hv (k, x) (by simp)) hs.1,
      readableMembers_of_smallIntegers (fun y hy => hv y (by simp [hy])) hs.2⟩

end

/-! ## Members -/

namespace LedgerMemberProof

theorem toDict_eq (m : LedgerMemberProof D) : m.toDict =
    .obj [("entry", m.entry.toDict), ("siblings", .arr (m.siblings.map fun d => .str (hex d)))] := by
  simp +decide only [toDict, Json.dict, List.foldr, Json.insertKey, if_true]

theorem wellKeyed_toDict (m : LedgerMemberProof D) : WellKeyed m.toDict :=
  Json.wellKeyed_dict (by simp [m.entry.wellKeyed_toDict])

theorem readHashes_hex (path : String) (ds : List D) :
    readHashes path (ds.map fun d => .str (hex d)) = .ok ds := by
  induction ds with
  | nil => rfl
  | cons d ds ih =>
    rw [List.map_cons, readHashes, hashField, readHash_hex, ih]
    rfl

/-- The fields of a member proof pass the constructor's checks. -/
theorem make_fields (m : LedgerMemberProof D) : make m.entry m.siblings = .ok m := by
  obtain ⟨raw, hraw⟩ := m.receipt
  rw [make, dif_pos m.siblings_le]
  split
  · next e h => rw [hraw] at h; cases h
  · rfl

/-- The receipt of a member proof decodes to itself. -/
theorem entry_decodes (m : LedgerMemberProof D) :
    LedgerEntry.fromDict m.entry.toDict = .ok m.entry := by
  obtain ⟨raw, hraw⟩ := m.receipt
  exact (receiptBytes_eq_ok hraw).1

theorem sequence_lt (m : LedgerMemberProof D) : m.entry.sequence < maxLedgerEntries :=
  (LedgerEntry.fromDict_toDict m.entry_decodes).2.1

/-- **An admitted member proof survives its document.** -/
theorem fromDict_toDict {m : LedgerMemberProof D} (h : preflight m.toDict = .ok ()) :
    fromDict m.toDict = .ok m := by
  rw [m.toDict_eq] at h
  rw [m.toDict_eq, fromDict]
  simp only [bind_eq_ok]
  refine ⟨_, LedgerCommitment.object_of_keys rfl, ?_⟩
  have hsiblings : Json.get? [("entry", m.entry.toDict),
      ("siblings", .arr (m.siblings.map fun d => .str (hex d)))] "siblings" =
        some (.arr (m.siblings.map fun d => .str (hex d))) := rfl
  simp only [hsiblings, bind_eq_ok]
  exact ⟨(), valid_of (by simpa using m.siblings_le), _, readHashes_hex _ _, (), h, _,
    m.entry_decodes, m.make_fields⟩

theorem measures_toDict (m : LedgerMemberProof D) :
    graphWork m.toDict = graphWork m.entry.toDict + m.siblings.length + 4 ∧
      reach m.toDict ≤ maxAttributeDepth + 2 ∧ SmallIntegers m.toDict := by
  obtain ⟨hwork, hreach, hsmall⟩ := measures_hashes m.siblings
  obtain ⟨hreach', hsmall'⟩ := m.entry.measures_toDict m.sequence_lt
  rw [m.toDict_eq]
  simp only [graphWork, graphWorkMembers, reach, reachMembers, SmallIntegers, SmallIntegersMembers,
    List.length_cons, List.length_nil, hwork, hsmall', hsmall, and_self, and_true]
  unfold maxAttributeDepth at *
  exact ⟨by omega, by omega⟩

end LedgerMemberProof

/-! ## Bundles -/

namespace LedgerMembershipBundle

theorem toDict_eq (b : LedgerMembershipBundle D) : b.toDict =
    .obj [("commitment", b.commitment.toDict), ("kind", .str "evidence-braid-ledger-membership"),
      ("members", .arr (b.members.map (·.toDict))), ("schema_version", .str "1.0")] := by
  simp +decide only [toDict, Json.dict, List.foldr, Json.insertKey, if_true, if_false]

theorem wellKeyed_toDict (b : LedgerMembershipBundle D) : WellKeyed b.toDict := by
  have hcommitment : WellKeyed b.commitment.toDict := Json.wellKeyed_dict (by
    simp [LedgerCommitment.body])
  exact Json.wellKeyed_dict (by
    simp [hcommitment, LedgerMemberProof.wellKeyed_toDict])

/-- **The graph of a bundle**: its work is fixed by its receipts and paths, its depth and its
integers are always admitted. -/
theorem measures_toDict (b : LedgerMembershipBundle D) :
    graphWork b.toDict =
      (b.members.map fun m => graphWork m.entry.toDict + m.siblings.length + 4).sum + 25 ∧
      reach b.toDict ≤ maxAttributeDepth + 4 ∧ SmallIntegers b.toDict := by
  obtain ⟨hwork, hreach, hsmall⟩ := b.commitment.measures_toDict
  have hmembers : ∀ ms : List (LedgerMemberProof D),
      graphWorkItems (ms.map (·.toDict)) =
        (ms.map fun m => graphWork m.entry.toDict + m.siblings.length + 4).sum ∧
      reachItems (ms.map (·.toDict)) ≤ maxAttributeDepth + 3 ∧
      SmallIntegersItems (ms.map (·.toDict)) := by
    intro ms
    induction ms with
    | nil => exact ⟨rfl, Nat.zero_le _, trivial⟩
    | cons m ms ih =>
      obtain ⟨hw, hr, hs⟩ := ih
      obtain ⟨hw', hr', hs'⟩ := m.measures_toDict
      simp only [List.map_cons, graphWorkItems, reachItems, SmallIntegersItems, List.sum_cons]
      exact ⟨by omega, by omega, hs', hs⟩
  obtain ⟨hw, hr, hs⟩ := hmembers b.members
  rw [b.toDict_eq]
  simp only [graphWork, graphWorkMembers, reach, reachMembers, SmallIntegers, SmallIntegersMembers,
    List.length_cons, List.length_nil, hw, hwork, hreach, hsmall, hs, and_self, and_true]
  exact ⟨by omega, by omega⟩

/-- The receipts of a constructed bundle fit in the receipt budget. -/
theorem checkMembers_size {entryCount : ℕ} {members : List (LedgerMemberProof D)} :
    ∀ {previous : ℤ} {size : ℕ}, checkMembers entryCount previous size members = .ok () →
      members = [] ∨
        size + (members.map fun m => entrySize m.entry).sum ≤ maxReceiptBytes := by
  induction members with
  | nil => exact fun _ => .inl rfl
  | cons m ms ih =>
    intro previous size h
    simp only [checkMembers, bind_eq_ok, valid_eq_ok, exists_unit] at h
    obtain ⟨-, directions, -, -, raw, hraw, hsize, hrest⟩ := h
    obtain ⟨-, rfl⟩ := receiptBytes_eq_ok hraw
    change size + entrySize m.entry ≤ _ at hsize
    change checkMembers entryCount _ (size + entrySize m.entry) ms = _ at hrest
    right
    rw [List.map_cons, List.sum_cons]
    rcases ih hrest with rfl | hle
    · simpa using hsize
    · omega

/-- The first loop of the decoder accepts the members of a bundle. -/
theorem inspectPaths_toDict (members : List (LedgerMemberProof D)) :
    inspectPaths (members.map (·.toDict)) = .ok () := by
  induction members with
  | nil => rfl
  | cons m ms ih =>
    have hsiblings : Json.get? [("entry", m.entry.toDict),
        ("siblings", .arr (m.siblings.map fun d => .str (hex d)))] "siblings" =
          some (.arr (m.siblings.map fun d => .str (hex d))) := rfl
    rw [List.map_cons, m.toDict_eq, inspectPaths]
    simp only [bind_eq_ok]
    refine ⟨_, LedgerCommitment.object_of_keys rfl, ?_⟩
    simp only [hsiblings]
    rw [valid_of (by simpa using m.siblings_le)]
    exact ih

/-- The second loop of the decoder sums the receipts' sizes. -/
theorem inspectSizes_toDict (members : List (LedgerMemberProof D)) :
    ∀ {size : ℕ}, members = [] ∨
        size + (members.map fun m => entrySize m.entry).sum ≤ maxReceiptBytes →
      inspectSizes size (members.map (·.toDict)) = .ok () := by
  induction members with
  | nil => exact fun _ => rfl
  | cons m ms ih =>
    intro size h
    have hle := h.resolve_left (by simp)
    rw [List.map_cons, List.sum_cons] at hle
    rw [List.map_cons, m.toDict_eq, inspectSizes]
    simp only [bind_eq_ok]
    have hentry : Json.get? [("entry", m.entry.toDict),
        ("siblings", .arr (m.siblings.map fun d => .str (hex d)))] "entry" =
          some m.entry.toDict := rfl
    simp only [hentry, Option.getD_some]
    exact ⟨(), valid_of (by change size + entrySize m.entry ≤ _; omega),
      ih (.inr (by change size + entrySize m.entry + _ ≤ _; omega))⟩

/-- The fields of a bundle pass the constructor's checks. -/
theorem make_fields (b : LedgerMembershipBundle D) : make b.commitment b.members = .ok b := by
  have hchecked := b.checked
  unfold make
  split
  · next e h => rw [hchecked] at h; cases h
  · rfl

theorem toBytes_eq_ok {b : LedgerMembershipBundle D} {raw : Bytes} : b.toBytes = .ok raw ↔
    preflight b.toDict = .ok () ∧ (canonicalBytes b.toDict).length ≤ maxBundleBytes ∧
      raw = canonicalBytes b.toDict := by
  simp only [toBytes, bind_eq_ok, valid_eq_ok, exists_unit, Except.ok.injEq, @eq_comm _ raw]

/-- A member takes its receipt's bytes and at most 17 digests. -/
theorem size_member_le [WideHex D] (m : LedgerMemberProof D) :
    Json.size m.toDict ≤ entrySize m.entry + 1200 := by
  have hlen := m.siblings_le
  have hhashes := Json.size_arr_le (m.siblings.map fun d => .str (hex d))
  have hsum : ((m.siblings.map fun d => Json.str (hex d)).map fun x => Json.size x + 1).sum =
      m.siblings.length * 67 := by
    simp [Function.comp_def, List.map_const']
  have hkeys : Json.quotedSize "entry" = 7 ∧ Json.quotedSize "siblings" = 10 := by
    and_intros <;> exact Json.quotedSize_literal rfl
  have hentry : entrySize m.entry = Json.size m.entry.toDict := rfl
  rw [m.toDict_eq]
  refine (Json.size_obj_le _).trans ?_
  simp only [List.map_cons, List.map_nil, List.sum_cons, List.sum_nil, hkeys]
  clear hkeys
  unfold maxSiblings at hlen
  omega

/-- A bundle within the receipt budget is within the bundle's. -/
theorem size_toDict_lt [WideHex D] (b : LedgerMembershipBundle D) :
    Json.size b.toDict < maxBundleBytes := by
  have hchecked := b.checked
  simp only [postInit, bind_eq_ok, valid_eq_ok, exists_unit] at hchecked
  obtain ⟨⟨hpos, hmax⟩, hmembers⟩ := hchecked
  have hreceipts := (checkMembers_size hmembers).resolve_left (List.length_pos_iff.mp hpos)
  have hsum : ∀ ms : List (LedgerMemberProof D),
      ((ms.map (·.toDict)).map fun x => Json.size x + 1).sum ≤
        (ms.map fun m => entrySize m.entry).sum + ms.length * 1201 := by
    intro ms
    induction ms with
    | nil => simp
    | cons m ms ih =>
      have hm := size_member_le m
      simp only [List.map_cons, List.sum_cons, List.length_cons]
      omega
  have hms := hsum b.members
  have hcommitment := b.commitment.size_toDict_le
  have harr := Json.size_arr_le (b.members.map (·.toDict))
  have hkeys : Json.quotedSize "commitment" = 12 ∧ Json.quotedSize "kind" = 6 ∧
      Json.quotedSize "members" = 9 ∧ Json.quotedSize "schema_version" = 16 ∧
      Json.quotedSize "1.0" = 5 ∧
      Json.quotedSize "evidence-braid-ledger-membership" = 34 := by
    and_intros <;> exact Json.quotedSize_literal rfl
  rw [b.toDict_eq]
  refine (Json.size_obj_le _).trans_lt ?_
  simp only [List.map_cons, List.map_nil, List.sum_cons, List.sum_nil, Json.size_str, hkeys]
  clear hkeys
  unfold maxMembers at hmax
  unfold maxReceiptBytes at hreceipts
  unfold maxBundleBytes
  omega

/-- **`to_bytes`** admits every bundle whose graph work is within bounds. -/
theorem toBytes_of_work [WideHex D] (b : LedgerMembershipBundle D)
    (h : graphWork b.toDict ≤ maxJsonNodes) : b.toBytes = .ok (canonicalBytes b.toDict) := by
  have hsize := b.size_toDict_lt
  obtain ⟨-, hreach, hsmall⟩ := b.measures_toDict
  have hscalar := scalarBytes_le_size b.toDict
  unfold maxAttributeDepth at hreach
  exact toBytes_eq_ok.mpr ⟨preflight_eq_ok.mpr ⟨h, by omega, by unfold maxJsonDepth; omega,
    hsmall⟩, hsize.le, rfl⟩

theorem readMembers_toDict {members : List (LedgerMemberProof D)}
    (h : ∀ m ∈ members, preflight m.toDict = .ok ()) :
    readMembers (members.map (·.toDict)) = .ok members := by
  induction members with
  | nil => rfl
  | cons m ms ih =>
    rw [List.map_cons, readMembers, LedgerMemberProof.fromDict_toDict (h m (by simp)),
      ih fun m' hm' => h m' (by simp [hm'])]
    rfl

variable [DecidableEq D]

/-- **A bundle that `to_bytes` admits survives its document.** -/
theorem fromDict_toDict {b : LedgerMembershipBundle D} {raw : Bytes} (h : b.toBytes = .ok raw) :
    fromDict b.toDict = .ok b := by
  obtain ⟨hpre, -⟩ := toBytes_eq_ok.mp h
  have hchecked := b.checked
  simp only [postInit, bind_eq_ok, valid_eq_ok, exists_unit] at hchecked
  rw [b.toDict_eq] at hpre
  have hmembers := preflight_member hpre ("members", .arr (b.members.map (·.toDict))) (by simp)
  have hget : Json.get? [("commitment", b.commitment.toDict),
      ("kind", .str "evidence-braid-ledger-membership"),
      ("members", .arr (b.members.map (·.toDict))), ("schema_version", .str "1.0")] "members" =
        some (.arr (b.members.map (·.toDict))) := rfl
  rw [b.toDict_eq, fromDict]
  simp only [bind_eq_ok]
  refine ⟨_, LedgerCommitment.object_of_keys rfl, (), valid_of ⟨rfl, rfl⟩, ?_⟩
  simp only [hget, bind_eq_ok]
  exact ⟨(), valid_of (by simpa using hchecked.1), (), inspectPaths_toDict _, (), hpre, (),
    inspectSizes_toDict _ (by simpa using checkMembers_size hchecked.2), b.commitment,
    b.commitment.fromDict_toDict, b.members,
    readMembers_toDict fun m hm => preflight_item hmembers _ (List.mem_map_of_mem hm), b,
    b.make_fields, raw, h, rfl⟩

/-- **A bundle that `to_bytes` admits survives its bytes.** -/
theorem fromBytes_toBytes {b : LedgerMembershipBundle D} {raw : Bytes} (h : b.toBytes = .ok raw) :
    fromBytes raw = .ok b := by
  obtain ⟨hpre, hsize, rfl⟩ := toBytes_eq_ok.mp h
  obtain ⟨-, hreach, hsmall⟩ := b.measures_toDict
  have hheight := height_le_reach b.toDict
  have hdepth : Json.scanDepth maxJsonDepth (canonicalBytes b.toDict) = true := by
    refine (Json.scanDepth_dumps maxJsonDepth b.toDict).mpr ?_
    unfold maxAttributeDepth at hreach
    unfold maxJsonDepth
    omega
  have hread : Json.loads hooks (canonicalJson b.toDict false) = some b.toDict :=
    Json.loads_dumps (readable_of_smallIntegers b.wellKeyed_toDict hsmall)
  simp only [fromBytes, bind_eq_ok, wrapping_eq_ok, orError_eq_ok]
  exact ⟨(), valid_of hsize, (), valid_of hdepth, _, Utf8.decode_encode _, _, hread, b,
    fromDict_toDict h, _, h, (), valid_of rfl, rfl⟩

/-- A bundle whose graph work is within bounds has bytes, and they are read back. -/
theorem survives [WideHex D] (b : LedgerMembershipBundle D) (h : graphWork b.toDict ≤ maxJsonNodes) :
    ∃ raw, b.toBytes = .ok raw ∧ fromBytes raw = .ok b :=
  ⟨_, b.toBytes_of_work h, fromBytes_toBytes (b.toBytes_of_work h)⟩

end LedgerMembershipBundle

end EvidenceBraid
