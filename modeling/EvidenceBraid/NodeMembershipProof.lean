import EvidenceBraid.EventForm
import EvidenceBraid.MembershipComplete
import EvidenceBraid.NodeMembership
import EvidenceBraid.ProofCodec

/-!
# The two membership verifiers agree

**Theorem (`verifyLedgerMembership_agrees`).** The independent verifier accepts the bytes that
`LedgerMembershipBundle.from_bytes` and `verify_ledger_membership` accept, and reports the same members.

**Idea.** A node of the tree stands for a document whose text is the node's span (`Stands`). So each check
of a node says something of the document, and all checks of a receipt, of a header or of a member together
say that the document is that of a receipt, a header or a member (`receipt_eq_ok`, `header_eq_ok`,
`checkMembers_eq_ok`); and the hash of the span is the hash of the canonical text.
-/

namespace EvidenceBraid

namespace NodeMembership

open Hashing Calendar
open Json (dumps dumpsString dumpsItems dumpsMembers size quotedSize tokens tokensItems tokensMembers height popped
  nodes keys get? KeysSorted WellKeyed)
open ReceiptNumbers (Log10)
open ReceiptWire (Wire requireWire requireWire_eq_ok requireWire_of place placeItems placeMembers Own span heightOf
  readCanonicalWire readCanonicalWire_eq_ok MAX_BYTES extent_place json_place)

/-! ## Nodes and documents -/

/-- The node of a document whose text stands in these bytes. -/
def Stands (bytes : Bytes) (node : ReceiptWire.Node) (v : Json) : Prop :=
  ∃ before after, bytes = before ++ (Utf8.encode (dumps v) ++ after) ∧ node = place before.length v

/-- Nodes of the members of an object. -/
def Standing (bytes : Bytes) (data : List (String × ReceiptWire.Node)) (kvs : List (String × Json)) : Prop :=
  List.Forall₂ (fun n kv => n.1 = kv.1 ∧ Stands bytes n.2 kv.2) data kvs

variable {bytes : Bytes} {node : ReceiptWire.Node} {v : Json}

theorem Stands.span (h : Stands bytes node v) : span bytes node = canonicalBytes v := by
  obtain ⟨before, after, hbytes, hnode⟩ := h
  obtain ⟨hstart, hstop⟩ := extent_place before.length v
  rw [hnode, hbytes, ReceiptWire.span, hstart, hstop, List.take_length_add_append, List.drop_left, size,
    List.take_left]
  rfl

theorem Stands.length (h : Stands bytes node v) : node.extent.stop - node.extent.start = size v := by
  obtain ⟨before, after, -, hnode⟩ := h
  obtain ⟨hstart, hstop⟩ := extent_place before.length v
  rw [hnode, hstart, hstop, Nat.add_sub_cancel_left]

theorem foldl_max {α : Type} (f : α → ℕ) (xs : List α) : ∀ a : ℕ,
    xs.foldl (fun height x => max height (f x + 1)) a = max a (xs.foldl (fun height x => max height (f x + 1)) 0) := by
  induction xs with
  | nil => exact fun a => (Nat.max_zero a).symm
  | cons x xs ih =>
    intro a
    rw [List.foldl_cons, List.foldl_cons, ih (max a _), ih (max 0 _), Nat.zero_max, Nat.max_assoc]

theorem heightOf_cons (n : ReceiptWire.Node) (ns : List ReceiptWire.Node) :
    heightOf (n :: ns) = max (n.extent.height + 1) (heightOf ns) := by
  rw [heightOf, List.foldl_cons, foldl_max (fun child : ReceiptWire.Node => child.extent.height), Nat.zero_max]
  rfl

mutual

/-- The height of a node is how far its document reaches. -/
theorem height_place : ∀ (offset : ℕ) (v : Json), (place offset v).extent.height = reach v
  | _, .null | _, .bool _ | _, .int _ | _, .float _ | _, .str _ => rfl
  | offset, .arr xs => by
    rw [place, reach]
    exact heightOf_placeItems (offset + 1) xs
  | offset, .obj kvs => by
    rw [place, reach]
    exact heightOf_placeMembers (offset + 1) kvs

theorem heightOf_placeItems : ∀ (offset : ℕ) (xs : List Json), heightOf (placeItems offset xs) = reachItems xs
  | _, [] => rfl
  | offset, x :: xs => by
    rw [placeItems, heightOf_cons, height_place, heightOf_placeItems, reachItems]

theorem heightOf_placeMembers : ∀ (offset : ℕ) (kvs : List (String × Json)),
    heightOf ((placeMembers offset kvs).map Prod.snd) = reachMembers kvs
  | _, [] => rfl
  | offset, (k, x) :: kvs => by
    rw [placeMembers, List.map_cons, heightOf_cons, height_place, heightOf_placeMembers, reachMembers]

end

theorem Stands.height (h : Stands bytes node v) : node.extent.height = reach v := by
  obtain ⟨before, after, -, hnode⟩ := h
  rw [hnode, height_place]

/-- The nodes of an array's items stand for them. -/
theorem stands_items (xs : List Json) : ∀ before after : Bytes,
    List.Forall₂ (Stands (before ++ (Utf8.encode (dumpsItems true xs) ++ after))) (placeItems before.length xs) xs := by
  induction xs with
  | nil => exact fun _ _ => .nil
  | cons x xs ih =>
    intro before after
    have htext : dumpsItems true (x :: xs) = dumps x ++ dumpsItems false xs := rfl
    have hrest := ih (before ++ (Utf8.encode (dumps x) ++ [44])) after
    have hlength : (before ++ (Utf8.encode (dumps x) ++ [44])).length = before.length + size x + 1 := by
      rw [List.length_append, List.length_append, List.length_singleton, size, Nat.add_assoc]
    rw [hlength] at hrest
    rw [placeItems, htext, Utf8.encode_append, List.append_assoc]
    refine .cons ⟨before, _, rfl, rfl⟩ ?_
    cases xs with
    | nil => exact .nil
    | cons y ys =>
      have hcomma : Utf8.encode (dumpsItems false (y :: ys)) = [44] ++ Utf8.encode (dumpsItems true (y :: ys)) := by
        have hcons : dumpsItems false (y :: ys) = ',' :: dumpsItems true (y :: ys) := rfl
        rw [hcons, Utf8.encode_cons, Utf8.encode_ascii (by decide)]
        rfl
      rw [hcomma]
      simpa only [List.append_assoc] using hrest

/-- The nodes of an object's members stand for them. -/
theorem stands_members (kvs : List (String × Json)) : ∀ before after : Bytes,
    Standing (before ++ (Utf8.encode (dumpsMembers true kvs) ++ after)) (placeMembers before.length kvs) kvs := by
  induction kvs with
  | nil => exact fun _ _ => .nil
  | cons kv kvs ih =>
    obtain ⟨k, x⟩ := kv
    intro before after
    have hcolon : String.utf8EncodeChar ':' = [58] := Utf8.encode_ascii (by decide)
    have htext : Utf8.encode (dumpsMembers true ((k, x) :: kvs)) =
        Utf8.encode (dumpsString k) ++ ([58] ++ (Utf8.encode (dumps x) ++ Utf8.encode (dumpsMembers false kvs))) := by
      have hcons : dumpsMembers true ((k, x) :: kvs) =
          dumpsString k ++ (':' :: (dumps x ++ dumpsMembers false kvs)) := rfl
      rw [hcons, Utf8.encode_append, Utf8.encode_cons, Utf8.encode_append, hcolon]
    have hkey : (before ++ (Utf8.encode (dumpsString k) ++ [58])).length = before.length + quotedSize k + 1 := by
      rw [List.length_append, List.length_append, List.length_singleton, quotedSize, Nat.add_assoc]
    have hrest := ih (before ++ (Utf8.encode (dumpsString k) ++ ([58] ++ (Utf8.encode (dumps x) ++ [44])))) after
    have hlength : (before ++ (Utf8.encode (dumpsString k) ++ ([58] ++ (Utf8.encode (dumps x) ++ [44])))).length =
        before.length + quotedSize k + 1 + size x + 1 := by
      simp only [List.length_append, List.length_singleton, quotedSize, size]
      omega
    rw [hlength] at hrest
    rw [placeMembers, htext]
    refine .cons ⟨rfl, before ++ (Utf8.encode (dumpsString k) ++ [58]),
      Utf8.encode (dumpsMembers false kvs) ++ after, by simp only [List.append_assoc], by rw [hkey]⟩ ?_
    cases kvs with
    | nil => exact .nil
    | cons kv kvs =>
      have hcomma : Utf8.encode (dumpsMembers false (kv :: kvs)) =
          [44] ++ Utf8.encode (dumpsMembers true (kv :: kvs)) := by
        have hcons : dumpsMembers false (kv :: kvs) = ',' :: dumpsMembers true (kv :: kvs) := rfl
        rw [hcons, Utf8.encode_cons, Utf8.encode_ascii (by decide)]
        rfl
      rw [hcomma]
      simp only [List.append_assoc] at hrest ⊢
      exact hrest

/-- The node of an array. -/
theorem Stands.arr {xs : List Json} (h : Stands bytes node (.arr xs)) :
    ∃ items extent, node = .array items extent ∧ List.Forall₂ (Stands bytes) items xs := by
  obtain ⟨before, after, hbytes, hnode⟩ := h
  have hbracket : String.utf8EncodeChar '[' = [91] := Utf8.encode_ascii (by decide)
  have hitems := stands_items xs (before ++ [91]) after
  have hlength : (before ++ [91]).length = before.length + 1 := List.length_append
  have hall : before ++ [91] ++ (Utf8.encode (dumpsItems true xs) ++ after) = bytes := by
    rw [hbytes, dumps, Utf8.encode_cons, hbracket]
    simp
  rw [hlength, hall] at hitems
  exact ⟨_, _, hnode.trans (by rw [place]), hitems⟩

/-- The node of an object. -/
theorem Stands.obj {kvs : List (String × Json)} (h : Stands bytes node (.obj kvs)) :
    ∃ data extent, node = .object data extent ∧ Standing bytes data kvs := by
  obtain ⟨before, after, hbytes, hnode⟩ := h
  have hbrace : String.utf8EncodeChar '{' = [123] := Utf8.encode_ascii (by decide)
  have hmembers := stands_members kvs (before ++ [123]) after
  have hlength : (before ++ [123]).length = before.length + 1 := List.length_append
  have hall : before ++ [123] ++ (Utf8.encode (dumpsMembers true kvs) ++ after) = bytes := by
    rw [hbytes, dumps, Utf8.encode_cons, hbrace]
    simp
  rw [hlength, hall] at hmembers
  exact ⟨_, _, hnode.trans (by rw [place]), hmembers⟩

/-- A member that is looked up stands for the member that is. -/
theorem Standing.rel {data : List (String × ReceiptWire.Node)} {kvs : List (String × Json)}
    (h : Standing bytes data kvs) (k : String) : Option.Rel (Stands bytes) (get data k) (get? kvs k) := by
  induction h with
  | nil => exact .none
  | @cons n kv data kvs hhead _ ih =>
    obtain ⟨l, n⟩ := n
    obtain ⟨l', x⟩ := kv
    obtain ⟨hkey, hstands⟩ := hhead
    obtain rfl : l = l' := hkey
    by_cases hk : k = l
    · rw [hk, get, get?, List.lookup_cons_self, List.lookup_cons_self]
      exact .some hstands
    · have hne : (k == l) = false := beq_eq_false_iff_ne.mpr hk
      rw [get, get?, List.lookup_cons, List.lookup_cons, hne]
      exact ih

theorem Standing.map_fst {data : List (String × ReceiptWire.Node)} {kvs : List (String × Json)}
    (h : Standing bytes data kvs) : data.map Prod.fst = keys kvs := by
  induction h with
  | nil => rfl
  | cons hhead _ ih => rw [List.map_cons, ih, hhead.1, Json.keys, Json.keys, List.map_cons]

/-! ## Documents within the budgets -/

/-- What the reader asks of a document, wherever it stands. -/
structure Within (v : Json) : Prop where
  own : ∀ item ∈ popped v, Own item
  nodes : tokens v ≤ 1000000

theorem tokens_le_members {kvs : List (String × Json)} {kv : String × Json} (h : kv ∈ kvs) :
    tokens kv.2 ≤ tokensMembers kvs := by
  rw [Json.tokensMembers_eq_sum]
  have hle := List.single_le_sum (l := kvs.map fun kv => 1 + tokens kv.2) (fun _ _ => Nat.zero_le _) _
    (List.mem_map_of_mem h)
  omega

theorem tokens_le_items {xs : List Json} {x : Json} (h : x ∈ xs) : tokens x ≤ tokensItems xs := by
  induction xs with
  | nil => cases h
  | cons y xs ih =>
    rw [tokensItems]
    cases h with
    | head => omega
    | tail _ h =>
      have := ih h
      omega

theorem Within.member {kvs : List (String × Json)} {k : String} {x : Json} (h : Within (.obj kvs))
    (hx : get? kvs k = some x) : Within x := by
  obtain ⟨before, after, hkvs, -⟩ := List.lookup_eq_some_iff.mp hx
  have hmem : (k, x) ∈ kvs := hkvs ▸ List.mem_append_right before List.mem_cons_self
  have hle : tokens x ≤ tokensMembers kvs := tokens_le_members hmem
  have hnodes := h.nodes
  rw [tokens] at hnodes
  exact ⟨(Json.forall_popped_obj.mp h.own).2 _ hmem, by omega⟩

theorem Within.item {xs : List Json} {x : Json} (h : Within (.arr xs)) (hx : x ∈ xs) : Within x := by
  have hle := tokens_le_items hx
  have hnodes := h.nodes
  rw [tokens] at hnodes
  exact ⟨(Json.forall_popped_arr.mp h.own).2 _ hx, by omega⟩

theorem self_mem_popped (v : Json) : v ∈ popped v := by
  cases v <;> exact List.mem_cons_self

theorem Within.self (h : Within v) : Own v := h.own v (self_mem_popped v)

theorem Within.wellKeyed (h : Within v) : WellKeyed v := by
  refine (Json.wellKeyed_iff_popped v).mpr fun item hitem kvs hobj => ?_
  have hown := h.own item hitem
  rw [hobj] at hown
  exact hown.1

/-- Integers of at most 640 digits are those that the package admits. -/
theorem digits_le_iff (n : ℤ) :
    (Nat.toDigits 10 n.natAbs).length ≤ 640 ↔ n.natAbs ≤ maxAttributeInteger := by
  have hpos : 0 < 10 ^ maxAttributeIntegerDigits := Nat.pow_pos (by decide)
  rw [Nat.length_toDigits_le_iff (by decide) (by decide)]
  show n.natAbs < 10 ^ maxAttributeIntegerDigits ↔ n.natAbs ≤ 10 ^ maxAttributeIntegerDigits - 1
  omega

/-- What the reader admits, an event's attributes may hold. -/
theorem Own.admitted (h : Own v) : Admitted v := by
  cases v with
  | int n => exact ⟨(digits_le_iff n).mp h, trivial⟩
  | str s => exact ⟨h, trivial⟩
  | obj kvs => exact ⟨trivial, fun kv hkv => h.2 _ (List.mem_map_of_mem hkv)⟩
  | null | bool | float | arr => exact ⟨trivial, trivial⟩

theorem Within.admitted (h : Within v) : ∀ item ∈ popped v, Admitted item :=
  fun item hitem => Own.admitted (h.own item hitem)

/-! ## Fields -/

/-- The required keys, and none but the optional ones besides. -/
def Closed (kvs : List (String × Json)) (required optional : List String) : Prop :=
  (∀ key ∈ required, key ∈ keys kvs) ∧ ∀ key ∈ keys kvs, key ∈ required ∨ key ∈ optional

theorem keys_zip {names : List String} {vs : List Json} (h : names.length = vs.length) :
    keys (names.zip vs) = names := List.map_fst_zip h.le

theorem closed_zip {names : List String} {vs : List Json} (h : names.length = vs.length) :
    Closed (names.zip vs) names [] := by
  rw [Closed, keys_zip h]
  exact ⟨fun k hk => hk, fun k hk => .inl hk⟩

/-- **An object with just these keys** lists them in their order. -/
theorem Closed.eq_zip {kvs : List (String × Json)} {names : List String} {vs : List Json} (h : Closed kvs names [])
    (hsorted : KeysSorted kvs) (hnames : names.Pairwise (· < ·))
    (hvalues : List.Forall₂ (fun k v => get? kvs k = some v) names vs) : kvs = names.zip vs := by
  have hlength := hvalues.length_eq
  have hkeys : keys (names.zip vs) = names := keys_zip hlength
  have hzip : KeysSorted (names.zip vs) := by rwa [KeysSorted, hkeys]
  have hdict : Json.obj kvs = Json.dict (names.zip vs) := by
    refine Json.obj_eq_dict hsorted (hzip.imp fun hlt => hlt.ne) (fun k hk => ?_) fun kv hkv => ?_
    · rw [hkeys]
      exact (h.2 k hk).resolve_right List.not_mem_nil
    · exact List.forall₂_zip hvalues hkv
  rw [Json.dict_of_sorted hzip] at hdict
  exact Json.obj.inj hdict

theorem fields_obj {kvs : List (String × Json)} (h : Stands bytes node (.obj kvs)) :
    ∃ data, Standing bytes data kvs ∧ ∀ (required optional : List String) data',
      fields (some node) required optional = .ok data' ↔ Closed kvs required optional ∧ data' = data := by
  obtain ⟨data, extent, hnode, hdata⟩ := h.obj
  refine ⟨data, hdata, fun required optional data' => ?_⟩
  rw [hnode, Closed, ← hdata.map_fst]
  simp only [fields, bind_eq_ok, requireWire_eq_ok, exists_unit, Except.ok.injEq]
  exact and_congr_right fun _ => eq_comm

/-- The class of the pattern is what `str.strip()` removes. -/
theorem isEdgeSpace_eq : isEdgeSpace = isWhitespace := rfl

section

variable {node : Option ReceiptWire.Node} {value : Option Json} (h : Option.Rel (Stands bytes) node value)
include h

/-- What has fields is an object. -/
theorem obj_of_fields {required optional : List String} {data : List (String × ReceiptWire.Node)}
    (hfields : fields node required optional = .ok data) :
    ∃ n kvs, node = some n ∧ value = some (.obj kvs) ∧ Stands bytes n (.obj kvs) := by
  cases h with
  | none => cases hfields
  | @some n v hstands =>
    obtain ⟨before, after, hbytes, hnode⟩ := hstands
    cases v with
    | obj kvs => exact ⟨n, kvs, rfl, rfl, before, after, hbytes, hnode⟩
    | null | bool | int | float | str | arr =>
      rw [hnode, place] at hfields
      cases hfields

theorem text_eq_ok {s : String} : text node = .ok s ↔ value = some (.str s) := by
  cases h with
  | none => exact ⟨nofun, nofun⟩
  | @some n v hstands =>
    obtain ⟨before, after, -, hnode⟩ := hstands
    rw [hnode]
    cases v <;> simp [text, place]

theorem integer_eq_ok {maximum n : ℕ} :
    integer node maximum = .ok n ↔ value = some (.int n) ∧ n ≤ maximum := by
  cases h with
  | none => exact ⟨nofun, nofun⟩
  | @some m v hstands =>
    obtain ⟨before, after, -, hnode⟩ := hstands
    rw [hnode]
    cases v with
    | int i =>
      simp only [integer, place, bind_eq_ok, requireWire_eq_ok, exists_unit, Except.ok.injEq, Option.some.injEq,
        Json.int.injEq]
      omega
    | null | bool | float | str | arr | obj => simp [integer, place]

theorem items_eq_ok {message : String} {nodes : List ReceiptWire.Node} : items node message = .ok nodes ↔
    ∃ xs extent, value = some (.arr xs) ∧ node = some (.array nodes extent) ∧
      List.Forall₂ (Stands bytes) nodes xs := by
  constructor
  · intro hitems
    cases h with
    | none => cases hitems
    | @some n v hstands =>
      cases v with
      | arr xs =>
        obtain ⟨nodes', extent, hnode, hall⟩ := hstands.arr
        rw [hnode] at hitems
        obtain rfl := Except.ok.inj hitems
        exact ⟨xs, extent, rfl, by rw [hnode], hall⟩
      | null | bool | int | float | str | obj =>
        obtain ⟨before, after, -, hnode⟩ := hstands
        rw [hnode, place] at hitems
        cases hitems
  · intro hall
    obtain ⟨xs, extent, hvalue, hnode, hall⟩ := hall
    rw [hnode]
    rfl

theorem lengthOf_eq : lengthOf node = (value.map size).getD 0 := by
  cases h with
  | none => rfl
  | some hstands => exact hstands.length

theorem spanOf_eq : spanOf bytes node = (value.map canonicalBytes).getD [] := by
  cases h with
  | none => rfl
  | some hstands => exact hstands.span

/-- A canonically trimmed identifier is checked text. -/
theorem identifier_eq_ok (hown : ∀ v ∈ value, Own v) {s : String} :
    identifier node = .ok s ↔ ∃ t : Text, value = some (.str t.value) ∧ t.value = s := by
  simp only [identifier, bind_eq_ok, text_eq_ok h, requireWire_eq_ok, exists_unit, Except.ok.injEq]
  constructor
  · intro hall
    obtain ⟨s', hvalue, ⟨hne, hedge⟩, hs⟩ := hall
    have hxml : Own (.str s') := hown _ hvalue
    have htrimmed : strip s' = s' := by
      rw [edgeSpace, isEdgeSpace_eq] at hedge
      simp only [Bool.or_eq_false_iff, Option.any_eq_false] at hedge
      exact strip_eq_self_iff.mpr hedge
    exact ⟨⟨s', fun hempty => hne (by rw [hempty]; rfl), htrimmed, hxml⟩, hvalue, hs⟩
  · intro hall
    obtain ⟨t, hvalue, hs⟩ := hall
    have hends := strip_eq_self_iff.mp t.trimmed
    refine ⟨t.value, hvalue, ⟨fun hempty => t.ne_empty (String.toList_inj.mp hempty), ?_⟩, hs⟩
    rw [edgeSpace, isEdgeSpace_eq]
    simp only [Bool.or_eq_false_iff, Option.any_eq_false]
    exact hends

end

theorem digest_eq_ok {D : Type} [Hashing D] {s : String} {d : D} : digest s = .ok d ↔ s = hex d := by
  unfold digest
  constructor
  · intro h
    split at h
    · next d' hread =>
      rw [← Except.ok.inj h, hex_of_ofHex? hread]
    · cases h
  · intro h
    rw [h, ofHex?_hex]

theorem version_eq_ok {s v : String} : version s = .ok v ↔ (s = "1.0" ∨ s = "2.0") ∧ s = v := by
  simp only [version, bind_eq_ok, requireWire_eq_ok, exists_unit, Except.ok.injEq]

theorem whenPresent_eq_ok {node : Option ReceiptWire.Node} {check : ReceiptWire.Node → Wire Unit} :
    whenPresent node check = .ok () ↔ ∀ n ∈ node, check n = .ok () := by
  cases node <;> simp [whenPresent]

/-! ## Timestamps -/

theorem literal_eq_some {c : Char} {s rest : List Char} : literal c s = some rest ↔ s = c :: rest := by
  cases s with
  | nil => exact ⟨nofun, nofun⟩
  | cons d s => simp only [literal, Option.ite_none_right_eq_some, Option.some.injEq, List.cons.injEq]

/-- The text of a fraction. -/
def fractionText : Option ℕ → List Char
  | none => []
  | some fraction => '.' :: padded 6 fraction

theorem fractionEnd_eq_some {s : List Char} {fraction : Option ℕ} : fractionEnd s = some fraction ↔
    (∀ n ∈ fraction, n < 10 ^ 6) ∧ s = fractionText fraction ++ ['Z'] := by
  unfold fractionEnd
  split
  · next s =>
    simp only [Option.bind_eq_bind, Option.bind_eq_some_iff, Prod.exists, digits_eq_some,
      Option.ite_none_right_eq_some, Option.some.injEq]
    constructor
    · intro hall
      obtain ⟨n, rest, ⟨hn, hs⟩, hrest, hfraction⟩ := hall
      rw [← hfraction, hs, hrest]
      exact ⟨fun m hm => Option.some.inj hm ▸ hn, rfl⟩
    · intro hall
      obtain ⟨hbound, hs⟩ := hall
      cases fraction with
      | none => cases hs
      | some n => exact ⟨n, ['Z'], ⟨hbound n rfl, (List.cons.inj hs).2⟩, rfl, rfl⟩
  · next hdot =>
    rw [Option.ite_none_right_eq_some, Option.some.injEq]
    constructor
    · intro hall
      obtain ⟨hs, hnone⟩ := hall
      rw [← hnone, hs]
      exact ⟨by simp, rfl⟩
    · intro hall
      obtain ⟨_, hs⟩ := hall
      cases fraction with
      | none => exact ⟨hs, rfl⟩
      | some n => exact absurd hs (hdot _)

/-- The fields of a match stand in the text, padded. -/
theorem captures_eq_some {s : List Char} {m : Captures} : captures s = some m ↔
    (m.year < 10 ^ 4 ∧ m.month < 10 ^ 2 ∧ m.day < 10 ^ 2 ∧ m.hour < 10 ^ 2 ∧ m.minute < 10 ^ 2 ∧
      m.second < 10 ^ 2 ∧ ∀ n ∈ m.fraction, n < 10 ^ 6) ∧
    s = padded 4 m.year ++ '-' :: (padded 2 m.month ++ '-' :: (padded 2 m.day ++ 'T' ::
      (padded 2 m.hour ++ ':' :: (padded 2 m.minute ++ ':' :: (padded 2 m.second ++
        (fractionText m.fraction ++ ['Z'])))))) := by
  unfold captures
  constructor
  · intro hall
    obtain ⟨⟨year, s₁⟩, hyear, hall⟩ := Option.bind_eq_some_iff.mp hall
    obtain ⟨s₂, h₂, hall⟩ := Option.bind_eq_some_iff.mp hall
    obtain ⟨⟨month, s₃⟩, hmonth, hall⟩ := Option.bind_eq_some_iff.mp hall
    obtain ⟨s₄, h₄, hall⟩ := Option.bind_eq_some_iff.mp hall
    obtain ⟨⟨day, s₅⟩, hday, hall⟩ := Option.bind_eq_some_iff.mp hall
    obtain ⟨s₆, h₆, hall⟩ := Option.bind_eq_some_iff.mp hall
    obtain ⟨⟨hour, s₇⟩, hhour, hall⟩ := Option.bind_eq_some_iff.mp hall
    obtain ⟨s₈, h₈, hall⟩ := Option.bind_eq_some_iff.mp hall
    obtain ⟨⟨minute, s₉⟩, hminute, hall⟩ := Option.bind_eq_some_iff.mp hall
    obtain ⟨s₁₀, h₁₀, hall⟩ := Option.bind_eq_some_iff.mp hall
    obtain ⟨⟨second, s₁₁⟩, hsecond, hall⟩ := Option.bind_eq_some_iff.mp hall
    obtain ⟨fraction, hfraction, hm⟩ := Option.bind_eq_some_iff.mp hall
    rw [digits_eq_some] at hyear hmonth hday hhour hminute hsecond
    rw [literal_eq_some] at h₂ h₄ h₆ h₈ h₁₀
    rw [fractionEnd_eq_some] at hfraction
    rw [← Option.some.inj hm, hyear.2, h₂, hmonth.2, h₄, hday.2, h₆, hhour.2, h₈, hminute.2, h₁₀, hsecond.2,
      hfraction.2]
    exact ⟨⟨hyear.1, hmonth.1, hday.1, hhour.1, hminute.1, hsecond.1, hfraction.1⟩, rfl⟩
  · intro hall
    obtain ⟨⟨hyear, hmonth, hday, hhour, hminute, hsecond, hfraction⟩, rfl⟩ := hall
    refine Option.bind_eq_some_iff.mpr ⟨(m.year, _), digits_eq_some.mpr ⟨hyear, rfl⟩, ?_⟩
    refine Option.bind_eq_some_iff.mpr ⟨_, literal_eq_some.mpr rfl, ?_⟩
    refine Option.bind_eq_some_iff.mpr ⟨(m.month, _), digits_eq_some.mpr ⟨hmonth, rfl⟩, ?_⟩
    refine Option.bind_eq_some_iff.mpr ⟨_, literal_eq_some.mpr rfl, ?_⟩
    refine Option.bind_eq_some_iff.mpr ⟨(m.day, _), digits_eq_some.mpr ⟨hday, rfl⟩, ?_⟩
    refine Option.bind_eq_some_iff.mpr ⟨_, literal_eq_some.mpr rfl, ?_⟩
    refine Option.bind_eq_some_iff.mpr ⟨(m.hour, _), digits_eq_some.mpr ⟨hhour, rfl⟩, ?_⟩
    refine Option.bind_eq_some_iff.mpr ⟨_, literal_eq_some.mpr rfl, ?_⟩
    refine Option.bind_eq_some_iff.mpr ⟨(m.minute, _), digits_eq_some.mpr ⟨hminute, rfl⟩, ?_⟩
    refine Option.bind_eq_some_iff.mpr ⟨_, literal_eq_some.mpr rfl, ?_⟩
    refine Option.bind_eq_some_iff.mpr ⟨(m.second, _), digits_eq_some.mpr ⟨hsecond, rfl⟩, ?_⟩
    exact Option.bind_eq_some_iff.mpr ⟨m.fraction, fractionEnd_eq_some.mpr ⟨hfraction, rfl⟩, rfl⟩

theorem days_eq {year month : ℕ} (h : 1 ≤ month ∧ month ≤ 12) : days year month = daysInMonth year month := by
  have hleap : (decide (year % 4 = 0) && (decide (year % 100 ≠ 0) || decide (year % 400 = 0))) = isLeap year := by
    unfold isLeap
    by_cases hcentury : year % 100 = 0 <;> simp [hcentury]
  rw [daysInMonth_eq, days, hleap]
  obtain ⟨hlo, hhi⟩ := h
  interval_cases month <;> rfl

/-- **The timestamps that pass** are those that the package writes. -/
theorem timestamp_eq_ok {node : Option ReceiptWire.Node} {value : Option Json}
    (h : Option.Rel (Stands bytes) node value) :
    timestamp node = .ok () ↔ ∃ t, value = some (.str (formatTimestamp t)) := by
  simp only [timestamp, bind_eq_ok, text_eq_ok h]
  constructor
  · intro hall
    obtain ⟨s, hvalue, hcheck⟩ := hall
    cases hm : captures s.toList with
    | none =>
      rw [hm] at hcheck
      cases hcheck
    | some m =>
      rw [hm] at hcheck
      obtain ⟨hyear, hmonth, hmonth', hday, hday', hhour, hminute, hsecond, hfraction⟩ := requireWire_eq_ok.mp hcheck
      obtain ⟨⟨hyear', -, -, -, -, -, hmicro⟩, hs⟩ := captures_eq_some.mp hm
      rw [days_eq ⟨hmonth, hmonth'⟩] at hday'
      have hbound : m.fraction.getD 0 < 1000000 := by
        cases hf : m.fraction with
        | none => decide
        | some n => exact hmicro n hf
      obtain ⟨t, ht⟩ := @exists_bodyText m.year m.month m.day ((m.hour * 60 + m.minute) * 60 + m.second)
        (m.fraction.getD 0) ⟨hyear, by omega⟩ ⟨hmonth, hmonth'⟩ ⟨hday, hday'⟩ (by omega) hbound
      have hmicros : (if m.fraction.getD 0 = 0 then [] else '.' :: padded 6 (m.fraction.getD 0)) =
          fractionText m.fraction := by
        cases hf : m.fraction with
        | none => rfl
        | some n =>
          have hne : n ≠ 0 := fun hzero => hfraction (by rw [hf, hzero])
          exact if_neg hne
      have hclock : clockText ((m.hour * 60 + m.minute) * 60 + m.second) (m.fraction.getD 0) =
          padded 2 m.hour ++ ':' :: (padded 2 m.minute ++ ':' :: (padded 2 m.second ++ fractionText m.fraction)) := by
        have hh : ((m.hour * 60 + m.minute) * 60 + m.second) / 3600 = m.hour := by omega
        have hmin : ((m.hour * 60 + m.minute) * 60 + m.second) / 60 % 60 = m.minute := by omega
        have hsec : ((m.hour * 60 + m.minute) * 60 + m.second) % 60 = m.second := by omega
        rw [clockText, hh, hmin, hsec, hmicros]
      refine ⟨t, ?_⟩
      rw [hvalue, formatTimestamp_eq, ht, hclock, dateText, Option.some_inj, Json.str.injEq, ← String.toList_inj,
        String.toList_ofList, hs]
      simp only [List.append_assoc, List.cons_append]
  · intro hall
    obtain ⟨t, hvalue⟩ := hall
    obtain ⟨year, month, day, seconds, micro, hyear, hrest⟩ := bodyText_fields t
    obtain ⟨hmonth, hday, hseconds, hmicro, hbody⟩ := hrest
    have hday31 := daysInMonth_le year month
    have hfraction : fractionText (if micro = 0 then none else some micro) =
        if micro = 0 then [] else '.' :: padded 6 micro := by
      by_cases hzero : micro = 0 <;> simp [hzero, fractionText]
    have hbound : ∀ n ∈ (if micro = 0 then none else some micro), n < 10 ^ 6 := by
      intro n hn
      rw [Option.mem_def, Option.ite_none_left_eq_some] at hn
      rw [← Option.some.inj hn.2]
      exact hmicro
    have hcaptures : captures (formatTimestamp t).toList = some ⟨year, month, day, seconds / 3600,
        seconds / 60 % 60, seconds % 60, if micro = 0 then none else some micro⟩ := by
      refine captures_eq_some.mpr ⟨⟨?_, ?_, ?_, ?_, ?_, ?_, hbound⟩, ?_⟩
      on_goal 7 =>
        rw [formatTimestamp_eq, String.toList_ofList, hbody, dateText, clockText, hfraction]
        simp only [List.append_assoc, List.cons_append]
      all_goals dsimp only; omega
    refine ⟨formatTimestamp t, hvalue, ?_⟩
    rw [hcaptures]
    refine requireWire_of ⟨hyear.1, hmonth.1, hmonth.2, hday.1, ?_, ?_, ?_, ?_, ?_⟩
    · rw [days_eq hmonth]
      exact hday.2
    · show seconds / 3600 < 24
      omega
    · exact Nat.mod_lt _ (by decide)
    · exact Nat.mod_lt _ (by decide)
    · by_cases hzero : micro = 0 <;> simp [hzero]

/-! ## Events -/

/-- Zero has one more text than it has canonical ones. -/
theorem negZero_iff (x : Binary64.Finite) :
    (Numeral.repr x).text ≠ ['-', '0', '.', '0'] ↔ canonicalZero x = x := by
  have htext : (Numeral.repr ⟨true, 0, by decide⟩).text = ['-', '0', '.', '0'] := by decide
  have hsame : (Numeral.repr x).text = ['-', '0', '.', '0'] ↔ x = ⟨true, 0, by decide⟩ := by
    rw [← htext]
    constructor
    · intro h
      exact Json.float.inj (Json.dumps_injOn (Json.wellKeyed_float x) (Json.wellKeyed_float _) h)
    · intro h
      rw [h]
  rw [Ne, hsame, canonicalZero]
  by_cases hzero : x.bits = 0
  · rw [if_pos hzero]
    obtain ⟨neg, bits, lt⟩ := x
    cases hzero
    cases neg <;> simp
  · rw [if_neg hzero]
    exact iff_of_true (fun h => hzero (by rw [h])) rfl

theorem confidence_eq_ok {node : Option ReceiptWire.Node} {value : Option Json}
    (h : Option.Rel (Stands bytes) node value) :
    confidence node = .ok () ↔ ∃ c : Number .unit, value = some (.float c.value) := by
  have hbounds : ∀ x : Binary64.Finite, Bounds.unit.Holds x ↔ 0 ≤ x.toRat ∧ x.toRat ≤ 1 := by
    intro x
    have hzero : Bounds.zero.toRat = 0 := by decide +kernel
    have hone : Bounds.one.toRat = 1 := by decide +kernel
    simp only [Bounds.Holds, Bounds.unit, hzero, Option.mem_some_iff, forall_eq', hone]
  constructor
  · intro hcheck
    cases h with
    | none => cases hcheck
    | @some n v hstands =>
      obtain ⟨before, after, -, hnode⟩ := hstands
      rw [hnode] at hcheck
      cases v with
      | float x =>
        obtain ⟨hlo, hhi, htoken⟩ := requireWire_eq_ok.mp hcheck
        exact ⟨⟨x, (negZero_iff x).mp htoken, (hbounds x).mpr ⟨hlo, hhi⟩⟩, rfl⟩
      | null | bool | int | str | arr | obj => cases hcheck
  · intro hall
    obtain ⟨c, hvalue⟩ := hall
    rw [hvalue] at h
    cases h with
    | some hstands =>
      obtain ⟨before, after, -, hnode⟩ := hstands
      obtain ⟨hlo, hhi⟩ := (hbounds c.value).mp c.holds
      rw [hnode]
      exact requireWire_of ⟨hlo, hhi, (negZero_iff c.value).mpr c.canonical⟩

theorem attributes_eq_ok (h : Stands bytes node v) :
    attributes node = .ok () ↔ ∃ kvs, v = .obj kvs ∧ kvs ≠ [] := by
  constructor
  · intro hcheck
    cases v with
    | obj kvs =>
      obtain ⟨data, extent, hnode, hdata⟩ := h.obj
      rw [hnode] at hcheck
      have hlength := requireWire_eq_ok.mp hcheck
      rw [hdata.length_eq] at hlength
      exact ⟨kvs, rfl, List.length_pos_iff.mp hlength⟩
    | null | bool | int | float | str | arr =>
      obtain ⟨before, after, -, hnode⟩ := h
      rw [hnode] at hcheck
      cases hcheck
  · intro hall
    obtain ⟨kvs, hv, hne⟩ := hall
    rw [hv] at h
    obtain ⟨data, extent, hnode, hdata⟩ := h.obj
    rw [hnode]
    refine requireWire_of ?_
    rw [hdata.length_eq]
    exact List.length_pos_iff.mpr hne

/-- What an optional member may be. -/
theorem optional_eq_ok {node : Option ReceiptWire.Node} {value : Option Json}
    (h : Option.Rel (Stands bytes) node value) {check : ReceiptWire.Node → Wire Unit} {P : Json → Prop}
    (hcheck : ∀ n v, n ∈ node → v ∈ value → Stands bytes n v → (check n = .ok () ↔ P v)) :
    whenPresent node check = .ok () ↔ ∀ v ∈ value, P v := by
  rw [whenPresent_eq_ok]
  cases h with
  | none => exact ⟨fun _ => nofun, fun _ => nofun⟩
  | @some n v hstands =>
    simp only [Option.mem_some_iff, forall_eq']
    exact hcheck n v rfl rfl hstands

/-- The keys that an event must have. -/
def eventKeys : List String :=
  ["claim", "confidence", "event_id", "ingested_at", "modality", "observed_at", "signal", "source"]

/-- The same keys as `EvidenceEvent.fields`. -/
theorem eventKeys_iff {k : String} :
    k ∈ eventKeys ∨ k ∈ ["attributes", "correlation_group"] ↔ k ∈ EvidenceEvent.fields := by
  have hperm : (eventKeys ++ ["attributes", "correlation_group"]).Perm EvidenceEvent.fields := by decide
  rw [← List.mem_append, hperm.mem_iff]

/-- What the checks of `event` say of an object, member by member. -/
structure EventChecked (kvs : List (String × Json)) (id : String) : Prop where
  closed : Closed kvs eventKeys ["attributes", "correlation_group"]
  shallow : reach (.obj kvs) ≤ 64
  claim : ∃ t : Text, get? kvs "claim" = some (.str t.value)
  eventId : ∃ t : Text, get? kvs "event_id" = some (.str t.value)
  source : ∃ t : Text, get? kvs "source" = some (.str t.value)
  modality : ∃ m ∈ ["vision", "audio", "text", "sensor"], get? kvs "modality" = some (.str m)
  signal : ∃ s ∈ ["support", "contradict"], get? kvs "signal" = some (.str s)
  confidence : ∃ c : Number .unit, get? kvs "confidence" = some (.float c.value)
  observedAt : ∃ t, get? kvs "observed_at" = some (.str (formatTimestamp t))
  ingestedAt : ∃ t, get? kvs "ingested_at" = some (.str (formatTimestamp t))
  correlationGroup : ∀ v ∈ get? kvs "correlation_group", ∃ t : Text, v = .str t.value
  attributes : ∀ v ∈ get? kvs "attributes", ∃ lws, v = .obj lws ∧ lws ≠ []
  named : get? kvs "event_id" = some (.str id)

theorem event_obj {kvs : List (String × Json)} (h : Stands bytes node (.obj kvs)) (hwithin : Within (.obj kvs))
    {id : String} : event (some node) = .ok id ↔ EventChecked kvs id := by
  obtain ⟨data, hdata, hfields⟩ := fields_obj h
  have hown : ∀ k, ∀ v ∈ get? kvs k, Own v := fun k v hv => (hwithin.member hv).self
  have hidentifier : ∀ k, (∃ s, identifier (get data k) = .ok s) ↔ ∃ t : Text, get? kvs k = some (.str t.value) := by
    intro k
    simp only [identifier_eq_ok (hdata.rel k) (hown k)]
    constructor
    · intro hread
      obtain ⟨s, t, hv, _⟩ := hread
      exact ⟨t, hv⟩
    · intro hread
      obtain ⟨t, hv⟩ := hread
      exact ⟨t.value, t, hv, rfl⟩
  have hgroup : whenPresent (get data "correlation_group") (fun group => do
      let _ ← identifier (some group)
      .ok ()) = .ok () ↔ ∀ v ∈ get? kvs "correlation_group", ∃ t : Text, v = .str t.value := by
    refine optional_eq_ok (hdata.rel _) fun n v _ hv hstands => ?_
    have hself : ∀ w ∈ some v, Own w := fun w hw => Option.some.inj hw ▸ hown _ v hv
    simp only [bind_eq_ok, identifier_eq_ok (.some hstands) hself, Option.some.injEq, and_true]
    constructor
    · intro hread
      obtain ⟨s, t, ht, _⟩ := hread
      exact ⟨t, ht⟩
    · intro hread
      obtain ⟨t, ht⟩ := hread
      exact ⟨t.value, t, ht, rfl⟩
  have hattributes : whenPresent (get data "attributes") attributes = .ok () ↔
      ∀ v ∈ get? kvs "attributes", ∃ lws, v = .obj lws ∧ lws ≠ [] :=
    optional_eq_ok (hdata.rel _) fun n v _ _ hstands => attributes_eq_ok hstands
  have hheight : (∀ n ∈ some node, n.extent.height ≤ 64) ↔ reach (.obj kvs) ≤ 64 := by
    simp only [Option.mem_some_iff, forall_eq', h.height]
  simp only [event, bind_eq_ok, hfields, requireWire_eq_ok, hheight]
  constructor
  · intro hall
    obtain ⟨data', ⟨hclosed, hsame⟩, _, hshallow, claim, hclaim, eventId, hid, hall⟩ := hall
    obtain ⟨source, hsource, modality, hmodality, _, hm, signal, hall⟩ := hall
    obtain ⟨hsignal, _, hs, _, hconfidence, _, hobserved, hall⟩ := hall
    obtain ⟨_, hingested, _, hcorrelation, _, hattrs, hnamed⟩ := hall
    rw [hsame] at hclaim hid hsource hmodality hsignal hconfidence hobserved hingested hcorrelation hattrs hnamed
    exact ⟨hclosed, hshallow, (hidentifier _).mp ⟨_, hclaim⟩, (hidentifier _).mp ⟨_, hid⟩,
      (hidentifier _).mp ⟨_, hsource⟩, ⟨modality, hm, (text_eq_ok (hdata.rel _)).mp hmodality⟩,
      ⟨signal, hs, (text_eq_ok (hdata.rel _)).mp hsignal⟩, (confidence_eq_ok (hdata.rel _)).mp hconfidence,
      (timestamp_eq_ok (hdata.rel _)).mp hobserved, (timestamp_eq_ok (hdata.rel _)).mp hingested,
      hgroup.mp hcorrelation, hattributes.mp hattrs, (text_eq_ok (hdata.rel _)).mp hnamed⟩
  · intro hchecked
    obtain ⟨claim, hclaim⟩ := (hidentifier _).mpr hchecked.claim
    obtain ⟨eventId, hid⟩ := (hidentifier _).mpr hchecked.eventId
    obtain ⟨source, hsource⟩ := (hidentifier _).mpr hchecked.source
    obtain ⟨modality, hm, hmodality⟩ := hchecked.modality
    obtain ⟨signal, hs, hsignal⟩ := hchecked.signal
    exact ⟨data, ⟨hchecked.closed, rfl⟩, (), hchecked.shallow, claim, hclaim, eventId, hid, source, hsource, modality,
      (text_eq_ok (hdata.rel _)).mpr hmodality, (), hm, signal, (text_eq_ok (hdata.rel _)).mpr hsignal, (), hs, (),
      (confidence_eq_ok (hdata.rel _)).mpr hchecked.confidence, (),
      (timestamp_eq_ok (hdata.rel _)).mpr hchecked.observedAt, (),
      (timestamp_eq_ok (hdata.rel _)).mpr hchecked.ingestedAt, (), hgroup.mpr hchecked.correlationGroup, (),
      hattributes.mpr hchecked.attributes, (text_eq_ok (hdata.rel _)).mpr hchecked.named⟩

mutual

theorem nodes_le_tokens : ∀ v : Json, nodes v ≤ tokens v
  | .null | .bool _ | .int _ | .float _ | .str _ => le_rfl
  | .arr xs => by
    have := nodes_le_tokensItems xs
    rw [Json.nodes_arr, tokens]
    omega
  | .obj kvs => by
    have := nodes_le_tokensMembers kvs
    rw [Json.nodes_obj, tokens]
    omega

theorem nodes_le_tokensItems : ∀ xs : List Json, (xs.map nodes).sum ≤ tokensItems xs
  | [] => le_rfl
  | x :: xs => by
    have := nodes_le_tokens x
    have := nodes_le_tokensItems xs
    rw [List.map_cons, List.sum_cons, tokensItems]
    omega

theorem nodes_le_tokensMembers : ∀ kvs : List (String × Json), (kvs.map fun kv => nodes kv.2).sum ≤ tokensMembers kvs
  | [] => le_rfl
  | (k, x) :: kvs => by
    have := nodes_le_tokens x
    have := nodes_le_tokensMembers kvs
    rw [List.map_cons, List.sum_cons, tokensMembers]
    dsimp only
    omega

end

/-- An object within the budgets that does not reach too far freezes. -/
theorem Within.frozen {kvs : List (String × Json)} (h : Within (.obj kvs)) (hreach : reach (.obj kvs) ≤ 64) :
    ∃ a : FrozenMapping, a.members = kvs :=
  FrozenMapping.exists_members_iff.mpr
    ⟨h.wellKeyed, h.admitted, hreach, (nodes_le_tokens _).trans h.nodes⟩

theorem modality_of_mem {m : String} (h : m ∈ ["vision", "audio", "text", "sensor"]) : ∃ n : Modality, n.value = m := by
  simp only [List.mem_cons, List.not_mem_nil, or_false] at h
  obtain rfl | rfl | rfl | rfl := h
  · exact ⟨.vision, rfl⟩
  · exact ⟨.audio, rfl⟩
  · exact ⟨.text, rfl⟩
  · exact ⟨.sensor, rfl⟩

theorem signal_of_mem {s : String} (h : s ∈ ["support", "contradict"]) : ∃ n : Signal, n.value = s := by
  simp only [List.mem_cons, List.not_mem_nil, or_false] at h
  obtain rfl | rfl := h
  · exact ⟨.support, rfl⟩
  · exact ⟨.contradict, rfl⟩

/-- **What passes the checks of an event** is the document of an event. -/
theorem exists_event {kvs : List (String × Json)} (hwithin : Within (.obj kvs)) {id : String}
    (h : EventChecked kvs id) : ∃ e : EvidenceEvent, .obj kvs = e.toDict ∧ e.eventId.value = id := by
  obtain ⟨claim, hclaim⟩ := h.claim
  obtain ⟨eventId, hid⟩ := h.eventId
  obtain ⟨source, hsource⟩ := h.source
  obtain ⟨m, hm, hmodality⟩ := h.modality
  obtain ⟨modality, rfl⟩ := modality_of_mem hm
  obtain ⟨s, hs, hsignal⟩ := h.signal
  obtain ⟨signal, rfl⟩ := signal_of_mem hs
  obtain ⟨confidence, hconfidence⟩ := h.confidence
  obtain ⟨observedAt, hobserved⟩ := h.observedAt
  obtain ⟨ingestedAt, hingested⟩ := h.ingestedAt
  have hgroup : ∃ group : Option Text, get? kvs "correlation_group" = group.map fun g => .str g.value := by
    cases hget : get? kvs "correlation_group" with
    | none => exact ⟨none, rfl⟩
    | some v =>
      obtain ⟨t, ht⟩ := h.correlationGroup v hget
      exact ⟨some t, by rw [ht]; rfl⟩
  have hattributes : ∃ a : FrozenMapping,
      get? kvs "attributes" = if a.members = [] then none else some (.obj a.members) := by
    cases hget : get? kvs "attributes" with
    | none =>
      obtain ⟨a, ha⟩ := (@FrozenMapping.exists_members_iff []).mpr
        ⟨Json.wellKeyed_obj.mpr ⟨.nil, nofun⟩, List.forall_mem_singleton.mpr ⟨trivial, nofun⟩, by decide, by decide⟩
      exact ⟨a, (if_pos ha).symm⟩
    | some v =>
      obtain ⟨lws, hv, hne⟩ := h.attributes v hget
      rw [hv] at hget
      obtain ⟨before, after, hkvs, -⟩ := List.lookup_eq_some_iff.mp hget
      have hmem : ("attributes", Json.obj lws) ∈ kvs := hkvs ▸ List.mem_append_right before List.mem_cons_self
      obtain ⟨-, -, hreach, -⟩ := measures_le_members hmem
      have hshallow := h.shallow
      rw [reach] at hshallow
      obtain ⟨a, ha⟩ := (hwithin.member hget).frozen (by dsimp only at hreach; omega)
      exact ⟨a, by rw [ha, if_neg hne, hv]⟩
  obtain ⟨correlationGroup, hcorrelation⟩ := hgroup
  obtain ⟨attributes, hattrs⟩ := hattributes
  let e : EvidenceEvent := ⟨eventId, claim, modality, source, signal, confidence, observedAt, ingestedAt,
    correlationGroup, attributes⟩
  refine ⟨e, EvidenceEvent.obj_eq_toDict (Json.wellKeyed_obj.mp hwithin.wellKeyed).1 fun k => ?_, ?_⟩
  · obtain ⟨h₁, h₂, h₃, h₄, h₅, h₆, h₇, h₈, h₉, h₁₀⟩ := e.get?_items
    by_cases hk : k ∈ EvidenceEvent.fields
    · simp only [EvidenceEvent.fields, List.mem_cons, List.not_mem_nil, or_false] at hk
      obtain rfl | rfl | rfl | rfl | rfl | rfl | rfl | rfl | rfl | rfl := hk
      · rw [hid, h₁]
      · rw [hclaim, h₂]
      · rw [hmodality, h₃]
      · rw [hsource, h₄]
      · rw [hsignal, h₅]
      · rw [hconfidence, h₆]
      · rw [hobserved, h₇]
      · rw [hingested, h₈]
      · rw [hcorrelation, h₉]
      · rw [hattrs, h₁₀]
    · have hout : k ∉ keys kvs := by
        intro hmem
        exact hk (eventKeys_iff.mp (h.closed.2 k hmem))
      have hout' : k ∉ keys e.items := fun hmem => hk (e.keys_items k hmem)
      rw [Json.mem_keys_iff, Bool.not_eq_true, Option.isSome_eq_false_iff, Option.isNone_iff_eq_none] at hout hout'
      rw [hout, hout']
  · exact Json.str.inj (Option.some.inj (hid.symm.trans h.named))

/-- And the document of an event passes them. -/
theorem checked_toDict (e : EvidenceEvent) (hshallow : reach e.toDict ≤ 64) :
    EventChecked e.members e.eventId.value := by
  obtain ⟨h₁, h₂, h₃, h₄, h₅, h₆, h₇, h₈, h₉, h₁₀⟩ := e.get?_items
  simp only [← e.get?_members] at h₁ h₂ h₃ h₄ h₅ h₆ h₇ h₈ h₉ h₁₀
  refine ⟨⟨?_, ?_⟩, hshallow, ⟨_, h₂⟩, ⟨_, h₁⟩, ⟨_, h₄⟩, ⟨_, ?_, h₃⟩, ⟨_, ?_, h₅⟩, ⟨_, h₆⟩, ⟨_, h₇⟩, ⟨_, h₈⟩, ?_, ?_, h₁⟩
  · intro k hk
    rw [Json.mem_keys_iff]
    simp only [eventKeys, List.mem_cons, List.not_mem_nil, or_false] at hk
    obtain rfl | rfl | rfl | rfl | rfl | rfl | rfl | rfl := hk <;> simp only [*, Option.isSome_some]
  · intro k hk
    exact eventKeys_iff.mpr (e.keys_items k (Json.mem_keys_foldr_insertKey hk))
  · cases e.modality <;> decide
  · cases e.signal <;> decide
  · intro v hv
    rw [h₉, Option.mem_def, Option.map_eq_some_iff] at hv
    obtain ⟨g, -, hg⟩ := hv
    exact ⟨g, hg.symm⟩
  · intro v hv
    rw [h₁₀, Option.mem_def, Option.ite_none_left_eq_some] at hv
    exact ⟨_, (Option.some.inj hv.2).symm, hv.1⟩

/-- **`event`** accepts the nodes of the documents of events that are nested 64 deep at most. -/
theorem event_eq_ok {node : Option ReceiptWire.Node} {value : Option Json}
    (h : Option.Rel (Stands bytes) node value) (hwithin : ∀ v ∈ value, Within v) {id : String} :
    event node = .ok id ↔
      ∃ e : EvidenceEvent, value = some e.toDict ∧ reach e.toDict ≤ 64 ∧ e.eventId.value = id := by
  constructor
  · intro hevent
    have hfields : ∃ data, fields node eventKeys ["attributes", "correlation_group"] = .ok data := by
      simp only [event, bind_eq_ok] at hevent
      obtain ⟨data, hdata, -⟩ := hevent
      exact ⟨data, hdata⟩
    obtain ⟨data, hdata⟩ := hfields
    obtain ⟨n, kvs, hnode, hvalue, hstands⟩ := obj_of_fields h hdata
    rw [hnode] at hevent
    have hchecked := (event_obj hstands (hwithin _ hvalue)).mp hevent
    obtain ⟨e, he, hid⟩ := exists_event (hwithin _ hvalue) hchecked
    exact ⟨e, by rw [hvalue, he], he ▸ hchecked.shallow, hid⟩
  · intro hall
    obtain ⟨e, hvalue, hshallow, hid⟩ := hall
    rw [hvalue] at h
    cases h with
    | some hstands => exact (event_obj hstands (hwithin _ hvalue)).mpr (hid ▸ checked_toDict e hshallow)

/-! ## Hashed spans -/

section Hashes

variable {D : Type} [Hashing D]

theorem tagged_eq (tag : Char) (parts : List Bytes) : (tagged tag parts : D) = hashBytes tag parts.flatten := by
  have hdomain : DOMAIN = Utf8.encode domain := Eq.refl _
  rw [tagged, sha, hashBytes, hdomain, Utf8.encode_append, List.flatten_cons, List.flatten_cons, List.append_assoc]

theorem join_eq (left right : D) : join left right = nodeHash left right := by
  rw [join, tagged_eq, nodeHash, List.flatten_cons, List.flatten_cons, List.flatten_nil, List.append_nil]

theorem dumps_nat (n : ℕ) : dumps (.int n) = (toString n).toList := by
  have hneg : ¬(n : ℤ) < 0 := by omega
  rw [dumps, ReceiptWire.text_ofInt, if_neg hneg, List.nil_append, Int.natAbs_natCast]
  exact (Nat.toList_repr).symm

/-- **The chain digest over the bytes of an event** is that of the event. -/
theorem chained_eq [WideHex D] {version : String} (hversion : version = "1.0" ∨ version = "2.0") (previous : D) (sequence : ℕ)
    (e : EvidenceEvent) : chained version previous sequence (canonicalBytes e.toDict) =
      chainDigest previous e sequence version := by
  obtain rfl | rfl := hversion
  · rw [chained, chainDigest, if_pos rfl, if_pos rfl, sha]
    have hnewline : utf8 "\n" = Utf8.encode ['\n'] := rfl
    have hcons : '\n' :: canonicalJson e.toDict false = ['\n'] ++ canonicalJson e.toDict false := rfl
    rw [hcons, Utf8.encode_append, Utf8.encode_append, List.flatten_cons, List.flatten_cons, List.flatten_cons,
      List.flatten_nil, List.append_nil, hnewline]
    rfl
  · rw [chained, chainDigest, if_neg (by decide), if_neg (by decide), sha]
    have hdict : Json.dict [("schema_version", .str "2.0"), ("sequence", .int sequence),
        ("previous_digest", .str (hex previous)), ("event", e.toDict)] =
        .obj [("event", e.toDict), ("previous_digest", .str (hex previous)), ("schema_version", .str "2.0"),
          ("sequence", .int sequence)] := by
      simp +decide only [Json.dict, List.foldr, Json.insertKey, if_true, if_false]
    have hopen : "\x7b\"event\":".toList = '{' :: (dumpsString "event" ++ [':']) := by
      rw [show dumpsString "event" = _ from Json.dumpsString_literal rfl]
      exact String.toList_ofList
    have hprevious : ",\"previous_digest\":\"".toList = ',' :: (dumpsString "previous_digest" ++ [':', '"']) := by
      rw [show dumpsString "previous_digest" = _ from Json.dumpsString_literal rfl]
      exact String.toList_ofList
    have hversion : "\",\"schema_version\":\"2.0\",\"sequence\":".toList = '"' :: ',' ::
        (dumpsString "schema_version" ++ ':' :: (dumpsString "2.0" ++ ',' :: (dumpsString "sequence" ++ [':']))) := by
      rw [show dumpsString "schema_version" = _ from Json.dumpsString_literal rfl,
        show dumpsString "2.0" = _ from Json.dumpsString_literal rfl,
        show dumpsString "sequence" = _ from Json.dumpsString_literal rfl]
      exact String.toList_ofList
    have hclose : "\x7d".toList = ['}'] := rfl
    refine congrArg sha256 ?_
    rw [hdict, canonicalBytes, canonicalBytes, canonicalJson, canonicalJson, List.flatten_cons, List.flatten_cons,
      List.flatten_cons, List.flatten_nil, List.append_nil, utf8, utf8, ← Utf8.encode_append, ← Utf8.encode_append]
    refine congrArg Utf8.encode ?_
    simp only [Bool.false_eq_true, if_false, String.toList_append, hopen, hprevious, hversion, hclose, ← dumps_nat]
    simp only [dumps, dumpsMembers, Json.dumpsString_plain (plainText_hex previous), if_true,
      if_false, List.append_assoc, List.cons_append, List.nil_append, Bool.false_eq_true]

/-- **The leaf over the bytes of a receipt** is that of the receipt. -/
theorem leaf_eq {version : String} (hversion : version = "1.0" ∨ version = "2.0") (entry : LedgerEntry D) :
    (tagged 'L' [utf8 ("\x7b\"ledger_version\":\"" ++ version ++ "\",\"receipt\":"), canonicalBytes entry.toDict,
      utf8 "\x7d"] : D) = leafHash version entry := by
  have hdict : leafDocument version entry =
      .obj [("ledger_version", .str version), ("receipt", entry.toDict)] := by
    simp +decide only [leafDocument, Json.dict, List.foldr, Json.insertKey, if_true, if_false]
  have hplain : dumpsString version = '"' :: (version.toList ++ ['"']) := by
    refine Json.dumpsString_plain ?_
    obtain rfl | rfl := hversion <;> exact Json.plainText_literal rfl
  have hopen : "\x7b\"ledger_version\":\"".toList =
      '{' :: (dumpsString "ledger_version" ++ [':', '"']) := by
    rw [show dumpsString "ledger_version" = _ from Json.dumpsString_literal rfl]
    exact String.toList_ofList
  have hreceipt : "\",\"receipt\":".toList = '"' :: ',' :: (dumpsString "receipt" ++ [':']) := by
    rw [show dumpsString "receipt" = _ from Json.dumpsString_literal rfl]
    exact String.toList_ofList
  have hclose : "\x7d".toList = ['}'] := rfl
  rw [tagged_eq, leafHash, hdict]
  refine congrArg (hashBytes 'L') ?_
  rw [canonicalBytes, canonicalBytes, canonicalJson, canonicalJson, List.flatten_cons, List.flatten_cons,
    List.flatten_cons, List.flatten_nil, List.append_nil, utf8, utf8, ← Utf8.encode_append, ← Utf8.encode_append]
  refine congrArg Utf8.encode ?_
  simp only [Bool.false_eq_true, if_false, String.toList_append, hopen, hreceipt, hclose]
  simp only [dumps, dumpsMembers, hplain, if_true, if_false, List.append_assoc, List.cons_append, List.nil_append,
    Bool.false_eq_true]

end Hashes

/-! ## Receipts -/

section Receipts

variable {D : Type} [Hashing D]

/-- The receipt of a ledger entry, as `receipt` reports it. -/
def receiptOf (entry : LedgerEntry D) : Receipt D :=
  ⟨entry.sequence, entry.eventId, entry.digest, entry.previousDigest⟩

/-- A receipt holds the document of an event and its name. -/
structure Over (entry : LedgerEntry D) (e : EvidenceEvent) : Prop where
  members : entry.event.members = e.members
  eventId : entry.eventId = e.eventId.value
  sequence : entry.sequence < maxLedgerEntries

theorem Over.decodes {entry : LedgerEntry D} {e : EvidenceEvent} (h : Over entry e) :
    LedgerEntry.fromDict entry.toDict = .ok entry ∧ entry.decoded "event" = .ok e :=
  LedgerEntry.fromDict_of_decodes e.decodes h.members h.eventId h.sequence

/-- A receipt that decodes to itself is over the event that it holds. -/
theorem over_of_decodes {entry : LedgerEntry D} (h : LedgerEntry.fromDict entry.toDict = .ok entry) :
    ∃ e, Over entry e := by
  obtain ⟨-, hsequence, e, -, hmembers, hid⟩ := LedgerEntry.fromDict_toDict h
  exact ⟨e, hmembers.symm, hid, hsequence⟩

theorem Over.toDict_eq {entry : LedgerEntry D} {e : EvidenceEvent} (h : Over entry e) :
    entry.toDict = .obj [("digest", .str (hex entry.digest)), ("event", e.toDict),
      ("event_id", .str e.eventId.value), ("previous_digest", .str (hex entry.previousDigest)),
      ("sequence", .int entry.sequence)] := by
  rw [entry.toDict_eq, h.members, h.eventId]
  rfl

variable [DecidableEq D] [WideHex D]

/-- **`receipt`** accepts the nodes of the documents of receipts whose digest is chained. -/
theorem receipt_eq_ok {node : Option ReceiptWire.Node} {value : Option Json}
    (h : Option.Rel (Stands bytes) node value) (hwithin : ∀ v ∈ value, Within v) {version : String}
    (hversion : version = "1.0" ∨ version = "2.0") {r : Receipt D} :
    receipt bytes node version = .ok r ↔ ∃ (entry : LedgerEntry D) (e : EvidenceEvent), Over entry e ∧
      value = some entry.toDict ∧ size entry.toDict ≤ RECEIPT_LIMIT ∧
      chainDigest entry.previousDigest e entry.sequence version = entry.digest ∧ receiptOf entry = r := by
  simp only [receipt, bind_eq_ok, requireWire_eq_ok, exists_unit, Except.ok.injEq, lengthOf_eq h]
  constructor
  · intro hall
    obtain ⟨hsize, data, hdata, sequence, hsequence, eventId, hevent, hall⟩ := hall
    obtain ⟨named, hnamed, hsame, previousText, hpreviousText, previous, hprevious, hall⟩ := hall
    obtain ⟨suppliedText, hsuppliedText, supplied, hsupplied, hexpected, hr⟩ := hall
    obtain ⟨n, kvs, hnode, hvalue, hstands⟩ := obj_of_fields h hdata
    obtain ⟨own, hown, hfields⟩ := fields_obj hstands
    rw [hnode] at hdata
    obtain ⟨hclosed, hsame'⟩ := (hfields _ _ _).mp hdata
    rw [hsame'] at hsequence hevent hnamed hpreviousText hsuppliedText hexpected
    obtain ⟨hseq, hmax⟩ := (integer_eq_ok (hown.rel _)).mp hsequence
    have hkvs := hwithin _ hvalue
    obtain ⟨e, hget, hshallow, hid⟩ := (event_eq_ok (hown.rel _) fun v hv => hkvs.member hv).mp hevent
    rw [text_eq_ok (hown.rel _)] at hnamed hpreviousText hsuppliedText
    rw [digest_eq_ok] at hprevious hsupplied
    rw [spanOf_eq (hown.rel _), hget] at hexpected
    obtain ⟨frozen, hfrozen⟩ := (hkvs.member hget).frozen hshallow
    have hover : Over (⟨sequence, e.eventId.value, frozen, previous, supplied⟩ : LedgerEntry D) e :=
      ⟨hfrozen, rfl, by unfold maxLedgerEntries; dsimp only; omega⟩
    have hdict : Json.obj kvs = (⟨sequence, e.eventId.value, frozen, previous, supplied⟩ : LedgerEntry D).toDict := by
      rw [hover.toDict_eq, hclosed.eq_zip (Json.wellKeyed_obj.mp hkvs.wellKeyed).1 (by decide)
        (.cons (hsupplied ▸ hsuppliedText) (.cons hget (.cons (hid.symm ▸ hsame ▸ hnamed)
          (.cons (hprevious ▸ hpreviousText) (.cons hseq .nil)))))]
      rfl
    refine ⟨_, e, hover, by rw [hvalue, hdict], ?_, ?_, ?_⟩
    · rw [hvalue, hdict] at hsize
      exact hsize
    · rw [← chained_eq hversion]
      exact hexpected
    · rw [← hr, ← hid]
      rfl
  · intro hall
    obtain ⟨entry, e, hover, hvalue, hsize, hchain, hr⟩ := hall
    rw [hvalue, hover.toDict_eq] at h
    cases h with
    | @some n _ hstands =>
      obtain ⟨data, hdata, hfields⟩ := fields_obj hstands
      have hkvs := hwithin _ hvalue
      rw [hover.toDict_eq] at hkvs
      have hseq := hover.sequence
      unfold maxLedgerEntries at hseq
      obtain ⟨-, hreach, -⟩ := entry.event.admitted
      rw [hover.members] at hreach
      refine ⟨by rw [hvalue]; exact hsize, data,
        (hfields ["digest", "event", "event_id", "previous_digest", "sequence"] [] data).mpr
          ⟨@closed_zip _ [_, _, _, _, _] rfl, rfl⟩,
        entry.sequence, (integer_eq_ok (hdata.rel "sequence")).mpr ⟨rfl, by omega⟩, e.eventId.value,
        (event_eq_ok (hdata.rel "event") fun v hv => hkvs.member hv).mpr ⟨e, rfl, hreach, rfl⟩, e.eventId.value,
        (text_eq_ok (hdata.rel "event_id")).mpr rfl, rfl, hex entry.previousDigest,
        (text_eq_ok (hdata.rel "previous_digest")).mpr rfl, entry.previousDigest, digest_eq_ok.mpr rfl,
        hex entry.digest, (text_eq_ok (hdata.rel "digest")).mpr rfl, entry.digest, digest_eq_ok.mpr rfl, ?_, ?_⟩
      · rw [spanOf_eq (hdata.rel _), ← hchain]
        exact chained_eq hversion _ _ _
      · rw [← hr, receiptOf, hover.eventId]

end Receipts

/-! ## Headers -/

/-- Behind the first member and its comma stand the others. -/
theorem body_eq {k : String} {x : Json} {kv : String × Json} {kvs : List (String × Json)}
    (h : Stands bytes node (.obj ((k, x) :: kv :: kvs))) {names : List String}
    {data : List (String × ReceiptWire.Node)} (hfields : fields (some node) names [] = .ok data) :
    (bytes.take (stopOf (some node))).drop (stopOf (get data k) + 1) =
      Utf8.encode (dumpsMembers true (kv :: kvs)) := by
  obtain ⟨before, after, hbytes, hnode⟩ := h
  have hbrace : String.utf8EncodeChar '{' = [123] := Utf8.encode_ascii (by decide)
  have hcolon : String.utf8EncodeChar ':' = [58] := Utf8.encode_ascii (by decide)
  have hcomma : String.utf8EncodeChar ',' = [44] := Utf8.encode_ascii (by decide)
  have htext : Utf8.encode (dumps (.obj ((k, x) :: kv :: kvs))) =
      ([123] ++ (Utf8.encode (dumpsString k) ++ ([58] ++ (Utf8.encode (dumps x) ++ [44])))) ++
        Utf8.encode (dumpsMembers true (kv :: kvs)) := by
    have hcons : dumps (.obj ((k, x) :: kv :: kvs)) =
        '{' :: (dumpsString k ++ (':' :: (dumps x ++ (',' :: dumpsMembers true (kv :: kvs))))) := rfl
    rw [hcons, Utf8.encode_cons, Utf8.encode_append, Utf8.encode_cons, Utf8.encode_append, Utf8.encode_cons, hbrace,
      hcolon, hcomma]
    simp only [List.append_assoc]
  have hstop : stopOf (some node) = before.length + (Utf8.encode (dumps (.obj ((k, x) :: kv :: kvs)))).length := by
    rw [hnode]
    exact (extent_place before.length _).2
  have hfirst : stopOf (get data k) + 1 = (before ++
      ([123] ++ (Utf8.encode (dumpsString k) ++ ([58] ++ (Utf8.encode (dumps x) ++ [44]))))).length := by
    rw [hnode, place] at hfields
    simp only [fields, bind_eq_ok, requireWire_eq_ok, exists_unit, Except.ok.injEq] at hfields
    rw [← hfields.2, placeMembers, get, List.lookup_cons_self]
    show (place _ x).extent.stop + 1 = _
    rw [(extent_place _ x).2]
    simp only [List.length_append, List.length_singleton, quotedSize, size]
    omega
  rw [hstop, hfirst, hbytes, List.take_length_add_append, List.take_left, htext]
  exact (congrArg _ (List.append_assoc before _ _).symm).trans List.drop_left

section Headers

variable {D : Type} [Hashing D]

/-- The header of a commitment, as `header` reports it. -/
def headerOf (c : LedgerCommitment D) : Header D :=
  ⟨c.ledgerVersion, c.entryCount, c.genesis, c.headDigest, c.rootHash, c.digest⟩

/-- The genesis digest, from the first character of the version. -/
theorem genesis_iff {version : String} (h : version = "1.0" ∨ version = "2.0") {genesis : D} :
    genesis = sha [utf8 ("evidence-braid-ledger:v" ++ String.ofList (version.toList.take 1))] ↔
      versions? version = some genesis := by
  have hsha : ∀ bytes : Bytes, (sha [bytes] : D) = sha256 bytes := by
    intro bytes
    rw [sha, List.flatten_singleton]
  obtain rfl | rfl := h
  · have htext : "evidence-braid-ledger:v" ++ String.ofList ("1.0".toList.take 1) = "evidence-braid-ledger:v1" := by
      decide
    rw [hsha, htext, versions?, if_pos rfl, Option.some_inj, utf8]
    exact eq_comm
  · have htext : "evidence-braid-ledger:v" ++ String.ofList ("2.0".toList.take 1) = "evidence-braid-ledger:v2" := by
      decide
    rw [hsha, htext, versions?, if_neg (by decide), if_pos rfl, Option.some_inj, utf8]
    exact eq_comm

theorem emptyRoot_eq : (tagged 'E' [] : D) = emptyRoot := tagged_eq 'E' []

/-- The hash of a header's other fields is its digest. -/
theorem commitment_eq (c : LedgerCommitment D) {rest : List (String × Json)}
    (h : c.toDict = .obj (("commitment_digest", .str (hex c.digest)) :: rest)) :
    (tagged 'C' [utf8 "\x7b", Utf8.encode (dumpsMembers true rest)] : D) = c.digest := by
  rw [c.toDict_eq, Json.obj.injEq, List.cons.injEq] at h
  have hbody : Json.dict c.body = .obj rest := by
    rw [← h.2]
    simp +decide only [LedgerCommitment.body, Json.dict, List.foldr, Json.insertKey, if_true, if_false]
  rw [tagged_eq, LedgerCommitment.digest, hbody]
  congr 1
  rw [List.flatten_cons, List.flatten_cons, List.flatten_nil, List.append_nil, utf8, ← Utf8.encode_append]
  rfl

variable [DecidableEq D]

/-- **`header`** accepts the nodes of the documents of commitments. -/
theorem header_eq_ok {node : Option ReceiptWire.Node} {value : Option Json}
    (h : Option.Rel (Stands bytes) node value) (hwithin : ∀ v ∈ value, Within v) {r : Header D} :
    header bytes node = .ok r ↔ ∃ c : LedgerCommitment D, value = some c.toDict ∧ headerOf c = r := by
  simp only [header, bind_eq_ok, requireWire_eq_ok, exists_unit, Except.ok.injEq]
  constructor
  · intro hall
    obtain ⟨data, hdata, kind, hkind, schemaVersion, hschema, ⟨hk, hs⟩, versionText, hversionText,
      hall⟩ := hall
    obtain ⟨version, hversion, entryCount, hcount, genesisText, hgenesisText, genesis, hgenesis,
      hall⟩ := hall
    obtain ⟨headText, hheadText, headDigest, hhead, rootText, hrootText, rootHash, hroot,
      hall⟩ := hall
    obtain ⟨commitmentText, hcommitmentText, commitmentDigest, hcommitment, hfirst, hempty,
      hdigest, hr⟩ := hall
    obtain ⟨n, kvs, hnode, hvalue, hstands⟩ := obj_of_fields h hdata
    obtain ⟨own, hown, hfields⟩ := fields_obj hstands
    rw [hnode] at hdata hdigest
    obtain ⟨hclosed, hsame⟩ := (hfields _ _ _).mp hdata
    rw [hsame] at hkind hschema hversionText hcount hgenesisText hheadText hrootText hcommitmentText hdigest
    obtain ⟨hcount, hmax⟩ := (integer_eq_ok (hown.rel _)).mp hcount
    rw [text_eq_ok (hown.rel _)] at hkind hschema hversionText hgenesisText hheadText hrootText hcommitmentText
    rw [digest_eq_ok] at hgenesis hhead hroot hcommitment
    obtain ⟨hsupported, rfl⟩ := version_eq_ok.mp hversion
    rw [genesis_iff hsupported] at hfirst
    rw [emptyRoot_eq] at hempty
    have hkvs := hclosed.eq_zip (Json.wellKeyed_obj.mp (hwithin _ hvalue).wellKeyed).1 (by decide)
      (.cons (hcommitment ▸ hcommitmentText) (.cons hcount (.cons (hgenesis ▸ hgenesisText)
        (.cons (hhead ▸ hheadText) (.cons (hk ▸ hkind) (.cons hversionText (.cons (hroot ▸ hrootText)
          (.cons (hs ▸ hschema) .nil))))))))
    let c : LedgerCommitment D := ⟨versionText, genesis, headDigest, entryCount, rootHash, hfirst, hmax, hempty⟩
    have hbody : (tagged 'C' [utf8 "\x7b", Utf8.encode (dumpsMembers true (("entry_count", .int entryCount) ::
        [("genesis", .str (hex genesis)), ("head_digest", .str (hex headDigest)),
          ("kind", .str "evidence-braid-ledger-commitment"), ("ledger_version", .str versionText),
          ("root_hash", .str (hex rootHash)), ("schema_version", .str "1.0")]))] : D) = c.digest :=
      commitment_eq c c.toDict_eq
    rw [hkvs] at hstands
    rw [← hsame, body_eq hstands hdata] at hdigest
    have hown : c.digest = commitmentDigest := hbody.symm.trans hdigest
    refine ⟨c, ?_, ?_⟩
    · rw [hvalue, hkvs, c.toDict_eq, hown]
      rfl
    · rw [← hr, headerOf, hown]
  · intro hall
    obtain ⟨c, hvalue, hr⟩ := hall
    rw [hvalue, c.toDict_eq] at h
    cases h with
    | @some n _ hstands =>
      obtain ⟨data, hdata, hfields⟩ := fields_obj hstands
      have hclosed := (hfields ["commitment_digest", "entry_count", "genesis", "head_digest", "kind",
        "ledger_version", "root_hash", "schema_version"] [] data).mpr ⟨@closed_zip _ [_, _, _, _, _, _, _, _] rfl, rfl⟩
      refine ⟨data, hclosed, _, (text_eq_ok (hdata.rel "kind")).mpr rfl, _,
        (text_eq_ok (hdata.rel "schema_version")).mpr rfl, ⟨rfl, rfl⟩, _,
        (text_eq_ok (hdata.rel "ledger_version")).mpr rfl, c.ledgerVersion, version_eq_ok.mpr ⟨c.version_eq, rfl⟩,
        c.entryCount, (integer_eq_ok (hdata.rel "entry_count")).mpr ⟨rfl, c.count_le⟩, _,
        (text_eq_ok (hdata.rel "genesis")).mpr rfl, c.genesis, digest_eq_ok.mpr rfl, _,
        (text_eq_ok (hdata.rel "head_digest")).mpr rfl, c.headDigest, digest_eq_ok.mpr rfl, _,
        (text_eq_ok (hdata.rel "root_hash")).mpr rfl, c.rootHash, digest_eq_ok.mpr rfl, _,
        (text_eq_ok (hdata.rel "commitment_digest")).mpr rfl, c.digest, digest_eq_ok.mpr rfl,
        (genesis_iff c.version_eq).mpr c.genesis_eq, ?_, ?_, hr⟩
      · rw [emptyRoot_eq]
        exact c.empty_eq
      · rw [body_eq hstands hclosed]
        exact commitment_eq c c.toDict_eq

end Headers

/-! ## Routes -/

theorem doubled_pow (width j : ℕ) : ∃ k, doubled width (2 ^ j) = 2 ^ k := by
  induction hk : width - 2 ^ j using Nat.strong_induction_on generalizing j with
  | _ n ih =>
    rw [doubled]
    by_cases h : 0 < 2 ^ j ∧ 2 ^ j * 2 < width
    · rw [dif_pos h, ← pow_succ]
      refine ih _ ?_ (j + 1) rfl
      rw [pow_succ]
      omega
    · rw [dif_neg h]
      exact ⟨j, rfl⟩

/-- The loop over powers of two ends at the split of the tree. -/
theorem doubled_eq {width : ℕ} (h : 1 < width) : doubled width 1 = Merkle.split width := by
  obtain ⟨k, hk⟩ := doubled_pow width 0
  obtain ⟨-, hlo, hhi⟩ := doubled_spec Nat.one_pos h
  rw [pow_zero] at hk
  rw [hk] at hlo hhi ⊢
  exact (Merkle.split_of_between hlo (by rwa [pow_succ])).symm

theorem leftSiblings_eq (width position : ℕ) : leftSiblings width position = routeDown position width := by
  induction width using Nat.strong_induction_on generalizing position with
  | _ width ih =>
    rw [leftSiblings, routeDown]
    by_cases hwidth : 1 < width
    · have hpos := Merkle.split_pos width
      have hlt := Merkle.split_lt (n := width) hwidth
      rw [dif_pos hwidth, dif_pos hwidth, doubled_eq hwidth]
      show (if Merkle.split width ≤ position then _ else _) = if Merkle.split width ≤ position then _ else _
      rw [ih _ (by omega), ih _ hlt]
      rfl
    · rw [dif_neg hwidth, dif_neg hwidth]

/-- **The bottom-up loop** consumes the route from its end. -/
theorem ascend_eq {D : Type} [Hashing D] {leftSibling : List Bool} {hashes : List D} :
    ∀ {index : ℕ} {rootHash : D}, leftSibling.length = index + hashes.length →
      ascend leftSibling index rootHash hashes = climb rootHash ((leftSibling.reverse.drop index).zip hashes) := by
  induction hashes with
  | nil =>
    intro index rootHash _
    rw [ascend, List.zip_nil_right]
    rfl
  | cons hash hashes ih =>
    intro index rootHash hlength
    rw [List.length_cons] at hlength
    have hindex : index < leftSibling.reverse.length := by
      rw [List.length_reverse]
      omega
    have hside : leftSibling[leftSibling.length - index - 1]?.getD false = leftSibling.reverse[index] := by
      rw [List.length_reverse] at hindex
      have hreverse := List.getElem?_reverse hindex
      rw [Nat.sub_right_comm, ← hreverse, List.getElem?_eq_getElem, Option.getD_some]
    rw [ascend, List.drop_eq_getElem_cons hindex, List.zip_cons_cons]
    rw [ih (by omega), hside, climb, climb, List.foldl_cons, join_eq, join_eq]

section Members

variable {D : Type} [Hashing D]

theorem siblingHashes_eq_ok {nodes : List ReceiptWire.Node} {xs : List Json} (h : List.Forall₂ (Stands bytes) nodes xs)
    {ds : List D} : siblingHashes nodes = .ok ds ↔ xs = ds.map fun d => .str (hex d) := by
  induction h generalizing ds with
  | nil =>
    rw [siblingHashes, Except.ok.injEq]
    cases ds <;> simp
  | @cons n x ns xs hstands _ ih =>
    simp only [siblingHashes, bind_eq_ok, text_eq_ok (.some hstands), digest_eq_ok, ih, Except.ok.injEq]
    constructor
    · intro hall
      obtain ⟨s, hs, d, hd, ds', hds, heq⟩ := hall
      rw [← heq, List.map_cons, hds, Option.some.inj hs, hd]
    · intro heq
      cases ds with
      | nil => cases heq
      | cons d ds =>
        rw [List.map_cons, List.cons.injEq] at heq
        exact ⟨hex d, by rw [heq.1], d, rfl, ds, heq.2, rfl⟩

mutual

/-- Both verifiers count values and keys. -/
theorem graphWork_eq_tokens : ∀ v : Json, graphWork v = tokens v
  | .null | .bool _ | .int _ | .float _ | .str _ => rfl
  | .arr xs => by
    rw [graphWork, tokens, graphWorkItems_eq_tokens, Nat.add_comm]
  | .obj kvs => by
    have := graphWorkMembers_eq_tokens kvs
    rw [graphWork, tokens]
    omega

theorem graphWorkItems_eq_tokens : ∀ xs : List Json, graphWorkItems xs = tokensItems xs
  | [] => rfl
  | x :: xs => by rw [graphWorkItems, tokensItems, graphWork_eq_tokens, graphWorkItems_eq_tokens]

theorem graphWorkMembers_eq_tokens : ∀ kvs : List (String × Json),
    graphWorkMembers kvs + kvs.length = tokensMembers kvs
  | [] => rfl
  | (k, x) :: kvs => by
    have := graphWork_eq_tokens x
    have := graphWorkMembers_eq_tokens kvs
    rw [graphWorkMembers, tokensMembers, List.length_cons]
    omega

end

/-- The receipts that `receipt` accepts are within the bounds of a member proof. -/
theorem receiptBytes_of {entry : LedgerEntry D} {e : EvidenceEvent} (hover : Over entry e)
    (hwithin : Within entry.toDict) (hsize : size entry.toDict ≤ RECEIPT_LIMIT) :
    receiptBytes entry = .ok (canonicalBytes entry.toDict) := by
  obtain ⟨hreach, hsmall⟩ := entry.measures_toDict hover.sequence
  have hscalars := scalarBytes_le_size entry.toDict
  have hpreflight : preflight entry.toDict = .ok () := by
    refine preflight_eq_ok.mpr ⟨?_, ?_, hreach.trans (by decide), hsmall⟩
    · rw [graphWork_eq_tokens]
      exact hwithin.nodes
    · unfold RECEIPT_LIMIT at hsize
      unfold maxBundleBytes
      omega
  simp only [receiptBytes, bind_eq_ok]
  exact ⟨(), hpreflight, (), valid_of hsize, entry, hover.decodes.1, (), valid_of rfl, trivial⟩

variable [DecidableEq D]

/-- What both verifiers ask of a member, after a position and so many bytes of receipts. -/
structure MemberHolds (c : LedgerCommitment D) (previous : ℤ) (used : ℕ) (m : LedgerMemberProof D) : Prop where
  increasing : previous < m.entry.sequence
  inside : m.entry.sequence < c.entryCount
  count : m.siblings.length = (routeDown m.entry.sequence c.entryCount).length
  size : used + size m.entry.toDict ≤ RECEIPT_LIMIT
  chained : ∃ e, m.entry.decoded "event" = .ok e ∧
    chainDigest m.entry.previousDigest e m.entry.sequence c.ledgerVersion = m.entry.digest
  first : m.entry.sequence = 0 → m.entry.previousDigest = c.genesis
  last : (m.entry.sequence : ℤ) = c.entryCount - 1 → m.entry.digest = c.headDigest
  path : climb (leafHash c.ledgerVersion m.entry)
    ((routeDown m.entry.sequence c.entryCount).reverse.zip m.siblings) = c.rootHash

/-- One member, as the package checks it. -/
theorem holds_iff {c : LedgerCommitment D} {previous : ℤ} {used : ℕ} {m : LedgerMemberProof D}
    {ms : List (LedgerMemberProof D)} :
    LedgerMembershipBundle.checkMembers c.entryCount previous used (m :: ms) = .ok () ∧
        verifyMembers c (m :: ms) = .ok () ↔
      MemberHolds c previous used m ∧
        LedgerMembershipBundle.checkMembers c.entryCount m.entry.sequence (used + size m.entry.toDict) ms = .ok () ∧
        verifyMembers c ms = .ok () := by
  obtain ⟨raw, hraw⟩ := m.receipt
  obtain ⟨-, hbytes⟩ := receiptBytes_eq_ok hraw
  have hlength : raw.length = size m.entry.toDict := by
    rw [hbytes]
    rfl
  simp only [LedgerMembershipBundle.checkMembers, verifyMembers, bind_eq_ok, valid_eq_ok, require_eq_ok,
    exists_unit, route_eq_ok, ← reverse_routeDown, hraw, Except.ok.injEq]
  constructor
  · intro hall
    obtain ⟨⟨hincreasing, _, ⟨hinside, hroute⟩, hcount, raw', hsame, hsize, hrest⟩, e, he, hchain,
      hfirst, hlast, hall⟩ := hall
    obtain ⟨_, ⟨_, hroute'⟩, _, hpath, hrest'⟩ := hall
    rw [← hsame, hlength] at hsize hrest
    rw [hroute, List.length_reverse] at hcount
    rw [hroute'] at hpath
    exact ⟨⟨hincreasing, hinside, hcount, hsize, ⟨e, he, hchain⟩, hfirst, hlast, hpath⟩, hrest, hrest'⟩
  · intro hall
    obtain ⟨h, hrest, hrest'⟩ := hall
    obtain ⟨e, he, hchain⟩ := h.chained
    have hcount : m.siblings.length = (routeDown m.entry.sequence c.entryCount).reverse.length := by
      rw [List.length_reverse]
      exact h.count
    refine ⟨⟨h.increasing, _, ⟨h.inside, rfl⟩, hcount, raw, rfl, ?_, ?_⟩, e, he, hchain, h.first, h.last, _,
      ⟨h.inside, rfl⟩, hcount.symm, h.path, hrest'⟩
    · rw [hlength]
      exact h.size
    · rw [hlength]
      exact hrest

variable [WideHex D]

/-- One member, as the independent verifier checks it. -/
theorem checkMembers_cons {c : LedgerCommitment D} {n : ReceiptWire.Node} {ns : List ReceiptWire.Node} {x : Json}
    (h : Stands bytes n x) (hwithin : Within x) {previous : ℤ} {used : ℕ} {rs : List (Receipt D)} :
    checkMembers bytes (headerOf c) previous used (n :: ns) = .ok rs ↔ ∃ m : LedgerMemberProof D, x = m.toDict ∧
      MemberHolds c previous used m ∧ ∃ rest,
        checkMembers bytes (headerOf c) m.entry.sequence (used + size m.entry.toDict) ns = .ok rest ∧
          rs = receiptOf m.entry :: rest := by
  simp only [checkMembers, bind_eq_ok, requireWire_eq_ok, exists_unit, Except.ok.injEq]
  constructor
  · intro hall
    obtain ⟨proof, hproof, hsize, siblings, hsiblings, hbound, hashes, hhashes, result,
      hall⟩ := hall
    obtain ⟨hresult, ⟨hincreasing, hinside⟩, hfirst, hlast, hcount, hpath, rest, hrest, hrs⟩ := hall
    obtain ⟨_, kvs, hn, hx, hstands⟩ := obj_of_fields (.some h) hproof
    obtain rfl := Option.some.inj hn
    obtain rfl := Option.some.inj hx
    obtain ⟨own, hown, hfields⟩ := fields_obj hstands
    obtain ⟨hclosed, hsame⟩ := (hfields _ _ _).mp hproof
    rw [hsame] at hsize hsiblings hresult hpath hrest
    obtain ⟨xs, extent, hgetSiblings, -, hall⟩ := (items_eq_ok (hown.rel _)).mp hsiblings
    have hxs := (siblingHashes_eq_ok hall).mp hhashes
    obtain ⟨entry, e, hover, hgetEntry, hlimit, hchain, hreceipt⟩ :=
      (receipt_eq_ok (hown.rel _) (fun v hv => hwithin.member hv) c.version_eq).mp hresult
    rw [lengthOf_eq (hown.rel _), hgetEntry] at hsize hrest
    rw [spanOf_eq (hown.rel _), hgetEntry] at hpath
    have hlength : siblings.length = hashes.length := by
      rw [hall.length_eq, hxs, List.length_map]
    rw [← hreceipt] at hincreasing hinside hfirst hlast hcount hpath hrest hrs
    let m : LedgerMemberProof D := ⟨entry, hashes, hlength ▸ hbound, _,
      receiptBytes_of hover (hwithin.member hgetEntry) hlimit⟩
    refine ⟨m, ?_, ⟨hincreasing, by exact_mod_cast hinside, ?_, hsize, ⟨e, hover.decodes.2, hchain⟩, hfirst, hlast, ?_⟩,
      rest, hrest, hrs.symm⟩
    · rw [m.toDict_eq, hclosed.eq_zip (Json.wellKeyed_obj.mp hwithin.wellKeyed).1 (by decide)
        (.cons hgetEntry (.cons (hxs ▸ hgetSiblings) .nil))]
      rfl
    · rw [← leftSiblings_eq]
      exact hcount
    · rw [ascend_eq (by rw [Nat.zero_add]; exact hcount.symm), List.drop_zero, leftSiblings_eq] at hpath
      rw [← leaf_eq c.version_eq]
      exact hpath
  · intro hall
    obtain ⟨m, hx, hm, rest, hrest, hrs⟩ := hall
    obtain ⟨e, he, hchain⟩ := hm.chained
    obtain ⟨e', hover⟩ := over_of_decodes m.entry_decodes
    obtain rfl : e' = e := Except.ok.inj (hover.decodes.2.symm.trans he)
    rw [hx, m.toDict_eq] at h hwithin
    obtain ⟨own, hown, hfields⟩ := fields_obj h
    have hitems := (hown.rel "siblings")
    obtain ⟨n', hn', hstands⟩ : ∃ n', get own "siblings" = some n' ∧
        Stands bytes n' (.arr (m.siblings.map fun d => .str (hex d))) := by
      cases hget : get own "siblings" with
      | none =>
        rw [hget] at hitems
        cases hitems
      | some n' =>
        rw [hget] at hitems
        cases hitems with
        | some hstands => exact ⟨n', rfl, hstands⟩
    obtain ⟨nodes, extent, hnodes, hall⟩ := hstands.arr
    have hentry : Option.Rel (Stands bytes) (get own "entry") (some m.entry.toDict) := hown.rel "entry"
    have hcount := hm.count
    rw [← leftSiblings_eq] at hcount
    refine ⟨own, (hfields ["entry", "siblings"] [] own).mpr ⟨@closed_zip _ [_, _] rfl, rfl⟩, ?_, nodes, ?_, ?_,
      m.siblings, (siblingHashes_eq_ok hall).mpr rfl, receiptOf m.entry, ?_,
      ⟨hm.increasing, by exact_mod_cast hm.inside⟩, hm.first, hm.last, hcount, ?_, rest, ?_, hrs.symm⟩
    · rw [lengthOf_eq hentry]
      exact hm.size
    · rw [hn', hnodes]
      rfl
    · rw [hall.length_eq, List.length_map]
      exact m.siblings_le
    · exact (receipt_eq_ok hentry (fun v hv => hwithin.member (k := "entry") hv) c.version_eq).mpr
        ⟨m.entry, _, hover, rfl, le_trans (Nat.le_add_left _ _) hm.size, hchain, rfl⟩
    · rw [ascend_eq (by rw [Nat.zero_add]; exact hcount.symm), List.drop_zero, leftSiblings_eq, spanOf_eq hentry]
      exact (congrArg (fun leaf => climb leaf _) (leaf_eq c.version_eq m.entry)).trans hm.path
    · rw [lengthOf_eq hentry]
      exact hrest

/-- **The loop over the members** accepts the documents of member proofs that the package verifies. -/
theorem checkMembers_eq_ok {c : LedgerCommitment D} {nodes : List ReceiptWire.Node} {xs : List Json}
    (h : List.Forall₂ (Stands bytes) nodes xs) : (∀ x ∈ xs, Within x) → ∀ {previous : ℤ} {used : ℕ}
    {rs : List (Receipt D)}, checkMembers bytes (headerOf c) previous used nodes = .ok rs ↔
      ∃ members : List (LedgerMemberProof D), xs = members.map (·.toDict) ∧
        (LedgerMembershipBundle.checkMembers c.entryCount previous used members = .ok () ∧
          verifyMembers c members = .ok ()) ∧ rs = members.map fun m => receiptOf m.entry := by
  induction h with
  | nil =>
    intro _ previous used rs
    rw [checkMembers, Except.ok.injEq]
    constructor
    · intro hrs
      exact ⟨[], rfl, ⟨rfl, rfl⟩, hrs.symm⟩
    · intro hall
      obtain ⟨members, hmembers, _, hrs⟩ := hall
      rw [hrs, List.map_eq_nil_iff.mp hmembers.symm]
      rfl
  | @cons n x ns xs hstands _ ih =>
    intro hwithin previous used rs
    rw [List.forall_mem_cons] at hwithin
    rw [checkMembers_cons hstands hwithin.1]
    simp only [ih hwithin.2]
    constructor
    · intro hall
      obtain ⟨m, hx, hm, rest, ⟨members, hxs, hchecks, hrest⟩, hrs⟩ := hall
      exact ⟨m :: members, by rw [List.map_cons, hx, hxs], holds_iff.mpr ⟨hm, hchecks⟩,
        by rw [hrs, hrest, List.map_cons]⟩
    · intro hall
      obtain ⟨members, hxs, hchecks, hrs⟩ := hall
      cases members with
      | nil => cases hxs
      | cons m members =>
        rw [List.map_cons, List.cons.injEq] at hxs
        obtain ⟨hm, hrest⟩ := holds_iff.mp hchecks
        exact ⟨m, hxs.1, hm, _, ⟨members, hxs.2, hrest, rfl⟩, by rw [hrs, List.map_cons]⟩

end Members

/-! ## Bundles -/

section Bundles

variable {D : Type} [Hashing D]

theorem admitted_obj {kvs : List (String × Json)} (hkeys : ∀ k ∈ keys kvs, isXmlCharacter k = true)
    (h : ∀ kv ∈ kvs, ∀ x ∈ popped kv.2, Admitted x) : ∀ x ∈ popped (.obj kvs), Admitted x :=
  Json.forall_popped_obj.mpr ⟨⟨trivial, fun _ hkv => hkeys _ (List.mem_map_of_mem hkv)⟩, h⟩

theorem admitted_nat {n : ℕ} (h : n ≤ maxLedgerEntries) : ∀ x ∈ popped (.int n), Admitted x :=
  List.forall_mem_singleton.mpr ⟨smallIntegers_nat h, trivial⟩

/-- What is admitted and has sorted keys, the reader admits. -/
theorem own_of_admitted {v : Json} (hkeyed : WellKeyed v) (h : ∀ x ∈ popped v, Admitted x) :
    ∀ x ∈ popped v, Own x := by
  intro x hx
  have hadmitted := h x hx
  cases x with
  | int n => exact (digits_le_iff n).mpr hadmitted.1
  | str s => exact hadmitted.1
  | obj kvs =>
    refine ⟨(Json.wellKeyed_iff_popped v).mp hkeyed _ hx kvs rfl, fun k hk => ?_⟩
    obtain ⟨kv, hkv, hk⟩ := List.mem_map.mp hk
    exact hk ▸ hadmitted.2 kv hkv
  | null | bool | float | arr => exact trivial

variable [WideHex D]

theorem isXmlCharacter_hex (d : D) : isXmlCharacter (hex d) = true := by
  rw [isXmlCharacter, List.all_eq_true]
  intro c hc
  have hplain := plainText_hex d c hc
  simp only [isXmlChar, Bool.or_eq_true, Bool.and_eq_true, decide_eq_true_eq]
  omega

theorem admitted_hex (d : D) : ∀ x ∈ popped (.str (hex d)), Admitted x :=
  EvidenceEvent.admitted_str (isXmlCharacter_hex d)

theorem admitted_entry {entry : LedgerEntry D} {e : EvidenceEvent} (h : Over entry e) :
    ∀ x ∈ popped entry.toDict, Admitted x := by
  have hkeys : ∀ k ∈ ["digest", "event", "event_id", "previous_digest", "sequence"],
      isXmlCharacter k = true := by
    simp only [List.forall_mem_cons, List.not_mem_nil, false_implies, implies_true, and_true]
    and_intros <;> exact xml_ofList rfl
  rw [h.toDict_eq]
  refine admitted_obj hkeys ?_
  simp only [List.forall_mem_cons]
  exact ⟨admitted_hex _, e.admitted_toDict, EvidenceEvent.admitted_str e.eventId.xml, admitted_hex _,
    admitted_nat h.sequence.le, List.forall_mem_nil _⟩

theorem admitted_commitment (c : LedgerCommitment D) : ∀ x ∈ popped c.toDict, Admitted x := by
  have hversion : isXmlCharacter c.ledgerVersion = true := by
    obtain h | h := c.version_eq <;> rw [h] <;> exact xml_ofList rfl
  have hkeys : ∀ k ∈ LedgerCommitment.headerFields, isXmlCharacter k = true := by
    simp only [LedgerCommitment.headerFields, List.forall_mem_cons, List.not_mem_nil,
      false_implies, implies_true, and_true]
    and_intros <;> exact xml_ofList rfl
  rw [c.toDict_eq]
  refine admitted_obj hkeys ?_
  simp only [List.forall_mem_cons]
  exact ⟨admitted_hex _, admitted_nat c.count_le, admitted_hex _, admitted_hex _,
    EvidenceEvent.admitted_str (xml_ofList rfl), EvidenceEvent.admitted_str hversion, admitted_hex _,
    EvidenceEvent.admitted_str (xml_ofList rfl), List.forall_mem_nil _⟩

theorem admitted_member (m : LedgerMemberProof D) : ∀ x ∈ popped m.toDict, Admitted x := by
  obtain ⟨e, hover⟩ := over_of_decodes m.entry_decodes
  have hkeys : ∀ k ∈ ["entry", "siblings"], isXmlCharacter k = true := by
    simp only [List.forall_mem_cons, List.not_mem_nil, false_implies, implies_true, and_true]
    and_intros <;> exact xml_ofList rfl
  rw [m.toDict_eq]
  refine admitted_obj hkeys ?_
  simp only [List.forall_mem_cons]
  refine ⟨admitted_entry hover, Json.forall_popped_arr.mpr ⟨⟨trivial, trivial⟩, fun x hx => ?_⟩,
    List.forall_mem_nil _⟩
  obtain ⟨d, -, hd⟩ := List.mem_map.mp hx
  rw [← hd]
  exact admitted_hex d

theorem admitted_bundle (b : LedgerMembershipBundle D) : ∀ x ∈ popped b.toDict, Admitted x := by
  have hkeys : ∀ k ∈ ["commitment", "kind", "members", "schema_version"],
      isXmlCharacter k = true := by
    simp only [List.forall_mem_cons, List.not_mem_nil, false_implies, implies_true, and_true]
    and_intros <;> exact xml_ofList rfl
  rw [b.toDict_eq]
  refine admitted_obj hkeys ?_
  simp only [List.forall_mem_cons]
  refine ⟨admitted_commitment b.commitment, EvidenceEvent.admitted_str (xml_ofList rfl),
    Json.forall_popped_arr.mpr ⟨⟨trivial, trivial⟩, fun x hx => ?_⟩,
    EvidenceEvent.admitted_str (xml_ofList rfl), List.forall_mem_nil _⟩
  obtain ⟨m, -, hm⟩ := List.mem_map.mp hx
  rw [← hm]
  exact admitted_member m

/-- A bundle that is written is within the reader's budgets. -/
theorem admitted_toBytes {b : LedgerMembershipBundle D} {raw : Bytes} (h : b.toBytes = .ok raw) :
    ReceiptWire.Admitted b.toDict := by
  obtain ⟨hpreflight, -⟩ := LedgerMembershipBundle.toBytes_eq_ok.mp h
  obtain ⟨hwork, -⟩ := preflight_eq_ok.mp hpreflight
  obtain ⟨-, hreach, -⟩ := b.measures_toDict
  have hheight := height_le_reach b.toDict
  rw [graphWork_eq_tokens] at hwork
  unfold maxAttributeDepth at hreach
  exact ⟨own_of_admitted b.wellKeyed_toDict (admitted_bundle b), by omega, hwork⟩

variable [DecidableEq D]

/-- `LedgerMembershipBundle.from_bytes`, and then `verify_ledger_membership`. -/
def receive (raw : Bytes) (expectedCommitmentDigest : String) : Result (List (LedgerEntry D)) := do
  let bundle ← LedgerMembershipBundle.fromBytes raw
  let expected ← readHash expectedCommitmentDigest "expected_commitment_digest"
  EvidenceBraid.verifyLedgerMembership bundle expected

omit [WideHex D] in
theorem receive_eq_ok {raw : Bytes} {text : String} {entries : List (LedgerEntry D)} :
    receive raw text = .ok entries ↔ ∃ b : LedgerMembershipBundle D, b.toBytes = .ok raw ∧
      text = hex b.commitment.digest ∧ verifyMembers b.commitment b.members = .ok () ∧
      entries = b.members.map (·.entry) := by
  simp only [receive, bind_eq_ok, EvidenceBraid.verifyLedgerMembership, valid_eq_ok, exists_unit, Except.ok.injEq]
  constructor
  · intro hall
    obtain ⟨b, hread, expected, htext, hsame, hverify, hentries⟩ := hall
    rw [← hsame] at htext
    exact ⟨b, LedgerMembershipBundle.toBytes_of_fromBytes hread, (hex_of_readHash htext).symm, hverify, hentries.symm⟩
  · intro hall
    obtain ⟨b, hwritten, htext, hverify, hentries⟩ := hall
    exact ⟨b, LedgerMembershipBundle.fromBytes_toBytes hwritten, b.commitment.digest, by rw [htext, readHash_hex], rfl,
      hverify, hentries.symm⟩

omit [Hashing D] [WideHex D] [DecidableEq D] in
theorem verified_eq_ok {α : Type} {operation : Wire α} {a : α} : verified operation = .ok a ↔ operation = .ok a := by
  cases operation <;> simp [verified, Except.mapError]

/-- What is reported of a bundle. -/
def reportOf (b : LedgerMembershipBundle D) : Report D :=
  ⟨b.commitment.ledgerVersion, b.commitment.entryCount, b.commitment.digest, b.members.map fun m => receiptOf m.entry⟩

/-- **The independent verifier** accepts the bytes of bundles that the package verifies. -/
theorem verifyLedgerMembership_eq_ok {log : Log10} {raw : Bytes} {text : String} {r : Report D} :
    verifyLedgerMembership log raw text = .ok r ↔ ∃ b : LedgerMembershipBundle D, b.toBytes = .ok raw ∧
      text = hex b.commitment.digest ∧ verifyMembers b.commitment b.members = .ok () ∧ r = reportOf b := by
  simp only [verifyLedgerMembership, verified_eq_ok, bind_eq_ok, Prod.exists, requireWire_eq_ok, exists_unit,
    Except.ok.injEq, digest_eq_ok, readCanonicalWire_eq_ok]
  constructor
  · intro hall
    obtain ⟨expected, htext, bytes, root, ⟨_, hbytes, v, hadmitted, hraw, hroot⟩, data, hdata,
      hall⟩ := hall
    obtain ⟨kind, hkind, schemaVersion, hschema, ⟨hk, hs⟩, hdr, hheader, hall⟩ := hall
    obtain ⟨hanchor, nodes, hnodes, hlength, results, hresults, hr⟩ := hall
    have hstands : Stands raw root v := ⟨[], [], by rw [List.append_nil]; exact hraw, hroot⟩
    rw [hbytes] at hheader hresults
    obtain ⟨_, kvs, hn, hv, hobj⟩ := obj_of_fields (.some hstands) hdata
    obtain rfl := Option.some.inj hn
    obtain rfl := Option.some.inj hv
    have hwithin : Within (.obj kvs) := ⟨hadmitted.own, hadmitted.nodes⟩
    obtain ⟨own, hown, hfields⟩ := fields_obj hobj
    obtain ⟨hclosed, hsame⟩ := (hfields _ _ _).mp hdata
    rw [hsame] at hkind hschema hheader hnodes
    rw [text_eq_ok (hown.rel _)] at hkind hschema
    obtain ⟨c, hget, hc⟩ := (header_eq_ok (hown.rel _) fun v hv => hwithin.member hv).mp hheader
    obtain ⟨xs, extent, hxs, -, hall⟩ := (items_eq_ok (hown.rel _)).mp hnodes
    rw [← hc] at hanchor hresults hr
    obtain ⟨members, hmembers, ⟨hcheck, hverify⟩, hreported⟩ :=
      (checkMembers_eq_ok hall fun x hx => (hwithin.member hxs).item hx).mp hresults
    rw [hall.length_eq, hmembers, List.length_map] at hlength
    have hchecked : LedgerMembershipBundle.postInit c members = .ok () := by
      simp only [LedgerMembershipBundle.postInit, bind_eq_ok]
      exact ⟨(), valid_of hlength, hcheck⟩
    let b : LedgerMembershipBundle D := ⟨c, members, hchecked⟩
    have hdict : Json.obj kvs = b.toDict := by
      rw [b.toDict_eq, hclosed.eq_zip (Json.wellKeyed_obj.mp hwithin.wellKeyed).1 (by decide)
        (.cons hget (.cons (hk ▸ hkind) (.cons (hmembers ▸ hxs) (.cons (hs ▸ hschema) .nil))))]
      rfl
    have hwork : graphWork b.toDict ≤ maxJsonNodes := by
      rw [graphWork_eq_tokens, ← hdict]
      exact hadmitted.nodes
    refine ⟨b, ?_, ?_, hverify, ?_⟩
    · rw [b.toBytes_of_work hwork, hraw, hdict]
      rfl
    · rw [htext, ← hanchor]
      rfl
    · rw [← hr, ← hanchor, hreported]
      rfl
  · intro hall
    obtain ⟨b, hwritten, htext, hverify, hr⟩ := hall
    obtain ⟨-, hsize, hraw⟩ := LedgerMembershipBundle.toBytes_eq_ok.mp hwritten
    have hadmitted := admitted_toBytes hwritten
    have hwithin : Within b.toDict := ⟨hadmitted.own, hadmitted.nodes⟩
    have hstands : Stands raw (place 0 b.toDict) b.toDict := ⟨[], [], by rw [List.append_nil]; exact hraw, rfl⟩
    have hchecked := b.checked
    simp only [LedgerMembershipBundle.postInit, bind_eq_ok, valid_eq_ok, exists_unit] at hchecked
    rw [b.toDict_eq] at hstands hwithin
    obtain ⟨own, hown, hfields⟩ := fields_obj hstands
    have hmembers := hown.rel "members"
    obtain ⟨n, hn, hn'⟩ : ∃ n, get own "members" = some n ∧ Stands raw n (.arr (b.members.map (·.toDict))) := by
      cases hget : get own "members" with
      | none =>
        rw [hget] at hmembers
        cases hmembers
      | some n =>
        rw [hget] at hmembers
        cases hmembers with
        | some hstands => exact ⟨n, rfl, hstands⟩
    obtain ⟨nodes, extent, hnodes, hall⟩ := hn'.arr
    have hbound : (raw.length : ℤ) ≤ MAX_BYTES := by
      rw [hraw]
      exact_mod_cast hsize
    refine ⟨b.commitment.digest, htext, raw, place 0 b.toDict,
      ⟨⟨by decide, le_rfl, hbound⟩, rfl, b.toDict, hadmitted, hraw, rfl⟩, own, ?_, _,
      (text_eq_ok (hown.rel "kind")).mpr rfl, _, (text_eq_ok (hown.rel "schema_version")).mpr rfl, ⟨rfl, rfl⟩,
      headerOf b.commitment, ?_, rfl, nodes, ?_, ?_, _,
      (checkMembers_eq_ok hall fun x hx => (hwithin.member (k := "members") rfl).item hx).mpr
        ⟨b.members, rfl, ⟨hchecked.2, hverify⟩, rfl⟩, hr.symm⟩
    · rw [b.toDict_eq]
      exact (hfields ["commitment", "kind", "members", "schema_version"] [] own).mpr
        ⟨@closed_zip _ [_, _, _, _] rfl, rfl⟩
    · exact (header_eq_ok (hown.rel "commitment") fun v hv => hwithin.member hv).mpr ⟨b.commitment, rfl, rfl⟩
    · rw [hn, hnodes]
      rfl
    · rw [hall.length_eq, List.length_map]
      exact hchecked.1

/-- **The two verifiers agree**, whatever the bytes and the expected digest, and they report the same members: the
sequences, the receipts' digests, and what else the independent one reports. -/
theorem verifyLedgerMembership_agrees (log : Log10) (raw : Bytes) (expectedCommitmentDigest : String) :
    ((∃ r : Report D, verifyLedgerMembership log raw expectedCommitmentDigest = .ok r) ↔
      ∃ entries : List (LedgerEntry D), receive raw expectedCommitmentDigest = .ok entries) ∧
    ∀ (r : Report D) (entries : List (LedgerEntry D)),
      verifyLedgerMembership log raw expectedCommitmentDigest = .ok r →
        receive raw expectedCommitmentDigest = .ok entries → r.members = entries.map receiptOf := by
  refine ⟨⟨?_, ?_⟩, ?_⟩
  · intro hall
    obtain ⟨r, hr⟩ := hall
    obtain ⟨b, hwritten, htext, hverify, -⟩ := verifyLedgerMembership_eq_ok.mp hr
    exact ⟨_, receive_eq_ok.mpr ⟨b, hwritten, htext, hverify, rfl⟩⟩
  · intro hall
    obtain ⟨entries, hentries⟩ := hall
    obtain ⟨b, hwritten, htext, hverify, -⟩ := receive_eq_ok.mp hentries
    exact ⟨_, verifyLedgerMembership_eq_ok.mpr ⟨b, hwritten, htext, hverify, rfl⟩⟩
  · intro r entries hr hentries
    obtain ⟨b, hwritten, -, -, hreport⟩ := verifyLedgerMembership_eq_ok.mp hr
    obtain ⟨b', hwritten', -, -, hentries⟩ := receive_eq_ok.mp hentries
    obtain rfl : b = b' := Except.ok.inj
      ((LedgerMembershipBundle.fromBytes_toBytes hwritten).symm.trans (LedgerMembershipBundle.fromBytes_toBytes hwritten'))
    rw [hreport, hentries, reportOf, List.map_map]
    rfl

/-- A bundle over the sample's receipt, written and verified. -/
theorem exists_received : ∃ (raw : Bytes) (text : String),
    receive raw text = .ok [sampleEntry HexDigest] := by
  obtain ⟨p, hp⟩ := LedgerProofIndex.exists_of_index (sampleIndex HexDigest size_sampleEntry_hex)
  have hledger : p.index.ledger.entries = [sampleEntry HexDigest] := by
    rw [hp]
    rfl
  have hcount : p.commitment.entryCount = 1 := by
    rw [LedgerProofIndex.entryCount_eq, hledger]
    rfl
  have howns : ∀ e ∈ [sampleEntry HexDigest], p.Owns e := by
    refine List.forall_mem_singleton.mpr ?_
    rw [LedgerProofIndex.Owns, hledger]
    rfl
  have hbounds : WithinBounds p.commitment.entryCount [sampleEntry HexDigest] := by
    rw [hcount]
    exact withinBounds_sampleEntry size_sampleEntry_hex
  obtain ⟨ms, -, hhonest⟩ := LedgerProofIndex.memberAll_honest howns fun e he => hbounds.of_mem he
  obtain ⟨b, -, hmembers, hverify⟩ := LedgerProofIndex.honest_verifies (List.cons_ne_nil _ _) (by decide) howns
    (List.pairwise_singleton _ _) hbounds hhonest
  obtain ⟨raw, -, hread⟩ := b.survives (LedgerProofIndex.honest_work hbounds hhonest hmembers)
  refine ⟨raw, hex p.commitment.digest, ?_⟩
  simp only [receive, bind_eq_ok]
  exact ⟨b, hread, _, readHash_hex _ _, hverify⟩

/-- The bundle over the sample's receipt passes both verifiers. -/
theorem verifyLedgerMembership_agrees_one : ∃ (log : Log10) (raw : Bytes) (text : String) (r : Report HexDigest),
    receive raw text = .ok [sampleEntry HexDigest] ∧ verifyLedgerMembership log raw text = .ok r ∧
      r.members = [receiptOf (sampleEntry HexDigest)] := by
  obtain ⟨raw, text, hreceived⟩ := exists_received
  have hlog : ∀ bits : ℕ, 0 < bits → bits < 2047 * 2 ^ 52 → (-340 : ℤ) ≤ 0 ∧ (0 : ℤ) ≤ 340 := by
    intro _ _ _
    decide
  obtain ⟨hiff, hsame⟩ := verifyLedgerMembership_agrees (D := HexDigest) ⟨fun _ => 0, hlog⟩ raw text
  obtain ⟨r, hr⟩ := hiff.mpr ⟨_, hreceived⟩
  exact ⟨_, raw, text, r, hreceived, hr, hsame r _ hr hreceived⟩

end Bundles

end NodeMembership

end EvidenceBraid
