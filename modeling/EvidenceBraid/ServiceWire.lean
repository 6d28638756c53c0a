import EvidenceBraid.Event
import EvidenceBraid.Errors
import EvidenceBraid.Library.JsonTokens
import Mathlib.Data.Nat.Size

/-!
# The bodies that the workflow service admits

`native_json` admits a native value node by node before it is encoded, and `parse_json` scans a body
token by token before it is decoded.

**Theorem (`admission_agrees_iff`).** Of the bodies that `native_json` makes, `parse_json` accepts
those whose integers have at most 640 digits, and returns the value.

**Idea.** The nodes that the one counts are the tokens that the other counts, and so are the levels.
The integers are where the two differ: 2127 bits hold every integer of 640 digits, and some of 641.
-/

namespace EvidenceBraid

/-! ## Errors and limits -/

/-- The codes of `_CODES`. -/
inductive ServiceCode where
  | invalidRequest | unauthorized | forbidden | notFound | methodNotAllowed | conflict
  | limitExceeded | unsupportedMediaType | workflowRejected | rateLimited | unavailable
  | internalError | transportError | invalidResponse | shutdownTimeout | lifecycleError
  deriving DecidableEq, Repr

/-- A `WorkflowServiceError` or a `ValidationError`. -/
inductive WireError where
  | service (code : ServiceCode)
  | validation (message : String)
  deriving DecidableEq, Repr

/-- The bounds of `WorkflowServiceLimits` on bodies. -/
structure ServiceLimits where
  maxRequestBytes : ℕ
  maxRequestDepth : ℕ
  maxRequestNodes : ℕ
  maxBundleBytes : ℕ
  requestBytes : 1 ≤ maxRequestBytes ∧ maxRequestBytes ≤ 1024 * 1024
  requestDepth : 1 ≤ maxRequestDepth ∧ maxRequestDepth ≤ 16
  requestNodes : 1 ≤ maxRequestNodes ∧ maxRequestNodes ≤ 8192
  bundleBytes : 1 ≤ maxBundleBytes ∧ maxBundleBytes ≤ 8 * 1024 * 1024

namespace ServiceLimits

/-- `WorkflowServiceLimits()`. -/
def default : ServiceLimits :=
  ⟨1024 * 1024, 16, 8192, 8 * 1024 * 1024, by decide, by decide, by decide, by decide⟩

/-- `response_bytes`. -/
def responseBytes (l : ServiceLimits) : ℕ := l.maxBundleBytes + 65536

end ServiceLimits

/-! ## Native values -/

/-- A native value by its type. A dict has its members in order, and a key that is no string is
`none`; `other` is whatever is none of these, such as a float, a tuple or a custom object. -/
inductive Native where
  | null
  | bool (b : Bool)
  | int (n : ℤ)
  | str (s : String)
  | list (xs : List Native)
  | dict (kvs : List (Option String × Native))
  | other

namespace Native

mutual

/-- The number of nodes, keys included. -/
def weight : Native → ℕ
  | .list xs => 1 + weightItems xs
  | .dict kvs => 1 + weightMembers kvs
  | .null | .bool _ | .int _ | .str _ | .other => 1

def weightItems : List Native → ℕ
  | [] => 0
  | x :: xs => weight x + weightItems xs

def weightMembers : List (Option String × Native) → ℕ
  | [] => 0
  | (_, x) :: kvs => 1 + weight x + weightMembers kvs

end

mutual

/-- The integers in a value. -/
def integers : Native → List ℤ
  | .int n => [n]
  | .list xs => integersItems xs
  | .dict kvs => integersMembers kvs
  | .null | .bool _ | .str _ | .other => []

def integersItems : List Native → List ℤ
  | [] => []
  | x :: xs => integers x ++ integersItems xs

def integersMembers : List (Option String × Native) → List ℤ
  | [] => []
  | (_, x) :: kvs => integers x ++ integersMembers kvs

end

mutual

/-- A dict has no key twice. -/
def Keyed : Native → Prop
  | .list xs => KeyedItems xs
  | .dict kvs => (kvs.filterMap Prod.fst).Nodup ∧ KeyedMembers kvs
  | .null | .bool _ | .int _ | .str _ | .other => True

def KeyedItems : List Native → Prop
  | [] => True
  | x :: xs => Keyed x ∧ KeyedItems xs

def KeyedMembers : List (Option String × Native) → Prop
  | [] => True
  | (_, x) :: kvs => Keyed x ∧ KeyedMembers kvs

end

mutual

/-- The JSON document that the encoder sees. -/
def document : Native → Option Json
  | .null => some .null
  | .bool b => some (.bool b)
  | .int n => some (.int n)
  | .str s => some (.str s)
  | .list xs => (documentItems xs).map .arr
  | .dict kvs => (documentMembers kvs).map Json.dict
  | .other => none

def documentItems : List Native → Option (List Json)
  | [] => some []
  | x :: xs => do
    let v ← document x
    let vs ← documentItems xs
    some (v :: vs)

def documentMembers : List (Option String × Native) → Option (List (String × Json))
  | [] => some []
  | (key, x) :: kvs => do
    let key ← key
    let v ← document x
    let vs ← documentMembers kvs
    some ((key, v) :: vs)

end

end Native

/-! ## `native_json` -/

/-- The members of a dict as the nodes that are put on the stack. -/
def memberNodes (depth : ℕ) :
    List (Option String × Native) → Except WireError (List (Native × ℕ))
  | [] => .ok []
  | (some key, item) :: kvs => do
    let nodes ← memberNodes depth kvs
    .ok ((.str key, depth) :: (item, depth) :: nodes)
  | (none, _) :: _ => .error (.validation "invalid native JSON key")

/-- One turn of the loop: the nodes below this one, and what remains of the budget. -/
def admitNode (l : ServiceLimits) (node : Native) (depth remaining : ℕ) :
    Except WireError (List (Native × ℕ) × ℕ) :=
  let level := match node with
    | .dict _ | .list _ => depth + 1
    | _ => depth
  if l.maxRequestDepth < level then .error (.service .limitExceeded)
  else match node with
    | .dict kvs =>
      if remaining < kvs.length * 2 then .error (.service .limitExceeded)
      else do
        let nodes ← memberNodes level kvs
        .ok (nodes, remaining - kvs.length * 2)
    | .list xs =>
      if remaining < xs.length then .error (.service .limitExceeded)
      else .ok (xs.map fun x => (x, level), remaining - xs.length)
    | .str s =>
      if l.maxRequestBytes < s.length then .error (.service .limitExceeded) else .ok ([], remaining)
    | .int n =>
      if 2127 < n.natAbs.size then .error (.service .limitExceeded) else .ok ([], remaining)
    | .null | .bool _ => .ok ([], remaining)
    | .other => .error (.validation "invalid native JSON value")

namespace Native

mutual

/-- What the loop asks of a value at some depth, apart from the budget of nodes. -/
def Admitted (l : ServiceLimits) : Native → ℕ → Prop
  | .null, depth | .bool _, depth => depth ≤ l.maxRequestDepth
  | .int n, depth => depth ≤ l.maxRequestDepth ∧ n.natAbs.size ≤ 2127
  | .str s, depth => depth ≤ l.maxRequestDepth ∧ s.length ≤ l.maxRequestBytes
  | .list xs, depth => depth + 1 ≤ l.maxRequestDepth ∧ AdmittedItems l xs (depth + 1)
  | .dict kvs, depth => depth + 1 ≤ l.maxRequestDepth ∧ AdmittedMembers l kvs (depth + 1)
  | .other, _ => False

def AdmittedItems (l : ServiceLimits) : List Native → ℕ → Prop
  | [], _ => True
  | x :: xs, depth => Admitted l x depth ∧ AdmittedItems l xs depth

def AdmittedMembers (l : ServiceLimits) : List (Option String × Native) → ℕ → Prop
  | [], _ => True
  | (key, x) :: kvs, depth =>
    (∃ k, key = some k ∧ depth ≤ l.maxRequestDepth ∧ k.length ≤ l.maxRequestBytes) ∧
      Admitted l x depth ∧ AdmittedMembers l kvs depth

end

end Native

/-- The nodes on a stack, counted with all that is below them. -/
def stackWeight (pending : List (Native × ℕ)) : ℕ := (pending.map fun p => p.1.weight).sum

/-- Every node on a stack is admitted. -/
def StackAdmitted (l : ServiceLimits) (pending : List (Native × ℕ)) : Prop :=
  ∀ p ∈ pending, Native.Admitted l p.1 p.2

/-- The members of a dict on the stack. -/
theorem memberNodes_spec {l : ServiceLimits} {depth : ℕ} : ∀ {kvs : List (Option String × Native)}
    {nodes : List (Native × ℕ)}, memberNodes depth kvs = .ok nodes →
    stackWeight nodes = Native.weightMembers kvs ∧ nodes.length = kvs.length * 2 ∧
      (StackAdmitted l nodes → Native.AdmittedMembers l kvs depth)
  | [], nodes, h => by
    cases h
    exact ⟨rfl, rfl, fun _ => trivial⟩
  | (some key, item) :: kvs, nodes, h => by
    simp only [memberNodes, bind_eq_ok, Except.ok.injEq] at h
    obtain ⟨rest, hrest, rfl⟩ := h
    obtain ⟨hweight, hlength, hadmitted⟩ := memberNodes_spec (l := l) hrest
    refine ⟨?_, ?_, fun h => ?_⟩
    · simp only [stackWeight, List.map_cons, List.sum_cons, Native.weight] at hweight ⊢
      rw [hweight, Native.weightMembers]
      omega
    · simp only [List.length_cons, hlength]
      omega
    · rw [StackAdmitted, List.forall_mem_cons, List.forall_mem_cons] at h
      exact ⟨⟨key, rfl, h.1.1, h.1.2⟩, h.2.1, hadmitted h.2.2⟩
  | (none, _) :: _, nodes, h => nomatch h

/-- The items of a list on the stack. -/
theorem items_spec {l : ServiceLimits} (depth : ℕ) (xs : List Native) :
    stackWeight (xs.map fun x => (x, depth)) = Native.weightItems xs ∧
      (StackAdmitted l (xs.map fun x => (x, depth)) → Native.AdmittedItems l xs depth) := by
  induction xs with
  | nil => exact ⟨rfl, fun _ => trivial⟩
  | cons x xs ih =>
    refine ⟨?_, fun h => ?_⟩
    · have hweight := ih.1
      simp only [stackWeight, List.map_cons, List.sum_cons] at hweight ⊢
      rw [hweight, Native.weightItems]
    · rw [List.map_cons, StackAdmitted, List.forall_mem_cons] at h
      exact ⟨h.1, ih.2 h.2⟩

/-- **One turn of the loop** takes the nodes below from the budget and puts them on the stack; the
node is admitted if they are. -/
theorem admitNode_spec {l : ServiceLimits} {node : Native} {depth remaining left : ℕ}
    {nodes : List (Native × ℕ)} (h : admitNode l node depth remaining = .ok (nodes, left)) :
    stackWeight nodes + 1 = node.weight ∧ left + nodes.length = remaining ∧
      (StackAdmitted l nodes → Native.Admitted l node depth) := by
  unfold admitNode at h
  dsimp only at h
  cases node with
  | dict kvs =>
    dsimp only at h
    split_ifs at h with hdepth hbudget
    simp only [bind_eq_ok, Except.ok.injEq, Prod.mk.injEq] at h
    obtain ⟨_, hnodes, rfl, rfl⟩ := h
    obtain ⟨hweight, hlength, hadmitted⟩ := memberNodes_spec (l := l) hnodes
    refine ⟨?_, by omega, fun h => ⟨by omega, hadmitted h⟩⟩
    rw [hweight, Native.weight, Nat.add_comm]
  | list xs =>
    dsimp only at h
    split_ifs at h with hdepth hbudget
    cases h
    obtain ⟨hweight, hadmitted⟩ := items_spec (l := l) (depth + 1) xs
    refine ⟨?_, ?_, fun h => ⟨by omega, hadmitted h⟩⟩
    · rw [hweight, Native.weight, Nat.add_comm]
    · rw [List.length_map]
      omega
  | str s =>
    dsimp only at h
    split_ifs at h with hdepth hlength
    cases h
    exact ⟨rfl, rfl, fun _ => ⟨by omega, by omega⟩⟩
  | int n =>
    dsimp only at h
    split_ifs at h with hdepth hsize
    cases h
    exact ⟨rfl, rfl, fun _ => ⟨by omega, by omega⟩⟩
  | null | bool b =>
    dsimp only at h
    split_ifs at h with hdepth
    cases h
    exact ⟨rfl, rfl, fun _ => Nat.le_of_not_lt hdepth⟩
  | other =>
    dsimp only at h
    split_ifs at h

/-- The loop of `native_json`. The stack has its top first. -/
def admitPending (l : ServiceLimits) : List (Native × ℕ) → ℕ → Except WireError Unit
  | [], _ => .ok ()
  | (node, depth) :: pending, remaining =>
    match _h : admitNode l node depth remaining with
    | .error e => .error e
    | .ok (nodes, left) => admitPending l (nodes.reverse ++ pending) left
termination_by pending => stackWeight pending
decreasing_by
  have hweight := (admitNode_spec _h).1
  simp only [stackWeight, List.map_append, List.map_reverse, List.sum_append, List.sum_reverse,
    List.map_cons, List.sum_cons] at hweight ⊢
  omega

/-- `_bytes`. -/
def boundedBytes (value : Json) (maximum : ℕ) : Except WireError Bytes :=
  if maximum < (canonicalBytes value).length then
    .error (.validation "workflow store canonical byte limit exceeded")
  else .ok (canonicalBytes value)

/-- `native_json`. -/
def nativeJson (value : Native) (l : ServiceLimits) : Except WireError Bytes := do
  admitPending l [(value, 0)] (l.maxRequestNodes - 1)
  match value.document with
  | some node => boundedBytes node l.maxRequestBytes
  | none => .error (.validation "invalid native JSON value")

/-! ## `parse_json` -/

/-- `parse_json`. -/
def parseJson (raw : Bytes) (l : ServiceLimits) (response : Bool) : Except WireError Json :=
  let maximum := if response then l.responseBytes else l.maxRequestBytes
  let maxDepth := if response then 128 else l.maxRequestDepth
  let maxNodes := if response then maximum else l.maxRequestNodes
  if maximum < raw.length ∨ Json.scanTokens ⟨maxDepth, maxNodes, 640⟩ raw 0 0 = false then
    .error (.service .limitExceeded)
  else match (Utf8.decode raw).bind (Json.loads Json.plain) with
    | some node =>
      if boundedBytes node maximum = .ok raw then .ok node
      else .error (.validation "invalid service JSON")
    | none => .error (.validation "invalid service JSON")

/-! ## What the loop admits -/

/-- **The loop** admits every node on its stack and keeps to its budget. -/
theorem admitPending_spec {l : ServiceLimits} {pending : List (Native × ℕ)} {remaining : ℕ}
    (h : admitPending l pending remaining = .ok ()) :
    StackAdmitted l pending ∧ stackWeight pending ≤ remaining + pending.length := by
  induction pending, remaining using admitPending.induct l with
  | case1 remaining => exact ⟨fun _ hp => absurd hp List.not_mem_nil, Nat.zero_le _⟩
  | case2 node depth pending remaining e hnode =>
    rw [admitPending] at h
    split at h
    · cases h
    · next hok => rw [hnode] at hok; cases hok
  | case3 node depth pending remaining nodes left hnode ih =>
    have hrest : admitPending l (nodes.reverse ++ pending) left = .ok () := by
      rw [admitPending] at h
      split at h
      · cases h
      · next hok =>
        rw [hnode] at hok
        cases hok
        exact h
    obtain ⟨hadmitted, hweight⟩ := ih hrest
    obtain ⟨hnodes, hleft, hself⟩ := admitNode_spec hnode
    rw [StackAdmitted, List.forall_mem_append] at hadmitted
    refine ⟨List.forall_mem_cons.mpr ⟨hself fun p hp => ?_, hadmitted.2⟩, ?_⟩
    · exact hadmitted.1 p (List.mem_reverse.mpr hp)
    · simp only [stackWeight, List.map_append, List.map_reverse, List.sum_append, List.sum_reverse,
        List.length_append, List.length_reverse, List.map_cons, List.sum_cons,
        List.length_cons] at hweight hnodes ⊢
      omega

/-! ## What the encoder sees -/

/-- The document of a value at some depth: as many tokens as the value has nodes, no more levels than
the limit, and the integers of the value. -/
structure Native.Encodes (l : ServiceLimits) (v : Native) (depth : ℕ) (d : Json) : Prop where
  document : v.document = some d
  keyed : Json.WellKeyed d
  tokens : d.tokens = v.weight
  height : depth + d.height ≤ l.maxRequestDepth
  narrow : ∀ digits, d.Narrow digits ↔
    ∀ n ∈ v.integers, Json.numeralWidth (Numeral.ofInt n) ≤ digits

namespace Native

variable {l : ServiceLimits}

mutual

/-- **An admitted value is encoded.** -/
theorem encodes_of_admitted : ∀ (v : Native) {depth : ℕ}, Admitted l v depth → Keyed v →
    ∃ d, v.Encodes l depth d
  | .null, depth, hv, hkeyed => ⟨.null, rfl, trivial, rfl, hv, by simp [Json.Narrow, integers]⟩
  | .bool b, depth, hv, hkeyed => ⟨.bool b, rfl, trivial, rfl, hv, by simp [Json.Narrow, integers]⟩
  | .int n, depth, hv, hkeyed =>
    ⟨.int n, rfl, Json.wellKeyed_int n, rfl, hv.1, by simp [Json.Narrow, integers]⟩
  | .str s, depth, hv, hkeyed => ⟨.str s, rfl, trivial, rfl, hv.1, by simp [Json.Narrow, integers]⟩
  | .list xs, depth, hv, hkeyed => by
    obtain ⟨ds, hds, hwell, htokens, hheight, hnarrow⟩ := encodes_items xs hv.2 hkeyed
    refine ⟨.arr ds, ?_, Json.wellKeyed_arr.mpr hwell, ?_, ?_, hnarrow⟩
    · rw [document, hds, Option.map_some]
    · rw [Json.tokens, htokens, weight]
    · have hlevel := hv.1
      have hle := Json.height_arr_le hheight
      omega
  | .dict kvs, depth, hv, hkeyed => by
    obtain ⟨ds, hds, hkeys, hwell, htokens, hheight, hnarrow⟩ := encodes_members kvs hv.2 hkeyed.2
    have hnodup : (Json.keys ds).Nodup := by
      rw [hkeys]
      exact hkeyed.1
    refine ⟨Json.dict ds, ?_, Json.wellKeyed_dict hwell, ?_, ?_, fun digits => ?_⟩
    · rw [document, hds, Option.map_some]
    · rw [Json.tokens_dict hnodup, htokens, weight]
    · have hlevel := hv.1
      have hle := Json.height_dict_le hnodup hheight
      omega
    · rw [Json.narrow_dict hnodup]
      exact hnarrow digits
  | .other, depth, hv, hkeyed => absurd hv id

theorem encodes_items : ∀ (xs : List Native) {depth : ℕ}, AdmittedItems l xs depth → KeyedItems xs →
    ∃ ds, documentItems xs = some ds ∧ (∀ d ∈ ds, Json.WellKeyed d) ∧
      Json.tokensItems ds = weightItems xs ∧
      (∀ d ∈ ds, d.height ≤ l.maxRequestDepth - depth) ∧
      ∀ digits, Json.NarrowItems digits ds ↔
        ∀ n ∈ integersItems xs, Json.numeralWidth (Numeral.ofInt n) ≤ digits
  | [], depth, hxs, hkeyed =>
    ⟨[], rfl, by simp, rfl, by simp, by simp [Json.NarrowItems, integersItems]⟩
  | x :: xs, depth, hxs, hkeyed => by
    obtain ⟨d, hd⟩ := encodes_of_admitted x hxs.1 hkeyed.1
    obtain ⟨ds, hds, hwell, htokens, hheight, hnarrow⟩ := encodes_items xs hxs.2 hkeyed.2
    refine ⟨d :: ds, ?_, List.forall_mem_cons.mpr ⟨hd.keyed, hwell⟩, ?_,
      List.forall_mem_cons.mpr ⟨?_, hheight⟩, fun digits => ?_⟩
    · simp [documentItems, hd.document, hds]
    · rw [Json.tokensItems, hd.tokens, htokens, weightItems]
    · have hle := hd.height
      omega
    · rw [Json.NarrowItems, hd.narrow, hnarrow, integersItems, List.forall_mem_append]

theorem encodes_members : ∀ (kvs : List (Option String × Native)) {depth : ℕ},
    AdmittedMembers l kvs depth → KeyedMembers kvs →
    ∃ ds, documentMembers kvs = some ds ∧ Json.keys ds = kvs.filterMap Prod.fst ∧
      (∀ kv ∈ ds, Json.WellKeyed kv.2) ∧ Json.tokensMembers ds = weightMembers kvs ∧
      (∀ kv ∈ ds, kv.2.height ≤ l.maxRequestDepth - depth) ∧
      ∀ digits, Json.NarrowMembers digits ds ↔
        ∀ n ∈ integersMembers kvs, Json.numeralWidth (Numeral.ofInt n) ≤ digits
  | [], depth, hkvs, hkeyed =>
    ⟨[], rfl, rfl, by simp, rfl, by simp, by simp [Json.NarrowMembers, integersMembers]⟩
  | (key, x) :: kvs, depth, hkvs, hkeyed => by
    obtain ⟨⟨k, rfl, -⟩, hx, hrest⟩ := hkvs
    obtain ⟨d, hd⟩ := encodes_of_admitted x hx hkeyed.1
    obtain ⟨ds, hds, hkeys, hwell, htokens, hheight, hnarrow⟩ := encodes_members kvs hrest hkeyed.2
    refine ⟨(k, d) :: ds, ?_, ?_, List.forall_mem_cons.mpr ⟨hd.keyed, hwell⟩, ?_,
      List.forall_mem_cons.mpr ⟨?_, hheight⟩, fun digits => ?_⟩
    · simp [documentMembers, hd.document, hds]
    · simpa [Json.keys] using hkeys
    · rw [Json.tokensMembers, hd.tokens, htokens, weightMembers]
    · have hle := hd.height
      change d.height ≤ _
      omega
    · rw [Json.NarrowMembers, hd.narrow, hnarrow, integersMembers, List.forall_mem_append]

end

end Native

/-! ## The result -/

/-- What `native_json` returns: the canonical bytes of an admitted document. -/
theorem nativeJson_eq_ok {v : Native} {l : ServiceLimits} {raw : Bytes} (hkeyed : v.Keyed)
    (h : nativeJson v l = .ok raw) :
    ∃ d, v.Encodes l 0 d ∧ v.weight ≤ l.maxRequestNodes ∧ raw = canonicalBytes d ∧
      raw.length ≤ l.maxRequestBytes := by
  simp only [nativeJson, bind_eq_ok] at h
  obtain ⟨_, hloop, h⟩ := h
  obtain ⟨hadmitted, hweight⟩ := admitPending_spec hloop
  obtain ⟨d, hd⟩ := Native.encodes_of_admitted v (hadmitted (v, 0) List.mem_cons_self) hkeyed
  rw [hd.document] at h
  simp only [boundedBytes] at h
  split_ifs at h with hlength
  obtain rfl := Except.ok.inj h
  refine ⟨d, hd, ?_, rfl, Nat.le_of_not_lt hlength⟩
  have hnodes := l.requestNodes.1
  simp only [stackWeight, List.map_cons, List.map_nil, List.sum_cons, List.sum_nil, List.length_cons,
    List.length_nil] at hweight
  omega

/-- What `parse_json` makes of canonical bytes. -/
theorem parseJson_canonicalBytes {d : Json} (hd : Json.WellKeyed d) {l : ServiceLimits}
    (hbytes : (canonicalBytes d).length ≤ l.maxRequestBytes) :
    parseJson (canonicalBytes d) l false =
      if Json.scanTokens ⟨l.maxRequestDepth, l.maxRequestNodes, 640⟩ (canonicalBytes d) 0 0 = true
      then .ok d else .error (.service .limitExceeded) := by
  have hdecode : (Utf8.decode (canonicalBytes d)).bind (Json.loads Json.plain) = some d := by
    rw [canonicalBytes, Utf8.decode_encode, Option.bind_some]
    exact Json.loads_dumps hd
  unfold parseJson
  simp only [Bool.false_eq_true, if_false]
  by_cases hscan : Json.scanTokens ⟨l.maxRequestDepth, l.maxRequestNodes, 640⟩ (canonicalBytes d) 0 0 =
      true
  · rw [if_neg (by rw [hscan]; simpa using hbytes), if_pos hscan, hdecode]
    simp [boundedBytes, Nat.not_lt.mpr hbytes]
  · rw [if_neg hscan, if_pos (.inr (Bool.eq_false_iff.mpr hscan))]

/-- **The body of an admitted value is accepted, with the value,** exactly when its integers have at
most 640 digits. -/
theorem admission_agrees_iff {v : Native} {l : ServiceLimits} {raw : Bytes} (hkeyed : v.Keyed)
    (h : nativeJson v l = .ok raw) :
    (∃ d, v.document = some d ∧ parseJson raw l false = .ok d) ↔
      ∀ n ∈ v.integers, n.natAbs < 10 ^ 640 := by
  obtain ⟨d, hd, hweight, rfl, hbytes⟩ := nativeJson_eq_ok hkeyed h
  have hwidth : d.Narrow 640 ↔ ∀ n ∈ v.integers, n.natAbs < 10 ^ 640 := by
    rw [hd.narrow]
    exact forall₂_congr fun n _ => Json.numeralWidth_ofInt_le (by decide)
  have hscan : Json.scanTokens ⟨l.maxRequestDepth, l.maxRequestNodes, 640⟩ (canonicalBytes d) 0 0 =
      true ↔ d.Narrow 640 := by
    have hheight := hd.height
    have htokens := hd.tokens
    rw [canonicalBytes]
    have hliterals : 5 ≤ 640 := by decide
    refine (Json.scanTokens_dumps hliterals d).trans ⟨fun h => h.2.2, fun h => ⟨?_, ?_, h⟩⟩
    · change d.height ≤ l.maxRequestDepth
      omega
    · change d.tokens ≤ l.maxRequestNodes
      omega
  rw [parseJson_canonicalBytes hd.keyed hbytes, ← hwidth, ← hscan, hd.document]
  constructor
  · intro hall
    obtain ⟨_, hsame, hparse⟩ := hall
    by_contra hno
    rw [if_neg hno] at hparse
    cases hparse
  · intro hyes
    exact ⟨d, rfl, if_pos hyes⟩

/-- A body that is refused is refused for its size. -/
theorem admission_refuses {v : Native} {l : ServiceLimits} {raw : Bytes} (hkeyed : v.Keyed)
    (h : nativeJson v l = .ok raw) {n : ℤ} (hn : n ∈ v.integers) (hlarge : 10 ^ 640 ≤ n.natAbs) :
    parseJson raw l false = .error (.service .limitExceeded) := by
  obtain ⟨d, hd, -, rfl, hbytes⟩ := nativeJson_eq_ok hkeyed h
  have hnarrow : ¬d.Narrow 640 := by
    rw [hd.narrow]
    intro hall
    exact absurd ((Json.numeralWidth_ofInt_le (by decide)).mp (hall n hn)) (Nat.not_lt.mpr hlarge)
  have hliterals : 5 ≤ 640 := by decide
  rw [parseJson_canonicalBytes hd.keyed hbytes, if_neg]
  exact fun hscan => hnarrow ((Json.scanTokens_dumps hliterals d).mp hscan).2.2

/-- An integer of at most 2127 bits is admitted by itself. -/
theorem nativeJson_int {n : ℕ} (hbits : n < 2 ^ 2127) :
    nativeJson (.int n) .default = .ok (canonicalBytes (.int n)) := by
  have hsize : ¬2127 < (n : ℤ).natAbs.size := by
    rw [Int.natAbs_natCast]
    exact Nat.not_lt.mpr (Nat.size_le.mpr hbits)
  have hbound : (2 : ℕ) ^ 2127 ≤ 10 ^ 641 := by decide +kernel
  have hlength : ¬ServiceLimits.default.maxRequestBytes < (canonicalBytes (.int n)).length := by
    have hshort : Json.size (.int n) ≤ 641 := Json.size_nat_le (by decide) (hbits.trans_le hbound)
    refine Nat.not_lt.mpr (le_trans hshort ?_)
    decide
  have hnode : admitNode .default (.int n) 0 (ServiceLimits.default.maxRequestNodes - 1) =
      .ok ([], ServiceLimits.default.maxRequestNodes - 1) := by
    unfold admitNode
    dsimp only
    rw [if_neg (by decide), if_neg hsize]
  have hloop : admitPending .default [(.int n, 0)] (ServiceLimits.default.maxRequestNodes - 1) =
      .ok () := by
    rw [admitPending]
    split
    · next herror => rw [hnode] at herror; cases herror
    · next hok =>
      rw [hnode] at hok
      cases hok
      rw [List.reverse_nil, List.nil_append, admitPending]
  simp only [nativeJson, hloop, Native.document, boundedBytes, if_neg hlength]
  rfl

theorem admission_agrees_seven : ∃ raw, nativeJson (.int 7) .default = .ok raw ∧
    ((∃ d, Native.document (.int 7) = some d ∧ parseJson raw .default false = .ok d) ↔
      ∀ n ∈ Native.integers (.int 7), n.natAbs < 10 ^ 640) := by
  have h : nativeJson (.int (7 : ℕ)) .default = .ok (canonicalBytes (.int (7 : ℕ))) :=
    nativeJson_int (by decide +kernel)
  exact ⟨_, h, admission_agrees_iff trivial h⟩

/-- The least integer of 641 digits is admitted, and its body is refused. -/
theorem large_integer_refused : ∃ raw, nativeJson (.int (10 ^ 640 : ℕ)) .default = .ok raw ∧
    parseJson raw .default false = .error (.service .limitExceeded) := by
  have h : nativeJson (.int (10 ^ 640 : ℕ)) .default = .ok (canonicalBytes (.int (10 ^ 640 : ℕ))) :=
    nativeJson_int (by decide +kernel)
  have hkeyed : Native.Keyed (.int (10 ^ 640 : ℕ)) := trivial
  refine ⟨_, h, admission_refuses hkeyed h List.mem_cons_self ?_⟩
  rw [Int.natAbs_natCast]

end EvidenceBraid
