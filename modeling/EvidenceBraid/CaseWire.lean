import EvidenceBraid.CaseStorageCodec
import EvidenceBraid.EpistemicProof
import EvidenceBraid.LedgerCodec
import EvidenceBraid.Library.JsonDepth
import EvidenceBraid.Library.JsonNodes

/-!
# Case journals as bytes

`CaseJournal.from_bytes`: a document within bounds on its bytes, its nesting, its nodes and its
texts, that is its own canonical text and whose journal replays. What it accepts is the document of
the journal that it returns (`of_fromBytes`), and it accepts the documents of all journals that
replay (`fromBytes_toBytes`).
-/

namespace EvidenceBraid

open Hashing
open Json (WellKeyed)

def maxCaseJsonDepth : ℕ := 16

def maxCaseJsonNodes : ℕ := 8192

def maxCaseJsonText : ℕ := 4096

/-! ## Documents -/

/-- `_integer_token` and `_reject_float`. -/
def caseWireHooks : Json.Hooks where
  parseInt t := if t.text.length ≤ 10 then some t.toInt else none
  parseFloat _ := none

/-- A text within the profile. -/
def caseTextOk (s : String) : Bool := s.toList.length ≤ maxCaseJsonText && isXmlCharacter s

/-- One round of the loop over the nodes, which counts them. -/
def inspectCaseNode (nodes : ℕ) (item : Json) : Result ℕ := do
  require (nodes + 1 ≤ maxCaseJsonNodes)
    (.inputFormat "case JSON node count exceeds the bound")
  match item with
  | .obj kvs => do
    require (∀ k ∈ Json.keys kvs, caseTextOk k = true)
      (.inputFormat "case JSON key is outside the text profile")
    .ok (nodes + 1)
  | .str s => do
    require (caseTextOk s = true) (.inputFormat "case JSON text is outside the text profile")
    .ok (nodes + 1)
  | .float _ => .error (.inputFormat "case JSON scalar is outside the profile")
  | _ => .ok (nodes + 1)

/-- `_document`. -/
def caseDocument (raw : Bytes) (maximum : ℕ) : Result Json := do
  require (raw.length ≤ maximum) (.inputFormat "case document is not bounded immutable bytes")
  require (Json.scanDepth maxCaseJsonDepth raw = true)
    (.inputFormat "case JSON nesting exceeds the bound")
  let value ← orError ((Utf8.decode raw).bind (Json.loads caseWireHooks))
    (.inputFormat "invalid epistemic case JSON")
  let _ ← (Json.popped value).foldlM inspectCaseNode 0
  require (isObject value = true ∧ canonicalBytes value = raw)
    (.inputFormat "case JSON must be a canonical object")
  .ok value

/-- What has been read has these bytes. -/
theorem of_caseDocument {raw : Bytes} {maximum : ℕ} {v : Json}
    (h : caseDocument raw maximum = .ok v) : raw = canonicalBytes v ∧ WellKeyed v := by
  simp only [caseDocument, bind_eq_ok, require_eq_ok, exists_unit, orError_eq_ok, Except.ok.injEq]
    at h
  obtain ⟨-, -, v, hv, nodes, -, ⟨-, hraw⟩, rfl⟩ := h
  obtain ⟨cs, -, hload⟩ := Option.bind_eq_some_iff.mp hv
  exact ⟨hraw.symm, Json.wellKeyed_of_loads hload⟩

variable {D : Type} [Hashing D] [DecidableEq D]

namespace CaseJournal

/-! ## Journals -/

def fields : List String := ["authority_digest", "kind", "receipts", "schema_version"]

omit [DecidableEq D] in
theorem nodup_keys_items (j : CaseJournal D) :
    (Json.keys (caseJournalItems j.authorityDigest j.receipts)).Nodup := by
  simp only [caseJournalItems, Json.keys, List.map_cons, List.map_nil]
  decide

omit [DecidableEq D] in
theorem mem_keys_items (j : CaseJournal D) (k : String) :
    k ∈ Json.keys (caseJournalItems j.authorityDigest j.receipts) ↔ k ∈ fields := by
  refine List.Perm.mem_iff ?_
  simp only [caseJournalItems, Json.keys, List.map_cons, List.map_nil]
  decide

/-- `to_dict`. -/
def toDict (j : CaseJournal D) : Json := Json.dict (caseJournalItems j.authorityDigest j.receipts)

/-- `to_bytes`, which is always within the bound. -/
def toBytes (j : CaseJournal D) : Bytes := canonicalBytes j.toDict

/-- `_tuple`. -/
def receiptsField (value : Option Json) : Result (List Json) :=
  match value with
  | some (.arr xs) => do
    valid (xs.length ≤ maxCaseRecords) "receipts must be a bounded array"
    .ok xs
  | _ => .error (.validation "receipts must be a bounded array")

theorem receiptsField_eq_ok {value : Option Json} {xs : List Json} :
    receiptsField value = .ok xs ↔ value = some (.arr xs) ∧ xs.length ≤ maxCaseRecords := by
  constructor
  · intro h
    unfold receiptsField at h
    split at h
    · simp only [bind_eq_ok, valid_eq_ok, exists_unit, Except.ok.injEq] at h
      obtain ⟨hlength, rfl⟩ := h
      exact ⟨rfl, hlength⟩
    · cases h
  · rintro ⟨rfl, hlength⟩
    simp only [receiptsField, bind_eq_ok, valid_eq_ok, exists_unit]
    exact ⟨hlength, trivial⟩

/-- `from_dict`. -/
def fromDict (value : Json) (authority : CaseAuthority) (expectedHead : Option D) :
    Result (CaseJournal D) := do
  let data ← caseFields value fields "case journal"
  caseProfile data "evidence-braid-case-journal"
  let documents ← receiptsField (Json.get? data "receipts")
  let receipts ← decodeItems CaseReceipt.fromDict documents
  let authorityDigest ← hashField (Json.get? data "authority_digest") "case journal authority"
  let journal ← make authorityDigest receipts
  let _ ← replayCase journal authority expectedHead
  .ok journal

/-- `from_bytes`. -/
def fromBytes (raw : Bytes) (authority : CaseAuthority) (expectedHead : Option D) :
    Result (CaseJournal D) := do
  let value ← caseDocument raw maxCaseWireBytes
  fromDict value authority expectedHead

/-- **What is read is the journal's own document**, and the journal replays. -/
theorem of_fromBytes {raw : Bytes} {authority : CaseAuthority} {expectedHead : Option D}
    {j : CaseJournal D} (h : fromBytes raw authority expectedHead = .ok j) :
    raw = j.toBytes ∧ ∃ state, replayCase j authority expectedHead = .ok state := by
  simp only [fromBytes, fromDict, caseProfile, bind_eq_ok, caseFields_eq_ok, valid_eq_ok,
    exists_unit, receiptsField_eq_ok, hashField_eq_ok, make_eq_ok, Except.ok.injEq] at h
  obtain ⟨value, hvalue, data, ⟨rfl, hkeys⟩, ⟨hkind, hversion⟩, documents, ⟨hdocuments, -⟩,
    receipts, h⟩ := h
  obtain ⟨hreceipts, authorityDigest, hauthority, journal, ⟨rfl, rfl⟩, state, hstate, rfl⟩ := h
  obtain ⟨hraw, hkeyed⟩ := of_caseDocument hvalue
  obtain ⟨hsorted, hmembers⟩ := Json.wellKeyed_obj.mp hkeyed
  have hdocumentsKeyed : WellKeyed (.arr documents) := hmembers ("receipts", .arr documents)
    ((Json.mem_iff_get? (Json.nodup_of_sorted hsorted)).mpr hdocuments)
  have hmap := eq_map_of_decodeItems CaseReceipt.eq_toDict_of_fromDict
    (Json.wellKeyed_arr.mp hdocumentsKeyed) hreceipts
  refine ⟨?_, state, hstate⟩
  rw [hraw, toBytes]
  refine congrArg canonicalBytes (Json.obj_eq_dict hsorted journal.nodup_keys_items
    (fun k hk => (journal.mem_keys_items k).mpr ((hkeys k).mp hk)) ?_)
  simp [caseJournalItems, hkind, hversion, hauthority, hdocuments, hmap]

end CaseJournal

/-! ## Documents within the bounds -/

/-- A node that the loop admits. -/
def CaseNode : Json → Prop
  | .obj kvs => ∀ k ∈ Json.keys kvs, caseTextOk k = true
  | .str s => caseTextOk s = true
  | .float _ => False
  | _ => True

theorem inspectCaseNode_eq_ok {nodes nodes' : ℕ} {item : Json} :
    inspectCaseNode nodes item = .ok nodes' ↔
      nodes + 1 ≤ maxCaseJsonNodes ∧ CaseNode item ∧ nodes' = nodes + 1 := by
  unfold inspectCaseNode CaseNode
  cases item <;>
    simp only [bind_eq_ok, require_eq_ok, exists_unit, Except.ok.injEq, reduceCtorEq, and_false,
      false_and, true_and, eq_comm (a := nodes + 1)]

/-- **The loop over the nodes** admits each of them, and not too many. -/
theorem foldlM_inspectCaseNode {items : List Json} : ∀ {nodes : ℕ}, nodes ≤ maxCaseJsonNodes →
    ((∃ nodes', items.foldlM inspectCaseNode nodes = .ok nodes') ↔
      nodes + items.length ≤ maxCaseJsonNodes ∧ ∀ item ∈ items, CaseNode item) := by
  induction items with
  | nil => intro nodes h; simpa [pure, Except.pure] using h
  | cons item items ih =>
    intro nodes h
    simp only [List.foldlM_cons, bind_eq_ok, inspectCaseNode_eq_ok, List.length_cons,
      List.forall_mem_cons]
    constructor
    · rintro ⟨nodes', -, ⟨hnodes, hitem, rfl⟩, hrest⟩
      obtain ⟨hlength, hitems⟩ := (ih hnodes).mp ⟨nodes', hrest⟩
      exact ⟨by omega, hitem, hitems⟩
    · rintro ⟨hlength, hitem, hitems⟩
      obtain ⟨nodes', hrest⟩ := (@ih (nodes + 1) (by omega)).mpr ⟨by omega, hitems⟩
      exact ⟨nodes', nodes + 1, ⟨by omega, hitem, rfl⟩, hrest⟩

/-- A document of bounded height and number of nodes, all of which the loop admits. -/
structure Modest (v : Json) (height count : ℕ) : Prop where
  height_le : v.height ≤ height
  nodes_le : v.nodes ≤ count
  admitted : ∀ item ∈ v.popped, CaseNode item

namespace Modest

theorem str {s : String} (h : caseTextOk s = true) : Modest (.str s) 0 1 :=
  ⟨le_rfl, le_rfl, List.forall_mem_singleton.mpr h⟩

theorem null : Modest .null 0 1 := ⟨le_rfl, le_rfl, by simp [Json.popped, CaseNode]⟩

theorem int (n : ℤ) : Modest (.int n) 0 1 := ⟨le_rfl, le_rfl, by simp [Json.popped, CaseNode]⟩

theorem mono {v : Json} {height height' count count' : ℕ} (h : Modest v height count)
    (hheight : height ≤ height') (hcount : count ≤ count') : Modest v height' count' :=
  ⟨h.height_le.trans hheight, h.nodes_le.trans hcount, h.admitted⟩

theorem sum_nodes_le {α : Type} {f : α → Json} {height count : ℕ} {as : List α}
    (h : ∀ a ∈ as, Modest (f a) height count) :
    (as.map fun a => (f a).nodes).sum ≤ as.length * count := by
  induction as with
  | nil => exact Nat.zero_le _
  | cons a as ih =>
    rw [List.forall_mem_cons] at h
    have hrest := ih h.2
    have hfirst := h.1.nodes_le
    rw [List.map_cons, List.sum_cons, List.length_cons, Nat.succ_mul]
    omega

theorem arr {xs : List Json} {height count : ℕ} (h : ∀ x ∈ xs, Modest x height count) :
    Modest (.arr xs) (height + 1) (1 + xs.length * count) where
  height_le := by
    have hitems : Json.heightItems xs ≤ height := by
      induction xs with
      | nil => exact Nat.zero_le _
      | cons x xs ih =>
        rw [List.forall_mem_cons] at h
        exact max_le h.1.height_le (ih h.2)
    rw [Json.height]
    omega
  nodes_le := by
    have hsum := sum_nodes_le (f := id) h
    rw [Json.nodes_arr]
    exact Nat.add_le_add_left hsum 1
  admitted := Json.forall_popped_arr.mpr ⟨trivial, fun x hx => (h x hx).admitted⟩

theorem dict {kvs : List (String × Json)} {height count : ℕ} (hnodup : (Json.keys kvs).Nodup)
    (hkeys : ∀ k ∈ Json.keys kvs, caseTextOk k = true)
    (h : ∀ kv ∈ kvs, Modest kv.2 height count) :
    Modest (Json.dict kvs) (height + 1) (1 + kvs.length * count) where
  height_le := by
    have hmembers : ∀ ls : List (String × Json), (∀ kv ∈ ls, Modest kv.2 height count) →
        Json.heightMembers ls ≤ height := by
      intro ls
      induction ls with
      | nil => intro _; exact Nat.zero_le _
      | cons kv ls ih =>
        intro hls
        rw [List.forall_mem_cons] at hls
        exact max_le hls.1.height_le (ih hls.2)
    have hle := hmembers (kvs.foldr Json.insertKey []) fun kv hkv =>
      h kv ((Json.foldr_insertKey_perm hnodup).mem_iff.mp hkv)
    rw [Json.dict, Json.height]
    omega
  nodes_le := by
    rw [Json.nodes_dict hnodup]
    exact Nat.add_le_add_left (sum_nodes_le h) 1
  admitted := by
    refine (Json.forall_popped_dict hnodup).mpr ⟨?_, fun kv hkv => (h kv hkv).admitted⟩
    intro k hk
    obtain ⟨kv, hkv, rfl⟩ := List.mem_map.mp hk
    exact hkeys kv.1 (List.mem_map_of_mem ((Json.foldr_insertKey_perm hnodup).mem_iff.mp hkv))

end Modest

/-- **A modest document is read from its bytes.** -/
theorem caseDocument_canonical {v : Json} {maximum : ℕ} (hv : Json.Readable caseWireHooks v)
    (hobject : isObject v = true) (hsize : Json.size v ≤ maximum)
    (h : Modest v maxCaseJsonDepth maxCaseJsonNodes) :
    caseDocument (canonicalBytes v) maximum = .ok v := by
  have hload : Json.loads caseWireHooks (canonicalJson v false) = some v := Json.loads_dumps hv
  have hdecode : (Utf8.decode (canonicalBytes v)).bind (Json.loads caseWireHooks) = some v := by
    rw [canonicalBytes, Utf8.decode_encode, Option.bind_some, hload]
  have hdepth : Json.scanDepth maxCaseJsonDepth (canonicalBytes v) = true :=
    (Json.scanDepth_dumps _ v).mpr h.height_le
  obtain ⟨nodes, hnodes⟩ := (foldlM_inspectCaseNode (Nat.zero_le _)).mpr
    ⟨by rw [Nat.zero_add]; exact h.nodes_le, h.admitted⟩
  simp only [caseDocument, bind_eq_ok]
  exact ⟨(), require_of hsize, (), require_of hdepth, v, orError_eq_ok.mpr hdecode, nodes, hnodes,
    (), require_of ⟨hobject, rfl⟩, rfl⟩

/-! ## Journals that replay are read back -/

theorem caseTextOk_of {s : String} {maximum : ℕ} (hlength : s.toList.length ≤ maximum)
    (hmaximum : maximum ≤ maxCaseJsonText) (hxml : isXmlCharacter s = true) :
    caseTextOk s = true := by
  simp only [caseTextOk, Bool.and_eq_true, decide_eq_true_eq]
  exact ⟨hlength.trans hmaximum, hxml⟩

theorem isXmlCharacter_plain {s : String} (h : Json.PlainText s) : isXmlCharacter s = true := by
  rw [isXmlCharacter, List.all_eq_true]
  intro c hc
  have hc := h c hc
  simp only [isXmlChar, Bool.or_eq_true, Bool.and_eq_true, decide_eq_true_eq]
  omega

/-- A literal's characters decide whether a case may hold it. -/
theorem caseTextOk_literal {cs : List Char}
    (h : (Nat.ble cs.length maxCaseJsonText && cs.all Json.plainChar) = true) :
    caseTextOk (String.ofList cs) = true := by
  rw [Bool.and_eq_true, Nat.ble_eq] at h
  have hlength : (String.ofList cs).toList.length ≤ maxCaseJsonText := by
    rw [String.toList_ofList]
    exact h.1
  exact caseTextOk_of hlength le_rfl (isXmlCharacter_plain (Json.plainText_literal h.2))

theorem Modest.identifier (i : Identifier) : Modest (.str i.value) 0 1 :=
  .str (caseTextOk_of i.length_le (by decide) (isXmlCharacter_plain i.plainText))

theorem Modest.description {maximum : ℕ} (d : Description maximum) (h : maximum ≤ maxCaseJsonText) :
    Modest (.str d.value) 0 1 := by
  have hok := d.ok
  simp only [isDescription, Bool.and_eq_true, decide_eq_true_eq] at hok
  exact .str (caseTextOk_of hok.2 h hok.1.1.1)

omit [DecidableEq D] in
theorem Modest.hex [WideHex D] (d : D) : Modest (.str (hex d)) 0 1 :=
  .str (caseTextOk_of (length_hex d).le (by decide) (isXmlCharacter_plain (plainText_hex d)))

theorem Modest.taken {α : Type} {text : α → String} (h : ∀ a, Modest (.str (text a)) 0 1)
    (field : Option α) : Modest (takenJson text field) 0 1 := by
  cases field with
  | none => exact .null
  | some a => exact h a

section Records

variable [WideHex D]

omit [DecidableEq D]

theorem CasePlan.modest (p : CasePlan D) : Modest p.toDict 1 21 := by
  have htext : Modest (.str p.expectedObservationText) 0 1 :=
    .str (caseTextOk_of ((Utf8.length_le_length_encode _).trans p.ok.text_length) le_rfl p.ok.text)
  refine (Modest.dict p.nodup_keys_items ?_ ?_).mono le_rfl (show 1 + 20 * 1 ≤ 21 by decide)
  · simp only [PlanFields.items, Json.keys, List.map_cons, List.map_nil, List.forall_mem_cons,
      List.not_mem_nil, false_implies, implies_true, and_true]
    and_intros <;> exact caseTextOk_literal rfl
  · simp only [PlanFields.items, List.forall_mem_cons, List.not_mem_nil, false_implies,
      implies_true, and_true]
    exact ⟨.str (caseTextOk_literal rfl), .str (caseTextOk_literal rfl), .identifier _,
      .identifier _, .identifier _, .identifier _, .identifier _, .identifier _, .hex _,
      .description _ (by decide), .description _ (by decide), htext, .identifier _, .hex _, .hex _,
      .identifier _, .identifier _, .identifier _, .str (caseTextOk_literal rfl), .hex _⟩

theorem CaseObservation.modest (o : CaseObservation D) : Modest o.toDict 1 21 := by
  have hstatus : Modest (.str o.status.value) 0 1 :=
    .str (by cases o.status <;> exact caseTextOk_literal rfl)
  refine (Modest.dict o.nodup_keys_items ?_ ?_).mono le_rfl (show 1 + 10 * 1 ≤ 21 by decide)
  · simp only [items, Json.keys, List.map_cons, List.map_nil, List.forall_mem_cons,
      List.not_mem_nil, false_implies, implies_true, and_true]
    and_intros <;> exact caseTextOk_literal rfl
  · simp only [items, List.forall_mem_cons, List.not_mem_nil, false_implies, implies_true, and_true]
    exact ⟨.str (caseTextOk_literal rfl), .str (caseTextOk_literal rfl), .hex _, .identifier _,
      .identifier _, hstatus, .hex _, .taken .hex _, .taken .identifier _, .taken .identifier _⟩

theorem CaseVerdict.modest (v : CaseVerdict D) : Modest v.toDict 1 21 := by
  have houtcome : Modest (.str v.outcome.value) 0 1 :=
    .str (by cases v.outcome <;> exact caseTextOk_literal rfl)
  refine (Modest.dict v.nodup_keys_items ?_ ?_).mono le_rfl (show 1 + 6 * 1 ≤ 21 by decide)
  · simp only [items, Json.keys, List.map_cons, List.map_nil, List.forall_mem_cons,
      List.not_mem_nil, false_implies, implies_true, and_true]
    and_intros <;> exact caseTextOk_literal rfl
  · simp only [items, List.forall_mem_cons, List.not_mem_nil, false_implies, implies_true, and_true]
    exact ⟨.str (caseTextOk_literal rfl), .str (caseTextOk_literal rfl), .hex _, .hex _,
      .identifier _, houtcome⟩

theorem CaseDecision.modest (d : CaseDecision D) : Modest d.toDict 1 21 := by
  have hdisposition : Modest (.str d.disposition.value) 0 1 :=
    .str (by cases d.disposition <;> exact caseTextOk_literal rfl)
  refine (Modest.dict d.nodup_keys_items ?_ ?_).mono le_rfl (show 1 + 6 * 1 ≤ 21 by decide)
  · simp only [items, Json.keys, List.map_cons, List.map_nil, List.forall_mem_cons,
      List.not_mem_nil, false_implies, implies_true, and_true]
    and_intros <;> exact caseTextOk_literal rfl
  · simp only [items, List.forall_mem_cons, List.not_mem_nil, false_implies, implies_true, and_true]
    exact ⟨.str (caseTextOk_literal rfl), .str (caseTextOk_literal rfl), .hex _, .identifier _,
      hdisposition, .description _ (by decide)⟩

theorem CaseRecord.modest : ∀ r : CaseRecord D, Modest r.toDict 1 21
  | .plan p => p.modest
  | .observation o => o.modest
  | .verdict v => v.modest
  | .decision d => d.modest

theorem CaseReceipt.modest (r : CaseReceipt D) : Modest r.toDict 2 85 := by
  refine (Modest.dict r.nodup_keys_items ?_ ?_).mono le_rfl (show 1 + 4 * 21 ≤ 85 by decide)
  · simp only [items, Json.keys, List.map_cons, List.map_nil, List.forall_mem_cons,
      List.not_mem_nil, false_implies, implies_true, and_true]
    and_intros <;> exact caseTextOk_literal rfl
  · simp only [items, List.forall_mem_cons, List.not_mem_nil, false_implies, implies_true, and_true]
    have hle : ∀ {v}, Modest v 0 1 → Modest v 1 21 := fun h => h.mono (by decide) (by decide)
    exact ⟨hle (.int _), hle (.hex _), r.record.modest, hle (.hex _)⟩

theorem CaseJournal.modest (j : CaseJournal D) (h : j.receipts.length ≤ 4) :
    Modest j.toDict maxCaseJsonDepth maxCaseJsonNodes := by
  have hreceipts : Modest (.arr (j.receipts.map CaseReceipt.toDict)) 3 341 := by
    refine (Modest.arr fun x hx => ?_).mono le_rfl
      (show 1 + (j.receipts.map CaseReceipt.toDict).length * 85 ≤ 341 by
        rw [List.length_map]
        omega)
    obtain ⟨r, -, rfl⟩ := List.mem_map.mp hx
    exact r.modest
  have hle : ∀ {v}, Modest v 0 1 → Modest v 3 341 := fun h => h.mono (by decide) (by decide)
  refine (Modest.dict j.nodup_keys_items ?_ ?_).mono (show 4 ≤ 16 by decide)
    (show 1 + 4 * 341 ≤ 8192 by decide)
  · simp only [caseJournalItems, Json.keys, List.map_cons, List.map_nil, List.forall_mem_cons,
      List.not_mem_nil, false_implies, implies_true, and_true]
    and_intros <;> exact caseTextOk_literal rfl
  · simp only [caseJournalItems, List.forall_mem_cons, List.not_mem_nil, false_implies,
      implies_true, and_true]
    exact ⟨hle (.str (caseTextOk_literal rfl)), hle (.str (caseTextOk_literal rfl)), hle (.hex _),
      hreceipts⟩

end Records

omit [DecidableEq D] in
/-- A case has at most four records. -/
theorem SoundCase.length_le {authority : CaseAuthority} {rs : List (CaseRecord D)}
    {s : CaseProgress D} (h : SoundCase authority rs s) : rs.length ≤ 4 := by
  cases h <;> simp

omit [DecidableEq D] in
theorem readable_sequence (r : CaseReceipt D) : Json.Readable caseWireHooks (.int r.sequence) := by
  have hsize : Json.size (.int r.sequence) ≤ 3 :=
    Json.size_nat_le (by decide) (lt_of_lt_of_le r.sequence_lt (by decide))
  have htext : (Numeral.ofInt r.sequence).text.length ≤ 10 := by
    rw [Json.size, Json.dumps, Json.length_encode_text (Numeral.wf_ofInt _)] at hsize
    omega
  rw [Json.Readable, caseWireHooks]
  exact (if_pos htext).trans (congrArg some (Numeral.toInt_ofInt _))

namespace CaseJournal

omit [DecidableEq D] in
theorem readable_toDict (j : CaseJournal D) : Json.Readable caseWireHooks j.toDict := by
  have hreceipts : Json.Readable caseWireHooks (.arr (j.receipts.map CaseReceipt.toDict)) := by
    refine Json.readable_arr.mpr fun x hx => ?_
    obtain ⟨r, -, rfl⟩ := List.mem_map.mp hx
    exact r.readable_toDict (readable_sequence r)
  refine Json.readable_dict ?_
  simp only [caseJournalItems, List.forall_mem_cons, List.not_mem_nil, false_implies, implies_true,
    and_true]
  exact ⟨trivial, trivial, trivial, hreceipts⟩

/-- **A journal that replays is read back from its bytes.** -/
theorem fromBytes_toBytes [WideHex D] {j : CaseJournal D} {authority : CaseAuthority}
    {expectedHead : Option D} {state : CaseState D}
    (h : replayCase j authority expectedHead = .ok state) :
    fromBytes j.toBytes authority expectedHead = .ok j := by
  obtain ⟨-, -, progress, hcase, -⟩ := replayCase_eq_ok.mp h
  have hlength : j.receipts.length ≤ 4 := by
    have hle := hcase.length_le
    rwa [records, List.length_map] at hle
  have hget := Json.get?_foldr_insertKey j.nodup_keys_items
  have hdocument := caseDocument_canonical j.readable_toDict rfl j.size_le (j.modest hlength)
  simp only [fromBytes, bind_eq_ok]
  refine ⟨j.toDict, hdocument, ?_⟩
  simp only [fromDict, bind_eq_ok]
  refine ⟨_, caseFields_eq_ok.mpr ⟨rfl, fun k => ?_⟩, (), ?_, j.receipts.map CaseReceipt.toDict, ?_,
    j.receipts, decodeItems_map fun r _ => r.fromDict_toDict, j.authorityDigest, ?_, j,
    make_eq_ok.mpr ⟨rfl, rfl⟩, state, h, rfl⟩
  · exact (Json.mem_keys_foldr_insertKey_iff j.nodup_keys_items).trans (j.mem_keys_items k)
  · rw [caseProfile, hget, hget]
    exact valid_of ⟨rfl, rfl⟩
  · rw [hget]
    exact receiptsField_eq_ok.mpr ⟨rfl, by rw [List.length_map]; exact j.length_le⟩
  · rw [hget]
    exact hashField_eq_ok.mpr rfl

end CaseJournal

end EvidenceBraid
