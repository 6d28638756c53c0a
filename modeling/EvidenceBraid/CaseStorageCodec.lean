import EvidenceBraid.CaseOperations

/-!
# The documents of the case store

Stored documents are read back from their own bytes and from no others (`caseParse_canonical`,
`of_caseParse`), checkpoints and operations survive their documents, and no operation that the
store writes exceeds its byte limit.
-/

namespace EvidenceBraid

open Hashing Transaction Sqlite
open Json (WellKeyed)

variable {D : Type} [Hashing D]

/-! ## Bytes -/

theorem readable_int_caseHooks (n : ℤ) : Json.Readable caseHooks (.int n) := by
  simp [Json.Readable, caseHooks]

/-- **A document that the hooks can read is read from its bytes.** -/
theorem caseParse_canonical {v : Json} {maximum : ℕ} (hv : Json.Readable caseHooks v)
    (hobject : isObject v = true) (hsize : Json.size v ≤ maximum) :
    caseParse (canonicalBytes v) maximum = .ok v := by
  have hload : Json.loads caseHooks (canonicalJson v false) = some v := Json.loads_dumps hv
  have hdecode : (Utf8.decode (canonicalBytes v)).bind (Json.loads caseHooks) = some v := by
    rw [canonicalBytes, Utf8.decode_encode, Option.bind_some, hload]
  simp only [caseParse, bind_eq_ok]
  exact ⟨(), valid_of hsize, v, orError_eq_ok.mpr hdecode, (), valid_of ⟨hobject, rfl⟩, rfl⟩

/-- What is read has these bytes. -/
theorem of_caseParse {raw : Bytes} {maximum : ℕ} {v : Json} (h : caseParse raw maximum = .ok v) :
    raw = canonicalBytes v ∧ raw.length ≤ maximum ∧ WellKeyed v := by
  simp only [caseParse, bind_eq_ok, valid_eq_ok, exists_unit, orError_eq_ok, Except.ok.injEq] at h
  obtain ⟨hlength, v, hv, ⟨-, hraw⟩, rfl⟩ := h
  obtain ⟨cs, -, hload⟩ := Option.bind_eq_some_iff.mp hv
  exact ⟨hraw.symm, hlength, Json.wellKeyed_of_loads hload⟩

theorem caseStoreFields_eq_ok {value : Json} {names : List String} {kvs : List (String × Json)} :
    caseStoreFields value names = .ok kvs ↔
      value = .obj kvs ∧ ∀ k, k ∈ Json.keys kvs ↔ k ∈ names := by
  rw [caseStoreFields, wrapping_eq_ok, exactly_eq_ok]

theorem cellText_eq_ok {c : Cell} {s : String} :
    cellText c = .ok s ↔ c = .text (Utf8.encode s.toList) := by
  cases c with
  | text bytes =>
    simp only [cellText, orError_eq_ok, Option.map_eq_some_iff, Cell.text.injEq]
    constructor
    · rintro ⟨cs, hcs, rfl⟩
      rw [String.toList_ofList, Utf8.encode_of_decode hcs]
    · rintro rfl
      exact ⟨s.toList, Utf8.decode_encode _, String.ofList_toList⟩
  | _ => simp [cellText]

theorem cellBytes_eq_ok {c : Cell} {bytes : Bytes} :
    cellBytes c = .ok bytes ↔ c = .blob bytes := by
  cases c <;> simp [cellBytes]

theorem identifier_eq_ok {s path : String} {i : Identifier} :
    identifier s path = .ok i ↔ i.value = s := by
  unfold identifier
  constructor
  · intro h
    split_ifs at h
    rw [← Except.ok.inj h]
  · rintro rfl
    rw [dif_pos i.ok]

theorem encode_text_inj {s t : String} (h : Utf8.encode s.toList = Utf8.encode t.toList) : s = t :=
  String.toList_inj.mp (Utf8.encode_injective h)

/-! ## Checkpoints -/

namespace CaseStoreCheckpoint

theorem nodup_keys_items (c : CaseStoreCheckpoint D) : (Json.keys c.items).Nodup := by
  simp only [items, Json.keys, List.map_cons, List.map_nil]
  decide

theorem mem_keys_items (c : CaseStoreCheckpoint D) (k : String) :
    k ∈ Json.keys c.items ↔ k ∈ fields := by
  refine List.Perm.mem_iff ?_
  simp only [items, Json.keys, List.map_cons, List.map_nil]
  decide

theorem readable_toDict (c : CaseStoreCheckpoint D) : Json.Readable caseHooks c.toDict := by
  refine Json.readable_dict ?_
  intro kv hkv
  simp only [items, List.mem_cons, List.not_mem_nil, or_false] at hkv
  rcases hkv with rfl | rfl | rfl | rfl | rfl | rfl | rfl <;>
    first | exact readable_int_caseHooks _ | exact Json.readable_str _

theorem hashOf_eq_ok {value : Option Json} {d : D} :
    hashOf value = .ok d ↔ value = some (.str (hex d)) := by
  rw [hashOf, wrapping_eq_ok, hashField_eq_ok]

theorem countOf_eq_ok {value : Option Json} {minimum n : ℕ} :
    countOf value minimum = .ok n ↔ value = some (.int n) ∧ minimum ≤ n ∧ n ≤ 3 := by
  rw [countOf, wrapping_eq_ok, integerField_eq_ok]

omit [Hashing D] in
theorem make_eq_ok {contextDigest caseHead operationHead : D}
    {recordCount operationCount generation : ℕ} {c : CaseStoreCheckpoint D} :
    make contextDigest recordCount caseHead operationCount operationHead generation = .ok c ↔
      c.contextDigest = contextDigest ∧ c.recordCount = recordCount ∧ c.caseHead = caseHead ∧
        c.operationCount = operationCount ∧ c.operationHead = operationHead ∧
        c.generation = generation := by
  unfold make
  constructor
  · intro h
    split_ifs at h
    rw [← Except.ok.inj h]
    exact ⟨rfl, rfl, rfl, rfl, rfl, rfl⟩
  · rintro ⟨rfl, rfl, rfl, rfl, rfl, rfl⟩
    rw [dif_pos ⟨c.records_range, c.operations_le, c.generation_eq⟩]

/-- **A checkpoint survives its document.** -/
@[simp] theorem fromDict_toDict (c : CaseStoreCheckpoint D) : fromDict c.toDict = .ok c := by
  have hget := Json.get?_foldr_insertKey c.nodup_keys_items
  have hrecords := c.records_range
  have hoperations := c.operations_le
  have hgeneration := c.generation_eq
  simp only [fromDict, bind_eq_ok]
  refine ⟨_, caseStoreFields_eq_ok.mpr ⟨rfl, fun k => ?_⟩, (), ?_, c.contextDigest, ?_, c.caseHead,
    ?_, c.operationHead, ?_, c.recordCount, ?_, c.operationCount, ?_, c.generation, ?_,
    make_eq_ok.mpr ⟨rfl, rfl, rfl, rfl, rfl, rfl⟩⟩
  · exact (Json.mem_keys_foldr_insertKey_iff c.nodup_keys_items).trans (c.mem_keys_items k)
  all_goals rw [hget]
  · exact valid_of rfl
  · exact hashOf_eq_ok.mpr rfl
  · exact hashOf_eq_ok.mpr rfl
  · exact hashOf_eq_ok.mpr rfl
  · exact countOf_eq_ok.mpr ⟨rfl, hrecords.1, hrecords.2⟩
  · exact countOf_eq_ok.mpr ⟨rfl, Nat.zero_le _, hoperations⟩
  · exact countOf_eq_ok.mpr ⟨rfl, Nat.zero_le _, by omega⟩

/-- A document that is read as a checkpoint is the checkpoint's own. -/
theorem eq_toDict_of_fromDict {value : Json} {c : CaseStoreCheckpoint D} (hvalue : WellKeyed value)
    (h : fromDict value = .ok c) : value = c.toDict := by
  simp only [fromDict, bind_eq_ok, caseStoreFields_eq_ok, valid_eq_ok, exists_unit, hashOf_eq_ok,
    countOf_eq_ok, make_eq_ok] at h
  obtain ⟨data, ⟨rfl, hkeys⟩, hversion, contextDigest, h₁, caseHead, h₂, h⟩ := h
  obtain ⟨operationHead, h₃, recordCount, ⟨h₄, -⟩, operationCount, ⟨h₅, -⟩, generation, h⟩ := h
  obtain ⟨⟨h₆, -⟩, rfl, rfl, rfl, rfl, rfl, rfl⟩ := h
  refine Json.obj_eq_dict (Json.wellKeyed_obj.mp hvalue).1 c.nodup_keys_items
    (fun k hk => (c.mem_keys_items k).mpr ((hkeys k).mp hk)) ?_
  simp [items, hversion, h₁, h₂, h₃, h₄, h₅, h₆]

omit [Hashing D] in
theorem ext_fields {c d : CaseStoreCheckpoint D} (hcontext : c.contextDigest = d.contextDigest)
    (hrecords : c.recordCount = d.recordCount) (hhead : c.caseHead = d.caseHead)
    (hcount : c.operationCount = d.operationCount) (hoperation : c.operationHead = d.operationHead) :
    c = d := by
  have hc := c.generation_eq
  have hd := d.generation_eq
  cases c
  cases d
  simp_all

theorem size_toDict_le [WideHex D] (c : CaseStoreCheckpoint D) : Json.size c.toDict ≤ 400 := by
  rw [toDict, Json.size_dict c.nodup_keys_items (by simp [items])]
  have hkeys : Json.quotedSize "schema_version" = 16 ∧ Json.quotedSize "context_digest" = 16 ∧
      Json.quotedSize "record_count" = 14 ∧ Json.quotedSize "case_head" = 11 ∧
      Json.quotedSize "operation_count" = 17 ∧ Json.quotedSize "operation_head" = 16 ∧
      Json.quotedSize "generation" = 12 ∧ Json.quotedSize "1.0" = 5 := by
    and_intros <;> exact Json.quotedSize_literal rfl
  have hrecords : Json.size (.int c.recordCount) ≤ 1 :=
    Json.size_nat_le (by decide) (lt_of_le_of_lt c.records_range.2 (by decide))
  have hoperations : Json.size (.int c.operationCount) ≤ 1 :=
    Json.size_nat_le (by decide) (lt_of_le_of_lt c.operations_le (by decide))
  have hgeneration : Json.size (.int c.generation) ≤ 1 := by
    rw [c.generation_eq]
    exact hoperations
  simp only [items, List.map_cons, List.map_nil, List.sum_cons, List.sum_nil, Json.size_str,
    quotedSize_hex, hkeys]
  clear hkeys
  omega

end CaseStoreCheckpoint

/-! ## Contexts -/

theorem nodup_keys_caseContextItems (authorityDigest : D) (plan : CasePlan D) (planHead : D) :
    (Json.keys (caseContextItems authorityDigest plan planHead)).Nodup := by
  simp only [caseContextItems, Json.keys, List.map_cons, List.map_nil]
  decide

theorem mem_keys_caseContextItems (authorityDigest : D) (plan : CasePlan D) (planHead : D)
    (k : String) :
    k ∈ Json.keys (caseContextItems authorityDigest plan planHead) ↔ k ∈ contextFields := by
  refine List.Perm.mem_iff ?_
  simp only [caseContextItems, Json.keys, List.map_cons, List.map_nil]
  decide

theorem readable_caseContext (authorityDigest : D) (plan : CasePlan D) (planHead : D) :
    Json.Readable caseHooks (caseContext authorityDigest plan planHead) := by
  refine Json.readable_dict ?_
  intro kv hkv
  simp only [caseContextItems, List.mem_cons, List.not_mem_nil, or_false] at hkv
  rcases hkv with rfl | rfl | rfl | rfl | rfl | rfl | rfl | rfl <;> exact Json.readable_str _

theorem size_caseContext_le [WideHex D] (authorityDigest : D) (plan : CasePlan D) (planHead : D) :
    Json.size (caseContext authorityDigest plan planHead) ≤ 1000 := by
  rw [caseContext, Json.size_dict (nodup_keys_caseContextItems _ _ _) (by simp [caseContextItems])]
  have hkeys : Json.quotedSize "kind" = 6 ∧ Json.quotedSize "schema_version" = 16 ∧
      Json.quotedSize "authority_digest" = 18 ∧ Json.quotedSize "case_id" = 9 ∧
      Json.quotedSize "plan_head" = 11 ∧ Json.quotedSize "plan_digest" = 13 ∧
      Json.quotedSize "assertion_artifact_id" = 23 ∧ Json.quotedSize "input_artifact_id" = 19 ∧
      Json.quotedSize "evidence-braid-case-store-context" = 35 ∧ Json.quotedSize "1.0" = 5 := by
    and_intros <;> exact Json.quotedSize_literal rfl
  have hcase := plan.caseId.quotedSize_le
  have hassertion := plan.assertionArtifactId.quotedSize_le
  have hinput := plan.inputArtifactId.quotedSize_le
  simp only [caseContextItems, List.map_cons, List.map_nil, List.sum_cons, List.sum_nil,
    Json.size_str, quotedSize_hex, hkeys]
  clear hkeys
  omega

/-! ## Operations -/

/-- The digest of an operation. -/
def operationDigest (details : RequestDetails) (operationId requestId : Identifier)
    (before : CaseStoreCheckpoint D) (recordCount : ℕ) (caseHead : D) : D :=
  caseStoreDigest 'O'
    (Json.dict (operationItems details operationId requestId before recordCount caseHead))

/-- The document of an operation, with its digest. -/
def storedItems (details : RequestDetails) (operationId requestId : Identifier)
    (before : CaseStoreCheckpoint D) (recordCount : ℕ) (caseHead : D) : List (String × Json) :=
  operationItems details operationId requestId before recordCount caseHead ++
    [("digest", Json.str (hex (operationDigest details operationId requestId before recordCount caseHead)))]

section Operation

variable (details : RequestDetails) (operationId requestId : Identifier)
  (before : CaseStoreCheckpoint D) (recordCount : ℕ) (caseHead : D)

theorem nodup_keys_storedItems : (Json.keys
    (storedItems details operationId requestId before recordCount caseHead)).Nodup := by
  simp only [storedItems, operationItems, requestItems, Json.keys, List.cons_append,
    List.nil_append, List.map_cons, List.map_nil]
  decide

theorem mem_keys_storedItems (k : String) : k ∈ Json.keys
    (storedItems details operationId requestId before recordCount caseHead) ↔
      k ∈ operationFields := by
  refine List.Perm.mem_iff ?_
  simp only [storedItems, operationItems, requestItems, Json.keys, List.cons_append,
    List.nil_append, List.map_cons, List.map_nil]
  decide

/-- The document's members. -/
def storedNode : List (String × Json) :=
  (storedItems details operationId requestId before recordCount caseHead).foldr Json.insertKey []

theorem get?_storedNode (k : String) :
    Json.get? (storedNode details operationId requestId before recordCount caseHead) k =
      Json.get? (storedItems details operationId requestId before recordCount caseHead) k :=
  Json.get?_foldr_insertKey (nodup_keys_storedItems _ _ _ _ _ _) k

/-- The details of a request, as their document may hold them. -/
def RequestDetails.Readable : Prop :=
  Json.Readable caseHooks details.operationType ∧ Json.Readable caseHooks details.adapterKey ∧
    Json.Readable caseHooks details.payloadDigest ∧ Json.Readable caseHooks details.status ∧
    Json.Readable caseHooks details.recordDigest ∧ Json.Readable caseHooks details.evaluatorId

theorem readable_storedNode (h : details.Readable) : Json.Readable caseHooks
    (.obj (storedNode details operationId requestId before recordCount caseHead)) := by
  obtain ⟨htype, hkey, hpayload, hstatus, hrecord, hevaluator⟩ := h
  refine Json.readable_dict ?_
  intro kv hkv
  simp only [storedItems, operationItems, requestItems, List.cons_append, List.nil_append,
    List.mem_cons, List.not_mem_nil, or_false] at hkv
  rcases hkv with rfl | rfl | rfl | rfl | rfl | rfl | rfl | rfl | rfl | rfl | rfl | rfl | rfl | rfl |
    rfl | rfl | rfl
  all_goals first
    | exact Json.readable_str _
    | exact readable_int_caseHooks _
    | exact before.readable_toDict
    | assumption

/-- The sizes of the details. -/
def RequestDetails.size : ℕ :=
  Json.size details.operationType + Json.size details.adapterKey + Json.size details.payloadDigest +
    Json.size details.status + Json.size details.recordDigest + Json.size details.evaluatorId

theorem size_storedNode_le [WideHex D] (hrecords : recordCount ≤ 3) : Json.size
    (.obj (storedNode details operationId requestId before recordCount caseHead)) ≤
      1600 + details.size := by
  change Json.size
    (Json.dict (storedItems details operationId requestId before recordCount caseHead)) ≤ _
  rw [Json.size_dict (nodup_keys_storedItems _ _ _ _ _ _)
    (by simp [storedItems, operationItems, requestItems])]
  have hkeys : Json.quotedSize "kind" = 6 ∧ Json.quotedSize "schema_version" = 16 ∧
      Json.quotedSize "sequence" = 10 ∧ Json.quotedSize "operation_type" = 16 ∧
      Json.quotedSize "operation_id" = 14 ∧ Json.quotedSize "request_id" = 12 ∧
      Json.quotedSize "expected" = 10 ∧ Json.quotedSize "adapter_key" = 13 ∧
      Json.quotedSize "payload_digest" = 16 ∧ Json.quotedSize "status" = 8 ∧
      Json.quotedSize "record_digest" = 15 ∧ Json.quotedSize "evaluator_id" = 14 ∧
      Json.quotedSize "request_digest" = 16 ∧ Json.quotedSize "result_record_count" = 21 ∧
      Json.quotedSize "result_case_head" = 18 ∧ Json.quotedSize "previous_digest" = 17 ∧
      Json.quotedSize "digest" = 8 ∧
      Json.quotedSize "evidence-braid-case-store-operation" = 37 ∧ Json.quotedSize "1.0" = 5 := by
    and_intros <;> exact Json.quotedSize_literal rfl
  have hoperation := operationId.quotedSize_le
  have hrequest := requestId.quotedSize_le
  have hbefore := before.size_toDict_le
  have hsequence : Json.size (.int before.operationCount) ≤ 1 :=
    Json.size_nat_le (by decide) (lt_of_le_of_lt before.operations_le (by decide))
  have hcount : Json.size (.int recordCount) ≤ 1 :=
    Json.size_nat_le (by decide) (lt_of_le_of_lt hrecords (by decide))
  simp only [storedItems, operationItems, requestItems, List.cons_append, List.nil_append,
    List.map_cons, List.map_nil, List.sum_cons, List.sum_nil, Json.size_str, quotedSize_hex,
    RequestDetails.size, hkeys]
  clear hkeys
  omega

end Operation

/-- The checkpoint after an operation, where there may be one more. -/
def CaseStoreCheckpoint.next (details : RequestDetails) (operationId requestId : Identifier)
    (before : CaseStoreCheckpoint D) (recordCount : ℕ) (caseHead : D) : CaseStoreCheckpoint D :=
  if h : before.operationCount < 3 ∧ 1 ≤ recordCount ∧ recordCount ≤ 3 then {
    contextDigest := before.contextDigest
    recordCount := recordCount
    caseHead := caseHead
    operationCount := before.operationCount + 1
    operationHead := operationDigest details operationId requestId before recordCount caseHead
    generation := before.generation + 1
    records_range := h.2
    operations_le := h.1
    generation_eq := by rw [before.generation_eq] }
  else before

/-- **What `_operation` returns.** -/
theorem caseOperation_eq_ok {details : RequestDetails} {operationId requestId : Identifier}
    {before after : CaseStoreCheckpoint D} {journal : CaseJournal D} {raw : Bytes} :
    caseOperation details operationId requestId before journal = .ok (raw, after) ↔
      raw = canonicalBytes (.obj (storedNode details operationId requestId before
          journal.receipts.length journal.headDigest)) ∧
        raw.length ≤ maxCaseOperationBytes ∧ before.operationCount < 3 ∧
        (1 ≤ journal.receipts.length ∧ journal.receipts.length ≤ 3) ∧
        after = before.next details operationId requestId journal.receipts.length
          journal.headDigest := by
  have hnext : ∀ h : before.operationCount < 3 ∧ 1 ≤ journal.receipts.length ∧
      journal.receipts.length ≤ 3, CaseStoreCheckpoint.make before.contextDigest
        journal.receipts.length journal.headDigest (before.operationCount + 1)
        (operationDigest details operationId requestId before journal.receipts.length
          journal.headDigest) (before.generation + 1) =
      .ok (before.next details operationId requestId journal.receipts.length
        journal.headDigest) := by
    intro h
    rw [CaseStoreCheckpoint.make_eq_ok, CaseStoreCheckpoint.next, dif_pos h]
    exact ⟨rfl, rfl, rfl, rfl, rfl, rfl⟩
  simp only [caseOperation, bind_eq_ok, valid_eq_ok, exists_unit, Except.ok.injEq, Prod.mk.injEq]
  constructor
  · rintro ⟨hsize, c, hc, rfl, rfl⟩
    have hbounds : before.operationCount < 3 ∧ 1 ≤ journal.receipts.length ∧
        journal.receipts.length ≤ 3 := by
      obtain ⟨-, hrecords, -, hoperations, -⟩ := CaseStoreCheckpoint.make_eq_ok.mp hc
      have h₁ := c.records_range
      have h₂ := c.operations_le
      omega
    refine ⟨rfl, hsize, hbounds.1, hbounds.2, ?_⟩
    exact Except.ok.inj (hc.symm.trans (hnext hbounds))
  · rintro ⟨rfl, hsize, hcount, hrecords, rfl⟩
    exact ⟨hsize, _, hnext ⟨hcount, hrecords⟩, rfl, rfl⟩

end EvidenceBraid
