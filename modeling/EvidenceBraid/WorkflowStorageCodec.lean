import EvidenceBraid.WorkflowStorage

/-!
# The documents of the workflow store

What the store's writer puts into a row its reader takes back, and nothing else is read so: stored
documents have only their own bytes (`workflowParse_eq_ok`), a checkpoint survives its document, and
a bundle is the one of its stored context and receipts (`readBundle_storeContext`).
-/

namespace EvidenceBraid

open Hashing Transaction Sqlite
open Json (WellKeyed)

variable {D : Type} [Hashing D]

/-! ## Bytes -/

/-- **A stored document has one spelling**, its canonical bytes. -/
theorem workflowParse_eq_ok {raw : Bytes} {v : Json} :
    workflowParse raw = .ok v ↔ raw = canonicalBytes v ∧ isObject v = true ∧ WellKeyed v := by
  simp only [workflowParse, wrapping_eq_ok, bind_eq_ok, valid_eq_ok, exists_unit, orError_eq_ok,
    Except.ok.injEq]
  constructor
  · rintro ⟨chars, hchars, value, hload, ⟨hobject, hraw⟩, rfl⟩
    exact ⟨hraw.symm, hobject, Json.wellKeyed_of_loads (orError_eq_ok.mp hload)⟩
  · rintro ⟨rfl, hobject, hkeyed⟩
    exact ⟨_, Utf8.decode_encode _, v, strictLoads_canonicalJson hkeyed false, ⟨hobject, rfl⟩, rfl⟩

theorem workflowBytes_eq_ok {value : Json} {maximum : ℕ} {raw : Bytes} :
    workflowBytes value maximum = .ok raw ↔ (canonicalBytes value).length ≤ maximum ∧
      canonicalBytes value = raw := by
  simp only [workflowBytes, bind_eq_ok, valid_eq_ok, exists_unit, Except.ok.injEq]

theorem workflowStoreDigest_eq_ok {value : Json} {maximum : ℕ} {d : D} :
    workflowStoreDigest value maximum = .ok d ↔ (canonicalBytes value).length ≤ maximum ∧
      sha256 (canonicalBytes value) = d := by
  simp only [workflowStoreDigest, bind_eq_ok, workflowBytes_eq_ok, Except.ok.injEq]
  constructor
  · rintro ⟨_, ⟨hle, rfl⟩, hd⟩
    exact ⟨hle, hd⟩
  · rintro ⟨hle, hd⟩
    exact ⟨_, ⟨hle, rfl⟩, hd⟩

/-! ## Checkpoints -/

namespace WorkflowCheckpoint

theorem nodup_keys_items (c : WorkflowCheckpoint D) : (Json.keys c.items).Nodup := by
  simp only [items, Json.keys, List.map_cons, List.map_nil]
  decide

theorem mem_keys_items (c : WorkflowCheckpoint D) (k : String) :
    k ∈ Json.keys c.items ↔ k ∈ fields := by
  refine List.Perm.mem_iff ?_
  simp only [items, Json.keys, List.map_cons, List.map_nil]
  decide

theorem wellKeyed_toDict (c : WorkflowCheckpoint D) : WellKeyed c.toDict := by
  refine Json.wellKeyed_dict ?_
  intro kv hkv
  simp only [items, List.mem_cons, List.not_mem_nil, or_false] at hkv
  rcases hkv with rfl | rfl | rfl | rfl | rfl | rfl <;> simp

omit [Hashing D] in
theorem ext_fields {c d : WorkflowCheckpoint D} (hcontext : c.contextDigest = d.contextDigest)
    (hrecords : c.recordCount = d.recordCount) (hhead : c.workflowHead = d.workflowHead)
    (hcount : c.operationCount = d.operationCount) (hoperation : c.operationHead = d.operationHead) :
    c = d := ext_iff_fields.mpr ⟨hcontext, hrecords, hhead, hcount, hoperation⟩

variable [DecidableEq D]

omit [Hashing D] in
theorem make_eq_ok {contextDigest workflowHead operationHead : D} {recordCount operationCount : ℕ}
    {c : WorkflowCheckpoint D} :
    make contextDigest recordCount workflowHead operationCount operationHead = .ok c ↔
      c.contextDigest = contextDigest ∧ c.recordCount = recordCount ∧ c.workflowHead = workflowHead ∧
        c.operationCount = operationCount ∧ c.operationHead = operationHead := by
  simp only [make, bind_eq_ok, valid_eq_ok, exists_unit]
  constructor
  · rintro ⟨-, -, h⟩
    split_ifs at h
    rw [← Except.ok.inj h]
    exact ⟨rfl, rfl, rfl, rfl, rfl⟩
  · rintro ⟨rfl, rfl, rfl, rfl, rfl⟩
    exact ⟨c.records_le, c.operations_le, dif_pos ⟨c.records_le, c.operations_le, c.head_eq⟩⟩

/-- **A checkpoint survives its document.** -/
@[simp] theorem fromDict_toDict (c : WorkflowCheckpoint D) : fromDict c.toDict = .ok c := by
  have hget := Json.get?_foldr_insertKey c.nodup_keys_items
  simp only [fromDict, bind_eq_ok]
  refine ⟨_, exactly_dict c.nodup_keys_items c.mem_keys_items, (), ?_, c.contextDigest, ?_,
    c.workflowHead, ?_, c.operationHead, ?_, c.recordCount, ?_, c.operationCount, ?_,
    make_eq_ok.mpr ⟨rfl, rfl, rfl, rfl, rfl⟩⟩
  all_goals rw [hget]
  · exact valid_of rfl
  · exact hashField_eq_ok.mpr rfl
  · exact hashField_eq_ok.mpr rfl
  · exact hashField_eq_ok.mpr rfl
  · exact integerField_eq_ok.mpr ⟨rfl, Nat.zero_le _, c.records_le⟩
  · exact integerField_eq_ok.mpr ⟨rfl, Nat.zero_le _, c.operations_le⟩

/-- A document that is read as a checkpoint is the checkpoint's own. -/
theorem eq_toDict_of_fromDict {value : Json} {c : WorkflowCheckpoint D} (hvalue : WellKeyed value)
    (h : fromDict value = .ok c) : value = c.toDict := by
  simp only [fromDict, bind_eq_ok, exactly_eq_ok, valid_eq_ok, exists_unit, hashField_eq_ok,
    integerField_eq_ok, make_eq_ok] at h
  obtain ⟨data, ⟨rfl, hkeys⟩, hversion, contextDigest, h₁, workflowHead, h₂, operationHead,
    h₃, h⟩ := h
  obtain ⟨recordCount, ⟨h₄, -⟩, operationCount, ⟨h₅, -⟩, rfl, rfl, rfl, rfl, rfl⟩ := h
  refine Json.obj_eq_dict (Json.wellKeyed_obj.mp hvalue).1 c.nodup_keys_items
    (fun k hk => (c.mem_keys_items k).mpr ((hkeys k).mp hk)) ?_
  simp [items, hversion, h₁, h₂, h₃, h₄, h₅]

omit [DecidableEq D] in
theorem toDict_injective : Function.Injective (toDict : WorkflowCheckpoint D → Json) := by
  classical
  intro c d h
  have hc := fromDict_toDict c
  rw [h, fromDict_toDict] at hc
  exact (Except.ok.inj hc).symm

omit [DecidableEq D] in
theorem size_le [WideHex D] (c : WorkflowCheckpoint D) : Json.size c.toDict ≤ 400 := by
  rw [toDict, Json.size_dict c.nodup_keys_items (by simp [items])]
  have hkeys : Json.quotedSize "schema_version" = 16 ∧ Json.quotedSize "context_digest" = 16 ∧
      Json.quotedSize "record_count" = 14 ∧ Json.quotedSize "workflow_head" = 15 ∧
      Json.quotedSize "operation_count" = 17 ∧ Json.quotedSize "operation_head" = 16 ∧
      Json.quotedSize "1.0" = 5 := by
    and_intros <;> exact Json.quotedSize_literal rfl
  have hrecords : Json.size (.int c.recordCount) ≤ 5 :=
    Json.size_nat_le (by decide) (lt_of_le_of_lt c.records_le (by decide))
  have hoperations : Json.size (.int c.operationCount) ≤ 5 :=
    Json.size_nat_le (by decide) (lt_of_le_of_lt (c.operations_le.trans c.records_le) (by decide))
  simp only [items, List.map_cons, List.map_nil, List.sum_cons, List.sum_nil, Json.size_str,
    quotedSize_hex, hkeys]
  clear hkeys
  omega

omit [DecidableEq D] in
/-- A checkpoint's document is within the bound of its row. -/
theorem size_toDict_le [WideHex D] (c : WorkflowCheckpoint D) :
    (canonicalBytes c.toDict).length ≤ maxWorkflowDocument := c.size_le.trans (by decide)

end WorkflowCheckpoint

/-! ## Requests -/

theorem nodup_keys_requestItemsOf (requestId : Identifier) (expected : WorkflowCheckpoint D)
    (ts : List (WorkflowTransition D)) :
    (Json.keys (requestItemsOf requestId expected ts)).Nodup := by
  simp only [requestItemsOf, Json.keys, List.map_cons, List.map_nil]
  decide

/-! ## Receipts -/

namespace SQLiteWorkflowStore

/-- A receipt's row. -/
def receiptCell (r : WorkflowReceipt D) : Cell := .blob (canonicalBytes r.toDict)

/-- Rows from a sequence number on are the receipts', in order. -/
theorem readReceipts_eq_ok {rows : List (ℕ × Cell)} : ∀ {n : ℕ} {rs : List (WorkflowReceipt D)},
    readReceipts n rows = .ok rs ↔ rows = (List.range' n rs.length).zip (rs.map receiptCell) := by
  induction rows with
  | nil =>
    intro n rs
    cases rs <;> simp [readReceipts, List.range'_succ]
  | cons row rows ih =>
    intro n rs
    obtain ⟨sequence, cell⟩ := row
    simp only [readReceipts, bind_eq_ok, valid_eq_ok, exists_unit, cellBytes_eq_ok, ih,
      workflowParse_eq_ok, Except.ok.injEq]
    constructor
    · rintro ⟨rfl, raw, rfl, document, ⟨rfl, -, hkeyed⟩, r, hr, rest, hrest, rfl⟩
      rw [WorkflowReceipt.eq_toDict_of_fromDict hkeyed hr, hrest]
      simp [receiptCell, List.range'_succ]
    · intro h
      cases rs with
      | nil => simp at h
      | cons r rs =>
        simp only [List.length_cons, List.range'_succ, List.map_cons, List.zip_cons_cons,
          List.cons.injEq, Prod.mk.injEq] at h
        obtain ⟨⟨rfl, rfl⟩, rfl⟩ := h
        exact ⟨rfl, _, rfl, r.toDict, ⟨rfl, rfl, r.wellKeyed_toDict⟩, r, r.fromDict_toDict, rs, rfl, rfl⟩

/-- **The receipts that are read** fill the table. -/
theorem readReceipts_table {receipts : Table Cell} {rs : List (WorkflowReceipt D)} :
    readReceipts 0 receipts.rows = .ok rs ↔ receipts = Table.ofValues (rs.map receiptCell) := by
  rw [readReceipts_eq_ok, Table.ext_iff]
  simp [Table.ofValues, List.range_eq_range']

theorem receiptRows_eq_ok {maximum : ℕ} {rs : List (WorkflowReceipt D)} : ∀ {rows : List Bytes},
    receiptRows maximum rs = .ok rows ↔ rows = rs.map (fun r => canonicalBytes r.toDict) ∧
      ∀ r ∈ rs, (canonicalBytes r.toDict).length ≤ maximum := by
  induction rs with
  | nil => simp [receiptRows, eq_comm]
  | cons r rs ih =>
    intro rows
    simp only [receiptRows, bind_eq_ok, workflowBytes_eq_ok, ih, Except.ok.injEq, List.map_cons,
      List.forall_mem_cons]
    constructor
    · rintro ⟨_, ⟨hle, rfl⟩, _, ⟨rfl, hall⟩, rfl⟩
      exact ⟨rfl, hle, hall⟩
    · rintro ⟨rfl, hle, hall⟩
      exact ⟨_, ⟨hle, rfl⟩, _, ⟨rfl, hall⟩, rfl⟩

end SQLiteWorkflowStore

/-! ## Contexts -/

namespace BundleFields

variable [DecidableEq D]

theorem nodup_keys_storeContextItems (b : BundleFields D) (n : ℕ) :
    (Json.keys (b.storeContextItems n)).Nodup := by
  simp only [storeContextItems, Json.keys, List.map_cons, List.map_nil]
  decide

theorem mem_keys_storeContextItems (b : BundleFields D) (n : ℕ) (k : String) :
    k ∈ Json.keys (b.storeContextItems n) ↔ k ∈ SQLiteWorkflowStore.contextFields := by
  refine List.Perm.mem_iff ?_
  simp only [storeContextItems, Json.keys, List.map_cons, List.map_nil]
  decide

theorem wellKeyed_storeContext (b : BundleFields D) (n : ℕ) : WellKeyed (b.storeContext n) := by
  refine Json.wellKeyed_dict ?_
  intro kv hkv
  simp only [storeContextItems, List.mem_cons, List.not_mem_nil, or_false] at hkv
  rcases hkv with rfl | rfl | rfl | rfl | rfl | rfl | rfl | rfl | rfl <;>
    simp [EvidenceLedger.wellKeyed_toDict, ArtifactReference.wellKeyed_toDict]

omit [DecidableEq D] in
/-- The head at a count is the head of the records up to it. -/
theorem headAt_eq (b : BundleFields D) {count : ℕ} (h : count ≤ b.records.length) :
    b.headAt count = (b.prefixOf count).headDigest := by
  unfold headAt headDigest prefixOf
  by_cases hcount : count = 0
  · subst hcount
    rfl
  · obtain ⟨n, rfl⟩ := Nat.exists_eq_succ_of_ne_zero hcount
    have hlt : n < b.records.length := h
    have htake : b.records.take (n + 1) = b.records.take n ++ [b.records[n]] := by
      rw [List.take_add_one, List.getElem?_eq_getElem hlt]
      rfl
    show _ = ((b.records.take (n + 1)).getLast?.map (·.digest)).getD b.contextDigest
    rw [if_neg hcount, Nat.succ_sub_one, List.getElem?_eq_getElem hlt, htake, List.getLast?_concat]

omit [DecidableEq D] in
theorem headAt_length (b : BundleFields D) : b.headAt b.records.length = b.headDigest := by
  rw [headAt_eq b le_rfl, prefixOf, List.take_length]

/-- A bundle and its longer ones have the same store context. -/
theorem storeContext_prefixOf (b : BundleFields D) {n count : ℕ} (h : n ≤ count)
    (hcount : count ≤ b.records.length) : (b.prefixOf count).storeContext n = b.storeContext n := by
  have hhead : (b.prefixOf count).headAt n = b.headAt n := by
    have hlength : n ≤ (b.prefixOf count).records.length := by
      simp only [prefixOf, List.length_take]
      omega
    rw [headAt_eq b (h.trans hcount), headAt_eq _ hlength]
    simp [prefixOf, List.take_take, min_eq_left h]
  simp only [storeContext, storeContextItems, hhead]
  rfl

end BundleFields

namespace SQLiteWorkflowStore

variable [DecidableEq D]

omit [DecidableEq D] in
/-- The context's document is read as the members it was made of. -/
theorem readContext_eq_ok {store : SQLiteWorkflowStore D} {raw : Bytes} {recordCount n : ℕ}
    {data : List (String × Json)} : readContext store raw recordCount = .ok (data, n) ↔
      raw = canonicalBytes (.obj data) ∧ WellKeyed (.obj data) ∧
        (∀ k, k ∈ Json.keys data ↔ k ∈ contextFields) ∧
        (Json.get? data "kind" = some (.str "evidence-braid-workflow-store-context") ∧
          Json.get? data "schema_version" = some (.str "1.0") ∧
          Json.get? data "context_digest" = some (.str (hex store.contextDigest)) ∧
          Json.get? data "authority_digest" = some (.str (hex (store.authority.digest : D)))) ∧
        Json.get? data "initial_record_count" = some (.int n) ∧ n ≤ recordCount := by
  simp only [readContext, bind_eq_ok, workflowParse_eq_ok, exactly_eq_ok, valid_eq_ok, exists_unit,
    integerField_eq_ok, Except.ok.injEq, Prod.mk.injEq]
  constructor
  · rintro ⟨document, ⟨rfl, -, hkeyed⟩, data', ⟨rfl, hkeys⟩, hvalid, n', ⟨hn, -, hle⟩, rfl, rfl⟩
    exact ⟨rfl, hkeyed, hkeys, hvalid, hn, hle⟩
  · rintro ⟨rfl, hkeyed, hkeys, hvalid, hn, hle⟩
    exact ⟨_, ⟨rfl, rfl, hkeyed⟩, data, ⟨rfl, hkeys⟩, hvalid, n, ⟨hn, Nat.zero_le _, hle⟩, rfl, rfl⟩

/-- The context of a bundle is read, by a store of this context and authority. -/
theorem readContext_storeContext {store : SQLiteWorkflowStore D} {b : BundleFields D}
    (hcontext : b.contextDigest = store.contextDigest)
    (hauthority : store.authority.digest = b.authorityDigest) {n recordCount : ℕ}
    (hn : n ≤ recordCount) : ∃ data, .obj data = b.storeContext n ∧
      readContext store (canonicalBytes (b.storeContext n)) recordCount = .ok (data, n) := by
  have hget := Json.get?_foldr_insertKey (b.nodup_keys_storeContextItems n)
  refine ⟨_, rfl, readContext_eq_ok.mpr ⟨rfl, b.wellKeyed_storeContext n, fun k => ?_, ?_, ?_, hn⟩⟩
  · exact (Json.mem_keys_foldr_insertKey_iff (b.nodup_keys_storeContextItems n)).trans
      (b.mem_keys_storeContextItems n k)
  · rw [hget, hget, hget, hget, ← hcontext, hauthority]
    exact ⟨rfl, rfl, rfl, rfl⟩
  · rw [hget]
    rfl

/-- A bundle whose context is read is of this context. -/
theorem context_of_readContext {store : SQLiteWorkflowStore D} {b : BundleFields D}
    {data : List (String × Json)} {n m recordCount : ℕ}
    (h : readContext store (canonicalBytes (b.storeContext m)) recordCount = .ok (data, n)) :
    b.contextDigest = store.contextDigest := by
  have hget := Json.get?_foldr_insertKey (b.nodup_keys_storeContextItems m)
  obtain ⟨hraw, hkeyed, -, ⟨-, -, hcontext, -⟩, -⟩ := readContext_eq_ok.mp h
  have hdocument : b.storeContext m = .obj data :=
    canonicalBytes_inj (b.wellKeyed_storeContext m) hkeyed hraw
  obtain rfl := Json.obj.inj hdocument
  rw [hget] at hcontext
  exact hex_injective (Json.str.inj (Option.some.inj hcontext))

theorem artifactDocuments_eq_ok {data : List (String × Json)} {documents : List Json} :
    artifactDocuments data = .ok documents ↔ Json.get? data "artifacts" = some (.arr documents) := by
  unfold artifactDocuments
  split
  · rename_i ds h
    simp [h]
  · rename_i h
    simp only [reduceCtorEq, false_iff]
    exact h documents

/-- **A stored bundle is read back** from its context and its records. -/
theorem readBundle_storeContext (w : WorkflowBundle D) (n : ℕ) {data : List (String × Json)}
    (hdata : .obj data = w.storeContext n) : readBundle data w.records = .ok w := by
  have hget := Json.get?_foldr_insertKey (w.nodup_keys_storeContextItems n)
  obtain rfl : data = _ := Json.obj.inj hdata
  simp only [readBundle, bind_eq_ok, artifactDocuments_eq_ok]
  refine ⟨w.artifacts.map ArtifactReference.toDict, ?_, w.evidence, ?_, w.artifacts,
    decodeItems_map fun a _ => a.fromDict_toDict, w.workflowId, ?_, w.authorityDigest, ?_,
    WorkflowBundle.make_of_valid w.ok⟩
  all_goals rw [hget]
  · rfl
  · exact EvidenceLedger.fromDict_toDict w.ok.verified (by simp)
  · exact identifierField_value _ _
  · exact hashField_eq_ok.mpr rfl

/-- The bundle that is read has the records that were read. -/
theorem records_of_readBundle {data : List (String × Json)} {records : List (WorkflowReceipt D)}
    {w : WorkflowBundle D} (h : readBundle data records = .ok w) : w.records = records := by
  simp only [readBundle, bind_eq_ok, WorkflowBundle.make_eq_ok] at h
  obtain ⟨_, -, _, -, _, -, h⟩ := h
  obtain ⟨_, -, _, -, hw⟩ := h
  exact congrArg BundleFields.records hw

end SQLiteWorkflowStore

end EvidenceBraid
