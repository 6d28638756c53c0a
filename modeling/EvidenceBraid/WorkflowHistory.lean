import EvidenceBraid.CaseReader
import EvidenceBraid.Library.Links
import EvidenceBraid.WorkflowStorageCodec

/-!
# The history in the workflow store's tables

**Theorem (`read_eq_ok`).** The tables that the reader accepts are those of a history: an authorized
bundle, a count of initial records, and operations that lead from the genesis checkpoint to the
current one, each over the records that it appended.

**Idea.** The reader recomputes every stored document from the receipts, so a row is accepted when
it is the one document of its range (`readOperation_eq_ok`), and the operations link up (`Links`).
-/

namespace EvidenceBraid

open Hashing Transaction Sqlite
open Json (WellKeyed)

variable {D : Type} [Hashing D]

/-! ## Operations -/

namespace WorkflowOperation

/-- The members of the document without its digest. -/
def contentItems (o : WorkflowOperation D) : List (String × Json) :=
  workflowOperationItems o.previous.operationCount o.requestId o.requestDigest o.previous
    o.result.recordCount o.result.workflowHead

def content (o : WorkflowOperation D) : Json := Json.dict o.contentItems

def items (o : WorkflowOperation D) : List (String × Json) :=
  o.contentItems ++ [("digest", Json.str (hex o.result.operationHead))]

def document (o : WorkflowOperation D) : Json := Json.dict o.items

/-- The columns of an operation's row. -/
def cells (o : WorkflowOperation D) : Cell × Cell :=
  (.text (Utf8.encode o.requestId.value.toList), .blob (canonicalBytes o.document))

omit [Hashing D] in
theorem ext_fields {o p : WorkflowOperation D} (hid : o.requestId = p.requestId)
    (hdigest : o.requestDigest = p.requestDigest) (hprevious : o.previous = p.previous)
    (hresult : o.result = p.result) : o = p := by
  cases o
  cases p
  simp_all

theorem nodup_keys_items (o : WorkflowOperation D) : (Json.keys o.items).Nodup := by
  simp only [items, contentItems, workflowOperationItems, Json.keys, List.cons_append,
    List.nil_append, List.map_cons, List.map_nil]
  decide

theorem mem_keys_items (o : WorkflowOperation D) (k : String) :
    k ∈ Json.keys o.items ↔ k ∈ SQLiteWorkflowStore.operationFields := by
  refine List.Perm.mem_iff ?_
  simp only [items, contentItems, workflowOperationItems, Json.keys, List.cons_append,
    List.nil_append, List.map_cons, List.map_nil]
  decide

theorem wellKeyed_document (o : WorkflowOperation D) : WellKeyed o.document := by
  refine Json.wellKeyed_dict ?_
  intro kv hkv
  simp only [items, contentItems, workflowOperationItems, List.cons_append, List.nil_append,
    List.mem_cons, List.not_mem_nil, or_false] at hkv
  rcases hkv with rfl | rfl | rfl | rfl | rfl | rfl | rfl | rfl | rfl | rfl <;>
    simp [WorkflowCheckpoint.wellKeyed_toDict]

/-- The transitions that the operation appended. -/
def transitions (o : WorkflowOperation D) (b : BundleFields D) : List (WorkflowTransition D) :=
  ((b.records.take o.result.recordCount).drop o.previous.recordCount).map (·.transition)

end WorkflowOperation

namespace SQLiteWorkflowStore

variable [DecidableEq D] (store : SQLiteWorkflowStore D) (b : BundleFields D)

/-- An operation over the records of a bundle: its range, its request and its digests. -/
structure Fits (o : WorkflowOperation D) : Prop where
  context : o.previous.contextDigest = b.contextDigest ∧ o.result.contextDigest = b.contextDigest
  later : o.previous.recordCount < o.result.recordCount
  within : o.result.recordCount ≤ b.records.length
  few : o.result.recordCount - o.previous.recordCount ≤ store.limits.maxAppendRecords
  head : o.result.workflowHead = b.headAt o.result.recordCount
  count : o.result.operationCount = o.previous.operationCount + 1
  request : workflowRequestDigest o.requestId o.previous (o.transitions b) store.limits =
    .ok o.requestDigest
  content_le : (canonicalBytes o.content).length ≤ maxWorkflowDocument
  digest : o.result.operationHead = sha256 (canonicalBytes o.content)
  document_le : (canonicalBytes o.document).length ≤ store.limits.maxOperationBytes

/-- A checkpoint of a bundle. -/
def Marks (b : BundleFields D) (c : WorkflowCheckpoint D) : Prop :=
  c.contextDigest = b.contextDigest ∧ c.workflowHead = b.headAt c.recordCount

omit [DecidableEq D] in
variable {store b} in
theorem Fits.marks {o : WorkflowOperation D} (hfits : Fits store b o) :
    Marks b o.result := ⟨hfits.context.2, hfits.head⟩

/-- The operations lead from one checkpoint to another. -/
abbrev History : WorkflowCheckpoint D → List (WorkflowOperation D) → WorkflowCheckpoint D → Prop :=
  Links WorkflowOperation.previous WorkflowOperation.result (Fits store b)

variable {store b}

/-- **A row is read as the operation** whose columns it holds. -/
theorem readOperation_eq_ok {n : ℕ} {c : WorkflowCheckpoint D} {row : ℕ × Cell × Cell}
    {o : WorkflowOperation D} (hcontext : c.contextDigest = b.contextDigest)
    (hn : c.operationCount = n) : readOperation store b n c row = .ok o ↔
      row = (n, o.cells) ∧ o.previous = c ∧ Fits store b o := by
  obtain ⟨sequence, text, raw⟩ := row
  simp only [readOperation, bind_eq_ok, cellText_eq_ok, cellBytes_eq_ok, exactly_eq_ok,
    workflowParse_eq_ok, valid_eq_ok, exists_unit, identifier_eq_ok, integerField_eq_ok,
    workflowStoreDigest_eq_ok, workflowBytes_eq_ok, WorkflowCheckpoint.make_eq_ok, Except.ok.injEq]
  constructor
  · rintro ⟨s, rfl, raw', rfl, document, -, node, -, ⟨rfl, -⟩, requestId, rfl, count,
      ⟨-, hlow, hhigh⟩, hfew, requestDigest, hrequest, digest, ⟨hcontent, rfl⟩, expected,
      ⟨hdocument, rfl⟩, rfl, after, ⟨hcontext', rfl, hhead, hcount, hoperation⟩, rfl⟩
    have hcontentItems : WorkflowOperation.contentItems ⟨requestId, requestDigest, c, after⟩ =
        workflowOperationItems sequence requestId requestDigest c after.recordCount
          (b.headAt after.recordCount) := by
      rw [WorkflowOperation.contentItems, hhead, hn]
    have hitems : WorkflowOperation.items ⟨requestId, requestDigest, c, after⟩ = _ ++ _ :=
      congrArg₂ (· ++ ·) hcontentItems (congrArg (fun d => [("digest", Json.str (hex d))]) hoperation)
    have hdoc : WorkflowOperation.document ⟨requestId, requestDigest, c, after⟩ = _ :=
      congrArg Json.dict hitems
    refine ⟨?_, rfl, ?_⟩
    · rw [WorkflowOperation.cells, hdoc]
    · exact {
        context := ⟨hcontext, hcontext'.trans hcontext⟩
        later := hlow
        within := hhigh
        few := hfew
        head := hhead
        count := by rw [hcount, hn]
        request := hrequest
        content_le := by rw [WorkflowOperation.content, hcontentItems]; exact hcontent
        digest := by rw [WorkflowOperation.content, hcontentItems]; exact hoperation
        document_le := by rw [hdoc]; exact hdocument }
  · rintro ⟨hrow, rfl, hfits⟩
    simp only [WorkflowOperation.cells, Prod.mk.injEq] at hrow
    obtain ⟨rfl, rfl, rfl⟩ := hrow
    have hget := Json.get?_foldr_insertKey o.nodup_keys_items
    have hcontentItems : workflowOperationItems sequence o.requestId o.requestDigest o.previous
        o.result.recordCount (b.headAt o.result.recordCount) = o.contentItems := by
      rw [WorkflowOperation.contentItems, hfits.head, hn]
    refine ⟨o.requestId.value, rfl, _, rfl, o.document, ⟨rfl, rfl, o.wellKeyed_document⟩, _,
      ⟨rfl, fun k => ?_⟩, ⟨rfl, ?_⟩, o.requestId, rfl, o.result.recordCount,
      ⟨?_, hfits.later, hfits.within⟩, hfits.few, o.requestDigest, hfits.request,
      o.result.operationHead, ⟨?_, ?_⟩, _, ⟨?_, rfl⟩, ?_, o.result,
      ⟨hfits.context.2.trans hcontext.symm, rfl, hfits.head, ?_, rfl⟩, rfl⟩
    · exact (Json.mem_keys_foldr_insertKey_iff o.nodup_keys_items).trans (o.mem_keys_items k)
    · rw [hget, ← hn]
      rfl
    · rw [hget]
      rfl
    · rw [hcontentItems]
      exact hfits.content_le
    · rw [hcontentItems]
      exact hfits.digest.symm
    · rw [hcontentItems]
      exact hfits.document_le
    · rw [hcontentItems]
      rfl
    · rw [hfits.count, hn]

/-- **The rows that are read are those of a history.** -/
theorem readOperations_eq_ok {rows : List (ℕ × Cell × Cell)} : ∀ {n : ℕ} {c d : WorkflowCheckpoint D}
    {os : List (WorkflowOperation D)}, c.contextDigest = b.contextDigest → c.operationCount = n →
      (readOperations store b n c rows = .ok (os, d) ↔
        rows = (List.range' n os.length).zip (os.map WorkflowOperation.cells) ∧
          History store b c os d) := by
  induction rows with
  | nil =>
    intro n c d os _ _
    cases os <;> simp [readOperations, List.range'_succ]
  | cons row rows ih =>
    intro n c d os hcontext hn
    simp only [readOperations, bind_eq_ok, readOperation_eq_ok hcontext hn, Except.ok.injEq,
      Prod.mk.injEq]
    constructor
    · rintro ⟨o, ⟨rfl, rfl, hfits⟩, ⟨rest, last⟩, hrest, rfl, rfl⟩
      obtain ⟨rfl, hlinks⟩ := (ih hfits.context.2 (by rw [hfits.count, hn])).mp hrest
      refine ⟨?_, rfl, hfits, hlinks⟩
      simp [List.range'_succ]
    · rintro ⟨hrows, hlinks⟩
      cases os with
      | nil => simp at hrows
      | cons o os =>
        simp only [List.length_cons, List.range'_succ, List.map_cons, List.zip_cons_cons,
          List.cons.injEq] at hrows
        obtain ⟨rfl, rfl⟩ := hrows
        obtain ⟨hprevious, hfits, hlinks⟩ := hlinks
        exact ⟨o, ⟨rfl, hprevious, hfits⟩, (os, d),
          (ih hfits.context.2 (by rw [hfits.count, hprevious, hn])).mpr ⟨rfl, hlinks⟩, rfl, rfl⟩

/-! ## The tables -/

variable (store)

/-- A history: a bundle, how many of its records are initial, the operations that appended the
others, and the checkpoints at both ends. -/
structure StoreHistory (D : Type) [Hashing D] [DecidableEq D] where
  bundle : WorkflowBundle D
  initialCount : ℕ
  operations : List (WorkflowOperation D)
  first : WorkflowCheckpoint D
  last : WorkflowCheckpoint D

namespace StoreHistory

variable (h : StoreHistory D)

/-- The bytes of the context's row. -/
def contextRaw : Bytes := canonicalBytes (h.bundle.storeContext h.initialCount)

/-- The lengths of the receipts' rows. -/
def receiptSizes : List ℕ := h.bundle.records.map fun r => (canonicalBytes r.toDict).length

/-- The lengths of the operations' rows. -/
def operationSizes : List ℕ := h.operations.map fun o => (canonicalBytes o.document).length

/-- The byte and count limits. -/
structure Bounded (limits : WorkflowStoreLimits) : Prop where
  bundle : (canonicalBytes h.bundle.toDict).length ≤ limits.maxBundleBytes
  payload : h.contextRaw.length + h.receiptSizes.sum ≤ limits.maxBundleBytes
  records : h.bundle.records.length ≤ limits.maxRecords
  receipts : ∀ size ∈ h.receiptSizes, size ≤ limits.maxReceiptBytes
  operations : h.operations.length ≤ limits.maxOperations
  documents : h.operationSizes.sum ≤ limits.maxOperationsBytes

/-- The history is sound under the store's authority, context and limits. -/
structure Sound (store : SQLiteWorkflowStore D) : Prop where
  context : h.bundle.contextDigest = store.contextDigest
  authorized : h.bundle.Authorized store.authority
  initial_le : h.initialCount ≤ h.bundle.records.length
  genesis : h.bundle.genesis h.initialCount = .ok h.first
  history : History store h.bundle.toBundleFields h.first h.operations h.last
  complete : h.last.recordCount = h.bundle.records.length
  distinct : (h.operations.map (·.requestId)).Nodup
  bounded : h.Bounded store.limits

/-- The tables hold the history. -/
structure Stored (t : WorkflowTables) : Prop where
  context : t.context = some (.blob h.contextRaw)
  receipts : t.receipts = Table.ofValues (h.bundle.records.map receiptCell)
  operations : t.operations = Table.ofValues (h.operations.map WorkflowOperation.cells)
  metadata : t.metadata = some (.blob (canonicalBytes h.last.toDict))

variable {store h} {t : WorkflowTables}

/-! ## Both ends -/

omit store in
theorem genesis_eq_ok {b : BundleFields D} {n : ℕ} {c : WorkflowCheckpoint D} :
    b.genesis n = .ok c ↔ (c.contextDigest = b.contextDigest ∧ c.recordCount = n ∧
        c.workflowHead = b.headAt n ∧ c.operationCount = 0) ∧
      (canonicalBytes (Json.dict (b.genesisItems n))).length ≤ maxWorkflowDocument ∧
      c.operationHead = sha256 (canonicalBytes (Json.dict (b.genesisItems n))) := by
  simp only [BundleFields.genesis, bind_eq_ok, workflowStoreDigest_eq_ok,
    WorkflowCheckpoint.make_eq_ok]
  constructor
  · rintro ⟨d, ⟨hle, rfl⟩, hcontext, hcount, hhead, hzero, hdigest⟩
    exact ⟨⟨hcontext, hcount, hhead, hzero⟩, hle, hdigest⟩
  · rintro ⟨⟨hcontext, hcount, hhead, hzero⟩, hle, hdigest⟩
    exact ⟨_, ⟨hle, rfl⟩, hcontext, hcount, hhead, hzero, hdigest⟩

namespace Sound

theorem marks_first (hs : h.Sound store) : Marks h.bundle.toBundleFields h.first := by
  obtain ⟨⟨hcontext, hcount, hhead, -⟩, -⟩ := genesis_eq_ok.mp hs.genesis
  exact ⟨hcontext, by rw [hhead, hcount]⟩

theorem marks_last (hs : h.Sound store) : Marks h.bundle.toBundleFields h.last :=
  hs.history.invariant (fun _ hfits _ => hfits.marks) hs.marks_first

theorem recordCount_first (hs : h.Sound store) : h.first.recordCount = h.initialCount :=
  (genesis_eq_ok.mp hs.genesis).1.2.1

theorem operationCount_last (hs : h.Sound store) : h.last.operationCount = h.operations.length := by
  rw [hs.history.count fun _ hfits => hfits.count, (genesis_eq_ok.mp hs.genesis).1.2.2.2, Nat.zero_add]

theorem head_last (hs : h.Sound store) : h.last.workflowHead = h.bundle.headDigest := by
  rw [hs.marks_last.2, hs.complete, BundleFields.headAt_length]

/-- The current snapshot. -/
def stored (hs : h.Sound store) : StoredWorkflow D where
  bundle := h.bundle
  checkpoint := h.last
  context_eq := hs.marks_last.1.symm
  count_eq := hs.complete.symm
  head_eq := hs.head_last.symm

end Sound

/-! ## Admission -/

namespace Stored

theorem contextBytes_eq (ht : h.Stored t) : t.contextBytes = h.contextRaw.length := by
  simp [WorkflowTables.contextBytes, ht.context]

theorem receiptBytes_eq (ht : h.Stored t) : t.receiptBytes = h.receiptSizes.sum := by
  simp [WorkflowTables.receiptBytes, ht.receipts, receiptSizes, Function.comp_def, receiptCell]

theorem operationBytes_eq (ht : h.Stored t) : t.operationBytes = h.operationSizes.sum := by
  simp [WorkflowTables.operationBytes, ht.operations, operationSizes, Function.comp_def,
    WorkflowOperation.cells]

theorem length_receipts (ht : h.Stored t) : t.receipts.rows.length = h.bundle.records.length := by
  rw [ht.receipts, Table.length_rows_ofValues, List.length_map]

theorem length_operations (ht : h.Stored t) : t.operations.rows.length = h.operations.length := by
  rw [ht.operations, Table.length_rows_ofValues, List.length_map]

theorem distinct (ht : h.Stored t) : (h.operations.map (·.requestId)).Nodup := by
  have hunique := t.operations_unique
  rw [ht.operations, Table.values_ofValues, List.map_map] at hunique
  have hmap : (Prod.fst ∘ WorkflowOperation.cells : WorkflowOperation D → Cell) =
      (fun i : Identifier => Cell.text (Utf8.encode i.value.toList)) ∘ (·.requestId) := rfl
  rw [hmap, ← List.map_map] at hunique
  exact hunique.of_map _

end Stored

omit [Hashing D] [DecidableEq D] store in
theorem encode_identifier_ne_nil (i : Identifier) : 1 ≤ (Utf8.encode i.value.toList).length := by
  by_contra hlt
  have hnil : Utf8.encode i.value.toList = Utf8.encode [] :=
    List.length_eq_zero_iff.mp (by omega)
  have hempty := Utf8.encode_injective hnil
  have hok := i.ok
  rw [isIdentifier, hempty] at hok
  cases hok

/-- **What is admitted** of the tables of a history. -/
theorem Stored.admit_iff (ht : h.Stored t) {limits : WorkflowStoreLimits} :
    admitTables limits t = .ok () ↔ (canonicalBytes h.last.toDict).length ≤ maxWorkflowDocument ∧
      h.bundle.records.length ≤ limits.maxRecords ∧
      (∀ size ∈ h.receiptSizes, size ≤ limits.maxReceiptBytes) ∧
      h.operations.length ≤ limits.maxOperations ∧
      h.operationSizes.sum ≤ limits.maxOperationsBytes ∧
      (∀ size ∈ h.operationSizes, size ≤ limits.maxOperationBytes) ∧
      h.contextRaw.length + h.receiptSizes.sum ≤ limits.maxBundleBytes := by
  have hreceipts : t.receipts.values = h.bundle.records.map receiptCell := by
    rw [ht.receipts, Table.values_ofValues]
  have hoperations : t.operations.values = h.operations.map WorkflowOperation.cells := by
    rw [ht.operations, Table.values_ofValues]
  have hsizes : (h.bundle.records.map receiptCell).map Cell.size = h.receiptSizes := by
    rw [List.map_map]
    rfl
  have hdocuments : ((h.operations.map WorkflowOperation.cells).map Prod.snd).map Cell.size =
      h.operationSizes := by
    rw [List.map_map, List.map_map]
    rfl
  have hids : ((h.operations.map WorkflowOperation.cells).map Prod.fst).all (fun c =>
      c.isText && decide (1 ≤ c.size) && decide (c.size ≤ 128)) = true := by
    rw [List.all_eq_true]
    intro c hc
    obtain ⟨_, hcell, rfl⟩ := List.mem_map.mp hc
    obtain ⟨o, -, rfl⟩ := List.mem_map.mp hcell
    have hlow := encode_identifier_ne_nil o.requestId
    have hhigh := o.requestId.length_encode_le
    have htext : o.cells.1.isText = true := rfl
    have hsize : o.cells.1.size = (Utf8.encode o.requestId.value.toList).length := rfl
    rw [htext, hsize, decide_eq_true hlow, decide_eq_true hhigh]
    rfl
  have hreceiptKind : ∀ c ∈ h.bundle.records.map receiptCell, c.isBlob = true := by
    intro c hc
    obtain ⟨r, -, rfl⟩ := List.mem_map.mp hc
    rfl
  have hdocumentKind : ∀ c ∈ (h.operations.map WorkflowOperation.cells).map Prod.snd,
      c.isBlob = true := by
    intro c hc
    obtain ⟨_, hcell, rfl⟩ := List.mem_map.mp hc
    obtain ⟨o, -, rfl⟩ := List.mem_map.mp hcell
    rfl
  have hforall : ∀ (cells : List Cell) (bound : ℕ), (∀ c ∈ cells, c.isBlob = true) →
      ((∀ c ∈ cells, c.isBlob = true ∧ c.size ≤ bound) ↔
        ∀ size ∈ cells.map Cell.size, size ≤ bound) := by
    intro cells bound hkind
    rw [List.forall_mem_map]
    exact forall₂_congr fun c hc => by simp [hkind c hc]
  simp only [admitTables, bind_eq_ok, valid_eq_ok, exists_unit, admitted_iff, ht.contextBytes_eq,
    ht.receiptBytes_eq, hreceipts, hoperations, hids, hsizes, hdocuments,
    hforall _ _ hreceiptKind, hforall _ _ hdocumentKind, List.length_map]
  simp only [ht.context, ht.metadata, Option.toList_some, List.length_singleton, List.map_cons,
    List.map_nil, List.sum_singleton, Cell.size_blob, List.mem_singleton, forall_eq, Cell.isBlob,
    Option.isSome_some, le_refl, true_and]
  constructor
  · rintro ⟨-, ⟨hmeta, -⟩, ⟨hrecords, -, hreceipt⟩, ⟨hcount, hsum, hdocument⟩, hpayload⟩
    exact ⟨hmeta, hrecords, hreceipt, hcount, hsum, hdocument, hpayload⟩
  · rintro ⟨hmeta, hrecords, hreceipt, hcount, hsum, hdocument, hpayload⟩
    exact ⟨⟨by omega, by omega⟩, ⟨hmeta, hmeta⟩, ⟨hrecords, by omega, hreceipt⟩,
      ⟨hcount, hsum, hdocument⟩, hpayload⟩

/-! ## The reader -/

variable [WideHex D]

theorem Sound.read_eq (hs : h.Sound store) (ht : h.Stored t) : read store t =
    .ok ⟨hs.stored, h.operations, t.operationBytes, t.contextBytes + t.receiptBytes⟩ := by
  obtain ⟨state, hstate⟩ := hs.authorized
  obtain ⟨hbundle, hpayload, hrecords, hreceipts, hoperations, hdocuments⟩ := hs.bounded
  have hadmits : admitTables store.limits t = .ok () := ht.admit_iff.mpr
    ⟨h.last.size_toDict_le, hrecords, hreceipts, hoperations, hdocuments,
      List.forall_mem_map.mpr fun o ho => (hs.history.forall_mem o ho).document_le, hpayload⟩
  obtain ⟨data, hdata, hcontext⟩ := readContext_storeContext hs.context
    (replayWorkflow_eq_ok hstate).1 (hs.initial_le.trans_eq ht.length_receipts.symm)
  have hrows : t.operations.rows =
      (List.range' 0 h.operations.length).zip (h.operations.map WorkflowOperation.cells) := by
    rw [ht.operations]
    simp [Table.ofValues, List.range_eq_range']
  obtain ⟨⟨hfirst, -, -, hzero⟩, -⟩ := genesis_eq_ok.mp hs.genesis
  simp only [read, bind_eq_ok]
  refine ⟨(), hadmits, _, orError_eq_ok.mpr ht.context, _, rfl, (data, h.initialCount), hcontext,
    h.bundle.records, readReceipts_table.mpr ht.receipts, h.bundle,
    readBundle_storeContext h.bundle h.initialCount hdata, _,
    workflowBytes_eq_ok.mpr ⟨hbundle, rfl⟩, state, hstate, h.contextRaw,
    workflowBytes_eq_ok.mpr ⟨(Nat.le_add_right _ _).trans hpayload, rfl⟩, (), valid_of rfl, h.first,
    hs.genesis, (h.operations, h.last),
    (readOperations_eq_ok hfirst hzero).mpr ⟨hrows, hs.history⟩, _, orError_eq_ok.mpr ht.metadata,
    _, rfl, h.last.toDict, workflowParse_eq_ok.mpr ⟨rfl, rfl, h.last.wellKeyed_toDict⟩, h.last,
    h.last.fromDict_toDict, (), valid_of ⟨rfl, ?_, ?_⟩, hs.stored,
    dif_pos ⟨hs.stored.context_eq, hs.stored.count_eq, hs.stored.head_eq⟩, rfl⟩
  · rw [hs.complete, ht.length_receipts]
  · rw [hs.operationCount_last, ht.length_operations]

/-- **The reader accepts the tables of the sound histories**, and only these. -/
theorem read_eq_ok {r : WorkflowRead D} : read store t = .ok r ↔
    ∃ (h : StoreHistory D) (hs : h.Sound store), h.Stored t ∧
      r = ⟨hs.stored, h.operations, t.operationBytes, t.contextBytes + t.receiptBytes⟩ := by
  constructor
  · intro hread
    simp only [read, bind_eq_ok, valid_eq_ok, exists_unit, orError_eq_ok, cellBytes_eq_ok,
      readReceipts_table, workflowBytes_eq_ok, workflowParse_eq_ok] at hread
    obtain ⟨hadmits, contextCell, hcontextCell, contextRaw, rfl, ⟨data, n⟩, hdata, records,
      hread⟩ := hread
    obtain ⟨hreceipts, bundle, hbundle, _, ⟨hsize, -⟩, state, hstate, context, ⟨-, rfl⟩,
      hread⟩ := hread
    obtain ⟨rfl, first, hgenesis, ⟨operations, last⟩, hoperations, metaCell, hmetaCell, metaRaw,
      rfl, hread⟩ := hread
    obtain ⟨metaDocument, ⟨rfl, -, hkeyed⟩, stored, hstored, ⟨rfl, hcount, hoperationCount⟩,
      snapshot, hsnapshot, hr⟩ := hread
    obtain rfl := records_of_readBundle hbundle
    obtain ⟨⟨hfirst, -, -, hzero⟩, -⟩ := genesis_eq_ok.mp hgenesis
    obtain ⟨hrows, hhistory⟩ := (readOperations_eq_ok hfirst hzero).mp hoperations
    have ht : Stored ⟨bundle, n, operations, first, last⟩ t := by
      refine ⟨hcontextCell, hreceipts, ?_, ?_⟩
      · ext1
        rw [hrows]
        simp [Table.ofValues, List.range_eq_range']
      · rw [hmetaCell, WorkflowCheckpoint.eq_toDict_of_fromDict hkeyed hstored]
    obtain ⟨-, hrecords, hreceiptSizes, hlength, hsum, -, hpayload⟩ := ht.admit_iff.mp hadmits
    have hn := (readContext_eq_ok.mp hdata).2.2.2.2.2
    have hs : Sound ⟨bundle, n, operations, first, last⟩ store := {
      context := context_of_readContext hdata
      authorized := ⟨state, hstate⟩
      initial_le := hn.trans_eq ht.length_receipts
      genesis := hgenesis
      history := hhistory
      complete := hcount.trans ht.length_receipts
      distinct := ht.distinct
      bounded := ⟨hsize, hpayload, hrecords, hreceiptSizes, hlength, hsum⟩ }
    have hmake : StoredWorkflow.make bundle last = .ok hs.stored :=
      dif_pos ⟨hs.stored.context_eq, hs.stored.count_eq, hs.stored.head_eq⟩
    rw [hmake] at hsnapshot
    rw [← Except.ok.inj hr, ← Except.ok.inj hsnapshot]
    exact ⟨_, hs, ht, rfl⟩
  · rintro ⟨h, hs, ht, rfl⟩
    exact hs.read_eq ht

end StoreHistory

end SQLiteWorkflowStore

end EvidenceBraid
