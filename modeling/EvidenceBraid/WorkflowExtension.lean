import EvidenceBraid.WorkflowAppend

/-!
# Histories that grow

An append to a history gives a history with more receipts and one more operation
(`plan_ok`), every history is the result of such appends (`Extends.plan_eq`), and a stored operation
gives its commit back, whatever was appended later (`historical_eq`).

**Idea.** All that an operation says is about the records up to its result, and these are the same
in every longer bundle (`Agrees`).
-/

namespace EvidenceBraid

open Hashing Transaction Sqlite

variable {D : Type} [Hashing D]

/-! ## Bundles that agree on their first records -/

/-- The bundles have the same context and the same first records. -/
structure Agrees (b b' : BundleFields D) (n : ℕ) : Prop where
  same : b.prefixOf n = b'.prefixOf n
  left : n ≤ b.records.length
  right : n ≤ b'.records.length

namespace Agrees

variable {b b' : BundleFields D} {n count : ℕ}

omit [Hashing D] in
theorem symm (h : Agrees b b' n) : Agrees b' b n := ⟨h.same.symm, h.right, h.left⟩

omit [Hashing D] in
theorem prefixOf_eq (h : Agrees b b' n) (hcount : count ≤ n) :
    b.prefixOf count = b'.prefixOf count := by
  have hboth : ∀ c : BundleFields D, c.prefixOf count = (c.prefixOf n).prefixOf count := by
    intro c
    simp [BundleFields.prefixOf, List.take_take, min_eq_left hcount]
  rw [hboth b, hboth b', h.same]

omit [Hashing D] in
theorem take_eq (h : Agrees b b' n) (hcount : count ≤ n) :
    b.records.take count = b'.records.take count :=
  congrArg BundleFields.records (h.prefixOf_eq hcount)

theorem contextDigest_eq (h : Agrees b b' n) : b.contextDigest = b'.contextDigest := by
  show (b.prefixOf n).contextDigest = (b'.prefixOf n).contextDigest
  rw [h.same]

theorem headAt_eq (h : Agrees b b' n) (hcount : count ≤ n) : b.headAt count = b'.headAt count := by
  rw [BundleFields.headAt_eq b (hcount.trans h.left), BundleFields.headAt_eq b' (hcount.trans h.right),
    h.prefixOf_eq hcount]

theorem genesis_eq [DecidableEq D] (h : Agrees b b' n) (hcount : count ≤ n) :
    b.genesis count = b'.genesis count := by
  have hitems : b.genesisItems count = b'.genesisItems count := by
    rw [BundleFields.genesisItems, BundleFields.genesisItems, h.contextDigest_eq, h.headAt_eq hcount]
  rw [BundleFields.genesis, BundleFields.genesis, hitems, h.contextDigest_eq, h.headAt_eq hcount]

end Agrees

omit [Hashing D] in
theorem agrees_prefixOf (b : BundleFields D) {n : ℕ} (hn : n ≤ b.records.length) :
    Agrees b (b.prefixOf n) n where
  same := by simp [BundleFields.prefixOf, List.take_take]
  left := hn
  right := by simp [BundleFields.prefixOf, hn]

namespace SQLiteWorkflowStore

variable [DecidableEq D] {store : SQLiteWorkflowStore D} {b b' : BundleFields D} {n : ℕ}
  {o : WorkflowOperation D}

omit [DecidableEq D] in
/-- **An operation is about the records up to its result.** -/
theorem Fits.congr (hb : Agrees b b' n) (hn : o.result.recordCount ≤ n) (h : Fits store b o) :
    Fits store b' o where
  context := hb.contextDigest_eq ▸ h.context
  later := h.later
  within := hn.trans hb.right
  few := h.few
  head := h.head.trans (hb.headAt_eq hn)
  count := h.count
  request := by
    rw [← h.request, WorkflowOperation.transitions, WorkflowOperation.transitions, hb.take_eq hn]
  content_le := h.content_le
  digest := h.digest
  document_le := h.document_le

omit [DecidableEq D] in
/-- The operations of a history are those of every longer one, and of the prefixes that hold them. -/
theorem History.congr {c d : WorkflowCheckpoint D} {os : List (WorkflowOperation D)}
    (hb : Agrees b b' n) (hn : d.recordCount ≤ n) (h : History store b c os d) :
    History store b' c os d := by
  have hbetween := (h.between (f := (·.recordCount)) fun _ hfits => hfits.later.le).2
  exact h.imp_of_mem fun o ho hfits => hfits.congr hb ((hbetween o ho).2.trans hn)

/-! ## Operations and commits -/

/-- **What `_operation` returns**: the operation's document and its result. -/
theorem workflowOperation_eq_ok {requestId : Identifier} {requestDigest : D}
    {previous after : WorkflowCheckpoint D} {document : Json} :
    workflowOperation requestId requestDigest previous b = .ok (document, after) ↔
      (after.contextDigest = b.contextDigest ∧ after.recordCount = b.records.length ∧
        after.workflowHead = b.headDigest ∧ after.operationCount = previous.operationCount + 1) ∧
      (canonicalBytes (WorkflowOperation.content ⟨requestId, requestDigest, previous, after⟩)).length
        ≤ maxWorkflowDocument ∧
      after.operationHead = sha256 (canonicalBytes
        (WorkflowOperation.content ⟨requestId, requestDigest, previous, after⟩)) ∧
      document = WorkflowOperation.document ⟨requestId, requestDigest, previous, after⟩ := by
  simp only [workflowOperation, bind_eq_ok, workflowStoreDigest_eq_ok,
    WorkflowCheckpoint.make_eq_ok, Except.ok.injEq, Prod.mk.injEq]
  constructor
  · rintro ⟨digest, ⟨hle, rfl⟩, after', ⟨hcontext, hcount, hhead, hoperations, hdigest⟩, rfl, rfl⟩
    have hcontent : WorkflowOperation.contentItems ⟨requestId, requestDigest, previous, after'⟩ =
        workflowOperationItems previous.operationCount requestId requestDigest previous
          b.records.length b.headDigest := by
      rw [WorkflowOperation.contentItems, hcount, hhead]
    refine ⟨⟨hcontext, hcount, hhead, hoperations⟩, ?_, ?_, ?_⟩
    · rw [WorkflowOperation.content, hcontent]
      exact hle
    · rw [WorkflowOperation.content, hcontent]
      exact hdigest
    · rw [WorkflowOperation.document, WorkflowOperation.items, hcontent, hdigest]
  · rintro ⟨⟨hcontext, hcount, hhead, hoperations⟩, hle, hdigest, rfl⟩
    have hcontent : workflowOperationItems previous.operationCount requestId requestDigest previous
        b.records.length b.headDigest =
          WorkflowOperation.contentItems ⟨requestId, requestDigest, previous, after⟩ := by
      rw [WorkflowOperation.contentItems, hcount, hhead]
    rw [hcontent]
    exact ⟨_, ⟨hle, rfl⟩, after, ⟨hcontext, hcount, hhead, hoperations, hdigest⟩,
      by rw [← WorkflowOperation.content, ← hdigest]; rfl, rfl⟩

end SQLiteWorkflowStore

/-- **The constructor of a commit** establishes `Valid`. -/
theorem WorkflowCommit.make_eq_ok [DecidableEq D] {c : CommitFields D} {commit : WorkflowCommit D} :
    make c = .ok commit ↔ commit.toCommitFields = c := by
  simp only [make, bind_eq_ok, valid_eq_ok, exists_unit]
  constructor
  · rintro ⟨-, _, -, -, _, -, h⟩
    split_ifs at h
    rw [← Except.ok.inj h]
  · rintro rfl
    obtain ⟨happends, hrequest, operation, hoperation, -⟩ := commit.ok
    have hvalue : workflowOperation commit.requestId commit.requestDigest commit.previous
        commit.result.bundle.toBundleFields = .ok operation := by
      cases hresult : workflowOperation commit.requestId commit.requestDigest commit.previous
        commit.result.bundle.toBundleFields with
      | error e => simp [hresult, Except.toOption] at hoperation
      | ok x => simpa [hresult, Except.toOption] using hoperation
    exact ⟨happends, _, hrequest, rfl, operation, hvalue, dif_pos commit.ok⟩

theorem StoredWorkflow.make_eq_ok [DecidableEq D] {bundle : WorkflowBundle D}
    {checkpoint : WorkflowCheckpoint D} {s : StoredWorkflow D} :
    make bundle checkpoint = .ok s ↔ s.bundle = bundle ∧ s.checkpoint = checkpoint := by
  unfold make
  constructor
  · intro h
    split_ifs at h
    rw [← Except.ok.inj h]
    exact ⟨rfl, rfl⟩
  · rintro ⟨rfl, rfl⟩
    rw [dif_pos ⟨s.context_eq, s.count_eq, s.head_eq⟩]

namespace SQLiteWorkflowStore

variable [DecidableEq D] {store : SQLiteWorkflowStore D} {o : WorkflowOperation D}

/-- The operation of a whole bundle is what `_operation` returns for it. -/
theorem Fits.operation_eq {w : WorkflowBundle D} (h : Fits store w.toBundleFields o)
    (hcount : o.result.recordCount = w.records.length) :
    workflowOperation o.requestId o.requestDigest o.previous w.toBundleFields =
      .ok (o.document, o.result) := by
  refine workflowOperation_eq_ok.mpr ⟨⟨h.context.2, hcount, ?_, h.count⟩, h.content_le, h.digest, rfl⟩
  rw [h.head, hcount, BundleFields.headAt_length]

/-- **The commit of an operation over a whole bundle is valid.** -/
theorem Fits.commit_valid {result : StoredWorkflow D} (h : Fits store result.bundle.toBundleFields o)
    (hmarks : Marks result.bundle.toBundleFields o.previous) (hresult : result.checkpoint = o.result) :
    CommitFields.Valid ⟨o.requestId, o.requestDigest, o.previous, result⟩ := by
  have hcount : o.result.recordCount = result.bundle.records.length := by
    rw [← hresult, ← result.count_eq]
  have hlater := h.later
  have hfew := h.few
  obtain ⟨hlimit, hrequestLimit⟩ := store.limits.le_default
  refine ⟨⟨?_, ?_, ?_, hmarks.2.symm⟩, ?_, (o.document, o.result), ?_, hresult.symm⟩
  · rw [hresult]
    exact h.context.1.trans h.context.2.symm
  · rw [hresult]
    exact h.count
  · rw [hresult]
    refine ⟨hlater, ?_⟩
    show o.result.recordCount ≤ o.previous.recordCount + maxWorkflowAppend
    omega
  · have htransitions : CommitFields.appended
        ⟨o.requestId, o.requestDigest, o.previous, result⟩ = o.transitions result.bundle.toBundleFields := by
      rw [WorkflowOperation.transitions, hcount, List.take_length]
      rfl
    obtain ⟨hle, hdigest⟩ := workflowStoreDigest_eq_ok.mp h.request
    rw [htransitions]
    exact workflowStoreDigest_eq_ok.mpr ⟨hle.trans hrequestLimit, hdigest⟩
  · rw [h.operation_eq hcount]
    rfl

namespace StoreHistory

variable {h : StoreHistory D}

/-- The checkpoints before the operations are of the bundle. -/
theorem Sound.marks_previous (hs : h.Sound store) :
    ∀ o ∈ h.operations, Marks h.bundle.toBundleFields o.previous :=
  hs.history.sources (fun _ hfits _ => hfits.marks) hs.marks_first

variable [WideHex D]

/-- The snapshot that an operation resulted in. -/
theorem Sound.exists_snapshot (hs : h.Sound store) (ho : o ∈ h.operations) :
    ∃ result : StoredWorkflow D, result.bundle = h.bundle.prefixBundle o.result.recordCount ∧
      result.checkpoint = o.result := by
  have hfits := hs.history.forall_mem o ho
  have hlength : (h.bundle.prefixBundle o.result.recordCount).records.length =
      o.result.recordCount := by
    show (h.bundle.records.take o.result.recordCount).length = _
    rw [List.length_take, min_eq_left hfits.within]
  refine ⟨⟨h.bundle.prefixBundle o.result.recordCount, o.result, hfits.context.2.symm, hlength, ?_⟩,
    rfl, rfl⟩
  rw [hfits.head, BundleFields.headAt_eq _ hfits.within]
  rfl

/-- **A stored operation gives its commit back.** -/
theorem Sound.historical_eq (hs : h.Sound store) (ho : o ∈ h.operations) :
    ∃ commit : WorkflowCommit D, historical store h.bundle o = .ok commit ∧
      commit.requestId = o.requestId ∧ commit.requestDigest = o.requestDigest ∧
      commit.previous = o.previous ∧
      commit.result.bundle = h.bundle.prefixBundle o.result.recordCount ∧
      commit.result.checkpoint = o.result := by
  obtain ⟨result, hbundle, hcheckpoint⟩ := hs.exists_snapshot ho
  have hfits := hs.history.forall_mem o ho
  have hmarks := hs.marks_previous o ho
  have hagrees := agrees_prefixOf h.bundle.toBundleFields hfits.within
  have hfits' : Fits store result.bundle.toBundleFields o := by
    rw [hbundle]
    exact hfits.congr hagrees le_rfl
  have hmarks' : Marks result.bundle.toBundleFields o.previous := by
    rw [hbundle]
    refine ⟨hmarks.1, hmarks.2.trans (hagrees.headAt_eq hfits.later.le)⟩
  obtain ⟨state, hstate⟩ := hs.authorized.prefixBundle o.result.recordCount
  refine ⟨⟨_, hfits'.commit_valid hmarks' hcheckpoint⟩, ?_, rfl, rfl, rfl, hbundle, hcheckpoint⟩
  simp only [historical, bind_eq_ok]
  exact ⟨h.bundle.prefixBundle o.result.recordCount,
    WorkflowBundle.make_of_valid (h.bundle.ok.prefixOf _), state, hstate, result,
    StoredWorkflow.make_eq_ok.mpr ⟨hbundle, hcheckpoint⟩, WorkflowCommit.make_eq_ok.mpr rfl⟩

end StoreHistory

end SQLiteWorkflowStore

/-! ## Bundles that are appended to -/

section Bundles

variable [DecidableEq D] [WideHex D] {w v : WorkflowBundle D} {authority : AuthorityPolicy}

/-- A bundle is a prefix of what is appended to it. -/
theorem prefixBundle_of_append {ts : List (WorkflowTransition D)}
    (h : w.append ts authority = .ok v) : v.prefixBundle w.records.length = w ∧
      v.records.length = w.records.length + ts.length ∧
      (v.records.drop w.records.length).map (·.transition) = ts := by
  obtain ⟨-, -, hcontext, htransitions⟩ := WorkflowBundle.append_eq_ok.mp h
  have hlength : w.transitions.length = w.records.length := List.length_map _
  refine ⟨WorkflowBundle.eq_of_transitions
    ⟨hcontext.workflowId, hcontext.authorityDigest, hcontext.evidence, hcontext.artifacts⟩ ?_, ?_, ?_⟩
  · rw [WorkflowBundle.transitions_prefixBundle, htransitions, ← hlength, List.take_left]
  · have hlengths := congrArg List.length htransitions
    rwa [List.length_append, hlength, BundleFields.transitions, List.length_map] at hlengths
  · rw [List.map_drop]
    show v.transitions.drop _ = _
    rw [htransitions, ← hlength, List.drop_left]

/-- An authorized bundle is what is appended to its prefix. -/
theorem append_of_prefixBundle {n : ℕ} (hv : v.Authorized authority)
    (h : v.prefixBundle n = w) :
    w.append ((v.records.drop n).map (·.transition)) authority = .ok v := by
  subst h
  refine WorkflowBundle.append_eq_ok.mpr
    ⟨hv.prefixBundle n, hv, ⟨rfl, rfl, rfl, rfl⟩, ?_⟩
  rw [WorkflowBundle.transitions_prefixBundle, List.map_drop]
  exact (List.take_append_drop n v.transitions).symm

theorem agrees_of_prefixBundle (hle : w.records.length ≤ v.records.length)
    (h : v.prefixBundle w.records.length = w) :
    Agrees w.toBundleFields v.toBundleFields w.records.length where
  same := by
    have hfields : v.toBundleFields.prefixOf w.records.length = w.toBundleFields :=
      congrArg WorkflowBundle.toBundleFields h
    rw [hfields, BundleFields.prefixOf, List.take_length]
  left := le_rfl
  right := hle

end Bundles

namespace SQLiteWorkflowStore

variable [DecidableEq D] [WideHex D] {store : SQLiteWorkflowStore D} {o : WorkflowOperation D}

namespace StoreHistory

variable {h h' : StoreHistory D}

/-- One history is the other with one more operation, and its receipts. -/
structure Extends (h h' : StoreHistory D) (o : WorkflowOperation D) : Prop where
  initialCount : h'.initialCount = h.initialCount
  first : h'.first = h.first
  operations : h'.operations = h.operations ++ [o]
  last : h'.last = o.result
  previous : o.previous = h.last
  longer : h.bundle.records.length ≤ h'.bundle.records.length
  bundle : h'.bundle.prefixBundle h.bundle.records.length = h.bundle

namespace Extends

theorem agrees (he : Extends h h' o) : Agrees h.bundle.toBundleFields h'.bundle.toBundleFields
    h.bundle.records.length := agrees_of_prefixBundle he.longer he.bundle

theorem records_eq (he : Extends h h' o) : h'.bundle.records =
    h.bundle.records ++ h'.bundle.records.drop h.bundle.records.length := by
  have htake := he.agrees.take_eq le_rfl
  rw [List.take_length] at htake
  conv_lhs => rw [← List.take_append_drop h.bundle.records.length h'.bundle.records, ← htake]

theorem contextRaw_eq (he : Extends h h' o) (hn : h.initialCount ≤ h.bundle.records.length) :
    h'.contextRaw = h.contextRaw := by
  have hcontext := BundleFields.storeContext_prefixOf h'.bundle.toBundleFields hn he.longer
  have hfields : h'.bundle.toBundleFields.prefixOf h.bundle.records.length = h.bundle.toBundleFields :=
    congrArg WorkflowBundle.toBundleFields he.bundle
  rw [contextRaw, contextRaw, he.initialCount, ← hcontext, hfields]

theorem receiptSizes_eq (he : Extends h h' o) : h'.receiptSizes = h.receiptSizes ++
    (h'.bundle.records.drop h.bundle.records.length).map
      (fun r => (canonicalBytes r.toDict).length) := by
  rw [receiptSizes, he.records_eq, List.map_append, List.drop_left]
  rfl

theorem operationSizes_eq (he : Extends h h' o) :
    h'.operationSizes = h.operationSizes ++ [(canonicalBytes o.document).length] := by
  rw [operationSizes, he.operations, List.map_append]
  rfl

theorem size_bundle_le (he : Extends h h' o) : (canonicalBytes h.bundle.toDict).length ≤
    (canonicalBytes h'.bundle.toDict).length := by
  have hsize := BundleFields.size_prefixOf_le h'.bundle.toBundleFields h.bundle.records.length
  have hfields : h'.bundle.toBundleFields.prefixOf h.bundle.records.length = h.bundle.toBundleFields :=
    congrArg WorkflowBundle.toBundleFields he.bundle
  rwa [hfields] at hsize

end Extends

/-- A history without its last operation. -/
def before (h' : StoreHistory D) (os : List (WorkflowOperation D)) (o : WorkflowOperation D) :
    StoreHistory D where
  bundle := h'.bundle.prefixBundle o.previous.recordCount
  initialCount := h'.initialCount
  operations := os
  first := h'.first
  last := o.previous

theorem length_before {os : List (WorkflowOperation D)}
    (hle : o.previous.recordCount ≤ h'.bundle.records.length) :
    (h'.before os o).bundle.records.length = o.previous.recordCount := by
  show (h'.bundle.records.take o.previous.recordCount).length = _
  rw [List.length_take, min_eq_left hle]

theorem extends_before {os : List (WorkflowOperation D)}
    (hle : o.previous.recordCount ≤ h'.bundle.records.length)
    (hoperations : h'.operations = os ++ [o]) (hlast : o.result = h'.last) :
    Extends (h'.before os o) h' o where
  initialCount := rfl
  first := rfl
  operations := hoperations
  last := hlast.symm
  previous := rfl
  longer := (length_before hle).trans_le hle
  bundle := by
    rw [length_before hle]
    rfl

/-- **A sound history is sound without its last operation.** -/
theorem Sound.before (hs : h'.Sound store) {os : List (WorkflowOperation D)}
    (hoperations : h'.operations = os ++ [o]) :
    (h'.before os o).Sound store ∧ Extends (h'.before os o) h' o := by
  have hhistory := hs.history
  rw [hoperations] at hhistory
  obtain ⟨hbefore, hfits, hlast⟩ := Links.concat_iff.mp hhistory
  have hle : o.previous.recordCount ≤ h'.bundle.records.length := hfits.later.le.trans hfits.within
  have he := extends_before hle hoperations hlast
  have hinitial : h'.initialCount ≤ o.previous.recordCount := by
    rw [← hs.recordCount_first]
    exact (hbefore.between (f := (·.recordCount)) fun _ hfits => hfits.later.le).1
  have hagrees := agrees_prefixOf h'.bundle.toBundleFields hle
  obtain ⟨hbundle, hpayload, hrecords, hreceipts, hlimit, hdocuments⟩ := hs.bounded
  refine ⟨?_, he⟩
  exact {
    context := hs.context
    authorized := hs.authorized.prefixBundle o.previous.recordCount
    initial_le := hinitial.trans_eq (length_before hle).symm
    genesis := (hagrees.genesis_eq hinitial).symm.trans hs.genesis
    history := History.congr hagrees le_rfl hbefore
    complete := (length_before hle).symm
    distinct := by
      have hdistinct := hs.distinct
      rw [hoperations, List.map_append] at hdistinct
      exact hdistinct.of_append_left
    bounded := by
      rw [he.receiptSizes_eq] at hpayload hreceipts
      rw [he.operationSizes_eq] at hdocuments
      rw [hoperations] at hlimit
      rw [he.contextRaw_eq (hinitial.trans_eq (length_before hle).symm)] at hpayload
      simp only [List.sum_append, List.length_append] at hpayload hdocuments hlimit
      exact ⟨he.size_bundle_le.trans hbundle, by omega, he.longer.trans hrecords,
        fun size hsize => hreceipts size (List.mem_append_left _ hsize),
        (Nat.le_add_right _ _).trans hlimit, by omega⟩ }

end StoreHistory

/-! ## Appending -/

omit [WideHex D] in
/-- **What `_prepare` admits.** -/
theorem prepare_eq_ok {ts : List (WorkflowTransition D)} {requestId : Identifier}
    {expected : WorkflowCheckpoint D} {r : Request D} :
    prepare store ts requestId expected = .ok r ↔
      expected.contextDigest = store.contextDigest ∧
      (1 ≤ ts.length ∧ ts.length ≤ store.limits.maxAppendRecords) ∧
      ∃ d, workflowRequestDigest requestId expected ts store.limits = .ok d ∧
        r = ⟨requestId, expected, ts, d⟩ := by
  have hdecode : decodeItems WorkflowTransition.fromDict (ts.map WorkflowTransition.toDict) =
      (.ok ts : Result (List (WorkflowTransition D))) := decodeItems_map fun t _ => t.fromDict_toDict
  simp only [prepare, bind_eq_ok, WorkflowCheckpoint.fromDict_toDict, hdecode, require_eq_ok,
    valid_eq_ok, exists_unit, Except.ok.injEq]
  constructor
  · rintro ⟨_, rfl, hcontext, hlength, _, rfl, d, hd, rfl⟩
    exact ⟨hcontext, hlength, d, hd, rfl⟩
  · rintro ⟨hcontext, hlength, d, hd, rfl⟩
    exact ⟨expected, rfl, hcontext, hlength, ts, rfl, d, hd, rfl⟩

omit [WideHex D] in
/-- **What `append` plans**, by the commit that it returns. -/
theorem plan_eq_ok {r : Request D} {current : WorkflowRead D} {p : Planned D} :
    plan store r current = .ok p ↔ current.snapshot.checkpoint = r.expected ∧
      (r.expected.recordCount + r.transitions.length ≤ store.limits.maxRecords ∧
        r.expected.operationCount < store.limits.maxOperations) ∧
      current.snapshot.bundle.append r.transitions store.authority = .ok p.commit.result.bundle ∧
      (canonicalBytes p.commit.result.bundle.toDict).length ≤ store.limits.maxBundleBytes ∧
      (p.receipts = (p.commit.result.bundle.records.drop r.expected.recordCount).map
          (fun x => canonicalBytes x.toDict) ∧
        ∀ x ∈ p.commit.result.bundle.records.drop r.expected.recordCount,
          (canonicalBytes x.toDict).length ≤ store.limits.maxReceiptBytes) ∧
      current.storedPayloadBytes + (p.receipts.map List.length).sum ≤ store.limits.maxBundleBytes ∧
      (∃ document, workflowOperation r.requestId r.digest r.expected
          p.commit.result.bundle.toBundleFields = .ok (document, p.commit.result.checkpoint) ∧
        (canonicalBytes document).length ≤ store.limits.maxOperationBytes ∧
        canonicalBytes document = p.operation) ∧
      current.operationBytes + p.operation.length ≤ store.limits.maxOperationsBytes ∧
      p.commit.toCommitFields = ⟨r.requestId, r.digest, r.expected, p.commit.result⟩ ∧
      (canonicalBytes p.commit.result.checkpoint.toDict).length ≤ maxWorkflowDocument ∧
      canonicalBytes p.commit.result.checkpoint.toDict = p.metadata := by
  simp only [plan, bind_eq_ok, require_eq_ok, valid_eq_ok, exists_unit, workflowBytes_eq_ok,
    receiptRows_eq_ok, StoredWorkflow.make_eq_ok, WorkflowCommit.make_eq_ok, Except.ok.injEq]
  constructor
  · rintro ⟨hexpected, hcounts, w, happend, _, ⟨hbundle, -⟩, rows, hrows, hpayload, ⟨document, after⟩,
      hoperation, raw, ⟨hdocument, rfl⟩, hdocuments, result, ⟨rfl, rfl⟩, commit, hcommit, metadata,
      ⟨hmetadata, rfl⟩, rfl⟩
    have hresult : commit.result = result := congrArg CommitFields.result hcommit
    subst hresult
    exact ⟨hexpected, hcounts, happend, hbundle, hrows, hpayload, ⟨document, hoperation, hdocument, rfl⟩,
      hdocuments, hcommit, hmetadata, rfl⟩
  · obtain ⟨commit, receipts, operation, metadata⟩ := p
    dsimp only
    rintro ⟨hexpected, hcounts, happend, hbundle, hrows, hpayload,
      ⟨document, hoperation, hdocument, rfl⟩, hdocuments, hcommit, hmetadata, rfl⟩
    exact ⟨hexpected, hcounts, _, happend, _, ⟨hbundle, rfl⟩, receipts, hrows, hpayload,
      (document, commit.result.checkpoint), hoperation, _, ⟨hdocument, rfl⟩, hdocuments,
      commit.result, ⟨rfl, rfl⟩, commit, hcommit, _, ⟨hmetadata, rfl⟩, rfl⟩

omit [WideHex D] in
theorem WorkflowCommit.ext_fields {c d : WorkflowCommit D} (hid : c.requestId = d.requestId)
    (hdigest : c.requestDigest = d.requestDigest) (hprevious : c.previous = d.previous)
    (hbundle : c.result.bundle = d.result.bundle)
    (hcheckpoint : c.result.checkpoint = d.result.checkpoint) : c = d := by
  obtain ⟨⟨_, _, _, result⟩, _⟩ := c
  obtain ⟨⟨_, _, _, result'⟩, _⟩ := d
  cases result
  cases result'
  simp_all

/-- The planned append is that of the operation which one history has beyond the other. -/
structure Planned.For (p : Planned D) (h h' : StoreHistory D) (o : WorkflowOperation D) : Prop where
  receipts : p.receipts = (h'.bundle.records.drop h.bundle.records.length).map
    fun r => canonicalBytes r.toDict
  operation : p.operation = canonicalBytes o.document
  metadata : p.metadata = canonicalBytes o.result.toDict
  requestId : p.commit.requestId = o.requestId
  requestDigest : p.commit.requestDigest = o.requestDigest
  previous : p.commit.previous = o.previous
  bundle : p.commit.result.bundle = h'.bundle
  checkpoint : p.commit.result.checkpoint = o.result

namespace StoreHistory

variable {h h' : StoreHistory D}

/-- What the store reads of a history. -/
def Sound.current (hs : h.Sound store) : WorkflowRead D where
  snapshot := hs.stored
  operations := h.operations
  operationBytes := h.operationSizes.sum
  storedPayloadBytes := h.contextRaw.length + h.receiptSizes.sum

theorem Sound.read_current (hs : h.Sound store) {t : WorkflowTables} (ht : h.Stored t) :
    read store t = .ok hs.current := by
  rw [hs.read_eq ht, ht.operationBytes_eq, ht.contextBytes_eq, ht.receiptBytes_eq]
  rfl

/-- The operation that a history has beyond another one is over all of its records. -/
theorem Extends.count_eq (he : Extends h h' o) (hs' : h'.Sound store) :
    o.result.recordCount = h'.bundle.records.length := by
  rw [← he.last, hs'.complete]

theorem Extends.fits (he : Extends h h' o) (hs' : h'.Sound store) :
    Fits store h'.bundle.toBundleFields o :=
  hs'.history.forall_mem o (by rw [he.operations]; simp)

/-- The transitions of that operation. -/
theorem Extends.transitions_eq (he : Extends h h' o) (hs : h.Sound store) (hs' : h'.Sound store) :
    o.transitions h'.bundle.toBundleFields =
      (h'.bundle.records.drop h.bundle.records.length).map (·.transition) := by
  rw [WorkflowOperation.transitions, he.count_eq hs', List.take_length, he.previous, hs.complete]

/-- The request of that operation. -/
def requestOf (h' : StoreHistory D) (o : WorkflowOperation D) : Request D :=
  ⟨o.requestId, o.previous, o.transitions h'.bundle.toBundleFields, o.requestDigest⟩

/-- **The request is admitted.** -/
theorem Extends.prepare_eq (he : Extends h h' o) (hs : h.Sound store) (hs' : h'.Sound store) :
    prepare store (o.transitions h'.bundle.toBundleFields) o.requestId o.previous =
      .ok (requestOf h' o) := by
  have hfits := he.fits hs'
  have hcount := he.count_eq hs'
  have hprevious : o.previous.recordCount = h.bundle.records.length := by
    rw [he.previous, hs.complete]
  have hlater := hfits.later
  have hfew := hfits.few
  have hlength : (o.transitions h'.bundle.toBundleFields).length =
      o.result.recordCount - o.previous.recordCount := by
    rw [he.transitions_eq hs hs', List.length_map, List.length_drop, ← hcount, hprevious]
  refine prepare_eq_ok.mpr ⟨hfits.context.1.trans hs'.context, ?_, o.requestDigest, hfits.request, rfl⟩
  rw [hlength]
  exact ⟨by omega, hfew⟩

/-- **The append of the operation is planned.** -/
theorem Extends.plan_eq (he : Extends h h' o) (hs : h.Sound store) (hs' : h'.Sound store) :
    ∃ p, plan store (requestOf h' o) hs.current = .ok p ∧ p.For h h' o := by
  have hfits := he.fits hs'
  have hcount := he.count_eq hs'
  have hprevious : o.previous.recordCount = h.bundle.records.length := by
    rw [he.previous, hs.complete]
  have htransitions := he.transitions_eq hs hs'
  obtain ⟨hbundle, hpayload, hrecords, hreceipts, hlimit, hdocuments⟩ := hs'.bounded
  have hpayloadSizes := hpayload
  rw [he.receiptSizes_eq, he.contextRaw_eq hs.initial_le, List.sum_append] at hpayloadSizes
  rw [he.operationSizes_eq, List.sum_append, List.sum_singleton] at hdocuments
  rw [he.operations, List.length_append, List.length_singleton] at hlimit
  have hoperationCount : o.previous.operationCount = h.operations.length := by
    rw [he.previous, hs.operationCount_last]
  have hmarks := hs'.marks_previous o (by rw [he.operations]; simp)
  have hvalid : CommitFields.Valid ⟨o.requestId, o.requestDigest, o.previous, hs'.stored⟩ :=
    Fits.commit_valid hfits hmarks he.last
  have hlengths : (((h'.bundle.records.drop h.bundle.records.length).map
      fun r => canonicalBytes r.toDict).map List.length) =
        (h'.bundle.records.drop h.bundle.records.length).map
          fun r => (canonicalBytes r.toDict).length := List.map_map
  have happend : h.bundle.append (o.transitions h'.bundle.toBundleFields) store.authority =
      .ok h'.bundle := by
    rw [htransitions]
    exact append_of_prefixBundle hs'.authorized he.bundle
  have hdocument := hfits.operation_eq hcount
  rw [← he.last] at hdocument
  let p : Planned D := ⟨⟨_, hvalid⟩, (h'.bundle.records.drop h.bundle.records.length).map
    (fun r => canonicalBytes r.toDict), canonicalBytes o.document, canonicalBytes o.result.toDict⟩
  have hfor : p.For h h' o := ⟨rfl, rfl, rfl, rfl, rfl, rfl, rfl, he.last⟩
  refine ⟨p, plan_eq_ok.mpr ?_, hfor⟩
  refine ⟨he.previous.symm, ⟨?_, ?_⟩, happend, hbundle, ⟨?_, ?_⟩, ?_,
      ⟨o.document, hdocument, hfits.document_le, rfl⟩, hdocuments, rfl, ?_, ?_⟩
  · show o.previous.recordCount + (o.transitions h'.bundle.toBundleFields).length ≤ _
    have hle := he.longer
    rw [htransitions, List.length_map, List.length_drop, hprevious]
    omega
  · show o.previous.operationCount < _
    omega
  · show _ = (h'.bundle.records.drop o.previous.recordCount).map _
    rw [hprevious]
  · show ∀ r ∈ h'.bundle.records.drop o.previous.recordCount, _
    intro r hr
    exact hreceipts _ (List.mem_map_of_mem (List.mem_of_mem_drop hr))
  · rw [hlengths]
    show h.contextRaw.length + h.receiptSizes.sum + _ ≤ _
    omega
  · exact h'.last.size_toDict_le
  · show canonicalBytes h'.last.toDict = _
    rw [he.last]

/-- **A planned append gives a longer history**, if the request is new. -/
theorem Sound.plan_ok (hs : h.Sound store) {ts : List (WorkflowTransition D)} {requestId : Identifier}
    {expected : WorkflowCheckpoint D} {r : Request D} {p : Planned D}
    (hr : prepare store ts requestId expected = .ok r)
    (hnew : ∀ o ∈ h.operations, o.requestId ≠ requestId) (hp : plan store r hs.current = .ok p) :
    ∃ h' o, Extends h h' o ∧ h'.Sound store ∧ p.For h h' o ∧ r = requestOf h' o := by
  obtain ⟨-, hlength, digest, hdigest, rfl⟩ := prepare_eq_ok.mp hr
  obtain ⟨hexpected, ⟨hrecords, hoperations⟩, happend, hbundle, ⟨hrows, hreceipts⟩, hpayload,
    hrest⟩ := plan_eq_ok.mp hp
  obtain ⟨⟨document, hoperation, hdocument, hraw⟩, hdocuments, hcommit, -, hmetadata⟩ := hrest
  obtain rfl : h.last = expected := hexpected
  have hcount := hs.complete
  obtain ⟨hearly, hlonger, htransitions⟩ := prefixBundle_of_append happend
  obtain ⟨-, hauthorized, -⟩ := WorkflowBundle.append_eq_ok.mp happend
  obtain ⟨⟨hcontext, hresultCount, hhead, hresultOperations⟩, hcontent, hresultDigest, rfl⟩ :=
    workflowOperation_eq_ok.mp hoperation
  have hbundleOf : hs.current.snapshot.bundle = h.bundle := rfl
  rw [hbundleOf] at hearly hlonger htransitions
  dsimp only at hlonger hrecords hoperations hrows hreceipts hresultOperations
  have hle : h.bundle.records.length ≤ p.commit.result.bundle.records.length := by omega
  have he : Extends h
      ⟨p.commit.result.bundle, h.initialCount,
        h.operations ++ [⟨requestId, digest, h.last, p.commit.result.checkpoint⟩], h.first,
        p.commit.result.checkpoint⟩
      ⟨requestId, digest, h.last, p.commit.result.checkpoint⟩ :=
    ⟨rfl, rfl, rfl, rfl, rfl, hle, hearly⟩
  have hagrees := agrees_of_prefixBundle hle hearly
  have hrange : WorkflowOperation.transitions ⟨requestId, digest, h.last, p.commit.result.checkpoint⟩
      p.commit.result.bundle.toBundleFields = ts := by
    rw [WorkflowOperation.transitions, hresultCount, List.take_length, hcount, htransitions]
  have hfits : Fits store p.commit.result.bundle.toBundleFields
      ⟨requestId, digest, h.last, p.commit.result.checkpoint⟩ := {
    context := ⟨hs.marks_last.1.trans hagrees.contextDigest_eq, hcontext⟩
    later := by
      show h.last.recordCount < p.commit.result.checkpoint.recordCount
      omega
    within := hresultCount.le
    few := by
      show p.commit.result.checkpoint.recordCount - h.last.recordCount ≤ _
      omega
    head := by
      show p.commit.result.checkpoint.workflowHead = BundleFields.headAt _
        p.commit.result.checkpoint.recordCount
      rw [hhead, hresultCount, BundleFields.headAt_length]
    count := hresultOperations
    request := by
      rw [hrange]
      exact hdigest
    content_le := hcontent
    digest := hresultDigest
    document_le := hdocument }
  refine ⟨_, _, he, ?_, ?_, ?_⟩
  · exact {
      context := hagrees.contextDigest_eq.symm.trans hs.context
      authorized := hauthorized
      initial_le := hs.initial_le.trans hle
      genesis := (hagrees.genesis_eq hs.initial_le).symm.trans hs.genesis
      history := Links.concat_iff.mpr ⟨History.congr hagrees hcount.le hs.history, hfits, rfl⟩
      complete := hresultCount
      distinct := by
        rw [List.map_append, List.nodup_append_comm]
        refine List.nodup_cons.mpr ⟨fun hmem => ?_, hs.distinct⟩
        obtain ⟨o, ho, hid⟩ := List.mem_map.mp hmem
        exact hnew o ho hid
      bounded := by
        obtain ⟨-, -, -, hsizes, -, -⟩ := hs.bounded
        have hsum : (p.receipts.map List.length) =
            (p.commit.result.bundle.records.drop h.bundle.records.length).map
              fun x => (canonicalBytes x.toDict).length := by
          rw [hrows, hcount, List.map_map]
          rfl
        rw [hsum] at hpayload
        rw [hcount] at hreceipts
        have hlast := hs.operationCount_last
        refine ⟨hbundle, ?_, ?_, ?_, ?_, ?_⟩
        · rw [he.receiptSizes_eq, he.contextRaw_eq hs.initial_le, List.sum_append]
          have hstored : hs.current.storedPayloadBytes = h.contextRaw.length + h.receiptSizes.sum := rfl
          show h.contextRaw.length + (h.receiptSizes.sum +
            ((p.commit.result.bundle.records.drop h.bundle.records.length).map
              fun x => (canonicalBytes x.toDict).length).sum) ≤ _
          omega
        · show p.commit.result.bundle.records.length ≤ _
          omega
        · rw [he.receiptSizes_eq, List.forall_mem_append, List.forall_mem_map]
          exact ⟨hsizes, hreceipts⟩
        · rw [List.length_append, List.length_singleton]
          omega
        · rw [he.operationSizes_eq, List.sum_append, List.sum_singleton]
          rw [← hraw] at hdocuments
          exact hdocuments }
  · exact ⟨by rw [hrows, hcount], hraw.symm, hmetadata.symm, congrArg CommitFields.requestId hcommit,
      congrArg CommitFields.requestDigest hcommit, congrArg CommitFields.previous hcommit, rfl, rfl⟩
  · rw [requestOf, hrange]

/-! ## The rows that are added -/

omit [DecidableEq D] [WideHex D] in
/-- Receipts past the last one go to the end of the table. -/
theorem putReceipts_eq (rs : List (WorkflowReceipt D)) : ∀ (cells : List Cell) (t : WorkflowTables),
    t.receipts = Table.ofValues cells →
      ∃ u, putReceipts cells.length (rs.map fun r => canonicalBytes r.toDict) t = .ok u ∧
        u.receipts = Table.ofValues (cells ++ rs.map receiptCell) ∧ u.context = t.context ∧
        u.operations = t.operations ∧ u.metadata = t.metadata := by
  induction rs with
  | nil => exact fun cells t h => ⟨t, rfl, by rw [h, List.map_nil, List.append_nil], rfl, rfl, rfl⟩
  | cons r rs ih =>
    intro cells t h
    obtain ⟨u, hput, hreceipts, hcontext, hoperations, hmetadata⟩ := ih (cells ++ [receiptCell r])
      { t with receipts := Table.ofValues (cells ++ [receiptCell r]) } rfl
    refine ⟨u, ?_, by rw [hreceipts, List.append_assoc]; rfl, hcontext, hoperations, hmetadata⟩
    have hinsert : t.insertReceipt cells.length (canonicalBytes r.toDict) =
        .ok { t with receipts := Table.ofValues (cells ++ [receiptCell r]) } := by
      have hlast := Table.insert_ofValues cells (receiptCell r)
      simp only [WorkflowTables.insertReceipt, h, bind_eq_ok, orError_eq_ok, Except.ok.injEq]
      exact ⟨_, hlast, rfl⟩
    simp only [List.map_cons, putReceipts, hinsert, ok_bind]
    rwa [List.length_append, List.length_singleton] at hput

/-- **An append puts the longer history into the tables.** -/
theorem Extends.put (he : Extends h h' o) (hs : h.Sound store) (hs' : h'.Sound store)
    {p : Planned D} (hp : p.For h h' o) {t : WorkflowTables} (ht : h.Stored t) :
    ∃ u, p.put t = .ok u ∧ h'.Stored u := by
  have hcount : p.commit.previous.recordCount = (h.bundle.records.map receiptCell).length := by
    rw [hp.previous, he.previous, hs.complete, List.length_map]
  have hoperationCount : p.commit.previous.operationCount =
      (h.operations.map WorkflowOperation.cells).length := by
    rw [hp.previous, he.previous, hs.operationCount_last, List.length_map]
  obtain ⟨u, hput, hreceipts, hcontext, hoperations, hmetadata⟩ := putReceipts_eq
    (h'.bundle.records.drop h.bundle.records.length) _ t ht.receipts
  have hunique : ((Table.ofValues (h.operations.map WorkflowOperation.cells ++ [o.cells])).values.map
      Prod.fst).Nodup := by
    have hids := hs'.distinct
    rw [he.operations] at hids
    have hinj : Function.Injective fun i : Identifier => Cell.text (Utf8.encode i.value.toList) :=
      fun i j hij => Identifier.ext (encode_text_inj (Cell.text.inj hij))
    have hmapped := hids.map hinj
    rw [List.map_map, List.map_append] at hmapped
    rw [Table.values_ofValues, List.map_append, List.map_map]
    exact hmapped
  have hinsert : u.insertOperation p.commit.previous.operationCount p.commit.requestId p.operation =
      .ok { u with
        operations := Table.ofValues (h.operations.map WorkflowOperation.cells ++ [o.cells])
        operations_unique := hunique } := by
    have hlast := Table.insert_ofValues (h.operations.map WorkflowOperation.cells) o.cells
    rw [← hoperationCount] at hlast
    simp only [WorkflowTables.insertOperation, bind_eq_ok, orError_eq_ok, hoperations, ht.operations,
      hp.requestId, hp.operation]
    exact ⟨_, hlast, dif_pos hunique⟩
  refine ⟨{ u with
      operations := Table.ofValues (h.operations.map WorkflowOperation.cells ++ [o.cells])
      metadata := u.metadata.map fun _ => .blob p.metadata
      operations_unique := hunique }, ?_, ?_⟩
  · simp only [Planned.put, hp.receipts, hcount, hput, ok_bind, hinsert]
    rfl
  · refine ⟨?_, ?_, ?_, ?_⟩
    · rw [hcontext, ht.context, he.contextRaw_eq hs.initial_le]
    · show u.receipts = _
      rw [hreceipts, ← List.map_append, ← he.records_eq]
    · show Table.ofValues _ = _
      rw [he.operations, List.map_append]
      rfl
    · show u.metadata.map _ = _
      rw [hmetadata, ht.metadata, hp.metadata, he.last]
      rfl

end StoreHistory

end SQLiteWorkflowStore

end EvidenceBraid
