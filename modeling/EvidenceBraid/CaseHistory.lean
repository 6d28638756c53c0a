import EvidenceBraid.CaseStorageCodec
import EvidenceBraid.EpistemicProof

/-!
# Histories of a case

What a case store is for: a plan with its inputs, then a claim, an observation and a verdict, in
this order and each at most once. The loop over the stored operations accepts a row exactly where
it is the row of a step that fits what came before (`readOperation_eq_ok`).
-/

namespace EvidenceBraid

open Hashing Transaction Sqlite

variable {D : Type} [Hashing D]

/-! ## Steps -/

/-- An operation of a case. -/
inductive CaseStep (D : Type) where
  | claim (requestId : Identifier) (key : AdapterKey)
  | finish (operationId : Identifier) (o : CaseObservation D)
  | verdict (operationId requestId : Identifier) (v : CaseVerdict D)

namespace CaseStep

def operationId : CaseStep D → Identifier
  | claim requestId _ => requestId
  | finish operationId _ => operationId
  | verdict operationId _ _ => operationId

def requestId : CaseStep D → Identifier
  | claim requestId _ => requestId
  | finish _ o => o.requestId
  | verdict _ requestId _ => requestId

/-- The request's fields of its own type. -/
def details : CaseStep D → RequestDetails
  | claim _ key => ⟨.str "claim", key.toJson, .null, .null, .null, .null⟩
  | finish _ o => ⟨.str "finish", .null, takenJson hex o.observedSha256, .str o.status.value,
      .str (hex o.digest), .null⟩
  | verdict _ _ v => ⟨.str "verdict", .null, .null, .null, .str (hex v.digest),
      .str v.evaluatorId.value⟩

/-- How many records there are after the step. -/
def count : CaseStep D → ℕ
  | claim _ _ => 1
  | finish _ _ => 2
  | verdict _ _ _ => 3

/-- The request that waits for its observation after the step. -/
def pending : CaseStep D → Option Identifier
  | claim requestId _ => some requestId
  | _ => none

/-- The claimed adapter after the step. -/
def claimedKey (before : Option AdapterKey) : CaseStep D → Option AdapterKey
  | claim _ key => some key
  | _ => before

/-- The output that is known after the step. -/
def observed (output : Option Bytes) : CaseStep D → Option Bytes
  | claim _ _ => none
  | _ => output

/-- The columns of the step's row. -/
def row (before : CaseStoreCheckpoint D) (journal : CaseJournal D) (step : CaseStep D) :
    Cell × Cell :=
  (.text (Utf8.encode step.operationId.value.toList),
    .blob (canonicalBytes (.obj (storedNode step.details step.operationId step.requestId before
      journal.receipts.length journal.headDigest))))

/-- The checkpoint after the step. -/
def after (before : CaseStoreCheckpoint D) (journal : CaseJournal D) (step : CaseStep D) :
    CaseStoreCheckpoint D :=
  before.next step.details step.operationId step.requestId journal.receipts.length
    journal.headDigest

/-- What the step leaves to the next one. -/
def apply (retained : RetainedBytes) (s : OperationState D) (step : CaseStep D)
    (journal : CaseJournal D) : OperationState D where
  checkpoint := step.after s.checkpoint journal
  commits := s.commits ++ [⟨step.operationId,
    caseRequestDigest step.details step.operationId step.requestId s.checkpoint, s.checkpoint,
    ⟨journal, step.after s.checkpoint journal, retained.assertion, retained.input,
      step.observed retained.output, step.pending⟩⟩]
  pending := step.pending
  claimedKey := step.claimedKey s.claimedKey

theorem readable_details (step : CaseStep D) : step.details.Readable := by
  cases step with
  | claim requestId key =>
    refine ⟨trivial, ?_, trivial, trivial, trivial, trivial⟩
    simp only [details, AdapterKey.toJson, Json.readable_arr]
    intro x hx
    simp only [List.mem_cons, List.not_mem_nil, or_false] at hx
    rcases hx with rfl | rfl | rfl | rfl <;> exact Json.readable_str _
  | finish operationId o =>
    exact ⟨trivial, trivial, readable_takenJson hex _, trivial, trivial, trivial⟩
  | verdict operationId requestId v => exact ⟨trivial, trivial, trivial, trivial, trivial, trivial⟩

theorem size_details_le [WideHex D] (step : CaseStep D) : step.details.size ≤ 1000 := by
  have hnull : Json.size .null = 4 := by decide
  have hkeys : Json.quotedSize "claim" = 7 ∧ Json.quotedSize "finish" = 8 ∧
      Json.quotedSize "verdict" = 9 := by
    and_intros <;> exact Json.quotedSize_literal rfl
  cases step with
  | claim requestId key =>
    have h₁ := key.testId.quotedSize_le
    have h₂ := key.adapterId.quotedSize_le
    have h₃ := key.adapterVersion.quotedSize_le
    have h₄ := key.observerId.quotedSize_le
    have hkey := Json.size_arr_le [.str key.testId.value, .str key.adapterId.value,
      .str key.adapterVersion.value, .str key.observerId.value]
    simp only [List.map_cons, List.map_nil, List.sum_cons, List.sum_nil, Json.size_str] at hkey
    simp only [RequestDetails.size, details, AdapterKey.toJson, Json.size_str, hkeys]
    clear hkeys
    omega
  | finish operationId o =>
    have hobserved := size_takenJson_le (fun d : D => (quotedSize_hex d).le) (by decide)
      o.observedSha256
    have hstatus : Json.quotedSize o.status.value ≤ 13 := by
      cases o.status <;> exact Json.quotedSize_literal_le rfl
    simp only [RequestDetails.size, details, Json.size_str, quotedSize_hex, hkeys]
    clear hkeys
    omega
  | verdict operationId requestId v =>
    have hevaluator := v.evaluatorId.quotedSize_le
    simp only [RequestDetails.size, details, Json.size_str, quotedSize_hex, hkeys]
    clear hkeys
    omega

/-- **No operation exceeds its byte limit.** -/
theorem length_row_le [WideHex D] (before : CaseStoreCheckpoint D) {journal : CaseJournal D}
    (h : journal.receipts.length ≤ 3) (step : CaseStep D) :
    (canonicalBytes (.obj (storedNode step.details step.operationId step.requestId before
      journal.receipts.length journal.headDigest))).length ≤ maxCaseOperationBytes := by
  have hnode := size_storedNode_le step.details step.operationId step.requestId before
    journal.receipts.length journal.headDigest h
  have hdetails := step.size_details_le
  exact hnode.trans (by rw [maxCaseOperationBytes]; omega)

/-- What `_operation` makes of a step. -/
theorem caseOperation_eq [WideHex D] {before : CaseStoreCheckpoint D} {journal : CaseJournal D}
    (hbefore : before.operationCount < 3)
    (hjournal : 1 ≤ journal.receipts.length ∧ journal.receipts.length ≤ 3) (step : CaseStep D) :
    caseOperation step.details step.operationId step.requestId before journal =
      .ok (canonicalBytes (.obj (storedNode step.details step.operationId step.requestId before
        journal.receipts.length journal.headDigest)), step.after before journal) :=
  caseOperation_eq_ok.mpr ⟨rfl, step.length_row_le before hjournal.2, hbefore, hjournal, rfl⟩

/-- The checkpoint after a step, by its fields. -/
theorem after_fields {before : CaseStoreCheckpoint D} {journal : CaseJournal D}
    (hbefore : before.operationCount < 3)
    (hjournal : 1 ≤ journal.receipts.length ∧ journal.receipts.length ≤ 3) (step : CaseStep D) :
    (step.after before journal).operationCount = before.operationCount + 1 ∧
      (step.after before journal).recordCount = journal.receipts.length ∧
      (step.after before journal).operationHead =
        operationDigest step.details step.operationId step.requestId before
          journal.receipts.length journal.headDigest := by
  rw [after, CaseStoreCheckpoint.next, dif_pos ⟨hbefore, hjournal⟩]
  exact ⟨rfl, rfl, rfl⟩

end CaseStep

/-! ## The members of a stored operation -/

section Members

variable (details : RequestDetails) (operationId requestId : Identifier)
  (before : CaseStoreCheckpoint D) (recordCount : ℕ) (caseHead : D)

theorem member_storedNode {k : String} {v : Json}
    (h : Json.get? (storedItems details operationId requestId before recordCount caseHead) k =
      some v) :
    member (storedNode details operationId requestId before recordCount caseHead) k = v := by
  rw [member, get?_storedNode, h, Option.getD_some]

theorem detailsOf_storedNode :
    detailsOf (storedNode details operationId requestId before recordCount caseHead) = details := by
  have hmember := @member_storedNode D _ details operationId requestId before recordCount caseHead
  rw [detailsOf, @hmember "operation_type" details.operationType,
    @hmember "adapter_key" details.adapterKey, @hmember "payload_digest" details.payloadDigest,
    @hmember "status" details.status, @hmember "record_digest" details.recordDigest,
    @hmember "evaluator_id" details.evaluatorId]
  all_goals simp [storedItems, operationItems, requestItems, Json.get?_cons]

end Members

/-! ## Prefixes of a journal -/

section Prefix

theorem linkedCase_take {receipts : List (CaseReceipt D)} : ∀ {n : ℕ} {previous : D} (_ :
    LinkedCase n previous receipts) (k : ℕ), LinkedCase n previous (receipts.take k) := by
  induction receipts with
  | nil =>
    intro n previous h k
    rw [List.take_nil]
    exact h
  | cons r receipts ih =>
    intro n previous h k
    cases k with
    | zero => exact trivial
    | succ k => exact ⟨h.1, ih h.2 k⟩

/-- **A short prefix of a journal is a journal.** -/
theorem journalPrefix_eq_ok [WideHex D] [DecidableEq D] {c : OperationContext D}
    (hdigest : c.journal.authorityDigest = c.authority.digest) {count : ℕ} (hcount : count ≤ 3)
    {journal : CaseJournal D} : journalPrefix c count = .ok journal ↔
      journal.authorityDigest = c.authority.digest ∧
        journal.receipts = c.journal.receipts.take count := by
  have hlength : (c.journal.receipts.take count).length ≤ 3 :=
    (List.length_take_le _ _).trans hcount
  have hlinked := linkedCase_take c.journal.linked count
  rw [hdigest] at hlinked
  rw [journalPrefix, CaseJournal.make, dif_pos (hlength.trans (by decide)), dif_pos hlinked,
    dif_pos (size_caseJournalItems_le _ (hlength.trans (by decide))), Except.ok.injEq]
  constructor
  · rintro rfl
    exact ⟨rfl, rfl⟩
  · rintro ⟨hauthority, hreceipts⟩
    exact CaseJournal.ext_fields hauthority.symm hreceipts.symm

/-- The head of a prefix is the digest of its last receipt. -/
theorem headDigest_of_take {journal whole : CaseJournal D} {count : ℕ} {r : CaseReceipt D}
    (h : journal.receipts = whole.receipts.take (count + 1))
    (hr : whole.receipts[count]? = some r) : journal.headDigest = r.digest := by
  rw [CaseJournal.headDigest, h, List.take_add_one, hr, Option.toList_some, List.getLast?_concat]
  rfl

theorem length_of_take {journal whole : CaseJournal D} {count : ℕ} {r : CaseReceipt D}
    (h : journal.receipts = whole.receipts.take (count + 1))
    (hr : whole.receipts[count]? = some r) : journal.receipts.length = count + 1 := by
  have hlt := (List.getElem?_eq_some_iff.mp hr).1
  rw [h, List.length_take]
  omega

end Prefix

/-! ## Steps that fit -/

/-- A claim names the plan's adapter, and an observer of its scope other than its proposer. -/
structure ClaimFits (authority : CaseAuthority) (plan : CasePlan D) (key : AdapterKey) : Prop where
  test : key.test = (plan.testId, plan.adapterId, plan.adapterVersion)
  observer : HasCaseRole authority key.observerId [.tool] plan.scope .observe
  observer_ne : key.observerId ≠ plan.proposerId

/-- A successful observation names the artifact of the output. -/
def ArtifactFits (plan : CasePlan D) (o : CaseObservation D) (output : Option Bytes) : Prop :=
  o.status = .observed → ∃ bytes ∈ output,
    o.artifactId.map (·.value) = some (observedArtifact plan o.requestId bytes)

/-- What the loop asks of a step. -/
def CaseStep.Fits (c : OperationContext D) (s : OperationState D) : CaseStep D → Prop
  | .claim _ key => s.commits.length = 0 ∧ s.pending = none ∧ ClaimFits c.authority c.plan key
  | .finish _ o => s.commits.length = 1 ∧ s.pending = some o.requestId ∧
      (∃ r, c.journal.receipts[1]? = some r ∧ r.record = .observation o) ∧
      ArtifactFits c.plan o c.retained.output
  | .verdict _ requestId v => s.commits.length = 2 ∧ s.pending = none ∧
      (∃ r, c.journal.receipts[2]? = some r ∧ r.record = .verdict v) ∧
      ∃ o, c.journal.records[1]? = some (.observation o) ∧ requestId = o.requestId

/-- The journal that the rows are checked against begins with the pinned plan. -/
structure OperationContext.Pinned (c : OperationContext D) : Prop where
  authority : c.journal.authorityDigest = c.authority.digest
  plan : ∃ r : CaseReceipt D,
    c.journal.receipts[0]? = some r ∧ r.record = .plan c.plan ∧ r.digest = c.planHead

section Steps

theorem RequestDetails.ext_fields {a b : RequestDetails} (htype : a.operationType = b.operationType)
    (hkey : a.adapterKey = b.adapterKey) (hpayload : a.payloadDigest = b.payloadDigest)
    (hstatus : a.status = b.status) (hrecord : a.recordDigest = b.recordDigest)
    (hevaluator : a.evaluatorId = b.evaluatorId) : a = b := by
  cases a; cases b; simp_all

variable {c : OperationContext D} {s : OperationState D} {n : ℕ}
  {operationId requestId : Identifier} {node : List (String × Json)} {pending : Option Identifier}
  {claimed : Option AdapterKey}

theorem adapterKeyOf_eq_ok {plan : CasePlan D} {value : Json} {key : AdapterKey} :
    adapterKeyOf plan value = .ok key ↔ value = key.toJson ∧
      key.test = (plan.testId, plan.adapterId, plan.adapterVersion) := by
  constructor
  · intro h
    unfold adapterKeyOf at h
    split at h
    · simp only [bind_eq_ok, valid_eq_ok, exists_unit, wrapping_eq_ok, identifier_eq_ok,
        Except.ok.injEq] at h
      obtain ⟨⟨rfl, rfl, rfl⟩, observerId, rfl, rfl⟩ := h
      exact ⟨rfl, rfl⟩
    · cases h
  · rintro ⟨rfl, htest⟩
    obtain ⟨testId, adapterId, adapterVersion, observerId⟩ := key
    simp only [AdapterKey.test, Prod.mk.injEq] at htest
    obtain ⟨rfl, rfl, rfl⟩ := htest
    have hobserver : identifier observerId.value "" = .ok observerId := identifier_eq_ok.mpr rfl
    simp [adapterKeyOf, AdapterKey.toJson, hobserver]

theorem checkClaim_eq_ok : checkClaim c s n operationId requestId node = .ok (pending, claimed) ↔
    (n = 0 ∧ requestId = operationId ∧ s.pending = none ∧
      member node "result_record_count" = .int 1 ∧
      member node "result_case_head" = .str (hex c.planHead) ∧
      (detailsOf node).payloadDigest = .null ∧ (detailsOf node).status = .null ∧
      (detailsOf node).recordDigest = .null ∧ (detailsOf node).evaluatorId = .null) ∧
    ∃ key : AdapterKey, (detailsOf node).adapterKey = key.toJson ∧
      ClaimFits c.authority c.plan key ∧ pending = some requestId ∧ claimed = some key := by
  simp only [checkClaim, bind_eq_ok, valid_eq_ok, exists_unit, adapterKeyOf_eq_ok, Except.ok.injEq,
    Prod.mk.injEq]
  refine and_congr_right fun _ => exists_congr fun key => ?_
  rw [admits_iff_hasCaseRole [.tool] fun k => by cases k <;> decide]
  constructor
  · rintro ⟨⟨hkey, htest⟩, ⟨hobserver, hne⟩, rfl, rfl⟩
    exact ⟨hkey, ⟨htest, hobserver, hne⟩, rfl, rfl⟩
  · rintro ⟨hkey, ⟨htest, hobserver, hne⟩, rfl, rfl⟩
    exact ⟨⟨hkey, htest⟩, ⟨hobserver, hne⟩, rfl, rfl⟩

theorem checkFinish_eq_ok : checkFinish c s n requestId node = .ok (pending, claimed) ↔
    ∃ (r : CaseReceipt D) (o : CaseObservation D),
      c.journal.receipts[1]? = some r ∧ r.record = .observation o ∧
      (n = 1 ∧ s.pending = some requestId ∧ (detailsOf node).adapterKey = .null ∧
        (detailsOf node).evaluatorId = .null ∧ member node "result_record_count" = .int 2) ∧
      (o.requestId = requestId ∧ (detailsOf node).recordDigest = .str (hex o.digest) ∧
        member node "result_case_head" = .str (hex r.digest) ∧
        (detailsOf node).status = .str o.status.value ∧
        (detailsOf node).payloadDigest = takenJson hex o.observedSha256) ∧
      ArtifactFits c.plan o c.retained.output ∧ pending = none ∧ claimed = s.claimedKey := by
  simp only [checkFinish, bind_eq_ok, valid_eq_ok, exists_unit, orError_eq_ok]
  refine exists_congr fun r => ?_
  constructor
  · rintro ⟨hr, hstructure, h⟩
    split at h
    · rename_i o ho
      simp only [bind_eq_ok, valid_eq_ok, exists_unit, Except.ok.injEq, Prod.mk.injEq] at h
      obtain ⟨hbound, hartifact, rfl, rfl⟩ := h
      refine ⟨o, hr, ho, hstructure, hbound, ?_, rfl, rfl⟩
      rw [← hbound.1] at hartifact
      exact hartifact
    · cases h
  · rintro ⟨o, hr, ho, hstructure, hbound, hartifact, rfl, rfl⟩
    refine ⟨hr, hstructure, ?_⟩
    simp only [ho, bind_eq_ok, valid_eq_ok, exists_unit]
    refine ⟨hbound, ?_, trivial⟩
    rw [← hbound.1]
    exact hartifact

theorem checkVerdict_eq_ok : checkVerdict c s n requestId node = .ok (pending, claimed) ↔
    ∃ (r : CaseReceipt D) (o : CaseObservation D) (v : CaseVerdict D),
      c.journal.receipts[2]? = some r ∧ c.journal.records[1]? = some (CaseRecord.observation o) ∧
      r.record = .verdict v ∧
      (n = 2 ∧ s.pending = none ∧ requestId = o.requestId ∧ (detailsOf node).adapterKey = .null ∧
        (detailsOf node).payloadDigest = .null ∧ (detailsOf node).status = .null ∧
        member node "result_record_count" = .int 3) ∧
      ((detailsOf node).recordDigest = .str (hex v.digest) ∧
        (detailsOf node).evaluatorId = .str v.evaluatorId.value ∧
        member node "result_case_head" = .str (hex r.digest)) ∧
      pending = none ∧ claimed = s.claimedKey := by
  simp only [checkVerdict, bind_eq_ok, orError_eq_ok]
  refine exists_congr fun r => ?_
  constructor
  · rintro ⟨hr, h⟩
    split at h
    · rename_i o ho
      simp only [bind_eq_ok, valid_eq_ok, exists_unit] at h
      obtain ⟨hstructure, h⟩ := h
      split at h
      · rename_i v hv
        simp only [bind_eq_ok, valid_eq_ok, exists_unit, Except.ok.injEq, Prod.mk.injEq] at h
        obtain ⟨hbound, rfl, rfl⟩ := h
        exact ⟨o, v, hr, ho, hv, hstructure, hbound, rfl, rfl⟩
      · cases h
    · cases h
  · rintro ⟨o, v, hr, ho, hv, hstructure, hbound, rfl, rfl⟩
    refine ⟨hr, ?_⟩
    simp only [ho, hv, bind_eq_ok, valid_eq_ok, exists_unit]
    exact ⟨hstructure, hbound, trivial⟩

/-- The receipt that a step's document names. -/
theorem CaseStep.Fits.journal {step : CaseStep D} (hc : c.Pinned) (h : step.Fits c s) :
    ∃ r, c.journal.receipts[step.count - 1]? = some r ∧
      (∀ requestId key, step = .claim requestId key → r.digest = c.planHead) := by
  cases step with
  | claim requestId key =>
    obtain ⟨r, hr, -, hdigest⟩ := hc.plan
    exact ⟨r, hr, fun _ _ _ => hdigest⟩
  | finish operationId o =>
    obtain ⟨-, -, ⟨r, hr, -⟩, -⟩ := h
    exact ⟨r, hr, by simp⟩
  | verdict operationId requestId v =>
    obtain ⟨-, -, ⟨r, hr, -⟩, -⟩ := h
    exact ⟨r, hr, by simp⟩

/-- **A branch accepts the documents of the steps that fit**, and no others. -/
theorem checkOperation_eq_ok (hc : c.Pinned) :
    checkOperation c s s.commits.length operationId requestId node = .ok (pending, claimed) ↔
      ∃ (step : CaseStep D) (r : CaseReceipt D), step.Fits c s ∧
        c.journal.receipts[step.count - 1]? = some r ∧ operationId = step.operationId ∧
        requestId = step.requestId ∧ detailsOf node = step.details ∧
        member node "result_record_count" = .int step.count ∧
        member node "result_case_head" = .str (hex r.digest) ∧ pending = step.pending ∧
        claimed = step.claimedKey s.claimedKey := by
  obtain ⟨plan, hplan, -, hhead⟩ := hc.plan
  constructor
  · intro h
    unfold checkOperation at h
    split_ifs at h with hclaim hfinish hverdict
    · obtain ⟨⟨hn, rfl, hpending, hcount, hresult, h₁, h₂, h₃, h₄⟩, key, hkey, hfits, rfl, rfl⟩ :=
        checkClaim_eq_ok.mp h
      refine ⟨.claim requestId key, plan, ⟨hn, hpending, hfits⟩, hplan, rfl, rfl, ?_, hcount, ?_,
        rfl, rfl⟩
      · exact RequestDetails.ext_fields hclaim hkey h₁ h₂ h₃ h₄
      · rw [hhead, hresult]
    · obtain ⟨r, o, hr, ho, ⟨hn, hpending, h₁, h₂, hcount⟩, ⟨rfl, h₃, hresult, h₄, h₅⟩, hartifact,
        rfl, rfl⟩ := checkFinish_eq_ok.mp h
      refine ⟨.finish operationId o, r, ⟨hn, hpending, ⟨r, hr, ho⟩, hartifact⟩, hr, rfl, rfl, ?_,
        hcount, hresult, rfl, rfl⟩
      exact RequestDetails.ext_fields hfinish h₁ h₅ h₄ h₃ h₂
    · obtain ⟨r, o, v, hr, ho, hv, ⟨hn, hpending, rfl, h₁, h₂, h₃, hcount⟩, ⟨h₄, h₅, hresult⟩, rfl,
        rfl⟩ := checkVerdict_eq_ok.mp h
      refine ⟨.verdict operationId o.requestId v, r, ⟨hn, hpending, ⟨r, hr, hv⟩, o, ho, rfl⟩, hr, rfl,
        rfl, ?_, hcount, hresult, rfl, rfl⟩
      exact RequestDetails.ext_fields hverdict h₁ h₂ h₃ h₄ h₅
  · rintro ⟨step, r, hfits, hr, rfl, rfl, hdetails, hcount, hresult, rfl, rfl⟩
    have htype : member node "operation_type" = step.details.operationType := by
      rw [← hdetails]
      rfl
    unfold checkOperation
    rw [htype]
    cases step with simp only [CaseStep.details, Json.str.injEq, String.reduceEq, ↓reduceIte]
    | claim requestId key =>
      obtain ⟨hn, hpending, hkey⟩ := hfits
      have hr' : plan = r := Option.some.inj (hplan.symm.trans hr)
      rw [checkClaim_eq_ok, hdetails]
      exact ⟨⟨hn, rfl, hpending, hcount, by rw [hresult, ← hr', hhead], rfl, rfl, rfl, rfl⟩, key, rfl,
        hkey, rfl, rfl⟩
    | finish operationId o =>
      obtain ⟨hn, hpending, ⟨r', hr', ho⟩, hartifact⟩ := hfits
      obtain rfl : r' = r := Option.some.inj (hr'.symm.trans hr)
      rw [checkFinish_eq_ok, hdetails]
      exact ⟨r', o, hr, ho, ⟨hn, hpending, rfl, rfl, hcount⟩, ⟨rfl, rfl, hresult, rfl, rfl⟩, hartifact,
        rfl, rfl⟩
    | verdict operationId requestId v =>
      obtain ⟨hn, hpending, ⟨r', hr', hv⟩, o, ho, hrequest⟩ := hfits
      obtain rfl : r' = r := Option.some.inj (hr'.symm.trans hr)
      rw [checkVerdict_eq_ok, hdetails]
      exact ⟨r', o, v, hr, ho, hv, ⟨hn, hpending, hrequest, rfl, rfl, rfl, hcount⟩,
        ⟨rfl, rfl, hresult⟩, rfl, rfl⟩

theorem resultCount_eq {count : ℕ} (h : member node "result_record_count" = .int count) :
    resultCount node = count := by
  rw [resultCount, h]
  rfl

/-- The output that a row's snapshot shows. -/
theorem observed_eq {step : CaseStep D} (h : detailsOf node = step.details) (output : Option Bytes) :
    (if member node "operation_type" = .str "claim" then none else output) =
      step.observed output := by
  have htype : member node "operation_type" = step.details.operationType := by
    rw [← h]
    rfl
  rw [htype]
  cases step <;> simp [CaseStep.details, CaseStep.observed]

variable [DecidableEq D] [WideHex D]

/-- **A row is accepted exactly where it is the row of a step that fits.** -/
theorem readOperation_eq_ok (hc : c.Pinned) (hs : s.commits.length = s.checkpoint.operationCount)
    {row : ℕ × Cell × Cell} {t : OperationState D} : readOperation c s row = .ok t ↔
      ∃ (step : CaseStep D) (journal : CaseJournal D), step.Fits c s ∧
        journalPrefix c step.count = .ok journal ∧
        row = (s.commits.length, step.row s.checkpoint journal) ∧
        t = step.apply c.retained s journal := by
  constructor
  · intro h
    simp only [readOperation, bind_eq_ok, valid_eq_ok, exists_unit, cellText_eq_ok, cellBytes_eq_ok,
      caseStoreFields_eq_ok, identifier_eq_ok, identifierField_eq_ok, Except.ok.injEq] at h
    obtain ⟨text, htext, raw, hraw, hn, document, hparse, node, ⟨rfl, hkeys⟩, h⟩ := h
    obtain ⟨hheader, operationId, rfl, requestId, hrequest, expected, hexpected, ⟨rfl, hprevious⟩,
      hdigest, h⟩ := h
    obtain ⟨⟨pending, claimed⟩, hcheck, journal, hjournal, ⟨operationRaw, after⟩, hoperation, ⟨rfl,
      hlast⟩, rfl⟩ := h
    rw [hn] at hcheck
    obtain ⟨step, r, hfits, hr, rfl, rfl, hrest⟩ := (checkOperation_eq_ok hc).mp hcheck
    obtain ⟨hdetails, hcount, hresult, rfl, rfl⟩ := hrest
    rw [resultCount_eq hcount] at hjournal
    rw [hdetails] at hoperation ⊢
    obtain ⟨hbytes, -, -, -, rfl⟩ := caseOperation_eq_ok.mp hoperation
    refine ⟨step, journal, hfits, hjournal, ?_, ?_⟩
    · rw [CaseStep.row, ← hbytes, ← htext, ← hraw, ← hn]
    · rw [observed_eq hdetails]
      rfl
  · rintro ⟨step, journal, hfits, hjournal, rfl, rfl⟩
    have hcount : step.count ≤ 3 ∧ step.count - 1 + 1 = step.count ∧ s.commits.length < 3 := by
      cases step <;> simp [CaseStep.count, hfits.1]
    obtain ⟨r, hr, -⟩ := hfits.journal hc
    obtain ⟨-, hreceipts⟩ := (journalPrefix_eq_ok hc.authority hcount.1).mp hjournal
    rw [← hcount.2.1] at hreceipts
    have hlength : journal.receipts.length = step.count :=
      (length_of_take hreceipts hr).trans hcount.2.1
    have hhead : journal.headDigest = r.digest := headDigest_of_take hreceipts hr
    have hbounds : 1 ≤ journal.receipts.length ∧ journal.receipts.length ≤ 3 := by omega
    have hbefore : s.checkpoint.operationCount < 3 := by omega
    obtain ⟨node, hnode⟩ : ∃ node, node = storedNode step.details step.operationId step.requestId
      s.checkpoint journal.receipts.length journal.headDigest := ⟨_, rfl⟩
    have hmember : ∀ k v, Json.get? (storedItems step.details step.operationId step.requestId
        s.checkpoint journal.receipts.length journal.headDigest) k = some v →
          member node k = v := by
      rw [hnode]
      exact fun k v => member_storedNode _ _ _ _ _ _
    have hdetails : detailsOf node = step.details := by
      rw [hnode]
      exact detailsOf_storedNode _ _ _ _ _ _
    have hparse : caseParse (canonicalBytes (.obj node)) maxCaseOperationBytes = .ok (.obj node) := by
      rw [hnode]
      exact caseParse_canonical (readable_storedNode _ _ _ _ _ _ step.readable_details) rfl
        (step.length_row_le _ hbounds.2)
    have hkeys : ∀ k, k ∈ Json.keys node ↔ k ∈ operationFields := by
      rw [hnode]
      exact fun k => (Json.mem_keys_foldr_insertKey_iff (nodup_keys_storedItems _ _ _ _ _ _)).trans
        (mem_keys_storedItems _ _ _ _ _ _ k)
    have hrequest : Json.get? node "request_id" = some (.str step.requestId.value) := by
      rw [hnode, get?_storedNode]
      simp [storedItems, operationItems, requestItems, Json.get?_cons]
    have hoperation : caseOperation (detailsOf node) step.operationId step.requestId s.checkpoint
        journal = .ok (canonicalBytes (.obj node), step.after s.checkpoint journal) := by
      rw [hdetails, hnode]
      exact step.caseOperation_eq hbefore hbounds
    have hresult : member node "result_record_count" = .int step.count := by
      refine hmember _ _ ?_
      simp [storedItems, operationItems, requestItems, Json.get?_cons, hlength]
    have hcheck := (checkOperation_eq_ok hc (s := s)).mpr ⟨step, r, hfits, hr, rfl, rfl, hdetails,
      hresult, ?_, rfl, rfl⟩
    simp only [readOperation, CaseStep.row, bind_eq_ok, ← hnode]
    refine ⟨_, cellText_eq_ok.mpr rfl, _, cellBytes_eq_ok.mpr rfl, (), valid_of trivial, _, hparse, _,
      caseStoreFields_eq_ok.mpr ⟨rfl, hkeys⟩, (), valid_of ⟨?_, ?_, ?_, ?_⟩, step.operationId,
      identifier_eq_ok.mpr rfl, step.requestId, identifierField_eq_ok.mpr hrequest, s.checkpoint, ?_,
      (), valid_of ⟨rfl, ?_⟩, (), valid_of ?_, _, hcheck, journal, ?_, _, hoperation, (),
      valid_of ⟨rfl, ?_⟩, ?_⟩
    · exact hmember _ _ (by simp [storedItems, operationItems, Json.get?_cons])
    · exact hmember _ _ (by simp [storedItems, operationItems, Json.get?_cons])
    · rw [hs]
      exact hmember _ _ (by simp [storedItems, operationItems, Json.get?_cons])
    · exact hmember _ _ (by simp [storedItems, operationItems, requestItems, Json.get?_cons])
    · rw [hmember "expected" s.checkpoint.toDict
        (by simp [storedItems, operationItems, requestItems, Json.get?_cons])]
      exact s.checkpoint.fromDict_toDict
    · exact hmember _ _ (by simp [storedItems, operationItems, requestItems, Json.get?_cons])
    · rw [hdetails]
      exact hmember _ _ (by simp [storedItems, operationItems, requestItems, Json.get?_cons])
    · rw [resultCount_eq hresult]
      exact hjournal
    · rw [(CaseStep.after_fields hbefore hbounds step).2.2]
      exact hmember _ _ (by simp [storedItems, operationItems, requestItems, Json.get?_cons])
    · rw [observed_eq hdetails, hdetails]
      rfl
    · rw [← hhead]
      exact hmember _ _ (by simp [storedItems, operationItems, requestItems, Json.get?_cons])

end Steps

/-! ## All rows -/

omit [Hashing D] in
theorem CaseStep.count_bounds (step : CaseStep D) : 1 ≤ step.count ∧ step.count ≤ 3 := by
  cases step <;> simp [CaseStep.count]

section Rows

variable [WideHex D]

/-- The journal that a step results in. -/
def CaseJournal.upTo (journal : CaseJournal D) (step : CaseStep D) : CaseJournal D where
  authorityDigest := journal.authorityDigest
  receipts := journal.receipts.take step.count
  length_le := ((List.length_take_le _ _).trans step.count_bounds.2).trans (by decide)
  linked := linkedCase_take journal.linked _
  size_le := size_caseJournalItems_le _
    (((List.length_take_le _ _).trans step.count_bounds.2).trans (by decide))

namespace OperationContext

/-- What the loop makes of a step that fits. -/
def apply (c : OperationContext D) (s : OperationState D) (step : CaseStep D) : OperationState D :=
  step.apply c.retained s (c.journal.upTo step)

/-- What the loop makes of steps that fit. -/
def run (c : OperationContext D) : OperationState D → List (CaseStep D) → OperationState D
  | s, [] => s
  | s, step :: steps => c.run (c.apply s step) steps

/-- The rows of steps that fit. -/
def rows (c : OperationContext D) : OperationState D → List (CaseStep D) → List (ℕ × Cell × Cell)
  | _, [] => []
  | s, step :: steps =>
    (s.commits.length, step.row s.checkpoint (c.journal.upTo step)) :: c.rows (c.apply s step) steps

/-- Every step fits what the ones before it left. -/
def FitsAll (c : OperationContext D) : OperationState D → List (CaseStep D) → Prop
  | _, [] => True
  | s, step :: steps => step.Fits c s ∧ c.FitsAll (c.apply s step) steps

variable {c : OperationContext D} {s : OperationState D} {step : CaseStep D}

/-- How many receipts a step that fits results in. -/
theorem length_upTo (hc : c.Pinned) (h : step.Fits c s) :
    (c.journal.upTo step).receipts.length = step.count := by
  obtain ⟨r, hr, -⟩ := h.journal hc
  have hlt := (List.getElem?_eq_some_iff.mp hr).1
  have hcount := step.count_bounds
  rw [CaseJournal.upTo, List.length_take]
  omega

/-- The operations are counted by the checkpoint. -/
theorem length_apply (hc : c.Pinned) (hs : s.commits.length = s.checkpoint.operationCount)
    (h : step.Fits c s) : (c.apply s step).commits.length =
      (c.apply s step).checkpoint.operationCount := by
  have hlength := length_upTo hc h
  have hcount := step.count_bounds
  have hlt : s.commits.length < 3 := by cases step <;> simp [h.1]
  have hbounds : 1 ≤ (c.journal.upTo step).receipts.length ∧
      (c.journal.upTo step).receipts.length ≤ 3 := by omega
  have hbefore : s.checkpoint.operationCount < 3 := by omega
  change (s.commits ++ [_]).length =
    (step.after s.checkpoint (c.journal.upTo step)).operationCount
  rw [(CaseStep.after_fields hbefore hbounds step).1, List.length_append, hs]
  rfl

variable [DecidableEq D]

theorem journalPrefix_step (hc : c.Pinned) {journal : CaseJournal D} :
    journalPrefix c step.count = .ok journal ↔ journal = c.journal.upTo step := by
  rw [journalPrefix_eq_ok hc.authority step.count_bounds.2]
  constructor
  · rintro ⟨hauthority, hreceipts⟩
    exact CaseJournal.ext_fields (hauthority.trans hc.authority.symm) hreceipts
  · rintro rfl
    exact ⟨hc.authority, rfl⟩

/-- **The loop accepts the rows of steps that fit**, and no others. -/
theorem readOperations_eq_ok (hc : c.Pinned) {rows : List (ℕ × Cell × Cell)} :
    ∀ {s t : OperationState D}, s.commits.length = s.checkpoint.operationCount →
      (readOperations c s rows = .ok t ↔
        ∃ steps, c.FitsAll s steps ∧ rows = c.rows s steps ∧ t = c.run s steps) := by
  induction rows with
  | nil =>
    intro s t hs
    rw [readOperations, Except.ok.injEq]
    constructor
    · rintro rfl
      exact ⟨[], trivial, rfl, rfl⟩
    · rintro ⟨steps, -, hrows, rfl⟩
      cases steps with
      | nil => rfl
      | cons step steps => cases hrows
  | cons row rows ih =>
    intro s t hs
    simp only [readOperations, bind_eq_ok, readOperation_eq_ok hc hs, journalPrefix_step hc]
    constructor
    · rintro ⟨u, ⟨step, journal, hfits, rfl, rfl, rfl⟩, hrest⟩
      obtain ⟨steps, hall, rfl, rfl⟩ := (ih (length_apply hc hs hfits)).mp hrest
      exact ⟨step :: steps, ⟨hfits, hall⟩, rfl, rfl⟩
    · rintro ⟨steps, hall, hrows, rfl⟩
      cases steps with
      | nil => cases hrows
      | cons step steps =>
        obtain ⟨rfl, rfl⟩ := List.cons.inj hrows
        exact ⟨_, ⟨step, _, hall.1, rfl, rfl, rfl⟩,
          (ih (length_apply hc hs hall.1)).mpr ⟨steps, hall.2, rfl, rfl⟩⟩

end OperationContext

end Rows

end EvidenceBraid
