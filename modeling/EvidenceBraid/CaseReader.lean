import EvidenceBraid.CaseRetained

/-!
# What the case store's reader accepts

`SQLiteCaseStore._read` accepts the tables of a case that fits (`CaseHistory.Fits`,
`CaseHistory.Stored`) and no others, and returns that case (`readCase_eq_ok`).
-/

namespace EvidenceBraid

open Hashing Transaction Sqlite

variable {D : Type} [Hashing D]

/-! ## Receipts -/

variable [DecidableEq D] [WideHex D]

/-- The stored form of a receipt. -/
def receiptCell (r : CaseReceipt D) : Cell := .blob (canonicalBytes r.toDict)

theorem readReceipts_eq_ok {cells : List Cell} : ∀ {rs : List (CaseReceipt D)},
    readReceipts cells = .ok rs ↔ cells = rs.map receiptCell := by
  induction cells with
  | nil =>
    intro rs
    rw [readReceipts, Except.ok.injEq, eq_comm, eq_comm (a := []), List.map_eq_nil_iff]
  | cons cell cells ih =>
    intro rs
    simp only [readReceipts, bind_eq_ok, cellBytes_eq_ok, ih, Except.ok.injEq]
    constructor
    · rintro ⟨raw, rfl, document, hparse, r, hr, rest, rfl, rfl⟩
      obtain ⟨rfl, -, hkeyed⟩ := of_caseParse hparse
      rw [CaseReceipt.eq_toDict_of_fromDict hkeyed hr]
      rfl
    · intro h
      cases rs with
      | nil => cases h
      | cons r rest =>
        obtain ⟨rfl, rfl⟩ := List.cons.inj h
        exact ⟨_, rfl, r.toDict, caseParse_canonical (r.readable_toDict (readable_int_caseHooks _)) rfl
          (r.size_toDict_le.trans (by decide)), r, r.fromDict_toDict, rest, rfl, rfl⟩

/-- **The journal that is read** has one to three receipts of a sound case. -/
theorem readJournal_eq_ok {authority : CaseAuthority} {receipts : Table Cell}
    {journal : CaseJournal D} {plan : CasePlan D} {planDigest : D} :
    readJournal authority receipts = .ok (journal, plan, planDigest) ↔
      (1 ≤ journal.receipts.length ∧ journal.receipts.length ≤ 3) ∧
        journal.authorityDigest = authority.digest ∧
        (∃ progress, SoundCase authority journal.records progress) ∧
        receipts = Table.ofValues (journal.receipts.map receiptCell) ∧
        ∃ r : CaseReceipt D,
          journal.receipts[0]? = some r ∧ r.record = .plan plan ∧ r.digest = planDigest := by
  simp only [readJournal, bind_eq_ok, valid_eq_ok, exists_unit, readReceipts_eq_ok,
    CaseJournal.make_eq_ok, replayCase_eq_ok]
  constructor
  · rintro ⟨⟨hpos, hle, hcontiguous⟩, rs, hvalues, made, ⟨hauthority, rfl⟩, state,
      ⟨-, -, progress, hsound, -⟩, h⟩
    have hreceipts : receipts = Table.ofValues (made.receipts.map receiptCell) := by
      rw [← hvalues]
      exact Table.eq_ofValues hcontiguous
    rw [hreceipts, Table.length_rows_ofValues, List.length_map] at hpos hle
    split at h
    · rename_i r rest hr
      split at h
      · rename_i p hp
        obtain ⟨rfl, rfl, rfl⟩ : made = journal ∧ p = plan ∧ r.digest = planDigest := by simpa using h
        exact ⟨⟨hpos, hle⟩, hauthority, ⟨progress, hsound⟩, hreceipts, r, by rw [hr]; rfl, hp, rfl⟩
      · cases h
    · cases h
  · rintro ⟨⟨hpos, hle⟩, hauthority, ⟨progress, hsound⟩, rfl, r, hr, hp, rfl⟩
    refine ⟨⟨?_, ?_, Table.contiguous_ofValues _⟩, journal.receipts, Table.values_ofValues _, journal,
      ⟨hauthority, rfl⟩, _, ⟨hauthority, by simp, progress, hsound, rfl⟩, ?_⟩
    · rwa [Table.length_rows_ofValues, List.length_map]
    · rwa [Table.length_rows_ofValues, List.length_map]
    · obtain ⟨rest, hrest⟩ : ∃ rest, journal.receipts = r :: rest := by
        cases hj : journal.receipts with
        | nil => simp [hj] at hr
        | cons x rest => exact ⟨rest, by simpa [hj] using hr⟩
      rw [hrest]
      simp only [hp]

/-! ## Histories -/

/-- A finished observation: who claimed it, the operation, the observation and its output. -/
structure CaseFinish (D : Type) where
  observerId : Identifier
  operationId : Identifier
  observation : CaseObservation D
  output : Option Bytes

/-- How far a case has come. -/
inductive CaseStage (D : Type) where
  | created
  | claimed (requestId observerId : Identifier)
  | finished (f : CaseFinish D)
  | verdicted (f : CaseFinish D) (operationId : Identifier) (v : CaseVerdict D)

/-- A case: its plan, the bytes that the plan commits to, and how far it has come. -/
structure CaseHistory (D : Type) [Hashing D] where
  plan : CasePlan D
  assertion : Bytes
  input : Bytes
  stage : CaseStage D

namespace CaseHistory

variable (authority : CaseAuthority) (planHead : D) (h : CaseHistory D)

/-- The plan's adapter with this observer. -/
def key (observerId : Identifier) : AdapterKey :=
  ⟨h.plan.testId, h.plan.adapterId, h.plan.adapterVersion, observerId⟩

/-- The records after the plan. -/
def added : List (CaseRecord D) :=
  match h.stage with
  | .created | .claimed _ _ => []
  | .finished f => [.observation f.observation]
  | .verdicted f _ v => [.observation f.observation, .verdict v]

def records : List (CaseRecord D) := .plan h.plan :: h.added

def output : Option Bytes :=
  match h.stage with
  | .created | .claimed _ _ => none
  | .finished f | .verdicted f _ _ => f.output

def steps : List (CaseStep D) :=
  match h.stage with
  | .created => []
  | .claimed requestId observerId => [.claim requestId (h.key observerId)]
  | .finished f =>
    [.claim f.observation.requestId (h.key f.observerId), .finish f.operationId f.observation]
  | .verdicted f operationId v =>
    [.claim f.observation.requestId (h.key f.observerId), .finish f.operationId f.observation,
      .verdict operationId f.observation.requestId v]

def retained : RetainedBytes := ⟨h.assertion, h.input, h.output⟩

omit [DecidableEq D] [WideHex D] in
theorem length_records : 1 ≤ h.records.length ∧ h.records.length ≤ 3 := by
  rw [records, added]
  split <;> simp

def journal : CaseJournal D :=
  CaseJournal.ofRecords authority.digest h.records (h.length_records.2.trans (by decide))

/-- What its rows are checked against. -/
def context : OperationContext D := ⟨authority, planHead, h.plan, h.journal authority, h.retained⟩

/-- The state before its first operation. -/
def start : OperationState D :=
  ⟨caseStoreGenesis (caseContext authority.digest h.plan planHead) planHead, [], none, none⟩

/-- The state after its last operation. -/
def state : OperationState D :=
  (h.context authority planHead).run (h.start authority planHead) h.steps

/-- **The case keeps to the rules**: its records are sound, the plan is the pinned one, the retained
bytes belong to the records, and every operation fits. -/
structure Fits : Prop where
  sound : ∃ progress, SoundCase authority h.records progress
  head : caseReceiptDigest 0 (caseGenesis authority.digest) (.plan h.plan) = planHead
  retained : RetainedFits h.plan h.records h.retained
  steps : (h.context authority planHead).FitsAll (h.start authority planHead) h.steps
  distinct : (h.steps.map CaseStep.operationId).Nodup

/-- The tables hold the case. -/
structure Stored (t : CaseTables) : Prop where
  context : t.context =
    some (.blob (canonicalBytes (caseContext authority.digest h.plan planHead)))
  receipts : t.receipts = Table.ofValues ((h.journal authority).receipts.map receiptCell)
  payloads : t.payloads = retainedRows h.plan h.records h.retained
  operations : t.operations.rows =
    (h.context authority planHead).rows (h.start authority planHead) h.steps
  metadata : t.metadata =
    some (.blob (canonicalBytes (h.state authority planHead).checkpoint.toDict))

/-- What the reader makes of the case. -/
def read : CaseRead D :=
  let s := h.state authority planHead
  ⟨⟨h.journal authority, s.checkpoint, h.assertion, h.input, h.output, s.pending⟩, s.commits,
    s.claimedKey⟩

variable {authority planHead h}

omit [DecidableEq D] in
@[simp] theorem records_journal : (h.journal authority).records = h.records :=
  CaseJournal.records_ofRecords

omit [DecidableEq D] in
theorem length_journal : (h.journal authority).receipts.length = h.records.length := by
  rw [← @records_journal D _ _ authority h, CaseJournal.records, List.length_map]

omit [DecidableEq D] in
/-- A journal of these records is the case's. -/
theorem eq_journal {journal : CaseJournal D} (hauthority : journal.authorityDigest = authority.digest)
    (hrecords : journal.records = h.records) : journal = h.journal authority := by
  refine CaseJournal.ext_fields hauthority ?_
  have hlength : 0 + (journal.receipts.map (·.record)).length ≤ maxCaseRecords := by
    rw [Nat.zero_add, List.length_map]
    exact journal.length_le
  have heq := eq_chainRecords journal.linked hlength
  simp only [CaseJournal.records] at hrecords
  rw [heq]
  simp only [hauthority, hrecords]
  rfl

omit [DecidableEq D] in
theorem Fits.pinned (hfits : h.Fits authority planHead) : (h.context authority planHead).Pinned where
  authority := rfl
  plan := ⟨_, rfl, rfl, hfits.head⟩

end CaseHistory

/-! ## Admission -/

omit [Hashing D] [DecidableEq D] [WideHex D] in
theorem Identifier.length_encode_le (i : Identifier) :
    (Utf8.encode i.value.toList).length ≤ 128 := by
  have hbytes := Json.length_encode_le_quotedSize i.value
  have hquoted := i.quotedSize_le
  omega

omit [DecidableEq D] in
theorem length_encode_hex (d : D) : (Utf8.encode (hex d).toList).length ≤ 64 := by
  have hbytes := Json.length_encode_le_quotedSize (hex d)
  rw [quotedSize_hex] at hbytes
  omega

section Retained

variable {plan : CasePlan D} {records : List (CaseRecord D)} {retained : RetainedBytes}

omit [DecidableEq D] [WideHex D] in
theorem outputRows_cases (o : Option (CaseObservation D)) (output : Option Bytes) :
    outputRows o output = [] ∨ ∃ artifactId bytes, output = some bytes ∧
      outputRows o output = [payloadRow "output" artifactId (sha256 bytes : D) bytes] := by
  unfold outputRows
  split
  · rename_i artifactId bytes hartifact
    exact .inr ⟨artifactId, bytes, rfl, rfl⟩
  · exact .inl rfl

omit [DecidableEq D] [WideHex D] in
theorem mem_retainedRows {row : PayloadRow} (h : row ∈ retainedRows plan records retained) :
    ∃ role ∈ payloadRoles, ∃ (artifactId : Identifier) (digest : D) (content : Bytes),
      row = payloadRow role artifactId digest content := by
  rw [retainedRows, List.mem_append, List.mem_cons, List.mem_singleton] at h
  rcases h with (rfl | rfl) | h
  · exact ⟨"assertion", by decide, _, _, _, rfl⟩
  · exact ⟨"input", by decide, _, _, _, rfl⟩
  · rcases outputRows_cases (observationOf records) retained.output with hrows | ⟨a, bytes, -, hrows⟩
    · rw [hrows] at h
      cases h
    · rw [hrows] at h
      exact ⟨"output", by decide, _, _, _, List.mem_singleton.mp h⟩

omit [DecidableEq D] [WideHex D] in
theorem length_retainedRows_le : (retainedRows plan records retained).length ≤ 3 := by
  rw [retainedRows, List.length_append]
  rcases outputRows_cases (observationOf records) retained.output with hrows | ⟨a, bytes, -, hrows⟩ <;>
    simp [hrows]

omit [DecidableEq D] [WideHex D] in
/-- The contents are within their bounds, one by one and together. -/
theorem admitted_contents (h : RetainedFits plan records retained) : admitted Cell.isBlob
    ((retainedRows plan records retained).map (·.content)) 3 maxInput maxTotalPayload = true := by
  obtain ⟨hinputs, hmatches, -⟩ := retainedFits_iff.mp h
  have hassertion := hinputs.assertion_length
  have hinput := hinputs.input_length
  have hbounds : maxAssertion + maxInput + maxOutput ≤ maxTotalPayload ∧ maxAssertion ≤ maxInput ∧
      maxOutput ≤ maxInput := by decide
  rw [admitted_iff, List.length_map]
  refine ⟨length_retainedRows_le, ?_⟩
  rw [retainedRows, List.map_append]
  rcases outputRows_cases (observationOf records) retained.output with hrows | ⟨a, bytes, hsome, hrows⟩
  · rw [hrows]
    simp [payloadRow, Cell.isBlob]
    omega
  · have houtput : bytes.length ≤ maxOutput := by
      have hfits := h.output
      cases hrecords : observationOf records with
      | none =>
        rw [hrecords] at hfits
        cases hfits.symm.trans hsome
      | some o =>
        rw [hrecords] at hfits
        exact (OutputFits.text hfits bytes hsome).1
    rw [hrows]
    simp [payloadRow, Cell.isBlob]
    omega

end Retained

namespace OperationContext

variable {c : OperationContext D}

omit [DecidableEq D] in
theorem length_rows {steps : List (CaseStep D)} : ∀ {s : OperationState D},
    (c.rows s steps).length = steps.length := by
  induction steps with
  | nil => intro s; rfl
  | cons step steps ih =>
    intro s
    rw [rows, List.length_cons, ih, List.length_cons]

omit [DecidableEq D] in
/-- The identifiers of the rows. -/
theorem map_fst_rows {steps : List (CaseStep D)} : ∀ {s : OperationState D},
    (c.rows s steps).map (·.2.1) =
      steps.map fun step => .text (Utf8.encode step.operationId.value.toList) := by
  induction steps with
  | nil => intro s; rfl
  | cons step steps ih =>
    intro s
    rw [rows, List.map_cons, ih, List.map_cons]
    rfl

omit [DecidableEq D] in
/-- No stored operation is too long. -/
theorem size_of_mem_rows {steps : List (CaseStep D)} : ∀ {s : OperationState D},
    ∀ row ∈ c.rows s steps, row.2.2.isBlob = true ∧ row.2.2.size ≤ maxCaseOperationBytes := by
  induction steps with
  | nil =>
    intro s row hrow
    cases hrow
  | cons step steps ih =>
    intro s row hrow
    rcases List.mem_cons.mp hrow with rfl | hrow
    · have hlength : (c.journal.upTo step).receipts.length ≤ 3 :=
        (List.length_take_le _ _).trans step.count_bounds.2
      exact ⟨rfl, step.length_row_le s.checkpoint hlength⟩
    · exact ih row hrow

end OperationContext

omit [DecidableEq D] in
/-- **The tables of a case are within the reader's bounds.** -/
theorem CaseHistory.admitCase_stored {authority : CaseAuthority} {planHead : D} {h : CaseHistory D}
    {t : CaseTables} (hretained : RetainedFits h.plan h.records h.retained)
    (hstored : h.Stored authority planHead t) : admitCase t = .ok () := by
  have hsteps : h.steps.length ≤ 3 := by
    rw [steps]
    split <;> simp
  have hoperations : t.operations.values =
      ((h.context authority planHead).rows (h.start authority planHead) h.steps).map Prod.snd := by
    rw [Table.values, hstored.operations]
  have hcount : t.operations.values.length ≤ maxCaseOperations := by
    rw [hoperations, List.length_map, OperationContext.length_rows]
    exact hsteps
  have hpayloads : t.payloads.length ≤ 3 := by
    rw [hstored.payloads]
    exact length_retainedRows_le
  simp only [admitCase, bind_eq_ok, valid_eq_ok, exists_unit]
  refine ⟨?_, ?_, ?_, ?_, ?_, ⟨?_, ?_, ?_, ?_⟩, ?_⟩
  · rw [hstored.context]
    refine admitted_of le_rfl ?_ (by decide : 1000 ≤ maxCaseContext) (by decide)
    intro c hc
    obtain rfl := List.mem_singleton.mp hc
    exact ⟨rfl, size_caseContext_le _ _ _⟩
  · rw [hstored.receipts, Table.values_ofValues]
    refine admitted_of ?_ ?_ (by decide : 17000 ≤ maxCaseReceipt) (by decide)
    · rw [List.length_map, length_journal]
      exact h.length_records.2
    · intro c hc
      obtain ⟨r, -, rfl⟩ := List.mem_map.mp hc
      exact ⟨rfl, r.size_toDict_le⟩
  · rw [hstored.payloads]
    exact admitted_contents hretained
  · refine admitted_of ?_ ?_ (le_refl maxCaseOperationBytes) (by decide)
    · rwa [List.length_map]
    · intro c hc
      obtain ⟨columns, hcolumns, rfl⟩ := List.mem_map.mp hc
      rw [hoperations] at hcolumns
      obtain ⟨row, hrow, rfl⟩ := List.mem_map.mp hcolumns
      exact OperationContext.size_of_mem_rows row hrow
  · rw [hstored.metadata]
    refine admitted_of le_rfl ?_ (by decide : 400 ≤ maxCaseMeta) (by decide)
    intro c hc
    obtain rfl := List.mem_singleton.mp hc
    exact ⟨rfl, CaseStoreCheckpoint.size_toDict_le _⟩
  · rw [List.all_eq_true, hstored.payloads]
    intro row hrow
    obtain ⟨role, -, artifactId, digest, content, rfl⟩ := mem_retainedRows hrow
    rfl
  · refine admitted_of ?_ ?_ (le_refl 16) (le_refl _)
    · exact (List.length_filterMap_le _ _).trans hpayloads
    · intro c hc
      rw [hstored.payloads] at hc
      obtain ⟨row, hrow, hrole⟩ := List.mem_filterMap.mp hc
      obtain ⟨role, hmem, artifactId, digest, content, rfl⟩ := mem_retainedRows hrow
      obtain rfl := Option.some.inj hrole
      have hroles : ∀ role ∈ payloadRoles, (Utf8.encode role.toList).length ≤ 16 := by decide
      exact ⟨rfl, hroles role hmem⟩
  · refine admitted_of ?_ ?_ (le_refl 128) (le_refl _)
    · rwa [List.length_map]
    · intro c hc
      rw [hstored.payloads] at hc
      obtain ⟨row, hrow, rfl⟩ := List.mem_map.mp hc
      obtain ⟨role, -, artifactId, digest, content, rfl⟩ := mem_retainedRows hrow
      exact ⟨rfl, artifactId.length_encode_le⟩
  · refine admitted_of ?_ ?_ (le_refl 64) (le_refl _)
    · rwa [List.length_map]
    · intro c hc
      rw [hstored.payloads] at hc
      obtain ⟨row, hrow, rfl⟩ := List.mem_map.mp hc
      obtain ⟨role, -, artifactId, digest, content, rfl⟩ := mem_retainedRows hrow
      exact ⟨rfl, length_encode_hex digest⟩
  · refine admitted_of ?_ ?_ (le_refl 128) (le_refl _)
    · rwa [List.length_map]
    · intro c hc
      rw [hoperations, List.map_map] at hc
      obtain ⟨row, hrow, rfl⟩ := List.mem_map.mp hc
      have hid : row.2.1 ∈ ((h.context authority planHead).rows (h.start authority planHead)
          h.steps).map (·.2.1) := List.mem_map_of_mem hrow
      rw [OperationContext.map_fst_rows] at hid
      obtain ⟨step, -, hstep⟩ := List.mem_map.mp hid
      rw [Function.comp_apply, ← hstep]
      exact ⟨rfl, step.operationId.length_encode_le⟩

/-! ## Acceptance -/

omit [DecidableEq D] in
/-- The context document, with the digest of the plan that is pinned. -/
theorem readContext_eq_ok {authority : CaseAuthority} {plan : CasePlan D} {planHead d : D}
    {raw : Bytes} : readContext authority planHead raw = .ok (caseContext authority.digest plan d) ↔
      d = planHead ∧ raw = canonicalBytes (caseContext authority.digest plan planHead) := by
  have hget := Json.get?_foldr_insertKey
    (nodup_keys_caseContextItems (authority.digest : D) plan d)
  have hmember : ∀ k v, Json.get? (caseContextItems (authority.digest : D) plan d) k = some v →
      member ((caseContextItems (authority.digest : D) plan d).foldr Json.insertKey []) k = v := by
    intro k v hv
    rw [member, hget, hv, Option.getD_some]
  simp only [readContext, bind_eq_ok, valid_eq_ok, exists_unit, caseStoreFields_eq_ok,
    Except.ok.injEq]
  constructor
  · rintro ⟨context, hparse, data, ⟨rfl, -⟩, ⟨-, -, -, hhead⟩, hcontext⟩
    obtain rfl : data = (caseContextItems (authority.digest : D) plan d).foldr Json.insertKey [] :=
      Json.obj.inj hcontext
    rw [hmember "plan_head" (.str (hex d)) (by simp [caseContextItems, Json.get?_cons])] at hhead
    obtain rfl : d = planHead := hex_injective (Json.str.inj hhead)
    exact ⟨rfl, (of_caseParse hparse).1⟩
  · rintro ⟨rfl, rfl⟩
    refine ⟨_, caseParse_canonical (readable_caseContext _ _ _) rfl
      ((size_caseContext_le _ _ _).trans (by decide)), _, ⟨rfl, fun k => ?_⟩, ⟨?_, ?_, ?_, ?_⟩, rfl⟩
    · exact (Json.mem_keys_foldr_insertKey_iff (nodup_keys_caseContextItems _ _ _)).trans
        (mem_keys_caseContextItems _ _ _ k)
    all_goals exact hmember _ _ (by simp [caseContextItems, Json.get?_cons])

namespace OperationContext

variable {c : OperationContext D} {s : OperationState D}

omit [DecidableEq D] in
theorem length_commits_apply (step : CaseStep D) :
    (c.apply s step).commits.length = s.commits.length + 1 :=
  List.length_append

omit [DecidableEq D] [WideHex D] in
/-- The first step is a claim. -/
theorem fits_first {step : CaseStep D} (hs : s.commits.length = 0) (h : step.Fits c s) :
    ∃ requestId key, step = .claim requestId key ∧ ClaimFits c.authority c.plan key := by
  cases step with
  | claim requestId key => exact ⟨requestId, key, rfl, h.2.2⟩
  | finish operationId o => exact absurd (hs.symm.trans h.1) (by decide)
  | verdict operationId requestId v => exact absurd (hs.symm.trans h.1) (by decide)

omit [DecidableEq D] [WideHex D] in
/-- The second step is the finish of what is claimed. -/
theorem fits_second {step : CaseStep D} (hs : s.commits.length = 1) (h : step.Fits c s) :
    ∃ (operationId : Identifier) (o : CaseObservation D),
      step = .finish operationId o ∧ s.pending = some o.requestId ∧
      (∃ r : CaseReceipt D, c.journal.receipts[1]? = some r ∧ r.record = .observation o) := by
  cases step with
  | claim requestId key => exact absurd (hs.symm.trans h.1) (by decide)
  | finish operationId o => exact ⟨operationId, o, rfl, h.2.1, h.2.2.1⟩
  | verdict operationId requestId v => exact absurd (hs.symm.trans h.1) (by decide)

omit [DecidableEq D] [WideHex D] in
/-- The third step is the verdict on the observation. -/
theorem fits_third {step : CaseStep D} (hs : s.commits.length = 2) (h : step.Fits c s) :
    ∃ (operationId : Identifier) (o : CaseObservation D) (v : CaseVerdict D),
      step = .verdict operationId o.requestId v ∧
      c.journal.records[1]? = some (CaseRecord.observation o) ∧
      (∃ r : CaseReceipt D, c.journal.receipts[2]? = some r ∧ r.record = .verdict v) := by
  cases step with
  | claim requestId key => exact absurd (hs.symm.trans h.1) (by decide)
  | finish operationId o => exact absurd (hs.symm.trans h.1) (by decide)
  | verdict operationId requestId v =>
    obtain ⟨-, -, hr, o, ho, rfl⟩ := h
    exact ⟨operationId, o, v, rfl, ho, hr⟩

omit [DecidableEq D] [WideHex D] in
/-- There is no fourth step. -/
theorem not_fits_fourth {step : CaseStep D} (hs : 3 ≤ s.commits.length) : ¬step.Fits c s := by
  intro h
  cases step <;> have hcount := h.1 <;> omega

omit [DecidableEq D] in
/-- The checkpoint counts the records that the last step results in. -/
theorem recordCount_apply {step : CaseStep D} (hc : c.Pinned)
    (hs : s.commits.length = s.checkpoint.operationCount) (h : step.Fits c s) :
    (c.apply s step).checkpoint.recordCount = step.count := by
  have hlength := length_upTo hc h
  have hcount := step.count_bounds
  have hlt : s.commits.length < 3 := by cases step <;> simp [h.1]
  have hbounds : 1 ≤ (c.journal.upTo step).receipts.length ∧
      (c.journal.upTo step).receipts.length ≤ 3 := by omega
  exact (CaseStep.after_fields (by omega) hbounds step).2.1.trans hlength

end OperationContext

omit [DecidableEq D] [WideHex D] in
/-- The claimed adapter is the plan's. -/
theorem ClaimFits.key_eq {authority : CaseAuthority} {plan : CasePlan D} {key : AdapterKey}
    (hfits : ClaimFits authority plan key) :
    ⟨plan.testId, plan.adapterId, plan.adapterVersion, key.observerId⟩ = key := by
  obtain ⟨testId, adapterId, adapterVersion, observerId⟩ := key
  have htest := hfits.test
  simp only [AdapterKey.test, Prod.mk.injEq] at htest
  obtain ⟨rfl, rfl, rfl⟩ := htest
  rfl

omit [DecidableEq D] [WideHex D] in
/-- The record of a receipt. -/
theorem CaseJournal.records_of_receipts {journal : CaseJournal D} {n : ℕ} {r : CaseReceipt D}
    {record : CaseRecord D} (hr : journal.receipts[n]? = some r) (hrecord : r.record = record) :
    journal.records[n]? = some record := by
  rw [CaseJournal.records, List.getElem?_map, hr, Option.map_some, hrecord]

omit [DecidableEq D] in
/-- **What fits is a history**: the steps, the records and the retained bytes together say how far
the case has come. -/
theorem exists_history {authority : CaseAuthority} {planHead : D} {plan : CasePlan D}
    {journal : CaseJournal D} {retained : RetainedBytes} {steps : List (CaseStep D)}
    (hc : (⟨authority, planHead, plan, journal, retained⟩ : OperationContext D).Pinned)
    (hretained : RetainedFits plan journal.records retained)
    {s : OperationState D} (hstart : s.commits = []) (hcount : s.checkpoint.operationCount = 0)
    (hrecords : s.checkpoint.recordCount = 1)
    (hsteps : OperationContext.FitsAll ⟨authority, planHead, plan, journal, retained⟩ s steps)
    (hlast : (OperationContext.run ⟨authority, planHead, plan, journal, retained⟩ s
      steps).checkpoint.recordCount = journal.receipts.length) :
    ∃ h : CaseHistory D, h.plan = plan ∧ h.records = journal.records ∧ h.retained = retained ∧
      h.steps = steps := by
  obtain ⟨r, hr, hrecord, -⟩ := hc.plan
  have hplan := CaseJournal.records_of_receipts hr hrecord
  have hlength : journal.records.length = journal.receipts.length := List.length_map _
  obtain ⟨assertion, input, output⟩ := retained
  have hoperations : s.commits.length = s.checkpoint.operationCount := by rw [hstart, hcount]; rfl
  rcases steps with _ | ⟨step, steps⟩
  · rw [OperationContext.run, hrecords] at hlast
    rw [← hlast] at hlength
    obtain ⟨record, hsingle⟩ := List.length_eq_one_iff.mp hlength
    rw [hsingle] at hplan hretained
    obtain rfl := Option.some.inj hplan
    have hnone : output = none := hretained.output
    exact ⟨⟨plan, assertion, input, .created⟩, rfl, hsingle.symm, by rw [hnone]; rfl, rfl⟩
  obtain ⟨hfirst, hsteps⟩ := hsteps
  obtain ⟨requestId, key, rfl, hclaim⟩ := OperationContext.fits_first (by rw [hstart]; rfl) hfirst
  have hkey := hclaim.key_eq
  have hone := OperationContext.length_commits_apply (c := ⟨authority, planHead, plan, journal,
    ⟨assertion, input, output⟩⟩) (s := s) (.claim requestId key)
  have hcounted := OperationContext.length_apply hc hoperations hfirst
  rw [hstart] at hone
  rcases steps with _ | ⟨step, steps⟩
  · have hrecorded := OperationContext.recordCount_apply hc hoperations hfirst
    rw [OperationContext.run, OperationContext.run, hrecorded] at hlast
    rw [← hlast] at hlength
    obtain ⟨record, hsingle⟩ := List.length_eq_one_iff.mp hlength
    rw [hsingle] at hplan hretained
    obtain rfl := Option.some.inj hplan
    have hnone : output = none := hretained.output
    refine ⟨⟨plan, assertion, input, .claimed requestId key.observerId⟩, rfl, hsingle.symm,
      by rw [hnone]; rfl, ?_⟩
    rw [← hkey]
    rfl
  obtain ⟨hsecond, hsteps⟩ := hsteps
  obtain ⟨operationId, o, rfl, hpending, r₁, hr₁, ho⟩ := OperationContext.fits_second hone hsecond
  obtain rfl := Option.some.inj hpending
  have hobservation := CaseJournal.records_of_receipts hr₁ ho
  have htwo := OperationContext.length_commits_apply (c := ⟨authority, planHead, plan, journal,
    ⟨assertion, input, output⟩⟩) (s := OperationContext.apply ⟨authority, planHead, plan, journal,
      ⟨assertion, input, output⟩⟩ s (.claim o.requestId key)) (.finish operationId o)
  rw [hone] at htwo
  have hcounted' := OperationContext.length_apply hc hcounted hsecond
  rcases steps with _ | ⟨step, steps⟩
  · have hrecorded := OperationContext.recordCount_apply hc hcounted hsecond
    rw [OperationContext.run, OperationContext.run, OperationContext.run, hrecorded] at hlast
    rw [← hlast] at hlength
    obtain ⟨record, record', hpair⟩ := List.length_eq_two.mp hlength
    rw [hpair] at hplan hobservation
    obtain rfl := Option.some.inj hplan
    obtain rfl := Option.some.inj hobservation
    refine ⟨⟨plan, assertion, input, .finished ⟨key.observerId, operationId, o, output⟩⟩, rfl,
      hpair.symm, rfl, ?_⟩
    rw [← hkey]
    rfl
  obtain ⟨hthird, hsteps⟩ := hsteps
  obtain ⟨verdictId, o', v, rfl, ho', r₂, hr₂, hv⟩ := OperationContext.fits_third htwo hthird
  have hverdict := CaseJournal.records_of_receipts hr₂ hv
  rcases steps with _ | ⟨step, steps⟩
  · have hrecorded := OperationContext.recordCount_apply hc hcounted' hthird
    rw [OperationContext.run, OperationContext.run, OperationContext.run, OperationContext.run,
      hrecorded] at hlast
    rw [← hlast] at hlength
    obtain ⟨record, record', record'', htriple⟩ := List.length_eq_three.mp hlength
    change journal.records[1]? = _ at ho'
    rw [htriple] at hplan hobservation hverdict ho'
    obtain rfl := Option.some.inj hplan
    obtain rfl := Option.some.inj hobservation
    obtain rfl := Option.some.inj hverdict
    obtain rfl : o = o' := CaseRecord.observation.inj (Option.some.inj ho')
    refine ⟨⟨plan, assertion, input, .verdicted ⟨key.observerId, operationId, o, output⟩ verdictId v⟩,
      rfl, htriple.symm, rfl, ?_⟩
    rw [← hkey]
    rfl
  · refine absurd hsteps.1 (OperationContext.not_fits_fourth ?_)
    rw [OperationContext.length_commits_apply, htwo]
    exact le_rfl

omit [DecidableEq D] in
/-- Distinct rows have distinct operations. -/
theorem CaseHistory.distinct_of_rows {c : OperationContext D} {s : OperationState D}
    {steps : List (CaseStep D)} {operations : Table (Cell × Cell)}
    (hrows : operations.rows = c.rows s steps) (h : (operations.values.map Prod.fst).Nodup) :
    (steps.map CaseStep.operationId).Nodup := by
  rw [Table.values, hrows, List.map_map] at h
  change ((c.rows s steps).map (·.2.1)).Nodup at h
  rw [OperationContext.map_fst_rows] at h
  have hfactor : (fun step : CaseStep D => Cell.text (Utf8.encode step.operationId.value.toList)) =
      (fun i : Identifier => Cell.text (Utf8.encode i.value.toList)) ∘ CaseStep.operationId := rfl
  rw [hfactor, ← List.map_map] at h
  exact h.of_map

omit [DecidableEq D] in
/-- The last checkpoint counts the records. -/
theorem CaseHistory.Fits.recordCount_eq {authority : CaseAuthority} {planHead : D}
    {h : CaseHistory D} (hfits : h.Fits authority planHead) :
    (h.state authority planHead).checkpoint.recordCount = (h.journal authority).receipts.length := by
  have hc := hfits.pinned
  have hsteps := hfits.steps
  rw [length_journal]
  obtain ⟨plan, assertion, input, stage⟩ := h
  cases stage with
  | created => rfl
  | claimed requestId observerId => exact OperationContext.recordCount_apply hc rfl hsteps.1
  | finished f =>
    exact OperationContext.recordCount_apply hc (OperationContext.length_apply hc rfl hsteps.1)
      hsteps.2.1
  | verdicted f operationId v =>
    exact OperationContext.recordCount_apply hc (OperationContext.length_apply hc
      (OperationContext.length_apply hc rfl hsteps.1) hsteps.2.1) hsteps.2.2.1

/-- **`_read` accepts the tables of the cases that fit**, and no others. -/
theorem readCase_eq_ok {authority : CaseAuthority} {planHead : D} {t : CaseTables} {r : CaseRead D} :
    readCase authority planHead t = .ok r ↔ ∃ h : CaseHistory D, h.Fits authority planHead ∧
      h.Stored authority planHead t ∧ r = h.read authority planHead := by
  have hlengths : ∀ h : CaseHistory D, (h.start authority planHead).commits.length =
      (h.start authority planHead).checkpoint.operationCount := fun _ => rfl
  simp only [readCase, bind_eq_ok, valid_eq_ok, exists_unit, orError_eq_ok, cellBytes_eq_ok,
    Except.ok.injEq]
  constructor
  · rintro ⟨-, contextCell, hcontextCell, metaCell, hmetaCell, contextRaw, rfl, context, hcontext,
      ⟨journal, plan, planDigest⟩, hjournal, hexact, retained, hretained, s, hoperations, metaRaw, rfl,
      metaDocument, hmeta, stored, hstored, ⟨rfl, hlast⟩, rfl⟩
    obtain rfl := hexact
    obtain ⟨rfl, rfl⟩ := readContext_eq_ok.mp hcontext
    obtain ⟨hlength, hauthority, hsound, hreceipts, plan', hplan', hrecord, rfl⟩ :=
      readJournal_eq_ok.mp hjournal
    obtain ⟨hfits, hpayloads⟩ := (readRetained_eq_ok t.payloads_sorted).mp hretained
    have hc : (⟨authority, plan'.digest, plan, journal, retained⟩ : OperationContext D).Pinned :=
      ⟨hauthority, plan', hplan', hrecord, rfl⟩
    obtain ⟨steps, hsteps, hrows, rfl⟩ := (OperationContext.readOperations_eq_ok hc rfl).mp hoperations
    obtain ⟨h, rfl, hrecords, rfl, rfl⟩ := exists_history hc hfits rfl rfl rfl hsteps hlast
    obtain rfl := CaseHistory.eq_journal hauthority hrecords.symm
    obtain ⟨hraw, -, hkeyed⟩ := of_caseParse hmeta
    have hdocument := CaseStoreCheckpoint.eq_toDict_of_fromDict hkeyed hstored
    rw [CaseHistory.records_journal] at hsound hfits hpayloads
    obtain rfl := Option.some.inj hplan'
    refine ⟨h, ⟨hsound, rfl, hfits, hsteps, ?_⟩, ⟨hcontextCell, hreceipts, hpayloads, hrows, ?_⟩, rfl⟩
    · exact CaseHistory.distinct_of_rows hrows t.operations_unique
    · rw [hmetaCell, hraw, hdocument]
      rfl
  · rintro ⟨h, hfits, hstored, rfl⟩
    refine ⟨h.admitCase_stored hfits.retained hstored, _, hstored.context, _, hstored.metadata, _,
      rfl, _, readContext_eq_ok.mpr ⟨rfl, rfl⟩, ⟨h.journal authority, h.plan, planHead⟩, ?_, rfl,
      h.retained, ?_, h.state authority planHead, ?_, _, rfl, _,
      caseParse_canonical (CaseStoreCheckpoint.readable_toDict _) rfl
        ((CaseStoreCheckpoint.size_toDict_le _).trans (by decide)), _,
      CaseStoreCheckpoint.fromDict_toDict _, ⟨rfl, ?_⟩, rfl⟩
    · rw [readJournal_eq_ok, CaseHistory.length_journal, CaseHistory.records_journal]
      exact ⟨h.length_records, rfl, hfits.sound, hstored.receipts, _, rfl, rfl, hfits.head⟩
    · rw [readRetained_eq_ok t.payloads_sorted, CaseHistory.records_journal]
      exact ⟨hfits.retained, hstored.payloads⟩
    · exact (OperationContext.readOperations_eq_ok hfits.pinned rfl).mpr
        ⟨h.steps, hfits.steps, hstored.operations, rfl⟩
    · exact hfits.recordCount_eq

end EvidenceBraid
