import EvidenceBraid.CaseReader

/-!
# One more step of a case

The transactions of the case store when nothing disturbs them, and the one write that all its
operations share: where a case and the same case one step later fit, the write of that step succeeds,
its tables hold the later case, and it returns the commit that is read from then on
(`CaseHistory.Extends.write`).
-/

namespace EvidenceBraid

open Hashing Transaction Sqlite

variable {D : Type} [Hashing D]

/-! ## Undisturbed transactions -/

/-- The session of an undisturbed transaction. -/
def freshCase (t : CaseTables) : Session CaseTables CommitOutcome PyError :=
  ⟨⟨t, t⟩, .none, [], false⟩

theorem connect_fresh (writable : Bool) (t : CaseTables) :
    connect lastRaised writable (freshCase t) = (.ok (), freshCase t) := by
  cases writable <;> rfl

/-- **An undisturbed transaction** keeps what its action computes, and nothing of a failed one. -/
theorem alone_of_ok {α : Type} {action : CaseProgram α}
    {f : CaseTables → CommitOutcome → Result (α × CaseTables × CommitOutcome)}
    (h : Computes action f) (writable : Bool) {t w : CaseTables} {a : α} {o : CommitOutcome}
    (hf : f t .none = .ok (a, w, o)) :
    alone writable action t = (.ok a, if writable then w else t) := by
  have haction : action (freshCase t) = (.ok a, (freshCase t).put w o) :=
    h.ok (freshCase t) rfl a w o hf
  have htransact : ∃ v, caseTransact writable action (freshCase t) = (.ok a, v) ∧ v.faults = [] ∧
      v.copies.durable = if writable then w else t := by
    have hbegin : (begin : CaseProgram Unit) (freshCase t) = (.ok (), freshCase t) := rfl
    rw [caseTransact, bind_apply, hbegin]
    dsimp only
    rw [bind_apply, haction]
    cases writable <;> exact ⟨_, rfl, rfl, rfl⟩
  obtain ⟨v, hv, hfaults, hdurable⟩ := htransact
  have halone : alone writable action t =
      ((caseRun PyError.isValidationError writable action (freshCase t)).1,
        (caseRun PyError.isValidationError writable action (freshCase t)).2.copies.durable) := rfl
  rw [halone, caseRun, runWith, connect_fresh]
  dsimp only
  rw [hv]
  obtain ⟨copies, flags, faults, interrupted⟩ := v
  obtain rfl : faults = [] := hfaults
  exact congrArg (Prod.mk _) hdurable

theorem alone_of_error {α : Type} {action : CaseProgram α}
    {f : CaseTables → CommitOutcome → Result (α × CaseTables × CommitOutcome)}
    (h : Computes action f) (writable : Bool) {t : CaseTables} {e : PyError}
    (hf : f t .none = .error e) :
    alone writable action t = (.error (conclude PyError.isValidationError
      (action (freshCase t)).2.flags (.ordinary e)), t) := by
  obtain ⟨w, o, haction⟩ := h.error (freshCase t) rfl e hf
  rw [haction]
  have hbegin : (begin : CaseProgram Unit) (freshCase t) = (.ok (), freshCase t) := rfl
  have htransact : caseTransact writable action (freshCase t) =
      (.error (.ordinary e), (freshCase t).put w o) := by
    rw [caseTransact, bind_apply, hbegin]
    dsimp only
    rw [bind_apply, haction]
  have halone : alone writable action t =
      ((caseRun PyError.isValidationError writable action (freshCase t)).1,
        (caseRun PyError.isValidationError writable action (freshCase t)).2.copies.durable) := rfl
  rw [halone, caseRun, runWith, connect_fresh]
  dsimp only
  rw [htransact]
  rfl

theorem alone_eq_ok {α : Type} {action : CaseProgram α}
    {f : CaseTables → CommitOutcome → Result (α × CaseTables × CommitOutcome)}
    (h : Computes action f) {writable : Bool} {t u : CaseTables} {a : α} :
    alone writable action t = (.ok a, u) ↔
      ∃ w o, f t .none = .ok (a, w, o) ∧ u = if writable then w else t := by
  cases hf : f t .none with
  | error e =>
    rw [alone_of_error h writable hf]
    simp
  | ok r =>
    obtain ⟨b, w, o⟩ := r
    rw [alone_of_ok h writable hf]
    simp only [Prod.mk.injEq, Except.ok.injEq]
    constructor
    · rintro ⟨rfl, rfl⟩
      exact ⟨w, o, ⟨rfl, rfl, rfl⟩, rfl⟩
    · rintro ⟨_, _, ⟨rfl, rfl, rfl⟩, rfl⟩
      exact ⟨rfl, rfl⟩

theorem checked_eq_ok {α : Type} {x : Result α} {t u : CaseTables} {a : α} :
    checked x t = (.ok a, u) ↔ x = .ok a ∧ u = t := by
  rw [checked, Action.lift_eq_ok, eq_comm (a := t)]
  cases x <;> simp [Except.mapError]

/-! ## The actions -/

section Actions

variable [DecidableEq D] {authority : CaseAuthority} {planHead : D} {t u : CaseTables}

theorem snapshot_eq_ok {expected : Option (CaseStoreCheckpoint D)} {snapshot : StoredCase D} :
    alone false (snapshotAction authority planHead expected) t = (.ok snapshot, u) ↔
      u = t ∧ ∃ r, readCase authority planHead t = .ok r ∧
        (∀ c ∈ expected, r.snapshot.checkpoint = c) ∧ snapshot = r.snapshot := by
  have hcomputes := (computes_query (τ := CommitOutcome) (readCase authority planHead)).bind
    fun current => (computes_compute (τ := CommitOutcome) (require
      (∀ checkpoint ∈ expected, current.snapshot.checkpoint = checkpoint)
      (.conflict "case store current checkpoint differs"))).bind fun _ =>
        computes_pure (τ := CommitOutcome) current.snapshot
  refine (alone_eq_ok hcomputes).trans ?_
  simp only [bind_eq_ok, require_eq_ok, Except.ok.injEq]
  constructor
  · rintro ⟨w, o, ⟨_, ⟨r, hread, rfl⟩, _, ⟨_, hexpected, rfl⟩, hresult⟩, rfl⟩
    cases hresult
    exact ⟨rfl, r, hread, hexpected, rfl⟩
  · rintro ⟨rfl, r, hread, hexpected, rfl⟩
    exact ⟨_, _, ⟨_, ⟨r, hread, rfl⟩, _, ⟨(), hexpected, rfl⟩, rfl⟩, rfl⟩

theorem claimedKey_eq_ok {key : Option AdapterKey} :
    alone false (claimedKeyAction authority planHead) t = (.ok key, u) ↔
      u = t ∧ ∃ r, readCase authority planHead t = .ok r ∧ key = r.claimedAdapterKey := by
  have hcomputes := (computes_query (τ := CommitOutcome) (readCase authority planHead)).bind
    fun current => computes_pure (τ := CommitOutcome) current.claimedAdapterKey
  refine (alone_eq_ok hcomputes).trans ?_
  simp only [bind_eq_ok, Except.ok.injEq]
  constructor
  · rintro ⟨w, o, ⟨_, ⟨r, hread, rfl⟩, hresult⟩, rfl⟩
    cases hresult
    exact ⟨rfl, r, hread, rfl⟩
  · rintro ⟨rfl, r, hread, rfl⟩
    exact ⟨_, _, ⟨_, ⟨r, hread, rfl⟩, rfl⟩, rfl⟩

/-- The statements of a write, on the tables. -/
def CasePlanned.put (p : CasePlanned D) (t : CaseTables) : Result CaseTables :=
  (match p.receipt with
    | some (sequence, document) => t.insertReceipt sequence document
    | none => .ok t) >>= fun t =>
  (match p.payload with
    | some row => t.insertPayload row
    | none => .ok t) >>= fun t =>
  t.insertOperation p.operation.1 p.operation.2.1 p.operation.2.2 >>= fun t =>
  t.updateMeta p.metadata

omit [DecidableEq D] in
theorem computes_writeRows (p : CasePlanned D) : Computes (writeRows p) (fun w o => do
    let u ← p.put w
    .ok ((), u, o)) := by
  have hexecute : ∀ f : CaseTables → Result CaseTables,
      Computes (execute f : CaseProgram Unit) _ := fun f => computes_execute f
  obtain ⟨commit, receipt, payload, operation, metadata⟩ := p
  have hlast := (hexecute (CaseTables.insertOperation operation.1 operation.2.1 operation.2.2)).bind
    fun _ => hexecute (CaseTables.updateMeta metadata)
  rcases receipt with _ | ⟨sequence, document⟩ <;> rcases payload with _ | row
  · refine Computes.congr hlast fun w o => ?_
    simp [CasePlanned.put, ok_bind]
  · refine Computes.congr ((hexecute (CaseTables.insertPayload row)).bind fun _ => hlast) fun w o => ?_
    simp [CasePlanned.put, ok_bind]
  · refine Computes.congr ((hexecute (CaseTables.insertReceipt sequence document)).bind fun _ => hlast)
      fun w o => ?_
    simp [CasePlanned.put, ok_bind]
  · refine Computes.congr ((hexecute (CaseTables.insertReceipt sequence document)).bind fun _ =>
      (hexecute (CaseTables.insertPayload row)).bind fun _ => hlast) fun w o => ?_
    simp [CasePlanned.put, ok_bind]

theorem computes_writeAction (w : CaseWrite D) :
    Computes (writeAction authority planHead w) (fun t o => do
      let current ← readCase authority planHead t
      let planned ← prepareWrite authority w current
      let u ← planned.put t
      .ok (planned.commit, u, o)) := by
  have hcomputes := (computes_query (τ := CommitOutcome) (readCase authority planHead)).bind
    fun current => (computes_compute (τ := CommitOutcome) (prepareWrite authority w current)).bind
      fun planned => (computes_writeRows planned).bind fun _ =>
        computes_pure (τ := CommitOutcome) planned.commit
  refine Computes.congr hcomputes fun t o => ?_
  simp [ok_bind]

/-- **A write that succeeds** has read a case, planned the step and put it into the tables. -/
theorem write_eq_ok {w : CaseWrite D} {commit : CaseStoreCommit D} :
    alone true (writeAction authority planHead w) t = (.ok commit, u) ↔
      ∃ r planned, readCase authority planHead t = .ok r ∧
        prepareWrite authority w r = .ok planned ∧ planned.put t = .ok u ∧
        commit = planned.commit := by
  refine (alone_eq_ok (computes_writeAction w)).trans ?_
  simp only [bind_eq_ok, Except.ok.injEq, Prod.mk.injEq]
  constructor
  · rintro ⟨v, o, ⟨r, hread, planned, hplanned, v', hput, rfl, rfl, rfl⟩, rfl⟩
    exact ⟨r, planned, hread, hplanned, hput, rfl⟩
  · rintro ⟨r, planned, hread, hplanned, hput, rfl⟩
    exact ⟨u, .none, ⟨r, hread, planned, hplanned, u, hput, rfl, rfl, rfl⟩, rfl⟩

end Actions

/-! ## Rows that are added -/

namespace CaseTables

variable {t : CaseTables}

theorem insertReceipt_last {cells : List Cell} (h : t.receipts = Table.ofValues cells)
    (document : Bytes) : t.insertReceipt cells.length document =
      .ok { t with receipts := Table.ofValues (cells ++ [.blob document]) } := by
  rw [insertReceipt, h, Table.insert_ofValues]
  rfl

theorem insertPayload_last {row : PayloadRow} (h : ∀ r ∈ t.payloads, r.Before row) :
    ∃ u, t.insertPayload row = .ok u ∧ u.context = t.context ∧ u.receipts = t.receipts ∧
      u.payloads = t.payloads ++ [row] ∧ u.operations = t.operations ∧ u.metadata = t.metadata := by
  have hall : ∀ r ∈ t.payloads, decide (r.Before row) = true := fun r hr => decide_eq_true (h r hr)
  have hsorted : (t.payloads ++ [row]).Pairwise PayloadRow.Before := by
    rw [List.pairwise_append]
    refine ⟨t.payloads_sorted, List.pairwise_singleton _ _, ?_⟩
    intro r hr r' hr'
    rw [List.mem_singleton.mp hr']
    exact h r hr
  have hrows : t.payloads.takeWhile (fun r => decide (r.Before row)) ++
      row :: t.payloads.dropWhile (fun r => decide (r.Before row)) = t.payloads ++ [row] := by
    rw [List.takeWhile_eq_self_iff.mpr hall, List.dropWhile_eq_nil_iff.mpr hall]
  refine ⟨{ t with payloads := t.payloads ++ [row], payloads_sorted := hsorted }, ?_, rfl, rfl, rfl,
    rfl, rfl⟩
  simp only [insertPayload, hrows, dif_pos hsorted]

theorem insertOperation_last {sequence : ℕ} {operationId : String} {document : Bytes}
    (h : ∀ x ∈ t.operations.rows, x.1 < sequence)
    (hnew : Cell.text (Utf8.encode operationId.toList) ∉ t.operations.values.map Prod.fst) :
    ∃ u, t.insertOperation sequence operationId document = .ok u ∧ u.context = t.context ∧
      u.receipts = t.receipts ∧ u.payloads = t.payloads ∧ u.operations.rows = t.operations.rows ++
        [(sequence, Cell.text (Utf8.encode operationId.toList), Cell.blob document)] ∧
      u.metadata = t.metadata := by
  have hinsert := Table.insert_last (r := (Cell.text (Utf8.encode operationId.toList),
    Cell.blob document)) h
  have hunique : ((Table.mk _ (Table.sorted_last (r := (Cell.text (Utf8.encode operationId.toList),
      Cell.blob document)) h)).values.map Prod.fst).Nodup := by
    have hunique := t.operations_unique
    simp only [Table.values, List.map_append, List.map_cons, List.map_nil] at hunique hnew ⊢
    exact List.nodup_append.mpr ⟨hunique, List.nodup_singleton _, by
      intro a ha b hb
      rw [List.mem_singleton.mp hb]
      rintro rfl
      exact hnew ha⟩
  refine ⟨{ t with operations := _, operations_unique := hunique }, ?_, rfl, rfl, rfl, rfl, rfl⟩
  simp only [insertOperation, hinsert, orError, ok_bind, dif_pos hunique]

end CaseTables

/-! ## The next step -/

section Next

variable [WideHex D] (authority : CaseAuthority) (planHead : D)

/-- A case and the same case one step later. -/
structure CaseHistory.Extends (h h' : CaseHistory D) (step : CaseStep D) : Prop where
  plan : h'.plan = h.plan
  assertion : h'.assertion = h.assertion
  input : h'.input = h.input
  steps : h'.steps = h.steps ++ [step]
  rows : (h'.context authority planHead).rows (h'.start authority planHead) h'.steps =
    (h.context authority planHead).rows (h.start authority planHead) h.steps ++
      [((h.state authority planHead).commits.length,
        step.row (h.state authority planHead).checkpoint (h'.journal authority))]
  state : h'.state authority planHead =
    step.apply h'.retained (h.state authority planHead) (h'.journal authority)

variable {authority planHead}

theorem CaseHistory.extends_claim {plan : CasePlan D} {assertion input : Bytes}
    {requestId observerId : Identifier} :
    CaseHistory.Extends authority planHead ⟨plan, assertion, input, .created⟩
      ⟨plan, assertion, input, .claimed requestId observerId⟩
      (.claim requestId ⟨plan.testId, plan.adapterId, plan.adapterVersion, observerId⟩) :=
  ⟨rfl, rfl, rfl, rfl, rfl, rfl⟩

theorem CaseHistory.extends_finish {plan : CasePlan D} {assertion input : Bytes}
    {f : CaseFinish D} :
    CaseHistory.Extends authority planHead
      ⟨plan, assertion, input, .claimed f.observation.requestId f.observerId⟩
      ⟨plan, assertion, input, .finished f⟩ (.finish f.operationId f.observation) :=
  ⟨rfl, rfl, rfl, rfl, rfl, rfl⟩

theorem CaseHistory.extends_verdict {plan : CasePlan D} {assertion input : Bytes}
    {f : CaseFinish D} {operationId : Identifier} {v : CaseVerdict D} :
    CaseHistory.Extends authority planHead ⟨plan, assertion, input, .finished f⟩
      ⟨plan, assertion, input, .verdicted f operationId v⟩
      (.verdict operationId f.observation.requestId v) :=
  ⟨rfl, rfl, rfl, rfl, rfl, rfl⟩

omit [Hashing D] [WideHex D] in
theorem payloadRow_before [Hashing D] {a b : String} (h : roleKey a < roleKey b)
    (i j : Identifier) (d e : D) (x y : Bytes) :
    (payloadRow a i d x).Before (payloadRow b j e y) := .inr h

omit [WideHex D] in
/-- The payload rows are in the order of the table. -/
theorem pairwise_retainedRows (plan : CasePlan D) (records : List (CaseRecord D))
    (retained : RetainedBytes) : (retainedRows plan records retained).Pairwise PayloadRow.Before := by
  have hinput : roleKey "assertion" < roleKey "input" := by decide
  have houtput : roleKey "assertion" < roleKey "output" := by decide
  have hlast : roleKey "input" < roleKey "output" := by decide
  rw [retainedRows]
  rcases outputRows_cases (observationOf records) retained.output with hrows | ⟨a, bytes, -, hrows⟩
  · rw [hrows]
    simp [payloadRow_before hinput]
  · rw [hrows]
    simp [payloadRow_before hinput, payloadRow_before houtput, payloadRow_before hlast]

namespace OperationContext

variable {c : OperationContext D}

theorem length_commits_run {steps : List (CaseStep D)} : ∀ {s : OperationState D},
    (c.run s steps).commits.length = s.commits.length + steps.length := by
  induction steps with
  | nil => intro s; rfl
  | cons step steps ih =>
    intro s
    rw [run, ih, length_commits_apply, List.length_cons]
    omega

/-- The keys of the rows are below the next one. -/
theorem key_lt_of_mem_rows {steps : List (CaseStep D)} : ∀ {s : OperationState D},
    ∀ row ∈ c.rows s steps, row.1 < (c.run s steps).commits.length := by
  induction steps with
  | nil =>
    intro s row hrow
    cases hrow
  | cons step steps ih =>
    intro s row hrow
    rw [run]
    rcases List.mem_cons.mp hrow with rfl | hrow
    · rw [length_commits_run, length_commits_apply]
      dsimp only
      omega
    · exact ih row hrow

end OperationContext

namespace CaseHistory

variable {h h' : CaseHistory D} {step : CaseStep D} {t : CaseTables}

/-- The identifier of the next step is not in the table. -/
theorem Extends.operationId_notMem (he : Extends authority planHead h h' step)
    (hfits' : h'.Fits authority planHead) (hstored : h.Stored authority planHead t) :
    Cell.text (Utf8.encode step.operationId.value.toList) ∉ t.operations.values.map Prod.fst := by
  intro hmem
  have hids : t.operations.values.map Prod.fst =
      h.steps.map fun step => .text (Utf8.encode step.operationId.value.toList) := by
    rw [Table.values, hstored.operations, List.map_map]
    exact OperationContext.map_fst_rows
  rw [hids] at hmem
  obtain ⟨earlier, hearlier, heq⟩ := List.mem_map.mp hmem
  have hid : earlier.operationId = step.operationId :=
    Identifier.ext_iff.mpr (encode_text_inj (Cell.text.inj heq))
  have hdistinct := hfits'.distinct
  rw [he.steps, List.map_append, List.nodup_append] at hdistinct
  exact hdistinct.2.2 _ (List.mem_map_of_mem hearlier) step.operationId (by simp) hid

/-- **The statements of a step** take the tables of a case to those of the next one. -/
theorem Extends.put (he : Extends authority planHead h h' step)
    (hfits' : h'.Fits authority planHead) (hstored : h.Stored authority planHead t)
    {p : CasePlanned D}
    (hreceipts : (p.receipt = none ∧
        (h'.journal authority).receipts = (h.journal authority).receipts) ∨
      ∃ r, p.receipt = some ((h.journal authority).receipts.length, canonicalBytes r.toDict) ∧
        (h'.journal authority).receipts = (h.journal authority).receipts ++ [r])
    (hpayloads : (p.payload = none ∧
        retainedRows h'.plan h'.records h'.retained = retainedRows h.plan h.records h.retained) ∨
      ∃ row, p.payload = some row ∧ retainedRows h'.plan h'.records h'.retained =
        retainedRows h.plan h.records h.retained ++ [row])
    {raw : Bytes} (hoperation : p.operation =
      ((h.state authority planHead).commits.length, step.operationId.value, raw))
    (hraw : step.row (h.state authority planHead).checkpoint (h'.journal authority) =
      (.text (Utf8.encode step.operationId.value.toList), .blob raw))
    (hmeta : p.metadata = canonicalBytes (h'.state authority planHead).checkpoint.toDict) :
    ∃ u, p.put t = .ok u ∧ h'.Stored authority planHead u := by
  obtain ⟨u₁, hu₁, hctx₁, hrec₁, hpay₁, hops₁, hmeta₁⟩ : ∃ u₁,
      (match p.receipt with
        | some (sequence, document) => t.insertReceipt sequence document
        | none => .ok t) = .ok u₁ ∧ u₁.context = t.context ∧
      u₁.receipts = Table.ofValues ((h'.journal authority).receipts.map receiptCell) ∧
      u₁.payloads = t.payloads ∧ u₁.operations = t.operations ∧ u₁.metadata = t.metadata := by
    rcases hreceipts with ⟨hnone, hreceipts⟩ | ⟨r, hsome, hreceipts⟩
    · rw [hnone, hreceipts]
      exact ⟨t, rfl, rfl, hstored.receipts, rfl, rfl, rfl⟩
    · have hinsert := CaseTables.insertReceipt_last hstored.receipts (canonicalBytes r.toDict)
      rw [List.length_map] at hinsert
      rw [hsome, hreceipts, List.map_append]
      exact ⟨_, hinsert, rfl, rfl, rfl, rfl, rfl⟩
  obtain ⟨u₂, hu₂, hctx₂, hrec₂, hpay₂, hops₂, hmeta₂⟩ : ∃ u₂,
      (match p.payload with
        | some row => u₁.insertPayload row
        | none => .ok u₁) = .ok u₂ ∧ u₂.context = u₁.context ∧ u₂.receipts = u₁.receipts ∧
      u₂.payloads = retainedRows h'.plan h'.records h'.retained ∧
      u₂.operations = u₁.operations ∧ u₂.metadata = u₁.metadata := by
    rcases hpayloads with ⟨hnone, hpayloads⟩ | ⟨row, hsome, hpayloads⟩
    · rw [hnone, hpayloads]
      exact ⟨u₁, rfl, rfl, rfl, hpay₁.trans hstored.payloads, rfl, rfl⟩
    · have hsorted := pairwise_retainedRows h'.plan h'.records h'.retained
      rw [hpayloads, List.pairwise_append] at hsorted
      obtain ⟨u₂, hu₂, hctx, hrec, hpay, hops, hmetadata⟩ := @CaseTables.insertPayload_last u₁ row (by
        intro r hr
        rw [hpay₁, hstored.payloads] at hr
        exact hsorted.2.2 r hr row (by simp))
      rw [hsome, hpayloads]
      exact ⟨u₂, hu₂, hctx, hrec, by rw [hpay, hpay₁, hstored.payloads], hops, hmetadata⟩
  obtain ⟨u₃, hu₃, hctx₃, hrec₃, hpay₃, hops₃, hmeta₃⟩ := @CaseTables.insertOperation_last u₂
    (h.state authority planHead).commits.length step.operationId.value raw (by
      intro x hx
      rw [hops₂, hops₁, hstored.operations] at hx
      exact OperationContext.key_lt_of_mem_rows x hx) (by
      rw [hops₂, hops₁]
      exact he.operationId_notMem hfits' hstored)
  refine ⟨{ u₃ with metadata := u₃.metadata.map fun _ => .blob p.metadata }, ?_, ?_, ?_, ?_, ?_, ?_⟩
  · simp only [CasePlanned.put, bind_eq_ok]
    refine ⟨u₁, hu₁, u₂, hu₂, u₃, ?_, rfl⟩
    rw [hoperation]
    exact hu₃
  · dsimp only
    rw [hctx₃, hctx₂, hctx₁, hstored.context, he.plan]
  · exact hrec₃.trans (hrec₂.trans hrec₁)
  · exact hpay₃.trans hpay₂
  · rw [hops₃, hops₂, hops₁, hstored.operations, he.rows, hraw]
  · dsimp only
    rw [hmeta₃, hmeta₂, hmeta₁, hstored.metadata, hmeta]
    rfl

omit [WideHex D] in
theorem length_steps_le (h : CaseHistory D) : h.steps.length ≤ 3 := by
  rw [steps]
  split <;> simp

/-- What the state counts. -/
theorem length_commits_state (h : CaseHistory D) :
    (h.state authority planHead).commits.length = h.steps.length := by
  rw [state, OperationContext.length_commits_run]
  exact Nat.zero_add _

theorem operationCount_run {c : OperationContext D} (hc : c.Pinned) {steps : List (CaseStep D)} :
    ∀ {s : OperationState D}, s.commits.length = s.checkpoint.operationCount → c.FitsAll s steps →
      (c.run s steps).commits.length = (c.run s steps).checkpoint.operationCount := by
  induction steps with
  | nil =>
    intro s hs _
    exact hs
  | cons step steps ih =>
    intro s hs hfits
    exact ih (OperationContext.length_apply hc hs hfits.1) hfits.2

theorem Fits.operationCount_eq (hfits : h.Fits authority planHead) :
    (h.state authority planHead).checkpoint.operationCount = h.steps.length := by
  rw [← length_commits_state]
  exact (operationCount_run hfits.pinned rfl hfits.steps).symm

/-- The identifiers of the commits are those of the steps. -/
theorem map_operationId_run {c : OperationContext D} {steps : List (CaseStep D)} :
    ∀ {s : OperationState D}, (c.run s steps).commits.map (·.operationId) =
      s.commits.map (·.operationId) ++ steps.map CaseStep.operationId := by
  induction steps with
  | nil =>
    intro s
    rw [OperationContext.run, List.map_nil, List.append_nil]
  | cons step steps ih =>
    intro s
    rw [OperationContext.run, ih]
    change (s.commits ++ [_]).map _ ++ _ = _
    rw [List.map_append, List.append_assoc]
    rfl

theorem map_operationId_state (h : CaseHistory D) :
    (h.state authority planHead).commits.map (·.operationId) = h.steps.map CaseStep.operationId := by
  rw [state, map_operationId_run]
  rfl

variable [DecidableEq D]

/-- **A write that plans the next step** succeeds, and returns the commit that is read from then
on. -/
theorem Extends.write (he : Extends authority planHead h h' step) (hfits : h.Fits authority planHead)
    (hfits' : h'.Fits authority planHead) (hstored : h.Stored authority planHead t)
    {w : CaseWrite D} (hdetails : w.details = step.details)
    (hoperation : w.operationId = step.operationId) (hrequest : w.requestId = step.requestId)
    (hexpected : w.expected = (h.state authority planHead).checkpoint)
    (houtcome : w.outcome authority (h.read authority planHead) =
      .ok (h'.journal authority, step.pending))
    {artifact : Option (Identifier × Bytes)} (hartifact : w.outputArtifact = .ok artifact)
    (hreceipts : (w.record = none ∧
        (h'.journal authority).receipts = (h.journal authority).receipts) ∨
      w.record.isSome = true ∧ ∃ r,
        (h'.journal authority).receipts = (h.journal authority).receipts ++ [r])
    (hpayloads : (artifact = none ∧
        retainedRows h'.plan h'.records h'.retained = retainedRows h.plan h.records h.retained) ∨
      ∃ a bytes, artifact = some (a, bytes) ∧ retainedRows h'.plan h'.records h'.retained =
        retainedRows h.plan h.records h.retained ++
          [payloadRow "output" a (sha256 bytes : D) bytes])
    (hobserved : (if w.output.isSome then w.output else h.output) = step.observed h'.output) :
    ∃ u commit, alone true (writeAction authority planHead w) t = (.ok commit, u) ∧
      h'.Stored authority planHead u ∧
      (h'.state authority planHead).commits = (h.state authority planHead).commits ++ [commit] := by
  have hread : readCase authority planHead t = .ok (h.read authority planHead) :=
    readCase_eq_ok.mpr ⟨h, hfits, hstored, rfl⟩
  have hlength : h'.steps.length = h.steps.length + 1 := by
    rw [he.steps, List.length_append, List.length_singleton]
  have hcount := hfits.operationCount_eq
  have hlt : h.steps.length < 3 := by
    have hsteps := h'.length_steps_le
    omega
  have hjournal : 1 ≤ (h'.journal authority).receipts.length ∧
      (h'.journal authority).receipts.length ≤ 3 := by
    rw [length_journal]
    exact h'.length_records
  have hnew : ∀ commit ∈ (h.state authority planHead).commits,
      commit.operationId ≠ w.operationId := by
    intro commit hcommit heq
    have hmem : commit.operationId ∈ h.steps.map CaseStep.operationId := by
      have hids : (h.state authority planHead).commits.map (·.operationId) =
          h.steps.map CaseStep.operationId := h.map_operationId_state
      rw [← hids]
      exact List.mem_map_of_mem hcommit
    have hdistinct := hfits'.distinct
    rw [he.steps, List.map_append, List.nodup_append] at hdistinct
    exact hdistinct.2.2 _ hmem step.operationId (by simp) (heq.trans hoperation)
  have hoperationOk := @CaseStep.caseOperation_eq D _ _ (h.state authority planHead).checkpoint
    (h'.journal authority) (by omega) hjournal step
  have hprepared : ∃ planned, prepareWrite authority w (h.read authority planHead) = .ok planned ∧
      planned.commit = ⟨step.operationId, caseRequestDigest step.details step.operationId
        step.requestId (h.state authority planHead).checkpoint,
        (h.state authority planHead).checkpoint, ⟨h'.journal authority,
          step.after (h.state authority planHead).checkpoint (h'.journal authority), h.assertion,
          h.input, step.observed h'.output, step.pending⟩⟩ ∧
      planned.receipt = (if w.record.isSome then
        (h'.journal authority).receipts.getLast?.map fun r =>
          ((h'.journal authority).receipts.length - 1, canonicalBytes r.toDict) else none) ∧
      planned.payload = artifact.map (fun row =>
        payloadRow "output" row.1 (sha256 row.2 : D) row.2) ∧
      planned.operation = ((h.state authority planHead).checkpoint.operationCount,
        step.operationId.value, canonicalBytes (.obj (storedNode step.details step.operationId
          step.requestId (h.state authority planHead).checkpoint
          (h'.journal authority).receipts.length (h'.journal authority).headDigest))) ∧
      planned.metadata = canonicalBytes
        (step.after (h.state authority planHead).checkpoint (h'.journal authority)).toDict := by
    simp only [prepareWrite, bind_eq_ok]
    refine ⟨_, ⟨(), require_of hnew, (), require_of hexpected.symm, (), valid_of ?_,
      (h'.journal authority, step.pending), houtcome, (canonicalBytes (.obj (storedNode step.details
        step.operationId step.requestId (h.state authority planHead).checkpoint
        (h'.journal authority).receipts.length (h'.journal authority).headDigest)),
      step.after (h.state authority planHead).checkpoint (h'.journal authority)), ?_,
      artifact, hartifact, rfl⟩, ?_, rfl, rfl, ?_, rfl⟩
    · change (h.state authority planHead).checkpoint.operationCount < 3
      omega
    · rw [hdetails, hoperation, hrequest]
      exact hoperationOk
    · simp only [hdetails, hoperation, hrequest, hexpected, ← hobserved]
      rfl
    · simp only [hoperation]
      rfl
  obtain ⟨planned, hplanned, hcommit, hreceipt, hpayload, hoperation', hmeta⟩ := hprepared
  have hstate := he.state
  obtain ⟨u, hput, hstored'⟩ : ∃ u, planned.put t = .ok u ∧ h'.Stored authority planHead u := by
    refine he.put hfits' hstored ?_ ?_ (hoperation'.trans ?_) rfl ?_
    · rcases hreceipts with ⟨hnone, hsame⟩ | ⟨hsome, r, hnext⟩
      · exact .inl ⟨by rw [hreceipt, hnone]; rfl, hsame⟩
      · refine .inr ⟨r, ?_, hnext⟩
        rw [hreceipt, if_pos hsome, hnext, List.getLast?_concat, List.length_append]
        rfl
    · rcases hpayloads with ⟨rfl, hsame⟩ | ⟨a, bytes, rfl, hnext⟩
      · exact .inl ⟨hpayload, hsame⟩
      · exact .inr ⟨_, hpayload, hnext⟩
    · rw [hcount, length_commits_state]
    · rw [hmeta, hstate]
      rfl
  refine ⟨u, planned.commit, write_eq_ok.mpr ⟨_, planned, hread, hplanned, hput, rfl⟩, hstored', ?_⟩
  rw [hstate, hcommit]
  change _ ++ [_] = _
  rw [← he.assertion, ← he.input]
  rfl

/-! ## One more record -/

omit [DecidableEq D] in
theorem length_added_le {r : CaseRecord D} (h : CaseHistory D) :
    (h.journal authority).receipts.length + [r].length ≤ maxCaseRecords := by
  have hlength := h.length_records
  rw [length_journal, List.length_singleton, maxCaseRecords]
  omega

omit [WideHex D] in
theorem replayable_iff {journal : CaseJournal D} :
    (∃ state, replayCase journal authority none = .ok state) ↔
      journal.authorityDigest = authority.digest ∧
        ∃ progress, SoundCase authority journal.records progress := by
  simp only [replayCase_eq_ok]
  constructor
  · rintro ⟨_, hauthority, -, progress, hsound, -⟩
    exact ⟨hauthority, progress, hsound⟩
  · rintro ⟨hauthority, progress, hsound⟩
    exact ⟨_, hauthority, by simp, progress, hsound, rfl⟩

/-- **Appending a record** to the journal of a case gives the journal of the next one, where the
records are sound. -/
theorem append_eq_ok {r : CaseRecord D} (hsound : ∃ progress, SoundCase authority h.records progress)
    (hreceipts : (h'.journal authority).receipts = (h.journal authority).receipts ++
      chainRecords (h.journal authority).receipts.length (h.journal authority).headDigest [r]
        h.length_added_le) {journal : CaseJournal D} :
    (h.journal authority).append [r] authority (some (h.journal authority).checkpoint) =
      .ok journal ↔ journal = h'.journal authority ∧
        ∃ progress, SoundCase authority h'.records progress := by
  have hbefore : ∃ state, replayCase (h.journal authority) authority none = .ok state :=
    replayable_iff.mpr ⟨rfl, by rwa [records_journal]⟩
  simp only [CaseJournal.append, bind_eq_ok, valid_eq_ok, exists_unit,
    sealRecords_eq h.length_added_le, Except.ok.injEq, CaseJournal.make_eq_ok]
  constructor
  · rintro ⟨_, -, -, -, added, rfl, candidate, ⟨hauthority, hadded⟩, _, hafter, rfl⟩
    have heq : candidate = h'.journal authority :=
      CaseJournal.ext_fields hauthority (hadded.trans hreceipts.symm)
    have hnext := (replayable_iff.mp ⟨_, hafter⟩).2
    rw [heq, records_journal] at hnext
    exact ⟨heq, hnext⟩
  · rintro ⟨rfl, hnext⟩
    obtain ⟨before, hbefore⟩ := hbefore
    obtain ⟨after, hafter⟩ : ∃ state, replayCase (h'.journal authority) authority none = .ok state :=
      replayable_iff.mpr ⟨rfl, by rwa [records_journal]⟩
    exact ⟨before, hbefore, ⟨by simp, h.length_added_le⟩, by simp, _, rfl, h'.journal authority,
      ⟨rfl, hreceipts⟩, after, hafter, rfl⟩

omit [WideHex D] in
/-- What a write that is planned has checked. -/
theorem of_prepareWrite {w : CaseWrite D} {current : CaseRead D} {planned : CasePlanned D}
    (hplanned : prepareWrite authority w current = .ok planned) :
    (∀ commit ∈ current.operations, commit.operationId ≠ w.operationId) ∧
      current.snapshot.checkpoint = w.expected ∧
      ∃ outcome, w.outcome authority current = .ok outcome := by
  simp only [prepareWrite, bind_eq_ok, require_eq_ok, exists_unit] at hplanned
  obtain ⟨hnew, hexpected, -, outcome, houtcome, -⟩ := hplanned
  exact ⟨hnew, hexpected, outcome, houtcome⟩

omit [DecidableEq D] in
/-- The identifiers stay distinct when the next one is new. -/
theorem Fits.distinct_next (hfits : h.Fits authority planHead)
    (hnew : ∀ commit ∈ (h.state authority planHead).commits,
      commit.operationId ≠ step.operationId) :
    ((h.steps ++ [step]).map CaseStep.operationId).Nodup := by
  rw [List.map_append]
  refine List.nodup_append.mpr ⟨hfits.distinct, List.nodup_singleton _, ?_⟩
  intro i hi j hj
  rw [List.map_singleton, List.mem_singleton] at hj
  have hids : (h.state authority planHead).commits.map (·.operationId) =
      h.steps.map CaseStep.operationId := h.map_operationId_state
  rw [← hids] at hi
  obtain ⟨commit, hcommit, rfl⟩ := List.mem_map.mp hi
  rw [hj]
  exact hnew commit hcommit

/-! ## The three writes -/

variable {plan : CasePlan D} {assertion input : Bytes}

/-- The write of a claim. -/
theorem write_claim {requestId observerId : Identifier}
    (hfits : Fits authority planHead ⟨plan, assertion, input, .created⟩)
    (hfits' : Fits authority planHead ⟨plan, assertion, input, .claimed requestId observerId⟩)
    (hstored : Stored authority planHead ⟨plan, assertion, input, .created⟩ t) :
    ∃ u commit, alone true (writeAction authority planHead (claimWrite requestId
        (state authority planHead ⟨plan, assertion, input, .created⟩).checkpoint
        ⟨plan.testId, plan.adapterId, plan.adapterVersion, observerId⟩)) t = (.ok commit, u) ∧
      Stored authority planHead ⟨plan, assertion, input, .claimed requestId observerId⟩ u ∧
      (state authority planHead ⟨plan, assertion, input, .claimed requestId observerId⟩).commits =
        (state authority planHead ⟨plan, assertion, input, .created⟩).commits ++ [commit] := by
  refine extends_claim.write hfits hfits' hstored rfl rfl rfl rfl ?_ rfl (.inl ⟨rfl, rfl⟩)
    (.inl ⟨rfl, rfl⟩) rfl
  simp only [CaseWrite.outcome, claimWrite, bind_eq_ok]
  exact ⟨(), require_of ⟨rfl, rfl⟩, rfl⟩

/-- The write of a finish. -/
theorem write_finish {f : CaseFinish D}
    (hfits : Fits authority planHead
      ⟨plan, assertion, input, .claimed f.observation.requestId f.observerId⟩)
    (hfits' : Fits authority planHead ⟨plan, assertion, input, .finished f⟩)
    (hstored : Stored authority planHead
      ⟨plan, assertion, input, .claimed f.observation.requestId f.observerId⟩ t) :
    ∃ u commit, alone true (writeAction authority planHead (finishWrite f.operationId
        f.observation.requestId (state authority planHead
          ⟨plan, assertion, input, .claimed f.observation.requestId f.observerId⟩).checkpoint
        f.observation f.output)) t = (.ok commit, u) ∧
      Stored authority planHead ⟨plan, assertion, input, .finished f⟩ u ∧
      (state authority planHead ⟨plan, assertion, input, .finished f⟩).commits =
        (state authority planHead
          ⟨plan, assertion, input, .claimed f.observation.requestId f.observerId⟩).commits ++
          [commit] := by
  obtain ⟨observerId, operationId, o, output⟩ := f
  have houtput : OutputFits o output := hfits'.retained.output
  have houtcome : (finishWrite operationId o.requestId (state authority planHead
      ⟨plan, assertion, input, .claimed o.requestId observerId⟩).checkpoint o output).outcome authority
        (read authority planHead ⟨plan, assertion, input, .claimed o.requestId observerId⟩) =
      .ok (journal authority ⟨plan, assertion, input, .finished ⟨observerId, operationId, o, output⟩⟩,
        none) := by
    simp only [CaseWrite.outcome, finishWrite, bind_eq_ok]
    exact ⟨(), require_of ⟨rfl, rfl⟩, _,
      (append_eq_ok hfits.sound rfl).mpr ⟨rfl, hfits'.sound⟩, rfl⟩
  cases output with
  | none =>
    refine extends_finish.write hfits hfits' hstored rfl rfl rfl rfl houtcome rfl
      (.inr ⟨rfl, _, rfl⟩) (.inl ⟨rfl, ?_⟩) rfl
    change _ ++ outputRows (some o) none = _ ++ outputRows none none
    rw [outputRows_none]
    rfl
  | some bytes =>
    obtain ⟨a, d, ha, hd⟩ := CaseObservation.output_some (houtput.observed_iff.mpr rfl)
    have hartifact : (finishWrite operationId o.requestId (state authority planHead
        ⟨plan, assertion, input, .claimed o.requestId observerId⟩).checkpoint o
          (some bytes)).outputArtifact = .ok (some (a, bytes)) := by
      simp only [CaseWrite.outputArtifact, finishWrite, ha]
      rfl
    refine extends_finish.write hfits hfits' hstored rfl rfl rfl rfl houtcome hartifact
      (.inr ⟨rfl, _, rfl⟩) (.inr ⟨a, bytes, rfl, ?_⟩) rfl
    change _ ++ outputRows (some o) (some bytes) = _ ++ outputRows none none ++ _
    rw [outputRows_some ha]
    rfl

/-- The write of a verdict. -/
theorem write_verdict {f : CaseFinish D} {operationId : Identifier} {v : CaseVerdict D}
    (hfits : Fits authority planHead ⟨plan, assertion, input, .finished f⟩)
    (hfits' : Fits authority planHead ⟨plan, assertion, input, .verdicted f operationId v⟩)
    (hstored : Stored authority planHead ⟨plan, assertion, input, .finished f⟩ t) :
    ∃ u commit, alone true (writeAction authority planHead (verdictWrite operationId
        f.observation.requestId
        (state authority planHead ⟨plan, assertion, input, .finished f⟩).checkpoint v)) t =
          (.ok commit, u) ∧
      Stored authority planHead ⟨plan, assertion, input, .verdicted f operationId v⟩ u ∧
      (state authority planHead ⟨plan, assertion, input, .verdicted f operationId v⟩).commits =
        (state authority planHead ⟨plan, assertion, input, .finished f⟩).commits ++ [commit] := by
  refine extends_verdict.write hfits hfits' hstored rfl rfl rfl rfl ?_ rfl
    (.inr ⟨rfl, _, rfl⟩) (.inl ⟨rfl, rfl⟩) rfl
  simp only [CaseWrite.outcome, verdictWrite, bind_eq_ok]
  exact ⟨(), require_of rfl, _, (append_eq_ok hfits.sound rfl).mpr ⟨rfl, hfits'.sound⟩, rfl⟩

end CaseHistory

end Next

end EvidenceBraid
