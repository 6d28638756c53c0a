import EvidenceBraid.CaseLookup

/-!
# The callback of a case runs at most once

Any number of callers run `execute_observation` on one case database, as often as they like, while
other handles write whatever they want. Transactions may be disturbed anywhere, and a caller may stop
at any time. The adapter's callback is entered at most once, by the caller whose claim was committed
and acknowledged (`callback_once`).

**The invariant** (`ObservationSystem.Once`). A claim is acknowledged only on tables without
operations, and leaves one there for good; so there is at most one acknowledged claim, and its caller
has entered the callback or is about to.
-/

namespace EvidenceBraid

open Hashing Transaction Sqlite

variable {D : Type} [Hashing D]

/-! ## Rows of operations -/

/-- The table of operations holds one with this identifier. -/
def HoldsOperation (t : CaseTables) (operationId : Identifier) : Prop :=
  ∃ n document, (n, .text (Utf8.encode operationId.value.toList), document) ∈ t.operations.rows

/-- A write that is put into the tables keeps the rows of operations, and adds its own. -/
theorem CasePlanned.rows_of_put {p : CasePlanned D} {t u : CaseTables} (h : p.put t = .ok u) :
    (∀ row ∈ t.operations.rows, row ∈ u.operations.rows) ∧
      (p.operation.1, .text (Utf8.encode p.operation.2.1.toList), .blob p.operation.2.2) ∈
        u.operations.rows := by
  simp only [CasePlanned.put, bind_eq_ok] at h
  obtain ⟨t₁, hreceipt, t₂, hpayload, t₃, hoperation, hmeta⟩ := h
  have hrows₁ : t₁.operations = t.operations := by
    split at hreceipt
    · simp only [CaseTables.insertReceipt, bind_eq_ok, Except.ok.injEq] at hreceipt
      obtain ⟨_, -, rfl⟩ := hreceipt
      rfl
    · cases hreceipt
      rfl
  have hrows₂ : t₂.operations = t₁.operations := by
    split at hpayload
    · simp only [CaseTables.insertPayload] at hpayload
      split at hpayload
      · cases hpayload
        rfl
      · cases hpayload
    · cases hpayload
      rfl
  simp only [CaseTables.insertOperation, bind_eq_ok, orError_eq_ok] at hoperation
  obtain ⟨operations, hinsert, hoperation⟩ := hoperation
  have hrows₃ : u.operations = operations := by
    split at hoperation
    · cases hoperation
      cases hmeta
      rfl
    · cases hoperation
  rw [hrows₂, hrows₁] at hinsert
  have hperm := Table.insert_eq_some hinsert
  rw [hrows₃]
  exact ⟨fun row hrow => hperm.mem_iff.mpr (List.mem_cons_of_mem _ hrow),
    hperm.mem_iff.mpr List.mem_cons_self⟩

variable [DecidableEq D] {authority : CaseAuthority} {planHead : D} {t u : CaseTables}

/-- A transaction of a write, whatever it ends with, keeps the rows of operations. -/
theorem rows_of_transact (faults : Faults) (w : CaseWrite D) (t : CaseTables) :
    ∀ row ∈ t.operations.rows,
      row ∈ (transact faults true (writeAction authority planHead w) t).2.operations.rows := by
  rcases (transact_write authority planHead faults w t).2 with h | ⟨commit, h⟩
  · rw [h]
    exact fun _ hrow => hrow
  · obtain ⟨r, planned, -, -, hput, -⟩ := write_eq_ok.mp h
    exact (CasePlanned.rows_of_put hput).1

theorem HoldsOperation.transact {operationId : Identifier} (h : HoldsOperation t operationId)
    (faults : Faults) (w : CaseWrite D) :
    HoldsOperation (transact faults true (writeAction authority planHead w) t).2 operationId := by
  obtain ⟨n, document, hrow⟩ := h
  exact ⟨n, document, rows_of_transact faults w t _ hrow⟩

/-- **A claim that returns** found tables without operations, and has left its own there. -/
theorem claim_returned [WideHex D] {requestId : Identifier} {expected : CaseStoreCheckpoint D}
    {key : AdapterKey} {faults : Faults} {commit : CaseStoreCommit D}
    (h : transact faults true (writeAction authority planHead (claimWrite requestId expected key)) t =
      (.ok commit, u)) :
    t.operations.rows = [] ∧ commit.operationId = requestId ∧ HoldsOperation u requestId := by
  have halone := (transact_write authority planHead faults _ t).1 commit (by rw [h])
  rw [h] at halone
  obtain ⟨r, planned, hread, hplanned, hput, rfl⟩ := write_eq_ok.mp halone
  obtain ⟨history, hfits, hstored, rfl⟩ := readCase_eq_ok.mp hread
  simp only [prepareWrite, bind_eq_ok, Except.ok.injEq] at hplanned
  obtain ⟨_, -, _, -, _, -, ⟨journal, pending⟩, hplanned⟩ := hplanned
  obtain ⟨houtcome, ⟨raw, after⟩, -, artifact, -, rfl⟩ := hplanned
  simp only [CaseWrite.outcome, claimWrite, bind_eq_ok, require_eq_ok, exists_unit] at houtcome
  have hcount : history.steps.length = 0 := hfits.operationCount_eq.symm.trans houtcome.1.1
  refine ⟨?_, rfl, _, _, (CasePlanned.rows_of_put hput).2⟩
  rw [hstored.operations, List.length_eq_zero_iff.mp hcount]
  rfl

/-- A claim leaves the journal as it was read. -/
theorem claim_journal {requestId : Identifier} {expected : CaseStoreCheckpoint D} {key : AdapterKey}
    {commit : CaseStoreCommit D}
    (h : alone true (writeAction authority planHead (claimWrite requestId expected key)) t =
      (.ok commit, u)) :
    ∃ r, readCase authority planHead t = .ok r ∧
      commit.result.journal = r.snapshot.journal := by
  obtain ⟨r, planned, hread, hplanned, -, rfl⟩ := write_eq_ok.mp h
  simp only [prepareWrite, bind_eq_ok, Except.ok.injEq] at hplanned
  obtain ⟨_, -, _, -, _, -, ⟨journal, pending⟩, hplanned⟩ := hplanned
  obtain ⟨houtcome, _, -, _, -, rfl⟩ := hplanned
  simp only [CaseWrite.outcome, claimWrite, bind_eq_ok, Except.ok.injEq, Prod.mk.injEq] at houtcome
  obtain ⟨-, -, rfl, -⟩ := houtcome
  exact ⟨r, hread, rfl⟩

/-! ## Callers -/

/-- What the adapter's callback ends with. -/
inductive CallbackResult where
  | returned (output : Option Bytes)
  | unavailable
  | failed
  | control

/-- What becomes of the callback: a status, an error code and an output. -/
structure Finding where
  status : CaseObservationStatus
  errorCode : Option Identifier
  output : Option Bytes

/-- The handlers around the callback. `total` counts the bytes that are retained already. A value
that is no bytes object is `returned none`, and a control exception is not handled. -/
def findingOf (total : ℕ) : CallbackResult → Option Finding
  | .returned output =>
    match orError output (.validation "adapter output must be bounded built-in bytes") >>= fun raw =>
        checkedOutput raw total with
    | .ok raw => some ⟨.observed, none, some raw⟩
    | .error _ => some ⟨.error, some ⟨"invalid_adapter_output", Eq.refl true⟩, none⟩
  | .unavailable => some ⟨.unavailable, some ⟨"adapter_unavailable", Eq.refl true⟩, none⟩
  | .failed => some ⟨.error, some ⟨"adapter_error", Eq.refl true⟩, none⟩
  | .control => none

/-- The arguments of `execute_observation`. -/
structure ObservationRequest (D : Type) [Hashing D] where
  registry : ObservationRegistry
  requestId : Identifier
  finishId : Identifier
  expected : CaseStoreCheckpoint D
  distinct : finishId ≠ requestId

/-- How far a caller has come in `execute_observation`. -/
inductive ObservationPhase (D : Type) [Hashing D] where
  | idle
  | selected (q : ObservationRequest D) (key : AdapterKey)
  | claimed (q : ObservationRequest D) (commit : CaseStoreCommit D)
  | observing (q : ObservationRequest D) (commit : CaseStoreCommit D)
  | found (q : ObservationRequest D) (commit : CaseStoreCommit D) (f : Finding)
  | finishing (q : ObservationRequest D) (commit : CaseStoreCommit D) (f : Finding)
    (snapshot : StoredCase D)
  | bound (q : ObservationRequest D) (commit : CaseStoreCommit D) (o : CaseObservation D)
    (output : Option Bytes)

/-- The tables, the callers, the claims that were acknowledged to a caller, and the callers that have
entered the callback. -/
structure ObservationSystem (ι D : Type) [Hashing D] where
  tables : CaseTables
  phase : ι → ObservationPhase D
  acknowledged : List (ι × CaseStoreCommit D)
  entered : List (ι × CaseStoreCommit D)

namespace ObservationSystem

variable {ι : Type} [DecidableEq ι]

/-- Nobody has begun. -/
def start (t : CaseTables) : ObservationSystem ι D := ⟨t, fun _ => .idle, [], []⟩

/-- The system with a caller in another phase. -/
def moved (s : ObservationSystem ι D) (i : ι) (p : ObservationPhase D) : ObservationSystem ι D :=
  { s with phase := Function.update s.phase i p }

variable (authority : CaseAuthority) (planHead : D)

/-- One step. A transaction is one step; between any two steps of a caller the others go on. -/
inductive Step : ObservationSystem ι D → ObservationSystem ι D → Prop
  | select {s : ObservationSystem ι D} (i : ι) (q : ObservationRequest D) (faults : Faults)
    {snapshot : StoredCase D} {key : AdapterKey} (hi : s.phase i = .idle)
    (hsnapshot : (transact faults false
      (snapshotAction authority planHead (some q.expected)) s.tables).1 = .ok snapshot)
    (hkey : claimOf authority planHead q.registry snapshot = .ok key) :
    Step s (s.moved i (.selected q key))
  | claim {s : ObservationSystem ι D} (i : ι) {q : ObservationRequest D} {key : AdapterKey}
    (faults : Faults) {commit : CaseStoreCommit D} {u : CaseTables} (hi : s.phase i = .selected q key)
    (hclaim : transact faults true (writeAction authority planHead
      (claimWrite q.requestId q.expected key)) s.tables = (.ok commit, u)) :
    Step s { s.moved i (.claimed q commit) with
      tables := u
      acknowledged := (i, commit) :: s.acknowledged }
  | claimLost {s : ObservationSystem ι D} (i : ι) {q : ObservationRequest D} {key : AdapterKey}
    (faults : Faults) (hi : s.phase i = .selected q key) :
    Step s { s.moved i .idle with
      tables := (transact faults true (writeAction authority planHead
        (claimWrite q.requestId q.expected key)) s.tables).2 }
  | enter {s : ObservationSystem ι D} (i : ι) {q : ObservationRequest D}
    {commit : CaseStoreCommit D} {plan : CasePlan D} {key : AdapterKey}
    (hi : s.phase i = .claimed q commit) (hplan : planOf commit.result.journal = .ok plan)
    (hkey : q.registry.select plan authority = .ok key) :
    Step s { s.moved i (.observing q commit) with entered := (i, commit) :: s.entered }
  | callback {s : ObservationSystem ι D} (i : ι) {q : ObservationRequest D}
    {commit : CaseStoreCommit D} (result : CallbackResult) {f : Finding}
    (hi : s.phase i = .observing q commit)
    (hf : findingOf (commit.result.assertionBytes.length + commit.result.inputBytes.length) result =
      some f) :
    Step s (s.moved i (.found q commit f))
  | finish {s : ObservationSystem ι D} (i : ι) {q : ObservationRequest D}
    {commit : CaseStoreCommit D} {f : Finding} (faults : Faults) {snapshot : StoredCase D}
    (hi : s.phase i = .found q commit f)
    (hsnapshot : (transact faults false
      (snapshotAction authority planHead (some commit.result.checkpoint)) s.tables).1 =
        .ok snapshot) :
    Step s (s.moved i (.finishing q commit f snapshot))
  | bind {s : ObservationSystem ι D} (i : ι) {q : ObservationRequest D}
    {commit : CaseStoreCommit D} {f : Finding} {snapshot : StoredCase D} (faults : Faults)
    {claimed : Option AdapterKey} {o : CaseObservation D} {output : Option Bytes}
    (hi : s.phase i = .finishing q commit f snapshot)
    (hclaimed : (transact faults false (claimedKeyAction authority planHead) s.tables).1 =
      .ok claimed)
    (hfinish : finishOf snapshot claimed q.requestId f.output f.status f.errorCode =
      .ok (o, output)) :
    Step s (s.moved i (.bound q commit o output))
  | returned {s : ObservationSystem ι D} (i : ι) {q : ObservationRequest D}
    {commit : CaseStoreCommit D} {o : CaseObservation D} {output : Option Bytes} (faults : Faults)
    (hi : s.phase i = .bound q commit o output) :
    Step s { s.moved i .idle with
      tables := (transact faults true (writeAction authority planHead
        (finishWrite q.finishId q.requestId commit.result.checkpoint o output)) s.tables).2 }
  /-- An exception or a crash. -/
  | stop {s : ObservationSystem ι D} (i : ι) : Step s (s.moved i .idle)
  /-- `claim_observation`, `finish_observation` or any other write. -/
  | write {s : ObservationSystem ι D} (faults : Faults) (w : CaseWrite D) :
    Step s { s with tables := (transact faults true (writeAction authority planHead w) s.tables).2 }
  | lookup {s : ObservationSystem ι D} (faults : Faults) (operationId : Identifier)
    (requestDigest : String) :
    Step s { s with tables := (transact faults false
      (lookupAction authority planHead operationId requestDigest) s.tables).2 }

/-- Any number of steps. -/
def Run : ObservationSystem ι D → ObservationSystem ι D → Prop :=
  Relation.ReflTransGen (Step authority planHead)

/-! ## The invariant -/

/-- At most one claim was acknowledged, its operation is in the tables, and its caller has entered
the callback or is the one that waits for it. -/
structure Once (s : ObservationSystem ι D) : Prop where
  acknowledged : s.acknowledged.length ≤ 1
  stored : ∀ x ∈ s.acknowledged, HoldsOperation s.tables x.2.operationId
  waiting : ∀ i q commit, s.phase i = .claimed q commit →
    s.acknowledged = [(i, commit)] ∧ s.entered = []
  entered : s.entered = [] ∨ s.entered = s.acknowledged

variable {authority planHead} {s s' : ObservationSystem ι D}

omit [DecidableEq D] [DecidableEq ι] in
theorem once_start (t : CaseTables) : (start t : ObservationSystem ι D).Once where
  acknowledged := Nat.zero_le _
  stored := fun _ hx => absurd hx List.not_mem_nil
  waiting := by
    intro i q commit hi
    have hidle : ObservationPhase.idle = .claimed q commit := hi
    simp at hidle
  entered := .inl rfl

omit [DecidableEq D] in
/-- A caller that moves on, but not to a claim, and tables that keep their operations. -/
theorem Once.move (hs : s.Once) (i : ι) {p : ObservationPhase D}
    (hp : ∀ q commit, p ≠ .claimed q commit) {u : CaseTables}
    (hrows : ∀ operationId, HoldsOperation s.tables operationId → HoldsOperation u operationId) :
    Once { s.moved i p with tables := u } where
  acknowledged := hs.acknowledged
  stored := fun x hx => hrows _ (hs.stored x hx)
  waiting := by
    intro j q commit hj
    have hj' : Function.update s.phase i p j = .claimed q commit := hj
    by_cases hij : j = i
    · rw [hij, Function.update_self] at hj'
      exact absurd hj' (hp q commit)
    · rw [Function.update_of_ne hij] at hj'
      exact hs.waiting j q commit hj'
  entered := hs.entered

omit [DecidableEq D] [DecidableEq ι] in
theorem Once.tables (hs : s.Once) {u : CaseTables}
    (hrows : ∀ operationId, HoldsOperation s.tables operationId → HoldsOperation u operationId) :
    Once { s with tables := u } :=
  ⟨hs.acknowledged, fun x hx => hrows _ (hs.stored x hx), hs.waiting, hs.entered⟩

/-- **A claim that is acknowledged** is the first one. -/
theorem Once.claim [WideHex D] (hs : s.Once) (i : ι) {q : ObservationRequest D} {key : AdapterKey}
    {faults : Faults} {commit : CaseStoreCommit D} {u : CaseTables}
    (hclaim : transact faults true (writeAction authority planHead
      (claimWrite q.requestId q.expected key)) s.tables = (.ok commit, u)) :
    Once { s.moved i (.claimed q commit) with
      tables := u
      acknowledged := (i, commit) :: s.acknowledged } := by
  obtain ⟨hempty, hid, hholds⟩ := claim_returned hclaim
  have hfirst : s.acknowledged = [] := by
    rw [List.eq_nil_iff_forall_not_mem]
    intro x hx
    obtain ⟨n, document, hrow⟩ := hs.stored x hx
    rw [hempty] at hrow
    cases hrow
  have hentered : s.entered = [] := hs.entered.elim id fun h => h.trans hfirst
  refine ⟨?_, ?_, ?_, .inl hentered⟩
  · rw [hfirst]
    exact le_rfl
  · intro x hx
    rw [hfirst, List.mem_singleton] at hx
    rw [hx, hid]
    exact hholds
  · intro j r c hj
    have hj' : Function.update s.phase i (.claimed q commit) j = .claimed r c := hj
    by_cases hij : j = i
    · rw [hij, Function.update_self] at hj'
      cases hj'
      exact ⟨by rw [hfirst, hij], hentered⟩
    · rw [Function.update_of_ne hij] at hj'
      have hone := (hs.waiting j r c hj').1
      rw [hfirst] at hone
      cases hone

omit [DecidableEq D] in
/-- **Who enters the callback** is the caller of the acknowledged claim. -/
theorem Once.enter (hs : s.Once) (i : ι) {q : ObservationRequest D} {commit : CaseStoreCommit D}
    (hi : s.phase i = .claimed q commit) :
    Once { s.moved i (.observing q commit) with entered := (i, commit) :: s.entered } := by
  obtain ⟨hone, hnone⟩ := hs.waiting i q commit hi
  refine ⟨hs.acknowledged, hs.stored, ?_, .inr ?_⟩
  · intro j r c hj
    have hj' : Function.update s.phase i (.observing q commit) j = .claimed r c := hj
    by_cases hij : j = i
    · rw [hij, Function.update_self] at hj'
      cases hj'
    · rw [Function.update_of_ne hij] at hj'
      have hother := (hs.waiting j r c hj').1
      rw [hone] at hother
      exact absurd (Prod.mk.inj (List.cons.inj hother).1).1.symm hij
  · change (i, commit) :: s.entered = s.acknowledged
    rw [hone, hnone]

/-- **A step** keeps the invariant. -/
theorem Once.step [WideHex D] (hs : s.Once) (hstep : Step authority planHead s s') : s'.Once := by
  have hsame : ∀ operationId, HoldsOperation s.tables operationId →
      HoldsOperation s.tables operationId := fun _ h => h
  cases hstep with
  | select i q faults hi hsnapshot hkey => exact hs.move i (by simp) hsame
  | claim i faults hi hclaim => exact hs.claim i hclaim
  | claimLost i faults hi => exact hs.move i (by simp) fun _ h => h.transact faults _
  | enter i hi hplan hkey => exact hs.enter i hi
  | callback i result hi hf => exact hs.move i (by simp) hsame
  | finish i faults hi hsnapshot => exact hs.move i (by simp) hsame
  | bind i faults hi hclaimed hfinish => exact hs.move i (by simp) hsame
  | returned i faults hi => exact hs.move i (by simp) fun _ h => h.transact faults _
  | stop i => exact hs.move i (by simp) hsame
  | write faults w => exact hs.tables fun _ h => h.transact faults w
  | lookup faults operationId requestDigest =>
    rw [transact_reading (caseComputes_lookupAction authority planHead operationId requestDigest)]
    exact hs.tables hsame

/-- **A run** keeps the invariant. -/
theorem Once.run [WideHex D] (hs : s.Once) (hrun : Run authority planHead s s') : s'.Once := by
  induction hrun with
  | refl => exact hs
  | tail _ hstep ih => exact ih.step hstep

end ObservationSystem

/-! ## The result -/

/-- **The callback is entered at most once** over a whole run, on any tables. A step that enters it is
taken by a caller to whom the claim was acknowledged, with the claim's operation in the tables. -/
theorem callback_once [WideHex D] {ι : Type} [DecidableEq ι] (authority : CaseAuthority)
    (planHead : D) {s : ObservationSystem ι D}
    (hrun : ObservationSystem.Run authority planHead (.start t) s) :
    s.entered.length ≤ 1 ∧
      ∀ s', ObservationSystem.Step authority planHead s s' → s'.entered ≠ s.entered →
        s.entered = [] ∧ ∃ i q commit, s.phase i = .claimed q commit ∧
          s'.entered = [(i, commit)] ∧ s.acknowledged = [(i, commit)] ∧
            HoldsOperation s.tables commit.operationId := by
  have hs := (ObservationSystem.once_start t).run hrun
  constructor
  · rcases hs.entered with h | h
    · rw [h]
      exact Nat.zero_le _
    · rw [h]
      exact hs.acknowledged
  · intro s' hstep hne
    cases hstep with
    | @enter i q commit plan key hi hplan hkey =>
      obtain ⟨hone, hnone⟩ := hs.waiting i q commit hi
      refine ⟨hnone, i, q, commit, hi, ?_, hone, hs.stored (i, commit) ?_⟩
      · change (i, commit) :: s.entered = _
        rw [hnone]
      · rw [hone]
        exact List.mem_singleton_self _
    | select | claim | claimLost | callback | finish | bind | returned | stop | write | lookup =>
      exact absurd rfl hne

/-- A caller whose claim returns enters the callback, if nothing else happens. -/
theorem callback_entered {ι : Type} [DecidableEq ι] {authority : CaseAuthority} {planHead : D} (i : ι)
    {q : ObservationRequest D} {commit : CaseStoreCommit D} {u : CaseTables}
    (hclaim : claimObservation authority planHead q.registry q.requestId q.expected t =
      (.ok commit, u)) :
    ∃ s : ObservationSystem ι D, ObservationSystem.Run authority planHead (.start t) s ∧
      s.entered = [(i, commit)] := by
  obtain ⟨x, key, hsnapshot, hkey, hwrite⟩ := CaseSystem.claimObservation_split hclaim
  obtain ⟨-, r, hread, -, rfl⟩ := snapshot_eq_ok.mp hsnapshot
  obtain ⟨r', hread', hjournal⟩ := claim_journal hwrite
  obtain rfl := Except.ok.inj (hread.symm.trans hread')
  obtain ⟨plan, hplan, hselect⟩ : ∃ plan, planOf commit.result.journal = .ok plan ∧
      q.registry.select plan authority = .ok key := by
    simp only [claimOf, bind_eq_ok] at hkey
    obtain ⟨_, -, _, -, plan, hplan, hselect⟩ := hkey
    rw [hjournal]
    exact ⟨plan, hplan, hselect⟩
  let s₁ : ObservationSystem ι D := (ObservationSystem.start t).moved i (.selected q key)
  let s₂ : ObservationSystem ι D :=
    { s₁.moved i (.claimed q commit) with
      tables := u
      acknowledged := [(i, commit)] }
  have hselected : ObservationSystem.Step authority planHead (.start t) s₁ :=
    .select i q [] rfl (congrArg Prod.fst hsnapshot) hkey
  have hclaimed : ObservationSystem.Step authority planHead s₁ s₂ :=
    .claim i [] (Function.update_self _ _ _) hwrite
  have hentered : ObservationSystem.Step authority planHead s₂
      { s₂.moved i (.observing q commit) with entered := [(i, commit)] } :=
    .enter i (Function.update_self _ _ _) hplan hselect
  exact ⟨_, ((Relation.ReflTransGen.single hselected).tail hclaimed).tail hentered, rfl⟩

/-- The callback of the sample's plan is entered, once. -/
theorem callback_once_sample : ∃ (t : CaseTables) (s : ObservationSystem Unit HexDigest),
    CaseReachable sampleCaseAuthority (sampleHead HexDigest) t ∧
      ObservationSystem.Run sampleCaseAuthority (sampleHead HexDigest) (.start t) s ∧
      s.entered ≠ [] ∧ s.entered.length ≤ 1 := by
  have hfits := (strayCase_fits (D := HexDigest)).claimed
  obtain ⟨t, hreachable, hstored⟩ := reachable_created hfits.created
  obtain ⟨u, commit, hclaim, -⟩ := claimObservation_created hfits hstored
  obtain ⟨s, hrun, hentered⟩ := callback_entered () (q := ⟨_, _, ⟨"finish-1", by decide⟩, _,
    by simp [strayObservation, Identifier.ext_iff']⟩) hclaim
  refine ⟨t, s, hreachable, hrun, ?_, (callback_once _ _ hrun).1⟩
  rw [hentered]
  exact List.cons_ne_nil _ _

end EvidenceBraid
