import EvidenceBraid.CaseExtension

/-!
# The cases that the store's operations reach

Every operation of the case store that succeeds takes the tables of a case to those of the case one
step later (`CaseReachable.stored`), and each case that fits and whose observation is by the claimed
observer is reached this way (`CaseHistory.reachable`). The reader also accepts a case whose
observation is by another observer.
-/

namespace EvidenceBraid

open Hashing Transaction Sqlite

variable {D : Type} [Hashing D]

/-! ## Reachable tables -/

section Reachable

variable [DecidableEq D]

/-- The tables that creation and the operations of the store reach. -/
inductive CaseReachable (authority : CaseAuthority) (planHead : D) : CaseTables → Prop
  | create {journal : CaseJournal D} {assertion input : Bytes} {t : CaseTables}
    (h : createCaseStore authority planHead journal assertion input reservedCase = (.ok (), t)) :
    CaseReachable authority planHead t
  | claim {registry : ObservationRegistry} {requestId : Identifier}
    {expected : CaseStoreCheckpoint D} {commit : CaseStoreCommit D} {t u : CaseTables}
    (ht : CaseReachable authority planHead t)
    (h : claimObservation authority planHead registry requestId expected t = (.ok commit, u)) :
    CaseReachable authority planHead u
  | finish {requestId operationId : Identifier} {expected : CaseStoreCheckpoint D}
    {output : Option Bytes} {status : CaseObservationStatus} {errorCode : Option Identifier}
    {commit : CaseStoreCommit D} {t u : CaseTables} (ht : CaseReachable authority planHead t)
    (h : finishObservation authority planHead requestId operationId expected output status errorCode
      t = (.ok commit, u)) : CaseReachable authority planHead u
  | verdict {operationId evaluatorId : Identifier} {expected : CaseStoreCheckpoint D}
    {commit : CaseStoreCommit D} {t u : CaseTables} (ht : CaseReachable authority planHead t)
    (h : appendCheckedVerdict authority planHead operationId evaluatorId expected t =
      (.ok commit, u)) : CaseReachable authority planHead u

/-- The observation is by the observer of the claim. -/
def CaseHistory.Bound (h : CaseHistory D) : Prop :=
  match h.stage with
  | .created | .claimed _ _ => True
  | .finished f | .verdicted f _ _ => f.observation.observerId = f.observerId

variable [WideHex D] {authority : CaseAuthority} {planHead : D} {t u : CaseTables}
  {commit : CaseStoreCommit D}

/-- A case one step later, in the tables and in the commits. A claimed adapter stays claimed. -/
def Advances (authority : CaseAuthority) (planHead : D) (h : CaseHistory D) (u : CaseTables)
    (commit : CaseStoreCommit D) : Prop :=
  ∃ h' : CaseHistory D, h'.Fits authority planHead ∧ (h.Bound → h'.Bound) ∧
    h'.Stored authority planHead u ∧
    (h'.state authority planHead).commits = (h.state authority planHead).commits ++ [commit] ∧
    ∀ key, (h.state authority planHead).claimedKey = some key →
      (h'.state authority planHead).claimedKey = some key

omit [WideHex D] [DecidableEq D] in
theorem select_eq_ok {registry : ObservationRegistry} {plan : CasePlan D} {key : AdapterKey}
    (h : registry.select plan authority = .ok key) : ClaimFits authority plan key := by
  unfold ObservationRegistry.select at h
  split at h
  · rename_i entry hentry
    simp only [bind_eq_ok, valid_eq_ok, exists_unit, Except.ok.injEq] at h
    obtain ⟨⟨hadmits, hne⟩, rfl⟩ := h
    have hmem : entry ∈ registry.entries.filter fun k =>
        k.test = (plan.testId, plan.adapterId, plan.adapterVersion) := by
      rw [hentry]
      exact List.mem_singleton_self _
    refine ⟨by simpa using (List.mem_filter.mp hmem).2, ?_, hne⟩
    exact (admits_iff_hasCaseRole [.tool] fun k => by cases k <;> decide).mp hadmits
  · cases h

theorem CaseHistory.Fits.read_eq {h : CaseHistory D} (hfits : h.Fits authority planHead)
    (hstored : h.Stored authority planHead t) {r : CaseRead D}
    (hr : readCase authority planHead t = .ok r) : r = h.read authority planHead :=
  Except.ok.inj (hr.symm.trans (readCase_eq_ok.mpr ⟨h, hfits, hstored, rfl⟩))

omit [DecidableEq D] in
theorem planOf_journal {h : CaseHistory D} : planOf (h.journal authority) = .ok h.plan := by
  rw [planOf, CaseHistory.records_journal]
  rfl

/-- What `_claim_key` selects. -/
theorem claimKey_eq_ok {h : CaseHistory D} (hfits : h.Fits authority planHead)
    (hstored : h.Stored authority planHead t) {registry : ObservationRegistry}
    {expected : CaseStoreCheckpoint D} {key : AdapterKey} :
    claimKey authority planHead registry expected t = (.ok key, u) ↔
      u = t ∧ registry.limits = .fixed ∧ (h.state authority planHead).checkpoint = expected ∧
        prepareObservation (h.journal authority) authority registry h.assertion h.input planHead =
          .ok key ∧ registry.select h.plan authority = .ok key := by
  simp only [claimKey, Action.bind_eq_ok, checked_eq_ok, snapshot_eq_ok, valid_eq_ok]
  constructor
  · rintro ⟨_, _, ⟨hlimits, rfl⟩, _, _, ⟨rfl, r, hread, hexpected, rfl⟩, k, _, ⟨hprepare, rfl⟩, plan,
      _, ⟨hplan, rfl⟩, hselect, rfl⟩
    obtain rfl := hfits.read_eq hstored hread
    obtain rfl := Except.ok.inj (planOf_journal.symm.trans hplan)
    refine ⟨rfl, hlimits, hexpected _ rfl, ?_, hselect⟩
    have hsame : k = key := by
      have hprepare' := hprepare
      simp only [prepareObservation, bind_eq_ok] at hprepare'
      obtain ⟨_, -, _, -, plan, hplan, _, -, hprepare'⟩ := hprepare'
      obtain ⟨_, -, _, -, _, -, hk⟩ := hprepare'
      obtain rfl := Except.ok.inj (planOf_journal.symm.trans hplan)
      exact Except.ok.inj (hk.symm.trans hselect)
    exact hsame ▸ hprepare
  · rintro ⟨rfl, hlimits, hexpected, hprepare, hselect⟩
    refine ⟨(), u, ⟨hlimits, rfl⟩, _, u, ⟨rfl, _, readCase_eq_ok.mpr ⟨h, hfits, hstored, rfl⟩, ?_, rfl⟩,
      key, u, ⟨hprepare, rfl⟩, h.plan, u, ⟨planOf_journal, rfl⟩, hselect, rfl⟩
    rintro _ ⟨⟩
    exact hexpected

/-- **A claim that succeeds** takes a created case to a claimed one. -/
theorem claim_advances {h : CaseHistory D} (hfits : h.Fits authority planHead)
    (hstored : h.Stored authority planHead t) {registry : ObservationRegistry}
    {requestId : Identifier} {expected : CaseStoreCheckpoint D}
    (hclaim : claimObservation authority planHead registry requestId expected t = (.ok commit, u)) :
    Advances authority planHead h u commit := by
  obtain ⟨key, _, hkey, hwrite⟩ := Action.bind_eq_ok.mp hclaim
  obtain ⟨rfl, -, hexpected, -, hselect⟩ := (claimKey_eq_ok hfits hstored).mp hkey
  have hadapter := select_eq_ok hselect
  obtain ⟨r, planned, hread, hplanned, -, -⟩ := write_eq_ok.mp hwrite
  obtain rfl := hfits.read_eq hstored hread
  obtain ⟨hnew, -, outcome, houtcome⟩ := CaseHistory.of_prepareWrite hplanned
  simp only [CaseWrite.outcome, claimWrite, bind_eq_ok, require_eq_ok, exists_unit] at houtcome
  have hcount : h.steps.length = 0 := hfits.operationCount_eq.symm.trans houtcome.1.1
  obtain ⟨plan, assertion, input, stage⟩ := h
  cases stage with
  | created =>
    have hfits' : CaseHistory.Fits authority planHead
        ⟨plan, assertion, input, .claimed requestId key.observerId⟩ := by
      refine ⟨hfits.sound, hfits.head, hfits.retained, ⟨⟨rfl, rfl, ?_⟩, trivial⟩,
        List.nodup_singleton _⟩
      change ClaimFits authority plan ⟨plan.testId, plan.adapterId, plan.adapterVersion, key.observerId⟩
      rwa [hadapter.key_eq]
    obtain ⟨u', commit', hwrite', hstored', hcommits⟩ :=
      CaseHistory.write_claim hfits hfits' hstored
    rw [hexpected, hadapter.key_eq, hwrite] at hwrite'
    cases hwrite'
    exact ⟨_, hfits', fun _ => trivial, hstored', hcommits, by intros; contradiction⟩
  | claimed | finished | verdicted => cases hcount

/-! ## Finishes -/

omit [WideHex D] [DecidableEq D] in
/-- The observation that is made of an output or of an error code. -/
theorem makeObservation_eq_ok {plan : CasePlan D} {requestId observerId : Identifier}
    {status : CaseObservationStatus} {output : Option Bytes} {errorCode : Option Identifier}
    {o : CaseObservation D} :
    makeObservation plan requestId observerId status output errorCode = .ok o ↔
      (o.planDigest = plan.digest ∧ o.requestId = requestId ∧ o.observerId = observerId ∧
        o.status = status ∧ o.inputSha256 = plan.inputSha256) ∧
      (status = .observed → ∃ bytes, output = some bytes ∧ o.observedSha256 = some (sha256 bytes) ∧
        o.artifactId.map (·.value) = some (observedArtifact plan requestId bytes)) ∧
      (status ≠ .observed → ∃ code, errorCode = some code ∧ o.errorCode = some code) := by
  obtain ⟨d, r, observer, st, i, digest, artifact, code, houtput, hcode⟩ := o
  unfold makeObservation
  by_cases hstatus : status = .observed
  · rw [dif_pos hstatus]
    cases output with
    | none => simp [hstatus]
    | some bytes =>
      simp only [bind_eq_ok, identifier_eq_ok, Except.ok.injEq, CaseObservation.mk.injEq]
      constructor
      · rintro ⟨a, ha, rfl, rfl, rfl, rfl, rfl, rfl, rfl, rfl⟩
        refine ⟨⟨rfl, rfl, rfl, rfl, rfl⟩, fun _ => ⟨bytes, rfl, rfl, ?_⟩, fun h => absurd hstatus h⟩
        rw [Option.map_some, ha]
      · rintro ⟨⟨rfl, rfl, rfl, rfl, rfl⟩, hobserved, -⟩
        obtain ⟨_, ⟨⟩, hdigest, hartifact⟩ := hobserved hstatus
        obtain ⟨a, ha, hvalue⟩ := Option.map_eq_some_iff.mp hartifact
        have hnone : code = none := by simpa [hstatus] using hcode
        exact ⟨a, hvalue, rfl, rfl, rfl, rfl, rfl, hdigest.symm, ha.symm, hnone.symm⟩
  · rw [dif_neg hstatus]
    cases errorCode with
    | none => simp [hstatus]
    | some given =>
      simp only [Except.ok.injEq, CaseObservation.mk.injEq]
      constructor
      · rintro ⟨rfl, rfl, rfl, rfl, rfl, rfl, rfl, rfl⟩
        exact ⟨⟨rfl, rfl, rfl, rfl, rfl⟩, fun h => absurd h hstatus, fun _ => ⟨given, rfl, rfl⟩⟩
      · rintro ⟨⟨rfl, rfl, rfl, rfl, rfl⟩, -, hfailed⟩
        obtain ⟨_, ⟨⟩, hgiven⟩ := hfailed hstatus
        have hnone : digest = none ∧ artifact = none := by simpa [hstatus] using houtput
        exact ⟨rfl, rfl, rfl, rfl, rfl, hnone.1.symm, hnone.2.symm, hgiven.symm⟩

/-- The output that is admitted is the given one. -/
theorem admitOutput_eq_ok {status : CaseObservationStatus} {output admitted : Option Bytes}
    {errorCode : Option Identifier} {total : ℕ} (h : total ≤ maxAssertion + maxInput) :
    admitOutput status output errorCode total = .ok admitted ↔ admitted = output ∧
      output.isSome = decide (status = .observed) ∧
      errorCode.isSome = decide (status ≠ .observed) ∧ ∀ bytes ∈ output, IsOutput bytes := by
  by_cases hstatus : status = .observed
  · simp only [admitOutput, if_pos hstatus, bind_eq_ok, valid_eq_ok, exists_unit, orError_eq_ok,
      map_eq_ok, checkedOutput_eq_ok h]
    constructor
    · rintro ⟨rfl, raw, rfl, bytes, ⟨rfl, htext⟩, rfl⟩
      refine ⟨rfl, by simp [hstatus], by simp [hstatus], ?_⟩
      rintro _ ⟨⟩
      exact htext
    · rintro ⟨rfl, houtput, hcode, htext⟩
      obtain ⟨bytes, rfl⟩ := Option.isSome_iff_exists.mp (houtput.trans (decide_eq_true hstatus))
      exact ⟨by simpa [hstatus] using hcode, bytes, rfl, bytes, ⟨rfl, htext bytes rfl⟩, rfl⟩
  · simp only [admitOutput, if_neg hstatus, bind_eq_ok, valid_eq_ok, exists_unit, Except.ok.injEq]
    constructor
    · rintro ⟨rfl, hcode, rfl⟩
      exact ⟨rfl, by simp [hstatus], by simpa [hstatus] using hcode, by simp⟩
    · rintro ⟨rfl, houtput, hcode, -⟩
      have hnone : admitted = none := by simpa [hstatus] using houtput
      exact ⟨hnone, by simpa [hstatus] using hcode, hnone.symm⟩

/-- What `_prepare_finish` makes of a claimed case. -/
theorem prepareFinish_eq_ok {h : CaseHistory D} (hfits : h.Fits authority planHead)
    (hstored : h.Stored authority planHead t) {requestId : Identifier}
    {expected : CaseStoreCheckpoint D} {output admitted : Option Bytes}
    {status : CaseObservationStatus} {errorCode : Option Identifier} {o : CaseObservation D} :
    prepareFinish authority planHead requestId expected output status errorCode t =
        (.ok (o, admitted), u) ↔
      u = t ∧ (h.state authority planHead).checkpoint = expected ∧
        (h.state authority planHead).pending = some requestId ∧
        admitOutput status output errorCode (h.assertion.length + h.input.length) = .ok admitted ∧
        ∃ key, (h.state authority planHead).claimedKey = some key ∧
          makeObservation h.plan requestId key.observerId status admitted errorCode = .ok o := by
  simp only [prepareFinish, Action.bind_eq_ok, checked_eq_ok, snapshot_eq_ok, claimedKey_eq_ok,
    require_eq_ok, orError_eq_ok, Action.pure_eq_ok, Prod.mk.injEq]
  constructor
  · rintro ⟨_, _, ⟨rfl, r, hread, hexpected, rfl⟩, _, _, ⟨hpending, rfl⟩, plan, _, ⟨hplan, rfl⟩, _, _,
      ⟨hadmitted, rfl⟩, _, _, ⟨rfl, r', hread', rfl⟩, key, _, ⟨hkey, rfl⟩, _, _, ⟨hmade, rfl⟩,
      ⟨rfl, rfl⟩, rfl⟩
    obtain rfl := hfits.read_eq hstored hread
    obtain rfl := hfits.read_eq hstored hread'
    obtain rfl := Except.ok.inj (planOf_journal.symm.trans hplan)
    exact ⟨rfl, hexpected _ rfl, hpending, hadmitted, key, hkey, hmade⟩
  · rintro ⟨rfl, hexpected, hpending, hadmitted, key, hkey, hmade⟩
    have hread := readCase_eq_ok.mpr ⟨h, hfits, hstored, rfl⟩
    refine ⟨_, u, ⟨rfl, _, hread, ?_, rfl⟩, (), u, ⟨hpending, rfl⟩, h.plan, u, ⟨planOf_journal, rfl⟩,
      admitted, u, ⟨hadmitted, rfl⟩, _, u, ⟨rfl, _, hread, rfl⟩, key, u, ⟨hkey, rfl⟩, o, u,
      ⟨hmade, rfl⟩, ⟨rfl, rfl⟩, rfl⟩
    rintro _ ⟨⟩
    exact hexpected

/-- **A finish that succeeds** takes a claimed case to a finished one, by the claimed observer. -/
theorem finish_advances {h : CaseHistory D} (hfits : h.Fits authority planHead)
    (hstored : h.Stored authority planHead t) {requestId operationId : Identifier}
    {expected : CaseStoreCheckpoint D} {output : Option Bytes} {status : CaseObservationStatus}
    {errorCode : Option Identifier}
    (hfinish : finishObservation authority planHead requestId operationId expected output status
      errorCode t = (.ok commit, u)) : Advances authority planHead h u commit := by
  obtain ⟨⟨o, admitted⟩, _, hprepare, hwrite⟩ := Action.bind_eq_ok.mp hfinish
  obtain ⟨rfl, hexpected, hpending, hadmitted, key, hkey, hmade⟩ :=
    (prepareFinish_eq_ok hfits hstored).mp hprepare
  have htotal := Nat.add_le_add hfits.retained.inputs.assertion_length
    hfits.retained.inputs.input_length
  obtain ⟨rfl, hisSome, hcode, htext⟩ := (admitOutput_eq_ok htotal).mp hadmitted
  obtain ⟨⟨hplan, rfl, hobserver, rfl, hinput⟩, hobserved, hfailed⟩ := makeObservation_eq_ok.mp hmade
  obtain ⟨r, planned, hread, hplanned, -, -⟩ := write_eq_ok.mp hwrite
  obtain rfl := hfits.read_eq hstored hread
  obtain ⟨hnew, -, outcome, houtcome⟩ := CaseHistory.of_prepareWrite hplanned
  simp only [CaseWrite.outcome, finishWrite, bind_eq_ok] at houtcome
  obtain ⟨_, -, journal, happend, -⟩ := houtcome
  obtain ⟨plan, assertion, input, stage⟩ := h
  cases stage with
  | claimed requestId observerId =>
    obtain rfl := Option.some.inj hpending
    obtain rfl := Option.some.inj hkey
    have hsound := ((@CaseHistory.append_eq_ok _ _ _ _ _ ⟨plan, assertion, input,
      .finished ⟨observerId, operationId, o, admitted⟩⟩ _ _ hfits.sound rfl _).mp happend).2
    have hfits' : CaseHistory.Fits authority planHead
        ⟨plan, assertion, input, .finished ⟨observerId, operationId, o, admitted⟩⟩ := by
      refine ⟨hsound, hfits.head, ⟨hfits.retained.inputs, ?_⟩,
        ⟨hfits.steps.1, ⟨rfl, rfl, ⟨_, rfl, rfl⟩, ?_⟩, trivial⟩, hfits.distinct_next hnew⟩
      · have hobserved_iff : o.status = .observed ↔ admitted.isSome = true := by
          rw [hisSome, decide_eq_true_iff]
        refine ⟨hobserved_iff, ?_, htext⟩
        · intro bytes hbytes
          have hstatus := hobserved_iff.mpr (Option.isSome_iff_exists.mpr ⟨bytes, hbytes⟩)
          obtain ⟨_, hsome, hdigest, -⟩ := hobserved hstatus
          rw [hdigest, Option.some.inj (hsome.symm.trans hbytes)]
      · intro hstatus
        obtain ⟨bytes, hbytes, -, hartifact⟩ := hobserved hstatus
        exact ⟨bytes, hbytes, hartifact⟩
    obtain ⟨u', commit', hwrite', hstored', hcommits⟩ :=
      CaseHistory.write_finish hfits hfits' hstored
    rw [hexpected] at hwrite'
    cases hwrite.symm.trans hwrite'
    exact ⟨_, hfits', fun _ => hobserver, hstored', hcommits, fun _ h => h⟩
  | created | finished | verdicted => cases hpending

/-! ## Verdicts -/

omit [WideHex D] in
/-- The checked outcome is the one that replay expects. -/
theorem checkedOutcome_eq {plan : CasePlan D} {o : CaseObservation D} {output : Option Bytes}
    (hfits : OutputFits o output) : checkedOutcome plan output = expectedOutcome plan o := by
  cases output with
  | none =>
    have hstatus : o.status ≠ .observed := fun h => by cases hfits.observed_iff.mp h
    rw [checkedOutcome, expectedOutcome, if_pos hstatus]
  | some bytes =>
    have hstatus := hfits.observed_iff.mpr rfl
    rw [checkedOutcome, expectedOutcome, if_neg (not_not.mpr hstatus), hfits.digest bytes rfl]
    simp only [Option.some.injEq]

/-- **A verdict that succeeds** takes a finished case to its verdict. -/
theorem verdict_advances {h : CaseHistory D} (hfits : h.Fits authority planHead)
    (hstored : h.Stored authority planHead t) {operationId evaluatorId : Identifier}
    {expected : CaseStoreCheckpoint D}
    (hverdict : appendCheckedVerdict authority planHead operationId evaluatorId expected t =
      (.ok commit, u)) : Advances authority planHead h u commit := by
  obtain ⟨snapshot, t', hsnapshot, hwrite⟩ := Action.bind_eq_ok.mp hverdict
  obtain ⟨rfl, r, hread, hexpected, rfl⟩ := snapshot_eq_ok.mp hsnapshot
  obtain rfl := hfits.read_eq hstored hread
  obtain ⟨plan, assertion, input, stage⟩ := h
  have hjournal : (CaseHistory.read authority planHead ⟨plan, assertion, input, stage⟩).snapshot.journal =
    CaseHistory.journal authority ⟨plan, assertion, input, stage⟩ := rfl
  rw [hjournal, CaseHistory.records_journal] at hwrite
  cases stage with
  | created | claimed => exact absurd (checked_eq_ok.mp hwrite).1 nofun
  | verdicted => exact absurd (checked_eq_ok.mp hwrite).1 nofun
  | finished f =>
    have hoperation : alone true (writeAction authority planHead (verdictWrite operationId
        f.observation.requestId expected ⟨plan.digest, f.observation.digest, evaluatorId,
          checkedOutcome plan f.output⟩)) t' = (.ok commit, u) := hwrite
    obtain ⟨r, planned, hread', hplanned, -, -⟩ := write_eq_ok.mp hoperation
    obtain rfl := hfits.read_eq hstored hread'
    obtain ⟨hnew, -, outcome, houtcome⟩ := CaseHistory.of_prepareWrite hplanned
    simp only [CaseWrite.outcome, verdictWrite, bind_eq_ok] at houtcome
    obtain ⟨_, -, journal, happend, -⟩ := houtcome
    have hsound := ((@CaseHistory.append_eq_ok _ _ _ _ _ ⟨plan, assertion, input,
      .verdicted f operationId _⟩ _ _ hfits.sound rfl _).mp happend).2
    have hfits' : CaseHistory.Fits authority planHead
        ⟨plan, assertion, input, .verdicted f operationId ⟨plan.digest, f.observation.digest,
          evaluatorId, checkedOutcome plan f.output⟩⟩ := by
      obtain ⟨hclaim, ⟨hcount, hpending, -, hartifact⟩, -⟩ := hfits.steps
      exact ⟨hsound, hfits.head, ⟨hfits.retained.inputs, hfits.retained.output⟩,
        ⟨hclaim, ⟨hcount, hpending, ⟨_, rfl, rfl⟩, hartifact⟩, ⟨rfl, rfl, ⟨_, rfl, rfl⟩, _, rfl, rfl⟩,
          trivial⟩, hfits.distinct_next hnew⟩
    obtain ⟨u', commit', hwrite', hstored', hcommits⟩ :=
      CaseHistory.write_verdict hfits hfits' hstored
    have hcheckpoint : (CaseHistory.state authority planHead
        ⟨plan, assertion, input, .finished f⟩).checkpoint = expected := hexpected _ rfl
    rw [hcheckpoint] at hwrite'
    cases hoperation.symm.trans hwrite'
    exact ⟨_, hfits', id, hstored', hcommits, fun _ h => h⟩

/-! ## Creation -/

/-- **A creation that succeeds** has stored a case without operations. -/
theorem create_stored {journal : CaseJournal D} {assertion input : Bytes}
    (hcreate : createCaseStore authority planHead journal assertion input reservedCase = (.ok (), t)) :
    ∃ h : CaseHistory D, h.Fits authority planHead ∧ h.Bound ∧ h.Stored authority planHead t := by
  obtain ⟨state, _, -, hcreate⟩ := Action.bind_eq_ok.mp hcreate
  rcases hreceipts : journal.receipts with _ | ⟨receipt, _ | ⟨second, rest⟩⟩
  · rw [hreceipts] at hcreate
    exact absurd (checked_eq_ok.mp hcreate).1 nofun
  · rw [hreceipts] at hcreate
    cases hrecord : receipt.record with
    | plan plan =>
      simp only [hrecord, Action.bind_eq_ok, checked_eq_ok, snapshot_eq_ok, Action.pure_eq_ok]
        at hcreate
      obtain ⟨_, _, -, _, _, -, _, _, -, hcreate⟩ := hcreate
      obtain ⟨_, _, -, _, _, ⟨rfl, r, hread, hexpected, -⟩, -, rfl⟩ := hcreate
      obtain ⟨h, hfits, hstored, rfl⟩ := readCase_eq_ok.mp hread
      have hcount : h.steps.length = 0 := by
        rw [← hfits.operationCount_eq]
        exact congrArg CaseStoreCheckpoint.operationCount (hexpected _ rfl)
      obtain ⟨plan, assertion, input, stage⟩ := h
      cases stage with
      | created => exact ⟨_, hfits, trivial, hstored⟩
      | claimed | finished | verdicted => cases hcount
    | observation o =>
      simp only [hrecord] at hcreate
      exact absurd (checked_eq_ok.mp hcreate).1 nofun
    | verdict v =>
      simp only [hrecord] at hcreate
      exact absurd (checked_eq_ok.mp hcreate).1 nofun
    | decision d =>
      simp only [hrecord] at hcreate
      exact absurd (checked_eq_ok.mp hcreate).1 nofun
  · rw [hreceipts] at hcreate
    exact absurd (checked_eq_ok.mp hcreate).1 nofun

/-- **What is reached is stored**, with the observation of the claimed observer. -/
theorem CaseReachable.stored (h : CaseReachable authority planHead t) :
    ∃ h : CaseHistory D, h.Fits authority planHead ∧ h.Bound ∧ h.Stored authority planHead t := by
  induction h with
  | create h => exact create_stored h
  | claim _ h ih =>
    obtain ⟨before, hfits, hbound, hstored⟩ := ih
    obtain ⟨after, hfits', hbound', hstored', -⟩ := claim_advances hfits hstored h
    exact ⟨after, hfits', hbound' hbound, hstored'⟩
  | finish _ h ih =>
    obtain ⟨before, hfits, hbound, hstored⟩ := ih
    obtain ⟨after, hfits', hbound', hstored', -⟩ := finish_advances hfits hstored h
    exact ⟨after, hfits', hbound' hbound, hstored'⟩
  | verdict _ h ih =>
    obtain ⟨before, hfits, hbound, hstored⟩ := ih
    obtain ⟨after, hfits', hbound', hstored', -⟩ := verdict_advances hfits hstored h
    exact ⟨after, hfits', hbound' hbound, hstored'⟩

/-! ## Every stored case is reached -/

omit [DecidableEq D] in
/-- The tables of a case are determined by it. -/
theorem CaseHistory.Stored.unique {h : CaseHistory D} (ht : h.Stored authority planHead t)
    (hu : h.Stored authority planHead u) : t = u :=
  CaseTables.ext_fields (ht.context.trans hu.context.symm) (ht.receipts.trans hu.receipts.symm)
    (ht.payloads.trans hu.payloads.symm) (Table.ext (ht.operations.trans hu.operations.symm))
    (ht.metadata.trans hu.metadata.symm)

section Prefixes

variable {plan : CasePlan D} {assertion input : Bytes} {f : CaseFinish D} {operationId : Identifier}
  {v : CaseVerdict D}

omit [DecidableEq D] in
theorem CaseHistory.Fits.created {requestId observerId : Identifier}
    (h : Fits authority planHead ⟨plan, assertion, input, .claimed requestId observerId⟩) :
    Fits authority planHead ⟨plan, assertion, input, .created⟩ :=
  ⟨h.sound, h.head, h.retained, trivial, List.nodup_nil⟩

omit [DecidableEq D] in
theorem CaseHistory.Fits.claimed
    (h : Fits authority planHead ⟨plan, assertion, input, .finished f⟩) :
    Fits authority planHead
      ⟨plan, assertion, input, .claimed f.observation.requestId f.observerId⟩ where
  sound := by
    obtain ⟨progress, hsound⟩ := h.sound
    cases hsound with
    | observed hp ho => exact ⟨_, .planned hp⟩
  head := h.head
  retained := ⟨h.retained.inputs, rfl⟩
  steps := ⟨h.steps.1, trivial⟩
  distinct := List.nodup_singleton _

omit [DecidableEq D] in
theorem CaseHistory.Fits.finished
    (h : Fits authority planHead ⟨plan, assertion, input, .verdicted f operationId v⟩) :
    Fits authority planHead ⟨plan, assertion, input, .finished f⟩ where
  sound := by
    obtain ⟨progress, hsound⟩ := h.sound
    cases hsound with
    | verdicted hp ho hv => exact ⟨_, .observed hp ho⟩
  head := h.head
  retained := ⟨h.retained.inputs, h.retained.output⟩
  steps := by
    obtain ⟨hclaim, ⟨hcount, hpending, -, hartifact⟩, -⟩ := h.steps
    exact ⟨hclaim, ⟨hcount, hpending, ⟨_, rfl, rfl⟩, hartifact⟩, trivial⟩
  distinct := h.distinct.sublist (List.prefix_append _ [operationId]).sublist

end Prefixes

/-! ### Creation -/

/-- The statements of a creation, on the tables. -/
def createPut (context : Json) (receipt : CaseReceipt D) (plan : CasePlan D)
    (assertion input : Bytes) (checkpoint : CaseStoreCheckpoint D) (t : CaseTables) :
    Result CaseTables :=
  t.insertContext (canonicalBytes context) >>= fun t =>
  t.insertReceipt 0 (canonicalBytes receipt.toDict) >>= fun t =>
  t.insertPayload (payloadRow "assertion" plan.assertionArtifactId plan.assertionSha256 assertion) >>=
    fun t =>
  t.insertPayload (payloadRow "input" plan.inputArtifactId plan.inputSha256 input) >>= fun t =>
  t.insertMeta (canonicalBytes checkpoint.toDict)

omit [WideHex D] [DecidableEq D] in
theorem computes_createAction (context : Json) (receipt : CaseReceipt D) (plan : CasePlan D)
    (assertion input : Bytes) (checkpoint : CaseStoreCheckpoint D) :
    Computes (createAction context receipt plan assertion input checkpoint) (fun t o => do
      let u ← createPut context receipt plan assertion input checkpoint t
      .ok ((), u, o)) := by
  have hexecute : ∀ f : CaseTables → Result CaseTables,
      Computes (execute f : CaseProgram Unit) _ := fun f => computes_execute f
  refine Computes.congr ((hexecute _).bind fun _ => (hexecute _).bind fun _ =>
    (hexecute _).bind fun _ => (hexecute _).bind fun _ => hexecute _) fun t o => ?_
  simp [createPut, ok_bind]

omit [DecidableEq D] in
/-- The tables that a creation writes. -/
theorem createPut_stored {plan : CasePlan D} {assertion input : Bytes} {receipt : CaseReceipt D}
    (hreceipt : (CaseHistory.journal authority ⟨plan, assertion, input, .created⟩).receipts = [receipt]) :
    ∃ u, createPut (caseContext authority.digest plan planHead) receipt plan assertion input
        (caseStoreGenesis (caseContext authority.digest plan planHead) planHead) reservedCase = .ok u ∧
      CaseHistory.Stored authority planHead ⟨plan, assertion, input, .created⟩ u := by
  have hbefore : roleKey "assertion" < roleKey "input" := by decide
  let t : CaseTables :=
    { reservedCase with
      context := some (.blob (canonicalBytes (caseContext authority.digest plan planHead)))
      receipts := Table.ofValues [.blob (canonicalBytes receipt.toDict)] }
  obtain ⟨u, hu, hcontext, hreceipts, hpayloads, hoperations, hmeta⟩ :=
    @CaseTables.insertPayload_last t (payloadRow "assertion" plan.assertionArtifactId
      plan.assertionSha256 assertion) fun _ hr => absurd hr List.not_mem_nil
  obtain ⟨w, hw, hcontext', hreceipts', hpayloads', hoperations', hmeta'⟩ :=
    @CaseTables.insertPayload_last u (payloadRow "input" plan.inputArtifactId plan.inputSha256 input)
      (by
        intro r hr
        rw [hpayloads] at hr
        rw [List.mem_singleton.mp hr]
        exact payloadRow_before hbefore _ _ _ _ _ _)
  refine ⟨{ w with metadata := some (.blob (canonicalBytes (caseStoreGenesis
    (caseContext authority.digest plan planHead) planHead).toDict)) }, ?_, ?_, ?_, ?_, ?_, rfl⟩
  · simp only [createPut, bind_eq_ok]
    have hreceipt₀ := @CaseTables.insertReceipt_last { reservedCase with
      context := some (.blob (canonicalBytes (caseContext authority.digest plan planHead))) } [] rfl
      (canonicalBytes receipt.toDict)
    refine ⟨_, rfl, t, hreceipt₀, u, hu, w, hw, ?_⟩
    rw [CaseTables.insertMeta, hmeta', hmeta]
    rfl
  · exact hcontext'.trans hcontext
  · rw [hreceipt]
    exact hreceipts'.trans hreceipts
  · exact hpayloads'.trans (by rw [hpayloads]; rfl)
  · exact congrArg Table.rows (hoperations'.trans hoperations)

/-- **A case without operations is created.** -/
theorem reachable_created {plan : CasePlan D} {assertion input : Bytes}
    (hfits : CaseHistory.Fits authority planHead ⟨plan, assertion, input, .created⟩) :
    ∃ t, CaseReachable authority planHead t ∧
      CaseHistory.Stored authority planHead ⟨plan, assertion, input, .created⟩ t := by
  obtain ⟨receipt, hreceipt, hrecord, hdigest⟩ : ∃ receipt : CaseReceipt D,
      (CaseHistory.journal authority ⟨plan, assertion, input, .created⟩).receipts = [receipt] ∧
        receipt.record = .plan plan ∧ receipt.digest = planHead := ⟨_, rfl, rfl, hfits.head⟩
  obtain ⟨t, hput, hstored⟩ : ∃ u, _ ∧ CaseHistory.Stored authority planHead
    ⟨plan, assertion, input, .created⟩ u := createPut_stored hreceipt
  have hreplay : ∃ state, replayCase (CaseHistory.journal authority
      ⟨plan, assertion, input, .created⟩) authority (some planHead) = .ok state := by
    obtain ⟨progress, hsound⟩ := hfits.sound
    refine ⟨_, replayCase_eq_ok.mpr ⟨rfl, ?_, progress, ?_, rfl⟩⟩
    · rintro _ ⟨⟩
      rw [CaseJournal.headDigest, hreceipt]
      exact hdigest
    · rwa [CaseHistory.records_journal]
  obtain ⟨state, hreplay⟩ := hreplay
  have hinputs := hfits.retained.inputs
  have htotal : maxAssertion + maxInput ≤ maxTotalPayload := by decide
  have hcreate : createCaseStore authority planHead (CaseHistory.journal authority
      ⟨plan, assertion, input, .created⟩) assertion input reservedCase = (.ok (), t) := ?_
  · exact ⟨t, .create hcreate, hstored⟩
  refine Action.bind_eq_ok.mpr ⟨state, reservedCase, checked_eq_ok.mpr ⟨hreplay, rfl⟩, ?_⟩
  rw [hreceipt]
  simp only [hrecord, Action.bind_eq_ok, checked_eq_ok, snapshot_eq_ok, Action.pure_eq_ok, valid_eq_ok]
  refine ⟨(), _, ⟨hinputs.assertion_length, rfl⟩, (), _, ⟨hinputs.input_length, rfl⟩, (), _,
    ⟨⟨(Nat.add_le_add hinputs.assertion_length hinputs.input_length).trans htotal,
      hinputs.assertion_digest, hinputs.input_digest⟩, rfl⟩, (), t, ?_, _, t,
    ⟨rfl, _, readCase_eq_ok.mpr ⟨_, hfits, hstored, rfl⟩, ?_, rfl⟩, trivial, rfl⟩
  · refine (alone_eq_ok (computes_createAction _ _ _ _ _ _)).mpr ⟨t, .none, ?_, rfl⟩
    rw [hdigest]
    exact bind_eq_ok.mpr ⟨t, hput, rfl⟩
  · rintro _ ⟨⟩
    rw [hdigest]
    rfl

/-! ### Operations -/

/-- The registry that holds one adapter. -/
def singleRegistry (key : AdapterKey) : ObservationRegistry :=
  ⟨[key], .fixed, by simp, by simp⟩

omit [WideHex D] [DecidableEq D] in
theorem select_singleRegistry {plan : CasePlan D} {key : AdapterKey}
    (h : ClaimFits authority plan key) : (singleRegistry key).select plan authority = .ok key := by
  have hfilter : (singleRegistry key).entries.filter (fun k =>
      k.test = (plan.testId, plan.adapterId, plan.adapterVersion)) = [key] := by
    simp [singleRegistry, h.test]
  rw [ObservationRegistry.select, hfilter]
  simp only [bind_eq_ok, valid_eq_ok, exists_unit, and_true]
  exact ⟨(admits_iff_hasCaseRole [.tool] fun k => by cases k <;> decide).mpr h.observer,
    h.observer_ne⟩

/-- A created case is claimed by the registry of the adapter. -/
theorem claimObservation_created {plan : CasePlan D} {assertion input : Bytes}
    {requestId observerId : Identifier}
    (hfits : CaseHistory.Fits authority planHead
      ⟨plan, assertion, input, .claimed requestId observerId⟩)
    (hstored : CaseHistory.Stored authority planHead ⟨plan, assertion, input, .created⟩ t) :
    ∃ u commit, claimObservation authority planHead
        (singleRegistry ⟨plan.testId, plan.adapterId, plan.adapterVersion, observerId⟩) requestId
        (CaseHistory.state authority planHead ⟨plan, assertion, input, .created⟩).checkpoint t =
          (.ok commit, u) ∧
      CaseHistory.Stored authority planHead
        ⟨plan, assertion, input, .claimed requestId observerId⟩ u := by
  obtain ⟨u, commit, hwrite, hstored', -⟩ :=
    CaseHistory.write_claim hfits.created hfits hstored
  have hadapter : ClaimFits authority plan
    ⟨plan.testId, plan.adapterId, plan.adapterVersion, observerId⟩ := hfits.steps.1.2.2
  have hselect := select_singleRegistry hadapter
  have hinputs := hfits.retained.inputs
  have htotal : maxAssertion + maxInput ≤ maxTotalPayload := by decide
  refine ⟨u, commit, Action.bind_eq_ok.mpr ⟨_, t,
    (claimKey_eq_ok hfits.created hstored).mpr ⟨rfl, rfl, rfl, ?_, hselect⟩, hwrite⟩, hstored'⟩
  obtain ⟨progress, hsound⟩ := hfits.sound
  simp only [prepareObservation, bind_eq_ok, valid_eq_ok, exists_unit]
  refine ⟨_, replayCase_eq_ok.mpr ⟨rfl, ?_, progress, ?_, rfl⟩, ⟨?_, rfl⟩, plan, planOf_journal,
    hinputs.assertion_length, hinputs.input_length,
    (Nat.add_le_add hinputs.assertion_length hinputs.input_length).trans htotal,
    ⟨hinputs.assertion_digest, hinputs.input_digest⟩, hselect⟩
  · rintro _ ⟨⟩
    exact hfits.head
  · rwa [CaseHistory.records_journal]
  · cases hsound
    rfl

/-- **A claimed case is reached.** -/
theorem reachable_claimed {plan : CasePlan D} {assertion input : Bytes}
    {requestId observerId : Identifier}
    (hfits : CaseHistory.Fits authority planHead
      ⟨plan, assertion, input, .claimed requestId observerId⟩) :
    ∃ t, CaseReachable authority planHead t ∧ CaseHistory.Stored authority planHead
      ⟨plan, assertion, input, .claimed requestId observerId⟩ t := by
  obtain ⟨t, hreachable, hstored⟩ := reachable_created hfits.created
  obtain ⟨u, commit, hclaim, hstored'⟩ := claimObservation_created hfits hstored
  exact ⟨u, .claim hreachable hclaim, hstored'⟩

/-- **A finished case is reached**, if its observation is by the claimed observer. -/
theorem reachable_finished {plan : CasePlan D} {assertion input : Bytes} {f : CaseFinish D}
    (hfits : CaseHistory.Fits authority planHead ⟨plan, assertion, input, .finished f⟩)
    (hbound : f.observation.observerId = f.observerId) :
    ∃ t, CaseReachable authority planHead t ∧
      CaseHistory.Stored authority planHead ⟨plan, assertion, input, .finished f⟩ t := by
  obtain ⟨t, hreachable, hstored⟩ := reachable_claimed hfits.claimed
  obtain ⟨u, commit, hwrite, hstored', -⟩ :=
    CaseHistory.write_finish hfits.claimed hfits hstored
  have hinputs := hfits.retained.inputs
  have houtput : OutputFits f.observation f.output := hfits.retained.output
  have hartifact : ArtifactFits plan f.observation f.output := hfits.steps.2.1.2.2.2
  obtain ⟨progress, hsound⟩ := hfits.sound
  have ho : SoundObservation authority plan f.observation := by
    cases hsound with
    | observed hp ho => exact ho
  have hcode := f.observation.error_taken
  refine ⟨u, .finish hreachable (Action.bind_eq_ok.mpr ⟨(f.observation, f.output), t,
    (prepareFinish_eq_ok hfits.claimed hstored).mpr ⟨rfl, rfl, rfl,
      (admitOutput_eq_ok (Nat.add_le_add hinputs.assertion_length hinputs.input_length)).mpr
        ⟨rfl, ?_, hcode, houtput.text⟩, _, rfl, makeObservation_eq_ok.mpr
        ⟨⟨ho.plan_digest, rfl, hbound, rfl, ho.input_digest⟩, ?_, ?_⟩⟩, hwrite⟩), hstored'⟩
  · rw [Bool.eq_iff_iff, decide_eq_true_iff]
    exact houtput.observed_iff.symm
  · intro hstatus
    obtain ⟨bytes, hbytes, hvalue⟩ := hartifact hstatus
    exact ⟨bytes, hbytes, houtput.digest bytes hbytes, hvalue⟩
  · intro hstatus
    obtain ⟨code, hsome⟩ := Option.isSome_iff_exists.mp (hcode.trans (decide_eq_true hstatus))
    exact ⟨code, hsome, hsome⟩

/-- **A case with a verdict is reached**, if its observation is by the claimed observer. -/
theorem reachable_verdicted {plan : CasePlan D} {assertion input : Bytes} {f : CaseFinish D}
    {operationId : Identifier} {v : CaseVerdict D}
    (hfits : CaseHistory.Fits authority planHead
      ⟨plan, assertion, input, .verdicted f operationId v⟩)
    (hbound : f.observation.observerId = f.observerId) :
    ∃ t, CaseReachable authority planHead t ∧ CaseHistory.Stored authority planHead
      ⟨plan, assertion, input, .verdicted f operationId v⟩ t := by
  obtain ⟨t, hreachable, hstored⟩ := reachable_finished hfits.finished hbound
  obtain ⟨u, commit, hwrite, hstored', -⟩ :=
    CaseHistory.write_verdict hfits.finished hfits hstored
  obtain ⟨progress, hsound⟩ := hfits.sound
  have hv : SoundVerdict authority plan f.observation v := by
    cases hsound with
    | verdicted hp ho hv => exact hv
  have houtput : OutputFits f.observation f.output := hfits.finished.retained.output
  obtain ⟨planDigest, observationDigest, evaluatorId, outcome⟩ := v
  obtain rfl : planDigest = plan.digest := hv.plan_digest
  obtain rfl : observationDigest = f.observation.digest := hv.observation_digest
  obtain rfl : outcome = checkedOutcome plan f.output :=
    (eq_expectedOutcome_iff.mpr ⟨hv.inconclusive_iff, hv.supported_iff⟩).trans
      (checkedOutcome_eq houtput).symm
  refine ⟨u, .verdict hreachable (Action.bind_eq_ok.mpr ⟨_, t, snapshot_eq_ok.mpr ⟨rfl, _,
    readCase_eq_ok.mpr ⟨_, hfits.finished, hstored, rfl⟩, ?_, rfl⟩, hwrite⟩), hstored'⟩
  rintro _ ⟨⟩
  rfl

/-- **Reachability.** The tables that the operations reach are those of the cases that fit and whose
observation is by the claimed observer. -/
theorem caseReachable_iff : CaseReachable authority planHead t ↔
    ∃ h : CaseHistory D, h.Fits authority planHead ∧ h.Bound ∧ h.Stored authority planHead t := by
  constructor
  · exact CaseReachable.stored
  · rintro ⟨⟨plan, assertion, input, stage⟩, hfits, hbound, hstored⟩
    obtain ⟨u, hu, hstored'⟩ : ∃ u, CaseReachable authority planHead u ∧
        CaseHistory.Stored authority planHead ⟨plan, assertion, input, stage⟩ u := by
      cases stage with
      | created => exact reachable_created hfits
      | claimed requestId observerId => exact reachable_claimed hfits
      | finished f => exact reachable_finished hfits hbound
      | verdicted f operationId v => exact reachable_verdicted hfits hbound
    rwa [hstored.unique hstored']

end Reachable

end EvidenceBraid
