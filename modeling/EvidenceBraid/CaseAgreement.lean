import EvidenceBraid.CaseReachable

/-!
# The reader of a case and its writers

Whether `_read` accepts exactly the tables that the operations reach. It does not compare the
observer of a finished case with the observer of its claim, which `finish_observation` copies from
one to the other, so the two agree but for the tables where these observers differ
(`readCase_agrees_iff`).
-/

namespace EvidenceBraid

open Hashing Sqlite

variable {D : Type} [Hashing D]

section Agreement

variable [DecidableEq D]

/-- The observation that was read is by the observer of the claim that was read. -/
def CaseRead.ObserverBound (r : CaseRead D) : Prop :=
  ∀ (o : CaseObservation D) (key : AdapterKey),
    r.snapshot.journal.records[1]? = some (CaseRecord.observation o) → r.claimedAdapterKey = some key →
      o.observerId = key.observerId

variable [WideHex D]

/-- The tables hold a case that keeps to the rules, but for the observer of its observation, which is
not that of its claim. -/
def Misattributed (authority : CaseAuthority) (planHead : D) (t : CaseTables) : Prop :=
  ∃ h : CaseHistory D, h.Fits authority planHead ∧ h.Stored authority planHead t ∧ ¬h.Bound

variable {authority : CaseAuthority} {planHead : D} {t : CaseTables}

omit [DecidableEq D] in
theorem CaseHistory.observerBound_read (h : CaseHistory D) :
    (h.read authority planHead).ObserverBound ↔ h.Bound := by
  obtain ⟨plan, assertion, input, stage⟩ := h
  simp only [CaseRead.ObserverBound, CaseHistory.read, CaseHistory.records_journal]
  cases stage with
  | created => exact iff_of_true (by intros; contradiction) trivial
  | claimed requestId observerId => exact iff_of_true (by intros; contradiction) trivial
  | finished f =>
    constructor
    · intro h
      exact h f.observation _ rfl rfl
    · rintro hbound _ _ ⟨⟩ ⟨⟩
      exact hbound
  | verdicted f operationId v =>
    constructor
    · intro h
      exact h f.observation _ rfl rfl
    · rintro hbound _ _ ⟨⟩ ⟨⟩
      exact hbound

/-- A case that fits has tables. -/
theorem CaseHistory.Fits.exists_finished {plan : CasePlan D} {assertion input : Bytes}
    {f : CaseFinish D}
    (hfits : CaseHistory.Fits authority planHead ⟨plan, assertion, input, .finished f⟩) :
    ∃ t, CaseHistory.Stored authority planHead ⟨plan, assertion, input, .finished f⟩ t := by
  obtain ⟨t, -, hstored⟩ := reachable_claimed hfits.claimed
  obtain ⟨u, -, -, hstored', -⟩ := CaseHistory.write_finish hfits.claimed hfits hstored
  exact ⟨u, hstored'⟩

/-- Tables that are reached are read, with the claimed observer. -/
theorem CaseReachable.read (h : CaseReachable authority planHead t) :
    ∃ r, readCase authority planHead t = .ok r ∧ r.ObserverBound := by
  obtain ⟨h, hfits, hbound, hstored⟩ := h.stored
  exact ⟨_, readCase_eq_ok.mpr ⟨h, hfits, hstored, rfl⟩, h.observerBound_read.mpr hbound⟩

theorem Misattributed.read (h : Misattributed authority planHead t) :
    ∃ r, readCase authority planHead t = .ok r ∧ ¬r.ObserverBound := by
  obtain ⟨h, hfits, hstored, hbound⟩ := h
  exact ⟨_, readCase_eq_ok.mpr ⟨h, hfits, hstored, rfl⟩, fun hr =>
    hbound (h.observerBound_read.mp hr)⟩

/-- What is misattributed is not reached. -/
theorem Misattributed.not_reachable (h : Misattributed authority planHead t) :
    ¬CaseReachable authority planHead t := by
  intro hreachable
  obtain ⟨r, hr, hbound⟩ := hreachable.read
  obtain ⟨r', hr', hbound'⟩ := h.read
  obtain rfl := Except.ok.inj (hr.symm.trans hr')
  exact hbound' hbound

/-- **The reader agrees with the writers** exactly on the tables that are not misattributed: there it
accepts what they reach, and each observation that it accepts is by the claimed observer. -/
theorem readCase_agrees_iff (authority : CaseAuthority) (planHead : D) (t : CaseTables) :
    (((∃ r, readCase authority planHead t = .ok r) ↔ CaseReachable authority planHead t) ∧
      ∀ r, readCase authority planHead t = .ok r → r.ObserverBound) ↔
      ¬Misattributed authority planHead t := by
  constructor
  · rintro ⟨-, hbound⟩ hmis
    obtain ⟨r, hr, hnot⟩ := hmis.read
    exact hnot (hbound r hr)
  · intro hnot
    have hbound : ∀ h : CaseHistory D, h.Fits authority planHead → h.Stored authority planHead t →
        h.Bound := by
      intro h hfits hstored
      by_contra hb
      exact hnot ⟨h, hfits, hstored, hb⟩
    refine ⟨⟨?_, fun h => ?_⟩, ?_⟩
    · rintro ⟨r, hr⟩
      obtain ⟨h, hfits, hstored, -⟩ := readCase_eq_ok.mp hr
      exact caseReachable_iff.mpr ⟨h, hfits, hbound h hfits hstored, hstored⟩
    · obtain ⟨r, hr, -⟩ := h.read
      exact ⟨r, hr⟩
    · intro r hr
      obtain ⟨h, hfits, hstored, rfl⟩ := readCase_eq_ok.mp hr
      exact h.observerBound_read.mpr (hbound h hfits hstored)

end Agreement

/-! ## A misattributed case -/

section Stray

variable (D) [WideHex D]

/-- The spare observer could not observe. -/
def strayObservation : CaseObservation D where
  planDigest := (samplePlan D).digest
  requestId := ⟨"request-1", Eq.refl true⟩
  observerId := ⟨"spare", Eq.refl true⟩
  status := .unavailable
  inputSha256 := sha256 []
  observedSha256 := none
  artifactId := none
  errorCode := some ⟨"offline", Eq.refl true⟩
  output_taken := by simp
  error_taken := by simp

/-- A case that the probe has claimed, and the spare observer has finished. -/
def strayCase : CaseHistory D where
  plan := samplePlan D
  assertion := []
  input := []
  stage := .finished ⟨⟨"probe", Eq.refl true⟩, ⟨"finish-1", Eq.refl true⟩, strayObservation D, none⟩

/-- The head of the sample's plan. -/
def sampleHead : D :=
  caseReceiptDigest 0 (caseGenesis sampleCaseAuthority.digest) (.plan (samplePlan D))

variable {D}

theorem strayCase_fits : (strayCase D).Fits sampleCaseAuthority (sampleHead D) := by
  have hobserved : SoundObservation sampleCaseAuthority (samplePlan D) (strayObservation D) :=
    ⟨rfl, rfl, ⟨_, List.mem_cons_of_mem _ (List.mem_cons_of_mem _ List.mem_cons_self), rfl, by decide,
      List.mem_cons_self⟩, by
        simp [strayObservation, samplePlan, samplePlanFields, Identifier.ext_iff'], by simp [strayObservation], by simp [strayObservation]⟩
  have hclaim : ClaimFits sampleCaseAuthority (samplePlan D) ((strayCase D).key ⟨"probe", by decide⟩) :=
    ⟨rfl, ⟨_, List.mem_cons_of_mem _ List.mem_cons_self, rfl, by decide, List.mem_cons_self⟩,
      by simp [CaseHistory.key, samplePlan, samplePlanFields]⟩
  refine ⟨⟨_, .observed soundPlan_sample hobserved⟩, rfl, ⟨⟨?_, rfl, ?_, rfl⟩, ?_⟩,
    ⟨⟨rfl, rfl, hclaim⟩, ⟨rfl, rfl, ⟨_, rfl, rfl⟩, by rintro ⟨⟩⟩, trivial⟩, ?_⟩
  · exact Nat.zero_le _
  · exact Nat.zero_le _
  · refine ⟨iff_of_false ?_ ?_, ?_, ?_⟩
    · rintro ⟨⟩
    · rintro ⟨⟩
    · rintro _ ⟨⟩
    · rintro _ ⟨⟩
  · simp [strayCase, CaseHistory.steps, CaseStep.operationId, strayObservation, Identifier.ext_iff']

theorem strayCase_not_bound : ¬(strayCase D).Bound := by
  intro h
  have hvalue : "spare" = "probe" := congrArg Identifier.value h
  revert hvalue
  decide

/-- The tables of the stray case are accepted, and no operations reach them. -/
theorem readCase_accepts_stray : ∃ t : CaseTables,
    (strayCase HexDigest).Stored sampleCaseAuthority (sampleHead HexDigest) t ∧
      (∃ r, readCase sampleCaseAuthority (sampleHead HexDigest) t = .ok r ∧ ¬r.ObserverBound) ∧
      ¬CaseReachable sampleCaseAuthority (sampleHead HexDigest) t := by
  obtain ⟨t, hstored⟩ := (strayCase_fits (D := HexDigest)).exists_finished
  have hmis : Misattributed sampleCaseAuthority (sampleHead HexDigest) t :=
    ⟨strayCase HexDigest, strayCase_fits, hstored, strayCase_not_bound⟩
  exact ⟨t, hstored, hmis.read, hmis.not_reachable⟩

/-- The reader and the writers disagree on the stray case. -/
theorem readCase_agrees_iff_stray : ∃ t : CaseTables,
    (strayCase HexDigest).Stored sampleCaseAuthority (sampleHead HexDigest) t ∧
      ¬(((∃ r, readCase sampleCaseAuthority (sampleHead HexDigest) t = .ok r) ↔
          CaseReachable sampleCaseAuthority (sampleHead HexDigest) t) ∧
        ∀ r, readCase sampleCaseAuthority (sampleHead HexDigest) t = .ok r → r.ObserverBound) := by
  obtain ⟨t, hstored⟩ := (strayCase_fits (D := HexDigest)).exists_finished
  have hmis : Misattributed sampleCaseAuthority (sampleHead HexDigest) t :=
    ⟨strayCase HexDigest, strayCase_fits, hstored, strayCase_not_bound⟩
  refine ⟨t, hstored, fun h => ?_⟩
  exact (readCase_agrees_iff sampleCaseAuthority (sampleHead HexDigest) t).mp h hmis

end Stray

end EvidenceBraid
