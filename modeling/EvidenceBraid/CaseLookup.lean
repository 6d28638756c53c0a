import EvidenceBraid.CaseAgreement
import EvidenceBraid.CaseTransaction

/-!
# Commits that are looked up

The case store under any number of handles. Their transactions interleave in any order and may be
disturbed anywhere: a handle writes what it has prepared from earlier reads, its own or another's
(`CaseSystem.Step`).

A commit that a write has returned is found by every later lookup, and no later write can use its
identifier (`lookup_returns_commit`). The invariant is that the tables hold a case that fits
(`CaseSystem.Sound`); a write that succeeds was prepared from the tables as they are, since the
checkpoint counts the operations.
-/

namespace EvidenceBraid

open Hashing Transaction Sqlite

variable {D : Type} [Hashing D] [DecidableEq D]

/-! ## What is prepared from a read -/

/-- The adapter that `_claim_key` selects from a snapshot. -/
def claimOf (authority : CaseAuthority) (planHead : D) (registry : ObservationRegistry)
    (snapshot : StoredCase D) : Result AdapterKey := do
  valid (registry.limits = .fixed) "case-store/1 requires the fixed observation byte limits"
  let _ ← prepareObservation snapshot.journal authority registry snapshot.assertionBytes
    snapshot.inputBytes planHead
  let plan ← planOf snapshot.journal
  registry.select plan authority

/-- The observation that `_prepare_finish` makes from a snapshot and the claimed adapter. -/
def finishOf (snapshot : StoredCase D) (claimed : Option AdapterKey) (requestId : Identifier)
    (output : Option Bytes) (status : CaseObservationStatus) (errorCode : Option Identifier) :
    Result (CaseObservation D × Option Bytes) := do
  require (snapshot.pendingRequestId = some requestId) (.conflict "case observation claim differs")
  let plan ← planOf snapshot.journal
  let admitted ← admitOutput status output errorCode
    (snapshot.assertionBytes.length + snapshot.inputBytes.length)
  let key ← orError claimed (.runtime "'NoneType' object is not subscriptable")
  let observation ← makeObservation plan requestId key.observerId status admitted errorCode
  .ok (observation, admitted)

/-- The write that `append_checked_verdict` makes from a snapshot. -/
def verdictOf (snapshot : StoredCase D) (operationId evaluatorId : Identifier) : Result (CaseWrite D) :=
  match snapshot.journal.records with
  | [.plan plan, .observation observation] =>
    .ok (verdictWrite operationId observation.requestId snapshot.checkpoint
      ⟨plan.digest, observation.digest, evaluatorId, checkedOutcome plan snapshot.observedBytes⟩)
  | _ => .error (.validation "case verdict requires durable observation")

/-! ## The system -/

/-- The tables, and what the handles have read so far. -/
structure CaseSystem (D : Type) [Hashing D] where
  tables : CaseTables
  snapshots : List (StoredCase D)
  keys : List (Option AdapterKey)

namespace CaseSystem

/-- The tables before anything is read. -/
def start (t : CaseTables) : CaseSystem D := ⟨t, [], []⟩

variable (authority : CaseAuthority) (planHead : D)

/-- The writes that the handles can have prepared, with the checkpoint that they expected. -/
inductive Prepared (s : CaseSystem D) : CaseWrite D → Prop
  | claim {registry : ObservationRegistry} {requestId : Identifier} {snapshot : StoredCase D}
    {key : AdapterKey} (hsnapshot : snapshot ∈ s.snapshots)
    (h : claimOf authority planHead registry snapshot = .ok key) :
    Prepared s (claimWrite requestId snapshot.checkpoint key)
  | finish {snapshot : StoredCase D} {claimed : Option AdapterKey}
    {requestId operationId : Identifier} {output admitted : Option Bytes}
    {status : CaseObservationStatus} {errorCode : Option Identifier} {o : CaseObservation D}
    (hsnapshot : snapshot ∈ s.snapshots) (hclaimed : claimed ∈ s.keys)
    (h : finishOf snapshot claimed requestId output status errorCode = .ok (o, admitted)) :
    Prepared s (finishWrite operationId requestId snapshot.checkpoint o admitted)
  | verdict {snapshot : StoredCase D} {operationId evaluatorId : Identifier} {w : CaseWrite D}
    (hsnapshot : snapshot ∈ s.snapshots) (h : verdictOf snapshot operationId evaluatorId = .ok w) :
    Prepared s w

/-- One transaction of one handle, and the commit that it returned. -/
inductive Step : CaseSystem D → Option (CaseStoreCommit D) → CaseSystem D → Prop
  | snapshot {s : CaseSystem D} {faults : Faults} {expected : Option (CaseStoreCheckpoint D)}
    {snapshot : StoredCase D}
    (h : (transact faults false (snapshotAction authority planHead expected) s.tables).1 =
      .ok snapshot) : Step s none { s with snapshots := snapshot :: s.snapshots }
  | claimedKey {s : CaseSystem D} {faults : Faults} {claimed : Option AdapterKey}
    (h : (transact faults false (claimedKeyAction authority planHead) s.tables).1 = .ok claimed) :
    Step s none { s with keys := claimed :: s.keys }
  | returned {s : CaseSystem D} {w : CaseWrite D} {faults : Faults} {commit : CaseStoreCommit D}
    {u : CaseTables} (hw : Prepared authority planHead s w)
    (h : transact faults true (writeAction authority planHead w) s.tables = (.ok commit, u)) :
    Step s (some commit) { s with tables := u }
  | failed {s : CaseSystem D} {w : CaseWrite D} {faults : Faults} {e : Failure PyError}
    {u : CaseTables} (hw : Prepared authority planHead s w)
    (h : transact faults true (writeAction authority planHead w) s.tables = (.error e, u)) :
    Step s none { s with tables := u }

/-- Any number of transactions. -/
def Run : CaseSystem D → CaseSystem D → Prop :=
  Relation.ReflTransGen fun s s' => ∃ returned, Step authority planHead s returned s'

/-! ## The invariant -/

variable [WideHex D]

/-- The tables hold the case. A snapshot is that of the tables, or of fewer operations, and a claimed
adapter is that of the case. -/
structure Sound (s : CaseSystem D) (h : CaseHistory D) : Prop where
  fits : h.Fits authority planHead
  bound : h.Bound
  stored : h.Stored authority planHead s.tables
  snapshots : ∀ x ∈ s.snapshots, x = (h.read authority planHead).snapshot ∨
    x.checkpoint.operationCount < h.steps.length
  keys : ∀ k ∈ s.keys, ∀ key ∈ k, (h.state authority planHead).claimedKey = some key

variable {authority planHead} {s s' : CaseSystem D} {h : CaseHistory D}

omit [DecidableEq D] in
/-- A snapshot that has the checkpoint of the tables is that of the tables. -/
theorem Sound.snapshot_eq (hs : s.Sound authority planHead h) {x : StoredCase D}
    (hx : x ∈ s.snapshots) (hcheckpoint : (h.state authority planHead).checkpoint = x.checkpoint) :
    x = (h.read authority planHead).snapshot := by
  refine (hs.snapshots x hx).resolve_right fun hlt => ?_
  rw [← hcheckpoint, hs.fits.operationCount_eq] at hlt
  exact lt_irrefl _ hlt

/-- What is selected from the tables' own snapshot is what `_claim_key` selects. -/
theorem Sound.claimKey_eq (hs : s.Sound authority planHead h) {registry : ObservationRegistry}
    {key : AdapterKey}
    (hkey : claimOf authority planHead registry (h.read authority planHead).snapshot = .ok key) :
    claimKey authority planHead registry (h.state authority planHead).checkpoint s.tables =
      (.ok key, s.tables) := by
  have hread : (h.read authority planHead).snapshot = ⟨h.journal authority,
    (h.state authority planHead).checkpoint, h.assertion, h.input, h.output,
    (h.state authority planHead).pending⟩ := rfl
  rw [hread] at hkey
  simp only [claimOf, bind_eq_ok, valid_eq_ok, exists_unit, planOf_journal, Except.ok.injEq,
    exists_eq_left'] at hkey
  obtain ⟨hlimits, k, hprepare, hselect⟩ := hkey
  have hsame : k = key := by
    have hprepare' := hprepare
    simp only [prepareObservation, bind_eq_ok, planOf_journal, Except.ok.injEq,
      exists_eq_left'] at hprepare'
    obtain ⟨_, -, _, -, _, -, _, hprepare'⟩ := hprepare'
    obtain ⟨-, _, -, _, -, hk⟩ := hprepare'
    exact Except.ok.inj (hk.symm.trans hselect)
  rw [hsame] at hprepare
  exact (claimKey_eq_ok hs.fits hs.stored).mpr ⟨rfl, hlimits, rfl, hprepare, hselect⟩

/-- What is made of the tables' own snapshot is what `_prepare_finish` makes. -/
theorem Sound.prepareFinish_eq (hs : s.Sound authority planHead h) {claimed : Option AdapterKey}
    (hclaimed : claimed ∈ s.keys) {requestId : Identifier} {output admitted : Option Bytes}
    {status : CaseObservationStatus} {errorCode : Option Identifier} {o : CaseObservation D}
    (hfinish : finishOf (h.read authority planHead).snapshot claimed requestId output status
      errorCode = .ok (o, admitted)) :
    prepareFinish authority planHead requestId (h.state authority planHead).checkpoint output status
      errorCode s.tables = (.ok (o, admitted), s.tables) := by
  have hread : (h.read authority planHead).snapshot = ⟨h.journal authority,
    (h.state authority planHead).checkpoint, h.assertion, h.input, h.output,
    (h.state authority planHead).pending⟩ := rfl
  rw [hread] at hfinish
  simp only [finishOf, bind_eq_ok, require_eq_ok, orError_eq_ok, exists_unit, planOf_journal,
    Except.ok.injEq, exists_eq_left', Prod.mk.injEq] at hfinish
  obtain ⟨hpending, _, hadmitted, key, rfl, _, hmade, rfl, rfl⟩ := hfinish
  exact (prepareFinish_eq_ok hs.fits hs.stored).mpr ⟨rfl, rfl, hpending, hadmitted, key,
    hs.keys _ hclaimed key rfl, hmade⟩

/-- **A prepared write that succeeds** is an operation on the tables as they are. -/
theorem Sound.advances (hs : s.Sound authority planHead h) {w : CaseWrite D}
    (hw : Prepared authority planHead s w) {commit : CaseStoreCommit D} {u : CaseTables}
    (hwrite : alone true (writeAction authority planHead w) s.tables = (.ok commit, u)) :
    Advances authority planHead h u commit := by
  have hread := readCase_eq_ok.mpr ⟨h, hs.fits, hs.stored, rfl⟩
  have hexpected : (h.state authority planHead).checkpoint = w.expected := by
    obtain ⟨r, planned, hr, hplanned, -, -⟩ := write_eq_ok.mp hwrite
    obtain rfl := hs.fits.read_eq hs.stored hr
    exact (CaseHistory.of_prepareWrite hplanned).2.1
  cases hw with
  | @claim registry requestId snapshot key hsnapshot hkey =>
    have hcheckpoint : (h.state authority planHead).checkpoint = snapshot.checkpoint := hexpected
    rw [← hcheckpoint] at hwrite
    rw [hs.snapshot_eq hsnapshot hcheckpoint] at hkey
    exact claim_advances hs.fits hs.stored
      (Action.bind_eq_ok.mpr ⟨key, s.tables, hs.claimKey_eq hkey, hwrite⟩)
  | @finish snapshot claimed requestId operationId output admitted status errorCode o hsnapshot
      hclaimed hfinish =>
    have hcheckpoint : (h.state authority planHead).checkpoint = snapshot.checkpoint := hexpected
    rw [← hcheckpoint] at hwrite
    rw [hs.snapshot_eq hsnapshot hcheckpoint] at hfinish
    exact finish_advances hs.fits hs.stored
      (Action.bind_eq_ok.mpr ⟨(o, admitted), s.tables, hs.prepareFinish_eq hclaimed hfinish, hwrite⟩)
  | @verdict snapshot operationId evaluatorId w hsnapshot hverdict =>
    unfold verdictOf at hverdict
    split at hverdict
    · rename_i plan observation hrecords
      obtain rfl := Except.ok.inj hverdict
      have hcheckpoint : (h.state authority planHead).checkpoint = snapshot.checkpoint := hexpected
      obtain rfl := hs.snapshot_eq hsnapshot hcheckpoint
      have hoperation : appendCheckedVerdict authority planHead operationId evaluatorId
          (h.state authority planHead).checkpoint s.tables = (.ok commit, u) := by
        refine Action.bind_eq_ok.mpr ⟨_, s.tables, snapshot_eq_ok.mpr ⟨rfl, _, hread, ?_, rfl⟩, ?_⟩
        · rintro _ ⟨⟩
          rfl
        · rw [hrecords]
          exact hwrite
      exact verdict_advances hs.fits hs.stored hoperation
    · cases hverdict

omit [DecidableEq D] in
/-- The case after the tables have advanced. -/
theorem Sound.write (hs : s.Sound authority planHead h) {u : CaseTables}
    {commit : CaseStoreCommit D} (hadvances : Advances authority planHead h u commit) :
    ∃ h' : CaseHistory D, Sound authority planHead { s with tables := u } h' ∧
      (h'.state authority planHead).commits = (h.state authority planHead).commits ++ [commit] := by
  obtain ⟨h', hfits, hbound, hstored, hcommits, hclaimed⟩ := hadvances
  have hlength : h'.steps.length = h.steps.length + 1 := by
    have hcount : (h'.state authority planHead).commits.length = h'.steps.length :=
      h'.length_commits_state
    rw [← hcount, hcommits, List.length_append, h.length_commits_state, List.length_singleton]
  refine ⟨h', ⟨hfits, hbound hs.bound, hstored, ?_, ?_⟩, hcommits⟩
  · intro x hx
    refine .inr (hlength ▸ Nat.lt_succ_of_le ?_)
    rcases hs.snapshots x hx with rfl | hlt
    · exact hs.fits.operationCount_eq.le
    · exact hlt.le
  · intro k hk key hkey
    exact hclaimed key (hs.keys k hk key hkey)

/-- **A step** keeps the invariant and every commit, and has added the one that it returned. -/
theorem Sound.step (hs : s.Sound authority planHead h) {returned : Option (CaseStoreCommit D)}
    (hstep : Step authority planHead s returned s') :
    ∃ h' : CaseHistory D, s'.Sound authority planHead h' ∧
      (∀ commit ∈ (h.state authority planHead).commits,
        commit ∈ (h'.state authority planHead).commits) ∧
      ∀ commit ∈ returned, commit ∈ (h'.state authority planHead).commits := by
  cases hstep with
  | @snapshot faults expected snapshot hsnapshot =>
    obtain ⟨f, hf⟩ := caseComputes_snapshotAction authority planHead expected
    have halone := (transact_spec hf faults false s.tables).1 _ hsnapshot
    rw [transact_reading hf] at halone
    obtain ⟨-, r, hread, -, rfl⟩ := snapshot_eq_ok.mp halone
    obtain rfl := hs.fits.read_eq hs.stored hread
    refine ⟨h, ⟨hs.fits, hs.bound, hs.stored, ?_, hs.keys⟩, fun _ hc => hc,
      fun c hc => absurd hc (Option.not_mem_none c)⟩
    intro x hx
    rcases List.mem_cons.mp hx with rfl | hx
    · exact .inl rfl
    · exact hs.snapshots x hx
  | @claimedKey faults claimed hclaimed =>
    obtain ⟨f, hf⟩ := caseComputes_claimedKeyAction authority planHead
    have halone := (transact_spec hf faults false s.tables).1 _ hclaimed
    rw [transact_reading hf] at halone
    obtain ⟨-, r, hread, rfl⟩ := claimedKey_eq_ok.mp halone
    obtain rfl := hs.fits.read_eq hs.stored hread
    refine ⟨h, ⟨hs.fits, hs.bound, hs.stored, hs.snapshots, ?_⟩, fun _ hc => hc,
      fun c hc => absurd hc (Option.not_mem_none c)⟩
    intro k hk key hkey
    rcases List.mem_cons.mp hk with rfl | hk
    · exact hkey
    · exact hs.keys k hk key hkey
  | @returned w faults commit u hw hwrite =>
    have halone := (transact_write authority planHead faults w s.tables).1 commit (by rw [hwrite])
    rw [hwrite] at halone
    obtain ⟨h', hs', hcommits⟩ := hs.write (hs.advances hw halone)
    refine ⟨h', hs', ?_, ?_⟩
    · intro c hc
      rw [hcommits]
      exact List.mem_append_left _ hc
    · rintro _ ⟨⟩
      rw [hcommits]
      exact List.mem_append_right _ (List.mem_singleton_self _)
  | @failed w faults e u hw hwrite =>
    have htables := (transact_write authority planHead faults w s.tables).2
    rw [hwrite] at htables
    rcases htables with rfl | ⟨commit, halone⟩
    · exact ⟨h, ⟨hs.fits, hs.bound, hs.stored, hs.snapshots, hs.keys⟩, fun _ hc => hc,
      fun c hc => absurd hc (Option.not_mem_none c)⟩
    · obtain ⟨h', hs', hcommits⟩ := hs.write (hs.advances hw halone)
      refine ⟨h', hs', ?_, ?_⟩
      · intro c hc
        rw [hcommits]
        exact List.mem_append_left _ hc
      · exact fun c hc => absurd hc (Option.not_mem_none c)

/-- **A run** keeps the invariant and every commit. -/
theorem Sound.run (hs : s.Sound authority planHead h) (hrun : Run authority planHead s s') :
    ∃ h' : CaseHistory D, s'.Sound authority planHead h' ∧
      ∀ commit ∈ (h.state authority planHead).commits,
        commit ∈ (h'.state authority planHead).commits := by
  induction hrun with
  | refl => exact ⟨h, hs, fun _ hc => hc⟩
  | tail _ hstep ih =>
    obtain ⟨h₁, hs₁, hkept₁⟩ := ih
    obtain ⟨returned, hstep⟩ := hstep
    obtain ⟨h₂, hs₂, hkept₂, -⟩ := hs₁.step hstep
    exact ⟨h₂, hs₂, fun c hc => hkept₂ c (hkept₁ c hc)⟩

theorem sound_start {t : CaseTables} (ht : CaseReachable authority planHead t) :
    ∃ h, (start t).Sound authority planHead h := by
  obtain ⟨h, hfits, hbound, hstored⟩ := ht.stored
  exact ⟨h, hfits, hbound, hstored, fun _ hx => absurd hx List.not_mem_nil,
    fun _ hk => absurd hk List.not_mem_nil⟩

/-! ## Lookups -/

omit [DecidableEq D] in
/-- A read of the tables finds each of their commits by its identifier. -/
theorem Sound.find?_commits (hs : s.Sound authority planHead h) {commit : CaseStoreCommit D}
    (hcommit : commit ∈ (h.state authority planHead).commits) :
    (h.state authority planHead).commits.find? (fun c => c.operationId = commit.operationId) =
      some commit := by
  have hids : (h.state authority planHead).commits.map (·.operationId) =
      h.steps.map CaseStep.operationId := h.map_operationId_state
  have hdistinct : ((h.state authority planHead).commits.map (·.operationId)).Nodup :=
    hids ▸ hs.fits.distinct
  obtain ⟨found, hfound⟩ := Option.isSome_iff_exists.mp (List.find?_isSome
    (p := fun c : CaseStoreCommit D => decide (c.operationId = commit.operationId)).mpr
      ⟨commit, hcommit, decide_eq_true rfl⟩)
  have hsame : found.operationId = commit.operationId := by
    simpa using List.find?_some hfound
  rw [hfound, List.inj_on_of_nodup_map hdistinct (List.mem_of_find?_eq_some hfound) hcommit hsame]

/-- **A commit of the tables is looked up**, and its identifier is taken. -/
theorem Sound.lookup (hs : s.Sound authority planHead h) {commit : CaseStoreCommit D}
    (hcommit : commit ∈ (h.state authority planHead).commits) :
    alone false (lookupAction authority planHead commit.operationId (hex commit.requestDigest))
        s.tables = (.ok (some commit), s.tables) ∧
      ∀ w : CaseWrite D, w.operationId = commit.operationId →
        alone true (writeAction authority planHead w) s.tables =
          (.error (.validation (.conflict "case operation ID already consumed; use lookup")),
            s.tables) := by
  have hread := readCase_eq_ok.mpr ⟨h, hs.fits, hs.stored, rfl⟩
  have hoperations : (h.read authority planHead).operations = (h.state authority planHead).commits := rfl
  constructor
  · refine (alone_eq_ok (caseComputes_lookupAction authority planHead commit.operationId
      (hex commit.requestDigest)).computes).mpr ⟨s.tables, .none, ?_, rfl⟩
    rw [hread]
    simp only [ok_bind, hoperations, hs.find?_commits hcommit]
    refine bind_eq_ok.mpr ⟨(), require_of ?_, rfl⟩
    rintro _ ⟨⟩
    rfl
  · intro w hw
    have hprepare : prepareWrite authority w (h.read authority planHead) =
        .error (.conflict "case operation ID already consumed; use lookup") := by
      have htaken : ¬∀ c ∈ (h.read authority planHead).operations, c.operationId ≠ w.operationId :=
        fun hall => hall commit hcommit hw.symm
      rw [prepareWrite, require, if_neg htaken]
      rfl
    have hwrite := caseComputes_writeAction authority planHead w
    rw [alone_of_error hwrite.computes true (e := .conflict _) (by rw [hread, ok_bind, hprepare]; rfl),
      hwrite.honest.flags]
    rfl

/-- A disturbed write with a taken identifier leaves the tables alone, too. -/
theorem Sound.transact_taken (hs : s.Sound authority planHead h) {commit : CaseStoreCommit D}
    (hcommit : commit ∈ (h.state authority planHead).commits) {w : CaseWrite D}
    (hw : w.operationId = commit.operationId) (faults : Faults) :
    (transact faults true (writeAction authority planHead w) s.tables).2 = s.tables := by
  refine (transact_write authority planHead faults w s.tables).2.resolve_right ?_
  rintro ⟨c, hc⟩
  rw [(hs.lookup hcommit).2 w hw] at hc
  cases (Prod.mk.inj hc).1

/-! ## The public operations -/

omit [WideHex D] in
/-- An undisturbed snapshot is a step. -/
theorem snapshot_step {expected : CaseStoreCheckpoint D} {x : StoredCase D} {u : CaseTables}
    (h : alone false (snapshotAction authority planHead (some expected)) s.tables = (.ok x, u)) :
    Step authority planHead s none { s with snapshots := x :: s.snapshots } ∧ u = s.tables ∧
      x.checkpoint = expected := by
  obtain ⟨rfl, r, -, hexpected, rfl⟩ := snapshot_eq_ok.mp h
  exact ⟨@Step.snapshot D _ _ authority planHead s [] (some expected) _ (congrArg Prod.fst h), rfl,
    hexpected expected rfl⟩

omit [WideHex D] in
/-- An undisturbed write that returns is a step. -/
theorem write_step {w : CaseWrite D} (hw : Prepared authority planHead s w)
    {commit : CaseStoreCommit D} {u : CaseTables}
    (h : alone true (writeAction authority planHead w) s.tables = (.ok commit, u)) :
    Step authority planHead s (some commit) { s with tables := u } :=
  @Step.returned D _ _ authority planHead s w [] commit u hw h

omit [WideHex D] in
/-- A claim that returns has read a snapshot and selected an adapter before its write. -/
theorem claimObservation_split {registry : ObservationRegistry} {requestId : Identifier}
    {expected : CaseStoreCheckpoint D} {commit : CaseStoreCommit D} {t u : CaseTables}
    (hclaim : claimObservation authority planHead registry requestId expected t = (.ok commit, u)) :
    ∃ x key, alone false (snapshotAction authority planHead (some expected)) t = (.ok x, t) ∧
      claimOf authority planHead registry x = .ok key ∧
      alone true (writeAction authority planHead (claimWrite requestId expected key)) t =
        (.ok commit, u) := by
  obtain ⟨key, t', hkey, hwrite⟩ := Action.bind_eq_ok.mp hclaim
  simp only [claimKey, Action.bind_eq_ok, checked_eq_ok, valid_eq_ok] at hkey
  obtain ⟨_, _, ⟨hlimits, rfl⟩, x, _, hsnapshot, k, hkey⟩ := hkey
  obtain ⟨_, ⟨hprepare, rfl⟩, plan, _, ⟨hplan, rfl⟩, hselect, rfl⟩ := hkey
  obtain ⟨rfl, -⟩ := snapshot_eq_ok.mp hsnapshot
  refine ⟨x, key, hsnapshot, ?_, hwrite⟩
  simp only [claimOf, bind_eq_ok, valid_eq_ok, exists_unit]
  exact ⟨hlimits, k, hprepare, plan, hplan, hselect⟩

omit [WideHex D] in
/-- A claim that returns is a run that ends with its write. -/
theorem claimObservation_run {registry : ObservationRegistry} {requestId : Identifier}
    {expected : CaseStoreCheckpoint D} {commit : CaseStoreCommit D} {u : CaseTables}
    (hclaim : claimObservation authority planHead registry requestId expected s.tables =
      (.ok commit, u)) :
    ∃ s₁ s₂, Run authority planHead s s₁ ∧ Step authority planHead s₁ (some commit) s₂ ∧
      s₂.tables = u := by
  obtain ⟨x, key, hsnapshot, hkey, hwrite⟩ := claimObservation_split hclaim
  obtain ⟨hstep, -, rfl⟩ := snapshot_step hsnapshot
  exact ⟨_, _, .single ⟨none, hstep⟩, write_step (.claim List.mem_cons_self hkey) hwrite, rfl⟩

omit [WideHex D] in
/-- A finish that returns is a run that ends with its write. -/
theorem finishObservation_run {requestId operationId : Identifier}
    {expected : CaseStoreCheckpoint D} {output : Option Bytes} {status : CaseObservationStatus}
    {errorCode : Option Identifier} {commit : CaseStoreCommit D} {u : CaseTables}
    (hfinish : finishObservation authority planHead requestId operationId expected output status
      errorCode s.tables = (.ok commit, u)) :
    ∃ s₁ s₂, Run authority planHead s s₁ ∧ Step authority planHead s₁ (some commit) s₂ ∧
      s₂.tables = u := by
  obtain ⟨⟨o, admitted⟩, t, hprepare, hwrite⟩ := Action.bind_eq_ok.mp hfinish
  simp only [prepareFinish, Action.bind_eq_ok, checked_eq_ok, require_eq_ok, orError_eq_ok,
    Action.pure_eq_ok, Prod.mk.injEq] at hprepare
  obtain ⟨x, _, hsnapshot, _, _, ⟨hpending, rfl⟩, plan, _, hprepare⟩ := hprepare
  obtain ⟨⟨hplan, rfl⟩, kept, _, ⟨hadmitted, rfl⟩, claimed, _, hclaimed, key, hprepare⟩ := hprepare
  obtain ⟨_, ⟨hkey, rfl⟩, made, _, ⟨hmade, rfl⟩, hpair, rfl⟩ := hprepare
  obtain ⟨rfl, rfl⟩ := hpair
  obtain ⟨hstep, rfl, rfl⟩ := snapshot_step hsnapshot
  obtain ⟨rfl, -⟩ := claimedKey_eq_ok.mp hclaimed
  have hfinish : finishOf x claimed requestId output status errorCode = .ok (made, kept) := by
    simp only [finishOf, bind_eq_ok, require_eq_ok, orError_eq_ok, exists_unit, Except.ok.injEq,
      Prod.mk.injEq]
    exact ⟨hpending, plan, hplan, kept, hadmitted, key, hkey, made, hmade, rfl, rfl⟩
  have hstep' : Step authority planHead { s with snapshots := x :: s.snapshots } none
      ⟨s.tables, x :: s.snapshots, claimed :: s.keys⟩ :=
    @Step.claimedKey D _ _ authority planHead { s with snapshots := x :: s.snapshots } [] claimed
      (congrArg Prod.fst hclaimed)
  have hprepared : Prepared authority planHead
      (⟨s.tables, x :: s.snapshots, claimed :: s.keys⟩ : CaseSystem D)
      (finishWrite operationId requestId x.checkpoint made kept) :=
    .finish List.mem_cons_self List.mem_cons_self hfinish
  exact ⟨_, _, (Relation.ReflTransGen.single ⟨none, hstep⟩).tail ⟨none, hstep'⟩,
    write_step hprepared hwrite, rfl⟩

omit [WideHex D] in
/-- A verdict that returns has read a snapshot and made its write of it. -/
theorem appendCheckedVerdict_split {operationId evaluatorId : Identifier}
    {expected : CaseStoreCheckpoint D} {commit : CaseStoreCommit D} {t u : CaseTables}
    (hverdict : appendCheckedVerdict authority planHead operationId evaluatorId expected t =
      (.ok commit, u)) :
    ∃ x w, alone false (snapshotAction authority planHead (some expected)) t = (.ok x, t) ∧
      verdictOf x operationId evaluatorId = .ok w ∧
      alone true (writeAction authority planHead w) t = (.ok commit, u) := by
  obtain ⟨x, t', hsnapshot, hwrite⟩ := Action.bind_eq_ok.mp hverdict
  obtain ⟨rfl, r, hread, hexpected, rfl⟩ := snapshot_eq_ok.mp hsnapshot
  obtain rfl := hexpected expected rfl
  obtain ⟨w, hw, hwrite⟩ : ∃ w, verdictOf r.snapshot operationId evaluatorId = .ok w ∧
      alone true (writeAction authority planHead w) t' = (.ok commit, u) := by
    unfold verdictOf
    generalize r.snapshot.journal.records = records at hwrite
    rcases records with _ | ⟨_ | _ | _ | _, _ | ⟨_ | _ | _ | _, _ | _⟩⟩
    all_goals first
      | exact absurd (checked_eq_ok.mp hwrite).1 nofun
      | exact ⟨_, rfl, hwrite⟩
  exact ⟨r.snapshot, w, hsnapshot, hw, hwrite⟩

omit [WideHex D] in
/-- A verdict that returns is a run that ends with its write. -/
theorem appendCheckedVerdict_run {operationId evaluatorId : Identifier}
    {expected : CaseStoreCheckpoint D} {commit : CaseStoreCommit D} {u : CaseTables}
    (hverdict : appendCheckedVerdict authority planHead operationId evaluatorId expected s.tables =
      (.ok commit, u)) :
    ∃ s₁ s₂, Run authority planHead s s₁ ∧ Step authority planHead s₁ (some commit) s₂ ∧
      s₂.tables = u := by
  obtain ⟨x, w, hsnapshot, hw, hwrite⟩ := appendCheckedVerdict_split hverdict
  obtain ⟨hstep, -, -⟩ := snapshot_step hsnapshot
  exact ⟨_, _, .single ⟨none, hstep⟩, write_step (.verdict List.mem_cons_self hw) hwrite, rfl⟩

end CaseSystem

/-! ## Operations with a taken identifier -/

section Taken

/-- An operation that leaves the tables alone. -/
def Reads {α : Type} (a : CaseAction α) : Prop := ∀ t, (a t).2 = t

theorem reads_checked {α : Type} (x : Result α) : Reads (checked x) := fun _ => rfl

theorem reads_pure {α : Type} (a : α) : Reads (pure a : CaseAction α) := fun _ => rfl

theorem reads_alone {α : Type} {action : CaseProgram α}
    {f : CaseTables → CommitOutcome → Result (α × CaseTables × CommitOutcome)}
    (h : CaseComputes action f) : Reads (alone false action) := transact_reading h []

theorem Reads.bind {α β : Type} {a : CaseAction α} {k : α → CaseAction β} (ha : Reads a)
    (hk : ∀ x, Reads (k x)) : Reads (a >>= k) := by
  intro t
  have ht := ha t
  rw [Action.bind_apply]
  rcases hat : a t with ⟨e | x, u⟩
  · rwa [hat] at ht
  · rw [hat] at ht
    exact (hk x u).trans ht

/-- An operation that reads and then fails without a change does so as a whole. -/
theorem Reads.fails {α β : Type} {a : CaseAction α} {k : α → CaseAction β} (ha : Reads a)
    {t : CaseTables} (hk : ∀ x, ∃ e, k x t = (.error e, t)) : ∃ e, (a >>= k) t = (.error e, t) := by
  have ht := ha t
  rw [Action.bind_apply]
  rcases hat : a t with ⟨e | x, u⟩
  · rw [hat] at ht
    exact ⟨e, congrArg (Prod.mk _) ht⟩
  · rw [hat] at ht
    obtain rfl : u = t := ht
    exact hk x

variable {authority : CaseAuthority} {planHead : D}

theorem reads_snapshot (expected : Option (CaseStoreCheckpoint D)) :
    Reads (alone false (snapshotAction authority planHead expected)) :=
  let ⟨_, h⟩ := caseComputes_snapshotAction authority planHead expected
  reads_alone h

theorem reads_claimKey (registry : ObservationRegistry) (expected : CaseStoreCheckpoint D) :
    Reads (claimKey authority planHead registry expected) :=
  (reads_checked _).bind fun _ => (reads_snapshot _).bind fun _ => (reads_checked _).bind fun _ =>
    (reads_checked _).bind fun _ => reads_checked _

theorem reads_prepareFinish (requestId : Identifier) (expected : CaseStoreCheckpoint D)
    (output : Option Bytes) (status : CaseObservationStatus) (errorCode : Option Identifier) :
    Reads (prepareFinish authority planHead requestId expected output status errorCode) :=
  let ⟨_, h⟩ := caseComputes_claimedKeyAction authority planHead
  (reads_snapshot _).bind fun _ => (reads_checked _).bind fun _ => (reads_checked _).bind fun _ =>
    (reads_checked _).bind fun _ => (reads_alone h).bind fun _ => (reads_checked _).bind fun _ =>
      (reads_checked _).bind fun _ => reads_pure _

/-- No operation takes place under the identifier. -/
structure Taken (authority : CaseAuthority) (planHead : D) (operationId : Identifier)
    (t : CaseTables) : Prop where
  claim : ∀ registry expected,
    ∃ e, claimObservation authority planHead registry operationId expected t = (.error e, t)
  finish : ∀ requestId expected output status errorCode, ∃ e, finishObservation authority planHead
    requestId operationId expected output status errorCode t = (.error e, t)
  verdict : ∀ evaluatorId expected,
    ∃ e, appendCheckedVerdict authority planHead operationId evaluatorId expected t = (.error e, t)

/-- Where every write with an identifier fails, every operation with it does. -/
theorem taken_of_writes {operationId : Identifier} {t : CaseTables} {e : Failure PyError}
    (h : ∀ w : CaseWrite D, w.operationId = operationId →
      alone true (writeAction authority planHead w) t = (.error e, t)) :
    Taken authority planHead operationId t where
  claim registry expected := (reads_claimKey registry expected).fails fun key =>
    ⟨e, h (claimWrite operationId expected key) rfl⟩
  finish requestId expected output status errorCode :=
    (reads_prepareFinish requestId expected output status errorCode).fails fun (o, admitted) =>
      ⟨e, h (finishWrite operationId requestId expected o admitted) rfl⟩
  verdict evaluatorId expected := by
    refine (reads_snapshot (some expected)).fails fun x => ?_
    generalize x.journal.records = records
    split
    · exact ⟨_, h _ rfl⟩
    · exact ⟨_, rfl⟩

end Taken

/-! ## The result -/

variable [WideHex D] {authority : CaseAuthority} {planHead : D}

/-- **A returned commit is looked up unchanged ever after.** On the tables of every later state the
lookup of its identifier with its request digest returns it, a write with its identifier is a
conflict, no operation takes place under it, and all this changes no table. -/
theorem lookup_returns_commit {t : CaseTables} (ht : CaseReachable authority planHead t)
    {s s' s'' : CaseSystem D} (hrun : CaseSystem.Run authority planHead (.start t) s)
    {commit : CaseStoreCommit D} (hwrite : CaseSystem.Step authority planHead s (some commit) s')
    (hlater : CaseSystem.Run authority planHead s' s'') :
    alone false (lookupAction authority planHead commit.operationId (hex commit.requestDigest))
        s''.tables = (.ok (some commit), s''.tables) ∧
      (∀ w : CaseWrite D, w.operationId = commit.operationId →
        alone true (writeAction authority planHead w) s''.tables =
            (.error (.validation (.conflict "case operation ID already consumed; use lookup")),
              s''.tables) ∧
          ∀ faults, (transact faults true (writeAction authority planHead w) s''.tables).2 =
            s''.tables) ∧
      Taken authority planHead commit.operationId s''.tables := by
  obtain ⟨h₀, hs₀⟩ := CaseSystem.sound_start ht
  obtain ⟨h₁, hs₁, -⟩ := hs₀.run hrun
  obtain ⟨h₂, hs₂, -, hcommit⟩ := hs₁.step hwrite
  obtain ⟨h₃, hs₃, hkept⟩ := hs₂.run hlater
  have hmem := hkept commit (hcommit commit rfl)
  obtain ⟨hlookup, htaken⟩ := hs₃.lookup hmem
  exact ⟨hlookup, fun w hw => ⟨htaken w hw, hs₃.transact_taken hmem hw⟩, taken_of_writes htaken⟩

/-- The claim of the sample's plan is looked up. -/
theorem lookup_returns_commit_sample : ∃ (t u : CaseTables) (commit : CaseStoreCommit HexDigest),
    CaseReachable sampleCaseAuthority (sampleHead HexDigest) t ∧
      alone false (lookupAction sampleCaseAuthority (sampleHead HexDigest) commit.operationId
        (hex commit.requestDigest)) u = (.ok (some commit), u) ∧
      Taken sampleCaseAuthority (sampleHead HexDigest) commit.operationId u := by
  have hfits := (strayCase_fits (D := HexDigest)).claimed
  obtain ⟨t, hreachable, hstored⟩ := reachable_created hfits.created
  obtain ⟨u, commit, hclaim, -⟩ := claimObservation_created hfits hstored
  obtain ⟨s, s', hrun, hstep, rfl⟩ := CaseSystem.claimObservation_run (s := .start t) hclaim
  obtain ⟨hlookup, -, htaken⟩ := lookup_returns_commit hreachable hrun hstep .refl
  exact ⟨t, s'.tables, commit, hreachable, hlookup, htaken⟩

end EvidenceBraid
