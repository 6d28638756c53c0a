import EvidenceBraid.Errors
import EvidenceBraid.Library.Session

/-!
# The transaction runners of the two stores

`SQLiteWorkflowStore._run` and `SQLiteCaseStore._run`: connect, `BEGIN`, the action, `COMMIT` or
`ROLLBACK`, and the cleanup, where every step may raise. They differ in which exception survives a
failing cleanup, and in who decides to commit.
-/

namespace EvidenceBraid

open Transaction

/-- The outcome that an error is labelled with. -/
inductive CommitOutcome where
  | none | unknown | complete
  deriving DecidableEq, Repr

/-- How a runner ends with an exception: a control exception or a plain validation error is raised
again, and anything else becomes a storage error. -/
inductive Failure (ε : Type) where
  | control (outcome : CommitOutcome)
  | validation (error : ε)
  | storage (outcome : CommitOutcome)
  deriving DecidableEq, Repr

section Runners

variable {σ τ ε α : Type}

/-- The last statements of `_run`. -/
def conclude (isValidation : ε → Bool) (outcome : CommitOutcome) : Raised ε → Failure ε
  | .control => .control outcome
  | .ordinary e =>
    if isValidation e = true ∧ outcome = .none then .validation e else .storage outcome

/-- A cleanup step. With an exception pending, `survivor` chooses between it and the cleanup's. -/
def cleanup (survivor : Raised ε → Raised ε → Raised ε) (clean : Program σ τ ε Unit)
    (result : Except (Raised ε) α) (s : Session σ τ ε) : Except (Raised ε) α × Session σ τ ε :=
  match clean s with
  | (.ok _, t) => (result, t)
  | (.error error, t) =>
    match result with
    | .ok _ => (.error error, t)
    | .error primary => (.error (survivor primary error), t)

/-- The steps of `_connect` on an open connection: its file is compared again and the pragmas are
set. -/
def setup (writable : Bool) : Program σ τ ε Unit := do
  idle
  idle
  if writable then idle else pure ()

/-- `_connect`: the connection is closed where the setup fails. -/
def connect (survivor : Raised ε → Raised ε → Raised ε) (writable : Bool) : Program σ τ ε Unit :=
  fun s =>
    match (idle : Program σ τ ε Unit) s with
    | (.error e, t) => (.error e, t)
    | (.ok _, t) =>
      match setup writable t with
      | (.ok _, u) => (.ok (), u)
      | (.error primary, u) => cleanup survivor idle (.error primary) u

/-- Connect, transact, roll back and close. -/
def runWith (onConnect onCleanup : Raised ε → Raised ε → Raised ε) (writable : Bool)
    (transact : Program σ τ ε α) : Program σ τ ε α := fun s =>
  match connect onConnect writable s with
  | (.error e, t) => (.error e, t)
  | (.ok _, t) =>
    let (result, u) := transact t
    let (result, v) := cleanup onCleanup rollback result u
    cleanup onCleanup idle result v

/-! ## The workflow store -/

/-- `_Transaction`. -/
structure WorkflowFlags where
  outcome : CommitOutcome
  dirty : Bool
  deriving DecidableEq, Repr

/-- `_Transaction()`. -/
def WorkflowFlags.start : WorkflowFlags := ⟨.none, false⟩

/-- A control exception of a cleanup replaces an ordinary one. -/
def controlFirst (primary error : Raised ε) : Raised ε :=
  if primary.isControl = false ∧ error.isControl = true then error else primary

/-- The `try` block of the workflow store: a dirty transaction is committed. -/
def workflowTransact (action : Program σ WorkflowFlags ε α) : Program σ WorkflowFlags ε α := do
  begin
  let result ← action
  let flags ← getFlags
  if flags.dirty then do
    setFlags fun f => { f with outcome := .unknown }
    commit
    setFlags fun f => { f with outcome := .complete }
    pure result
  else do
    rollback
    pure result

/-- `SQLiteWorkflowStore._run`. -/
def workflowRun (isValidation : ε → Bool) (writable : Bool) (action : Program σ WorkflowFlags ε α)
    (s : Session σ WorkflowFlags ε) : Except (Failure ε) α × Session σ WorkflowFlags ε :=
  let (result, t) := runWith controlFirst controlFirst writable (workflowTransact action) s
  (result.mapError (conclude isValidation t.flags.outcome), t)

/-! ## The case store -/

/-- The first exception survives. -/
def firstRaised (primary _error : Raised ε) : Raised ε := primary

/-- The exception of the failing `close` in `_connect` replaces the pending one. -/
def lastRaised (_primary error : Raised ε) : Raised ε := error

/-- The `try` block of the case store: a writable transaction is committed. -/
def caseTransact (writable : Bool) (action : Program σ CommitOutcome ε α) :
    Program σ CommitOutcome ε α := do
  begin
  let result ← action
  if writable then do
    setFlags fun _ => .unknown
    commit
    setFlags fun _ => .complete
    pure result
  else do
    rollback
    pure result

/-- `SQLiteCaseStore._run`. -/
def caseRun (isValidation : ε → Bool) (writable : Bool) (action : Program σ CommitOutcome ε α)
    (s : Session σ CommitOutcome ε) : Except (Failure ε) α × Session σ CommitOutcome ε :=
  let (result, t) := runWith lastRaised firstRaised writable (caseTransact writable action) s
  (result.mapError (conclude isValidation t.flags), t)

/-! ## Control exceptions -/

/-- The runner's exception is a control exception exactly when a step raised one. -/
def Faithful (result : Except (Raised ε) α) (s : Session σ τ ε) : Prop :=
  s.interrupted = true ↔ result = .error .control

theorem faithful_of_transparent {a : Program σ τ ε α} (h : Transparent a) {s : Session σ τ ε}
    (hs : s.interrupted = false) : Faithful (a s).1 (a s).2 := by
  unfold Faithful
  rw [h s, hs]
  simp

/-- A cleanup in which control exceptions come first. -/
theorem Faithful.cleanup {result : Except (Raised ε) α} {s : Session σ τ ε}
    {clean : Program σ τ ε Unit} (h : Faithful result s) (hclean : Transparent clean) :
    Faithful (cleanup controlFirst clean result s).1 (cleanup controlFirst clean result s).2 := by
  have hs := hclean s
  unfold EvidenceBraid.cleanup
  unfold Faithful at h ⊢
  rcases hcs : clean s with ⟨error | u, t⟩
  · rw [hcs, h] at hs
    cases result with
    | ok a => simpa using hs
    | error primary =>
      rw [hs]
      cases primary <;> cases error <;> simp [controlFirst]
  · rw [hcs, h] at hs
    simpa using hs

theorem transparent_setup (writable : Bool) : Transparent (setup writable : Program σ τ ε Unit) := by
  have hidle : Transparent (idle : Program σ τ ε Unit) := transparent_step _
  refine hidle.bind fun _ => hidle.bind fun _ => ?_
  cases writable
  · exact transparent_pure ()
  · exact hidle

theorem faithful_connect (writable : Bool) {s : Session σ τ ε} (hs : s.interrupted = false) :
    Faithful (connect controlFirst writable s).1 (connect controlFirst writable s).2 := by
  have hidle : Transparent (idle : Program σ τ ε Unit) := transparent_step _
  have hopen := faithful_of_transparent hidle hs
  unfold connect
  rcases hst : (idle : Program σ τ ε Unit) s with ⟨e | u, t⟩
  · rwa [hst] at hopen
  · rw [hst] at hopen
    have ht : t.interrupted = false := by simpa [Faithful] using hopen
    have hsetup := faithful_of_transparent (transparent_setup writable) ht
    dsimp only
    rcases htu : setup writable t with ⟨primary | w, u⟩
    · rw [htu] at hsetup
      exact hsetup.cleanup hidle
    · rw [htu] at hsetup
      exact hsetup

/-- **Where control exceptions come first**, none is lost. -/
theorem faithful_runWith (writable : Bool) {transact : Program σ τ ε α}
    (htransact : Transparent transact) {s : Session σ τ ε} (hs : s.interrupted = false) :
    Faithful (runWith controlFirst controlFirst writable transact s).1
      (runWith controlFirst controlFirst writable transact s).2 := by
  have hconnect := faithful_connect writable hs
  unfold runWith
  rcases hst : connect controlFirst writable s with ⟨e | u, t⟩
  · rw [hst] at hconnect
    simpa [Faithful] using hconnect
  · rw [hst] at hconnect
    have ht : t.interrupted = false := by simpa [Faithful] using hconnect
    have hrolled : Transparent (rollback : Program σ τ ε Unit) := transparent_step _
    exact ((faithful_of_transparent htransact ht).cleanup hrolled).cleanup (transparent_step _)

theorem transparent_workflowTransact {action : Program σ WorkflowFlags ε α}
    (h : Transparent action) : Transparent (workflowTransact action) := by
  refine (transparent_step _).bind fun _ => h.bind fun result =>
    transparent_getFlags.bind fun flags => ?_
  split
  · exact (transparent_setFlags _).bind fun _ => (transparent_step _).bind fun _ =>
      (transparent_setFlags _).bind fun _ => transparent_pure result
  · exact (transparent_step _).bind fun _ => transparent_pure result

theorem transparent_caseTransact (writable : Bool) {action : Program σ CommitOutcome ε α}
    (h : Transparent action) : Transparent (caseTransact writable action) := by
  refine (transparent_step _).bind fun _ => h.bind fun result => ?_
  split
  · exact (transparent_setFlags _).bind fun _ => (transparent_step _).bind fun _ =>
      (transparent_setFlags _).bind fun _ => transparent_pure result
  · exact (transparent_step _).bind fun _ => transparent_pure result

/-- A run ends with a control exception. -/
def EndsInControl (result : Except (Failure ε) α) : Prop :=
  ∃ outcome, result = .error (.control outcome)

theorem endsInControl_mapError {result : Except (Raised ε) α} {isValidation : ε → Bool}
    {outcome : CommitOutcome} :
    EndsInControl (result.mapError (conclude isValidation outcome)) ↔ result = .error .control := by
  unfold EndsInControl
  cases result with
  | ok a => simp [Except.mapError]
  | error e =>
    cases e with
    | control => simp [Except.mapError, conclude]
    | ordinary e =>
      simp only [Except.mapError, conclude, Except.error.injEq, reduceCtorEq, iff_false, not_exists]
      intro o
      split_ifs <;> simp

/-- **The workflow store never swallows a control exception.** -/
theorem workflowRun_control (isValidation : ε → Bool) (writable : Bool)
    {action : Program σ WorkflowFlags ε α} (h : Transparent action)
    {s : Session σ WorkflowFlags ε} (hs : s.interrupted = false)
    (hraised : (workflowRun isValidation writable action s).2.interrupted = true) :
    EndsInControl (workflowRun isValidation writable action s).1 := by
  have hfaithful := faithful_runWith writable (transparent_workflowTransact h) hs
  exact endsInControl_mapError.mpr (hfaithful.mp hraised)

/-! ## The case store's masked exceptions -/

/-- No cleanup of these steps meets a control exception while an ordinary one is pending: neither
the rollback nor the close after the transaction, nor the close after a failed setup, where the
order is the other way. -/
structure CleanupUnmasked (writable : Bool) (transact : Program σ τ ε α) (s : Session σ τ ε) :
    Prop where
  setup : ∀ t u, (idle : Program σ τ ε Unit) s = (.ok (), t) →
    setup writable t = (.error .control, u) →
      ∀ e, ((idle : Program σ τ ε Unit) u).1 ≠ .error (.ordinary e)
  rollback : ∀ t u e, connect lastRaised writable s = (.ok (), t) →
    transact t = (.error (.ordinary e), u) →
      ((rollback : Program σ τ ε Unit) u).1 ≠ .error .control ∧
        ((idle : Program σ τ ε Unit) ((rollback : Program σ τ ε Unit) u).2).1 ≠ .error .control
  close : ∀ t u a e v, connect lastRaised writable s = (.ok (), t) → transact t = (.ok a, u) →
    (Transaction.rollback : Program σ τ ε Unit) u = (.error (.ordinary e), v) →
      ((idle : Program σ τ ε Unit) v).1 ≠ .error .control

/-- A step after an uninterrupted one. -/
theorem interrupted_of_transparent {x : Program σ τ ε α} (hx : Transparent x)
    {s t : Session σ τ ε} {r : Except (Raised ε) α} (h : x s = (r, t)) :
    t.interrupted = true ↔ s.interrupted = true ∨ r = .error .control := by
  have hs := hx s
  rwa [h] at hs

/-- The case store's `_connect` loses a control exception exactly where `setup` says. -/
theorem caseConnect_control (writable : Bool) {s : Session σ τ ε} (hs : s.interrupted = false) :
    ((connect lastRaised writable s).2.interrupted = true →
        (connect lastRaised writable s).1 = .error .control) ↔
      ∀ t u, (idle : Program σ τ ε Unit) s = (.ok (), t) → setup writable t = (.error .control, u) →
        ∀ e, ((idle : Program σ τ ε Unit) u).1 ≠ .error (.ordinary e) := by
  have hidle : Transparent (idle : Program σ τ ε Unit) := transparent_step _
  unfold connect
  rcases hst : (idle : Program σ τ ε Unit) s with ⟨e | ⟨⟩, t⟩
  · have ht := interrupted_of_transparent hidle hst
    simp [ht, hs]
  · have ht := interrupted_of_transparent hidle hst
    rcases htu : setup writable t with ⟨made, u⟩
    rcases huv : (idle : Program σ τ ε Unit) u with ⟨closed, v⟩
    have hu := interrupted_of_transparent (transparent_setup writable) htu
    have hv := interrupted_of_transparent hidle huv
    have hcondition : (∀ t' u', (Except.ok (), t) = ((Except.ok (), t') : Except (Raised ε) Unit × _) →
        setup writable t' = (.error .control, u') →
          ∀ e, ((idle : Program σ τ ε Unit) u').1 ≠ .error (.ordinary e)) ↔
        (made = .error .control → ∀ e, closed ≠ .error (.ordinary e)) := by
      constructor
      · intro h hmade
        have hclosed := h t u rfl (by rw [htu, hmade])
        rwa [huv] at hclosed
      · intro h t' u' ht' hu'
        obtain rfl := (Prod.mk.inj ht').2
        rw [htu] at hu'
        obtain ⟨hmade, rfl⟩ := Prod.mk.inj hu'
        rw [huv]
        exact h hmade
    rw [hcondition]
    rcases made with (e | _) | ⟨⟩ <;> rcases closed with (f | _) | ⟨⟩ <;>
      simp [cleanup, huv, hv, hu, ht, hs, htu, lastRaised]

/-- A cleanup does not take an exception back. -/
theorem cleanup_error_ne_ok {survivor : Raised ε → Raised ε → Raised ε}
    {clean : Program σ τ ε Unit} {primary : Raised ε} {s : Session σ τ ε} {a : α} :
    (cleanup survivor clean (.error primary) s).1 ≠ .ok a := by
  unfold cleanup
  rcases clean s with ⟨e | ⟨⟩, t⟩ <;> simp

/-- A connection that is made was not interrupted. -/
theorem connect_ok {survivor : Raised ε → Raised ε → Raised ε} {writable : Bool}
    {s t : Session σ τ ε} (hs : s.interrupted = false)
    (h : connect survivor writable s = (.ok (), t)) : t.interrupted = false ∧
      ∃ r, (idle : Program σ τ ε Unit) s = (.ok (), r) ∧ setup writable r = (.ok (), t) := by
  unfold connect at h
  rcases hsr : (idle : Program σ τ ε Unit) s with ⟨e | ⟨⟩, r⟩
  · rw [hsr] at h
    simp at h
  · rw [hsr] at h
    have hr := interrupted_of_transparent (transparent_step _) hsr
    dsimp only at h
    rcases hru : setup writable r with ⟨primary | ⟨⟩, u⟩
    · rw [hru] at h
      exact absurd (congrArg Prod.fst h) cleanup_error_ne_ok
    · rw [hru] at h
      obtain rfl : u = t := (Prod.mk.inj h).2
      have hu := interrupted_of_transparent (transparent_setup writable) hru
      simp only [hr, hs, Bool.false_eq_true, reduceCtorEq, or_self, iff_false,
        Bool.not_eq_true] at hu
      exact ⟨hu, r, rfl, hru⟩

/-- **The case store swallows a control exception exactly where a cleanup masks one.** -/
theorem caseRun_control_iff (isValidation : ε → Bool) (writable : Bool)
    {action : Program σ CommitOutcome ε α} (h : Transparent action)
    {s : Session σ CommitOutcome ε} (hs : s.interrupted = false) :
    ((caseRun isValidation writable action s).2.interrupted = true →
        EndsInControl (caseRun isValidation writable action s).1) ↔
      CleanupUnmasked writable (caseTransact writable action) s := by
  have htransact := transparent_caseTransact writable h
  have hidle : Transparent (idle : Program σ CommitOutcome ε Unit) := transparent_step _
  have hrollback : Transparent (rollback : Program σ CommitOutcome ε Unit) := transparent_step _
  have hconnect := caseConnect_control writable hs
  unfold caseRun
  rw [endsInControl_mapError]
  unfold runWith
  rcases hst : connect lastRaised writable s with ⟨e | ⟨⟩, t⟩
  · rw [hst] at hconnect
    simp only [Except.error.injEq] at hconnect ⊢
    rw [hconnect]
    exact ⟨fun hsetup => ⟨hsetup, by simp [hst], by simp [hst]⟩, fun hc => hc.setup⟩
  · obtain ⟨ht, r, hsr, hrt⟩ := connect_ok hs hst
    rcases htu : caseTransact writable action t with ⟨result, u⟩
    rcases huv : (rollback : Program σ CommitOutcome ε Unit) u with ⟨rolled, v⟩
    rcases hvw : (idle : Program σ CommitOutcome ε Unit) v with ⟨closed, w⟩
    have hu := interrupted_of_transparent htransact htu
    have hv := interrupted_of_transparent hrollback huv
    have hw := interrupted_of_transparent hidle hvw
    have hunmasked : CleanupUnmasked writable (caseTransact writable action) s ↔
        (∀ e, result = .error (.ordinary e) → rolled ≠ .error .control ∧ closed ≠ .error .control) ∧
          ∀ a e, result = .ok a → rolled = .error (.ordinary e) → closed ≠ .error .control := by
      constructor
      · intro hc
        refine ⟨fun e he => ?_, fun a e ha he => ?_⟩
        · have hboth := hc.rollback t u e hst (by rw [htu, he])
          rw [huv] at hboth
          dsimp only at hboth
          rwa [hvw] at hboth
        · have hclosed := hc.close t u a e v hst (by rw [htu, ha]) (by rw [huv, he])
          rwa [hvw] at hclosed
      · rintro ⟨hordinary, hreturned⟩
        refine ⟨?_, ?_, ?_⟩
        · intro t' u' ht' hu'
          rw [hsr] at ht'
          rw [← (Prod.mk.inj ht').2, hrt] at hu'
          simp at hu'
        · intro t' u' e ht' hu'
          rw [hst] at ht'
          obtain rfl := (Prod.mk.inj ht').2
          rw [htu] at hu'
          obtain ⟨he, rfl⟩ := Prod.mk.inj hu'
          rw [huv]
          dsimp only
          rw [hvw]
          exact hordinary e he
        · intro t' u' a e v' ht' hu' hv'
          rw [hst] at ht'
          obtain rfl := (Prod.mk.inj ht').2
          rw [htu] at hu'
          obtain ⟨ha, rfl⟩ := Prod.mk.inj hu'
          rw [huv] at hv'
          obtain ⟨he, rfl⟩ := Prod.mk.inj hv'
          rw [hvw]
          exact hreturned a e ha he
    rw [hunmasked]
    simp only [htu, cleanup, huv]
    rcases result with (e | _) | a <;> rcases rolled with (f | _) | ⟨⟩ <;>
      rcases closed with (g | _) | ⟨⟩ <;>
      simp [hvw, firstRaised, hw, hv, hu, ht]

/-- **Which control exceptions the two stores swallow.** Seen from the runner, where the action is
one step: the workflow store none, and the case store one exactly where a cleanup masks it. -/
theorem run_control_iff (isValidation : ε → Bool) (writable : Bool)
    (workflowAction : Program σ WorkflowFlags ε α) (caseAction : Program σ CommitOutcome ε α)
    {s : Session σ WorkflowFlags ε} (hs : s.interrupted = false)
    {t : Session σ CommitOutcome ε} (ht : t.interrupted = false) :
    (((workflowRun isValidation writable (observed workflowAction) s).2.interrupted = true →
          EndsInControl (workflowRun isValidation writable (observed workflowAction) s).1) ∧
        ((caseRun isValidation writable (observed caseAction) t).2.interrupted = true →
          EndsInControl (caseRun isValidation writable (observed caseAction) t).1)) ↔
      CleanupUnmasked writable (caseTransact writable (observed caseAction)) t := by
  rw [caseRun_control_iff isValidation writable (transparent_observed caseAction) ht]
  constructor
  · intro h
    exact h.2
  · intro h
    exact ⟨workflowRun_control isValidation writable (transparent_observed workflowAction) hs, h⟩

end Runners

/-- A write of the case store that finds its checkpoint stale. -/
def staleWrite : Program ℕ CommitOutcome PyError Unit :=
  compute (.error (.conflict "case write checkpoint is stale"))

/-- The connection is opened and set up, the transaction begins, and `ROLLBACK` is interrupted. -/
def interruptedRollback {τ : Type} (flags : τ) : Session ℕ τ PyError :=
  ⟨⟨0, 0⟩, flags, [none, none, none, none, none, none, some ⟨.control, false⟩], false⟩

theorem run_control_iff_unmasked :
    CleanupUnmasked false (caseTransact false (observed (pure ()))) (⟨⟨0, 0⟩, .none, [], false⟩ :
      Session ℕ CommitOutcome PyError) := by
  refine (run_control_iff PyError.isValidationError false
    (pure () : Program ℕ WorkflowFlags PyError Unit) (pure ()) (s := ⟨⟨0, 0⟩, .start, [], false⟩)
    rfl rfl).mp ⟨?_, ?_⟩
  · intro h
    cases h
  · intro h
    cases h

/-- The stale write ends in a plain conflict, and the interrupt is lost. -/
theorem caseRun_swallows : ¬ ∀ (writable : Bool)
    (workflowAction : Program ℕ WorkflowFlags PyError Unit)
    (caseAction : Program ℕ CommitOutcome PyError Unit)
    (s : Session ℕ WorkflowFlags PyError) (t : Session ℕ CommitOutcome PyError),
    s.interrupted = false → t.interrupted = false →
      ((workflowRun PyError.isValidationError writable (observed workflowAction) s).2.interrupted =
          true → EndsInControl
            (workflowRun PyError.isValidationError writable (observed workflowAction) s).1) ∧
        ((caseRun PyError.isValidationError writable (observed caseAction) t).2.interrupted = true →
          EndsInControl (caseRun PyError.isValidationError writable (observed caseAction) t).1) := by
  intro h
  obtain ⟨outcome, hends⟩ := (h true (pure ()) staleWrite (interruptedRollback .start)
    (interruptedRollback .none) rfl rfl).2 rfl
  cases hends

end EvidenceBraid
