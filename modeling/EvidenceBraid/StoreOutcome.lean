import EvidenceBraid.StoreRun

/-!
# What the outcome of a transaction says

Whatever steps of a run fail, its end tells the truth about the durable database: `none` and a
plain validation error say that nothing was written, `complete` and a normal return of a writing
action that everything was, and only `unknown` leaves both open.

The durable database changes in `COMMIT` alone, so a run is followed from the copy that its action
leaves (`TruthfulOutcome`) through the cleanups, which keep both the database and the label
(`Untouched`).
-/

namespace EvidenceBraid

open Transaction

variable {σ τ ε α : Type}

/-- A program that leaves its flags alone. -/
def KeepsFlags (a : Program σ τ ε α) : Prop := ∀ s, (a s).2.flags = s.flags

theorem keepsFlags_step (f : Copies σ → Except ε α × Copies σ) :
    KeepsFlags (step f : Program σ τ ε α) := step_flags f

theorem keepsFlags_pure (a : α) : KeepsFlags (pure a : Program σ τ ε α) := fun _ => rfl

/-- What holds of the flags before and after the rest holds after both. -/
theorem KeepsFlags.bind_flags {β : Type} {x : Program σ τ ε α} (hx : KeepsFlags x)
    {f : α → Program σ τ ε β} {P : τ → Prop} {s : Session σ τ ε} (hs : P s.flags)
    (hf : ∀ a t, x s = (.ok a, t) → t.flags = s.flags → P (f a t).2.flags) :
    P ((x >>= f) s).2.flags := by
  have hflags := hx s
  rw [bind_apply]
  rcases hxs : x s with ⟨e | a, t⟩
  · rw [hxs] at hflags
    rwa [show t.flags = s.flags from hflags]
  · rw [hxs] at hflags
    exact hf a t hxs hflags

theorem KeepsFlags.bind {β : Type} {x : Program σ τ ε α} (hx : KeepsFlags x)
    {f : α → Program σ τ ε β} (hf : ∀ a, KeepsFlags (f a)) : KeepsFlags (x >>= f) := by
  intro s
  exact hx.bind_flags (P := (· = s.flags)) rfl fun a t _ ht => (hf a t).trans ht

/-! ## What connecting and cleaning up leave -/

/-- The durable database and the flags are as before. -/
structure Untouched (s t : Session σ τ ε) : Prop where
  durable : t.copies.durable = s.copies.durable
  flags : t.flags = s.flags

theorem Untouched.trans {s t u : Session σ τ ε} (h : Untouched s t) (h' : Untouched t u) :
    Untouched s u :=
  ⟨h'.durable.trans h.durable, h'.flags.trans h.flags⟩

theorem untouched_step {f : Copies σ → Except ε α × Copies σ}
    (h : ∀ c, (f c).2.durable = c.durable) (s : Session σ τ ε) : Untouched s (step f s).2 :=
  ⟨keepsDurable_step h s, step_flags f s⟩

theorem untouched_idle (s : Session σ τ ε) : Untouched s ((idle : Program σ τ ε Unit) s).2 :=
  untouched_step (fun _ => rfl) s

theorem untouched_rollback (s : Session σ τ ε) :
    Untouched s ((rollback : Program σ τ ε Unit) s).2 :=
  untouched_step (fun _ => rfl) s

theorem untouched_bind {β : Type} {x : Program σ τ ε β} {f : β → Program σ τ ε α}
    (hx : ∀ s, Untouched s (x s).2) (hf : ∀ b s, Untouched s (f b s).2) (s : Session σ τ ε) :
    Untouched s ((x >>= f) s).2 := by
  have hs := hx s
  rw [bind_apply]
  rcases hxs : x s with ⟨e | b, t⟩
  · rwa [hxs] at hs
  · rw [hxs] at hs
    exact hs.trans (hf b t)

theorem untouched_setup (writable : Bool) (s : Session σ τ ε) :
    Untouched s (setup writable s).2 := by
  refine untouched_bind untouched_idle (fun _ => untouched_bind untouched_idle fun _ => ?_) s
  cases writable
  · exact fun _ => ⟨rfl, rfl⟩
  · exact untouched_idle

/-- A cleanup keeps what its step keeps, and returns only what was returned. -/
theorem untouched_cleanup (survivor : Raised ε → Raised ε → Raised ε) {clean : Program σ τ ε Unit}
    (h : ∀ s, Untouched s (clean s).2) (result : Except (Raised ε) α) (s : Session σ τ ε) :
    Untouched s (cleanup survivor clean result s).2 ∧
      ∀ a, (cleanup survivor clean result s).1 = .ok a → result = .ok a := by
  have hs := h s
  unfold cleanup
  rcases hcs : clean s with ⟨e | u, t⟩
  · rw [hcs] at hs
    cases result <;> exact ⟨hs, by simp⟩
  · rw [hcs] at hs
    exact ⟨hs, fun a ha => ha⟩

theorem untouched_connect (survivor : Raised ε → Raised ε → Raised ε) (writable : Bool)
    (s : Session σ τ ε) : Untouched s (connect survivor writable s).2 := by
  have hs := untouched_idle s
  unfold connect
  rcases hst : (idle : Program σ τ ε Unit) s with ⟨e | u, t⟩
  · rwa [hst] at hs
  · rw [hst] at hs
    have ht := untouched_setup writable t
    dsimp only
    rcases htu : setup writable t with ⟨primary | w, u⟩
    · rw [htu] at ht
      have hclean := untouched_cleanup survivor untouched_idle
        (.error primary : Except (Raised ε) Unit) u
      exact (hs.trans ht).trans hclean.1
    · rw [htu] at ht
      exact hs.trans ht

/-- The session in which a run starts its action. -/
def actionStart (onConnect : Raised ε → Raised ε → Raised ε) (writable : Bool)
    (s : Session σ τ ε) : Session σ τ ε :=
  ((begin : Program σ τ ε Unit) (connect onConnect writable s).2).2

/-- What a run leaves is what its transaction left, or nothing was done. -/
theorem runWith_cases (onConnect onCleanup : Raised ε → Raised ε → Raised ε) (writable : Bool)
    (transact : Program σ τ ε α) (s : Session σ τ ε) :
    (Untouched s (runWith onConnect onCleanup writable transact s).2 ∧
        ∀ a, (runWith onConnect onCleanup writable transact s).1 ≠ .ok a) ∨
      Untouched (transact (connect onConnect writable s).2).2
          (runWith onConnect onCleanup writable transact s).2 ∧
        ∀ a, (runWith onConnect onCleanup writable transact s).1 = .ok a →
          (transact (connect onConnect writable s).2).1 = .ok a := by
  have hs := untouched_connect onConnect writable s
  unfold runWith
  rcases hst : connect onConnect writable s with ⟨e | u, t⟩
  · rw [hst] at hs
    exact .inl ⟨hs, by simp⟩
  · obtain ⟨hrolled, hrolledOk⟩ := untouched_cleanup onCleanup untouched_rollback
      (transact t).1 (transact t).2
    obtain ⟨hclosed, hclosedOk⟩ := untouched_cleanup onCleanup untouched_idle
      (cleanup onCleanup rollback (transact t).1 (transact t).2).1
      (cleanup onCleanup rollback (transact t).1 (transact t).2).2
    exact .inr ⟨hrolled.trans hclosed, fun a ha => hrolledOk a (hclosedOk a ha)⟩

/-! ## Truthful labels -/

section Labels

variable (historic : σ → Prop) (writes : τ → Bool) (action : Program σ τ ε α)
  (start : Session σ τ ε) (before after : σ)

/-- The action returned and wrote, and what it wrote is durable. -/
def Durable : Prop :=
  ∃ a u, action start = (.ok a, u) ∧ writes u.flags = true ∧ after = u.copies.working

/-- What the end of a run says of the database before and after it. `historic` is what a retried or
looked-up request has found there. -/
def Truthful : Except (Failure ε) α → Prop
  | .ok a => ∃ u, action start = (.ok a, u) ∧
      after = if writes u.flags = true then u.copies.working else before
  | .error (.validation _) => after = before
  | .error (.storage .none) | .error (.control .none) => after = before
  | .error (.storage .unknown) | .error (.control .unknown) =>
    after = before ∨ Durable writes action start after
  | .error (.storage .complete) | .error (.control .complete) =>
    Durable writes action start after ∨ after = before ∧ historic before

/-- What a transaction says by its result and its outcome. -/
structure TruthfulOutcome (outcome : CommitOutcome) (result : Except (Raised ε) α) : Prop where
  returned : ∀ a, result = .ok a → ∃ u, action start = (.ok a, u) ∧
    after = if writes u.flags = true then u.copies.working else before
  none : outcome = .none → after = before
  unknown : after = before ∨ Durable writes action start after
  complete : outcome = .complete →
    Durable writes action start after ∨ after = before ∧ historic before

variable {historic writes action start before after}

theorem TruthfulOutcome.truthful {outcome : CommitOutcome} {result : Except (Raised ε) α}
    (h : TruthfulOutcome historic writes action start before after outcome result)
    (isValidation : ε → Bool) : Truthful historic writes action start before after
      (result.mapError (conclude isValidation outcome)) := by
  cases result with
  | ok a => exact h.returned a rfl
  | error e =>
    cases e with
    | control =>
      cases outcome with
      | none => exact h.none rfl
      | unknown => exact h.unknown
      | complete => exact h.complete rfl
    | ordinary e =>
      simp only [Except.mapError, conclude]
      split_ifs with hplain
      · exact h.none hplain.2
      · cases outcome with
        | none => exact h.none rfl
        | unknown => exact h.unknown
        | complete => exact h.complete rfl

/-- Nothing was done, and nothing is said. -/
theorem truthfulOutcome_untouched {outcome : CommitOutcome} {result : Except (Raised ε) α}
    (hafter : after = before) (hresult : ∀ a, result ≠ .ok a)
    (hcomplete : outcome = .complete → historic before) :
    TruthfulOutcome historic writes action start before after outcome result :=
  ⟨fun a ha => absurd ha (hresult a), fun _ => hafter, .inl hafter,
    fun ho => .inr ⟨hafter, hcomplete ho⟩⟩

end Labels

/-- A run is as truthful as its transaction. -/
theorem TruthfulOutcome.run {historic : σ → Prop} {writes : τ → Bool} {action : Program σ τ ε α}
    {onConnect onCleanup : Raised ε → Raised ε → Raised ε} {writable : Bool}
    {transact : Program σ τ ε α} (outcome : τ → CommitOutcome) {s : Session σ τ ε}
    (hstart : outcome s.flags = .none)
    (h : TruthfulOutcome historic writes action (actionStart onConnect writable s) s.copies.durable
      (transact (connect onConnect writable s).2).2.copies.durable
      (outcome (transact (connect onConnect writable s).2).2.flags)
      (transact (connect onConnect writable s).2).1) :
    TruthfulOutcome historic writes action (actionStart onConnect writable s) s.copies.durable
      (runWith onConnect onCleanup writable transact s).2.copies.durable
      (outcome (runWith onConnect onCleanup writable transact s).2.flags)
      (runWith onConnect onCleanup writable transact s).1 := by
  rcases runWith_cases onConnect onCleanup writable transact s with
    ⟨huntouched, hnone⟩ | ⟨hrun, hok⟩
  · refine truthfulOutcome_untouched huntouched.durable hnone fun hcomplete => ?_
    rw [huntouched.flags, hstart] at hcomplete
    cases hcomplete
  · rw [hrun.durable, hrun.flags]
    exact ⟨fun a ha => h.returned a (hok a ha), h.none, h.unknown, h.complete⟩

/-! ## The transaction block -/

/-- `BEGIN` leaves the database and the flags, and starts the action where it should. -/
theorem begin_cases (s : Session σ τ ε) (rest : Program σ τ ε α) :
    (∃ e, (do begin; rest : Program σ τ ε α) s = (.error e, (begin s).2) ∧
        Untouched s ((begin : Program σ τ ε Unit) s).2) ∨
      (do begin; rest : Program σ τ ε α) s = rest ((begin : Program σ τ ε Unit) s).2 ∧
        ((begin : Program σ τ ε Unit) s).2.copies = ⟨s.copies.durable, s.copies.durable⟩ ∧
        ((begin : Program σ τ ε Unit) s).2.flags = s.flags := by
  have huntouched : Untouched s ((begin : Program σ τ ε Unit) s).2 :=
    untouched_step (fun _ => rfl) s
  rw [bind_apply]
  rcases hst : (begin : Program σ τ ε Unit) s with ⟨e | ⟨⟩, t⟩
  · rw [hst] at huntouched
    exact .inl ⟨e, rfl, huntouched⟩
  · obtain ⟨-, hcopies, hflags⟩ := step_ok hst
    exact .inr ⟨rfl, hcopies, hflags⟩

/-- What is left after an action that wrote: the outcome is set around the commit. -/
theorem commit_cases (setUnknown setComplete : τ → τ) (a : α) (s : Session σ τ ε) :
    ∃ result t, (do
        setFlags setUnknown
        commit
        setFlags setComplete
        pure a : Program σ τ ε α) s = (result, t) ∧
      ((∃ e, result = .error e ∧ t.flags = setUnknown s.flags ∧
          (t.copies.durable = s.copies.durable ∨ t.copies.durable = s.copies.working)) ∨
        result = .ok a ∧ t.flags = setComplete (setUnknown s.flags) ∧
          t.copies.durable = s.copies.working) := by
  refine ⟨_, _, rfl, ?_⟩
  simp only [bind_apply, setFlags]
  have hcopies := step_copies (fun c => (Except.ok (), { c with durable := c.working }))
    { s with flags := setUnknown s.flags }
  have hflags := step_flags (fun c => (Except.ok (), { c with durable := c.working }))
    { s with flags := setUnknown s.flags }
  change (commit _).2.copies = _ ∨ (commit _).2.copies = _ at hcopies
  change (commit _).2.flags = _ at hflags
  rcases hst : (commit : Program σ τ ε Unit) { s with flags := setUnknown s.flags } with
    ⟨e | ⟨⟩, t⟩
  · rw [hst] at hcopies hflags
    refine .inl ⟨e, rfl, hflags, ?_⟩
    rcases hcopies with h | h
    · exact .inl (congrArg Copies.durable h)
    · exact .inr (congrArg Copies.durable h)
  · obtain ⟨-, hcommitted, hkept⟩ := step_ok hst
    refine .inr ⟨rfl, congrArg setComplete hkept, ?_⟩
    exact congrArg Copies.durable hcommitted

/-- What is left after an action that wrote nothing. -/
theorem rollback_cases (a : α) (s : Session σ τ ε) :
    ∃ result t, (do
        rollback
        pure a : Program σ τ ε α) s = (result, t) ∧ Untouched s t ∧
      ∀ b, result = .ok b → b = a := by
  have hrolled := untouched_rollback s
  rw [bind_apply]
  rcases hst : (rollback : Program σ τ ε Unit) s with ⟨e | ⟨⟩, t⟩
  · rw [hst] at hrolled
    exact ⟨.error e, t, rfl, hrolled, by simp⟩
  · rw [hst] at hrolled
    exact ⟨.ok a, t, rfl, hrolled, fun b hb => (Except.ok.inj hb).symm⟩

/-! ## The workflow store -/

/-- What the actions of the workflow store keep to: the database changes in `COMMIT` only, and
the outcome is theirs to set only where they report a stored operation. -/
structure HonestWorkflow (historic : σ → Prop) (action : Program σ WorkflowFlags ε α) : Prop where
  keeps : KeepsDurable action
  outcome : ∀ s : Session σ WorkflowFlags ε, s.flags = .start →
    s.copies.working = s.copies.durable → (action s).2.flags.outcome = .none ∨
      (action s).2.flags = ⟨.complete, false⟩ ∧ historic s.copies.durable

theorem truthful_workflowTransact {historic : σ → Prop} {action : Program σ WorkflowFlags ε α}
    (h : HonestWorkflow historic action) {s : Session σ WorkflowFlags ε} (hs : s.flags = .start) :
    TruthfulOutcome historic WorkflowFlags.dirty action (begin s).2 s.copies.durable
      (workflowTransact action s).2.copies.durable (workflowTransact action s).2.flags.outcome
      (workflowTransact action s).1 := by
  rcases begin_cases s (do
    let result ← action
    let flags ← getFlags
    if flags.dirty then do
      setFlags fun f => { f with outcome := .unknown }
      commit
      setFlags fun f => { f with outcome := .complete }
      pure result
    else do
      rollback
      pure result) with ⟨e, hfailed, huntouched⟩ | ⟨hbegun, hcopies, hflags⟩
  · rw [show workflowTransact action s = _ from hfailed]
    refine truthfulOutcome_untouched huntouched.durable (by simp) fun hcomplete => ?_
    rw [huntouched.flags, hs] at hcomplete
    cases hcomplete
  · rw [show workflowTransact action s = _ from hbegun]
    generalize (begin s).2 = t at hcopies hflags ⊢
    rw [hs] at hflags
    have hdurable : t.copies.durable = s.copies.durable := by rw [hcopies]
    have houtcome := h.outcome t hflags (by rw [hcopies])
    have hkeeps := (h.keeps t).trans hdurable
    rw [hdurable] at houtcome
    rw [bind_apply]
    rcases htu : action t with ⟨e | a, u⟩
    · rw [htu] at hkeeps houtcome
      refine truthfulOutcome_untouched hkeeps (by simp) fun hcomplete => ?_
      rcases houtcome with hnone | ⟨-, hhistoric⟩
      · rw [show u.flags.outcome = .complete from hcomplete] at hnone
        cases hnone
      · exact hhistoric
    · rw [htu] at hkeeps houtcome
      dsimp only at hkeeps houtcome ⊢
      rw [bind_apply]
      dsimp only [getFlags]
      by_cases hdirty : u.flags.dirty = true
      · rw [if_pos hdirty]
        obtain ⟨result, v, hrun, hcases⟩ := commit_cases
          (fun f : WorkflowFlags => { f with outcome := .unknown })
          (fun f : WorkflowFlags => { f with outcome := .complete }) a u
        rw [hrun]
        rcases hcases with ⟨e, rfl, hf, hd⟩ | ⟨rfl, hf, hd⟩
        · refine ⟨by simp, ?_, ?_, ?_⟩
          · rw [hf]
            simp
          · exact hd.imp (·.trans hkeeps) fun hd => ⟨a, u, htu, hdirty, hd⟩
          · rw [hf]
            simp
        · refine ⟨fun b hb => ?_, ?_, .inr ⟨a, u, htu, hdirty, hd⟩,
            fun _ => .inl ⟨a, u, htu, hdirty, hd⟩⟩
          · obtain rfl := Except.ok.inj hb
            exact ⟨u, htu, by rw [if_pos hdirty]; exact hd⟩
          · rw [hf]
            simp
      · rw [if_neg hdirty]
        obtain ⟨result, v, hrun, huntouched, hok⟩ := rollback_cases a u
        rw [hrun]
        refine ⟨fun b hb => ?_, fun _ => huntouched.durable.trans hkeeps,
          .inl (huntouched.durable.trans hkeeps), fun hcomplete => .inr ?_⟩
        · obtain rfl := hok b hb
          exact ⟨u, htu, by rw [if_neg hdirty]; exact huntouched.durable.trans hkeeps⟩
        · refine ⟨huntouched.durable.trans hkeeps, ?_⟩
          rw [huntouched.flags] at hcomplete
          rcases houtcome with hnone | ⟨-, hhistoric⟩
          · rw [hcomplete] at hnone
            cases hnone
          · exact hhistoric

/-- **The ends of the workflow store's runs are truthful.** -/
theorem workflowRun_truthful {historic : σ → Prop} {action : Program σ WorkflowFlags ε α}
    (h : HonestWorkflow historic action) (isValidation : ε → Bool) (writable : Bool)
    {s : Session σ WorkflowFlags ε} (hs : s.flags = .start) :
    Truthful historic WorkflowFlags.dirty action (actionStart controlFirst writable s)
      s.copies.durable (workflowRun isValidation writable action s).2.copies.durable
      (workflowRun isValidation writable action s).1 := by
  have hconnect := untouched_connect controlFirst writable s
  have htransact := truthful_workflowTransact h (hconnect.flags.trans hs)
  rw [hconnect.durable] at htransact
  exact (htransact.run WorkflowFlags.outcome (by rw [hs]; rfl)).truthful isValidation

/-! ## The case store -/

/-- What the actions of the case store keep to: the database changes in `COMMIT` only, and the
outcome is the runner's own. -/
structure HonestCase (action : Program σ CommitOutcome ε α) : Prop where
  keeps : KeepsDurable action
  flags : KeepsFlags action

theorem truthful_caseTransact (writable : Bool) {action : Program σ CommitOutcome ε α}
    (h : HonestCase action) {s : Session σ CommitOutcome ε} (hs : s.flags = .none) :
    TruthfulOutcome (fun _ => False) (fun _ => writable) action (begin s).2 s.copies.durable
      (caseTransact writable action s).2.copies.durable (caseTransact writable action s).2.flags
      (caseTransact writable action s).1 := by
  rcases begin_cases s (do
    let result ← action
    if writable then do
      setFlags fun _ => .unknown
      commit
      setFlags fun _ => .complete
      pure result
    else do
      rollback
      pure result) with ⟨e, hfailed, huntouched⟩ | ⟨hbegun, hcopies, hflags⟩
  · rw [show caseTransact writable action s = _ from hfailed]
    refine truthfulOutcome_untouched huntouched.durable (by simp) fun hcomplete => ?_
    rw [huntouched.flags, hs] at hcomplete
    cases hcomplete
  · rw [show caseTransact writable action s = _ from hbegun]
    generalize (begin s).2 = t at hcopies hflags ⊢
    have hkeeps := (h.keeps t).trans (by rw [hcopies] : t.copies.durable = s.copies.durable)
    have hnone := (h.flags t).trans (hflags.trans hs)
    rw [bind_apply]
    rcases htu : action t with ⟨e | a, u⟩
    · rw [htu] at hkeeps hnone
      refine truthfulOutcome_untouched hkeeps (by simp) fun hcomplete => ?_
      rw [show u.flags = .complete from hcomplete] at hnone
      cases hnone
    · rw [htu] at hkeeps hnone
      dsimp only at hkeeps hnone ⊢
      cases writable with
      | true =>
        obtain ⟨result, v, hrun, hcases⟩ := commit_cases
          (fun _ : CommitOutcome => .unknown) (fun _ => .complete) a u
        rw [if_pos rfl, hrun]
        rcases hcases with ⟨e, rfl, hf, hd⟩ | ⟨rfl, hf, hd⟩
        · refine ⟨by simp, ?_, ?_, ?_⟩
          · rw [hf]
            simp
          · exact hd.imp (·.trans hkeeps) fun hd => ⟨a, u, htu, rfl, hd⟩
          · rw [hf]
            simp
        · refine ⟨fun b hb => ?_, ?_, .inr ⟨a, u, htu, rfl, hd⟩,
            fun _ => .inl ⟨a, u, htu, rfl, hd⟩⟩
          · obtain rfl := Except.ok.inj hb
            exact ⟨u, htu, hd⟩
          · rw [hf]
            simp
      | false =>
        obtain ⟨result, v, hrun, huntouched, hok⟩ := rollback_cases a u
        rw [if_neg (by simp), hrun]
        refine ⟨fun b hb => ?_, fun _ => huntouched.durable.trans hkeeps,
          .inl (huntouched.durable.trans hkeeps), fun hcomplete => ?_⟩
        · obtain rfl := hok b hb
          exact ⟨u, htu, huntouched.durable.trans hkeeps⟩
        · rw [huntouched.flags, hnone] at hcomplete
          cases hcomplete

/-- **The ends of the case store's runs are truthful.** -/
theorem caseRun_truthful {action : Program σ CommitOutcome ε α} (h : HonestCase action)
    (isValidation : ε → Bool) (writable : Bool) {s : Session σ CommitOutcome ε}
    (hs : s.flags = .none) :
    Truthful (fun _ => False) (fun _ => writable) action (actionStart lastRaised writable s)
      s.copies.durable (caseRun isValidation writable action s).2.copies.durable
      (caseRun isValidation writable action s).1 := by
  have hconnect := untouched_connect lastRaised writable s
  have htransact := truthful_caseTransact writable h (hconnect.flags.trans hs)
  rw [hconnect.durable] at htransact
  exact (htransact.run (fun f : CommitOutcome => f) hs).truthful isValidation

/-! ## Both stores -/

/-- **Whatever fails, the end of a run tells the truth**, in both stores. -/
theorem run_truthful {historic : σ → Prop} {workflowAction : Program σ WorkflowFlags ε α}
    (hworkflow : HonestWorkflow historic workflowAction) {caseAction : Program σ CommitOutcome ε α}
    (hcase : HonestCase caseAction) (isValidation : ε → Bool) (writable : Bool)
    {s : Session σ WorkflowFlags ε} (hs : s.flags = .start)
    {t : Session σ CommitOutcome ε} (ht : t.flags = .none) :
    Truthful historic WorkflowFlags.dirty workflowAction (actionStart controlFirst writable s)
        s.copies.durable (workflowRun isValidation writable workflowAction s).2.copies.durable
        (workflowRun isValidation writable workflowAction s).1 ∧
      Truthful (fun _ => False) (fun _ => writable) caseAction (actionStart lastRaised writable t)
        t.copies.durable (caseRun isValidation writable caseAction t).2.copies.durable
        (caseRun isValidation writable caseAction t).1 :=
  ⟨workflowRun_truthful hworkflow isValidation writable hs,
    caseRun_truthful hcase isValidation writable ht⟩

/-- An action that writes. -/
def countUp (mark : τ → τ) : Program ℕ τ PyError Unit := do
  execute fun n => .ok (n + 1)
  setFlags mark

theorem run_truthful_countUp :
    Truthful (fun _ => False) WorkflowFlags.dirty (countUp fun f => { f with dirty := true })
      (actionStart controlFirst true ⟨⟨0, 0⟩, .start, [], false⟩) 0 1 (.ok ()) ∧
    Truthful (fun _ => False) (fun _ => true) (countUp id)
      (actionStart lastRaised true ⟨⟨0, 0⟩, CommitOutcome.none, [], false⟩) 0 1 (.ok ()) := by
  have hworkflow : HonestWorkflow (fun _ => False)
      (countUp fun f : WorkflowFlags => { f with dirty := true }) := by
    refine ⟨(keepsDurable_execute _).bind fun _ => keepsDurable_setFlags _, ?_⟩
    intro s hs _
    refine .inl ((keepsFlags_step _).bind_flags (P := fun f : WorkflowFlags => f.outcome = .none) ?_ ?_)
    · rw [hs]
      rfl
    · intro _ t _ ht
      rw [setFlags, ht, hs]
      rfl
  have hcase : HonestCase (countUp (id : CommitOutcome → CommitOutcome)) :=
    ⟨(keepsDurable_execute _).bind fun _ => keepsDurable_setFlags _,
      (keepsFlags_step _).bind fun _ => fun _ => rfl⟩
  exact run_truthful hworkflow hcase PyError.isValidationError true
    (s := ⟨⟨0, 0⟩, .start, [], false⟩) rfl (t := ⟨⟨0, 0⟩, .none, [], false⟩) rfl

end EvidenceBraid
