import EvidenceBraid.CaseReachable
import EvidenceBraid.StoreOutcome

/-!
# Transactions of the case store that are disturbed

A transaction of the case store whose steps may fail, before or after their effect. Where it returns,
it has done what it does undisturbed, and whatever it ends with, the tables are as before or as after
the undisturbed transaction (`transact_spec`).
-/

namespace EvidenceBraid

open Hashing Transaction Sqlite

variable {D : Type} [Hashing D]

/-- The faults of a transaction. -/
abbrev Faults := List (Option (Transaction.Fault PyError))

/-- `_run` of an action on these tables, with these faults. -/
def transact {α : Type} (faults : Faults) (writable : Bool) (action : CaseProgram α) : CaseAction α :=
  fun t =>
    let (result, s) := caseRun PyError.isValidationError writable action ⟨⟨t, t⟩, .none, faults, false⟩
    (result, s.copies.durable)

/-- What the actions of the case store are like, and what they compute. -/
structure CaseComputes {α : Type} (action : CaseProgram α)
    (f : CaseTables → CommitOutcome → Result (α × CaseTables × CommitOutcome)) : Prop where
  honest : HonestCase action
  steady : Steady action
  computes : Computes action f

/-! ## Where the action starts -/

section Start

variable {σ τ ε : Type}

theorem idle_copies (s : Session σ τ ε) :
    ((idle : Program σ τ ε Unit) s).2.copies = s.copies := by
  rcases step_copies (fun c => (Except.ok (), c)) s with h | h <;> exact h

theorem setup_copies (writable : Bool) (s : Session σ τ ε) :
    (setup writable s).2.copies = s.copies := by
  have hs := idle_copies s
  rw [setup, bind_apply]
  rcases hst : (idle : Program σ τ ε Unit) s with ⟨e | _, t⟩
  · rwa [hst] at hs
  · rw [hst] at hs
    have ht := idle_copies t
    dsimp only
    rw [bind_apply]
    rcases htu : (idle : Program σ τ ε Unit) t with ⟨e | _, u⟩
    · rw [htu] at ht
      exact ht.trans hs
    · rw [htu] at ht
      cases writable with
      | true => exact (idle_copies u).trans (ht.trans hs)
      | false => exact ht.trans hs

theorem connect_copies (survivor : Raised ε → Raised ε → Raised ε) (writable : Bool)
    (s : Session σ τ ε) : (connect survivor writable s).2.copies = s.copies := by
  have hs := idle_copies s
  unfold connect
  rcases hst : (idle : Program σ τ ε Unit) s with ⟨e | _, t⟩
  · rwa [hst] at hs
  · rw [hst] at hs
    have ht := setup_copies writable t
    dsimp only
    rcases htu : setup writable t with ⟨primary | _, u⟩
    · rw [htu] at ht
      have hu := idle_copies u
      dsimp only [cleanup]
      rcases huv : (idle : Program σ τ ε Unit) u with ⟨e | _, v⟩
      · rw [huv] at hu
        exact hu.trans (ht.trans hs)
      · rw [huv] at hu
        exact hu.trans (ht.trans hs)
    · rw [htu] at ht
      exact ht.trans hs

/-- The action starts on the tables, with no outcome. -/
theorem actionStart_eq (survivor : Raised ε → Raised ε → Raised ε) (writable : Bool) (t : σ)
    (flags : τ) (faults : List (Option (Transaction.Fault ε))) :
    (actionStart survivor writable ⟨⟨t, t⟩, flags, faults, false⟩).copies.working = t ∧
      (actionStart survivor writable ⟨⟨t, t⟩, flags, faults, false⟩).flags = flags := by
  have hcopies := connect_copies survivor writable (⟨⟨t, t⟩, flags, faults, false⟩ : Session σ τ ε)
  have huntouched := untouched_connect survivor writable
    (⟨⟨t, t⟩, flags, faults, false⟩ : Session σ τ ε)
  constructor
  · rcases step_copies (fun c : Copies σ => (Except.ok (), { c with working := c.durable }))
      (connect survivor writable (⟨⟨t, t⟩, flags, faults, false⟩ : Session σ τ ε)).2 with h | h
    · exact congrArg Copies.working (h.trans hcopies)
    · refine (congrArg Copies.working h).trans ?_
      rw [hcopies]
  · exact (step_flags _ _).trans huntouched.flags

end Start

/-! ## The specification -/

section Spec

variable {α : Type} {action : CaseProgram α}
  {f : CaseTables → CommitOutcome → Result (α × CaseTables × CommitOutcome)}

/-- **A disturbed transaction** that returns did what it does undisturbed. Whatever it ends with, it
left the tables alone or did so. -/
theorem transact_spec (h : CaseComputes action f) (faults : Faults) (writable : Bool)
    (t : CaseTables) :
    (∀ a, (transact faults writable action t).1 = .ok a →
      alone writable action t = (.ok a, (transact faults writable action t).2)) ∧
    ((transact faults writable action t).2 = t ∨ writable = true ∧
      ∃ a, alone true action t = (.ok a, (transact faults writable action t).2)) := by
  obtain ⟨hworking, hflags⟩ := actionStart_eq lastRaised writable t CommitOutcome.none faults
  have htruthful := caseRun_truthful h.honest PyError.isValidationError writable
    (s := ⟨⟨t, t⟩, .none, faults, false⟩) rfl
  have hreturned : ∀ a u, action (actionStart lastRaised writable
      ⟨⟨t, t⟩, CommitOutcome.none, faults, false⟩) = (.ok a, u) →
        alone writable action t = (.ok a, if writable then u.copies.working else t) := by
    intro a u hu
    have hcomputed := h.steady.computed h.computes hu
    rw [hworking, hflags] at hcomputed
    exact alone_of_ok h.computes writable hcomputed
  simp only [transact]
  generalize caseRun PyError.isValidationError writable action ⟨⟨t, t⟩, .none, faults, false⟩ = run
    at htruthful
  obtain ⟨result, s⟩ := run
  have hdurable : Durable (fun _ => writable) action (actionStart lastRaised writable
      ⟨⟨t, t⟩, CommitOutcome.none, faults, false⟩) s.copies.durable →
        writable = true ∧ ∃ a, alone true action t = (.ok a, s.copies.durable) := by
    rintro ⟨a, u, hu, rfl, hafter⟩
    refine ⟨rfl, a, ?_⟩
    rw [hreturned a u hu, hafter]
    rfl
  cases result with
  | ok a =>
    obtain ⟨u, hu, hafter⟩ := htruthful
    have halone := hreturned a u hu
    have hafter' : s.copies.durable = if writable then u.copies.working else t := hafter
    rw [← hafter'] at halone
    refine ⟨?_, ?_⟩
    · rintro _ ⟨⟩
      exact halone
    · cases writable with
      | true => exact .inr ⟨rfl, a, halone⟩
      | false => exact .inl hafter'
  | error e =>
    refine ⟨nofun, ?_⟩
    rcases e with outcome | e | outcome
    · cases outcome with
      | none => exact .inl htruthful
      | unknown => exact htruthful.imp id hdurable
      | complete => exact htruthful.elim (fun h => .inr (hdurable h)) fun h => h.2.elim
    · exact .inl htruthful
    · cases outcome with
      | none => exact .inl htruthful
      | unknown => exact htruthful.imp id hdurable
      | complete => exact htruthful.elim (fun h => .inr (hdurable h)) fun h => h.2.elim

/-- A reading transaction leaves the tables alone. -/
theorem transact_reading (h : CaseComputes action f) (faults : Faults) (t : CaseTables) :
    (transact faults false action t).2 = t :=
  (transact_spec h faults false t).2.elim id fun h => nomatch h.1

end Spec

/-! ## The actions -/

section Actions

theorem honest_query {α : Type} (f : CaseTables → Result α) : HonestCase (query f : CaseProgram α) :=
  ⟨keepsDurable_query f, keepsFlags_step _⟩

theorem honest_compute {α : Type} (x : Result α) : HonestCase (compute x : CaseProgram α) :=
  ⟨keepsDurable_compute x, keepsFlags_step _⟩

theorem honest_execute (f : CaseTables → Result CaseTables) :
    HonestCase (execute f : CaseProgram Unit) :=
  ⟨keepsDurable_execute f, keepsFlags_step _⟩

theorem honest_pure {α : Type} (a : α) : HonestCase (pure a : CaseProgram α) :=
  ⟨keepsDurable_pure a, keepsFlags_pure a⟩

theorem HonestCase.bind {α β : Type} {x : CaseProgram α} {k : α → CaseProgram β} (hx : HonestCase x)
    (hk : ∀ a, HonestCase (k a)) : HonestCase (x >>= k) :=
  ⟨hx.keeps.bind fun a => (hk a).keeps, hx.flags.bind fun a => (hk a).flags⟩

theorem CaseComputes.bind {α β : Type} {x : CaseProgram α} {k : α → CaseProgram β}
    {f : CaseTables → CommitOutcome → Result (α × CaseTables × CommitOutcome)}
    {g : α → CaseTables → CommitOutcome → Result (β × CaseTables × CommitOutcome)}
    (hx : CaseComputes x f) (hk : ∀ a, CaseComputes (k a) (g a)) :
    CaseComputes (x >>= k) (fun w o => do
      let r ← f w o
      g r.1 r.2.1 r.2.2) :=
  ⟨hx.honest.bind fun a => (hk a).honest, hx.steady.bind fun a => (hk a).steady,
    hx.computes.bind fun a => (hk a).computes⟩

theorem caseComputes_query {α : Type} (f : CaseTables → Result α) :
    CaseComputes (query f : CaseProgram α) (fun w o => do
      let x ← f w
      .ok (x, w, o)) :=
  ⟨honest_query f, steady_step _, computes_query f⟩

theorem caseComputes_compute {α : Type} (x : Result α) :
    CaseComputes (compute x : CaseProgram α) (fun w o => do
      let a ← x
      .ok (a, w, o)) :=
  ⟨honest_compute x, steady_step _, computes_compute x⟩

theorem caseComputes_pure {α : Type} (a : α) : CaseComputes (pure a : CaseProgram α)
    fun w o => .ok (a, w, o) :=
  ⟨honest_pure a, steady_pure a, computes_pure a⟩

variable [DecidableEq D] (authority : CaseAuthority) (planHead : D)

omit [DecidableEq D] in
theorem honest_writeRows (p : CasePlanned D) : HonestCase (writeRows p) ∧ Steady (writeRows p) := by
  obtain ⟨commit, receipt, payload, operation, metadata⟩ := p
  rcases receipt with _ | ⟨sequence, document⟩ <;> rcases payload with _ | row
  · exact ⟨(honest_execute _).bind fun _ => honest_execute _,
      (steady_step _).bind fun _ => steady_step _⟩
  · exact ⟨(honest_execute _).bind fun _ => (honest_execute _).bind fun _ => honest_execute _,
      (steady_step _).bind fun _ => (steady_step _).bind fun _ => steady_step _⟩
  · exact ⟨(honest_execute _).bind fun _ => (honest_execute _).bind fun _ => honest_execute _,
      (steady_step _).bind fun _ => (steady_step _).bind fun _ => steady_step _⟩
  · exact ⟨(honest_execute _).bind fun _ => (honest_execute _).bind fun _ =>
        (honest_execute _).bind fun _ => honest_execute _,
      (steady_step _).bind fun _ => (steady_step _).bind fun _ =>
        (steady_step _).bind fun _ => steady_step _⟩

theorem caseComputes_writeAction (w : CaseWrite D) :
    CaseComputes (writeAction authority planHead w) (fun t o => do
      let current ← readCase authority planHead t
      let planned ← prepareWrite authority w current
      let u ← planned.put t
      .ok (planned.commit, u, o)) where
  honest := (honest_query _).bind fun _ => (honest_compute _).bind fun p =>
    (honest_writeRows p).1.bind fun _ => honest_pure _
  steady := (steady_step _).bind fun _ => (steady_step _).bind fun p =>
    (honest_writeRows p).2.bind fun _ => steady_pure _
  computes := computes_writeAction w

theorem caseComputes_snapshotAction (expected : Option (CaseStoreCheckpoint D)) :
    ∃ f, CaseComputes (snapshotAction authority planHead expected) f :=
  ⟨_, (caseComputes_query _).bind fun _ => (caseComputes_compute _).bind fun _ => caseComputes_pure _⟩

theorem caseComputes_claimedKeyAction :
    ∃ f, CaseComputes (claimedKeyAction authority planHead) f :=
  ⟨_, (caseComputes_query _).bind fun _ => caseComputes_pure _⟩

theorem caseComputes_lookupAction (operationId : Identifier) (expectedRequestDigest : String) :
    CaseComputes (lookupAction authority planHead operationId expectedRequestDigest) (fun t o => do
      let current ← readCase authority planHead t
      let found := current.operations.find? fun commit => commit.operationId = operationId
      require (∀ commit ∈ found, hex commit.requestDigest = expectedRequestDigest)
        (.conflict "case operation ID bound to different request")
      .ok (found, t, o)) := by
  have hcomputes := (caseComputes_query (readCase authority planHead)).bind fun current =>
    (caseComputes_compute (require (∀ commit ∈ current.operations.find? fun commit : CaseStoreCommit D =>
        commit.operationId = operationId, hex commit.requestDigest = expectedRequestDigest)
      (.conflict "case operation ID bound to different request"))).bind fun _ =>
        caseComputes_pure (current.operations.find? fun commit => commit.operationId = operationId)
  refine ⟨hcomputes.honest, hcomputes.steady, hcomputes.computes.congr fun t o => ?_⟩
  simp [ok_bind]

/-- A write whose transaction returns, or leaves other tables, has succeeded undisturbed. -/
theorem transact_write (faults : Faults) (w : CaseWrite D) (t : CaseTables) :
    (∀ commit, (transact faults true (writeAction authority planHead w) t).1 = .ok commit →
      alone true (writeAction authority planHead w) t =
        (.ok commit, (transact faults true (writeAction authority planHead w) t).2)) ∧
    ((transact faults true (writeAction authority planHead w) t).2 = t ∨
      ∃ commit, alone true (writeAction authority planHead w) t =
        (.ok commit, (transact faults true (writeAction authority planHead w) t).2)) := by
  obtain ⟨hok, htables⟩ := transact_spec (caseComputes_writeAction authority planHead w) faults true t
  exact ⟨hok, htables.imp id And.right⟩

end Actions

end EvidenceBraid
