import EvidenceBraid.CaseTransaction
import EvidenceBraid.WorkflowHistory

/-!
# The transactions of the workflow store

What each action computes from the tables (`computes_appendAction`), what a run of it leaves with
whatever faults (`transact_spec`), and what an append does to a history: it adds the batch's
receipts and one operation over them (`plan_ok`, `Extends.plan`).
-/

namespace EvidenceBraid

open Hashing Transaction Sqlite

variable {D : Type} [Hashing D]

namespace SQLiteWorkflowStore

/-! ## What a run leaves -/

section Runs

variable {α : Type} {historic : WorkflowTables → Prop} {action : StoreProgram α}
  {f : WorkflowTables → WorkflowFlags → Result (α × WorkflowTables × WorkflowFlags)}

/-- What the actions of the workflow store are like, and what they compute. -/
structure StoreComputes (historic : WorkflowTables → Prop) (action : StoreProgram α)
    (f : WorkflowTables → WorkflowFlags → Result (α × WorkflowTables × WorkflowFlags)) : Prop where
  honest : HonestWorkflow historic action
  steady : Steady action
  computes : Computes action f

/-- **A run that returns** kept what its action computed, and whatever a run ends with, it left the
tables alone or did so. -/
theorem transact_spec (h : StoreComputes historic action f)
    (faults : List (Option (Transaction.Fault PyError))) (writable : Bool) (t : WorkflowTables) :
    (∀ a, (transact faults writable action t).1 = .ok a → ∃ w o, f t .start = .ok (a, w, o) ∧
      (transact faults writable action t).2 = if o.dirty = true then w else t) ∧
    ((transact faults writable action t).2 = t ∨ ∃ a w o, f t .start = .ok (a, w, o) ∧
      o.dirty = true ∧ (transact faults writable action t).2 = w) := by
  obtain ⟨hworking, hflags⟩ := actionStart_eq controlFirst writable t WorkflowFlags.start faults
  have htruthful := workflowRun_truthful h.honest PyError.isValidationError writable
    (s := ⟨⟨t, t⟩, .start, faults, false⟩) rfl
  have hcomputed : ∀ a u, action (actionStart controlFirst writable
      ⟨⟨t, t⟩, WorkflowFlags.start, faults, false⟩) = (.ok a, u) →
        f t .start = .ok (a, u.copies.working, u.flags) := by
    intro a u hu
    have hcomputed := h.steady.computed h.computes hu
    rwa [hworking, hflags] at hcomputed
  simp only [transact]
  generalize workflowRun PyError.isValidationError writable action
    ⟨⟨t, t⟩, .start, faults, false⟩ = run at htruthful
  obtain ⟨result, s⟩ := run
  have hdurable : Durable WorkflowFlags.dirty action (actionStart controlFirst writable
      ⟨⟨t, t⟩, WorkflowFlags.start, faults, false⟩) s.copies.durable →
        ∃ a w o, f t .start = .ok (a, w, o) ∧ o.dirty = true ∧ s.copies.durable = w := by
    intro hd
    obtain ⟨a, u, hu, hdirty, hafter⟩ := hd
    exact ⟨a, _, _, hcomputed a u hu, hdirty, hafter⟩
  cases result with
  | ok a =>
    obtain ⟨u, hu, hafter⟩ := htruthful
    have hafter' : s.copies.durable = if u.flags.dirty = true then u.copies.working else t := hafter
    refine ⟨fun b hb => ?_, ?_⟩
    · obtain rfl := Except.ok.inj hb
      exact ⟨_, _, hcomputed a u hu, hafter'⟩
    · by_cases hdirty : u.flags.dirty = true
      · rw [if_pos hdirty] at hafter'
        exact .inr ⟨a, _, _, hcomputed a u hu, hdirty, hafter'⟩
      · rw [if_neg hdirty] at hafter'
        exact .inl hafter'
  | error e =>
    refine ⟨by simp, ?_⟩
    rcases e with outcome | e | outcome
    · cases outcome with
      | none => exact .inl htruthful
      | unknown => exact htruthful.imp id hdurable
      | complete => exact htruthful.elim (fun hd => .inr (hdurable hd)) fun hd => .inl hd.1
    · exact .inl htruthful
    · cases outcome with
      | none => exact .inl htruthful
      | unknown => exact htruthful.imp id hdurable
      | complete => exact htruthful.elim (fun hd => .inr (hdurable hd)) fun hd => .inl hd.1

/-- The session of a run without faults. -/
def calm (t : WorkflowTables) : Session WorkflowTables WorkflowFlags PyError :=
  ⟨⟨t, t⟩, .start, [], false⟩

theorem connect_calm (writable : Bool) (t : WorkflowTables) :
    connect controlFirst writable (calm t) = (.ok (), calm t) := by
  cases writable <;> rfl

/-- A run without faults returns what its action computes. -/
theorem transact_ok (h : Computes action f) (writable : Bool) {t w : WorkflowTables} {a : α}
    {o : WorkflowFlags} (hf : f t .start = .ok (a, w, o)) :
    transact [] writable action t = (.ok a, if o.dirty = true then w else t) := by
  have haction : action (calm t) = (.ok a, (calm t).put w o) := h.ok (calm t) rfl a w o hf
  have hbegin : (begin : StoreProgram Unit) (calm t) = (.ok (), calm t) := rfl
  have htransact : ∃ v, workflowTransact action (calm t) = (.ok a, v) ∧ v.faults = [] ∧
      v.copies.durable = if o.dirty = true then w else t := by
    rw [workflowTransact, bind_apply, hbegin]
    dsimp only
    rw [bind_apply, haction]
    obtain ⟨outcome, dirty⟩ := o
    cases dirty <;> exact ⟨_, rfl, rfl, rfl⟩
  obtain ⟨v, hv, hfaults, hdurable⟩ := htransact
  have hrun : transact [] writable action t =
      ((workflowRun PyError.isValidationError writable action (calm t)).1,
        (workflowRun PyError.isValidationError writable action (calm t)).2.copies.durable) := rfl
  rw [hrun, workflowRun, runWith, connect_calm]
  dsimp only
  rw [hv]
  obtain ⟨copies, flags, faults, interrupted⟩ := v
  obtain rfl : faults = [] := hfaults
  exact congrArg (Prod.mk _) hdurable

/-- A run without faults raises what its action raises before it says anything. -/
theorem transact_error (writable : Bool) {t : WorkflowTables} {e : PyError}
    (he : e.isValidationError = true) (haction : action (calm t) = (.error (.ordinary e), calm t)) :
    transact [] writable action t = (.error (.validation e), t) := by
  have hbegin : (begin : StoreProgram Unit) (calm t) = (.ok (), calm t) := rfl
  have htransact : workflowTransact action (calm t) = (.error (.ordinary e), calm t) := by
    rw [workflowTransact, bind_apply, hbegin]
    dsimp only
    rw [bind_apply, haction]
  have hrun : transact [] writable action t =
      ((workflowRun PyError.isValidationError writable action (calm t)).1,
        (workflowRun PyError.isValidationError writable action (calm t)).2.copies.durable) := rfl
  rw [hrun, workflowRun, runWith, connect_calm]
  dsimp only
  rw [htransact]
  have hconclude : conclude PyError.isValidationError .none (.ordinary e) = .validation e :=
    if_pos ⟨he, rfl⟩
  exact congrArg (fun e => (Except.error e, t)) hconclude

end Runs

/-! ## What the actions compute -/

/-- The inserted receipts, on the tables. -/
def putReceipts (n : ℕ) : List Bytes → WorkflowTables → Result WorkflowTables
  | [], t => .ok t
  | row :: rows, t => do
    let u ← t.insertReceipt n row
    putReceipts (n + 1) rows u

theorem keepsFlags_insertReceipts (rows : List Bytes) : ∀ n : ℕ,
    KeepsFlags (insertReceipts n rows) := by
  induction rows with
  | nil => exact fun _ => keepsFlags_pure ()
  | cons row rows ih => exact fun n => (keepsFlags_step _).bind fun _ => ih (n + 1)

theorem keepsDurable_insertReceipts (rows : List Bytes) : ∀ n : ℕ,
    KeepsDurable (insertReceipts n rows) := by
  induction rows with
  | nil => exact fun _ => keepsDurable_pure ()
  | cons row rows ih => exact fun n => (keepsDurable_execute _).bind fun _ => ih (n + 1)

theorem steady_insertReceipts (rows : List Bytes) : ∀ n : ℕ, Steady (insertReceipts n rows) := by
  induction rows with
  | nil => exact fun _ => steady_pure ()
  | cons row rows ih => exact fun n => (steady_step _).bind fun _ => ih (n + 1)

theorem computes_insertReceipts (rows : List Bytes) : ∀ n : ℕ,
    Computes (insertReceipts n rows) (fun w o => do
      let u ← putReceipts n rows w
      .ok ((), u, o)) := by
  induction rows with
  | nil => exact fun _ => computes_pure ()
  | cons row rows ih =>
    intro n
    have hexecute : Computes (execute (WorkflowTables.insertReceipt n row) : StoreProgram Unit) _ :=
      computes_execute (WorkflowTables.insertReceipt n row)
    refine (hexecute.bind fun _ => ih (n + 1)).congr fun w o => ?_
    simp [putReceipts, ok_bind]

variable [DecidableEq D]

/-- The statements of an append, on the tables. -/
def Planned.put (p : Planned D) (t : WorkflowTables) : Result WorkflowTables := do
  let u ← putReceipts p.commit.previous.recordCount p.receipts t
  let v ← u.insertOperation p.commit.previous.operationCount p.commit.requestId p.operation
  v.updateMeta p.metadata

theorem computes_writePlanned (p : Planned D) : Computes (writePlanned p) (fun w o => do
    let u ← p.put w
    .ok ((), u, { o with dirty := true })) := by
  have hexecute : ∀ f : WorkflowTables → Result WorkflowTables,
      Computes (execute f : StoreProgram Unit) _ := fun f => computes_execute f
  have hflags : Computes (setFlags fun f => { f with dirty := true } : StoreProgram Unit) _ :=
    computes_setFlags fun f : WorkflowFlags => { f with dirty := true }
  refine ((computes_insertReceipts p.receipts p.commit.previous.recordCount).bind fun _ =>
    (hexecute (WorkflowTables.insertOperation p.commit.previous.operationCount p.commit.requestId
      p.operation)).bind fun _ => (hexecute (WorkflowTables.updateMeta p.metadata)).bind fun _ =>
        hflags).congr fun w o => ?_
  simp [Planned.put, ok_bind]

variable (store : SQLiteWorkflowStore D)

/-- What `answer` computes. -/
def answered (digest : D) (current : WorkflowBundle D) (operation : WorkflowOperation D) :
    Result (WorkflowCommit D) := do
  require (operation.requestDigest = digest)
    (.conflict "request ID is bound to different canonical input")
  historical store current operation

theorem computes_answer (digest : D) (current : WorkflowBundle D) (operation : WorkflowOperation D) :
    Computes (answer store digest current operation) (fun w o => do
      let commit ← answered store digest current operation
      .ok (commit, w, { o with outcome := .complete })) := by
  have hcompute : ∀ {α : Type} (x : Result α), Computes (compute x : StoreProgram α) _ :=
    fun x => computes_compute x
  have hflags : Computes (setFlags fun f => { f with outcome := .complete } : StoreProgram Unit) _ :=
    computes_setFlags fun f : WorkflowFlags => { f with outcome := .complete }
  refine ((hcompute (require (operation.requestDigest = digest)
    (.conflict "request ID is bound to different canonical input"))).bind fun _ =>
      (hcompute (historical store current operation)).bind fun result =>
        hflags.bind fun _ => computes_pure result).congr fun w o => ?_
  simp [answered, ok_bind]

/-- What `append` computes of what it has read. -/
def appendedTo (r : Request D) (current : WorkflowRead D) (t : WorkflowTables) (o : WorkflowFlags) :
    Result (WorkflowCommit D × WorkflowTables × WorkflowFlags) :=
  match find current r.requestId with
  | some operation => do
    let commit ← answered store r.digest current.snapshot.bundle operation
    .ok (commit, t, { o with outcome := .complete })
  | none => do
    let planned ← plan store r current
    let u ← planned.put t
    .ok (planned.commit, u, { o with dirty := true })

/-- What `append` computes, after `_prepare`. -/
def appended (r : Request D) (t : WorkflowTables) (o : WorkflowFlags) :
    Result (WorkflowCommit D × WorkflowTables × WorkflowFlags) := do
  let current ← read store t
  appendedTo store r current t o

theorem computes_appendFresh (r : Request D) (current : WorkflowRead D) :
    Computes (appendFresh store r current) (fun w o => do
      let planned ← plan store r current
      let u ← planned.put w
      .ok (planned.commit, u, { o with dirty := true })) := by
  have hcompute : Computes (compute (plan store r current) : StoreProgram (Planned D)) _ :=
    computes_compute _
  refine (hcompute.bind fun planned => (computes_writePlanned planned).bind fun _ =>
    computes_pure planned.commit).congr fun w o => ?_
  simp [ok_bind]

theorem computes_appendAction (r : Request D) :
    Computes (appendAction store r) (appended store r) := by
  have hquery : Computes (query (read store) : StoreProgram (WorkflowRead D)) _ :=
    computes_query (read store)
  refine (hquery.bind (g := appendedTo store r) fun current => ?_).congr fun w o => ?_
  · unfold appendedTo
    cases hfind : find current r.requestId with
    | some operation => exact computes_answer store r.digest current.snapshot.bundle operation
    | none => exact computes_appendFresh store r current
  · simp only [appended]
    cases read store w <;> rfl

/-- What `lookup` computes of what it has read. -/
def foundIn (requestId : Identifier) (digest : D) (current : WorkflowRead D) (t : WorkflowTables)
    (o : WorkflowFlags) : Result (Option (WorkflowCommit D) × WorkflowTables × WorkflowFlags) :=
  match find current requestId with
  | some operation => do
    let commit ← answered store digest current.snapshot.bundle operation
    .ok (some commit, t, { o with outcome := .complete })
  | none => .ok (none, t, o)

theorem computes_lookupAction (requestId : Identifier) (digest : D) :
    Computes (lookupAction store requestId digest) (fun t o => do
      let current ← read store t
      foundIn store requestId digest current t o) := by
  have hquery : Computes (query (read store) : StoreProgram (WorkflowRead D)) _ :=
    computes_query (read store)
  refine (hquery.bind (g := foundIn store requestId digest) fun current => ?_).congr fun w o => ?_
  · unfold foundIn
    cases hfind : find current requestId with
    | some operation =>
      refine ((computes_answer store digest current.snapshot.bundle operation).bind fun commit =>
        computes_pure (some commit)).congr fun w o => ?_
      dsimp only
      cases answered store digest current.snapshot.bundle operation <;> rfl
    | none => exact computes_pure none
  · cases read store w <;> rfl

/-! ## Honest actions -/

/-- The tables hold the operation of this request. -/
def Holds (requestId : Identifier) (digest : D) (t : WorkflowTables) : Prop :=
  ∃ current, read store t = .ok current ∧
    ∃ operation ∈ current.operations, operation.requestId = requestId ∧ operation.requestDigest = digest

variable {store}

theorem holds_of_find {requestId : Identifier} {digest : D} {t : WorkflowTables}
    {current : WorkflowRead D} {operation : WorkflowOperation D} (hread : read store t = .ok current)
    (hfind : find current requestId = some operation) (hdigest : operation.requestDigest = digest) :
    Holds store requestId digest t := by
  have hid := List.find?_some (p := fun o : WorkflowOperation D => decide (o.requestId = requestId))
    hfind
  exact ⟨current, hread, operation, List.mem_of_find?_eq_some hfind, of_decide_eq_true hid, hdigest⟩

/-- The answer for a stored operation says `complete` only where the digests agree. -/
theorem flags_answer {digest : D} {current : WorkflowBundle D} {operation : WorkflowOperation D}
    {s : Session WorkflowTables WorkflowFlags PyError} (hs : s.flags = .start) :
    (answer store digest current operation s).2.flags.outcome = .none ∨
      (answer store digest current operation s).2.flags = ⟨.complete, false⟩ ∧
        operation.requestDigest = digest := by
  have hkeeps : ∀ {α : Type} (x : Result α), KeepsFlags (compute x : StoreProgram α) :=
    fun x => keepsFlags_step _
  have hstart : s.flags.outcome = .none := by rw [hs]; rfl
  refine (hkeeps _).bind_flags (P := fun f : WorkflowFlags => f.outcome = .none ∨
    f = ⟨.complete, false⟩ ∧ operation.requestDigest = digest) (.inl hstart) ?_
  intro _ t hrequire ht
  have hdigest : operation.requestDigest = digest := require_eq_ok.mp (step_ok hrequire).1
  refine (hkeeps _).bind_flags (P := fun f : WorkflowFlags => f.outcome = .none ∨
    f = ⟨.complete, false⟩ ∧ operation.requestDigest = digest) (.inl (ht ▸ hstart)) ?_
  intro result u _ hu
  refine .inr ⟨?_, hdigest⟩
  show ({ u.flags with outcome := .complete } : WorkflowFlags) = _
  rw [hu, ht, hs]
  rfl

theorem flags_appendFresh {r : Request D} {current : WorkflowRead D}
    {s : Session WorkflowTables WorkflowFlags PyError} (hs : s.flags = .start) :
    (appendFresh store r current s).2.flags.outcome = .none := by
  have hstart : s.flags.outcome = .none := by rw [hs]; rfl
  have hcompute : KeepsFlags (compute (plan store r current) : StoreProgram (Planned D)) :=
    keepsFlags_step _
  refine hcompute.bind_flags (P := fun f : WorkflowFlags => f.outcome = .none) hstart ?_
  intro planned t _ ht
  rw [bind_apply]
  have hwrite : (writePlanned planned t).2.flags.outcome = .none := by
    refine (keepsFlags_insertReceipts _ _).bind_flags (P := fun f : WorkflowFlags => f.outcome = .none)
      (ht ▸ hstart) ?_
    intro _ u _ hu
    refine (keepsFlags_step _).bind_flags (P := fun f : WorkflowFlags => f.outcome = .none) (hu ▸ ht ▸ hstart) ?_
    intro _ v _ hv
    refine (keepsFlags_step _).bind_flags (P := fun f : WorkflowFlags => f.outcome = .none) (hv ▸ hu ▸ ht ▸ hstart) ?_
    intro _ w _ hw
    show ({ w.flags with dirty := true } : WorkflowFlags).outcome = _
    rw [hw, hv, hu, ht, hstart]
  rcases hresult : writePlanned planned t with ⟨e | _, u⟩
  · rwa [hresult] at hwrite
  · rwa [hresult] at hwrite

theorem keepsDurable_answer (digest : D) (current : WorkflowBundle D)
    (operation : WorkflowOperation D) : KeepsDurable (answer store digest current operation) :=
  (keepsDurable_compute _).bind fun _ => (keepsDurable_compute _).bind fun _ =>
    (keepsDurable_setFlags _).bind fun _ => keepsDurable_pure _

theorem steady_answer (digest : D) (current : WorkflowBundle D) (operation : WorkflowOperation D) :
    Steady (answer store digest current operation) :=
  (steady_step _).bind fun _ => (steady_step _).bind fun _ =>
    (steady_setFlags _).bind fun _ => steady_pure _

theorem keepsDurable_appendFresh (r : Request D) (current : WorkflowRead D) :
    KeepsDurable (appendFresh store r current) :=
  (keepsDurable_compute _).bind fun _ => ((keepsDurable_insertReceipts _ _).bind fun _ =>
    (keepsDurable_execute _).bind fun _ => (keepsDurable_execute _).bind fun _ =>
      keepsDurable_setFlags _).bind fun _ => keepsDurable_pure _

theorem steady_appendFresh (r : Request D) (current : WorkflowRead D) :
    Steady (appendFresh store r current) :=
  (steady_step _).bind fun _ => ((steady_insertReceipts _ _).bind fun _ =>
    (steady_step _).bind fun _ => (steady_step _).bind fun _ => steady_setFlags _).bind fun _ =>
      steady_pure _

/-- **An append** computes `appended`, and says `complete` only of a stored operation. -/
theorem storeComputes_append (store : SQLiteWorkflowStore D) (r : Request D) :
    StoreComputes (Holds store r.requestId r.digest) (appendAction store r) (appended store r) where
  computes := computes_appendAction store r
  steady := by
    refine (steady_step _).bind fun current => ?_
    cases find current r.requestId with
    | some operation => exact steady_answer _ _ operation
    | none => exact steady_appendFresh r current
  honest := by
    refine ⟨(keepsDurable_query _).bind fun current => ?_, fun s hs hcopies => ?_⟩
    · cases find current r.requestId with
      | some operation => exact keepsDurable_answer _ _ operation
      | none => exact keepsDurable_appendFresh r current
    · have hquery : KeepsFlags (query (read store) : StoreProgram (WorkflowRead D)) :=
        keepsFlags_step _
      refine hquery.bind_flags (P := fun f : WorkflowFlags => f.outcome = .none ∨
        f = ⟨.complete, false⟩ ∧ Holds store r.requestId r.digest s.copies.durable)
        (.inl (by rw [hs]; rfl)) ?_
      intro current t hread ht
      have hcurrent : read store s.copies.durable = .ok current := hcopies ▸ (step_ok hread).1
      have hstart : t.flags = .start := ht.trans hs
      cases hfind : find current r.requestId with
      | some operation =>
        exact (flags_answer hstart).imp id fun h => ⟨h.1, holds_of_find hcurrent hfind h.2⟩
      | none => exact .inl (flags_appendFresh hstart)

/-- **A lookup** computes what it finds, and says `complete` only of a stored operation. -/
theorem storeComputes_lookup (store : SQLiteWorkflowStore D) (requestId : Identifier) (digest : D) :
    StoreComputes (Holds store requestId digest) (lookupAction store requestId digest)
      (fun t o => do
        let current ← read store t
        foundIn store requestId digest current t o) where
  computes := computes_lookupAction store requestId digest
  steady := by
    refine (steady_step _).bind fun current => ?_
    cases find current requestId with
    | some operation => exact (steady_answer _ _ operation).bind fun _ => steady_pure _
    | none => exact steady_pure _
  honest := by
    refine ⟨(keepsDurable_query _).bind fun current => ?_, fun s hs hcopies => ?_⟩
    · cases find current requestId with
      | some operation => exact (keepsDurable_answer _ _ operation).bind fun _ => keepsDurable_pure _
      | none => exact keepsDurable_pure _
    · have hquery : KeepsFlags (query (read store) : StoreProgram (WorkflowRead D)) :=
        keepsFlags_step _
      refine hquery.bind_flags (P := fun f : WorkflowFlags => f.outcome = .none ∨
        f = ⟨.complete, false⟩ ∧ Holds store requestId digest s.copies.durable)
        (.inl (by rw [hs]; rfl)) ?_
      intro current t hread ht
      have hcurrent : read store s.copies.durable = .ok current := hcopies ▸ (step_ok hread).1
      have hstart : t.flags = .start := ht.trans hs
      cases hfind : find current requestId with
      | some operation =>
        have hanswer := @flags_answer D _ _ store digest current.snapshot.bundle operation _ hstart
        dsimp only
        rw [bind_apply]
        rcases hresult : answer store digest current.snapshot.bundle operation t with ⟨e | c, u⟩ <;>
          rw [hresult] at hanswer <;>
          exact hanswer.imp id fun h => ⟨h.1, holds_of_find hcurrent hfind h.2⟩
      | none => exact .inl (congrArg WorkflowFlags.outcome hstart)

theorem storeComputes_snapshot (store : SQLiteWorkflowStore D)
    (expected : Option (WorkflowCheckpoint D)) :
    StoreComputes (fun _ => False) (snapshotAction store expected) (fun t o => do
      let current ← read store t
      require (∀ checkpoint ∈ expected, current.snapshot.checkpoint = checkpoint)
        (.conflict "workflow current checkpoint does not match the external anchor")
      .ok (current.snapshot, t, o)) where
  computes := by
    have hquery : Computes (query (read store) : StoreProgram (WorkflowRead D)) _ :=
      computes_query (read store)
    refine (hquery.bind fun current => (computes_compute (τ := WorkflowFlags)
      (require (∀ checkpoint ∈ expected, current.snapshot.checkpoint = checkpoint)
        (.conflict "workflow current checkpoint does not match the external anchor"))).bind fun _ =>
          computes_pure current.snapshot).congr fun w o => ?_
    simp [ok_bind]
  steady := (steady_step _).bind fun _ => (steady_step _).bind fun _ => steady_pure _
  honest := by
    have hflags : KeepsFlags (snapshotAction store expected) :=
      (keepsFlags_step _).bind fun _ => (keepsFlags_step _).bind fun _ => keepsFlags_pure _
    refine ⟨(keepsDurable_query _).bind fun _ => (keepsDurable_compute _).bind fun _ =>
      keepsDurable_pure _, fun s hs _ => .inl ?_⟩
    rw [hflags s, hs]
    rfl

end SQLiteWorkflowStore

end EvidenceBraid
