import EvidenceBraid.WorkflowService
import EvidenceBraid.WorkflowOnce

/-!
# The turns of the workflow service

What a request is admitted as comes from its body and its credential (`requested_of_ok`), and its
dispatch fails before the store is called, or calls the store once (`dispatch_spec`).
-/

namespace EvidenceBraid

open Hashing Transaction

variable {D : Type} [Hashing D] [DecidableEq D]

/-! ## Fields -/

theorem objectFields_eq_ok {value : Json} {names : List String} {data : List (String × Json)} :
    objectFields value names = .ok data ↔ value = .obj data ∧ data.length = names.length ∧
      (∀ k ∈ Json.keys data, k ∈ names) ∧ ∀ n ∈ names, n ∈ Json.keys data := by
  cases value with
  | obj kvs =>
    simp only [objectFields, bind_eq_ok, valid_eq_ok, exists_unit, Except.ok.injEq, Json.obj.injEq]
    constructor
    · rintro ⟨hlength, hkeys, rfl⟩
      exact ⟨rfl, hlength, hkeys⟩
    · rintro ⟨rfl, hlength, hkeys⟩
      exact ⟨hlength, hkeys, rfl⟩
  | _ => simp [objectFields]

theorem exceptMap_eq_ok {ε α β : Type} {x : Except ε α} {f : α → β} {b : β} :
    x.map f = .ok b ↔ ∃ a, x = .ok a ∧ f a = b := by
  cases x <;> simp [Except.map]

theorem mapError_eq_ok {ε ε' α : Type} {x : Except ε α} {f : ε → ε'} {a : α} :
    x.mapError f = .ok a ↔ x = .ok a := by
  cases x <;> simp [Except.mapError]

theorem received_eq_ok {α : Type} {fault : Bool} {x : Except FramingError α} {a : α} :
    received fault x = .ok a ↔ fault = false ∧ x = .ok a := by
  unfold received
  cases fault <;> simp [mapError_eq_ok]

/-! ## Actions that stop at an error -/

section Stopping

variable {σ ε α β : Type} {P : σ → Prop} {s : σ}

/-- What holds after the first action and is kept by the second holds after both. -/
theorem holds_bind {x : Action σ ε α} {f : α → Action σ ε β} (hx : P (x s).2)
    (hf : ∀ a t, x s = (.ok a, t) → P t → P (f a t).2) : P ((x >>= f) s).2 := by
  rw [Action.bind_apply]
  rcases hxs : x s with ⟨e | a, t⟩
  · rw [hxs] at hx
    exact hx
  · rw [hxs] at hx
    exact hf a t hxs hx

theorem holds_lift {x : Except ε α} {f : α → Action σ ε β} (hs : P s)
    (hf : ∀ a, x = .ok a → P (f a s).2) : P ((Action.lift x >>= f) s).2 := by
  refine holds_bind hs fun a t hat _ => ?_
  obtain ⟨hx, rfl⟩ := Action.lift_eq_ok.mp hat
  exact hf a hx

end Stopping

namespace LocalWorkflowService

variable {s : LocalWorkflowService D}

/-! ## Authentication -/

omit [Hashing D] [DecidableEq D] in
/-- The last item that passes is an item that passes. -/
theorem mem_of_foldl_last {α : Type} {p : α → Prop} [DecidablePred p] {x : α} (xs : List α) :
    ∀ {found : Option α}, xs.foldl (fun found a => if p a then some a else found) found = some x →
      found = some x ∨ x ∈ xs ∧ p x := by
  induction xs with
  | nil => exact fun h => .inl h
  | cons y ys ih =>
    intro found h
    rcases ih h with hfound | hlater
    · dsimp only at hfound
      by_cases hy : p y
      · rw [if_pos hy] at hfound
        obtain rfl := Option.some.inj hfound
        exact .inr ⟨List.mem_cons_self, hy⟩
      · rw [if_neg hy] at hfound
        exact .inl hfound
    · exact .inr ⟨List.mem_cons_of_mem y hlater.1, hlater.2⟩

/-- **What `_authenticate` returns** is registered under the hash of the token. -/
theorem authenticate_eq_ok {headers : Headers} {credential : WorkflowServiceCredential D}
    (h : s.authenticate headers = .ok credential) : credential ∈ s.credentials ∧
      ∃ token, headers.get? "authorization" = some ("Bearer " ++ token) ∧
        credential.tokenSha256 = sha256 (pairBytes token.toList) := by
  simp only [authenticate] at h
  split_ifs at h with hform
  · split at h
    · next found hfound =>
      obtain rfl := Except.ok.inj h
      rcases mem_of_foldl_last s.credentials hfound with hnone | hsome
      · cases hnone
      · refine ⟨hsome.1, String.ofList (((headers.get? "authorization").getD "").toList.drop 7), ?_, ?_⟩
        · cases hheader : headers.get? "authorization" with
          | none =>
            rw [hheader] at hform
            exact absurd hform.1 (by decide)
          | some value =>
            simp only [hheader, Option.getD_some] at hform ⊢
            rw [← hform.2.1, ← String.ofList_append, List.take_append_drop, String.ofList_toList]
        · rw [String.toList_ofList]
          exact hsome.2
    · cases h

end LocalWorkflowService

/-! ## Admission -/

/-- What stands in a request's record comes from its body. -/
structure Recorded (a : Authorized D) (op : ServiceOperation D) : Prop where
  outcome : op.outcome = .none
  pending : op.pending = false
  requestId : ∀ i ∈ op.requestId, ∃ data, a.node = .obj data ∧
    Json.get? data "request_id" = some (.str i.value)
  requestDigest : ∀ d ∈ op.requestDigest, ∃ data, a.node = .obj data ∧
    Json.get? data "request_digest" = some (.str (hex d))

omit [DecidableEq D] in
theorem recorded_start (a : Authorized D) : Recorded a .start :=
  ⟨rfl, rfl, fun _ hi => absurd hi (by simp [ServiceOperation.start]),
    fun _ hd => absurd hd (by simp [ServiceOperation.start])⟩

/-- What a request is admitted as. -/
structure Requested (s : LocalWorkflowService D) (a : Authorized D) (m : AdmittedRequest D)
    (op : ServiceOperation D) (data : List (String × Json)) : Prop where
  node : a.node = .obj data
  identity : a.route ≠ .snapshot → ∃ i d core, op.requestId = some i ∧ op.requestDigest = some d ∧
    m.coreId = some core ∧ namespaceId s.serviceId s.contextDigest a.credential.actorId i = .ok core ∧
    Json.get? data "request_id" = some (.str i.value) ∧
    Json.get? data "request_digest" = some (.str (hex d))
  before : ∀ b ∈ m.before, b.contextDigest = s.contextDigest ∧
    ∃ v, Json.get? data "expected_checkpoint" = some v ∧ WorkflowCheckpoint.fromDict v = .ok b
  commands : a.route = .append → (∃ b, m.before = some b) ∧
    (∀ t ∈ m.commands, t.actorId = a.credential.actorId) ∧
    ∃ values, Json.get? data "transitions" = some (.arr values) ∧
      decodeItems WorkflowTransition.fromDict values = .ok m.commands

namespace LocalWorkflowService

variable {s : LocalWorkflowService D} {a : Authorized D} {data : List (String × Json)}

omit [DecidableEq D] in
theorem admitIdentity_recorded (hnode : a.node = .obj data) :
    Recorded a (s.admitIdentity a data .start).2 := by
  have hstart := recorded_start a
  unfold admitIdentity
  by_cases hroute : a.route = .snapshot
  · rw [if_pos hroute]
    exact hstart
  · rw [if_neg hroute]
    refine holds_lift hstart fun i hi => ?_
    rw [python_eq_ok, publicId_eq_ok] at hi
    have hnamed : Recorded a { (ServiceOperation.start : ServiceOperation D) with requestId := some i } :=
      ⟨rfl, rfl, fun j hj => ⟨data, hnode, by rw [← Option.some.inj hj]; exact hi⟩,
        hstart.requestDigest⟩
    refine holds_bind hnamed fun _ op hop _ => ?_
    obtain rfl := (Prod.mk.inj hop).2
    refine holds_lift hnamed fun d hd => ?_
    rw [python_eq_ok, serviceDigest, hashField_eq_ok] at hd
    have hbound : Recorded a { (ServiceOperation.start : ServiceOperation D) with
        requestId := some i, requestDigest := some d } :=
      ⟨rfl, rfl, hnamed.requestId,
        fun e he => ⟨data, hnode, by rw [← Option.some.inj he]; exact hd⟩⟩
    refine holds_bind hbound fun _ op hop _ => ?_
    obtain rfl := (Prod.mk.inj hop).2
    rw [Action.bind_apply, Action.lift]
    cases python (namespaceId s.serviceId s.contextDigest a.credential.actorId i) with
    | error e => exact hbound
    | ok core => exact hbound

/-- **The record of an admission comes from the body.** -/
theorem admitRequest_recorded (s : LocalWorkflowService D) (a : Authorized D) :
    Recorded a (s.admitRequest a .start).2 := by
  refine holds_lift (recorded_start a) fun data hdata => ?_
  rw [python_eq_ok, objectFields_eq_ok] at hdata
  refine holds_lift (recorded_start a) fun _ _ => ?_
  refine holds_bind (admitIdentity_recorded hdata.1) fun coreId op hop hrecorded => ?_
  exact holds_lift hrecorded fun before _ => holds_lift hrecorded fun _ _ => hrecorded

omit [DecidableEq D] in
theorem admitIdentity_eq_ok {op : ServiceOperation D} {coreId : Option Identifier}
    (h : s.admitIdentity a data .start = (.ok coreId, op)) (hroute : a.route ≠ .snapshot) :
    ∃ i d core, op.requestId = some i ∧ op.requestDigest = some d ∧ coreId = some core ∧
      namespaceId s.serviceId s.contextDigest a.credential.actorId i = .ok core ∧
      Json.get? data "request_id" = some (.str i.value) ∧
      Json.get? data "request_digest" = some (.str (hex d)) := by
  unfold admitIdentity at h
  rw [if_neg hroute] at h
  simp only [Action.bind_eq_ok, Action.lift_eq_ok, python_eq_ok, publicId_eq_ok, serviceDigest,
    hashField_eq_ok, Action.pure_eq_ok] at h
  obtain ⟨i, _, ⟨hi, rfl⟩, _, _, hassign, d, _, ⟨hd, rfl⟩, h⟩ := h
  obtain ⟨_, _, hassign', core, _, ⟨hcore, rfl⟩, rfl, rfl⟩ := h
  obtain rfl := (Prod.mk.inj hassign).2
  obtain rfl := (Prod.mk.inj hassign').2
  exact ⟨i, d, core, rfl, rfl, rfl, hcore, hi, hd⟩

theorem admitCheckpoint_eq_ok {before : Option (WorkflowCheckpoint D)}
    (h : s.admitCheckpoint a data = .ok before) : ∀ b ∈ before, b.contextDigest = s.contextDigest ∧
      ∃ v, Json.get? data "expected_checkpoint" = some v ∧ WorkflowCheckpoint.fromDict v = .ok b := by
  intro b hb
  unfold admitCheckpoint at h
  by_cases hroute : a.route = .lookup
  · rw [if_pos hroute] at h
    rw [← Except.ok.inj h] at hb
    cases hb
  · rw [if_neg hroute] at h
    split at h
    · rw [← Except.ok.inj h] at hb
      cases hb
    · rw [← Except.ok.inj h] at hb
      cases hb
    · next value _ hvalue =>
      simp only [bind_eq_ok, python_eq_ok, checkpointCopy_eq_ok, Except.ok.injEq] at h
      obtain ⟨c, hc, _, ⟨rfl, hcontext⟩, rfl⟩ := h
      obtain rfl := Option.some.inj hb
      exact ⟨hcontext, value, hvalue, hc⟩

omit [DecidableEq D] in
theorem admitCommands_eq_ok {before : Option (WorkflowCheckpoint D)}
    {commands : List (WorkflowTransition D)} (h : s.admitCommands a data before = .ok commands)
    (hroute : a.route = .append) : (∃ b, before = some b) ∧
      (∀ t ∈ commands, t.actorId = a.credential.actorId) ∧
      ∃ values, Json.get? data "transitions" = some (.arr values) ∧
        decodeItems WorkflowTransition.fromDict values = .ok commands := by
  unfold admitCommands at h
  rw [if_pos hroute] at h
  split at h
  · next values hvalues =>
    simp only [bind_eq_ok, python_eq_ok, demand_eq_ok, exists_unit, transitionsCopy_eq_ok,
      valid_eq_ok, Except.ok.injEq] at h
    obtain ⟨-, ts, hts, _, ⟨rfl, -, hactor⟩, hbefore, rfl⟩ := h
    exact ⟨Option.isSome_iff_exists.mp hbefore, hactor, values, hvalues, hts⟩
  · cases h

/-- **What is admitted** is in the body. -/
theorem requested_of_ok {m : AdmittedRequest D} {op : ServiceOperation D}
    (h : s.admitRequest a .start = (.ok m, op)) : ∃ data, Requested s a m op data := by
  simp only [admitRequest, Action.bind_eq_ok, Action.lift_eq_ok, python_eq_ok, objectFields_eq_ok,
    valid_eq_ok, Action.pure_eq_ok] at h
  obtain ⟨data, _, ⟨⟨hnode, -⟩, rfl⟩, _, _, ⟨-, rfl⟩, coreId, _, hidentity, h⟩ := h
  obtain ⟨before, _, ⟨hbefore, rfl⟩, commands, _, ⟨hcommands, rfl⟩, rfl, rfl⟩ := h
  exact ⟨data, hnode, admitIdentity_eq_ok hidentity, admitCheckpoint_eq_ok hbefore,
    admitCommands_eq_ok hcommands⟩

omit [Hashing D] [DecidableEq D] in
theorem refusing_snd {α : Type} {x : RecordAction D α} (op : ServiceOperation D) :
    (RecordAction.refusing x op).2 = (x op).2 := by
  unfold RecordAction.refusing
  split <;> simp_all

omit [Hashing D] [DecidableEq D] in
theorem refusing_eq_ok {α : Type} {x : RecordAction D α} {op op' : ServiceOperation D} {b : α} :
    RecordAction.refusing x op = (.ok b, op') ↔ x op = (.ok b, op') := by
  unfold RecordAction.refusing
  split <;> simp_all

end LocalWorkflowService

/-! ## Dispatch -/

/-- The outcome that a reply leaves in the record. -/
def ServiceReply.outcome : ServiceReply D → CommitOutcome
  | .commit _ => .complete
  | .stored _ | .absent => .none

/-- A problem before the store is called: the package's, or the service's own under a code that has
a status. -/
def ServiceProblem.Early : ServiceProblem → Prop
  | .service code => code.status ≠ 0
  | .python _ => True
  | .storage _ | .os | .control => False

section Early

open ServiceProblem (Early)

variable {σ α β : Type}

/-- A computation whose failures are early. -/
def FailsEarly (x : ServiceResult α) : Prop := ∀ e, x = .error e → e.Early

/-- An action whose failures are early. -/
def StopsEarly (x : Action σ ServiceProblem α) : Prop := ∀ s, FailsEarly (x s).1

theorem failsEarly_ok (a : α) : FailsEarly (.ok a) := fun _ h => by cases h

theorem failsEarly_service {code : ServiceCode} (h : code.status ≠ 0) :
    FailsEarly (.error (.service code) : ServiceResult α) := fun _ he => Except.error.inj he ▸ h

theorem failsEarly_python (x : Result α) : FailsEarly (python x) := by
  intro e h
  cases x with
  | ok a => cases h
  | error e' =>
    obtain rfl := Except.error.inj h
    trivial

theorem failsEarly_demand {condition : Prop} [Decidable condition] {code : ServiceCode}
    (h : code.status ≠ 0) : FailsEarly (demand condition code) := by
  unfold demand
  split_ifs
  · exact failsEarly_ok ()
  · exact failsEarly_service h

theorem FailsEarly.bind {x : ServiceResult α} {f : α → ServiceResult β} (hx : FailsEarly x)
    (hf : ∀ a, FailsEarly (f a)) : FailsEarly (x >>= f) := by
  intro e h
  cases x with
  | ok a => exact hf a e h
  | error e' =>
    obtain rfl : e' = e := Except.error.inj h
    exact hx e' rfl

theorem stopsEarly_lift {x : ServiceResult α} (hx : FailsEarly x) :
    StopsEarly (Action.lift x : Action σ ServiceProblem α) := fun _ => hx

theorem StopsEarly.bind {x : Action σ ServiceProblem α} {f : α → Action σ ServiceProblem β}
    (hx : StopsEarly x) (hf : ∀ a, StopsEarly (f a)) : StopsEarly (x >>= f) := by
  intro s e h
  rw [Action.bind_apply] at h
  rcases hxs : x s with ⟨e' | a, t⟩
  · rw [hxs] at h
    obtain rfl : e' = e := Except.error.inj h
    exact hx s e' (by rw [hxs])
  · rw [hxs] at h
    exact hf a t e h

end Early

namespace LocalWorkflowService

variable (s : LocalWorkflowService D)

/-- What becomes of a request when the store has answered. -/
def settled (a : Authorized D) (op : ServiceOperation D)
    (result : Except (Failure PyError) (ServiceReply D)) :
    Except ServiceProblem (ServiceReply D × Bytes) × ServiceOperation D :=
  match result with
  | .error f => (.error (.ofFailure f), { op with pending := decide (a.route ≠ .snapshot) })
  | .ok reply =>
    let op := { op with outcome := reply.outcome, pending := false }
    ((s.success a op reply).map fun payload => (reply, payload), op)

/-- The call of the store that a request is admitted for, from the tables to the tables. -/
inductive Called (a : Authorized D) (m : AdmittedRequest D) (op : ServiceOperation D)
    (faults : SQLiteWorkflowStore.StoreFaults) (t : WorkflowTables) :
    Except (Failure PyError) (ServiceReply D) → WorkflowTables → Prop
  | snapshot (route : a.route = .snapshot) : Called a m op faults t
      ((s.store.snapshot m.before faults t).1.map .stored) (s.store.snapshot m.before faults t).2
  | lookup (route : a.route = .lookup) {core : Identifier} {digest : D} (coreId : m.coreId = some core)
      (requestDigest : op.requestDigest = some digest) : Called a m op faults t
      ((s.store.lookup core digest faults t).1.map fun found => found.elim .absent .commit)
      (s.store.lookup core digest faults t).2
  | append (route : a.route = .append) {core : Identifier} {before : WorkflowCheckpoint D}
      {r : SQLiteWorkflowStore.Request D} (coreId : m.coreId = some core)
      (expected : m.before = some before) (prepared : s.store.prepare m.commands core before = .ok r)
      (requestDigest : op.requestDigest = some r.digest) : Called a m op faults t
      ((s.store.append m.commands core before faults t).1.map .commit)
      (s.store.append m.commands core before faults t).2

variable {s} {a : Authorized D}

omit [DecidableEq D] in
theorem stopsEarly_admitIdentity (data : List (String × Json)) :
    StopsEarly (s.admitIdentity a data) := by
  unfold admitIdentity
  by_cases hroute : a.route = .snapshot
  · rw [if_pos hroute]
    exact fun _ => failsEarly_ok _
  · rw [if_neg hroute]
    exact (stopsEarly_lift (failsEarly_python _)).bind fun _ =>
      StopsEarly.bind (fun _ => failsEarly_ok ()) fun _ =>
        (stopsEarly_lift (failsEarly_python _)).bind fun _ =>
          StopsEarly.bind (fun _ => failsEarly_ok ()) fun _ =>
            (stopsEarly_lift (failsEarly_python _)).bind fun _ _ => failsEarly_ok _

theorem failsEarly_admitCheckpoint (data : List (String × Json)) :
    FailsEarly (s.admitCheckpoint a data) := by
  unfold admitCheckpoint
  split_ifs
  · exact failsEarly_ok _
  · split
    · exact failsEarly_ok _
    · exact failsEarly_ok _
    · exact (failsEarly_python _).bind fun _ =>
        ((failsEarly_python _).bind fun _ => (failsEarly_demand (by decide)).bind fun _ =>
          failsEarly_ok _).bind fun _ => failsEarly_ok _

omit [DecidableEq D] in
theorem failsEarly_admitCommands (data : List (String × Json))
    (before : Option (WorkflowCheckpoint D)) : FailsEarly (s.admitCommands a data before) := by
  unfold admitCommands
  split_ifs
  · split
    · exact (failsEarly_demand (by decide)).bind fun _ => (failsEarly_python _).bind fun _ =>
        ((failsEarly_python _).bind fun _ => (failsEarly_demand (by decide)).bind fun _ =>
          failsEarly_python _).bind fun _ => (failsEarly_python _).bind fun _ => failsEarly_ok _
    · exact failsEarly_service (by decide)
  · exact failsEarly_ok _

theorem stopsEarly_refusing (a : Authorized D) :
    StopsEarly (RecordAction.refusing (s.admitRequest a)) := by
  have hadmit : StopsEarly (s.admitRequest a) :=
    (stopsEarly_lift (failsEarly_python _)).bind fun data =>
      (stopsEarly_lift (failsEarly_python _)).bind fun _ =>
        (stopsEarly_admitIdentity data).bind fun _ =>
          (stopsEarly_lift (failsEarly_admitCheckpoint data)).bind fun before =>
            (stopsEarly_lift (failsEarly_admitCommands data before)).bind fun _ _ =>
              failsEarly_ok _
  intro op e h
  unfold RecordAction.refusing at h
  split at h
  · next e' _ herror =>
    obtain rfl := Except.error.inj h
    split_ifs
    · exact (by decide : ServiceCode.invalidRequest.status ≠ 0)
    · exact hadmit op e' (by rw [herror])
  · cases h

theorem perform_spec {m : AdmittedRequest D} {op : ServiceOperation D}
    {data : List (String × Json)} (hm : Requested s a m op data) (hnone : op.outcome = .none)
    (hidle : op.pending = false) (faults : SQLiteWorkflowStore.StoreFaults) (t : WorkflowTables) :
    (∃ e, s.perform a m faults (t, op) = (.error e, t, op) ∧ e.Early) ∨
    ∃ result t', s.Called a m op faults t result t' ∧ s.perform a m faults (t, op) = match result with
      | .error f => (.error (.ofFailure f), t', { op with pending := decide (a.route ≠ .snapshot) })
      | .ok reply => (.ok reply, t', { op with outcome := reply.outcome, pending := false }) := by
  cases hroute : a.route with
  | snapshot =>
    refine .inr ⟨_, _, .snapshot hroute, ?_⟩
    simp only [perform, hroute, Action.bind_apply, ServiceAction.onStore]
    rcases s.store.snapshot m.before faults t with ⟨f | w, t'⟩
    · obtain ⟨_, _, _, _⟩ := op
      obtain rfl := hidle
      rfl
    · obtain ⟨_, _, _, _⟩ := op
      obtain rfl := hidle
      obtain rfl := hnone
      rfl
  | lookup =>
    obtain ⟨i, d, core, -, hdigest, hcore, -⟩ := hm.identity (by rw [hroute]; decide)
    refine .inr ⟨_, _, .lookup hroute hcore hdigest, ?_⟩
    simp only [perform, hroute, Action.bind_apply, ServiceAction.operation, hcore, hdigest,
      ServiceAction.assign, ServiceAction.onOperation, RecordAction.assign, ServiceAction.onStore]
    rcases s.store.lookup core d faults t with ⟨f | found, t'⟩
    · rfl
    · obtain ⟨_, _, _, _⟩ := op
      obtain rfl := hnone
      cases found <;> rfl
  | append =>
    obtain ⟨i, d, core, -, hdigest, hcore, -⟩ := hm.identity (by rw [hroute]; decide)
    obtain ⟨⟨before, hbefore⟩, -⟩ := hm.commands hroute
    cases hr : s.store.prepare m.commands core before with
    | error e =>
      refine .inl ⟨.python e, ?_, trivial⟩
      simp only [perform, hroute, Action.bind_apply, ServiceAction.operation, hcore, hbefore, hr]
      rfl
    | ok r =>
      by_cases hsame : op.requestDigest = some r.digest
      · refine .inr ⟨_, _, .append hroute hcore hbefore hr hsame, ?_⟩
        simp only [perform, hroute, Action.bind_apply, ServiceAction.operation, hcore, hbefore, hr,
          python, Except.mapError, Action.lift, demand, if_pos hsame, ServiceAction.assign,
          ServiceAction.onOperation, RecordAction.assign, ServiceAction.onStore]
        rcases s.store.append m.commands core before faults t with ⟨f | commit, t'⟩
        · rfl
        · rfl
      · refine .inl ⟨.service .conflict, ?_, (by decide : ServiceCode.conflict.status ≠ 0)⟩
        simp only [perform, hroute, Action.bind_apply, ServiceAction.operation, hcore, hbefore, hr,
          python, Except.mapError, Action.lift, demand, if_neg hsame]

section Binding

variable {σ α β : Type} {x : Action σ ServiceProblem α} {f : α → Action σ ServiceProblem β} {t u : σ}

theorem bind_of_ok {b : α} (h : x t = (.ok b, u)) : (x >>= f) t = f b u := by
  rw [Action.bind_apply, h]

theorem bind_of_error {e : ServiceProblem} (h : x t = (.error e, u)) :
    (x >>= f) t = (.error e, u) := by
  rw [Action.bind_apply, h]

theorem lift_ok_bind (b : α) : (Action.lift (.ok b) >>= f) t = f b t := rfl

theorem lift_error_bind (e : ServiceProblem) : (Action.lift (.error e) >>= f) t = (.error e, t) := rfl

end Binding

omit [Hashing D] [DecidableEq D] in
theorem onOperation_bind {α β : Type} (x : RecordAction D α) (f : α → ServiceAction D β)
    (σ : WorkflowTables × ServiceOperation D) :
    (ServiceAction.onOperation x >>= f) σ = match x σ.2 with
      | (.error e, op) => (.error e, σ.1, op)
      | (.ok a, op) => f a (σ.1, op) := by
  rw [Action.bind_apply, ServiceAction.onOperation]
  rcases x σ.2 with ⟨e | a, op⟩ <;> rfl

omit [Hashing D] [DecidableEq D] in
theorem operation_bind {β : Type} (f : ServiceOperation D → ServiceAction D β)
    (σ : WorkflowTables × ServiceOperation D) : (ServiceAction.operation >>= f) σ = f σ.2 σ := rfl

/-- What a dispatch does after the admission. -/
def afterAdmission (s : LocalWorkflowService D) (c : Inbound) (a : Authorized D)
    (m : AdmittedRequest D) : ServiceAction D (ServiceReply D × Bytes) := do
  Action.lift (demand (c.unavailable = false) .unavailable)
  let reply ← s.perform a m c.faults
  let op ← ServiceAction.operation
  let payload ← Action.lift (s.success a op reply)
  pure (reply, payload)

theorem dispatch_eq (s : LocalWorkflowService D) (c : Inbound) (a : Authorized D)
    (σ : WorkflowTables × ServiceOperation D) :
    s.dispatch c a σ = match RecordAction.refusing (s.admitRequest a) σ.2 with
      | (.error e, op) => (.error e, σ.1, op)
      | (.ok m, op) => s.afterAdmission c a m (σ.1, op) := by
  rw [dispatch, onOperation_bind]
  generalize RecordAction.refusing (s.admitRequest a) σ.2 = x
  obtain ⟨e | m, op⟩ := x <;> rfl

theorem afterAdmission_unavailable (s : LocalWorkflowService D) {c : Inbound} (a : Authorized D)
    (m : AdmittedRequest D) (σ : WorkflowTables × ServiceOperation D) (h : c.unavailable ≠ false) :
    s.afterAdmission c a m σ = (.error (.service .unavailable), σ) := by
  rw [afterAdmission, demand, if_neg h, lift_error_bind]

theorem afterAdmission_error (s : LocalWorkflowService D) {c : Inbound} {a : Authorized D}
    {m : AdmittedRequest D} {σ τ : WorkflowTables × ServiceOperation D} {e : ServiceProblem}
    (h : c.unavailable = false) (hperform : s.perform a m c.faults σ = (.error e, τ)) :
    s.afterAdmission c a m σ = (.error e, τ) := by
  rw [afterAdmission, demand, if_pos h, lift_ok_bind, bind_of_error hperform]

theorem afterAdmission_ok (s : LocalWorkflowService D) {c : Inbound} {a : Authorized D}
    {m : AdmittedRequest D} {σ τ : WorkflowTables × ServiceOperation D} {reply : ServiceReply D}
    (h : c.unavailable = false) (hperform : s.perform a m c.faults σ = (.ok reply, τ)) :
    s.afterAdmission c a m σ =
      ((s.success a τ.2 reply).map fun payload => (reply, payload), τ) := by
  rw [afterAdmission, demand, if_pos h, lift_ok_bind, bind_of_ok hperform, operation_bind]
  cases hsuccess : s.success a τ.2 reply with
  | error e => rw [lift_error_bind]; rfl
  | ok payload => rw [lift_ok_bind]; rfl

/-- **A dispatch** refuses the request before the store is called, or settles what the store
answers. -/
theorem dispatch_spec (s : LocalWorkflowService D) (c : Inbound) (a : Authorized D)
    (t : WorkflowTables) :
    (∃ e op, s.dispatch c a (t, .start) = (.error e, t, op) ∧ e.Early ∧ Recorded a op) ∨
    ∃ m op data result t', Requested s a m op data ∧ Recorded a op ∧
      s.Called a m op c.faults t result t' ∧ s.dispatch c a (t, .start) =
        ((s.settled a op result).1, t', (s.settled a op result).2) := by
  have hrecorded := admitRequest_recorded s a
  rw [← refusing_snd] at hrecorded
  have hearly := stopsEarly_refusing (s := s) a .start
  have hadmits : ∀ m op, RecordAction.refusing (s.admitRequest a) .start = (.ok m, op) →
      ∃ data, Requested s a m op data := fun m op hadmit => requested_of_ok (refusing_eq_ok.mp hadmit)
  rw [dispatch_eq]
  generalize RecordAction.refusing (s.admitRequest a) .start = x at hrecorded hearly hadmits
  obtain ⟨e | m, op⟩ := x
  · exact .inl ⟨e, op, rfl, hearly e rfl, hrecorded⟩
  · obtain ⟨data, hm⟩ := hadmits m op rfl
    dsimp only at hrecorded ⊢
    by_cases hfree : c.unavailable = false
    · obtain ⟨e, hperform, hplain⟩ | ⟨result, t', hcalled, hperform⟩ :=
        perform_spec hm hrecorded.outcome hrecorded.pending c.faults t
      · rw [s.afterAdmission_error hfree hperform]
        exact .inl ⟨e, op, rfl, hplain, hrecorded⟩
      · refine .inr ⟨m, op, data, result, t', hm, hrecorded, hcalled, ?_⟩
        cases result with
        | error f => rw [s.afterAdmission_error hfree hperform]; rfl
        | ok reply =>
          rw [s.afterAdmission_ok hfree hperform]
          dsimp only [settled]
    · rw [s.afterAdmission_unavailable a m (t, op) hfree]
      exact .inl ⟨_, op, rfl, (by decide : ServiceCode.unavailable.status ≠ 0), hrecorded⟩

/-! ## Turns -/

/-- The phase that a dispatch leaves a connection in. -/
def dispatched (a : Authorized D)
    (result : Except ServiceProblem (ServiceReply D × Bytes) × ServiceOperation D) : ConnectionPhase D :=
  match result with
  | (.ok (reply, payload), _) => .answered a reply payload
  | (.error e, op) => .failed e op

theorem coreTurn_eq (s : LocalWorkflowService D) (c : Inbound) (a : Authorized D) (t : WorkflowTables) :
    s.coreTurn c a t = (dispatched a ((s.dispatch c a (t, .start)).1, (s.dispatch c a (t, .start)).2.2),
      (s.dispatch c a (t, .start)).2.1) := by
  unfold coreTurn dispatched
  generalize s.dispatch c a (t, .start) = x
  obtain ⟨e | ⟨reply, payload⟩, t', op⟩ := x <;> rfl

/-- **A worker's second turn** fails before the store is called, or it is the call's. -/
theorem coreTurn_spec (s : LocalWorkflowService D) (c : Inbound) (a : Authorized D)
    (t : WorkflowTables) :
    (∃ e op, s.coreTurn c a t = (.failed e op, t) ∧ e.Early ∧ Recorded a op) ∨
    ∃ m op data result t', Requested s a m op data ∧ Recorded a op ∧
      s.Called a m op c.faults t result t' ∧
        s.coreTurn c a t = (dispatched a (s.settled a op result), t') := by
  rw [coreTurn_eq]
  obtain ⟨e, op, hdispatch, hearly, hrecorded⟩ | ⟨m, op, data, result, t', hm, hrecorded, hcalled,
    hdispatch⟩ := dispatch_spec s c a t
  · rw [hdispatch]
    exact .inl ⟨e, op, rfl, hearly, hrecorded⟩
  · rw [hdispatch]
    exact .inr ⟨m, op, data, result, t', hm, hrecorded, hcalled, rfl⟩

/-- A connection is answered with what the store answered. -/
theorem dispatched_eq_answered {op : ServiceOperation D}
    {result : Except (Failure PyError) (ServiceReply D)} {a' : Authorized D} {reply : ServiceReply D}
    {payload : Bytes} (h : dispatched a (s.settled a op result) = .answered a' reply payload) :
    a' = a ∧ result = .ok reply ∧
      s.success a { op with outcome := reply.outcome, pending := false } reply = .ok payload := by
  cases result with
  | error f => cases h
  | ok found =>
    simp only [settled] at h
    cases hsuccess : s.success a { op with outcome := found.outcome, pending := false } found with
    | error e =>
      rw [hsuccess] at h
      cases h
    | ok raw =>
      rw [hsuccess] at h
      cases h
      exact ⟨rfl, rfl, hsuccess⟩

end LocalWorkflowService

end EvidenceBraid
