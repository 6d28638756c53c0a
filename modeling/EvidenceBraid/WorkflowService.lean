import EvidenceBraid.RateLimit
import EvidenceBraid.ServiceProtocol

/-!
# The workflow service

`LocalWorkflowService`: connections that are read, rated, dispatched to the store and answered, each
in a thread of its own. What they share is the rate limiter and the store, and each of a
connection's two turns uses one of them under a lock: `read` the limiter, `core` the store. A run of
the service is any order of such turns.

The threads, the locks and the clock are left to a schedule: which turn comes next, when a turn's
input or the store fails, and what the clock shows.
-/

namespace EvidenceBraid

open Hashing Transaction
open Separator (splitAll)

/-! ## Documents of the store -/

section Documents

variable {D : Type} [Hashing D] [DecidableEq D]

namespace StoredWorkflow

def items (w : StoredWorkflow D) : List (String × Json) :=
  [("bundle", w.bundle.toDict), ("checkpoint", w.checkpoint.toDict)]

/-- `to_dict`. -/
def toDict (w : StoredWorkflow D) : Json := Json.dict w.items

end StoredWorkflow

namespace WorkflowCommit

def items (c : WorkflowCommit D) : List (String × Json) :=
  [("request_id", .str c.requestId.value), ("request_digest", .str (hex c.requestDigest)),
    ("previous", c.previous.toDict), ("result", c.result.toDict)]

/-- `to_dict`. -/
def toDict (c : WorkflowCommit D) : Json := Json.dict c.items

end WorkflowCommit

end Documents

/-! ## Configuration -/

/-- The values of `access`. -/
inductive ServiceAccess where
  | read | act
  deriving DecidableEq, Repr

/-- `WorkflowServiceCredential`. -/
structure WorkflowServiceCredential (D : Type) where
  credentialId : Identifier
  actorId : Identifier
  tokenSha256 : D
  access : ServiceAccess
  deriving DecidableEq

/-- The arguments of `LocalWorkflowService`. -/
structure ServiceFields (D : Type) where
  limits : WorkflowServiceLimits
  authority : AuthorityPolicy
  workflowId : Identifier
  contextDigest : D
  startupCheckpoint : WorkflowCheckpoint D
  serviceId : Identifier
  port : ℕ
  credentials : List (WorkflowServiceCredential D)

namespace ServiceFields

variable {D : Type}

/-- The credentials uniquely bind trusted actors. -/
def Registered (f : ServiceFields D) : Prop :=
  (f.credentials.map (·.credentialId)).Nodup ∧ (f.credentials.map (·.tokenSha256)).Nodup ∧
    ∀ c ∈ f.credentials, c.actorId ∈ f.authority.actors.map (·.actorId)

instance [DecidableEq D] (f : ServiceFields D) : Decidable f.Registered := by
  unfold Registered; infer_instance

end ServiceFields

/-- `LocalWorkflowService`, as it is configured. -/
structure LocalWorkflowService (D : Type) extends ServiceFields D where
  registered : toServiceFields.Registered

variable {D : Type} [Hashing D] [DecidableEq D]

namespace LocalWorkflowService

/-- The constructor. -/
def make (f : ServiceFields D) : ServiceResult (LocalWorkflowService D) := do
  let _ ← python (workflowBytes f.authority.toDict f.limits.maxAuthorityBytes)
  let _ ← checkpointCopy f.startupCheckpoint f.contextDigest
  python (valid (f.port ≤ 65535) "service integer exceeds its exact native bounds")
  python (valid (1 ≤ f.credentials.length ∧ f.credentials.length ≤ f.limits.maxCredentials)
    "invalid credential count or container")
  if h : f.Registered then .ok ⟨f, h⟩
  else python (.error (.validation "credential registry must uniquely bind trusted actors"))

/-- The service's handle of the store. -/
def store (s : LocalWorkflowService D) : SQLiteWorkflowStore D :=
  ⟨s.authority, s.contextDigest, s.limits.storeLimits⟩

end LocalWorkflowService

/-! ## Requests -/

/-- The values of `_ROUTES`. -/
inductive ServiceRoute where
  | snapshot | append | lookup
  deriving DecidableEq, Repr

namespace ServiceRoute

def text : ServiceRoute → String
  | snapshot => "snapshot"
  | append => "append"
  | lookup => "lookup"

/-- The keys of `_ROUTES`. -/
def target (r : ServiceRoute) : String := "/v1/workflow/" ++ r.text

def ofTarget? (s : String) : Option ServiceRoute :=
  [snapshot, append, lookup].find? fun r => r.target = s

end ServiceRoute

/-- What comes in on a connection, the clock when it is rated, and what fails of it: reading its
headers or its body, getting to the store, and the store's own steps. -/
structure Inbound where
  peer : Peer
  now : ℤ
  headerFault : Bool
  bodyFault : Bool
  unavailable : Bool
  faults : SQLiteWorkflowStore.StoreFaults

/-- What `_read` returns. -/
structure Authorized (D : Type) where
  route : ServiceRoute
  credential : WorkflowServiceCredential D
  node : Json

/-- A read that the schedule may fail. -/
def received {α : Type} (fault : Bool) (x : Except FramingError α) : ServiceResult α :=
  if fault then .error .os else x.mapError .ofFraming

/-- `_rate`. -/
def rated (actor : Identifier) (now : ℤ) : Action Limiter ServiceProblem Unit := fun limiter =>
  match limiter.rate ⟨actor.value, now⟩ with
  | (.admitted, limiter) => (.ok (), limiter)
  | (.rateLimited, limiter) => (.error (.service .rateLimited), limiter)
  | (.unknownActor, limiter) => (.error (.python (.runtime "KeyError")), limiter)

/-- The route of a request line. -/
def requestRoute (line : String) : ServiceResult ServiceRoute :=
  match splitAll [' '] line.toList with
  | [method, target, version] => do
    demand (String.ofList version = "HTTP/1.1") .invalidRequest
    demand (String.ofList method = "POST") .methodNotAllowed
    demand (target.all (fun c => c ∉ ['?', '#', '%', '\\']) = true ∧ target.head? = some '/')
      .invalidRequest
    match ServiceRoute.ofTarget? (String.ofList target) with
    | some route => .ok route
    | none => .error (.service .notFound)
  | _ => .error (.service .invalidRequest)

/-- The headers that a request may have. -/
def requestHeaders : List String :=
  ["host", "authorization", "content-type", "content-length", "connection", "accept"]

namespace LocalWorkflowService

variable (s : LocalWorkflowService D)

/-- `_authenticate`. -/
def authenticate (headers : Headers) : ServiceResult (WorkflowServiceCredential D) :=
  let supplied := ((headers.get? "authorization").getD "").toList
  let token := supplied.drop 7
  if supplied.length = 71 ∧ String.ofList (supplied.take 7) = "Bearer " ∧
      isHash (String.ofList token) = true then
    match s.credentials.foldl (fun found c => if c.tokenSha256 = sha256 (pairBytes token) then some c
        else found) none with
    | some credential => .ok credential
    | none => .error (.service .unauthorized)
  else .error (.service .unauthorized)

/-- `_read` up to the rating: who asks for what. -/
def authorize (line : String) (headers : Headers) :
    ServiceResult (ServiceRoute × WorkflowServiceCredential D) := do
  let route ← requestRoute line
  demand (∀ k ∈ headers.keys, k ∈ requestHeaders) .invalidRequest
  demand (headers.get? "host" = some ("127.0.0.1:" ++ toString s.port)) .invalidRequest
  let credential ← s.authenticate headers
  demand (route = .append → credential.access = .act) .forbidden
  .ok (route, credential)

/-- `_read` after the rating: the body. -/
def receiveNode (c : Inbound) (headers : Headers) (tail : Bytes) (peer : Peer) : ServiceResult Json := do
  demand (headers.get? "content-type" = some "application/json") .unsupportedMediaType
  demand ((headers.get? "connection").getD "close" = "close" ∧
    (headers.get? "accept").getD "application/json" = "application/json") .invalidRequest
  let size ← (contentLength headers s.limits.maxRequestBytes).mapError .ofFraming
  let (raw, _) ← received c.bodyFault (readBody peer tail size)
  match parseJson raw s.limits.bodies false with
  | .ok node => .ok node
  | .error (.service code) => .error (.service code)
  | .error (.validation _) => .error (.service .invalidRequest)

/-- `_read`. -/
def readRequest (c : Inbound) : Action Limiter ServiceProblem (Authorized D) := do
  let ((line, headers), tail, peer) ← Action.lift
    (received c.headerFault (readHeaders s.limits.headers c.peer))
  let (route, credential) ← Action.lift (s.authorize line headers)
  rated credential.actorId c.now
  let node ← Action.lift (s.receiveNode c headers tail peer)
  pure ⟨route, credential, node⟩

end LocalWorkflowService

/-! ## Operations -/

/-- `_Operation`. -/
structure ServiceOperation (D : Type) where
  outcome : CommitOutcome
  pending : Bool
  requestId : Option PublicId
  requestDigest : Option D

namespace ServiceOperation

variable {D : Type}

/-- `_Operation()`. -/
def start : ServiceOperation D := ⟨.none, false, none, none⟩

/-- `observe`. -/
def observe (op : ServiceOperation D) (e : ServiceProblem) : ServiceOperation D :=
  if op.outcome = .complete then op
  else match e with
    | .storage outcome => { op with outcome := outcome }
    | .service _ => { op with outcome := .none }
    | .python error =>
      if error.isValidationError then { op with outcome := .none }
      else if op.pending then { op with outcome := .unknown } else op
    | .os | .control => if op.pending then { op with outcome := .unknown } else op

end ServiceOperation

/-- What a request is admitted on: the operation's record. -/
abbrev RecordAction (D : Type) := Action (ServiceOperation D) ServiceProblem

/-- An assignment to the operation's record. -/
def RecordAction.assign {D : Type} (f : ServiceOperation D → ServiceOperation D) : RecordAction D Unit :=
  fun op => (.ok (), f op)

/-- `except ValidationError: raise WorkflowServiceError("invalid_request")`. -/
def RecordAction.refusing {D α : Type} (x : RecordAction D α) : RecordAction D α := fun op =>
  match x op with
  | (.error e, op) => (.error (if e.isValidation then .service .invalidRequest else e), op)
  | (.ok a, op) => (.ok a, op)

/-- What a request is dispatched on: the store's tables and the operation's record. -/
abbrev ServiceAction (D : Type) := Action (WorkflowTables × ServiceOperation D) ServiceProblem

namespace ServiceAction

variable {D : Type} {α : Type}

/-- A call of the store. -/
def onStore (x : SQLiteWorkflowStore.StoreAction α) : ServiceAction D α := fun σ =>
  let (result, tables) := x σ.1
  (result.mapError .ofFailure, tables, σ.2)

/-- A step that leaves the store alone. -/
def onOperation (x : RecordAction D α) : ServiceAction D α := fun σ =>
  let (result, op) := x σ.2
  (result, σ.1, op)

/-- An assignment to the operation's record. -/
def assign (f : ServiceOperation D → ServiceOperation D) : ServiceAction D Unit :=
  onOperation (RecordAction.assign f)

def operation : ServiceAction D (ServiceOperation D) := fun σ => (.ok σ.2, σ)

end ServiceAction

/-- What `_admit` returns. -/
structure AdmittedRequest (D : Type) where
  coreId : Option Identifier
  before : Option (WorkflowCheckpoint D)
  commands : List (WorkflowTransition D)

/-- What the store answers. -/
inductive ServiceReply (D : Type) [Hashing D] [DecidableEq D] where
  | stored (w : StoredWorkflow D)
  | commit (c : WorkflowCommit D)
  | absent

/-- The fields of a request's body. -/
def ServiceRoute.fields : ServiceRoute → List String
  | .snapshot => ["schema_version", "expected_checkpoint"]
  | .lookup => ["schema_version", "request_id", "request_digest"]
  | .append =>
    ["schema_version", "request_id", "request_digest", "expected_checkpoint", "transitions"]

namespace LocalWorkflowService

open ServiceAction

variable (s : LocalWorkflowService D)

/-- `_admit`: the identity of a request that has one. -/
def admitIdentity (a : Authorized D) (data : List (String × Json)) :
    RecordAction D (Option Identifier) :=
  if a.route = .snapshot then pure none
  else do
    let requestId ← Action.lift (python (publicId (Json.get? data "request_id")))
    RecordAction.assign fun op => { op with requestId := some requestId }
    let digest ← Action.lift (python (serviceDigest (Json.get? data "request_digest")))
    RecordAction.assign fun op => { op with requestDigest := some digest }
    let core ← Action.lift (python
      (namespaceId s.serviceId s.contextDigest a.credential.actorId requestId))
    pure (some core)

/-- `_admit`: the checkpoint of a request that has one. -/
def admitCheckpoint (a : Authorized D) (data : List (String × Json)) :
    ServiceResult (Option (WorkflowCheckpoint D)) :=
  if a.route = .lookup then .ok none
  else match Json.get? data "expected_checkpoint" with
    | none | some .null => .ok none
    | some value => do
      let checkpoint ← python (WorkflowCheckpoint.fromDict value)
      let before ← checkpointCopy checkpoint s.contextDigest
      .ok (some before)

/-- `_admit`: the transitions of an append. -/
def admitCommands (a : Authorized D) (data : List (String × Json))
    (before : Option (WorkflowCheckpoint D)) : ServiceResult (List (WorkflowTransition D)) :=
  if a.route = .append then
    match Json.get? data "transitions" with
    | some (.arr values) => do
      demand (1 ≤ values.length ∧ values.length ≤ s.limits.maxAppendRecords) .limitExceeded
      let transitions ← python (decodeItems WorkflowTransition.fromDict values)
      let commands ← transitionsCopy transitions a.credential.actorId s.limits
      python (valid (before.isSome = true) "append requires an exact checkpoint")
      .ok commands
    | _ => .error (.service .limitExceeded)
  else .ok []

/-- `_admit`. -/
def admitRequest (a : Authorized D) : RecordAction D (AdmittedRequest D) := do
  let data ← Action.lift (python (objectFields a.node a.route.fields))
  Action.lift (python (valid (Json.get? data "schema_version" = some (.str "1.0"))
    "unsupported service request version"))
  let coreId ← s.admitIdentity a data
  let before ← Action.lift (s.admitCheckpoint a data)
  let commands ← Action.lift (s.admitCommands a data before)
  pure ⟨coreId, before, commands⟩

/-- The calls of the store in `_dispatch`. -/
def perform (a : Authorized D) (m : AdmittedRequest D) (faults : SQLiteWorkflowStore.StoreFaults) :
    ServiceAction D (ServiceReply D) :=
  match a.route with
  | .snapshot => do
    let result ← onStore (s.store.snapshot m.before faults)
    pure (.stored result)
  | .lookup => do
    let op ← operation
    match m.coreId, op.requestDigest with
    | some core, some digest => do
      assign fun op => { op with pending := true }
      let result ← onStore (s.store.lookup core digest faults)
      match result with
      | some commit => do
        assign fun op => { op with outcome := .complete, pending := false }
        pure (.commit commit)
      | none => do
        assign fun op => { op with pending := false }
        pure .absent
    | _, _ => Action.lift (python (.error (.validation "lookup identity is missing")))
  | .append => do
    let op ← operation
    match m.coreId, m.before with
    | some core, some before => do
      let actual ← Action.lift (python (s.store.prepare m.commands core before))
      Action.lift (demand (op.requestDigest = some actual.digest) .conflict)
      assign fun op => { op with pending := true }
      let result ← onStore (s.store.append m.commands core before faults)
      assign fun op => { op with outcome := .complete, pending := false }
      pure (.commit result)
    | _, _ => Action.lift (python (.error (.validation "append identity is missing")))

end LocalWorkflowService

/-! ## Answers -/

namespace ServiceReply

/-- The result in an answer. -/
def toDict : ServiceReply D → Json
  | .stored w => w.toDict
  | .commit c => c.toDict
  | .absent => .null

end ServiceReply

/-- What every answer says of who answers whom. -/
structure Envelope (D : Type) where
  serviceId : Identifier
  workflowId : Identifier
  contextDigest : D
  actorId : Identifier
  route : ServiceRoute
  requestId : Option PublicId
  requestDigest : Option D
  outcome : CommitOutcome

omit [DecidableEq D] in
def Envelope.items (e : Envelope D) (result : Json) : List (String × Json) :=
  [("schema_version", .str "1.0"), ("service_id", .str e.serviceId.value),
    ("workflow_id", .str e.workflowId.value), ("context_digest", .str (hex e.contextDigest)),
    ("actor_id", .str e.actorId.value), ("operation", .str e.route.text),
    ("request_id", takenJson (fun i : PublicId => i.value) e.requestId),
    ("request_digest", takenJson hex e.requestDigest), ("outcome", .str e.outcome.text),
    ("result", result)]

omit [DecidableEq D] in
def Envelope.toDict (e : Envelope D) (result : Json) : Json := Json.dict (e.items result)

/-- `_diagnostic`. -/
def diagnostic (e : ServiceProblem) (op : ServiceOperation D) : WorkflowServiceError D :=
  let op := op.observe e
  let code := match e with
    | .storage _ => .unavailable
    | .service code => if op.outcome = .complete then .internalError else code
    | .python error =>
      if op.outcome = .complete then .internalError
      else match error with
        | .conflict _ => .conflict
        | .validation _ => .workflowRejected
        | _ => .internalError
    | .os => if op.outcome = .complete then .internalError else .unavailable
    | .control => .internalError
  ⟨code, op.outcome, op.requestId, op.requestDigest⟩

/-- What the worker sends of an exception: nothing, if it is no `Exception`. -/
def errorPayload (e : ServiceProblem) (op : ServiceOperation D) : Bytes :=
  match e with
  | .control => []
  | _ =>
    match (diagnostic e (op.observe e)).errorFrame with
    | .ok payload => payload
    | .error _ => WorkflowServiceError.emergency (D := D) (diagnostic e (op.observe e)).outcome

namespace LocalWorkflowService

open ServiceAction

variable (s : LocalWorkflowService D)

/-- What an answer to a request says of itself. -/
def envelope (a : Authorized D) (op : ServiceOperation D) : Envelope D where
  serviceId := s.serviceId
  workflowId := s.workflowId
  contextDigest := s.contextDigest
  actorId := a.credential.actorId
  route := a.route
  requestId := op.requestId
  requestDigest := op.requestDigest
  outcome := op.outcome

/-- `_success`. -/
def success (a : Authorized D) (op : ServiceOperation D) (reply : ServiceReply D) : ServiceResult Bytes := do
  let body ← python (workflowBytes ((s.envelope a op).toDict reply.toDict)
    s.limits.bodies.responseBytes)
  .ok (responseFrame 200 body)

/-- `_dispatch`: the reply and its payload. -/
def dispatch (c : Inbound) (a : Authorized D) : ServiceAction D (ServiceReply D × Bytes) := do
  let m ← onOperation (RecordAction.refusing (s.admitRequest a))
  Action.lift (demand (c.unavailable = false) .unavailable)
  let reply ← s.perform a m c.faults
  let op ← operation
  let payload ← Action.lift (s.success a op reply)
  pure (reply, payload)

end LocalWorkflowService

/-! ## Runs -/

/-- How far a connection is. -/
inductive ConnectionPhase (D : Type) [Hashing D] [DecidableEq D] where
  | reading
  | dispatching (a : Authorized D)
  | answered (a : Authorized D) (reply : ServiceReply D) (payload : Bytes)
  | failed (e : ServiceProblem) (op : ServiceOperation D)

/-- What a connection has been sent, or will be. -/
def ConnectionPhase.payload : ConnectionPhase D → Bytes
  | .reading | .dispatching _ => []
  | .answered _ _ payload => payload
  | .failed e op => errorPayload e op

/-- A connection and its schedule. -/
structure ServiceConnection (D : Type) [Hashing D] [DecidableEq D] where
  inbound : Inbound
  phase : ConnectionPhase D

structure ServiceState (D : Type) [Hashing D] [DecidableEq D] where
  tables : WorkflowTables
  limiter : Limiter
  connections : List (ServiceConnection D)

/-- A connection is accepted, or the thread of one takes its next turn. -/
inductive ServiceEvent where
  | accept (c : Inbound)
  | read (i : ℕ)
  | core (i : ℕ)

namespace LocalWorkflowService

variable (s : LocalWorkflowService D)

/-- A worker's first turn. -/
def readTurn (c : Inbound) (limiter : Limiter) : ConnectionPhase D × Limiter :=
  match s.readRequest c limiter with
  | (.ok a, limiter) => (.dispatching a, limiter)
  | (.error e, limiter) => (.failed e .start, limiter)

/-- A worker's second turn. -/
def coreTurn (c : Inbound) (a : Authorized D) (t : WorkflowTables) : ConnectionPhase D × WorkflowTables :=
  match s.dispatch c a (t, .start) with
  | (.ok (reply, payload), t, _) => (.answered a reply payload, t)
  | (.error e, t, op) => (.failed e op, t)

/-- One turn of the service. -/
def turn (σ : ServiceState D) : ServiceEvent → ServiceState D
  | .accept c => { σ with connections := σ.connections ++ [⟨c, .reading⟩] }
  | .read i =>
    match σ.connections[i]? with
    | some ⟨c, .reading⟩ =>
      let (phase, limiter) := s.readTurn c σ.limiter
      { σ with limiter := limiter, connections := σ.connections.set i ⟨c, phase⟩ }
    | _ => σ
  | .core i =>
    match σ.connections[i]? with
    | some ⟨c, .dispatching a⟩ =>
      let (phase, tables) := s.coreTurn c a σ.tables
      { σ with tables := tables, connections := σ.connections.set i ⟨c, phase⟩ }
    | _ => σ

/-- `start`, up to the listener: the store holds the workflow at the startup checkpoint. -/
def start (faults : SQLiteWorkflowStore.StoreFaults) : Action WorkflowTables ServiceProblem Unit := do
  let current ← fun t =>
    let (result, tables) := s.store.snapshot (some s.startupCheckpoint) faults t
    (result.mapError .ofFailure, tables)
  Action.lift (demand (current.bundle.workflowId = s.workflowId) .conflict)
  let raw ← Action.lift (python (workflowBytes current.toDict s.limits.bodies.responseBytes))
  let _ ← Action.lift (wired (parseJson raw s.limits.bodies true))
  pure ()

/-- The state in which the service begins to accept connections. -/
def started (now : ℤ) (t : WorkflowTables) : ServiceState D :=
  ⟨t, Limiter.start now (s.credentials.map fun c => c.actorId.value), []⟩

end LocalWorkflowService

end EvidenceBraid
