import EvidenceBraid.ServiceTurns

/-!
# Actors of the workflow service are apart

**Theorem (`service_isolated`).** In every run of the service, an event that changes the store is the
turn of a request that came with the token of an actor's `act` credential, the operation that it adds
is in this actor's namespace, and all of its transitions are this actor's. A commit that the service
answers, found or appended, is in the namespace of the actor that asked and has transitions of this
actor only.

**Idea.** A request identity of the store is a hash of the actor with the public identity, so under
hashes without a collision the namespaces are disjoint. What is stored in a namespace (`Separated`) is
then kept by every append, since an append only adds an operation that its own actor asked for.
-/

namespace EvidenceBraid

open Hashing Transaction
open SQLiteWorkflowStore (StoreHistory read historical lookup Continues)

variable {D : Type} [Hashing D] [DecidableEq D]

namespace LocalWorkflowService

variable (s : LocalWorkflowService D)

/-! ## What is an actor's -/

/-- A request identity of the store that is an actor's. -/
def InNamespace (actor core : Identifier) : Prop :=
  ∃ p, namespaceId s.serviceId s.contextDigest actor p = .ok core

/-- Every stored operation in the namespace of a registered actor has this actor's transitions only. -/
def Separated (b : BundleFields D) (operations : List (WorkflowOperation D)) : Prop :=
  ∀ c ∈ s.credentials, ∀ o ∈ operations, s.InNamespace c.actorId o.requestId →
    ∀ x ∈ o.transitions b, x.actorId = c.actorId

/-- The commit is in the actor's namespace, and all that it appended is the actor's. -/
structure Belongs (actor : Identifier) (c : WorkflowCommit D) : Prop where
  requestId : s.InNamespace actor c.requestId
  transitions : ∀ x ∈ c.appended, x.actorId = actor

/-- The request came with the token of a credential that may do what it asks for. -/
structure Presented (c : Inbound) (a : Authorized D) : Prop where
  registered : a.credential ∈ s.credentials
  access : a.route = .append → a.credential.access = .act
  token : ∃ line headers rest token, readHeaders s.limits.headers c.peer = .ok ((line, headers), rest) ∧
    headers.get? "authorization" = some ("Bearer " ++ token) ∧
    a.credential.tokenSha256 = sha256 (pairBytes token.toList)

/-- What a connection was dispatched for, and was answered, is its actor's. -/
structure Accounted (c : ServiceConnection D) : Prop where
  dispatching : ∀ a, c.phase = .dispatching a → s.Presented c.inbound a
  answered : ∀ a commit payload, c.phase = .answered a (.commit commit) payload →
    s.Presented c.inbound a ∧ s.Belongs a.credential.actorId commit

variable {s}

/-! ## What was presented -/

/-- **What a request is read as** is what it presented. -/
theorem presented_of_readTurn {c : Inbound} {limiter : Limiter} {a : Authorized D}
    (h : (s.readTurn c limiter).1 = .dispatching a) : s.Presented c a := by
  unfold readTurn at h
  split at h
  · next a' limiter' hread =>
    obtain rfl := ConnectionPhase.dispatching.inj h
    simp only [readRequest, Action.bind_eq_ok, Action.lift_eq_ok, Action.pure_eq_ok] at hread
    obtain ⟨⟨⟨line, headers⟩, tail, peer⟩, _, ⟨hreceived, rfl⟩, ⟨route, credential⟩, _,
      ⟨hauthorized, rfl⟩, _, hread⟩ := hread
    obtain ⟨_, -, node, _, -, rfl, -⟩ := hread
    simp only [authorize, bind_eq_ok, demand_eq_ok, exists_unit, Except.ok.injEq,
      Prod.mk.injEq] at hauthorized
    obtain ⟨_, -, -, -, _, hauthenticated, haccess, rfl, rfl⟩ := hauthorized
    obtain ⟨hmem, token, hheader, hhash⟩ := authenticate_eq_ok hauthenticated
    exact ⟨hmem, haccess, line, headers, (tail, peer), token, (received_eq_ok.mp hreceived).2, hheader,
      hhash⟩
  · cases h

theorem not_answered_readTurn {c : Inbound} {limiter : Limiter} {a : Authorized D}
    {reply : ServiceReply D} {payload : Bytes} :
    (s.readTurn c limiter).1 ≠ .answered a reply payload := by
  unfold readTurn
  split <;> simp

/-! ## What the store does for an actor -/

section Store

variable [WideHex D] {store : SQLiteWorkflowStore D} {h h' : StoreHistory D} {t : WorkflowTables}
  {o : WorkflowOperation D} {commit : WorkflowCommit D}

/-- **What a lookup finds** is stored. -/
theorem lookup_found (hs : h.Sound store) (ht : h.Stored t) {requestId : Identifier} {digest : D}
    {faults : SQLiteWorkflowStore.StoreFaults}
    (hfound : (lookup store requestId digest faults t).1 = .ok (some commit)) :
    ∃ o ∈ h.operations, o.requestId = requestId ∧ historical store h.bundle o = .ok commit := by
  obtain ⟨w, flags, hlookup, -⟩ := (SQLiteWorkflowStore.transact_spec
    (SQLiteWorkflowStore.storeComputes_lookup store requestId digest) faults false t).1 _ hfound
  simp only [bind_eq_ok, hs.read_current ht, Except.ok.injEq, exists_eq_left'] at hlookup
  unfold SQLiteWorkflowStore.foundIn at hlookup
  cases hfind : SQLiteWorkflowStore.find hs.current requestId with
  | none => simp [hfind] at hlookup
  | some o =>
    simp only [hfind, bind_eq_ok, SQLiteWorkflowStore.answered, require_eq_ok, exists_unit,
      Except.ok.injEq, Prod.mk.injEq, Option.some.injEq] at hlookup
    obtain ⟨_, ⟨-, hhistorical⟩, rfl, -⟩ := hlookup
    obtain ⟨hmem, hid⟩ := SQLiteWorkflowStore.StoreHistory.of_find hfind
    exact ⟨o, hmem, hid, hhistorical⟩

/-- A commit that is given back appended its operation's transitions. -/
theorem appended_of_historical (hs : h.Sound store) (ho : o ∈ h.operations)
    (hhistorical : historical store h.bundle o = .ok commit) : commit.requestId = o.requestId ∧
      commit.appended = o.transitions h.bundle.toBundleFields := by
  obtain ⟨commit', hcommit', hid, -, hprevious, hbundle, -⟩ := hs.historical_eq ho
  obtain rfl := Except.ok.inj (hhistorical.symm.trans hcommit')
  refine ⟨hid, ?_⟩
  rw [CommitFields.appended, hbundle, hprevious]
  rfl

theorem Separated.belongs (hsep : s.Separated h.bundle.toBundleFields h.operations)
    (hs : h.Sound store) (ho : o ∈ h.operations)
    (hhistorical : historical store h.bundle o = .ok commit) {c : WorkflowServiceCredential D}
    (hc : c ∈ s.credentials) (hin : s.InNamespace c.actorId o.requestId) :
    s.Belongs c.actorId commit := by
  obtain ⟨hid, happended⟩ := appended_of_historical hs ho hhistorical
  refine ⟨hid ▸ hin, ?_⟩
  rw [happended]
  exact hsep c hc o ho hin

variable (s) in
/-- The hash is injective on the namespaces' documents. -/
def Injective : Prop :=
  Set.InjOn (sha256 : Bytes → D) {raw | ∃ c ∈ s.credentials,
    raw = canonicalBytes (namespaceNode s.serviceId s.contextDigest c.actorId)}

/-- **An operation of an actor keeps the namespaces apart.** -/
theorem Separated.extends (hinj : s.Injective)
    (hsep : s.Separated h.bundle.toBundleFields h.operations) (hs : h.Sound store)
    (he : StoreHistory.Extends h h' o) {c : WorkflowServiceCredential D} (hc : c ∈ s.credentials)
    (hin : s.InNamespace c.actorId o.requestId)
    (hactor : ∀ x ∈ o.transitions h'.bundle.toBundleFields, x.actorId = c.actorId) :
    s.Separated h'.bundle.toBundleFields h'.operations := by
  intro c' hc' o' ho' hin' x hx
  rw [he.operations, List.mem_append, List.mem_singleton] at ho'
  rcases ho' with hold | rfl
  · refine hsep c' hc' o' hold hin' x ?_
    rwa [WorkflowOperation.transitions,
      he.agrees.take_eq (hs.history.forall_mem o' hold).within]
  · obtain ⟨p, hp⟩ := hin
    obtain ⟨p', hp'⟩ := hin'
    have hboth : ({canonicalBytes (namespaceNode s.serviceId s.contextDigest c.actorId),
        canonicalBytes (namespaceNode s.serviceId s.contextDigest c'.actorId)} : Set Bytes) ⊆
        {raw | ∃ c ∈ s.credentials,
          raw = canonicalBytes (namespaceNode s.serviceId s.contextDigest c.actorId)} := by
      intro raw hraw
      rcases hraw with rfl | rfl
      · exact ⟨c, hc, rfl⟩
      · exact ⟨c', hc', rfl⟩
    obtain ⟨hsame, -⟩ := namespaceId_inj (hinj.mono hboth) hp hp'
    rw [hactor x hx, hsame]

end Store

/-! ## Turns -/

section Turns

variable [WideHex D] {h : StoreHistory D} {t : WorkflowTables}

variable (s) in
/-- The store holds one more operation, which is that of a request's actor. -/
def Adds (a : Authorized D) (h : StoreHistory D) (u : WorkflowTables) : Prop :=
  a.route = .append ∧ ∃ h' o, StoreHistory.Extends h h' o ∧ h'.Sound s.store ∧ h'.Stored u ∧
    s.InNamespace a.credential.actorId o.requestId ∧
      ∀ x ∈ o.transitions h'.bundle.toBundleFields, x.actorId = a.credential.actorId

/-- An append that is admitted does nothing, or adds an operation of its actor; and what it returns is
the actor's. -/
theorem append_belongs (hs : h.Sound s.store)
    (hsep : s.Separated h.bundle.toBundleFields h.operations) {a : Authorized D}
    (hroute : a.route = .append) (hregistered : a.credential ∈ s.credentials) {core : Identifier}
    (hcore : s.InNamespace a.credential.actorId core) {ts : List (WorkflowTransition D)}
    (hactor : ∀ x ∈ ts, x.actorId = a.credential.actorId) {before : WorkflowCheckpoint D}
    {r : SQLiteWorkflowStore.Request D} (hr : s.store.prepare ts core before = .ok r)
    {commit : WorkflowCommit D} {u : WorkflowTables} (h' : StoreHistory.Appended s.store h t r commit u) :
    (u = t ∨ s.Adds a h u) ∧ s.Belongs a.credential.actorId commit := by
  obtain ⟨-, -, d, -, hfields⟩ := SQLiteWorkflowStore.prepare_eq_ok.mp hr
  cases h' with
  | stored o ho hid _ hhistorical htables =>
    rw [hfields] at hid
    exact ⟨.inl htables, hsep.belongs hs ho hhistorical hregistered (hid ▸ hcore)⟩
  | fresh h' o he hs' ht' hrequest _ hhistorical =>
    rw [hrequest] at hfields
    have hid : o.requestId = core := congrArg SQLiteWorkflowStore.Request.requestId hfields
    have hts : o.transitions h'.bundle.toBundleFields = ts :=
      congrArg SQLiteWorkflowStore.Request.transitions hfields
    have ho : o ∈ h'.operations := by
      rw [he.operations]
      exact List.mem_append_right _ (List.mem_singleton_self o)
    obtain ⟨hcommit, happended⟩ := appended_of_historical hs' ho hhistorical
    refine ⟨.inr ⟨hroute, h', o, he, hs', ht', hid ▸ hcore, hts ▸ hactor⟩, ?_, ?_⟩
    · rw [hcommit, hid]
      exact hcore
    · rw [happended, hts]
      exact hactor

/-- **A call of the store** leaves it alone or adds an operation of its actor, and what it returns is
this actor's. -/
theorem Called.belongs (hs : h.Sound s.store) (ht : h.Stored t)
    (hsep : s.Separated h.bundle.toBundleFields h.operations) {a : Authorized D}
    {m : AdmittedRequest D} {op : ServiceOperation D} {data : List (String × Json)}
    {faults : SQLiteWorkflowStore.StoreFaults} {result : Except (Failure PyError) (ServiceReply D)}
    {u : WorkflowTables} (hregistered : a.credential ∈ s.credentials) (hm : Requested s a m op data)
    (hcalled : s.Called a m op faults t result u) : (u = t ∨ s.Adds a h u) ∧
      ∀ commit, result = .ok (.commit commit) → s.Belongs a.credential.actorId commit := by
  have hnamespace {core : Identifier} (hroute : a.route ≠ .snapshot) (hcore : m.coreId = some core) :
      s.InNamespace a.credential.actorId core := by
    obtain ⟨i, _, core', -, -, hcore', hid, -⟩ := hm.identity hroute
    obtain rfl : core = core' := Option.some.inj (hcore.symm.trans hcore')
    exact ⟨i, hid⟩
  cases hcalled with
  | snapshot hroute =>
    refine ⟨.inl (StoreHistory.snapshot_tables _ _ _), fun commit hresult => ?_⟩
    obtain ⟨w, -, hw⟩ := exceptMap_eq_ok.mp hresult
    cases hw
  | lookup hroute hcore hdigest =>
    refine ⟨.inl (StoreHistory.lookup_tables _ _ _ _), fun commit hresult => ?_⟩
    obtain ⟨found, hlookup, hfound⟩ := exceptMap_eq_ok.mp hresult
    cases found with
    | none => cases hfound
    | some commit' =>
      obtain rfl := ServiceReply.commit.inj hfound
      obtain ⟨o, ho, hid, hhistorical⟩ := lookup_found hs ht hlookup
      have hin := hnamespace (by rw [hroute]; decide) hcore
      exact hsep.belongs hs ho hhistorical hregistered (hid ▸ hin)
  | append hroute hcore hexpected hprepared hdigest =>
    have hin := hnamespace (by rw [hroute]; decide) hcore
    have hactor := (hm.commands hroute).2.1
    obtain ⟨hreturned, hleft⟩ := hs.append_spec ht hprepared faults
    refine ⟨?_, fun commit hresult => ?_⟩
    · rcases hleft with hsame | ⟨commit, hdone⟩
      · exact .inl hsame
      · exact (append_belongs hs hsep hroute hregistered hin hactor hprepared hdone).1
    · obtain ⟨commit', hok, hcommit⟩ := exceptMap_eq_ok.mp hresult
      obtain rfl := ServiceReply.commit.inj hcommit
      exact (append_belongs hs hsep hroute hregistered hin hactor hprepared (hreturned _ hok)).2

/-- **A worker's second turn** leaves the store alone or adds an operation of its actor, and answers
with what is this actor's. -/
theorem coreTurn_belongs (hs : h.Sound s.store) (ht : h.Stored t)
    (hsep : s.Separated h.bundle.toBundleFields h.operations) {c : Inbound} {a : Authorized D}
    (hpresented : s.Presented c a) :
    ((s.coreTurn c a t).2 = t ∨ s.Adds a h (s.coreTurn c a t).2) ∧
      s.Accounted ⟨c, (s.coreTurn c a t).1⟩ := by
  obtain ⟨e, op, hturn, -⟩ | ⟨m, op, data, result, t', hm, -, hcalled, hturn⟩ := coreTurn_spec s c a t
  · rw [hturn]
    exact ⟨.inl rfl, ⟨fun _ hphase => (by cases hphase), fun _ _ _ hphase => (by cases hphase)⟩⟩
  · rw [hturn]
    obtain ⟨hleft, hbelongs⟩ := hcalled.belongs hs ht hsep hpresented.registered hm
    refine ⟨hleft, fun a' hphase => ?_, fun a' commit payload hphase => ?_⟩
    · dsimp only [dispatched] at hphase
      split at hphase <;> cases hphase
    · obtain ⟨rfl, hresult, -⟩ := dispatched_eq_answered hphase
      exact ⟨hpresented, hbelongs commit hresult⟩

/-! ## Runs -/

variable (s) in
/-- The invariant of a run: the store's history goes on from the first one with its namespaces apart,
and every connection is accounted for. -/
structure Isolated (h₀ : StoreHistory D) (σ : ServiceState D) : Prop where
  history : ∃ h, h.Sound s.store ∧ h.Stored σ.tables ∧ StoreHistory.Later h₀ h ∧
    s.Separated h.bundle.toBundleFields h.operations
  connections : ∀ c ∈ σ.connections, s.Accounted c

omit [WideHex D] in
/-- Only a worker's second turn changes the tables. -/
theorem turn_tables (σ : ServiceState D) (e : ServiceEvent) : (s.turn σ e).tables = σ.tables ∨
    ∃ k c a, e = .core k ∧ σ.connections[k]? = some ⟨c, .dispatching a⟩ ∧
      (s.turn σ e).tables = (s.coreTurn c a σ.tables).2 := by
  cases e with
  | accept c => exact .inl rfl
  | read k =>
    simp only [turn]
    split <;> exact .inl rfl
  | core k =>
    simp only [turn]
    split
    · next c a hk => exact .inr ⟨k, c, a, rfl, hk, rfl⟩
    · exact .inl rfl

omit [WideHex D] in
theorem accounted_set {connections : List (ServiceConnection D)} {c : ServiceConnection D} (k : ℕ)
    (hconnections : ∀ c ∈ connections, s.Accounted c) (hc : s.Accounted c) :
    ∀ c' ∈ connections.set k c, s.Accounted c' := by
  intro c' hc'
  rcases List.mem_or_eq_of_mem_set hc' with hold | rfl
  · exact hconnections c' hold
  · exact hc

/-- **Every turn keeps the actors apart.** -/
theorem Isolated.turn (hinj : s.Injective) {h₀ : StoreHistory D} {σ : ServiceState D}
    (hσ : s.Isolated h₀ σ) (e : ServiceEvent) : s.Isolated h₀ (s.turn σ e) := by
  obtain ⟨⟨h, hs, ht, hlater, hsep⟩, hconnections⟩ := hσ
  cases e with
  | accept c =>
    refine ⟨⟨h, hs, ht, hlater, hsep⟩, fun c' hc' => ?_⟩
    rcases List.mem_append.mp hc' with hold | hnew
    · exact hconnections c' hold
    · obtain rfl := List.mem_singleton.mp hnew
      exact ⟨fun _ hphase => (by cases hphase), fun _ _ _ hphase => (by cases hphase)⟩
  | read k =>
    simp only [LocalWorkflowService.turn]
    split
    · next c hk =>
      refine ⟨⟨h, hs, ht, hlater, hsep⟩, accounted_set k hconnections ⟨fun a hphase => ?_,
        fun a commit payload hphase => absurd hphase not_answered_readTurn⟩⟩
      exact presented_of_readTurn hphase
    · exact ⟨⟨h, hs, ht, hlater, hsep⟩, hconnections⟩
  | core k =>
    simp only [LocalWorkflowService.turn]
    split
    · next c a hk =>
      have hpresented := (hconnections _ (List.mem_of_getElem? hk)).dispatching a rfl
      obtain ⟨hleft, haccounted⟩ := coreTurn_belongs hs ht hsep hpresented
      refine ⟨?_, accounted_set k hconnections haccounted⟩
      rcases hleft with hsame | hadds
      · dsimp only
        rw [hsame]
        exact ⟨h, hs, ht, hlater, hsep⟩
      · obtain ⟨-, h', o, he, hs', ht', hin, hactor⟩ := hadds
        exact ⟨h', hs', ht', hlater.trans he.later,
          hsep.extends hinj hs he hpresented.registered hin hactor⟩
    · exact ⟨⟨h, hs, ht, hlater, hsep⟩, hconnections⟩

/-- **The actors of a service are apart in every run.** -/
theorem service_isolated (s : LocalWorkflowService D) (hinj : s.Injective) {t : WorkflowTables}
    {r : WorkflowRead D} (hread : read s.store t = .ok r)
    (hsep : s.Separated r.snapshot.bundle.toBundleFields r.operations) (now : ℤ)
    (events : List ServiceEvent) (i : ℕ) :
    (∃ r', read s.store (stateAfter s.turn (s.started now t) events i).tables = .ok r' ∧
      Continues r r' ∧ s.Separated r'.snapshot.bundle.toBundleFields r'.operations) ∧
    (∀ c ∈ (stateAfter s.turn (s.started now t) events i).connections, s.Accounted c) ∧
    ∀ e, events[i]? = some e → (stateAfter s.turn (s.started now t) events (i + 1)).tables ≠
        (stateAfter s.turn (s.started now t) events i).tables →
      ∃ k c a r₁ r₂ o, e = .core k ∧ s.Presented c a ∧ a.route = .append ∧
        (stateAfter s.turn (s.started now t) events i).connections[k]? = some ⟨c, .dispatching a⟩ ∧
        read s.store (stateAfter s.turn (s.started now t) events i).tables = .ok r₁ ∧
        read s.store (stateAfter s.turn (s.started now t) events (i + 1)).tables = .ok r₂ ∧
        r₂.operations = r₁.operations ++ [o] ∧ s.InNamespace a.credential.actorId o.requestId ∧
        ∀ x ∈ o.transitions r₂.snapshot.bundle.toBundleFields, x.actorId = a.credential.actorId := by
  obtain ⟨h₀, hs₀, ht₀, -⟩ := StoreHistory.read_eq_ok.mp hread
  obtain rfl := Except.ok.inj (hread.symm.trans (hs₀.read_current ht₀))
  have hstart : s.Isolated h₀ (s.started now t) := by
    refine ⟨⟨h₀, hs₀, ht₀, StoreHistory.Later.refl h₀, hsep⟩, fun c hc => ?_⟩
    cases hc
  obtain ⟨⟨h, hs, ht, hlater, hsep'⟩, hconnections⟩ :=
    stateAfter_invariant s.turn (fun σ e hσ => hσ.turn hinj e) hstart events i
  refine ⟨⟨hs.current, hs.read_current ht, hlater.continues hs₀ hs, hsep'⟩, hconnections, ?_⟩
  intro e he hchanged
  rw [stateAfter_succ s.turn he] at hchanged ⊢
  obtain hsame | ⟨k, c, a, rfl, hk, htables⟩ :=
    s.turn_tables (stateAfter s.turn (s.started now t) events i) e
  · exact absurd hsame hchanged
  have hpresented := (hconnections _ (List.mem_of_getElem? hk)).dispatching a rfl
  rcases (coreTurn_belongs hs ht hsep' hpresented).1 with hsame | ⟨hroute, h', o, hextends, hs', ht', hin,
    hactor⟩
  · exact absurd (htables.trans hsame) hchanged
  · rw [htables]
    exact ⟨k, c, a, hs.current, hs'.current, o, rfl, hpresented, hroute, hk, hs.read_current ht,
      hs'.read_current ht', hextends.operations, hin, hactor⟩

end Turns

/-! ## A service of one actor -/

section Sample

variable (D : Type) [Hashing D] [DecidableEq D] [WideHex D]

omit [WideHex D] in
def sampleCredential : WorkflowServiceCredential D where
  credentialId := ⟨"c", Eq.refl true⟩
  actorId := ⟨"a", Eq.refl true⟩
  tokenSha256 := sha256 []
  access := .act

/-- The service of the sample workflow. -/
def sampleService : LocalWorkflowService D where
  limits := .default
  authority := sampleAuthority
  workflowId := ⟨"w", Eq.refl true⟩
  contextDigest := (sampleContext D []).contextDigest
  startupCheckpoint := ⟨(sampleContext D []).contextDigest, 0, (sampleContext D []).contextDigest, 0,
    sha256 [], Nat.zero_le _, le_rfl, fun _ => rfl⟩
  serviceId := ⟨"s", Eq.refl true⟩
  port := 8000
  credentials := [sampleCredential D]
  registered := by
    refine ⟨List.nodup_singleton _, List.nodup_singleton _, fun c hc => ?_⟩
    obtain rfl := List.mem_singleton.mp hc
    exact (by decide : (⟨"a", Eq.refl true⟩ : Identifier) ∈ sampleAuthority.actors.map (·.actorId))

omit [DecidableEq D] [WideHex D] in
theorem injective_sampleService : (sampleService D).Injective := by
  intro x hx y hy _
  obtain ⟨c, hc, rfl⟩ := hx
  obtain ⟨c', hc', rfl⟩ := hy
  obtain rfl := List.mem_singleton.mp hc
  obtain rfl := List.mem_singleton.mp hc'
  rfl

/-- A new store of the service. -/
theorem exists_sampleServed : ∃ (h : StoreHistory D) (t : WorkflowTables),
    h.Sound (sampleService D).store ∧ h.Stored t ∧ h.operations = [] := by
  obtain ⟨w, hw, -, hauthorized⟩ := SQLiteWorkflowStore.exists_sampleBundle D
  have hempty : (w.prefixBundle 0).toBundleFields = sampleContext D [] := by
    show w.toBundleFields.prefixOf 0 = _
    rw [hw]
    rfl
  have hrecords : (w.prefixBundle 0).records = [] := rfl
  obtain ⟨first, hfirst⟩ : ∃ first, (w.prefixBundle 0).genesis 0 = .ok first := by
    refine ⟨⟨(w.prefixBundle 0).contextDigest, 0, (w.prefixBundle 0).headAt 0, 0, sha256 _,
      Nat.zero_le _, le_rfl, fun _ => rfl⟩,
      StoreHistory.genesis_eq_ok.mpr ⟨⟨rfl, rfl, rfl, rfl⟩, ?_, rfl⟩⟩
    exact (SQLiteWorkflowStore.size_genesis_le D _).trans (by decide)
  have hbundle : Json.size (w.prefixBundle 0).toDict ≤ 20000 := by
    show Json.size (w.prefixBundle 0).toBundleFields.toDict ≤ _
    rw [hempty, BundleFields.size_toDict]
    have hevidence := size_evidence_le D []
    have hartifacts := Json.size_map_le ArtifactReference.size_toDict_le (sampleContext D []).artifacts
    have hone : (sampleContext D []).artifacts.length = 1 := rfl
    have hid : Json.quotedSize (sampleContext D []).workflowId.value = 3 :=
      (Json.quotedSize_literal rfl : Json.quotedSize "w" = 3)
    have hnone : (sampleContext D []).records = [] := rfl
    have hzero : Json.size (.int (0 : ℕ)) = 1 ∧ Json.size (.arr []) = 2 := by decide
    rw [hone] at hartifacts
    simp only [hnone, List.map_nil, List.length_nil]
    omega
  have hcontext : (StoreHistory.contextRaw ⟨w.prefixBundle 0, 0, [], first, first⟩).length ≤ 20000 := by
    show Json.size ((w.prefixBundle 0).toBundleFields.storeContext 0) ≤ _
    rw [hempty]
    exact SQLiteWorkflowStore.size_sampleStoreContext_le D []
  have hsizes : StoreHistory.receiptSizes ⟨w.prefixBundle 0, 0, [], first, first⟩ = [] := rfl
  have hlarge : (sampleService D).store.limits.maxBundleBytes = 8 * 1024 * 1024 := rfl
  have hs : StoreHistory.Sound ⟨w.prefixBundle 0, 0, [], first, first⟩ (sampleService D).store := {
    context := congrArg BundleFields.contextDigest hempty
    authorized := hauthorized.prefixBundle 0
    initial_le := Nat.zero_le _
    genesis := hfirst
    history := rfl
    complete := (StoreHistory.genesis_eq_ok.mp hfirst).1.2.1
    distinct := List.nodup_nil
    bounded := {
      bundle := hbundle.trans (by rw [hlarge]; decide)
      payload := by
        rw [hsizes, List.sum_nil, hlarge]
        omega
      records := Nat.zero_le _
      receipts := by simp [hsizes]
      operations := Nat.zero_le _
      documents := Nat.zero_le _ } }
  obtain ⟨t, ht⟩ := hs.exists_stored
  exact ⟨_, t, hs, ht, rfl⟩

/-- A run of two turns. -/
theorem service_isolated_sample : ∃ (t : WorkflowTables) (r r' : WorkflowRead HexDigest),
    read (sampleService HexDigest).store t = .ok r ∧ Continues r r' ∧
      read (sampleService HexDigest).store (stateAfter (sampleService HexDigest).turn
        ((sampleService HexDigest).started 0 t) [.read 0, .core 0] 2).tables = .ok r' := by
  obtain ⟨h, t, hs, ht, hoperations⟩ := exists_sampleServed HexDigest
  have hread := hs.read_current ht
  obtain ⟨⟨r', hread', hcontinues, -⟩, -⟩ := service_isolated (sampleService HexDigest)
    (injective_sampleService HexDigest) hread (fun c _ o ho => by
      rw [show hs.current.operations = [] from hoperations] at ho
      cases ho) 0 [.read 0, .core 0] 2
  exact ⟨t, hs.current, r', hread, hcontinues, hread'⟩

end Sample

end LocalWorkflowService

end EvidenceBraid
