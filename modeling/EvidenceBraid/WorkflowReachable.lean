import EvidenceBraid.WorkflowChain
import EvidenceBraid.WorkflowExtension

/-!
# The reader and the writer of the workflow store agree

**Theorem (`readable_iff_reachable`).** The reader accepts the tables that `create_workflow_store`
and successful appends under new request identities produce, and no others.

**Idea.** A creation and an append put sound histories into the tables (`create_stored`,
`appended_ok`). Conversely a sound history without its last operation is sound, and the append of
that operation brings it back, so every history is made from its initial bundle.
-/

namespace EvidenceBraid

open Hashing Transaction Sqlite

variable {D : Type} [Hashing D] [DecidableEq D] [WideHex D]

namespace SQLiteWorkflowStore

variable {store : SQLiteWorkflowStore D} {t u : WorkflowTables} {o : WorkflowOperation D}

namespace StoreHistory

variable {h h' : StoreHistory D}

/-! ## Appends to stored histories -/

theorem prefixBundle_self (w : WorkflowBundle D) : w.prefixBundle w.records.length = w := by
  refine WorkflowBundle.ext_fields ?_
  show w.toBundleFields.prefixOf w.records.length = _
  rw [BundleFields.prefixOf, List.take_length]

/-- The commit that an append plans is the one that its operation gives back. -/
theorem Extends.historical_eq (he : Extends h h' o) (hs' : h'.Sound store) {p : Planned D}
    (hp : p.For h h' o) : historical store h'.bundle o = .ok p.commit := by
  obtain ⟨commit, hcommit, hid, hdigest, hprevious, hbundle, hcheckpoint⟩ :=
    hs'.historical_eq (o := o) (by rw [he.operations]; simp)
  rw [hcommit]
  rw [he.count_eq hs', prefixBundle_self] at hbundle
  exact congrArg Except.ok (WorkflowCommit.ext_fields (hid.trans hp.requestId.symm)
    (hdigest.trans hp.requestDigest.symm) (hprevious.trans hp.previous.symm)
    (hbundle.trans hp.bundle.symm) (hcheckpoint.trans hp.checkpoint.symm))

omit [WideHex D] in
/-- An operation that is found is stored under its identity. -/
theorem of_find {current : WorkflowRead D} {requestId : Identifier}
    (h : find current requestId = some o) : o ∈ current.operations ∧ o.requestId = requestId := by
  have hid := List.find?_some (p := fun o : WorkflowOperation D => decide (o.requestId = requestId)) h
  exact ⟨List.mem_of_find?_eq_some h, of_decide_eq_true hid⟩

omit [WideHex D] in
theorem of_find_none {current : WorkflowRead D} {requestId : Identifier}
    (h : find current requestId = none) : ∀ o ∈ current.operations, o.requestId ≠ requestId := by
  intro o ho
  have hne := List.find?_eq_none.mp h o ho
  simpa using hne

/-- What an append did to a stored history: nothing, since its operation was stored, or it added
this operation. -/
inductive Appended (store : SQLiteWorkflowStore D) (h : StoreHistory D) (t : WorkflowTables)
    (r : Request D) (commit : WorkflowCommit D) (u : WorkflowTables) : Prop
  | stored (o : WorkflowOperation D) (mem : o ∈ h.operations) (requestId : o.requestId = r.requestId)
      (requestDigest : o.requestDigest = r.digest)
      (historical : historical store h.bundle o = .ok commit) (tables : u = t)
  | fresh (h' : StoreHistory D) (o : WorkflowOperation D) (longer : Extends h h' o)
      (sound : h'.Sound store) (stored : h'.Stored u) (request : r = requestOf h' o)
      (new : ∀ x ∈ h.operations, x.requestId ≠ r.requestId)
      (historical : historical store h'.bundle o = .ok commit)

/-- **What an append computes** on a stored history. -/
theorem Sound.appended_ok (hs : h.Sound store) (ht : h.Stored t) {ts : List (WorkflowTransition D)}
    {requestId : Identifier} {expected : WorkflowCheckpoint D} {r : Request D}
    (hr : prepare store ts requestId expected = .ok r) {commit : WorkflowCommit D}
    {flags : WorkflowFlags} (happended : appended store r t .start = .ok (commit, u, flags)) :
    Appended store h t r commit (if flags.dirty = true then u else t) := by
  have hid : r.requestId = requestId := by
    obtain ⟨-, -, _, -, rfl⟩ := prepare_eq_ok.mp hr
    rfl
  simp only [appended, bind_eq_ok, hs.read_current ht, Except.ok.injEq, exists_eq_left'] at happended
  unfold appendedTo at happended
  cases hfind : find hs.current r.requestId with
  | some o =>
    simp only [hfind, answered, bind_eq_ok, require_eq_ok, exists_unit, Except.ok.injEq,
      Prod.mk.injEq] at happended
    obtain ⟨_, ⟨hdigest, hhistorical⟩, rfl, rfl, rfl⟩ := happended
    obtain ⟨hmem, hrequest⟩ := of_find hfind
    exact .stored o hmem hrequest hdigest hhistorical (if_neg (by simp [WorkflowFlags.start]))
  | none =>
    simp only [hfind, bind_eq_ok, Except.ok.injEq, Prod.mk.injEq] at happended
    obtain ⟨p, hp, w, hw, rfl, rfl, rfl⟩ := happended
    have hnew := of_find_none hfind
    obtain ⟨h', o, he, hs', hfor, hrequest⟩ := hs.plan_ok hr (hid ▸ hnew) hp
    obtain ⟨w', hw', hstored⟩ := he.put hs hs' hfor ht
    obtain rfl : w = w' := Except.ok.inj (hw.symm.trans hw')
    exact .fresh h' o he hs' hstored hrequest hnew (he.historical_eq hs' hfor)

/-- **An append with faults** that returns has appended, and in any case it left the tables alone or
did so. -/
theorem Sound.append_spec (hs : h.Sound store) (ht : h.Stored t) {ts : List (WorkflowTransition D)}
    {requestId : Identifier} {expected : WorkflowCheckpoint D} {r : Request D}
    (hr : prepare store ts requestId expected = .ok r)
    (faults : List (Option (Transaction.Fault PyError))) :
    (∀ commit, (append store ts requestId expected faults t).1 = .ok commit →
      Appended store h t r commit (append store ts requestId expected faults t).2) ∧
    ((append store ts requestId expected faults t).2 = t ∨
      ∃ commit, Appended store h t r commit (append store ts requestId expected faults t).2) := by
  have hrun : append store ts requestId expected faults t =
      transact faults true (appendAction store r) t := by
    rw [append, hr]
    rfl
  rw [hrun]
  obtain ⟨hok, hleft⟩ := transact_spec (storeComputes_append store r) faults true t
  refine ⟨fun commit hcommit => ?_, hleft.imp id fun hdone => ?_⟩
  · obtain ⟨w, flags, happended, hafter⟩ := hok commit hcommit
    rw [hafter]
    exact hs.appended_ok ht hr happended
  · obtain ⟨commit, w, flags, happended, hdirty, hafter⟩ := hdone
    have hdone := hs.appended_ok ht hr happended
    rw [if_pos hdirty] at hdone
    exact ⟨commit, hafter ▸ hdone⟩

omit [WideHex D] in
/-- A request that is not admitted leaves the tables alone. -/
theorem append_refused {ts : List (WorkflowTransition D)} {requestId : Identifier}
    {expected : WorkflowCheckpoint D} {e : PyError}
    (hr : prepare store ts requestId expected = .error e)
    (faults : List (Option (Transaction.Fault PyError))) (t : WorkflowTables) :
    append store ts requestId expected faults t = (.error (.validation e), t) := by
  rw [append, hr]
  rfl

/-- **The append of a history's last operation** brings the history into the tables. -/
theorem Extends.append_eq (he : Extends h h' o) (hs : h.Sound store) (hs' : h'.Sound store)
    (ht : h.Stored t) : ∃ commit u, append store (o.transitions h'.bundle.toBundleFields) o.requestId
      o.previous [] t = (.ok commit, u) ∧ h'.Stored u := by
  obtain ⟨p, hp, hfor⟩ := he.plan_eq hs hs'
  obtain ⟨u, hput, hu⟩ := he.put hs hs' hfor ht
  have hnew : find hs.current o.requestId = none := by
    have hdistinct := hs'.distinct
    rw [he.operations, List.map_append, List.nodup_append_comm] at hdistinct
    have hfresh := (List.nodup_cons.mp hdistinct).1
    refine List.find?_eq_none.mpr fun x hx => ?_
    simp only [decide_eq_true_eq]
    exact fun hid => hfresh (List.mem_map.mpr ⟨x, hx, hid⟩)
  have happended : appended store (requestOf h' o) t .start =
      .ok (p.commit, u, { WorkflowFlags.start with dirty := true }) := by
    simp only [appended, hs.read_current ht, ok_bind]
    unfold appendedTo
    rw [show (requestOf h' o).requestId = o.requestId from rfl, hnew]
    simp only [hp, hput, ok_bind]
  refine ⟨p.commit, u, ?_, hu⟩
  rw [append, he.prepare_eq hs hs']
  exact transact_ok (computes_appendAction store _) true happended

/-! ## Creation -/

/-- The history of a new store. -/
def created (initial : WorkflowBundle D) (first : WorkflowCheckpoint D) : StoreHistory D :=
  ⟨initial, initial.records.length, [], first, first⟩

/-- The rows of a new store. -/
def newRows (h : StoreHistory D) : NewRows where
  context := h.contextRaw
  metadata := canonicalBytes h.last.toDict
  receipts := h.bundle.records.map fun r => canonicalBytes r.toDict

omit [WideHex D] in
/-- A bundle is determined by its document. -/
theorem eq_of_toDict {v w : WorkflowBundle D} (h : v.toDict = w.toDict) : v = w := by
  have hv := Json.get?_foldr_insertKey v.nodup_keys_items
  have hw := Json.get?_foldr_insertKey w.nodup_keys_items
  have hmembers : ∀ k, Json.get? v.items k = Json.get? w.items k := by
    intro k
    rw [← hv k, ← hw k, Json.obj.inj h]
  have hid : some (Json.str v.workflowId.value) = some (.str w.workflowId.value) :=
    hmembers "workflow_id"
  have hauthority : some (Json.str (hex v.authorityDigest)) = some (.str (hex w.authorityDigest)) :=
    hmembers "authority_digest"
  have hevidence : some v.evidence.toDict = some w.evidence.toDict := hmembers "evidence"
  have hartifacts : some (Json.arr (v.artifacts.map ArtifactReference.toDict)) =
      some (.arr (w.artifacts.map ArtifactReference.toDict)) := hmembers "artifacts"
  have hrecords : some (Json.arr (v.records.map WorkflowReceipt.toDict)) =
      some (.arr (w.records.map WorkflowReceipt.toDict)) := hmembers "records"
  have hreceipt : Function.Injective (WorkflowReceipt.toDict : WorkflowReceipt D → Json) := by
    intro a b hab
    have ha := a.fromDict_toDict
    rw [hab, WorkflowReceipt.fromDict_toDict] at ha
    exact (Except.ok.inj ha).symm
  have hledger : v.evidence = w.evidence := by
    have hread : EvidenceLedger.fromDict v.evidence.toDict none = .ok v.evidence :=
      EvidenceLedger.fromDict_toDict v.ok.verified (by simp)
    rw [Option.some.inj hevidence, EvidenceLedger.fromDict_toDict w.ok.verified (by simp)] at hread
    exact (Except.ok.inj hread).symm
  obtain ⟨⟨vid, vauthority, vevidence, vartifacts, vrecords⟩, vok⟩ := v
  obtain ⟨⟨wid, wauthority, wevidence, wartifacts, wrecords⟩, wok⟩ := w
  refine WorkflowBundle.ext_fields ?_
  rw [BundleFields.mk.injEq]
  exact ⟨Identifier.ext (Json.str.inj (Option.some.inj hid)),
    hex_injective (Json.str.inj (Option.some.inj hauthority)), hledger,
    ArtifactReference.toDict_injective.list_map (Json.arr.inj (Option.some.inj hartifacts)),
    hreceipt.list_map (Json.arr.inj (Option.some.inj hrecords))⟩

omit [WideHex D] in
/-- A bundle is read from its own document where its replay is accepted. -/
theorem fromDict_eq_ok {initial w : WorkflowBundle D} {authority : AuthorityPolicy} {head : D} :
    WorkflowBundle.fromDict initial.toDict authority (some head) none = .ok w ↔
      w = initial ∧ initial.headDigest = head ∧ initial.Authorized authority := by
  constructor
  · intro h
    obtain ⟨hdocument, -, state, hstate⟩ := WorkflowBundle.of_fromDict initial.wellKeyed_toDict h
    obtain rfl := eq_of_toDict hdocument
    obtain ⟨hauthority, hhead, hclaims⟩ := replayWorkflow_eq_ok hstate
    exact ⟨rfl, hhead head rfl, WorkflowBundle.authorized_iff.mpr ⟨hauthority, state.claims, hclaims⟩⟩
  · rintro ⟨rfl, rfl, state, hstate⟩
    exact w.fromDict_toDict authority (replayWorkflow_own_head hstate) (by simp)

/-- **A store is created of a sound history without operations.** -/
theorem prepareCreate_eq_ok {initial : WorkflowBundle D} {expectedHead : D} {rows : NewRows} :
    prepareCreate store initial expectedHead = .ok rows ↔
      initial.headDigest = expectedHead ∧
      ∃ first, (created initial first).Sound store ∧ rows = (created initial first).newRows := by
  simp only [prepareCreate, bind_eq_ok, workflowBytes_eq_ok, valid_eq_ok, exists_unit,
    receiptRows_eq_ok, Except.ok.injEq]
  constructor
  · rintro ⟨_, ⟨hbundle, rfl⟩, document, hdocument, w, hw, ⟨hcontext, hcount⟩, first, hgenesis, context,
      ⟨-, rfl⟩, receipts, ⟨rfl, hreceipts⟩, hpayload, metadata, ⟨-, rfl⟩, rfl⟩
    obtain rfl : initial.toDict = document := by
      obtain ⟨hraw, -, hkeyed⟩ := workflowParse_eq_ok.mp hdocument
      exact canonicalBytes_inj initial.wellKeyed_toDict hkeyed hraw
    obtain ⟨rfl, hhead, hauthorized⟩ := fromDict_eq_ok.mp hw
    rw [List.map_map] at hpayload
    refine ⟨hhead, first, ?_, rfl⟩
    exact {
      context := hcontext
      authorized := hauthorized
      initial_le := le_rfl
      genesis := hgenesis
      history := rfl
      complete := (genesis_eq_ok.mp hgenesis).1.2.1
      distinct := List.nodup_nil
      bounded := ⟨hbundle, hpayload, hcount, List.forall_mem_map.mpr hreceipts, Nat.zero_le _,
        Nat.zero_le _⟩ }
  · rintro ⟨rfl, first, hs, rfl⟩
    obtain ⟨hbundle, hpayload, hrecords, hreceipts, -, -⟩ := hs.bounded
    have hle : (canonicalBytes (initial.storeContext initial.records.length)).length ≤
        store.limits.maxBundleBytes := (Nat.le_add_right _ _).trans hpayload
    refine ⟨_, ⟨hbundle, rfl⟩, initial.toDict,
      workflowParse_eq_ok.mpr ⟨rfl, rfl, initial.wellKeyed_toDict⟩, initial,
      fromDict_eq_ok.mpr ⟨rfl, rfl, hs.authorized⟩, ⟨hs.context, hrecords⟩, first, hs.genesis, _,
      ⟨hle, rfl⟩, _, ⟨rfl, List.forall_mem_map.mp hreceipts⟩, ?_, _, ⟨first.size_toDict_le, rfl⟩, rfl⟩
    rw [List.map_map]
    exact hpayload

omit [WideHex D] in
/-- What the statements of a creation do. -/
theorem computes_createAction (rows : NewRows) : Computes (createAction rows) (fun w o => do
    let u ← w.insertContext rows.context
    let v ← u.insertMeta rows.metadata
    let w' ← putReceipts 0 rows.receipts v
    .ok ((), w', { o with dirty := true })) := by
  have hexecute : ∀ f : WorkflowTables → Result WorkflowTables,
      Computes (execute f : StoreProgram Unit) _ := fun f => computes_execute f
  have hflags : Computes (setFlags fun f => { f with dirty := true } : StoreProgram Unit) _ :=
    computes_setFlags fun f : WorkflowFlags => { f with dirty := true }
  refine ((hexecute (WorkflowTables.insertContext rows.context)).bind fun _ =>
    (hexecute (WorkflowTables.insertMeta rows.metadata)).bind fun _ =>
      (computes_insertReceipts rows.receipts 0).bind fun _ => hflags).congr fun w o => ?_
  simp [ok_bind]

/-- **A creation puts its history into the reserved database.** -/
theorem Sound.create_eq {initial : WorkflowBundle D} {first : WorkflowCheckpoint D}
    (hs : (created initial first).Sound store) : ∃ u,
      create store initial initial.headDigest [] WorkflowTables.reserved = (.ok (), u) ∧
        (created initial first).Stored u := by
  obtain ⟨u, hput, hreceipts, hcontext, hoperations, hmetadata⟩ := putReceipts_eq initial.records []
    { WorkflowTables.reserved with
      context := some (.blob (created initial first).contextRaw)
      metadata := some (.blob (canonicalBytes first.toDict)) } rfl
  refine ⟨u, ?_, hcontext, hreceipts, hoperations, hmetadata⟩
  rw [create, prepareCreate_eq_ok.mpr ⟨rfl, first, hs, rfl⟩]
  refine transact_ok (computes_createAction _) true (w := u) (o := ⟨.none, true⟩) ?_
  have hput' : putReceipts 0 (newRows (created initial first)).receipts
      { WorkflowTables.reserved with
        context := some (.blob (created initial first).contextRaw)
        metadata := some (.blob (canonicalBytes first.toDict)) } = .ok u := hput
  show (putReceipts 0 (newRows (created initial first)).receipts
      { WorkflowTables.reserved with
        context := some (.blob (created initial first).contextRaw)
        metadata := some (.blob (canonicalBytes first.toDict)) } >>= _) = _
  rw [hput']
  rfl

omit [WideHex D] in
theorem storeComputes_create (rows : NewRows) : StoreComputes (fun _ => False) (createAction rows)
    (fun w o => do
      let u ← w.insertContext rows.context
      let v ← u.insertMeta rows.metadata
      let w' ← putReceipts 0 rows.receipts v
      .ok ((), w', { o with dirty := true })) where
  computes := computes_createAction rows
  steady := (steady_step _).bind fun _ => (steady_step _).bind fun _ =>
    (steady_insertReceipts _ _).bind fun _ => steady_setFlags _
  honest := by
    refine ⟨(keepsDurable_execute _).bind fun _ => (keepsDurable_execute _).bind fun _ =>
      (keepsDurable_insertReceipts _ _).bind fun _ => keepsDurable_setFlags _, fun s hs _ => .inl ?_⟩
    have hstart : s.flags.outcome = .none := by rw [hs]; rfl
    refine (keepsFlags_step _).bind_flags (P := fun f : WorkflowFlags => f.outcome = .none) hstart ?_
    intro _ t _ ht
    refine (keepsFlags_step _).bind_flags (P := fun f : WorkflowFlags => f.outcome = .none)
      (ht ▸ hstart) ?_
    intro _ u _ hu
    refine (keepsFlags_insertReceipts _ _).bind_flags (P := fun f : WorkflowFlags => f.outcome = .none)
      (hu ▸ ht ▸ hstart) ?_
    intro _ v _ hv
    show ({ v.flags with dirty := true } : WorkflowFlags).outcome = _
    rw [hv, hu, ht, hstart]

/-- **A creation with faults** leaves the reserved database or a sound history without
operations, and the latter where it returns. -/
theorem create_spec {initial : WorkflowBundle D} {expectedHead : D}
    (faults : List (Option (Transaction.Fault PyError))) :
    ((create store initial expectedHead faults WorkflowTables.reserved).1 = .ok () →
      ∃ first, (created initial first).Sound store ∧ (created initial first).Stored
        (create store initial expectedHead faults WorkflowTables.reserved).2) ∧
    ((create store initial expectedHead faults WorkflowTables.reserved).2 = WorkflowTables.reserved ∨
      ∃ first, (created initial first).Sound store ∧ (created initial first).Stored
        (create store initial expectedHead faults WorkflowTables.reserved).2) := by
  cases hrows : prepareCreate store initial expectedHead with
  | error e =>
    have hrun : create store initial expectedHead faults WorkflowTables.reserved =
        (.error (.validation e), WorkflowTables.reserved) := by
      rw [create, hrows]
      rfl
    rw [hrun]
    exact ⟨by simp, .inl rfl⟩
  | ok rows =>
    obtain ⟨rfl, first, hs, rfl⟩ := prepareCreate_eq_ok.mp hrows
    obtain ⟨u, hcreate, hu⟩ := hs.create_eq
    have hrun : ∀ faults, create store initial initial.headDigest faults WorkflowTables.reserved =
        transact faults true (createAction (created initial first).newRows)
          WorkflowTables.reserved := by
      intro faults
      rw [create, hrows]
      rfl
    have hcomputes := storeComputes_create (created initial first).newRows
    obtain ⟨hok, hleft⟩ := transact_spec hcomputes faults true WorkflowTables.reserved
    -- the run without faults says what the statements compute
    obtain ⟨w, o, hvalue, hafter⟩ :=
      (transact_spec hcomputes [] true WorkflowTables.reserved).1 () (by rw [← hrun, hcreate])
    have hdirty : ∀ {w' : WorkflowTables} {o' : WorkflowFlags} {x : Unit}, (do
        let u ← WorkflowTables.reserved.insertContext (created initial first).newRows.context
        let v ← u.insertMeta (created initial first).newRows.metadata
        let w ← putReceipts 0 (created initial first).newRows.receipts v
        .ok ((), w, { WorkflowFlags.start with dirty := true }) :
          Result (Unit × WorkflowTables × WorkflowFlags)) = .ok (x, w', o') →
            w' = u ∧ o'.dirty = true := by
      intro w' o' x h
      have heq := h.symm.trans hvalue
      simp only [Except.ok.injEq, Prod.mk.injEq] at heq
      obtain ⟨-, rfl, rfl⟩ := heq
      have hflag : o'.dirty = true := by
        simp only [bind_eq_ok, Except.ok.injEq, Prod.mk.injEq] at h
        obtain ⟨_, _, _, _, _, _, -, -, rfl⟩ := h
        rfl
      rw [if_pos hflag, ← hrun, hcreate] at hafter
      exact ⟨hafter.symm, hflag⟩
    rw [hrun]
    refine ⟨fun h => ?_, hleft.imp id fun h => ?_⟩
    · obtain ⟨w', o', hf, hleaves⟩ := hok () h
      obtain ⟨rfl, hflag⟩ := hdirty hf
      rw [if_pos hflag] at hleaves
      exact ⟨first, hs, hleaves ▸ hu⟩
    · obtain ⟨_, w', o', hf, -, hleaves⟩ := h
      obtain ⟨rfl, -⟩ := hdirty hf
      exact ⟨first, hs, hleaves ▸ hu⟩

omit [WideHex D] in
/-- A history is in one content of the tables only. -/
theorem Stored.unique (ht : h.Stored t) (hu : h.Stored u) : t = u :=
  WorkflowTables.ext_fields (ht.context.trans hu.context.symm) (ht.receipts.trans hu.receipts.symm)
    (ht.operations.trans hu.operations.symm) (ht.metadata.trans hu.metadata.symm)

end StoreHistory

/-! ## Agreement -/

/-- The tables that a creation and appends under new request identities produce, each of which
returned. -/
inductive Reachable (store : SQLiteWorkflowStore D) : WorkflowTables → Prop
  | created (initial : WorkflowBundle D) (expectedHead : D)
      (faults : List (Option (Transaction.Fault PyError)))
      (returned : (create store initial expectedHead faults WorkflowTables.reserved).1 = .ok ()) :
      Reachable store (create store initial expectedHead faults WorkflowTables.reserved).2
  | appended {t : WorkflowTables} (before : Reachable store t) (ts : List (WorkflowTransition D))
      (requestId : Identifier) (expected : WorkflowCheckpoint D)
      (faults : List (Option (Transaction.Fault PyError)))
      (new : ∀ current, read store t = .ok current → ∀ o ∈ current.operations, o.requestId ≠ requestId)
      (returned : ∃ commit, (append store ts requestId expected faults t).1 = .ok commit) :
      Reachable store (append store ts requestId expected faults t).2

/-- What is reachable is a sound history. -/
theorem Reachable.exists_history (h : Reachable store t) :
    ∃ h : StoreHistory D, h.Sound store ∧ h.Stored t := by
  induction h with
  | created initial expectedHead faults returned =>
    obtain ⟨first, hs, ht⟩ := (StoreHistory.create_spec faults).1 returned
    exact ⟨_, hs, ht⟩
  | @appended t _ ts requestId expected faults _ returned ih =>
    obtain ⟨h, hs, ht⟩ := ih
    obtain ⟨commit, hcommit⟩ := returned
    cases hr : prepare store ts requestId expected with
    | error e =>
      rw [StoreHistory.append_refused hr] at hcommit
      simp at hcommit
    | ok r =>
      cases (hs.append_spec ht hr faults).1 commit hcommit with
      | stored _ _ _ _ _ htables =>
        rw [htables]
        exact ⟨h, hs, ht⟩
      | fresh h' _ _ hs' ht' => exact ⟨h', hs', ht'⟩

omit [WideHex D] in
/-- There are tables that hold a sound history. -/
theorem StoreHistory.Sound.exists_stored {h : StoreHistory D} (hs : h.Sound store) :
    ∃ t, h.Stored t := by
  have hunique : ((Table.ofValues (h.operations.map WorkflowOperation.cells)).values.map
      Prod.fst).Nodup := by
    have hinj : Function.Injective fun i : Identifier => Cell.text (Utf8.encode i.value.toList) :=
      fun i j hij => Identifier.ext (encode_text_inj (Cell.text.inj hij))
    have hmapped := hs.distinct.map hinj
    rw [List.map_map] at hmapped
    rw [Table.values_ofValues, List.map_map]
    exact hmapped
  exact ⟨⟨some (.blob h.contextRaw), Table.ofValues (h.bundle.records.map receiptCell),
    Table.ofValues (h.operations.map WorkflowOperation.cells),
    some (.blob (canonicalBytes h.last.toDict)), hunique⟩, rfl, rfl, rfl, rfl⟩

/-- A sound history is reachable. -/
theorem StoreHistory.Sound.reachable {os : List (WorkflowOperation D)} : ∀ {h : StoreHistory D}
    {t : WorkflowTables}, h.Sound store → h.Stored t → h.operations = os → Reachable store t := by
  induction os using List.reverseRecOn with
  | nil =>
    intro h t hs ht hoperations
    obtain ⟨bundle, initialCount, operations, first, last⟩ := h
    obtain rfl : operations = [] := hoperations
    obtain rfl : first = last := hs.history
    obtain rfl : initialCount = bundle.records.length := by
      rw [← hs.complete]
      exact hs.recordCount_first.symm
    have hcreated : (StoreHistory.created bundle first).Sound store := hs
    obtain ⟨u, hcreate, hu⟩ := hcreated.create_eq
    have hreachable : Reachable store _ :=
      Reachable.created bundle bundle.headDigest [] (by rw [hcreate])
    rw [hcreate] at hreachable
    exact hu.unique ht ▸ hreachable
  | append_singleton os o ih =>
    intro h t hs ht hoperations
    obtain ⟨hbefore, he⟩ := hs.before hoperations
    obtain ⟨_, ht'⟩ := hbefore.exists_stored
    have hreachable := ih hbefore ht' rfl
    obtain ⟨commit, u, happend, hu⟩ := he.append_eq hbefore hs ht'
    have hdistinct := hs.distinct
    rw [hoperations, List.map_append, List.nodup_append_comm] at hdistinct
    have hnew := (List.nodup_cons.mp hdistinct).1
    have hnext := hreachable.appended (o.transitions h.bundle.toBundleFields) o.requestId o.previous []
      (fun current hread x hx hid => ?_) ⟨commit, by rw [happend]⟩
    · rw [happend] at hnext
      exact hu.unique ht ▸ hnext
    · rw [hbefore.read_current ht'] at hread
      obtain rfl := Except.ok.inj hread
      exact hnew (List.mem_map.mpr ⟨x, hx, hid⟩)

/-! ## A store with one append -/

section Sample

variable (D : Type) [Hashing D] [DecidableEq D] [WideHex D]

/-- A bundle of one receipt. -/
theorem exists_sampleBundle : ∃ w : WorkflowBundle D,
    w.toBundleFields = sampleContext D w.records ∧ w.records.length = 1 ∧
      w.Authorized sampleAuthority := by
  obtain ⟨w, hw, hreplay⟩ := replay_sampleContext D
  have hpositive : 1 ≤ w.records.length := by
    by_contra hlt
    have hrecords : w.records = [] := List.length_eq_zero_iff.mp (by omega)
    obtain ⟨-, -, hclaims⟩ := replayWorkflow_eq_ok hreplay
    rw [BundleFields.transitions, hrecords] at hclaims
    simp [replayTransitions, boundClaim, Dict.empty] at hclaims
  have hauthorized : w.Authorized sampleAuthority := ⟨_, hreplay⟩
  refine ⟨w.prefixBundle 1, ?_, ?_, hauthorized.prefixBundle 1⟩
  · show w.toBundleFields.prefixOf 1 = sampleContext D (w.records.take 1)
    rw [hw]
    rfl
  · show (w.records.take 1).length = 1
    rw [List.length_take, min_eq_left hpositive]

def sampleStore : SQLiteWorkflowStore D where
  authority := sampleAuthority
  contextDigest := (sampleContext D []).contextDigest
  limits := .default

omit [WideHex D] [DecidableEq D] in
theorem nodup_keys_genesisItems (b : BundleFields D) (n : ℕ) :
    (Json.keys (b.genesisItems n)).Nodup := by
  simp only [BundleFields.genesisItems, Json.keys, List.map_cons, List.map_nil]
  decide

omit [DecidableEq D] in
theorem size_genesis_le (b : BundleFields D) :
    Json.size (Json.dict (b.genesisItems 0)) ≤ 500 := by
  rw [Json.size_dict (nodup_keys_genesisItems D b 0) (by simp [BundleFields.genesisItems])]
  have hkeys : Json.quotedSize "kind" = 6 ∧ Json.quotedSize "schema_version" = 16 ∧
      Json.quotedSize "context_digest" = 16 ∧ Json.quotedSize "initial_record_count" = 22 ∧
      Json.quotedSize "initial_workflow_head" = 23 ∧ Json.quotedSize "1.0" = 5 ∧
      Json.quotedSize "evidence-braid-workflow-operation-genesis" = 43 := by
    and_intros <;> exact Json.quotedSize_literal rfl
  have hzero : Json.size (.int (0 : ℕ)) = 1 := by decide
  simp only [BundleFields.genesisItems, List.map_cons, List.map_nil, List.sum_cons, List.sum_nil,
    Json.size_str, quotedSize_hex, hkeys]
  clear hkeys
  omega

omit [DecidableEq D] in
/-- An operation's document is as long as its request identity, but for a bounded part. -/
theorem size_document_le (o : WorkflowOperation D) :
    Json.size o.document ≤ 1100 + Json.quotedSize o.requestId.value := by
  rw [WorkflowOperation.document, Json.size_dict o.nodup_keys_items
    (by simp [WorkflowOperation.items, WorkflowOperation.contentItems, workflowOperationItems])]
  have hkeys : Json.quotedSize "kind" = 6 ∧ Json.quotedSize "schema_version" = 16 ∧
      Json.quotedSize "sequence" = 10 ∧ Json.quotedSize "request_id" = 12 ∧
      Json.quotedSize "request_digest" = 16 ∧ Json.quotedSize "expected_checkpoint" = 21 ∧
      Json.quotedSize "result_record_count" = 21 ∧ Json.quotedSize "result_workflow_head" = 22 ∧
      Json.quotedSize "previous_digest" = 17 ∧ Json.quotedSize "digest" = 8 ∧
      Json.quotedSize "1.0" = 5 ∧ Json.quotedSize "evidence-braid-workflow-operation" = 35 := by
    and_intros <;> exact Json.quotedSize_literal rfl
  have hprevious := o.previous.size_le
  have hsequence : Json.size (.int o.previous.operationCount) ≤ 5 := Json.size_nat_le (by decide)
    (lt_of_le_of_lt (o.previous.operations_le.trans o.previous.records_le) (by decide))
  have hcount : Json.size (.int o.result.recordCount) ≤ 5 :=
    Json.size_nat_le (by decide) (lt_of_le_of_lt o.result.records_le (by decide))
  simp only [WorkflowOperation.items, WorkflowOperation.contentItems, workflowOperationItems,
    List.cons_append, List.nil_append, List.map_cons, List.map_nil, List.sum_cons, List.sum_nil,
    Json.size_str, quotedSize_hex, hkeys]
  clear hkeys
  omega

omit [DecidableEq D] [WideHex D] in
theorem size_content_le (o : WorkflowOperation D) : Json.size o.content ≤ Json.size o.document := by
  have hnodup : (Json.keys o.contentItems).Nodup := by
    have hitems := o.nodup_keys_items
    rw [WorkflowOperation.items, Json.keys, List.map_append] at hitems
    exact hitems.of_append_left
  rw [WorkflowOperation.content, WorkflowOperation.document, Json.size_dict hnodup
    (by simp [WorkflowOperation.contentItems, workflowOperationItems]),
    Json.size_dict o.nodup_keys_items (by simp [WorkflowOperation.items]), WorkflowOperation.items,
    List.map_append, List.sum_append]
  omega

theorem size_sampleStoreContext_le (records : List (WorkflowReceipt D)) :
    Json.size ((sampleContext D records).storeContext 0) ≤ 20000 := by
  rw [BundleFields.storeContext, Json.size_dict (BundleFields.nodup_keys_storeContextItems _ _)
    (by simp [BundleFields.storeContextItems])]
  have hkeys : Json.quotedSize "kind" = 6 ∧ Json.quotedSize "schema_version" = 16 ∧
      Json.quotedSize "workflow_id" = 13 ∧ Json.quotedSize "authority_digest" = 18 ∧
      Json.quotedSize "evidence" = 10 ∧ Json.quotedSize "artifacts" = 11 ∧
      Json.quotedSize "context_digest" = 16 ∧ Json.quotedSize "initial_record_count" = 22 ∧
      Json.quotedSize "initial_workflow_head" = 23 ∧ Json.quotedSize "1.0" = 5 ∧
      Json.quotedSize "evidence-braid-workflow-store-context" = 39 := by
    and_intros <;> exact Json.quotedSize_literal rfl
  have hzero : Json.size (.int (0 : ℕ)) = 1 := by decide
  have hid : Json.quotedSize (sampleContext D records).workflowId.value = 3 :=
    (Json.quotedSize_literal rfl : Json.quotedSize "w" = 3)
  have hevidence := size_evidence_le D records
  have hartifacts := Json.size_map_le ArtifactReference.size_toDict_le
    (sampleContext D records).artifacts
  have hone : (sampleContext D records).artifacts.length = 1 := rfl
  rw [hone] at hartifacts
  simp only [BundleFields.storeContextItems, List.map_cons, List.map_nil, List.sum_cons,
    List.sum_nil, Json.size_str, quotedSize_hex, hkeys]
  clear hkeys
  omega

omit [DecidableEq D] in
theorem size_request_le (requestId : Identifier) (expected : WorkflowCheckpoint D)
    (ts : List (WorkflowTransition D)) :
    Json.size (Json.dict (requestItemsOf requestId expected ts)) ≤
      600 + Json.quotedSize requestId.value + 110001 * ts.length := by
  rw [Json.size_dict (nodup_keys_requestItemsOf requestId expected ts) (by simp [requestItemsOf])]
  have hkeys : Json.quotedSize "kind" = 6 ∧ Json.quotedSize "schema_version" = 16 ∧
      Json.quotedSize "request_id" = 12 ∧ Json.quotedSize "expected_checkpoint" = 21 ∧
      Json.quotedSize "transitions" = 13 ∧ Json.quotedSize "1.0" = 5 ∧
      Json.quotedSize "evidence-braid-workflow-request" = 33 := by
    and_intros <;> exact Json.quotedSize_literal rfl
  have hexpected := expected.size_le
  have hts := Json.size_map_le WorkflowTransition.size_toDict_le ts
  simp only [requestItemsOf, List.map_cons, List.map_nil, List.sum_cons, List.sum_nil,
    Json.size_str, hkeys]
  clear hkeys
  omega

/-- A sound history of one operation. -/
theorem exists_sampleHistory : ∃ (h : StoreHistory D) (o : WorkflowOperation D),
    h.Sound (sampleStore D) ∧ h.operations = [o] := by
  obtain ⟨w, hw, hone, hauthorized⟩ := exists_sampleBundle D
  have hcontext : w.contextDigest = (sampleContext D []).contextDigest := by
    show w.toBundleFields.contextDigest = _
    rw [hw]
    rfl
  obtain ⟨first, hfirst⟩ : ∃ first, w.genesis 0 = .ok first := by
    refine ⟨⟨w.contextDigest, 0, w.headAt 0, 0, sha256 _, Nat.zero_le _, le_rfl, fun _ => rfl⟩,
      StoreHistory.genesis_eq_ok.mpr ⟨⟨rfl, rfl, rfl, rfl⟩, ?_, rfl⟩⟩
    exact (size_genesis_le D w.toBundleFields).trans (by decide)
  obtain ⟨⟨hmarks, hzero, hhead, hnone⟩, -⟩ := StoreHistory.genesis_eq_ok.mp hfirst
  let requestId : Identifier := ⟨"q", Eq.refl true⟩
  let d : D := sha256 (canonicalBytes (Json.dict (requestItemsOf requestId first w.transitions)))
  let o : WorkflowOperation D := ⟨requestId, d, first, ⟨w.contextDigest, 1, w.headAt 1, 1,
    sha256 (canonicalBytes (Json.dict (workflowOperationItems first.operationCount requestId d first
      1 (w.headAt 1)))), by decide, le_rfl, fun h => absurd h one_ne_zero⟩⟩
  have hid : Json.quotedSize requestId.value = 3 :=
    (Json.quotedSize_literal rfl : Json.quotedSize "q" = 3)
  have htransitions : o.transitions w.toBundleFields = w.transitions := by
    show ((w.records.take 1).drop first.recordCount).map (·.transition) = _
    rw [hzero, List.drop_zero, List.take_of_length_le hone.le]
    rfl
  have hlength : w.transitions.length = 1 := by
    rw [BundleFields.transitions, List.length_map, hone]
  have hdocument : Json.size o.document ≤ 1100 + Json.quotedSize requestId.value :=
    size_document_le D o
  rw [hid] at hdocument
  have hcontent := size_content_le D o
  have hfits : Fits (sampleStore D) w.toBundleFields o := {
    context := ⟨hmarks, rfl⟩
    later := hzero ▸ Nat.one_pos
    within := hone.ge
    few := by
      rw [hzero]
      exact (by decide : 1 - 0 ≤ StoreLimitFields.largest.maxAppendRecords)
    head := rfl
    count := congrArg (· + 1) hnone.symm
    request := by
      rw [htransitions]
      refine workflowStoreDigest_eq_ok.mpr ⟨?_, rfl⟩
      have hsize := size_request_le D requestId first w.transitions
      rw [hlength, hid] at hsize
      exact hsize.trans
        (by decide : 600 + 3 + 110001 * 1 ≤ StoreLimitFields.largest.maxRequestBytes)
    content_le := (hcontent.trans hdocument).trans (by decide)
    digest := rfl
    document_le := hdocument.trans
      (by decide : 1100 + 3 ≤ StoreLimitFields.largest.maxOperationBytes) }
  have hreceipts : ∀ r ∈ w.records, (canonicalBytes r.toDict).length ≤ 120000 :=
    fun r _ => r.size_toDict_le
  have hpayload : (StoreHistory.contextRaw ⟨w, 0, [o], first, o.result⟩).length ≤ 20000 := by
    show Json.size (w.storeContext 0) ≤ _
    rw [hw]
    exact size_sampleStoreContext_le D w.records
  refine ⟨⟨w, 0, [o], first, o.result⟩, o, ?_, rfl⟩
  exact {
    context := hcontext
    authorized := hauthorized
    initial_le := Nat.zero_le _
    genesis := hfirst
    history := ⟨rfl, hfits, rfl⟩
    complete := hone.symm
    distinct := List.nodup_singleton _
    bounded := {
      bundle := w.ok.size_le
      payload := by
        obtain ⟨r, hr⟩ := List.length_eq_one_iff.mp hone
        have hreceipt := hreceipts r (by rw [hr]; exact List.mem_singleton_self r)
        simp only [StoreHistory.receiptSizes, hr, List.map_cons, List.map_nil, List.sum_cons,
          List.sum_nil, add_zero]
        exact (Nat.add_le_add hpayload hreceipt).trans
          (by decide : 20000 + 120000 ≤ StoreLimitFields.largest.maxBundleBytes)
      records := hone.le.trans (by decide : 1 ≤ StoreLimitFields.largest.maxRecords)
      receipts := List.forall_mem_map.mpr fun r hr => (hreceipts r hr).trans
        (by decide : 120000 ≤ StoreLimitFields.largest.maxReceiptBytes)
      operations := (by decide : 1 ≤ StoreLimitFields.largest.maxOperations)
      documents := by
        show (canonicalBytes o.document).length + 0 ≤ _
        exact hdocument.trans
          (by decide : 1100 + 3 ≤ StoreLimitFields.largest.maxOperationsBytes) } }

/-- An append that returns. -/
theorem exists_sampleAppend : ∃ (t u : WorkflowTables) (ts : List (WorkflowTransition D))
    (requestId : Identifier) (expected : WorkflowCheckpoint D) (commit : WorkflowCommit D),
    Reachable (sampleStore D) t ∧
      append (sampleStore D) ts requestId expected [] t = (.ok commit, u) := by
  obtain ⟨h', o, hs', hoperations⟩ := exists_sampleHistory D
  have hconcat : h'.operations = [] ++ [o] := hoperations
  obtain ⟨hs, he⟩ := hs'.before hconcat
  obtain ⟨t, ht⟩ := hs.exists_stored
  obtain ⟨commit, u, happend, -⟩ := he.append_eq hs hs' ht
  exact ⟨t, u, _, _, _, commit, hs.reachable ht rfl, happend⟩

end Sample

/-! ## What can be read -/

/-- **The reader accepts the reachable tables, and no others.** -/
theorem readable_iff_reachable (store : SQLiteWorkflowStore D) (t : WorkflowTables) :
    (∃ current, read store t = .ok current) ↔ Reachable store t := by
  constructor
  · intro h
    obtain ⟨current, hread⟩ := h
    obtain ⟨h, hs, ht, -⟩ := StoreHistory.read_eq_ok.mp hread
    exact hs.reachable ht rfl
  · intro h
    obtain ⟨h, hs, ht⟩ := h.exists_history
    exact ⟨_, hs.read_current ht⟩

/-- Tables with one operation. -/
theorem readable_iff_reachable_sample : ∃ t : WorkflowTables,
    (∃ current, read (sampleStore HexDigest) t = .ok current ∧ current.operations.length = 1) ∧
      Reachable (sampleStore HexDigest) t := by
  obtain ⟨h, o, hs, hoperations⟩ := exists_sampleHistory HexDigest
  obtain ⟨t, ht⟩ := hs.exists_stored
  have hread := hs.read_current ht
  exact ⟨t, ⟨_, hread, congrArg List.length hoperations⟩,
    (readable_iff_reachable (sampleStore HexDigest) t).mp ⟨_, hread⟩⟩

end SQLiteWorkflowStore

end EvidenceBraid
