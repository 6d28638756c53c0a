import EvidenceBraid.WorkflowReachable

/-!
# Runs of the workflow store

**Theorem (`history_safe`).** In every run of appends, lookups and snapshots with any faults, each
state extends the earlier ones, its operations partition the receipts past the initial ones, and
only one append changes the tables at a checkpoint.

**Theorem (`append_once`).** Whatever happened since, repeating an append returns the commit that it
returned first, a lookup finds this commit, and another request under the same identity is refused;
none of these changes the tables.

**Idea.** Every state is a sound history (`Reachable.exists_history`), each call extends it
(`Later`), and what an operation gives back depends on the receipts up to it only.
-/

namespace EvidenceBraid

open Hashing Transaction Sqlite
open Json (WellKeyed)

variable {D : Type} [Hashing D] [DecidableEq D] [WideHex D]

namespace SQLiteWorkflowStore

variable {store : SQLiteWorkflowStore D} {t u : WorkflowTables} {o : WorkflowOperation D}

abbrev StoreFaults := List (Option (Transaction.Fault PyError))

/-! ## Calls -/

/-- A call by any handle of a store. -/
inductive Call (D : Type) where
  | append (transitions : List (WorkflowTransition D)) (requestId : Identifier)
      (expected : WorkflowCheckpoint D) (faults : StoreFaults)
  | lookup (requestId : Identifier) (digest : D) (faults : StoreFaults)
  | snapshot (expected : Option (WorkflowCheckpoint D)) (faults : StoreFaults)

/-- The tables that a call leaves. -/
def Call.apply (store : SQLiteWorkflowStore D) (t : WorkflowTables) : Call D → WorkflowTables
  | .append ts requestId expected faults => (store.append ts requestId expected faults t).2
  | .lookup requestId digest faults => (store.lookup requestId digest faults t).2
  | .snapshot expected faults => (store.snapshot expected faults t).2

namespace StoreHistory

variable {h h' k : StoreHistory D}

/-- One history is the other after some appends. -/
structure Later (h h' : StoreHistory D) : Prop where
  initialCount : h'.initialCount = h.initialCount
  first : h'.first = h.first
  operations : h.operations <+: h'.operations
  longer : h.bundle.records.length ≤ h'.bundle.records.length
  bundle : h'.bundle.prefixBundle h.bundle.records.length = h.bundle

theorem Later.refl (h : StoreHistory D) : Later h h :=
  ⟨rfl, rfl, List.prefix_refl _, le_rfl, prefixBundle_self h.bundle⟩

theorem prefixBundle_prefixBundle (w : WorkflowBundle D) {m n : ℕ} (hmn : m ≤ n) :
    (w.prefixBundle n).prefixBundle m = w.prefixBundle m := by
  refine WorkflowBundle.ext_fields ?_
  show (w.toBundleFields.prefixOf n).prefixOf m = w.toBundleFields.prefixOf m
  simp [BundleFields.prefixOf, List.take_take, min_eq_left hmn]

theorem Later.trans (hk : Later h h') (hk' : Later h' k) : Later h k where
  initialCount := hk'.initialCount.trans hk.initialCount
  first := hk'.first.trans hk.first
  operations := hk.operations.trans hk'.operations
  longer := hk.longer.trans hk'.longer
  bundle := by
    rw [← prefixBundle_prefixBundle k.bundle hk.longer, hk'.bundle, hk.bundle]

theorem Extends.later (he : Extends h h' o) : Later h h' where
  initialCount := he.initialCount
  first := he.first
  operations := he.operations ▸ List.prefix_append _ _
  longer := he.longer
  bundle := he.bundle

theorem Later.records_prefix (hk : Later h h') : h.bundle.records <+: h'.bundle.records := by
  have hrecords : h'.bundle.records.take h.bundle.records.length = h.bundle.records :=
    congrArg (fun w : WorkflowBundle D => w.records) hk.bundle
  rw [← hrecords]
  exact List.take_prefix _ _

/-- **A stored operation gives the same commit back in every later history.** -/
theorem Later.historical_eq (hk : Later h h') (hs : h.Sound store) (hs' : h'.Sound store)
    (ho : o ∈ h.operations) : historical store h'.bundle o = historical store h.bundle o := by
  have ho' : o ∈ h'.operations := hk.operations.subset ho
  obtain ⟨commit, hcommit, hid, hdigest, hprevious, hbundle, hcheckpoint⟩ := hs.historical_eq ho
  obtain ⟨commit', hcommit', hid', hdigest', hprevious', hbundle', hcheckpoint'⟩ :=
    hs'.historical_eq ho'
  have hwithin := (hs.history.forall_mem o ho).within
  rw [hcommit, hcommit']
  refine congrArg Except.ok (WorkflowCommit.ext_fields (hid'.trans hid.symm)
    (hdigest'.trans hdigest.symm) (hprevious'.trans hprevious.symm) ?_
    (hcheckpoint'.trans hcheckpoint.symm))
  rw [hbundle, hbundle', ← hk.bundle, prefixBundle_prefixBundle h'.bundle hwithin]

/-! ## What the calls leave -/

/-- A run that only reads leaves the tables alone. -/
theorem reading {α : Type} {historic : WorkflowTables → Prop} {action : StoreProgram α}
    {f : WorkflowTables → WorkflowFlags → Result (α × WorkflowTables × WorkflowFlags)}
    (hf : StoreComputes historic action f) (hclean : ∀ t a w o, f t .start = .ok (a, w, o) →
      o.dirty = false) (faults : StoreFaults) (writable : Bool) (t : WorkflowTables) :
    (transact faults writable action t).2 = t := by
  rcases (transact_spec hf faults writable t).2 with h | h
  · exact h
  · obtain ⟨a, w, o, hvalue, hdirty, -⟩ := h
    rw [hclean t a w o hvalue] at hdirty
    cases hdirty

omit [WideHex D] in
theorem clean_foundIn {requestId : Identifier} {digest : D} (t : WorkflowTables)
    (a : Option (WorkflowCommit D)) (w : WorkflowTables) (o : WorkflowFlags)
    (h : (do
      let current ← read store t
      foundIn store requestId digest current t .start) = .ok (a, w, o)) : o.dirty = false := by
  simp only [bind_eq_ok] at h
  obtain ⟨current, -, h⟩ := h
  unfold foundIn at h
  cases hfind : find current requestId with
  | some operation =>
    simp only [hfind, bind_eq_ok, Except.ok.injEq, Prod.mk.injEq] at h
    obtain ⟨_, -, -, -, rfl⟩ := h
    rfl
  | none =>
    simp only [hfind, Except.ok.injEq, Prod.mk.injEq] at h
    obtain ⟨-, -, rfl⟩ := h
    rfl

omit [WideHex D] in
theorem lookup_tables (requestId : Identifier) (digest : D) (faults : StoreFaults)
    (t : WorkflowTables) : (lookup store requestId digest faults t).2 = t :=
  reading (storeComputes_lookup store requestId digest) clean_foundIn faults false t

omit [WideHex D] in
theorem snapshot_tables (expected : Option (WorkflowCheckpoint D)) (faults : StoreFaults)
    (t : WorkflowTables) : (snapshot store expected faults t).2 = t := by
  refine reading (storeComputes_snapshot store expected) (fun t a w o h => ?_) faults false t
  simp only [bind_eq_ok, Except.ok.injEq, Prod.mk.injEq] at h
  obtain ⟨_, -, _, -, -, -, rfl⟩ := h
  rfl

/-- **What a call does to a stored history**: nothing, or it is an append at the current checkpoint
that adds its operation. -/
theorem Sound.call (hs : h.Sound store) (ht : h.Stored t) (call : Call D) :
    call.apply store t = t ∨ ∃ h' o ts requestId faults, Extends h h' o ∧ h'.Sound store ∧
      h'.Stored (call.apply store t) ∧ call = .append ts requestId o.previous faults := by
  cases call with
  | lookup requestId digest faults => exact .inl (lookup_tables requestId digest faults t)
  | snapshot expected faults => exact .inl (snapshot_tables expected faults t)
  | append ts requestId expected faults =>
    simp only [Call.apply]
    cases hr : prepare store ts requestId expected with
    | error e =>
      rw [append_refused hr]
      exact .inl rfl
    | ok r =>
      rcases (hs.append_spec ht hr faults).2 with hsame | ⟨commit, happended⟩
      · exact .inl hsame
      · cases happended with
        | stored _ _ _ _ _ htables => exact .inl htables
        | fresh h' o he hs' ht' hrequest =>
          obtain ⟨-, -, _, -, hfields⟩ := prepare_eq_ok.mp hr
          have hexpected : o.previous = expected := by
            rw [hrequest] at hfields
            exact congrArg Request.expected hfields
          exact .inr ⟨h', o, ts, requestId, faults, he, hs', ht', by rw [hexpected]⟩

theorem Sound.call_later (hs : h.Sound store) (ht : h.Stored t) (call : Call D) :
    ∃ h', h'.Sound store ∧ h'.Stored (call.apply store t) ∧ Later h h' := by
  rcases hs.call ht call with hsame | ⟨h', o, ts, requestId, faults, he, hs', ht', -⟩
  · rw [hsame]
    exact ⟨h, hs, ht, Later.refl h⟩
  · exact ⟨h', hs', ht', he.later⟩

/-- A run leads to a later history. -/
theorem Sound.run_later (calls : List (Call D)) : ∀ {h : StoreHistory D} {t : WorkflowTables},
    h.Sound store → h.Stored t →
      ∃ h', h'.Sound store ∧ h'.Stored (calls.foldl (Call.apply store) t) ∧ Later h h' := by
  induction calls with
  | nil => exact fun hs ht => ⟨_, hs, ht, Later.refl _⟩
  | cons call calls ih =>
    intro h t hs ht
    obtain ⟨h', hs', ht', hlater⟩ := hs.call_later ht call
    obtain ⟨k, hsk, htk, hlater'⟩ := ih hs' ht'
    exact ⟨k, hsk, htk, hlater.trans hlater'⟩

end StoreHistory

/-! ## Every state of a run -/

/-- What is read later continues what was read. -/
structure Continues (r r' : WorkflowRead D) : Prop where
  context : SameContext r.snapshot.bundle.toBundleFields r'.snapshot.bundle.toBundleFields
  records : r.snapshot.bundle.records <+: r'.snapshot.bundle.records
  operations : r.operations <+: r'.operations

/-- The operations lead from the initial records to the current ones, each over the records after
the last one's, and the whole history is authorized. -/
structure Partitioned (store : SQLiteWorkflowStore D) (r : WorkflowRead D) (initial : ℕ)
    (first : WorkflowCheckpoint D) : Prop where
  authorized : r.snapshot.bundle.Authorized store.authority
  genesis : r.snapshot.bundle.genesis initial = .ok first
  chained : Links WorkflowOperation.previous WorkflowOperation.result
    (fun o => o.previous.recordCount < o.result.recordCount) first r.operations r.snapshot.checkpoint
  ranges : r.operations.flatMap (fun o => List.range' o.previous.recordCount
    (o.result.recordCount - o.previous.recordCount)) =
      List.range' initial (r.snapshot.bundle.records.length - initial)
  distinct : (r.operations.map (·.requestId)).Nodup

omit [WideHex D] in
theorem StoreHistory.Sound.partitioned {h : StoreHistory D} (hs : h.Sound store) :
    Partitioned store hs.current h.initialCount h.first where
  authorized := hs.authorized
  genesis := hs.genesis
  chained := hs.history.imp_of_mem fun _ _ hfits => hfits.later
  ranges := by
    have hranges := hs.history.ranges (f := (·.recordCount)) fun _ hfits => hfits.later
    rwa [hs.recordCount_first, hs.complete] at hranges
  distinct := hs.distinct

theorem StoreHistory.Later.continues {h h' : StoreHistory D} (hk : Later h h') (hs : h.Sound store)
    (hs' : h'.Sound store) : Continues hs.current hs'.current where
  context := by
    show SameContext h.bundle.toBundleFields h'.bundle.toBundleFields
    rw [← hk.bundle]
    exact ⟨rfl, rfl, rfl, rfl⟩
  records := hk.records_prefix
  operations := hk.operations

/-- **Every run of the store is safe.** -/
theorem history_safe (store : SQLiteWorkflowStore D) {t : WorkflowTables} (ht : Reachable store t)
    (calls : List (Call D)) :
    (∀ i j, i ≤ j → ∃ r r' initial first,
      read store (stateAfter (Call.apply store) t calls i) = .ok r ∧
      read store (stateAfter (Call.apply store) t calls j) = .ok r' ∧ Continues r r' ∧
      Partitioned store r initial first ∧ Partitioned store r' initial first) ∧
    ∀ i j ts requestId expected faults ts' requestId' expected' faults', i < j →
      calls[i]? = some (.append ts requestId expected faults) →
      calls[j]? = some (.append ts' requestId' expected' faults') →
      stateAfter (Call.apply store) t calls (i + 1) ≠ stateAfter (Call.apply store) t calls i →
      stateAfter (Call.apply store) t calls (j + 1) ≠ stateAfter (Call.apply store) t calls j →
        expected ≠ expected' := by
  obtain ⟨h₀, hs₀, ht₀⟩ := ht.exists_history
  have hrun : ∀ i j, i ≤ j → ∃ h k : StoreHistory D, h.Sound store ∧
      h.Stored (stateAfter (Call.apply store) t calls i) ∧ k.Sound store ∧
      k.Stored (stateAfter (Call.apply store) t calls j) ∧ StoreHistory.Later h k := by
    intro i j hij
    obtain ⟨h, hs, hi, -⟩ := StoreHistory.Sound.run_later (calls.take i) hs₀ ht₀
    obtain ⟨k, hsk, hk, hlater⟩ := StoreHistory.Sound.run_later ((calls.take j).drop i) hs hi
    rw [← List.foldl_append] at hk
    have htake : calls.take i ++ (calls.take j).drop i = calls.take j := by
      have hsplit := List.take_append_drop i (calls.take j)
      rwa [List.take_take, min_eq_left hij] at hsplit
    rw [htake] at hk
    exact ⟨h, k, hs, hi, hsk, hk, hlater⟩
  refine ⟨fun i j hij => ?_, ?_⟩
  · obtain ⟨h, k, hs, hi, hsk, hj, hlater⟩ := hrun i j hij
    have hpartitioned := hsk.partitioned
    rw [hlater.initialCount, hlater.first] at hpartitioned
    exact ⟨_, _, h.initialCount, h.first, hs.read_current hi, hsk.read_current hj,
      hlater.continues hs hsk, hs.partitioned, hpartitioned⟩
  · intro i j ts requestId expected faults ts' requestId' expected' faults' hij hcalli hcallj
      hchangedi hchangedj hsame
    subst hsame
    -- the checkpoint of the first append counts fewer operations than are there at the second
    obtain ⟨h, _, hs, hi, -⟩ := hrun i i le_rfl
    rw [stateAfter_succ _ hcalli] at hchangedi
    rw [stateAfter_succ _ hcallj] at hchangedj
    rcases hs.call hi (.append ts requestId expected faults) with hkept | ⟨h', o, ts₁, id₁, faults₁,
      he, hs', hi', hcall⟩
    · exact hchangedi hkept
    have hexpected : expected = h.last := by
      injection hcall with _ _ hexpected _
      rw [hexpected, he.previous]
    have hnext := stateAfter_succ (Call.apply store) (s := t) hcalli
    rw [← hnext] at hi'
    obtain ⟨h₁, k, hs₁, hi₁, hsk, hj, hlater⟩ := hrun (i + 1) j hij
    rcases hsk.call hj (.append ts' requestId' expected faults') with hkept | ⟨k', o', ts₂, id₂,
      faults₂, he', -, -, hcall'⟩
    · exact hchangedj hkept
    have hexpected' : expected = k.last := by
      injection hcall' with _ _ hexpected _
      rw [hexpected, he'.previous]
    have hread := hs'.read_current hi'
    rw [hs₁.read_current hi₁] at hread
    have hoperations : h₁.operations = h'.operations :=
      congrArg WorkflowRead.operations (Except.ok.inj hread)
    have hcount := hlater.operations.length_le
    have hfewer := hs.operationCount_last
    have hmore := hsk.operationCount_last
    rw [hoperations, he.operations, List.length_append, List.length_singleton] at hcount
    rw [← hexpected] at hfewer
    rw [← hexpected'] at hmore
    omega

/-- A run with one append. -/
theorem history_safe_sample : ∃ (t : WorkflowTables) (call : Call HexDigest) (r : WorkflowRead HexDigest),
    Reachable (sampleStore HexDigest) t ∧
      read (sampleStore HexDigest) (call.apply (sampleStore HexDigest) t) = .ok r ∧
      ∃ initial first, Partitioned (sampleStore HexDigest) r initial first := by
  obtain ⟨t, u, ts, requestId, expected, commit, ht, -⟩ := exists_sampleAppend HexDigest
  obtain ⟨-, r, initial, first, -, hread, -, -, hpartitioned⟩ :=
    (history_safe (sampleStore HexDigest) ht [.append ts requestId expected []]).1 0 1 (Nat.zero_le 1)
  exact ⟨t, .append ts requestId expected [], r, ht, hread, initial, first, hpartitioned⟩

/-! ## Answers to a request that is stored -/

namespace StoreHistory

variable {h h' k : StoreHistory D}

omit [WideHex D] in
theorem Sound.find_eq (hs : h.Sound store) (ho : o ∈ h.operations) :
    find hs.current o.requestId = some o := by
  cases hfind : find hs.current o.requestId with
  | none => exact absurd rfl (of_find_none hfind o ho)
  | some x =>
    obtain ⟨hx, hid⟩ := of_find hfind
    exact congrArg some (List.inj_on_of_nodup_map hs.distinct hx ho hid)

omit [WideHex D] in
theorem answered_eq (w : WorkflowBundle D) (o : WorkflowOperation D) :
    answered store o.requestDigest w o = historical store w o := by
  have hrequire : (require (o.requestDigest = o.requestDigest)
      (.conflict "request ID is bound to different canonical input") : Result Unit) = .ok () :=
    if_pos rfl
  rw [answered, hrequire]
  rfl

/-- The same request is answered with the stored commit. -/
theorem Sound.append_stored (hs : h.Sound store) (ht : h.Stored t) (ho : o ∈ h.operations)
    {commit : WorkflowCommit D} (hcommit : historical store h.bundle o = .ok commit)
    {ts : List (WorkflowTransition D)} {expected : WorkflowCheckpoint D}
    (hr : prepare store ts o.requestId expected = .ok ⟨o.requestId, expected, ts, o.requestDigest⟩) :
    append store ts o.requestId expected [] t = (.ok commit, t) := by
  have happended : appended store ⟨o.requestId, expected, ts, o.requestDigest⟩ t .start =
      .ok (commit, t, { WorkflowFlags.start with outcome := .complete }) := by
    rw [appended, hs.read_current ht, ok_bind, appendedTo]
    dsimp only
    rw [hs.find_eq ho]
    dsimp only
    rw [answered_eq]
    exact congrArg (fun x : Result (WorkflowCommit D) => x >>= fun commit =>
      .ok (commit, t, { WorkflowFlags.start with outcome := .complete })) hcommit
  rw [append, hr]
  exact transact_ok (computes_appendAction store _) true happended

/-- Another request under the same identity is refused. -/
theorem Sound.append_conflict (hs : h.Sound store) (ht : h.Stored t) (ho : o ∈ h.operations)
    {ts : List (WorkflowTransition D)} {expected : WorkflowCheckpoint D} {r : Request D}
    (hr : prepare store ts o.requestId expected = .ok r) (hother : o.requestDigest ≠ r.digest) :
    append store ts o.requestId expected [] t =
      (.error (.validation (.conflict "request ID is bound to different canonical input")), t) := by
  have hid : r.requestId = o.requestId := by
    obtain ⟨-, -, _, -, rfl⟩ := prepare_eq_ok.mp hr
    rfl
  have haction : appendAction store r (calm t) =
      (.error (.ordinary (.conflict "request ID is bound to different canonical input")),
        calm t) := by
    have hquery : (query (read store) : StoreProgram (WorkflowRead D)) (calm t) =
        (.ok hs.current, calm t) := by
      have hread := hs.read_current ht
      simp only [query, step, calm, hread]
      rfl
    rw [appendAction, bind_apply, hquery]
    dsimp only
    rw [hid, hs.find_eq ho]
    dsimp only
    rw [answer, bind_apply]
    have hrequire : (require (o.requestDigest = r.digest)
        (.conflict "request ID is bound to different canonical input") : Result Unit) =
        .error (.conflict "request ID is bound to different canonical input") := if_neg hother
    rw [hrequire]
    rfl
  rw [append, hr]
  exact transact_error true rfl haction

/-- A lookup finds the stored commit. -/
theorem Sound.lookup_stored (hs : h.Sound store) (ht : h.Stored t) (ho : o ∈ h.operations)
    {commit : WorkflowCommit D} (hcommit : historical store h.bundle o = .ok commit) :
    lookup store o.requestId o.requestDigest [] t = (.ok (some commit), t) := by
  have hfound : foundIn store o.requestId o.requestDigest hs.current t .start =
      .ok (some commit, t, { WorkflowFlags.start with outcome := .complete }) := by
    rw [foundIn, hs.find_eq ho]
    dsimp only
    rw [answered_eq]
    exact congrArg (fun x : Result (WorkflowCommit D) => x >>= fun commit =>
      .ok (some commit, t, { WorkflowFlags.start with outcome := .complete })) hcommit
  have hlookup : (do
      let current ← read store t
      foundIn store o.requestId o.requestDigest current t .start) =
        .ok (some commit, t, { WorkflowFlags.start with outcome := .complete }) := by
    rw [hs.read_current ht, ok_bind, hfound]
  exact transact_ok (computes_lookupAction store o.requestId o.requestDigest) false hlookup

/-- Under any faults a request whose identity is stored changes nothing, and what it returns is the
stored commit of its own digest. -/
theorem Sound.append_known (hs : h.Sound store) (ht : h.Stored t) (ho : o ∈ h.operations)
    {commit : WorkflowCommit D} (hcommit : historical store h.bundle o = .ok commit)
    (ts : List (WorkflowTransition D)) (expected : WorkflowCheckpoint D) (faults : StoreFaults) :
    (append store ts o.requestId expected faults t).2 = t ∧
      ∀ c, (append store ts o.requestId expected faults t).1 = .ok c → c = commit ∧
        ∃ r, prepare store ts o.requestId expected = .ok r ∧ r.digest = o.requestDigest := by
  cases hr : prepare store ts o.requestId expected with
  | error e =>
    rw [append_refused hr]
    exact ⟨rfl, fun c hc => by cases hc⟩
  | ok r =>
    have hid : r.requestId = o.requestId := by
      obtain ⟨-, -, _, -, rfl⟩ := prepare_eq_ok.mp hr
      rfl
    have happended : ∀ {c u}, Appended store h t r c u →
        u = t ∧ c = commit ∧ r.digest = o.requestDigest := by
      intro c u hdone
      cases hdone with
      | stored x hx hxid hdigest hhistorical htables =>
        obtain rfl : x = o := List.inj_on_of_nodup_map hs.distinct hx ho (hxid.trans hid)
        rw [hcommit] at hhistorical
        exact ⟨htables, (Except.ok.inj hhistorical).symm, hdigest.symm⟩
      | fresh _ _ _ _ _ _ hnew _ => exact absurd hid.symm (hnew o ho)
    obtain ⟨hok, hleft⟩ := hs.append_spec ht hr faults
    refine ⟨?_, fun c hc => ?_⟩
    · rcases hleft with hkept | ⟨c, hdone⟩
      · exact hkept
      · exact (happended hdone).1
    · obtain ⟨-, hsame, hdigest⟩ := happended (hok c hc)
      exact ⟨hsame, r, rfl, hdigest⟩

/-- An append that returns has its operation in the history that it leaves. -/
theorem Sound.appended_mem (hs : h.Sound store) (ht : h.Stored t) {ts : List (WorkflowTransition D)}
    {requestId : Identifier} {expected : WorkflowCheckpoint D} {faults : StoreFaults}
    {commit : WorkflowCommit D} (happend : append store ts requestId expected faults t = (.ok commit, u)) :
    ∃ (h' : StoreHistory D) (o : WorkflowOperation D), h'.Sound store ∧ h'.Stored u ∧
      o ∈ h'.operations ∧ o.requestId = requestId ∧
      prepare store ts requestId expected = .ok ⟨requestId, expected, ts, o.requestDigest⟩ ∧
      historical store h'.bundle o = .ok commit := by
  cases hr : prepare store ts requestId expected with
  | error e =>
    rw [append_refused hr] at happend
    cases happend
  | ok r =>
    obtain ⟨-, -, d, -, rfl⟩ := prepare_eq_ok.mp hr
    have hdone := (hs.append_spec ht hr faults).1 commit (by rw [happend])
    rw [happend] at hdone
    cases hdone with
    | stored o ho hid hdigest hhistorical htables =>
      dsimp only at htables hid hdigest
      subst htables hdigest
      exact ⟨h, o, hs, ht, ho, hid, rfl, hhistorical⟩
    | fresh h' o he hs' ht' hrequest _ hhistorical =>
      have hid : requestId = o.requestId := congrArg Request.requestId hrequest
      have hdigest : d = o.requestDigest := congrArg Request.digest hrequest
      refine ⟨h', o, hs', ht', ?_, hid.symm, by rw [hdigest], hhistorical⟩
      rw [he.operations]
      exact List.mem_append_right _ List.mem_cons_self

end StoreHistory

/-! ## Every request is stored once -/

/-- The bytes that the digest of a request binds. -/
def requestBytes (requestId : Identifier) (expected : WorkflowCheckpoint D)
    (ts : List (WorkflowTransition D)) : Bytes :=
  canonicalBytes (Json.dict (requestItemsOf requestId expected ts))

omit [DecidableEq D] [WideHex D] in
theorem wellKeyed_request (requestId : Identifier) (expected : WorkflowCheckpoint D)
    (ts : List (WorkflowTransition D)) :
    WellKeyed (Json.dict (requestItemsOf requestId expected ts)) := by
  refine Json.wellKeyed_dict ?_
  intro kv hkv
  simp only [requestItemsOf, List.mem_cons, List.not_mem_nil, or_false] at hkv
  rcases hkv with rfl | rfl | rfl | rfl | rfl
  all_goals simp [WorkflowCheckpoint.wellKeyed_toDict, WorkflowTransition.wellKeyed_toDict]

omit [DecidableEq D] [WideHex D] in
/-- The request's bytes determine the request. -/
theorem requestBytes_inj {requestId : Identifier} {expected expected' : WorkflowCheckpoint D}
    {ts ts' : List (WorkflowTransition D)}
    (h : requestBytes requestId expected ts = requestBytes requestId expected' ts') :
    expected = expected' ∧ ts = ts' := by
  have hdocument := canonicalBytes_inj (wellKeyed_request _ _ _) (wellKeyed_request _ _ _) h
  have hget (k : String) : Json.get? (requestItemsOf requestId expected ts) k =
      Json.get? (requestItemsOf requestId expected' ts') k := by
    rw [← Json.get?_foldr_insertKey (nodup_keys_requestItemsOf requestId expected ts),
      ← Json.get?_foldr_insertKey (nodup_keys_requestItemsOf requestId expected' ts')]
    exact congrArg (Json.get? · k) (Json.obj.inj hdocument)
  have hexpected : some expected.toDict = some expected'.toDict := hget "expected_checkpoint"
  have hts : some (Json.arr (ts.map WorkflowTransition.toDict)) =
      some (Json.arr (ts'.map WorkflowTransition.toDict)) := hget "transitions"
  exact ⟨WorkflowCheckpoint.toDict_injective (Option.some.inj hexpected),
    WorkflowTransition.toDict_injective.list_map (Json.arr.inj (Option.some.inj hts))⟩

omit [WideHex D] in
theorem prepare_digest {ts : List (WorkflowTransition D)} {requestId : Identifier}
    {expected : WorkflowCheckpoint D} {r : Request D}
    (hr : prepare store ts requestId expected = .ok r) :
    r.digest = sha256 (requestBytes requestId expected ts) := by
  obtain ⟨-, -, d, hd, rfl⟩ := prepare_eq_ok.mp hr
  exact (workflowStoreDigest_eq_ok.mp hd).2.symm

/-- **Every request is stored once**, and answered with its first commit for ever. -/
theorem append_once (store : SQLiteWorkflowStore D) (ht : Reachable store t)
    {ts : List (WorkflowTransition D)} {requestId : Identifier} {expected : WorkflowCheckpoint D}
    {faults : StoreFaults} {commit : WorkflowCommit D}
    (happend : append store ts requestId expected faults t = (.ok commit, u))
    (calls : List (Call D)) :
    let v := calls.foldl (Call.apply store) u
    append store ts requestId expected [] v = (.ok commit, v) ∧
    lookup store requestId commit.requestDigest [] v = (.ok (some commit), v) ∧
    (∀ faults', (append store ts requestId expected faults' v).2 = v ∧
      ∀ c, (append store ts requestId expected faults' v).1 = .ok c → c = commit) ∧
    ∀ ts' expected', (ts', expected') ≠ (ts, expected) →
      Set.InjOn (sha256 : Bytes → D)
        {requestBytes requestId expected ts, requestBytes requestId expected' ts'} →
      (∀ faults', (append store ts' requestId expected' faults' v).2 = v ∧
        ∀ c, (append store ts' requestId expected' faults' v).1 ≠ .ok c) ∧
      ∀ r, prepare store ts' requestId expected' = .ok r →
        append store ts' requestId expected' [] v =
          (.error (.validation (.conflict "request ID is bound to different canonical input")), v) := by
  obtain ⟨h₀, hs₀, ht₀⟩ := ht.exists_history
  obtain ⟨h, o, hs, hu, ho, rfl, hprepare, hcommit⟩ := hs₀.appended_mem ht₀ happend
  obtain ⟨k, hsk, hk, hlater⟩ := StoreHistory.Sound.run_later calls hs hu
  intro v
  have hok : o ∈ k.operations := hlater.operations.subset ho
  have hcommitk : historical store k.bundle o = .ok commit :=
    (hlater.historical_eq hs hsk ho).trans hcommit
  have hdigest : commit.requestDigest = o.requestDigest := by
    obtain ⟨c, hc, -, hdigest, -⟩ := hs.historical_eq ho
    rw [hcommit] at hc
    rw [Except.ok.inj hc, hdigest]
  refine ⟨hsk.append_stored hk hok hcommitk hprepare, ?_, fun faults' => ?_, ?_⟩
  · rw [hdigest]
    exact hsk.lookup_stored hk hok hcommitk
  · obtain ⟨hkept, hreturned⟩ := hsk.append_known hk hok hcommitk ts expected faults'
    exact ⟨hkept, fun c hc => (hreturned c hc).1⟩
  · intro ts' expected' hother hinj
    -- equal digests would make the two documents equal, and so the requests
    have hdistinct : ∀ r, prepare store ts' o.requestId expected' = .ok r →
        o.requestDigest ≠ r.digest := by
      intro r hr hsame
      rw [prepare_digest hr] at hsame
      have hfirst := prepare_digest hprepare
      dsimp only at hfirst
      rw [hfirst] at hsame
      have hbytes := hinj (by simp) (by simp) hsame
      obtain ⟨rfl, rfl⟩ := requestBytes_inj hbytes
      exact hother rfl
    refine ⟨fun faults' => ?_, fun r hr => hsk.append_conflict hk hok hr (hdistinct r hr)⟩
    obtain ⟨hkept, hreturned⟩ := hsk.append_known hk hok hcommitk ts' expected' faults'
    refine ⟨hkept, fun c hc => ?_⟩
    obtain ⟨-, r, hr, hsame⟩ := hreturned c hc
    exact hdistinct r hr hsame.symm

/-- The append to a new store, again. -/
theorem append_once_sample : ∃ (u : WorkflowTables) (ts : List (WorkflowTransition HexDigest))
    (requestId : Identifier) (expected : WorkflowCheckpoint HexDigest)
    (commit : WorkflowCommit HexDigest),
    append (sampleStore HexDigest) ts requestId expected [] u = (.ok commit, u) ∧
      lookup (sampleStore HexDigest) requestId commit.requestDigest [] u = (.ok (some commit), u) := by
  obtain ⟨t, u, ts, requestId, expected, commit, ht, happend⟩ := exists_sampleAppend HexDigest
  obtain ⟨hagain, hfound, -⟩ := append_once (sampleStore HexDigest) ht happend []
  exact ⟨u, ts, requestId, expected, commit, hagain, hfound⟩

end SQLiteWorkflowStore

end EvidenceBraid
