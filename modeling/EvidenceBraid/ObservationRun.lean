import EvidenceBraid.CaseOnce
import EvidenceBraid.CaseVerification
import EvidenceBraid.Library.History

/-!
# Cancelling an observation

`run_observation` claims a prepared intent, enters the adapter's callback and appends what it has found
to the journal. `ObservationCancelToken.cancel` may come at any time, from any thread, and the calls
may share intents and tokens as they like.

**Theorem (`observation_linearizes`).** Over every order of the steps: an intent's callback is entered
at most once; an accepted cancellation means that no run of the token publishes, before or after; a
refused one means that a run of the token has appended its observation; and an accepted one is never
followed by a refused one.

**Idea.** What is under a lock is one step, so nobody sees a token in the middle of a publication. The
history says what the flags of a token say (`Linear`): its event is set by an accepted cancellation
and by nothing else, its `published` flag by a publication and by nothing else, and a step sets one
only where the other is not set.
-/

namespace EvidenceBraid

open Hashing

variable {D : Type} [Hashing D]

/-! ## Tokens -/

/-- What `run_observation` raises. -/
inductive RunError where
  /-- A validation error of one of the checks. -/
  | refused (e : PyError)
  /-- `ObservationCancelled`: observation cancelled before adapter entry. -/
  | cancelled
  /-- `ObservationInterrupted`: observation entered but was interrupted before publication. -/
  | interrupted (observedBytes : Option Bytes)
  /-- `ObservationPublicationError`: observation ran but journal publication failed. -/
  | publication (observedBytes : Option Bytes)
  /-- An exception that no handler takes. -/
  | control

/-- `ObservationCancelToken`. -/
structure CancelToken where
  event : Bool
  published : Bool
  publishing : Bool

namespace CancelToken

def fresh : CancelToken := ⟨false, false, false⟩

/-- `cancel`: the answer, and the token afterwards. -/
def cancel (t : CancelToken) : Result Bool × CancelToken :=
  if t.publishing then
    (.error (.validation "reentrant cancellation during observation publication"), t)
  else if t.published then
    (.ok false, t)
  else
    (.ok true, { t with event := true })

/-- The publication in `_retained`, under the lock of the token. -/
def publish {α : Type} (t : CancelToken) (output : Option Bytes) (append : Result α) :
    Except RunError α × CancelToken :=
  if t.event then
    (.error (.interrupted output), t)
  else
    let held : CancelToken := { t with publishing := true }
    match append with
    | .error _ => (.error (.publication output), { held with publishing := false })
    | .ok journal => (.ok journal, { held with published := true, publishing := false })

end CancelToken

/-! ## Prepared intents -/

/-- `PreparedObservation`, as `prepare_observation` makes it. -/
structure PreparedObservation (D : Type) [Hashing D] [DecidableEq D] where
  journal : CaseJournal D
  authority : CaseAuthority
  registry : ObservationRegistry
  adapter : AdapterKey
  plan : CasePlan D
  assertion : Bytes
  input : Bytes
  requestId : Identifier
  planHead : D
  planned : planOf journal = .ok plan
  preflight : prepareObservation journal authority registry assertion input planHead = .ok adapter

variable [DecidableEq D]

namespace PreparedObservation

/-- `_checkpoint`. -/
def checkpoint (p : PreparedObservation D) : CaseCheckpoint D := p.journal.checkpoint

/-- The handlers around the callback, under the limits of the registry. A value that is no bytes
object is `returned none`, and a control exception is not handled. -/
def finding (p : PreparedObservation D) : CallbackResult → Option Finding
  | .returned raw =>
    match boundedOutput p.registry.limits raw (p.assertion.length + p.input.length) with
    | .ok output => some ⟨.observed, none, some output⟩
    | .error _ => some ⟨.error, some ⟨"invalid_adapter_output", Eq.refl true⟩, none⟩
  | .unavailable => some ⟨.unavailable, some ⟨"adapter_unavailable", Eq.refl true⟩, none⟩
  | .failed => some ⟨.error, some ⟨"adapter_error", Eq.refl true⟩, none⟩
  | .control => none

/-- The observation that a run makes of its finding. -/
def observe (p : PreparedObservation D) (f : Finding) : Result (CaseObservation D) :=
  makeObservation p.plan p.requestId p.adapter.observerId f.status f.output f.errorCode

/-- The append of `_retained`. -/
def append (p : PreparedObservation D) (o : CaseObservation D) : Result (CaseJournal D) :=
  p.journal.append [.observation o] p.authority (some p.checkpoint)

/-- The end of `_retained`, once the journal is published. -/
def retain (p : PreparedObservation D) (f : Finding) (o : CaseObservation D)
    (journal : CaseJournal D) : Result (RetainedObservation D) := do
  let observed ← match f.output with
    | some output => do
      let artifactId ← orError o.artifactId (.validation "observed output lacks its artifact ID")
      .ok [⟨artifactId, sha256 output⟩]
    | none => .ok []
  .ok ⟨journal, p.checkpoint, journal.checkpoint, o, p.adapter, p.requestId, p.assertion, p.input,
    f.output, [⟨p.plan.assertionArtifactId, sha256 p.assertion⟩,
      ⟨p.plan.inputArtifactId, sha256 p.input⟩] ++ observed, p.registry.limits⟩

end PreparedObservation

/-! ## Runs -/

/-- The arguments of a call of `run_observation`: the intent, whether the registry is the very one
that the intent was prepared with, and the token. -/
structure RunCall (ι κ : Type) where
  intent : ι
  sameRegistry : Bool
  cancel : Option κ

/-- How far a call has come. -/
inductive RunPhase (D : Type) [Hashing D] where
  | ready
  | claimed
  | admitted
  | inside
  | found (f : Finding)
  | measured (f : Finding)
  | published (f : Finding) (o : CaseObservation D) (journal : CaseJournal D)
  | returned (retained : RetainedObservation D)
  | stopped (e : RunError)

/-- A call that has claimed its intent and has not entered the callback yet. -/
def RunPhase.Waiting : RunPhase D → Prop
  | .claimed | .admitted => True
  | _ => False

/-- What others can observe. -/
inductive RunEvent (κ ρ D : Type) [Hashing D] where
  | entered (r : ρ)
  | published (r : ρ) (o : CaseObservation D) (journal : CaseJournal D)
  | cancelled (k : κ) (answer : Bool)
  | reentrant (k : κ)

/-- One step of one thread: the next block of a call, where `result` is what the callback ends with if
the call is inside it; a `cancel()`; or an exception that stops a call. -/
inductive RunAction (κ ρ : Type) where
  | advance (r : ρ) (result : CallbackResult)
  | cancel (k : κ)
  | stop (r : ρ)

/-- The intents that are consumed, the tokens, the calls and the history. -/
structure ObservationRuns (ι κ ρ D : Type) [Hashing D] where
  consumed : ι → Bool
  token : κ → CancelToken
  phase : ρ → RunPhase D
  history : List (RunEvent κ ρ D)

namespace ObservationRuns

variable {ι κ ρ : Type} [DecidableEq ι] [DecidableEq κ] [DecidableEq ρ]

/-- Nothing has happened. -/
def start : ObservationRuns ι κ ρ D := ⟨fun _ => false, fun _ => .fresh, fun _ => .ready, []⟩

/-- A call in another phase. -/
def moved (s : ObservationRuns ι κ ρ D) (r : ρ) (p : RunPhase D) : ObservationRuns ι κ ρ D :=
  { s with phase := Function.update s.phase r p }

/-- One more event. -/
def logged (s : ObservationRuns ι κ ρ D) (e : RunEvent κ ρ D) : ObservationRuns ι κ ρ D :=
  { s with history := s.history ++ [e] }

/-- A token in another state. -/
def turned (s : ObservationRuns ι κ ρ D) (k : κ) (t : CancelToken) : ObservationRuns ι κ ρ D :=
  { s with token := Function.update s.token k t }

/-- `cancelled`, or `False` without a token. -/
def isCancelled (s : ObservationRuns ι κ ρ D) : Option κ → Bool
  | some k => (s.token k).event
  | none => false

variable (intents : ι → PreparedObservation D) (calls : ρ → RunCall ι κ)

/-- The checks of `run_observation` and `_claim`. -/
def claim (s : ObservationRuns ι κ ρ D) (r : ρ) : ObservationRuns ι κ ρ D :=
  let call := calls r
  let prepared := intents call.intent
  if call.sameRegistry = true ∧
      prepared.registry.select prepared.plan prepared.authority = .ok prepared.adapter then
    if s.consumed call.intent then
      s.moved r (.stopped (.refused (.validation "prepared observation was already consumed")))
    else
      { s.moved r .claimed with consumed := Function.update s.consumed call.intent true }
  else
    s.moved r (.stopped (.refused (.validation "observation registry changed after preparation")))

/-- The publication: under the lock of the token, if there is one. -/
def publish (s : ObservationRuns ι κ ρ D) (r : ρ) (f : Finding) : ObservationRuns ι κ ρ D :=
  let prepared := intents (calls r).intent
  match prepared.observe f with
  | .error e => s.moved r (.stopped (.refused e))
  | .ok o =>
    match (calls r).cancel with
    | none =>
      match prepared.append o with
      | .error _ => s.moved r (.stopped (.publication f.output))
      | .ok journal => (s.moved r (.published f o journal)).logged (.published r o journal)
    | some k =>
      let (published, token) := (s.token k).publish f.output (prepared.append o)
      match published with
      | .error e => (s.moved r (.stopped e)).turned k token
      | .ok journal =>
        ((s.moved r (.published f o journal)).turned k token).logged (.published r o journal)

/-- The next block of a call. -/
def advance (s : ObservationRuns ι κ ρ D) (r : ρ) (result : CallbackResult) :
    ObservationRuns ι κ ρ D :=
  let call := calls r
  let prepared := intents call.intent
  match s.phase r with
  | .ready => s.claim intents calls r
  | .claimed =>
    if s.isCancelled call.cancel then s.moved r (.stopped .cancelled) else s.moved r .admitted
  | .admitted => (s.moved r .inside).logged (.entered r)
  | .inside =>
    match prepared.finding result with
    | some f => s.moved r (.found f)
    | none => s.moved r (.stopped .control)
  | .found f =>
    if s.isCancelled call.cancel then s.moved r (.stopped (.interrupted f.output))
    else s.moved r (.measured f)
  | .measured f => s.publish intents calls r f
  | .published f o journal =>
    match prepared.retain f o journal with
    | .ok retained => s.moved r (.returned retained)
    | .error e => s.moved r (.stopped (.refused e))
  | .returned _ | .stopped _ => s

/-- A `cancel()`. -/
def cancelStep (s : ObservationRuns ι κ ρ D) (k : κ) : ObservationRuns ι κ ρ D :=
  let (answer, token) := (s.token k).cancel
  match answer with
  | .ok b => (s.turned k token).logged (.cancelled k b)
  | .error _ => (s.turned k token).logged (.reentrant k)

/-- One step. -/
def step (s : ObservationRuns ι κ ρ D) : RunAction κ ρ → ObservationRuns ι κ ρ D
  | .advance r result => s.advance intents calls r result
  | .cancel k => s.cancelStep k
  | .stop r =>
    match s.phase r with
    | .returned _ | .stopped _ => s
    | _ => s.moved r (.stopped .control)

/-- The steps of all threads, in the order in which they happen. -/
def run (s : ObservationRuns ι κ ρ D) (actions : List (RunAction κ ρ)) : ObservationRuns ι κ ρ D :=
  actions.foldl (step intents calls) s

/-! ## What the history says -/

/-- A call of this intent has entered the callback. -/
def enters (i : ι) : RunEvent κ ρ D → Bool
  | .entered r => (calls r).intent = i
  | _ => false

/-- A call with this token has published. -/
def publishes (k : κ) : RunEvent κ ρ D → Bool
  | .published r _ _ => (calls r).cancel = some k
  | _ => false

/-- What an event needs of the history before it. -/
def Allowed (h : List (RunEvent κ ρ D)) : RunEvent κ ρ D → Prop
  | .entered r => ∀ x ∈ h, enters calls (calls r).intent x = false
  | .published r o journal =>
    (intents (calls r).intent).append o = .ok journal ∧
      ∀ k, (calls r).cancel = some k → .cancelled k true ∉ h
  | .cancelled k true => ∀ x ∈ h, publishes calls k x = false
  | .cancelled k false => ∃ x ∈ h, publishes calls k x = true
  | .reentrant _ => False

/-- The flags of a token say what the history says, and nobody is in the middle of a publication. -/
structure Flags (t : CancelToken) (k : κ) (h : List (RunEvent κ ρ D)) : Prop where
  event : t.event = true ↔ .cancelled k true ∈ h
  published : t.published = true ↔ ∃ x ∈ h, publishes calls k x = true
  publishing : t.publishing = false

/-- The invariant. A call that waits to enter has consumed its intent, and is the only one; nobody has
entered with it. -/
structure Linear (s : ObservationRuns ι κ ρ D) : Prop where
  justified : Justified (Allowed intents calls) s.history
  flags : ∀ k, Flags calls (s.token k) k s.history
  entered : ∀ x ∈ s.history, ∀ i, enters calls i x = true → s.consumed i = true
  waiting : ∀ r, (s.phase r).Waiting → s.consumed (calls r).intent = true ∧
    (∀ x ∈ s.history, enters calls (calls r).intent x = false) ∧
      ∀ q, (s.phase q).Waiting → (calls q).intent = (calls r).intent → q = r

variable {intents calls} {s : ObservationRuns ι κ ρ D}

omit [DecidableEq D] [DecidableEq ι] [DecidableEq ρ] in
/-- Another event leaves the flags of a token true. -/
theorem Flags.logged {t : CancelToken} {k : κ} {h : List (RunEvent κ ρ D)} (hf : Flags calls t k h)
    {e : RunEvent κ ρ D} (hcancel : e ≠ .cancelled k true) (hpublish : publishes calls k e = false) :
    Flags calls t k (h ++ [e]) where
  event := by
    rw [hf.event, List.mem_append, List.mem_singleton]
    exact ⟨.inl, fun h => h.resolve_right hcancel.symm⟩
  published := by
    rw [hf.published]
    constructor
    · intro hall
      obtain ⟨x, hx, hp⟩ := hall
      exact ⟨x, List.mem_append_left _ hx, hp⟩
    · intro hall
      obtain ⟨x, hx, hp⟩ := hall
      rcases List.mem_append.mp hx with hx | hx
      · exact ⟨x, hx, hp⟩
      · rw [List.mem_singleton.mp hx, hpublish] at hp
        exact absurd hp Bool.false_ne_true
  publishing := hf.publishing

omit [DecidableEq ρ] in
theorem linear_start : (start : ObservationRuns ι κ ρ D).Linear intents calls where
  justified := .nil
  flags := fun k => ⟨by simp [start, CancelToken.fresh], by simp [start, CancelToken.fresh], rfl⟩
  entered := fun x hx => absurd hx List.not_mem_nil
  waiting := fun r hr => absurd hr id

namespace Linear

/-- A call that moves on, but not to wait. -/
theorem move (hs : s.Linear intents calls) (r : ρ) {p : RunPhase D}
    (hp : p.Waiting → (s.phase r).Waiting) : (s.moved r p).Linear intents calls where
  justified := hs.justified
  flags := hs.flags
  entered := hs.entered
  waiting := by
    have hback : ∀ q, ((s.moved r p).phase q).Waiting → (s.phase q).Waiting := by
      intro q hq
      have hq' : (Function.update s.phase r p q).Waiting := hq
      by_cases hqr : q = r
      · rw [hqr, Function.update_self] at hq'
        rw [hqr]
        exact hp hq'
      · rwa [Function.update_of_ne hqr] at hq'
    intro q hq
    obtain ⟨hconsumed, hnone, honly⟩ := hs.waiting q (hback q hq)
    exact ⟨hconsumed, hnone, fun q' hq' => honly q' (hback q' hq')⟩

/-- A call that claims an intent is the first one to do so. -/
theorem claimed (hs : s.Linear intents calls) (r : ρ)
    (hfree : s.consumed (calls r).intent = false) :
    Linear intents calls { s.moved r .claimed with
      consumed := Function.update s.consumed (calls r).intent true } := by
  have hkeep : ∀ i, s.consumed i = true →
      Function.update s.consumed (calls r).intent true i = true := by
    intro i hi
    by_cases hir : i = (calls r).intent
    · rw [hir, Function.update_self]
    · rwa [Function.update_of_ne hir]
  have hother : ∀ q, q ≠ r → (Function.update s.phase r .claimed q).Waiting → (s.phase q).Waiting := by
    intro q hqr hq
    rwa [Function.update_of_ne hqr] at hq
  -- a call of the same intent that already waits would have consumed it
  have hfirst : ∀ q, (s.phase q).Waiting → (calls q).intent ≠ (calls r).intent := by
    intro q hq heq
    have hconsumed := (hs.waiting q hq).1
    rw [heq, hfree] at hconsumed
    exact Bool.false_ne_true hconsumed
  refine ⟨hs.justified, hs.flags, fun x hx i hi => hkeep i (hs.entered x hx i hi), ?_⟩
  intro q hq
  change (Function.update s.phase r .claimed q).Waiting at hq
  by_cases hqr : q = r
  · refine ⟨?_, ?_, ?_⟩
    · rw [hqr]
      exact Function.update_self _ _ _
    · intro x hx
      rw [hqr, Bool.eq_false_iff]
      intro hx'
      rw [hs.entered x hx _ hx'] at hfree
      exact Bool.false_ne_true hfree.symm
    · intro q' hq' heq
      by_cases hq'r : q' = r
      · rw [hq'r, hqr]
      · rw [hqr] at heq
        exact absurd heq (hfirst q' (hother q' hq'r hq'))
  · have hw := hother q hqr hq
    obtain ⟨hconsumed, hnone, honly⟩ := hs.waiting q hw
    refine ⟨hkeep _ hconsumed, hnone, ?_⟩
    intro q' hq' heq
    by_cases hq'r : q' = r
    · rw [hq'r] at heq
      exact absurd heq.symm (hfirst q hw)
    · exact honly q' (hother q' hq'r hq') heq

/-- **A call that enters the callback** is the first one of its intent. -/
theorem enter (hs : s.Linear intents calls) (r : ρ) (hr : (s.phase r).Waiting) :
    ((s.moved r .inside).logged (.entered r)).Linear intents calls := by
  obtain ⟨hconsumed, hnone, honly⟩ := hs.waiting r hr
  refine ⟨hs.justified.concat hnone, fun k => (hs.flags k).logged nofun rfl, ?_, ?_⟩
  · refine forall_mem_concat hs.entered fun i hi => ?_
    rw [← of_decide_eq_true hi]
    exact hconsumed
  · have hother : ∀ q, ((s.moved r .inside).phase q).Waiting → q ≠ r ∧ (s.phase q).Waiting := by
      intro q hq
      have hq' : (Function.update s.phase r .inside q).Waiting := hq
      by_cases hqr : q = r
      · rw [hqr, Function.update_self] at hq'
        exact absurd hq' id
      · rw [Function.update_of_ne hqr] at hq'
        exact ⟨hqr, hq'⟩
    intro q hq
    obtain ⟨hqr, hw⟩ := hother q hq
    obtain ⟨hconsumed', hnone', honly'⟩ := hs.waiting q hw
    refine ⟨hconsumed', forall_mem_concat hnone' ?_, fun q' hq' => honly' q' (hother q' hq').2⟩
    exact decide_eq_false fun heq => hqr (honly q hw heq.symm)

omit [DecidableEq ρ] in
/-- An event that enters nothing, with one token turned. -/
theorem turn (hs : s.Linear intents calls) {k : κ} {t : CancelToken} {e : RunEvent κ ρ D}
    (hallowed : Allowed intents calls s.history e) (henters : ∀ i, enters calls i e = false)
    (hflags : Flags calls t k (s.history ++ [e]))
    (hothers : ∀ k', k' ≠ k → e ≠ .cancelled k' true ∧ publishes calls k' e = false) :
    ((s.turned k t).logged e).Linear intents calls := by
  refine ⟨hs.justified.concat hallowed, ?_, ?_, ?_⟩
  · intro k'
    change Flags calls (Function.update s.token k t k') k' (s.history ++ [e])
    by_cases hk : k' = k
    · rw [hk, Function.update_self]
      exact hflags
    · rw [Function.update_of_ne hk]
      exact (hs.flags k').logged (hothers k' hk).1 (hothers k' hk).2
  · refine forall_mem_concat hs.entered fun i hi => ?_
    rw [henters] at hi
    exact absurd hi Bool.false_ne_true
  · intro r hr
    obtain ⟨hconsumed, hnone, honly⟩ := hs.waiting r hr
    exact ⟨hconsumed, forall_mem_concat hnone (henters _), honly⟩

omit [DecidableEq ρ] in
/-- A token that is written back as it was. -/
theorem unturned (hs : s.Linear intents calls) (k : κ) :
    (s.turned k (s.token k)).Linear intents calls := by
  have hsame : s.turned k (s.token k) = s := by
    unfold turned
    rw [Function.update_eq_self]
  rwa [hsame]

omit [DecidableEq ρ] in
/-- **A publication under the lock of a token** finds no accepted cancellation. -/
theorem published (hs : s.Linear intents calls) (r : ρ) {k : κ} (hcancel : (calls r).cancel = some k)
    (hevent : (s.token k).event = false) {o : CaseObservation D} {journal : CaseJournal D}
    (happend : (intents (calls r).intent).append o = .ok journal) :
    ((s.turned k { s.token k with published := true, publishing := false }).logged
      (.published r o journal)).Linear intents calls := by
  have hnone : .cancelled k true ∉ s.history := by
    rw [← (hs.flags k).event, hevent]
    exact Bool.false_ne_true
  have hself : publishes calls k (.published r o journal) = true := decide_eq_true hcancel
  refine hs.turn ⟨happend, ?_⟩ (fun _ => rfl) ⟨?_, ?_, rfl⟩ ?_
  · intro k' hk'
    obtain rfl := Option.some.inj (hcancel.symm.trans hk')
    exact hnone
  · rw [hevent]
    refine ⟨fun h => absurd h Bool.false_ne_true, fun h => ?_⟩
    rcases List.mem_append.mp h with h | h
    · exact absurd h hnone
    · exact absurd (List.mem_singleton.mp h) nofun
  · exact ⟨fun _ => ⟨_, List.mem_append_right _ (List.mem_singleton_self _), hself⟩, fun _ => rfl⟩
  · intro k' hk'
    refine ⟨nofun, decide_eq_false fun h => hk' ?_⟩
    exact Option.some.inj (h.symm.trans hcancel)

omit [DecidableEq ρ] in
/-- A publication without a token. -/
theorem publishedFree (hs : s.Linear intents calls) (r : ρ) (hcancel : (calls r).cancel = none)
    {o : CaseObservation D} {journal : CaseJournal D}
    (happend : (intents (calls r).intent).append o = .ok journal) :
    (s.logged (.published r o journal)).Linear intents calls := by
  have hquiet : ∀ k, publishes calls k (.published r o journal) = false := by
    intro k
    refine decide_eq_false ?_
    rw [hcancel]
    nofun
  refine ⟨hs.justified.concat ⟨happend, ?_⟩, fun k => (hs.flags k).logged nofun (hquiet k), ?_, ?_⟩
  · intro k hk
    rw [hcancel] at hk
    cases hk
  · exact forall_mem_concat hs.entered fun i hi => absurd hi Bool.false_ne_true
  · intro q hq
    obtain ⟨hconsumed, hnone, honly⟩ := hs.waiting q hq
    exact ⟨hconsumed, forall_mem_concat hnone rfl, honly⟩

omit [DecidableEq ρ] in
/-- **A cancellation** is accepted where nothing is published, and refused otherwise. -/
theorem cancelled (hs : s.Linear intents calls) (k : κ) : (s.cancelStep k).Linear intents calls := by
  unfold cancelStep CancelToken.cancel
  rw [(hs.flags k).publishing, if_neg Bool.false_ne_true]
  by_cases hpublished : (s.token k).published = true
  · rw [if_pos hpublished]
    refine hs.turn ((hs.flags k).published.mp hpublished) (fun _ => rfl)
      ((hs.flags k).logged ?_ rfl) fun k' hk' => ⟨?_, rfl⟩
    · exact fun h => Bool.false_ne_true (RunEvent.cancelled.inj h).2
    · exact fun h => Bool.false_ne_true (RunEvent.cancelled.inj h).2
  · rw [if_neg hpublished]
    have hnone : ∀ x ∈ s.history, publishes calls k x = false := by
      intro x hx
      rw [Bool.eq_false_iff]
      exact fun hp => hpublished ((hs.flags k).published.mpr ⟨x, hx, hp⟩)
    refine hs.turn hnone (fun _ => rfl) ⟨?_, ?_, rfl⟩ fun k' hk' => ⟨?_, rfl⟩
    · exact ⟨fun _ => List.mem_append_right _ (List.mem_singleton_self _), fun _ => rfl⟩
    · refine ⟨fun h => absurd h hpublished, ?_⟩
      intro hall
      obtain ⟨x, hx, hp⟩ := hall
      rcases List.mem_append.mp hx with hx | hx
      · rw [hnone x hx] at hp
        exact absurd hp Bool.false_ne_true
      · rw [List.mem_singleton.mp hx] at hp
        exact absurd hp Bool.false_ne_true
    · exact fun h => hk' (RunEvent.cancelled.inj h).1.symm

/-- The checks and the claim. -/
theorem claim (hs : s.Linear intents calls) (r : ρ) :
    (s.claim intents calls r).Linear intents calls := by
  unfold ObservationRuns.claim
  dsimp only
  split_ifs with hregistry hconsumed
  · exact hs.move r nofun
  · exact hs.claimed r (Bool.eq_false_iff.mpr hconsumed)
  · exact hs.move r nofun

/-- The publication. -/
theorem publish (hs : s.Linear intents calls) (r : ρ) (f : Finding) :
    (s.publish intents calls r f).Linear intents calls := by
  have hstopped : ∀ e, (s.moved r (.stopped e)).Linear intents calls := fun e => hs.move r nofun
  have hmoved : ∀ o journal, (s.moved r (.published f o journal)).Linear intents calls :=
    fun o journal => hs.move r nofun
  unfold ObservationRuns.publish
  dsimp only
  cases (intents (calls r).intent).observe f with
  | error e => exact hstopped _
  | ok o =>
    dsimp only
    cases hcancel : (calls r).cancel with
    | none =>
      dsimp only
      cases happend : (intents (calls r).intent).append o with
      | error e => exact hstopped _
      | ok journal => exact (hmoved o journal).publishedFree r hcancel happend
    | some k =>
      dsimp only
      unfold CancelToken.publish
      by_cases hevent : (s.token k).event = true
      · rw [if_pos hevent]
        exact (hstopped _).unturned k
      · rw [if_neg hevent]
        cases happend : (intents (calls r).intent).append o with
        | error e =>
          -- the handler puts the flag back that it has set
          have hsame : { s.token k with publishing := false } = s.token k := by
            rw [← (hs.flags k).publishing]
          dsimp only
          rw [hsame]
          exact (hstopped _).unturned k
        | ok journal =>
          exact (hmoved o journal).published r hcancel (Bool.eq_false_iff.mpr hevent) happend

/-- **A block of a call** keeps the invariant. -/
theorem advance (hs : s.Linear intents calls) (r : ρ) (result : CallbackResult) :
    (s.advance intents calls r result).Linear intents calls := by
  unfold ObservationRuns.advance
  dsimp only
  cases hr : s.phase r with
  | ready => exact hs.claim r
  | claimed =>
    dsimp only
    split_ifs
    · exact hs.move r nofun
    · exact hs.move r fun _ => by rw [hr]; trivial
  | admitted => exact hs.enter r (by rw [hr]; trivial)
  | inside =>
    dsimp only
    cases (intents (calls r).intent).finding result with
    | some f => exact hs.move r nofun
    | none => exact hs.move r nofun
  | found f =>
    dsimp only
    split_ifs
    · exact hs.move r nofun
    · exact hs.move r nofun
  | measured f => exact hs.publish r f
  | published f o journal =>
    dsimp only
    cases (intents (calls r).intent).retain f o journal with
    | ok retained => exact hs.move r nofun
    | error e => exact hs.move r nofun
  | returned retained => exact hs
  | stopped e => exact hs

/-- **A step** keeps the invariant. -/
theorem step (hs : s.Linear intents calls) (a : RunAction κ ρ) :
    (s.step intents calls a).Linear intents calls := by
  cases a with
  | advance r result => exact hs.advance r result
  | cancel k => exact hs.cancelled k
  | stop r =>
    change Linear intents calls (match s.phase r with
      | .returned _ | .stopped _ => s
      | _ => s.moved r (.stopped .control))
    split
    · exact hs
    · exact hs
    · exact hs.move r nofun

/-- **Any number of steps** keep it. -/
theorem run (hs : s.Linear intents calls) (actions : List (RunAction κ ρ)) :
    (s.run intents calls actions).Linear intents calls := by
  induction actions generalizing s with
  | nil => exact hs
  | cons a actions ih => exact ih (hs.step a)

end Linear

/-! ## What a linear history says -/

section

variable {h : List (RunEvent κ ρ D)} (hh : Justified (Allowed intents calls) h)

include hh

omit [DecidableEq ρ] in
/-- An intent's callback is entered at most once. -/
theorem enters_le_one (i : ι) : h.countP (enters calls i) ≤ 1 := by
  refine hh.countP_le_one fun past e hallowed he x hx => ?_
  cases e with
  | entered r =>
    rw [← of_decide_eq_true he]
    exact hallowed x hx
  | published r o journal => exact absurd he Bool.false_ne_true
  | cancelled k answer => exact absurd he Bool.false_ne_true
  | reentrant k => exact absurd he Bool.false_ne_true

omit [DecidableEq ρ] in
/-- An accepted cancellation comes before no publication. -/
theorem unpublished_of_accepted {k : κ} {h₁ h₂ : List (RunEvent κ ρ D)}
    (heq : h = h₁ ++ .cancelled k true :: h₂) :
    (∀ x ∈ h₁, publishes calls k x = false) ∧ ∀ x ∈ h₂, publishes calls k x = false := by
  refine ⟨hh h₁ _ h₂ heq, fun x hx => ?_⟩
  obtain ⟨past, haccepted, -, hallowed⟩ := hh.later heq hx
  cases x with
  | published r o journal =>
    exact decide_eq_false fun hcancel => hallowed.2 k hcancel haccepted
  | entered r => rfl
  | cancelled k' answer => rfl
  | reentrant k' => rfl

omit [DecidableEq ρ] in
/-- A refused cancellation comes after a publication, whose append has succeeded. -/
theorem published_of_refused {k : κ} {h₁ h₂ : List (RunEvent κ ρ D)}
    (heq : h = h₁ ++ .cancelled k false :: h₂) :
    ∃ r o journal, .published r o journal ∈ h₁ ∧ (calls r).cancel = some k ∧
      (intents (calls r).intent).append o = .ok journal := by
  obtain ⟨x, hx, hp⟩ := hh h₁ _ h₂ heq
  cases x with
  | published r o journal =>
    obtain ⟨h₃, h₄, rfl⟩ := List.append_of_mem hx
    have hallowed := hh h₃ (.published r o journal) (h₄ ++ .cancelled k false :: h₂) (by simp [heq])
    exact ⟨r, o, journal, hx, of_decide_eq_true hp, hallowed.1⟩
  | entered r => exact absurd hp Bool.false_ne_true
  | cancelled k' answer => exact absurd hp Bool.false_ne_true
  | reentrant k' => exact absurd hp Bool.false_ne_true

omit [DecidableEq ρ] in
/-- An accepted cancellation is not followed by a refused one. -/
theorem accepted_of_accepted {k : κ} {h₁ h₂ : List (RunEvent κ ρ D)}
    (heq : h = h₁ ++ .cancelled k true :: h₂) : .cancelled k false ∉ h₂ := by
  intro hrefused
  obtain ⟨hbefore, hafter⟩ := unpublished_of_accepted hh heq
  obtain ⟨h₃, h₄, rfl⟩ := List.append_of_mem hrefused
  have heq' : h = (h₁ ++ .cancelled k true :: h₃) ++ .cancelled k false :: h₄ := by
    rw [heq]
    simp
  obtain ⟨r, o, journal, hmem, hcancel, -⟩ := published_of_refused hh heq'
  have hnone : publishes calls k (.published r o journal : RunEvent κ ρ D) = false := by
    rcases List.mem_append.mp hmem with hmem | hmem
    · exact hbefore _ hmem
    · rcases List.mem_cons.mp hmem with hmem | hmem
      · cases hmem
      · exact hafter _ (List.mem_append_left _ hmem)
  rw [publishes, decide_eq_false_iff_not] at hnone
  exact hnone hcancel

end

end ObservationRuns

/-! ## The result -/

section

variable {ι κ ρ : Type} [DecidableEq ι] [DecidableEq κ] [DecidableEq ρ]

open ObservationRuns

/-- **Cancellation is linearized by the publication**, over every order of the steps of any number of
calls and cancellations. -/
theorem observation_linearizes (intents : ι → PreparedObservation D) (calls : ρ → RunCall ι κ)
    (actions : List (RunAction κ ρ)) :
    let h := (start.run intents calls actions : ObservationRuns ι κ ρ D).history
    (∀ i, h.countP (enters calls i) ≤ 1) ∧
      (∀ k h₁ h₂, h = h₁ ++ .cancelled k true :: h₂ →
        (∀ x ∈ h₁, publishes calls k x = false) ∧ ∀ x ∈ h₂, publishes calls k x = false) ∧
      (∀ k h₁ h₂, h = h₁ ++ .cancelled k false :: h₂ →
        ∃ r o journal, .published r o journal ∈ h₁ ∧ (calls r).cancel = some k ∧
          (intents (calls r).intent).append o = .ok journal) ∧
      ∀ k h₁ h₂, h = h₁ ++ .cancelled k true :: h₂ → .cancelled k false ∉ h₂ := by
  have hh := ((linear_start : (start : ObservationRuns ι κ ρ D).Linear intents calls).run actions).justified
  exact ⟨enters_le_one hh, fun k h₁ h₂ heq => unpublished_of_accepted hh heq,
    fun k h₁ h₂ heq => published_of_refused hh heq, fun k h₁ h₂ heq => accepted_of_accepted hh heq⟩

/-- A `cancel()` between two blocks always gets an answer. -/
theorem cancel_answers (intents : ι → PreparedObservation D) (calls : ρ → RunCall ι κ)
    (actions : List (RunAction κ ρ)) (k : κ) :
    .reentrant k ∉ (start.run intents calls actions : ObservationRuns ι κ ρ D).history := by
  intro hmem
  have hh := ((linear_start : (start : ObservationRuns ι κ ρ D).Linear intents calls).run actions).justified
  obtain ⟨h₁, h₂, heq⟩ := List.append_of_mem hmem
  exact hh h₁ _ h₂ heq

/-- The registry still selects the adapter of an intent. -/
theorem PreparedObservation.select_eq (p : PreparedObservation D) :
    p.registry.select p.plan p.authority = .ok p.adapter := by
  have h := p.preflight
  simp only [prepareObservation, p.planned, bind_eq_ok, valid_eq_ok, exists_unit,
    Except.ok.injEq] at h
  obtain ⟨_, -, -, _, rfl, -, -, -, -, hselect⟩ := h
  exact hselect

/-- A call that is alone, and whose observation the journal takes, publishes it. A cancellation that
comes afterwards is refused. -/
theorem publishes_alone (intents : ι → PreparedObservation D) (calls : ρ → RunCall ι κ) (r : ρ)
    (k : κ) (hregistry : (calls r).sameRegistry = true) (hcancel : (calls r).cancel = some k)
    {result : CallbackResult} {f : Finding} {o : CaseObservation D} {journal : CaseJournal D}
    (hf : (intents (calls r).intent).finding result = some f)
    (ho : (intents (calls r).intent).observe f = .ok o)
    (happend : (intents (calls r).intent).append o = .ok journal) :
    (start.run intents calls (List.replicate 6 (RunAction.advance r result) ++ [RunAction.cancel k]) :
      ObservationRuns ι κ ρ D).history =
        [.entered r, .published r o journal, .cancelled k false] := by
  simp [ObservationRuns.run, ObservationRuns.step, ObservationRuns.advance, ObservationRuns.claim,
    ObservationRuns.publish, ObservationRuns.cancelStep, moved, logged, turned, isCancelled, start,
    CancelToken.publish, CancelToken.cancel, CancelToken.fresh, PreparedObservation.select_eq,
    hregistry, hcancel, hf, ho, happend, List.replicate]

end

end EvidenceBraid
