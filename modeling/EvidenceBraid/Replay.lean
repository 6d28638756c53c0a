import EvidenceBraid.OrderIndependence

/-!
# Replay

`replay.py`: a stream is evaluated at each time at which an event was ingested or a judgement was
made, over what was known then. What arrives later changes none of the earlier snapshots
(`replay_prefix_stable`): at each of its boundaries both streams hold the same items.
-/

namespace EvidenceBraid

open Arithmetic

variable {N : Type} [Arithmetic N]

/-- `ordered`. -/
def orderedEvents (events : List EvidenceEvent) : List EvidenceEvent :=
  events.sortOn fun event => toLex (event.ingestedAt, event.eventId)

/-- `adjudged`. -/
def orderedAdjudications (adjudications : List Adjudication) : List Adjudication :=
  adjudications.sortOn fun item => toLex (item.adjudicatedAt, item.eventId)

/-- `timestamps`. -/
def boundaries (events : List EvidenceEvent) (adjudications : List Adjudication) : List Datetime :=
  List.sortedSet (events.map (·.ingestedAt) ++ adjudications.map (·.adjudicatedAt))

/-- The snapshot of a stream at one time. -/
def snapshot (exp2 : N → N) (policy : Policy) (events : List EvidenceEvent)
    (adjudications : List Adjudication) (asOf : Datetime) : Result (EvaluationResult N) :=
  evaluate exp2 policy (events.filter fun event => event.ingestedAt ≤ asOf) asOf
    (adjudications.filter fun item => item.adjudicatedAt ≤ asOf)

/-- `replay`. -/
def replay (exp2 : N → N) (policy : Policy) (events : List EvidenceEvent)
    (adjudications : List Adjudication) : Result (List (EvaluationResult N)) := do
  let events ← validateEventSet N policy events
  let ordered := orderedEvents events
  let items ← validateAdjudicationSet policy ordered adjudications
  let adjudged := orderedAdjudications items
  (boundaries ordered adjudged).mapM (snapshot exp2 policy ordered adjudged)

/-! ## Snapshots -/

theorem orderedEvents_perm (events : List EvidenceEvent) : (orderedEvents events).Perm events :=
  List.sortOn_perm _ _

theorem orderedAdjudications_perm (adjudications : List Adjudication) :
    (orderedAdjudications adjudications).Perm adjudications := List.sortOn_perm _ _

theorem snapshot_perm {exp2 : N → N} {policy : Policy} {events events' : List EvidenceEvent}
    {adjudications adjudications' : List Adjudication} {asOf : Datetime} (r : EvaluationResult N)
    (hevents : (events'.filter fun event => event.ingestedAt ≤ asOf).Perm
      (events.filter fun event => event.ingestedAt ≤ asOf))
    (hadjudications : (adjudications'.filter fun item => item.adjudicatedAt ≤ asOf).Perm
      (adjudications.filter fun item => item.adjudicatedAt ≤ asOf)) :
    snapshot exp2 policy events' adjudications' asOf = .ok r ↔
      snapshot exp2 policy events adjudications asOf = .ok r :=
  evaluate_perm_iff hevents hadjudications r

theorem evaluatedAt_of_snapshot {exp2 : N → N} {policy : Policy} {events : List EvidenceEvent}
    {adjudications : List Adjudication} {asOf : Datetime} {r : EvaluationResult N}
    (h : snapshot exp2 policy events adjudications asOf = .ok r) : r.evaluatedAt = asOf := by
  obtain ⟨-, -, _, _, _, -, -, -, hmake⟩ := evaluate_eq_ok.mp h
  exact (EvaluationResult.of_make hmake).2.1

/-- **What replay returns**: one snapshot for each boundary, in their order. -/
theorem replay_eq_ok {exp2 : N → N} {policy : Policy} {events : List EvidenceEvent}
    {adjudications : List Adjudication} {rs : List (EvaluationResult N)} :
    replay exp2 policy events adjudications = .ok rs ↔
      ValidEvents N policy events ∧ ValidAdjudications policy events adjudications ∧
      (boundaries events adjudications).mapM (snapshot exp2 policy events adjudications) = .ok rs := by
  have hordered := orderedEvents_perm events
  have hadjudged := orderedAdjudications_perm adjudications
  have htimes : boundaries (orderedEvents events) (orderedAdjudications adjudications) =
      boundaries events adjudications := by
    apply List.sortedSet_congr
    intro time
    rw [List.mem_append, List.mem_append, (hordered.map _).mem_iff, (hadjudged.map _).mem_iff]
  have hloop : (boundaries events adjudications).mapM (snapshot exp2 policy (orderedEvents events)
      (orderedAdjudications adjudications)) = .ok rs ↔
      (boundaries events adjudications).mapM (snapshot exp2 policy events adjudications) = .ok rs := by
    rw [List.mapM_eq_ok, List.mapM_eq_ok]
    have hsnapshot : ∀ time r, snapshot exp2 policy (orderedEvents events)
        (orderedAdjudications adjudications) time = .ok r ↔
        snapshot exp2 policy events adjudications time = .ok r := fun time r =>
      snapshot_perm r (hordered.filter _) (hadjudged.filter _)
    exact ⟨fun h => h.imp fun time r => (hsnapshot time r).mp,
      fun h => h.imp fun time r => (hsnapshot time r).mpr⟩
  simp only [replay, bind_eq_ok, validateEventSet_eq_ok]
  constructor
  · rintro ⟨_, ⟨hvalid, rfl⟩, items, hitems, h⟩
    have hdistinct := (hvalid.perm hordered).distinct
    obtain ⟨hjudged, rfl⟩ := (validateAdjudicationSet_eq_ok hdistinct).mp hitems
    rw [htimes, hloop] at h
    exact ⟨hvalid, hjudged.perm hordered.symm (List.Perm.refl _), h⟩
  · rintro ⟨hvalid, hjudged, h⟩
    have hdistinct := (hvalid.perm hordered).distinct
    refine ⟨_, ⟨hvalid, rfl⟩, _, (validateAdjudicationSet_eq_ok hdistinct).mpr
      ⟨hjudged.perm hordered (List.Perm.refl _), rfl⟩, ?_⟩
    rw [htimes, hloop]
    exact h

/-! ## Later items -/

/-- Of an extended list, what is not later is what it was. -/
theorem filter_extension {α : Type} {time : α → Datetime} {t asOf : Datetime} {items later all : List α}
    (hall : all.Perm (items ++ later)) (hlater : ∀ x ∈ later, t < time x) (hasOf : asOf ≤ t) :
    (all.filter fun x => time x ≤ asOf).Perm (items.filter fun x => time x ≤ asOf) := by
  have hnone : (later.filter fun x => time x ≤ asOf) = [] := by
    rw [List.filter_eq_nil_iff]
    intro x hx
    simpa using hasOf.trans_lt (hlater x hx)
  have hfilter := hall.filter fun x => time x ≤ asOf
  rwa [List.filter_append, hnone, List.append_nil] at hfilter

/-- The boundaries up to `t` are those of the items that are not later. -/
theorem boundaries_extension {events events' all : List EvidenceEvent}
    {adjudications adjudications' allAdjudications : List Adjudication} {t : Datetime}
    (hall : all.Perm (events ++ events')) (hevents : ∀ e ∈ events', t < e.ingestedAt)
    (hallAdjudications : allAdjudications.Perm (adjudications ++ adjudications'))
    (hadjudications : ∀ a ∈ adjudications', t < a.adjudicatedAt) :
    (boundaries all allAdjudications).filter (· ≤ t) =
      (boundaries events adjudications).filter (· ≤ t) := by
  have hup : ∀ {α : Type} (time : α → Datetime) (xs : List α),
      (xs.map time).filter (· ≤ t) = (xs.filter fun x => time x ≤ t).map time := fun time xs =>
    List.filter_map
  rw [boundaries, boundaries, List.filter_sortedSet, List.filter_sortedSet]
  apply List.sortedSet_congr
  intro time
  rw [List.filter_append, List.filter_append, List.mem_append, List.mem_append, hup, hup, hup, hup,
    ((filter_extension hall hevents le_rfl).map _).mem_iff,
    ((filter_extension hallAdjudications hadjudications le_rfl).map _).mem_iff]

/-- The snapshots of a replay up to `t`. -/
def snapshotsUpTo (t : Datetime) (rs : List (EvaluationResult N)) : List (EvaluationResult N) :=
  rs.filter fun r => r.evaluatedAt ≤ t

theorem mapM_snapshotsUpTo {exp2 : N → N} {policy : Policy} {events : List EvidenceEvent}
    {adjudications : List Adjudication} {times : List Datetime} {rs : List (EvaluationResult N)}
    (h : times.mapM (snapshot exp2 policy events adjudications) = .ok rs) (t : Datetime) :
    (times.filter (· ≤ t)).mapM (snapshot exp2 policy events adjudications) =
      .ok (snapshotsUpTo t rs) :=
  List.mapM_filter h fun _ r hr => by rw [evaluatedAt_of_snapshot hr]

/-- **Replay is stable under extension.** When a stream is extended by events that are ingested and
judgements that are made after `t`, its snapshots up to `t` stay as they are, with their digests. -/
theorem replay_prefix_stable (D : Type) [Hashing D] {exp2 : N → N} {policy : Policy} {t : Datetime}
    {events events' all : List EvidenceEvent}
    {adjudications adjudications' allAdjudications : List Adjudication}
    (hall : all.Perm (events ++ events')) (hevents : ∀ e ∈ events', t < e.ingestedAt)
    (hallAdjudications : allAdjudications.Perm (adjudications ++ adjudications'))
    (hadjudications : ∀ a ∈ adjudications', t < a.adjudicatedAt)
    {rs rs' : List (EvaluationResult N)} (h : replay exp2 policy events adjudications = .ok rs)
    (h' : replay exp2 policy all allAdjudications = .ok rs') :
    snapshotsUpTo t rs' = snapshotsUpTo t rs ∧
      (snapshotsUpTo t rs').map (EvaluationResult.digest D) =
        (snapshotsUpTo t rs).map (EvaluationResult.digest D) := by
  obtain ⟨-, -, hloop⟩ := replay_eq_ok.mp h
  obtain ⟨-, -, hloop'⟩ := replay_eq_ok.mp h'
  have hshort := mapM_snapshotsUpTo hloop t
  have hlong := mapM_snapshotsUpTo hloop' t
  rw [boundaries_extension hall hevents hallAdjudications hadjudications] at hlong
  have hsame : snapshotsUpTo t rs' = snapshotsUpTo t rs := by
    -- both loops run over the same boundaries, and none of them sees a later item
    have hlong' := List.mapM_imp hlong fun time htime r =>
      have hle : time ≤ t := by simpa using (List.mem_filter.mp htime).2
      (snapshot_perm r (filter_extension hall hevents hle)
        (filter_extension hallAdjudications hadjudications hle)).mp
    exact Except.ok.inj (hlong'.symm.trans hshort)
  exact ⟨hsame, by rw [hsame]⟩

/-- The supporting observations of the balanced claim come first. -/
def earlyEvents : List EvidenceEvent := balancedEvents.take 2

/-- A contradiction that arrives a microsecond later. -/
def lateEvents : List EvidenceEvent :=
  [{ observation (.literal "d") .contradict threeQuarters with
      ingestedAt := ⟨1, by decide⟩ }]

theorem exists_replay_early : ∃ rs : List (EvaluationResult ℚ),
    replay integerPower balancedPolicy earlyEvents [] = .ok rs :=
  exists_ok_of_isSome (by decide +kernel)

theorem exists_replay_late : ∃ rs : List (EvaluationResult ℚ),
    replay integerPower balancedPolicy (lateEvents ++ earlyEvents) [] = .ok rs :=
  exists_ok_of_isSome (by decide +kernel)

/-- The snapshot of the early observations stays when the contradiction arrives. -/
theorem replay_prefix_stable_late : ∃ rs rs' : List (EvaluationResult ℚ),
    replay integerPower balancedPolicy earlyEvents [] = .ok rs ∧
      replay integerPower balancedPolicy (lateEvents ++ earlyEvents) [] = .ok rs' ∧
      snapshotsUpTo ⟨0, by decide⟩ rs' = snapshotsUpTo ⟨0, by decide⟩ rs ∧
      (snapshotsUpTo ⟨0, by decide⟩ rs').map (EvaluationResult.digest HexDigest) =
        (snapshotsUpTo ⟨0, by decide⟩ rs).map (EvaluationResult.digest HexDigest) := by
  obtain ⟨rs, h⟩ := exists_replay_early
  obtain ⟨rs', h'⟩ := exists_replay_late
  have hlate : ∀ e ∈ lateEvents, (⟨0, by decide⟩ : Datetime) < e.ingestedAt := by decide
  exact ⟨rs, rs', h, h', replay_prefix_stable HexDigest List.perm_append_comm hlate
    (List.Perm.refl []) (fun _ ha => absurd ha List.not_mem_nil) h h'⟩

end EvidenceBraid
