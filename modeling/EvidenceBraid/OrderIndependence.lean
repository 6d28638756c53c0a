import EvidenceBraid.Decision

/-!
# Evaluation does not depend on order

Every list that evaluation folds is sorted first, by identifiers that are distinct
(`weightEvents_perm`, `adjustReliabilities_perm`). So permuted inputs are accepted alike, with equal
results (`evaluate_perm`).
-/

namespace EvidenceBraid

open Arithmetic

variable {N : Type} [Arithmetic N]

/-! ## Weighting -/

theorem weightEvent_event {exp2 : N → N} {event : EvidenceEvent} {policy : Policy} {asOf : Datetime}
    {reliability : Option N} {w : WeightedEvent N}
    (h : weightEvent exp2 event policy asOf reliability = .ok w) : w.event = event := by
  simp only [weightEvent, WeightedEvent.make, bind_eq_ok, Except.ok.injEq] at h
  obtain ⟨_, -, _, -, _, -, h⟩ := h
  obtain ⟨_, -, _, -, rfl⟩ := h
  rfl

/-- Events with distinct identifiers are weighted to the same sorted list in any order. -/
theorem weightEvents_perm {exp2 : N → N} {events events' : List EvidenceEvent} {policy : Policy}
    {asOf : Datetime} {reliabilities : Text → Option N} {weighted : List (WeightedEvent N)}
    (hperm : events'.Perm events) (hdistinct : (events.map (·.eventId)).Nodup)
    (h : weightEvents exp2 events policy asOf reliabilities = .ok weighted) :
    weightEvents exp2 events' policy asOf reliabilities = .ok weighted := by
  simp only [weightEvents, bind_eq_ok, Except.ok.injEq] at h ⊢
  obtain ⟨unsorted, hunsorted, rfl⟩ := h
  obtain ⟨unsorted', hunsorted', hperm'⟩ := List.mapM_perm hperm hunsorted
  have hids : unsorted.map WeightedEvent.eventId = events.map (·.eventId) :=
    List.mapM_map_eq hunsorted fun _ _ hw => congrArg EvidenceEvent.eventId (weightEvent_event hw)
  refine ⟨unsorted', hunsorted', (List.sortOn_eq_of_perm hperm'.symm ?_).symm⟩
  exact hids ▸ hdistinct

theorem evaluateClaim_perm {exp2 : N → N} {claim : Text} {rule : ClaimRule}
    {events events' : List EvidenceEvent} {policy : Policy} {asOf : Datetime}
    {reliabilities : Text → Option N} {d : ClaimDecision N} (hperm : events'.Perm events)
    (hdistinct : (events.map (·.eventId)).Nodup)
    (h : evaluateClaim exp2 claim rule events policy asOf reliabilities = .ok d) :
    evaluateClaim exp2 claim rule events' policy asOf reliabilities = .ok d := by
  rw [evaluateClaim, bind_eq_ok] at h ⊢
  obtain ⟨weighted, hweighted, hrest⟩ := h
  exact ⟨weighted, weightEvents_perm hperm hdistinct hweighted, hrest⟩

/-! ## Reliability -/

theorem verdictIds_perm {adjudications adjudications' : List Adjudication}
    (hperm : adjudications'.Perm adjudications) (source : Text) (verdict : Verdict) :
    (verdictIds adjudications' source verdict).Perm (verdictIds adjudications source verdict) :=
  (hperm.filter _).map _

/-- A source's record depends only on which adjudications there are. -/
theorem adjustSource_perm (policy : Policy) (rule : ReliabilityUpdatePolicy)
    {adjudications adjudications' : List Adjudication} (hperm : adjudications'.Perm adjudications)
    (source : Text) : (adjustSource policy rule adjudications' source : Result (ReliabilityAdjustment N)) =
      adjustSource policy rule adjudications source := by
  have hids : ∀ verdict, (verdictIds adjudications' source verdict).sortOn id =
      (verdictIds adjudications source verdict).sortOn id := fun verdict =>
    List.sortOn_id_eq_of_perm (verdictIds_perm hperm source verdict)
  rw [adjustSource, adjustSource, hids, hids]

theorem adjustReliabilities_perm (policy : Policy) {adjudications adjudications' : List Adjudication}
    (hperm : adjudications'.Perm adjudications) :
    (adjustReliabilities policy adjudications' : Result (List (ReliabilityAdjustment N))) =
      adjustReliabilities policy adjudications := by
  have hsources : List.sortedSet (adjudications'.map (·.source)) =
      List.sortedSet (adjudications.map (·.source)) :=
    List.sortedSet_congr fun _ => (hperm.map _).mem_iff
  unfold adjustReliabilities
  split
  · rfl
  · rw [hsources]
    exact List.mapM_congr_mem fun source _ => adjustSource_perm policy _ hperm source

/-! ## Results -/

theorem visibleOf_perm {events events' : List EvidenceEvent} (hperm : events'.Perm events)
    (asOf : Datetime) (claim : Text) :
    (visibleOf events' asOf claim).Perm (visibleOf events asOf claim) :=
  (hperm.filter _).filter _

theorem visibleOf_sublist (events : List EvidenceEvent) (asOf : Datetime) (claim : Text) :
    (visibleOf events asOf claim).Sublist events :=
  List.filter_sublist.trans List.filter_sublist

/-- What evaluation returns, it returns for permuted inputs. -/
theorem evaluate_of_perm {exp2 : N → N} {policy : Policy} {asOf : Datetime}
    {events events' : List EvidenceEvent} {adjudications adjudications' : List Adjudication}
    (hevents : events'.Perm events) (hadjudications : adjudications'.Perm adjudications)
    {r : EvaluationResult N} (h : evaluate exp2 policy events asOf adjudications = .ok r) :
    evaluate exp2 policy events' asOf adjudications' = .ok r := by
  rw [evaluate_eq_ok] at h ⊢
  obtain ⟨hvalid, hjudged, adjustments, decisions, updates, hadjust, hdecisions, hupdates, hmake⟩ := h
  refine ⟨hvalid.perm hevents, hjudged.perm hevents hadjudications, adjustments, decisions, updates,
    ?_, ?_, hupdates, ?_⟩
  · rw [← hadjust]
    exact adjustReliabilities_perm policy (hadjudications.filter _)
  · -- each claim sees a permutation of its events
    rw [List.mapM_eq_ok] at hdecisions ⊢
    apply hdecisions.imp
    intro kv d hd
    apply evaluateClaim_perm (visibleOf_perm hevents asOf kv.1) _ hd
    exact (hvalid.sublist (visibleOf_sublist events asOf kv.1)).distinct
  · have hpending : ((events'.filter fun e => asOf < e.ingestedAt).map (·.eventId)).sortOn id =
        ((events.filter fun e => asOf < e.ingestedAt).map (·.eventId)).sortOn id :=
      List.sortOn_id_eq_of_perm ((hevents.filter _).map _)
    rw [hevents.length_eq, (hevents.filter _).length_eq, hpending]
    exact hmake

theorem evaluate_perm_iff {exp2 : N → N} {policy : Policy} {asOf : Datetime}
    {events events' : List EvidenceEvent} {adjudications adjudications' : List Adjudication}
    (hevents : events'.Perm events) (hadjudications : adjudications'.Perm adjudications)
    (r : EvaluationResult N) : evaluate exp2 policy events' asOf adjudications' = .ok r ↔
      evaluate exp2 policy events asOf adjudications = .ok r :=
  ⟨evaluate_of_perm hevents.symm hadjudications.symm, evaluate_of_perm hevents hadjudications⟩

/-- **Evaluation does not depend on order.** Permuted inputs are accepted exactly when the original
ones are, and then the results are equal, with equal digests. -/
theorem evaluate_perm (D : Type) [Hashing D] {exp2 : N → N} {policy : Policy} {asOf : Datetime}
    {events events' : List EvidenceEvent} {adjudications adjudications' : List Adjudication}
    (hevents : events'.Perm events) (hadjudications : adjudications'.Perm adjudications) :
    (∀ r, evaluate exp2 policy events' asOf adjudications' = .ok r ↔
      evaluate exp2 policy events asOf adjudications = .ok r) ∧
    ∀ r r', evaluate exp2 policy events asOf adjudications = .ok r →
      evaluate exp2 policy events' asOf adjudications' = .ok r' →
      r' = r ∧ r'.digest D = r.digest D := by
  have hiff : ∀ r, evaluate exp2 policy events' asOf adjudications' = .ok r ↔
      evaluate exp2 policy events asOf adjudications = .ok r :=
    evaluate_perm_iff hevents hadjudications
  refine ⟨hiff, fun r r' h h' => ?_⟩
  obtain rfl : r' = r := Except.ok.inj (((hiff r').mp h').symm.trans h)
  exact ⟨rfl, rfl⟩

/-- The balanced claim is escalated whichever observation comes first. -/
theorem evaluate_perm_balanced :
    (∀ r, evaluate integerPower balancedPolicy balancedEvents.reverse ⟨0, by decide⟩ [] = .ok r ↔
      evaluate integerPower balancedPolicy balancedEvents ⟨0, by decide⟩ [] = .ok r) ∧
    ∀ r r', evaluate integerPower balancedPolicy balancedEvents ⟨0, by decide⟩ [] = .ok r →
      evaluate integerPower balancedPolicy balancedEvents.reverse ⟨0, by decide⟩ [] = .ok r' →
      r' = r ∧ r'.digest HexDigest = r.digest HexDigest :=
  evaluate_perm HexDigest (List.reverse_perm balancedEvents) (List.Perm.refl [])

end EvidenceBraid
