import EvidenceBraid.Robustness
import EvidenceBraid.Totality
import Mathlib.Data.List.ReduceOption

/-!
# Robustness is exact and local

**Theorem (`robustness_exact`).** With at most `max_events` visible events and no more claims than a
report may hold, `robustness` returns a report. Its impacts are exactly the visible events and claims
such that leaving the event out changes the outcome of the claim. Leaving out an event without an
adjudication changes the decision of its own claim only.

A policy may have more claims than a report: then there is no report (`crowded_unreported`).

**Idea.** Leaving out keeps a subset of the events and of the adjudications, which the validations
accept again, so every evaluation returns (`exists_evaluate`). A decision is computed from the visible
events of its claim and from the reliabilities, and the reliabilities from the adjudications.
-/

/-- Results that some rounds have, in the order of the rounds. -/
theorem List.reduceOption_map_sublist {α β κ : Type} {f : α → κ} {g : β → κ} {xs : List α}
    {os : List (Option β)} (h : Forall₂ (fun x o => ∀ y, o = some y → g y = f x) xs os) :
    (os.reduceOption.map g).Sublist (xs.map f) := by
  induction h with
  | nil => exact .slnil
  | @cons x o _ _ ho _ ih =>
    cases o with
    | none => exact ih.cons _
    | some y =>
      rw [reduceOption_cons_of_some, map_cons, map_cons, ho y rfl]
      exact ih.cons_cons _

namespace EvidenceBraid

open Arithmetic

variable {N : Type} [Arithmetic N]

/-! ## Leaving out keeps inputs valid -/

theorem withoutEvent_sublist (events : List EvidenceEvent) (id : Text) :
    (withoutEvent events id).Sublist events := List.filter_sublist

theorem withoutAdjudication_sublist (adjudications : List Adjudication) (id : Text) :
    (withoutAdjudication adjudications id).Sublist adjudications := List.filter_sublist

theorem mem_visibleEvents {events : List EvidenceEvent} {asOf : Datetime} {e : EvidenceEvent} :
    e ∈ visibleEvents events asOf ↔ e ∈ events ∧ e.ingestedAt ≤ asOf := by
  simp [visibleEvents]

theorem visibleEvents_nodup {events : List EvidenceEvent} (h : (events.map (·.eventId)).Nodup)
    (asOf : Datetime) : ((visibleEvents events asOf).map (·.eventId)).Nodup :=
  ((List.sortOn_perm _ _).map _).nodup_iff.mpr (h.sublist (List.filter_sublist.map _))

/-! ## What a result holds -/

theorem exists_text {s : String} (hxml : isXmlCharacter s = true) (hne : strip s ≠ "")
    (htrimmed : strip s = s) (path : String) : ∃ t, text s path = .ok t ∧ t.value = s := by
  refine ⟨⟨strip s, hne, strip_strip s, isXmlCharacter_strip hxml⟩, ?_, htrimmed⟩
  rw [text, dif_pos hxml, dif_pos hne]

/-- The reasons of outcomes. -/
def outcomeReasons : List String :=
  ["conflicting_thresholds", "support_threshold_and_independence_gates_met",
    "contradiction_threshold_and_independence_gates_met", "support_score_met_but_independence_gate_failed",
    "contradiction_score_met_but_independence_gate_failed", "evidence_margin_too_small",
    "decision_threshold_not_met"]

/-- A word passes the check of a text. -/
theorem word_checks {c : Char} {cs : List Char}
    (h : ((c :: cs).all isXmlChar && (c :: cs).all (!isWhitespace ·)) = true) :
    isXmlCharacter (String.ofList (c :: cs)) = true ∧ strip (String.ofList (c :: cs)) ≠ "" ∧
      strip (String.ofList (c :: cs)) = String.ofList (c :: cs) := by
  rw [Bool.and_eq_true] at h
  rw [strip_ofList h.2]
  refine ⟨xml_ofList h.1, ?_, rfl⟩
  rw [ne_eq, ← String.toList_eq_nil_iff, String.toList_ofList]
  exact List.cons_ne_nil c cs

theorem reason_checks : ∀ reason ∈ outcomeReasons,
    isXmlCharacter reason = true ∧ strip reason ≠ "" ∧ strip reason = reason := by
  simp only [outcomeReasons, List.forall_mem_cons, List.not_mem_nil, false_implies, implies_true,
    and_true]
  exact ⟨word_checks rfl, word_checks rfl, word_checks rfl, word_checks rfl, word_checks rfl,
    word_checks rfl, word_checks rfl⟩

theorem ite_mem {c : Prop} [Decidable c] {a b : Outcome × String} {reasons : List String}
    (ha : a.2 ∈ reasons) (hb : b.2 ∈ reasons) : (if c then a else b).2 ∈ reasons := by
  split <;> assumption

theorem reason_mem (support contradict : SignalSummary N) (rule : ClaimRule) :
    (chooseOutcome support contradict rule).2 ∈ outcomeReasons := by
  rw [chooseOutcome]
  refine ite_mem (.head _) (ite_mem (.tail _ (.head _)) (ite_mem (.tail _ (.tail _ (.head _))) ?_))
  refine ite_mem (.tail _ (.tail _ (.tail _ (.head _))))
    (ite_mem (.tail _ (.tail _ (.tail _ (.tail _ (.head _))))) ?_)
  exact ite_mem (.tail _ (.tail _ (.tail _ (.tail _ (.tail _ (.head _))))))
    (.tail _ (.tail _ (.tail _ (.tail _ (.tail _ (.tail _ (.head _)))))))

/-- The reasons of outcomes are checked text. -/
theorem text_reason (support contradict : SignalSummary N) (rule : ClaimRule) (path : String) :
    ∃ t, text (chooseOutcome support contradict rule).2 path = .ok t ∧
      t.value = (chooseOutcome support contradict rule).2 := by
  obtain ⟨hxml, hne, htrimmed⟩ := reason_checks _ (reason_mem support contradict rule)
  exact exists_text hxml hne htrimmed path

/-- What an impact needs of a decision. -/
structure ClaimDecision.Reportable (d : ClaimDecision N) : Prop where
  margin : -1 ≤ d.margin ∧ d.margin ≤ 1
  reason : ∀ path, ∃ t, text d.reason path = .ok t ∧ t.value = d.reason

theorem reportable_of_evaluateClaim {exp2 : N → N} {claim : Text} {rule : ClaimRule}
    {events : List EvidenceEvent} {policy : Policy} {asOf : Datetime} {reliabilities : Text → Option N}
    {d : ClaimDecision N} (h : evaluateClaim exp2 claim rule events policy asOf reliabilities = .ok d) :
    d.Reportable := by
  simp only [evaluateClaim, ClaimDecision.make, checkSigned, bind_eq_ok, valid_eq_ok, exists_unit,
    Except.ok.injEq] at h
  obtain ⟨_, -, _, -, summaries, -, _, -, _, h⟩ := h
  obtain ⟨-, -, -, hmargin, -, -, -, rfl⟩ := h
  exact ⟨hmargin, text_reason summaries.1 summaries.2 rule⟩

section Result

variable {exp2 : N → N} {policy : Policy} {events : List EvidenceEvent} {asOf : Datetime}
  {adjudications : List Adjudication} {r : EvaluationResult N}
  (h : evaluate exp2 policy events asOf adjudications = .ok r)
include h

theorem reportable_of_mem {d : ClaimDecision N} (hd : d ∈ r.decisions) : d.Reportable := by
  obtain ⟨rule, adjustments, -, -, hclaim⟩ := exists_evaluateClaim h hd
  exact reportable_of_evaluateClaim hclaim

/-- The decisions are those of the configured claims, in order. -/
theorem decisions_of_evaluate : ∃ adjustments : List (ReliabilityAdjustment N),
    adjustReliabilities policy (knowable adjudications asOf) = .ok adjustments ∧
    ((policy.claims.items.sortOn Prod.fst).mapM fun kv => evaluateClaim exp2 kv.1 kv.2
      (visibleOf events asOf kv.1) policy asOf (reliabilityOf adjustments)) = .ok r.decisions := by
  obtain ⟨-, -, adjustments, decisions, updates, hadjust, hdecisions, -, hmake⟩ := evaluate_eq_ok.mp h
  obtain ⟨-, -, hsorted⟩ := EvaluationResult.of_make hmake
  have hclaims : decisions.map ClaimDecision.claim = (policy.claims.items.sortOn Prod.fst).map Prod.fst :=
    List.mapM_map_eq hdecisions fun _ _ hd => claim_of_evaluateClaim hd
  have hpairwise : decisions.Pairwise fun a b => a.claim ≤ b.claim := by
    rw [← List.pairwise_map, hclaims, List.pairwise_map]
    exact List.pairwise_sortOn _ _
  have hkept : r.decisions = decisions := hsorted.trans (List.sortOn_of_pairwise hpairwise)
  exact ⟨adjustments, hadjust, hkept ▸ hdecisions⟩

theorem claims_of_evaluate :
    r.decisions.map ClaimDecision.claim = (policy.claims.items.sortOn Prod.fst).map Prod.fst := by
  obtain ⟨adjustments, -, hdecisions⟩ := decisions_of_evaluate h
  exact List.mapM_map_eq hdecisions fun _ _ hd => claim_of_evaluateClaim hd

theorem claims_nodup : (r.decisions.map ClaimDecision.claim).Nodup := by
  rw [claims_of_evaluate h]
  exact ((List.sortOn_perm _ _).map _).nodup_iff.mpr policy.claims.nodup

theorem counts_of_evaluate : r.inputEventCount = events.length ∧
    r.consideredEventCount = (events.filter fun e => e.ingestedAt ≤ asOf).length := by
  obtain ⟨-, -, adjustments, decisions, updates, -, -, -, hmake⟩ := evaluate_eq_ok.mp h
  simp only [EvaluationResult.make, bind_eq_ok, valid_eq_ok, exists_unit, Except.ok.injEq] at hmake
  obtain ⟨-, pending, -, -, -, -, -, rfl⟩ := hmake
  exact ⟨rfl, rfl⟩

end Result

/-! ## The outcome of a claim -/

/-- The outcome of a claim, if evaluation returns one. -/
def claimOutcome (exp2 : N → N) (policy : Policy) (events : List EvidenceEvent) (asOf : Datetime)
    (adjudications : List Adjudication) (claim : Text) : Option Outcome :=
  match evaluate exp2 policy events asOf adjudications with
  | .ok r => (r.decisions.find? fun d => d.claim = claim).map (·.outcome)
  | .error _ => none

omit [Arithmetic N] in
theorem find?_claim {decisions : List (ClaimDecision N)}
    (hnodup : (decisions.map ClaimDecision.claim).Nodup) {d : ClaimDecision N} (hd : d ∈ decisions) :
    (decisions.find? fun d' => d'.claim = d.claim) = some d := by
  rcases hfind : decisions.find? fun d' => d'.claim = d.claim with _ | found
  · exact absurd (List.find?_eq_none.mp hfind d hd) (by simp)
  · have hclaim : found.claim = d.claim := by simpa using List.find?_some hfind
    rw [hfind, List.inj_on_of_nodup_map hnodup (List.mem_of_find?_eq_some hfind) hd hclaim]

/-- Two results of the same claims differ in a claim's outcome. -/
theorem claimOutcome_ne_iff {exp2 : N → N} {policy : Policy} {events events' : List EvidenceEvent}
    {asOf : Datetime} {adjudications adjudications' : List Adjudication} {r r' : EvaluationResult N}
    (h : evaluate exp2 policy events asOf adjudications = .ok r)
    (h' : evaluate exp2 policy events' asOf adjudications' = .ok r') {claim : Text} :
    claimOutcome exp2 policy events' asOf adjudications' claim ≠
        claimOutcome exp2 policy events asOf adjudications claim ↔
      ∃ d ∈ r.decisions, ∃ d' ∈ r'.decisions, d.claim = claim ∧ d'.claim = d.claim ∧
        d'.outcome ≠ d.outcome := by
  have hsame : ∀ c, c ∈ r'.decisions.map ClaimDecision.claim ↔ c ∈ r.decisions.map ClaimDecision.claim :=
    fun c => by rw [claims_of_evaluate h, claims_of_evaluate h']
  have hread : ∀ {events : List EvidenceEvent} {adjudications : List Adjudication}
      {r : EvaluationResult N} {d : ClaimDecision N},
      evaluate exp2 policy events asOf adjudications = .ok r → d ∈ r.decisions →
      claimOutcome exp2 policy events asOf adjudications d.claim = some d.outcome := fun h hd => by
    simp only [claimOutcome, h, find?_claim (claims_nodup h) hd, Option.map_some]
  constructor
  · intro hne
    by_cases hclaim : claim ∈ r.decisions.map ClaimDecision.claim
    · obtain ⟨d, hd, rfl⟩ := List.mem_map.mp hclaim
      obtain ⟨d', hd', hd'claim⟩ := List.mem_map.mp ((hsame _).mpr hclaim)
      refine ⟨d, hd, d', hd', rfl, hd'claim, fun heq => hne ?_⟩
      rw [hread h hd, ← hd'claim, hread h' hd', heq]
    · have hnone : ∀ {r : EvaluationResult N}, claim ∉ r.decisions.map ClaimDecision.claim →
          (r.decisions.find? fun d => d.claim = claim) = none := fun hnot => by
        rw [List.find?_eq_none]
        intro d hd hdclaim
        exact hnot (List.mem_map.mpr ⟨d, hd, by simpa using hdclaim⟩)
      refine absurd ?_ hne
      simp only [claimOutcome, h, h', hnone hclaim, hnone fun hmem => hclaim ((hsame _).mp hmem)]
  · rintro ⟨d, hd, d', hd', rfl, hclaim, hne⟩ heq
    rw [hread h hd, ← hclaim, hread h' hd'] at heq
    exact hne (Option.some.inj heq)

/-! ## One event -/

/-- What leaving an event out changes. -/
def Changes (event : EvidenceEvent) (baseline without : EvaluationResult N) (i : RobustnessImpact N) :
    Prop :=
  ∃ d ∈ baseline.decisions, ∃ d' ∈ without.decisions, d'.claim = d.claim ∧ d'.outcome ≠ d.outcome ∧
    i = impact event d d'

theorem impact_make {event : EvidenceEvent} {d d' : ClaimDecision N} (hd : d.Reportable)
    (hd' : d'.Reportable) (hne : d'.outcome ≠ d.outcome) :
    (impact event d d').make = .ok (impact event d d') := by
  obtain ⟨t, ht, htext⟩ := hd.reason "impact.baseline_reason"
  obtain ⟨t', ht', htext'⟩ := hd'.reason "impact.without_event_reason"
  simp only [RobustnessImpact.make, checkSigned, bind_eq_ok, valid_eq_ok, exists_unit, Except.ok.injEq]
  refine ⟨Ne.symm hne, t, ht, t', ht', hd.margin, hd'.margin, ?_⟩
  rw [htext, htext']
  rfl

theorem claim_of_impactOf {event : EvidenceEvent} {without : EvaluationResult N} {d : ClaimDecision N}
    {o : Option (RobustnessImpact N)} (h : impactOf event without d = .ok o) :
    ∀ i, o = some i → i.claim = d.claim := by
  rintro i rfl
  simp only [impactOf, bind_eq_ok] at h
  obtain ⟨d', -, h⟩ := h
  split_ifs at h
  · simp only [RobustnessImpact.make, bind_eq_ok, Except.ok.injEq, Option.some.injEq] at h
    obtain ⟨_, ⟨_, -, _, -, _, -, _, -, _, -, rfl⟩, rfl⟩ := h
    rfl
  · cases h

section OneEvent

variable {exp2 : N → N} {policy : Policy} {events : List EvidenceEvent} {asOf : Datetime}
  {adjudications : List Adjudication} {baseline : EvaluationResult N}
  (hbaseline : evaluate exp2 policy events asOf adjudications = .ok baseline)
include hbaseline

theorem exists_impactOf {events' : List EvidenceEvent} {adjudications' : List Adjudication}
    {without : EvaluationResult N}
    (hwithout : evaluate exp2 policy events' asOf adjudications' = .ok without)
    (event : EvidenceEvent) {d : ClaimDecision N} (hd : d ∈ baseline.decisions) :
    ∃ o, impactOf event without d = .ok o ∧ ∀ i, o = some i ↔
      ∃ d' ∈ without.decisions, d'.claim = d.claim ∧ d'.outcome ≠ d.outcome ∧ i = impact event d d' := by
  have hclaim : d.claim ∈ without.decisions.map ClaimDecision.claim := by
    rw [claims_of_evaluate hwithout, ← claims_of_evaluate hbaseline]
    exact List.mem_map_of_mem hd
  obtain ⟨d', hd', hsame⟩ := List.mem_map.mp hclaim
  have hfind : (without.decisions.find? fun x => x.claim = d.claim) = some d' :=
    hsame ▸ find?_claim (claims_nodup hwithout) hd'
  have honly : ∀ x ∈ without.decisions, x.claim = d.claim → x = d' := fun x hx hxclaim =>
    List.inj_on_of_nodup_map (claims_nodup hwithout) hx hd' (hxclaim.trans hsame.symm)
  by_cases hne : d'.outcome ≠ d.outcome
  · refine ⟨some (impact event d d'), ?_, fun i => ⟨fun hi => ?_, ?_⟩⟩
    · have hmake : (impact event d d').make = .ok (impact event d d') :=
        impact_make (reportable_of_mem hbaseline hd) (reportable_of_mem hwithout hd') hne
      simp only [impactOf, hfind, orError, bind_eq_ok]
      refine ⟨d', rfl, ?_⟩
      rw [if_pos hne, bind_eq_ok]
      exact ⟨_, hmake, rfl⟩
    · exact ⟨d', hd', hsame, hne, (Option.some.inj hi).symm⟩
    · rintro ⟨x, hx, hxclaim, -, rfl⟩
      rw [honly x hx hxclaim]
  · refine ⟨none, ?_, fun i => ⟨fun hi => (by cases hi), ?_⟩⟩
    · simp only [impactOf, hfind, orError, bind_eq_ok]
      refine ⟨d', rfl, ?_⟩
      rw [if_neg hne]
    · rintro ⟨x, hx, hxclaim, hxne, -⟩
      rw [honly x hx hxclaim] at hxne
      exact absurd hxne hne

/-- **One evaluation** finds every changed outcome, once for each claim. -/
theorem exists_leaveOneOut {without : EvaluationResult N} {event : EvidenceEvent}
    (hwithout : evaluate exp2 policy (withoutEvent events event.eventId) asOf
      (withoutAdjudication adjudications event.eventId) = .ok without) :
    ∃ impacts, leaveOneOut exp2 policy events asOf adjudications baseline event = .ok impacts ∧
      (∀ i, i ∈ impacts ↔ Changes event baseline without i) ∧ (impacts.map (·.claim)).Nodup := by
  obtain ⟨found, hfound⟩ := List.exists_mapM fun d hd =>
    (exists_impactOf hbaseline hwithout event hd).imp fun _ ho => ho.1
  have hround : ∀ d ∈ baseline.decisions, ∀ o, impactOf event without d = .ok o → ∀ i, o = some i ↔
      ∃ d' ∈ without.decisions, d'.claim = d.claim ∧ d'.outcome ≠ d.outcome ∧ i = impact event d d' :=
    fun d hd o ho => by
      obtain ⟨o', ho', hiff⟩ := exists_impactOf hbaseline hwithout event hd
      obtain rfl : o = o' := Except.ok.inj (ho.symm.trans ho')
      exact hiff
  refine ⟨found.reduceOption, ?_, fun i => ?_, ?_⟩
  · simp only [leaveOneOut, bind_eq_ok]
    exact ⟨without, hwithout, found, hfound, rfl⟩
  · rw [List.reduceOption_mem_iff]
    constructor
    · intro hi
      obtain ⟨d, hd, ho⟩ := List.exists_of_mem_mapM hfound hi
      obtain ⟨d', hd', hclaim, hne, rfl⟩ := (hround d hd _ ho i).mp rfl
      exact ⟨d, hd, d', hd', hclaim, hne, rfl⟩
    · rintro ⟨d, hd, d', hd', hclaim, hne, rfl⟩
      obtain ⟨o, ho, hdo⟩ := List.exists_of_mem_of_mapM hfound hd
      exact (hround d hd o hdo _).mpr ⟨d', hd', hclaim, hne, rfl⟩ ▸ ho
  · have hsublist : (found.reduceOption.map (·.claim)).Sublist
        (baseline.decisions.map ClaimDecision.claim) := by
      apply List.reduceOption_map_sublist
      rw [List.mapM_eq_ok] at hfound
      exact hfound.imp fun d o ho => claim_of_impactOf ho
    exact (claims_nodup hbaseline).sublist hsublist

theorem leaveOneOut_spec {event : EvidenceEvent} {impacts : List (RobustnessImpact N)}
    (h : leaveOneOut exp2 policy events asOf adjudications baseline event = .ok impacts) :
    ∃ without, evaluate exp2 policy (withoutEvent events event.eventId) asOf
      (withoutAdjudication adjudications event.eventId) = .ok without ∧
      (∀ i, i ∈ impacts ↔ Changes event baseline without i) ∧ (impacts.map (·.claim)).Nodup := by
  have hrounds := h
  rw [leaveOneOut, bind_eq_ok] at hrounds
  obtain ⟨without, hwithout, -⟩ := hrounds
  obtain ⟨impacts', h', hmem, hnodup⟩ := exists_leaveOneOut hbaseline hwithout
  obtain rfl : impacts = impacts' := Except.ok.inj (h.symm.trans h')
  exact ⟨without, hwithout, hmem, hnodup⟩

end OneEvent

/-! ## One claim -/

omit [Arithmetic N] in
/-- An evaluation has at most one impact on a claim. -/
theorem own_sublist (claim : Text) {tested : List EvidenceEvent} {found : List (List (RobustnessImpact N))}
    (h : List.Forall₂ (fun e impacts => (∀ i ∈ impacts, i.eventId = e.eventId) ∧
      (impacts.map (·.claim)).Nodup) tested found) :
    ((found.flatten.filter fun i => i.claim = claim).map (·.eventId)).Sublist
      (tested.map (·.eventId)) := by
  induction h with
  | nil => exact .slnil
  | @cons e impacts _ _ he _ ih =>
    rw [List.flatten_cons, List.filter_append, List.map_append, List.map_cons]
    have hnodup : ((impacts.filter fun i => i.claim = claim).map (·.claim)).Nodup :=
      he.2.sublist (List.filter_sublist.map _)
    have hown : ∀ i ∈ impacts.filter fun i => i.claim = claim, i.eventId = e.eventId ∧ i.claim = claim :=
      fun i hi => by
        rw [List.mem_filter] at hi
        exact ⟨he.1 i hi.1, by simpa using hi.2⟩
    generalize (impacts.filter fun i => i.claim = claim) = own at hnodup hown
    rcases own with _ | ⟨i, _ | ⟨j, rest⟩⟩
    · exact ih.cons _
    · rw [List.map_cons, (hown i List.mem_cons_self).1]
      exact ih.cons_cons _
    · have hi := (hown i List.mem_cons_self).2
      have hj := (hown j (List.mem_cons_of_mem _ List.mem_cons_self)).2
      rw [List.map_cons, List.nodup_cons] at hnodup
      exact absurd (List.mem_map.mpr ⟨j, List.mem_cons_self, hj.trans hi.symm⟩) hnodup.1

/-- What a report says of a claim. -/
def reportedClaim (tested : ℕ) (impacts : List (RobustnessImpact N)) (d : ClaimDecision N) :
    ClaimRobustness N :=
  let own := impacts.filter fun i => i.claim = d.claim
  { claim := d.claim, baselineOutcome := d.outcome, baselineMargin := d.margin
    testedEventCount := tested, changedEventCount := own.length, impacts := own.sortOn (·.eventId) }

theorem claimRobustness_eq {tested : List EvidenceEvent} {impacts : List (RobustnessImpact N)}
    {d : ClaimDecision N} (hd : d.Reportable) (hdistinct : (tested.map (·.eventId)).Nodup)
    (hlimit : tested.length ≤ maxPerturbations)
    (hown : ((impacts.filter fun i => i.claim = d.claim).map (·.eventId)).Sublist
      (tested.map (·.eventId))) :
    claimRobustness tested.length impacts d = .ok (reportedClaim tested.length impacts d) := by
  have hlength : (impacts.filter fun i => i.claim = d.claim).length ≤ tested.length := by
    have hle := hown.length_le
    rwa [List.length_map, List.length_map] at hle
  simp only [claimRobustness, ClaimRobustness.make, checkSigned, bind_eq_ok, valid_eq_ok, exists_unit]
  refine ⟨hd.margin, hlength, hlength.trans hlimit, fun i hi => ?_, hdistinct.sublist hown, trivial, rfl⟩
  simpa using (List.mem_filter.mp hi).2

/-! ## The report -/

/-- The events and claims that a report names. -/
def RobustnessReport.pairs (r : RobustnessReport N) : List (Text × Text) :=
  r.claims.flatMap fun c => c.impacts.map fun i => (i.eventId, i.claim)

omit [Arithmetic N] in
theorem mem_reportedClaim {tested : ℕ} {impacts : List (RobustnessImpact N)} {d : ClaimDecision N}
    {i : RobustnessImpact N} :
    i ∈ (reportedClaim tested impacts d).impacts ↔ i ∈ impacts ∧ i.claim = d.claim := by
  simp [reportedClaim]

theorem isResultDigest_digest (D : Type) [Hashing D] [WideHex D] (r : EvaluationResult N) :
    isResultDigest (r.digest D) = true := by
  have htag : ("sha256:" : String) = String.ofList ['s', 'h', 'a', '2', '5', '6', ':'] := by decide
  have hchars : (r.digest D).toList = ['s', 'h', 'a', '2', '5', '6', ':'] ++
      (Hashing.hex (Hashing.sha256 (canonicalBytes r.payload) : D)).toList := by
    rw [EvaluationResult.digest, String.toList_append, htag, String.toList_ofList]
  have hdrop : (['s', 'h', 'a', '2', '5', '6', ':'] ++
      (Hashing.hex (Hashing.sha256 (canonicalBytes r.payload) : D)).toList).drop 7 =
      (Hashing.hex (Hashing.sha256 (canonicalBytes r.payload) : D)).toList := rfl
  rw [isResultDigest, hchars, hdrop, String.ofList_toList, WideHex.isHash_hex]
  rfl

section Report

variable {exp2 : N → N} {policy : Policy} {events : List EvidenceEvent} {asOf : Datetime}
  {adjudications : List Adjudication} {baseline : EvaluationResult N}
  (hbaseline : evaluate exp2 policy events asOf adjudications = .ok baseline)
  (hreturns : ∀ e ∈ visibleEvents events asOf, ∃ without, evaluate exp2 policy
    (withoutEvent events e.eventId) asOf (withoutAdjudication adjudications e.eventId) = .ok without)
include hbaseline hreturns

theorem exists_impacts : ∃ found,
    (visibleEvents events asOf).mapM (leaveOneOut exp2 policy events asOf adjudications baseline) =
      .ok found ∧
    (∀ claim, ((found.flatten.filter fun i => i.claim = claim).map (·.eventId)).Sublist
      ((visibleEvents events asOf).map (·.eventId))) ∧
    ∀ i, i ∈ found.flatten ↔ ∃ e ∈ visibleEvents events asOf, ∃ without, evaluate exp2 policy
      (withoutEvent events e.eventId) asOf (withoutAdjudication adjudications e.eventId) = .ok without ∧
      Changes e baseline without i := by
  obtain ⟨found, hfound⟩ := List.exists_mapM fun e he => by
    obtain ⟨without, hwithout⟩ := hreturns e he
    exact (exists_leaveOneOut hbaseline hwithout).imp fun _ h => h.1
  refine ⟨found, hfound, fun claim => own_sublist claim ?_, fun i => ?_⟩
  · apply (List.mapM_eq_ok.mp hfound).imp
    intro e impacts h
    obtain ⟨without, -, hmem, hnodup⟩ := leaveOneOut_spec hbaseline h
    refine ⟨fun i hi => ?_, hnodup⟩
    obtain ⟨d, -, d', -, -, -, rfl⟩ := (hmem i).mp hi
    rfl
  · rw [List.mem_flatten]
    constructor
    · rintro ⟨impacts, himpacts, hi⟩
      obtain ⟨e, he, hleave⟩ := List.exists_of_mem_mapM hfound himpacts
      obtain ⟨without, hwithout, hmem, -⟩ := leaveOneOut_spec hbaseline hleave
      exact ⟨e, he, without, hwithout, (hmem i).mp hi⟩
    · rintro ⟨e, he, without, hwithout, hchanges⟩
      obtain ⟨impacts, himpacts, hleave⟩ := List.exists_of_mem_of_mapM hfound he
      obtain ⟨without', hwithout', hmem, -⟩ := leaveOneOut_spec hbaseline hleave
      obtain rfl : without = without' := Except.ok.inj (hwithout.symm.trans hwithout')
      exact ⟨impacts, himpacts, (hmem i).mpr hchanges⟩

/-- **The report** names every event and claim whose outcome the event sways, once. -/
theorem exists_report (D : Type) [Hashing D] [WideHex D] {maxEvents : ℤ}
    (hmax : 1 ≤ maxEvents ∧ maxEvents ≤ maxPerturbations)
    (hvisible : (visibleEvents events asOf).length ≤ maxEvents)
    (hclaims : policy.claims.items.length ≤ maxPerturbations) :
    ∃ report, robustness D exp2 policy events asOf adjudications maxEvents = .ok report ∧
      report.pairs.Nodup ∧ ∀ id claim, (id, claim) ∈ report.pairs ↔
        ∃ e ∈ events, e.eventId = id ∧ e.ingestedAt ≤ asOf ∧
          claimOutcome exp2 policy (withoutEvent events id) asOf (withoutAdjudication adjudications id) claim ≠
            claimOutcome exp2 policy events asOf adjudications claim := by
  obtain ⟨hvalid, hjudged, -⟩ := evaluate_eq_ok.mp hbaseline
  obtain ⟨found, hfound, hown, hmem⟩ := exists_impacts hbaseline hreturns
  have hlimit : (visibleEvents events asOf).length ≤ maxPerturbations := by omega
  have hsorted : ∀ d, d ∈ baseline.decisions.sortOn ClaimDecision.claim ↔ d ∈ baseline.decisions :=
    fun d => List.mem_sortOn
  have hreported : (baseline.decisions.sortOn ClaimDecision.claim).mapM
      (claimRobustness (visibleEvents events asOf).length found.flatten) =
      .ok ((baseline.decisions.sortOn ClaimDecision.claim).map
        (reportedClaim (visibleEvents events asOf).length found.flatten)) := by
    rw [List.mapM_eq_ok, List.forall₂_map_right_iff]
    apply List.forall₂_same.mpr
    intro d hd
    exact claimRobustness_eq (reportable_of_mem hbaseline ((hsorted d).mp hd))
      (visibleEvents_nodup hvalid.distinct asOf) hlimit (hown d.claim)
  obtain ⟨hinput, hconsidered⟩ := counts_of_evaluate hbaseline
  have hnames : (((baseline.decisions.sortOn ClaimDecision.claim).map
      (reportedClaim (visibleEvents events asOf).length found.flatten)).map (·.claim)).Nodup := by
    rw [List.map_map]
    exact ((List.sortOn_perm _ _).map _).nodup_iff.mpr (claims_nodup hbaseline)
  have hcount : baseline.decisions.length = policy.claims.items.length := by
    have hlength := congrArg List.length (claims_of_evaluate hbaseline)
    rwa [List.length_map, List.length_map, List.length_sortOn] at hlength
  let report : RobustnessReport N :=
    { policyId := baseline.policyId, evaluatedAt := baseline.evaluatedAt
      inputEventCount := baseline.inputEventCount
      consideredEventCount := baseline.consideredEventCount, baselineDigest := baseline.digest D
      claims := ((baseline.decisions.sortOn ClaimDecision.claim).map
        (reportedClaim (visibleEvents events asOf).length found.flatten)).sortOn (·.claim) }
  have hclaim : ∀ c, c ∈ report.claims ↔ ∃ d ∈ baseline.decisions,
      reportedClaim (visibleEvents events asOf).length found.flatten d = c := fun c => by
    rw [List.mem_sortOn, List.mem_map]
    simp only [hsorted]
  refine ⟨report, ?_, ?_, fun id claim => ?_⟩
  · simp only [robustness, bind_eq_ok, valid_eq_ok, exists_unit]
    refine ⟨hmax, events, validateEventSet_eq_ok.mpr ⟨hvalid, rfl⟩, adjudications,
      (validateAdjudicationSet_eq_ok hvalid.distinct).mpr ⟨hjudged, rfl⟩, baseline, hbaseline, hvisible,
      found, hfound, _, hreported, ?_⟩
    simp only [RobustnessReport.make, bind_eq_ok, valid_eq_ok, exists_unit]
    refine ⟨?_, isResultDigest_digest D baseline, ?_, fun c hc => ?_, hnames, rfl⟩
    · rw [hinput, hconsidered]
      exact List.length_filter_le _ _
    · rw [List.length_map, List.length_sortOn, hcount]
      exact hclaims
    · obtain ⟨d, -, rfl⟩ := List.mem_map.mp hc
      rw [hconsidered]
      exact List.length_sortOn
  · rw [RobustnessReport.pairs, List.nodup_flatMap]
    constructor
    · intro c hc
      obtain ⟨d, -, rfl⟩ := (hclaim c).mp hc
      have hids : ((reportedClaim (visibleEvents events asOf).length found.flatten d).impacts.map
          (·.eventId)).Nodup :=
        ((List.sortOn_perm _ _).map _).nodup_iff.mpr
          ((visibleEvents_nodup hvalid.distinct asOf).sublist (hown d.claim))
      apply List.Nodup.of_map Prod.fst
      rw [List.map_map]
      exact hids
    · have hdistinct : (report.claims.map (·.claim)).Nodup :=
        ((List.sortOn_perm _ _).map _).nodup_iff.mpr hnames
      -- an impact names the claim of its list
      apply (List.pairwise_map.mp hdistinct).imp_of_mem
      intro c c' hc hc' hne pair hpair hpair'
      obtain ⟨i, hi, rfl⟩ := List.mem_map.mp hpair
      obtain ⟨i', hi', hsame⟩ := List.mem_map.mp hpair'
      obtain ⟨d, -, rfl⟩ := (hclaim c).mp hc
      obtain ⟨d', -, rfl⟩ := (hclaim c').mp hc'
      have hclaims' : i'.claim = i.claim := (Prod.mk.inj hsame).2
      exact hne ((mem_reportedClaim.mp hi).2.symm.trans
        (hclaims'.symm.trans (mem_reportedClaim.mp hi').2))
  · rw [RobustnessReport.pairs, List.mem_flatMap]
    constructor
    · rintro ⟨c, hc, hpair⟩
      obtain ⟨i, hi, hnames⟩ := List.mem_map.mp hpair
      obtain ⟨hid, hclaimed⟩ := Prod.mk.inj hnames
      obtain ⟨d₀, -, rfl⟩ := (hclaim c).mp hc
      obtain ⟨e, he, without, hwithout, d, hd, hrest⟩ := (hmem i).mp (mem_reportedClaim.mp hi).1
      obtain ⟨d', hd', hsame, hne, rfl⟩ := hrest
      obtain ⟨hevent, hseen⟩ := mem_visibleEvents.mp he
      obtain rfl : e.eventId = id := hid
      exact ⟨e, hevent, rfl, hseen,
        (claimOutcome_ne_iff hbaseline hwithout).mpr ⟨d, hd, d', hd', hclaimed, hsame, hne⟩⟩
    · rintro ⟨e, hevent, rfl, hseen, hchanged⟩
      have he := mem_visibleEvents.mpr ⟨hevent, hseen⟩
      obtain ⟨without, hwithout⟩ := hreturns e he
      obtain ⟨d, hd, d', hd', rfl, hsame, hne⟩ := (claimOutcome_ne_iff hbaseline hwithout).mp hchanged
      have hi : impact e d d' ∈ found.flatten :=
        (hmem _).mpr ⟨e, he, without, hwithout, d, hd, d', hd', hsame, hne, rfl⟩
      exact ⟨_, (hclaim _).mpr ⟨d, hd, rfl⟩,
        List.mem_map.mpr ⟨impact e d d', mem_reportedClaim.mpr ⟨hi, rfl⟩, rfl⟩⟩

end Report

/-! ## Locality -/

omit [Arithmetic N] in
theorem visibleOf_withoutEvent {events : List EvidenceEvent} (hdistinct : (events.map (·.eventId)).Nodup)
    {event : EvidenceEvent} (hevent : event ∈ events) {claim : Text} (hclaim : claim ≠ event.claim)
    (asOf : Datetime) :
    visibleOf (withoutEvent events event.eventId) asOf claim = visibleOf events asOf claim := by
  rw [visibleOf, visibleOf, withoutEvent, List.filter_filter, List.filter_filter, List.filter_filter]
  apply List.filter_congr
  intro e he
  by_cases hother : e.claim = claim
  · have hid : e.eventId ≠ event.eventId := fun hid => by
      obtain rfl := List.inj_on_of_nodup_map hdistinct he hevent hid
      exact hclaim hother.symm
    simp [hother, hid]
  · simp [hother]

/-- **Locality.** An event that is not adjudicated has no part in the decisions of other claims. -/
theorem decisions_without {exp2 : N → N} {policy : Policy} {events : List EvidenceEvent} {asOf : Datetime}
    {adjudications : List Adjudication} {baseline without : EvaluationResult N} {event : EvidenceEvent}
    (hbaseline : evaluate exp2 policy events asOf adjudications = .ok baseline)
    (hwithout : evaluate exp2 policy (withoutEvent events event.eventId) asOf
      (withoutAdjudication adjudications event.eventId) = .ok without)
    (hevent : event ∈ events) (hunjudged : event.eventId ∉ adjudications.map (·.eventId)) :
    (without.decisions.filter fun d => d.claim ≠ event.claim) =
      baseline.decisions.filter fun d => d.claim ≠ event.claim := by
  obtain ⟨hvalid, -⟩ := evaluate_eq_ok.mp hbaseline
  have hkept : withoutAdjudication adjudications event.eventId = adjudications := by
    apply List.filter_eq_self.mpr
    intro a ha
    have hne : a.eventId ≠ event.eventId := fun h => hunjudged (List.mem_map.mpr ⟨a, ha, h⟩)
    simpa using hne
  obtain ⟨adjustments, hadjust, hdecisions⟩ := decisions_of_evaluate hbaseline
  obtain ⟨adjustments', hadjust', hdecisions'⟩ := decisions_of_evaluate hwithout
  rw [hkept, hadjust] at hadjust'
  obtain rfl : adjustments = adjustments' := Except.ok.inj hadjust'
  have hother := List.mapM_filter (p := fun kv => decide (kv.1 ≠ event.claim))
    (q := fun d => decide (d.claim ≠ event.claim)) hdecisions fun kv d hd => by
      rw [claim_of_evaluateClaim hd]
  have hother' := List.mapM_filter (p := fun kv => decide (kv.1 ≠ event.claim))
    (q := fun d => decide (d.claim ≠ event.claim)) hdecisions' fun kv d hd => by
      rw [claim_of_evaluateClaim hd]
  have hsame : ((policy.claims.items.sortOn Prod.fst).filter fun kv => decide (kv.1 ≠ event.claim)).mapM
        (fun kv => evaluateClaim exp2 kv.1 kv.2 (visibleOf (withoutEvent events event.eventId) asOf kv.1)
          policy asOf (reliabilityOf adjustments)) =
      ((policy.claims.items.sortOn Prod.fst).filter fun kv => decide (kv.1 ≠ event.claim)).mapM
        fun kv => evaluateClaim exp2 kv.1 kv.2 (visibleOf events asOf kv.1) policy asOf
          (reliabilityOf adjustments) := by
    apply List.mapM_congr_mem
    intro kv hkv
    have hclaim : kv.1 ≠ event.claim := by simpa using (List.mem_filter.mp hkv).2
    rw [visibleOf_withoutEvent hvalid.distinct hevent hclaim]
  exact Except.ok.inj (hother'.symm.trans (hsame.trans hother))

/-! ## The result -/

/-- **Robustness is exact and local**, for policies with no more claims than a report may hold. -/
theorem robustness_exact (D : Type) [Hashing D] [WideHex D] {exp2 : ℚ → ℚ} (hexp : Decays exp2)
    {policy : Policy} {events : List EvidenceEvent} {adjudications : List Adjudication}
    (hevents : ∃ accepted, validateEventSet ℚ policy events = .ok accepted)
    (hadjudications : ∃ accepted, validateAdjudicationSet policy events adjudications = .ok accepted)
    {asOf : Datetime} {maxEvents : ℤ} (hmax : 1 ≤ maxEvents ∧ maxEvents ≤ maxPerturbations)
    (hvisible : (visibleEvents events asOf).length ≤ maxEvents)
    (hclaims : policy.claims.items.length ≤ maxPerturbations) :
    ∃ report, robustness D exp2 policy events asOf adjudications maxEvents = .ok report ∧
      report.pairs.Nodup ∧
      (∀ id claim, (id, claim) ∈ report.pairs ↔ ∃ e ∈ events, e.eventId = id ∧ e.ingestedAt ≤ asOf ∧
        claimOutcome exp2 policy (withoutEvent events id) asOf (withoutAdjudication adjudications id) claim ≠
          claimOutcome exp2 policy events asOf adjudications claim) ∧
      ∀ e ∈ events, e.eventId ∉ adjudications.map (·.eventId) →
        (∃ baseline without, evaluate exp2 policy events asOf adjudications = .ok baseline ∧
          evaluate exp2 policy (withoutEvent events e.eventId) asOf
            (withoutAdjudication adjudications e.eventId) = .ok without ∧
          (without.decisions.filter fun d => d.claim ≠ e.claim) =
            baseline.decisions.filter fun d => d.claim ≠ e.claim) ∧
        ∀ claim, (e.eventId, claim) ∈ report.pairs → claim = e.claim := by
  obtain ⟨_, hevents⟩ := hevents
  obtain ⟨hvalid, -⟩ := validateEventSet_eq_ok.mp hevents
  obtain ⟨_, hadjudications⟩ := hadjudications
  obtain ⟨hjudged, -⟩ := (validateAdjudicationSet_eq_ok hvalid.distinct).mp hadjudications
  have hreturns : ∀ id, ∃ without, evaluate exp2 policy (withoutEvent events id) asOf
      (withoutAdjudication adjudications id) = .ok without := fun id =>
    exists_evaluate hexp (hvalid.sublist (withoutEvent_sublist events id))
      (hjudged.sublist (withoutEvent_sublist events id) (withoutAdjudication_sublist adjudications id)) asOf
  obtain ⟨baseline, hbaseline⟩ := exists_evaluate hexp hvalid hjudged asOf
  obtain ⟨report, hreport, hnodup, hpairs⟩ :=
    exists_report hbaseline (fun e _ => hreturns e.eventId) D hmax hvisible hclaims
  refine ⟨report, hreport, hnodup, hpairs, fun e he hunjudged => ?_⟩
  obtain ⟨without, hwithout⟩ := hreturns e.eventId
  have hlocal := decisions_without hbaseline hwithout he hunjudged
  refine ⟨⟨baseline, without, hbaseline, hwithout, hlocal⟩, fun claim hpair => ?_⟩
  obtain ⟨-, -, -, -, hchanged⟩ := (hpairs _ _).mp hpair
  obtain ⟨d, hd, d', hd', rfl, hsame, hne⟩ := (claimOutcome_ne_iff hbaseline hwithout).mp hchanged
  by_contra hother
  -- the decision of another claim is the same in both results
  have hmem : d' ∈ baseline.decisions := by
    have hfiltered : d' ∈ without.decisions.filter fun x => x.claim ≠ e.claim :=
      List.mem_filter.mpr ⟨hd', by simpa [hsame] using hother⟩
    rw [hlocal] at hfiltered
    exact List.mem_of_mem_filter hfiltered
  exact hne (congrArg ClaimDecision.outcome
    (List.inj_on_of_nodup_map (claims_nodup hbaseline) hmem hd hsame))

/-- The balanced events are robust or not, and the report says so. -/
theorem robustness_exact_balanced : ∃ report,
    robustness HexDigest integerPower balancedPolicy balancedEvents ⟨0, by decide⟩ [] 256 = .ok report ∧
      report.pairs.Nodup := by
  obtain ⟨r, d, hr, -⟩ := exists_balanced
  obtain ⟨hvalid, hjudged, -⟩ := evaluate_eq_ok.mp hr
  have hmax : (1 : ℤ) ≤ 256 ∧ (256 : ℤ) ≤ maxPerturbations := by decide
  have hvisible : ((visibleEvents balancedEvents ⟨0, by decide⟩).length : ℤ) ≤ 256 := by decide +kernel
  obtain ⟨report, hreport, hnodup, -⟩ := robustness_exact HexDigest decays_integerPower
    ⟨_, validateEventSet_eq_ok.mpr ⟨hvalid, rfl⟩⟩
    ⟨_, (validateAdjudicationSet_eq_ok hvalid.distinct).mpr ⟨hjudged, rfl⟩⟩ hmax hvisible (by decide)
  exact ⟨report, hreport, hnodup⟩

/-! ## Too many claims for a report -/

theorem claims_le_of_robustness (D : Type) [Hashing D] {exp2 : N → N} {policy : Policy}
    {events : List EvidenceEvent} {asOf : Datetime} {adjudications : List Adjudication} {maxEvents : ℤ}
    {report : RobustnessReport N}
    (h : robustness D exp2 policy events asOf adjudications maxEvents = .ok report) :
    policy.claims.items.length ≤ maxPerturbations := by
  simp only [robustness, RobustnessReport.make, bind_eq_ok, valid_eq_ok, exists_unit] at h
  obtain ⟨-, events', -, adjudications', -, baseline, hbaseline, -, h⟩ := h
  obtain ⟨found, -, claims, hclaims, -, -, hlength, -⟩ := h
  have hcount := congrArg List.length (claims_of_evaluate hbaseline)
  have hreported := (List.mapM_eq_ok.mp hclaims).length_eq
  rw [List.length_map, List.length_map, List.length_sortOn] at hcount
  rw [List.length_sortOn, hcount] at hreported
  exact hreported ▸ hlength

/-- A claim's name: one `c` and these many more. -/
def crowdedClaim (n : ℕ) : Text :=
  (.literal "c" : Text).tagged 'c' (List.replicate n 'c')
    ⟨by decide, by
      rw [← List.replicate_succ, List.all_replicate]
      simp only [Nat.add_eq_zero_iff, one_ne_zero, and_false, if_false]
      decide⟩

theorem crowdedClaim_injective : Function.Injective crowdedClaim := by
  intro m n h
  have hlength : (crowdedClaim m).value.toList.length = (crowdedClaim n).value.toList.length := by rw [h]
  simpa [crowdedClaim, Text.tagged] using hlength

/-- The sample policy with one claim and `n` more. -/
def crowdedPolicy (n : ℕ) : Policy :=
  { samplePolicy (sampleRule onePositive) with
    claims := ⟨(List.range (n + 1)).map fun i => (crowdedClaim i, sampleRule onePositive), by
      rw [List.map_map]
      exact List.nodup_range.map crowdedClaim_injective⟩
    claims_ne := List.ne_nil_of_length_pos (by
      rw [List.length_map, List.length_range]
      exact Nat.succ_pos n) }

theorem length_crowdedPolicy (n : ℕ) : (crowdedPolicy n).claims.items.length = n + 1 := by
  rw [crowdedPolicy, List.length_map, List.length_range]

theorem valid_nil (policy : Policy) : ValidEvents N policy [] :=
  ⟨List.nodup_nil, fun _ he => (by cases he), fun _ he => (by cases he)⟩

theorem judged_nil (policy : Policy) : ValidAdjudications policy [] [] :=
  ⟨.inl rfl, List.nodup_nil, fun _ ha => (by cases ha), fun _ ha => (by cases ha)⟩

/-- **A crowded policy** evaluates, without any event to leave out, and there is no report. -/
theorem crowded_unreported :
    (∃ accepted, validateEventSet ℚ (crowdedPolicy maxPerturbations) [] = .ok accepted) ∧
    (∃ accepted, validateAdjudicationSet (crowdedPolicy maxPerturbations) [] [] = .ok accepted) ∧
    (∃ r, evaluate integerPower (crowdedPolicy maxPerturbations) [] ⟨0, by decide⟩ [] = .ok r) ∧
    (visibleEvents [] ⟨0, by decide⟩).length ≤ 256 ∧
    ¬ ∃ report, robustness HexDigest integerPower (crowdedPolicy maxPerturbations) [] ⟨0, by decide⟩ []
      256 = .ok report := by
  have hdistinct : (([] : List EvidenceEvent).map (·.eventId)).Nodup := List.nodup_nil
  refine ⟨⟨[], validateEventSet_eq_ok.mpr ⟨valid_nil _, rfl⟩⟩,
    ⟨[], (validateAdjudicationSet_eq_ok hdistinct).mpr ⟨judged_nil _, rfl⟩⟩,
    exists_evaluate decays_integerPower (valid_nil _) (judged_nil _) _, Nat.zero_le _, ?_⟩
  rintro ⟨report, hreport⟩
  have hle := claims_le_of_robustness HexDigest hreport
  rw [length_crowdedPolicy] at hle
  exact absurd hle (Nat.not_succ_le_self _)

end EvidenceBraid
