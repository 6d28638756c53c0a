import EvidenceBraid.CheckCodec

/-!
# Limits turn answers into errors only

**Theorem (`checks_monotone`).** What `evaluate_checks` or `parse_check_plan` returns within some
limits it returns within all larger ones. All limits are within the ceilings, so two runs that
both return, return the same.

**Idea.** Work, nodes, depth, bytes and counts are only ever tested against their limits, never
otherwise read; a larger limit passes every test that a smaller one does, and the budget is counted
in the same way whatever the limits are (`Metered.Stable`).
-/

namespace EvidenceBraid

open Hashing
open Metered (Stable stable_allow stable_lift stable_tally stable_pure stable_mapEach)

/-! ## Admission -/

theorem stable_charge (units : ℕ) : Stable (charge units) := by
  refine (stable_allow fun l l' hl budget h => ?_).bind fun _ => stable_tally _
  have hwork := hl.workUnits
  omega

theorem stable_inspectNode (item : Json) : Stable (inspectNode item) := by
  refine (stable_charge 1).bind fun _ => (stable_tally _).bind fun _ =>
    (stable_allow fun l l' hl budget h => ?_).bind fun _ => stable_lift _
  exact h.trans hl.jsonNodes

/-- A document within a limit that is larger in larger limits. -/
theorem stable_checkDocument {maximum : CheckLimits → ℕ}
    (hmaximum : ∀ l l' : CheckLimits, l ≤ l' → maximum l ≤ maximum l') (raw : Bytes) :
    Stable (checkDocument maximum raw) := by
  refine (stable_allow fun l l' hl budget h => ?_).bind fun _ => (stable_charge _).bind fun _ =>
    (stable_allow fun l l' hl budget h => ?_).bind fun _ => (stable_lift _).bind fun value =>
    (stable_mapEach stable_inspectNode _).bind fun _ => stable_pure value
  · exact h.trans (hmaximum l l' hl)
  · exact Json.scanDepth_mono hl.jsonDepth h

theorem stable_snapshotItems (extra : ℕ) (items : List (String × Bytes)) :
    ∀ result total, Stable (snapshotItems extra result total items) := by
  induction items with
  | nil =>
    intro result total
    exact stable_pure result
  | cons item items ih =>
    intro result total
    refine (stable_allow fun l l' hl budget h => ?_).bind fun _ => (stable_lift _).bind fun _ =>
      (stable_allow fun l l' hl budget h => ?_).bind fun _ => ih _ _
    · exact lt_of_lt_of_le h (Nat.add_le_add_right hl.inputs extra)
    · exact ⟨h.1.trans hl.inputBytes, h.2.trans hl.totalInputBytes⟩

theorem stable_snapshotContents (contents : Dict String Bytes) (extra : ℕ) :
    Stable (snapshotContents contents extra) := by
  refine (stable_allow fun l l' hl budget h => ?_).bind fun _ => stable_snapshotItems _ _ _ _
  exact h.trans (Nat.add_le_add_right hl.inputs extra)

/-! ## Rules -/

theorem stable_checkAt (path : List Json.PathPart) : ∀ value, Stable (checkAt value path) := by
  induction path with
  | nil =>
    intro value
    exact stable_pure (some value)
  | cons part path ih =>
    intro value
    rw [checkAt]
    refine (stable_charge _).bind fun _ => ?_
    cases Json.step? value part with
    | none => exact stable_pure none
    | some next => exact ih next

theorem stable_checkEqual (left right : Json) : Stable (checkEqual left right) :=
  (stable_charge _).bind fun _ => stable_pure _

theorem stable_checkValues (rule : CheckRule) (value other : Option Json) :
    Stable (checkValues rule value other) := by
  unfold checkValues
  cases value with
  | none => exact stable_pure _
  | some value =>
    show Stable (if _ then _ else if _ then _ else if _ then _ else _)
    split_ifs
    · exact stable_pure _
    · exact stable_pure _
    · cases value <;> first | exact stable_pure _ | exact (stable_charge 2).bind fun _ => stable_pure _
    · exact (stable_lift _).bind fun other => (stable_checkEqual value other).bind fun _ =>
        stable_pure _

theorem stable_checkRule (parsed : List (Identifier × Json)) (raw : Dict Identifier Bytes)
    (rule : CheckRule) : Stable (checkRule parsed raw rule) := by
  refine (stable_charge 1).bind fun _ => ?_
  cases rule.operator with
  | bytesEqual =>
    exact (stable_lift _).bind fun _ => (stable_lift _).bind fun _ => (stable_charge _).bind fun _ =>
      stable_pure _
  | «exists» => exact (stable_lift _).bind fun _ => (stable_checkAt _ _).bind fun _ => stable_pure _
  | sameValue =>
    exact (stable_lift _).bind fun _ => (stable_checkAt _ _).bind fun _ => (stable_lift _).bind
      fun _ => (stable_checkAt _ _).bind fun _ => stable_checkValues _ _ _
  | equals =>
    exact (stable_lift _).bind fun _ => (stable_checkAt _ _).bind fun _ => stable_checkValues _ _ _
  | integerRange =>
    exact (stable_lift _).bind fun _ => (stable_checkAt _ _).bind fun _ => stable_checkValues _ _ _

/-! ## Whole runs -/

variable {D : Type} [Hashing D] [DecidableEq D]

theorem stable_checkInput (retained : Dict Identifier Bytes) (input : ArtifactReference D) :
    Stable (checkInput retained input) :=
  (stable_lift _).bind fun _ => (stable_charge _).bind fun _ => stable_lift _

theorem stable_parseInput (retained : Dict Identifier Bytes) (name : Identifier) :
    Stable (parseInput retained name) :=
  (stable_lift _).bind fun raw => (stable_checkDocument (fun _ _ hl => hl.inputBytes) raw).bind
    fun _ => stable_pure _

theorem stable_evaluateRetained (plan : CheckPlan D) (retained : Dict Identifier Bytes) :
    Stable (evaluateRetained plan retained) := by
  refine (stable_allow fun l l' hl budget h => ?_).bind fun _ => (stable_charge _).bind fun _ =>
    (stable_lift _).bind fun _ => (stable_mapEach (stable_checkInput retained) _).bind fun _ =>
    (stable_mapEach (stable_parseInput retained) _).bind fun parsed =>
    (stable_mapEach (stable_checkRule parsed retained) _).bind fun results =>
    (stable_lift _).bind fun result => (stable_allow fun l l' hl budget h => ?_).bind fun _ =>
    (stable_charge _).bind fun _ => stable_pure _
  · exact ⟨h.1.trans hl.planBytes, h.2.1.trans hl.rules, h.2.2.trans hl.inputs⟩
  · exact h.trans hl.outputBytes

omit [DecidableEq D] in
theorem stable_readCheckPlan (raw : Bytes) : Stable (readCheckPlan raw : Check (CheckPlan D)) := by
  refine (stable_checkDocument (fun _ _ hl => hl.planBytes) raw).bind fun value =>
    (stable_lift _).bind fun plan => (stable_allow fun l l' hl budget h => ?_).bind fun _ =>
    (stable_charge _).bind fun _ => (stable_lift _).bind fun _ => stable_pure plan
  exact ⟨h.1.trans hl.inputs, h.2.trans hl.rules⟩

/-- A stable computation returns the same within larger limits. -/
theorem runCheck_mono {α : Type} {x : Check α} (hx : Stable x) {limits limits' : Option CheckLimits}
    (hl : CheckLimits.resolve limits ≤ CheckLimits.resolve limits') {a : α}
    (h : runCheck x limits = .ok a) : runCheck x limits' = .ok a := by
  rw [runCheck_eq_ok] at h ⊢
  obtain ⟨budget, h⟩ := h
  exact ⟨budget, hx _ _ hl _ _ h⟩

/-- All limits are within the ceilings. -/
theorem CheckLimits.le_ceilings (l : CheckLimits) : l ≤ ceilings :=
  ⟨l.inputs_ok.2, l.rules_ok.2, l.inputBytes_ok.2, l.totalInputBytes_ok.2, l.jsonDepth_ok.2,
    l.jsonNodes_ok.2, l.workUnits_ok.2, l.planBytes_ok.2, l.outputBytes_ok.2⟩

/-- Two runs that both return, return the same. -/
theorem runCheck_unique {α : Type} {x : Check α} (hx : Stable x) {limits limits' : Option CheckLimits}
    {a b : α} (ha : runCheck x limits = .ok a) (hb : runCheck x limits' = .ok b) : a = b := by
  have ha := @runCheck_mono _ _ hx limits (some .ceilings) (CheckLimits.le_ceilings _) _ ha
  have hb := @runCheck_mono _ _ hx limits' (some .ceilings) (CheckLimits.le_ceilings _) _ hb
  exact Except.ok.inj (ha.symm.trans hb)

/-- **Check limits are monotone.** An answer within some limits is the answer within all larger
ones, and no limits give another answer. -/
theorem checks_monotone :
    (∀ limits limits' : Option CheckLimits,
      CheckLimits.resolve limits ≤ CheckLimits.resolve limits' →
        (∀ (plan : CheckPlan D) contents e, evaluateChecks plan contents limits = .ok e →
          evaluateChecks plan contents limits' = .ok e) ∧
        ∀ raw (plan : CheckPlan D), parseCheckPlan raw limits = .ok plan →
          parseCheckPlan raw limits' = .ok plan) ∧
    (∀ (plan : CheckPlan D) contents limits limits' e e',
      evaluateChecks plan contents limits = .ok e → evaluateChecks plan contents limits' = .ok e' →
        e = e') ∧
    ∀ raw limits limits' (plan plan' : CheckPlan D), parseCheckPlan raw limits = .ok plan →
      parseCheckPlan raw limits' = .ok plan' → plan = plan' := by
  have hevaluate : ∀ (plan : CheckPlan D) contents, Stable (do
      let retained ← snapshotContents contents 0
      evaluateRetained plan retained) := fun plan contents =>
    (stable_snapshotContents contents 0).bind fun _ => stable_evaluateRetained plan _
  refine ⟨fun limits limits' hl => ⟨?_, ?_⟩, ?_, ?_⟩
  · intro plan contents e h
    exact runCheck_mono (hevaluate plan contents) hl h
  · intro raw plan h
    exact runCheck_mono (stable_readCheckPlan raw) hl h
  · intro plan contents limits limits' e e' h h'
    exact runCheck_unique (hevaluate plan contents) h h'
  · intro raw limits limits' plan plan' h h'
    exact runCheck_unique (stable_readCheckPlan raw) h h'

/-- A plan that is read within the default limits is read within the ceilings. -/
theorem checks_monotone_sample : ∃ p : CheckPlan HexDigest,
    parseCheckPlan p.toBytes none = .ok p ∧ parseCheckPlan p.toBytes (some .ceilings) = .ok p := by
  have hlength : (sampleCheckPlan HexDigest).toBytes.length ≤ 8000 := length_sampleCheck_le HexDigest
  have hparse : parseCheckPlan (sampleCheckPlan HexDigest).toBytes none =
      .ok (sampleCheckPlan HexDigest) :=
    readCheckPlan_toBytes _ (by decide) (hlength.trans (by decide)) (hlength.trans (by decide))
      ((Nat.mul_le_mul_left 4 hlength).trans (by decide)) (by decide) (by decide)
  exact ⟨_, hparse, (checks_monotone.1 none (some .ceilings) (CheckLimits.le_ceilings _)).2 _ _ hparse⟩

end EvidenceBraid
