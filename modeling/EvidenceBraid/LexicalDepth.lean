import EvidenceBraid.CaseWire
import EvidenceBraid.CheckCodec
import EvidenceBraid.Consistency
import EvidenceBraid.Membership
import EvidenceBraid.Library.JsonGrammar

/-!
# The lexical depth scanners

Four readers bound a text's nesting before they parse it: those of consistency proofs, of membership
bundles, of case documents and of check documents.

**Theorem (`lexicalDepth_exact`).** On every JSON text each of them raises its nesting error exactly
when the text is nested deeper than its bound.

**Idea.** They share one scanner, which is exact on every text of the grammar (`scanDepth_text`). What
is left is that nothing else in the four readers raises the same error.
-/

namespace EvidenceBraid

/-! ## Where an error comes from -/

theorem bind_eq_error {α β : Type} {x : Result α} {f : α → Result β} {e : PyError} :
    (x >>= f) = .error e ↔ x = .error e ∨ ∃ a, x = .ok a ∧ f a = .error e := by
  cases x <;> simp [bind, Except.bind]

theorem orError_eq_error {α : Type} {x : Option α} {error e : PyError} :
    orError x error = .error e ↔ x = none ∧ error = e := by
  cases x with
  | none => simp [orError]
  | some a => simp [orError]

theorem require_eq_error {condition : Prop} [Decidable condition] {error e : PyError} :
    require condition error = .error e ↔ ¬ condition ∧ error = e := by
  unfold require
  by_cases h : condition <;> simp [h]

/-- A handler for every `ValueError` leaves no validation error but its own. -/
theorem wrapping_ne {α : Type} {message other : String} (hne : message ≠ other) (x : Result α) :
    wrapping PyError.isValueError message x ≠ .error (.validation other) := by
  cases x with
  | ok a => simp [wrapping]
  | error e =>
    cases e <;> simp [wrapping, PyError.isValueError, hne]

/-- A reader that admits a text by its length and its nesting, and then does something that does not
raise the nesting error. -/
theorem nesting_iff {α : Type} {fits flat : Prop} [Decidable fits] [Decidable flat]
    {tooLong tooDeep : PyError} {rest : Result α} (hne : tooLong ≠ tooDeep)
    (hrest : rest ≠ .error tooDeep) :
    (do require fits tooLong; require flat tooDeep; rest) = .error tooDeep ↔ fits ∧ ¬ flat := by
  simp only [bind_eq_error, require_eq_error, require_eq_ok, exists_unit, hrest, or_false, hne,
    and_false, false_or, and_true]

theorem inspectCaseNode_ne (nodes : ℕ) (item : Json) :
    inspectCaseNode nodes item ≠ .error (.inputFormat "case JSON nesting exceeds the bound") := by
  unfold inspectCaseNode
  cases item <;> simp [bind_eq_error, require_eq_error]

theorem foldlM_inspectCaseNode_ne (items : List Json) (nodes : ℕ) :
    items.foldlM inspectCaseNode nodes ≠
      .error (.inputFormat "case JSON nesting exceeds the bound") := by
  induction items generalizing nodes with
  | nil => simp [pure, Except.pure]
  | cons item items ih =>
    rw [List.foldlM_cons, Ne, bind_eq_error, not_or]
    refine ⟨inspectCaseNode_ne nodes item, ?_⟩
    intro h
    obtain ⟨nodes', _, hrest⟩ := h
    exact ih nodes' hrest

/-! ## Metered readers -/

theorem charge_eq_error {units : ℕ} {l : CheckLimits} {budget : Budget} {e : PyError} :
    charge units l budget = .error e ↔
      ¬budget.used + units ≤ l.maxWorkUnits ∧ .validation "check work budget exhausted" = e := by
  rw [charge, Metered.bind_eq_error, Metered.allow_eq_error]
  simp only [Metered.tally_ne_error, and_false, exists_false, or_false]
  refine and_congr_left fun _ => not_congr ?_
  omega

theorem checkNode_ne (item : Json) :
    checkNode item ≠ .error (.validation "check JSON nesting exceeds its bound") := by
  unfold checkNode
  cases item <;> simp [require_eq_error]

theorem inspectNode_ne (item : Json) (l : CheckLimits) (budget : Budget) :
    inspectNode item l budget ≠ .error (.validation "check JSON nesting exceeds its bound") := by
  unfold inspectNode
  simp [Metered.bind_eq_error, charge_eq_error, Metered.allow_eq_error, Metered.tally_ne_error,
    Metered.lift_eq_error, checkNode_ne]

/-! ## The four readers -/

section

variable {D : Type} [Hashing D] [DecidableEq D] {s : List Char} {n : ℕ}

theorem consistency_nesting (h : Json.Grammar.Text s n) :
    (LedgerConsistencyProof.fromBytes (Utf8.encode s) : Result (LedgerConsistencyProof D)) =
        .error (.validation "consistency JSON exceeds two container levels") ↔
      (Utf8.encode s).length ≤ maxConsistencyBytes ∧ 2 < n := by
  rw [← not_le, ← Json.Grammar.scanDepth_text h]
  exact nesting_iff (by decide) (wrapping_ne (by decide) _)

theorem membership_nesting (h : Json.Grammar.Text s n) :
    (LedgerMembershipBundle.fromBytes (Utf8.encode s) : Result (LedgerMembershipBundle D)) =
        .error (.validation "membership JSON nesting exceeds 72 containers") ↔
      (Utf8.encode s).length ≤ maxBundleBytes ∧ maxJsonDepth < n := by
  rw [← not_le, ← Json.Grammar.scanDepth_text h]
  exact nesting_iff (by decide) (wrapping_ne (by decide) _)

theorem case_nesting (h : Json.Grammar.Text s n) (maximum : ℕ) :
    caseDocument (Utf8.encode s) maximum = .error (.inputFormat "case JSON nesting exceeds the bound") ↔
      (Utf8.encode s).length ≤ maximum ∧ maxCaseJsonDepth < n := by
  rw [← not_le, ← Json.Grammar.scanDepth_text h]
  refine nesting_iff (by decide) ?_
  intro hrest
  simp only [bind_eq_error, orError_eq_error, require_eq_error, PyError.inputFormat.injEq] at hrest
  obtain ⟨-, hmessage⟩ | ⟨value, -, hfold | ⟨nodes, -, ⟨-, hmessage⟩ | ⟨-, -, hok⟩⟩⟩ := hrest
  · exact absurd hmessage (by decide)
  · exact foldlM_inspectCaseNode_ne _ _ hfold
  · exact absurd hmessage (by decide)
  · exact absurd hok (by simp)

theorem check_nesting (h : Json.Grammar.Text s n) (maximum : CheckLimits → ℕ) (limits : CheckLimits)
    (budget : Budget) :
    checkDocument maximum (Utf8.encode s) limits budget =
        .error (.validation "check JSON nesting exceeds its bound") ↔
      (Utf8.encode s).length ≤ maximum limits ∧
        budget.used + (Utf8.encode s).length ≤ limits.maxWorkUnits ∧ limits.maxJsonDepth < n := by
  rw [← not_le, ← Json.Grammar.scanDepth_text h]
  simp only [checkDocument, Metered.bind_eq_error, Metered.allow_eq_error, Metered.allow_eq_ok,
    Metered.lift_eq_error, charge_eq_error, charge_eq_ok, PyError.validation.injEq]
  constructor
  · intro h
    obtain ⟨-, hmessage⟩ | ⟨-, _, ⟨hlength, hsame⟩, hrest⟩ := h
    · exact absurd hmessage (by decide)
    · subst hsame
      obtain ⟨-, hmessage⟩ | ⟨-, _, ⟨hwork, -⟩, hrest⟩ := hrest
      · exact absurd hmessage (by decide)
      obtain ⟨hdeep, -⟩ | ⟨-, _, -, hrest⟩ := hrest
      · exact ⟨hlength, hwork, hdeep⟩
      obtain hparse | ⟨value, _, -, hrest⟩ := hrest
      · rw [orError_eq_error] at hparse
        exact absurd hparse.2 (by simp)
      obtain hnodes | ⟨_, _, -, hpure⟩ := hrest
      · exact absurd hnodes (Metered.mapEach_ne_error (fun item s => inspectNode_ne item limits s) _ _)
      · simp [pure] at hpure
  · intro h
    obtain ⟨hlength, hwork, hdeep⟩ := h
    exact .inr ⟨(), budget, ⟨hlength, rfl⟩, .inr ⟨(), _, ⟨hwork, rfl⟩, .inl ⟨hdeep, trivial⟩⟩⟩

end

/-- **The scanners are exact.** A text of nesting `n` is refused for its nesting exactly when `n` exceeds
the reader's bound, and a parser that accepts the text reads a value of that height. -/
theorem lexicalDepth_exact (D : Type) [Hashing D] [DecidableEq D] {s : List Char} {n : ℕ}
    (h : Json.Grammar.Text s n) :
    (∀ hooks v, Json.loads hooks s = some v → n = Json.height v) ∧
    (∀ limit, Json.scanDepth limit (Utf8.encode s) = true ↔ n ≤ limit) ∧
    ((LedgerConsistencyProof.fromBytes (Utf8.encode s) : Result (LedgerConsistencyProof D)) =
        .error (.validation "consistency JSON exceeds two container levels") ↔
      (Utf8.encode s).length ≤ maxConsistencyBytes ∧ 2 < n) ∧
    ((LedgerMembershipBundle.fromBytes (Utf8.encode s) : Result (LedgerMembershipBundle D)) =
        .error (.validation "membership JSON nesting exceeds 72 containers") ↔
      (Utf8.encode s).length ≤ maxBundleBytes ∧ maxJsonDepth < n) ∧
    (∀ maximum, caseDocument (Utf8.encode s) maximum =
        .error (.inputFormat "case JSON nesting exceeds the bound") ↔
      (Utf8.encode s).length ≤ maximum ∧ maxCaseJsonDepth < n) ∧
    ∀ maximum limits budget, checkDocument maximum (Utf8.encode s) limits budget =
        .error (.validation "check JSON nesting exceeds its bound") ↔
      (Utf8.encode s).length ≤ maximum limits ∧
        budget.used + (Utf8.encode s).length ≤ limits.maxWorkUnits ∧ limits.maxJsonDepth < n := by
  refine ⟨?_, Json.Grammar.scanDepth_text h, consistency_nesting h, membership_nesting h, case_nesting h,
    check_nesting h⟩
  intro hooks v hread
  exact h.unique (Json.Grammar.text_of_loads hread)

/-- A string that holds brackets, a backslash and a quote, in three arrays. -/
def quotedBrackets : List Char :=
  ['[', '[', '[', '"', ']', '{', '\\', '\\', '\\', '"', '}', '[', '"', ']', ']', ']']

theorem text_quotedBrackets : Json.Grammar.Text quotedBrackets 3 := by
  have hread : Json.loads Json.plain quotedBrackets =
      some (.arr [.arr [.arr [.str (String.ofList [']', '{', '\\', '"', '}', '['])]]]) := by
    decide +kernel
  have htext := Json.Grammar.text_of_loads hread
  simpa [Json.height, Json.heightItems] using htext

/-- Only the arrays count. -/
theorem lexicalDepth_exact_quoted :
    (LedgerConsistencyProof.fromBytes (Utf8.encode quotedBrackets) : Result (LedgerConsistencyProof HexDigest)) =
        .error (.validation "consistency JSON exceeds two container levels") ∧
      Json.scanDepth 3 (Utf8.encode quotedBrackets) = true := by
  have hexact := lexicalDepth_exact HexDigest text_quotedBrackets
  exact ⟨hexact.2.2.1.mpr ⟨by decide, by decide⟩, (hexact.2.1 3).mpr le_rfl⟩

end EvidenceBraid
