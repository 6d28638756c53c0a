import EvidenceBraid.CaseHistory

/-!
# The retained bytes of a case

The loop over the payload rows: it accepts the assertion, the input and, after a successful
observation, the output, each once and in the order of the table, with exactly the bytes that the
records commit to (`readRetained_eq_ok`).
-/

namespace EvidenceBraid

open Hashing Transaction Sqlite

variable {D : Type} [Hashing D]

/-! ## Retained bytes -/

/-- The observation among the records. -/
def observationOf (records : List (CaseRecord D)) : Option (CaseObservation D) :=
  match records with
  | _ :: .observation o :: _ => some o
  | _ => none

/-- The row of an output. -/
def outputRows (o : Option (CaseObservation D)) (output : Option Bytes) : List PayloadRow :=
  match o.bind (·.artifactId), output with
  | some artifactId, some bytes => [payloadRow "output" artifactId (sha256 bytes : D) bytes]
  | _, _ => []

/-- The payload rows of a case. -/
def retainedRows (plan : CasePlan D) (records : List (CaseRecord D)) (retained : RetainedBytes) :
    List PayloadRow :=
  [payloadRow "assertion" plan.assertionArtifactId plan.assertionSha256 retained.assertion,
    payloadRow "input" plan.inputArtifactId plan.inputSha256 retained.input] ++
  outputRows (observationOf records) retained.output

/-- The bytes of the plan's inputs are those that it commits to. -/
structure InputsFit (plan : CasePlan D) (assertion input : Bytes) : Prop where
  assertion_length : assertion.length ≤ maxAssertion
  assertion_digest : sha256 assertion = plan.assertionSha256
  input_length : input.length ≤ maxInput
  input_digest : sha256 input = plan.inputSha256

/-- A short text. -/
def IsOutput (bytes : Bytes) : Prop :=
  bytes.length ≤ maxOutput ∧
    ∃ text, Utf8.decode bytes = some text ∧ isXmlCharacter (String.ofList text) = true

/-- An observation is successful exactly where its output is kept, which is a text. -/
structure OutputFits (o : CaseObservation D) (output : Option Bytes) : Prop where
  observed_iff : o.status = .observed ↔ output.isSome = true
  digest : ∀ bytes ∈ output, o.observedSha256 = some (sha256 bytes)
  text : ∀ bytes ∈ output, IsOutput bytes

/-- What is retained belongs to the records. -/
structure RetainedFits (plan : CasePlan D) (records : List (CaseRecord D))
    (retained : RetainedBytes) : Prop where
  inputs : InputsFit plan retained.assertion retained.input
  output : match observationOf records with
    | none => retained.output = none
    | some o => OutputFits o retained.output

/-- The output's bound on the total never fails. -/
theorem checkedOutput_eq_ok {raw bytes : Bytes} {total : ℕ} (h : total ≤ maxAssertion + maxInput) :
    checkedOutput raw total = .ok bytes ↔ raw = bytes ∧ IsOutput raw := by
  simp only [checkedOutput, bind_eq_ok, valid_eq_ok, exists_unit, orError_eq_ok,
    Option.map_eq_some_iff, Except.ok.injEq]
  constructor
  · rintro ⟨hlength, -, _, ⟨text, htext, rfl⟩, hxml, rfl⟩
    exact ⟨rfl, hlength, text, htext, hxml⟩
  · rintro ⟨rfl, hlength, text, htext, hxml⟩
    have htotal : maxAssertion + maxInput + maxOutput ≤ maxTotalPayload := by decide
    exact ⟨hlength, by omega, _, ⟨text, htext, rfl⟩, hxml, rfl⟩

/-- The row of these columns. -/
def textRow (columns : String × String × String × Bytes) : PayloadRow :=
  ⟨some (.text (Utf8.encode columns.1.toList)), .text (Utf8.encode columns.2.1.toList),
    .text (Utf8.encode columns.2.2.1.toList), .blob columns.2.2.2⟩

theorem decodePayload_eq_ok {row : PayloadRow} {columns : String × String × String × Bytes} :
    decodePayload row = .ok columns ↔ row = textRow columns := by
  obtain ⟨r, a, d, b⟩ := row
  obtain ⟨role, artifactId, digest, content⟩ := columns
  simp only [decodePayload, bind_eq_ok, orError_eq_ok, cellText_eq_ok, cellBytes_eq_ok,
    Except.ok.injEq, Prod.mk.injEq, textRow, PayloadRow.mk.injEq]
  constructor
  · rintro ⟨_, rfl, _, rfl, _, rfl, _, rfl, _, rfl, rfl, rfl, rfl, rfl⟩
    exact ⟨rfl, rfl, rfl, rfl⟩
  · rintro ⟨rfl, rfl, rfl, rfl⟩
    exact ⟨_, rfl, _, rfl, _, rfl, _, rfl, _, rfl, rfl, rfl, rfl, rfl⟩

theorem decodePayloads_eq_ok {rows : List PayloadRow} :
    ∀ {decoded : List (String × String × String × Bytes)},
      decodePayloads rows = .ok decoded ↔ rows = decoded.map textRow := by
  induction rows with
  | nil =>
    intro decoded
    rw [decodePayloads, Except.ok.injEq, eq_comm, eq_comm (a := []), List.map_eq_nil_iff]
  | cons row rows ih =>
    intro decoded
    simp only [decodePayloads, bind_eq_ok, decodePayload_eq_ok, ih, Except.ok.injEq]
    constructor
    · rintro ⟨columns, rfl, rest, rfl, rfl⟩
      rfl
    · intro h
      cases decoded with
      | nil => cases h
      | cons columns rest =>
        obtain ⟨rfl, rfl⟩ := List.cons.inj h
        exact ⟨columns, rfl, rest, rfl, rfl⟩

theorem outputCommitment_eq_ok {records : List (CaseRecord D)} {expected : PayloadCommitment D} :
    outputCommitment records = .ok expected ↔ ∃ o, observationOf records = some o ∧
      o.status = .observed ∧ o.artifactId = some expected.artifactId ∧
      o.observedSha256 = some expected.digest ∧ expected.maximum = maxOutput := by
  obtain ⟨artifactId, digest, maximum⟩ := expected
  rcases records with _ | ⟨_, _ | ⟨r, _⟩⟩
  · simp [outputCommitment, observationOf]
  · simp [outputCommitment, observationOf]
  · cases r with
    | observation o =>
      simp only [outputCommitment, observationOf, List.getElem?_cons_succ, List.getElem?_cons_zero,
        Option.some.injEq]
      constructor
      · intro h
        split_ifs at h with hstatus
        split at h
        · rename_i a d ha hd
          obtain ⟨rfl, rfl, rfl⟩ := PayloadCommitment.mk.inj (Except.ok.inj h)
          exact ⟨o, rfl, hstatus, ha, hd, rfl⟩
        · cases h
      · rintro ⟨_, rfl, hstatus, ha, hd, rfl⟩
        rw [if_pos hstatus, ha, hd]
    | _ => simp [outputCommitment, observationOf]

theorem hasOutput_eq (records : List (CaseRecord D)) :
    hasOutput records = (observationOf records).map fun o => decide (o.status = .observed) := by
  rcases records with _ | ⟨_, _ | ⟨r, _⟩⟩
  · rfl
  · rfl
  · cases r <;> rfl

/-! ### The order of the rows -/

theorem before_text {a b : PayloadRow} {x y : Bytes} (ha : a.role = some (.text x))
    (hb : b.role = some (.text y)) (h : a.Before b) : x.map UInt8.toNat < y.map UInt8.toNat := by
  rw [PayloadRow.Before, ha, hb] at h
  exact h.resolve_left (lt_irrefl _)

/-- The three roles, in the order of the rows. -/
def payloadRoles : List String := ["assertion", "input", "output"]

/-- The text of a role, as SQLite compares it. -/
def roleKey (role : String) : List ℕ := (Utf8.encode role.toList).map UInt8.toNat

theorem roles_two {a b : String} (ha : a ∈ payloadRoles) (hb : b ∈ payloadRoles)
    (h : roleKey a < roleKey b) : (a = "assertion" ∧ b = "input") ∨ (a = "assertion" ∧ b = "output") ∨
      (a = "input" ∧ b = "output") := by
  have hall : ∀ a ∈ payloadRoles, ∀ b ∈ payloadRoles, roleKey a < roleKey b →
      (a = "assertion" ∧ b = "input") ∨ (a = "assertion" ∧ b = "output") ∨
        (a = "input" ∧ b = "output") := by decide
  exact hall a ha b hb h

theorem roles_three {a b c : String} (ha : a ∈ payloadRoles) (hb : b ∈ payloadRoles)
    (hc : c ∈ payloadRoles) (hab : roleKey a < roleKey b) (hbc : roleKey b < roleKey c) :
    a = "assertion" ∧ b = "input" ∧ c = "output" := by
  rcases roles_two ha hb hab with ⟨rfl, rfl⟩ | ⟨rfl, rfl⟩ | ⟨rfl, rfl⟩ <;>
    rcases roles_two hb hc hbc with ⟨h₁, h₂⟩ | ⟨h₁, h₂⟩ | ⟨h₁, h₂⟩ <;> simp_all

/-! ### The rows -/

theorem committedContent_eq_ok {expected : PayloadCommitment D} {role artifactId digest : String}
    {content bytes : Bytes} : committedContent expected (role, artifactId, digest, content) =
      .ok bytes ↔ content.length ≤ expected.maximum ∧ artifactId = expected.artifactId.value ∧
        digest = hex expected.digest ∧ sha256 content = expected.digest ∧ content = bytes := by
  simp only [committedContent, bind_eq_ok, valid_eq_ok, exists_unit, Except.ok.injEq]
  constructor
  · rintro ⟨hlength, ⟨hartifact, hdigest, hcontent⟩, rfl⟩
    exact ⟨hlength, hartifact, hdigest, hex_injective (hcontent.trans hdigest), rfl⟩
  · rintro ⟨hlength, hartifact, hdigest, hcontent, rfl⟩
    exact ⟨hlength, ⟨hartifact, hdigest, by rw [hcontent, hdigest]⟩, rfl⟩

section Rows

variable {plan : CasePlan D} {records : List (CaseRecord D)} {p q : CasePayloads}
  {role artifactId digest : String} {content : Bytes}

theorem role_of_readPayload
    (h : readPayload plan records p (role, artifactId, digest, content) = .ok q) :
    role ∈ payloadRoles := by
  unfold readPayload at h
  split_ifs at h with hassertion hinput houtput
  · simp [payloadRoles, show role = "assertion" from hassertion.1]
  · simp [payloadRoles, show role = "input" from hinput.1]
  · simp [payloadRoles, show role = "output" from houtput.1]

theorem readPayload_assertion (hp : p.assertion = none) :
    readPayload plan records p ("assertion", artifactId, digest, content) = .ok q ↔
      content.length ≤ maxAssertion ∧ artifactId = plan.assertionArtifactId.value ∧
        digest = hex plan.assertionSha256 ∧ sha256 content = plan.assertionSha256 ∧
        q = { p with assertion := some content } := by
  rw [readPayload, if_pos ⟨rfl, hp⟩]
  simp only [bind_eq_ok, committedContent_eq_ok, Except.ok.injEq]
  constructor
  · rintro ⟨_, ⟨h₁, h₂, h₃, h₄, rfl⟩, rfl⟩
    exact ⟨h₁, h₂, h₃, h₄, rfl⟩
  · rintro ⟨h₁, h₂, h₃, h₄, rfl⟩
    exact ⟨_, ⟨h₁, h₂, h₃, h₄, rfl⟩, rfl⟩

theorem readPayload_input (hp : p.input = none) :
    readPayload plan records p ("input", artifactId, digest, content) = .ok q ↔
      content.length ≤ maxInput ∧ artifactId = plan.inputArtifactId.value ∧
        digest = hex plan.inputSha256 ∧ sha256 content = plan.inputSha256 ∧
        q = { p with input := some content } := by
  rw [readPayload, if_neg (by simp), if_pos ⟨rfl, hp⟩]
  simp only [bind_eq_ok, committedContent_eq_ok, Except.ok.injEq]
  constructor
  · rintro ⟨_, ⟨h₁, h₂, h₃, h₄, rfl⟩, rfl⟩
    exact ⟨h₁, h₂, h₃, h₄, rfl⟩
  · rintro ⟨h₁, h₂, h₃, h₄, rfl⟩
    exact ⟨_, ⟨h₁, h₂, h₃, h₄, rfl⟩, rfl⟩

theorem readPayload_output (hp : p.output = none) :
    readPayload plan records p ("output", artifactId, digest, content) = .ok q ↔
      ∃ o a d, observationOf records = some o ∧ o.status = .observed ∧ o.artifactId = some a ∧
        o.observedSha256 = some d ∧ content.length ≤ maxOutput ∧ artifactId = a.value ∧
        digest = hex d ∧ sha256 content = d ∧ q = { p with output := some content } := by
  rw [readPayload, if_neg (by simp), if_neg (by simp), if_pos ⟨rfl, hp⟩]
  simp only [bind_eq_ok, committedContent_eq_ok, outputCommitment_eq_ok, Except.ok.injEq]
  constructor
  · rintro ⟨⟨a, d, maximum⟩, ⟨o, ho, hstatus, ha, hd, rfl⟩, _, ⟨h₁, h₂, h₃, h₄, rfl⟩, rfl⟩
    exact ⟨o, a, d, ho, hstatus, ha, hd, h₁, h₂, h₃, h₄, rfl⟩
  · rintro ⟨o, a, d, ho, hstatus, ha, hd, h₁, h₂, h₃, h₄, rfl⟩
    exact ⟨⟨a, d, maxOutput⟩, ⟨o, ho, hstatus, ha, hd, rfl⟩, _, ⟨h₁, h₂, h₃, h₄, rfl⟩, rfl⟩

/-- What the observation asks of the retained output. -/
def OutputMatches (records : List (CaseRecord D)) (total : ℕ) (output : Option Bytes) : Prop :=
  match observationOf records with
  | none => True
  | some o => (o.status = .observed ↔ output.isSome = true) ∧
      ∀ bytes ∈ output, checkedOutput bytes total = .ok bytes

/-- The last part of the payload reader. -/
theorem readRetained_eq_ok' {rows : List PayloadRow} {retained : RetainedBytes} :
    readRetained plan records rows = .ok retained ↔
      ∃ decoded, decodePayloads rows = .ok decoded ∧ (decoded.length = 2 ∨ decoded.length = 3) ∧
        readPayloads plan records ⟨none, none, none⟩ decoded =
          .ok ⟨some retained.assertion, some retained.input, retained.output⟩ ∧
        retained.assertion.length + retained.input.length + (retained.output.getD []).length ≤
          maxTotalPayload ∧
        OutputMatches records (retained.assertion.length + retained.input.length)
          retained.output := by
  simp only [readRetained, bind_eq_ok, valid_eq_ok, exists_unit, orError_eq_ok, hasOutput_eq,
    OutputMatches]
  refine exists_congr fun decoded => and_congr_right fun _ => and_congr_right fun _ => ?_
  constructor
  · rintro ⟨⟨_, _, output⟩, hread, assertion, rfl, input, rfl, htotal, h⟩
    cases hrecords : observationOf records with
    | none =>
      rw [hrecords] at h
      obtain rfl := Except.ok.inj h
      exact ⟨hread, htotal, trivial⟩
    | some o =>
      simp only [hrecords, Option.map_some, bind_eq_ok, valid_eq_ok, exists_unit] at h
      obtain ⟨hstatus, h⟩ := h
      have hiff : o.status = .observed ↔ output.isSome = true := by
        rw [← hstatus]
        exact decide_eq_true_iff.symm
      cases output with
      | none =>
        obtain rfl := Except.ok.inj h
        exact ⟨hread, htotal, hiff, by simp⟩
      | some bytes =>
        simp only [bind_eq_ok, Except.ok.injEq] at h
        obtain ⟨checked, hchecked, rfl⟩ := h
        have heq : bytes = checked := by
          simp only [checkedOutput, bind_eq_ok, valid_eq_ok, exists_unit, Except.ok.injEq] at hchecked
          obtain ⟨-, -, -, -, -, heq⟩ := hchecked
          exact heq
        obtain rfl := heq
        exact ⟨hread, htotal, hiff, by simpa using hchecked⟩
  · obtain ⟨assertion, input, output⟩ := retained
    rintro ⟨hread, htotal, h⟩
    refine ⟨_, hread, _, rfl, _, rfl, htotal, ?_⟩
    cases hrecords : observationOf records with
    | none => rfl
    | some o =>
      rw [hrecords] at h
      obtain ⟨hiff, htext⟩ := h
      simp only [Option.map_some, bind_eq_ok, valid_eq_ok, exists_unit]
      refine ⟨Bool.eq_iff_iff.mpr (decide_eq_true_iff.trans hiff), ?_⟩
      cases output with
      | none => rfl
      | some bytes =>
        simp only [bind_eq_ok, Except.ok.injEq]
        exact ⟨bytes, htext bytes rfl, rfl⟩

theorem InputsFit.total_le {assertion input : Bytes} (h : InputsFit plan assertion input) :
    assertion.length + input.length ≤ maxAssertion + maxInput :=
  Nat.add_le_add h.assertion_length h.input_length

omit [Hashing D] in
/-- The artifact and the digest of a successful observation. -/
theorem CaseObservation.output_some {o : CaseObservation D} (h : o.status = .observed) :
    ∃ a d, o.artifactId = some a ∧ o.observedSha256 = some d := by
  obtain ⟨hdigest, hartifact⟩ := o.output_taken
  rw [decide_eq_true h] at hdigest hartifact
  obtain ⟨d, hd⟩ := Option.isSome_iff_exists.mp hdigest
  obtain ⟨a, ha⟩ := Option.isSome_iff_exists.mp hartifact
  exact ⟨a, d, ha, hd⟩

theorem outputRows_none (o : Option (CaseObservation D)) : outputRows o none = [] := by
  unfold outputRows
  split <;> simp_all

theorem outputRows_some {o : CaseObservation D} {a : Identifier} (h : o.artifactId = some a)
    (bytes : Bytes) : outputRows (some o) (some bytes) =
      [payloadRow "output" a (sha256 bytes : D) bytes] := by
  simp [outputRows, h]

theorem retainedFits_iff {retained : RetainedBytes} : RetainedFits plan records retained ↔
    InputsFit plan retained.assertion retained.input ∧
      OutputMatches records (retained.assertion.length + retained.input.length) retained.output ∧
      ∀ bytes ∈ retained.output, ∃ o, observationOf records = some o ∧
        o.observedSha256 = some (sha256 bytes) := by
  constructor
  · rintro ⟨hinputs, houtput⟩
    refine ⟨hinputs, ?_⟩
    unfold OutputMatches
    cases hrecords : observationOf records with
    | none =>
      rw [hrecords] at houtput
      simp [show retained.output = none from houtput]
    | some o =>
      rw [hrecords] at houtput
      obtain ⟨hiff, hdigest, htext⟩ := houtput
      exact ⟨⟨hiff, fun bytes hbytes =>
        (checkedOutput_eq_ok hinputs.total_le).mpr ⟨rfl, htext bytes hbytes⟩⟩,
        fun bytes hbytes => ⟨o, rfl, hdigest bytes hbytes⟩⟩
  · rintro ⟨hinputs, hmatches, hdigest⟩
    refine ⟨hinputs, ?_⟩
    unfold OutputMatches at hmatches
    cases hrecords : observationOf records with
    | none =>
      rw [hrecords] at hdigest
      cases houtput : retained.output with
      | none => rfl
      | some bytes =>
        obtain ⟨o, ho, -⟩ := hdigest bytes houtput
        cases ho
    | some o =>
      rw [hrecords] at hmatches
      refine ⟨hmatches.1, fun bytes hbytes => ?_, fun bytes hbytes =>
        ((checkedOutput_eq_ok hinputs.total_le).mp (hmatches.2 bytes hbytes)).2⟩
      obtain ⟨o', ho', hd⟩ := hdigest bytes hbytes
      rw [hrecords] at ho'
      cases ho'
      exact hd

/-- **The payload rows are exactly those of the retained bytes.** -/
theorem readRetained_eq_ok {rows : List PayloadRow} (hsorted : rows.Pairwise PayloadRow.Before)
    {retained : RetainedBytes} : readRetained plan records rows = .ok retained ↔
      RetainedFits plan records retained ∧ rows = retainedRows plan records retained := by
  obtain ⟨assertion, input, output⟩ := retained
  rw [readRetained_eq_ok']
  constructor
  · rintro ⟨decoded, hdecoded, hlength, hread, -, hmatches⟩
    obtain rfl := decodePayloads_eq_ok.mp hdecoded
    obtain ⟨x, y, rest, rfl⟩ : ∃ x y rest, decoded = x :: y :: rest := by
      rcases decoded with _ | ⟨x, _ | ⟨y, rest⟩⟩ <;> simp at hlength ⊢
    obtain ⟨r₁, a₁, d₁, c₁⟩ := x
    obtain ⟨r₂, a₂, d₂, c₂⟩ := y
    simp only [readPayloads, bind_eq_ok] at hread
    obtain ⟨q₁, h₁, q₂, h₂, hread⟩ := hread
    have hroles : roleKey r₁ < roleKey r₂ :=
      before_text rfl rfl ((List.pairwise_cons.mp hsorted).1 _ (List.mem_cons_self ..))
    rcases rest with _ | ⟨⟨r₃, a₃, d₃, c₃⟩, _ | ⟨w, rest⟩⟩
    · cases hread
      rcases roles_two (role_of_readPayload h₁) (role_of_readPayload h₂) hroles with
        ⟨rfl, rfl⟩ | ⟨rfl, rfl⟩ | ⟨rfl, rfl⟩
      · obtain ⟨hl₁, rfl, rfl, hs₁, rfl⟩ := (readPayload_assertion rfl).mp h₁
        obtain ⟨hl₂, rfl, rfl, hs₂, h⟩ := (readPayload_input rfl).mp h₂
        obtain ⟨rfl, rfl, rfl⟩ : assertion = c₁ ∧ input = c₂ ∧ output = none := by
          simpa using h
        refine ⟨retainedFits_iff.mpr ⟨⟨hl₁, hs₁, hl₂, hs₂⟩, hmatches, by simp⟩, ?_⟩
        rw [retainedRows, outputRows_none]
        rfl
      · obtain ⟨-, -, -, -, rfl⟩ := (readPayload_assertion rfl).mp h₁
        obtain ⟨o, a, d, -, -, -, hrest⟩ := (readPayload_output rfl).mp h₂
        obtain ⟨-, -, -, -, -, h⟩ := hrest
        cases h
      · obtain ⟨-, -, -, -, rfl⟩ := (readPayload_input rfl).mp h₁
        obtain ⟨o, a, d, -, -, -, hrest⟩ := (readPayload_output rfl).mp h₂
        obtain ⟨-, -, -, -, -, h⟩ := hrest
        cases h
    · simp only [readPayloads, bind_eq_ok] at hread
      obtain ⟨q₃, h₃, hread⟩ := hread
      cases hread
      have hroles' : roleKey r₂ < roleKey r₃ := before_text rfl rfl
        ((List.pairwise_cons.mp (List.pairwise_cons.mp hsorted).2).1 _ (List.mem_cons_self ..))
      obtain ⟨rfl, rfl, rfl⟩ := roles_three (role_of_readPayload h₁) (role_of_readPayload h₂)
        (role_of_readPayload h₃) hroles hroles'
      obtain ⟨hl₁, rfl, rfl, hs₁, rfl⟩ := (readPayload_assertion rfl).mp h₁
      obtain ⟨hl₂, rfl, rfl, hs₂, rfl⟩ := (readPayload_input rfl).mp h₂
      obtain ⟨o, a, d, ho, hstatus, ha, hrest⟩ := (readPayload_output rfl).mp h₃
      obtain ⟨hd, hl₃, rfl, rfl, rfl, h⟩ := hrest
      obtain ⟨rfl, rfl, rfl⟩ : assertion = c₁ ∧ input = c₂ ∧ output = some c₃ := by
        simpa using h
      refine ⟨retainedFits_iff.mpr ⟨⟨hl₁, hs₁, hl₂, hs₂⟩, hmatches, fun bytes hbytes => ?_⟩, ?_⟩
      · obtain rfl := Option.some.inj hbytes
        exact ⟨o, ho, hd⟩
      · rw [retainedRows, ho, outputRows_some ha]
        rfl
    · simp at hlength
  · rintro ⟨hfits, rfl⟩
    obtain ⟨⟨hl₁, hs₁, hl₂, hs₂⟩, hmatches, hdigest⟩ := retainedFits_iff.mp hfits
    have htotal : maxAssertion + maxInput + maxOutput ≤ maxTotalPayload := by decide
    dsimp only at hl₁ hl₂
    cases output with
    | none =>
      refine ⟨[("assertion", plan.assertionArtifactId.value, hex plan.assertionSha256, assertion),
        ("input", plan.inputArtifactId.value, hex plan.inputSha256, input)],
        decodePayloads_eq_ok.mpr ?_, .inl rfl, ?_, by simp only [Option.getD_none, List.length_nil]; omega,
        hmatches⟩
      · rw [retainedRows, outputRows_none]
        rfl
      · simp only [readPayloads, bind_eq_ok]
        exact ⟨_, (readPayload_assertion rfl).mpr ⟨hl₁, rfl, rfl, hs₁, rfl⟩, _,
          (readPayload_input rfl).mpr ⟨hl₂, rfl, rfl, hs₂, rfl⟩, rfl⟩
    | some bytes =>
      obtain ⟨o, ho, hd⟩ := hdigest bytes rfl
      unfold OutputMatches at hmatches
      rw [ho] at hmatches
      have hstatus := hmatches.1.mpr rfl
      obtain ⟨a, d, ha, hd'⟩ := CaseObservation.output_some hstatus
      have htext := ((checkedOutput_eq_ok (Nat.add_le_add hl₁ hl₂)).mp (hmatches.2 bytes rfl)).2
      have hl₃ : bytes.length ≤ maxOutput := htext.1
      refine ⟨[("assertion", plan.assertionArtifactId.value, hex plan.assertionSha256, assertion),
        ("input", plan.inputArtifactId.value, hex plan.inputSha256, input),
        ("output", a.value, hex (sha256 bytes : D), bytes)],
        decodePayloads_eq_ok.mpr ?_, .inr rfl, ?_, by simp only [Option.getD_some]; omega, ?_⟩
      · rw [retainedRows, ho, outputRows_some ha]
        rfl
      · simp only [readPayloads, bind_eq_ok]
        exact ⟨_, (readPayload_assertion rfl).mpr ⟨hl₁, rfl, rfl, hs₁, rfl⟩, _,
          (readPayload_input rfl).mpr ⟨hl₂, rfl, rfl, hs₂, rfl⟩, _,
          (readPayload_output rfl).mpr ⟨o, a, _, ho, hstatus, ha, hd, hl₃, rfl, rfl, rfl, rfl⟩, rfl⟩
      · unfold OutputMatches
        rw [ho]
        exact hmatches

end Rows

end EvidenceBraid
