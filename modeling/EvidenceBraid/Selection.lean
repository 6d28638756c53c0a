import EvidenceBraid.LedgerProof

/-!
# A selection is the naive filter

**Theorem (`LedgerSelection.positions_spec`).** The positions of a selection are the positions of
the events that match its query, in ascending order.

An index keeps, for each field and each value, the list of the positions whose event has that
value (`mem_rows_postings`). The exact-match fields narrow a set of candidates, where `none` stands
for every position, field by field (`admitted_candidates`); the clocks are compared one by one.
-/

namespace EvidenceBraid

open Hashing

/-! ## What a query asks -/

/-- A nonempty list admits its own values; an empty one admits everything. -/
def Admits {α : Type} (values : List α) (a : Option α) : Prop :=
  values ≠ [] → ∃ v ∈ values, a = some v

/-- A time in a half-open range. -/
def InRange (t : Datetime) (start stop : Option Datetime) : Prop :=
  (∀ s ∈ start, s ≤ t) ∧ ∀ s ∈ stop, t < s

/-- An event satisfies a query. -/
structure LedgerQuery.Matches (q : LedgerQuery) (e : EvidenceEvent) : Prop where
  eventId : Admits q.eventIds (some e.eventId)
  claim : Admits q.claims (some e.claim)
  source : Admits q.sources (some e.source)
  modality : Admits q.modalities (some e.modality)
  signal : Admits q.signals (some e.signal)
  correlationGroup : Admits q.correlationGroups e.correlationGroup
  observed : InRange e.observedAt q.observedStart q.observedEnd
  ingested : InRange e.ingestedAt q.ingestedStart q.ingestedEnd

theorem admits_map {α : Type} {text : α → String} (htext : Function.Injective text)
    {values : List α} {a : Option α} : Admits (values.map text) (a.map text) ↔ Admits values a := by
  unfold Admits
  refine imp_congr (not_congr List.map_eq_nil_iff) ?_
  cases a with
  | none => simp
  | some a =>
    simp only [List.mem_map, Option.map_some, Option.some.injEq]
    constructor
    · rintro ⟨_, ⟨v, hv, rfl⟩, h⟩
      exact ⟨v, hv, htext h⟩
    · rintro ⟨v, hv, rfl⟩
      exact ⟨_, ⟨a, hv, rfl⟩, rfl⟩

theorem Admits.mono {α : Type} {values values' : List α} {a : Option α}
    (hperm : values.Perm values') (h : Admits values a) : Admits values' a := by
  intro hne
  have hne' : values ≠ [] := by
    rintro rfl
    exact hne hperm.nil_eq.symm
  obtain ⟨v, hv, ha⟩ := h hne'
  exact ⟨v, hperm.mem_iff.mp hv, ha⟩

theorem value_injective : Function.Injective Text.value := fun _ _ h => Text.ext_iff.mpr h

namespace LedgerQuery

/-- A query's exact-match part, field by field. -/
theorem matches_iff (q : LedgerQuery) (e : EvidenceEvent) :
    q.Matches e ↔ (∀ field : Field, Admits (field.wanted q) (field.value e)) ∧
      q.inRanges e = true := by
  have hranges : q.inRanges e = true ↔ InRange e.observedAt q.observedStart q.observedEnd ∧
      InRange e.ingestedAt q.ingestedStart q.ingestedEnd := by
    simp [inRanges, InRange, Option.all_eq_true]
  rw [hranges]
  constructor
  · intro h
    refine ⟨fun field => ?_, h.observed, h.ingested⟩
    cases field with
    | eventId => exact (admits_map value_injective).mpr h.eventId
    | claim => exact (admits_map value_injective).mpr h.claim
    | source => exact (admits_map value_injective).mpr h.source
    | modality => exact (admits_map Modality.value_injective).mpr h.modality
    | signal => exact (admits_map Signal.value_injective).mpr h.signal
    | correlationGroup => exact (admits_map value_injective).mpr h.correlationGroup
  · rintro ⟨hfields, hobserved, hingested⟩
    exact ⟨(admits_map value_injective).mp (hfields .eventId),
      (admits_map value_injective).mp (hfields .claim),
      (admits_map value_injective).mp (hfields .source),
      (admits_map Modality.value_injective).mp (hfields .modality),
      (admits_map Signal.value_injective).mp (hfields .signal),
      (admits_map value_injective).mp (hfields .correlationGroup), hobserved, hingested⟩

/-- Events without a correlation group match no correlation-group filter. -/
theorem not_matches_of_correlationGroup {q : LedgerQuery} {e : EvidenceEvent}
    (he : e.correlationGroup = none) (hq : q.correlationGroups ≠ []) : ¬ q.Matches e := by
  intro h
  obtain ⟨v, -, hv⟩ := h.correlationGroup hq
  rw [he] at hv
  cases hv

/-- The order of a query's lists is immaterial: the constructor only sorts them. -/
theorem matches_postInit {q q' : LedgerQuery} (h : q.postInit = .ok q') (e : EvidenceEvent) :
    q'.Matches e ↔ q.Matches e := by
  simp only [postInit, bind_eq_ok, valid_eq_ok, exists_unit, Except.ok.injEq] at h
  obtain ⟨_, -, _, -, _, -, _, -, -, h⟩ := h
  obtain ⟨-, -, -, -, -, -, -, -, rfl⟩ := h
  have hperm {α : Type} (text : α → String) (values : List α) :
      (sorted text values).Perm values := List.perm_insertionSort _ _
  constructor
  · intro h
    exact ⟨h.eventId.mono (hperm _ _), h.claim.mono (hperm _ _), h.source.mono (hperm _ _),
      h.modality.mono (hperm _ _), h.signal.mono (hperm _ _),
      h.correlationGroup.mono (hperm _ _), h.observed, h.ingested⟩
  · intro h
    exact ⟨h.eventId.mono (hperm _ _).symm, h.claim.mono (hperm _ _).symm,
      h.source.mono (hperm _ _).symm, h.modality.mono (hperm _ _).symm,
      h.signal.mono (hperm _ _).symm, h.correlationGroup.mono (hperm _ _).symm, h.observed,
      h.ingested⟩

end LedgerQuery

/-! ## Inverted lists -/

namespace Postings

/-- What one event adds to the inverted lists. -/
theorem rows_post (p : Postings) (sequence : ℕ) (e : EvidenceEvent) (field : Field)
    (value : String) : (p.post sequence e).rows field value =
      p.rows field value ++ if field.value e = some value then [sequence] else [] := by
  unfold post
  cases hvalue : field.value e with
  | none => simp [rows, hvalue]
  | some v =>
    by_cases hv : v = value
    · subst hv
      simp [rows, hvalue]
    · have hne : value ≠ v := Ne.symm hv
      simp [rows, hvalue, Dict.get?_set, hne, hv]

/-- **The loop over the receipts** appends, for each value, the positions that have it. -/
theorem rows_foldl {α : Type} (sequence : α → ℕ) (event : α → EvidenceEvent) (field : Field)
    (value : String) (as : List α) : ∀ p : Postings,
      (as.foldl (fun p a => p.post (sequence a) (event a)) p).rows field value =
        p.rows field value ++
          (as.filter fun a => field.value (event a) = some value).map sequence := by
  induction as with
  | nil => intro p; simp
  | cons a as ih =>
    intro p
    rw [List.foldl_cons, ih, rows_post, List.append_assoc, List.filter_cons]
    by_cases ha : field.value (event a) = some value <;> simp [ha]

end Postings

variable {D : Type} [Hashing D] [DecidableEq D]

/-- A verified receipt carries its position. -/
theorem EvidenceLedger.sequence_of_verify {l : EvidenceLedger D} (h : l.verify = true) {i : ℕ}
    {entry : LedgerEntry D} (hentry : l.entries[i]? = some entry) : entry.sequence = i := by
  simp only [verify, Bool.and_eq_true, Option.isSome_iff_exists] at h
  obtain ⟨-, head, hhead⟩ := h
  obtain ⟨hi, rfl⟩ := List.getElem?_eq_some_iff.mp hentry
  obtain ⟨prev, hlink⟩ := link_of_verifyLinks hhead i hi
  rw [hlink.sequence_eq, Nat.zero_add]

/-- A verified receipt is read back from its document. -/
theorem EvidenceLedger.fromDict_of_verify {l : EvidenceLedger D} (h : l.verify = true) {i : ℕ}
    {entry : LedgerEntry D} (hentry : l.entries[i]? = some entry) :
    LedgerEntry.fromDict entry.toDict = .ok entry := by
  simp only [verify, Bool.and_eq_true, Option.isSome_iff_exists] at h
  obtain ⟨-, head, hhead⟩ := h
  obtain ⟨hi, rfl⟩ := List.getElem?_eq_some_iff.mp hentry
  obtain ⟨prev, hlink⟩ := link_of_verifyLinks hhead i hi
  exact hlink.decodes

namespace LedgerIndex

variable (index : LedgerIndex D)

/-- The index keeps the event of every receipt. -/
theorem getElem?_events {i : ℕ} {e : EvidenceEvent} : index.events[i]? = some e ↔
    ∃ entry, index.ledger.entries[i]? = some entry ∧ entry.decoded "event" = .ok e := by
  have hdecoded := congrArg (·[i]?) index.decoded
  simp only [List.getElem?_map] at hdecoded
  constructor
  · intro he
    rw [he] at hdecoded
    obtain ⟨entry, hentry, hok⟩ := Option.map_eq_some_iff.mp hdecoded
    exact ⟨entry, hentry, hok⟩
  · rintro ⟨entry, hentry, hok⟩
    rw [hentry, Option.map_some, hok] at hdecoded
    obtain ⟨e', he', heq⟩ := Option.map_eq_some_iff.mp hdecoded.symm
    rw [he', Except.ok.inj heq]

theorem length_events : index.events.length = index.ledger.entries.length := by
  have hdecoded := congrArg List.length index.decoded
  rw [List.length_map, List.length_map] at hdecoded
  exact hdecoded.symm

/-- **A position is listed under a value** exactly when its event has that value. -/
theorem mem_rows_postings {field : Field} {value : String} {i : ℕ} :
    i ∈ index.postings.rows field value ↔
      ∃ e, index.events[i]? = some e ∧ field.value e = some value := by
  have hrows := Postings.rows_foldl (α := LedgerEntry D × EvidenceEvent) (·.1.sequence) (·.2) field
    value (index.ledger.entries.zip index.events) fun _ => Dict.empty
  rw [show index.postings.rows field value = _ from hrows]
  simp only [Postings.rows, Dict.get?_empty, Option.getD_none, List.nil_append, List.mem_map,
    List.mem_filter, decide_eq_true_eq, Prod.exists]
  constructor
  · rintro ⟨entry, e, ⟨hmem, hvalue⟩, rfl⟩
    obtain ⟨j, hj⟩ := List.mem_iff_getElem?.mp hmem
    obtain ⟨hentry, he⟩ := List.getElem?_zip_eq_some.mp hj
    rw [EvidenceLedger.sequence_of_verify index.verified hentry]
    exact ⟨e, he, hvalue⟩
  · rintro ⟨e, he, hvalue⟩
    obtain ⟨entry, hentry, -⟩ := index.getElem?_events.mp he
    have hmem : (entry, e) ∈ index.ledger.entries.zip index.events :=
      List.mem_iff_getElem?.mpr ⟨i, List.getElem?_zip_eq_some.mpr ⟨hentry, he⟩⟩
    exact ⟨entry, e, ⟨hmem, hvalue⟩, EvidenceLedger.sequence_of_verify index.verified hentry⟩

end LedgerIndex

/-! ## Candidates -/

/-- `none` stands for every position. -/
def AdmittedBy (candidates : Option (Finset ℕ)) (i : ℕ) : Prop := ∀ c ∈ candidates, i ∈ c

namespace LedgerSelection

variable (s : LedgerSelection D)

/-- One field's values narrow the candidates. -/
def narrow (candidates : Option (Finset ℕ)) (field : Field) : Option (Finset ℕ) :=
  let values := field.wanted s.query
  if values = [] then candidates
  else
    let union := (values.flatMap (s.index.postings.rows field)).toFinset
    some (candidates.elim union fun c => c ∩ union)

theorem candidates_eq : s.candidates = Field.all.foldl s.narrow none := rfl

/-- **One field.** What is left are the candidates whose event has one of the wanted values. -/
theorem admitted_narrow {candidates : Option (Finset ℕ)} {field : Field} {i : ℕ} {e : EvidenceEvent}
    (he : s.index.events[i]? = some e) : AdmittedBy (s.narrow candidates field) i ↔
      AdmittedBy candidates i ∧ Admits (field.wanted s.query) (field.value e) := by
  have hunion : i ∈ ((field.wanted s.query).flatMap (s.index.postings.rows field)).toFinset ↔
      ∃ v ∈ field.wanted s.query, field.value e = some v := by
    rw [List.mem_toFinset, List.mem_flatMap]
    refine exists_congr fun v => and_congr_right fun _ => ?_
    rw [s.index.mem_rows_postings, he]
    simp
  unfold narrow Admits
  by_cases hwanted : field.wanted s.query = []
  · simp [hwanted]
  · simp only [hwanted, if_false, ne_eq, not_false_eq_true, true_implies, ← hunion]
    cases candidates <;> simp [AdmittedBy]

/-- Positions past the events are in no inverted list. -/
theorem lt_of_mem_narrow {candidates : Option (Finset ℕ)} {field : Field}
    (h : ∀ c ∈ candidates, ∀ i ∈ c, i < s.index.events.length) :
    ∀ c ∈ s.narrow candidates field, ∀ i ∈ c, i < s.index.events.length := by
  intro c hc i hi
  unfold narrow at hc
  by_cases hwanted : field.wanted s.query = []
  · rw [if_pos hwanted] at hc
    exact h c hc i hi
  · rw [if_neg hwanted, Option.mem_some_iff] at hc
    cases candidates with
    | none =>
      subst hc
      obtain ⟨v, -, hv⟩ := List.mem_flatMap.mp (List.mem_toFinset.mp hi)
      obtain ⟨e, he, -⟩ := s.index.mem_rows_postings.mp hv
      exact (List.getElem?_eq_some_iff.mp he).1
    | some c' =>
      subst hc
      exact h c' rfl i (Finset.mem_inter.mp hi).1

/-- **All fields.** The candidates are the positions that every field admits. -/
theorem admitted_foldl {i : ℕ} {e : EvidenceEvent} (he : s.index.events[i]? = some e)
    (fields : List Field) : ∀ candidates : Option (Finset ℕ),
      AdmittedBy (fields.foldl s.narrow candidates) i ↔ AdmittedBy candidates i ∧
        ∀ field ∈ fields, Admits (field.wanted s.query) (field.value e) := by
  induction fields with
  | nil => intro candidates; simp
  | cons field fields ih =>
    intro candidates
    rw [List.foldl_cons, ih, s.admitted_narrow he, List.forall_mem_cons, and_assoc]

theorem lt_of_mem_foldl (fields : List Field) : ∀ candidates : Option (Finset ℕ),
    (∀ c ∈ candidates, ∀ i ∈ c, i < s.index.events.length) →
      ∀ c ∈ fields.foldl s.narrow candidates, ∀ i ∈ c, i < s.index.events.length := by
  induction fields with
  | nil => exact fun _ h => h
  | cons field fields ih => exact fun candidates h => ih _ (s.lt_of_mem_narrow h)

theorem admitted_candidates {i : ℕ} {e : EvidenceEvent} (he : s.index.events[i]? = some e) :
    AdmittedBy s.candidates i ↔ ∀ field : Field, Admits (field.wanted s.query) (field.value e) := by
  rw [candidates_eq, s.admitted_foldl he]
  have hall : ∀ field : Field, field ∈ Field.all := by
    intro field
    cases field <;> decide
  simp [AdmittedBy, hall]

/-- The rows that `positions` goes through: the candidates in ascending order. -/
theorem mem_rows {i : ℕ} :
    i ∈ s.candidates.elim (List.range s.index.ledger.entries.length) (fun c => c.sort (· ≤ ·)) ↔
      i < s.index.ledger.entries.length ∧ AdmittedBy s.candidates i := by
  have hlt := s.lt_of_mem_foldl Field.all none (by simp)
  rw [← candidates_eq, s.index.length_events] at hlt
  cases hc : s.candidates with
  | none => simp [AdmittedBy]
  | some c =>
    simp only [Option.elim_some, Finset.mem_sort, AdmittedBy, Option.mem_some_iff, forall_eq']
    exact ⟨fun hi => ⟨hlt c hc i hi, hi⟩, And.right⟩

/-- **The index answers a query as a filter would**: the positions are those of the matching
events, in ascending order, and events without a correlation group never match a
correlation-group filter. -/
theorem positions_spec :
    s.positions.Pairwise (· < ·) ∧
    (∀ i, i ∈ s.positions ↔ ∃ entry event, s.index.ledger.entries[i]? = some entry ∧
      entry.decoded "event" = .ok event ∧ s.query.Matches event) ∧
    ∀ event : EvidenceEvent, event.correlationGroup = none → s.query.correlationGroups ≠ [] →
      ¬ s.query.Matches event := by
  refine ⟨?_, fun i => ?_, fun event => LedgerQuery.not_matches_of_correlationGroup⟩
  · refine List.Pairwise.filter _ ?_
    cases s.candidates with
    | none => exact List.pairwise_lt_range
    | some c => exact c.sortedLT_sort.pairwise
  · rw [positions, List.mem_filter, s.mem_rows]
    constructor
    · rintro ⟨⟨-, hadmitted⟩, hranges⟩
      cases he : s.index.events[i]? with
      | none => simp [he] at hranges
      | some event =>
        rw [he, Option.map_some, Option.getD_some] at hranges
        obtain ⟨entry, hentry, hdecoded⟩ := s.index.getElem?_events.mp he
        exact ⟨entry, event, hentry, hdecoded, (LedgerQuery.matches_iff _ _).mpr
          ⟨(s.admitted_candidates he).mp hadmitted, hranges⟩⟩
    · rintro ⟨entry, event, hentry, hdecoded, hmatches⟩
      have he := s.index.getElem?_events.mpr ⟨entry, hentry, hdecoded⟩
      obtain ⟨hfields, hranges⟩ := (LedgerQuery.matches_iff _ _).mp hmatches
      refine ⟨⟨(List.getElem?_eq_some_iff.mp hentry).1, (s.admitted_candidates he).mpr hfields⟩, ?_⟩
      rw [he, Option.map_some, Option.getD_some]
      exact hranges

end LedgerSelection

end EvidenceBraid
