import EvidenceBraid.Freezing
import EvidenceBraid.LedgerCodec

/-!
# Which events a ledger takes

A receipt freezes an event's whole document under the limits that the event's attributes alone were
frozen under. So distinct events make a ledger, which verifies and survives its document, exactly when
each event's document is itself within those limits (`buildLedger_complete_iff`). Attributes at the
limits are one level and some nodes too many (`deepEvent_not_built`).
-/

namespace EvidenceBraid

open Hashing
open Json (WellKeyed nodes popped)

/-- What freezing asks of a document, apart from its depth and its size. -/
def Admitted (v : Json) : Prop := ScalarAdmitted v ∧ XmlKeys v

theorem freezeJson_isOk_iff {v : Json} (hv : WellKeyed v) {path : String} :
    (∃ w k, freezeJson v path 0 maxAttributeNodes = .ok (w, k)) ↔
      (∀ x ∈ popped v, Admitted x) ∧ reach v ≤ maxAttributeDepth ∧ nodes v ≤ maxAttributeNodes := by
  simp only [freezeJson_eq_ok, freezeUnchecked_eq_ok hv, Nat.zero_add]
  constructor
  · rintro ⟨w, k, hscalars, hkeys, hreach, hnodes, -, -⟩
    exact ⟨fun x hx => ⟨hscalars x hx, hkeys x hx⟩, hreach, hnodes⟩
  · rintro ⟨hall, hreach, hnodes⟩
    exact ⟨v, _, fun x hx => (hall x hx).1, fun x hx => (hall x hx).2, hreach, hnodes, rfl, rfl⟩

namespace FrozenMapping

theorem ofKeyed_isOk_iff {kvs : List (String × Json)} (keyed : WellKeyed (.obj kvs)) {path : String} :
    (∃ a, ofKeyed kvs keyed path = .ok a) ↔
      ∃ w k, freezeJson (.obj kvs) path 0 maxAttributeNodes = .ok (w, k) := by
  unfold ofKeyed
  split
  · next e h => simp [h]
  · next w k h => simp [h]

/-- What is frozen is admitted, within the depth and the size. -/
theorem admitted (a : FrozenMapping) : (∀ x ∈ popped (.obj a.members), Admitted x) ∧
    reach (.obj a.members) ≤ maxAttributeDepth ∧ nodes (.obj a.members) ≤ maxAttributeNodes := by
  obtain ⟨left, h⟩ := a.frozen
  exact (freezeJson_isOk_iff a.keyed).mp ⟨_, left, h⟩

end FrozenMapping

namespace EvidenceEvent

/-- The limits of attributes, asked of the event's whole document. -/
def WithinLimits (e : EvidenceEvent) : Prop :=
  reach e.toDict ≤ maxAttributeDepth ∧ nodes e.toDict ≤ maxAttributeNodes

theorem admitted_str {s : String} (h : isXmlCharacter s = true) : ∀ x ∈ popped (.str s), Admitted x :=
  List.forall_mem_singleton.mpr ⟨h, trivial⟩

theorem isXmlCharacter_fields : ∀ k ∈ fields, isXmlCharacter k = true := by
  simp only [fields, List.forall_mem_cons, List.not_mem_nil, false_implies, implies_true, and_true]
  and_intros <;> exact xml_ofList rfl

/-- An event's document is admitted. -/
theorem admitted_toDict (e : EvidenceEvent) : ∀ x ∈ popped e.toDict, Admitted x := by
  have hdict : e.toDict = Json.dict e.items := rfl
  rw [hdict, Json.forall_popped_dict e.nodup_keys_items]
  constructor
  · refine ⟨trivial, fun kv hkv => isXmlCharacter_fields _ (e.keys_items _ ?_)⟩
    exact (Json.mem_keys_foldr_insertKey_iff e.nodup_keys_items).mp (List.mem_map_of_mem hkv)
  · intro kv hkv
    simp only [items, List.cons_append, List.nil_append, List.mem_cons, List.mem_append,
      Option.mem_toList, Option.map_eq_some_iff] at hkv
    rcases hkv with rfl | rfl | rfl | rfl | rfl | rfl | rfl | rfl | ⟨g, -, rfl⟩ | hkv
    · exact admitted_str e.eventId.xml
    · exact admitted_str e.claim.xml
    · exact admitted_str (by cases e.modality <;> exact xml_ofList rfl)
    · exact admitted_str e.source.xml
    · exact admitted_str (by cases e.signal <;> exact xml_ofList rfl)
    · exact List.forall_mem_singleton.mpr ⟨trivial, trivial⟩
    · exact admitted_str (isXmlCharacter_formatTimestamp _)
    · exact admitted_str (isXmlCharacter_formatTimestamp _)
    · exact admitted_str g.xml
    · split_ifs at hkv
      · cases hkv
      · obtain rfl := List.mem_singleton.mp hkv
        exact e.attributes.admitted.1

/-- A receipt freezes the documents within the limits. -/
theorem ofKeyed_members_isOk_iff (e : EvidenceEvent) (path : String) :
    (∃ a, FrozenMapping.ofKeyed e.members e.wellKeyed_toDict path = .ok a) ↔ e.WithinLimits :=
  (FrozenMapping.ofKeyed_isOk_iff e.wellKeyed_toDict).trans
    ((freezeJson_isOk_iff e.wellKeyed_toDict).trans (and_iff_right e.admitted_toDict))

end EvidenceEvent

variable {D : Type} [Hashing D]

/-- Receipts are chained when each event is within the limits. -/
theorem chainEvents_isOk_iff {events : List EvidenceEvent} : ∀ {previous : D} {sequence : ℕ},
    (∃ entries, chainEvents previous sequence events = .ok entries) ↔
      ∀ e ∈ events, e.WithinLimits := by
  induction events with
  | nil => exact iff_of_true ⟨[], rfl⟩ (by simp)
  | cons event events ih =>
    intro previous sequence
    rw [List.forall_mem_cons, ← event.ofKeyed_members_isOk_iff "ledger.event",
      ← @ih (chainDigest previous event sequence "2.0") (sequence + 1)]
    simp only [chainEvents, bind_eq_ok, Except.ok.injEq]
    constructor
    · rintro ⟨_, frozen, hfrozen, entries, hentries, -⟩
      exact ⟨⟨frozen, hfrozen⟩, entries, hentries⟩
    · rintro ⟨⟨frozen, hfrozen⟩, entries, hentries⟩
      exact ⟨_, frozen, hfrozen, entries, hentries, rfl⟩

theorem buildLedger_isOk_iff {events : List EvidenceEvent} (hcount : events.length ≤ maxLedgerEntries)
    (hdistinct : (events.map fun e => e.eventId.value).Nodup) :
    (∃ ledger : EvidenceLedger D, buildLedger events = .ok ledger) ↔
      ∀ e ∈ events, e.WithinLimits := by
  have hperm : (events.insertionSort receiptOrder).Perm events := List.perm_insertionSort _ _
  have hsorted : ((events.insertionSort receiptOrder).map fun e => e.eventId.value).Nodup :=
    (hperm.map _).nodup_iff.mpr hdistinct
  have hall : (∀ e ∈ events, e.WithinLimits) ↔
      ∀ e ∈ events.insertionSort receiptOrder, e.WithinLimits := by
    simp only [hperm.mem_iff]
  rw [hall, ← @chainEvents_isOk_iff D _ _ (sha256 (Utf8.encode "evidence-braid-ledger:v2".toList)) 0]
  simp only [buildLedger, bind_eq_ok, valid_eq_ok, exists_unit, Except.ok.injEq, hcount, hsorted,
    true_and]
  constructor
  · rintro ⟨_, entries, hentries, -⟩
    exact ⟨entries, hentries⟩
  · rintro ⟨entries, hentries⟩
    exact ⟨_, entries, hentries, rfl⟩

variable [DecidableEq D]

/-- **Which events a ledger takes**: those whose whole documents are within the limits of attributes.
Their ledger verifies and survives its document. -/
theorem buildLedger_complete_iff {events : List EvidenceEvent}
    (hcount : events.length ≤ maxLedgerEntries)
    (hdistinct : (events.map fun e => e.eventId.value).Nodup) :
    (∃ ledger : EvidenceLedger D, buildLedger events = .ok ledger ∧ ledger.verify = true ∧
      EvidenceLedger.fromDict ledger.toDict none = .ok ledger) ↔ ∀ e ∈ events, e.WithinLimits := by
  rw [← @buildLedger_isOk_iff D _ _ hcount hdistinct]
  constructor
  · rintro ⟨ledger, hledger, -⟩
    exact ⟨ledger, hledger⟩
  · rintro ⟨ledger, hledger⟩
    have hverify := (verify_buildLedger hledger fun e _ => e.decodes).1
    exact ⟨ledger, hledger, hverify, EvidenceLedger.fromDict_toDict hverify nofun⟩

/-- One event without attributes makes a ledger. -/
theorem buildLedger_complete_iff_sample :
    (∃ ledger : EvidenceLedger HexDigest, buildLedger [sampleEvent] = .ok ledger ∧
      ledger.verify = true ∧ EvidenceLedger.fromDict ledger.toDict none = .ok ledger) ↔
      ∀ e ∈ [sampleEvent], e.WithinLimits :=
  buildLedger_complete_iff (by decide) (List.nodup_singleton _)

/-! ## Attributes at the limit -/

/-- Lists nested this deep. -/
def nestedLists : ℕ → Json
  | 0 => .null
  | n + 1 => .arr [nestedLists n]

theorem reach_nestedLists (n : ℕ) : reach (nestedLists n) = n := by
  induction n with
  | zero => rfl
  | succ n ih => rw [nestedLists, reach, reachItems, reachItems, ih, Nat.max_zero]

theorem nodes_nestedLists (n : ℕ) : nodes (nestedLists n) = n + 1 := by
  induction n with
  | zero => rfl
  | succ n ih =>
    rw [nestedLists, Json.nodes_arr, List.map_singleton, List.sum_singleton, ih, Nat.add_comm]

theorem wellKeyed_nestedLists (n : ℕ) : WellKeyed (nestedLists n) := by
  induction n with
  | zero => trivial
  | succ n ih =>
    apply Json.wellKeyed_arr.mpr
    exact List.forall_mem_singleton.mpr ih

theorem admitted_nestedLists (n : ℕ) : ∀ x ∈ popped (nestedLists n), Admitted x := by
  induction n with
  | zero => exact List.forall_mem_singleton.mpr ⟨trivial, trivial⟩
  | succ n ih =>
    exact Json.forall_popped_arr.mpr ⟨⟨trivial, trivial⟩, List.forall_mem_singleton.mpr ih⟩

/-- One attribute, nested as deep as attributes may be. -/
def deepMembers : List (String × Json) := [("a", nestedLists 63)]

theorem wellKeyed_deepMembers : WellKeyed (.obj deepMembers) :=
  Json.wellKeyed_obj.mpr ⟨List.pairwise_singleton _ _,
    List.forall_mem_singleton.mpr (wellKeyed_nestedLists 63)⟩

theorem reach_deepMembers : reach (.obj deepMembers) = maxAttributeDepth := by
  rw [deepMembers, reach, reachMembers, reachMembers, reach_nestedLists]
  rfl

theorem freezeJson_deepMembers :
    ∃ w k, freezeJson (.obj deepMembers) "" 0 maxAttributeNodes = .ok (w, k) := by
  apply (freezeJson_isOk_iff wellKeyed_deepMembers).mpr
  refine ⟨?_, reach_deepMembers.le, ?_⟩
  · rw [popped, List.forall_mem_cons, Json.forall_poppedMembers]
    refine ⟨⟨trivial, ?_⟩, ?_⟩
    · exact List.forall_mem_singleton.mpr (by decide)
    · exact List.forall_mem_singleton.mpr (admitted_nestedLists 63)
  · rw [nodes, popped, List.length_cons, Json.length_poppedMembers, deepMembers, List.map_singleton,
      List.sum_singleton, nodes_nestedLists]
    decide

/-- The frozen attribute. -/
def deepAttributes : FrozenMapping where
  members := deepMembers
  keyed := wellKeyed_deepMembers
  frozen := by
    obtain ⟨w, k, h⟩ := freezeJson_deepMembers
    obtain rfl := freezeJson_eq wellKeyed_deepMembers h
    exact ⟨k, h⟩

/-- A valid event with this attribute. -/
def deepEvent : EvidenceEvent := { sampleEvent with attributes := deepAttributes }

theorem le_reachMembers {kvs : List (String × Json)} {kv : String × Json} (h : kv ∈ kvs) :
    reach kv.2 + 1 ≤ reachMembers kvs := by
  induction kvs with
  | nil => cases h
  | cons kv' kvs ih =>
    rw [reachMembers]
    rcases List.mem_cons.mp h with rfl | h
    · exact le_max_left _ _
    · exact (ih h).trans (le_max_right _ _)

theorem deepEvent_not_withinLimits : ¬ deepEvent.WithinLimits := by
  rintro ⟨hreach, -⟩
  have hne : deepEvent.attributes.members ≠ [] := List.cons_ne_nil _ _
  have hitem : ("attributes", Json.obj deepMembers) ∈ deepEvent.items := by
    rw [EvidenceEvent.items, if_neg hne]
    exact List.mem_append_right _ (List.mem_singleton_self _)
  have hmember : ("attributes", Json.obj deepMembers) ∈ deepEvent.members :=
    (Json.foldr_insertKey_perm deepEvent.nodup_keys_items).mem_iff.mpr hitem
  have hle := le_reachMembers hmember
  rw [reach_deepMembers] at hle
  exact absurd (hle.trans hreach) (by decide)

/-- **A valid event that no ledger takes.** -/
theorem deepEvent_not_built : ¬ ∃ ledger : EvidenceLedger HexDigest,
    buildLedger [deepEvent] = .ok ledger := by
  have hiff := @buildLedger_isOk_iff HexDigest _ [deepEvent] (by decide) (List.nodup_singleton _)
  rw [hiff]
  exact fun h => deepEvent_not_withinLimits (h deepEvent (List.mem_singleton_self _))

end EvidenceBraid
