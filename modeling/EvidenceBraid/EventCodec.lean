import EvidenceBraid.Library.JsonPretty
import EvidenceBraid.LedgerProof
import EvidenceBraid.TimestampProof

/-!
# Events survive their document

`EvidenceEvent.from_dict` reads `to_dict` back (`fromDict_toDict`): every field's check accepts
what the constructor established. So every event decodes where a receipt and a ledger read it
(`EvidenceEvent.decodes`), and built ledgers verify without a further condition; and an event
survives its canonical text (`EvidenceEvent.ofText_canonicalJson`).
-/

namespace EvidenceBraid

@[simp] theorem textField_value (t : Text) (path : String) :
    textField (some (.str t.value)) path = .ok t := text_value t path

theorem enumField_value {α : Type} {members : List (String × α)} {s : String} {a : α}
    (h : members.lookup s = some a) (path : String) :
    enumField members (some (.str s)) path = .ok a := by
  simp [enumField, h, orError]

@[simp] theorem number_value {b : Bounds} (x : Number b) (path : String) :
    number (some (.float x.value)) path b = .ok x := checkNumber_value x path

/-- The strict loader reads canonical text back. -/
theorem strictLoads_canonicalJson {v : Json} (hv : Json.WellKeyed v) (indented : Bool) :
    LedgerSelection.strictLoads (canonicalJson v indented) = .ok v := by
  rw [LedgerSelection.strictLoads, orError_eq_ok]
  cases indented with
  | false => exact Json.loads_dumps hv
  | true => exact Json.loads_pretty hv (by decide) (Json.follows_newline 0 [])

namespace EvidenceEvent

@[simp] theorem correlationField_value (t : Text) (path : String) :
    correlationField (some (.str t.value)) path = .ok (some t) := by
  simp [correlationField, wrapping]

theorem nodup_keys_items (e : EvidenceEvent) : (Json.keys e.items).Nodup := by
  unfold items
  cases e.correlationGroup <;> split_ifs <;>
    simp only [Option.map_none, Option.map_some, Option.toList_none, Option.toList_some,
      List.append_nil, List.cons_append, List.nil_append, Json.keys, List.map_cons,
      List.map_nil] <;> decide

theorem keys_items (e : EvidenceEvent) : ∀ k ∈ Json.keys e.items, k ∈ fields := by
  unfold items
  cases e.correlationGroup <;> split_ifs <;>
    simp only [Option.map_none, Option.map_some, Option.toList_none, Option.toList_some,
      List.append_nil, List.cons_append, List.nil_append, Json.keys, List.map_cons,
      List.map_nil] <;> decide

theorem get?_members (e : EvidenceEvent) (k : String) :
    Json.get? e.members k = Json.get? e.items k :=
  Json.get?_foldr_insertKey e.nodup_keys_items k

theorem get?_correlationGroup (e : EvidenceEvent) :
    Json.get? e.members "correlation_group" = e.correlationGroup.map fun g => .str g.value := by
  rw [get?_members, items]
  cases e.correlationGroup <;> split_ifs <;> rfl

theorem get?_attributes (e : EvidenceEvent) :
    (Json.get? e.members "attributes").getD (.obj []) = .obj e.attributes.members := by
  rw [get?_members, items]
  cases e.correlationGroup <;> split_ifs with hempty <;> first | rfl | (rw [hempty]; rfl)

/-- **An event survives its document.** -/
@[simp] theorem fromDict_toDict (e : EvidenceEvent) (path : String) :
    fromDict e.toDict path = .ok e := by
  have honly : only e.members fields path = .ok () := by
    refine valid_of (List.filter_eq_nil_iff.mpr fun k hk => ?_)
    have hmem := e.keys_items k (Json.mem_keys_foldr_insertKey hk)
    simpa using hmem
  have hget := e.get?_members
  have hcorrelation : correlationField (Json.get? e.members "correlation_group")
      (path ++ ".correlation_group") = .ok e.correlationGroup := by
    rw [get?_correlationGroup]
    cases e.correlationGroup with
    | none => rfl
    | some g => exact correlationField_value g _
  have hattributes : mapping (some ((Json.get? e.members "attributes").getD (.obj [])))
      (path ++ ".attributes") = .ok e.attributes.members := by
    rw [get?_attributes]
    rfl
  unfold fromDict
  simp only [bind_eq_ok]
  refine ⟨e.members, rfl, (), honly, e.eventId, ?_, e.claim, ?_, e.source, ?_, e.modality, ?_,
    e.signal, ?_, e.confidence, ?_, e.observedAt, ?_, e.ingestedAt, ?_, _, hcorrelation, _,
    hattributes, _, FrozenMapping.freeze_members _ _, rfl⟩
  all_goals rw [hget]
  · exact textField_value _ _
  · exact textField_value _ _
  · exact textField_value _ _
  · exact enumField_value e.modality.lookup_value _
  · exact enumField_value e.signal.lookup_value _
  · exact number_value _ _
  · exact parseTimestamp_formatTimestamp _ _
  · exact parseTimestamp_formatTimestamp _ _

theorem decodes (e : EvidenceEvent) : e.Decodes :=
  ⟨e.fromDict_toDict _, e.fromDict_toDict _⟩

/-! ### The wire -/

/-- An event's text as a reader takes it: the strict loader, then `from_dict`. -/
def ofText (text : List Char) (path : String) : Result EvidenceEvent := do
  let raw ← LedgerSelection.strictLoads text
  fromDict raw path

/-- **An event survives its canonical text**, indented or compact, and is written back to it. -/
theorem ofText_canonicalJson (e : EvidenceEvent) (indented : Bool) (path : String) :
    ∃ e', ofText (canonicalJson e.toDict indented) path = .ok e' ∧ e' = e ∧
      canonicalJson e'.toDict indented = canonicalJson e.toDict indented := by
  refine ⟨e, ?_, rfl, rfl⟩
  have hload := strictLoads_canonicalJson e.wellKeyed_toDict indented
  simp only [ofText, bind_eq_ok]
  exact ⟨_, hload, e.fromDict_toDict path⟩

end EvidenceEvent

end EvidenceBraid
