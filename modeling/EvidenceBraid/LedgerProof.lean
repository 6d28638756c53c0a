import EvidenceBraid.Query

/-!
# Built ledgers verify

`build_ledger` chains the receipts that `EvidenceLedger.verify` re-derives: a built ledger over
events that decode from their own documents is verified (`verify_buildLedger`), and within the
index limit it has a query index (`exists_index`).
-/

namespace EvidenceBraid

open Hashing

/-- An event that decodes from its own document, where a receipt and where a ledger reads it. -/
def EvidenceEvent.Decodes (e : EvidenceEvent) : Prop :=
  fromDict e.toDict "entry.event" = .ok e ∧ fromDict e.toDict "event" = .ok e

variable {D : Type} [Hashing D]

/-- The receipt of an event that decodes is its own document's. -/
theorem LedgerEntry.fromDict_of_decodes {event : EvidenceEvent} (h : event.Decodes)
    {e : LedgerEntry D} (hmembers : e.event.members = event.members)
    (hid : e.eventId = event.eventId.value) (hsequence : e.sequence < maxLedgerEntries) :
    fromDict e.toDict = .ok e ∧ e.decoded "event" = .ok event := by
  obtain ⟨sequence, eventId, ⟨members, keyed, frozen⟩, previous, digest⟩ := e
  have hdoc : .obj members = event.toDict := congrArg Json.obj hmembers
  have hdecodes : EvidenceEvent.fromDict (.obj members) "entry.event" = .ok event ∧
      EvidenceEvent.fromDict (.obj members) "event" = .ok event := by
    rw [hdoc]
    exact h
  obtain rfl : eventId = event.eventId.value := hid
  have hfrozen := FrozenMapping.ofKeyed_eq event.wellKeyed_toDict
    (a := ⟨members, keyed, frozen⟩) hmembers "ledger.event"
  have hnumber : sequence? (some (.int sequence)) = some sequence := by
    simpa [sequence?] using hsequence
  refine ⟨?_, hdecodes.2⟩
  rw [toDict_eq, fromDict]
  simp only [bind_eq_ok]
  exact ⟨_, exactly_of_keys rfl, sequence, orError_eq_ok.mpr hnumber, event, hdecodes.1, (),
    valid_of (congrArg (canonicalJson · true) hdoc), (), valid_of rfl, previous, readHash_hex _ _,
    digest, readHash_hex _ _, _, hfrozen, rfl⟩

variable [DecidableEq D]

/-- **The chained receipts verify.** -/
theorem verifyLinks_chainEvents {events : List EvidenceEvent} :
    ∀ {previous : D} {sequence : ℕ} {ids : List String} {entries : List (LedgerEntry D)},
      chainEvents previous sequence events = .ok entries → (∀ e ∈ events, e.Decodes) →
      (ids ++ events.map fun e => e.eventId.value).Nodup →
      sequence + events.length ≤ maxLedgerEntries →
        entries.length = events.length ∧
        entries.map (·.decoded "event") = events.map Except.ok ∧
        (EvidenceLedger.verifyLinks "2.0" sequence previous ids entries).isSome := by
  induction events with
  | nil =>
    intro previous sequence ids entries h _ _ _
    obtain rfl : [] = entries := by simpa [chainEvents] using h
    exact ⟨rfl, rfl, rfl⟩
  | cons event events ih =>
    intro previous sequence ids entries h hdecodes hnodup hmax
    simp only [chainEvents, bind_eq_ok, Except.ok.injEq] at h
    obtain ⟨frozen, hfrozen, rest, hrest, rfl⟩ := h
    rw [List.length_cons] at hmax
    rw [List.map_cons, List.nodup_append] at hnodup
    have hid : event.eventId.value ∉ ids := fun hmem =>
      hnodup.2.2 _ hmem _ (List.mem_cons_self) rfl
    have hnodup' : ((event.eventId.value :: ids) ++ events.map fun e => e.eventId.value).Nodup := by
      refine List.nodup_append.mpr ⟨List.nodup_cons.mpr ⟨hid, hnodup.1⟩,
        (List.nodup_cons.mp hnodup.2.1).2, ?_⟩
      intro a ha b hb
      rcases List.mem_cons.mp ha with rfl | ha
      · exact fun heq => (List.nodup_cons.mp hnodup.2.1).1 (heq ▸ hb)
      · exact hnodup.2.2 a ha b (List.mem_cons_of_mem _ hb)
    obtain ⟨hlen, hdec, hlinks⟩ := ih hrest (fun e he => hdecodes e (by simp [he])) hnodup'
      (by omega)
    have hentry := LedgerEntry.fromDict_of_decodes (hdecodes event (by simp))
      (e := ⟨sequence, event.eventId.value, frozen, previous,
        chainDigest previous event sequence "2.0"⟩)
      (FrozenMapping.ofKeyed_eq_ok hfrozen) rfl (by change sequence < _; omega)
    refine ⟨by rw [List.length_cons, List.length_cons, hlen], ?_, ?_⟩
    · rw [List.map_cons, List.map_cons, hentry.2, hdec]
    · rw [EvidenceLedger.verifyLinks, hentry.1]
      simpa [Except.toOption, hentry.2, hid] using hlinks

/-- **A built ledger verifies.** -/
theorem verify_buildLedger {events : List EvidenceEvent} {ledger : EvidenceLedger D}
    (h : buildLedger events = .ok ledger) (hdecodes : ∀ e ∈ events, e.Decodes) :
    ledger.verify = true ∧ ledger.entries.length = events.length ∧
      ledger.entries.map (·.decoded "event") =
        (events.insertionSort receiptOrder).map Except.ok := by
  simp only [buildLedger, bind_eq_ok, valid_eq_ok, exists_unit, Except.ok.injEq] at h
  obtain ⟨hmax, hnodup, entries, hentries, rfl⟩ := h
  have hlen := List.length_insertionSort receiptOrder events
  obtain ⟨hcount, hdec, hlinks⟩ := @verifyLinks_chainEvents D _ _ _ _ _ [] _ hentries
    (fun e he => hdecodes e ((List.mem_insertionSort receiptOrder).mp he)) (by simpa using hnodup)
    (by rw [hlen]; omega)
  refine ⟨?_, by rw [hcount, hlen], hdec⟩
  simp only [EvidenceLedger.verify, Bool.and_eq_true, decide_eq_true_eq]
  exact ⟨⟨rfl, by rw [hcount, hlen]; exact hmax⟩, hlinks⟩

/-! ## A smallest ledger -/

omit [DecidableEq D] in
/-- A receipt takes the bytes of its parts and of its keys. -/
theorem entrySize_le (e : LedgerEntry D) :
    entrySize e ≤ Json.quotedSize (hex e.digest) + Json.size (.obj e.event.members) +
      Json.quotedSize e.eventId + Json.quotedSize (hex e.previousDigest) +
        Json.size (.int e.sequence) + 64 := by
  change Json.size e.toDict ≤ _
  rw [e.toDict_eq]
  refine (Json.size_obj_le _).trans ?_
  have hkeys : Json.quotedSize "digest" = 8 ∧ Json.quotedSize "event" = 7 ∧
      Json.quotedSize "event_id" = 10 ∧ Json.quotedSize "previous_digest" = 17 ∧
      Json.quotedSize "sequence" = 10 := by
    and_intros <;> exact Json.quotedSize_literal rfl
  simp only [List.map_cons, List.map_nil, List.sum_cons, List.sum_nil, Json.size_str, hkeys]
  clear hkeys
  omega

/-- An event without attributes. -/
def sampleEvent : EvidenceEvent where
  eventId := .literal "e"
  claim := .literal "c"
  modality := .text
  source := .literal "s"
  signal := .support
  confidence := zeroUnit
  observedAt := .earliest
  ingestedAt := .earliest
  correlationGroup := none
  attributes := .empty

theorem decodes_sampleEvent : sampleEvent.Decodes := by
  unfold EvidenceEvent.Decodes
  decide +kernel

theorem size_sampleEvent : Json.size sampleEvent.toDict ≤ 400 := by decide +kernel

section Sample

variable (D)

/-- The only receipt of the ledger over that event. -/
def sampleEntry : LedgerEntry D :=
  let genesis : D := sha256 (Utf8.encode "evidence-braid-ledger:v2".toList)
  { sequence := 0, eventId := "e"
    event := ⟨sampleEvent.members, sampleEvent.wellKeyed_toDict, maxAttributeNodes - 9,
      by decide +kernel⟩
    previousDigest := genesis, digest := chainDigest genesis sampleEvent 0 "2.0" }

def sampleLedger : EvidenceLedger D :=
  ⟨[sampleEntry D], sha256 (Utf8.encode "evidence-braid-ledger:v2".toList), "2.0"⟩

omit [DecidableEq D] in
theorem buildLedger_sampleEvent : buildLedger [sampleEvent] = .ok (sampleLedger D) := by
  have hfrozen := FrozenMapping.ofKeyed_members (sampleEntry D).event "ledger.event"
  simp only [buildLedger, bind_eq_ok]
  exact ⟨(), valid_of (by decide), (), valid_of (by decide), _, by
    simp only [List.insertionSort_cons, List.insertionSort_nil, List.orderedInsert_nil, chainEvents,
      bind_eq_ok]
    exact ⟨_, hfrozen, [], rfl, rfl⟩, rfl⟩

/-- The index of the smallest ledger. -/
def sampleIndex (h : entrySize (sampleEntry D) ≤ 11000) : LedgerIndex D where
  ledger := sampleLedger D
  events := [sampleEvent]
  verified := (verify_buildLedger (buildLedger_sampleEvent D) (by simp [decodes_sampleEvent])).1
  decoded := by
    have hdecoded := (verify_buildLedger (buildLedger_sampleEvent D)
      (by simp [decodes_sampleEvent])).2.2
    simpa using hdecoded
  sized := by
    have hmax : 11000 ≤ maxIndexBytes := by decide
    simpa [sampleLedger] using h.trans hmax

end Sample

omit [DecidableEq D] in
theorem size_sampleEntry_le (h : Json.quotedSize (hex (sampleEntry D).digest) +
    Json.quotedSize (hex (sampleEntry D).previousDigest) ≤ 10000) :
    entrySize (sampleEntry D) ≤ 11000 := by
  have hsize := entrySize_le (sampleEntry D)
  have hevent : Json.size (.obj (sampleEntry D).event.members) ≤ 400 := size_sampleEvent
  have hid : Json.quotedSize (sampleEntry D).eventId = 3 :=
    (Json.quotedSize_literal rfl : Json.quotedSize "e" = 3)
  have hseq : Json.size (.int (sampleEntry D).sequence) = 1 := (by decide : Json.size (.int 0) = 1)
  omega

theorem size_sampleEntry_hex : entrySize (sampleEntry HexDigest) ≤ 11000 :=
  size_sampleEntry_le (by rw [quotedSize_hex, quotedSize_hex]; decide)

/-- A preimage is written with one character a byte. -/
theorem Preimage.quotedSize_hex_le (p : Preimage) :
    Json.quotedSize (hex p) ≤ 6 * p.bytes.length + 2 := by
  rw [← p.length_hexText]
  exact Json.quotedSize_le _

theorem size_sampleEntry_preimage : entrySize (sampleEntry Preimage) ≤ 11000 := by
  refine size_sampleEntry_le ?_
  have hgenesis := (sampleEntry Preimage).previousDigest.quotedSize_hex_le
  have hlen : (sampleEntry Preimage).previousDigest.bytes.length = 24 := by decide
  have hdigest := (sampleEntry Preimage).digest.quotedSize_hex_le
  have hdoc : (sampleEntry Preimage).digest.bytes.length = Json.size (.obj
      [("event", sampleEvent.toDict),
        ("previous_digest", .str (hex (sampleEntry Preimage).previousDigest)),
        ("schema_version", .str "2.0"), ("sequence", .int (0 : ℕ))]) := by
    rw [← Json.dict_of_sorted (by decide)]
    rfl
  have hsize := Json.size_obj_le [("event", sampleEvent.toDict),
    ("previous_digest", .str (hex (sampleEntry Preimage).previousDigest)),
    ("schema_version", .str "2.0"), ("sequence", .int (0 : ℕ))]
  have hkeys : Json.quotedSize "event" = 7 ∧ Json.quotedSize "previous_digest" = 17 ∧
      Json.quotedSize "schema_version" = 16 ∧ Json.quotedSize "sequence" = 10 ∧
      Json.quotedSize "2.0" = 5 := by
    and_intros <;> exact Json.quotedSize_literal rfl
  have hzero : Json.size (.int (0 : ℕ)) = 1 := by decide
  have hevent := size_sampleEvent
  simp only [List.map_cons, List.map_nil, List.sum_cons, List.sum_nil, Json.size_str, hkeys,
    hzero] at hsize
  clear hkeys hzero
  rw [hlen] at hgenesis
  rw [hdoc] at hdigest
  clear hlen hdoc
  omega

end EvidenceBraid
