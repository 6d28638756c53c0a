import Mathlib.Data.List.Sort
import EvidenceBraid.Hashing
import EvidenceBraid.Event

/-!
# The evidence ledger

Versioned receipt chains of `ledger.py`: a receipt holds an event's document, its predecessor's
digest and its own. `EvidenceLedger.verify` re-derives every link.
-/

namespace EvidenceBraid

open Hashing
open Json (WellKeyed)

def maxLedgerEntries : ℕ := 100000

variable {D : Type} [Hashing D]

/-- `_VERSIONS`: the genesis digest of a supported ledger version. -/
def versions? (version : String) : Option D :=
  if version = "1.0" then some (sha256 (Utf8.encode "evidence-braid-ledger:v1".toList))
  else if version = "2.0" then some (sha256 (Utf8.encode "evidence-braid-ledger:v2".toList))
  else none

/-- `_digest`: the digest of a receipt's link. -/
def chainDigest (previous : D) (event : EvidenceEvent) (sequence : ℕ) (version : String) : D :=
  if version = "1.0" then
    sha256 (Utf8.encode ((hex previous).toList ++ '\n' :: canonicalJson event.toDict false))
  else
    sha256 (canonicalBytes (Json.dict [("schema_version", .str version),
      ("sequence", .int sequence), ("previous_digest", .str (hex previous)),
      ("event", event.toDict)]))

/-- `_fields`: an object with exactly these keys. -/
def exactly (value : Json) (names : List String) (path : String) :
    Result (List (String × Json)) :=
  match value with
  | .obj kvs => do
    valid ((∀ k ∈ Json.keys kvs, k ∈ names) ∧ ∀ n ∈ names, n ∈ Json.keys kvs)
      (path ++ " must contain exactly: " ++ ", ".intercalate names)
    .ok kvs
  | _ => .error (.validation (path ++ " must contain exactly: " ++ ", ".intercalate names))

theorem exactly_of_keys {kvs : List (String × Json)} {names : List String} {path : String}
    (h : Json.keys kvs = names) : exactly (.obj kvs) names path = .ok kvs := by
  subst h
  simp [exactly]

theorem exactly_eq_ok {value : Json} {names : List String} {path : String}
    {kvs : List (String × Json)} : exactly value names path = .ok kvs ↔
      value = .obj kvs ∧ ∀ k, k ∈ Json.keys kvs ↔ k ∈ names := by
  cases value with
  | obj lws =>
    simp only [exactly, bind_eq_ok, valid_eq_ok, exists_unit, Except.ok.injEq, Json.obj.injEq]
    constructor
    · rintro ⟨⟨hsub, hall⟩, rfl⟩
      exact ⟨rfl, fun k => ⟨hsub k, hall k⟩⟩
    · rintro ⟨rfl, h⟩
      exact ⟨⟨fun k => (h k).mp, fun k => (h k).mpr⟩, rfl⟩
  | _ => simp [exactly]

/-- A dict with these keys passes, with its items in key order. -/
theorem exactly_dict {items : List (String × Json)} {names : List String} {path : String}
    (hnodup : (Json.keys items).Nodup) (h : ∀ k, k ∈ Json.keys items ↔ k ∈ names) :
    exactly (Json.dict items) names path = .ok (items.foldr Json.insertKey []) :=
  exactly_eq_ok.mpr ⟨rfl, fun k => (Json.mem_keys_foldr_insertKey_iff hnodup).trans (h k)⟩

/-- `_hash(value, path)` of a member. -/
def hashField (value : Option Json) (path : String) : Result D :=
  match value with
  | some (.str s) => readHash s path
  | _ => .error (.validation (path ++ " must be a lowercase SHA-256 digest"))

theorem hashField_eq_ok {value : Option Json} {path : String} {d : D} :
    hashField value path = .ok d ↔ value = some (.str (hex d)) := by
  constructor
  · intro h
    unfold hashField at h
    split at h
    · rw [hex_of_readHash h]
    · cases h
  · rintro rfl
    exact readHash_hex d path

/-- One event and its predecessor. -/
structure LedgerEntry (D : Type) where
  sequence : ℕ
  eventId : String
  event : FrozenMapping
  previousDigest : D
  digest : D
  deriving DecidableEq

namespace LedgerEntry

def fields : List String := ["digest", "event", "event_id", "previous_digest", "sequence"]

/-- `LedgerEntry.to_dict`. -/
def toDict (e : LedgerEntry D) : Json :=
  Json.dict [("sequence", .int e.sequence), ("event_id", .str e.eventId),
    ("event", .obj e.event.members), ("previous_digest", .str (hex e.previousDigest)),
    ("digest", .str (hex e.digest))]

/-- A document's sequence number, if it is an integer within the ledger's limit. -/
def sequence? (value : Option Json) : Option ℕ :=
  match value with
  | some (.int n) => if 0 ≤ n ∧ n < maxLedgerEntries then some n.toNat else none
  | _ => none

/-- `LedgerEntry.from_dict`. -/
def fromDict (value : Json) : Result (LedgerEntry D) := do
  let data ← exactly value fields "entry"
  let sequence ← orError (sequence? (Json.get? data "sequence"))
    (.validation "entry.sequence must be an integer within ledger limits")
  let raw := (Json.get? data "event").getD .null
  let event ← EvidenceEvent.fromDict raw "entry.event"
  valid (canonicalJson raw true = canonicalJson event.toDict true)
    "entry.event must use the canonical event representation"
  valid (Json.get? data "event_id" = some (.str event.eventId.value))
    "entry.event_id must match its event"
  let previousDigest ← hashField (Json.get? data "previous_digest") "entry.previous_digest"
  let digest ← hashField (Json.get? data "digest") "entry.digest"
  let frozen ← FrozenMapping.ofKeyed event.members event.wellKeyed_toDict "ledger.event"
  .ok ⟨sequence, event.eventId.value, frozen, previousDigest, digest⟩

theorem toDict_eq (e : LedgerEntry D) : e.toDict =
    .obj [("digest", .str (hex e.digest)), ("event", .obj e.event.members),
      ("event_id", .str e.eventId), ("previous_digest", .str (hex e.previousDigest)),
      ("sequence", .int e.sequence)] := by
  simp +decide only [toDict, Json.dict, List.foldr, Json.insertKey, if_true, if_false]

/-- A receipt's document has sorted keys. -/
theorem wellKeyed_toDict (e : LedgerEntry D) : WellKeyed e.toDict := by
  refine Json.wellKeyed_dict ?_
  intro kv hkv
  simp only [List.mem_cons, List.not_mem_nil, or_false] at hkv
  rcases hkv with rfl | rfl | rfl | rfl | rfl
  on_goal 3 => exact e.event.keyed
  all_goals simp

/-- **A receipt is determined by its document.** -/
theorem toDict_injective : Function.Injective (toDict : LedgerEntry D → Json) := by
  intro a b h
  rw [toDict_eq, toDict_eq] at h
  simp only [Json.obj.injEq, List.cons.injEq, Prod.mk.injEq, Json.str.injEq, Json.int.injEq,
    hex_inj, true_and, and_true, Nat.cast_inj] at h
  obtain ⟨hdigest, hevent, hid, hprev, hseq⟩ := h
  cases a
  cases b
  simp_all [FrozenMapping.ext_iff]

theorem sequence?_lt {value : Option Json} {n : ℕ} (h : sequence? value = some n) :
    n < maxLedgerEntries := by
  unfold sequence? at h
  split at h
  · split_ifs at h with hn
    simp only [Option.some.injEq] at h
    omega
  · simp at h

/-- **What a receipt's own document decodes to**: the receipt, when it decodes at all. -/
theorem fromDict_toDict {e parsed : LedgerEntry D} (h : fromDict e.toDict = .ok parsed) :
    parsed = e ∧ e.sequence < maxLedgerEntries ∧ ∃ event,
      EvidenceEvent.fromDict (.obj e.event.members) "entry.event" = .ok event ∧
        event.members = e.event.members ∧ e.eventId = event.eventId.value := by
  rw [toDict_eq, fromDict, exactly] at h
  simp only [bind_eq_ok, valid_eq_ok, orError_eq_ok, Except.ok.injEq, exists_and_left,
    exists_unit] at h
  obtain ⟨kvs, ⟨-, rfl⟩, n, hn, event, hevent, hcanon, hid, h⟩ := h
  obtain ⟨prev, hprev, digest, hdigest, frozen, hfrozen, rfl⟩ := h
  simp +decide only [Json.get?_cons, if_true, if_false, hashField, Option.some.injEq,
    Json.str.injEq, Option.getD_some] at hn hevent hcanon hid hprev hdigest
  have hmembers : event.members = e.event.members := by
    have hdoc := canonicalJson_inj e.event.keyed event.wellKeyed_toDict hcanon
    rw [EvidenceEvent.toDict, Json.obj.injEq] at hdoc
    exact hdoc.symm
  have hsize := sequence?_lt hn
  have hseq : n = e.sequence := by
    simp only [sequence?] at hn
    split_ifs at hn
    simpa using hn.symm
  rw [readHash_hex, Except.ok.injEq] at hprev hdigest
  refine ⟨?_, hseq ▸ hsize, event, hevent, hmembers, hid⟩
  have hfields := FrozenMapping.ofKeyed_eq_ok hfrozen
  cases e
  simp_all [FrozenMapping.ext_iff]

end LedgerEntry

/-! ## Chains -/

variable [DecidableEq D]

/-- An immutable chain of receipts. -/
structure EvidenceLedger (D : Type) where
  entries : List (LedgerEntry D)
  genesis : D
  schemaVersion : String
  deriving DecidableEq

/-- The event that a receipt's document decodes to. -/
def LedgerEntry.decoded (e : LedgerEntry D) (path : String) : Result EvidenceEvent :=
  EvidenceEvent.fromDict (.obj e.event.members) path

namespace EvidenceLedger

/-- The loop of `verify`: the links from a position on, after these digests and identifiers. -/
def verifyLinks (version : String) (sequence : ℕ) (previous : D) (identifiers : List String) :
    List (LedgerEntry D) → Option D
  | [] => some previous
  | entry :: entries => do
    let parsed ← (LedgerEntry.fromDict entry.toDict : Result (LedgerEntry D)).toOption
    let event ← (parsed.decoded "event").toOption
    if parsed.sequence ≠ sequence ∨ parsed.eventId ∈ identifiers then none
    else if parsed.previousDigest ≠ previous ∨
        parsed.digest ≠ chainDigest previous event sequence version then none
    else verifyLinks version (sequence + 1) parsed.digest (parsed.eventId :: identifiers) entries

/-- `verify`, without an expected head. -/
def verify (l : EvidenceLedger D) : Bool :=
  versions? l.schemaVersion = some l.genesis && decide (l.entries.length ≤ maxLedgerEntries) &&
    (verifyLinks l.schemaVersion 0 l.genesis [] l.entries).isSome

/-- `head_digest`. -/
def headDigest (l : EvidenceLedger D) : D := (l.entries.getLast?.map (·.digest)).getD l.genesis

/-- One verified link: the receipt decodes to itself, follows its predecessor and hashes its
event. -/
structure Link (version : String) (sequence : ℕ) (previous : D) (entry : LedgerEntry D) : Prop where
  decodes : LedgerEntry.fromDict entry.toDict = .ok entry
  sequence_eq : entry.sequence = sequence
  previous_eq : entry.previousDigest = previous
  hashed : ∃ event, entry.decoded "event" = .ok event ∧
    entry.digest = chainDigest previous event sequence version

theorem toOption_eq_some {α : Type} {x : Result α} {a : α} : x.toOption = some a ↔ x = .ok a := by
  cases x <;> simp [Except.toOption]

/-- What a verified chain says of its first link and of the rest. -/
theorem verifyLinks_cons {version : String} {sequence : ℕ} {previous : D} {ids : List String}
    {entry : LedgerEntry D} {entries : List (LedgerEntry D)} {head : D}
    (h : verifyLinks version sequence previous ids (entry :: entries) = some head) :
    Link version sequence previous entry ∧ entry.eventId ∉ ids ∧
      verifyLinks version (sequence + 1) entry.digest (entry.eventId :: ids) entries = some head := by
  simp only [verifyLinks, Option.bind_eq_bind, Option.bind_eq_some_iff, toOption_eq_some] at h
  obtain ⟨parsed, hparsed, event, hevent, h⟩ := h
  obtain ⟨rfl, -⟩ := LedgerEntry.fromDict_toDict hparsed
  split_ifs at h with hpos hlink
  simp only [not_or, not_not] at hpos hlink
  exact ⟨⟨hparsed, hpos.1, hlink.1, event, hevent, hlink.2⟩, hpos.2, h⟩

/-- A link with a new identifier is passed. -/
theorem verifyLinks_of_link {version : String} {sequence : ℕ} {previous : D} {ids : List String}
    {entry : LedgerEntry D} {entries : List (LedgerEntry D)}
    (h : Link version sequence previous entry) (hid : entry.eventId ∉ ids) :
    verifyLinks version sequence previous ids (entry :: entries) =
      verifyLinks version (sequence + 1) entry.digest (entry.eventId :: ids) entries := by
  obtain ⟨event, hevent, hdigest⟩ := h.hashed
  rw [verifyLinks, h.decodes]
  simp [Except.toOption, hevent, h.sequence_eq, hid, h.previous_eq, ← hdigest]

/-- **Every receipt of a verified chain** is linked at its own position. -/
theorem link_of_verifyLinks {version : String} {entries : List (LedgerEntry D)} :
    ∀ {sequence : ℕ} {previous : D} {ids : List String} {head : D},
      verifyLinks version sequence previous ids entries = some head →
        ∀ i (hi : i < entries.length), ∃ prev, Link version (sequence + i) prev entries[i] := by
  induction entries with
  | nil => intro _ _ _ _ _ i hi; simp at hi
  | cons entry entries ih =>
    intro sequence previous ids head h i hi
    obtain ⟨hlink, -, hrest⟩ := verifyLinks_cons h
    cases i with
    | zero => exact ⟨previous, hlink⟩
    | succ i =>
      obtain ⟨prev, hprev⟩ := ih hrest i (by simpa using hi)
      refine ⟨prev, ?_⟩
      rw [show sequence + (i + 1) = sequence + 1 + i by omega]
      exact hprev

/-- A prefix of a verified chain is verified. -/
theorem verifyLinks_take {version : String} {entries : List (LedgerEntry D)} :
    ∀ {sequence : ℕ} {previous : D} {ids : List String} (k : ℕ),
      (verifyLinks version sequence previous ids entries).isSome →
        (verifyLinks version sequence previous ids (entries.take k)).isSome := by
  induction entries with
  | nil => intro _ _ _ k h; simpa using h
  | cons entry entries ih =>
    intro sequence previous ids k h
    cases k with
    | zero => simp [verifyLinks]
    | succ k =>
      obtain ⟨head, hhead⟩ := Option.isSome_iff_exists.mp h
      obtain ⟨hlink, hid, hrest⟩ := verifyLinks_cons hhead
      rw [List.take_succ_cons, verifyLinks_of_link hlink hid]
      exact ih k (by rw [hrest]; rfl)

end EvidenceLedger

/-! ## Building a chain -/

/-- The order of receipts: by ingestion time, then by event identity. -/
def receiptOrder (a b : EvidenceEvent) : Prop :=
  a.ingestedAt < b.ingestedAt ∨ a.ingestedAt = b.ingestedAt ∧ a.eventId.value ≤ b.eventId.value

instance : DecidableRel receiptOrder := fun a b => by unfold receiptOrder; infer_instance

/-- The receipts that chain these events. -/
def chainEvents (previous : D) (sequence : ℕ) : List EvidenceEvent → Result (List (LedgerEntry D))
  | [] => .ok []
  | event :: events => do
    let digest := chainDigest previous event sequence "2.0"
    let frozen ← FrozenMapping.ofKeyed event.members event.wellKeyed_toDict "ledger.event"
    let entries ← chainEvents digest (sequence + 1) events
    .ok (⟨sequence, event.eventId.value, frozen, previous, digest⟩ :: entries)

/-- `build_ledger`. -/
def buildLedger (events : List EvidenceEvent) : Result (EvidenceLedger D) := do
  valid (events.length ≤ maxLedgerEntries) "ledger exceeds maximum entry count"
  let ordered := events.insertionSort receiptOrder
  valid ((ordered.map fun e => e.eventId.value).Nodup) "ledger event IDs must be unique"
  let genesis := sha256 (Utf8.encode "evidence-braid-ledger:v2".toList)
  let entries ← chainEvents genesis 0 ordered
  .ok ⟨entries, genesis, "2.0"⟩

end EvidenceBraid
