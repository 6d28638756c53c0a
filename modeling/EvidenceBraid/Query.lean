import Mathlib.Data.Finset.Sort
import EvidenceBraid.Ledger
import EvidenceBraid.Library.Dict

/-!
# Ledger queries and pages

A `LedgerIndex` is a verified ledger prefix; a `LedgerSelection` lists the positions that match a
query, in order, and serves them in pages whose cursors name the snapshot, the query and the next
position.
-/

namespace EvidenceBraid

open Hashing

/-- `_count`: an integer within bounds. -/
def count (value : Option Json) (name : String) (maximum : ℤ) (minimum : ℤ) : Result ℤ :=
  let message := name ++ " must be an integer in " ++ toString minimum ++ ".." ++ toString maximum
  match value with
  | some (.int n) => do
    valid (minimum ≤ n ∧ n ≤ maximum) message
    .ok n
  | _ => .error (.validation message)

/-- `_count` of an integer. -/
def countInt (n : ℤ) (name : String) (maximum : ℤ) (minimum : ℤ) : Result Unit :=
  valid (minimum ≤ n ∧ n ≤ maximum)
    (name ++ " must be an integer in " ++ toString minimum ++ ".." ++ toString maximum)

@[simp] theorem countInt_eq_ok {n maximum minimum : ℤ} {name : String} {u : Unit} :
    countInt n name maximum minimum = .ok u ↔ minimum ≤ n ∧ n ≤ maximum := valid_eq_ok

/-! ## Queries -/

/-- `LedgerQuery`: AND across fields, OR within each nonempty list. -/
structure LedgerQuery where
  eventIds : List Text := []
  claims : List Text := []
  sources : List Text := []
  modalities : List Modality := []
  signals : List Signal := []
  correlationGroups : List Text := []
  observedStart : Option Datetime := none
  observedEnd : Option Datetime := none
  ingestedStart : Option Datetime := none
  ingestedEnd : Option Datetime := none
  deriving DecidableEq

namespace LedgerQuery

/-- `to_dict`, item by item. -/
def items (q : LedgerQuery) : List (String × Json) :=
  let texts (values : List Text) : Json := .arr (values.map fun t => .str t.value)
  let instant (t : Option Datetime) : Json :=
    (t.map fun t => Json.str (formatTimestamp t)).getD .null
  [("event_ids", texts q.eventIds), ("claims", texts q.claims), ("sources", texts q.sources),
    ("modalities", .arr (q.modalities.map fun m => .str m.value)),
    ("signals", .arr (q.signals.map fun s => .str s.value)),
    ("correlation_groups", texts q.correlationGroups),
    ("observed_start", instant q.observedStart), ("observed_end", instant q.observedEnd),
    ("ingested_start", instant q.ingestedStart), ("ingested_end", instant q.ingestedEnd)]

/-- The digest that binds a cursor to its query. -/
def identity {D : Type} [Hashing D] (q : LedgerQuery) : D :=
  sha256 (canonicalBytes (Json.dict (("query_version", .str "1.0") :: q.items)))

/-- One text list of `__post_init__`: the bytes it takes. -/
def checkTexts (values : List Text) (name : String) : Result ℕ := do
  valid (values.length ≤ 128) (name ++ " must be an immutable tuple of at most 128 values")
  let total ← values.foldlM (fun total value => do
    valid (value.value.toList.length ≤ 4096) (name ++ " values must be bounded text")
    let size := (Utf8.encode value.value.toList).length
    valid (size ≤ 4096) (name ++ " value exceeds 4096 UTF-8 bytes")
    .ok (total + size)) 0
  valid values.Nodup (name ++ " values must be unique")
  .ok total

/-- One enum tuple of `__post_init__`, of a kind with this many members. -/
def checkMembers {α : Type} [DecidableEq α] (values : List α) (members : ℕ) (name : String) :
    Result Unit :=
  valid (values.length ≤ members ∧ values.Nodup)
    (name ++ " must be a tuple of unique typed enum values")

/-- One clock of `__post_init__`. -/
def checkRange (clock : String) (start stop : Option Datetime) : Result Unit :=
  valid (∀ s ∈ start, ∀ t ∈ stop, s < t) (clock ++ " range must have start before end")

/-- `tuple(sorted(values))`, by the values' texts. -/
def sorted {α : Type} (text : α → String) (values : List α) : List α :=
  values.insertionSort fun a b => text a ≤ text b

/-- `LedgerQuery.__post_init__`: the query with its lists in order. -/
def postInit (q : LedgerQuery) : Result LedgerQuery := do
  let eventIds ← checkTexts q.eventIds "event_ids"
  let claims ← checkTexts q.claims "claims"
  let sources ← checkTexts q.sources "sources"
  let correlationGroups ← checkTexts q.correlationGroups "correlation_groups"
  valid (eventIds + claims + sources + correlationGroups ≤ 64 * 1024)
    "query exact-match text exceeds 64 KiB"
  checkMembers q.modalities Modality.members.length "modalities"
  checkMembers q.signals Signal.members.length "signals"
  checkRange "observed" q.observedStart q.observedEnd
  checkRange "ingested" q.ingestedStart q.ingestedEnd
  .ok { q with
    eventIds := sorted Text.value q.eventIds
    claims := sorted Text.value q.claims
    sources := sorted Text.value q.sources
    modalities := sorted Modality.value q.modalities
    signals := sorted Signal.value q.signals
    correlationGroups := sorted Text.value q.correlationGroups }

/-- Both clocks of an event lie in the query's half-open ranges. -/
def inRanges (q : LedgerQuery) (e : EvidenceEvent) : Bool :=
  let within (t : Datetime) (start stop : Option Datetime) : Bool :=
    (start.all fun s => s ≤ t) && (stop.all fun s => t < s)
  within e.observedAt q.observedStart q.observedEnd &&
    within e.ingestedAt q.ingestedStart q.ingestedEnd

end LedgerQuery

/-- The indexed fields of an event. -/
inductive Field where
  | eventId | claim | source | modality | signal | correlationGroup
  deriving DecidableEq, Repr

namespace Field

/-- `_FIELDS`. -/
def all : List Field := [eventId, claim, source, modality, signal, correlationGroup]

/-- `str(getattr(event, name))`, unless that is `None`. -/
def value (e : EvidenceEvent) : Field → Option String
  | eventId => some e.eventId.value
  | claim => some e.claim.value
  | source => some e.source.value
  | modality => some e.modality.value
  | signal => some e.signal.value
  | correlationGroup => e.correlationGroup.map Text.value

/-- The values a query admits for a field; none means no restriction. -/
def wanted (q : LedgerQuery) : Field → List String
  | eventId => q.eventIds.map Text.value
  | claim => q.claims.map Text.value
  | source => q.sources.map Text.value
  | modality => q.modalities.map Modality.value
  | signal => q.signals.map Signal.value
  | correlationGroup => q.correlationGroups.map Text.value

end Field

/-- The inverted lists of an index: for each field, the positions of each value. -/
abbrev Postings := Field → Dict String (List ℕ)

namespace Postings

/-- `postings[name].get(value, ())`. -/
def rows (postings : Postings) (field : Field) (value : String) : List ℕ :=
  ((postings field).get? value).getD []

/-- `postings[name].setdefault(str(value), []).append(sequence)` for the fields an event has. -/
def post (postings : Postings) (sequence : ℕ) (e : EvidenceEvent) : Postings := fun field =>
  match field.value e with
  | none => postings field
  | some value => (postings field).set value (postings.rows field value ++ [sequence])

end Postings

/-! ## The index -/

variable {D : Type} [Hashing D]

def maxIndexBytes : ℕ := 64 * 1024 * 1024

def maxPageBytes : ℕ := 16 * 1024 * 1024

def maxToken : ℕ := 2048

/-- The size of a receipt's canonical bytes. -/
def entrySize (e : LedgerEntry D) : ℕ := (canonicalBytes e.toDict).length

variable [DecidableEq D]

/-- `LedgerIndex`: a verified ledger prefix, its events and the sizes of its receipts. -/
structure LedgerIndex (D : Type) [Hashing D] [DecidableEq D] where
  ledger : EvidenceLedger D
  events : List EvidenceEvent
  verified : ledger.verify = true
  decoded : ledger.entries.map (fun e => e.decoded "event") = events.map Except.ok
  sized : (ledger.entries.map entrySize).sum ≤ maxIndexBytes

/-- Decode every receipt's event. -/
def decodeAll : List (LedgerEntry D) → Result (List EvidenceEvent)
  | [] => .ok []
  | e :: es => do
    let event ← e.decoded "event"
    let events ← decodeAll es
    .ok (event :: events)

omit [Hashing D] [DecidableEq D] in
theorem decodeAll_eq_ok {es : List (LedgerEntry D)} {events : List EvidenceEvent}
    (h : decodeAll es = .ok events) :
    es.map (fun e => e.decoded "event") = events.map Except.ok := by
  induction es generalizing events with
  | nil =>
    obtain rfl : [] = events := by simpa [decodeAll] using h
    rfl
  | cons e es ih =>
    simp only [decodeAll, bind_eq_ok, Except.ok.injEq] at h
    obtain ⟨event, hevent, rest, hrest, rfl⟩ := h
    simp [hevent, ih hrest]

/-- The first `k` receipts of a ledger. -/
def EvidenceLedger.prefixOf (l : EvidenceLedger D) (k : ℕ) : EvidenceLedger D :=
  ⟨l.entries.take k, l.genesis, l.schemaVersion⟩

theorem EvidenceLedger.verify_prefixOf {l : EvidenceLedger D} (h : l.verify = true) (k : ℕ) :
    (l.prefixOf k).verify = true := by
  simp only [verify, Bool.and_eq_true, decide_eq_true_eq] at h ⊢
  obtain ⟨⟨hversion, hlen⟩, hlinks⟩ := h
  exact ⟨⟨hversion, by simp [prefixOf]; omega⟩, verifyLinks_take k hlinks⟩

theorem sum_take_le {α : Type} (f : α → ℕ) (xs : List α) (k : ℕ) :
    ((xs.take k).map f).sum ≤ (xs.map f).sum := by
  conv_rhs => rw [← List.take_append_drop k xs]
  rw [List.map_append, List.sum_append]
  exact Nat.le_add_right _ _

namespace LedgerIndex

/-- `LedgerIndex(ledger, expected_head=…, prefix_count=…)`. -/
def make (ledger : EvidenceLedger D) (expectedHead : D) (prefixCount : Option ℕ) :
    Result (LedgerIndex D) :=
  let message : PyError := .validation "query index requires a verified ledger"
  if ledger.entries.length ≤ maxLedgerEntries then
    if hsize : (ledger.entries.map entrySize).sum ≤ maxIndexBytes then
      if hverify : ledger.verify = true then do
        let k := prefixCount.getD ledger.entries.length
        countInt k "prefix_count" ledger.entries.length 0
        let snapshot := ledger.prefixOf k
        valid (snapshot.headDigest = expectedHead)
          "query prefix does not match the expected head"
        match h : decodeAll snapshot.entries with
        | .error e => .error e
        | .ok events => .ok ⟨snapshot, events, EvidenceLedger.verify_prefixOf hverify k,
            decodeAll_eq_ok h, (sum_take_le _ _ _).trans hsize⟩
      else .error message
    else .error (.validation "indexed receipt bytes exceed 64 MiB")
  else .error message

/-- `_postings`: for each field, the positions of each value. -/
def postings (index : LedgerIndex D) : Postings :=
  (index.ledger.entries.zip index.events).foldl
    (fun postings (entry, event) => postings.post entry.sequence event) fun _ => Dict.empty

end LedgerIndex

/-! ## Selections -/

/-- `LedgerSelection`: the positions that match a query. -/
structure LedgerSelection (D : Type) [Hashing D] [DecidableEq D] where
  index : LedgerIndex D
  query : LedgerQuery

namespace LedgerSelection

/-- The positions that the exact-match fields leave, or `none` for no restriction. -/
def candidates (s : LedgerSelection D) : Option (Finset ℕ) :=
  Field.all.foldl (fun candidates field =>
    let values := field.wanted s.query
    if values = [] then candidates
    else
      let union := (values.flatMap (s.index.postings.rows field)).toFinset
      some (candidates.elim union fun c => c ∩ union)) none

/-- `positions`, in ascending order. -/
def positions (s : LedgerSelection D) : List ℕ :=
  let rows := s.candidates.elim (List.range s.index.ledger.entries.length) fun c =>
    c.sort (· ≤ ·)
  rows.filter fun position => (s.index.events[position]?.map s.query.inRanges).getD false

/-! ### Cursors -/

/-- The character of six bits in the URL-safe alphabet. -/
def base64Char (n : ℕ) : Char :=
  if n < 26 then Char.ofNat (65 + n)
  else if n < 52 then Char.ofNat (71 + n)
  else if n < 62 then Char.ofNat (n - 4)
  else if n = 62 then '-' else '_'

/-- `base64.urlsafe_b64encode`, without padding. -/
def base64 : Bytes → List Char
  | a :: b :: c :: rest =>
    let n := (a.toNat * 256 + b.toNat) * 256 + c.toNat
    base64Char (n / 262144) :: base64Char (n / 4096 % 64) :: base64Char (n / 64 % 64) ::
      base64Char (n % 64) :: base64 rest
  | [a, b] =>
    let n := (a.toNat * 256 + b.toNat) * 4
    [base64Char (n / 4096), base64Char (n / 64 % 64), base64Char (n % 64)]
  | [a] =>
    let n := a.toNat * 16
    [base64Char (n / 64), base64Char (n % 64)]
  | [] => []

/-- The six bits of a character of either base64 alphabet. -/
def base64Val (c : Char) : Option ℕ :=
  if 'A' ≤ c ∧ c ≤ 'Z' then some (c.toNat - 65)
  else if 'a' ≤ c ∧ c ≤ 'z' then some (c.toNat - 71)
  else if '0' ≤ c ∧ c ≤ '9' then some (c.toNat + 4)
  else if c = '-' ∨ c = '+' then some 62
  else if c = '_' ∨ c = '/' then some 63
  else none

/-- `base64.b64decode` of an unpadded text. -/
def unbase64 : List Char → Option Bytes
  | a :: b :: c :: d :: rest => do
    let n := ((← base64Val a) * 64 + (← base64Val b)) * 4096 +
      (← base64Val c) * 64 + (← base64Val d)
    let bytes ← unbase64 rest
    some (UInt8.ofNat (n / 65536) :: UInt8.ofNat (n / 256 % 256) :: UInt8.ofNat (n % 256) :: bytes)
  | [a, b, c] => do
    let n := ((← base64Val a) * 64 + (← base64Val b)) * 64 + (← base64Val c)
    some [UInt8.ofNat (n / 1024), UInt8.ofNat (n / 4 % 256)]
  | [a, b] => do
    let n := (← base64Val a) * 64 + (← base64Val b)
    some [UInt8.ofNat (n / 16)]
  | [_] => none
  | [] => some []

/-- `_cursor`. -/
def cursor (s : LedgerSelection D) (next : ℕ) : List Char :=
  base64 (canonicalBytes (Json.dict [("kind", .str "evidence-braid-ledger-cursor"),
    ("schema_version", .str "1.0"), ("ledger_version", .str s.index.ledger.schemaVersion),
    ("head", .str (hex s.index.ledger.headDigest)), ("entries", .int s.index.ledger.entries.length),
    ("query", .str (hex (s.query.identity : D))), ("next_sequence", .int next)]))

/-- `_loads` of `io.py`: unbounded integers and finite floats. -/
def strictLoads (cs : List Char) : Result Json :=
  orError (Json.loads Json.plain cs) (.value "invalid JSON")

/-- `_resume`: the position that a cursor of this selection names. -/
def resume (s : LedgerSelection D) (token : List Char) : Result ℕ := do
  valid (1 ≤ token.length ∧ token.length ≤ maxToken ∧ token.all fun c => c.toNat < 128)
    "cursor must be bounded ASCII text"
  wrapping PyError.isValueError "cursor does not match this snapshot and query" (do
    let raw ← orError (unbase64 token) (.value "invalid base64")
    let chars ← orError (Utf8.decode raw) (.value "invalid UTF-8")
    match ← strictLoads chars with
    | .obj data => do
      let next ← count (Json.get? data "next_sequence") "next_sequence"
        s.index.ledger.entries.length 0
      require (s.cursor next.toNat = token)
        (.value "cursor identity or canonical encoding differs")
      .ok next.toNat
    | _ => .error (.value "not an object"))

end LedgerSelection

/-! ## Pages -/

/-- `LedgerPage`. -/
structure LedgerPage (D : Type) where
  entries : List (LedgerEntry D)
  headDigest : D
  snapshotEntries : ℕ
  totalMatches : ℕ
  entryBytes : ℕ
  nextCursor : Option (List Char)
  queryIdentity : D
  deriving DecidableEq

namespace LedgerPage

/-- The loop of `LedgerPage.__post_init__` over the receipts. -/
def checkEntries (snapshotEntries : ℕ) (previous : ℤ) : List (LedgerEntry D) → Result Unit
  | [] => .ok ()
  | e :: es => do
    let _ ← (LedgerEntry.fromDict e.toDict : Result (LedgerEntry D))
    valid (previous < e.sequence ∧ e.sequence < snapshotEntries)
      "page receipt sequences must increase within the snapshot"
    checkEntries snapshotEntries e.sequence es

/-- `LedgerPage.__post_init__`. -/
def postInit (p : LedgerPage D) : Result Unit := do
  countInt p.snapshotEntries "snapshot_entries" maxLedgerEntries 0
  countInt p.totalMatches "total_matches" p.snapshotEntries 0
  countInt p.entryBytes "entry_bytes" maxPageBytes 0
  valid (p.entries.length ≤ min 1000 p.totalMatches)
    "page entries must be a bounded immutable tuple"
  checkEntries p.snapshotEntries (-1) p.entries
  valid ((p.entries.map entrySize).sum = p.entryBytes)
    "page entry byte accounting disagrees with receipts"
  valid (∀ c ∈ p.nextCursor, c ≠ [] ∧ c.length ≤ maxToken)
    "page cursor must be bounded text or None"

end LedgerPage

namespace LedgerSelection

/-- The loop of `page`: receipts at these positions up to a count and a byte budget, the bytes
they take, and the positions left. -/
def fill (entries : List (LedgerEntry D)) (limit budget taken size : ℕ) :
    List ℕ → Result (List (LedgerEntry D) × ℕ × List ℕ)
  | [] => .ok ([], size, [])
  | position :: positions =>
    if taken < limit then
      match entries[position]? with
      | none => .error (.runtime "IndexError")
      | some entry =>
        let proposed := size + entrySize entry
        if budget < proposed then
          if taken = 0 then .error (.validation "next receipt exceeds the page byte budget")
          else .ok ([], size, position :: positions)
        else do
          let (rest, size, left) ← fill entries limit budget (taken + 1) proposed positions
          .ok (entry :: rest, size, left)
    else .ok ([], size, position :: positions)

/-- Where a page starts: at a cursor's position, or at the first match. -/
def start (s : LedgerSelection D) (token : Option (List Char)) : Result ℕ :=
  match token with
  | none => .ok 0
  | some token => s.resume token

/-- `LedgerSelection.page`. -/
def page (s : LedgerSelection D) (limit maxEntryBytes : ℕ) (token : Option (List Char)) :
    Result (LedgerPage D) := do
  countInt limit "limit" 1000 1
  countInt maxEntryBytes "max_entry_bytes" maxPageBytes 1
  let start ← s.start token
  let ahead := s.positions.dropWhile fun position => position < start
  let (entries, size, left) ← fill s.index.ledger.entries limit maxEntryBytes 0 0 ahead
  let result : LedgerPage D :=
    { entries, headDigest := s.index.ledger.headDigest
      snapshotEntries := s.index.ledger.entries.length, totalMatches := s.positions.length
      entryBytes := size, nextCursor := left.head?.map s.cursor
      queryIdentity := s.query.identity }
  result.postInit
  .ok result

end LedgerSelection

end EvidenceBraid
