import EvidenceBraid.Library.Transaction
import EvidenceBraid.Query

/-!
# The SQLite ledger

`SQLiteLedger` of `storage.py`: a table of receipts and one row of metadata, and the transactions
on them. A statement works on the transaction's own copy of the database; `run` commits it or
rolls it back.
-/

namespace EvidenceBraid

open Hashing Transaction

def maxLedgerBytes : ℕ := 64 * 1024 * 1024

def maxEntryBytes : ℕ := 1024 * 1024

def maxAppendEntries : ℕ := 10000

/-! ## Tables -/

/-- A row of `ledger_meta`. -/
structure MetaRow where
  singleton : ℤ
  version : String
  head : String
  entries : ℤ
  deriving DecidableEq

/-- A row of `ledger_entries`. -/
structure EntryRow where
  sequence : ℤ
  eventId : String
  event : String
  previousDigest : String
  digest : String
  deriving DecidableEq

/-- `length(cast(event AS BLOB))`. -/
def EntryRow.eventBytes (r : EntryRow) : ℕ := (Utf8.encode r.event.toList).length

/-- The two tables. -/
structure LedgerTables where
  info : List MetaRow
  entries : List EntryRow
  deriving DecidableEq

namespace LedgerTables

/-- `INSERT INTO ledger_entries`, under the table's key, `UNIQUE` and `CHECK` constraints. -/
def insertEntry (row : EntryRow) (t : LedgerTables) : Result LedgerTables := do
  require (0 ≤ row.sequence ∧ ∀ r ∈ t.entries, r.sequence ≠ row.sequence ∧ r.eventId ≠ row.eventId)
    (.inputFormat "ledger database operation failed")
  .ok { t with entries := t.entries ++ [row] }

/-- `UPDATE ledger_meta SET head=?, entries=? WHERE singleton=1`. -/
def updateInfo (head : String) (entries : ℤ) (t : LedgerTables) : Result LedgerTables :=
  .ok { t with info := t.info.map fun r => if r.singleton = 1 then { r with head, entries } else r }

/-- `coalesce(sum(length(cast(event AS BLOB))),0)`. -/
def eventBytes (t : LedgerTables) : ℕ := (t.entries.map EntryRow.eventBytes).sum

/-- `ORDER BY sequence`. -/
def ordered (t : LedgerTables) : List EntryRow :=
  t.entries.insertionSort fun a b => a.sequence ≤ b.sequence

end LedgerTables

namespace SQLiteLedger

variable {D : Type} [Hashing D]

/-- `_GENESIS_V2`. -/
def genesisV2 : D := sha256 (Utf8.encode "evidence-braid-ledger:v2".toList)

variable (D) in
/-- The database that `__init__` creates. -/
def created : LedgerTables where
  info := [⟨1, "2.0", hex (genesisV2 : D), 0⟩]
  entries := []

/-! ## Reading -/

/-- The receipt that a row holds. -/
def readRow (row : EntryRow) : Result (LedgerEntry D) := do
  let event ← orError (Json.loads Json.plain row.event.toList)
    (.inputFormat "invalid stored ledger event JSON")
  LedgerEntry.fromDict (Json.dict [("sequence", .int row.sequence), ("event_id", .str row.eventId),
    ("event", event), ("previous_digest", .str row.previousDigest), ("digest", .str row.digest)])

/-- The receipts of the ordered rows. -/
def readRows : List EntryRow → Result (List (LedgerEntry D))
  | [] => .ok []
  | row :: rows => do
    let entry ← readRow row
    let entries ← readRows rows
    .ok (entry :: entries)

variable [DecidableEq D]

/-- `_read`. -/
def read (t : LedgerTables) : Result (EvidenceLedger D) := do
  match t.info with
  | [info] => do
    valid (info.singleton = 1 ∧ info.version = "2.0") "invalid ledger database metadata"
    valid (t.entries.length ≤ maxLedgerEntries ∧ t.eventBytes ≤ maxLedgerBytes ∧
      ∀ r ∈ t.entries, r.eventBytes ≤ maxEntryBytes) "ledger database exceeds entry or byte limits"
    valid (info.entries = t.entries.length) "ledger database entry count does not match metadata"
    let entries ← readRows t.ordered
    let ledger : EvidenceLedger D := ⟨entries, genesisV2, "2.0"⟩
    valid (ledger.verify = true ∧ info.head = hex ledger.headDigest)
      "ledger database integrity verification failed"
    .ok ledger
  | _ => .error (.validation "invalid ledger database metadata")

/-! ## Transactions -/

/-- `_insert`. -/
def insert (entry : LedgerEntry D) : Action LedgerTables PyError Unit :=
  Action.execute (LedgerTables.insertEntry ⟨entry.sequence, entry.eventId,
    String.ofList (canonicalJson (.obj entry.event.members) false), hex entry.previousDigest,
    hex entry.digest⟩)

/-- The bounds on a batch, event by event, and its bytes. -/
def admitBatch (supplied batchBytes : ℕ) : List EvidenceEvent → Result ℕ
  | [] => .ok batchBytes
  | event :: events => do
    let size := (canonicalBytes event.toDict).length
    valid (size ≤ maxEntryBytes ∧ batchBytes + size ≤ maxLedgerBytes ∧ supplied ≠ maxAppendEntries)
      "append exceeds entry or byte limits"
    admitBatch (supplied + 1) (batchBytes + size) events

/-- The loop of `append`: each event is chained to the one before and inserted. -/
def insertBatch (previous : D) (sequence : ℕ) :
    List EvidenceEvent → Action LedgerTables PyError (List (LedgerEntry D))
  | [] => pure []
  | event :: events => do
    let digest := chainDigest previous event sequence "2.0"
    let frozen ← Action.lift (FrozenMapping.ofKeyed event.members event.wellKeyed_toDict
      "ledger.event")
    let entry : LedgerEntry D := ⟨sequence, event.eventId.value, frozen, previous, digest⟩
    insert entry
    let entries ← insertBatch digest (sequence + 1) events
    pure (entry :: entries)

/-- The transaction of `append`. -/
def appendAction (events : List EvidenceEvent) (expectedHead : Option D) :
    Action LedgerTables PyError (EvidenceLedger D) := do
  let batchBytes ← Action.lift (admitBatch 0 0 events)
  let existing ← Action.query read
  Action.lift (valid (∀ head ∈ expectedHead, existing.headDigest = head)
    "append conflict: expected head is stale")
  Action.lift (valid (existing.entries.length + events.length ≤ maxLedgerEntries)
    "append exceeds ledger entry limit")
  let existingBytes ← Action.query fun t => .ok t.eventBytes
  Action.lift (valid (existingBytes + batchBytes ≤ maxLedgerBytes)
    "append exceeds ledger byte limit")
  let entries ← insertBatch existing.headDigest existing.entries.length events
  let ledger : EvidenceLedger D := ⟨existing.entries ++ entries, genesisV2, "2.0"⟩
  Action.execute (LedgerTables.updateInfo (hex ledger.headDigest) ledger.entries.length)
  pure ledger

/-- The loop of `import_snapshot`. -/
def insertAll : List (LedgerEntry D) → Action LedgerTables PyError Unit
  | [] => pure ()
  | entry :: entries => do
    insert entry
    insertAll entries

/-- The transaction of `import_snapshot`. -/
def importAction (ledger : EvidenceLedger D) :
    Action LedgerTables PyError (EvidenceLedger D) := do
  Action.lift (valid (ledger.schemaVersion = "2.0" ∧ ledger.verify = true)
    "import requires a verified v2 ledger")
  let existing ← Action.query (read (D := D))
  Action.lift (valid (existing.entries = []) "import requires an empty ledger database")
  insertAll ledger.entries
  Action.execute (LedgerTables.updateInfo (hex ledger.headDigest) ledger.entries.length)
  Action.query read

/-- The transaction of `snapshot`. -/
def snapshotAction (expectedHead : Option D) : Action LedgerTables PyError (EvidenceLedger D) :=
  Action.query fun t => do
    let ledger ← read t
    valid (∀ head ∈ expectedHead, ledger.headDigest = head)
      "ledger does not match the expected head"
    .ok ledger

/-- What a handle may ask of the store. -/
inductive Operation (D : Type) [Hashing D] [DecidableEq D] where
  | append (events : List EvidenceEvent) (expectedHead : Option D)
  | importSnapshot (ledger : EvidenceLedger D)
  | snapshot (expectedHead : Option D)

/-- The program of an operation. -/
def Operation.action : Operation D → Action LedgerTables PyError (EvidenceLedger D)
  | .append events expectedHead => appendAction events expectedHead
  | .importSnapshot ledger => importAction ledger
  | .snapshot expectedHead => snapshotAction expectedHead

/-- One transaction: its result and the committed tables. -/
def perform (op : Operation D) (t : LedgerTables) : Result (EvidenceLedger D) × LedgerTables :=
  atomically op.action t

/-- The tables after a transaction. -/
def step (t : LedgerTables) (op : Operation D) : LedgerTables := (perform op t).2

end SQLiteLedger

end EvidenceBraid
