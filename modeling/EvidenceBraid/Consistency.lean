import EvidenceBraid.Library.MerklePrefix
import EvidenceBraid.Membership

/-!
# Prefix consistency between two commitments

`consistency.py`: a bounded proof that one committed receipt tree is a prefix of another, made
from a cached tree and verified from the two headers alone.
-/

namespace EvidenceBraid

open Hashing

variable {D : Type} [Hashing D] [DecidableEq D]

def maxPath : ℕ := 18

def maxConsistencyBytes : ℕ := 4096

/-- `_headers`: the checks between two headers. -/
def headers (old new : LedgerCommitment D) : Result Unit := do
  valid (old.ledgerVersion = new.ledgerVersion ∧ old.genesis = new.genesis)
    "consistency headers use different ledger versions or genesis"
  valid (old.entryCount ≤ new.entryCount) "consistency cannot decrease the committed count"
  valid (old.entryCount = new.entryCount → old = new)
    "equal counts require identical complete commitment headers"

/-- `_path_size`. The headers keep `old` at most `new`. -/
def pathSize (old new : ℕ) (known : Bool) : ℕ :=
  if old = 0 then 0
  else if _h : new ≤ old then (if known then 0 else 1)
  else
    let split := 1 <<< (Merkle.bitLength (new - 1) - 1)
    1 + (if old ≤ split then pathSize old split known
      else pathSize (old - split) (new - split) false)
termination_by new
decreasing_by
  · exact Merkle.split_lt (by omega)
  · have := Merkle.split_pos new
    unfold Merkle.split at this
    omega

/-! ## Proofs -/

namespace LedgerConsistencyProof

/-- `__post_init__`. -/
def postInit (old new : LedgerCommitment D) (path : List D) : Result Unit := do
  headers old new
  valid (path.length ≤ maxPath)
    "consistency path requires an immutable tuple of at most 18 hashes"
  valid (path.length = pathSize old.entryCount new.entryCount true)
    "consistency path length disagrees with committed tree sizes"

end LedgerConsistencyProof

/-- `LedgerConsistencyProof`: two headers and a path that pass its `__post_init__`. -/
structure LedgerConsistencyProof (D : Type) [Hashing D] [DecidableEq D] where
  oldCommitment : LedgerCommitment D
  newCommitment : LedgerCommitment D
  path : List D
  checked : LedgerConsistencyProof.postInit oldCommitment newCommitment path = .ok ()

namespace LedgerConsistencyProof

theorem ext_iff {a b : LedgerConsistencyProof D} : a = b ↔
    a.oldCommitment = b.oldCommitment ∧ a.newCommitment = b.newCommitment ∧ a.path = b.path := by
  cases a; cases b; simp

instance : DecidableEq (LedgerConsistencyProof D) := fun _ _ => decidable_of_iff _ ext_iff.symm

/-- The constructor. -/
def make (old new : LedgerCommitment D) (path : List D) : Result (LedgerConsistencyProof D) :=
  match h : postInit old new path with
  | .error e => .error e
  | .ok () => .ok ⟨old, new, path, h⟩

/-- `to_dict`. -/
def toDict (p : LedgerConsistencyProof D) : Json :=
  Json.dict [("kind", .str "evidence-braid-ledger-consistency"), ("schema_version", .str "1.0"),
    ("old_commitment", p.oldCommitment.toDict), ("new_commitment", p.newCommitment.toDict),
    ("path", .arr (p.path.map fun d => .str (hex d)))]

def fields : List String := ["kind", "new_commitment", "old_commitment", "path", "schema_version"]

/-- `_object`: exactly these fields. -/
def object (value : Json) (fields : List String) : Result (List (String × Json)) :=
  match value with
  | .obj kvs => do
    valid ((∀ k ∈ Json.keys kvs, k ∈ fields) ∧ ∀ f ∈ fields, f ∈ Json.keys kvs)
      "consistency object has an invalid field set"
    .ok kvs
  | _ => .error (.validation "consistency object has an invalid field set")

/-- The hashes of `_shape`: every item of a path is the text of a digest. -/
def shapePath : List Json → Result (List D)
  | [] => .ok []
  | item :: items => do
    let d ← hashField (some item) "consistency path hash"
    let ds ← shapePath items
    .ok (d :: ds)

/-- The header loop of `_shape`: a bounded count, and bounded text everywhere else. -/
def shapeHeader : List (String × Json) → Result Unit
  | [] => .ok ()
  | (key, item) :: items => do
    if key = "entry_count" then
      match item with
      | .int n => valid (0 ≤ n ∧ n ≤ maxLedgerEntries) "consistency count exceeds ledger bounds"
      | _ => .error (.validation "consistency count exceeds ledger bounds")
    else
      match item with
      | .str s => valid (s.toList.length ≤ 64) "consistency header fields must be bounded text"
      | _ => .error (.validation "consistency header fields must be bounded text")
    shapeHeader items

/-- `_shape`: the admitted fields and the path's digests. -/
def shape (value : Json) : Result (List (String × Json) × List D) := do
  let data ← object value fields
  valid (Json.get? data "kind" = some (.str "evidence-braid-ledger-consistency") ∧
    Json.get? data "schema_version" = some (.str "1.0")) "unsupported consistency proof format"
  match Json.get? data "path" with
  | some (.arr items) => do
    valid (items.length ≤ maxPath) "consistency path must contain at most 18 hashes"
    let path ← shapePath items
    let old ← object ((Json.get? data "old_commitment").getD .null) LedgerCommitment.headerFields
    shapeHeader old
    let new ← object ((Json.get? data "new_commitment").getD .null) LedgerCommitment.headerFields
    shapeHeader new
    .ok (data, path)
  | _ => .error (.validation "consistency path must contain at most 18 hashes")

/-- `to_bytes`. -/
def toBytes (p : LedgerConsistencyProof D) : Result Bytes := do
  let _ ← (shape p.toDict : Result (_ × List D))
  let raw := canonicalBytes p.toDict
  valid (raw.length ≤ maxConsistencyBytes) "consistency proof exceeds 4096 bytes"
  .ok raw

/-- `from_dict`. -/
def fromDict (value : Json) : Result (LedgerConsistencyProof D) := do
  let (data, path) ← shape value
  let old ← LedgerCommitment.fromDict ((Json.get? data "old_commitment").getD .null)
  let new ← LedgerCommitment.fromDict ((Json.get? data "new_commitment").getD .null)
  let result ← make old new path
  let _ ← result.toBytes
  .ok result

/-- `_integer`, and no floats at all. -/
def hooks : Json.Hooks where
  parseInt t := if t.int.length ≤ 6 then some t.toInt else none
  parseFloat _ := none

/-- `from_bytes`, with the admission of `_admit_bytes`. -/
def fromBytes (raw : Bytes) : Result (LedgerConsistencyProof D) := do
  valid (raw.length ≤ maxConsistencyBytes) "consistency input must be bytes within 4096 bytes"
  valid (Json.scanDepth 2 raw = true) "consistency JSON exceeds two container levels"
  wrapping PyError.isValueError "invalid canonical consistency JSON" (do
    let chars ← orError (Utf8.decode raw) (.value "invalid UTF-8")
    let data ← orError (Json.loads hooks chars) (.value "invalid JSON")
    let result ← fromDict data
    let bytes ← result.toBytes
    valid (bytes = raw) "consistency proof is not canonical UTF-8 JSON"
    .ok result)

end LedgerConsistencyProof

/-! ## Making a proof -/

/-- The children of an internal node. -/
def children (tree : Node D) : Result (Node D × Node D) :=
  match tree with
  | .leaf _ => .error (.runtime "consistency tree has an incomplete internal node")
  | .inner _ _ left right => .ok (left, right)

/-- `_prefix_root`. -/
def prefixRoot (tree : Node D) (count : ℕ) : Result D :=
  if count = tree.count then .ok tree.digest
  else
    match tree with
    | .leaf _ => .error (.runtime "consistency tree has an incomplete internal node")
    | .inner _ _ left right =>
      if count ≤ left.count then prefixRoot left count
      else do
        let rest ← prefixRoot right (count - left.count)
        .ok (nodeHash left.digest rest)

/-- `_subproof`: the digests it appends to the path. -/
def subproof (tree : Node D) (count : ℕ) (known : Bool) : Result (List D) :=
  if count = tree.count then .ok (if known then [] else [tree.digest])
  else
    match tree with
    | .leaf _ => .error (.runtime "consistency tree has an incomplete internal node")
    | .inner _ _ left right =>
      if count ≤ left.count then do
        let path ← subproof left count known
        .ok (path ++ [right.digest])
      else do
        let path ← subproof right (count - left.count) false
        .ok (path ++ [left.digest])

/-- `prove_ledger_consistency`. -/
def proveLedgerConsistency (newIndex : LedgerProofIndex D) (old : LedgerCommitment D) :
    Result (LedgerConsistencyProof D) := do
  headers old newIndex.commitment
  if old.entryCount = 0 then LedgerConsistencyProof.make old newIndex.commitment []
  else do
    let tree ← orError newIndex.tree (.runtime "nonempty consistency index has no tree")
    let last ← orError newIndex.index.ledger.entries[old.entryCount - 1]? (.runtime "IndexError")
    valid (last.digest = old.headDigest)
      "old commitment head differs from the actual indexed prefix"
    let root ← prefixRoot tree old.entryCount
    valid (root = old.rootHash) "old commitment root differs from the actual indexed prefix"
    let path ← subproof tree old.entryCount true
    LedgerConsistencyProof.make old newIndex.commitment path

/-! ## Verifying a proof -/

/-- `_recover`: the two roots rebuilt from the path, and the hashes left. -/
def recover (old new : ℕ) (known : Bool) (oldRoot : D) (hashes : List D) :
    Result ((D × D) × List D) :=
  if _h : new ≤ old then
    if known then .ok ((oldRoot, oldRoot), hashes)
    else
      match hashes with
      | [] => .error .stopIteration
      | root :: hashes => .ok ((root, root), hashes)
  else
    let split := 1 <<< (Merkle.bitLength (new - 1) - 1)
    if old = 0 then .error (.runtime "negative shift count")
    else if old ≤ split then do
      let ((before, after), hashes) ← recover old split known oldRoot hashes
      match hashes with
      | [] => .error .stopIteration
      | sibling :: hashes => .ok ((before, nodeHash after sibling), hashes)
    else do
      let ((before, after), hashes) ← recover (old - split) (new - split) false oldRoot hashes
      match hashes with
      | [] => .error .stopIteration
      | sibling :: hashes => .ok ((nodeHash sibling before, nodeHash sibling after), hashes)
termination_by new
decreasing_by
  · exact Merkle.split_lt (by omega)
  · have := Merkle.split_pos new
    unfold Merkle.split at this
    omega

/-- `verify_ledger_consistency`. -/
def verifyLedgerConsistency (proof : LedgerConsistencyProof D) (expectedOld expectedNew : D) :
    Result Unit := do
  let old := proof.oldCommitment
  let new := proof.newCommitment
  valid (old.digest = expectedOld ∧ new.digest = expectedNew)
    "consistency commitment differs from an expected external anchor"
  if old.entryCount = 0 ∨ old.entryCount = new.entryCount then .ok ()
  else do
    let (recovered, left) ← recover old.entryCount new.entryCount true old.rootHash proof.path
    valid (recovered = (old.rootHash, new.rootHash) ∧ left = [])
      "consistency path does not reproduce both committed roots"

end EvidenceBraid
