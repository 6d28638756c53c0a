import EvidenceBraid.Library.JsonDepth
import EvidenceBraid.Library.Merkle
import EvidenceBraid.Query

/-!
# Receipt membership under a Merkle commitment

`membership.py`: a commitment header over a ledger prefix, the cached tree of a proof index, the
detached bundle of receipts with their sibling digests, and its verification.

The tree and the route are defined as the code computes them; `Holds` says which leaves a cached
tree stands for, and connects it to the trees of the Merkle library.
-/

namespace EvidenceBraid

open Hashing
open Json (WellKeyed)

/-! ## Framed hashes -/

def domain : List Char := "evidence-braid:ledger-membership:v1\x00".toList

def maxMembers : ℕ := 1000

def maxSiblings : ℕ := 17

def maxReceiptBytes : ℕ := 16 * 1024 * 1024

def maxBundleBytes : ℕ := 20 * 1024 * 1024

def maxJsonDepth : ℕ := 72

def maxJsonNodes : ℕ := 1000000

section Framing

variable {D : Type} [Hashing D]

/-- `_hash_bytes`: the hash of a tagged value in the membership domain. -/
def hashBytes (tag : Char) (value : Bytes) : D := sha256 (Utf8.encode (domain ++ [tag]) ++ value)

/-- `_node_hash`. -/
def nodeHash (left right : D) : D := hashBytes 'N' (fromhex left ++ fromhex right)

/-- The document of a leaf. -/
def leafDocument (version : String) (entry : LedgerEntry D) : Json :=
  Json.dict [("ledger_version", .str version), ("receipt", entry.toDict)]

/-- `_leaf_hash`. -/
def leafHash (version : String) (entry : LedgerEntry D) : D :=
  hashBytes 'L' (canonicalBytes (leafDocument version entry))

/-- `_hash_bytes(b"E")`: the root of the empty tree. -/
def emptyRoot : D := hashBytes 'E' []

variable (D) in
/-- **The assumption of the soundness results**: the framed hashes are injective. -/
structure FramedInjective : Prop where
  leaf : Function.Injective (hashBytes 'L' : Bytes → D)
  node : Function.Injective (hashBytes 'N' : Bytes → D)
  header : Function.Injective (hashBytes 'C' : Bytes → D)

theorem nodeHash_injective (h : FramedInjective D) :
    Function.Injective2 (nodeHash : D → D → D) := by
  intro a b c d heq
  exact fromhex_append (h.node heq)

theorem wellKeyed_leafDocument (version : String) (entry : LedgerEntry D) :
    WellKeyed (leafDocument version entry) := by
  refine Json.wellKeyed_dict ?_
  intro kv hkv
  simp only [List.mem_cons, List.not_mem_nil, or_false] at hkv
  rcases hkv with rfl | rfl
  · simp
  · exact entry.wellKeyed_toDict

theorem leafHash_injective (h : FramedInjective D) (version : String) :
    Function.Injective (leafHash version : LedgerEntry D → D) := by
  intro a b heq
  have hdoc := canonicalBytes_inj (wellKeyed_leafDocument version a)
    (wellKeyed_leafDocument version b) (h.leaf heq)
  simp +decide only [leafDocument, Json.dict, List.foldr, Json.insertKey, if_true, Json.obj.injEq,
    List.cons.injEq, Prod.mk.injEq, true_and, and_true] at hdoc
  exact LedgerEntry.toDict_injective hdoc

end Framing

/-! ## Graph admission -/

/-- `_text_size`: the UTF-8 size of a text that fits what remains. -/
def textSize (value : String) (remaining : ℕ) : Result ℕ := do
  valid (value.toList.length ≤ remaining) "membership scalar data exceeds 20 MiB"
  .ok (Utf8.encode value.toList).length

/-- The nodes and scalar bytes met so far. -/
structure Work where
  nodes : ℕ
  bytes : ℕ
  deriving DecidableEq

namespace Work

/-- The check after every item. -/
def settle (w : Work) : Result Work := do
  valid (w.bytes ≤ maxBundleBytes) "membership scalar data exceeds 20 MiB"
  .ok w

/-- The sizes of an object's keys. -/
def keys (w : Work) : List (String × Json) → Result Work
  | [] => .ok w
  | (k, _) :: kvs => do
    let size ← textSize k (maxBundleBytes - w.bytes)
    keys { w with bytes := w.bytes + size } kvs

end Work

mutual

/-- One item of `_preflight`, and what is below it. -/
def preflightItem (item : Json) (depth : ℕ) (work : Work) : Result Work := do
  let work := { work with nodes := work.nodes + 1 }
  valid (work.nodes ≤ maxJsonNodes ∧ depth ≤ maxJsonDepth)
    "membership JSON graph exceeds node/depth bounds"
  match item with
  | .arr xs => do
    valid (xs.length ≤ maxJsonNodes - work.nodes) "membership JSON graph exceeds node bounds"
    let work ← work.settle
    preflightItems xs (depth + 1) work
  | .obj kvs => do
    valid (kvs.length * 2 ≤ maxJsonNodes - work.nodes)
      "membership JSON graph exceeds node bounds"
    let work ← Work.keys { work with nodes := work.nodes + kvs.length } kvs
    let work ← work.settle
    preflightMembers kvs (depth + 1) work
  | .str s => do
    let size ← textSize s (maxBundleBytes - work.bytes)
    Work.settle { work with bytes := work.bytes + size }
  | .null | .bool _ => Work.settle { work with bytes := work.bytes + 5 }
  | .int n => do
    valid (n.natAbs ≤ maxAttributeInteger) "membership JSON integer exceeds attribute bounds"
    Work.settle { work with bytes := work.bytes + (Numeral.ofInt n).text.length }
  | .float x => Work.settle { work with bytes := work.bytes + (Numeral.repr x).text.length }

def preflightItems (xs : List Json) (depth : ℕ) (work : Work) : Result Work :=
  match xs with
  | [] => .ok work
  | x :: xs => do
    let work ← preflightItem x depth work
    preflightItems xs depth work

def preflightMembers (kvs : List (String × Json)) (depth : ℕ) (work : Work) : Result Work :=
  match kvs with
  | [] => .ok work
  | (_, x) :: kvs => do
    let work ← preflightItem x depth work
    preflightMembers kvs depth work

end

/-- `_preflight`: bound an already parsed JSON graph. -/
def preflight (value : Json) : Result Unit := do
  let _ ← preflightItem value 0 ⟨0, 0⟩
  .ok ()

variable {D : Type} [Hashing D] [DecidableEq D]

/-- `_receipt_bytes`: the canonical bytes of a receipt within bounds. -/
def receiptBytes (entry : LedgerEntry D) : Result Bytes := do
  let data := entry.toDict
  preflight data
  let raw := canonicalBytes data
  valid (raw.length ≤ maxReceiptBytes) "selected receipt bytes exceed 16 MiB"
  let parsed ← (LedgerEntry.fromDict data : Result (LedgerEntry D))
  valid (canonicalBytes parsed.toDict = raw) "membership receipt is not canonical"
  .ok raw

omit [DecidableEq D] in
theorem receiptBytes_eq_ok {entry : LedgerEntry D} {raw : Bytes}
    (h : receiptBytes entry = .ok raw) :
    LedgerEntry.fromDict entry.toDict = .ok entry ∧ raw = canonicalBytes entry.toDict := by
  simp only [receiptBytes, bind_eq_ok, valid_eq_ok, exists_unit, Except.ok.injEq] at h
  obtain ⟨-, -, parsed, hparsed, -, rfl⟩ := h
  obtain ⟨rfl, -⟩ := LedgerEntry.fromDict_toDict hparsed
  exact ⟨hparsed, rfl⟩

/-! ## Routes -/

/-- The loop of `_route`: the directions from the root down. -/
def routeDown (position count : ℕ) : List Bool :=
  if _h : 1 < count then
    let split := 1 <<< (Merkle.bitLength (count - 1) - 1)
    if split ≤ position then true :: routeDown (position - split) (count - split)
    else false :: routeDown position split
  else []
termination_by count
decreasing_by
  · have := Merkle.split_pos count
    unfold Merkle.split at this
    omega
  · exact Merkle.split_lt _h

/-- `_route`: the sibling sides bottom up, `true` when the sibling goes on the left. -/
def route (position count : ℕ) : Result (List Bool) := do
  countInt position "sequence" (count - 1) 0
  .ok (routeDown position count).reverse

/-- The route is forced by the position and the size alone. -/
theorem reverse_routeDown (position count : ℕ) :
    (routeDown position count).reverse = Merkle.sides position count := by
  induction count using Nat.strong_induction_on generalizing position with
  | _ count ih =>
    rw [routeDown]
    split_ifs with hcount
    · have hsplit : 1 <<< (Merkle.bitLength (count - 1) - 1) = Merkle.split count := rfl
      have hpos := Merkle.split_pos count
      have hlt := Merkle.split_lt (n := count) hcount
      simp only [hsplit]
      split_ifs with hright
      · rw [List.reverse_cons, ih _ (by omega), Merkle.sides_right hcount hright]
      · rw [List.reverse_cons, ih _ hlt, Merkle.sides_left hcount (by omega)]
    · rw [Merkle.sides_small (by omega), List.reverse_nil]

theorem route_eq_ok {position count : ℕ} {directions : List Bool} :
    route position count = .ok directions ↔
      position < count ∧ directions = Merkle.sides position count := by
  simp only [route, reverse_routeDown, bind_eq_ok, countInt_eq_ok, exists_unit, Except.ok.injEq]
  constructor
  · rintro ⟨⟨-, hle⟩, rfl⟩
    exact ⟨by omega, rfl⟩
  · rintro ⟨hlt, rfl⟩
    exact ⟨⟨by omega, by omega⟩, rfl⟩

/-! ## Commitments -/

/-- `LedgerCommitment`: a header that agrees with its version and, when empty, with genesis. -/
structure LedgerCommitment (D : Type) [Hashing D] where
  ledgerVersion : String
  genesis : D
  headDigest : D
  entryCount : ℕ
  rootHash : D
  genesis_eq : versions? ledgerVersion = some genesis
  count_le : entryCount ≤ maxLedgerEntries
  empty_eq : entryCount = 0 → headDigest = genesis ∧ rootHash = emptyRoot

namespace LedgerCommitment

omit [DecidableEq D] in
theorem ext_iff {a b : LedgerCommitment D} : a = b ↔
    a.ledgerVersion = b.ledgerVersion ∧ a.genesis = b.genesis ∧ a.headDigest = b.headDigest ∧
      a.entryCount = b.entryCount ∧ a.rootHash = b.rootHash := by
  cases a; cases b; simp

instance : DecidableEq (LedgerCommitment D) := fun _ _ => decidable_of_iff _ ext_iff.symm

/-- The constructor and its `__post_init__`. -/
def make (version : String) (genesis headDigest : D) (entryCount : ℤ) (rootHash : D) :
    Result (LedgerCommitment D) :=
  if hversion : (versions? version : Option D).isSome then
    if hgenesis : versions? version = some genesis then
      if hcount : 0 ≤ entryCount ∧ entryCount ≤ maxLedgerEntries then
        if hempty : entryCount.toNat = 0 → headDigest = genesis ∧ rootHash = emptyRoot then
          .ok ⟨version, genesis, headDigest, entryCount.toNat, rootHash, hgenesis,
            by omega, hempty⟩
        else .error (.validation "empty commitment must use genesis and the empty-tree root")
      else .error (.validation
        ("entry_count must be an integer in 0.." ++ toString maxLedgerEntries))
    else .error (.validation "commitment genesis does not match ledger version")
  else .error (.validation "unsupported commitment ledger version")

def headerFields : List String :=
  ["commitment_digest", "entry_count", "genesis", "head_digest", "kind", "ledger_version",
    "root_hash", "schema_version"]

/-- `_body`, item by item. -/
def body (c : LedgerCommitment D) : List (String × Json) :=
  [("kind", .str "evidence-braid-ledger-commitment"), ("schema_version", .str "1.0"),
    ("ledger_version", .str c.ledgerVersion), ("genesis", .str (hex c.genesis)),
    ("head_digest", .str (hex c.headDigest)), ("entry_count", .int c.entryCount),
    ("root_hash", .str (hex c.rootHash))]

/-- `digest`. -/
def digest (c : LedgerCommitment D) : D := hashBytes 'C' (canonicalBytes (Json.dict c.body))

/-- `to_dict`. -/
def toDict (c : LedgerCommitment D) : Json :=
  Json.dict (c.body ++ [("commitment_digest", Json.str (hex c.digest))])

omit [DecidableEq D] in
theorem wellKeyed_body (c : LedgerCommitment D) : WellKeyed (Json.dict c.body) := by
  refine Json.wellKeyed_dict ?_
  intro kv hkv
  simp only [body, List.mem_cons, List.not_mem_nil, or_false] at hkv
  rcases hkv with rfl | rfl | rfl | rfl | rfl | rfl | rfl <;> simp

omit [DecidableEq D] in
/-- **A commitment digest determines its header.** -/
theorem digest_injective (h : FramedInjective D) :
    Function.Injective (digest : LedgerCommitment D → D) := by
  intro a b heq
  have hdoc := canonicalBytes_inj a.wellKeyed_body b.wellKeyed_body (h.header heq)
  simp +decide only [body, Json.dict, List.foldr, Json.insertKey, if_true, if_false,
    Json.obj.injEq, List.cons.injEq, Prod.mk.injEq, true_and, and_true, Json.str.injEq,
    Json.int.injEq, hex_inj, Nat.cast_inj] at hdoc
  obtain ⟨hcount, hgenesis, hhead, hversion, hroot⟩ := hdoc
  exact ext_iff.mpr ⟨hversion, hgenesis, hhead, hcount, hroot⟩

/-- `_object`: exactly these fields. -/
def object (value : Json) (fields : List String) (name : String) :
    Result (List (String × Json)) :=
  match value with
  | .obj kvs => do
    valid ((∀ k ∈ Json.keys kvs, k ∈ fields) ∧ ∀ f ∈ fields, f ∈ Json.keys kvs)
      (name ++ " has an invalid field set")
    .ok kvs
  | _ => .error (.validation (name ++ " has an invalid field set"))

theorem object_of_keys {kvs : List (String × Json)} {names : List String} {name : String}
    (h : Json.keys kvs = names) : object (.obj kvs) names name = .ok kvs := by
  subst h
  simp [object]

/-- `from_dict`. -/
def fromDict (value : Json) : Result (LedgerCommitment D) := do
  let data ← object value headerFields "commitment"
  valid (Json.get? data "kind" = some (.str "evidence-braid-ledger-commitment") ∧
    Json.get? data "schema_version" = some (.str "1.0")) "unsupported commitment format"
  let version ← match Json.get? data "ledger_version" with
    | some (.str version) => .ok version
    | _ => .error (.validation "unsupported commitment ledger version")
  let genesis ← hashField (Json.get? data "genesis") "genesis"
  let headDigest ← hashField (Json.get? data "head_digest") "head_digest"
  let rootHash ← hashField (Json.get? data "root_hash") "root_hash"
  let entryCount ← count (Json.get? data "entry_count") "entry_count" maxLedgerEntries 0
  let result ← make version genesis headDigest entryCount rootHash
  let supplied ← hashField (Json.get? data "commitment_digest") "commitment_digest"
  valid (supplied = result.digest) "commitment digest does not match its header"
  .ok result

omit [DecidableEq D] in
theorem toDict_eq (c : LedgerCommitment D) : c.toDict =
    .obj [("commitment_digest", .str (hex c.digest)), ("entry_count", .int c.entryCount),
      ("genesis", .str (hex c.genesis)), ("head_digest", .str (hex c.headDigest)),
      ("kind", .str "evidence-braid-ledger-commitment"), ("ledger_version", .str c.ledgerVersion),
      ("root_hash", .str (hex c.rootHash)), ("schema_version", .str "1.0")] := by
  simp +decide only [toDict, body, Json.dict, List.cons_append, List.nil_append, List.foldr,
    Json.insertKey, if_true, if_false]

/-- The fields of a header pass the constructor's checks. -/
theorem make_fields (c : LedgerCommitment D) :
    make c.ledgerVersion c.genesis c.headDigest c.entryCount c.rootHash = .ok c := by
  unfold make
  rw [dif_pos (by rw [c.genesis_eq]; rfl), dif_pos c.genesis_eq,
    dif_pos ⟨by omega, by exact_mod_cast c.count_le⟩, dif_pos (by simpa using c.empty_eq)]
  rfl

/-- **A header survives its document.** -/
@[simp] theorem fromDict_toDict (c : LedgerCommitment D) : fromDict c.toDict = .ok c := by
  rw [toDict_eq, fromDict, object]
  simp only [bind_eq_ok, valid_eq_ok, exists_unit, exists_and_left, Except.ok.injEq, and_assoc]
  simp +decide only [Json.get?_cons, if_true, if_false, hashField, readHash_hex, Except.ok.injEq,
    exists_eq_left', count, bind_eq_ok, valid_eq_ok]
  have hcount : (0 : ℤ) ≤ c.entryCount ∧ (c.entryCount : ℤ) ≤ maxLedgerEntries :=
    ⟨by omega, by exact_mod_cast c.count_le⟩
  exact ⟨by simp [Json.keys, headerFields], by simp [Json.keys, headerFields], trivial, trivial,
    _, ⟨(), hcount, rfl⟩, c, c.make_fields, (), rfl, rfl⟩

end LedgerCommitment

/-! ## Bundles -/

/-- `LedgerMemberProof`: a receipt within bounds and at most 17 siblings. -/
structure LedgerMemberProof (D : Type) [Hashing D] where
  entry : LedgerEntry D
  siblings : List D
  siblings_le : siblings.length ≤ maxSiblings
  receipt : ∃ raw, receiptBytes entry = .ok raw

namespace LedgerMemberProof

omit [DecidableEq D] in
theorem ext_iff {a b : LedgerMemberProof D} :
    a = b ↔ a.entry = b.entry ∧ a.siblings = b.siblings := by
  cases a; cases b; simp

instance : DecidableEq (LedgerMemberProof D) := fun _ _ => decidable_of_iff _ ext_iff.symm

/-- The constructor and its `__post_init__`. -/
def make (entry : LedgerEntry D) (siblings : List D) : Result (LedgerMemberProof D) :=
  if hlen : siblings.length ≤ maxSiblings then
    match hraw : receiptBytes entry with
    | .error e => .error e
    | .ok raw => .ok ⟨entry, siblings, hlen, raw, hraw⟩
  else .error (.validation "membership siblings require a tuple of at most 17 hashes")

/-- `to_dict`. -/
def toDict (m : LedgerMemberProof D) : Json :=
  Json.dict [("entry", m.entry.toDict), ("siblings", .arr (m.siblings.map fun d => .str (hex d)))]

/-- The digests of an array of texts. -/
def readHashes (path : String) : List Json → Result (List D)
  | [] => .ok []
  | x :: xs => do
    let d ← hashField (some x) path
    let ds ← readHashes path xs
    .ok (d :: ds)

/-- `from_dict`. -/
def fromDict (value : Json) : Result (LedgerMemberProof D) := do
  let data ← LedgerCommitment.object value ["entry", "siblings"] "member"
  match Json.get? data "siblings" with
  | some (.arr siblings) => do
    valid (siblings.length ≤ maxSiblings) "membership siblings must be a bounded array"
    let digests ← readHashes "sibling" siblings
    preflight (.obj data)
    let entry ← LedgerEntry.fromDict ((Json.get? data "entry").getD .null)
    make entry digests
  | _ => .error (.validation "membership siblings must be a bounded array")

end LedgerMemberProof

namespace LedgerMembershipBundle

/-- The loop of `LedgerMembershipBundle.__post_init__`. -/
def checkMembers (entryCount : ℕ) (previous : ℤ) (size : ℕ) :
    List (LedgerMemberProof D) → Result Unit
  | [] => .ok ()
  | m :: ms => do
    valid (previous < m.entry.sequence) "membership positions must strictly increase"
    let directions ← route m.entry.sequence entryCount
    valid (m.siblings.length = directions.length)
      "membership sibling count disagrees with tree shape"
    let raw ← receiptBytes m.entry
    valid (size + raw.length ≤ maxReceiptBytes) "selected receipt bytes exceed 16 MiB"
    checkMembers entryCount m.entry.sequence (size + raw.length) ms

/-- `__post_init__`. -/
def postInit (commitment : LedgerCommitment D) (members : List (LedgerMemberProof D)) :
    Result Unit := do
  valid (1 ≤ members.length ∧ members.length ≤ maxMembers)
    "membership requires 1..1000 immutable member proofs"
  checkMembers commitment.entryCount (-1) 0 members

end LedgerMembershipBundle

/-- `LedgerMembershipBundle`: proofs that share one header and pass its `__post_init__`. -/
structure LedgerMembershipBundle (D : Type) [Hashing D] where
  commitment : LedgerCommitment D
  members : List (LedgerMemberProof D)
  checked : LedgerMembershipBundle.postInit commitment members = .ok ()

namespace LedgerMembershipBundle

omit [DecidableEq D] in
theorem ext_iff {a b : LedgerMembershipBundle D} :
    a = b ↔ a.commitment = b.commitment ∧ a.members = b.members := by
  cases a; cases b; simp

instance : DecidableEq (LedgerMembershipBundle D) := fun _ _ => decidable_of_iff _ ext_iff.symm

/-- The constructor. -/
def make (commitment : LedgerCommitment D) (members : List (LedgerMemberProof D)) :
    Result (LedgerMembershipBundle D) :=
  match h : postInit commitment members with
  | .error e => .error e
  | .ok () => .ok ⟨commitment, members, h⟩

/-- `to_dict`. -/
def toDict (b : LedgerMembershipBundle D) : Json :=
  Json.dict [("kind", .str "evidence-braid-ledger-membership"), ("schema_version", .str "1.0"),
    ("commitment", b.commitment.toDict), ("members", .arr (b.members.map (·.toDict)))]

/-- `to_bytes`. -/
def toBytes (b : LedgerMembershipBundle D) : Result Bytes := do
  let data := b.toDict
  preflight data
  let raw := canonicalBytes data
  valid (raw.length ≤ maxBundleBytes) "membership bundle exceeds 20 MiB"
  .ok raw

/-- The first loop of `from_dict`: every path is short before any receipt is read. -/
def inspectPaths : List Json → Result Unit
  | [] => .ok ()
  | member :: members => do
    let fields ← LedgerCommitment.object member ["entry", "siblings"] "member"
    match Json.get? fields "siblings" with
    | some (.arr siblings) =>
      valid (siblings.length ≤ maxSiblings) "membership siblings must be a bounded array"
    | _ => .error (.validation "membership siblings must be a bounded array")
    inspectPaths members

/-- The second loop of `from_dict`: the receipts' sizes. -/
def inspectSizes (size : ℕ) : List Json → Result Unit
  | [] => .ok ()
  | member :: members => do
    let entry := match member with
      | .obj fields => (Json.get? fields "entry").getD .null
      | _ => .null
    let size := size + (canonicalBytes entry).length
    valid (size ≤ maxReceiptBytes) "selected receipt bytes exceed 16 MiB"
    inspectSizes size members

/-- The members that an array of documents decodes to. -/
def readMembers : List Json → Result (List (LedgerMemberProof D))
  | [] => .ok []
  | member :: members => do
    let m ← LedgerMemberProof.fromDict member
    let ms ← readMembers members
    .ok (m :: ms)

/-- `from_dict`. -/
def fromDict (value : Json) : Result (LedgerMembershipBundle D) := do
  let data ← LedgerCommitment.object value ["commitment", "kind", "members", "schema_version"]
    "bundle"
  valid (Json.get? data "kind" = some (.str "evidence-braid-ledger-membership") ∧
    Json.get? data "schema_version" = some (.str "1.0")) "unsupported membership bundle format"
  match Json.get? data "members" with
  | some (.arr members) => do
    valid (1 ≤ members.length ∧ members.length ≤ maxMembers)
      "membership requires 1..1000 members"
    inspectPaths members
    preflight (.obj data)
    inspectSizes 0 members
    let commitment ← LedgerCommitment.fromDict ((Json.get? data "commitment").getD .null)
    let proofs ← readMembers members
    let result ← make commitment proofs
    let _ ← result.toBytes
    .ok result
  | _ => .error (.validation "membership requires 1..1000 members")

/-- `_parse_integer` and `_parse_finite_float`. -/
def hooks : Json.Hooks where
  parseInt t := if t.int.length ≤ maxAttributeIntegerDigits then some t.toInt else none
  parseFloat := Numeral.toFinite?

/-- `from_bytes`. -/
def fromBytes (raw : Bytes) : Result (LedgerMembershipBundle D) := do
  valid (raw.length ≤ maxBundleBytes) "membership input must be bytes within 20 MiB"
  valid (Json.scanDepth maxJsonDepth raw = true) "membership JSON nesting exceeds 72 containers"
  wrapping PyError.isValueError "invalid canonical membership JSON" (do
    let chars ← orError (Utf8.decode raw) (.value "invalid UTF-8")
    let data ← orError (Json.loads hooks chars) (.value "invalid JSON")
    let result ← fromDict data
    let bytes ← result.toBytes
    valid (bytes = raw) "membership input is not canonical UTF-8 JSON"
    .ok result)

end LedgerMembershipBundle

/-! ## Verification -/

/-- The climb of `verify_ledger_membership` from a leaf's digest. -/
def climb (digest : D) (path : List (Bool × D)) : D :=
  path.foldl (fun digest (left, sibling) =>
    if left then nodeHash sibling digest else nodeHash digest sibling) digest

/-- The loop of `verify_ledger_membership`. -/
def verifyMembers (header : LedgerCommitment D) : List (LedgerMemberProof D) → Result Unit
  | [] => .ok ()
  | m :: ms => do
    let entry := m.entry
    let event ← entry.decoded "event"
    valid (chainDigest entry.previousDigest event entry.sequence header.ledgerVersion =
      entry.digest) "membership receipt chain digest does not match"
    valid (entry.sequence = 0 → entry.previousDigest = header.genesis)
      "first membership receipt does not follow genesis"
    valid ((entry.sequence : ℤ) = header.entryCount - 1 → entry.digest = header.headDigest)
      "last membership receipt differs from the prefix head"
    let directions ← route entry.sequence header.entryCount
    require (directions.length = m.siblings.length)
      (.value "zip() arguments have different lengths")
    valid (climb (leafHash header.ledgerVersion entry) (directions.zip m.siblings) =
      header.rootHash) "membership proof does not reproduce the committed root"
    verifyMembers header ms

/-- `verify_ledger_membership`. -/
def verifyLedgerMembership (bundle : LedgerMembershipBundle D) (expected : D) :
    Result (List (LedgerEntry D)) := do
  valid (bundle.commitment.digest = expected)
    "membership commitment differs from the expected anchor"
  verifyMembers bundle.commitment bundle.members
  .ok (bundle.members.map (·.entry))

/-! ## The proof index -/

/-- `_Node`: a cached subtree, its digest and its number of leaves. -/
inductive Node (D : Type) where
  | leaf (digest : D)
  | inner (digest : D) (count : ℕ) (left right : Node D)
  deriving DecidableEq

namespace Node

def digest : Node D → D
  | leaf d => d
  | inner d _ _ _ => d

def count : Node D → ℕ
  | leaf _ => 1
  | inner _ n _ _ => n

/-- The tree caches the digests and sizes of the tree over these leaves. -/
def Holds (ds : List D) : Node D → Prop
  | leaf d => ds = [d]
  | inner d n l r =>
    2 ≤ ds.length ∧ n = ds.length ∧ d = nodeHash l.digest r.digest ∧
      Holds (ds.take (Merkle.split ds.length)) l ∧ Holds (ds.drop (Merkle.split ds.length)) r

omit [DecidableEq D] in
/-- A cached tree knows its size and its root. -/
theorem Holds.count_digest : ∀ {t : Node D} {ds : List D}, t.Holds ds →
    t.count = ds.length ∧ t.digest = Merkle.root nodeHash emptyRoot ds
  | leaf d, ds, h => by
    obtain rfl : ds = [d] := h
    simp [count, digest]
  | inner d n l r, ds, h => by
    obtain ⟨hlen, hn, hd, hl, hr⟩ := h
    refine ⟨hn, ?_⟩
    rw [Merkle.root_split nodeHash emptyRoot hlen, ← hl.count_digest.2, ← hr.count_digest.2]
    exact hd

end Node

/-- `_build`: the cached tree over `count` receipts from a start. -/
def build (version : String) (entries : List (LedgerEntry D)) (start count : ℕ)
    (hpos : 0 < count) (hend : start + count ≤ entries.length) : Node D :=
  if hone : count = 1 then .leaf (leafHash version entries[start])
  else
    let split := 1 <<< (Merkle.bitLength (count - 1) - 1)
    have hsplit : 0 < split ∧ split < count :=
      ⟨Merkle.split_pos count, Merkle.split_lt (by omega)⟩
    let left := build version entries start split (by omega) (by omega)
    let right := build version entries (start + split) (count - split) (by omega) (by omega)
    .inner (nodeHash left.digest right.digest) count left right
termination_by count
decreasing_by all_goals omega

/-- The leaf digests of a ledger. -/
def leaves (version : String) (entries : List (LedgerEntry D)) : List D :=
  entries.map (leafHash version)

omit [DecidableEq D] in
/-- **The cached tree is the Merkle tree** over the receipts it was built from. -/
theorem holds_build {version : String} {entries : List (LedgerEntry D)} {start count : ℕ}
    (hpos : 0 < count) (hend : start + count ≤ entries.length) :
    (build version entries start count hpos hend).Holds
      (((leaves version entries).drop start).take count) := by
  induction count using Nat.strong_induction_on generalizing start with
  | _ count ih =>
    have hlen : (((leaves version entries).drop start).take count).length = count := by
      simp [leaves]; omega
    rw [build]
    split_ifs with hone
    · subst hone
      have hstart : start < (leaves version entries).length := by simp [leaves]; omega
      rw [Node.Holds, List.drop_eq_getElem_cons hstart]
      simp [leaves]
    · have hsplit := Merkle.split_pos count
      have hsplit' := Merkle.split_lt (n := count) (by omega)
      have hleft := @ih (Merkle.split count) hsplit' start hsplit (by omega)
      have hright := @ih (count - Merkle.split count) (by omega) (start + Merkle.split count)
        (by omega) (by omega)
      refine ⟨by omega, hlen.symm, rfl, ?_, ?_⟩
      · rw [hlen, List.take_take, Nat.min_eq_left hsplit'.le]
        exact hleft
      · rw [hlen, List.drop_take, List.drop_drop]
        exact hright

/-- The tree of a proof index: none over an empty ledger. -/
def treeOf (ledger : EvidenceLedger D) : Option (Node D) :=
  if hempty : ledger.entries = [] then none
  else some (build ledger.schemaVersion ledger.entries 0 ledger.entries.length
    (List.length_pos_iff.mpr hempty) (by omega))

/-- The root that a proof index commits to. -/
def treeRoot (tree : Option (Node D)) : D := (tree.map Node.digest).getD emptyRoot

/-- The header that commits to a ledger: its version, head, size and tree root. -/
def commitmentOf (ledger : EvidenceLedger D) : Result (LedgerCommitment D) :=
  LedgerCommitment.make ledger.schemaVersion ledger.genesis ledger.headDigest
    ledger.entries.length (treeRoot (treeOf ledger))

/-- `LedgerProofIndex`: the cached tree and the commitment of a verified prefix. -/
structure LedgerProofIndex (D : Type) [Hashing D] [DecidableEq D] where
  index : LedgerIndex D
  commitment : LedgerCommitment D
  tree : Option (Node D)
  tree_eq : tree = treeOf index.ledger
  commitment_eq : commitmentOf index.ledger = .ok commitment

namespace LedgerProofIndex

/-- The constructor. -/
def make (index : LedgerIndex D) : Result (LedgerProofIndex D) :=
  match h : commitmentOf index.ledger with
  | .error e => .error e
  | .ok commitment => .ok ⟨index, commitment, treeOf index.ledger, rfl, h⟩

/-- The loop of `_member`: the siblings from the root down. -/
def siblingsDown : Node D → ℕ → List D
  | .leaf _, _ => []
  | .inner _ _ left right, offset =>
    if offset < left.count then right.digest :: siblingsDown left offset
    else left.digest :: siblingsDown right (offset - left.count)

/-- `_member`. -/
def member (p : LedgerProofIndex D) (sequence : ℕ) : Result (LedgerMemberProof D) := do
  countInt sequence "sequence" (p.commitment.entryCount - 1) 0
  let siblings := (p.tree.map fun tree => (siblingsDown tree sequence).reverse).getD []
  let entry ← orError p.index.ledger.entries[sequence]? (.runtime "IndexError")
  LedgerMemberProof.make entry siblings

/-- The member proofs at these positions. -/
def memberAll (p : LedgerProofIndex D) : List ℕ → Result (List (LedgerMemberProof D))
  | [] => .ok []
  | sequence :: sequences => do
    let m ← p.member sequence
    let ms ← memberAll p sequences
    .ok (m :: ms)

/-- `prove`. -/
def prove (p : LedgerProofIndex D) (sequence : ℕ) : Result (LedgerMembershipBundle D) := do
  let m ← p.member sequence
  LedgerMembershipBundle.make p.commitment [m]

/-- The loop of `prove_page`: the page's receipts are the prefix's own. -/
def checkPage (p : LedgerProofIndex D) : List (LedgerEntry D) → Result Unit
  | [] => .ok ()
  | entry :: entries => do
    countInt entry.sequence "page sequence" (p.commitment.entryCount - 1) 0
    let own ← orError p.index.ledger.entries[entry.sequence]? (.runtime "IndexError")
    let raw ← receiptBytes entry
    let ownRaw ← receiptBytes own
    valid (raw = ownRaw) "page receipt differs from the verified prefix"
    checkPage p entries

/-- `prove_page`. -/
def provePage (p : LedgerProofIndex D) (page : LedgerPage D) :
    Result (LedgerMembershipBundle D) := do
  valid (page.headDigest = p.commitment.headDigest ∧
    page.snapshotEntries = p.commitment.entryCount)
    "page and proof index refer to different prefixes"
  valid (page.entries ≠ []) "empty pages have no membership proof"
  checkPage p page.entries
  let members ← p.memberAll (page.entries.map (·.sequence))
  LedgerMembershipBundle.make p.commitment members

end LedgerProofIndex

end EvidenceBraid
