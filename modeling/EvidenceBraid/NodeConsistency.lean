import EvidenceBraid.ConsistencyProof

/-!
# The independent consistency verifier

`verification/ledger-consistency.mjs` walks up the binary digits of the two last positions where
`consistency.py` recurses from the top. Its loop consumes exactly the levels of the Merkle library
(`accepts_fold_iff`), so both verifiers accept the same proofs
(`verifyLedgerConsistency_agrees`).
-/

namespace EvidenceBraid

open Hashing

namespace NodeVerifier

variable {D : Type} [Hashing D] [DecidableEq D]

/-! ## The walk -/

/-- `ConsistencyVerificationError`. -/
structure VerificationError where
  message : String
  deriving DecidableEq, Repr

abbrev Verified := Except VerificationError

/-- `requireValue`. -/
def requireValue (condition : Prop) [Decidable condition] (message : String) : Verified Unit :=
  if condition then .ok () else .error ⟨message⟩

/-- `while ((oldIndex & 1) === 1)`: up to where the smaller tree's last position is a left child. -/
def stripOnes (oldIndex newIndex : ℕ) : ℕ × ℕ :=
  if _h : oldIndex &&& 1 = 1 then stripOnes (oldIndex >>> 1) (newIndex >>> 1)
  else (oldIndex, newIndex)
termination_by oldIndex
decreasing_by
  rw [Nat.and_one_is_mod] at _h
  rw [Nat.shiftRight_eq_div_pow]
  omega

/-- `while (oldIndex !== 0 && (oldIndex & 1) === 0)`. -/
def stripZeros (oldIndex newIndex : ℕ) : ℕ × ℕ :=
  if _h : oldIndex ≠ 0 ∧ oldIndex &&& 1 = 0 then stripZeros (oldIndex >>> 1) (newIndex >>> 1)
  else (oldIndex, newIndex)
termination_by oldIndex
decreasing_by
  rw [Nat.shiftRight_eq_div_pow]
  omega

/-- The variables of the loop over the path. -/
structure Walk (D : Type) where
  oldIndex : ℕ
  newIndex : ℕ
  before : D
  after : D

/-- The loop over the path. -/
def fold (w : Walk D) : List D → Verified (Walk D)
  | [] => .ok w
  | sibling :: path => do
    requireValue (w.newIndex ≠ 0) "extra consistency path node"
    if w.oldIndex &&& 1 = 1 ∨ w.oldIndex = w.newIndex then
      let (oldIndex, newIndex) := stripZeros w.oldIndex w.newIndex
      fold ⟨oldIndex >>> 1, newIndex >>> 1, nodeHash sibling w.before, nodeHash sibling w.after⟩ path
    else
      fold ⟨w.oldIndex >>> 1, w.newIndex >>> 1, w.before, nodeHash w.after sibling⟩ path

/-- Where the loop starts: at the shared subtree's root, which the path carries unless it is the
old root itself. -/
def start (oldIndex : ℕ) (oldRoot : D) : List D → Verified (D × List D)
  | [] => if oldIndex ≠ 0 then .error ⟨"missing initial consistency subtree"⟩ else .ok (oldRoot, [])
  | base :: path => if oldIndex ≠ 0 then .ok (base, path) else .ok (oldRoot, base :: path)

/-- The last branch of `verifyLedgerConsistency`: `0 < old.entryCount < next.entryCount`. -/
def walkUp (old next : LedgerCommitment D) (path : List D) : Verified Unit := do
  let (oldIndex, newIndex) := stripOnes (old.entryCount - 1) (next.entryCount - 1)
  let (before, path) ← start oldIndex old.rootHash path
  let walk ← fold ⟨oldIndex, newIndex, before, before⟩ path
  requireValue (walk.newIndex = 0 ∧ walk.before = old.rootHash ∧ walk.after = next.rootHash)
    "consistency path does not reproduce both committed roots"

/-- `canonical`, on the admitted headers. -/
def canonical (c : LedgerCommitment D) : List Char := canonicalJson c.toDict false

/-- What `verifyLedgerConsistency` returns. -/
structure Receipt (D : Type) where
  oldEntryCount : ℕ
  newEntryCount : ℕ
  oldCommitmentDigest : D
  newCommitmentDigest : D

/-- `verifyLedgerConsistency`, on an admitted proof: two valid headers and a path. -/
def verifyLedgerConsistency (old next : LedgerCommitment D) (path : List D)
    (expectedOld expectedNew : D) : Verified (Receipt D) := do
  requireValue (old.digest = expectedOld ∧ next.digest = expectedNew)
    "proof commitments differ from expected anchors"
  requireValue (old.ledgerVersion = next.ledgerVersion ∧ old.genesis = next.genesis)
    "ledger version/genesis mismatch"
  requireValue (old.entryCount ≤ next.entryCount) "entry-count rollback"
  if old.entryCount = next.entryCount then
    requireValue (path.length = 0 ∧ canonical old = canonical next)
      "equal-size commitments must be identical with an empty path"
  else if old.entryCount = 0 then
    requireValue (path.length = 0) "empty-prefix consistency needs an empty path"
  else walkUp old next path
  .ok ⟨old.entryCount, next.entryCount, expectedOld, expectedNew⟩

/-! ## Simulation -/

theorem requireValue_eq_ok {condition : Prop} [Decidable condition] {message : String} {u : Unit} :
    requireValue condition message = .ok u ↔ condition := by
  unfold requireValue
  split_ifs with h <;> simp [h]

/-- `stripOnes` climbs to the shared subtree. -/
theorem stripOnes_eq (i j : ℕ) : stripOnes i j = Merkle.climbShared i j := by
  induction i using Nat.strong_induction_on generalizing j with
  | _ i ih =>
    rw [stripOnes]
    simp only [Nat.and_one_is_mod, Nat.shiftRight_one]
    split_ifs with hodd
    · rw [Merkle.climbShared_odd hodd, ih (i / 2) (by omega)]
    · rw [Merkle.climbShared_even (by omega)]

theorem stripZeros_odd {i j : ℕ} (hi : i % 2 = 1) : stripZeros i j = (i, j) := by
  rw [stripZeros, dif_neg]
  rw [Nat.and_one_is_mod]
  omega

/-- Equal last positions pass up together to the next sibling. -/
theorem stripZeros_self {i : ℕ} (hi : 0 < i) : ∃ m, stripZeros i i = (m, m) ∧
    Merkle.levels i i = true :: Merkle.levels (m / 2) (m / 2) := by
  induction i using Nat.strong_induction_on with
  | _ i ih =>
    rcases Nat.mod_two_eq_zero_or_one i with he | ho
    · obtain ⟨m, hstrip, hlevels⟩ := ih (i / 2) (by omega) (by omega)
      refine ⟨m, ?_, by rw [Merkle.levels_last hi he, hlevels]⟩
      rw [stripZeros, dif_pos ⟨by omega, by rw [Nat.and_one_is_mod, he]⟩, Nat.shiftRight_one, hstrip]
    · exact ⟨i, stripZeros_odd ho, Merkle.levels_odd hi ho⟩

omit [DecidableEq D] in
/-- One round of the loop takes the sibling of one level. -/
theorem fold_cons {w : Walk D} (hle : w.oldIndex ≤ w.newIndex) (hnew : w.newIndex ≠ 0)
    (sibling : D) (path : List D) : ∃ side i j, i ≤ j ∧
      Merkle.levels w.oldIndex w.newIndex = side :: Merkle.levels i j ∧
      fold w (sibling :: path) =
        fold ⟨i, j, (Merkle.join nodeHash (w.before, w.after) (side, sibling)).1,
          (Merkle.join nodeHash (w.before, w.after) (side, sibling)).2⟩ path := by
  obtain ⟨i, j, before, after⟩ := w
  simp only at hle hnew
  have hguard : requireValue (j ≠ 0) "extra consistency path node" = .ok () :=
    requireValue_eq_ok.mpr hnew
  simp only [fold, hguard, Nat.and_one_is_mod, Nat.shiftRight_one, Merkle.join]
  rcases Nat.mod_two_eq_zero_or_one i with he | ho
  · rcases Nat.eq_or_lt_of_le hle with rfl | hlt
    · obtain ⟨m, hstrip, hlevels⟩ := stripZeros_self (Nat.pos_of_ne_zero hnew)
      refine ⟨true, m / 2, m / 2, le_rfl, hlevels, ?_⟩
      simp [hstrip]
      rfl
    · refine ⟨false, i / 2, j / 2, by omega, Merkle.levels_even he hlt, ?_⟩
      simp [he, hlt.ne]
      rfl
  · refine ⟨true, i / 2, j / 2, by omega, Merkle.levels_odd (by omega) ho, ?_⟩
    simp [ho, stripZeros_odd]
    rfl

omit [DecidableEq D] in
/-- **The loop accepts** exactly one sibling a level, when they rebuild the two roots. -/
theorem accepts_fold_iff {roots : D × D} {path : List D} {w : Walk D}
    (hle : w.oldIndex ≤ w.newIndex) :
    (∃ w', fold w path = .ok w' ∧ w'.newIndex = 0 ∧ (w'.before, w'.after) = roots) ↔
      path.length = (Merkle.levels w.oldIndex w.newIndex).length ∧
        Merkle.joins nodeHash (w.before, w.after)
          ((Merkle.levels w.oldIndex w.newIndex).zip path) = roots := by
  induction path generalizing w with
  | nil =>
    have hnil : (Merkle.levels w.oldIndex w.newIndex).length = 0 ↔ w.newIndex = 0 := by
      rw [List.length_eq_zero_iff, Merkle.levels_eq_nil_iff hle]
    simp only [fold, Except.ok.injEq, exists_eq_left', List.length_nil, List.zip_nil_right,
      Merkle.joins_nil]
    rw [@eq_comm _ 0, hnil]
  | cons sibling path ih =>
    rcases Nat.eq_zero_or_pos w.newIndex with hzero | hpos
    · have hguard : ∀ w', fold w (sibling :: path) ≠ .ok w' := by
        simp [fold, requireValue, hzero, bind, Except.bind]
      simp [hguard, hzero, Merkle.levels_zero]
    · obtain ⟨side, i, j, hij, hlevels, hfold⟩ := fold_cons hle hpos.ne' sibling path
      rw [hfold, ih hij, hlevels]
      simp [Merkle.joins]

omit [Hashing D] [DecidableEq D] in
theorem start_eq_ok {i : ℕ} {oldRoot before : D} {path rest : List D} :
    start i oldRoot path = .ok (before, rest) ↔
      if i ≠ 0 then path = before :: rest else before = oldRoot ∧ rest = path := by
  cases path with
  | nil => by_cases hi : i = 0 <;> simp [start, hi, @eq_comm _ oldRoot, @eq_comm _ [] rest]
  | cons base path =>
    by_cases hi : i = 0 <;> simp [start, hi, @eq_comm _ oldRoot, @eq_comm _ (base :: path) rest]

/-- **The last branch** accepts exactly the consistent paths. -/
theorem walkUp_eq_ok {old next : LedgerCommitment D} {path : List D} (hpos : 0 < old.entryCount)
    (hlt : old.entryCount < next.entryCount) :
    walkUp old next path = .ok () ↔
      Merkle.Consistent nodeHash old.entryCount next.entryCount old.rootHash next.rootHash path := by
  obtain ⟨hturns, hmem⟩ := Merkle.turns_eq_walk hpos hlt
  have hle : (Merkle.climbShared (old.entryCount - 1) (next.entryCount - 1)).1 ≤
      (Merkle.climbShared (old.entryCount - 1) (next.entryCount - 1)).2 :=
    Merkle.climbShared_le (by omega)
  have hfold := fun before rest => @accepts_fold_iff D _ (old.rootHash, next.rootHash) rest
    ⟨_, _, before, before⟩ hle
  simp only [Prod.mk.injEq] at hfold
  simp only [walkUp, stripOnes_eq, bind_eq_ok, requireValue_eq_ok, Prod.exists, hfold, start_eq_ok,
    Merkle.Consistent, hmem]
  rw [hturns, Merkle.walk]
  split_ifs with hbase
  · rfl
  · constructor
    · rintro ⟨before, rest, ⟨rfl, rfl⟩, hlen, hroots⟩
      exact ⟨hlen, hroots⟩
    · rintro ⟨hlen, hroots⟩
      exact ⟨_, _, ⟨rfl, rfl⟩, hlen, hroots⟩

/-! ## Agreement -/

/-- The canonical text determines the header. -/
theorem canonical_inj {a b : LedgerCommitment D} (h : canonical a = canonical b) :
    a = b := by
  have keyed (c : LedgerCommitment D) : Json.WellKeyed c.toDict := Json.wellKeyed_dict (by
    simp [LedgerCommitment.body] : ∀ kv ∈ c.body ++ [("commitment_digest", Json.str (hex c.digest))],
      Json.WellKeyed kv.2)
  have hdoc := congrArg (@LedgerCommitment.fromDict D _ _) (canonicalJson_inj (keyed a) (keyed b) h)
  rw [LedgerCommitment.fromDict_toDict, LedgerCommitment.fromDict_toDict] at hdoc
  exact Except.ok.inj hdoc

/-- **Acceptance by the loop**, stated on the headers and the path. -/
theorem verifyLedgerConsistency_eq_ok {old next : LedgerCommitment D} {path : List D}
    {expectedOld expectedNew : D} :
    (∃ receipt, verifyLedgerConsistency old next path expectedOld expectedNew = .ok receipt) ↔
      (old.digest = expectedOld ∧ next.digest = expectedNew) ∧
        (old.ledgerVersion = next.ledgerVersion ∧ old.genesis = next.genesis) ∧
          old.entryCount ≤ next.entryCount ∧
            if old.entryCount = next.entryCount then path.length = 0 ∧ canonical old = canonical next
            else if old.entryCount = 0 then path.length = 0
            else walkUp old next path = .ok () := by
  simp only [verifyLedgerConsistency, bind_eq_ok, requireValue_eq_ok, exists_unit]
  split_ifs
  · simp [requireValue_eq_ok]
  · simp [requireValue_eq_ok]
  · constructor
    · rintro ⟨_, hdigests, hversions, hle, haccept⟩
      obtain ⟨⟨⟩, hwalk, -⟩ := bind_eq_ok.mp haccept
      exact ⟨hdigests, hversions, hle, hwalk⟩
    · rintro ⟨hdigests, hversions, hle, hwalk⟩
      exact ⟨_, hdigests, hversions, hle, bind_eq_ok.mpr ⟨(), hwalk, rfl⟩⟩

omit [DecidableEq D] in
/-- A consistent path has the length that the constructor asks for. -/
theorem length_of_consistent {m n : ℕ} {old new : D} {path : List D} (hpos : 0 < m) (hle : m ≤ n)
    (hmax : n ≤ maxLedgerEntries) (h : Merkle.Consistent nodeHash m n old new path) :
    path.length ≤ maxPath ∧ path.length = pathSize m n true := by
  have hturns : (Merkle.turns m n).length ≤ 17 := Merkle.length_turns_le (hmax.trans (by decide))
  rw [pathSize_eq hpos hle]
  unfold Merkle.Consistent at h
  unfold maxPath
  split_ifs at h with hturn
  · obtain ⟨base, rest, rfl, hlen, -⟩ := h
    simp only [List.length_cons, hlen, carriesBase, hturn, or_true, if_true]
    exact ⟨by omega, trivial⟩
  · simp only [h.1, carriesBase, hturn, Bool.true_eq_false, or_self, if_false]
    omega

/-- The constructor returns what it is given. -/
theorem make_eq_ok {old next : LedgerCommitment D} {path : List D}
    {proof : LedgerConsistencyProof D} :
    LedgerConsistencyProof.make old next path = .ok proof ↔
      proof.oldCommitment = old ∧ proof.newCommitment = next ∧ proof.path = path := by
  obtain ⟨old', next', path', hchecked⟩ := proof
  unfold LedgerConsistencyProof.make
  split
  · next e he =>
    simp only [reduceCtorEq, false_iff, not_and]
    rintro rfl rfl rfl
    simp [hchecked] at he
  · simp [@eq_comm _ old', @eq_comm _ next', @eq_comm _ path']

/-- **Both verifiers accept the same proofs**: the loop accepts two headers and a path under two
anchors exactly when the Python proof object can be built from them and is verified. -/
theorem verifyLedgerConsistency_agrees (old next : LedgerCommitment D) (path : List D)
    (expectedOld expectedNew : D) :
    (∃ receipt, verifyLedgerConsistency old next path expectedOld expectedNew = .ok receipt) ↔
      ∃ proof, LedgerConsistencyProof.make old next path = .ok proof ∧
        EvidenceBraid.verifyLedgerConsistency proof expectedOld expectedNew = .ok () := by
  have hproof : (∃ proof, LedgerConsistencyProof.make old next path = .ok proof ∧
      EvidenceBraid.verifyLedgerConsistency proof expectedOld expectedNew = .ok ()) ↔
      LedgerConsistencyProof.postInit old next path = .ok () ∧
        (old.digest = expectedOld ∧ next.digest = expectedNew) ∧
          (old.entryCount = 0 ∨ old.entryCount = next.entryCount ∨
            Merkle.Consistent nodeHash old.entryCount next.entryCount old.rootHash next.rootHash
              path) := by
    simp only [make_eq_ok, EvidenceBraid.verifyLedgerConsistency_eq_ok]
    constructor
    · rintro ⟨proof, ⟨rfl, rfl, rfl⟩, h⟩
      exact ⟨proof.checked, h⟩
    · rintro ⟨hpost, h⟩
      exact ⟨⟨old, next, path, hpost⟩, ⟨rfl, rfl, rfl⟩, h⟩
  rw [hproof, verifyLedgerConsistency_eq_ok, LedgerConsistencyProof.postInit_eq_ok, headers_eq_ok]
  rcases Nat.lt_trichotomy old.entryCount next.entryCount with hlt | heq | hgt
  · rw [if_neg hlt.ne]
    rcases Nat.eq_zero_or_pos old.entryCount with hzero | hpos
    · -- the empty prefix
      have hsize : pathSize old.entryCount next.entryCount true = 0 := by
        rw [hzero, pathSize, if_pos rfl]
      rw [if_pos hzero, hsize]
      constructor
      · rintro ⟨hdigests, hversions, hle, hlen⟩
        exact ⟨⟨⟨hversions, hle, fun h => absurd h hlt.ne⟩, by omega, hlen⟩, hdigests, .inl hzero⟩
      · rintro ⟨⟨⟨hversions, hle, -⟩, -, hlen⟩, hdigests, -⟩
        exact ⟨hdigests, hversions, hle, hlen⟩
    · -- a real walk: the verified length is the one the constructor asks for
      rw [if_neg hpos.ne', walkUp_eq_ok hpos hlt]
      constructor
      · rintro ⟨hdigests, hversions, hle, hpath⟩
        exact ⟨⟨⟨hversions, hle, fun h => absurd h hlt.ne⟩,
          length_of_consistent hpos hle next.count_le hpath⟩, hdigests, .inr (.inr hpath)⟩
      · rintro ⟨⟨⟨hversions, hle, -⟩, -⟩, hdigests, hzero | hsame | hpath⟩
        · omega
        · omega
        · exact ⟨hdigests, hversions, hle, hpath⟩
  · -- equal counts
    have hsize : pathSize old.entryCount next.entryCount true = 0 := by
      rw [← heq]
      rcases Nat.eq_zero_or_pos old.entryCount with hzero | hpos
      · rw [hzero, pathSize, if_pos rfl]
      · exact pathSize_self hpos
    rw [if_pos heq, hsize]
    constructor
    · rintro ⟨hdigests, hversions, hle, hlen, hcanonical⟩
      exact ⟨⟨⟨hversions, hle, fun _ => canonical_inj hcanonical⟩, by omega, hlen⟩, hdigests,
        .inr (.inl heq)⟩
    · rintro ⟨⟨⟨hversions, hle, hsame⟩, -, hlen⟩, hdigests, -⟩
      exact ⟨hdigests, hversions, hle, hlen, congrArg canonical (hsame heq)⟩
  · constructor
    · rintro ⟨-, -, hle, -⟩
      omega
    · rintro ⟨⟨⟨-, hle, -⟩, -⟩, -⟩
      omega

end NodeVerifier

end EvidenceBraid
