import EvidenceBraid.Consistency
import EvidenceBraid.CommitmentProof

/-!
# Consistency: soundness

The recursions of `consistency.py` follow the turns of the Merkle library: `_path_size` counts
them (`pathSize_eq`) and `_recover` rebuilds the two roots along them (`recover_eq_ok`). So the
verifier accepts exactly the consistent paths (`verifyLedgerConsistency_eq_ok`), and an accepted
proof shows that the old receipts are a prefix of the new ones.
-/

namespace EvidenceBraid

open Hashing

/-! ## Sizes -/

/-- Whether the path carries the shared subtree's root. -/
def carriesBase (known : Bool) (turns : List Bool) : Prop := known = false ∨ true ∈ turns

instance (known : Bool) (turns : List Bool) : Decidable (carriesBase known turns) := by
  unfold carriesBase; infer_instance

theorem pathSize_self {n : ℕ} {known : Bool} (hpos : 0 < n) :
    pathSize n n known = if known then 0 else 1 := by
  rw [pathSize, if_neg (by omega), dif_pos le_rfl]

theorem pathSize_left {old new : ℕ} {known : Bool} (hpos : 0 < old) (hlt : old < new)
    (h : old ≤ Merkle.split new) :
    pathSize old new known = 1 + pathSize old (Merkle.split new) known := by
  rw [pathSize, if_neg (by omega), dif_neg (by omega)]
  exact congrArg (1 + ·) (if_pos h)

theorem pathSize_right {old new : ℕ} {known : Bool} (hlt : old < new)
    (h : Merkle.split new < old) :
    pathSize old new known = 1 + pathSize (old - Merkle.split new) (new - Merkle.split new) false := by
  rw [pathSize, if_neg (by omega), dif_neg (by omega)]
  exact congrArg (1 + ·) (if_neg (by exact not_le_of_gt h))

/-- **`_path_size`** counts the turns, and the shared subtree's root where the path carries it. -/
theorem pathSize_eq {old new : ℕ} {known : Bool} (hpos : 0 < old) (hle : old ≤ new) :
    pathSize old new known = (Merkle.turns old new).length +
      if carriesBase known (Merkle.turns old new) then 1 else 0 := by
  induction new using Nat.strong_induction_on generalizing old known with
  | _ new ih =>
    rcases Nat.eq_or_lt_of_le hle with rfl | hlt
    · rw [pathSize_self hpos, Merkle.turns_self]
      cases known <;> simp [carriesBase]
    · have hs := Merkle.split_pos new
      have hs' := Merkle.split_lt (n := new) (by omega)
      rcases Nat.lt_or_ge (Merkle.split new) old with hright | hleft
      · rw [pathSize_right hlt hright, ih _ (by omega) (by omega) (by omega),
          Merkle.turns_right hlt hright]
        simp only [carriesBase, List.length_append, List.length_singleton, List.mem_append,
          List.mem_singleton, true_or, or_true, if_true]
        omega
      · rw [pathSize_left hpos hlt hleft, ih _ hs' hpos hleft, Merkle.turns_left hpos hlt hleft]
        simp only [carriesBase, List.length_append, List.length_singleton, List.mem_append,
          List.mem_singleton, Bool.true_eq_false, or_false]
        omega

variable {D : Type} [Hashing D]

/-! ## Rebuilding both roots -/

/-- What `_recover` uses of the hashes: the shared subtree's root where it is carried, and one
sibling a turn. -/
def Uses (turns : List Bool) (known : Bool) (oldRoot : D) (hashes : List D) (roots : D × D)
    (left : List D) : Prop :=
  ∃ base used, hashes = (if carriesBase known turns then [base] else []) ++ used ++ left ∧
    (¬ carriesBase known turns → base = oldRoot) ∧ used.length = turns.length ∧
      Merkle.joins nodeHash (base, base) (turns.zip used) = roots

/-- One more turn uses one more sibling. -/
theorem uses_concat {turns : List Bool} {side known known' : Bool} {oldRoot : D} {hashes : List D}
    {roots : D × D} {left : List D}
    (hbase : carriesBase known (turns ++ [side]) ↔ carriesBase known' turns) :
    Uses (turns ++ [side]) known oldRoot hashes roots left ↔
      ∃ roots' sibling, Uses turns known' oldRoot hashes roots' (sibling :: left) ∧
        Merkle.join nodeHash roots' (side, sibling) = roots := by
  simp only [Uses, hbase]
  constructor
  · rintro ⟨base, used, rfl, hold, hlen, hroots⟩
    have hne : used ≠ [] := by
      intro hnil
      simp [hnil] at hlen
    obtain ⟨init, sibling, rfl⟩ : ∃ init sibling, used = init ++ [sibling] :=
      ⟨_, _, (List.dropLast_append_getLast hne).symm⟩
    simp only [List.length_append, List.length_singleton, Nat.add_right_cancel_iff] at hlen
    rw [List.zip_append hlen.symm, List.zip_cons_cons, List.zip_nil_right,
      Merkle.joins_concat] at hroots
    exact ⟨_, sibling, ⟨base, init, by simp, hold, hlen, rfl⟩, hroots⟩
  · rintro ⟨roots', sibling, ⟨base, used, rfl, hold, hlen, rfl⟩, hroots⟩
    refine ⟨base, used ++ [sibling], by simp, hold, by simp [hlen], ?_⟩
    rw [List.zip_append hlen.symm, List.zip_cons_cons, List.zip_nil_right, Merkle.joins_concat]
    exact hroots

/-- One sibling joins the roots that the recursion rebuilt. -/
def joinNext (side : Bool) : (D × D) × List D → Result ((D × D) × List D)
  | (_, []) => .error .stopIteration
  | (roots, sibling :: left) => .ok (Merkle.join nodeHash roots (side, sibling), left)

theorem joinNext_eq_ok {side : Bool} {r : (D × D) × List D} {roots : D × D} {left : List D} :
    joinNext side r = .ok (roots, left) ↔
      ∃ sibling, r.2 = sibling :: left ∧ Merkle.join nodeHash r.1 (side, sibling) = roots := by
  obtain ⟨roots', hashes⟩ := r
  cases hashes with
  | nil => simp [joinNext]
  | cons sibling hashes =>
    simp only [joinNext, Except.ok.injEq, Prod.mk.injEq, List.cons.injEq]
    constructor
    · rintro ⟨h, rfl⟩
      exact ⟨sibling, ⟨rfl, rfl⟩, h⟩
    · rintro ⟨_, ⟨rfl, rfl⟩, h⟩
      exact ⟨h, rfl⟩

theorem recover_self {n : ℕ} {known : Bool} {oldRoot : D} {hashes : List D} :
    recover n n known oldRoot hashes =
      if known then .ok ((oldRoot, oldRoot), hashes)
      else
        match hashes with
        | [] => .error .stopIteration
        | root :: hashes => .ok ((root, root), hashes) := by
  cases known <;> cases hashes <;> rw [recover.eq_def, dif_pos le_rfl]

theorem recover_left {old new : ℕ} {known : Bool} {oldRoot : D} {hashes : List D} (hpos : 0 < old)
    (hlt : old < new) (h : old ≤ Merkle.split new) :
    recover old new known oldRoot hashes =
      recover old (Merkle.split new) known oldRoot hashes >>= joinNext false := by
  conv_lhs => rw [recover.eq_def, dif_neg (show ¬ new ≤ old by omega)]
  refine (if_neg (by omega)).trans ((if_pos h).trans ?_)
  congr 1
  funext ⟨⟨before, after⟩, hashes⟩
  cases hashes <;> rfl

theorem recover_right {old new : ℕ} {known : Bool} {oldRoot : D} {hashes : List D}
    (hlt : old < new) (h : Merkle.split new < old) :
    recover old new known oldRoot hashes =
      recover (old - Merkle.split new) (new - Merkle.split new) false oldRoot hashes >>=
        joinNext true := by
  conv_lhs => rw [recover.eq_def, dif_neg (show ¬ new ≤ old by omega)]
  refine (if_neg (by omega)).trans ((if_neg (not_le_of_gt h)).trans ?_)
  congr 1
  funext ⟨⟨before, after⟩, hashes⟩
  cases hashes <;> rfl

/-- **`_recover`** rebuilds both roots along the turns. -/
theorem recover_eq_ok {old new : ℕ} {known : Bool} {oldRoot : D} {hashes : List D}
    {roots : D × D} {left : List D} (hpos : 0 < old) (hle : old ≤ new) :
    recover old new known oldRoot hashes = .ok (roots, left) ↔
      Uses (Merkle.turns old new) known oldRoot hashes roots left := by
  induction new using Nat.strong_induction_on generalizing old known roots left with
  | _ new ih =>
    rcases Nat.eq_or_lt_of_le hle with rfl | hlt
    · rw [recover_self, Merkle.turns_self]
      cases known with
      | true =>
        simp only [if_true, Except.ok.injEq, Prod.mk.injEq, Uses, carriesBase, Bool.true_eq_false,
          List.not_mem_nil, or_self, if_false, List.nil_append, not_false_eq_true, forall_const,
          List.length_nil, List.length_eq_zero_iff, List.zip_nil_left, Merkle.joins_nil]
        constructor
        · rintro ⟨rfl, rfl⟩
          exact ⟨oldRoot, [], rfl, rfl, rfl, rfl⟩
        · rintro ⟨base, used, rfl, rfl, rfl, rfl⟩
          exact ⟨rfl, rfl⟩
      | false =>
        simp only [Bool.false_eq_true, if_false, Uses, carriesBase, true_or, if_true,
          not_true_eq_false, false_implies, List.length_nil, List.length_eq_zero_iff,
          List.zip_nil_left, Merkle.joins_nil, true_and]
        cases hashes with
        | nil => simp
        | cons root hashes =>
          simp only [Except.ok.injEq, Prod.mk.injEq]
          constructor
          · rintro ⟨rfl, rfl⟩
            exact ⟨root, [], rfl, rfl, rfl⟩
          · rintro ⟨base, used, h, rfl, rfl⟩
            simp only [List.append_nil, List.singleton_append, List.cons.injEq] at h
            exact ⟨by rw [h.1], h.2⟩
    · have hs := Merkle.split_pos new
      have hs' := Merkle.split_lt (n := new) (by omega)
      rcases Nat.lt_or_ge (Merkle.split new) old with hright | hleft
      · rw [recover_right hlt hright, Merkle.turns_right hlt hright,
          @uses_concat D _ _ true known false oldRoot hashes roots left (by simp [carriesBase])]
        simp only [bind_eq_ok, Prod.exists, joinNext_eq_ok,
          ← ih (new - Merkle.split new) (by omega)
            (show 0 < old - Merkle.split new by omega) (Nat.sub_le_sub_right hle _)]
        constructor
        · rintro ⟨before, after, _, hrec, sibling, rfl, h⟩
          exact ⟨before, after, sibling, hrec, h⟩
        · rintro ⟨before, after, sibling, hrec, h⟩
          exact ⟨before, after, _, hrec, sibling, rfl, h⟩
      · rw [recover_left hpos hlt hleft, Merkle.turns_left hpos hlt hleft,
          @uses_concat D _ _ false known known oldRoot hashes roots left (by simp [carriesBase])]
        simp only [bind_eq_ok, Prod.exists, joinNext_eq_ok,
          ← ih (Merkle.split new) hs' hpos hleft]
        constructor
        · rintro ⟨before, after, _, hrec, sibling, rfl, h⟩
          exact ⟨before, after, sibling, hrec, h⟩
        · rintro ⟨before, after, sibling, hrec, h⟩
          exact ⟨before, after, _, hrec, sibling, rfl, h⟩

/-- With the old root known, using up the whole path is consistency. -/
theorem uses_nil_iff {old new : ℕ} {oldRoot newRoot : D} {path : List D} :
    Uses (Merkle.turns old new) true oldRoot path (oldRoot, newRoot) [] ↔
      Merkle.Consistent nodeHash old new oldRoot newRoot path := by
  simp only [Uses, Merkle.Consistent, carriesBase, Bool.true_eq_false, false_or, List.append_nil]
  split_ifs with hturn
  · simp [hturn]
  · constructor
    · rintro ⟨base, used, rfl, hbase, hlen, hroots⟩
      obtain rfl := hbase hturn
      exact ⟨hlen, hroots⟩
    · rintro ⟨hlen, hroots⟩
      exact ⟨oldRoot, path, rfl, fun _ => rfl, hlen, hroots⟩

/-! ## Acceptance -/

variable [DecidableEq D]

theorem headers_eq_ok {old new : LedgerCommitment D} :
    headers old new = .ok () ↔
      (old.ledgerVersion = new.ledgerVersion ∧ old.genesis = new.genesis) ∧
        old.entryCount ≤ new.entryCount ∧ (old.entryCount = new.entryCount → old = new) := by
  simp only [headers, bind_eq_ok, valid_eq_ok, exists_unit]

/-- What the constructor checks of two headers and a path. -/
theorem LedgerConsistencyProof.postInit_eq_ok {old new : LedgerCommitment D} {path : List D} :
    postInit old new path = .ok () ↔ headers old new = .ok () ∧ path.length ≤ maxPath ∧
      path.length = pathSize old.entryCount new.entryCount true := by
  simp only [postInit, bind_eq_ok, valid_eq_ok, exists_unit]

/-- **The verifier** accepts the trivial cases, and otherwise exactly the consistent paths. -/
theorem verifyLedgerConsistency_eq_ok {proof : LedgerConsistencyProof D} {old new : D} :
    verifyLedgerConsistency proof old new = .ok () ↔
      (proof.oldCommitment.digest = old ∧ proof.newCommitment.digest = new) ∧
        (proof.oldCommitment.entryCount = 0 ∨
          proof.oldCommitment.entryCount = proof.newCommitment.entryCount ∨
            Merkle.Consistent nodeHash proof.oldCommitment.entryCount
              proof.newCommitment.entryCount proof.oldCommitment.rootHash
              proof.newCommitment.rootHash proof.path) := by
  have hle : proof.oldCommitment.entryCount ≤ proof.newCommitment.entryCount :=
    (headers_eq_ok.mp (LedgerConsistencyProof.postInit_eq_ok.mp proof.checked).1).2.1
  simp only [verifyLedgerConsistency, bind_eq_ok, valid_eq_ok, exists_unit]
  refine and_congr_right fun _ => ?_
  rw [← or_assoc]
  split_ifs with htrivial
  · simp [htrivial]
  · simp only [htrivial, false_or, bind_eq_ok, valid_eq_ok, Prod.exists]
    rw [← uses_nil_iff, ← recover_eq_ok (by omega) hle]
    constructor
    · rintro ⟨before, after, left, hrec, hroots, rfl⟩
      rwa [hroots] at hrec
    · intro hrec
      exact ⟨_, _, [], hrec, rfl, rfl⟩

/-! ## The honest path -/

omit [DecidableEq D] in
@[simp] theorem leaves_prefixOf (ledger : EvidenceLedger D) (m : ℕ) :
    leaves (ledger.prefixOf m).schemaVersion (ledger.prefixOf m).entries =
      (leaves ledger.schemaVersion ledger.entries).take m := by
  simp [leaves, EvidenceLedger.prefixOf]

/-- The digests that an honest prover sends for the first `m` receipts. -/
def honestPath (ledger : EvidenceLedger D) (m : ℕ) : List D :=
  Merkle.prefixPath nodeHash emptyRoot m (leaves ledger.schemaVersion ledger.entries)

variable {ledger : EvidenceLedger D} {m : ℕ} {co cn : LedgerCommitment D}

section Honest

variable (hco : commitmentOf (ledger.prefixOf m) = .ok co) (hcn : commitmentOf ledger = .ok cn)
  (hle : m ≤ ledger.entries.length)
include hco hcn hle

/-- The headers of a prefix and of its ledger agree. -/
theorem headers_honest : headers co cn = .ok () := by
  obtain ⟨hvo, hgo, -, hco', -⟩ := commitmentOf_eq_ok hco
  obtain ⟨hvn, hgn, -, hcn', -⟩ := commitmentOf_eq_ok hcn
  have hlen : (ledger.prefixOf m).entries.length = m := by simp [EvidenceLedger.prefixOf, hle]
  refine headers_eq_ok.mpr ⟨⟨by rw [hvo, hvn]; rfl, by rw [hgo, hgn]; rfl⟩, by omega, ?_⟩
  intro hcount
  have hall : ledger.prefixOf m = ledger := by
    simp [EvidenceLedger.prefixOf, List.take_of_length_le (show ledger.entries.length ≤ m by omega)]
  rw [hall, hcn] at hco
  exact (Except.ok.inj hco).symm

/-- The honest path has the length that the headers' sizes fix, and at most 18 digests. -/
theorem length_honestPath (hmax : ledger.entries.length ≤ maxLedgerEntries) :
    (honestPath ledger m).length ≤ maxPath ∧
      (honestPath ledger m).length = pathSize co.entryCount cn.entryCount true := by
  have hlen : (leaves ledger.schemaVersion ledger.entries).length = ledger.entries.length := by
    simp [leaves]
  have hlen' : (ledger.prefixOf m).entries.length = m := by simp [EvidenceLedger.prefixOf, hle]
  have hturns : (Merkle.turns m ledger.entries.length).length ≤ 17 :=
    Merkle.length_turns_le (hmax.trans (by decide))
  rw [honestPath, (commitmentOf_eq_ok hco).2.2.2.1, (commitmentOf_eq_ok hcn).2.2.2.1, hlen',
    Merkle.length_prefixPath nodeHash emptyRoot (by rw [hlen]; exact hle), hlen]
  refine ⟨by unfold maxPath; split_ifs <;> omega, ?_⟩
  rcases Nat.eq_zero_or_pos m with rfl | hpos
  · rw [Merkle.turns, dif_neg (by omega), pathSize, if_pos rfl]
    rfl
  · rw [pathSize_eq hpos hle]
    simp [carriesBase]

/-- **The honest proof** is constructed, and accepted under the two commitment digests. -/
theorem honest_accepted : ∃ proof,
    LedgerConsistencyProof.make co cn (honestPath ledger m) = .ok proof ∧
    proof.oldCommitment = co ∧ proof.newCommitment = cn ∧ proof.path = honestPath ledger m ∧
    verifyLedgerConsistency proof co.digest cn.digest = .ok () := by
  have hcount := (commitmentOf_eq_ok hcn).2.2.2.1
  have hpost := LedgerConsistencyProof.postInit_eq_ok.mpr
    ⟨headers_honest hco hcn hle, length_honestPath hco hcn hle (by rw [← hcount]; exact cn.count_le)⟩
  refine ⟨⟨co, cn, _, hpost⟩, ?_, rfl, rfl, rfl, ?_⟩
  · unfold LedgerConsistencyProof.make
    split
    · next e h => rw [hpost] at h; cases h
    · rfl
  · obtain ⟨-, -, -, hco', hro⟩ := commitmentOf_eq_ok hco
    obtain ⟨-, -, -, hcn', hrn⟩ := commitmentOf_eq_ok hcn
    have hlen : (ledger.prefixOf m).entries.length = m := by simp [EvidenceLedger.prefixOf, hle]
    rw [leaves_prefixOf] at hro
    refine verifyLedgerConsistency_eq_ok.mpr ⟨⟨rfl, rfl⟩, ?_⟩
    rcases Nat.eq_zero_or_pos m with hzero | hpos
    · exact .inl (by rw [hco', hlen, hzero])
    · right; right
      have hle' : m ≤ (leaves ledger.schemaVersion ledger.entries).length := by
        simpa [leaves] using hle
      have hhonest := Merkle.consistent_honest nodeHash emptyRoot hpos hle'
      rw [hco', hcn', hro, hrn, hlen]
      simpa [leaves, honestPath] using hhonest

end Honest

/-! ## Soundness -/

/-- **Consistency soundness.** Under injective framed hashes, whatever proof is accepted under
the commitment digests of two receipt lists, the old receipts are the first of the new ones. -/
theorem verifyLedgerConsistency_sound (hinj : FramedInjective D) (old new : EvidenceLedger D)
    {co cn : LedgerCommitment D} (hold : commitmentOf old = .ok co)
    (hnew : commitmentOf new = .ok cn) (hpos : 0 < old.entries.length)
    (proof : LedgerConsistencyProof D)
    (h : verifyLedgerConsistency proof co.digest cn.digest = .ok ()) :
    old.entries = new.entries.take old.entries.length := by
  obtain ⟨⟨hdo, hdn⟩, haccept⟩ := verifyLedgerConsistency_eq_ok.mp h
  obtain ⟨⟨hversions, -⟩, hle, heq⟩ :=
    headers_eq_ok.mp (LedgerConsistencyProof.postInit_eq_ok.mp proof.checked).1
  rw [LedgerCommitment.digest_injective hinj hdo, LedgerCommitment.digest_injective hinj hdn]
    at hversions hle heq haccept
  obtain ⟨hvo, -, -, hco, hro⟩ := commitmentOf_eq_ok hold
  obtain ⟨hvn, -, -, hcn, hrn⟩ := commitmentOf_eq_ok hnew
  have hversion : old.schemaVersion = new.schemaVersion := by rw [← hvo, ← hvn, hversions]
  have hlo : (leaves old.schemaVersion old.entries).length = old.entries.length := by
    simp [leaves]
  have hln : (leaves old.schemaVersion new.entries).length = new.entries.length := by
    simp [leaves]
  rw [← hversion] at hrn
  -- the leaves of the smaller tree are the first leaves of the larger one
  have hleaves : leaves old.schemaVersion old.entries =
      (leaves old.schemaVersion new.entries).take old.entries.length := by
    rcases haccept with hzero | hsame | hpath
    · omega
    · have hroots : co.rootHash = cn.rootHash := by rw [heq hsame]
      rw [hro, hrn] at hroots
      have hlen : old.entries.length = new.entries.length := by rw [← hco, ← hcn, hsame]
      rw [Merkle.root_inj emptyRoot (nodeHash_injective hinj) (by rw [hlo, hln, hlen]) hroots,
        List.take_of_length_le (by rw [hln, hlen])]
    · rw [hco, hcn, hro, hrn, ← hlo, ← hln] at hpath
      have htake := Merkle.consistent_sound nodeHash emptyRoot (nodeHash_injective hinj)
        (by rw [hlo]; exact hpos) (by rw [hlo, hln, ← hco, ← hcn]; exact hle) hpath
      rwa [hlo] at htake
  -- and a leaf determines its receipt
  rw [leaves, leaves, ← List.map_take] at hleaves
  exact List.map_injective_iff.mpr (leafHash_injective hinj _) hleaves

/-- Receipts that hold no event. -/
def blankLedger (n : ℕ) : EvidenceLedger Preimage where
  entries := (List.range n).map fun i =>
    { sequence := i, eventId := "", event := .empty, previousDigest := ⟨[]⟩,
      digest := ⟨[]⟩ }
  genesis := sha256 (Utf8.encode "evidence-braid-ledger:v2".toList)
  schemaVersion := "2.0"

theorem verifyLedgerConsistency_sound_two : ∃ co cn proof,
    commitmentOf ((blankLedger 2).prefixOf 1) = .ok co ∧ commitmentOf (blankLedger 2) = .ok cn ∧
    verifyLedgerConsistency proof co.digest cn.digest = .ok () ∧
    ((blankLedger 2).prefixOf 1).entries = (blankLedger 2).entries.take 1 := by
  obtain ⟨cn, hcn⟩ := @exists_commitmentOf Preimage _ _ (blankLedger 2) (by rfl) (by decide)
  obtain ⟨co, hco⟩ := @exists_commitmentOf Preimage _ _ ((blankLedger 2).prefixOf 1) (by rfl)
    (by decide)
  obtain ⟨proof, -, -, -, -, haccept⟩ := honest_accepted hco hcn (by decide)
  exact ⟨co, cn, proof, hco, hcn, haccept, verifyLedgerConsistency_sound Preimage.framedInjective
    ((blankLedger 2).prefixOf 1) (blankLedger 2) hco hcn (by decide) proof haccept⟩

end EvidenceBraid
