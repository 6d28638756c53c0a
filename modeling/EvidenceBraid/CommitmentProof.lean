import EvidenceBraid.LedgerProof
import EvidenceBraid.Membership

/-!
# What a commitment commits to

The header of a proof index holds its ledger's version, head and size and the Merkle root over its
receipts (`commitmentOf_eq_ok`), and the cached tree is the tree over them (`exists_tree`).
-/

namespace EvidenceBraid

open Hashing

variable {D : Type} [Hashing D] [DecidableEq D]

/-! ## What a proof index commits to -/

omit [DecidableEq D] in
theorem treeRoot_treeOf (ledger : EvidenceLedger D) :
    treeRoot (treeOf ledger) =
      Merkle.root nodeHash emptyRoot (leaves ledger.schemaVersion ledger.entries) := by
  unfold treeOf
  split_ifs with hempty
  · simp [treeRoot, leaves, hempty, Merkle.root]
  · have hholds := @holds_build D _ ledger.schemaVersion ledger.entries 0 ledger.entries.length
      (List.length_pos_iff.mpr hempty) (by omega)
    have hroot := hholds.count_digest.2
    rw [List.drop_zero, List.take_of_length_le (by simp [leaves])] at hroot
    simpa [treeRoot] using hroot

/-- The fields of a commitment that the constructor accepts. -/
theorem LedgerCommitment.make_eq_ok {version : String} {genesis head root : D} {n : ℤ}
    {c : LedgerCommitment D} (h : LedgerCommitment.make version genesis head n root = .ok c) :
    c.ledgerVersion = version ∧ c.genesis = genesis ∧ c.headDigest = head ∧
      (c.entryCount : ℤ) = n ∧ c.rootHash = root := by
  simp only [LedgerCommitment.make, dite_error_eq_ok, Except.ok.injEq] at h
  obtain ⟨_, _, hcount, _, rfl⟩ := h
  exact ⟨rfl, rfl, rfl, by simp [hcount.1], rfl⟩

/-- **What a ledger's header commits to**: its version, head, size and tree root. -/
theorem commitmentOf_eq_ok {ledger : EvidenceLedger D} {c : LedgerCommitment D}
    (h : commitmentOf ledger = .ok c) :
    c.ledgerVersion = ledger.schemaVersion ∧ c.genesis = ledger.genesis ∧
      c.headDigest = ledger.headDigest ∧ c.entryCount = ledger.entries.length ∧
      c.rootHash = Merkle.root nodeHash emptyRoot
        (leaves ledger.schemaVersion ledger.entries) := by
  obtain ⟨hversion, hgenesis, hhead, hcount, hroot⟩ := LedgerCommitment.make_eq_ok h
  rw [treeRoot_treeOf] at hroot
  exact ⟨hversion, hgenesis, hhead, by exact_mod_cast hcount, hroot⟩

/-- A ledger of a supported version within the limit has a header. -/
theorem exists_commitmentOf {ledger : EvidenceLedger D}
    (hversion : versions? ledger.schemaVersion = some ledger.genesis)
    (hlen : ledger.entries.length ≤ maxLedgerEntries) : ∃ c, commitmentOf ledger = .ok c := by
  have hempty : ledger.entries.length = 0 →
      ledger.headDigest = ledger.genesis ∧ treeRoot (treeOf ledger) = emptyRoot := by
    intro hzero
    have hnil := List.length_eq_zero_iff.mp hzero
    exact ⟨by simp [EvidenceLedger.headDigest, hnil], by simp [treeOf, treeRoot, hnil]⟩
  refine ⟨⟨ledger.schemaVersion, ledger.genesis, ledger.headDigest, ledger.entries.length,
    treeRoot (treeOf ledger), hversion, hlen, hempty⟩, ?_⟩
  unfold commitmentOf LedgerCommitment.make
  rw [dif_pos (by rw [hversion]; rfl), dif_pos hversion,
    dif_pos ⟨by omega, by exact_mod_cast hlen⟩, dif_pos (by simpa using hempty)]
  rfl

/-- Every query index has a proof index. -/
theorem LedgerProofIndex.exists_of_index (index : LedgerIndex D) :
    ∃ p : LedgerProofIndex D, p.index = index := by
  have hverified := index.verified
  simp only [EvidenceLedger.verify, Bool.and_eq_true, decide_eq_true_eq] at hverified
  obtain ⟨c, hc⟩ := exists_commitmentOf hverified.1.1 hverified.1.2
  exact ⟨⟨index, c, _, rfl, hc⟩, rfl⟩

/-- The tree of a proof index over a nonempty ledger. -/
theorem LedgerProofIndex.exists_tree (p : LedgerProofIndex D) (h : 0 < p.index.ledger.entries.length) :
    ∃ tree, p.tree = some tree ∧
      tree.Holds (leaves p.index.ledger.schemaVersion p.index.ledger.entries) := by
  have hne : p.index.ledger.entries ≠ [] := List.length_pos_iff.mp h
  have hholds := @holds_build D _ p.index.ledger.schemaVersion _ 0 _ h
    (show 0 + p.index.ledger.entries.length ≤ p.index.ledger.entries.length by omega)
  rw [List.drop_zero, List.take_of_length_le (by simp [leaves])] at hholds
  exact ⟨_, by rw [p.tree_eq, treeOf, dif_neg hne], hholds⟩

/-- Where digests are their own preimages, the framed hashes are injective. -/
theorem Preimage.framedInjective : FramedInjective Preimage where
  leaf _ _ h := List.append_cancel_left (Preimage.sha256_injective h)
  node _ _ h := List.append_cancel_left (Preimage.sha256_injective h)
  header _ _ h := List.append_cancel_left (Preimage.sha256_injective h)

omit [DecidableEq D] in
theorem climb_eq (d : D) (path : List (Bool × D)) : climb d path = Merkle.climb nodeHash d path :=
  rfl

end EvidenceBraid
