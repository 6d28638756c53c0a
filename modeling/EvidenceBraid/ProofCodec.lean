import EvidenceBraid.ConsistencyComplete
import EvidenceBraid.MembershipComplete

/-!
# The bytes of proofs

**Theorem (`proof_codecs_exact`).** Every consistency proof has bytes. A byte string is read as a
consistency proof, or as a membership bundle, exactly when it is the one that this proof or bundle is
written as; so no proof has a second spelling.

**Idea.** What is written is read back, by the round trips of the two codecs. What is read is written
once more before it is returned, and compared.
-/

namespace EvidenceBraid

open Hashing

variable {D : Type} [Hashing D] [DecidableEq D]

/-- What a reader of consistency proofs accepts is what the proof is written as. -/
theorem LedgerConsistencyProof.toBytes_of_fromBytes {raw : Bytes} {p : LedgerConsistencyProof D}
    (h : fromBytes raw = .ok p) : p.toBytes = .ok raw := by
  simp only [fromBytes, bind_eq_ok, wrapping_eq_ok, valid_eq_ok, exists_unit, Except.ok.injEq] at h
  obtain ⟨-, -, _, -, _, -, h⟩ := h
  obtain ⟨result, -, bytes, hbytes, hsame, rfl⟩ := h
  rw [hbytes, hsame]

/-- What a reader of membership bundles accepts is what the bundle is written as. -/
theorem LedgerMembershipBundle.toBytes_of_fromBytes {raw : Bytes} {b : LedgerMembershipBundle D}
    (h : fromBytes raw = .ok b) : b.toBytes = .ok raw := by
  simp only [fromBytes, bind_eq_ok, wrapping_eq_ok, valid_eq_ok, exists_unit, Except.ok.injEq] at h
  obtain ⟨-, -, _, -, _, -, h⟩ := h
  obtain ⟨result, -, bytes, hbytes, hsame, rfl⟩ := h
  rw [hbytes, hsame]

/-- **Reading and writing are inverse**, for consistency proofs and for membership bundles. -/
theorem proof_codecs_exact [WideHex D] :
    (∀ p : LedgerConsistencyProof D, ∃ raw, p.toBytes = .ok raw) ∧
      (∀ (p : LedgerConsistencyProof D) (raw : Bytes),
        LedgerConsistencyProof.fromBytes raw = .ok p ↔ p.toBytes = .ok raw) ∧
      ∀ (b : LedgerMembershipBundle D) (raw : Bytes),
        LedgerMembershipBundle.fromBytes raw = .ok b ↔ b.toBytes = .ok raw := by
  refine ⟨fun p => ⟨_, p.toBytes_eq⟩, fun p raw => ⟨fun h => ?_, fun h => ?_⟩,
    fun b raw => ⟨fun h => ?_, fun h => ?_⟩⟩
  · exact LedgerConsistencyProof.toBytes_of_fromBytes h
  · rw [p.toBytes_eq] at h
    rw [← Except.ok.inj h]
    exact p.fromBytes_toBytes
  · exact LedgerMembershipBundle.toBytes_of_fromBytes h
  · exact LedgerMembershipBundle.fromBytes_toBytes h

/-- A proof that a commitment extends itself. -/
def LedgerConsistencyProof.same (c : LedgerCommitment D) (hc : 0 < c.entryCount) :
    LedgerConsistencyProof D where
  oldCommitment := c
  newCommitment := c
  path := []
  checked := by
    have hheaders : headers c c = .ok () := headers_eq_ok.mpr ⟨⟨rfl, rfl⟩, le_rfl, fun _ => rfl⟩
    refine postInit_eq_ok.mpr ⟨hheaders, Nat.zero_le _, ?_⟩
    rw [pathSize_self hc]
    rfl

/-- A proof over the sample's commitment is written and read back. -/
theorem proof_codecs_exact_same : ∃ (p : LedgerConsistencyProof HexDigest) (raw : Bytes),
    p.newCommitment.entryCount = 1 ∧ p.toBytes = .ok raw ∧
      LedgerConsistencyProof.fromBytes raw = .ok p := by
  obtain ⟨index, hindex⟩ :=
    LedgerProofIndex.exists_of_index (sampleIndex HexDigest size_sampleEntry_hex)
  have hone : index.commitment.entryCount = 1 := by
    rw [index.entryCount_eq, hindex]
    rfl
  obtain ⟨hwritten, hread, -⟩ := proof_codecs_exact (D := HexDigest)
  obtain ⟨raw, hraw⟩ := hwritten (.same index.commitment (hone ▸ Nat.one_pos))
  exact ⟨_, raw, hone, hraw, (hread _ _).mpr hraw⟩

end EvidenceBraid
