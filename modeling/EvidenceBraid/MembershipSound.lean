import EvidenceBraid.MembershipComplete

/-!
# Membership: soundness

`verify_ledger_membership` accepts only receipts of the ledger behind the commitment: under
injective framed hashes the header is the ledger's own, the route is forced by the position and
the size, and only the ledger's own leaf climbs to its root.

The lemmas say what each check of a bundle and of the verifier leaves behind
(`checkMembers_member`, `verifyMembers_member`); the soundness theorem puts them together.
-/

namespace EvidenceBraid

open Hashing

variable {D : Type} [Hashing D] [DecidableEq D]

/-! ## What an accepted bundle says of its members -/

omit [DecidableEq D] in
/-- A member of a constructed bundle: its position is inside the tree and its path has the
route's length. -/
theorem LedgerMembershipBundle.checkMembers_member {entryCount : ℕ}
    {members : List (LedgerMemberProof D)} :
    ∀ {previous : ℤ} {size : ℕ}, checkMembers entryCount previous size members = .ok () →
      ∀ m ∈ members, m.entry.sequence < entryCount ∧
        m.siblings.length = (Merkle.sides m.entry.sequence entryCount).length := by
  induction members with
  | nil => intro _ _ _ m hm; simp at hm
  | cons m ms ih =>
    intro previous size h m' hm'
    simp only [checkMembers, bind_eq_ok, valid_eq_ok, exists_unit, route_eq_ok] at h
    obtain ⟨-, directions, ⟨hlt, rfl⟩, hlen, raw, -, -, hrest⟩ := h
    rcases List.mem_cons.mp hm' with rfl | hm'
    · exact ⟨hlt, hlen⟩
    · exact ih hrest m' hm'

/-- A verified member: its receipt's leaf climbs to the committed root. -/
theorem verifyMembers_member {header : LedgerCommitment D} {members : List (LedgerMemberProof D)}
    (h : verifyMembers header members = .ok ()) :
    ∀ m ∈ members, climb (leafHash header.ledgerVersion m.entry)
      ((Merkle.sides m.entry.sequence header.entryCount).zip m.siblings) = header.rootHash := by
  induction members with
  | nil => intro m hm; simp at hm
  | cons m ms ih =>
    simp only [verifyMembers, bind_eq_ok, valid_eq_ok, require_eq_ok, exists_unit,
      route_eq_ok] at h
    obtain ⟨event, -, -, -, -, directions, ⟨-, rfl⟩, -, hroot, hrest⟩ := h
    intro m' hm'
    rcases List.mem_cons.mp hm' with rfl | hm'
    · exact hroot
    · exact ih hrest m' hm'

/-- **Membership soundness.** Under injective framed hashes, whatever bundle is accepted under a
ledger's commitment digest has that ledger's own header, and each receipt it returns is the
ledger's receipt at that position. -/
theorem verifyLedgerMembership_sound (hinj : FramedInjective D) (p : LedgerProofIndex D)
    (bundle : LedgerMembershipBundle D) (entries : List (LedgerEntry D))
    (h : verifyLedgerMembership bundle p.commitment.digest = .ok entries) :
    bundle.commitment = p.commitment ∧ entries = bundle.members.map (·.entry) ∧
      ∀ entry ∈ entries, p.index.ledger.entries[entry.sequence]? = some entry := by
  simp only [verifyLedgerMembership, bind_eq_ok, valid_eq_ok, exists_unit, Except.ok.injEq] at h
  obtain ⟨hdigest, hverify, rfl⟩ := h
  have hheader := LedgerCommitment.digest_injective hinj hdigest
  refine ⟨hheader, rfl, ?_⟩
  intro entry hentry
  obtain ⟨m, hm, rfl⟩ := List.mem_map.mp hentry
  obtain ⟨hversion, -, -, hcount, hroot⟩ := commitmentOf_eq_ok p.commitment_eq
  have hchecked := bundle.checked
  simp only [LedgerMembershipBundle.postInit, bind_eq_ok, valid_eq_ok, exists_unit] at hchecked
  obtain ⟨hlt, hlen⟩ := LedgerMembershipBundle.checkMembers_member hchecked.2 m hm
  have hclimb := verifyMembers_member hverify m hm
  rw [hheader, hcount] at hlt hlen
  rw [hheader, hversion, hcount, hroot, climb_eq] at hclimb
  have hleaves : (leaves p.index.ledger.schemaVersion p.index.ledger.entries).length =
      p.index.ledger.entries.length := by simp [leaves]
  rw [← hleaves] at hlen hclimb
  have hlt' := hlt
  rw [← hleaves] at hlt'
  have hleaf := Merkle.climb_sound nodeHash emptyRoot (nodeHash_injective hinj) hlt' hlen hclimb
  simp only [leaves, List.getElem_map] at hleaf
  rw [List.getElem?_eq_getElem hlt]
  exact congrArg some (leafHash_injective hinj _ hleaf).symm

theorem verifyLedgerMembership_sound_one : ∃ (p : LedgerProofIndex Preimage) (bundle : _)
    (entries : List (LedgerEntry Preimage)),
      verifyLedgerMembership bundle p.commitment.digest = .ok entries ∧ entries.length = 1 ∧
      bundle.commitment = p.commitment ∧ entries = bundle.members.map (·.entry) ∧
      ∀ entry ∈ entries, p.index.ledger.entries[entry.sequence]? = some entry := by
  obtain ⟨p, hp⟩ := LedgerProofIndex.exists_of_index
    (sampleIndex Preimage size_sampleEntry_preimage)
  have hentries : p.index.ledger.entries = [sampleEntry Preimage] := by rw [hp]; rfl
  have howns : ∀ e ∈ [sampleEntry Preimage], p.Owns e := by
    intro e he
    obtain rfl := List.mem_singleton.mp he
    rw [LedgerProofIndex.Owns, hentries]
    rfl
  have hbounds : WithinBounds p.commitment.entryCount [sampleEntry Preimage] := by
    rw [LedgerProofIndex.entryCount_eq, hentries]
    exact withinBounds_sampleEntry size_sampleEntry_preimage
  obtain ⟨ms, -, hhonest⟩ := LedgerProofIndex.memberAll_honest howns fun e he => hbounds.of_mem he
  obtain ⟨bundle, -, -, haccept⟩ := LedgerProofIndex.honest_verifies (by simp)
    (by simp [maxMembers]) howns (by simp) hbounds hhonest
  exact ⟨p, bundle, _, haccept, rfl,
    verifyLedgerMembership_sound Preimage.framedInjective p bundle _ haccept⟩

end EvidenceBraid
