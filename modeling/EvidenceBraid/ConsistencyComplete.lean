import EvidenceBraid.ConsistencyProof
import EvidenceBraid.MembershipCodec

/-!
# Consistency: completeness

From the cached tree of a verified ledger `_prefix_root` finds the root over every prefix and
`_subproof` emits the honest path of the Merkle library (`prefixRoot_eq`, `subproof_eq`); the proof
survives its canonical bytes, which stay within the wire limit (`fromBytes_toBytes`).

Main result: `proveLedgerConsistency_complete`.
-/

namespace EvidenceBraid

open Hashing

variable {D : Type} [Hashing D]

/-! ## Reading a cached tree -/

/-- **`_prefix_root`** finds the root over the first leaves of a cached tree. -/
theorem prefixRoot_eq : ∀ {tree : Node D} {ds : List D} {count : ℕ}, tree.Holds ds → 0 < count →
    count ≤ ds.length →
      prefixRoot tree count = .ok (Merkle.root nodeHash emptyRoot (ds.take count))
  | .leaf d, ds, count, h, hpos, hle => by
    obtain rfl : ds = [d] := h
    obtain rfl : count = 1 := by simp at hle; omega
    simp [prefixRoot, Node.count, Node.digest]
  | .inner d n left right, ds, count, h, hpos, hle => by
    obtain ⟨hcount, hdigest⟩ := Node.Holds.count_digest h
    obtain ⟨hlen, -, -, hleft, hright⟩ := h
    have hs' := Merkle.split_lt hlen
    have hlt : (ds.take (Merkle.split ds.length)).length = Merkle.split ds.length := by simp; omega
    rw [prefixRoot]
    split_ifs with hall hside
    · rw [hdigest, List.take_of_length_le (by omega)]
    · rw [hleft.count_digest.1, hlt] at hside
      rw [prefixRoot_eq hleft hpos (by omega), List.take_take, Nat.min_eq_left hside]
    · rw [hleft.count_digest.1, hlt] at hside
      rw [prefixRoot_eq hright (by rw [hleft.count_digest.1]; omega)
        (by rw [hleft.count_digest.1, hlt, List.length_drop]; omega),
        Merkle.root_take_right nodeHash emptyRoot (by omega) hle, hleft.count_digest.1, hlt,
        hleft.count_digest.2]
      rfl

/-- **`_subproof`** emits the honest path. -/
theorem subproof_eq : ∀ {tree : Node D} {ds : List D} {count : ℕ} {known : Bool}, tree.Holds ds →
    0 < count → count ≤ ds.length →
      subproof tree count known =
        .ok ((if carriesBase known (Merkle.turns count ds.length) then
            [Merkle.shared nodeHash emptyRoot count ds] else []) ++
          Merkle.joiners nodeHash emptyRoot count ds)
  | .leaf d, ds, count, known, h, hpos, hle => by
    obtain rfl : ds = [d] := h
    obtain rfl : count = 1 := by simp at hle; omega
    have hshared := Merkle.shared_length nodeHash emptyRoot [d]
    have hjoiners := Merkle.joiners_length nodeHash emptyRoot [d]
    rw [List.length_singleton] at hshared hjoiners
    cases known <;>
      simp [subproof, Node.count, Node.digest, Merkle.turns_self, carriesBase, hshared, hjoiners]
  | .inner d n left right, ds, count, known, h, hpos, hle => by
    obtain ⟨hcount, hdigest⟩ := Node.Holds.count_digest h
    obtain ⟨hlen, -, -, hleft, hright⟩ := h
    have hs' := Merkle.split_lt hlen
    have hlt : (ds.take (Merkle.split ds.length)).length = Merkle.split ds.length := by simp; omega
    have hld : (ds.drop (Merkle.split ds.length)).length = ds.length - Merkle.split ds.length := by
      simp
    obtain ⟨hcl, hdl⟩ := hleft.count_digest
    obtain ⟨-, hdr⟩ := hright.count_digest
    rw [hlt] at hcl
    rcases Nat.eq_or_lt_of_le hle with rfl | hlt'
    · rw [subproof, if_pos hcount.symm, Merkle.shared_length, Merkle.joiners_length,
        Merkle.turns_self]
      cases known <;> simp [carriesBase, hdigest]
    · rcases Nat.lt_or_ge (Merkle.split ds.length) count with hside | hside
      · rw [subproof, if_neg (by omega), if_neg (by omega), hcl,
          subproof_eq hright (by omega) (by omega), hld,
          Merkle.shared_right nodeHash emptyRoot hlt' hside,
          Merkle.joiners_right nodeHash emptyRoot hlt' hside, Merkle.turns_right hlt' hside, hdl]
        simp [carriesBase, bind, Except.bind]
      · rw [subproof, if_neg (by omega), if_pos (by omega), subproof_eq hleft hpos (by omega), hlt,
          Merkle.shared_left nodeHash emptyRoot hpos hlt' hside,
          Merkle.joiners_left nodeHash emptyRoot hpos hlt' hside,
          Merkle.turns_left hpos hlt' hside, hdr]
        simp [carriesBase, bind, Except.bind]

/-- From the top, where the old root is known, that is the whole path. -/
theorem subproof_known {tree : Node D} {ds : List D} {count : ℕ} (h : tree.Holds ds)
    (hpos : 0 < count) (hle : count ≤ ds.length) :
    subproof tree count true = .ok (Merkle.prefixPath nodeHash emptyRoot count ds) := by
  rw [subproof_eq h hpos hle, Merkle.prefixPath]
  by_cases hturn : true ∈ Merkle.turns count ds.length
  · rw [if_pos (.inr hturn), if_pos hturn]
    rfl
  · rw [if_neg (by simpa [carriesBase] using hturn), if_neg hturn]
    rfl

/-! ## Proving -/

variable [DecidableEq D]

omit [DecidableEq D] in
theorem honestPath_zero (ledger : EvidenceLedger D) : honestPath ledger 0 = [] := by
  have hturns : Merkle.turns 0 (leaves ledger.schemaVersion ledger.entries).length = [] := by
    rw [Merkle.turns, dif_neg (by simp)]
  rw [honestPath, Merkle.prefixPath, hturns, if_neg (by simp), Merkle.joiners, if_neg (by simp)]

/-- **`prove_ledger_consistency`** makes the honest proof. -/
theorem proveLedgerConsistency_eq {p : LedgerProofIndex D} {m : ℕ} {co : LedgerCommitment D}
    (hco : commitmentOf (p.index.ledger.prefixOf m) = .ok co)
    (hle : m ≤ p.index.ledger.entries.length) :
    proveLedgerConsistency p co =
      LedgerConsistencyProof.make co p.commitment (honestPath p.index.ledger m) := by
  have hheaders := headers_honest hco p.commitment_eq hle
  obtain ⟨-, -, hhead, hcount, hroot⟩ := commitmentOf_eq_ok hco
  have hlen : (p.index.ledger.prefixOf m).entries.length = m := by
    simp [EvidenceLedger.prefixOf, hle]
  rw [hlen] at hcount
  rw [leaves_prefixOf] at hroot
  rw [proveLedgerConsistency, hheaders, hcount]
  rcases Nat.eq_zero_or_pos m with rfl | hpos
  · rw [honestPath_zero]
    rfl
  · obtain ⟨tree, htree, hholds⟩ := p.exists_tree (by omega)
    have hlt : m - 1 < p.index.ledger.entries.length := by omega
    have hlast : p.index.ledger.entries[m - 1].digest = co.headDigest := by
      rw [hhead, EvidenceLedger.headDigest, List.getLast?_eq_getElem?, hlen]
      simp [EvidenceLedger.prefixOf, hlt, show m - 1 < m by omega]
    have hleaves : m ≤ (leaves p.index.ledger.schemaVersion p.index.ledger.entries).length := by
      simpa [leaves] using hle
    rw [if_neg (by omega), htree, List.getElem?_eq_getElem hlt]
    simp only [orError, bind, Except.bind, hlast, prefixRoot_eq hholds hpos hleaves, hroot,
      subproof_known hholds hpos hleaves, valid_of]
    rfl

/-! ## Canonical bytes -/

namespace LedgerConsistencyProof

theorem toDict_eq (p : LedgerConsistencyProof D) : p.toDict =
    .obj [("kind", .str "evidence-braid-ledger-consistency"),
      ("new_commitment", p.newCommitment.toDict), ("old_commitment", p.oldCommitment.toDict),
      ("path", .arr (p.path.map fun d => .str (hex d))), ("schema_version", .str "1.0")] := by
  simp +decide only [toDict, Json.dict, List.foldr, Json.insertKey, if_true, if_false]

/-- The fields of a proof pass the constructor's checks. -/
theorem make_fields (p : LedgerConsistencyProof D) :
    make p.oldCommitment p.newCommitment p.path = .ok p := by
  have hchecked := p.checked
  unfold make
  split
  · next e h => rw [hchecked] at h; cases h
  · rfl

omit [DecidableEq D] in
theorem shapePath_hex (path : List D) :
    shapePath (path.map fun d => .str (hex d)) = .ok path := by
  induction path with
  | nil => rfl
  | cons d path ih =>
    rw [List.map_cons, shapePath, hashField, readHash_hex, ih]
    rfl

omit [DecidableEq D] in
theorem shapeHeader_toDict [WideHex D] {c : LedgerCommitment D} {kvs : List (String × Json)}
    (h : c.toDict = .obj kvs) : shapeHeader kvs = .ok () := by
  have hversion : c.ledgerVersion.toList.length = 3 := by
    rcases c.version_eq with h | h <;> rw [h] <;> rfl
  have hcount : (0 : ℤ) ≤ c.entryCount ∧ (c.entryCount : ℤ) ≤ maxLedgerEntries :=
    ⟨by omega, by exact_mod_cast c.count_le⟩
  rw [c.toDict_eq, Json.obj.injEq] at h
  subst h
  simp +decide [shapeHeader, length_hex, hversion, hcount]

theorem object_of_keys {kvs : List (String × Json)} {names : List String}
    (h : Json.keys kvs = names) : object (.obj kvs) names = .ok kvs := by
  subst h
  simp [object]

/-- **The admitted shape** holds of every proof's document. -/
theorem shape_toDict [WideHex D] (p : LedgerConsistencyProof D) :
    ∃ kvs, p.toDict = .obj kvs ∧ shape p.toDict = .ok (kvs, p.path) := by
  obtain ⟨new, hnew⟩ : ∃ kvs, p.newCommitment.toDict = .obj kvs := ⟨_, p.newCommitment.toDict_eq⟩
  obtain ⟨old, hold⟩ : ∃ kvs, p.oldCommitment.toDict = .obj kvs := ⟨_, p.oldCommitment.toDict_eq⟩
  have hpath : p.path.length ≤ maxPath := (postInit_eq_ok.mp p.checked).2.1
  have hfields : ∀ {c : LedgerCommitment D} {kvs : List (String × Json)}, c.toDict = .obj kvs →
      object (.obj kvs) LedgerCommitment.headerFields = .ok kvs := by
    intro c kvs h
    rw [c.toDict_eq, Json.obj.injEq] at h
    subst h
    exact object_of_keys rfl
  refine ⟨_, p.toDict_eq, ?_⟩
  rw [p.toDict_eq, shape]
  simp only [bind_eq_ok, valid_eq_ok, exists_unit]
  refine ⟨_, object_of_keys rfl, ?_⟩
  simp +decide only [Json.get?_cons, if_true, if_false, Option.getD_some, List.length_map, hold,
    hnew, hfields hold, hfields hnew, shapeHeader_toDict hold, shapeHeader_toDict hnew,
    hpath, shapePath_hex, valid_of, bind, Except.bind]

/-- A document within the wire limit. -/
theorem length_canonicalBytes_le [WideHex D] (p : LedgerConsistencyProof D) :
    (canonicalBytes p.toDict).length ≤ maxConsistencyBytes := by
  have hpath : p.path.length ≤ maxPath := (postInit_eq_ok.mp p.checked).2.1
  have hold := p.oldCommitment.size_toDict_le
  have hnew := p.newCommitment.size_toDict_le
  have hhashes := Json.size_arr_le (p.path.map fun d => .str (hex d))
  have hsum : ((p.path.map fun d => Json.str (hex d)).map fun x => Json.size x + 1).sum =
      p.path.length * 67 := by
    simp [Function.comp_def, List.map_const']
  change Json.size p.toDict ≤ maxConsistencyBytes
  rw [p.toDict_eq]
  refine (Json.size_obj_le _).trans ?_
  simp only [List.map_cons, List.map_nil, List.sum_cons, List.sum_nil, Json.size_str]
  have hkeys : Json.quotedSize "kind" = 6 ∧ Json.quotedSize "new_commitment" = 16 ∧
      Json.quotedSize "old_commitment" = 16 ∧ Json.quotedSize "path" = 6 ∧
      Json.quotedSize "schema_version" = 16 ∧ Json.quotedSize "1.0" = 5 ∧
      Json.quotedSize "evidence-braid-ledger-consistency" = 35 := by
    and_intros <;> exact Json.quotedSize_literal rfl
  simp only [hkeys]
  clear hkeys
  rw [hsum] at hhashes
  unfold maxPath at hpath
  unfold maxConsistencyBytes
  omega

/-- `to_bytes` of every proof is its canonical text. -/
theorem toBytes_eq [WideHex D] (p : LedgerConsistencyProof D) :
    p.toBytes = .ok (canonicalBytes p.toDict) := by
  obtain ⟨kvs, -, hshape⟩ := p.shape_toDict
  rw [toBytes, hshape]
  simp only [bind, Except.bind, valid_of p.length_canonicalBytes_le]

/-- **A proof survives its document.** -/
theorem fromDict_toDict [WideHex D] (p : LedgerConsistencyProof D) :
    fromDict p.toDict = .ok p := by
  obtain ⟨kvs, hkvs, hshape⟩ := p.shape_toDict
  rw [p.toDict_eq, Json.obj.injEq] at hkvs
  rw [fromDict, hshape, ← hkvs]
  simp +decide only [bind, Except.bind, Json.get?_cons, if_true, if_false, Option.getD_some,
    LedgerCommitment.fromDict_toDict, p.make_fields, p.toBytes_eq]

theorem readable_toDict (p : LedgerConsistencyProof D) : Json.Readable hooks p.toDict := by
  have hcommitment : ∀ c : LedgerCommitment D, Json.Readable hooks c.toDict := by
    intro c
    have hdigits : (Nat.toDigits 10 c.entryCount).length ≤ 6 :=
      (Nat.length_toDigits_le_iff (by omega) (by omega)).mpr (c.count_le.trans_lt (by decide))
    have hcount : Json.Readable hooks (.int c.entryCount) := by
      change (if (Nat.toDigits 10 c.entryCount).length ≤ 6 then _ else none) = _
      rw [if_pos hdigits, Numeral.toInt_ofInt]
    exact Json.readable_dict (by simp [LedgerCommitment.body, hcount])
  exact Json.readable_dict (by simp [hcommitment])

omit [DecidableEq D] in
theorem height_hashes (path : List D) :
    Json.heightItems (path.map fun d => .str (hex d)) = 0 := by
  induction path with
  | nil => rfl
  | cons d path ih => rw [List.map_cons, Json.heightItems, ih, Json.height, Nat.max_self]

theorem height_toDict (p : LedgerConsistencyProof D) : Json.height p.toDict = 2 := by
  have hcommitment : ∀ c : LedgerCommitment D, Json.height c.toDict = 1 := by
    intro c
    rw [c.toDict_eq]
    simp [Json.height, Json.heightMembers]
  rw [p.toDict_eq]
  simp [Json.height, Json.heightMembers, hcommitment, height_hashes]

/-- **A proof survives its bytes.** -/
theorem fromBytes_toBytes [WideHex D] (p : LedgerConsistencyProof D) :
    fromBytes (canonicalBytes p.toDict) = .ok p := by
  have hdepth : Json.scanDepth 2 (canonicalBytes p.toDict) = true :=
    (Json.scanDepth_dumps 2 p.toDict).mpr p.height_toDict.le
  have hread : Json.loads hooks (canonicalJson p.toDict false) = some p.toDict :=
    Json.loads_dumps p.readable_toDict
  rw [fromBytes, valid_of p.length_canonicalBytes_le, hdepth]
  simp only [bind, Except.bind, valid_of, canonicalBytes, Utf8.decode_encode, orError, hread,
    p.fromDict_toDict, p.toBytes_eq, wrapping]

end LedgerConsistencyProof

/-! ## Completeness -/

/-- **Consistency completeness.** From a proof index over `n` receipts, the proof for the first `m`
of them is made, has the length that the sizes fix and at most 18 digests, survives its bytes, and
is accepted under the two commitment digests. -/
theorem proveLedgerConsistency_complete [WideHex D] (p : LedgerProofIndex D) (m : ℕ)
    (hle : m ≤ p.index.ledger.entries.length) : ∃ old proof raw,
      commitmentOf (p.index.ledger.prefixOf m) = .ok old ∧
      proveLedgerConsistency p old = .ok proof ∧
      proof.path.length = pathSize m p.index.ledger.entries.length true ∧
      proof.path.length ≤ maxPath ∧
      proof.toBytes = .ok raw ∧ LedgerConsistencyProof.fromBytes raw = .ok proof ∧
      verifyLedgerConsistency proof old.digest p.commitment.digest = .ok () := by
  have hverified := p.index.verified
  simp only [EvidenceLedger.verify, Bool.and_eq_true, decide_eq_true_eq] at hverified
  obtain ⟨old, hold⟩ := @exists_commitmentOf D _ _ (p.index.ledger.prefixOf m) hverified.1.1
    ((List.length_take_le _ _).trans (hle.trans hverified.1.2))
  obtain ⟨proof, hmake, holdc, hnewc, -, haccept⟩ := honest_accepted hold p.commitment_eq hle
  have hcount : proof.oldCommitment.entryCount = m := by
    rw [holdc, (commitmentOf_eq_ok hold).2.2.2.1]
    simp [EvidenceLedger.prefixOf, hle]
  have hlen := (LedgerConsistencyProof.postInit_eq_ok.mp proof.checked).2
  rw [hcount, hnewc, (commitmentOf_eq_ok p.commitment_eq).2.2.2.1] at hlen
  exact ⟨old, proof, _, hold, by rw [proveLedgerConsistency_eq hold hle, hmake], hlen.2, hlen.1,
    proof.toBytes_eq, proof.fromBytes_toBytes, haccept⟩

theorem proveLedgerConsistency_complete_one : ∃ p : LedgerProofIndex HexDigest,
    p.index.ledger.entries.length = 1 ∧ ∃ old proof raw,
      commitmentOf (p.index.ledger.prefixOf 1) = .ok old ∧
      proveLedgerConsistency p old = .ok proof ∧
      proof.path.length = pathSize 1 p.index.ledger.entries.length true ∧
      proof.path.length ≤ maxPath ∧
      proof.toBytes = .ok raw ∧ LedgerConsistencyProof.fromBytes raw = .ok proof ∧
      verifyLedgerConsistency proof old.digest p.commitment.digest = .ok () := by
  obtain ⟨p, hp⟩ := LedgerProofIndex.exists_of_index (sampleIndex HexDigest size_sampleEntry_hex)
  have hone : p.index.ledger.entries.length = 1 := by rw [hp]; rfl
  exact ⟨p, hone, proveLedgerConsistency_complete p 1 hone.ge⟩

end EvidenceBraid
