import EvidenceBraid.MembershipCodec

/-!
# Membership: completeness

A proof index proves its own receipts: `_member` reads the honest path off the cached tree
(`reverse_siblingsDown`), every honest receipt passes the checks of the bundle and of the verifier,
and the bundle survives its bytes.

Main result: `membership_complete`.
-/

namespace EvidenceBraid

open Hashing

variable {D : Type} [Hashing D]

/-! ## Reading a path off the cached tree -/

/-- **`_member`** reads the honest path. -/
theorem reverse_siblingsDown : ∀ {tree : Node D} {ds : List D} {i : ℕ}, tree.Holds ds →
    i < ds.length → (LedgerProofIndex.siblingsDown tree i).reverse =
      Merkle.siblings nodeHash emptyRoot i ds
  | .leaf d, ds, i, h, hi => by
    obtain rfl : ds = [d] := h
    rw [Merkle.siblings_small nodeHash emptyRoot (by simp)]
    rfl
  | .inner d n left right, ds, i, h, hi => by
    obtain ⟨hlen, -, -, hleft, hright⟩ := h
    have hs' := Merkle.split_lt hlen
    have hlt : (ds.take (Merkle.split ds.length)).length = Merkle.split ds.length := by simp; omega
    obtain ⟨hcl, hdl⟩ := hleft.count_digest
    obtain ⟨-, hdr⟩ := hright.count_digest
    rw [hlt] at hcl
    rcases Nat.lt_or_ge i (Merkle.split ds.length) with hside | hside
    · rw [LedgerProofIndex.siblingsDown, if_pos (by omega), List.reverse_cons,
        reverse_siblingsDown hleft (by omega), Merkle.siblings_left nodeHash emptyRoot hlen hside,
        hdr]
    · rw [LedgerProofIndex.siblingsDown, if_neg (by omega), List.reverse_cons, hcl,
        reverse_siblingsDown hright (by rw [List.length_drop]; omega),
        Merkle.siblings_right nodeHash emptyRoot hlen hside, hdl]

/-! ## The receipts of a verified ledger -/

variable [DecidableEq D]

namespace EvidenceLedger

/-- What verification says of the receipt at a position: its link, and its place at the ends. -/
theorem verifyLinks_getElem {version : String} {entries : List (LedgerEntry D)} :
    ∀ {sequence : ℕ} {previous : D} {ids : List String} {head : D},
      verifyLinks version sequence previous ids entries = some head →
        ∀ i (hi : i < entries.length), ∃ prev, Link version (sequence + i) prev entries[i] ∧
          (i = 0 → prev = previous) := by
  intro sequence previous ids head h i hi
  cases entries with
  | nil => simp at hi
  | cons entry entries =>
    cases i with
    | zero => exact ⟨previous, (verifyLinks_cons h).1, fun _ => rfl⟩
    | succ i =>
      obtain ⟨prev, hprev⟩ := link_of_verifyLinks h (i + 1) hi
      exact ⟨prev, hprev, by omega⟩

/-- The receipt at a position of a verified ledger. -/
structure Receipt (l : EvidenceLedger D) (i : ℕ) (entry : LedgerEntry D) : Prop where
  decodes : LedgerEntry.fromDict entry.toDict = .ok entry
  sequence_eq : entry.sequence = i
  hashed : ∃ event, entry.decoded "event" = .ok event ∧
    chainDigest entry.previousDigest event entry.sequence l.schemaVersion = entry.digest
  first : i = 0 → entry.previousDigest = l.genesis
  last : i + 1 = l.entries.length → entry.digest = l.headDigest

theorem receipt_of_verify {l : EvidenceLedger D} (h : l.verify = true) {i : ℕ}
    (hi : i < l.entries.length) : l.Receipt i l.entries[i] := by
  simp only [verify, Bool.and_eq_true, Option.isSome_iff_exists] at h
  obtain ⟨-, head, hhead⟩ := h
  obtain ⟨prev, hlink, hfirst⟩ := verifyLinks_getElem hhead i hi
  rw [Nat.zero_add] at hlink
  obtain ⟨event, hevent, hdigest⟩ := hlink.hashed
  refine ⟨hlink.decodes, hlink.sequence_eq, ⟨event, hevent, ?_⟩, ?_, ?_⟩
  · rw [hlink.previous_eq, hlink.sequence_eq]
    exact hdigest.symm
  · intro hzero
    rw [hlink.previous_eq, hfirst hzero]
  · intro hlast
    have hi' : l.entries.length - 1 = i := by omega
    simp [headDigest, List.getLast?_eq_getElem?, hi', List.getElem?_eq_getElem hi]

end EvidenceLedger

/-- Receipts within the documented bounds: 16 MiB of canonical bytes together, and at most
1,000,000 nodes of graph work with their paths and the header. -/
structure WithinBounds (entryCount : ℕ) (entries : List (LedgerEntry D)) : Prop where
  bytes_le : (entries.map entrySize).sum ≤ maxReceiptBytes
  work_le : (entries.map fun e =>
    graphWork e.toDict + (Merkle.sides e.sequence entryCount).length + 4).sum + 25 ≤ maxJsonNodes

omit [DecidableEq D] in
theorem WithinBounds.of_mem {n : ℕ} {entries : List (LedgerEntry D)} (h : WithinBounds n entries)
    {e : LedgerEntry D} (he : e ∈ entries) :
    entrySize e ≤ maxReceiptBytes ∧ graphWork e.toDict ≤ maxJsonNodes := by
  have hbytes := List.le_sum_of_mem (List.mem_map_of_mem (f := entrySize) he)
  have hwork := List.le_sum_of_mem (List.mem_map_of_mem (f := fun e : LedgerEntry D =>
    graphWork e.toDict + (Merkle.sides e.sequence n).length + 4) he)
  have hbytes' := h.bytes_le
  have hwork' := h.work_le
  exact ⟨by omega, by omega⟩

namespace LedgerProofIndex

variable (p : LedgerProofIndex D)

/-- The receipt is the index's own, at its own position. -/
def Owns (e : LedgerEntry D) : Prop := p.index.ledger.entries[e.sequence]? = some e

/-- The honest siblings of a position. -/
def honestSiblings (i : ℕ) : List D :=
  Merkle.siblings nodeHash emptyRoot i (leaves p.index.ledger.schemaVersion p.index.ledger.entries)

variable {p}

theorem entryCount_eq : p.commitment.entryCount = p.index.ledger.entries.length :=
  (commitmentOf_eq_ok p.commitment_eq).2.2.2.1

theorem Owns.receipt {e : LedgerEntry D} (h : p.Owns e) :
    p.index.ledger.Receipt e.sequence e ∧ e.sequence < p.index.ledger.entries.length := by
  obtain ⟨hlt, hget⟩ := List.getElem?_eq_some_iff.mp h
  have hreceipt := EvidenceLedger.receipt_of_verify p.index.verified hlt
  rw [hget] at hreceipt
  exact ⟨hreceipt, hlt⟩

theorem length_honestSiblings (i : ℕ) : (p.honestSiblings i).length =
    (Merkle.sides i p.index.ledger.entries.length).length := by
  rw [honestSiblings, Merkle.length_siblings]
  simp [leaves]

theorem entries_length_le : p.index.ledger.entries.length ≤ 2 ^ maxSiblings := by
  have hle := p.commitment.count_le
  rw [entryCount_eq] at hle
  exact hle.trans (by decide)

/-- A receipt of the ledger within bounds passes `_receipt_bytes`. -/
theorem Owns.receiptBytes {e : LedgerEntry D} (h : p.Owns e)
    (hsize : entrySize e ≤ maxReceiptBytes) (hwork : graphWork e.toDict ≤ maxJsonNodes) :
    receiptBytes e = .ok (canonicalBytes e.toDict) := by
  obtain ⟨hreceipt, hlt⟩ := h.receipt
  have hseq := (LedgerEntry.fromDict_toDict hreceipt.decodes).2.1
  obtain ⟨hreach, hsmall⟩ := e.measures_toDict hseq
  have hscalar := scalarBytes_le_size e.toDict
  have hpre : preflight e.toDict = .ok () := by
    change Json.size e.toDict ≤ _ at hsize
    unfold maxReceiptBytes at hsize
    unfold maxAttributeDepth at hreach
    exact preflight_eq_ok.mpr ⟨hwork, by unfold maxBundleBytes; omega,
      by unfold maxJsonDepth; omega, hsmall⟩
  simp only [EvidenceBraid.receiptBytes, bind_eq_ok]
  exact ⟨(), hpre, (), valid_of hsize, e, hreceipt.decodes, (), valid_of rfl, trivial⟩

/-- `_member` makes the honest member proof. -/
theorem Owns.member {e : LedgerEntry D} (h : p.Owns e) (hsize : entrySize e ≤ maxReceiptBytes)
    (hwork : graphWork e.toDict ≤ maxJsonNodes) : ∃ m, p.member e.sequence = .ok m ∧
      m.entry = e ∧ m.siblings = p.honestSiblings e.sequence := by
  have hraw := h.receiptBytes hsize hwork
  obtain ⟨-, hlt⟩ := h.receipt
  obtain ⟨tree, htree, hholds⟩ := p.exists_tree (by omega)
  have hsiblings : (siblingsDown tree e.sequence).reverse = p.honestSiblings e.sequence :=
    reverse_siblingsDown hholds (by simpa [leaves] using hlt)
  have hlen : (p.honestSiblings e.sequence).length ≤ maxSiblings := by
    rw [length_honestSiblings]
    exact Merkle.length_sides_le entries_length_le
  refine ⟨⟨e, p.honestSiblings e.sequence, hlen, _, hraw⟩, ?_, rfl, rfl⟩
  simp only [LedgerProofIndex.member, bind_eq_ok, htree, Option.map_some, Option.getD_some,
    hsiblings, entryCount_eq]
  refine ⟨(), countInt_eq_ok.mpr ⟨by omega, by omega⟩, e, orError_eq_ok.mpr h, ?_⟩
  rw [LedgerMemberProof.make, dif_pos hlen]
  split
  · next err herr => rw [hraw] at herr; cases herr
  · rfl

/-- The honest member proofs of these receipts. -/
structure Honest (p : LedgerProofIndex D) (entries : List (LedgerEntry D))
    (ms : List (LedgerMemberProof D)) : Prop where
  entries_eq : ms.map (·.entry) = entries
  siblings_eq : ∀ m ∈ ms, m.siblings = p.honestSiblings m.entry.sequence

theorem memberAll_honest : ∀ {entries : List (LedgerEntry D)}, (∀ e ∈ entries, p.Owns e) →
    (∀ e ∈ entries, entrySize e ≤ maxReceiptBytes ∧ graphWork e.toDict ≤ maxJsonNodes) →
      ∃ ms, p.memberAll (entries.map (·.sequence)) = .ok ms ∧ p.Honest entries ms
  | [], _, _ => ⟨[], rfl, rfl, by simp⟩
  | e :: es, howns, hfit => by
    obtain ⟨m, hm, hentry, hsiblings⟩ := (howns e (by simp)).member (hfit e (by simp)).1
      (hfit e (by simp)).2
    obtain ⟨ms, hms, hall, hsib⟩ := memberAll_honest
      (fun e' he' => howns e' (List.mem_cons_of_mem e he'))
      fun e' he' => hfit e' (List.mem_cons_of_mem e he')
    refine ⟨m :: ms, ?_, by rw [List.map_cons, hentry, hall], ?_⟩
    · rw [List.map_cons, memberAll, hm, hms]
      rfl
    · intro m' hm'
      rcases List.mem_cons.mp hm' with rfl | hm'
      · rw [hsiblings, hentry]
      · exact hsib m' hm'

/-! ## The honest bundle -/

/-- Honest members pass the constructor's loop. -/
theorem checkMembers_honest {ms : List (LedgerMemberProof D)} :
    ∀ {previous : ℤ} {size : ℕ}, (∀ m ∈ ms, p.Owns m.entry) →
      (∀ m ∈ ms, m.siblings = p.honestSiblings m.entry.sequence) →
      (ms.map fun m => m.entry.sequence).Pairwise (· < ·) →
      (∀ m ∈ ms, previous < m.entry.sequence) →
      size + (ms.map fun m => entrySize m.entry).sum ≤ maxReceiptBytes →
        LedgerMembershipBundle.checkMembers p.commitment.entryCount previous size ms = .ok () := by
  induction ms with
  | nil => exact fun _ _ _ _ _ => rfl
  | cons m ms ih =>
    intro previous size howns hsib hsorted hprev hsize
    rw [List.map_cons, List.pairwise_cons] at hsorted
    rw [List.map_cons, List.sum_cons] at hsize
    obtain ⟨-, hlt⟩ := (howns m (by simp)).receipt
    obtain ⟨raw, hraw⟩ := m.receipt
    obtain ⟨-, rfl⟩ := receiptBytes_eq_ok hraw
    have hlen : m.siblings.length = (Merkle.sides m.entry.sequence p.commitment.entryCount).length := by
      rw [hsib m (by simp), length_honestSiblings, entryCount_eq]
    have hfirst : size + entrySize m.entry ≤ maxReceiptBytes := by omega
    simp only [LedgerMembershipBundle.checkMembers, bind_eq_ok]
    refine ⟨(), valid_of (hprev m (by simp)), _, route_eq_ok.mpr ⟨by rw [entryCount_eq]; exact hlt,
      rfl⟩, (), valid_of hlen, _, hraw, (), valid_of hfirst, ?_⟩
    refine ih (fun m' hm' => howns m' (List.mem_cons_of_mem m hm'))
      (fun m' hm' => hsib m' (List.mem_cons_of_mem m hm')) hsorted.2 ?_
      (by change size + entrySize m.entry + _ ≤ _; omega)
    intro m' hm'
    exact_mod_cast hsorted.1 _ (List.mem_map_of_mem hm')

/-- Honest members pass the verifier's loop. -/
theorem verifyMembers_honest {ms : List (LedgerMemberProof D)} (howns : ∀ m ∈ ms, p.Owns m.entry)
    (hsib : ∀ m ∈ ms, m.siblings = p.honestSiblings m.entry.sequence) :
    verifyMembers p.commitment ms = .ok () := by
  obtain ⟨hversion, hgenesis, hhead, hcount, hroot⟩ := commitmentOf_eq_ok p.commitment_eq
  induction ms with
  | nil => rfl
  | cons m ms ih =>
    obtain ⟨hreceipt, hlt⟩ := (howns m (by simp)).receipt
    obtain ⟨event, hevent, hdigest⟩ := hreceipt.hashed
    have hsiblings := hsib m (by simp)
    have hlen : (Merkle.sides m.entry.sequence p.commitment.entryCount).length =
        m.siblings.length := by
      rw [hsiblings, length_honestSiblings, hcount]
    have hlast : (m.entry.sequence : ℤ) = p.commitment.entryCount - 1 →
        m.entry.digest = p.commitment.headDigest := by
      intro heq
      rw [hhead]
      exact hreceipt.last (by omega)
    have hlt' : m.entry.sequence <
        (leaves p.index.ledger.schemaVersion p.index.ledger.entries).length := by
      simpa [leaves] using hlt
    have hget : (leaves p.index.ledger.schemaVersion p.index.ledger.entries)[m.entry.sequence] =
        leafHash p.commitment.ledgerVersion m.entry := by
      obtain ⟨_, hentry⟩ := List.getElem?_eq_some_iff.mp (howns m (by simp))
      simp [leaves, hentry, hversion]
    have hclimb := Merkle.climb_siblings nodeHash emptyRoot hlt'
    simp only [verifyMembers, bind_eq_ok]
    refine ⟨event, hevent, (), valid_of (by rw [hversion]; exact hdigest), (),
      valid_of fun hzero => by rw [hgenesis]; exact hreceipt.first hzero, (), valid_of hlast, _,
      route_eq_ok.mpr ⟨by rw [hcount]; exact hlt, rfl⟩, (), require_of hlen, (), valid_of ?_,
      ih (fun m' hm' => howns m' (List.mem_cons_of_mem m hm'))
        fun m' hm' => hsib m' (List.mem_cons_of_mem m hm')⟩
    rw [climb_eq, hsiblings, honestSiblings, ← hget, hroot, hcount, ← hclimb]
    simp [leaves]

/-- **The honest bundle** is constructed, and it verifies. -/
theorem honest_verifies {entries : List (LedgerEntry D)} {ms : List (LedgerMemberProof D)}
    (hne : entries ≠ []) (hmax : entries.length ≤ maxMembers) (howns : ∀ e ∈ entries, p.Owns e)
    (hsorted : (entries.map (·.sequence)).Pairwise (· < ·))
    (hbounds : WithinBounds p.commitment.entryCount entries) (hms : p.Honest entries ms) :
    ∃ bundle, LedgerMembershipBundle.make p.commitment ms = .ok bundle ∧ bundle.members = ms ∧
      verifyLedgerMembership bundle p.commitment.digest = .ok entries := by
  obtain ⟨rfl, hsib⟩ := hms
  have howns' : ∀ m ∈ ms, p.Owns m.entry := fun m hm => howns _ (List.mem_map_of_mem hm)
  have hpost : LedgerMembershipBundle.postInit p.commitment ms = .ok () := by
    simp only [LedgerMembershipBundle.postInit, bind_eq_ok]
    refine ⟨(), valid_of ⟨?_, by simpa using hmax⟩, ?_⟩
    · exact List.length_pos_iff.mpr (by simpa using hne)
    · refine checkMembers_honest howns' hsib (by simpa [Function.comp_def] using hsorted)
        (fun _ _ => by omega) ?_
      have hbytes := hbounds.bytes_le
      simpa [Function.comp_def] using hbytes
  refine ⟨⟨p.commitment, ms, hpost⟩,
    LedgerMembershipBundle.make_fields ⟨p.commitment, ms, hpost⟩, rfl, ?_⟩
  simp only [verifyLedgerMembership, bind_eq_ok]
  exact ⟨(), valid_of trivial, (), verifyMembers_honest howns' hsib, trivial⟩

/-- The graph of the honest bundle is within bounds. -/
theorem honest_work {entries : List (LedgerEntry D)} {ms : List (LedgerMemberProof D)}
    (hbounds : WithinBounds p.commitment.entryCount entries) (hms : p.Honest entries ms)
    {bundle : LedgerMembershipBundle D} (hbundle : bundle.members = ms) :
    graphWork bundle.toDict ≤ maxJsonNodes := by
  obtain ⟨rfl, hsib⟩ := hms
  rw [bundle.measures_toDict.1, hbundle]
  have hwork := hbounds.work_le
  rw [List.map_map] at hwork
  rw [List.map_congr_left (g := (fun e : LedgerEntry D => graphWork e.toDict +
    (Merkle.sides e.sequence p.commitment.entryCount).length + 4) ∘ (·.entry))]
  · exact hwork
  · intro m hm
    simp only [Function.comp, hsib m hm, length_honestSiblings, entryCount_eq]

end LedgerProofIndex

/-! ## Pages -/

omit [DecidableEq D] in
/-- The receipts of a page stand at positions of the ledger. -/
theorem LedgerSelection.mem_fill {entries : List (LedgerEntry D)} {limit budget : ℕ} :
    ∀ {positions : List ℕ} {taken size size' : ℕ} {es : List (LedgerEntry D)} {left : List ℕ},
      fill entries limit budget taken size positions = .ok (es, size', left) →
        ∀ e ∈ es, ∃ i : ℕ, entries[i]? = some e := by
  intro positions
  induction positions with
  | nil =>
    intro taken size size' es left h e he
    simp only [fill, Except.ok.injEq, Prod.mk.injEq] at h
    simp [← h.1] at he
  | cons position positions ih =>
    intro taken size size' es left h e he
    rw [fill] at h
    by_cases htaken : taken < limit
    · rw [if_pos htaken] at h
      cases hentry : entries[position]? with
      | none =>
        rw [hentry] at h
        cases h
      | some entry =>
        simp only [hentry] at h
        split_ifs at h with hover hnone
        · simp only [Except.ok.injEq, Prod.mk.injEq] at h
          simp [← h.1] at he
        · simp only [bind_eq_ok, Prod.exists, Except.ok.injEq, Prod.mk.injEq] at h
          obtain ⟨rest, size'', left', hrest, rfl, -⟩ := h
          rcases List.mem_cons.mp he with rfl | he
          · exact ⟨position, hentry⟩
          · exact ih hrest e he
    · rw [if_neg htaken] at h
      simp only [Except.ok.injEq, Prod.mk.injEq] at h
      simp [← h.1] at he

omit [DecidableEq D] in
/-- The sequences of a page increase. -/
theorem LedgerPage.checkEntries_sorted {n : ℕ} {es : List (LedgerEntry D)} :
    ∀ {previous : ℤ}, checkEntries n previous es = .ok () →
      (es.map (·.sequence)).Pairwise (· < ·) ∧ ∀ e ∈ es, previous < e.sequence := by
  induction es with
  | nil => exact fun _ => ⟨List.Pairwise.nil, by simp⟩
  | cons e es ih =>
    intro previous h
    simp only [checkEntries, bind_eq_ok, valid_eq_ok, exists_unit] at h
    obtain ⟨_, -, ⟨hprev, -⟩, hrest⟩ := h
    obtain ⟨hsorted, hall⟩ := ih hrest
    refine ⟨List.pairwise_cons.mpr ⟨?_, hsorted⟩, ?_⟩
    · intro k hk
      obtain ⟨e', he', rfl⟩ := List.mem_map.mp hk
      exact_mod_cast hall e' he'
    · intro e' he'
      rcases List.mem_cons.mp he' with rfl | he'
      · exact hprev
      · exact hprev.trans (hall e' he')

/-- What a page of a selection holds: receipts of the prefix, in order. -/
theorem LedgerSelection.page_spec {s : LedgerSelection D} {limit budget : ℕ}
    {token : Option (List Char)} {page : LedgerPage D} (h : s.page limit budget token = .ok page) :
    page.headDigest = s.index.ledger.headDigest ∧
      page.snapshotEntries = s.index.ledger.entries.length ∧
      page.entries.length ≤ maxMembers ∧
      (∀ e ∈ page.entries, ∃ i : ℕ, s.index.ledger.entries[i]? = some e) ∧
      (page.entries.map (·.sequence)).Pairwise (· < ·) := by
  simp only [LedgerSelection.page, bind_eq_ok, Prod.exists, Except.ok.injEq] at h
  obtain ⟨-, -, -, -, start, -, entries, h⟩ := h
  obtain ⟨size, left, hfill, u, hpost, rfl⟩ := h
  simp only [LedgerPage.postInit, bind_eq_ok, valid_eq_ok, exists_unit] at hpost
  obtain ⟨-, -, -, hlen, hentries, -⟩ := hpost
  exact ⟨rfl, rfl, (hlen.trans (Nat.min_le_left _ _)), mem_fill hfill,
    (LedgerPage.checkEntries_sorted hentries).1⟩

/-- The receipts that a page shows are the index's own, when the prefix is. -/
theorem LedgerSelection.owns_page {s : LedgerSelection D} {p : LedgerProofIndex D}
    (hledger : s.index.ledger = p.index.ledger) {limit budget : ℕ} {token : Option (List Char)}
    {page : LedgerPage D} (h : s.page limit budget token = .ok page) :
    ∀ e ∈ page.entries, p.Owns e := by
  intro e he
  obtain ⟨i, hi⟩ := (page_spec h).2.2.2.1 e he
  rw [hledger] at hi
  obtain ⟨hlt, hget⟩ := List.getElem?_eq_some_iff.mp hi
  have hreceipt := EvidenceLedger.receipt_of_verify p.index.verified hlt
  rw [hget] at hreceipt
  rw [LedgerProofIndex.Owns, hreceipt.sequence_eq]
  exact hi

namespace LedgerProofIndex

variable {p : LedgerProofIndex D}

/-- The loop of `prove_page` accepts the index's own receipts. -/
theorem checkPage_owns {entries : List (LedgerEntry D)} (howns : ∀ e ∈ entries, p.Owns e)
    (hfit : ∀ e ∈ entries, entrySize e ≤ maxReceiptBytes ∧ graphWork e.toDict ≤ maxJsonNodes) :
    p.checkPage entries = .ok () := by
  induction entries with
  | nil => rfl
  | cons e es ih =>
    have hown := howns e (by simp)
    obtain ⟨-, hlt⟩ := hown.receipt
    have hraw := hown.receiptBytes (hfit e (by simp)).1 (hfit e (by simp)).2
    simp only [checkPage, bind_eq_ok, entryCount_eq]
    exact ⟨(), countInt_eq_ok.mpr ⟨by omega, by omega⟩, e, orError_eq_ok.mpr hown, _, hraw, _, hraw,
      (), valid_of rfl, ih (fun e' he' => howns e' (List.mem_cons_of_mem e he'))
        fun e' he' => hfit e' (List.mem_cons_of_mem e he')⟩

end LedgerProofIndex

/-- What completeness says of a bundle: it survives its bytes, and it verifies under the index's
commitment digest to exactly these receipts. -/
def Proves (p : LedgerProofIndex D) (entries : List (LedgerEntry D))
    (bundle : LedgerMembershipBundle D) : Prop :=
  (∃ raw, bundle.toBytes = .ok raw ∧ LedgerMembershipBundle.fromBytes raw = .ok bundle) ∧
    verifyLedgerMembership bundle p.commitment.digest = .ok entries

/-- **Membership completeness.** A proof index proves every receipt of its ledger and every
nonempty page that a selection over the same prefix serves, within the documented bounds. -/
theorem membership_complete [WideHex D] (p : LedgerProofIndex D) :
    (∀ i (hi : i < p.index.ledger.entries.length),
      WithinBounds p.commitment.entryCount [p.index.ledger.entries[i]] →
        ∃ bundle, p.prove i = .ok bundle ∧ Proves p [p.index.ledger.entries[i]] bundle) ∧
    ∀ (s : LedgerSelection D), s.index.ledger = p.index.ledger →
      ∀ limit budget token page, s.page limit budget token = .ok page → page.entries ≠ [] →
        WithinBounds p.commitment.entryCount page.entries →
          ∃ bundle, p.provePage page = .ok bundle ∧ Proves p page.entries bundle := by
  obtain ⟨-, -, hhead, hcount, -⟩ := commitmentOf_eq_ok p.commitment_eq
  constructor
  · intro i hi hbounds
    have hsequence := (EvidenceLedger.receipt_of_verify p.index.verified hi).sequence_eq
    have howns : ∀ e ∈ [p.index.ledger.entries[i]], p.Owns e := by
      intro e he
      obtain rfl := List.mem_singleton.mp he
      rw [LedgerProofIndex.Owns, hsequence, List.getElem?_eq_getElem hi]
    obtain ⟨ms, hms, hhonest⟩ := LedgerProofIndex.memberAll_honest howns fun e he => hbounds.of_mem he
    obtain ⟨bundle, hmake, hmembers, hverify⟩ := LedgerProofIndex.honest_verifies
      (by simp) (by simp [maxMembers]) howns (by simp) hbounds hhonest
    refine ⟨bundle, ?_, bundle.survives (LedgerProofIndex.honest_work hbounds hhonest hmembers),
      hverify⟩
    rw [List.map_singleton, hsequence] at hms
    simp only [LedgerProofIndex.memberAll, bind_eq_ok, Except.ok.injEq] at hms
    obtain ⟨m, hm, _, rfl, rfl⟩ := hms
    simp only [LedgerProofIndex.prove, bind_eq_ok]
    exact ⟨m, hm, hmake⟩
  · intro s hledger limit budget token page hpage hne hbounds
    obtain ⟨hpageHead, hsnapshot, hmax, -, hsorted⟩ := LedgerSelection.page_spec hpage
    have howns := LedgerSelection.owns_page hledger hpage
    obtain ⟨ms, hms, hhonest⟩ := LedgerProofIndex.memberAll_honest howns fun e he => hbounds.of_mem he
    obtain ⟨bundle, hmake, hmembers, hverify⟩ := LedgerProofIndex.honest_verifies
      hne hmax howns hsorted hbounds hhonest
    refine ⟨bundle, ?_, bundle.survives (LedgerProofIndex.honest_work hbounds hhonest hmembers),
      hverify⟩
    simp only [LedgerProofIndex.provePage, bind_eq_ok]
    exact ⟨(), valid_of ⟨by rw [hpageHead, hhead, hledger], by rw [hsnapshot, hcount, hledger]⟩, (),
      valid_of hne, (), LedgerProofIndex.checkPage_owns howns fun e he => hbounds.of_mem he, ms,
      hms, hmake⟩

omit [DecidableEq D] in
/-- The smallest ledger is within the bounds. -/
theorem withinBounds_sampleEntry (h : entrySize (sampleEntry D) ≤ 11000) :
    WithinBounds 1 [sampleEntry D] where
  bytes_le := by
    have hmax : 11000 ≤ maxReceiptBytes := by decide
    simpa using h.trans hmax
  work_le := by
    have hevent : graphWork (.obj (sampleEntry D).event.members) = 17 :=
      (by decide : graphWork sampleEvent.toDict = 17)
    have hwork : graphWork (sampleEntry D).toDict = 27 := by
      rw [(sampleEntry D).toDict_eq]
      simp only [graphWork, graphWorkMembers] at hevent ⊢
      simp only [hevent]
      rfl
    rw [List.map_singleton, List.sum_singleton, hwork, Merkle.sides_small (by omega)]
    decide

theorem membership_complete_one : ∃ p : LedgerProofIndex HexDigest,
    ∃ hi : 0 < p.index.ledger.entries.length, ∃ bundle, p.prove 0 = .ok bundle ∧
      Proves p [p.index.ledger.entries[0]] bundle := by
  obtain ⟨p, hp⟩ := LedgerProofIndex.exists_of_index (sampleIndex HexDigest size_sampleEntry_hex)
  have hentries : p.index.ledger.entries = [sampleEntry HexDigest] := by rw [hp]; rfl
  have hi : 0 < p.index.ledger.entries.length := by rw [hentries]; exact Nat.one_pos
  refine ⟨p, hi, (membership_complete p).1 0 hi ?_⟩
  have hbounds := withinBounds_sampleEntry size_sampleEntry_hex
  rw [LedgerProofIndex.entryCount_eq]
  simpa [hentries] using hbounds

end EvidenceBraid
