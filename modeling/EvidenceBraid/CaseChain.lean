import EvidenceBraid.EpistemicProof

/-!
# A head commits to its whole case

A receipt hashes a tag, its position in four bytes, its predecessor's digest and its record, and a
genesis another tag and the authority. Position and digest have a fixed width, so under an
injective hash the digest of a receipt determines all of them (`caseReceiptDigest_inj`), and it is
no genesis (`caseReceiptDigest_ne_genesis`).

**Theorem (`CaseJournal.head_binds`).** Two journals with one head digest have one authority and
the same receipts.

**Idea.** Unwind both chains from their last receipts; the shorter one would end in a genesis.
-/

namespace EvidenceBraid

open Hashing
open Json (WellKeyed)

/-- The bytes of a digest do not run into what follows them. -/
class FramedHex (D : Type) [Hashing D] : Prop where
  fromhex_append_inj : ∀ {a b : D} {xs ys : Bytes}, fromhex a ++ xs = fromhex b ++ ys → a = b ∧ xs = ys

instance : FramedHex Preimage where
  fromhex_append_inj := by
    intro a b xs ys h
    obtain ⟨hbytes, hrest⟩ := Preimage.framed_append h
    cases a
    cases b
    exact ⟨congrArg Preimage.mk hbytes, hrest⟩

instance : FramedHex HexDigest where
  fromhex_append_inj := by
    intro a b xs ys h
    have hlength : (fromhex a).length = (fromhex b).length := by
      show (pairBytes a.text.toList).length = (pairBytes b.text.toList).length
      rw [length_pairBytes, length_pairBytes, a.length_text, b.length_text]
    obtain ⟨hbytes, hrest⟩ := List.append_inj h hlength
    exact ⟨(fromhex_append (congrArg (· ++ fromhex a) hbytes)).1, hrest⟩

variable {D : Type} [Hashing D]

/-! ## Payloads -/

section Payloads

variable (hinj : Function.Injective (sha256 : Bytes → D))
include hinj

theorem caseHash_inj {tag : Char} {xs ys : Bytes} (h : caseHash (D := D) tag xs = caseHash tag ys) :
    xs = ys :=
  List.append_cancel_left (hinj h)

theorem caseHash_ne {xs ys : Bytes} : caseHash (D := D) 'R' xs ≠ caseHash 'G' ys := by
  intro h
  have hbytes := hinj h
  rw [List.append_assoc, List.append_assoc] at hbytes
  have htail := List.append_cancel_left hbytes
  have htag : Utf8.encode ['R'] = [82] ∧ Utf8.encode ['G'] = [71] := by decide
  rw [htag.1, htag.2] at htail
  simp at htail

/-- A receipt's digest is no genesis. -/
theorem caseReceiptDigest_ne_genesis (sequence : ℕ) (previous authorityDigest : D)
    (record : CaseRecord D) :
    caseReceiptDigest sequence previous record ≠ caseGenesis authorityDigest := caseHash_ne hinj

variable [FramedHex D]

theorem caseGenesis_inj {a b : D} (h : caseGenesis a = caseGenesis b) : a = b := by
  have hbytes := caseHash_inj hinj h
  exact (FramedHex.fromhex_append_inj (congrArg (· ++ []) hbytes)).1

variable [DecidableEq D]

/-- **A receipt's digest determines its predecessor and its record.** -/
theorem caseReceiptDigest_inj {i j : ℕ} {p q : D} {r s : CaseRecord D}
    (h : caseReceiptDigest i p r = caseReceiptDigest j q s) : p = q ∧ r = s := by
  have hbytes := caseHash_inj hinj h
  rw [List.append_assoc, List.append_assoc] at hbytes
  have hwidth : (fourBytes i).length = (fourBytes j).length := rfl
  obtain ⟨hprevious, hrecord⟩ := FramedHex.fromhex_append_inj (List.append_inj hbytes hwidth).2
  have hdocument : r.toDict = s.toDict :=
    canonicalBytes_inj r.readable_toDict s.readable_toDict hrecord
  have hread := r.fromDict_toDict
  rw [hdocument, CaseRecord.fromDict_toDict] at hread
  exact ⟨hprevious, (Except.ok.inj hread).symm⟩

end Payloads

/-! ## Chains from their last receipt -/

/-- The digest that a chain ends in. -/
def caseDigestAfter (previous : D) (rs : List (CaseReceipt D)) : D :=
  (rs.getLast?.map (·.digest)).getD previous

theorem caseDigestAfter_concat (previous : D) (rs : List (CaseReceipt D)) (r : CaseReceipt D) :
    caseDigestAfter previous (rs ++ [r]) = r.digest := by
  rw [caseDigestAfter, List.getLast?_concat]
  rfl

theorem caseDigestAfter_cons (previous : D) (r : CaseReceipt D) (rs : List (CaseReceipt D)) :
    caseDigestAfter previous (r :: rs) = caseDigestAfter r.digest rs := by
  rcases List.eq_nil_or_concat' rs with rfl | ⟨rs, s, rfl⟩
  · rfl
  · rw [← List.cons_append, caseDigestAfter_concat, caseDigestAfter_concat]

/-- What a chain says of its last receipt. -/
theorem linkedCase_concat {rs : List (CaseReceipt D)} {r : CaseReceipt D} : ∀ {n : ℕ} {previous : D},
    LinkedCase n previous (rs ++ [r]) → LinkedCase n previous rs ∧
      r.sequence = n + rs.length ∧ r.previousDigest = caseDigestAfter previous rs := by
  induction rs with
  | nil =>
    intro n previous h
    exact ⟨trivial, h.1.1, h.1.2⟩
  | cons s rs ih =>
    intro n previous h
    obtain ⟨hrs, hsequence, hprevious⟩ := ih h.2
    refine ⟨⟨h.1, hrs⟩, ?_, ?_⟩
    · rw [hsequence, List.length_cons]
      omega
    · rw [hprevious, caseDigestAfter_cons]

/-- **Two chains with one head are one chain**, whatever their lengths and authorities. -/
theorem linkedCase_inj [DecidableEq D] [FramedHex D] (hinj : Function.Injective (sha256 : Bytes → D))
    {a b : D} {rs : List (CaseReceipt D)} : ∀ {ss : List (CaseReceipt D)},
      LinkedCase 0 (caseGenesis a) rs → LinkedCase 0 (caseGenesis b) ss →
        caseDigestAfter (caseGenesis a) rs = caseDigestAfter (caseGenesis b) ss → a = b ∧ rs = ss := by
  induction rs using List.reverseRecOn with
  | nil =>
    intro ss _ hss h
    rcases List.eq_nil_or_concat' ss with rfl | ⟨ss, s, rfl⟩
    · exact ⟨caseGenesis_inj hinj h, rfl⟩
    · rw [caseDigestAfter_concat, s.digest_eq] at h
      exact absurd h.symm (caseReceiptDigest_ne_genesis hinj _ _ _ _)
  | append_singleton rs r ih =>
    intro ss hrs hss h
    rcases List.eq_nil_or_concat' ss with rfl | ⟨ss, s, rfl⟩
    · rw [caseDigestAfter_concat, r.digest_eq] at h
      exact absurd h (caseReceiptDigest_ne_genesis hinj _ _ _ _)
    · obtain ⟨hrs, hrsequence, hrprevious⟩ := linkedCase_concat hrs
      obtain ⟨hss, hssequence, hsprevious⟩ := linkedCase_concat hss
      rw [caseDigestAfter_concat, caseDigestAfter_concat] at h
      have hdigest := h
      rw [r.digest_eq, s.digest_eq] at hdigest
      obtain ⟨hprevious, hrecord⟩ := caseReceiptDigest_inj hinj hdigest
      obtain ⟨hauthority, rfl⟩ := ih hrs hss (hrprevious.symm.trans (hprevious.trans hsprevious))
      have hreceipt : r = s :=
        CaseReceipt.ext_fields (hrsequence.trans hssequence.symm) hprevious hrecord
      exact ⟨hauthority, by rw [hreceipt]⟩

/-! ## Journals -/

namespace CaseJournal

/-- **Tamper evidence.** A head digest commits to the authority and to every receipt; so it is not
the head of a shorter journal or of another authority's. -/
theorem head_binds [DecidableEq D] [FramedHex D] (hinj : Function.Injective (sha256 : Bytes → D)) :
    (∀ j k : CaseJournal D, j.headDigest = k.headDigest →
      j.authorityDigest = k.authorityDigest ∧ j.receipts = k.receipts) ∧
    (∀ j k : CaseJournal D, k.receipts <+: j.receipts → k.receipts ≠ j.receipts →
      k.headDigest ≠ j.headDigest) ∧
    ∀ j k : CaseJournal D, j.authorityDigest ≠ k.authorityDigest → j.headDigest ≠ k.headDigest := by
  have hbinds : ∀ j k : CaseJournal D, j.headDigest = k.headDigest →
      j.authorityDigest = k.authorityDigest ∧ j.receipts = k.receipts := fun j k h =>
    linkedCase_inj hinj j.linked k.linked h
  refine ⟨hbinds, ?_, ?_⟩
  · intro j k _ hne h
    exact hne (hbinds k j h).2
  · intro j k hne h
    exact hne (hbinds j k h).1

/-- A journal without records. -/
def empty (authorityDigest : Preimage)
    (h : (canonicalBytes (Json.dict (caseJournalItems authorityDigest []))).length ≤ maxCaseWireBytes) :
    CaseJournal Preimage :=
  ⟨authorityDigest, [], Nat.zero_le _, trivial, h⟩

/-- The empty journals of two authorities. -/
theorem head_binds_empty : ∃ j k : CaseJournal Preimage, j.headDigest ≠ k.headDigest :=
  ⟨empty ⟨[0]⟩ (by decide +kernel), empty ⟨[1]⟩ (by decide +kernel),
    (head_binds Preimage.sha256_injective).2.2 _ _ (by decide)⟩

end CaseJournal

end EvidenceBraid
