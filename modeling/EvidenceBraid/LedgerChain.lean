import EvidenceBraid.EventCodec

/-!
# A head commits to its whole ledger

Under an injective hash the digests of a verified chain separate: a genesis digest is not a
link's, the links of the two versions differ, and a link determines its predecessor and its event
(`linkPayload_inj`). Unwinding two chains from a common head, link by link from the last one,
shows that they are the same ledger (`headDigest_inj`).
-/

namespace EvidenceBraid

open Hashing

variable {D : Type} [Hashing D]

/-! ## Payloads -/

/-- The bytes that a link's digest hashes. -/
def linkPayload (previous : D) (event : EvidenceEvent) (sequence : ℕ) (version : String) : Bytes :=
  if version = "1.0" then
    Utf8.encode ((hex previous).toList ++ '\n' :: canonicalJson event.toDict false)
  else
    canonicalBytes (Json.dict [("schema_version", .str version),
      ("sequence", .int sequence), ("previous_digest", .str (hex previous)),
      ("event", event.toDict)])

theorem chainDigest_eq (previous : D) (event : EvidenceEvent) (sequence : ℕ) (version : String) :
    chainDigest previous event sequence version =
      sha256 (linkPayload previous event sequence version) := by
  unfold chainDigest linkPayload
  split_ifs <;> rfl

theorem newline_notMem_canonicalJson (value : Json) : '\n' ∉ canonicalJson value false := by
  intro h
  have hprintable := Json.printable_dumps value '\n' h
  exact absurd hprintable (by decide)

/-- A text is cut at its last line break in one way only. -/
theorem append_newline_inj {as bs cs ds : List Char} (hc : '\n' ∉ cs) (hd : '\n' ∉ ds)
    (h : as ++ '\n' :: cs = bs ++ '\n' :: ds) : as = bs ∧ cs = ds := by
  have key {as bs cs ds es : List Char} (hc : '\n' ∉ cs) (hb : bs = as ++ es)
      (htail : '\n' :: cs = es ++ '\n' :: ds) : as = bs ∧ cs = ds := by
    cases es with
    | nil =>
      rw [List.nil_append, List.cons.injEq] at htail
      exact ⟨by rw [hb, List.append_nil], htail.2⟩
    | cons e es =>
      rw [List.cons_append, List.cons.injEq] at htail
      exact absurd (by rw [htail.2]; simp) hc
  rcases List.append_eq_append_iff.mp h with ⟨es, hb, htail⟩ | ⟨es, ha, htail⟩
  · exact key hc hb htail
  · obtain ⟨hab, hcd⟩ := key hd ha htail
    exact ⟨hab.symm, hcd.symm⟩

/-- The document that a link of version 2 hashes. -/
def linkDocument (previous : D) (event : EvidenceEvent) (sequence : ℕ) (version : String) : Json :=
  .obj [("event", event.toDict), ("previous_digest", .str (hex previous)),
    ("schema_version", .str version), ("sequence", .int sequence)]

theorem linkPayload_one (previous : D) (event : EvidenceEvent) (sequence : ℕ) :
    linkPayload previous event sequence "1.0" =
      Utf8.encode ((hex previous).toList ++ '\n' :: canonicalJson event.toDict false) := if_pos rfl

theorem linkPayload_two (previous : D) (event : EvidenceEvent) (sequence : ℕ) :
    linkPayload previous event sequence "2.0" =
      canonicalBytes (linkDocument previous event sequence "2.0") := by
  rw [linkPayload, if_neg (by decide)]
  simp +decide only [linkDocument, Json.dict, List.foldr, Json.insertKey, if_true, if_false]

theorem wellKeyed_linkDocument (previous : D) (event : EvidenceEvent) (sequence : ℕ)
    (version : String) : Json.WellKeyed (linkDocument previous event sequence version) := by
  refine Json.wellKeyed_obj.mpr ⟨?_, by simp [event.wellKeyed_toDict]⟩
  have hkeys : ["event", "previous_digest", "schema_version", "sequence"].Pairwise (· < ·) := by decide
  exact hkeys

/-- The supported versions. -/
def Supported (version : String) : Prop := version = "1.0" ∨ version = "2.0"

/-- **A link's payload determines its version, its predecessor and its event.** -/
theorem linkPayload_inj {p q : D} {e f : EvidenceEvent} {i j : ℕ} {v w : String}
    (hv : Supported v) (hw : Supported w) (h : linkPayload p e i v = linkPayload q f j w) :
    v = w ∧ p = q ∧ e.toDict = f.toDict := by
  -- only the payload of version 1 has a line break
  have hmix (p q : D) (e f : EvidenceEvent) (i j : ℕ) :
      linkPayload p e i "1.0" ≠ linkPayload q f j "2.0" := by
    rw [linkPayload_one, linkPayload_two]
    intro h
    refine newline_notMem_canonicalJson (linkDocument q f j "2.0") ?_
    rw [← Utf8.encode_injective h]
    simp
  rcases hv with rfl | rfl <;> rcases hw with rfl | rfl
  · rw [linkPayload_one, linkPayload_one] at h
    obtain ⟨hprevious, hevent⟩ := append_newline_inj (newline_notMem_canonicalJson _)
      (newline_notMem_canonicalJson _) (Utf8.encode_injective h)
    exact ⟨rfl, hex_injective (String.toList_inj.mp hprevious),
      canonicalJson_inj e.wellKeyed_toDict f.wellKeyed_toDict hevent⟩
  · exact absurd h (hmix p q e f i j)
  · exact absurd h.symm (hmix q p f e j i)
  · rw [linkPayload_two, linkPayload_two] at h
    have hdoc := canonicalBytes_inj (wellKeyed_linkDocument _ _ _ _)
      (wellKeyed_linkDocument _ _ _ _) h
    simp only [linkDocument, Json.obj.injEq, List.cons.injEq, Prod.mk.injEq, Json.str.injEq,
      hex_inj, true_and] at hdoc
    exact ⟨rfl, hdoc.2.1, hdoc.1⟩

/-- The bytes that a genesis digest hashes. -/
def genesisPayload (version : String) : Bytes :=
  Utf8.encode (if version = "1.0" then "evidence-braid-ledger:v1" else
    "evidence-braid-ledger:v2").toList

theorem versions?_eq_some {version : String} {genesis : D} :
    versions? version = some genesis ↔
      Supported version ∧ genesis = sha256 (genesisPayload version) := by
  unfold versions? Supported genesisPayload
  split_ifs with h1 h2
  · simp [h1, @eq_comm _ genesis]
  · simp [h2, @eq_comm _ genesis]
  · simp [h1, h2]

theorem genesisPayload_inj {v w : String} (hv : Supported v) (hw : Supported w)
    (h : genesisPayload v = genesisPayload w) : v = w := by
  rcases hv with rfl | rfl <;> rcases hw with rfl | rfl <;>
    first | rfl | exact absurd h (by decide)

/-- A link hashes no genesis text. -/
theorem linkPayload_ne_genesis {p : D} {e : EvidenceEvent} {i : ℕ} {v w : String}
    (hv : Supported v) : linkPayload p e i v ≠ genesisPayload w := by
  have hgenesis : ∃ cs, genesisPayload w = Utf8.encode ('e' :: cs) ∧ '\n' ∉ 'e' :: cs := by
    unfold genesisPayload
    split_ifs <;> exact ⟨_, rfl, by decide⟩
  obtain ⟨cs, hcs, hline⟩ := hgenesis
  rw [hcs]
  intro h
  rcases hv with rfl | rfl
  · rw [linkPayload_one] at h
    exact hline (by rw [← Utf8.encode_injective h]; simp)
  · rw [linkPayload_two] at h
    have hchars := Utf8.encode_injective h
    simp [canonicalJson, linkDocument, Json.dumps] at hchars

/-! ## Chains from their last link -/

variable [DecidableEq D]

namespace EvidenceLedger

/-- What a verified chain says of its last link. -/
theorem verifyLinks_concat {version : String} {entry : LedgerEntry D}
    {entries : List (LedgerEntry D)} : ∀ {sequence : ℕ} {previous : D} {ids : List String} {head : D},
      verifyLinks version sequence previous ids (entries ++ [entry]) = some head →
        ∃ before, verifyLinks version sequence previous ids entries = some before ∧
          Link version (sequence + entries.length) before entry ∧ head = entry.digest := by
  induction entries with
  | nil =>
    intro sequence previous ids head h
    obtain ⟨hlink, -, hrest⟩ := verifyLinks_cons h
    exact ⟨previous, rfl, hlink, by simpa [verifyLinks] using hrest.symm⟩
  | cons first entries ih =>
    intro sequence previous ids head h
    obtain ⟨hlink, hid, hrest⟩ := verifyLinks_cons h
    obtain ⟨before, hbefore, hlast, hhead⟩ := ih hrest
    refine ⟨before, ?_, ?_, hhead⟩
    · rwa [verifyLinks_of_link hlink hid]
    · rw [List.length_cons, Nat.add_comm entries.length, ← Nat.add_assoc]
      exact hlast

/-- The digest that a verified chain ends with is its head. -/
theorem verifyLinks_headDigest {ledger : EvidenceLedger D} {head : D}
    (h : verifyLinks ledger.schemaVersion 0 ledger.genesis [] ledger.entries = some head) :
    head = ledger.headDigest := by
  obtain ⟨entries, genesis, version⟩ := ledger
  unfold headDigest
  rcases List.eq_nil_or_concat' entries with rfl | ⟨entries, entry, rfl⟩
  · simpa [verifyLinks] using h.symm
  · obtain ⟨-, -, -, hhead⟩ := verifyLinks_concat h
    simpa using hhead

theorem verify_eq_true {ledger : EvidenceLedger D} : ledger.verify = true ↔
    versions? ledger.schemaVersion = some ledger.genesis ∧
      ledger.entries.length ≤ maxLedgerEntries ∧
        verifyLinks ledger.schemaVersion 0 ledger.genesis [] ledger.entries =
          some ledger.headDigest := by
  simp only [verify, Bool.and_eq_true, decide_eq_true_eq, Option.isSome_iff_exists, and_assoc]
  refine and_congr_right fun _ => and_congr_right fun _ => ?_
  constructor
  · rintro ⟨head, hhead⟩
    rwa [← verifyLinks_headDigest hhead]
  · exact fun h => ⟨_, h⟩

omit [DecidableEq D] in
/-- A link's event is the one that its receipt holds. -/
theorem Link.event {version : String} {sequence : ℕ} {previous : D} {entry : LedgerEntry D}
    (h : Link version sequence previous entry) : ∃ event : EvidenceEvent,
      entry.event.members = event.members ∧ entry.eventId = event.eventId.value ∧
        entry.digest = sha256 (linkPayload previous event sequence version) := by
  obtain ⟨-, -, event, hread, hmembers, hid⟩ := LedgerEntry.fromDict_toDict h.decodes
  obtain ⟨event', hread', hdigest⟩ := h.hashed
  have hevent : event' = event := by
    rw [LedgerEntry.decoded, ← hmembers] at hread'
    have hself := event.fromDict_toDict "event"
    rw [EvidenceEvent.toDict, hread'] at hself
    exact Except.ok.inj hself
  exact ⟨event, hmembers.symm, hid, by rw [hdigest, hevent, chainDigest_eq]⟩

/-- **Two chains with one head are one chain**, whatever their lengths and versions. -/
theorem verifyLinks_inj (hinj : Function.Injective (sha256 : Bytes → D)) {v w : String} {g k : D}
    (hg : versions? v = some g) (hk : versions? w = some k) {as : List (LedgerEntry D)} :
    ∀ {bs : List (LedgerEntry D)} {head : D}, verifyLinks v 0 g [] as = some head →
      verifyLinks w 0 k [] bs = some head → v = w ∧ as = bs := by
  obtain ⟨hv, rfl⟩ := versions?_eq_some.mp hg
  obtain ⟨hw, rfl⟩ := versions?_eq_some.mp hk
  induction as using List.reverseRecOn with
  | nil =>
    intro bs head has hbs
    obtain rfl : sha256 (genesisPayload v) = head := by simpa [verifyLinks] using has
    rcases List.eq_nil_or_concat' bs with rfl | ⟨bs, b, rfl⟩
    · have hgenesis : (sha256 (genesisPayload w) : D) = sha256 (genesisPayload v) := by
        simpa [verifyLinks] using hbs
      exact ⟨genesisPayload_inj hv hw (hinj hgenesis.symm), rfl⟩
    · obtain ⟨before, -, hlink, hhead⟩ := verifyLinks_concat hbs
      obtain ⟨event, -, -, hdigest⟩ := hlink.event
      rw [hdigest] at hhead
      exact absurd (hinj hhead).symm (linkPayload_ne_genesis hw)
  | append_singleton as a ih =>
    intro bs head has hbs
    obtain ⟨before, hbefore, hlink, hhead⟩ := verifyLinks_concat has
    obtain ⟨event, hmembers, hid, hdigest⟩ := hlink.event
    rcases List.eq_nil_or_concat' bs with rfl | ⟨bs, b, rfl⟩
    · obtain rfl : sha256 (genesisPayload w) = head := by simpa [verifyLinks] using hbs
      rw [hdigest] at hhead
      exact absurd (hinj hhead).symm (linkPayload_ne_genesis hv)
    · obtain ⟨before', hbefore', hlink', hhead'⟩ := verifyLinks_concat hbs
      obtain ⟨event', hmembers', hid', hdigest'⟩ := hlink'.event
      have hdigests : a.digest = b.digest := hhead.symm.trans hhead'
      obtain ⟨rfl, rfl, hevents⟩ := linkPayload_inj hv hw
        (hinj (hdigest.symm.trans (hdigests.trans hdigest')))
      obtain ⟨-, rfl⟩ := ih hbefore hbefore'
      -- equal documents decode to one event, so the receipts agree field by field
      have heq : event = event' := by
        have hself := event.fromDict_toDict "event"
        rw [hevents, EvidenceEvent.fromDict_toDict] at hself
        exact (Except.ok.inj hself).symm
      have hsequence := hlink.sequence_eq.trans hlink'.sequence_eq.symm
      have hprevious := hlink.previous_eq.trans hlink'.previous_eq.symm
      subst heq
      have hframe : a.event = b.event :=
        FrozenMapping.ext_iff.mpr (hmembers.trans hmembers'.symm)
      have hids := hid.trans hid'.symm
      cases a
      cases b
      simp_all

/-- **Tamper evidence.** Two verified ledgers with one head digest have one version and the same
entries in the same order. -/
theorem headDigest_inj (hinj : Function.Injective (sha256 : Bytes → D)) (a b : EvidenceLedger D)
    (ha : a.verify = true) (hb : b.verify = true) (h : a.headDigest = b.headDigest) :
    a.schemaVersion = b.schemaVersion ∧ a.entries.length = b.entries.length ∧
      a.entries = b.entries ∧ a = b := by
  obtain ⟨hga, -, hla⟩ := verify_eq_true.mp ha
  obtain ⟨hgb, -, hlb⟩ := verify_eq_true.mp hb
  rw [← h] at hlb
  obtain ⟨hversion, hentries⟩ := verifyLinks_inj hinj hga hgb hla hlb
  have hgenesis : a.genesis = b.genesis := by
    rw [hversion, hgb] at hga
    exact (Option.some.inj hga).symm
  refine ⟨hversion, by rw [hentries], hentries, ?_⟩
  cases a
  cases b
  simp_all

theorem headDigest_inj_sample : ∃ a b : EvidenceLedger Preimage,
    a.verify = true ∧ b.verify = true ∧ a.entries ≠ [] ∧ a.entries = b.entries := by
  have hverify := (verify_buildLedger (buildLedger_sampleEvent Preimage)
    (by simp [decodes_sampleEvent])).1
  exact ⟨sampleLedger Preimage, sampleLedger Preimage, hverify, hverify, by simp [sampleLedger],
    (headDigest_inj Preimage.sha256_injective (sampleLedger Preimage) (sampleLedger Preimage)
      hverify hverify rfl).2.2.1⟩

end EvidenceLedger

end EvidenceBraid
