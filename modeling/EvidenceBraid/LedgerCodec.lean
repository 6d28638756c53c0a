import EvidenceBraid.LedgerChain

/-!
# Ledgers and their documents

`EvidenceLedger.to_dict` and `from_dict`. A verified ledger survives its document
(`fromDict_toDict`), and a document that is read as a ledger is the ledger's own
(`eq_toDict_of_fromDict`).
-/

namespace EvidenceBraid

open Hashing
open Json (WellKeyed)

variable {D : Type} [Hashing D]

/-! ## Receipts -/

namespace LedgerEntry

/-- A document that is read as a receipt is the receipt's own. -/
theorem eq_toDict_of_fromDict {value : Json} {e : LedgerEntry D} (hvalue : WellKeyed value)
    (h : fromDict value = .ok e) : value = e.toDict := by
  simp only [fromDict, bind_eq_ok, exactly_eq_ok, orError_eq_ok, valid_eq_ok, hashField_eq_ok,
    exists_unit] at h
  obtain ⟨data, ⟨rfl, hkeys⟩, n, hn, event, -, hcanon, hid, h⟩ := h
  obtain ⟨prev, hprev, digest, hdigest, frozen, hfrozen, h⟩ := h
  rw [Except.ok.injEq] at h
  subst h
  obtain ⟨hsorted, hmembers⟩ := Json.wellKeyed_obj.mp hvalue
  have hnodup : (Json.keys data).Nodup := Json.nodup_of_sorted hsorted
  obtain ⟨raw, hraw⟩ : ∃ raw, Json.get? data "event" = some raw :=
    Option.isSome_iff_exists.mp (Json.mem_keys_iff.mp ((hkeys "event").mpr (by decide)))
  have hevent : raw = .obj frozen.members := by
    rw [hraw, Option.getD_some] at hcanon
    rw [FrozenMapping.ofKeyed_eq_ok hfrozen]
    exact canonicalJson_inj (hmembers ("event", raw) ((Json.mem_iff_get? hnodup).mpr hraw))
      event.wellKeyed_toDict hcanon
  have hsequence : Json.get? data "sequence" = some (.int n) := by
    unfold sequence? at hn
    split at hn
    · next m hm =>
      split_ifs at hn with hrange
      rw [Option.some.injEq] at hn
      rw [hm, ← hn, Int.toNat_of_nonneg hrange.1]
    · cases hn
  refine Json.obj_eq_dict hsorted ?_ ?_ ?_
  · simp only [Json.keys, List.map_cons, List.map_nil]
    decide
  · intro k hk
    refine (List.Perm.mem_iff ?_).mp ((hkeys k).mp hk)
    simp only [Json.keys, List.map_cons, List.map_nil]
    decide
  · simp [hsequence, hid, hraw, hevent, hprev, hdigest]

end LedgerEntry

/-! ## Arrays -/

section Items

variable {α : Type} {decode : Json → Result α} {encode : α → Json}

/-- `[decode(item) for item in items]`. -/
def decodeItems (decode : Json → Result α) : List Json → Result (List α)
  | [] => .ok []
  | value :: values => do
    let a ← decode value
    let rest ← decodeItems decode values
    .ok (a :: rest)

theorem decodeItems_map {as : List α} (h : ∀ a ∈ as, decode (encode a) = .ok a) :
    decodeItems decode (as.map encode) = .ok as := by
  induction as with
  | nil => rfl
  | cons a as ih =>
    simp only [List.map_cons, decodeItems, h a (by simp), bind_eq_ok, Except.ok.injEq]
    exact ⟨a, rfl, as, ih fun b hb => h b (by simp [hb]), rfl⟩

/-- Documents that are read as these values are the values' own. -/
theorem eq_map_of_decodeItems (h : ∀ {v a}, WellKeyed v → decode v = .ok a → v = encode a)
    {values : List Json} : ∀ {as : List α}, (∀ v ∈ values, WellKeyed v) →
      decodeItems decode values = .ok as → values = as.map encode := by
  induction values with
  | nil =>
    intro as _ hok
    rw [← Except.ok.inj hok]
    rfl
  | cons value values ih =>
    intro as hkeyed hok
    simp only [decodeItems, bind_eq_ok, Except.ok.injEq] at hok
    obtain ⟨a, ha, rest, hrest, rfl⟩ := hok
    rw [List.map_cons, h (hkeyed value (by simp)) ha, ih (fun v hv => hkeyed v (by simp [hv])) hrest]

end Items

/-! ## Ledgers -/

variable [DecidableEq D]

namespace EvidenceLedger

def fields : List String :=
  ["entries", "entry_count", "genesis", "head_digest", "kind", "schema_version", "verified"]

def items (l : EvidenceLedger D) : List (String × Json) :=
  [("schema_version", .str l.schemaVersion), ("kind", .str "evidence-braid-ledger"),
    ("genesis", .str (hex l.genesis)), ("head_digest", .str (hex l.headDigest)),
    ("entry_count", .int l.entries.length), ("entries", .arr (l.entries.map LedgerEntry.toDict)),
    ("verified", .bool l.verify)]

/-- `to_dict`. -/
def toDict (l : EvidenceLedger D) : Json := Json.dict l.items

/-- A version's text, if the version is supported. -/
def version? (value : Option Json) : Option String :=
  match value with
  | some (.str s) => if (versions? s : Option D).isSome then some s else none
  | _ => none

/-- The array of receipts, if it is within the ledger's limit. -/
def entries? (value : Option Json) : Option (List Json) :=
  match value with
  | some (.arr xs) => if xs.length ≤ maxLedgerEntries then some xs else none
  | _ => none

/-- `from_dict`. A genesis that is no digest fails `verify`. -/
def fromDict (value : Json) (expectedHead : Option D) : Result (EvidenceLedger D) := do
  let data ← exactly value fields "ledger"
  let version ← orError (version? (D := D) (Json.get? data "schema_version"))
    (.validation "unsupported ledger kind or schema_version")
  valid (Json.get? data "kind" = some (.str "evidence-braid-ledger"))
    "unsupported ledger kind or schema_version"
  let documents ← orError (entries? (Json.get? data "entries"))
    (.validation "ledger.entries must be an array within ledger limits")
  valid (Json.get? data "entry_count" = some (.int documents.length))
    "ledger.entry_count does not match entries"
  let entries ← decodeItems LedgerEntry.fromDict documents
  let genesis ← orError (hashField (Json.get? data "genesis") "genesis").toOption
    (.validation "ledger integrity verification failed")
  let ledger : EvidenceLedger D := ⟨entries, genesis, version⟩
  valid (Json.get? data "verified" = some (.bool true) ∧
    Json.get? data "head_digest" = some (.str (hex ledger.headDigest)) ∧
    ledger.verify = true ∧ ∀ head ∈ expectedHead, ledger.headDigest = head)
    "ledger integrity verification failed"
  .ok ledger

theorem nodup_keys_items (l : EvidenceLedger D) : (Json.keys l.items).Nodup := by
  simp only [items, Json.keys, List.map_cons, List.map_nil]
  decide

theorem mem_keys_items (l : EvidenceLedger D) (k : String) :
    k ∈ Json.keys l.items ↔ k ∈ fields := by
  refine List.Perm.mem_iff ?_
  simp only [items, Json.keys, List.map_cons, List.map_nil]
  decide

theorem wellKeyed_toDict (l : EvidenceLedger D) : WellKeyed l.toDict := by
  refine Json.wellKeyed_dict ?_
  intro kv hkv
  simp only [items, List.mem_cons, List.not_mem_nil, or_false] at hkv
  rcases hkv with rfl | rfl | rfl | rfl | rfl | rfl | rfl
  on_goal 6 =>
    refine Json.wellKeyed_arr.mpr fun x hx => ?_
    obtain ⟨e, -, rfl⟩ := List.mem_map.mp hx
    exact e.wellKeyed_toDict
  all_goals simp

theorem decodes_of_verify {l : EvidenceLedger D} (h : l.verify = true) :
    ∀ e ∈ l.entries, LedgerEntry.fromDict e.toDict = .ok e := by
  intro e he
  obtain ⟨i, hi, rfl⟩ := List.mem_iff_getElem.mp he
  obtain ⟨-, -, hlinks⟩ := verify_eq_true.mp h
  obtain ⟨prev, hlink⟩ := link_of_verifyLinks hlinks i hi
  exact hlink.decodes

/-- **A verified ledger survives its document.** -/
theorem fromDict_toDict {l : EvidenceLedger D} (h : l.verify = true) {expectedHead : Option D}
    (hhead : ∀ head ∈ expectedHead, l.headDigest = head) :
    fromDict l.toDict expectedHead = .ok l := by
  obtain ⟨hversion, hlength, -⟩ := verify_eq_true.mp h
  have hget := Json.get?_foldr_insertKey l.nodup_keys_items
  simp only [fromDict, bind_eq_ok]
  refine ⟨_, exactly_dict l.nodup_keys_items l.mem_keys_items, l.schemaVersion, ?_, (), ?_,
    l.entries.map LedgerEntry.toDict, ?_, (), ?_, l.entries,
    decodeItems_map (decodes_of_verify h), l.genesis, ?_, (), ?_, rfl⟩
  all_goals simp only [hget]
  · exact orError_eq_ok.mpr (by simp [items, Json.get?, version?, hversion])
  · exact valid_of rfl
  · refine orError_eq_ok.mpr ?_
    change entries? (some (.arr (l.entries.map LedgerEntry.toDict))) = _
    simp [entries?, hlength]
  · exact valid_of (by rw [List.length_map]; rfl)
  · refine orError_eq_ok.mpr (toOption_eq_some.mpr (hashField_eq_ok.mpr rfl))
  · refine valid_of ⟨?_, rfl, h, hhead⟩
    rw [← h]
    rfl

/-- **A document that is read as a ledger is a verified ledger's own.** -/
theorem eq_toDict_of_fromDict {value : Json} {l : EvidenceLedger D} {expectedHead : Option D}
    (hvalue : WellKeyed value) (h : fromDict value expectedHead = .ok l) :
    value = l.toDict ∧ l.verify = true ∧ ∀ head ∈ expectedHead, l.headDigest = head := by
  simp only [fromDict, bind_eq_ok, exactly_eq_ok, orError_eq_ok, valid_eq_ok, toOption_eq_some,
    hashField_eq_ok, exists_unit] at h
  obtain ⟨data, ⟨rfl, hkeys⟩, version, hversion, hkind, documents, hdocuments, h⟩ := h
  obtain ⟨hcount, entries, hentries, genesis, hgenesis,
    ⟨hverified, hhead, hverify, hexpected⟩, h⟩ := h
  rw [Except.ok.injEq] at h
  subst h
  obtain ⟨hsorted, hmembers⟩ := Json.wellKeyed_obj.mp hvalue
  have hversion' : Json.get? data "schema_version" = some (.str version) := by
    unfold version? at hversion
    split at hversion
    · next s hs =>
      split_ifs at hversion
      rw [hs, ← Option.some.inj hversion]
    · cases hversion
  have hentries' : Json.get? data "entries" = some (.arr documents) := by
    unfold entries? at hdocuments
    split at hdocuments
    · next xs hxs =>
      split_ifs at hdocuments
      rw [hxs, ← Option.some.inj hdocuments]
    · cases hdocuments
  have hkeyed : WellKeyed (.arr documents) :=
    hmembers ("entries", .arr documents)
      ((Json.mem_iff_get? (Json.nodup_of_sorted hsorted)).mpr hentries')
  have hmap := eq_map_of_decodeItems LedgerEntry.eq_toDict_of_fromDict
    (Json.wellKeyed_arr.mp hkeyed) hentries
  refine ⟨Json.obj_eq_dict hsorted (nodup_keys_items _)
    (fun k hk => (mem_keys_items _ k).mpr ((hkeys k).mp hk)) ?_, hverify, hexpected⟩
  simp [items, hversion', hkind, hgenesis, hhead, hcount, hentries', hmap, hverified, hverify]

end EvidenceLedger

end EvidenceBraid
