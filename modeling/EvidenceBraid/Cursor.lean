import EvidenceBraid.EventCodec
import EvidenceBraid.Selection

/-!
# Cursors name their snapshot

**Theorem (`LedgerSelection.history_bound`).** The index of a prefix is the same whether it is
taken from the ledger it was or from an extension, so appends move no position, page or cursor; and
a selection accepts exactly the cursors it can issue, so a cursor of another head, length, version
or query is rejected.

A cursor is the base64 text of a document. The encoder is inverted by the lenient decoder
(`unbase64_base64`), and `resume` compares what it decoded with the cursor it would write itself,
so leniency buys nothing (`resume_eq_ok`).
-/

namespace EvidenceBraid

open Hashing

/-! ## Base64 -/

namespace LedgerSelection

theorem base64Val_base64Char : ∀ n < 64, base64Val (base64Char n) = some n := by decide

theorem base64Char_ascii : ∀ n < 64, (base64Char n).toNat < 128 := by decide

/-- Three bytes are four characters. -/
theorem base64_triple (a b c : UInt8) (rest : Bytes) : ∃ w x y z,
    w < 64 ∧ x < 64 ∧ y < 64 ∧ z < 64 ∧
    (w * 64 + x) * 4096 + y * 64 + z = (a.toNat * 256 + b.toNat) * 256 + c.toNat ∧
    base64 (a :: b :: c :: rest) =
      base64Char w :: base64Char x :: base64Char y :: base64Char z :: base64 rest := by
  have ha := a.toNat_lt
  have hb := b.toNat_lt
  have hc := c.toNat_lt
  refine ⟨((a.toNat * 256 + b.toNat) * 256 + c.toNat) / 262144,
    ((a.toNat * 256 + b.toNat) * 256 + c.toNat) / 4096 % 64,
    ((a.toNat * 256 + b.toNat) * 256 + c.toNat) / 64 % 64,
    ((a.toNat * 256 + b.toNat) * 256 + c.toNat) % 64, by omega, Nat.mod_lt _ (by decide),
    Nat.mod_lt _ (by decide), Nat.mod_lt _ (by decide), by omega, by rw [base64]⟩

/-- **The decoder reads the encoder's text back.** -/
theorem unbase64_base64 : ∀ bs : Bytes, unbase64 (base64 bs) = some bs
  | a :: b :: c :: rest => by
    obtain ⟨w, x, y, z, hw, hx, hy, hz, hsum, htext⟩ := base64_triple a b c rest
    have ha := a.toNat_lt
    have hb := b.toNat_lt
    have hc := c.toNat_lt
    rw [htext, unbase64]
    simp only [base64Val_base64Char, hw, hx, hy, hz, unbase64_base64 rest, Option.bind_eq_bind,
      Option.bind_some, hsum]
    rw [show ((a.toNat * 256 + b.toNat) * 256 + c.toNat) / 65536 = a.toNat by omega,
      show ((a.toNat * 256 + b.toNat) * 256 + c.toNat) / 256 % 256 = b.toNat by omega,
      show ((a.toNat * 256 + b.toNat) * 256 + c.toNat) % 256 = c.toNat by omega]
    simp
  | [a, b] => by
    have ha := a.toNat_lt
    have hb := b.toNat_lt
    rw [base64, unbase64]
    simp only [base64Val_base64Char _ (show (a.toNat * 256 + b.toNat) * 4 / 4096 < 64 by omega),
      base64Val_base64Char _ (Nat.mod_lt _ (by decide : 64 > 0)), Option.bind_eq_bind,
      Option.bind_some]
    rw [show (((a.toNat * 256 + b.toNat) * 4 / 4096 * 64 + (a.toNat * 256 + b.toNat) * 4 / 64 % 64) *
        64 + (a.toNat * 256 + b.toNat) * 4 % 64) / 1024 = a.toNat by omega,
      show (((a.toNat * 256 + b.toNat) * 4 / 4096 * 64 + (a.toNat * 256 + b.toNat) * 4 / 64 % 64) *
        64 + (a.toNat * 256 + b.toNat) * 4 % 64) / 4 % 256 = b.toNat by omega]
    simp
  | [a] => by
    have ha := a.toNat_lt
    rw [base64, unbase64]
    simp only [base64Val_base64Char _ (show a.toNat * 16 / 64 < 64 by omega),
      base64Val_base64Char _ (Nat.mod_lt _ (by decide : 64 > 0)), Option.bind_eq_bind,
      Option.bind_some]
    rw [show (a.toNat * 16 / 64 * 64 + a.toNat * 16 % 64) / 16 = a.toNat by omega]
    simp
  | [] => rfl

theorem base64_injective : Function.Injective base64 := by
  intro a b h
  have ha := unbase64_base64 a
  rw [h, unbase64_base64] at ha
  exact (Option.some.inj ha).symm

theorem length_base64 : ∀ bs : Bytes, (base64 bs).length = (bs.length * 4 + 2) / 3
  | a :: b :: c :: rest => by
    simp only [base64, List.length_cons, length_base64 rest]
    omega
  | [_, _] => by simp [base64]
  | [_] => by simp [base64]
  | [] => rfl

theorem base64_ascii : ∀ (bs : Bytes), ∀ c ∈ base64 bs, c.toNat < 128
  | a :: b :: c :: rest => by
    obtain ⟨w, x, y, z, hw, hx, hy, hz, -, htext⟩ := base64_triple a b c rest
    rw [htext]
    simp only [List.forall_mem_cons]
    exact ⟨base64Char_ascii _ hw, base64Char_ascii _ hx, base64Char_ascii _ hy,
      base64Char_ascii _ hz, base64_ascii rest⟩
  | [a, b] => by
    have ha := a.toNat_lt
    have hb := b.toNat_lt
    simp only [base64, List.forall_mem_cons, List.not_mem_nil, false_implies, implies_true, and_true]
    exact ⟨base64Char_ascii _ (by omega), base64Char_ascii _ (Nat.mod_lt _ (by decide)),
      base64Char_ascii _ (Nat.mod_lt _ (by decide))⟩
  | [a] => by
    have ha := a.toNat_lt
    simp only [base64, List.forall_mem_cons, List.not_mem_nil, false_implies, implies_true, and_true]
    exact ⟨base64Char_ascii _ (by omega), base64Char_ascii _ (Nat.mod_lt _ (by decide))⟩
  | [] => by simp [base64]

end LedgerSelection

/-! ## The identity of a query -/

/-- Instants differ in their text. -/
theorem formatTimestamp_injective : Function.Injective formatTimestamp := by
  intro a b h
  have ha := parseTimestamp_formatTimestamp a ""
  rw [h, parseTimestamp_formatTimestamp] at ha
  exact (Except.ok.inj ha).symm

namespace LedgerQuery

/-- The document that a query's identity hashes. -/
def document (q : LedgerQuery) : Json := Json.dict (("query_version", .str "1.0") :: q.items)

theorem nodup_keys_document (q : LedgerQuery) :
    (Json.keys (("query_version", .str "1.0") :: q.items)).Nodup := by
  simp only [items, Json.keys, List.map_cons, List.map_nil]
  decide

theorem wellKeyed_document (q : LedgerQuery) : Json.WellKeyed q.document := by
  have hinstant (t : Option Datetime) :
      Json.WellKeyed ((t.map fun t => Json.str (formatTimestamp t)).getD .null) := by
    cases t <;> simp
  refine Json.wellKeyed_dict ?_
  simp only [items, List.forall_mem_cons, List.not_mem_nil, false_implies, implies_true, and_true,
    Json.wellKeyed_str, hinstant, true_and]
  simp

/-- A query is determined by its document. -/
theorem document_injective : Function.Injective document := by
  intro p q h
  have hget (k : String) : Json.get? (("query_version", .str "1.0") :: p.items) k =
      Json.get? (("query_version", .str "1.0") :: q.items) k := by
    rw [← Json.get?_foldr_insertKey p.nodup_keys_document,
      ← Json.get?_foldr_insertKey q.nodup_keys_document]
    exact congrArg (Json.get? · k) (Json.obj.inj h)
  have htexts {α : Type} {text : α → String} (htext : Function.Injective text) {as bs : List α}
      (hjson : some (Json.arr (as.map fun a => .str (text a))) =
        some (Json.arr (bs.map fun b => .str (text b)))) : as = bs := by
    refine List.map_injective_iff.mpr ?_ (Json.arr.inj (Option.some.inj hjson))
    exact fun a b hab => htext (Json.str.inj hab)
  have hinstant {s t : Option Datetime}
      (hjson : some ((s.map fun t => Json.str (formatTimestamp t)).getD .null) =
        some ((t.map fun t => Json.str (formatTimestamp t)).getD .null)) : s = t := by
    cases s <;> cases t <;> simp_all [formatTimestamp_injective.eq_iff]
  cases p
  cases q
  rw [LedgerQuery.mk.injEq]
  exact ⟨htexts value_injective (hget "event_ids"), htexts value_injective (hget "claims"),
    htexts value_injective (hget "sources"), htexts Modality.value_injective (hget "modalities"),
    htexts Signal.value_injective (hget "signals"),
    htexts value_injective (hget "correlation_groups"), hinstant (hget "observed_start"),
    hinstant (hget "observed_end"), hinstant (hget "ingested_start"),
    hinstant (hget "ingested_end")⟩

end LedgerQuery

/-! ## Cursors -/

variable {D : Type} [Hashing D] [DecidableEq D]

theorem EvidenceLedger.version_of_verify {l : EvidenceLedger D} (h : l.verify = true) :
    (l.schemaVersion = "1.0" ∨ l.schemaVersion = "2.0") ∧ l.entries.length ≤ maxLedgerEntries := by
  simp only [verify, Bool.and_eq_true, decide_eq_true_eq] at h
  obtain ⟨⟨hversion, hlength⟩, -⟩ := h
  refine ⟨?_, hlength⟩
  unfold versions? at hversion
  split_ifs at hversion with h1 h2
  · exact .inl h1
  · exact .inr h2

namespace LedgerSelection

variable (s : LedgerSelection D)

/-- The items of a cursor's document. -/
def cursorItems (next : ℕ) : List (String × Json) :=
  [("kind", .str "evidence-braid-ledger-cursor"), ("schema_version", .str "1.0"),
    ("ledger_version", .str s.index.ledger.schemaVersion),
    ("head", .str (hex s.index.ledger.headDigest)), ("entries", .int s.index.ledger.entries.length),
    ("query", .str (hex (s.query.identity : D))), ("next_sequence", .int next)]

theorem cursor_eq (next : ℕ) :
    s.cursor next = base64 (canonicalBytes (Json.dict (s.cursorItems next))) := rfl

theorem nodup_keys_cursorItems (next : ℕ) : (Json.keys (s.cursorItems next)).Nodup := by
  simp only [cursorItems, Json.keys, List.map_cons, List.map_nil]
  decide

theorem wellKeyed_cursor (next : ℕ) : Json.WellKeyed (Json.dict (s.cursorItems next)) := by
  refine Json.wellKeyed_dict ?_
  simp [cursorItems]

theorem get?_cursor (next : ℕ) (k : String) :
    Json.get? ((s.cursorItems next).foldr Json.insertKey []) k =
      Json.get? (s.cursorItems next) k :=
  Json.get?_foldr_insertKey (s.nodup_keys_cursorItems next) k

/-- A cursor stays far below the limit on tokens. -/
theorem length_cursor_le [WideHex D] {next : ℕ} (hnext : next ≤ s.index.ledger.entries.length) :
    (s.cursor next).length ≤ maxToken := by
  obtain ⟨hversion, hlength⟩ := EvidenceLedger.version_of_verify s.index.verified
  have hmax : maxLedgerEntries < 10 ^ 6 := by decide
  have hentries := Json.size_nat_le (by decide : 0 < 6) (hlength.trans_lt hmax)
  have hsequence := Json.size_nat_le (by decide : 0 < 6) ((hnext.trans hlength).trans_lt hmax)
  have hschema : Json.quotedSize s.index.ledger.schemaVersion = 5 := by
    rcases hversion with h | h <;> rw [h] <;> decide
  have hkeys : Json.quotedSize "kind" = 6 ∧ Json.quotedSize "schema_version" = 16 ∧
      Json.quotedSize "ledger_version" = 16 ∧ Json.quotedSize "head" = 6 ∧
      Json.quotedSize "entries" = 9 ∧ Json.quotedSize "query" = 7 ∧
      Json.quotedSize "next_sequence" = 15 ∧ Json.quotedSize "1.0" = 5 ∧
      Json.quotedSize "evidence-braid-ledger-cursor" = 30 := by
    and_intros <;> exact Json.quotedSize_literal rfl
  have hsize := Json.size_dict (s.nodup_keys_cursorItems next) (by simp [cursorItems])
  simp only [cursorItems, List.map_cons, List.map_nil, List.sum_cons, List.sum_nil, Json.size_str,
    quotedSize_hex, hkeys] at hsize
  clear hkeys
  rw [cursor_eq, length_base64]
  change (Json.size (Json.dict (s.cursorItems next)) * 4 + 2) / 3 ≤ 2048
  simp only [cursorItems]
  omega

/-- **A selection accepts its own cursors.** -/
theorem resume_cursor [WideHex D] {next : ℕ} (hnext : next ≤ s.index.ledger.entries.length) :
    s.resume (s.cursor next) = .ok next := by
  have hpos : 1 ≤ (s.cursor next).length := by
    have hsize : 1 ≤ (canonicalBytes (Json.dict (s.cursorItems next))).length := by
      rw [Json.dict, canonicalBytes, canonicalJson]
      refine le_trans ?_ (Utf8.length_le_length_encode _)
      rw [if_neg (by decide), Json.dumps, List.length_cons]
      exact Nat.le_add_left _ _
    rw [cursor_eq, length_base64]
    omega
  have htoken : valid (1 ≤ (s.cursor next).length ∧ (s.cursor next).length ≤ maxToken ∧
      (s.cursor next).all fun c => c.toNat < 128) "cursor must be bounded ASCII text" = .ok () := by
    refine valid_of ⟨hpos, s.length_cursor_le hnext, List.all_eq_true.mpr fun c hc => ?_⟩
    exact decide_eq_true (base64_ascii _ c hc)
  have hdecode : unbase64 (s.cursor next) =
      some (Utf8.encode (canonicalJson (Json.dict (s.cursorItems next)) false)) :=
    unbase64_base64 _
  have hload := strictLoads_canonicalJson (s.wellKeyed_cursor next) false
  have hsequence : count (Json.get? ((s.cursorItems next).foldr Json.insertKey []) "next_sequence")
      "next_sequence" s.index.ledger.entries.length 0 = .ok (next : ℤ) := by
    rw [get?_cursor]
    simp only [cursorItems, Json.get?_cons, count]
    simp +decide only [if_true, if_false]
    simp [hnext]
  have hsame : require (s.cursor (next : ℤ).toNat = s.cursor next)
      (.value "cursor identity or canonical encoding differs") = .ok () := require_of rfl
  unfold resume
  simp only [bind_eq_ok, wrapping_eq_ok, orError_eq_ok]
  refine ⟨(), htoken, _, hdecode, _, Utf8.decode_encode _, _, hload, ?_⟩
  simp only [Json.dict, bind_eq_ok]
  exact ⟨_, hsequence, (), hsame, rfl⟩

/-- **Nothing else is accepted**, however it decodes. -/
theorem resume_eq_ok [WideHex D] {token : List Char} {next : ℕ} :
    s.resume token = .ok next ↔ next ≤ s.index.ledger.entries.length ∧ token = s.cursor next := by
  constructor
  · intro h
    unfold resume at h
    simp only [bind_eq_ok, wrapping_eq_ok, orError_eq_ok, valid_eq_ok, exists_unit] at h
    obtain ⟨-, raw, -, chars, -, value, -, h⟩ := h
    cases value with
    | obj data =>
      simp only [bind_eq_ok, require_eq_ok, exists_unit, Except.ok.injEq] at h
      obtain ⟨n, hcount, hsame, rfl⟩ := h
      refine ⟨?_, hsame.symm⟩
      unfold count at hcount
      split at hcount
      · simp only [bind_eq_ok, valid_eq_ok, exists_unit, Except.ok.injEq] at hcount
        omega
      · cases hcount
    | _ => cases h
  · rintro ⟨hnext, htoken⟩
    rw [htoken]
    exact s.resume_cursor hnext

/-- **A cursor's text names everything it is bound to.** -/
theorem cursor_inj {s s' : LedgerSelection D} {n n' : ℕ} (h : s.cursor n = s'.cursor n') :
    s.index.ledger.schemaVersion = s'.index.ledger.schemaVersion ∧
    s.index.ledger.headDigest = s'.index.ledger.headDigest ∧
    s.index.ledger.entries.length = s'.index.ledger.entries.length ∧
    (s.query.identity : D) = s'.query.identity ∧ n = n' := by
  have hdocument := canonicalBytes_inj (s.wellKeyed_cursor n) (s'.wellKeyed_cursor n')
    (base64_injective h)
  have hget (k : String) : Json.get? (s.cursorItems n) k = Json.get? (s'.cursorItems n') k := by
    rw [← get?_cursor, ← get?_cursor]
    exact congrArg (Json.get? · k) (Json.obj.inj hdocument)
  have hint {a b : ℕ} (hab : some (Json.int a) = some (Json.int b)) : a = b := by simpa using hab
  exact ⟨Json.str.inj (Option.some.inj (hget "ledger_version")),
    hex_injective (Json.str.inj (Option.some.inj (hget "head"))), hint (hget "entries"),
    hex_injective (Json.str.inj (Option.some.inj (hget "query"))), hint (hget "next_sequence")⟩

end LedgerSelection

/-! ## Prefixes of the history -/

namespace LedgerIndex

/-- An index is determined by its ledger. -/
theorem ext_ledger {index index' : LedgerIndex D} (h : index.ledger = index'.ledger) :
    index = index' := by
  have hevents : index.events = index'.events := by
    have hok : Function.Injective (Except.ok : EvidenceEvent → Result EvidenceEvent) :=
      fun _ _ => Except.ok.inj
    refine List.map_injective_iff.mpr hok ?_
    rw [← index.decoded, ← index'.decoded, h]
  cases index
  cases index'
  subst h
  subst hevents
  rfl

omit [Hashing D] [DecidableEq D] in
theorem decodeAll_of_decoded {es : List (LedgerEntry D)} : ∀ {events : List EvidenceEvent},
    es.map (fun e => e.decoded "event") = events.map Except.ok → decodeAll es = .ok events := by
  induction es with
  | nil =>
    intro events h
    rw [List.map_eq_nil_iff.mp h.symm]
    rfl
  | cons e es ih =>
    intro events h
    cases events with
    | nil => cases h
    | cons event events =>
      obtain ⟨hevent, hrest⟩ := List.cons.inj h
      simp only [decodeAll, bind_eq_ok]
      exact ⟨event, hevent, events, ih hrest, rfl⟩

/-- The receipts of a verified ledger decode. -/
theorem exists_events {l : EvidenceLedger D} (h : l.verify = true) : ∃ events : List EvidenceEvent,
    l.entries.map (fun e => e.decoded "event") = events.map Except.ok := by
  simp only [EvidenceLedger.verify, Bool.and_eq_true, Option.isSome_iff_exists] at h
  obtain ⟨-, head, hhead⟩ := h
  have hdecoded : ∀ e ∈ l.entries, ∃ event, e.decoded "event" = .ok event := by
    intro e he
    obtain ⟨i, hi, rfl⟩ := List.mem_iff_getElem.mp he
    obtain ⟨_, hlink⟩ := EvidenceLedger.link_of_verifyLinks hhead i hi
    obtain ⟨event, hevent, -⟩ := hlink.hashed
    exact ⟨event, hevent⟩
  generalize l.entries = es at hdecoded
  induction es with
  | nil => exact ⟨[], rfl⟩
  | cons e es ih =>
    obtain ⟨event, hevent⟩ := hdecoded e (by simp)
    obtain ⟨events, hevents⟩ := ih fun e he => hdecoded e (by simp [he])
    exact ⟨event :: events, by rw [List.map_cons, List.map_cons, hevent, hevents]⟩

/-- What an index is made from, and what it keeps of it. -/
theorem make_eq_ok {l : EvidenceLedger D} {head : D} {k : Option ℕ} {index : LedgerIndex D} :
    make l head k = .ok index ↔ l.entries.length ≤ maxLedgerEntries ∧
      (l.entries.map entrySize).sum ≤ maxIndexBytes ∧ l.verify = true ∧
      k.getD l.entries.length ≤ l.entries.length ∧
      (l.prefixOf (k.getD l.entries.length)).headDigest = head ∧
      index.ledger = l.prefixOf (k.getD l.entries.length) := by
  constructor
  · intro h
    unfold make at h
    split_ifs at h with hlength hsize hverify
    simp only [bind_eq_ok, countInt_eq_ok, valid_eq_ok, exists_unit] at h
    obtain ⟨⟨-, hcount⟩, hhead, h⟩ := h
    split at h
    · cases h
    · rw [← Except.ok.inj h]
      exact ⟨hlength, hsize, hverify, by exact_mod_cast hcount, hhead, rfl⟩
  · rintro ⟨hlength, hsize, hverify, hcount, hhead, hledger⟩
    have hdecode : decodeAll (l.prefixOf (k.getD l.entries.length)).entries = .ok index.events := by
      apply decodeAll_of_decoded
      rw [← hledger]
      exact index.decoded
    unfold make
    rw [if_pos hlength, dif_pos hsize, dif_pos hverify]
    simp only [bind_eq_ok, countInt_eq_ok, valid_eq_ok, exists_unit]
    refine ⟨⟨by omega, by exact_mod_cast hcount⟩, hhead, ?_⟩
    split
    · next e he => rw [hdecode] at he; cases he
    · next events he => exact congrArg Except.ok (ext_ledger hledger.symm)

/-- A verified ledger within the limit has an index. -/
theorem exists_make {l : EvidenceLedger D} (h : l.verify = true)
    (hsize : (l.entries.map entrySize).sum ≤ maxIndexBytes) :
    ∃ index, make l l.headDigest none = .ok index ∧ index.ledger = l := by
  obtain ⟨events, hevents⟩ := exists_events h
  refine ⟨⟨l, events, h, hevents, hsize⟩, make_eq_ok.mpr ?_, rfl⟩
  have hself : l.prefixOf l.entries.length = l := by simp [EvidenceLedger.prefixOf]
  rw [Option.getD_none, hself]
  exact ⟨(EvidenceLedger.version_of_verify h).2, hsize, h, le_rfl, rfl, rfl⟩

/-- **A prefix has the same index** in every extension of its ledger. -/
theorem make_extension {l l' : EvidenceLedger D} (h : l'.verify = true)
    (hsize : (l'.entries.map entrySize).sum ≤ maxIndexBytes)
    (hextends : l'.prefixOf l.entries.length = l) :
    ∃ index, make l l.headDigest none = .ok index ∧
      make l' l.headDigest (some l.entries.length) = .ok index ∧ index.ledger = l := by
  have hverify : l.verify = true := hextends ▸ EvidenceLedger.verify_prefixOf h l.entries.length
  have hentries : l.entries = l'.entries.take l.entries.length :=
    congrArg EvidenceLedger.entries hextends.symm
  have hlength : l.entries.length ≤ l'.entries.length := by
    have := congrArg List.length hentries
    rw [List.length_take] at this
    omega
  have hsize' : (l.entries.map entrySize).sum ≤ maxIndexBytes := by
    rw [hentries]
    exact (sum_take_le _ _ _).trans hsize
  obtain ⟨index, hindex, hledger⟩ := exists_make hverify hsize'
  refine ⟨index, hindex, make_eq_ok.mpr ?_, hledger⟩
  rw [Option.getD_some, hextends]
  exact ⟨(EvidenceLedger.version_of_verify h).2, hsize, h, hlength, rfl, hledger⟩

end LedgerIndex

namespace LedgerSelection

/-- **History does not move, and cursors are bound to it.** A prefix's selection serves the same
from an extension of its ledger; a selection accepts its own cursors and no others; and a cursor of
another head, length, version or query is none of them, unless the two queries collide. -/
theorem history_bound [WideHex D] {l l' : EvidenceLedger D} (hverify : l'.verify = true)
    (hsize : (l'.entries.map entrySize).sum ≤ maxIndexBytes)
    (hextends : l'.prefixOf l.entries.length = l) :
    (∃ index index', LedgerIndex.make l l.headDigest none = .ok index ∧
      LedgerIndex.make l' l.headDigest (some l.entries.length) = .ok index' ∧ ∀ query,
        (⟨index', query⟩ : LedgerSelection D).positions =
          (⟨index, query⟩ : LedgerSelection D).positions ∧
        (∀ limit budget token, (⟨index', query⟩ : LedgerSelection D).page limit budget token =
          (⟨index, query⟩ : LedgerSelection D).page limit budget token) ∧
        ∀ next, (⟨index', query⟩ : LedgerSelection D).cursor next =
          (⟨index, query⟩ : LedgerSelection D).cursor next) ∧
    (∀ (s : LedgerSelection D) (token : List Char), (∃ next, s.resume token = .ok next) ↔
      ∃ next ≤ s.index.ledger.entries.length, token = s.cursor next) ∧
    ∀ (s s' : LedgerSelection D),
      s.index.ledger.headDigest ≠ s'.index.ledger.headDigest ∨
      s.index.ledger.entries.length ≠ s'.index.ledger.entries.length ∨
      s.index.ledger.schemaVersion ≠ s'.index.ledger.schemaVersion ∨
      (s.query ≠ s'.query ∧
        Set.InjOn (sha256 : Bytes → D)
          {canonicalBytes s.query.document, canonicalBytes s'.query.document}) →
      ∀ next next', s.resume (s'.cursor next) ≠ .ok next' := by
  refine ⟨?_, fun s token => ?_, fun s s' hother next next' haccepted => ?_⟩
  · obtain ⟨index, hindex, hindex', -⟩ := LedgerIndex.make_extension hverify hsize hextends
    exact ⟨index, index, hindex, hindex', fun _ => ⟨rfl, fun _ _ _ => rfl, fun _ => rfl⟩⟩
  · exact exists_congr fun next => s.resume_eq_ok
  · obtain ⟨hversion, hhead, hlength, hidentity, -⟩ := cursor_inj (s.resume_eq_ok.mp haccepted).2
    rcases hother with h | h | h | ⟨hquery, hinj⟩
    · exact h hhead.symm
    · exact h hlength.symm
    · exact h hversion.symm
    · have hbytes : canonicalBytes s.query.document = canonicalBytes s'.query.document :=
        hinj (.inl rfl) (.inr rfl) hidentity.symm
      exact hquery (LedgerQuery.document_injective (canonicalBytes_inj
        (LedgerQuery.wellKeyed_document _) (LedgerQuery.wellKeyed_document _) hbytes))

/-- The empty prefix of a ledger of one receipt. -/
theorem history_bound_sample : ∃ index : LedgerIndex HexDigest,
    LedgerIndex.make (sampleLedger HexDigest) ((sampleLedger HexDigest).prefixOf 0).headDigest
      (some 0) = .ok index := by
  have hverify := (verify_buildLedger (buildLedger_sampleEvent HexDigest)
    (by simp [decodes_sampleEvent])).1
  have hsize : ((sampleLedger HexDigest).entries.map entrySize).sum ≤ maxIndexBytes := by
    have hmax : 11000 ≤ maxIndexBytes := by decide
    have hentries : (sampleLedger HexDigest).entries = [sampleEntry HexDigest] := rfl
    rw [hentries, List.map_singleton, List.sum_singleton]
    exact size_sampleEntry_hex.trans hmax
  have hempty : ∀ l : EvidenceLedger HexDigest, (l.prefixOf 0).entries.length = 0 := fun _ => rfl
  obtain ⟨⟨-, index, -, hindex, -⟩, -⟩ :=
    @history_bound HexDigest _ _ _ ((sampleLedger HexDigest).prefixOf 0) _ hverify hsize
      (congrArg (sampleLedger HexDigest).prefixOf (hempty _))
  rw [hempty] at hindex
  exact ⟨index, hindex⟩

end LedgerSelection

end EvidenceBraid
