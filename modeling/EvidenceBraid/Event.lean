import EvidenceBraid.Library.JsonLayout
import EvidenceBraid.Library.Utf8
import EvidenceBraid.Timestamp

/-!
# Evidence events

`EvidenceEvent` of `models.py`, with what its constructor establishes in the types of its fields.
`freezeJson` is the admission of caller-supplied attributes: bounded nesting and size, bounded
integers and XML text. It returns the document it was given (`freezeJson_eq`), and its verdict does
not depend on the path it reports (`freezeJson_path`).
-/

namespace EvidenceBraid

open Json (WellKeyed)

/-! ## Canonical text -/

/-- `canonical_json`. -/
def canonicalJson (value : Json) (indented : Bool) : List Char :=
  if indented then Json.pretty 0 value ++ ['\n'] else Json.dumps value

/-- The canonical text determines the document, indented or not. -/
theorem canonicalJson_inj {v w : Json} {indented : Bool} (hv : WellKeyed v) (hw : WellKeyed w)
    (h : canonicalJson v indented = canonicalJson w indented) : v = w := by
  cases indented with
  | false => exact Json.dumps_injOn hv hw h
  | true => exact Json.pretty_injOn hv hw (List.append_cancel_right h)

/-- `canonical_json(value, pretty=False).encode("utf-8")`. -/
def canonicalBytes (value : Json) : Bytes := Utf8.encode (canonicalJson value false)

theorem canonicalBytes_inj {v w : Json} (hv : WellKeyed v) (hw : WellKeyed w)
    (h : canonicalBytes v = canonicalBytes w) : v = w :=
  canonicalJson_inj hv hw (Utf8.encode_injective h)

/-! ## Objects -/

/-- One character of `ascii(name)` between the quotes. -/
def asciiChar (quote c : Char) : List Char :=
  let hex (k n : ℕ) : List Char :=
    (List.range k).reverse.map fun i => Nat.digitChar (n / 16 ^ i % 16)
  if c = quote ∨ c = '\\' then ['\\', c]
  else if c = '\n' then ['\\', 'n']
  else if c = '\r' then ['\\', 'r']
  else if c = '\t' then ['\\', 't']
  else if 32 ≤ c.toNat ∧ c.toNat < 127 then [c]
  else if c.toNat < 256 then '\\' :: 'x' :: hex 2 c.toNat
  else if c.toNat < 65536 then '\\' :: 'u' :: hex 4 c.toNat
  else '\\' :: 'U' :: hex 8 c.toNat

/-- `ascii(name)`. -/
def ascii (name : String) : String :=
  let quote := if '\'' ∈ name.toList ∧ '"' ∉ name.toList then '"' else '\''
  String.ofList (quote :: name.toList.flatMap (asciiChar quote) ++ [quote])

/-- `_mapping`. -/
def mapping (value : Option Json) (path : String) : Result (List (String × Json)) :=
  match value with
  | some (.obj kvs) => .ok kvs
  | _ => .error (.validation (path ++ " must be an object"))

/-- `_only`: no key outside the allowed ones. -/
def only (data : List (String × Json)) (allowed : List String) (path : String) : Result Unit :=
  let unknown := (Json.keys data).filter fun k => k ∉ allowed
  valid (unknown = [])
    (path ++ " contains unknown field(s): " ++ ", ".intercalate (unknown.map ascii))

/-! ## Freezing attributes -/

def maxAttributeDepth : ℕ := 64

def maxAttributeNodes : ℕ := 1000000

/-- `sys.int_info.str_digits_check_threshold`. -/
def maxAttributeIntegerDigits : ℕ := 640

def maxAttributeInteger : ℕ := 10 ^ maxAttributeIntegerDigits - 1

mutual

/-- `_freeze_json`: the frozen value and what is left of the node budget. -/
def freezeJson (value : Json) (path : String) (depth budget : ℕ) : Result (Json × ℕ) := do
  valid (budget ≠ 0)
    (path ++ " exceeds the maximum JSON value count of " ++ toString maxAttributeNodes)
  let budget := budget - 1
  valid (depth ≤ maxAttributeDepth)
    (path ++ " exceeds the maximum attribute nesting depth of " ++ toString maxAttributeDepth)
  match value with
  | .null => .ok (.null, budget)
  | .bool b => .ok (.bool b, budget)
  | .int n => do
    valid (n.natAbs ≤ maxAttributeInteger) (path ++ " integer must contain at most " ++
      toString maxAttributeIntegerDigits ++ " digits")
    .ok (.int n, budget)
  | .float x => .ok (.float x, budget)
  | .str s => do
    valid (isXmlCharacter s = true) (path ++ " contains a character not allowed by XML 1.0")
    .ok (.str s, budget)
  | .arr xs => do
    let (items, budget) ← freezeItems xs path 0 (depth + 1) budget
    .ok (.arr items, budget)
  | .obj kvs => do
    let (members, budget) ← freezeMembers kvs path (depth + 1) budget
    .ok (.obj members, budget)

def freezeItems (xs : List Json) (path : String) (index depth budget : ℕ) :
    Result (List Json × ℕ) :=
  match xs with
  | [] => .ok ([], budget)
  | x :: xs => do
    let (item, budget) ← freezeJson x (path ++ "[" ++ toString index ++ "]") depth budget
    let (items, budget) ← freezeItems xs path (index + 1) depth budget
    .ok (item :: items, budget)

def freezeMembers (kvs : List (String × Json)) (path : String) (depth budget : ℕ) :
    Result (List (String × Json) × ℕ) :=
  match kvs with
  | [] => .ok ([], budget)
  | (k, x) :: kvs => do
    valid (isXmlCharacter k = true) (path ++ " contains a key not allowed by XML 1.0")
    let (item, budget) ← freezeJson x (path ++ "." ++ k) depth budget
    let (members, budget) ← freezeMembers kvs path depth budget
    .ok (Json.insertKey (k, item) members, budget)

end

mutual

/-- A frozen document has sorted keys. -/
theorem freezeJson_wellKeyed : ∀ {v w : Json} {path : String} {d b k : ℕ},
    freezeJson v path d b = .ok (w, k) → WellKeyed w
  | v, w, path, d, b, k, h => by
    rw [freezeJson] at h
    simp only [bind_eq_ok, valid_eq_ok, exists_and_left, exists_unit] at h
    obtain ⟨-, -, h⟩ := h
    cases v with
    | null => simp at h; simp [← h.1]
    | bool => simp at h; simp [← h.1]
    | int n => simp at h; simp [← h.2.1]
    | float x => simp at h; simp [← h.1]
    | str s => simp at h; simp [← h.2.1]
    | arr xs =>
      simp only [bind_eq_ok, Prod.exists, Except.ok.injEq, Prod.mk.injEq] at h
      obtain ⟨items, _, hitems, rfl, -⟩ := h
      rw [Json.wellKeyed_arr]
      exact freezeItems_wellKeyed hitems
    | obj kvs =>
      simp only [bind_eq_ok, Prod.exists, Except.ok.injEq, Prod.mk.injEq] at h
      obtain ⟨members, _, hmembers, rfl, -⟩ := h
      rw [Json.wellKeyed_obj]
      exact freezeMembers_wellKeyed hmembers

theorem freezeItems_wellKeyed : ∀ {xs ys : List Json} {path : String} {i d b k : ℕ},
    freezeItems xs path i d b = .ok (ys, k) → ∀ y ∈ ys, WellKeyed y
  | [], ys, path, i, d, b, k, h => by
    simp only [freezeItems, Except.ok.injEq, Prod.mk.injEq] at h
    simp [← h.1]
  | x :: xs, ys, path, i, d, b, k, h => by
    rw [freezeItems] at h
    simp only [bind_eq_ok, Prod.exists, Except.ok.injEq, Prod.mk.injEq] at h
    obtain ⟨item, _, hitem, items, _, hitems, rfl, -⟩ := h
    intro y hy
    rcases List.mem_cons.mp hy with rfl | hy
    · exact freezeJson_wellKeyed hitem
    · exact freezeItems_wellKeyed hitems y hy

theorem freezeMembers_wellKeyed : ∀ {kvs lws : List (String × Json)} {path : String} {d b k : ℕ},
    freezeMembers kvs path d b = .ok (lws, k) →
      Json.KeysSorted lws ∧ ∀ kv ∈ lws, WellKeyed kv.2
  | [], lws, path, d, b, k, h => by
    simp only [freezeMembers, Except.ok.injEq, Prod.mk.injEq] at h
    simp [← h.1, Json.KeysSorted, Json.keys]
  | (l, x) :: kvs, lws, path, d, b, k, h => by
    rw [freezeMembers] at h
    simp only [bind_eq_ok, valid_eq_ok, Prod.exists, Except.ok.injEq, Prod.mk.injEq] at h
    obtain ⟨-, -, item, _, hitem, members, _, hmembers, rfl, -⟩ := h
    obtain ⟨hsorted, hall⟩ := freezeMembers_wellKeyed hmembers
    refine ⟨Json.keysSorted_insertKey hsorted, ?_⟩
    intro y hy
    rcases Json.mem_insertKey hy with rfl | hy
    · exact freezeJson_wellKeyed hitem
    · exact hall y hy

end

mutual

/-- Freezing returns the document it was given. -/
theorem freezeJson_eq : ∀ {v w : Json} {path : String} {d b k : ℕ}, WellKeyed v →
    freezeJson v path d b = .ok (w, k) → w = v
  | v, w, path, d, b, k, hv, h => by
    rw [freezeJson] at h
    simp only [bind_eq_ok, valid_eq_ok, exists_and_left, exists_unit] at h
    obtain ⟨-, -, h⟩ := h
    cases v with
    | null => simp at h; exact h.1.symm
    | bool => simp at h; exact h.1.symm
    | int n => simp at h; exact h.2.1.symm
    | float x => simp at h; exact h.1.symm
    | str s => simp at h; exact h.2.1.symm
    | arr xs =>
      simp only [bind_eq_ok, Prod.exists, Except.ok.injEq, Prod.mk.injEq] at h
      obtain ⟨items, _, hitems, rfl, -⟩ := h
      rw [freezeItems_eq (Json.wellKeyed_arr.mp hv) hitems]
    | obj kvs =>
      simp only [bind_eq_ok, Prod.exists, Except.ok.injEq, Prod.mk.injEq] at h
      obtain ⟨members, _, hmembers, rfl, -⟩ := h
      obtain ⟨hsorted, hall⟩ := Json.wellKeyed_obj.mp hv
      rw [freezeMembers_eq hsorted hall hmembers]

theorem freezeItems_eq : ∀ {xs ys : List Json} {path : String} {i d b k : ℕ},
    (∀ x ∈ xs, WellKeyed x) → freezeItems xs path i d b = .ok (ys, k) → ys = xs
  | [], ys, path, i, d, b, k, _, h => by
    simp only [freezeItems, Except.ok.injEq, Prod.mk.injEq] at h
    exact h.1.symm
  | x :: xs, ys, path, i, d, b, k, hxs, h => by
    rw [freezeItems] at h
    simp only [bind_eq_ok, Prod.exists, Except.ok.injEq, Prod.mk.injEq] at h
    obtain ⟨item, _, hitem, items, _, hitems, rfl, -⟩ := h
    rw [freezeJson_eq (hxs x (by simp)) hitem,
      freezeItems_eq (fun y hy => hxs y (by simp [hy])) hitems]

theorem freezeMembers_eq : ∀ {kvs lws : List (String × Json)} {path : String} {d b k : ℕ},
    Json.KeysSorted kvs → (∀ kv ∈ kvs, WellKeyed kv.2) →
      freezeMembers kvs path d b = .ok (lws, k) → lws = kvs
  | [], lws, path, d, b, k, _, _, h => by
    simp only [freezeMembers, Except.ok.injEq, Prod.mk.injEq] at h
    exact h.1.symm
  | (l, x) :: kvs, lws, path, d, b, k, hsorted, hall, h => by
    rw [freezeMembers] at h
    simp only [bind_eq_ok, valid_eq_ok, Prod.exists, Except.ok.injEq, Prod.mk.injEq] at h
    obtain ⟨-, -, item, _, hitem, members, _, hmembers, rfl, -⟩ := h
    rw [freezeJson_eq (hall (l, x) (by simp)) hitem,
      freezeMembers_eq (Json.keysSorted_tail hsorted) (fun y hy => hall y (by simp [hy])) hmembers]
    have hfold := Json.foldr_insertKey_of_sorted hsorted
    rwa [List.foldr_cons, Json.foldr_insertKey_of_sorted (Json.keysSorted_tail hsorted)] at hfold

end

mutual

/-- The path is only reported. -/
theorem freezeJson_path : ∀ {v w : Json} {path : String} (path' : String) {d b k : ℕ},
    freezeJson v path d b = .ok (w, k) → freezeJson v path' d b = .ok (w, k)
  | v, w, path, path', d, b, k, h => by
    rw [freezeJson] at h ⊢
    simp only [bind_eq_ok, valid_eq_ok, exists_and_left, exists_unit] at h ⊢
    obtain ⟨hb, hd, h⟩ := h
    refine ⟨hb, hd, ?_⟩
    cases v with
    | null => exact h
    | bool => exact h
    | int n => simpa using h
    | float x => exact h
    | str s => simpa using h
    | arr xs =>
      simp only [bind_eq_ok, Prod.exists, Except.ok.injEq, Prod.mk.injEq] at h ⊢
      obtain ⟨items, b', hitems, rfl, rfl⟩ := h
      exact ⟨items, b', freezeItems_path path' hitems, rfl, rfl⟩
    | obj kvs =>
      simp only [bind_eq_ok, Prod.exists, Except.ok.injEq, Prod.mk.injEq] at h ⊢
      obtain ⟨members, b', hmembers, rfl, rfl⟩ := h
      exact ⟨members, b', freezeMembers_path path' hmembers, rfl, rfl⟩

theorem freezeItems_path : ∀ {xs ys : List Json} {path : String} (path' : String) {i d b k : ℕ},
    freezeItems xs path i d b = .ok (ys, k) → freezeItems xs path' i d b = .ok (ys, k)
  | [], ys, path, path', i, d, b, k, h => by simpa only [freezeItems] using h
  | x :: xs, ys, path, path', i, d, b, k, h => by
    rw [freezeItems] at h ⊢
    simp only [bind_eq_ok, Prod.exists, Except.ok.injEq, Prod.mk.injEq] at h ⊢
    obtain ⟨item, b', hitem, items, b'', hitems, rfl, rfl⟩ := h
    exact ⟨item, b', freezeJson_path _ hitem, items, b'', freezeItems_path path' hitems, rfl, rfl⟩

theorem freezeMembers_path : ∀ {kvs lws : List (String × Json)} {path : String} (path' : String)
    {d b k : ℕ},
    freezeMembers kvs path d b = .ok (lws, k) → freezeMembers kvs path' d b = .ok (lws, k)
  | [], lws, path, path', d, b, k, h => by simpa only [freezeMembers] using h
  | (l, x) :: kvs, lws, path, path', d, b, k, h => by
    rw [freezeMembers] at h ⊢
    simp only [bind_eq_ok, valid_eq_ok, Prod.exists, Except.ok.injEq, Prod.mk.injEq] at h ⊢
    obtain ⟨u, hxml, item, b', hitem, members, b'', hmembers, rfl, rfl⟩ := h
    exact ⟨u, hxml, item, b', freezeJson_path _ hitem, members, b'',
      freezeMembers_path path' hmembers, rfl, rfl⟩

end

/-! ## The event record -/

inductive Modality where
  | vision | audio | text | sensor
  deriving DecidableEq, Repr

namespace Modality

def members : List (String × Modality) :=
  [("vision", vision), ("audio", audio), ("text", text), ("sensor", sensor)]

def value : Modality → String
  | vision => "vision"
  | audio => "audio"
  | text => "text"
  | sensor => "sensor"

theorem lookup_value (m : Modality) : members.lookup m.value = some m := by
  cases m <;> rfl

theorem value_injective : Function.Injective value := by
  intro a b h
  cases a <;> cases b <;> first | rfl | exact absurd h (by decide)

end Modality

inductive Signal where
  | support | contradict
  deriving DecidableEq, Repr

namespace Signal

def members : List (String × Signal) := [("support", support), ("contradict", contradict)]

def value : Signal → String
  | support => "support"
  | contradict => "contradict"

theorem lookup_value (s : Signal) : members.lookup s.value = some s := by
  cases s <;> rfl

theorem value_injective : Function.Injective value := by
  intro a b h
  cases a <;> cases b <;> first | rfl | exact absurd h (by decide)

end Signal

/-- An object that `_freeze_json` has frozen. -/
structure FrozenMapping where
  members : List (String × Json)
  keyed : WellKeyed (.obj members)
  frozen : ∃ left, freezeJson (.obj members) "" 0 maxAttributeNodes = .ok (.obj members, left)

namespace FrozenMapping

theorem ext_iff {a b : FrozenMapping} : a = b ↔ a.members = b.members := by
  cases a; cases b; simp

instance : DecidableEq FrozenMapping := fun _ _ => decidable_of_iff _ ext_iff.symm

def empty : FrozenMapping := ⟨[], ⟨List.Pairwise.nil, trivial⟩, _, rfl⟩

/-- Freezing an object whose keys are sorted. -/
def ofKeyed (kvs : List (String × Json)) (keyed : WellKeyed (.obj kvs)) (path : String) :
    Result FrozenMapping :=
  match h : freezeJson (.obj kvs) path 0 maxAttributeNodes with
  | .error e => .error e
  | .ok (_, left) => .ok ⟨kvs, keyed, left,
      (freezeJson_path "" h).trans (by rw [freezeJson_eq keyed h])⟩

theorem ofKeyed_eq_ok {kvs : List (String × Json)} {keyed : WellKeyed (.obj kvs)} {path : String}
    {a : FrozenMapping} (h : ofKeyed kvs keyed path = .ok a) : a.members = kvs := by
  unfold ofKeyed at h
  split at h
  · cases h
  · rw [← Except.ok.inj h]

/-- What is frozen freezes to itself, whatever the path. -/
@[simp] theorem ofKeyed_members (a : FrozenMapping) (path : String) :
    ofKeyed a.members a.keyed path = .ok a := by
  obtain ⟨left, hleft⟩ := a.frozen
  have hpath := freezeJson_path path hleft
  unfold ofKeyed
  split
  · next e h => rw [hpath] at h; cases h
  · rfl

theorem ofKeyed_eq {kvs : List (String × Json)} (keyed : WellKeyed (.obj kvs)) {a : FrozenMapping}
    (h : a.members = kvs) (path : String) : ofKeyed kvs keyed path = .ok a := by
  subst h
  exact ofKeyed_members a path

/-- Freezing the attributes of a decoded event, and again when the event is constructed. -/
def freeze (kvs : List (String × Json)) (path : String) : Result FrozenMapping :=
  match h : freezeJson (.obj kvs) path 0 maxAttributeNodes with
  | .error e => .error e
  | .ok (.obj members, _) => ofKeyed members (freezeJson_wellKeyed h) "event.attributes"
  | .ok _ => .error (.validation (path ++ " must be an object"))

@[simp] theorem freeze_members (a : FrozenMapping) (path : String) :
    freeze a.members path = .ok a := by
  obtain ⟨left, hleft⟩ := a.frozen
  have hpath := freezeJson_path path hleft
  unfold freeze
  split
  · next e h => rw [hpath] at h; cases h
  · next members left' h =>
    rw [hpath] at h
    cases h
    exact ofKeyed_members a "event.attributes"
  · next w hne hw =>
    rw [hpath, Except.ok.injEq] at hw
    exact absurd hw.symm (hne a.members left)

end FrozenMapping

/-- `EvidenceEvent`: one observation about one claim. -/
structure EvidenceEvent where
  eventId : Text
  claim : Text
  modality : Modality
  source : Text
  signal : Signal
  confidence : Number .unit
  observedAt : Datetime
  ingestedAt : Datetime
  correlationGroup : Option Text
  attributes : FrozenMapping
  deriving DecidableEq

namespace EvidenceEvent

def fields : List String :=
  ["event_id", "claim", "modality", "source", "signal", "confidence", "observed_at",
    "ingested_at", "correlation_group", "attributes"]

/-- An absent or null correlation group, or checked text. -/
def correlationField (value : Option Json) (path : String) : Result (Option Text) :=
  match value with
  | none | some .null => .ok none
  | some v => do
    let t ← wrapping PyError.isValueError (path ++ " must be null or valid non-empty text")
      (textField (some v) path)
    .ok (some t)

/-- `EvidenceEvent.from_dict`. -/
def fromDict (raw : Json) (path : String) : Result EvidenceEvent := do
  let data ← mapping (some raw) path
  only data fields path
  let eventId ← textField (Json.get? data "event_id") (path ++ ".event_id")
  let claim ← textField (Json.get? data "claim") (path ++ ".claim")
  let source ← textField (Json.get? data "source") (path ++ ".source")
  let modality ← enumField Modality.members (Json.get? data "modality") (path ++ ".modality")
  let signal ← enumField Signal.members (Json.get? data "signal") (path ++ ".signal")
  let confidence ← number (Json.get? data "confidence") (path ++ ".confidence") .unit
  let observedAt ← parseTimestamp (Json.get? data "observed_at") (path ++ ".observed_at")
  let ingestedAt ← parseTimestamp (Json.get? data "ingested_at") (path ++ ".ingested_at")
  let correlationGroup ← correlationField (Json.get? data "correlation_group")
    (path ++ ".correlation_group")
  let attributesRaw ← mapping (some ((Json.get? data "attributes").getD (.obj [])))
    (path ++ ".attributes")
  let attributes ← FrozenMapping.freeze attributesRaw (path ++ ".attributes")
  .ok { eventId, claim, modality, source, signal, confidence, observedAt, ingestedAt,
        correlationGroup, attributes }

/-- The items of `to_dict`, as it writes them. -/
def items (e : EvidenceEvent) : List (String × Json) :=
  [("event_id", Json.str e.eventId.value), ("claim", Json.str e.claim.value),
    ("modality", Json.str e.modality.value), ("source", Json.str e.source.value),
    ("signal", Json.str e.signal.value), ("confidence", Json.float e.confidence.value),
    ("observed_at", Json.str (formatTimestamp e.observedAt)),
    ("ingested_at", Json.str (formatTimestamp e.ingestedAt))] ++
    (e.correlationGroup.map fun g => ("correlation_group", Json.str g.value)).toList ++
    (if e.attributes.members = [] then [] else [("attributes", Json.obj e.attributes.members)])

/-- `EvidenceEvent.to_dict`, key by key. -/
def members (e : EvidenceEvent) : List (String × Json) := e.items.foldr Json.insertKey []

/-- `EvidenceEvent.to_dict`. -/
def toDict (e : EvidenceEvent) : Json := .obj e.members

/-- An event's document has sorted keys. -/
theorem wellKeyed_toDict (e : EvidenceEvent) : WellKeyed e.toDict := by
  refine Json.wellKeyed_dict ?_
  intro kv hkv
  simp only [items, List.cons_append, List.nil_append, List.mem_cons, List.mem_append,
    Option.mem_toList, Option.map_eq_some_iff] at hkv
  rcases hkv with rfl | rfl | rfl | rfl | rfl | rfl | rfl | rfl | ⟨g, -, rfl⟩ | hkv
  on_goal 10 =>
    split_ifs at hkv with hempty
    · simp at hkv
    · obtain rfl : kv = _ := by simpa using hkv
      exact e.attributes.keyed
  all_goals simp

end EvidenceEvent

end EvidenceBraid
