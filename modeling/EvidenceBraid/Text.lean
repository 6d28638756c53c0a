import Mathlib.Data.List.DropRight
import EvidenceBraid.Errors
import EvidenceBraid.Library.Json

/-!
# Checked text and numbers

The field checks of `models.py` that every record shares: `_text`, `_number`, the integer checks
and the enumerations. `Text` and `Unit01` carry what `_text` and `_number(…, 0.0, 1.0)` establish,
so a record built from them needs no check of its own.
-/

namespace EvidenceBraid

open Binary64

/-! ## Text -/

/-- `_is_xml_character`, of one character. -/
def isXmlChar (c : Char) : Bool :=
  c = '\t' || c = '\n' || c = '\r' || (0x20 ≤ c.toNat && c.toNat ≤ 0xD7FF) ||
    (0xE000 ≤ c.toNat && c.toNat ≤ 0xFFFD) || (0x10000 ≤ c.toNat && c.toNat ≤ 0x10FFFF)

def isXmlCharacter (value : String) : Bool := value.toList.all isXmlChar

/-- The characters `str.strip()` removes. -/
def isWhitespace (c : Char) : Bool :=
  (9 ≤ c.toNat && c.toNat ≤ 13) || (28 ≤ c.toNat && c.toNat ≤ 32) || c.toNat = 0x85 ||
    c.toNat = 0xA0 || c.toNat = 0x1680 || (0x2000 ≤ c.toNat && c.toNat ≤ 0x200A) ||
    c.toNat = 0x2028 || c.toNat = 0x2029 || c.toNat = 0x202F || c.toNat = 0x205F ||
    c.toNat = 0x3000

/-- `str.strip()`. -/
def strip (value : String) : String :=
  String.ofList ((value.toList.dropWhile isWhitespace).rdropWhile isWhitespace)

/-- Text that `_text` returns: trimmed, not empty and allowed in XML 1.0. -/
structure Text where
  value : String
  ne_empty : value ≠ ""
  trimmed : strip value = value
  xml : isXmlCharacter value = true

instance : DecidableEq Text := fun a b =>
  decidable_of_iff (a.value = b.value) (by cases a; cases b; simp)

/-- A literal text. -/
def Text.literal (value : String)
    (ok : (value != "" && strip value == value && isXmlCharacter value) = true := by exact Eq.refl true) :
    Text where
  value := value
  ne_empty := by
    rintro rfl
    cases ok
  trimmed := by
    simp only [Bool.and_eq_true, beq_iff_eq] at ok
    exact ok.1.2
  xml := by
    simp only [Bool.and_eq_true] at ok
    exact ok.2

theorem Text.ext_iff {a b : Text} : a = b ↔ a.value = b.value := by
  cases a; cases b; simp

theorem dropWhile_rdropWhile {p : Char → Bool} (cs : List Char) :
    ((cs.dropWhile p).rdropWhile p).dropWhile p = (cs.dropWhile p).rdropWhile p := by
  rcases hcs : cs.dropWhile p with _ | ⟨c, ds⟩
  · rfl
  · have hc : p c = false := by
      have hhead := List.head_dropWhile_not p (l := cs) (by simp [hcs])
      simpa [hcs] using hhead
    obtain ⟨es, hes⟩ : ∃ es, (c :: ds).rdropWhile p = c :: es := by
      have hpre : (c :: ds).rdropWhile p <+: c :: ds := List.rdropWhile_prefix p _
      rcases hr : (c :: ds).rdropWhile p with _ | ⟨d, es⟩
      · rw [List.rdropWhile_eq_nil_iff] at hr
        exact absurd (hr c (by simp)) (by simp [hc])
      · rw [hr, List.cons_prefix_cons] at hpre
        exact ⟨es, by rw [hpre.1]⟩
    rw [hes, List.dropWhile_cons_of_neg (by simp [hc])]

/-- Stripping twice strips once. -/
@[simp] theorem strip_strip (s : String) : strip (strip s) = strip s := by
  simp only [strip, String.toList_ofList, dropWhile_rdropWhile, List.rdropWhile_idempotent]

theorem isXmlCharacter_strip {s : String} (h : isXmlCharacter s = true) :
    isXmlCharacter (strip s) = true := by
  simp only [isXmlCharacter, List.all_eq_true] at h ⊢
  intro c hc
  refine h c ?_
  rw [strip, String.toList_ofList] at hc
  exact (List.dropWhile_sublist _).subset ((List.rdropWhile_prefix _ _).subset hc)

/-- `_text(value, path)` of a string. -/
def text (value : String) (path : String) : Result Text :=
  if hxml : isXmlCharacter value = true then
    if hne : strip value ≠ "" then
      .ok ⟨strip value, hne, strip_strip value, isXmlCharacter_strip hxml⟩
    else .error (.validation (path ++ " must be a non-empty string"))
  else .error (.validation (path ++ " contains a character not allowed by XML 1.0"))

/-- A text that is written out is allowed in XML when its characters are, -/
theorem xml_ofList {cs : List Char} (h : cs.all isXmlChar = true) :
    isXmlCharacter (String.ofList cs) = true := by
  rw [isXmlCharacter, String.toList_ofList, h]

/-- and stripped already when none of them is blank. -/
theorem strip_ofList {cs : List Char} (h : cs.all (!isWhitespace ·) = true) :
    strip (String.ofList cs) = String.ofList cs := by
  have hblank : ∀ c ∈ cs, ¬isWhitespace c = true := by
    intro c hc
    simpa using List.all_eq_true.mp h c hc
  rw [strip, String.toList_ofList,
    List.dropWhile_eq_self_iff.mpr fun hl => hblank _ (List.getElem_mem hl),
    List.rdropWhile_eq_self_iff.mpr fun hl => hblank _ (List.getLast_mem hl)]

/-- Checked text passes its own check unchanged. -/
@[simp] theorem text_value (t : Text) (path : String) : text t.value path = .ok t := by
  have hne : strip t.value ≠ "" := t.trimmed.symm ▸ t.ne_empty
  rw [text, dif_pos t.xml, dif_pos hne, Except.ok.injEq]
  exact Text.ext_iff.mpr t.trimmed

/-- `_text(value, path)`. -/
def textField (value : Option Json) (path : String) : Result Text :=
  match value with
  | some (.str s) => text s path
  | _ => .error (.validation (path ++ " must be a non-empty string"))

/-- An enumeration given by its members' texts: `_enum_from_json`. -/
def enumField {α : Type} (members : List (String × α)) (value : Option Json) (path : String) :
    Result α :=
  let choices := ", ".intercalate (members.map Prod.fst)
  match value with
  | some (.str s) =>
    orError (members.lookup s) (.validation (path ++ " must be one of: " ++ choices))
  | _ => .error (.validation (path ++ " must be one of: " ++ choices))

/-! ## Numbers -/

/-- The closed interval a float field is checked against. -/
structure Bounds where
  minimum : Finite
  maximum : Option Finite
  deriving DecidableEq

namespace Bounds

def zero : Finite := ⟨false, 0, by decide⟩

def one : Finite := ⟨false, 1023 * 2 ^ 52, by decide⟩

/-- The double nearest to `0.000001`. -/
def micro : Finite := ⟨false, 4517329193108106637, by decide⟩

/-- `_number(…, 0.0, 1.0)`. -/
def unit : Bounds := ⟨zero, some one⟩

/-- `_number(…, 0.000001)`. -/
def positive : Bounds := ⟨micro, none⟩

/-- `_number(…, 0.0)`. -/
def nonnegative : Bounds := ⟨zero, none⟩

/-- The interval as the error message spells it. -/
def interval (b : Bounds) : String :=
  match b.maximum with
  | some m => "[" ++ String.ofList (Numeral.repr b.minimum).text ++ ", " ++
      String.ofList (Numeral.repr m).text ++ "]"
  | none => ">= " ++ String.ofList (Numeral.repr b.minimum).text

def Holds (b : Bounds) (x : Finite) : Prop :=
  b.minimum.toRat ≤ x.toRat ∧ ∀ m ∈ b.maximum, x.toRat ≤ m.toRat

instance (b : Bounds) (x : Finite) : Decidable (b.Holds x) := by
  unfold Holds; infer_instance

end Bounds

/-- `0.0 if result == 0.0 else result`: one spelling of zero. -/
def canonicalZero (x : Finite) : Finite := if x.bits = 0 then { x with neg := false } else x

@[simp] theorem toRat_canonicalZero (x : Finite) : (canonicalZero x).toRat = x.toRat := by
  unfold canonicalZero
  split_ifs with h
  · simp only [Finite.toRat, h]
    cases x.neg <;> simp [value, scaled]
  · rfl

/-- A float that `_number` returns for these bounds. -/
structure Number (b : Bounds) where
  value : Finite
  canonical : canonicalZero value = value
  holds : b.Holds value

namespace Number

variable {b : Bounds}

theorem ext_iff {x y : Number b} : x = y ↔ x.value = y.value := by
  cases x; cases y; simp

instance : DecidableEq (Number b) := fun _ _ => decidable_of_iff _ ext_iff.symm

/-- The number's value. -/
def toRat (x : Number b) : ℚ := x.value.toRat

end Number

def zeroUnit : Number .unit := ⟨Bounds.zero, by decide, by decide +kernel⟩

def oneUnit : Number .unit := ⟨Bounds.one, by decide, by decide +kernel⟩

/-- `float(value)` of an integer; `none` is an `OverflowError`. -/
def floatOfInt (n : ℤ) : Option Finite :=
  if h : nearest n.natAbs < 2047 * 2 ^ 52 then some ⟨n < 0, nearest n.natAbs, h⟩ else none

/-- The check of `_number` on a float. -/
def checkNumber (x : Finite) (path : String) (b : Bounds) : Result (Number b) :=
  if h : b.Holds x then
    .ok ⟨canonicalZero x, by unfold canonicalZero; split_ifs <;> simp_all,
      by simpa only [Bounds.Holds, toRat_canonicalZero] using h⟩
  else .error (.validation (path ++ " must be finite and in " ++ b.interval))

/-- `_number(value, path, minimum, maximum)`. -/
def number (value : Option Json) (path : String) (b : Bounds) : Result (Number b) :=
  match value with
  | some (.int n) => do
    let x ← orError (floatOfInt n) (.validation (path ++ " must be a finite number"))
    checkNumber x path b
  | some (.float x) => checkNumber x path b
  | _ => .error (.validation (path ++ " must be a number"))

/-- A checked number passes its own check unchanged. -/
@[simp] theorem checkNumber_value {b : Bounds} (x : Number b) (path : String) :
    checkNumber x.value path b = .ok x := by
  rw [checkNumber, dif_pos x.holds, Except.ok.injEq, Number.ext_iff]
  exact x.canonical

end EvidenceBraid
