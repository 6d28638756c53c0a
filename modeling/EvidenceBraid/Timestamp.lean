import Mathlib.Data.List.Basic
import EvidenceBraid.Text

/-!
# Timestamps

A timestamp of the package is a `datetime` in UTC: microseconds since the start of year 1.

* `parseTimestamp` — `parse_timestamp`: ISO 8601 text as `datetime.fromisoformat` reads it, with an
  offset, normalized to UTC.
* `formatTimestamp` — `formcuttimestamp`.
-/

namespace EvidenceBraid

/-! ## The proleptic Gregorian calendar -/

namespace Calendar

def isLeap (year : ℕ) : Bool := year % 4 = 0 && (year % 100 != 0 || year % 400 = 0)

def daysInMonth (year month : ℕ) : ℕ :=
  if month = 2 then (if isLeap year then 29 else 28)
  else if month = 4 ∨ month = 6 ∨ month = 9 ∨ month = 11 then 30
  else 31

def daysBeforeYear (year : ℕ) : ℕ :=
  let y := year - 1
  y * 365 + y / 4 - y / 100 + y / 400

def daysBeforeMonth (year month : ℕ) : ℕ :=
  [0, 31, 59, 90, 120, 151, 181, 212, 243, 273, 304, 334].getD (month - 1) 0 +
    (if 2 < month ∧ isLeap year = true then 1 else 0)

/-- Days up to and including this date; `0001-01-01` is day 1. -/
def ymd2ord (year month day : ℕ) : ℕ :=
  daysBeforeYear year + daysBeforeMonth year month + day

/-- The year, month and day of a day number. -/
def ord2ymd (ordinal : ℕ) : ℕ × ℕ × ℕ :=
  let n := ordinal - 1
  let n400 := n / 146097
  let n := n % 146097
  let n100 := n / 36524
  let n := n % 36524
  let n4 := n / 1461
  let n := n % 1461
  let n1 := n / 365
  let n := n % 365
  let year := n400 * 400 + 1 + n100 * 100 + n4 * 4 + n1
  if n1 = 4 ∨ n100 = 4 then (year - 1, 12, 31)
  else
    let month := (n + 50) / 32
    let month := if n < daysBeforeMonth year month then month - 1 else month
    (year, month, n - daysBeforeMonth year month + 1)

/-- The day number of the Monday that starts ISO week 1. -/
def isoweek1monday (year : ℕ) : ℤ :=
  let firstday : ℤ := ymd2ord year 1 1
  let firstweekday := (firstday + 6) % 7
  if 3 < firstweekday then firstday - firstweekday + 7 else firstday - firstweekday

end Calendar

open Calendar

/-- Days from `0001-01-01` to `9999-12-31`, both counted. -/
def maxOrdinal : ℕ := 3652059

def microsPerDay : ℕ := 86400000000

/-- A timezone-aware `datetime` in UTC: microseconds since `0001-01-01T00:00:00Z`. -/
structure Datetime where
  micros : ℕ
  lt : micros < maxOrdinal * microsPerDay
  deriving DecidableEq

namespace Datetime

theorem ext_iff {a b : Datetime} : a = b ↔ a.micros = b.micros := by
  cases a; cases b; simp

instance : LinearOrder Datetime :=
  LinearOrder.lift' micros fun _ _ h => ext_iff.mpr h

theorem le_def {a b : Datetime} : a ≤ b ↔ a.micros ≤ b.micros := Iff.rfl

theorem lt_def {a b : Datetime} : a < b ↔ a.micros < b.micros := Iff.rfl

/-- `datetime.min`. -/
def earliest : Datetime := ⟨0, by decide⟩

/-- `astimezone(UTC)` of these fields at an offset in microseconds; `none` is its
`OverflowError`. -/
def astimezone (year month day hour minute second micro : ℕ) (offset : ℤ) : Option Datetime :=
  let days := ymd2ord year month day - 1
  let seconds := ((days * 24 + hour) * 60 + minute) * 60 + second
  let micros : ℤ := (seconds * 1000000 + micro : ℕ) - offset
  if h : 0 ≤ micros ∧ micros.toNat < maxOrdinal * microsPerDay then
    some ⟨micros.toNat, h.2⟩
  else none

end Datetime

/-! ## `datetime.fromisoformat` -/

namespace Iso

def digit (c : Char) : Option ℕ := if c.isDigit then some (c.toNat - 48) else none

/-- Exactly `k` decimal digits. -/
def digits : ℕ → List Char → Option (ℕ × List Char)
  | 0, s => some (0, s)
  | _ + 1, [] => none
  | k + 1, c :: s => do
    let d ← digit c
    let (n, s) ← digits k s
    some (d * 10 ^ k + n, s)

/-- Where the date ends. The time's separator may be any character. -/
def separator (s : List Char) : Option ℕ :=
  if s.length = 7 then some 7
  else if s[4]? = some '-' then
    if s[5]? = some 'W' then
      if s[8]? = some '-' then
        if s.length = 9 then none
        else if (s[10]?.map Char.isDigit).getD false then some 8
        else some 10
      else some 8
    else some 10
  else if s[4]? = some 'W' then
    let pos := 7 + ((s.drop 7).takeWhile Char.isDigit).length
    if pos < 9 then some pos
    else if pos % 2 = 0 then some 7
    else some 8
  else some 8

/-- The date of an ISO week, as a year, a month and a day. -/
def ofWeek (year week day : ℕ) : Option (ℕ × ℕ × ℕ) :=
  let weekday := ymd2ord year 1 1 % 7
  if 1 ≤ year ∧ year ≤ 9999 ∧ 1 ≤ day ∧ day ≤ 7 ∧
      (1 ≤ week ∧ week ≤ 52 ∨ week = 53 ∧ (weekday = 4 ∨ weekday = 3 ∧ isLeap year = true)) then
    some (ord2ymd (isoweek1monday year + ((week - 1) * 7 + (day - 1) : ℕ)).toNat)
  else none

/-- `YYYY-MM-DD`, `YYYY-Www-D`, `YYYY-Www`, and the same without separators. -/
def date (s : List Char) : Option (ℕ × ℕ × ℕ) := do
  let (year, s) ← digits 4 s
  let dashed := s.head? = some '-'
  let s := if dashed then s.tail else s
  if s.head? = some 'W' then
    let (week, s) ← digits 2 s.tail
    if s = [] then ofWeek year week 1
    else if (s.head? = some '-') ≠ dashed then none
    else
      let (day, s) ← digits 1 (if dashed then s.tail else s)
      if s = [] then ofWeek year week day else none
  else
    let (month, s) ← digits 2 s
    if (s.head? = some '-') ≠ dashed then none
    else
      let (day, s) ← digits 2 (if dashed then s.tail else s)
      if s = [] then some (year, month, day) else none

/-- The microseconds of a fraction's digits; digits after the sixth are dropped. -/
def fraction (s : List Char) : Option ℕ := do
  if s = [] ∨ ¬ s.all Char.isDigit then none
  else
    let k := min s.length 6
    let (n, _) ← digits k s
    some (n * 10 ^ (6 - k))

/-- `HH[:MM[:SS[.f+]]]`, or the same without colons: hours, minutes, seconds, microseconds. -/
def clock (s : List Char) : Option (ℕ × ℕ × ℕ × ℕ) := do
  let tail (s : List Char) : Option ℕ :=
    match s with
    | [] => some 0
    | c :: s => if c = '.' ∨ c = ',' then fraction s else none
  let (hour, s) ← digits 2 s
  if s = [] then return (hour, 0, 0, 0)
  let colons := s.head? = some ':'
  let (minute, s) ← digits 2 (if colons then s.tail else s)
  if s = [] then return (hour, minute, 0, 0)
  if colons ∧ s.head? ≠ some ':' then none
  else
    let (second, s) ← digits 2 (if colons then s.tail else s)
    let micro ← tail s
    some (hour, minute, second, micro)

/-- The offset east of UTC in microseconds, strictly within a day. -/
def offset (sign : ℤ) (s : List Char) : Option ℤ := do
  if s.length = 3 then none
  else
    let (hour, minute, second, micro) ← clock s
    let micros := ((hour * 60 + minute) * 60 + second) * 1000000 + micro
    if micros < microsPerDay then some (sign * micros) else none

/-- The time and its offset; a time without an offset is naive. -/
def time (s : List Char) : Option ((ℕ × ℕ × ℕ × ℕ) × Option ℤ) := do
  let body := s.takeWhile fun c => c ≠ '+' ∧ c ≠ '-' ∧ c ≠ 'Z'
  let fields ← clock body
  match s.drop body.length with
  | [] => some (fields, none)
  | ['Z'] => some (fields, some 0)
  | 'Z' :: _ => none
  | c :: zone => do
    let shift ← offset (if c = '-' then -1 else 1) zone
    some (fields, some shift)

end Iso

/-- What `fromisoformat` makes of a text: nothing, a naive datetime, or the fields and offset. -/
inductive IsoText where
  | invalid
  | naive
  | aware (year month day hour minute second micro : ℕ) (offset : ℤ)

/-- The ranges `datetime` checks; a text outside them is invalid. -/
def inRange (year month day hour minute second : ℕ) : Bool :=
  1 ≤ year && year ≤ 9999 && 1 ≤ month && month ≤ 12 && 1 ≤ day && day ≤ daysInMonth year month &&
    hour < 24 && minute < 60 && second < 60

def fromisoformat (s : List Char) : IsoText :=
  if s.length < 7 then .invalid
  else
    match (do
      let cut ← Iso.separator s
      let (year, month, day) ← Iso.date (s.take cut)
      let ((hour, minute, second, micro), zone) ←
        if s.length ≤ cut + 1 then some ((0, 0, 0, 0), none) else Iso.time (s.drop (cut + 1))
      some (year, month, day, hour, minute, second, micro, zone)) with
    | none => .invalid
    | some (year, month, day, hour, minute, second, micro, zone) =>
      if inRange year month day hour minute second then
        match zone with
        | none => .naive
        | some offset => .aware year month day hour minute second micro offset
      else .invalid

/-- `parse_timestamp`. -/
def parseTimestamp (value : Option Json) (path : String) : Result Datetime :=
  match value with
  | some (.str s) => do
    valid (strip s ≠ "") (path ++ " must be a non-empty ISO-8601 string")
    let t ← text s path
    let cs := t.value.toList
    let normalized :=
      if cs.getLast? = some 'Z' then cs.dropLast ++ ['+', '0', '0', ':', '0', '0'] else cs
    match fromisoformat normalized with
    | .invalid => .error (.validation (path ++ " is not a valid ISO-8601 timestamp"))
    | .naive => .error (.validation (path ++ " must include a UTC offset"))
    | .aware year month day hour minute second micro offset =>
      orError (Datetime.astimezone year month day hour minute second micro offset)
        (.validation (path ++ " must be a valid timezone-aware datetime"))
  | _ => .error (.validation (path ++ " must be a non-empty ISO-8601 string"))

/-- A number in exactly `k` decimal digits. -/
def padded : ℕ → ℕ → List Char
  | 0, _ => []
  | k + 1, n => padded k (n / 10) ++ [Nat.digitChar (n % 10)]

/-- `formcuttimestamp`: `isoformat()` with `Z` for the zero offset. -/
def formatTimestamp (t : Datetime) : String :=
  let (year, month, day) := ord2ymd (t.micros / microsPerDay + 1)
  let seconds := t.micros % microsPerDay / 1000000
  let micro := t.micros % 1000000
  String.ofList (padded 4 year ++ ['-'] ++ padded 2 month ++ ['-'] ++ padded 2 day ++ ['T'] ++
    padded 2 (seconds / 3600) ++ [':'] ++ padded 2 (seconds / 60 % 60) ++ [':'] ++
    padded 2 (seconds % 60) ++ (if micro = 0 then [] else '.' :: padded 6 micro) ++ ['Z'])

example : parseTimestamp (some (.str "2024-02-29T23:59:59.25-01:30")) "t" =
    parseTimestamp (some (.str "2024-03-01T01:29:59.250000Z")) "t" := by decide +kernel

end EvidenceBraid
