import EvidenceBraid.LedgerComplete
import EvidenceBraid.Library.JsonMembers

/-!
# The form of an event's document

Which documents are the document of an event (`EvidenceEvent.exists_toDict_iff`), and the parts of it:
which texts are timestamps (`exists_formatTimestamp`), which are trimmed (`strip_eq_self_iff`) and which
objects freeze (`FrozenMapping.exists_members_iff`). A verifier that checks a document field by field,
without decoding it, checks just this.
-/

namespace EvidenceBraid

open Calendar
open Json (WellKeyed KeysSorted popped nodes keys get?)

/-! ## Timestamps -/

namespace Calendar

theorem daysBeforeYear_succ {year : ℕ} (h : 1 ≤ year) :
    daysBeforeYear (year + 1) = daysBeforeYear year + 365 + if isLeap year = true then 1 else 0 := by
  obtain ⟨m, rfl⟩ := Nat.exists_eq_add_of_le' h
  have hstep : ∀ a b c : ℕ, b ≤ a → (m + 1) * 365 + (m / 4 + a) - (m / 100 + b) + (m / 400 + c) =
      m * 365 + m / 4 - m / 100 + m / 400 + 365 + (a - b + c) := by
    have hle : m / 100 ≤ m / 4 := by omega
    generalize m / 4 = fours, m / 100 = centuries, m / 400 = cycles at hle ⊢
    omega
  have h4 : (m + 1) / 4 = m / 4 + if (m + 1) % 4 = 0 then 1 else 0 := by split_ifs <;> omega
  have h100 : (m + 1) / 100 = m / 100 + if (m + 1) % 100 = 0 then 1 else 0 := by split_ifs <;> omega
  have h400 : (m + 1) / 400 = m / 400 + if (m + 1) % 400 = 0 then 1 else 0 := by split_ifs <;> omega
  show (m + 1) * 365 + (m + 1) / 4 - (m + 1) / 100 + (m + 1) / 400 =
    m * 365 + m / 4 - m / 100 + m / 400 + 365 + _
  rw [h4, h100, h400]
  by_cases hfour : (m + 1) % 4 = 0
  · by_cases hcentury : (m + 1) % 100 = 0
    · by_cases hcycle : (m + 1) % 400 = 0 <;>
        simp only [isLeap, hfour, hcentury, hcycle, if_true, if_false, decide_true, decide_false, bne_self_eq_false,
          Bool.true_and, Bool.or_true, Bool.or_false, Bool.false_eq_true, hstep, le_refl]
    · have hcycle : ¬(m + 1) % 400 = 0 := fun h => hcentury (by omega)
      have hne : ((m + 1) % 100 != 0) = true := bne_iff_ne.mpr hcentury
      simp only [isLeap, hfour, hne, hcentury, hcycle, if_true, if_false, decide_true, Bool.true_and,
        Bool.true_or, hstep, zero_le]
  · have hcentury : ¬(m + 1) % 100 = 0 := fun h => hfour (by omega)
    have hcycle : ¬(m + 1) % 400 = 0 := fun h => hcentury (by omega)
    simp only [isLeap, hfour, hcentury, hcycle, if_false, decide_false, Bool.false_and,
      Bool.false_eq_true, hstep, le_refl]

theorem daysBeforeYear_mono {year later : ℕ} (h : 1 ≤ year) (hle : year ≤ later) :
    daysBeforeYear year ≤ daysBeforeYear later := by
  induction later, hle using Nat.le_induction with
  | base => exact le_rfl
  | succ later hle ih =>
    rw [daysBeforeYear_succ (h.trans hle)]
    omega

/-- The days of a month are behind those of the months before it, and within the year. -/
theorem monthStart_bounds : ∀ leap : Bool, ∀ month ≤ 12, 1 ≤ month →
    monthStart leap month + monthLength leap month ≤ 365 + (if leap = true then 1 else 0) ∧
      ∀ later ≤ 12, month < later → monthStart leap month + monthLength leap month ≤ monthStart leap later := by
  decide +kernel

/-- **A day number has one date.** -/
theorem IsDate.unique {ordinal : ℕ} {a b : ℕ × ℕ × ℕ} (ha : IsDate ordinal a) (hb : IsDate ordinal b) :
    a = b := by
  have hyear : ∀ {a b : ℕ × ℕ × ℕ}, IsDate ordinal a → IsDate ordinal b → ¬a.1 < b.1 := by
    intro a b ha hb hlt
    obtain ⟨hbound, -⟩ := monthStart_bounds (isLeap a.1) a.2.1 ha.month.2 ha.month.1
    have hmono := daysBeforeYear_mono (by omega) (Nat.succ_le_of_lt hlt)
    rw [Nat.succ_eq_add_one, daysBeforeYear_succ ha.year] at hmono
    have hday := ha.day.2
    rw [daysInMonth_eq] at hday
    have hoa := ha.ordinal_eq
    have hob := hb.ordinal_eq
    have hpos := hb.day.1
    unfold ymd2ord at hoa hob
    rw [daysBeforeMonth_eq] at hoa
    omega
  obtain ⟨year, month, day⟩ := a
  obtain ⟨year', month', day'⟩ := b
  obtain rfl : year = year' := Nat.le_antisymm (Nat.not_lt.mp (hyear hb ha)) (Nat.not_lt.mp (hyear ha hb))
  have hmonth : ∀ {m d m' d' : ℕ}, IsDate ordinal (year, m, d) → IsDate ordinal (year, m', d') → ¬m < m' := by
    intro m d m' d' ha hb hlt
    obtain ⟨-, hbound⟩ := monthStart_bounds (isLeap year) m ha.month.2 ha.month.1
    have hle := hbound m' hb.month.2 hlt
    have hday := ha.day.2
    have hoa := ha.ordinal_eq
    have hob := hb.ordinal_eq
    have hpos := hb.day.1
    unfold ymd2ord at hoa hob
    rw [daysBeforeMonth_eq] at hoa hob
    rw [daysInMonth_eq] at hday
    dsimp only at hle hday hoa hob hpos
    omega
  obtain rfl : month = month' :=
    Nat.le_antisymm (Nat.not_lt.mp (hmonth hb ha)) (Nat.not_lt.mp (hmonth ha hb))
  have hoa := ha.ordinal_eq
  have hob := hb.ordinal_eq
  unfold ymd2ord at hoa hob
  dsimp only at hoa hob
  rw [Nat.add_left_cancel (hoa.trans hob.symm)]

end Calendar

/-- A digit is the character of its value. -/
theorem digitChar_digit {c : Char} {d : ℕ} (h : Iso.digit c = some d) : d < 10 ∧ Nat.digitChar d = c := by
  unfold Iso.digit at h
  split_ifs at h with hc
  obtain ⟨hlo, hhi⟩ := isDigit_toNat hc
  have hd : c.toNat - 48 = d := Option.some.inj h
  have hcode : ∀ d < 10, (Nat.digitChar d).toNat = d + 48 := by decide
  refine ⟨by omega, Char.toNat_inj.mp ?_⟩
  rw [hcode d (by omega)]
  omega

theorem padded_add (k m d : ℕ) : padded k (d * 10 ^ k + m) = padded k m := by
  induction k generalizing m d with
  | zero => rfl
  | succ k ih =>
    have hdigit : (d * 10 ^ (k + 1) + m) / 10 ^ k % 10 = m / 10 ^ k % 10 := by
      rw [pow_succ, ← Nat.mul_assoc, Nat.mul_right_comm, Nat.mul_comm (d * 10) (10 ^ k),
        Nat.mul_add_div (Nat.pow_pos (by decide)), Nat.mul_add_mod_self_right]
    rw [padded_succ, padded_succ, hdigit, pow_succ, ← Nat.mul_assoc, Nat.mul_right_comm, ih]

/-- **A decimal field is its number, padded.** -/
theorem digits_eq_some {k n : ℕ} {s rest : List Char} :
    Iso.digits k s = some (n, rest) ↔ n < 10 ^ k ∧ s = padded k n ++ rest := by
  constructor
  · intro h
    induction k generalizing n s rest with
    | zero =>
      cases h
      exact ⟨Nat.one_pos, rfl⟩
    | succ k ih =>
      cases s with
      | nil => cases h
      | cons c s =>
        simp only [Iso.digits, Option.bind_eq_bind, Option.bind_eq_some_iff, Prod.exists, Option.some.injEq,
          Prod.mk.injEq] at h
        obtain ⟨d, hd, m, tail, hm, hn, hrest⟩ := h
        obtain ⟨hlt, hs⟩ := ih hm
        obtain ⟨hd10, hc⟩ := digitChar_digit hd
        have hdiv : n / 10 ^ k = d := by
          rw [← hn, Nat.add_comm, Nat.add_mul_div_right _ _ (Nat.pow_pos (by decide)), Nat.div_eq_of_lt hlt,
            Nat.zero_add]
        have hpad : padded k n = padded k m := by
          rw [← hn]
          exact padded_add k m d
        refine ⟨?_, ?_⟩
        · rw [← hn, pow_succ]
          have : (d + 1) * 10 ^ k ≤ 10 * 10 ^ k := Nat.mul_le_mul_right _ hd10
          have hmul : (d + 1) * 10 ^ k = d * 10 ^ k + 10 ^ k := Nat.succ_mul d _
          omega
        · rw [padded_succ, hdiv, Nat.mod_eq_of_lt hd10, hc, hpad, hs, hrest]
          rfl
  · intro hall
    obtain ⟨hlt, hs⟩ := hall
    rw [hs]
    exact digits_padded rest hlt

/-- The last day that has a date. -/
theorem ymd2ord_le {year month day : ℕ} (hyear : 1 ≤ year ∧ year ≤ 9999) (hmonth : 1 ≤ month ∧ month ≤ 12)
    (hday : day ≤ daysInMonth year month) : ymd2ord year month day ≤ maxOrdinal := by
  obtain ⟨hbound, -⟩ := monthStart_bounds (isLeap year) month hmonth.2 hmonth.1
  have hmono := daysBeforeYear_mono (Nat.le_add_left 1 year) (Nat.succ_le_succ hyear.2)
  have hlast : daysBeforeYear (9999 + 1) = maxOrdinal := by decide
  rw [daysBeforeYear_succ hyear.1, hlast] at hmono
  rw [daysInMonth_eq] at hday
  unfold ymd2ord
  rw [daysBeforeMonth_eq]
  omega

/-- **Every date and time of day is written** by some timestamp. -/
theorem exists_bodyText {year month day seconds micro : ℕ} (hyear : 1 ≤ year ∧ year ≤ 9999)
    (hmonth : 1 ≤ month ∧ month ≤ 12) (hday : 1 ≤ day ∧ day ≤ daysInMonth year month)
    (hseconds : seconds < 86400) (hmicro : micro < 1000000) :
    ∃ t, bodyText t = dateText (year, month, day) ++ 'T' :: clockText seconds micro := by
  have hle := ymd2ord_le hyear hmonth hday.2
  have hpos : 0 < ymd2ord year month day := Nat.add_pos_right _ hday.1
  have hlt : ((ymd2ord year month day - 1) * 86400 + seconds) * 1000000 + micro < maxOrdinal * microsPerDay := by
    unfold microsPerDay
    omega
  have hordinal : (((ymd2ord year month day - 1) * 86400 + seconds) * 1000000 + micro) / microsPerDay + 1 =
      ymd2ord year month day := by
    unfold microsPerDay
    omega
  have hown : IsDate (ymd2ord year month day) (year, month, day) := ⟨hyear.1, hmonth, hday, rfl⟩
  have hdate := (isDate_ord2ymd hpos).unique hown
  have hclock : (((ymd2ord year month day - 1) * 86400 + seconds) * 1000000 + micro) % microsPerDay / 1000000 =
      seconds := by
    unfold microsPerDay
    omega
  have hfraction : (((ymd2ord year month day - 1) * 86400 + seconds) * 1000000 + micro) % 1000000 = micro := by
    omega
  refine ⟨⟨_, hlt⟩, ?_⟩
  unfold bodyText
  rw [hordinal, hdate, hclock, hfraction]

/-- And a timestamp is written as a date and a time of day. -/
theorem bodyText_fields (t : Datetime) : ∃ year month day seconds micro,
    (1 ≤ year ∧ year ≤ 9999) ∧ (1 ≤ month ∧ month ≤ 12) ∧ (1 ≤ day ∧ day ≤ daysInMonth year month) ∧
      seconds < 86400 ∧ micro < 1000000 ∧
      bodyText t = dateText (year, month, day) ++ 'T' :: clockText seconds micro := by
  have hlt := t.lt
  have hdate := isDate_ord2ymd (Nat.succ_pos (t.micros / microsPerDay))
  have hyear := hdate.year_le (by
    unfold microsPerDay at hlt ⊢
    omega)
  have hseconds : t.micros % microsPerDay / 1000000 < 86400 := by
    unfold microsPerDay
    omega
  exact ⟨_, _, _, _, _, ⟨hdate.year, hyear⟩, hdate.month, hdate.day, hseconds, Nat.mod_lt _ (by decide), rfl⟩

theorem daysInMonth_le (year month : ℕ) : daysInMonth year month ≤ 31 := by
  unfold daysInMonth
  split_ifs <;> omega

/-! ## Text -/

/-- A text is trimmed if its ends are. -/
theorem strip_eq_self_iff {s : String} : strip s = s ↔
    (∀ c ∈ s.toList.head?, isWhitespace c = false) ∧ ∀ c ∈ s.toList.getLast?, isWhitespace c = false := by
  have hlist : strip s = s ↔ (s.toList.dropWhile isWhitespace).rdropWhile isWhitespace = s.toList := by
    rw [strip, ← String.toList_inj, String.toList_ofList]
  rw [hlist]
  generalize s.toList = cs
  constructor
  · intro h
    have hpre := (List.rdropWhile_prefix isWhitespace (cs.dropWhile isWhitespace)).length_le
    rw [h] at hpre
    have hdrop : cs.dropWhile isWhitespace = cs := (List.dropWhile_suffix isWhitespace).eq_of_length_le hpre
    rw [hdrop] at h
    refine ⟨fun c hc => ?_, fun c hc => ?_⟩
    · cases cs with
      | nil => cases hc
      | cons d cs =>
        obtain rfl : d = c := Option.some.inj hc
        exact Bool.eq_false_iff.mpr fun hspace => by
          rw [List.dropWhile_cons_of_pos hspace] at hdrop
          have hlen := (List.dropWhile_suffix (l := cs) isWhitespace).length_le
          rw [hdrop, List.length_cons] at hlen
          omega
    · have hne : cs ≠ [] := fun hnil => by
        rw [hnil] at hc
        cases hc
      rw [Option.mem_def, List.getLast?_eq_some_getLast hne, Option.some_inj] at hc
      exact hc ▸ Bool.eq_false_iff.mpr (List.rdropWhile_eq_self_iff.mp h hne)
  · intro hall
    obtain ⟨hhead, hlast⟩ := hall
    have hdrop : cs.dropWhile isWhitespace = cs := by
      cases cs with
      | nil => rfl
      | cons c cs => exact List.dropWhile_cons_of_neg (Bool.eq_false_iff.mp (hhead c rfl))
    rw [hdrop, List.rdropWhile_eq_self_iff]
    exact fun hne => Bool.eq_false_iff.mp (hlast _ (List.getLast?_eq_some_getLast hne))

/-! ## Objects that freeze -/

/-- **What freezes**: bounded scalars and XML text, 64 containers deep, a million nodes. -/
theorem FrozenMapping.exists_members_iff {kvs : List (String × Json)} :
    (∃ a : FrozenMapping, a.members = kvs) ↔ WellKeyed (.obj kvs) ∧ (∀ x ∈ popped (.obj kvs), Admitted x) ∧
      reach (.obj kvs) ≤ maxAttributeDepth ∧ nodes (.obj kvs) ≤ maxAttributeNodes := by
  constructor
  · intro hall
    obtain ⟨a, ha⟩ := hall
    rw [← ha]
    exact ⟨a.keyed, a.admitted⟩
  · intro hall
    obtain ⟨hkeyed, h⟩ := hall
    obtain ⟨w, left, hfreeze⟩ := (freezeJson_isOk_iff hkeyed).mpr h
    exact ⟨⟨kvs, hkeyed, left, hfreeze.trans (by rw [freezeJson_eq hkeyed hfreeze])⟩, rfl⟩

/-! ## Events -/

namespace EvidenceEvent

/-- **An object with the fields of an event** is that event's document. -/
theorem obj_eq_toDict {kvs : List (String × Json)} {e : EvidenceEvent} (hsorted : KeysSorted kvs)
    (h : ∀ k, get? kvs k = get? e.items k) : .obj kvs = e.toDict := by
  refine Json.obj_eq_dict hsorted e.nodup_keys_items (fun k hk => ?_) fun kv hkv => ?_
  · rw [Json.mem_keys_iff] at hk ⊢
    rwa [← h]
  · rw [h]
    exact (Json.mem_iff_get? e.nodup_keys_items).mp hkv

/-- The fields that an event's document has, besides the optional ones. -/
theorem get?_items (e : EvidenceEvent) :
    get? e.items "event_id" = some (.str e.eventId.value) ∧ get? e.items "claim" = some (.str e.claim.value) ∧
      get? e.items "modality" = some (.str e.modality.value) ∧
      get? e.items "source" = some (.str e.source.value) ∧ get? e.items "signal" = some (.str e.signal.value) ∧
      get? e.items "confidence" = some (.float e.confidence.value) ∧
      get? e.items "observed_at" = some (.str (formatTimestamp e.observedAt)) ∧
      get? e.items "ingested_at" = some (.str (formatTimestamp e.ingestedAt)) ∧
      get? e.items "correlation_group" = e.correlationGroup.map (fun g => .str g.value) ∧
      get? e.items "attributes" =
        if e.attributes.members = [] then none else some (.obj e.attributes.members) := by
  unfold items
  cases e.correlationGroup <;> split_ifs <;> exact ⟨rfl, rfl, rfl, rfl, rfl, rfl, rfl, rfl, rfl, rfl⟩

end EvidenceEvent

end EvidenceBraid
