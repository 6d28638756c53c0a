import EvidenceBraid.Comparison

/-!
# The texts of changes

Every path and effect that a comparison spells out passes the check of its constructor unchanged
(`isText_of_mem`): it starts and ends with a character that is not blank, and XML allows the rest.
-/

namespace EvidenceBraid

/-! ## Spelled texts -/

/-- Text that `_text` leaves as it is. -/
def IsText (s : String) : Prop := ∃ t : Text, t.value = s

/-- The first character is not blank. -/
def Opens (s : String) : Prop := ∃ c cs, s.toList = c :: cs ∧ isWhitespace c = false

/-- The last character is not blank. -/
def Closes (s : String) : Prop := ∃ cs c, s.toList = cs ++ [c] ∧ isWhitespace c = false

theorem Opens.append {a b : String} (h : Opens a) : Opens (a ++ b) := by
  obtain ⟨c, cs, hcs, hc⟩ := h
  exact ⟨c, cs ++ b.toList, by rw [String.toList_append, hcs, List.cons_append], hc⟩

theorem Closes.append {a b : String} (h : Closes b) : Closes (a ++ b) := by
  obtain ⟨cs, c, hcs, hc⟩ := h
  exact ⟨a.toList ++ cs, c, by rw [String.toList_append, hcs, List.append_assoc], hc⟩

/-- A text that is written out opens with its first character, -/
theorem opens_ofList {c : Char} {cs : List Char} (hc : isWhitespace c = false) :
    Opens (String.ofList (c :: cs)) := ⟨c, cs, String.toList_ofList, hc⟩

/-- and closes with its last. -/
theorem closes_ofList {cs : List Char} (h : cs.getLast?.any (!isWhitespace ·) = true) :
    Closes (String.ofList cs) := by
  obtain ⟨c, hc, hblank⟩ := Option.any_eq_true .. |>.mp h
  obtain ⟨ds, rfl⟩ := List.getLast?_eq_some_iff.mp hc
  exact ⟨ds, c, String.toList_ofList, by simpa using hblank⟩

@[simp] theorem isXmlCharacter_append {a b : String} :
    isXmlCharacter (a ++ b) = true ↔ isXmlCharacter a = true ∧ isXmlCharacter b = true := by
  simp only [isXmlCharacter, String.toList_append, List.all_append, Bool.and_eq_true]

theorem isText_of {s : String} (hopens : Opens s) (hcloses : Closes s)
    (hxml : isXmlCharacter s = true) : IsText s := by
  obtain ⟨c, cs, hcs, hc⟩ := hopens
  obtain ⟨ds, d, hds, hd⟩ := hcloses
  refine ⟨⟨s, ?_, ?_, hxml⟩, rfl⟩
  · rw [ne_eq, ← String.toList_eq_nil_iff, hcs]
    exact List.cons_ne_nil _ _
  · rw [strip, hcs, List.dropWhile_cons_of_neg (by simp [hc]), ← hcs, hds,
      List.rdropWhile_concat_neg _ _ _ (by simp [hd]), ← hds, String.ofList_toList]

theorem isText_ofList {c : Char} {cs : List Char} (hc : isWhitespace c = false)
    (hlast : (c :: cs).getLast?.any (!isWhitespace ·) = true)
    (hxml : (c :: cs).all isXmlChar = true) : IsText (String.ofList (c :: cs)) :=
  isText_of (opens_ofList hc) (closes_ofList hlast) (xml_ofList hxml)

/-- Characters without blanks. -/
structure Clean (s : String) : Prop where
  ne_nil : s.toList ≠ []
  plain : ∀ c ∈ s.toList, isXmlChar c = true ∧ isWhitespace c = false

namespace Clean

variable {s : String} (h : Clean s)
include h

theorem opens : Opens s := by
  rcases hs : s.toList with _ | ⟨c, cs⟩
  · exact absurd hs h.ne_nil
  · exact ⟨c, cs, hs, (h.plain c (hs ▸ List.mem_cons_self)).2⟩

theorem closes : Closes s :=
  ⟨s.toList.dropLast, s.toList.getLast h.ne_nil, (List.dropLast_append_getLast h.ne_nil).symm,
    (h.plain _ (List.getLast_mem h.ne_nil)).2⟩

theorem xml : isXmlCharacter s = true :=
  List.all_eq_true.mpr fun c hc => (h.plain c hc).1

end Clean

theorem Text.opens (t : Text) : Opens t.value := by
  obtain ⟨cs, d, hcs, -⟩ := t.exists_concat
  rcases hlist : t.value.toList with _ | ⟨c, rest⟩
  · rw [hcs] at hlist
    exact absurd hlist (List.concat_ne_nil d cs)
  · refine ⟨c, rest, hlist, ?_⟩
    have htrimmed := congrArg String.toList t.trimmed
    rw [strip, String.toList_ofList, hlist] at htrimmed
    by_contra hblank
    rw [List.dropWhile_cons_of_pos (by simpa using hblank)] at htrimmed
    have hshort := (List.rdropWhile_prefix isWhitespace (rest.dropWhile isWhitespace)).length_le
    have hshorter := (List.dropWhile_sublist isWhitespace (l := rest)).length_le
    rw [htrimmed, List.length_cons] at hshort
    omega

theorem Text.closes (t : Text) : Closes t.value := t.exists_concat

theorem clean_numeral {t : Numeral} (ht : t.Wf) (hne : t.text ≠ []) : Clean (String.ofList t.text) where
  ne_nil := by rwa [String.toList_ofList]
  plain c hc := by
    rw [String.toList_ofList] at hc
    rcases Numeral.mem_text ht hc with hdigit | rfl | rfl | rfl | rfl
    · exact isXmlChar_of_isDigit hdigit
    all_goals decide

theorem clean_control : ∀ c : Control, Clean c.text
  | .float x => by
    apply clean_numeral (Numeral.wf_repr x)
    intro hnil
    have hint := (Numeral.wf_repr x).int.1
    simp only [Numeral.text, List.append_eq_nil_iff] at hnil
    exact hint hnil.1.1.2
  | .int n => by
    have hdigits := Numeral.isDigits_toDigits n
    have hspelled : (toString n).toList = Nat.toDigits 10 n := String.toList_ofList
    exact ⟨hspelled ▸ hdigits.1, fun c hc => isXmlChar_of_isDigit (hdigits.2 c (hspelled ▸ hc))⟩

theorem clean_modality (m : Modality) : Clean m.value := by
  constructor
  · cases m <;> decide
  · cases m <;> exact List.all_iff_forall_prop.mp (by decide)

/-! ## Quoted names -/

theorem isXmlChar_digitChar : ∀ k < 16, isXmlChar (Nat.digitChar k) = true := by decide

theorem isXmlChar_asciiChar {quote c : Char} (hquote : isXmlChar quote = true) :
    ∀ d ∈ asciiChar quote c, isXmlChar d = true := by
  have hhex : ∀ k n : ℕ, ∀ d ∈ (List.range k).reverse.map fun i => Nat.digitChar (n / 16 ^ i % 16),
      isXmlChar d = true := fun k n d hd => by
    obtain ⟨i, -, rfl⟩ := List.mem_map.mp hd
    exact isXmlChar_digitChar _ (Nat.mod_lt _ (by decide))
  intro d hd
  unfold asciiChar at hd
  split_ifs at hd with h₁ h₂ h₃ h₄ h₅ h₆ h₇
  · rcases List.mem_cons.mp hd with rfl | hd
    · decide
    · rw [List.mem_singleton] at hd
      rcases h₁ with rfl | rfl
      · exact hd ▸ hquote
      · exact hd ▸ by decide
  · exact List.all_eq_true.mp (by decide) d hd
  · exact List.all_eq_true.mp (by decide) d hd
  · exact List.all_eq_true.mp (by decide) d hd
  · rw [List.mem_singleton] at hd
    subst hd
    have hlow : 0x20 ≤ d.toNat := h₅.1
    have hhigh : d.toNat ≤ 0xD7FF := by omega
    simp [isXmlChar, hlow, hhigh]
  · rcases List.mem_cons.mp hd with rfl | hd
    · decide
    · rcases List.mem_cons.mp hd with rfl | hd
      · decide
      · exact hhex _ _ d hd
  · rcases List.mem_cons.mp hd with rfl | hd
    · decide
    · rcases List.mem_cons.mp hd with rfl | hd
      · decide
      · exact hhex _ _ d hd
  · rcases List.mem_cons.mp hd with rfl | hd
    · decide
    · rcases List.mem_cons.mp hd with rfl | hd
      · decide
      · exact hhex _ _ d hd

@[simp] theorem isXmlCharacter_reprText (isPrintable : Char → Bool) (t : Text) :
    isXmlCharacter (reprText isPrintable t) = true := by
  have hxml := t.xml
  simp only [isXmlCharacter, List.all_eq_true] at hxml
  rw [isXmlCharacter, reprText, String.toList_ofList, List.all_eq_true]
  generalize hquote : (if '\'' ∈ t.value.toList ∧ '"' ∉ t.value.toList then '"' else '\'') = quote
  have hq : isXmlChar quote = true := by
    rw [← hquote]
    split_ifs <;> decide
  intro d hd
  rcases List.mem_append.mp hd with hd | hd
  · rcases List.mem_cons.mp hd with rfl | hd
    · exact hq
    · obtain ⟨c, hc, hdc⟩ := List.mem_flatMap.mp hd
      unfold reprChar at hdc
      split_ifs at hdc
      · rw [List.mem_singleton] at hdc
        exact hdc ▸ hxml c hc
      · exact isXmlChar_asciiChar hq d hdc
  · rw [List.mem_singleton] at hd
    exact hd ▸ hq

/-! ## Constructor calls -/

@[simp] theorem isXmlCharacter_text (t : Text) : isXmlCharacter t.value = true := t.xml

@[simp] theorem isXmlCharacter_control (c : Control) : isXmlCharacter c.text = true :=
  (clean_control c).xml

@[simp] theorem isXmlCharacter_modality (m : Modality) : isXmlCharacter m.value = true :=
  (clean_modality m).xml

/-- What freezing needs of a setting. -/
def Setting.Wf : Setting → Prop
  | version n => n ≤ maxAttributeInteger
  | modalities ms => ms.Nodup
  | _ => True

/-- What a constructor call needs of its arguments to succeed. -/
structure ChangeArgs.Sound (a : ChangeArgs) : Prop where
  path : IsText a.path
  effect : IsText a.effect
  before : a.before.Wf
  after : a.after.Wf

theorem thresholdChange_sound {path : String} {before after : Control} {higherTightens : Bool}
    {effectNoun : String} (hpath : IsText path) (hnoun : isXmlCharacter effectNoun = true) :
    ∀ a ∈ thresholdChange path before after higherTightens effectNoun, a.Sound := by
  intro a ha
  unfold thresholdChange at ha
  split_ifs at ha with heq
  · cases ha
  · obtain rfl := Option.some.inj ha
    refine ⟨hpath, isText_of ?_ (.append (closes_ofList rfl)) ?_, trivial, trivial⟩
    · iterate 9 apply Opens.append
      split_ifs <;> exact opens_ofList rfl
    · simp only [isXmlCharacter_append, isXmlCharacter_control, hnoun, and_true]
      and_intros
      · split_ifs <;> exact xml_ofList (by decide)
      · exact xml_ofList (by decide)
      · exact xml_ofList (by decide)
      · exact xml_ofList (by decide)
      · exact xml_ofList (by decide)
      · split_ifs <;> exact xml_ofList (by decide)
      · exact xml_ofList (by decide)

/-- A path that ends with a name. -/
theorem isText_named {pre : String} (hopens : Opens pre) (hxml : isXmlCharacter pre = true)
    (name : Text) : IsText (pre ++ name.value) :=
  isText_of hopens.append name.closes.append (isXmlCharacter_append.mpr ⟨hxml, name.xml⟩)

/-- A path with a name in it. -/
theorem isText_field {pre field : String} (hopens : Opens pre) (hxml : isXmlCharacter pre = true)
    (name : Text) (hcloses : Closes field) (hfield : isXmlCharacter field = true) :
    IsText (pre ++ name.value ++ field) := by
  apply isText_of hopens.append.append hcloses.append
  simp only [isXmlCharacter_append, isXmlCharacter_text, hxml, hfield, and_true]

theorem sourceChange_sound (isPrintable : Char → Bool) (P Q : Policy) (name : Text) :
    ∀ a ∈ sourceChange isPrintable P Q name, a.Sound := by
  have hpath : IsText ("sources." ++ name.value) :=
    isText_named (opens_ofList rfl) (xml_ofList (by decide)) name
  intro a ha
  unfold sourceChange at ha
  split at ha
  · cases ha
  · obtain rfl := Option.some.inj ha
    refine ⟨hpath, isText_of ?_ (.append (closes_ofList rfl)) ?_, trivial, trivial⟩
    · iterate 6 apply Opens.append
      exact opens_ofList rfl
    · simp only [isXmlCharacter_append, isXmlCharacter_control, isXmlCharacter_reprText, and_true]
      and_intros <;> exact xml_ofList (by decide)
  · obtain rfl := Option.some.inj ha
    refine ⟨hpath, isText_of ?_ (.append (clean_control _).closes) ?_, trivial, trivial⟩
    · iterate 3 apply Opens.append
      exact opens_ofList rfl
    · simp only [isXmlCharacter_append, isXmlCharacter_control, isXmlCharacter_reprText, and_true]
      and_intros <;> exact xml_ofList (by decide)
  · apply thresholdChange_sound _ _ a ha
    · exact isText_field (opens_ofList rfl) (xml_ofList (by decide)) name (closes_ofList rfl)
        (xml_ofList (by decide))
    · exact isXmlCharacter_append.mpr ⟨xml_ofList (by decide), isXmlCharacter_reprText _ _⟩

theorem halfLifeChange_sound (P Q : Policy) (modality : Modality) :
    ∀ a ∈ halfLifeChange P Q modality, a.Sound := by
  have hpath : IsText ("decay.modality_half_life_seconds." ++ modality.value) :=
    isText_of (.append (opens_ofList rfl)) (clean_modality modality).closes.append
      (isXmlCharacter_append.mpr ⟨xml_ofList (by decide), isXmlCharacter_modality modality⟩)
  intro a ha
  unfold halfLifeChange at ha
  split at ha
  · cases ha
  · obtain rfl := Option.some.inj ha
    refine ⟨hpath, isText_of ?_ (.append (clean_control _).closes) ?_, trivial, trivial⟩
    · iterate 3 apply Opens.append
      exact opens_ofList rfl
    · simp only [isXmlCharacter_append, isXmlCharacter_control, isXmlCharacter_modality, and_true]
      and_intros <;> exact xml_ofList (by decide)
  · obtain rfl := Option.some.inj ha
    refine ⟨hpath, isText_of ?_ (.append (clean_control _).closes) ?_, trivial, trivial⟩
    · iterate 3 apply Opens.append
      exact opens_ofList rfl
    · simp only [isXmlCharacter_append, isXmlCharacter_control, isXmlCharacter_modality, and_true]
      and_intros <;> exact xml_ofList (by decide)
  · apply thresholdChange_sound hpath _ a ha
    simp only [isXmlCharacter_append, isXmlCharacter_modality, and_true]
    and_intros <;> exact xml_ofList (by decide)

theorem compareSources_sound (isPrintable : Char → Bool) (P Q : Policy) :
    ∀ a ∈ compareSources isPrintable P Q, a.Sound := by
  intro a ha
  rcases List.mem_append.mp ha with ha | ha
  · exact thresholdChange_sound (isText_ofList rfl rfl (by decide)) (xml_ofList (by decide)) a
      (Option.mem_toList.mp ha)
  · obtain ⟨name, -, ha⟩ := List.mem_flatMap.mp ha
    exact sourceChange_sound isPrintable P Q name a (Option.mem_toList.mp ha)

theorem compareDecay_sound (P Q : Policy) : ∀ a ∈ compareDecay P Q, a.Sound := by
  intro a ha
  rcases List.mem_append.mp ha with ha | ha
  · rcases List.mem_append.mp ha with ha | ha <;>
      exact thresholdChange_sound (isText_ofList rfl rfl (by decide)) (xml_ofList (by decide)) a
        (Option.mem_toList.mp ha)
  · obtain ⟨modality, -, ha⟩ := List.mem_flatMap.mp ha
    exact halfLifeChange_sound P Q modality a (Option.mem_toList.mp ha)

theorem nodup_sortedModalities (ms : List Modality) : (sortedModalities ms).Nodup :=
  List.nodup_sortOn.mpr (List.nodup_dedup ms)

theorem requiredChange_sound {claim : Text} {old new : ClaimRule} {direction : Direction}
    {effect : String} (heffect : IsText effect) :
    (requiredChange claim old new direction effect).Sound where
  path := isText_field (opens_ofList rfl) (xml_ofList (by decide)) claim (closes_ofList rfl)
    (xml_ofList (by decide))
  effect := heffect
  before := nodup_sortedModalities _
  after := nodup_sortedModalities _

theorem claimControls_clean : ∀ c ∈ claimControls, Clean c.field ∧ isXmlCharacter c.noun = true := by
  have hclean : ∀ cs : List Char, cs ≠ [] → (∀ c ∈ cs, isXmlChar c = true ∧ isWhitespace c = false) →
      Clean (String.ofList cs) := fun cs hne hplain =>
    ⟨by rwa [String.toList_ofList], by rwa [String.toList_ofList]⟩
  intro c hc
  simp only [claimControls, List.mem_cons, List.not_mem_nil, or_false] at hc
  rcases hc with rfl | rfl | rfl | rfl | rfl | rfl | rfl <;>
    exact ⟨hclean _ (by decide) (List.all_iff_forall_prop.mp (by decide)), xml_ofList (by decide)⟩

theorem ruleChanges_sound (claim : Text) (old new : ClaimRule) :
    ∀ a ∈ ruleChanges claim old new, a.Sound := by
  intro a ha
  rcases List.mem_append.mp ha with ha | ha
  · rcases List.mem_append.mp ha with ha | ha
    · obtain ⟨control, hcontrol, ha⟩ := List.mem_flatMap.mp ha
      obtain ⟨hfield, hnoun⟩ := claimControls_clean control hcontrol
      apply thresholdChange_sound _ hnoun a (Option.mem_toList.mp ha)
      apply isText_of (.append (.append (.append (opens_ofList rfl)))) hfield.closes.append
      simp only [isXmlCharacter_append, isXmlCharacter_text, hfield.xml, and_true]
      and_intros <;> exact xml_ofList (by decide)
    · obtain ⟨modality, -, rfl⟩ := List.mem_map.mp ha
      apply requiredChange_sound
      apply isText_of (.append (.append (.append (opens_ofList rfl)))) (.append (closes_ofList rfl))
      simp only [isXmlCharacter_append, isXmlCharacter_modality, and_true]
      and_intros <;> exact xml_ofList (by decide)
  · obtain ⟨modality, -, rfl⟩ := List.mem_map.mp ha
    apply requiredChange_sound
    apply isText_of (.append (.append (opens_ofList rfl))) (.append (closes_ofList rfl))
    simp only [isXmlCharacter_append, isXmlCharacter_modality, and_true]
    and_intros <;> exact xml_ofList (by decide)

theorem claimChanges_sound (isPrintable : Char → Bool) (P Q : Policy) (claim : Text) :
    ∀ a ∈ claimChanges isPrintable P Q claim, a.Sound := by
  have hpath : IsText ("claims." ++ claim.value) :=
    isText_named (opens_ofList rfl) (xml_ofList (by decide)) claim
  intro a ha
  unfold claimChanges at ha
  split at ha
  · cases ha
  · obtain rfl := List.mem_singleton.mp ha
    refine ⟨hpath, ?_, trivial, trivial⟩
    apply isText_of (.append (.append (opens_ofList rfl))) (.append (closes_ofList rfl))
    simp only [isXmlCharacter_append, isXmlCharacter_reprText, and_true]
    and_intros <;> exact xml_ofList (by decide)
  · obtain rfl := List.mem_singleton.mp ha
    refine ⟨hpath, ?_, trivial, trivial⟩
    apply isText_of (.append (.append (opens_ofList rfl))) (.append (closes_ofList rfl))
    simp only [isXmlCharacter_append, isXmlCharacter_reprText, and_true]
    and_intros <;> exact xml_ofList (by decide)
  · exact ruleChanges_sound claim _ _ a ha

/-- An effect in two written parts. -/
theorem isText_parts {a b : String} (hopens : Opens a) (hcloses : Closes b)
    (ha : isXmlCharacter a = true) (hb : isXmlCharacter b = true) : IsText (a ++ b) :=
  isText_of hopens.append hcloses.append (isXmlCharacter_append.mpr ⟨ha, hb⟩)

theorem compareReliabilityUpdates_sound (P Q : Policy) :
    ∀ a ∈ compareReliabilityUpdates P Q, a.Sound := by
  intro a ha
  unfold compareReliabilityUpdates at ha
  split at ha
  · cases ha
  · obtain rfl := List.mem_singleton.mp ha
    exact ⟨isText_ofList rfl rfl (by decide), isText_parts (opens_ofList rfl) (closes_ofList rfl)
      (xml_ofList (by decide)) (xml_ofList (by decide)), trivial, trivial⟩
  · obtain rfl := List.mem_singleton.mp ha
    exact ⟨isText_ofList rfl rfl (by decide), isText_parts (opens_ofList rfl) (closes_ofList rfl)
      (xml_ofList (by decide)) (xml_ofList (by decide)), trivial, trivial⟩
  · rcases List.mem_append.mp ha with ha | ha
    · split_ifs at ha
      · cases ha
      · obtain rfl := List.mem_singleton.mp ha
        refine ⟨isText_ofList rfl rfl (by decide), ?_, trivial, trivial⟩
        apply isText_parts (.append (opens_ofList rfl)) (closes_ofList rfl) _ (xml_ofList (by decide))
        exact isXmlCharacter_append.mpr ⟨xml_ofList (by decide), xml_ofList (by decide)⟩
    · split_ifs at ha
      · cases ha
      · obtain rfl := List.mem_singleton.mp ha
        exact ⟨isText_ofList rfl rfl (by decide), isText_parts (opens_ofList rfl) (closes_ofList rfl)
          (xml_ofList (by decide)) (xml_ofList (by decide)), trivial, trivial⟩

theorem policyIdChange_sound (isPrintable : Char → Bool) (P Q : Policy) :
    ∀ a ∈ policyIdChange isPrintable P Q, a.Sound := by
  intro a ha
  unfold policyIdChange at ha
  split_ifs at ha
  · cases ha
  · obtain rfl := List.mem_singleton.mp ha
    refine ⟨isText_ofList rfl rfl (by decide), isText_of ?_ (.append (closes_ofList rfl)) ?_, trivial,
      trivial⟩
    · iterate 4 apply Opens.append
      exact opens_ofList rfl
    · simp only [isXmlCharacter_append, isXmlCharacter_reprText, and_true]
      and_intros <;> exact xml_ofList (by decide)

theorem schemaVersionChange_sound (P Q : Policy) : ∀ a ∈ schemaVersionChange P Q, a.Sound := by
  have hbound : ∀ R : Policy, R.sourceSchemaVersion ≤ maxAttributeInteger := fun R =>
    R.version_range.2.trans (by decide +kernel)
  intro a ha
  unfold schemaVersionChange at ha
  split_ifs at ha
  · cases ha
  · obtain rfl := List.mem_singleton.mp ha
    have hversion := (clean_control (.int currentPolicySchemaVersion)).xml
    rw [Control.text] at hversion
    refine ⟨isText_ofList rfl rfl (by decide), ?_, hbound P, hbound Q⟩
    apply isText_of (.append (.append (opens_ofList rfl))) (.append (closes_ofList rfl))
    rw [isXmlCharacter_append, isXmlCharacter_append]
    exact ⟨⟨xml_ofList (by decide), hversion⟩, xml_ofList (by decide)⟩

/-- **Every constructor call is sound.** -/
theorem changeArgs_sound (isPrintable : Char → Bool) (P Q : Policy) :
    ∀ a ∈ changeArgs isPrintable P Q, a.Sound := by
  intro a ha
  simp only [changeArgs, List.mem_append] at ha
  rcases ha with ((((ha | ha) | ha) | ha) | ha) | ha
  · exact policyIdChange_sound isPrintable P Q a ha
  · exact schemaVersionChange_sound P Q a ha
  · exact compareSources_sound isPrintable P Q a ha
  · exact compareDecay_sound P Q a ha
  · obtain ⟨claim, -, ha⟩ := List.mem_flatMap.mp ha
    exact claimChanges_sound isPrintable P Q claim a ha
  · exact compareReliabilityUpdates_sound P Q a ha

end EvidenceBraid
