import EvidenceBraid.ComparisonText

/-!
# Distinct changes

No two constructor calls of a comparison agree in path and effect (`changeArgs_keys_nodup`). Paths
start with their section and end with a field, if any. Where names could make two paths equal — a
source or a claim that is called like another one's field — the effects start differently.
-/

namespace EvidenceBraid

/-! ## Starts of texts -/

/-- The first characters. -/
def heading (n : ℕ) (s : String) : List Char := s.toList.take n

theorem heading_append {n : ℕ} {a b : String} (h : n ≤ a.toList.length) :
    heading n (a ++ b) = heading n a := by
  rw [heading, String.toList_append, List.take_append_of_le_length h, heading]

theorem heading_ofList (n : ℕ) (cs : List Char) : heading n (String.ofList cs) = cs.take n := by
  rw [heading, String.toList_ofList]

theorem length_ofList (cs : List Char) : (String.ofList cs).toList.length = cs.length := by
  rw [String.toList_ofList]

/-- The start of a text whose first part is written out. -/
theorem heading_written {n : ℕ} {cs : List Char} {b : String} (h : n ≤ cs.length) :
    heading n (String.ofList cs ++ b) = cs.take n := by
  rw [heading_append (by rwa [length_ofList]), heading_ofList]

/-- Fields without a point are the same when what precedes them ends with one. -/
theorem append_field_inj {xs ys f g : List Char} (hf : '.' ∉ f) (hg : '.' ∉ g)
    (h : xs ++ '.' :: f = ys ++ '.' :: g) : xs = ys ∧ f = g := by
  rcases List.append_eq_append_iff.mp h with ⟨as, rfl, has⟩ | ⟨as, rfl, has⟩
  · rcases as with _ | ⟨c, as⟩
    · exact ⟨(List.append_nil _).symm, (List.cons.inj has).2⟩
    · obtain ⟨-, rfl⟩ := List.cons.inj has
      exact absurd (List.mem_append_right as List.mem_cons_self) hf
  · rcases as with _ | ⟨c, as⟩
    · exact ⟨List.append_nil _, (List.cons.inj has).2.symm⟩
    · obtain ⟨-, rfl⟩ := List.cons.inj has
      exact absurd (List.mem_append_right as List.mem_cons_self) hg

/-! ## Keys -/

/-- What a change is sorted by. -/
def ChangeArgs.key (a : ChangeArgs) : String × String := (a.path, a.effect)

/-- Changes that differ in path or effect. -/
def Apart (a b : ChangeArgs) : Prop := a.key ≠ b.key

theorem Apart.symm {a b : ChangeArgs} (h : Apart a b) : Apart b a := Ne.symm h

theorem apart_of_path {a b : ChangeArgs} (h : a.path ≠ b.path) : Apart a b := fun hkey =>
  h (congrArg Prod.fst hkey)

theorem apart_of_effect {a b : ChangeArgs} (h : a.effect ≠ b.effect) : Apart a b := fun hkey =>
  h (congrArg Prod.snd hkey)

/-- How the effect of a threshold begins. -/
def thresholdVerbs : List (List Char) := [['r', 'a', 'i'], ['l', 'o', 'w']]

theorem thresholdChange_heading {path : String} {before after : Control} {higherTightens : Bool}
    {effectNoun : String} {a : ChangeArgs}
    (ha : a ∈ thresholdChange path before after higherTightens effectNoun) :
    a.path = path ∧ heading 3 a.effect ∈ thresholdVerbs := by
  unfold thresholdChange at ha
  split_ifs at ha with heq
  · cases ha
  · obtain rfl := Option.some.inj ha
    refine ⟨rfl, ?_⟩
    simp only [String.append_assoc]
    split_ifs <;> rw [heading_written (by decide)] <;> decide

/-! ## Sources -/

/-- How the changes of a source are spelled. -/
theorem sourceChange_heading {isPrintable : Char → Bool} {P Q : Policy} {name : Text} {a : ChangeArgs}
    (ha : a ∈ sourceChange isPrintable P Q name) :
    (a.path = "sources." ++ name.value ∧ heading 3 a.effect ∉ thresholdVerbs) ∨
      (a.path = "sources." ++ name.value ++ ".reliability" ∧ heading 3 a.effect ∈ thresholdVerbs) := by
  unfold sourceChange at ha
  split at ha
  · cases ha
  · obtain rfl := Option.some.inj ha
    refine .inl ⟨rfl, ?_⟩
    simp only [String.append_assoc]
    rw [heading_written (by decide)]
    decide
  · obtain rfl := Option.some.inj ha
    refine .inl ⟨rfl, ?_⟩
    simp only [String.append_assoc]
    rw [heading_written (by decide)]
    decide
  · exact .inr (thresholdChange_heading ha)

/-- Changes of different sources are apart. -/
theorem sourceChange_apart {isPrintable : Char → Bool} {P Q : Policy} {m n : Text} (hne : m ≠ n)
    {a b : ChangeArgs} (ha : a ∈ sourceChange isPrintable P Q m)
    (hb : b ∈ sourceChange isPrintable P Q n) : Apart a b := by
  have hvalue : m.value ≠ n.value := fun h => hne (Text.ext_iff.mpr h)
  rcases sourceChange_heading ha with ⟨hpa, hea⟩ | ⟨hpa, hea⟩ <;>
    rcases sourceChange_heading hb with ⟨hpb, heb⟩ | ⟨hpb, heb⟩
  · apply apart_of_path
    rw [hpa, hpb]
    exact fun h => hvalue (String.append_right_inj _ |>.mp h)
  · apply apart_of_effect
    intro h
    rw [h] at hea
    exact hea heb
  · apply apart_of_effect
    intro h
    rw [h] at hea
    exact heb hea
  · apply apart_of_path
    rw [hpa, hpb, String.append_assoc, String.append_assoc]
    intro h
    exact hvalue (String.append_left_inj _ |>.mp (String.append_right_inj _ |>.mp h))

/-! ## Claims -/

/-- How an effect on the required modalities begins. -/
def requiredVerbs : List (List Char) := [['r', 'e', 'q'], ['n', 'o', ' ']]

/-- The field of a control has no point. -/
theorem point_not_mem_field : ∀ c ∈ claimControls, '.' ∉ c.field.toList := by
  have hplain : ∀ cs : List Char, '.' ∉ cs → '.' ∉ (String.ofList cs).toList := fun cs h => by
    rwa [String.toList_ofList]
  intro c hc
  simp only [claimControls, List.mem_cons, List.not_mem_nil, or_false] at hc
  rcases hc with rfl | rfl | rfl | rfl | rfl | rfl | rfl <;> exact hplain _ (by decide)

theorem claimControls_fields : (claimControls.map (·.field)).Nodup := by decide +kernel

/-- How the changes of a claim are spelled. -/
inductive ClaimSpelling (claim : Text) (a : ChangeArgs) : Prop
  | whole (path : a.path = "claims." ++ claim.value)
      (verb : heading 3 a.effect ∉ thresholdVerbs ++ requiredVerbs)
  | control (field : String) (point : '.' ∉ field.toList)
      (path : a.path = "claims." ++ claim.value ++ "." ++ field)
      (verb : heading 3 a.effect ∈ thresholdVerbs)
  | required (path : a.path = "claims." ++ claim.value ++ ".required_modalities")
      (verb : heading 3 a.effect ∈ requiredVerbs)

theorem requiredWithout_heading {claim : Text} {old new : ClaimRule} {a : ChangeArgs}
    (ha : a ∈ (requiredWithout new old).map (fun modality => requiredChange claim old new .tightens
        ("requires " ++ modality.value ++ " evidence, so a signal without it no longer passes " ++
          "its independence gate however many other modalities corroborate it")) ++
      (requiredWithout old new).map fun modality => requiredChange claim old new .loosens
        ("no longer requires " ++ modality.value ++ " evidence")) :
    a.path = "claims." ++ claim.value ++ ".required_modalities" ∧
      heading 3 a.effect ∈ requiredVerbs := by
  rcases List.mem_append.mp ha with ha | ha
  · obtain ⟨modality, -, rfl⟩ := List.mem_map.mp ha
    refine ⟨rfl, ?_⟩
    simp only [requiredChange, String.append_assoc]
    rw [heading_written (by decide)]
    decide
  · obtain ⟨modality, -, rfl⟩ := List.mem_map.mp ha
    refine ⟨rfl, ?_⟩
    simp only [requiredChange, String.append_assoc]
    rw [heading_written (by decide)]
    decide

theorem claimChanges_spelling {isPrintable : Char → Bool} {P Q : Policy} {claim : Text}
    {a : ChangeArgs} (ha : a ∈ claimChanges isPrintable P Q claim) : ClaimSpelling claim a := by
  unfold claimChanges at ha
  split at ha
  · cases ha
  · obtain rfl := List.mem_singleton.mp ha
    apply ClaimSpelling.whole rfl
    simp only [String.append_assoc]
    rw [heading_written (by decide)]
    decide
  · obtain rfl := List.mem_singleton.mp ha
    apply ClaimSpelling.whole rfl
    simp only [String.append_assoc]
    rw [heading_written (by decide)]
    decide
  · rw [ruleChanges, List.append_assoc] at ha
    rcases List.mem_append.mp ha with ha | ha
    · obtain ⟨control, hcontrol, ha⟩ := List.mem_flatMap.mp ha
      obtain ⟨hpath, hverb⟩ := thresholdChange_heading (Option.mem_toList.mp ha)
      exact .control control.field (point_not_mem_field control hcontrol) hpath hverb
    · obtain ⟨hpath, hverb⟩ := requiredWithout_heading ha
      exact .required hpath hverb

theorem verbs_disjoint : ∀ v ∈ thresholdVerbs, v ∉ requiredVerbs := by decide

/-- Changes of different claims are apart. -/
theorem ClaimSpelling.apart {m n : Text} (hne : m ≠ n) {a b : ChangeArgs} (ha : ClaimSpelling m a)
    (hb : ClaimSpelling n b) : Apart a b := by
  have hvalue : m.value ≠ n.value := fun h => hne (Text.ext_iff.mpr h)
  intro hkey
  obtain ⟨hpath, heffect⟩ := Prod.mk.inj hkey
  cases ha with
  | whole hpa hva =>
    rw [heffect, List.mem_append, not_or] at hva
    cases hb with
    | whole hpb _ =>
      rw [hpa, hpb] at hpath
      exact hvalue (String.append_right_inj _ |>.mp hpath)
    | control _ _ _ hvb => exact hva.1 hvb
    | required _ hvb => exact hva.2 hvb
  | control f hf hpa hva =>
    rw [heffect] at hva
    cases hb with
    | whole _ hvb => exact hvb (List.mem_append_left _ hva)
    | control g hg hpb _ =>
      rw [hpa, hpb] at hpath
      have hlist := congrArg String.toList hpath
      simp only [String.toList_append, List.append_assoc] at hlist
      have hpoint : ".".toList = ['.'] := String.toList_ofList
      rw [hpoint, List.append_cancel_left_eq, List.singleton_append, List.singleton_append] at hlist
      have hnames := (append_field_inj hf hg hlist).1
      exact hvalue (String.toList_inj.mp hnames)
    | required _ hvb => exact verbs_disjoint _ hva hvb
  | required hpa hva =>
    rw [heffect] at hva
    cases hb with
    | whole _ hvb => exact hvb (List.mem_append_right _ hva)
    | control _ _ _ hvb => exact verbs_disjoint _ hvb hva
    | required hpb _ =>
      rw [hpa, hpb, String.append_assoc, String.append_assoc] at hpath
      exact hvalue (String.append_left_inj _ |>.mp (String.append_right_inj _ |>.mp hpath))

theorem pairwise_toList {α : Type} {R : α → α → Prop} (o : Option α) : o.toList.Pairwise R := by
  cases o with
  | none => exact List.Pairwise.nil
  | some a => exact List.pairwise_singleton R a

theorem controlChanges_pairwise (claim : Text) (old new : ClaimRule) :
    (claimControls.flatMap fun control => (controlChange claim old new control).toList).Pairwise
      Apart := by
  have hfields : claimControls.Pairwise fun c c' => c.field ≠ c'.field :=
    List.pairwise_map.mp claimControls_fields
  rw [List.pairwise_flatMap]
  refine ⟨fun _ _ => pairwise_toList _, hfields.imp fun hne a ha b hb => apart_of_path ?_⟩
  rw [(thresholdChange_heading (Option.mem_toList.mp ha)).1,
    (thresholdChange_heading (Option.mem_toList.mp hb)).1]
  exact fun h => hne (String.append_right_inj _ |>.mp h)

/-- Effects that differ in their modality. -/
theorem requiredChanges_pairwise (claim : Text) (old new : ClaimRule) (direction : Direction)
    {ms : List Modality} (hnodup : ms.Nodup) (before after : String) :
    (ms.map fun modality => requiredChange claim old new direction
      (before ++ (modality.value ++ after))).Pairwise Apart := by
  rw [List.pairwise_map]
  refine hnodup.imp fun hne => apart_of_effect fun h => hne ?_
  exact Modality.value_injective
    (String.append_left_inj _ |>.mp (String.append_right_inj _ |>.mp h))

theorem ruleChanges_pairwise (claim : Text) (old new : ClaimRule) :
    (ruleChanges claim old new).Pairwise Apart := by
  unfold ruleChanges
  rw [List.append_assoc, List.pairwise_append, List.pairwise_append]
  refine ⟨controlChanges_pairwise claim old new, ⟨?_, ?_, fun a ha b hb => ?_⟩, fun a ha b hb => ?_⟩
  · simp only [String.append_assoc]
    exact requiredChanges_pairwise claim old new .tightens (nodup_sortedModalities _) _ _
  · simp only [String.append_assoc]
    exact requiredChanges_pairwise claim old new .loosens (nodup_sortedModalities _) _ _
  · apply apart_of_effect
    intro h
    obtain ⟨m, -, rfl⟩ := List.mem_map.mp ha
    obtain ⟨n, -, rfl⟩ := List.mem_map.mp hb
    have hheading := congrArg (heading 3) h
    simp only [requiredChange, String.append_assoc] at hheading
    rw [heading_written (by decide), heading_written (by decide)] at hheading
    exact absurd hheading (by decide)
  · obtain ⟨control, -, ha⟩ := List.mem_flatMap.mp ha
    have hverb := (thresholdChange_heading (Option.mem_toList.mp ha)).2
    apply apart_of_effect
    intro h
    rw [h] at hverb
    exact verbs_disjoint _ hverb (requiredWithout_heading hb).2

/-- The changes of one claim are apart. -/
theorem claimChanges_pairwise (isPrintable : Char → Bool) (P Q : Policy) (claim : Text) :
    (claimChanges isPrintable P Q claim).Pairwise Apart := by
  unfold claimChanges
  split
  · exact List.Pairwise.nil
  · exact List.pairwise_singleton _ _
  · exact List.pairwise_singleton _ _
  · exact ruleChanges_pairwise claim _ _

/-! ## Sections -/

/-- The section that a path belongs to. -/
def section3 (a : ChangeArgs) : List Char := heading 3 a.path

theorem apart_of_section {a b : ChangeArgs} (h : section3 a ≠ section3 b) : Apart a b :=
  apart_of_path fun hpath => h (congrArg (heading 3) hpath)

theorem sourceChange_section {isPrintable : Char → Bool} {P Q : Policy} {name : Text} {a : ChangeArgs}
    (ha : a ∈ sourceChange isPrintable P Q name) : section3 a = ['s', 'o', 'u'] := by
  rcases sourceChange_heading ha with ⟨hpath, -⟩ | ⟨hpath, -⟩
  · rw [section3, hpath, heading_written (by decide)]
    rfl
  · rw [section3, hpath, String.append_assoc, heading_written (by decide)]
    rfl

theorem compareSources_pairwise (isPrintable : Char → Bool) (P Q : Policy) :
    (compareSources isPrintable P Q).Pairwise Apart := by
  unfold compareSources
  rw [List.pairwise_append, List.pairwise_flatMap]
  refine ⟨pairwise_toList _, ⟨fun _ _ => pairwise_toList _, ?_⟩, fun a ha b hb => ?_⟩
  · exact (List.nodup_sortedSet _).imp fun hne a ha b hb =>
      sourceChange_apart hne (Option.mem_toList.mp ha) (Option.mem_toList.mp hb)
  · obtain ⟨name, -, hb⟩ := List.mem_flatMap.mp hb
    apply apart_of_section
    rw [sourceChange_section (Option.mem_toList.mp hb), section3,
      (thresholdChange_heading (Option.mem_toList.mp ha)).1, heading_ofList]
    decide

theorem halfLifeChange_path {P Q : Policy} {modality : Modality} {a : ChangeArgs}
    (ha : a ∈ halfLifeChange P Q modality) :
    a.path = "decay.modality_half_life_seconds." ++ modality.value := by
  unfold halfLifeChange at ha
  split at ha
  · cases ha
  · obtain rfl := Option.some.inj ha
    rfl
  · obtain rfl := Option.some.inj ha
    rfl
  · exact (thresholdChange_heading ha).1

theorem compareDecay_pairwise (P Q : Policy) : (compareDecay P Q).Pairwise Apart := by
  unfold compareDecay
  rw [List.pairwise_append, List.pairwise_append, List.pairwise_flatMap]
  refine ⟨⟨pairwise_toList _, pairwise_toList _, fun a ha b hb => ?_⟩, ⟨fun _ _ => pairwise_toList _, ?_⟩,
    fun a ha b hb => ?_⟩
  · apply apart_of_path
    rw [(thresholdChange_heading (Option.mem_toList.mp ha)).1,
      (thresholdChange_heading (Option.mem_toList.mp hb)).1]
    decide
  · refine (nodup_sortedModalities _).imp fun hne a ha b hb => apart_of_path ?_
    rw [halfLifeChange_path (Option.mem_toList.mp ha), halfLifeChange_path (Option.mem_toList.mp hb)]
    exact fun h => hne (Modality.value_injective (String.append_right_inj _ |>.mp h))
  · obtain ⟨modality, -, hb⟩ := List.mem_flatMap.mp hb
    apply apart_of_path
    intro h
    have hheading := congrArg (heading 8) h
    rw [halfLifeChange_path (Option.mem_toList.mp hb), heading_written (by decide)] at hheading
    rcases List.mem_append.mp ha with ha | ha <;>
      rw [(thresholdChange_heading (Option.mem_toList.mp ha)).1, heading_ofList] at hheading <;>
      exact absurd hheading (by decide)

theorem compareClaims_pairwise (isPrintable : Char → Bool) (P Q : Policy) :
    (compareClaims isPrintable P Q).Pairwise Apart := by
  unfold compareClaims
  rw [List.pairwise_flatMap]
  exact ⟨fun claim _ => claimChanges_pairwise isPrintable P Q claim,
    (List.nodup_sortedSet _).imp fun hne a ha b hb =>
      (claimChanges_spelling ha).apart hne (claimChanges_spelling hb)⟩

theorem compareReliabilityUpdates_pairwise (P Q : Policy) :
    (compareReliabilityUpdates P Q).Pairwise Apart := by
  unfold compareReliabilityUpdates
  split
  · exact List.Pairwise.nil
  · exact List.pairwise_singleton _ _
  · exact List.pairwise_singleton _ _
  · split_ifs
    · exact List.Pairwise.nil
    · exact List.pairwise_singleton _ _
    · exact List.pairwise_singleton _ _
    · refine List.pairwise_pair.mpr (apart_of_path ?_)
      change "reliability_updates.prior_weight" ≠ "reliability_updates.max_adjustment"
      decide

/-! ## All changes -/

theorem mem_policyIdChange {isPrintable : Char → Bool} {P Q : Policy} {a : ChangeArgs}
    (ha : a ∈ policyIdChange isPrintable P Q) : section3 a = ['p', 'o', 'l'] := by
  unfold policyIdChange at ha
  split_ifs at ha
  · cases ha
  · obtain rfl := List.mem_singleton.mp ha
    exact heading_ofList 3 _

theorem mem_schemaVersionChange {P Q : Policy} {a : ChangeArgs}
    (ha : a ∈ schemaVersionChange P Q) : section3 a = ['s', 'c', 'h'] := by
  unfold schemaVersionChange at ha
  split_ifs at ha
  · cases ha
  · obtain rfl := List.mem_singleton.mp ha
    exact heading_ofList 3 _

theorem mem_compareSources {isPrintable : Char → Bool} {P Q : Policy} {a : ChangeArgs}
    (ha : a ∈ compareSources isPrintable P Q) :
    section3 a ∈ [['d', 'e', 'f'], ['s', 'o', 'u']] := by
  rcases List.mem_append.mp ha with ha | ha
  · rw [section3, (thresholdChange_heading (Option.mem_toList.mp ha)).1, heading_ofList]
    decide
  · obtain ⟨name, -, ha⟩ := List.mem_flatMap.mp ha
    rw [sourceChange_section (Option.mem_toList.mp ha)]
    decide

theorem mem_compareDecay {P Q : Policy} {a : ChangeArgs} (ha : a ∈ compareDecay P Q) :
    section3 a = ['d', 'e', 'c'] := by
  rcases List.mem_append.mp ha with ha | ha
  · rcases List.mem_append.mp ha with ha | ha <;>
      rw [section3, (thresholdChange_heading (Option.mem_toList.mp ha)).1, heading_ofList] <;> rfl
  · obtain ⟨modality, -, ha⟩ := List.mem_flatMap.mp ha
    rw [section3, halfLifeChange_path (Option.mem_toList.mp ha), heading_written (by decide)]
    rfl

theorem ClaimSpelling.section {claim : Text} {a : ChangeArgs} (h : ClaimSpelling claim a) :
    section3 a = ['c', 'l', 'a'] := by
  rcases h with ⟨hpath, -⟩ | ⟨_, -, hpath, -⟩ | ⟨hpath, -⟩
  · rw [section3, hpath, heading_written (by decide)]
    rfl
  · rw [section3, hpath, String.append_assoc, String.append_assoc, heading_written (by decide)]
    rfl
  · rw [section3, hpath, String.append_assoc, heading_written (by decide)]
    rfl

theorem mem_compareReliabilityUpdates {P Q : Policy} {a : ChangeArgs}
    (ha : a ∈ compareReliabilityUpdates P Q) : section3 a = ['r', 'e', 'l'] := by
  unfold compareReliabilityUpdates at ha
  split at ha
  · cases ha
  · obtain rfl := List.mem_singleton.mp ha
    exact heading_ofList 3 _
  · obtain rfl := List.mem_singleton.mp ha
    exact heading_ofList 3 _
  · rcases List.mem_append.mp ha with ha | ha <;> split_ifs at ha
    · cases ha
    · obtain rfl := List.mem_singleton.mp ha
      exact heading_ofList 3 _
    · cases ha
    · obtain rfl := List.mem_singleton.mp ha
      exact heading_ofList 3 _

/-- Changes that belong to these sections. -/
def Within (xs : List ChangeArgs) (sections : List (List Char)) : Prop :=
  ∀ a ∈ xs, section3 a ∈ sections

theorem Within.append {xs ys : List ChangeArgs} {s t : List (List Char)} (hx : Within xs s)
    (hy : Within ys t) : Within (xs ++ ys) (s ++ t) := by
  intro a ha
  rcases List.mem_append.mp ha with ha | ha
  · exact List.mem_append_left t (hx a ha)
  · exact List.mem_append_right s (hy a ha)

theorem within_singleton {xs : List ChangeArgs} {c : List Char} (h : ∀ a ∈ xs, section3 a = c) :
    Within xs [c] := fun a ha => List.mem_singleton.mpr (h a ha)

/-- Lists of changes of different sections. -/
theorem pairwise_append_sections {xs ys : List ChangeArgs} {s t : List (List Char)}
    (hx : xs.Pairwise Apart) (hy : ys.Pairwise Apart) (hs : Within xs s) (ht : Within ys t)
    (hdisjoint : ∀ c ∈ s, c ∉ t) : (xs ++ ys).Pairwise Apart := by
  refine List.pairwise_append.mpr ⟨hx, hy, fun a ha b hb => apart_of_section fun h => ?_⟩
  exact hdisjoint _ (hs a ha) (h ▸ ht b hb)

theorem policyIdChange_pairwise (isPrintable : Char → Bool) (P Q : Policy) :
    (policyIdChange isPrintable P Q).Pairwise Apart := by
  unfold policyIdChange
  split_ifs
  · exact List.Pairwise.nil
  · exact List.pairwise_singleton _ _

theorem schemaVersionChange_pairwise (P Q : Policy) : (schemaVersionChange P Q).Pairwise Apart := by
  unfold schemaVersionChange
  split_ifs
  · exact List.Pairwise.nil
  · exact List.pairwise_singleton _ _

/-- **No two constructor calls agree** in path and effect. -/
theorem changeArgs_keys_nodup (isPrintable : Char → Bool) (P Q : Policy) :
    ((changeArgs isPrintable P Q).map ChangeArgs.key).Nodup := by
  have hnames := within_singleton fun a => @mem_policyIdChange isPrintable P Q a
  have hversions := within_singleton fun a => @mem_schemaVersionChange P Q a
  have hsources : Within (compareSources isPrintable P Q) [['d', 'e', 'f'], ['s', 'o', 'u']] :=
    fun a => mem_compareSources
  have hdecay := within_singleton fun a => @mem_compareDecay P Q a
  have hclaims : Within (compareClaims isPrintable P Q) [['c', 'l', 'a']] :=
    within_singleton fun a ha => by
      obtain ⟨claim, -, ha⟩ := List.mem_flatMap.mp ha
      exact (claimChanges_spelling ha).section
  have hupdates := within_singleton fun a => @mem_compareReliabilityUpdates P Q a
  have hfirst := pairwise_append_sections (policyIdChange_pairwise isPrintable P Q)
    (schemaVersionChange_pairwise P Q) hnames hversions (by decide)
  have hsecond := pairwise_append_sections hfirst (compareSources_pairwise isPrintable P Q)
    (hnames.append hversions) hsources (by decide)
  have hthird := pairwise_append_sections hsecond (compareDecay_pairwise P Q)
    ((hnames.append hversions).append hsources) hdecay (by decide)
  have hfourth := pairwise_append_sections hthird (compareClaims_pairwise isPrintable P Q)
    (((hnames.append hversions).append hsources).append hdecay) hclaims (by decide)
  exact List.pairwise_map.mpr (pairwise_append_sections hfourth
    (compareReliabilityUpdates_pairwise P Q)
    ((((hnames.append hversions).append hsources).append hdecay).append hclaims) hupdates (by decide))

end EvidenceBraid
