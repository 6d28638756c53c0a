import EvidenceBraid.ComparisonKeys
import EvidenceBraid.Library.Traverse

/-!
# What a comparison returns

Each constructor call of a comparison succeeds once its numbers are converted (`make_eq_ok`), and no two
agree in what changes are sorted by. So a comparison returns the changes of its calls, sorted,
when there are at most `MAX_ATTRIBUTE_NODES` of them (`comparePolicies_eq_ok`).
-/

namespace EvidenceBraid

/-! ## Constructor calls -/

/-- The change that a constructor call returns. -/
structure Renders (a : ChangeArgs) (c : PolicyChange) : Prop where
  path : c.path.value = a.path
  effect : c.effect.value = a.effect
  direction : c.direction = a.direction
  before : a.before.toJson = .ok c.before
  after : a.after.toJson = .ok c.after

theorem freezeItems_texts : ∀ {xs : List Json} {path : String} {i budget : ℕ},
    (∀ x ∈ xs, ∃ s : String, x = .str s ∧ isXmlCharacter s = true) → xs.length ≤ budget →
    freezeItems xs path i 1 budget = .ok (xs, budget - xs.length)
  | [], path, i, budget, _, _ => rfl
  | x :: xs, path, i, budget, hxs, hbudget => by
    rw [List.forall_mem_cons] at hxs
    obtain ⟨⟨s, rfl, hs⟩, hrest⟩ := hxs
    rw [List.length_cons] at hbudget
    have hpos : budget ≠ 0 := by omega
    have hdepth : 1 ≤ maxAttributeDepth := by decide
    have hitem : freezeJson (.str s) (path ++ "[" ++ toString i ++ "]") 1 budget =
        .ok (.str s, budget - 1) := by
      rw [freezeJson, valid_of hpos, ok_bind, valid_of hdepth, ok_bind]
      simp only [valid_of hs, ok_bind]
    rw [freezeItems, hitem, ok_bind]
    simp only [freezeItems_texts hrest (by omega : xs.length ≤ budget - 1), ok_bind, List.length_cons,
      Nat.sub_sub, Nat.add_comm 1]

theorem Setting.freeze {s : Setting} (h : s.Wf) {json : Json} (hjson : s.toJson = .ok json)
    (path : String) : ∃ k, freezeJson json path 0 maxAttributeNodes = .ok (json, k) := by
  have hnodes : maxAttributeNodes ≠ 0 := by decide
  have hdepth : 0 ≤ maxAttributeDepth := Nat.zero_le _
  cases s with
  | absent =>
    obtain rfl := Except.ok.inj hjson
    exact ⟨_, by rw [freezeJson, valid_of hnodes, ok_bind, valid_of hdepth, ok_bind]⟩
  | control c =>
    have hfloat : ∃ x, json = .float x := by
      cases c with
      | float x => exact ⟨x, (Except.ok.inj hjson).symm⟩
      | int n =>
        simp only [Setting.toJson, Control.number, bind_eq_ok, Except.ok.injEq] at hjson
        obtain ⟨x, -, rfl⟩ := hjson
        exact ⟨x, rfl⟩
    obtain ⟨x, rfl⟩ := hfloat
    exact ⟨_, by rw [freezeJson, valid_of hnodes, ok_bind, valid_of hdepth, ok_bind]⟩
  | version n =>
    obtain rfl := Except.ok.inj hjson
    refine ⟨maxAttributeNodes - 1, ?_⟩
    rw [freezeJson, valid_of hnodes, ok_bind, valid_of hdepth, ok_bind]
    have hbound : (n : ℤ).natAbs ≤ maxAttributeInteger := h
    simp only [valid_of hbound, ok_bind]
  | name t =>
    obtain rfl := Except.ok.inj hjson
    refine ⟨maxAttributeNodes - 1, ?_⟩
    rw [freezeJson, valid_of hnodes, ok_bind, valid_of hdepth, ok_bind]
    simp only [valid_of t.xml, ok_bind]
  | modalities ms =>
    obtain rfl := Except.ok.inj hjson
    have hlength : ms.length ≤ 4 := by
      have hsub : ms ⊆ [.vision, .audio, .text, .sensor] := fun m _ => by cases m <;> decide
      exact (h.subperm hsub).length_le
    have htexts : ∀ x ∈ ms.map fun m => Json.str m.value,
        ∃ s : String, x = .str s ∧ isXmlCharacter s = true := fun x hx => by
      obtain ⟨m, -, rfl⟩ := List.mem_map.mp hx
      exact ⟨m.value, rfl, isXmlCharacter_modality m⟩
    have hbudget : (ms.map fun m => Json.str m.value).length ≤ maxAttributeNodes - 1 := by
      rw [List.length_map]
      exact hlength.trans (by decide)
    refine ⟨maxAttributeNodes - 1 - (ms.map fun m => Json.str m.value).length, ?_⟩
    rw [freezeJson, valid_of hnodes, ok_bind, valid_of hdepth, ok_bind]
    simp only [freezeItems_texts htexts hbudget, ok_bind]
  | updates rule =>
    obtain rfl := Except.ok.inj hjson
    have hlt : "max_adjustment" < "prior_weight" := by decide
    have hsorted : Json.dict [("prior_weight", Json.float rule.priorWeight.value),
        ("max_adjustment", .float rule.maxAdjustment.value)] =
        .obj [("max_adjustment", .float rule.maxAdjustment.value),
          ("prior_weight", .float rule.priorWeight.value)] := by
      simp only [Json.dict, List.foldr_cons, List.foldr_nil, Json.insertKey, if_neg hlt.asymm,
        if_pos hlt]
    refine ⟨maxAttributeNodes - 3, ?_⟩
    rw [hsorted]
    simp only [freezeJson, freezeMembers, bind_eq_ok, valid_eq_ok, exists_unit, Except.ok.injEq,
      Prod.mk.injEq, Prod.exists]
    exact ⟨hnodes, hdepth, _, _, ⟨xml_ofList (by decide), _, _, ⟨by decide, by decide, rfl, rfl⟩, _, _,
      ⟨xml_ofList (by decide), _, _, ⟨by decide, by decide, rfl, rfl⟩, _, _, ⟨rfl, rfl⟩, rfl, rfl⟩,
      rfl, rfl⟩, by simp only [Json.insertKey, if_pos hlt], rfl⟩

theorem make_eq_ok {a : ChangeArgs} (h : a.Sound) {c : PolicyChange} :
    PolicyChange.make a = .ok c ↔ Renders a c := by
  obtain ⟨path, hpath⟩ := h.path
  obtain ⟨effect, heffect⟩ := h.effect
  simp only [PolicyChange.make, PolicyChange.init, ← hpath, ← heffect, text_value, bind_eq_ok,
    Except.ok.injEq, Prod.exists]
  constructor
  · rintro ⟨before, hbefore, after, hafter, _, rfl, _, rfl, before', _, hfreeze, after', _, hfreeze',
      rfl⟩
    obtain ⟨_, hb⟩ := Setting.freeze h.before hbefore "change.before"
    obtain ⟨_, ha⟩ := Setting.freeze h.after hafter "change.after"
    obtain rfl : before = before' := congrArg Prod.fst (Except.ok.inj (hb.symm.trans hfreeze))
    obtain rfl : after = after' := congrArg Prod.fst (Except.ok.inj (ha.symm.trans hfreeze'))
    exact ⟨hpath, heffect, rfl, hbefore, hafter⟩
  · intro hc
    obtain ⟨k, hb⟩ := Setting.freeze h.before hc.before "change.before"
    obtain ⟨k', ha⟩ := Setting.freeze h.after hc.after "change.after"
    refine ⟨c.before, hc.before, c.after, hc.after, path, rfl, effect, rfl, c.before, k, hb, c.after,
      k', ha, ?_⟩
    obtain rfl : c.path = path := Text.ext_iff.mpr (hc.path.trans hpath.symm)
    obtain rfl : c.effect = effect := Text.ext_iff.mpr (hc.effect.trans heffect.symm)
    rw [← hc.direction]

/-- A change passes its own constructor unchanged. -/
theorem validatedSnapshot_of_renders {a : ChangeArgs} (h : a.Sound) {c : PolicyChange}
    (hc : Renders a c) : c.validatedSnapshot = .ok c := by
  obtain ⟨k, hb⟩ := Setting.freeze h.before hc.before "change.before"
  obtain ⟨k', ha⟩ := Setting.freeze h.after hc.after "change.after"
  simp only [PolicyChange.validatedSnapshot, PolicyChange.init, text_value, ok_bind, hb, ha]

/-! ## Comparisons -/

theorem key_of_renders {a : ChangeArgs} {c : PolicyChange} (h : Renders a c) :
    c.key = toLex a.key := by
  rw [PolicyChange.key, h.path, h.effect]
  rfl

theorem renders_keys {args : List ChangeArgs} {changes : List PolicyChange}
    (h : List.Forall₂ Renders args changes) : changes.map PolicyChange.key =
      args.map fun a => (toLex a.key : String ×ₗ String) := by
  induction h with
  | nil => rfl
  | cons hc _ ih => rw [List.map_cons, List.map_cons, ih, key_of_renders hc]

/-- The constructor of a comparison keeps changes that are sorted, distinct and not too many. -/
theorem PolicyComparison.make_eq_ok {changes : List PolicyChange} {c : PolicyComparison}
    (hsnapshots : ∀ x ∈ changes, x.validatedSnapshot = .ok x)
    (hsorted : changes.Pairwise fun a b => a.key ≤ b.key)
    (hdistinct : (changes.map PolicyChange.key).Nodup) :
    PolicyComparison.make changes = .ok c ↔
      changes.length ≤ maxAttributeNodes ∧ c = ⟨changes⟩ := by
  have hloop : ∀ xs : List PolicyChange, xs.Sublist changes →
      xs.mapM PolicyChange.validatedSnapshot = .ok xs := fun xs hsub => by
    rw [List.mapM_eq_ok]
    exact List.forall₂_same.mpr fun x hx => hsnapshots x (hsub.subset hx)
  rw [make, hloop _ (List.take_sublist _ _), ok_bind]
  simp only [bind_eq_ok, valid_eq_ok, exists_unit, Except.ok.injEq]
  constructor
  · rintro ⟨hlength, -, rfl⟩
    rw [List.take_of_length_le hlength, List.sortOn_of_pairwise hsorted]
    exact ⟨hlength, rfl⟩
  · rintro ⟨hlength, rfl⟩
    rw [List.take_of_length_le hlength, List.sortOn_of_pairwise hsorted]
    exact ⟨hlength, hdistinct, rfl⟩

/-- **What a comparison returns**: the changes of its constructor calls, sorted. -/
theorem comparePolicies_eq_ok {isPrintable : Char → Bool} {P Q : Policy} {c : PolicyComparison} :
    comparePolicies isPrintable P Q = .ok c ↔
      (changeArgs isPrintable P Q).length ≤ maxAttributeNodes ∧
      ∃ changes, List.Forall₂ Renders (changeArgs isPrintable P Q) changes ∧
        c = ⟨changes.sortOn PolicyChange.key⟩ := by
  have hsound := changeArgs_sound isPrintable P Q
  have hmake : ∀ changes, (changeArgs isPrintable P Q).mapM PolicyChange.make = .ok changes ↔
      List.Forall₂ Renders (changeArgs isPrintable P Q) changes := fun changes => by
    rw [List.mapM_eq_ok]
    exact List.forall₂_congr_mem fun a ha c => make_eq_ok (hsound a ha)
  have hcompare : ∀ {changes}, List.Forall₂ Renders (changeArgs isPrintable P Q) changes →
      (PolicyComparison.make (changes.sortOn PolicyChange.key) = .ok c ↔
        (changeArgs isPrintable P Q).length ≤ maxAttributeNodes ∧
        c = ⟨changes.sortOn PolicyChange.key⟩) := fun {changes} hchanges => by
    have hdistinct : ((changes.sortOn PolicyChange.key).map PolicyChange.key).Nodup := by
      have hkeys := (changeArgs_keys_nodup isPrintable P Q).map toLex.injective
      rw [List.map_map] at hkeys
      rw [((List.sortOn_perm _ changes).map _).nodup_iff, renders_keys hchanges]
      exact hkeys
    have hsnapshots : ∀ x ∈ changes.sortOn PolicyChange.key, x.validatedSnapshot = .ok x :=
      fun x hx => by
        obtain ⟨a, ha, hrenders⟩ := List.exists_of_mem_forall₂ hchanges (List.mem_sortOn.mp hx)
        exact validatedSnapshot_of_renders (hsound a ha) hrenders
    rw [PolicyComparison.make_eq_ok hsnapshots (List.pairwise_sortOn _ _) hdistinct,
      List.length_sortOn, hchanges.length_eq]
  rw [comparePolicies, bind_eq_ok]
  constructor
  · rintro ⟨changes, hchanges, hc⟩
    rw [hmake] at hchanges
    obtain ⟨hlength, rfl⟩ := (hcompare hchanges).mp hc
    exact ⟨hlength, changes, hchanges, rfl⟩
  · rintro ⟨hlength, changes, hchanges, rfl⟩
    exact ⟨changes, (hmake changes).mpr hchanges, (hcompare hchanges).mpr ⟨hlength, rfl⟩⟩

end EvidenceBraid
