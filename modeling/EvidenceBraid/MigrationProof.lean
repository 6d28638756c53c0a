import EvidenceBraid.Migration
import EvidenceBraid.ComparisonIdentical
import EvidenceBraid.EventCodec

/-!
# Migrations preserve policies

A schema 1 document and its migration are read by the same constructor, so they give the same policy up
to the declared version — when the migrated document is frozen as well. The upgrade adds one value for
each claim and nothing that is deeper than the limit, so this is a matter of the document's size
(`migration_preserves_iff`).
-/

namespace EvidenceBraid

open Json (WellKeyed nodes popped assign)

/-! ## Measures -/

theorem reachMembers_le_iff {kvs : List (String × Json)} {n : ℕ} :
    reachMembers kvs ≤ n ↔ ∀ kv ∈ kvs, reach kv.2 + 1 ≤ n := by
  induction kvs with
  | nil => simp [reachMembers]
  | cons kv kvs ih => rw [reachMembers, max_le_iff, ih, List.forall_mem_cons]

theorem reach_assign_le (k : String) (v : Json) (kvs : List (String × Json)) :
    reach (.obj (assign k v kvs)) ≤ max (reach (.obj kvs)) (reach v + 1) := by
  rw [reach, reach, reachMembers_le_iff]
  intro kv hkv
  rcases Json.mem_assign.mp hkv with rfl | ⟨hkv, -⟩
  · exact le_max_right _ _
  · exact (reachMembers_le_iff.mp le_rfl kv hkv).trans (le_max_left _ _)

/-- Setting a member keeps the keys XML text. -/
theorem xmlKeys_assign {k : String} {v : Json} {kvs : List (String × Json)}
    (hk : isXmlCharacter k = true) (hv : ∀ x ∈ popped v, XmlKeys x)
    (h : ∀ x ∈ popped (.obj kvs), XmlKeys x) : ∀ x ∈ popped (.obj (assign k v kvs)), XmlKeys x := by
  rw [Json.forall_popped_obj] at h ⊢
  constructor
  · intro kv hkv
    rcases Json.mem_assign.mp hkv with rfl | ⟨hkv, -⟩
    · exact hk
    · exact h.1 kv hkv
  · intro kv hkv
    rcases Json.mem_assign.mp hkv with rfl | ⟨hkv, -⟩
    · exact hv
    · exact h.2 kv hkv

/-! ## Upgraded claims -/

/-- A claim and its upgrade. -/
def Upgraded (claim claim' : String × Json) : Prop :=
  ∃ name rule, claim = (name, .obj rule) ∧ "required_modalities" ∉ Json.keys rule ∧
    claim' = (name, .obj (assign "required_modalities" (.arr []) rule))

theorem upgraded_of_upgradeClaim {claim : String × Json} {r : (String × Json) × MigrationNote}
    (h : upgradeClaim claim = .ok r) : Upgraded claim r.1 := by
  obtain ⟨name, value⟩ := claim
  cases value with
  | obj rule =>
    simp only [upgradeClaim, bind_eq_ok, valid_eq_ok, exists_unit, Except.ok.injEq] at h
    obtain ⟨hnew, _, -, rfl⟩ := h
    exact ⟨name, rule, rfl, hnew, rfl⟩
  | _ => cases h

theorem upgraded_of_mapM {claims : List (String × Json)}
    {upgraded : List ((String × Json) × MigrationNote)}
    (h : claims.mapM upgradeClaim = .ok upgraded) :
    List.Forall₂ Upgraded claims (upgraded.map Prod.fst) := by
  rw [List.mapM_eq_ok] at h
  exact List.forall₂_map_right_iff.mpr (h.imp fun _ _ => upgraded_of_upgradeClaim)

section Claims

variable {claims claims' : List (String × Json)} (h : List.Forall₂ Upgraded claims claims')
include h

theorem keys_upgraded : Json.keys claims' = Json.keys claims := by
  induction h with
  | nil => rfl
  | cons hclaim _ ih =>
    obtain ⟨name, rule, rfl, -, rfl⟩ := hclaim
    exact congrArg (name :: ·) ih

/-- Each claim grows by one value. -/
theorem nodes_upgraded : nodes (.obj claims') = nodes (.obj claims) + claims.length := by
  rw [Json.nodes_obj, Json.nodes_obj, Nat.add_assoc]
  congr 1
  induction h with
  | nil => rfl
  | cons hclaim _ ih =>
    obtain ⟨name, rule, rfl, hnew, rfl⟩ := hclaim
    have hempty : nodes (.arr []) = 1 := rfl
    simp only [List.map_cons, List.sum_cons, List.length_cons, Json.nodes_assign_new hnew, hempty, ih]
    omega

theorem wellKeyed_upgraded (hkeyed : WellKeyed (.obj claims)) : WellKeyed (.obj claims') := by
  obtain ⟨hsorted, hall⟩ := Json.wellKeyed_obj.mp hkeyed
  refine Json.wellKeyed_obj.mpr ⟨?_, fun kv hkv => ?_⟩
  · rw [Json.KeysSorted, keys_upgraded h]
    exact hsorted
  · obtain ⟨claim, hclaim, name, rule, rfl, -, rfl⟩ := List.exists_of_mem_forall₂ h hkv
    exact Json.wellKeyed_assign (Json.wellKeyed_arr.mpr nofun) (hall _ hclaim)

theorem xmlKeys_upgraded (hkeys : ∀ x ∈ popped (.obj claims), XmlKeys x) :
    ∀ x ∈ popped (.obj claims'), XmlKeys x := by
  rw [Json.forall_popped_obj] at hkeys ⊢
  constructor
  · intro kv hkv
    obtain ⟨claim, hclaim, name, rule, rfl, -, rfl⟩ := List.exists_of_mem_forall₂ h hkv
    exact hkeys.1 (name, .obj rule) hclaim
  · intro kv hkv
    obtain ⟨claim, hclaim, name, rule, rfl, -, rfl⟩ := List.exists_of_mem_forall₂ h hkv
    apply xmlKeys_assign (by decide) _ (hkeys.2 _ hclaim)
    exact List.forall_mem_singleton.mpr trivial

theorem reach_upgraded : reach (.obj claims') ≤ max (reach (.obj claims)) 2 := by
  rw [reach, reachMembers_le_iff]
  intro kv hkv
  obtain ⟨claim, hclaim, name, rule, rfl, -, rfl⟩ := List.exists_of_mem_forall₂ h hkv
  have hrule := reachMembers_le_iff.mp (le_refl (reachMembers claims)) _ hclaim
  have hassign := reach_assign_le "required_modalities" (.arr []) rule
  have hempty : reach (.arr []) = 0 := rfl
  have hclaims : reach (.obj claims) = reachMembers claims := rfl
  dsimp only at hrule ⊢
  omega

end Claims

/-! ## The migrated document -/

/-- How many claims a policy document has. -/
def claimCount (document : List (String × Json)) : ℕ :=
  match Json.get? document "claims" with
  | some (.obj claims) => claims.length
  | _ => 0

/-- The migration of a schema 1 document. -/
structure Migrated (document document' : List (String × Json)) : Prop where
  keyed : WellKeyed (.obj document')
  xmlKeys : ∀ x ∈ popped (.obj document'), XmlKeys x
  reach_le : reach (.obj document') ≤ maxAttributeDepth
  nodes_eq : nodes (.obj document') = nodes (.obj document) + claimCount document
  version : policySchemaVersion (.obj document') = .ok ⟨2, by decide⟩

theorem claimsOf_eq_ok {document claims : List (String × Json)} (h : claimsOf document = .ok claims) :
    Json.get? document "claims" = some (.obj claims) := by
  unfold claimsOf at h
  split at h
  · next claims' hget =>
    obtain rfl := Except.ok.inj h
    exact hget
  · cases h

theorem policySchemaVersion_of_get? {document : List (String × Json)}
    (h : Json.get? document "schema_version" = some (.int 2)) :
    policySchemaVersion (.obj document) = .ok ⟨2, by decide⟩ := by
  rw [policySchemaVersion, h]
  rfl

theorem get?_schemaVersion {document : List (String × Json)} {v : SchemaVersion}
    (h : policySchemaVersion (.obj document) = .ok v) :
    Json.get? document "schema_version" = some (.int v.val) := by
  unfold policySchemaVersion at h
  dsimp only at h
  split at h
  · next version hget =>
    split_ifs at h with hmin hmax
    obtain rfl := Except.ok.inj h
    have hnonneg : 0 ≤ version := le_trans (by decide) hmin
    rw [hget]
    simp only [Int.toNat_of_nonneg hnonneg]
  · cases h

theorem migrated_of_upgrade {document document' : List (String × Json)}
    {notes : List MigrationNote} (hkeyed : WellKeyed (.obj document))
    (hkeys : ∀ x ∈ popped (.obj document), XmlKeys x)
    (hreach : reach (.obj document) ≤ maxAttributeDepth)
    (hversion : policySchemaVersion (.obj document) = .ok ⟨1, by decide⟩)
    (h : upgrade1To2 document = .ok (document', notes)) : Migrated document document' := by
  simp only [upgrade1To2, bind_eq_ok, Except.ok.injEq, Prod.mk.injEq] at h
  obtain ⟨claims, hclaims, upgraded, hupgraded, rfl, -⟩ := h
  have hget := claimsOf_eq_ok hclaims
  have hall := upgraded_of_mapM hupgraded
  obtain ⟨hsorted, hmembers⟩ := Json.wellKeyed_obj.mp hkeyed
  have hnodup : (Json.keys document).Nodup := hsorted.imp fun hlt => hlt.ne
  have hclaim : ("claims", Json.obj claims) ∈ document := (Json.mem_iff_get? hnodup).mpr hget
  have hkeyed' : WellKeyed (.obj (assign "claims" (.obj (upgraded.map Prod.fst)) document)) :=
    Json.wellKeyed_assign (wellKeyed_upgraded hall (hmembers _ hclaim)) hkeyed
  refine ⟨Json.wellKeyed_assign (by simp) hkeyed', ?_, ?_, ?_, ?_⟩
  · apply xmlKeys_assign (by decide) (List.forall_mem_singleton.mpr trivial)
    apply xmlKeys_assign (by decide) _ hkeys
    exact xmlKeys_upgraded hall ((Json.forall_popped_obj.mp hkeys).2 _ hclaim)
  · -- the claims stay below the limit, and what is set is not deep
    have hbelow := reachMembers_le_iff.mp (show reachMembers document ≤ _ from hreach) _ hclaim
    have hclaims' := reach_upgraded hall
    have hset := reach_assign_le "claims" (.obj (upgraded.map Prod.fst)) document
    refine (reach_assign_le _ _ _).trans (max_le (hset.trans (max_le hreach ?_)) (by decide))
    have hlimit : maxAttributeDepth = 64 := rfl
    dsimp only at hbelow
    omega
  · have hsize := Json.nodes_assign_old (v := .obj (upgraded.map Prod.fst)) hnodup hget
    have hnodup' : (Json.keys (assign "claims" (.obj (upgraded.map Prod.fst)) document)).Nodup :=
      (Json.keysSorted_assign hsorted).imp fun hlt => hlt.ne
    have hget' : Json.get? (assign "claims" (.obj (upgraded.map Prod.fst)) document)
        "schema_version" = some (.int 1) := by
      rw [Json.get?_assign, if_neg (by decide)]
      exact get?_schemaVersion hversion
    have hsize' := Json.nodes_assign_old (v := .int 2) hnodup' hget'
    have hint : ∀ n, nodes (.int n) = 1 := fun _ => rfl
    rw [hint, hint] at hsize'
    rw [nodes_upgraded hall] at hsize
    rw [claimCount, hget]
    dsimp only
    omega
  · apply policySchemaVersion_of_get?
    rw [Json.get?_assign, if_pos rfl]

/-! ## Migrations -/

theorem freezeUnchecked_of_migrate {document : List (String × Json)} {r : Json × MigrationReport}
    (hkeyed : WellKeyed (.obj document)) (h : migratePolicyDocument (.obj document) = .ok r) :
    (∀ x ∈ popped (.obj document), XmlKeys x) ∧ reach (.obj document) ≤ maxAttributeDepth ∧
      nodes (.obj document) ≤ maxAttributeNodes := by
  simp only [migratePolicyDocument, bind_eq_ok, Prod.exists] at h
  obtain ⟨snapshot, left, hfreeze, -⟩ := h
  obtain ⟨hkeys, hreach, hnodes, -, -⟩ := (freezeUnchecked_eq_ok hkeyed).mp hfreeze
  exact ⟨hkeys, by omega, hnodes⟩

/-- A schema 1 document that is migrated. -/
theorem exists_migrated {document : List (String × Json)} {r : Json × MigrationReport}
    (hkeyed : WellKeyed (.obj document))
    (hversion : policySchemaVersion (.obj document) = .ok ⟨1, by decide⟩)
    (h : migratePolicyDocument (.obj document) = .ok r) :
    ∃ document', r.1 = .obj document' ∧ Migrated document document' := by
  obtain ⟨hkeys, hreach, -⟩ := freezeUnchecked_of_migrate hkeyed h
  simp only [migratePolicyDocument, bind_eq_ok, Prod.exists] at h
  obtain ⟨snapshot, left, hfreeze, version, hversion', document₁, hdocument, h⟩ := h
  obtain ⟨document', version', notes, hloop, report, -, h⟩ := h
  obtain ⟨-, -, -, rfl, -⟩ := (freezeUnchecked_eq_ok hkeyed).mp hfreeze
  obtain rfl := Except.ok.inj (hversion.symm.trans hversion')
  obtain rfl := Except.ok.inj hdocument
  obtain rfl := Except.ok.inj h
  have hsteps : currentPolicySchemaVersion - 1 = 0 + 1 := rfl
  dsimp only at hloop
  rw [hsteps] at hloop
  simp only [upgradeLoop, upgrades, if_true, orError, bind_eq_ok, Except.ok.injEq, Prod.exists,
    Prod.mk.injEq] at hloop
  obtain ⟨upgrade, rfl, document₂, stepNotes, hupgrade, rfl, -, -⟩ := hloop
  exact ⟨_, rfl, migrated_of_upgrade hkeyed hkeys hreach hversion hupgrade⟩

/-- A document of the current schema is migrated to itself when it is frozen. -/
theorem migratePolicyDocument_current {document : List (String × Json)}
    (hkeyed : WellKeyed (.obj document)) (hkeys : ∀ x ∈ popped (.obj document), XmlKeys x)
    (hreach : reach (.obj document) ≤ maxAttributeDepth)
    (hnodes : nodes (.obj document) ≤ maxAttributeNodes)
    (hversion : policySchemaVersion (.obj document) = .ok ⟨2, by decide⟩) :
    migratePolicyDocument (.obj document) = .ok (.obj document, ⟨2, 2, []⟩) := by
  have hreach' : 0 + reach (.obj document) ≤ maxAttributeDepth := by omega
  have hfreeze := (@freezeUnchecked_eq_ok _ _ "policy" _ _ _ hkeyed).mpr
    ⟨hkeys, hreach', hnodes, rfl, rfl⟩
  simp only [migratePolicyDocument, bind_eq_ok, Prod.exists]
  exact ⟨_, _, hfreeze, _, hversion, _, rfl, _, _, _, rfl, _, rfl, rfl⟩

/-- The declared version is only recorded. -/
theorem Policy.ofMigrated_declared {v w : SchemaVersion} {migrated : Json} {P : Policy}
    (h : Policy.ofMigrated v migrated = .ok P) : Policy.ofMigrated w migrated =
      .ok { P with sourceSchemaVersion := w.val, version_range := w.property } := by
  simp only [Policy.ofMigrated, bind_eq_ok] at h ⊢
  obtain ⟨data, hdata, _, honly, policyId, hid, default, hdefault, h⟩ := h
  obtain ⟨sourcesRaw, hsourcesRaw, sources, hsources, claimsRaw, hclaimsRaw, _, hne, h⟩ := h
  obtain ⟨claims, hclaims, decay, hdecay, updates, hupdates, h⟩ := h
  refine ⟨data, hdata, _, honly, policyId, hid, default, hdefault, sourcesRaw, hsourcesRaw, sources,
    hsources, claimsRaw, hclaimsRaw, _, hne, claims, hclaims, decay, hdecay, updates, hupdates, ?_⟩
  split_ifs at h with hitems
  rw [dif_pos hitems]
  obtain rfl := Except.ok.inj h
  rfl

variable {N : Type} [Arithmetic N]

/-- What a migration keeps: it is not migrated again, and the policy decides as the document's own. -/
def Preserved (N D : Type) [Arithmetic N] [Hashing D] (P : Policy) (M : Json) : Prop :=
  migratePolicyDocument M = .ok (M, ⟨2, 2, []⟩) ∧
  ∃ Q, Policy.fromDict M = .ok Q ∧
    Q = { P with sourceSchemaVersion := 2, version_range := currentVersion_range } ∧
    ∀ (exp2 : N → N) events asOf adjudications,
      (evaluate exp2 Q events asOf adjudications).map (fun r => (r, r.digest D)) =
        (evaluate exp2 P events asOf adjudications).map fun r => (r, r.digest D)

/-- **When a migration preserves the policy**: exactly when the document with one more value for each
claim is within the size limit. -/
theorem migration_preserves_iff (D : Type) [Hashing D] {document : List (String × Json)} {P : Policy}
    (hkeyed : WellKeyed (.obj document))
    (hversion : policySchemaVersion (.obj document) = .ok ⟨1, by decide⟩)
    (h : Policy.fromDict (.obj document) = .ok P) :
    ∃ M report, migratePolicyDocument (.obj document) = .ok (M, report) ∧
      (Preserved N D P M ↔
        nodes (.obj document) + claimCount document ≤ maxAttributeNodes) := by
  simp only [Policy.fromDict, bind_eq_ok, Prod.exists] at h
  obtain ⟨_, -, declared, hdeclared, M, report, hmigrate, hread⟩ := h
  obtain ⟨document', rfl, hmigrated⟩ := exists_migrated hkeyed hversion hmigrate
  refine ⟨_, report, hmigrate, ?_⟩
  rw [← hmigrated.nodes_eq]
  constructor
  · rintro ⟨hagain, -⟩
    exact (freezeUnchecked_of_migrate hmigrated.keyed hagain).2.2
  · intro hnodes
    have hagain := migratePolicyDocument_current hmigrated.keyed hmigrated.xmlKeys
      hmigrated.reach_le hnodes hmigrated.version
    refine ⟨hagain, _, ?_, rfl, fun exp2 events asOf adjudications => ?_⟩
    · simp only [Policy.fromDict, bind_eq_ok, Prod.exists]
      exact ⟨_, rfl, _, hmigrated.version, _, _, hagain, Policy.ofMigrated_declared hread⟩
    · have hsame : SameSettings { P with sourceSchemaVersion := 2, version_range := by decide } P :=
        ⟨rfl, rfl, fun _ => rfl, rfl, rfl, fun _ => rfl, fun _ => rfl, rfl⟩
      rw [evaluate_congr hsame]

/-! ## Crowded documents -/

/-- A source that is called like its number. -/
def numberedSource (i : ℕ) : String × Json :=
  (toString i, .obj [("reliability", .float oneUnit.value)])

/-- The rule of a claim with both thresholds. -/
def plainRule : List (String × Json) :=
  [("contradiction_threshold", .float oneUnit.value), ("support_threshold", .float oneUnit.value)]

/-- A policy document of schema 1 with one claim and this many sources. -/
def crowdedDocument (n : ℕ) : List (String × Json) :=
  [("claims", .obj [("c", .obj plainRule)]),
    ("decay", .obj [("default_half_life_seconds", .float oneUnit.value)]),
    ("policy_id", .str "p"), ("schema_version", .int 1),
    ("sources", Json.dict ((List.range n).map numberedSource))]

theorem toString_injective : Function.Injective (toString : ℕ → String) := by
  intro m n h
  have hdigits : ∀ k : ℕ, (toString k).toList = Nat.toDigits 10 k := fun _ => String.toList_ofList
  have hlist := congrArg String.toList h
  rw [hdigits, hdigits] at hlist
  rw [← Numeral.natOfDigits_toDigits m, hlist, Numeral.natOfDigits_toDigits]

theorem nodup_numberedSources (n : ℕ) : (Json.keys ((List.range n).map numberedSource)).Nodup := by
  rw [Json.keys, List.map_map]
  exact List.nodup_range.map toString_injective

theorem mem_sources {n : ℕ} {kv : String × Json}
    (h : kv ∈ ((List.range n).map numberedSource).foldr Json.insertKey []) :
    ∃ i, kv = numberedSource i := by
  obtain ⟨i, -, rfl⟩ := List.mem_map.mp
    ((Json.foldr_insertKey_perm (nodup_numberedSources n)).mem_iff.mp h)
  exact ⟨i, rfl⟩

theorem wellKeyed_crowdedDocument (n : ℕ) : WellKeyed (.obj (crowdedDocument n)) := by
  have hsingle : ∀ k v, WellKeyed v → WellKeyed (.obj [(k, v)]) := fun k v hv =>
    Json.wellKeyed_obj.mpr ⟨List.pairwise_singleton _ _, List.forall_mem_singleton.mpr hv⟩
  have hrule : WellKeyed (.obj plainRule) := by
    refine Json.wellKeyed_obj.mpr ⟨?_, by simp [plainRule]⟩
    simp only [Json.KeysSorted, Json.keys, plainRule, List.map_cons, List.map_nil]
    decide
  refine Json.wellKeyed_obj.mpr ⟨?_, ?_⟩
  · simp only [Json.KeysSorted, Json.keys, crowdedDocument, List.map_cons, List.map_nil]
    decide
  · simp only [crowdedDocument, List.forall_mem_cons, List.not_mem_nil, false_implies, implies_true,
      and_true]
    refine ⟨hsingle _ _ hrule, hsingle _ _ (by simp), by simp, by simp, Json.wellKeyed_dict ?_⟩
    intro kv hkv
    obtain ⟨i, -, rfl⟩ := List.mem_map.mp hkv
    exact hsingle _ _ (by simp)

theorem nodes_crowdedDocument (n : ℕ) : nodes (.obj (crowdedDocument n)) = 10 + 2 * n := by
  have hsources : nodes (Json.dict ((List.range n).map numberedSource)) = 1 + 2 * n := by
    rw [Json.nodes_dict (nodup_numberedSources n), List.map_map]
    have hconst : (fun kv : String × Json => nodes kv.2) ∘ numberedSource = fun _ => 2 := rfl
    rw [hconst, List.map_const', List.sum_replicate_nat, List.length_range, Nat.mul_comm]
  have hclaims : nodes (.obj [("c", .obj plainRule)]) = 4 := rfl
  have hdecay : nodes (.obj [("default_half_life_seconds", .float oneUnit.value)]) = 2 := rfl
  have hname : nodes (.str "p") = 1 := rfl
  have hversion : nodes (.int 1) = 1 := rfl
  rw [Json.nodes_obj, crowdedDocument]
  simp only [List.map_cons, List.map_nil, List.sum_cons, List.sum_nil, hsources, hclaims, hdecay,
    hname, hversion]
  omega

theorem xmlKeys_crowdedDocument (n : ℕ) : ∀ x ∈ popped (.obj (crowdedDocument n)), XmlKeys x := by
  have hsources : ∀ x ∈ popped (Json.dict ((List.range n).map numberedSource)), XmlKeys x := by
    rw [Json.forall_popped_dict (nodup_numberedSources n)]
    constructor
    · intro kv hkv
      obtain ⟨i, rfl⟩ := mem_sources hkv
      exact (clean_control (.int i)).xml
    · intro kv hkv
      obtain ⟨i, -, rfl⟩ := List.mem_map.mp hkv
      have hsource : ∀ x ∈ popped (.obj [("reliability", .float oneUnit.value)]), XmlKeys x := by
        decide
      exact hsource
  rw [Json.forall_popped_obj]
  refine ⟨?_, ?_⟩
  · change ∀ kv ∈ crowdedDocument n, isXmlCharacter kv.1 = true
    simp only [crowdedDocument, List.forall_mem_cons, List.not_mem_nil, false_implies, implies_true,
      and_true]
    decide
  · simp only [crowdedDocument, List.forall_mem_cons, List.not_mem_nil, false_implies, implies_true,
      and_true]
    refine ⟨?_, ?_, ?_, ?_, hsources⟩ <;> decide

theorem reach_crowdedDocument (n : ℕ) : reach (.obj (crowdedDocument n)) ≤ maxAttributeDepth := by
  have hsources : reach (Json.dict ((List.range n).map numberedSource)) ≤ 2 := by
    rw [Json.dict, reach, reachMembers_le_iff]
    intro kv hkv
    obtain ⟨i, rfl⟩ := mem_sources hkv
    exact le_rfl
  have hlimit : (3 : ℕ) ≤ maxAttributeDepth := by decide
  rw [reach, reachMembers_le_iff]
  simp only [crowdedDocument, List.forall_mem_cons, List.not_mem_nil, false_implies, implies_true,
    and_true]
  refine ⟨by decide, by decide, by decide, by decide, ?_⟩
  omega

/-- Its migration. -/
def upgradedDocument (n : ℕ) : List (String × Json) :=
  assign "schema_version" (.int 2)
    (assign "claims" (.obj [("c", .obj (assign "required_modalities" (.arr []) plainRule))])
      (crowdedDocument n))

theorem upgrade1To2_crowdedDocument (n : ℕ) :
    ∃ note, upgrade1To2 (crowdedDocument n) = .ok (upgradedDocument n, [note]) := by
  obtain ⟨note, hnote⟩ := exists_ok_of_isSome (x := MigrationNote.make
    ("policy.claims." ++ "c" ++ ".required_modalities")
    "added [] because schema 1 could not require a modality") (by decide +kernel)
  have hnew : "required_modalities" ∉ Json.keys plainRule := by decide
  have hclaim : upgradeClaim ("c", .obj plainRule) =
      .ok (("c", .obj (assign "required_modalities" (.arr []) plainRule)), note) := by
    simp only [upgradeClaim, hnote, valid_of hnew, ok_bind]
  refine ⟨note, ?_⟩
  have hclaims : claimsOf (crowdedDocument n) = .ok [("c", .obj plainRule)] := rfl
  simp only [upgrade1To2, hclaims, ok_bind, List.mapM_cons, List.mapM_nil, hclaim]
  rfl

theorem policySchemaVersion_crowdedDocument (n : ℕ) :
    policySchemaVersion (.obj (crowdedDocument n)) = .ok ⟨1, by decide⟩ := rfl

theorem migrate_crowdedDocument {n : ℕ} (h : 10 + 2 * n ≤ maxAttributeNodes) :
    ∃ report, migratePolicyDocument (.obj (crowdedDocument n)) =
      .ok (.obj (upgradedDocument n), report) := by
  have hreach : 0 + reach (.obj (crowdedDocument n)) ≤ maxAttributeDepth := by
    rw [Nat.zero_add]
    exact reach_crowdedDocument n
  have hfreeze := (@freezeUnchecked_eq_ok _ _ "policy" _ _ _ (wellKeyed_crowdedDocument n)).mpr
    ⟨xmlKeys_crowdedDocument n, hreach, (nodes_crowdedDocument n).le.trans h, rfl, rfl⟩
  obtain ⟨note, hupgrade⟩ := upgrade1To2_crowdedDocument n
  have hloop : upgradeLoop (currentPolicySchemaVersion - 1) 1 (crowdedDocument n) [] =
      .ok (upgradedDocument n, 2, [note]) := by
    have hsteps : currentPolicySchemaVersion - 1 = 0 + 1 := rfl
    simp only [hsteps, upgradeLoop, upgrades, if_true, orError, ok_bind, hupgrade]
    rfl
  simp only [migratePolicyDocument, bind_eq_ok, Prod.exists]
  exact ⟨_, _, _, hfreeze, _, rfl, _, rfl, _, _, _, hloop, _, rfl, rfl⟩

/-! ## Crowded policies -/

theorem get?_upgradedDocument (n : ℕ) {k : String} (hversion : k ≠ "schema_version")
    (hclaims : k ≠ "claims") : Json.get? (upgradedDocument n) k = Json.get? (crowdedDocument n) k := by
  rw [upgradedDocument, Json.get?_assign, if_neg hversion, Json.get?_assign, if_neg hclaims]

theorem exactText_isOk {s : String} (h : IsText s) (path blank : String) :
    ∃ t, exactText s path blank = .ok t := by
  obtain ⟨t, rfl⟩ := h
  rw [exactText, dif_pos t.xml, dif_pos t.ne_empty, dif_pos t.trimmed]
  exact ⟨t, rfl⟩

theorem numberedSource_isOk (i : ℕ) (path : String) :
    ∃ s, SourcePolicy.fromDict (numberedSource i).2 path = .ok s := by
  refine ⟨⟨oneUnit⟩, ?_⟩
  have honly : only [("reliability", Json.float oneUnit.value)] ["reliability"] path = .ok () :=
    valid_of (by decide)
  simp only [SourcePolicy.fromDict, numberedSource, mapping, honly, ok_bind, Json.get?_cons, if_true,
    number_value]

/-- The sources of a crowded document are read. -/
theorem sources_isOk (n : ℕ) (path : String) : ∃ items sources,
    namedMapping (some (Json.dict ((List.range n).map numberedSource))) path = .ok items ∧
    Policy.readNamed SourcePolicy.fromDict path items = .ok sources := by
  have hnamed : ∀ kv ∈ ((List.range n).map numberedSource).foldr Json.insertKey [],
      ∃ item, namedItem path kv = .ok item := fun kv hkv => by
    obtain ⟨i, rfl⟩ := mem_sources hkv
    have hclean : Clean (toString i) := clean_control (.int i)
    obtain ⟨t, ht⟩ := exactText_isOk (isText_of hclean.opens hclean.closes hclean.xml)
      (path ++ " key") (path ++ " keys must not have leading or trailing whitespace")
    exact ⟨(t, (numberedSource i).2), by simp only [namedItem, numberedSource, ht, ok_bind]⟩
  obtain ⟨items, hitems⟩ := List.exists_mapM hnamed
  have hread : ∀ item ∈ items, ∃ source,
      Policy.readItem SourcePolicy.fromDict path item = .ok source := fun item hitem => by
    obtain ⟨kv, hkv, hkvitem⟩ := List.exists_of_mem_mapM hitems hitem
    obtain ⟨i, rfl⟩ := mem_sources hkv
    simp only [namedItem, bind_eq_ok, Except.ok.injEq] at hkvitem
    obtain ⟨name, -, rfl⟩ := hkvitem
    obtain ⟨source, hsource⟩ := numberedSource_isOk i (path ++ "." ++ name.value)
    exact ⟨(name, source), by simp only [Policy.readItem, hsource, ok_bind]⟩
  obtain ⟨sources, hsources⟩ := List.exists_mapM hread
  refine ⟨items, Dict.ofItems sources, ?_, ?_⟩
  · simp only [namedMapping, mapping, Json.dict, ok_bind, hitems]
  · simp only [Policy.readNamed, hsources, ok_bind]

/-- The claim of a crowded document is read. -/
theorem claims_isOk : ∃ items claims,
    namedMapping (some (.obj [("c", .obj (assign "required_modalities" (.arr []) plainRule))]))
      "policy.claims" = .ok items ∧ items ≠ [] ∧
    Policy.readNamed ClaimRule.fromDict "policy.claims" items = .ok claims ∧ claims.items ≠ [] := by
  have hcounts : ((do
      let items ← namedMapping
        (some (.obj [("c", .obj (assign "required_modalities" (.arr []) plainRule))])) "policy.claims"
      let claims ← Policy.readNamed ClaimRule.fromDict "policy.claims" items
      .ok (items.length, claims.items.length)) : Result (ℕ × ℕ)).toOption = some (1, 1) := by
    decide +kernel
  have hread := EvidenceLedger.toOption_eq_some.mp hcounts
  simp only [bind_eq_ok, Except.ok.injEq, Prod.mk.injEq] at hread
  obtain ⟨items, hitems, claims, hclaims, hcount, hcount'⟩ := hread
  refine ⟨items, claims, hitems, ?_, hclaims, ?_⟩
  · rintro rfl
    cases hcount
  · intro hnil
    rw [hnil] at hcount'
    cases hcount'

theorem fields_upgradedDocument (n : ℕ) :
    ∀ k ∈ Json.keys (upgradedDocument n), k ∈ Policy.fields := by
  intro k hk
  rw [upgradedDocument, Json.keys_assign, Json.keys_assign] at hk
  rcases hk with rfl | rfl | hk
  · decide
  · decide
  · have hkeys : Json.keys (crowdedDocument n) =
        ["claims", "decay", "policy_id", "schema_version", "sources"] := rfl
    rw [hkeys] at hk
    revert k
    decide

/-- A crowded document is read as a policy, once it is migrated. -/
theorem exists_ofMigrated (n : ℕ) : ∃ P,
    Policy.ofMigrated ⟨1, by decide⟩ (.obj (upgradedDocument n)) = .ok P := by
  have honly : only (upgradedDocument n) Policy.fields "policy" = .ok () := by
    apply valid_of
    rw [List.filter_eq_nil_iff]
    intro k hk
    simpa using fields_upgradedDocument n k hk
  obtain ⟨sourcesRaw, sources, hsourcesRaw, hsources⟩ := sources_isOk n "policy.sources"
  obtain ⟨claimsRaw, claims, hclaimsRaw, hne, hclaims, hitems⟩ := claims_isOk
  obtain ⟨policyId, hid⟩ := exists_ok_of_isSome (x := textField (some (.str "p")) "policy.policy_id")
    (by decide)
  obtain ⟨decay, hdecay⟩ := exists_ok_of_isSome (x := DecayPolicy.fromDict
    (some (.obj [("default_half_life_seconds", .float oneUnit.value)])) "policy.decay")
    (by decide +kernel)
  have hget : ∀ {k}, k ≠ "schema_version" → k ≠ "claims" →
      Json.get? (upgradedDocument n) k = Json.get? (crowdedDocument n) k := get?_upgradedDocument n
  have hgetClaims : Json.get? (upgradedDocument n) "claims" =
      some (.obj [("c", .obj (assign "required_modalities" (.arr []) plainRule))]) := by
    rw [upgradedDocument, Json.get?_assign, if_neg (by decide), Json.get?_assign, if_pos rfl]
  have hgetId : Json.get? (upgradedDocument n) "policy_id" = some (.str "p") :=
    hget (by decide) (by decide)
  have hgetDefault : Json.get? (upgradedDocument n) "default_source_reliability" = none :=
    hget (by decide) (by decide)
  have hgetSources : Json.get? (upgradedDocument n) "sources" =
      Json.get? (crowdedDocument n) "sources" := hget (by decide) (by decide)
  have hgetDecay : Json.get? (upgradedDocument n) "decay" =
      some (.obj [("default_half_life_seconds", .float oneUnit.value)]) :=
    hget (by decide) (by decide)
  have hgetUpdates : Json.get? (upgradedDocument n) "reliability_updates" = none :=
    hget (by decide) (by decide)
  refine ⟨{ policyId, defaultSourceReliability := oneUnit, sources, decay, claims,
            reliabilityUpdates := none, sourceSchemaVersion := 1, claims_ne := hitems,
            version_range := by decide }, ?_⟩
  unfold Policy.ofMigrated
  simp only [bind_eq_ok]
  refine ⟨_, rfl, (), honly, policyId, by rw [hgetId]; exact hid, oneUnit,
    by rw [hgetDefault]; exact number_value oneUnit _, sourcesRaw,
    by rw [hgetSources]; exact hsourcesRaw, sources, hsources, claimsRaw,
    by rw [hgetClaims]; exact hclaimsRaw, (), valid_of hne, claims, hclaims, decay,
    by rw [hgetDecay]; exact hdecay, none, by rw [hgetUpdates]; rfl, ?_⟩
  rw [dif_pos hitems]

/-- A crowded document within the size limit is accepted. -/
theorem fromDict_crowdedDocument {n : ℕ} (h : 10 + 2 * n ≤ maxAttributeNodes) :
    ∃ P, Policy.fromDict (.obj (crowdedDocument n)) = .ok P := by
  obtain ⟨report, hmigrate⟩ := migrate_crowdedDocument h
  obtain ⟨P, hP⟩ := exists_ofMigrated n
  refine ⟨P, ?_⟩
  simp only [Policy.fromDict, bind_eq_ok, Prod.exists]
  exact ⟨_, rfl, _, policySchemaVersion_crowdedDocument n, _, report, hmigrate, hP⟩

/-- **The migration of a full document is refused.** With 499 995 sources a document has as many values
as are admitted, and its migration one more. -/
theorem crowdedDocument_not_preserved : ∃ P M report,
    Policy.fromDict (.obj (crowdedDocument 499995)) = .ok P ∧
    policySchemaVersion (.obj (crowdedDocument 499995)) = .ok ⟨1, by decide⟩ ∧
    migratePolicyDocument (.obj (crowdedDocument 499995)) = .ok (M, report) ∧
    ∀ Q, Policy.fromDict M ≠ .ok Q := by
  have hsize : 10 + 2 * 499995 ≤ maxAttributeNodes := by decide
  obtain ⟨report, hmigrate⟩ := migrate_crowdedDocument hsize
  obtain ⟨P, hP⟩ := fromDict_crowdedDocument hsize
  refine ⟨P, _, report, hP, rfl, hmigrate, fun Q hQ => ?_⟩
  have hversion := policySchemaVersion_crowdedDocument 499995
  obtain ⟨document', heq, hmigrated⟩ :=
    exists_migrated (wellKeyed_crowdedDocument 499995) hversion hmigrate
  cases Json.obj.inj heq
  simp only [Policy.fromDict, bind_eq_ok] at hQ
  obtain ⟨_, -, _, -, _, hagain, -⟩ := hQ
  have hnodes := (freezeUnchecked_of_migrate hmigrated.keyed hagain).2.2
  rw [hmigrated.nodes_eq, nodes_crowdedDocument] at hnodes
  have hcount : claimCount (crowdedDocument 499995) = 1 := rfl
  have hlimit : maxAttributeNodes = 1000000 := rfl
  omega

/-- A document without sources is preserved. -/
theorem migration_preserves_iff_small : ∃ P M report,
    migratePolicyDocument (.obj (crowdedDocument 0)) = .ok (M, report) ∧
      (Preserved ℚ HexDigest P M ↔
        nodes (.obj (crowdedDocument 0)) + claimCount (crowdedDocument 0) ≤ maxAttributeNodes) := by
  obtain ⟨P, hP⟩ := @fromDict_crowdedDocument 0 (by decide)
  obtain ⟨M, report, h⟩ := @migration_preserves_iff ℚ _ HexDigest _ _ P (wellKeyed_crowdedDocument 0)
    (policySchemaVersion_crowdedDocument 0) hP
  exact ⟨P, M, report, h⟩

end EvidenceBraid
