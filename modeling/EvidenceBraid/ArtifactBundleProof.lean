import EvidenceBraid.ArchiveCanonical
import EvidenceBraid.ArtifactBundle
import EvidenceBraid.WorkflowCodec

/-!
# The documents and objects of a bundle

A document is parsed from its canonical bytes and from no others (`of_parseDocument`). `_objects`
lists the distinct digests that the artifacts commit to, in the order of their texts, each with the
one size that its artifacts declare (`of_objectsOf`, `objectsOf_committed`).
-/

namespace EvidenceBraid

open Hashing
open Json (WellKeyed)
open Zip (Member)

variable {D : Type} [Hashing D]

/-! ## Documents -/

/-- What has been parsed has these bytes. -/
theorem of_parseDocument {raw : Bytes} {name : String} {v : Json}
    (h : parseDocument raw name = .ok v) : raw = canonicalBytes v ∧ WellKeyed v := by
  simp only [parseDocument, bind_eq_ok, orError_eq_ok, require_eq_ok, exists_unit, Except.ok.injEq]
    at h
  obtain ⟨v, hv, hraw, rfl⟩ := h
  obtain ⟨cs, -, hload⟩ := Option.bind_eq_some_iff.mp hv
  exact ⟨hraw.symm, Json.wellKeyed_of_loads hload⟩

/-- A document with sorted keys is parsed from its bytes. -/
theorem parseDocument_canonical {v : Json} (hv : WellKeyed v) (name : String) :
    parseDocument (canonicalBytes v) name = .ok v := by
  have hload : Json.loads Json.plain (canonicalJson v false) = some v := Json.loads_dumps hv
  have hdecode : (Utf8.decode (canonicalBytes v)).bind (Json.loads Json.plain) = some v := by
    rw [canonicalBytes, Utf8.decode_encode, Option.bind_some, hload]
  simp only [parseDocument, bind_eq_ok]
  exact ⟨v, orError_eq_ok.mpr hdecode, (), require_of rfl, rfl⟩

theorem jsonBytes_eq_ok {v : Json} {maximum : ℕ} {name : String} {bytes : Bytes} :
    jsonBytes v maximum name = .ok bytes ↔
      (canonicalBytes v).length ≤ maximum ∧ bytes = canonicalBytes v := by
  simp only [jsonBytes, bind_eq_ok, valid_eq_ok, exists_unit, Except.ok.injEq,
    eq_comm (a := canonicalBytes v)]

@[simp] theorem wellKeyed_identifiersJson (ids : List Identifier) :
    WellKeyed (identifiersJson ids) := by
  refine Json.wellKeyed_arr.mpr fun v hv => ?_
  obtain ⟨i, -, rfl⟩ := List.mem_map.mp hv
  trivial

theorem ClaimWorkflow.wellKeyed_toDict (c : ClaimWorkflow) : WellKeyed c.toDict := by
  refine Json.wellKeyed_dict ?_
  simp only [List.forall_mem_cons, List.not_mem_nil, false_implies, implies_true,
    wellKeyed_identifiersJson, Json.wellKeyed_str, Json.wellKeyed_int, and_self]

theorem WorkflowState.wellKeyed_toDict (s : WorkflowState D) : WellKeyed s.toDict := by
  have hclaims : WellKeyed (Json.dict (s.claims.items.map fun kv => (kv.1.value, kv.2.toDict))) := by
    refine Json.wellKeyed_dict fun kv hkv => ?_
    obtain ⟨kc, -, rfl⟩ := List.mem_map.mp hkv
    exact kc.2.wellKeyed_toDict
  refine Json.wellKeyed_dict ?_
  simp only [List.forall_mem_cons, List.not_mem_nil, false_implies, implies_true,
    Json.wellKeyed_str, Json.wellKeyed_int, hclaims, and_self]

/-! ## Objects -/

variable [DecidableEq D]

/-- The distinct digests that a workflow's artifacts commit to, in order. -/
def committedDigests (bundle : WorkflowBundle D) : List D :=
  (bundle.artifacts.map (·.sha256)).dedup.insertionSort fun a b => hex a ≤ hex b

theorem mem_committedDigests {bundle : WorkflowBundle D} {d : D} :
    d ∈ committedDigests bundle ↔ ∃ a ∈ bundle.artifacts, a.sha256 = d := by
  rw [committedDigests, List.mem_insertionSort, List.mem_dedup, List.mem_map]

omit [DecidableEq D] in
/-- The order of digests is that of their texts. -/
theorem sortDigests_eq_of_perm {ds es : List D} (h : ds.Perm es) :
    ds.insertionSort (fun a b => hex a ≤ hex b) = es.insertionSort fun a b => hex a ≤ hex b := by
  have hmap : ∀ xs : List D, (xs.insertionSort fun a b => hex a ≤ hex b).map hex =
      (xs.map hex).insertionSort (· ≤ ·) := fun xs =>
    List.map_insertionSort _ _ _ _ fun _ _ _ _ => Iff.rfl
  refine List.map_injective_iff.mpr hex_injective ?_
  rw [hmap, hmap]
  refine List.Perm.eq_of_pairwise' (List.pairwise_insertionSort _ _) (List.pairwise_insertionSort _ _)
    ?_
  exact (List.perm_insertionSort _ _).trans ((h.map hex).trans (List.perm_insertionSort _ _).symm)

omit [Hashing D] in
/-- **The loop of `_objects`** keeps what it has, and adds each artifact's digest and size. -/
theorem addObjects_eq_ok {limits : ArtifactBundleLimits} {as : List (ArtifactReference D)} :
    ∀ {d e : Dict D ℕ}, as.foldlM (addObject limits) d = .ok e →
      (∀ k n, d.get? k = some n → e.get? k = some n) ∧
      (∀ a ∈ as, a.sizeBytes ≤ limits.maxArtifactBytes ∧ e.get? a.sha256 = some a.sizeBytes) ∧
      ∀ k n, e.get? k = some n → d.get? k = some n ∨ ∃ a ∈ as, a.sha256 = k := by
  induction as with
  | nil =>
    intro d e h
    obtain rfl := Except.ok.inj h
    exact ⟨fun _ _ h => h, by simp, fun _ _ h => .inl h⟩
  | cons a as ih =>
    intro d e h
    simp only [List.foldlM_cons, bind_eq_ok, addObject, valid_eq_ok, exists_unit] at h
    obtain ⟨d', ⟨hsize, hd'⟩, hrest⟩ := h
    obtain ⟨hkept, hadded, hfrom⟩ := ih hrest
    have hstep : (∀ k n, d.get? k = some n → d'.get? k = some n) ∧
        d'.get? a.sha256 = some a.sizeBytes ∧
        ∀ k n, d'.get? k = some n → d.get? k = some n ∨ a.sha256 = k := by
      rcases hget : d.get? a.sha256 with _ | size
      · rw [hget, Except.ok.injEq] at hd'
        subst hd'
        refine ⟨fun k n hk => ?_, d.get?_set_self _ _, fun k n hk => ?_⟩
        · have hne : k ≠ a.sha256 := by
            rintro rfl
            rw [hget] at hk
            cases hk
          rwa [d.get?_set_ne hne]
        · by_cases hne : k = a.sha256
          · exact .inr hne.symm
          · rw [d.get?_set_ne hne] at hk
            exact .inl hk
      · simp only [hget, bind_eq_ok, valid_eq_ok, exists_unit, Except.ok.injEq] at hd'
        obtain ⟨rfl, rfl⟩ := hd'
        exact ⟨fun _ _ h => h, hget, fun _ _ h => .inl h⟩
    refine ⟨fun k n hk => hkept k n (hstep.1 k n hk),
      List.forall_mem_cons.mpr ⟨⟨hsize, hkept _ _ hstep.2.1⟩, hadded⟩, fun k n hk => ?_⟩
    rcases hfrom k n hk with hk | ⟨b, hb, rfl⟩
    · rcases hstep.2.2 k n hk with hk | rfl
      · exact .inl hk
      · exact .inr ⟨a, List.mem_cons_self, rfl⟩
    · exact .inr ⟨b, List.mem_cons_of_mem a hb, rfl⟩

omit [Hashing D] in
/-- The loop of `_objects` ends where the artifacts' sizes are bounded and agree. -/
theorem exists_addObjects {limits : ArtifactBundleLimits} (size : D → ℕ)
    {as : List (ArtifactReference D)} (hle : ∀ a ∈ as, a.sizeBytes ≤ limits.maxArtifactBytes)
    (hsize : ∀ a ∈ as, a.sizeBytes = size a.sha256) : ∀ {d : Dict D ℕ},
      (∀ k n, d.get? k = some n → n = size k) → ∃ e, as.foldlM (addObject limits) d = .ok e := by
  induction as with
  | nil => intro d _; exact ⟨d, rfl⟩
  | cons a as ih =>
    intro d hd
    rw [List.forall_mem_cons] at hle hsize
    have hrest := @ih hle.2 hsize.2
    rcases hget : d.get? a.sha256 with _ | n
    · have hset : ∀ k n, (d.set a.sha256 a.sizeBytes).get? k = some n → n = size k := by
        intro k n hk
        by_cases hne : k = a.sha256
        · subst hne
          rw [d.get?_set_self, Option.some.injEq] at hk
          rw [← hk, hsize.1]
        · rw [d.get?_set_ne hne] at hk
          exact hd k n hk
      obtain ⟨e, he⟩ := hrest hset
      refine ⟨e, ?_⟩
      rw [List.foldlM_cons, addObject, valid_of hle.1, ok_bind]
      simp only [hget, ok_bind, he]
    · obtain ⟨e, he⟩ := hrest hd
      refine ⟨e, ?_⟩
      have hagree : n = a.sizeBytes := (hd _ _ hget).trans hsize.1.symm
      rw [List.foldlM_cons, addObject, valid_of hle.1, ok_bind]
      simp only [hget, valid_of hagree, ok_bind, he]

/-- What `_objects` checks. -/
structure BoundedArtifacts (limits : ArtifactBundleLimits) (bundle : WorkflowBundle D) : Prop where
  count_le : bundle.artifacts.length ≤ limits.maxArtifacts
  source_le : (bundle.artifacts.map (·.sizeBytes)).sum ≤ limits.maxTotalSourceBytes
  size_le : ∀ a ∈ bundle.artifacts, a.sizeBytes ≤ limits.maxArtifactBytes

/-- What the loop of `_objects` has collected, in order. -/
theorem objects_sorted {bundle : WorkflowBundle D} {limits : ArtifactBundleLimits}
    {e : Dict D ℕ} (h : bundle.artifacts.foldlM (addObject limits) Dict.empty = .ok e) :
    (sortObjects e.items).map Prod.fst = committedDigests bundle ∧
      ∀ a ∈ bundle.artifacts, (a.sha256, a.sizeBytes) ∈ sortObjects e.items := by
  obtain ⟨-, hadded, hfrom⟩ := addObjects_eq_ok h
  have hperm : (sortObjects e.items).Perm e.items := List.perm_insertionSort _ _
  refine ⟨?_, fun a ha => hperm.mem_iff.mpr (e.mem_items_iff.mpr (hadded a ha).2)⟩
  have hmap : (sortObjects e.items).map Prod.fst =
      (e.items.map Prod.fst).insertionSort fun a b => hex a ≤ hex b :=
    List.map_insertionSort _ _ _ _ fun _ _ _ _ => Iff.rfl
  rw [hmap, committedDigests]
  refine sortDigests_eq_of_perm ((List.perm_ext_iff_of_nodup e.nodup (List.nodup_dedup _)).mpr ?_)
  intro d
  rw [List.mem_dedup, List.mem_map (l := bundle.artifacts)]
  constructor
  · intro hd
    obtain ⟨n, hn⟩ := Option.isSome_iff_exists.mp (e.mem_keys_iff.mp hd)
    rcases hfrom d n hn with hnone | hartifact
    · cases hnone
    · exact hartifact
  · rintro ⟨a, ha, rfl⟩
    exact e.mem_keys_iff.mpr (Option.isSome_iff_exists.mpr ⟨_, (hadded a ha).2⟩)

theorem nodup_committedDigests (bundle : WorkflowBundle D) : (committedDigests bundle).Nodup :=
  (List.perm_insertionSort _ _).nodup_iff.mpr (List.nodup_dedup _)

/-- The committed digests with the sizes of their contents. -/
def committedObjects (bundle : WorkflowBundle D) (content : D → Bytes) : List (D × ℕ) :=
  (committedDigests bundle).map fun d => (d, (content d).length)

theorem eq_committedObjects {bundle : WorkflowBundle D} {content : D → Bytes}
    {objects : List (D × ℕ)} (hdigests : objects.map Prod.fst = committedDigests bundle)
    (hmem : ∀ a ∈ bundle.artifacts, (a.sha256, a.sizeBytes) ∈ objects)
    (hsize : ∀ a ∈ bundle.artifacts, (content a.sha256).length = a.sizeBytes) :
    objects = committedObjects bundle content := by
  have hnodup : (objects.map Prod.fst).Nodup := hdigests ▸ nodup_committedDigests bundle
  rw [committedObjects, ← hdigests, List.map_map]
  symm
  refine (List.map_congr_left fun o ho => ?_).trans (List.map_id objects)
  obtain ⟨a, ha, hdigest⟩ := mem_committedDigests.mp (hdigests ▸ List.mem_map_of_mem ho)
  have hsame := List.inj_on_of_nodup_map hnodup ho (hmem a ha) hdigest.symm
  rw [Function.comp, hsame, hsize a ha, id]

/-- **`_objects`** lists the committed digests with their sizes. -/
theorem of_objectsOf {bundle : WorkflowBundle D} {limits : ArtifactBundleLimits}
    {objects : List (D × ℕ)} (h : objectsOf bundle limits = .ok objects) :
    objects.map Prod.fst = committedDigests bundle ∧ BoundedArtifacts limits bundle ∧
      (∀ a ∈ bundle.artifacts, (a.sha256, a.sizeBytes) ∈ objects) ∧
      (objects.map Prod.snd).sum ≤ limits.maxTotalObjectBytes := by
  simp only [objectsOf, bind_eq_ok, valid_eq_ok, exists_unit, Except.ok.injEq] at h
  obtain ⟨hcount, hsource, e, hfold, htotal, rfl⟩ := h
  obtain ⟨hdigests, hmem⟩ := objects_sorted hfold
  have hperm : (sortObjects e.items).Perm e.items := List.perm_insertionSort _ _
  refine ⟨hdigests, ⟨hcount, hsource, fun a ha => ((addObjects_eq_ok hfold).2.1 a ha).1⟩, hmem, ?_⟩
  rwa [(hperm.map Prod.snd).sum_eq]

/-- **`_objects`** accepts bounded artifacts whose contents have the sizes that they commit to. -/
theorem objectsOf_committed {bundle : WorkflowBundle D} {limits : ArtifactBundleLimits}
    {content : D → Bytes} (h : BoundedArtifacts limits bundle)
    (hsize : ∀ a ∈ bundle.artifacts, (content a.sha256).length = a.sizeBytes)
    (htotal : ((committedObjects bundle content).map Prod.snd).sum ≤ limits.maxTotalObjectBytes) :
    objectsOf bundle limits = .ok (committedObjects bundle content) := by
  obtain ⟨e, hfold⟩ := exists_addObjects (fun d => (content d).length) h.size_le
    (fun a ha => (hsize a ha).symm) (d := Dict.empty) (fun k n hk => by cases hk)
  obtain ⟨hdigests, hmem⟩ := objects_sorted hfold
  have hobjects := eq_committedObjects hdigests hmem hsize
  have hperm : (sortObjects e.items).Perm e.items := List.perm_insertionSort _ _
  rw [← hobjects, (hperm.map Prod.snd).sum_eq] at htotal
  simp only [objectsOf, bind_eq_ok, valid_eq_ok, exists_unit, Except.ok.injEq]
  exact ⟨h.count_le, h.source_le, e, hfold, htotal, hobjects⟩

end EvidenceBraid
