import EvidenceBraid.ClosedBundle

/-!
# Archive verification is sound

A closed bundle fits the default limits when its artifacts and its state do
(`ClosedBundle.admissible_members`): the manifest is never too long. Its digest covers the digests of
the workflow and of the state, and every object's digest and size, so it determines the members
(`ClosedBundle.members_eq_of_digest`). Hence `verifyArtifactBundle_sound`.
-/

namespace EvidenceBraid

open Hashing
open Json (WellKeyed)
open Zip (Member)

variable {D : Type} [Hashing D] [DecidableEq D]

/-! ## Bundles that fit -/

section Fitting

variable [WideHex D]

omit [DecidableEq D] in
theorem isObjectName_objectPath (d : D) : isObjectName (objectPath d) = true := by
  have hdrop : (objectPath d).toList.drop 8 = (hex d).toList := by
    rw [objectPath, String.toList_append]
    exact List.drop_left' (by decide)
  rw [isObjectName, inObjects_objectPath, Bool.true_and, hdrop, String.ofList_toList]
  exact WideHex.isHash_hex d

omit [DecidableEq D] [WideHex D] in
theorem objectPath_injective : Function.Injective (objectPath : D → String) := by
  intro d e h
  have hlist := congrArg String.toList h
  rw [objectPath, objectPath, String.toList_append, String.toList_append] at hlist
  exact hex_injective (String.toList_inj.mp (List.append_cancel_left hlist))

omit [DecidableEq D] [WideHex D] in
theorem objectPath_le {d e : D} (h : hex d ≤ hex e) : objectPath d ≤ objectPath e := by
  rcases h.lt_or_eq with h | h
  · rw [String.lt_iff_toList_lt] at h
    refine le_of_lt (String.lt_iff_toList_lt.mpr ?_)
    rw [objectPath, objectPath, String.toList_append, String.toList_append]
    exact List.append_left_lt h
  · rw [objectPath, objectPath, h]

omit [DecidableEq D] [WideHex D] in
/-- Objects are not documents. -/
theorem objectPath_not_mem (d : D) : objectPath d ∉ documentNames := by
  intro h
  have hdocuments : ∀ name ∈ documentNames, inObjects name = false := by decide
  have hname := hdocuments _ h
  rw [inObjects_objectPath] at hname
  cases hname

omit [DecidableEq D] in
@[simp] theorem quotedSize_objectPath (d : D) : Json.quotedSize (objectPath d) = 74 := by
  have hplain : Json.PlainText (objectPath d) := by
    intro c hc
    rw [objectPath, String.toList_append, List.mem_append] at hc
    rcases hc with hc | hc
    · have hall : "objects/".toList.all
          (fun c => 32 ≤ c.toNat ∧ c.toNat < 128 ∧ c ≠ '"' ∧ c ≠ '\\') = true := by decide
      exact List.all_iff_forall_prop.mp hall c hc
    · exact plainText_hex d c hc
  rw [Json.quotedSize_plain hplain, objectPath, String.toList_append, List.length_append, length_hex]
  decide

omit [DecidableEq D] in
/-- What the manifest says of an artifact is short. -/
theorem ArtifactReference.size_manifest_le (a : ArtifactReference D) :
    Json.size (Json.dict (a.items ++ [("object_path", Json.str (objectPath a.sha256))])) ≤ 1500 := by
  have hnodup : (Json.keys (a.items ++ [("object_path", Json.str (objectPath a.sha256))])).Nodup := by
    simp only [items, Json.keys, List.cons_append, List.nil_append, List.map_cons, List.map_nil]
    decide
  have hkeys : Json.quotedSize "artifact_id" = 13 ∧ Json.quotedSize "scope" = 7 ∧
      Json.quotedSize "claim_id" = 10 ∧ Json.quotedSize "sha256" = 8 ∧
      Json.quotedSize "size_bytes" = 12 ∧ Json.quotedSize "media_type" = 12 ∧
      Json.quotedSize "object_path" = 13 := by
    and_intros <;> exact Json.quotedSize_literal rfl
  have hid := a.artifactId.quotedSize_le
  have hscope := a.scope.quotedSize_le
  have hclaim := a.claimId.quotedSize_le
  have hsize : Json.size (.int a.sizeBytes) ≤ 8 :=
    Json.size_nat_le (by decide) (lt_of_le_of_lt a.size_le (by decide))
  have hmedia : Json.quotedSize a.mediaType.value ≤ 770 :=
    (Json.quotedSize_le _).trans (by have := a.mediaType.length_le; omega)
  rw [Json.size_dict hnodup (by simp [items])]
  simp only [items, List.cons_append, List.nil_append, List.map_cons, List.map_nil, List.sum_cons,
    List.sum_nil, Json.size_str, quotedSize_hex, quotedSize_objectPath, hkeys]
  clear hkeys
  omega

omit [DecidableEq D] in
theorem size_manifestFile_le {path : String} {size : ℕ} (digest : D) (hpath : Json.quotedSize path ≤ 74)
    (hsize : size < 10 ^ 8) : Json.size (manifestFile path size digest) ≤ 200 := by
  have hkeys : Json.quotedSize "path" = 6 ∧ Json.quotedSize "size_bytes" = 12 ∧
      Json.quotedSize "sha256" = 8 := by
    and_intros <;> exact Json.quotedSize_literal rfl
  have hint : Json.size (.int size) ≤ 8 := Json.size_nat_le (by decide) hsize
  rw [manifestFile, Json.size_dict (by simp only [Json.keys, List.map_cons, List.map_nil]; decide)
    (by simp)]
  simp only [List.map_cons, List.map_nil, List.sum_cons, List.sum_nil, Json.size_str,
    quotedSize_hex, hkeys]
  clear hkeys
  omega

namespace ClosedBundle

variable (b : ClosedBundle D)

omit [WideHex D] in
theorem length_committedDigests_le : (committedDigests b.workflow).length ≤ b.workflow.artifacts.length := by
  rw [committedDigests, List.length_insertionSort]
  refine (List.dedup_sublist _).length_le.trans ?_
  rw [List.length_map]

omit [WideHex D] in
theorem nodup_keys_manifest (workflow : WorkflowBundle D) (workflowRaw stateRaw : Bytes)
    (objects : List (D × ℕ)) : (Json.keys (manifestItems workflow workflowRaw stateRaw objects ++
      [("bundle_digest", Json.str (hex (bundleDigest workflow workflowRaw stateRaw objects)))])).Nodup := by
  simp only [manifestItems, Json.keys, List.cons_append, List.nil_append, List.map_cons, List.map_nil]
  decide

/-- **A manifest fits** the default limits. -/
theorem length_manifestRaw_le (hstate : b.stateRaw.length < 10 ^ 8) :
    b.manifestRaw.length ≤ ArtifactBundleLimits.default.maxManifestBytes := by
  have hmax : maxWorkflowArtifacts = 1024 := rfl
  have hmany := b.workflow.ok.artifacts_length
  have hfew := b.length_committedDigests_le
  have hworkflow : b.workflowRaw.length < 10 ^ 8 :=
    lt_of_le_of_lt b.workflow.ok.size_le (by decide)
  have hdocuments : Json.quotedSize "workflow.json" ≤ 74 ∧ Json.quotedSize "state.json" ≤ 74 := by
    and_intros <;> exact Json.quotedSize_literal_le rfl
  have hfile : ∀ v ∈ manifestFiles b.workflowRaw b.stateRaw b.objects, Json.size v ≤ 200 := by
    intro v hv
    rw [manifestFiles, List.mem_append, List.mem_cons, List.mem_singleton] at hv
    rcases hv with (rfl | rfl) | hv
    · exact size_manifestFile_le _ hdocuments.1 hworkflow
    · exact size_manifestFile_le _ hdocuments.2 hstate
    · obtain ⟨o, ho, rfl⟩ := List.mem_map.mp hv
      obtain ⟨d, hd, rfl⟩ := List.mem_map.mp ho
      obtain ⟨a, ha, rfl⟩ := mem_committedDigests.mp hd
      refine size_manifestFile_le _ (quotedSize_objectPath _).le ?_
      rw [b.size_content ha]
      exact lt_of_le_of_lt a.size_le (by decide)
  have hfiles := Json.size_arr_le_of hfile
  have hlength : (manifestFiles b.workflowRaw b.stateRaw b.objects).length =
      (committedDigests b.workflow).length + 2 := by
    simp [manifestFiles, objects, committedObjects]
  have hartifacts := Json.size_map_le ArtifactReference.size_manifest_le b.workflow.artifacts
  have hkeys : Json.quotedSize "kind" = 6 ∧ Json.quotedSize "schema_version" = 16 ∧
      Json.quotedSize "workflow_head" = 15 ∧ Json.quotedSize "evidence_head" = 15 ∧
      Json.quotedSize "authority_digest" = 18 ∧ Json.quotedSize "files" = 7 ∧
      Json.quotedSize "artifacts" = 11 ∧ Json.quotedSize "bundle_digest" = 15 ∧
      Json.quotedSize "1.0" = 5 ∧ Json.quotedSize "evidence-braid-artifact-bundle" = 32 := by
    and_intros <;> exact Json.quotedSize_literal rfl
  have hlimit : ArtifactBundleLimits.default.maxManifestBytes = 4194304 := rfl
  change Json.size b.manifest ≤ _
  rw [manifest, manifestOf, Json.size_dict (nodup_keys_manifest _ _ _ _) (by simp [manifestItems])]
  simp only [manifestItems, List.cons_append, List.nil_append, List.map_cons, List.map_nil,
    List.sum_cons, List.sum_nil, Json.size_str, quotedSize_hex, hkeys]
  clear hkeys
  rw [hlength] at hfiles
  omega

/-- The names of the members are admissible. -/
theorem named_members : ∀ m ∈ b.members, m.name ∈ documentNames ∨ isObjectName m.name = true := by
  intro m hm
  have hname : m.name ∈ documentNames ++ (committedDigests b.workflow).map objectPath := by
    rw [← b.map_name_members]
    exact List.mem_map_of_mem hm
  rcases List.mem_append.mp hname with hname | hname
  · exact .inl hname
  · obtain ⟨d, -, hd⟩ := List.mem_map.mp hname
    exact .inr (hd ▸ isObjectName_objectPath d)

omit [WideHex D] in
theorem nodup_members : (b.members.map Member.name).Nodup := by
  rw [b.map_name_members]
  refine List.nodup_append.mpr ⟨by decide,
    (nodup_committedDigests b.workflow).map objectPath_injective, ?_⟩
  rintro name hname _ hobject rfl
  obtain ⟨d, -, rfl⟩ := List.mem_map.mp hobject
  exact objectPath_not_mem d hname

omit [WideHex D] in
theorem sorted_objects : (committedDigests b.workflow).map objectPath =
    sortNames ((committedDigests b.workflow).map objectPath) := by
  refine (List.Pairwise.insertionSort_eq (List.pairwise_map.mpr ?_)).symm
  exact (List.pairwise_insertionSort (fun a b : D => hex a ≤ hex b) _).imp objectPath_le

/-- **A bundle fits** the default limits when its artifacts and its state do. -/
theorem admissible_members (hbounded : BoundedArtifacts ArtifactBundleLimits.default b.workflow)
    (htotal : (b.objects.map Prod.snd).sum ≤ ArtifactBundleLimits.default.maxTotalObjectBytes)
    (hstate : b.stateRaw.length ≤ ArtifactBundleLimits.default.maxStateBytes) :
    Admissible ArtifactBundleLimits.default b.members := by
  have hcount : b.members.length ≤ 1027 := by
    have hmany : b.workflow.artifacts.length ≤ 1024 := hbounded.count_le
    have hfew := b.length_committedDigests_le
    simp only [members, files, List.length_map, List.length_append, List.length_cons, List.length_nil]
    omega
  have hname : ∀ m ∈ b.members, m.nameBytes.length ≤ 72 := by
    intro m hm
    have hlength : m.nameBytes.length = m.name.toList.length :=
      Utf8.length_encode_ascii (ascii_of_memberName (b.named_members m hm))
    rw [hlength]
    exact (length_memberName (b.named_members m hm)).2
  have hmanifest := b.length_manifestRaw_le (lt_of_le_of_lt hstate (by decide))
  have hworkflow : b.workflowRaw.length ≤ ArtifactBundleLimits.default.maxWorkflowBytes :=
    b.workflow.ok.size_le
  refine ⟨⟨?_, hcount⟩, ?_, ?_, b.named_members, b.nodup_members, ?_, ?_, ?_, ?_, ?_⟩
  · simp [members, files]
  · have hsum : (b.members.map fun m => Zip.centralFormat.sum + m.nameBytes.length).sum ≤
        (b.members.map _).length * 118 := List.sum_le_card_nsmul _ _ fun n hn => by
      obtain ⟨m, hm, rfl⟩ := List.mem_map.mp hn
      exact Nat.add_le_add_left (hname m hm) 46
    have hlimit : ArtifactBundleLimits.default.maxCentralBytes = 262144 := rfl
    rw [List.length_map] at hsum
    rw [Zip.Profile.length_directory]
    omega
  · have hdata : (b.members.map fun m => m.data.length).sum = b.manifestRaw.length +
        b.workflowRaw.length + b.stateRaw.length + (b.objects.map Prod.snd).sum := by
      simp [members, files, fileMember, objects, committedObjects, Function.comp_def, Nat.add_assoc]
    have hsum : (b.members.map fun m =>
        Zip.centralFormat.sum + Zip.localFormat.sum + 2 * m.nameBytes.length).sum ≤
          (b.members.map _).length * 220 := List.sum_le_card_nsmul _ _ fun n hn => by
      obtain ⟨m, hm, rfl⟩ := List.mem_map.mp hn
      exact Nat.add_le_add_left (Nat.mul_le_mul_left 2 (hname m hm)) 76
    have hlimits : ArtifactBundleLimits.default.maxManifestBytes = 4194304 ∧
        ArtifactBundleLimits.default.maxWorkflowBytes = 67108864 ∧
        ArtifactBundleLimits.default.maxStateBytes = 67108864 ∧
        ArtifactBundleLimits.default.maxTotalObjectBytes = 536870912 ∧
        ArtifactBundleLimits.default.maxArchiveBytes = 1073741824 ∧ Zip.endFormat.sum = 22 :=
      ⟨rfl, rfl, rfl, rfl, rfl, rfl⟩
    rw [List.length_map] at hsum
    rw [Zip.Profile.length_archive, List.sum_map_add, hdata]
    omega
  · rw [b.map_name_members]
    rfl
  · rw [b.map_name_members]
    exact b.sorted_objects
  · intro m hm
    obtain ⟨file, hfile, rfl⟩ := List.mem_map.mp hm
    simp only [files, List.cons_append, List.nil_append, List.mem_cons] at hfile
    rcases hfile with rfl | rfl | rfl | hfile
    · exact hmanifest
    · exact hworkflow
    · exact hstate
    · obtain ⟨d, hd, rfl⟩ := List.mem_map.mp hfile
      obtain ⟨a, ha, rfl⟩ := mem_committedDigests.mp hd
      have hlimit : ArtifactBundleLimits.default.entryLimit (objectPath a.sha256) =
          ArtifactBundleLimits.default.maxArtifactBytes := by
        have hnot := objectPath_not_mem a.sha256
        simp only [documentNames, List.mem_cons, List.not_mem_nil, or_false, not_or] at hnot
        rw [ArtifactBundleLimits.entryLimit, if_neg hnot.1, if_neg hnot.2.1, if_neg hnot.2.2]
      change (b.content a.sha256).length ≤
        ArtifactBundleLimits.default.entryLimit (objectPath a.sha256)
      rw [hlimit, b.size_content ha]
      exact hbounded.size_le a ha
  · rw [b.sumObjectBytes_members]
    exact htotal
  · intro m hm
    obtain ⟨file, -, rfl⟩ := List.mem_map.mp hm
    exact Zip.crc32_lt _

end ClosedBundle

end Fitting

/-! ## One digest, one archive -/

omit [DecidableEq D] in
theorem manifestFile_inj {path path' : String} {size size' : ℕ} {digest digest' : D}
    (h : manifestFile path size digest = manifestFile path' size' digest') :
    size = size' ∧ digest = digest' := by
  simp +decide only [manifestFile, Json.dict, List.foldr, Json.insertKey, if_true, if_false,
    Json.obj.injEq, List.cons.injEq, Prod.mk.injEq, true_and, Json.str.injEq, Json.int.injEq, hex_inj,
    and_true, Nat.cast_inj] at h
  exact ⟨h.2.2, h.2.1⟩

/-- The manifest binds every part of it that its digest covers. -/
theorem manifestItems_inj {v w : WorkflowBundle D} {workflowRaw workflowRaw' stateRaw stateRaw' : Bytes}
    {objects objects' : List (D × ℕ)}
    (h : Json.dict (manifestItems v workflowRaw stateRaw objects) =
      Json.dict (manifestItems w workflowRaw' stateRaw' objects')) :
    manifestItems v workflowRaw stateRaw objects = manifestItems w workflowRaw' stateRaw' objects' ∧
      (sha256 workflowRaw : D) = sha256 workflowRaw' ∧ (sha256 stateRaw : D) = sha256 stateRaw' ∧
      objects = objects' := by
  simp +decide only [manifestItems, Json.dict, List.foldr, Json.insertKey, if_true, if_false,
    Json.obj.injEq, List.cons.injEq, Prod.mk.injEq, true_and, Json.str.injEq, Json.arr.injEq,
    and_true] at h
  obtain ⟨hartifacts, hauthority, hevidence, hfiles, hhead⟩ := h
  refine ⟨?_, ?_⟩
  · simp only [manifestItems, Json.dict, hartifacts, hauthority, hevidence, hfiles, hhead]
  · simp only [manifestFiles, List.cons_append, List.nil_append, List.cons.injEq] at hfiles
    obtain ⟨hworkflow, hstate, hobjects⟩ := hfiles
    refine ⟨(manifestFile_inj hworkflow).2, (manifestFile_inj hstate).2, ?_⟩
    refine List.map_injective_iff.mpr (fun o o' ho => ?_) hobjects
    exact Prod.ext (manifestFile_inj ho).2 (manifestFile_inj ho).1

namespace ClosedBundle

/-- **The digest determines the members**, where `sha256` does not collide. -/
theorem members_eq_of_digest (hinj : Function.Injective (sha256 : Bytes → D)) {b c : ClosedBundle D}
    (h : b.digest = c.digest) : b.members = c.members := by
  have hdocument := canonicalBytes_inj
    (Json.wellKeyed_dict (wellKeyed_manifestItems b.workflow b.workflowRaw b.stateRaw b.objects))
    (Json.wellKeyed_dict (wellKeyed_manifestItems c.workflow c.workflowRaw c.stateRaw c.objects))
    (hinj h)
  obtain ⟨hitems, hworkflow, hstate, hobjects⟩ := manifestItems_inj hdocument
  have hmanifest : b.manifestRaw = c.manifestRaw := by
    have hdigest : bundleDigest b.workflow b.workflowRaw b.stateRaw b.objects =
        bundleDigest c.workflow c.workflowRaw c.stateRaw c.objects := h
    rw [manifestRaw, manifestRaw, manifest, manifest, manifestOf, manifestOf, hitems, hdigest]
  have hdigests : committedDigests b.workflow = committedDigests c.workflow := by
    have hmap := congrArg (List.map Prod.fst) hobjects
    simpa [objects, committedObjects, Function.comp_def] using hmap
  have hcontents : ∀ d ∈ committedDigests b.workflow, b.content d = c.content d := by
    intro d hd
    exact hinj ((b.sha256_content hd).trans (c.sha256_content (hdigests ▸ hd)).symm)
  have hfiles : b.files = c.files := by
    rw [files, files, hmanifest, hinj hworkflow, hinj hstate, ← hdigests]
    refine congrArg _ (List.map_congr_left fun d hd => ?_)
    rw [hcontents d hd]
  rw [members, members, hfiles]

end ClosedBundle

/-- An accepted archive is that of a closed bundle. -/
theorem of_verifyArtifactBundle {archive : Bytes} {authority : AuthorityPolicy}
    {expectedHead expectedEvidenceHead : D} {expectedBundleDigest : Option D}
    {limits : ArtifactBundleLimits} {v : VerifiedArtifactBundle D}
    (h : verifyArtifactBundle archive authority expectedHead expectedEvidenceHead
      expectedBundleDigest limits = .ok v) :
    ∃ b : ClosedBundle D,
      b.Accepted authority expectedHead expectedEvidenceHead expectedBundleDigest limits ∧
        archive = b.archive ∧ v = b.verified := by
  simp only [verifyArtifactBundle, bind_eq_ok, Prod.exists, Except.ok.injEq] at h
  obtain ⟨v, journal, captured, hinternal, rfl⟩ := h
  obtain ⟨b, capture, haccepted, harchive, hv, -⟩ := of_internal hinternal
  exact ⟨b, haccepted, harchive, hv⟩

/-- The archive of a closed bundle is accepted. -/
theorem ClosedBundle.Accepted.verify {b : ClosedBundle D} {authority : AuthorityPolicy}
    {expectedHead expectedEvidenceHead : D} {expectedBundleDigest : Option D}
    {limits : ArtifactBundleLimits}
    (h : b.Accepted authority expectedHead expectedEvidenceHead expectedBundleDigest limits) :
    verifyArtifactBundle b.archive authority expectedHead expectedEvidenceHead expectedBundleDigest
      limits = .ok b.verified := by
  simp only [verifyArtifactBundle, bind_eq_ok, Prod.exists, Except.ok.injEq]
  exact ⟨_, _, _, h.internal rfl, rfl⟩

theorem inventory_members {b : ClosedBundle D} {limits : ArtifactBundleLimits}
    (h : Admissible limits b.members) : ∃ view entries,
      Archive.preflight b.archive limits = .ok (view, entries) ∧ inventory view = .ok b.members :=
  ⟨_, _, Archive.preflight_eq_ok.mpr ⟨_, h, rfl, rfl, rfl⟩, inventory_viewOf h⟩

/-- **Archive verification is sound.** An accepted archive is that of a closed bundle: its members,
as `ZipFile` reads them, are the manifest, the workflow, the state that the workflow replays to, and
one object for each digest that the artifacts commit to, in order; each object has the size and the
digest of every artifact that commits to it. An accepted archive with the same bundle digest has the
same members. -/
theorem verifyArtifactBundle_sound {archive : Bytes} {authority : AuthorityPolicy}
    {expectedHead expectedEvidenceHead : D} {expectedBundleDigest : Option D}
    {limits : ArtifactBundleLimits} {v : VerifiedArtifactBundle D}
    (h : verifyArtifactBundle archive authority expectedHead expectedEvidenceHead
      expectedBundleDigest limits = .ok v) :
    ∃ (content : D → Bytes) (members : List Member),
      (∃ view entries, Archive.preflight archive limits = .ok (view, entries) ∧ inventory view = .ok members) ∧
      members.map (fun m => (m.name, m.data)) =
        [("manifest.json", canonicalBytes (manifestOf v.workflow (canonicalBytes v.workflow.toDict)
            (canonicalBytes v.state.toDict) (committedObjects v.workflow content))),
          ("workflow.json", canonicalBytes v.workflow.toDict),
          ("state.json", canonicalBytes v.state.toDict)] ++
        (committedDigests v.workflow).map (fun d => (objectPath d, content d)) ∧
      (∀ a ∈ v.workflow.artifacts, a.Matches (content a.sha256)) ∧
      replayWorkflow v.workflow authority (some expectedHead) = .ok v.state ∧
      v.workflow.evidence.headDigest = expectedEvidenceHead ∧
      (∀ expected ∈ expectedBundleDigest, v.bundleDigest = expected) ∧
      (Function.Injective (sha256 : Bytes → D) →
        ∀ archive' authority' head evidenceHead digest limits' v',
          verifyArtifactBundle archive' authority' head evidenceHead digest limits' = .ok v' →
          v'.bundleDigest = v.bundleDigest → archive' = archive ∧
            ∃ view entries, Archive.preflight archive' limits' = .ok (view, entries) ∧
              inventory view = .ok members) := by
  obtain ⟨b, haccepted, rfl, rfl⟩ := of_verifyArtifactBundle h
  refine ⟨b.content, b.members, inventory_members haccepted.admissible, ?_, b.matches_content,
    haccepted.replayed, haccepted.evidence_head, haccepted.digest_eq, ?_⟩
  · rw [ClosedBundle.members, List.map_map]
    exact List.map_id b.files
  · intro hinj archive' authority' head evidenceHead digest limits' v' h' hdigest
    obtain ⟨c, haccepted', rfl, rfl⟩ := of_verifyArtifactBundle h'
    have hmembers := ClosedBundle.members_eq_of_digest hinj hdigest
    rw [ClosedBundle.archive, ClosedBundle.archive, hmembers]
    exact ⟨rfl, hmembers ▸ inventory_members haccepted'.admissible⟩

omit [DecidableEq D] in
theorem WorkflowState.size_toDict_le [WideHex D] {s : WorkflowState D}
    (h : s.recordCount ≤ maxWorkflowRecords) : Json.size s.toDict ≤
      Json.size (Json.dict (s.claims.items.map fun kv => (kv.1.value, kv.2.toDict))) + 400 := by
  have hkeys : Json.quotedSize "workflow_id" = 13 ∧ Json.quotedSize "head_digest" = 13 ∧
      Json.quotedSize "record_count" = 14 ∧ Json.quotedSize "claims" = 8 := by
    and_intros <;> exact Json.quotedSize_literal rfl
  have hid := s.workflowId.quotedSize_le
  have hcount : Json.size (.int s.recordCount) ≤ 5 :=
    Json.size_nat_le (by decide) (lt_of_le_of_lt h (by decide))
  rw [toDict, Json.size_dict (by simp only [Json.keys, List.map_cons, List.map_nil]; decide) (by simp)]
  simp only [List.map_cons, List.map_nil, List.sum_cons, List.sum_nil, Json.size_str,
    quotedSize_hex, hkeys]
  clear hkeys
  omega

/-- The archive of the sample history, whose artifact is empty. -/
theorem verifyArtifactBundle_sound_sample : ∃ (archive : Bytes) (v : VerifiedArtifactBundle HexDigest)
    (content : HexDigest → Bytes), (∃ head evidenceHead, verifyArtifactBundle archive sampleAuthority
      head evidenceHead none ArtifactBundleLimits.default = .ok v) ∧ v.workflow.artifacts ≠ [] ∧
    ∀ a ∈ v.workflow.artifacts, a.Matches (content a.sha256) := by
  obtain ⟨workflow, hcontext, hreplay⟩ := replay_sampleContext HexDigest
  have hartifacts := congrArg BundleFields.artifacts hcontext
  let b : ClosedBundle HexDigest := ⟨workflow, ⟨workflow.workflowId, workflow.headDigest,
    workflow.records.length, boundClaim .approved 5 [⟨"r", by decide⟩]⟩, fun _ => [], by
      rw [hartifacts]
      exact fun a ha => by rw [List.mem_singleton.mp ha]; exact ⟨rfl, rfl⟩⟩
  have hbounded : BoundedArtifacts ArtifactBundleLimits.default workflow := by
    constructor
    all_goals rw [hartifacts]
    · exact Nat.le_add_left 1 _
    · exact Nat.zero_le _
    · exact fun a ha => by rw [List.mem_singleton.mp ha]; exact Nat.zero_le _
  have htotal : (b.objects.map Prod.snd).sum ≤ ArtifactBundleLimits.default.maxTotalObjectBytes := by
    have hzero : (b.objects.map Prod.snd).sum = 0 := by
      simp [ClosedBundle.objects, committedObjects, b, Function.comp_def]
    rw [hzero]
    exact Nat.zero_le _
  have hstate : b.stateRaw.length ≤ ArtifactBundleLimits.default.maxStateBytes := by
    have hsize := b.state.size_toDict_le workflow.ok.records_length
    have hclaims : Json.size (Json.dict ((boundClaim .approved 5 [⟨"r", by decide⟩]).items.map
        fun kv => (kv.1.value, kv.2.toDict))) ≤ 1000 := by decide +kernel
    have hraw : b.stateRaw.length ≤ 1000 + 400 := hsize.trans (Nat.add_le_add_right hclaims 400)
    exact hraw.trans (by decide)
  have haccepted : b.Accepted sampleAuthority workflow.headDigest workflow.evidence.headDigest none
      ArtifactBundleLimits.default :=
    ⟨b.admissible_members hbounded htotal hstate, replayWorkflow_own_head hreplay, rfl, hbounded,
      by simp⟩
  obtain ⟨content, members, -, -, hmatches, -⟩ := verifyArtifactBundle_sound haccepted.verify
  refine ⟨b.archive, b.verified, content, ⟨_, _, haccepted.verify⟩, ?_, hmatches⟩
  change workflow.artifacts ≠ []
  rw [hartifacts]
  exact List.cons_ne_nil _ _

end EvidenceBraid
