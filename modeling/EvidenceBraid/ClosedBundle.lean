import EvidenceBraid.ArtifactBundleProof
import EvidenceBraid.WorkflowProof

/-!
# Accepted bundles are closed

A closed bundle is a workflow with a state, and a content for each digest that its artifacts commit
to (`ClosedBundle`). The archives that verification accepts are those of closed bundles whose state
is the replay of the workflow (`of_internal`, `ClosedBundle.Accepted.internal`).
-/

namespace EvidenceBraid

open Hashing
open Json (WellKeyed)
open Zip (Member)

variable {D : Type} [Hashing D] [DecidableEq D]

/-! ## Members -/

/-- The member that stores a file. -/
def fileMember (file : String × Bytes) : Member := ⟨file.1, file.2, Zip.crc32 file.2⟩

theorem eq_fileMember {m : Member} (h : Zip.crc32 m.data = m.crc) :
    m = fileMember (m.name, m.data) := by
  rw [fileMember, h]

section Reading

variable {limits : ArtifactBundleLimits} {ms : List Member}

/-- **A document** is what the member of its name stores. -/
theorem readDocument_viewOf (h : Admissible limits ms) {name : String} {raw : Bytes} :
    readDocument (viewOf ms) (infosOf 0 ms) limits name = .ok raw ↔ fileMember (name, raw) ∈ ms := by
  simp only [readDocument, bind_eq_ok, openMember_viewOf h]
  constructor
  · rintro ⟨m, ⟨hm, rfl⟩, hread⟩
    have hsize := h.size_le m hm
    obtain ⟨hcrc, rfl⟩ := (readMember_eq_ok (by omega)).mp hread
    rwa [← eq_fileMember hcrc]
  · intro hm
    have hsize := h.size_le _ hm
    exact ⟨_, ⟨hm, rfl⟩, (readMember_eq_ok (Nat.le_succ_of_le hsize)).mpr ⟨rfl, rfl⟩⟩

/-- The bytes of an object. -/
def objectContent (ms : List Member) (digest : D) : Bytes :=
  ((ms.find? fun m => m.name = objectPath digest).map Member.data).getD []

omit [DecidableEq D] in
theorem objectContent_eq (h : Admissible limits ms) {digest : D} {m : Member} (hm : m ∈ ms)
    (hname : m.name = objectPath digest) : objectContent ms digest = m.data := by
  rcases hfind : ms.find? fun m => m.name = objectPath digest with _ | found
  · exact absurd (List.find?_eq_none.mp hfind m hm) (by simpa using hname)
  · have hfound : found.name = objectPath digest := by simpa using List.find?_some hfind
    have hsame := h.eq_of_name (List.mem_of_find?_eq_some hfind) hm (hfound.trans hname.symm)
    rw [objectContent, hfind, Option.map_some, Option.getD_some, hsame]

/-- An object is stored, with its size and its digest. -/
structure StoredObject (ms : List Member) (object : D × ℕ) : Prop where
  mem : fileMember (objectPath object.1, objectContent ms object.1) ∈ ms
  size : (objectContent ms object.1).length = object.2
  digest : sha256 (objectContent ms object.1) = object.1

/-- What is captured from an object. -/
def captureObject (references : Dict Identifier (ArtifactReference D)) (digest : D) (payload : Bytes)
    (captured : Dict Identifier Bytes) : Dict Identifier Bytes :=
  references.items.foldl (fun captured r =>
    if r.2.sha256 = digest then captured.set r.1 payload else captured) captured

/-- **One round of the loop over the objects** finds the object stored. -/
theorem checkObject_viewOf (h : Admissible limits ms)
    {references : Dict Identifier (ArtifactReference D)} {captured captured' : Dict Identifier Bytes}
    {object : D × ℕ} :
    checkObject (viewOf ms) (infosOf 0 ms) (entriesOf ms) references captured object = .ok captured' ↔
      StoredObject ms object ∧
        captured' = captureObject references object.1 (objectContent ms object.1) captured := by
  have hentries : ((entriesOf ms).map Prod.fst).Nodup := by
    rw [map_fst_entriesOf]
    exact h.distinct
  have hlookup : (entriesOf ms).lookup (objectPath object.1) = some object.2 ↔
      (objectPath object.1, object.2) ∈ entriesOf ms := (Dict.mk _ hentries).mem_items_iff.symm
  simp only [checkObject, bind_eq_ok, valid_eq_ok, exists_unit, openMember_viewOf h, readAll_eq_ok,
    Except.ok.injEq, hlookup]
  constructor
  · rintro ⟨hentry, m, ⟨hm, hname⟩, payload, ⟨hcrc, rfl⟩, hdigest, rfl⟩
    have hcontent := objectContent_eq h hm hname
    obtain ⟨m', hm', hsame⟩ := List.mem_map.mp hentry
    rw [Prod.mk.injEq] at hsame
    have hsize : m.data.length = object.2 := by
      rw [← hsame.2, h.eq_of_name hm hm' (hname.trans hsame.1.symm)]
    refine ⟨⟨?_, ?_, ?_⟩, ?_⟩
    · rw [hcontent, ← hname, ← eq_fileMember hcrc]
      exact hm
    · rw [hcontent, hsize]
    · rw [hcontent, hdigest]
    · rw [hcontent, captureObject]
  · rintro ⟨hstored, rfl⟩
    refine ⟨List.mem_map.mpr ⟨_, hstored.mem, ?_⟩, _, ⟨hstored.mem, rfl⟩, _, ⟨rfl, rfl⟩,
      hstored.digest, rfl⟩
    rw [fileMember, hstored.size]

/-- **The loop over the objects** finds each of them stored. -/
theorem checkObjects_viewOf (h : Admissible limits ms)
    {references : Dict Identifier (ArtifactReference D)} {objects : List (D × ℕ)} :
    ∀ {captured captured' : Dict Identifier Bytes},
      objects.foldlM (checkObject (viewOf ms) (infosOf 0 ms) (entriesOf ms) references) captured =
          .ok captured' ↔
        (∀ object ∈ objects, StoredObject ms object) ∧
          captured' = objects.foldl (fun captured object =>
            captureObject references object.1 (objectContent ms object.1) captured) captured := by
  induction objects with
  | nil =>
    intro captured captured'
    simp only [List.foldlM_nil, pure_eq_ok, List.not_mem_nil, false_implies, implies_true, true_and,
      List.foldl_nil]
    exact eq_comm
  | cons object objects ih =>
    intro captured captured'
    simp only [List.foldlM_cons, bind_eq_ok, checkObject_viewOf h, ih, List.forall_mem_cons,
      List.foldl_cons]
    constructor
    · rintro ⟨next, ⟨hstored, rfl⟩, hrest, rfl⟩
      exact ⟨⟨hstored, hrest⟩, rfl⟩
    · rintro ⟨⟨hstored, hrest⟩, rfl⟩
      exact ⟨_, ⟨hstored, rfl⟩, hrest, rfl⟩

/-- Members that have the names of some files and among which these are stored. -/
theorem eq_map_fileMember (h : Admissible limits ms) {files : List (String × Bytes)}
    (hnames : ms.map Member.name = files.map Prod.fst) (hmem : ∀ file ∈ files, fileMember file ∈ ms) :
    ms = files.map fileMember := by
  have hlength : ms.length = files.length := by
    have hlengths := congrArg List.length hnames
    rwa [List.length_map, List.length_map] at hlengths
  refine List.ext_getElem (by rw [List.length_map, hlength]) fun i hi hi' => ?_
  rw [List.length_map] at hi'
  have hname : (ms.map Member.name)[i]? = (files.map Prod.fst)[i]? := by rw [hnames]
  rw [List.getElem?_map, List.getElem?_map, List.getElem?_eq_getElem hi, List.getElem?_eq_getElem hi',
    Option.map_some, Option.map_some, Option.some.injEq] at hname
  rw [List.getElem_map]
  exact h.eq_of_name (List.getElem_mem hi) (hmem _ (List.getElem_mem hi')) hname

end Reading

/-! ## Closed bundles -/

/-- A workflow and a state, with a content for each digest that the artifacts commit to. -/
structure ClosedBundle (D : Type) [Hashing D] [DecidableEq D] where
  workflow : WorkflowBundle D
  state : WorkflowState D
  content : D → Bytes
  matches_content : ∀ a ∈ workflow.artifacts, a.Matches (content a.sha256)

namespace ClosedBundle

variable (b : ClosedBundle D)

def workflowRaw : Bytes := canonicalBytes b.workflow.toDict

def stateRaw : Bytes := canonicalBytes b.state.toDict

def objects : List (D × ℕ) := committedObjects b.workflow b.content

def manifest : Json := manifestOf b.workflow b.workflowRaw b.stateRaw b.objects

def manifestRaw : Bytes := canonicalBytes b.manifest

def digest : D := bundleDigest b.workflow b.workflowRaw b.stateRaw b.objects

/-- The documents, and one object for each committed digest. -/
def files : List (String × Bytes) :=
  [("manifest.json", b.manifestRaw), ("workflow.json", b.workflowRaw), ("state.json", b.stateRaw)] ++
    (committedDigests b.workflow).map fun d => (objectPath d, b.content d)

/-- The members of the archive. -/
def members : List Member := b.files.map fileMember

def archive : Bytes := archiveProfile.archive b.members

theorem map_fst_files : b.files.map Prod.fst =
    documentNames ++ (committedDigests b.workflow).map objectPath := by
  simp [files, documentNames, Function.comp_def]

theorem map_name_members : b.members.map Member.name =
    documentNames ++ (committedDigests b.workflow).map objectPath := by
  rw [← map_fst_files, members, List.map_map]
  rfl

/-- The sizes that the constructor of the result adds up. -/
theorem entriesOf_members : entriesOf b.members =
    memberSizes b.manifestRaw b.workflowRaw b.stateRaw b.objects := by
  simp [entriesOf, members, files, fileMember, memberSizes, objects, committedObjects,
    Function.comp_def]

/-- The conditions of verification. -/
structure Accepted (authority : AuthorityPolicy) (expectedHead expectedEvidenceHead : D)
    (expectedBundleDigest : Option D) (limits : ArtifactBundleLimits) : Prop where
  admissible : Admissible limits b.members
  replayed : replayWorkflow b.workflow authority (some expectedHead) = .ok b.state
  evidence_head : b.workflow.evidence.headDigest = expectedEvidenceHead
  bounded : BoundedArtifacts limits b.workflow
  digest_eq : ∀ expected ∈ expectedBundleDigest, b.digest = expected

/-- What verification returns. -/
def verified : VerifiedArtifactBundle D :=
  ⟨b.digest, b.workflow, b.state, b.objects.length, (b.objects.map Prod.snd).sum, b.archive.length⟩

/-- What is captured from the objects. -/
def capturedFrom (capture : CaseCapture D) : Dict Identifier Bytes :=
  (committedDigests b.workflow).foldl
    (fun captured d => captureObject capture.references d (b.content d) captured) capture.captured

end ClosedBundle

/-! ## Soundness -/

theorem make_eq_verified {v w : VerifiedArtifactBundle D}
    (h : VerifiedArtifactBundle.make v = .ok w) : w = v := by
  simp only [VerifiedArtifactBundle.make, bind_eq_ok, valid_eq_ok, exists_unit, Except.ok.injEq] at h
  obtain ⟨-, -, -, -, objects, -, -, -, h⟩ := h
  exact h.symm

/-- **The archives that verification accepts are those of closed bundles.** -/
theorem of_internal {archive : Bytes} {authority : AuthorityPolicy}
    {expectedHead expectedEvidenceHead : D} {expectedBundleDigest : Option D}
    {limits : ArtifactBundleLimits} {journalId : Option Identifier}
    {caseAuthority : Option CaseAuthority} {expectedCaseHead : Option D}
    {v : VerifiedArtifactBundle D} {journal : Option (CaseJournal D)}
    {captured : Dict Identifier Bytes}
    (h : verifyArtifactBundleInternal archive authority expectedHead expectedEvidenceHead
      expectedBundleDigest limits journalId caseAuthority expectedCaseHead =
        .ok (v, journal, captured)) :
    ∃ (b : ClosedBundle D) (capture : CaseCapture D),
      b.Accepted authority expectedHead expectedEvidenceHead expectedBundleDigest limits ∧
      archive = b.archive ∧ v = b.verified ∧
      captureCase (viewOf b.members) (infosOf 0 b.members) (entriesOf b.members) b.workflow journalId
        caseAuthority expectedCaseHead = .ok capture ∧
      journal = capture.journal ∧ captured = b.capturedFrom capture := by
  simp only [verifyArtifactBundleInternal, bind_eq_ok, valid_eq_ok, exists_unit, Except.ok.injEq,
    Prod.exists, Archive.preflight_eq_ok, Prod.mk.injEq] at h
  obtain ⟨view, entries, ⟨ms, hms, rfl, rfl, rfl⟩, infos, hinfos, manifestRaw, hmanifest,
    workflowRaw, hworkflow, h⟩ := h
  obtain ⟨stateRaw, hstate, manifest, hparsed, document, hdocument, workflow, hfrom, h⟩ := h
  obtain ⟨state, hreplay, -, -, stateBytes, hstateBytes, hstateRaw, objects, h⟩ := h
  obtain ⟨hobjects, capture, hcapture, hequal, manifestBytes, hmanifestBytes, hmanifestRaw,
    hnames, h⟩ := h
  obtain ⟨captured', hloop, hdigest, verified, hverified, rfl, rfl, rfl⟩ := h
  obtain rfl := Except.ok.inj ((infolist_viewOf hms).symm.trans hinfos)
  rw [readDocument_viewOf hms] at hmanifest hworkflow hstate
  obtain ⟨hworkflowRaw, hkeyed⟩ := of_parseDocument hdocument
  obtain ⟨rfl, hevidence, -⟩ := WorkflowBundle.of_fromDict hkeyed hfrom
  obtain rfl := hworkflowRaw
  obtain ⟨-, rfl⟩ := jsonBytes_eq_ok.mp hstateBytes
  obtain rfl := hstateRaw
  obtain ⟨-, rfl⟩ := jsonBytes_eq_ok.mp hmanifestBytes
  obtain rfl := hmanifestRaw
  obtain ⟨hstored, rfl⟩ := (checkObjects_viewOf hms).mp hloop
  obtain ⟨hdigests, hbounded, hcommitted, -⟩ := of_objectsOf hobjects
  have hmatches : ∀ a ∈ workflow.artifacts, a.Matches (objectContent ms a.sha256) := fun a ha =>
    ⟨(hstored _ (hcommitted a ha)).size, (hstored _ (hcommitted a ha)).digest⟩
  obtain rfl := eq_committedObjects hdigests hcommitted fun a ha => (hmatches a ha).1
  let b : ClosedBundle D := ⟨workflow, state, objectContent ms, hmatches⟩
  have hmembers : ms = b.members := by
    refine eq_map_fileMember hms ?_ ?_
    · rw [← map_fst_entriesOf, hnames, b.map_fst_files, committedObjects, List.map_map]
      rfl
    · simp only [ClosedBundle.files, List.cons_append, List.nil_append, List.forall_mem_cons]
      refine ⟨hmanifest, hworkflow, hstate, fun file hfile => ?_⟩
      obtain ⟨d, hd, rfl⟩ := List.mem_map.mp hfile
      exact (hstored (d, _) (List.mem_map_of_mem hd)).mem
  rw [hmembers] at hms hcapture
  refine ⟨b, capture, ⟨hms, hreplay, hevidence _ rfl, hbounded, hdigest⟩, ?_, ?_, hcapture, rfl, ?_⟩
  · rw [hmembers, ClosedBundle.archive]
  · rw [make_eq_verified hverified, ClosedBundle.verified, ClosedBundle.archive, ← hmembers]
    rfl
  · rw [ClosedBundle.capturedFrom, committedObjects, List.foldl_map]

/-! ## Completeness -/

omit [DecidableEq D] in
theorem inObjects_objectPath (d : D) : inObjects (objectPath d) = true := by
  rw [inObjects, objectPath, String.toList_append, List.isPrefixOf_iff_prefix]
  exact List.prefix_append _ _

omit [DecidableEq D] in
theorem wellKeyed_manifestFile (path : String) (size : ℕ) (digest : D) :
    WellKeyed (manifestFile path size digest) := by
  refine Json.wellKeyed_dict ?_
  simp only [List.forall_mem_cons, List.not_mem_nil, false_implies, implies_true,
    Json.wellKeyed_str, Json.wellKeyed_int, and_self]

omit [DecidableEq D] in
theorem wellKeyed_manifestFiles (workflowRaw stateRaw : Bytes) (objects : List (D × ℕ)) :
    WellKeyed (.arr (manifestFiles workflowRaw stateRaw objects)) := by
  refine Json.wellKeyed_arr.mpr fun v hv => ?_
  rw [manifestFiles, List.mem_append, List.mem_cons, List.mem_singleton] at hv
  rcases hv with (rfl | rfl) | hv
  · exact wellKeyed_manifestFile _ _ _
  · exact wellKeyed_manifestFile _ _ _
  · obtain ⟨o, -, rfl⟩ := List.mem_map.mp hv
    exact wellKeyed_manifestFile _ _ _

omit [DecidableEq D] in
theorem ArtifactReference.wellKeyed_manifest (a : ArtifactReference D) :
    WellKeyed (Json.dict (a.items ++ [("object_path", Json.str (objectPath a.sha256))])) := by
  refine Json.wellKeyed_dict ?_
  simp only [items, List.cons_append, List.nil_append, List.forall_mem_cons, List.not_mem_nil,
    false_implies, implies_true, Json.wellKeyed_str, Json.wellKeyed_int, and_self]

theorem wellKeyed_manifestItems (bundle : WorkflowBundle D) (workflowRaw stateRaw : Bytes)
    (objects : List (D × ℕ)) :
    ∀ kv ∈ manifestItems bundle workflowRaw stateRaw objects, WellKeyed kv.2 := by
  have hartifacts : WellKeyed (.arr (bundle.artifacts.map fun a =>
      Json.dict (a.items ++ [("object_path", Json.str (objectPath a.sha256))]))) := by
    refine Json.wellKeyed_arr.mpr fun v hv => ?_
    obtain ⟨a, -, rfl⟩ := List.mem_map.mp hv
    exact a.wellKeyed_manifest
  simp only [manifestItems, List.forall_mem_cons, List.not_mem_nil, false_implies, implies_true,
    Json.wellKeyed_str, wellKeyed_manifestFiles, hartifacts, and_self]

namespace ClosedBundle

variable (b : ClosedBundle D)

theorem wellKeyed_manifest : WellKeyed b.manifest := by
  refine Json.wellKeyed_dict fun kv hkv => ?_
  rcases List.mem_append.mp hkv with hkv | hkv
  · exact wellKeyed_manifestItems _ _ _ _ kv hkv
  · rw [List.mem_singleton.mp hkv]
    trivial

theorem size_content {a : ArtifactReference D} (ha : a ∈ b.workflow.artifacts) :
    (b.content a.sha256).length = a.sizeBytes := (b.matches_content a ha).1

theorem sha256_content {d : D} (hd : d ∈ committedDigests b.workflow) : sha256 (b.content d) = d := by
  obtain ⟨a, ha, rfl⟩ := mem_committedDigests.mp hd
  exact (b.matches_content a ha).2

/-- The objects of the archive are those of the bundle. -/
theorem sumObjectBytes_members : sumObjectBytes b.members = (b.objects.map Prod.snd).sum := by
  have hdocuments : inObjects "manifest.json" = false ∧ inObjects "workflow.json" = false ∧
      inObjects "state.json" = false := by decide
  have hfilter : ((committedDigests b.workflow).map fun d =>
      fileMember (objectPath d, b.content d)).filter (fun m => inObjects m.name) =
        (committedDigests b.workflow).map fun d => fileMember (objectPath d, b.content d) := by
    refine List.filter_eq_self.mpr fun m hm => ?_
    obtain ⟨d, -, rfl⟩ := List.mem_map.mp hm
    exact inObjects_objectPath d
  simp only [sumObjectBytes, members, files, List.cons_append, List.nil_append, List.map_cons,
    List.map_map, Function.comp_def]
  rw [List.filter_cons_of_neg (by simp [fileMember, hdocuments]),
    List.filter_cons_of_neg (by simp [fileMember, hdocuments]),
    List.filter_cons_of_neg (by simp [fileMember, hdocuments]), hfilter, objects, committedObjects,
    List.map_map, List.map_map]
  rfl

theorem fileMember_mem {file : String × Bytes} (h : file ∈ b.files) : fileMember file ∈ b.members :=
  List.mem_map_of_mem h

theorem length_objects : b.objects.length + 3 = b.members.length := by
  simp [objects, committedObjects, members, files]

section Accepting

variable {b} {authority : AuthorityPolicy} {expectedHead expectedEvidenceHead : D}
  {expectedBundleDigest : Option D} {limits : ArtifactBundleLimits}
  (h : b.Accepted authority expectedHead expectedEvidenceHead expectedBundleDigest limits)
include h

theorem Accepted.total_le : (b.objects.map Prod.snd).sum ≤ limits.maxTotalObjectBytes := by
  rw [← b.sumObjectBytes_members]
  exact h.admissible.total_le

theorem Accepted.objectsOf_eq : objectsOf b.workflow limits = .ok b.objects :=
  objectsOf_committed h.bounded (fun _ ha => b.size_content ha) h.total_le

/-- The default limits are the widest. -/
theorem Accepted.objectsOf_default :
    objectsOf b.workflow ArtifactBundleLimits.default = .ok b.objects := by
  refine objectsOf_committed ⟨?_, ?_, fun a ha => ?_⟩ (fun _ ha => b.size_content ha) ?_
  · exact h.bounded.count_le.trans limits.artifacts_range.2
  · exact h.bounded.source_le.trans limits.source_range.2
  · exact (h.bounded.size_le a ha).trans limits.artifact_range.2
  · exact h.total_le.trans limits.object_range.2

/-- The constructor of the result has nothing to object to. -/
theorem Accepted.make_verified : VerifiedArtifactBundle.make b.verified = .ok b.verified := by
  have hcount := h.admissible.count.2
  have hlength := b.length_objects
  have hartifacts := limits.artifacts_range.2
  have hstate : b.state.headDigest = b.workflow.headDigest ∧
      b.state.workflowId = b.workflow.workflowId ∧
      b.state.recordCount = b.workflow.records.length := by
    have hreplay := h.replayed
    simp only [replayWorkflow, bind_eq_ok, valid_eq_ok, exists_unit] at hreplay
    obtain ⟨-, -, claims, -, hmake⟩ := hreplay
    rw [WorkflowState.make_eq_ok hmake]
    exact ⟨rfl, rfl, rfl⟩
  have hsize : b.archive.length = archiveSize (memberSizes b.manifestRaw b.workflowRaw b.stateRaw
      b.objects) := by
    rw [← entriesOf_members]
    exact length_archive_entriesOf h.admissible
  simp only [VerifiedArtifactBundle.make, bind_eq_ok, valid_eq_ok, exists_unit]
  refine ⟨hstate, ?_, h.total_le.trans limits.object_range.2,
    h.admissible.archive_le.trans limits.archive_range.2, b.objects, h.objectsOf_default, ⟨rfl, rfl⟩,
    ⟨rfl, hsize⟩, trivial⟩
  change b.objects.length ≤ 1024
  omega

/-- The objects are stored. -/
theorem Accepted.stored {d : D} (hd : d ∈ committedDigests b.workflow) :
    objectContent b.members d = b.content d ∧
      StoredObject b.members (d, (b.content d).length) := by
  have hmem : fileMember (objectPath d, b.content d) ∈ b.members :=
    b.fileMember_mem (List.mem_append_right _ (List.mem_map_of_mem hd))
  have hcontent : objectContent b.members d = b.content d := objectContent_eq h.admissible hmem rfl
  refine ⟨hcontent, ?_, ?_, ?_⟩
  · rw [hcontent]
    exact hmem
  · rw [hcontent]
  · rw [hcontent]
    exact b.sha256_content hd

/-- **Verification accepts the archives of closed bundles.** -/
theorem Accepted.internal {journalId : Option Identifier} {caseAuthority : Option CaseAuthority}
    {expectedCaseHead : Option D} {capture : CaseCapture D}
    (hcapture : captureCase (viewOf b.members) (infosOf 0 b.members) (entriesOf b.members) b.workflow
      journalId caseAuthority expectedCaseHead = .ok capture) :
    verifyArtifactBundleInternal b.archive authority expectedHead expectedEvidenceHead
      expectedBundleDigest limits journalId caseAuthority expectedCaseHead =
        .ok (b.verified, capture.journal, b.capturedFrom capture) := by
  have hread {name : String} {raw : Bytes} (hfile : (name, raw) ∈ b.files) :
      readDocument (viewOf b.members) (infosOf 0 b.members) limits name = .ok raw :=
    (readDocument_viewOf h.admissible).mpr (b.fileMember_mem hfile)
  have hbytes {name : String} {raw : Bytes} (hfile : (name, raw) ∈ b.files) :
      raw.length ≤ limits.entryLimit name := h.admissible.size_le _ (b.fileMember_mem hfile)
  have hmanifest : ("manifest.json", b.manifestRaw) ∈ b.files := by simp [files]
  have hworkflow : ("workflow.json", b.workflowRaw) ∈ b.files := by simp [files]
  have hstate : ("state.json", b.stateRaw) ∈ b.files := by simp [files]
  simp only [verifyArtifactBundleInternal, bind_eq_ok, valid_eq_ok, exists_unit, Except.ok.injEq,
    Prod.exists, Archive.preflight_eq_ok, Prod.mk.injEq]
  refine ⟨_, _, ⟨b.members, h.admissible, rfl, rfl, rfl⟩, _, infolist_viewOf h.admissible,
    b.manifestRaw, hread hmanifest, b.workflowRaw, hread hworkflow, b.stateRaw, hread hstate,
    b.manifest, parseDocument_canonical b.wellKeyed_manifest _, b.workflow.toDict,
    parseDocument_canonical b.workflow.wellKeyed_toDict _, b.workflow,
    b.workflow.fromDict_toDict authority h.replayed ?_, b.state, h.replayed, b.state.toDict,
    parseDocument_canonical b.state.wellKeyed_toDict _, b.stateRaw,
    jsonBytes_eq_ok.mpr ⟨hbytes hstate, rfl⟩, rfl, b.objects, h.objectsOf_eq, capture, hcapture, rfl,
    b.manifestRaw, jsonBytes_eq_ok.mpr ⟨hbytes hmanifest, rfl⟩, rfl, ?_, b.capturedFrom capture, ?_,
    h.digest_eq, b.verified, h.make_verified, rfl, rfl, rfl⟩
  · rintro _ ⟨⟩
    exact h.evidence_head
  · rw [map_fst_entriesOf, map_name_members, objects, committedObjects, List.map_map]
    rfl
  · refine (checkObjects_viewOf h.admissible).mpr ⟨fun o ho => ?_, ?_⟩
    · obtain ⟨d, hd, rfl⟩ := List.mem_map.mp ho
      exact (h.stored hd).2
    · rw [capturedFrom, objects, committedObjects, List.foldl_map]
      refine List.foldl_ext _ _ _ fun captured d hd => ?_
      rw [(h.stored hd).1]

end Accepting

end ClosedBundle

end EvidenceBraid
