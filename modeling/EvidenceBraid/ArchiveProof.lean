import EvidenceBraid.Archive

/-!
# Accepted archives are canonical

The scan reads one directory record and one local record in each round, from where the last round
left off (`scanEntry_eq_ok`); the rounds together read the archive of their members
(`scanEntries_eq_ok`). So the preflight accepts the archives of admissible members and nothing else
(`preflight_eq_ok`).
-/

namespace EvidenceBraid

open Zip (Member centralFormat endFormat localFormat pack unpack)

/-! ## Names -/

theorem encode_of_decodeAscii {raw : Bytes} {name : String} (h : decodeAscii raw = some name) :
    Utf8.encode name.toList = raw := by
  unfold decodeAscii at h
  split_ifs at h
  obtain ⟨cs, hcs, rfl⟩ := Option.map_eq_some_iff.mp h
  rw [String.toList_ofList]
  exact Utf8.encode_of_decode hcs

/-- The characters of a member's name are ASCII. -/
theorem ascii_of_memberName {name : String} (h : name ∈ documentNames ∨ isObjectName name = true) :
    ∀ c ∈ name.toList, c.toNat < 128 := by
  rcases h with h | h
  · have hall : documentNames.all (fun name => name.toList.all fun c => c.toNat < 128) = true := by decide
    exact List.all_iff_forall_prop.mp (List.all_eq_true.mp hall name h)
  · simp only [isObjectName, inObjects, isHash, Bool.and_eq_true, List.isPrefixOf_iff_prefix,
      String.toList_ofList, List.all_eq_true] at h
    obtain ⟨⟨rest, hrest⟩, -, hdigits⟩ := h
    intro c hc
    rw [← hrest] at hc hdigits
    rcases List.mem_append.mp hc with hc | hc
    · have hall : "objects/".toList.all (fun c => c.toNat < 128) = true := by decide
      exact List.all_iff_forall_prop.mp hall c hc
    · have hsome := hdigits c (by simpa using hc)
      unfold hexDigit? at hsome
      split_ifs at hsome with h1 h2
      · have hle : c.toNat ≤ 57 := h1.2
        omega
      · have hle : c.toNat ≤ 102 := h2.2
        omega
      · simp at hsome

theorem decodeAscii_encode {name : String} (h : ∀ c ∈ name.toList, c.toNat < 128) :
    decodeAscii (Utf8.encode name.toList) = some name := by
  have hall : (Utf8.encode name.toList).all (· < 128) = true := by
    rw [List.all_eq_true]
    intro b hb
    obtain ⟨c, hc, hb⟩ := List.mem_flatMap.mp hb
    rw [Utf8.encode_ascii (h c hc), List.mem_singleton] at hb
    have hlt := h c hc
    rw [hb, decide_eq_true_eq, UInt8.lt_iff_toNat_lt, UInt8.toNat_ofNat']
    exact lt_of_le_of_lt (Nat.mod_le _ _) hlt
  rw [decodeAscii, if_pos hall, Utf8.decode_encode, Option.map_some, String.ofList_toList]

/-- A member's name has between 1 and 72 characters. -/
theorem length_memberName {name : String} (h : name ∈ documentNames ∨ isObjectName name = true) :
    1 ≤ name.toList.length ∧ name.toList.length ≤ 72 := by
  rcases h with h | h
  · have hall : ∀ name ∈ documentNames, 1 ≤ name.toList.length ∧ name.toList.length ≤ 72 := by
      decide
    exact hall name h
  · simp only [isObjectName, inObjects, isHash, Bool.and_eq_true, List.isPrefixOf_iff_prefix,
      String.toList_ofList, decide_eq_true_eq] at h
    obtain ⟨⟨rest, hrest⟩, hlength, -⟩ := h
    rw [← hrest] at hlength ⊢
    have hprefix : "objects/".toList.length = 8 := by decide
    simp only [List.length_drop, List.length_append, hprefix] at hlength ⊢
    omega

theorem representable_archiveProfile : archiveProfile.Representable :=
  ⟨by decide, by decide, by decide, by decide, by decide⟩

/-! ## The scan -/

/-- The bytes of the objects among some members. -/
def sumObjectBytes (ms : List Member) : ℕ :=
  ((ms.filter fun m => inObjects m.name).map fun m => m.data.length).sum

/-- What a member has to satisfy after those that the scan has read. -/
structure Scannable (limits : ArtifactBundleLimits) (s : ArchiveScan) (m : Member) : Prop where
  named : m.name ∈ documentNames ∨ isObjectName m.name = true
  fresh : m.name ∉ s.entries.map Prod.fst
  size_le : m.data.length ≤ limits.entryLimit m.name
  total_le : inObjects m.name = true → s.objectBytes + m.data.length ≤ limits.maxTotalObjectBytes
  crc_lt : m.crc < 256 ^ 4

/-- The scan after a member. -/
def ArchiveScan.after (s : ArchiveScan) (m : Member) (central : Bytes) : ArchiveScan :=
  ⟨central, s.entries ++ [(m.name, m.data.length)], s.nextLocal + m.extent,
    if inObjects m.name then s.objectBytes + m.data.length else s.objectBytes⟩

theorem entryLimit_lt (limits : ArtifactBundleLimits) (name : String) :
    limits.entryLimit name < 256 ^ 4 := by
  have h1 := limits.manifest_range
  have h2 := limits.workflow_range
  have h3 := limits.state_range
  have h4 := limits.artifact_range
  unfold ArtifactBundleLimits.entryLimit
  split_ifs <;> omega

/-- **One round** reads a member's directory record and its local record. -/
theorem scanEntry_eq_ok {limits : ArtifactBundleLimits} {archive : Bytes} {cdOffset : ℕ}
    {s t : ArchiveScan} (hle : cdOffset ≤ archive.length) (hlt : cdOffset < 256 ^ 4) :
    scanEntry limits archive cdOffset s = .ok t ↔ ∃ m central, Scannable limits s m ∧
      s.central = archiveProfile.centralRecord s.nextLocal m ++ central ∧
      archive.drop s.nextLocal =
        archiveProfile.localRecord m ++ archive.drop (s.nextLocal + m.extent) ∧
      s.nextLocal + m.extent ≤ cdOffset ∧ t = s.after m central := by
  constructor
  · intro h
    simp only [scanEntry, bind_eq_ok, exact_eq_ok, Prod.exists] at h
    obtain ⟨header, rest, ⟨hcentral, hlength⟩, h⟩ := h
    split at h
    case h_2 => cases h
    case h_1 magic made needed flags method time date crc compressed size nameLen extraLen commentLen
        entryDisk internal external localOffset hheader =>
      simp only [bind_eq_ok, require_eq_ok, exact_eq_ok, orError_eq_ok, exists_unit, Prod.exists,
        Except.ok.injEq] at h
      obtain ⟨⟨rfl, rfl, rfl, rfl, rfl, rfl, rfl, rfl, hnameLen, rfl, rfl, rfl, rfl, rfl, rfl⟩,
        nameRaw, central, ⟨rfl, hname⟩, name, hdecode, hnamed, h⟩ := h
      obtain ⟨⟨hfresh, hsize⟩, htotal, hover, localRaw, handle, ⟨hlocal, hlocalLength⟩, h⟩ := h
      obtain ⟨hlocalHeader, localName, after, ⟨rfl, -⟩, rfl, rfl⟩ := h
      have hnameBytes : Utf8.encode name.toList = localName := encode_of_decodeAscii hdecode
      have hafter : compressed ≤ after.length := by
        have hdrop := congrArg List.length hlocal
        simp only [List.length_drop, List.length_append] at hdrop
        omega
      let m : Member := ⟨name, after.take compressed, crc⟩
      have hdata : m.data.length = compressed := by
        rw [List.length_take]
        omega
      have hbytes : m.nameBytes = localName := hnameBytes
      have hheader' : pack centralFormat (archiveProfile.centralHeader s.nextLocal m) = header := by
        rw [← Zip.pack_unpack hlength, hheader, Zip.Profile.centralHeader, hdata, hbytes, hname]
        rfl
      have hlocal' : pack localFormat (archiveProfile.localHeader m) = localRaw := by
        rw [← Zip.pack_unpack hlocalLength, hlocalHeader, Zip.Profile.localHeader, hdata, hbytes,
          hname]
        rfl
      have hextent : m.extent = localFormat.sum + nameLen + compressed := by
        rw [Member.extent, hdata, hbytes, hname]
      have hcrc : crc < 256 ^ 4 := by
        have hfits := Zip.fits_unpack hlocalLength
        rw [hlocalHeader] at hfits
        exact hfits.2.2.2.2.2.2.1
      refine ⟨m, central, ⟨hnamed, hfresh, hdata.le.trans hsize, ?_, hcrc⟩, ?_, ?_, ?_, ?_⟩
      · intro hin
        have htotal' := htotal hin
        rw [if_pos (show inObjects name = true from hin)] at htotal'
        rwa [hdata]
      · rw [Zip.Profile.centralRecord, hheader', hbytes, List.append_assoc]
        exact hcentral
      · have hlengths : (localRaw ++ localName).length + compressed = m.extent := by
          rw [List.length_append, hlocalLength, hname, hextent]
        rw [Zip.Profile.localRecord, hlocal', hbytes, ← hlengths, ← List.drop_drop, ← List.drop_drop,
          hlocal, ← List.append_assoc, List.drop_left' rfl, List.append_assoc _ (m.data)]
        rw [List.take_append_drop]
      · omega
      · rw [ArchiveScan.after, hdata, hextent, ← Nat.add_assoc, ← Nat.add_assoc]
  · rintro ⟨m, central, hm, hcentral, hlocal, hover, rfl⟩
    have hascii := ascii_of_memberName hm.named
    have hlength := length_memberName hm.named
    have hbytes : m.nameBytes.length = m.name.toList.length := Utf8.length_encode_ascii hascii
    have hsize := lt_of_le_of_lt hm.size_le (entryLimit_lt limits m.name)
    have hfits : m.Representable := ⟨by omega, hsize, hm.crc_lt⟩
    have hcentralFits := Zip.Profile.fits_centralHeader representable_archiveProfile hfits
      (show s.nextLocal < 256 ^ 4 by omega)
    have hlocalFits := Zip.Profile.fits_localHeader representable_archiveProfile hfits
    simp only [scanEntry, bind_eq_ok, exact_eq_ok, Prod.exists]
    refine ⟨pack centralFormat (archiveProfile.centralHeader s.nextLocal m), m.nameBytes ++ central,
      ⟨by rw [hcentral, Zip.Profile.centralRecord, List.append_assoc], Zip.length_pack rfl⟩, ?_⟩
    rw [Zip.unpack_pack hcentralFits, Zip.Profile.centralHeader]
    simp only [bind_eq_ok, require_eq_ok, exact_eq_ok, orError_eq_ok, exists_unit, Prod.exists,
      Except.ok.injEq]
    have hnameLen : 1 ≤ m.nameBytes.length ∧ m.nameBytes.length ≤ 72 := by omega
    refine ⟨by simpa [archiveProfile] using hnameLen,
      m.nameBytes, central, ⟨rfl, rfl⟩, m.name, decodeAscii_encode hascii, hm.named,
      ⟨hm.fresh, hm.size_le⟩, ?_, ?_, pack localFormat (archiveProfile.localHeader m),
      m.nameBytes ++ m.data ++ archive.drop (s.nextLocal + m.extent), ⟨?_, Zip.length_pack rfl⟩, ?_,
      m.nameBytes, m.data ++ archive.drop (s.nextLocal + m.extent),
      ⟨List.append_assoc _ _ _, rfl⟩, rfl, ?_⟩
    · intro hin
      rw [if_pos hin]
      exact hm.total_le hin
    · rw [Member.extent] at hover
      omega
    · rw [hlocal, Zip.Profile.localRecord]
      simp only [List.append_assoc]
    · rw [Zip.unpack_pack hlocalFits]
      rfl
    · rw [ArchiveScan.after, Member.extent, ← Nat.add_assoc, ← Nat.add_assoc]

/-- What members have to satisfy after those that the scan has read. -/
structure ScannableAll (limits : ArtifactBundleLimits) (s : ArchiveScan) (ms : List Member) : Prop where
  named : ∀ m ∈ ms, m.name ∈ documentNames ∨ isObjectName m.name = true
  distinct : (ms.map Member.name).Nodup
  fresh : ∀ m ∈ ms, m.name ∉ s.entries.map Prod.fst
  size_le : ∀ m ∈ ms, m.data.length ≤ limits.entryLimit m.name
  total_le : s.objectBytes + sumObjectBytes ms ≤ limits.maxTotalObjectBytes
  crc_lt : ∀ m ∈ ms, m.crc < 256 ^ 4

/-- The scan after members. -/
def ArchiveScan.afterAll (s : ArchiveScan) (ms : List Member) (central : Bytes) : ArchiveScan :=
  ⟨central, s.entries ++ ms.map fun m => (m.name, m.data.length),
    s.nextLocal + (ms.map Member.extent).sum, s.objectBytes + sumObjectBytes ms⟩

theorem sumObjectBytes_cons (m : Member) (ms : List Member) : sumObjectBytes (m :: ms) =
    (if inObjects m.name then m.data.length else 0) + sumObjectBytes ms := by
  unfold sumObjectBytes
  by_cases h : inObjects m.name
  · rw [List.filter_cons_of_pos (by simpa using h), if_pos h, List.map_cons, List.sum_cons]
  · rw [List.filter_cons_of_neg (by simpa using h), if_neg h, Nat.zero_add]

theorem objectBytes_after (s : ArchiveScan) (m : Member) (central : Bytes) (ms : List Member) :
    (s.after m central).objectBytes + sumObjectBytes ms = s.objectBytes + sumObjectBytes (m :: ms) := by
  rw [sumObjectBytes_cons, ArchiveScan.after]
  by_cases h : inObjects m.name
  · simp only [h, if_true, Nat.add_assoc]
  · simp only [h, Bool.false_eq_true, if_false, Nat.zero_add]

theorem afterAll_after (s : ArchiveScan) (m : Member) (ms : List Member) (central central' : Bytes) :
    (s.after m central).afterAll ms central' = s.afterAll (m :: ms) central' := by
  rw [ArchiveScan.afterAll, ArchiveScan.afterAll, objectBytes_after]
  simp only [ArchiveScan.after, List.map_cons, List.sum_cons, List.append_assoc, List.singleton_append,
    Nat.add_assoc]

theorem scannableAll_cons {limits : ArtifactBundleLimits} {s : ArchiveScan} {m : Member}
    {ms : List Member} (central : Bytes) : ScannableAll limits s (m :: ms) ↔
      Scannable limits s m ∧ ScannableAll limits (s.after m central) ms := by
  constructor
  · intro h
    have hm : m ∈ m :: ms := List.mem_cons_self
    have hms : ∀ {m'}, m' ∈ ms → m' ∈ m :: ms := List.mem_cons_of_mem m
    have hdistinct := h.distinct
    rw [List.map_cons, List.nodup_cons] at hdistinct
    refine ⟨⟨h.named m hm, h.fresh m hm, h.size_le m hm, ?_, h.crc_lt m hm⟩,
      ⟨fun m' hm' => h.named m' (hms hm'), hdistinct.2, ?_, fun m' hm' => h.size_le m' (hms hm'), ?_,
        fun m' hm' => h.crc_lt m' (hms hm')⟩⟩
    · intro hin
      have htotal := h.total_le
      rw [sumObjectBytes_cons, if_pos hin] at htotal
      omega
    · intro m' hm' hmem
      simp only [ArchiveScan.after, List.map_append, List.map_cons, List.map_nil, List.mem_append,
        List.mem_singleton] at hmem
      rcases hmem with hmem | hmem
      · exact h.fresh m' (hms hm') hmem
      · exact hdistinct.1 (hmem ▸ List.mem_map_of_mem hm')
    · rw [objectBytes_after]
      exact h.total_le
  · rintro ⟨hm, h⟩
    have hfresh : ∀ m' ∈ ms, m'.name ∉ s.entries.map Prod.fst ∧ m'.name ≠ m.name := by
      intro m' hm'
      have hnot := h.fresh m' hm'
      simp only [ArchiveScan.after, List.map_append, List.map_cons, List.map_nil, List.mem_append,
        List.mem_singleton, not_or] at hnot
      exact hnot
    refine ⟨List.forall_mem_cons.mpr ⟨hm.named, h.named⟩, ?_,
      List.forall_mem_cons.mpr ⟨hm.fresh, fun m' hm' => (hfresh m' hm').1⟩,
      List.forall_mem_cons.mpr ⟨hm.size_le, h.size_le⟩, ?_,
      List.forall_mem_cons.mpr ⟨hm.crc_lt, h.crc_lt⟩⟩
    · rw [List.map_cons, List.nodup_cons]
      refine ⟨fun hmem => ?_, h.distinct⟩
      obtain ⟨m', hm', hname⟩ := List.mem_map.mp hmem
      exact (hfresh m' hm').2 hname
    · rw [← objectBytes_after s m central]
      exact h.total_le

/-- **The loop** reads the directory and the local records of its members. -/
theorem scanEntries_eq_ok {limits : ArtifactBundleLimits} {archive : Bytes} {cdOffset : ℕ}
    (hle : cdOffset ≤ archive.length) (hlt : cdOffset < 256 ^ 4) {t : ArchiveScan} :
    ∀ {count : ℕ} {s : ArchiveScan}, s.nextLocal ≤ cdOffset →
      s.objectBytes ≤ limits.maxTotalObjectBytes →
      (scanEntries limits archive cdOffset count s = .ok t ↔ ∃ ms central, ms.length = count ∧
        ScannableAll limits s ms ∧
        s.central = archiveProfile.directory s.nextLocal ms ++ central ∧
        archive.drop s.nextLocal = archiveProfile.locals ms ++
          archive.drop (s.nextLocal + (ms.map Member.extent).sum) ∧
        s.nextLocal + (ms.map Member.extent).sum ≤ cdOffset ∧ t = s.afterAll ms central) := by
  intro count
  induction count with
  | zero =>
    intro s hnext htotal
    rw [scanEntries, Except.ok.injEq]
    constructor
    · rintro rfl
      refine ⟨[], s.central, rfl, ⟨by simp, List.nodup_nil, by simp, by simp, htotal, by simp⟩, rfl,
        rfl, hnext, ?_⟩
      simp [ArchiveScan.afterAll, sumObjectBytes]
    · rintro ⟨ms, central, hlength, -, hcentral, -, -, rfl⟩
      obtain rfl := List.length_eq_zero_iff.mp hlength
      simp only [Zip.Profile.directory, List.nil_append] at hcentral
      simp [ArchiveScan.afterAll, sumObjectBytes, ← hcentral]
  | succ count ih =>
    intro s hnext htotal
    simp only [scanEntries, bind_eq_ok, scanEntry_eq_ok hle hlt]
    constructor
    · rintro ⟨next, ⟨m, central, hm, hcentral, hlocal, hover, rfl⟩, h⟩
      have htotal' : (s.after m central).objectBytes ≤ limits.maxTotalObjectBytes := by
        by_cases hin : inObjects m.name
        · simpa only [ArchiveScan.after, hin, if_true] using hm.total_le hin
        · simpa only [ArchiveScan.after, hin, Bool.false_eq_true, if_false] using htotal
      obtain ⟨ms, central', hlength, hms, hcentral', hlocals, hover', rfl⟩ :=
        (@ih (s.after m central) hover htotal').mp h
      refine ⟨m :: ms, central', by rw [List.length_cons, hlength],
        (scannableAll_cons central).mpr ⟨hm, hms⟩, ?_, ?_, ?_, afterAll_after s m ms central central'⟩
      · rw [hcentral, Zip.Profile.directory, List.append_assoc]
        exact congrArg _ hcentral'
      · rw [hlocal, Zip.Profile.locals_cons, List.append_assoc, List.map_cons, List.sum_cons,
          ← Nat.add_assoc]
        exact congrArg _ hlocals
      · rw [List.map_cons, List.sum_cons, ← Nat.add_assoc]
        exact hover'
    · rintro ⟨ms, central', hlength, hms, hcentral, hlocals, hover, rfl⟩
      rcases ms with _ | ⟨m, ms⟩
      · cases hlength
      rw [List.map_cons, List.sum_cons, ← Nat.add_assoc] at hlocals hover
      rw [Zip.Profile.directory, List.append_assoc] at hcentral
      rw [Zip.Profile.locals_cons, List.append_assoc] at hlocals
      have hrest : archive.drop (s.nextLocal + m.extent) = archiveProfile.locals ms ++
          archive.drop (s.nextLocal + m.extent + (ms.map Member.extent).sum) := by
        rw [← List.drop_drop (i := m.extent), hlocals,
          List.drop_left' (Zip.Profile.length_localRecord _ m)]
      obtain ⟨hm, hms⟩ := (scannableAll_cons (archiveProfile.directory (s.nextLocal + m.extent) ms ++
        central')).mp hms
      refine ⟨_, ⟨m, _, hm, hcentral, ?_, by omega, rfl⟩, ?_⟩
      · rw [hlocals, ← hrest]
      · refine (@ih (s.after m _) (by simp only [ArchiveScan.after]; omega) ?_).mpr
          ⟨ms, central', by simpa using hlength, hms, rfl, hrest, hover, ?_⟩
        · exact (Nat.le_add_right _ _).trans hms.total_le
        · exact (afterAll_after s m ms _ central').symm

/-! ## The preflight -/

/-- The members that the preflight admits. -/
structure Admissible (limits : ArtifactBundleLimits) (ms : List Member) : Prop where
  count : 3 ≤ ms.length ∧ ms.length ≤ limits.maxArtifacts + 3
  central_le : (archiveProfile.directory 0 ms).length ≤ limits.maxCentralBytes
  archive_le : (archiveProfile.archive ms).length ≤ limits.maxArchiveBytes
  named : ∀ m ∈ ms, m.name ∈ documentNames ∨ isObjectName m.name = true
  distinct : (ms.map Member.name).Nodup
  documents : (ms.map Member.name).take 3 = documentNames
  sorted : (ms.map Member.name).drop 3 = sortNames ((ms.map Member.name).drop 3)
  size_le : ∀ m ∈ ms, m.data.length ≤ limits.entryLimit m.name
  total_le : sumObjectBytes ms ≤ limits.maxTotalObjectBytes
  crc_lt : ∀ m ∈ ms, m.crc < 256 ^ 4

/-- The scan's start. -/
theorem scannableAll_start {limits : ArtifactBundleLimits} {central : Bytes} {ms : List Member} :
    ScannableAll limits ⟨central, [], 0, 0⟩ ms ↔
      (∀ m ∈ ms, m.name ∈ documentNames ∨ isObjectName m.name = true) ∧
      (ms.map Member.name).Nodup ∧ (∀ m ∈ ms, m.data.length ≤ limits.entryLimit m.name) ∧
      sumObjectBytes ms ≤ limits.maxTotalObjectBytes ∧ ∀ m ∈ ms, m.crc < 256 ^ 4 := by
  constructor
  · intro h
    exact ⟨h.named, h.distinct, h.size_le, by simpa using h.total_le, h.crc_lt⟩
  · rintro ⟨hnamed, hdistinct, hsize, htotal, hcrc⟩
    exact ⟨hnamed, hdistinct, by simp, hsize, by simpa using htotal, hcrc⟩

/-- The view of the archive of some members. -/
def viewOf (ms : List Member) : ArchiveView where
  handle := archiveProfile.archive ms
  offset := (archiveProfile.locals ms).length
  footer := archiveProfile.directory 0 ms ++
    Zip.endRecord ms.length (archiveProfile.directory 0 ms).length (archiveProfile.locals ms).length

/-- The names and sizes of members. -/
def entriesOf (ms : List Member) : List (String × ℕ) := ms.map fun m => (m.name, m.data.length)

theorem map_fst_entriesOf (ms : List Member) : (entriesOf ms).map Prod.fst = ms.map Member.name := by
  rw [entriesOf, List.map_map]
  rfl

/-- The numbers of the end record fit. -/
theorem Admissible.fits_end {limits : ArtifactBundleLimits} {ms : List Member}
    (h : Admissible limits ms) : (archiveProfile.archive ms).length < 256 ^ 4 ∧
      Zip.Fits endFormat [Zip.endSignature, 0, 0, ms.length, ms.length,
        (archiveProfile.directory 0 ms).length, (archiveProfile.locals ms).length, 0] := by
  have hlength := archiveProfile.length_parts ms
  have harchive := h.archive_le
  have hceiling := limits.archive_range
  have hcount := h.count
  have hrange := limits.artifacts_range
  refine ⟨by omega, by decide, by decide, by decide, ?_, ?_, ?_, ?_, by decide, rfl, rfl⟩
  all_goals omega

/-- **The preflight** accepts the archives of admissible members, and nothing else. -/
theorem Archive.preflight_eq_ok {archive : Bytes} {limits : ArtifactBundleLimits} {view : ArchiveView}
    {entries : List (String × ℕ)} : Archive.preflight archive limits = .ok (view, entries) ↔
      ∃ ms, Admissible limits ms ∧ archive = archiveProfile.archive ms ∧ view = viewOf ms ∧
        entries = entriesOf ms := by
  have hceiling : limits.maxArchiveBytes < 256 ^ 4 := by
    have hrange := limits.archive_range
    omega
  constructor
  · intro h
    simp only [Archive.preflight, bind_eq_ok, require_eq_ok, exact_eq_ok, exists_unit, Prod.exists] at h
    obtain ⟨⟨hmin, hmax⟩, endRaw, rest, ⟨hend, hendLength⟩, h⟩ := h
    split at h
    case h_2 => cases h
    case h_1 signature disk cdDisk diskCount count cdSize cdOffset comment hheader =>
      simp only [bind_eq_ok, require_eq_ok, exact_eq_ok, exists_unit, Prod.exists, Except.ok.injEq,
        Prod.mk.injEq] at h
      obtain ⟨⟨rfl, rfl, rfl, rfl, hcount, rfl, hsize, hoffset⟩, centralRaw, rest',
        ⟨hcentral, hcentralLength⟩, t, hscan, ⟨hdocuments, hsorted, hnext, hrest⟩, rfl, rfl⟩ := h
      have hle : cdOffset ≤ archive.length := by omega
      obtain ⟨ms, central, rfl, hms, hdirectory, hlocals, -, rfl⟩ :=
        (scanEntries_eq_ok hle (by omega) (Nat.zero_le _) (Nat.zero_le _)).mp hscan
      simp only [ArchiveScan.afterAll, List.nil_append, Nat.zero_add, List.drop_zero] at *
      subst hrest
      subst hnext
      rw [List.append_nil] at hdirectory
      subst hdirectory
      have hrest : rest = [] := by
        have hlength := congrArg List.length hend
        simp only [List.length_drop, List.length_append] at hlength
        exact List.length_eq_zero_iff.mp (by omega)
      have hend' : endRaw = Zip.endRecord ms.length (archiveProfile.directory 0 ms).length
          (archiveProfile.locals ms).length := by
        rw [← Zip.pack_unpack hendLength, hheader, Zip.endRecord, Zip.Profile.length_locals,
          hcentralLength]
      have hbytes : archive = archiveProfile.archive ms := by
        have hsplit : rest' = endRaw := by
          have hdrop := congrArg (List.drop (archiveProfile.directory 0 ms).length) hcentral
          rwa [List.drop_left' rfl, List.drop_drop, hcentralLength, hoffset, hend, hrest,
            List.append_nil, eq_comm] at hdrop
        rw [hlocals, hcentral, hsplit, hend', Zip.Profile.archive, List.append_assoc]
      have hnames := map_fst_entriesOf ms
      rw [entriesOf] at hnames
      rw [hnames] at hdocuments hsorted
      obtain ⟨hnamed, hdistinct, hsizes, htotal, hcrc⟩ := scannableAll_start.mp hms
      refine ⟨ms, ⟨hcount, hcentralLength.le.trans hsize.2, hbytes ▸ hmax, hnamed, hdistinct,
        hdocuments, hsorted, hsizes, htotal, hcrc⟩, hbytes, ?_, rfl⟩
      rw [viewOf, ← hbytes, Zip.Profile.length_locals, hend', Zip.Profile.length_locals]
  · rintro ⟨ms, hms, rfl, rfl, rfl⟩
    have hlocals := archiveProfile.length_locals ms
    have hlength := archiveProfile.length_parts ms
    have harchive := hms.archive_le
    have hcentral := hms.central_le
    have hcount := hms.count
    obtain ⟨hbound, hfits⟩ := hms.fits_end
    have hpositive : 0 < (archiveProfile.directory 0 ms).length := by
      rcases ms with _ | ⟨m, ms⟩
      · simp at hcount
      · rw [Zip.Profile.directory, List.length_append, Zip.Profile.length_centralRecord]
        have hformat : centralFormat.sum = 46 := by decide
        omega
    simp only [Archive.preflight, bind_eq_ok, require_eq_ok, exact_eq_ok, exists_unit, Prod.exists]
    refine ⟨⟨by omega, harchive⟩, _, [], ⟨(archiveProfile.drop_directory ms).trans (List.append_nil _).symm,
      Zip.length_endRecord _ _ _⟩, ?_⟩
    rw [Zip.endRecord, Zip.unpack_pack hfits]
    simp only [bind_eq_ok, require_eq_ok, exact_eq_ok, exists_unit, Prod.exists, Except.ok.injEq,
      Prod.mk.injEq, true_and]
    refine ⟨⟨hcount, ⟨hpositive, hcentral⟩, by omega⟩, archiveProfile.directory 0 ms,
      Zip.endRecord ms.length (archiveProfile.directory 0 ms).length (archiveProfile.locals ms).length,
      ⟨?_, rfl⟩, ArchiveScan.afterAll ⟨archiveProfile.directory 0 ms, [], 0, 0⟩ ms [], ?_, ?_, rfl,
      rfl⟩
    · exact archiveProfile.drop_locals ms
    · refine (scanEntries_eq_ok (by omega) (by omega) (Nat.zero_le _) (Nat.zero_le _)).mpr
        ⟨ms, [], rfl, scannableAll_start.mpr ⟨hms.named, hms.distinct, hms.size_le, hms.total_le,
          hms.crc_lt⟩, (List.append_nil _).symm, ?_, ?_, rfl⟩
      · simp only [Nat.zero_add, List.drop_zero, ← hlocals]
        rw [Zip.Profile.archive, List.append_assoc, List.drop_left' rfl]
      · simp only [Nat.zero_add, ← hlocals, le_refl]
    · have hnames := map_fst_entriesOf ms
      rw [entriesOf] at hnames
      simp only [ArchiveScan.afterAll, List.nil_append, Nat.zero_add, hnames, ← hlocals]
      exact ⟨hms.documents, hms.sorted, trivial, trivial⟩

end EvidenceBraid
