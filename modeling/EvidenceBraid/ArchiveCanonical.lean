import EvidenceBraid.ArchiveProof

/-!
# The members of an accepted archive

`ZipFile` finds the members of an archive that the preflight has accepted at the offsets of its
directory (`inventory_viewOf`). An accepted archive is thus determined by what `ZipFile` reads in it
(`preflight_canonical`).
-/

namespace EvidenceBraid

open Zip (Member centralFormat endFormat localFormat pack unpack)

/-! ## What `ZipFile` reads -/

/-- The information on members that start at an offset. -/
def infosOf : ℕ → List Member → List ZipInfo
  | _, [] => []
  | offset, m :: ms => ⟨m.name, m.crc, m.data.length, offset⟩ :: infosOf (offset + m.extent) ms

/-- Members whose headers can be read back. -/
structure Legible (m : Member) : Prop where
  ascii : ∀ c ∈ m.name.toList, c.toNat < 128
  fits : m.Representable

theorem Admissible.legible {limits : ArtifactBundleLimits} {ms : List Member}
    (h : Admissible limits ms) : ∀ m ∈ ms, Legible m := by
  intro m hm
  have hascii := ascii_of_memberName (h.named m hm)
  have hlength := length_memberName (h.named m hm)
  have hbytes : m.nameBytes.length = m.name.toList.length := Utf8.length_encode_ascii hascii
  exact ⟨hascii, by omega, lt_of_le_of_lt (h.size_le m hm) (entryLimit_lt limits m.name),
    h.crc_lt m hm⟩

theorem decodeAscii_nameBytes {m : Member} (h : Legible m) :
    decodeAscii m.nameBytes = some m.name := decodeAscii_encode h.ascii

/-- **The directory** is read as the information on its members. -/
theorem readDirectory_directory {ms : List Member} : ∀ {offset fuel : ℕ}, (∀ m ∈ ms, Legible m) →
    offset + (ms.map Member.extent).sum < 256 ^ 4 →
    (archiveProfile.directory offset ms).length ≤ fuel →
    readDirectory 0 fuel (archiveProfile.directory offset ms) = .ok (infosOf offset ms) := by
  induction ms with
  | nil => intro offset fuel _ _ _; cases fuel <;> rfl
  | cons m ms ih =>
    intro offset fuel hms hoffset hfuel
    have hm := hms m List.mem_cons_self
    have hformat : centralFormat.sum = 46 := rfl
    rw [List.map_cons, List.sum_cons] at hoffset
    rw [Zip.Profile.directory, List.length_append, Zip.Profile.length_centralRecord] at hfuel
    obtain ⟨fuel, rfl⟩ : ∃ n, fuel = n + 1 := ⟨fuel - 1, by omega⟩
    have hheader := Zip.unpack_pack (Zip.Profile.fits_centralHeader representable_archiveProfile
      hm.fits (show offset < 256 ^ 4 by omega))
    have hrest := @ih (offset + m.extent) fuel (fun m' hm' => hms m' (List.mem_cons_of_mem m hm'))
      (by omega) (by omega)
    have hbytes : archiveProfile.directory offset (m :: ms) =
        pack centralFormat (archiveProfile.centralHeader offset m) ++
          (m.nameBytes ++ archiveProfile.directory (offset + m.extent) ms) := by
      rw [Zip.Profile.directory, Zip.Profile.centralRecord, List.append_assoc]
    have hcons : archiveProfile.directory offset (m :: ms) ≠ [] := by
      intro hdirectory
      have hlength := congrArg List.length (hbytes.symm.trans hdirectory)
      rw [List.length_append, Zip.Profile.length_pack_centralHeader, List.length_nil] at hlength
      omega
    rw [readDirectory, hbytes, zipRead_append (Zip.Profile.length_pack_centralHeader
      _ _ _), ok_bind]
    dsimp only
    rw [hheader]
    simp only [Zip.Profile.centralHeader, Nat.add_zero, List.take_left' rfl, List.drop_left' rfl,
      decodeAscii_nameBytes hm, hrest, orError, require_of, ok_bind]
    · rfl
    · exact fun hnil => hcons hnil

/-- A member is opened at its local record. -/
theorem openInfo_localRecord {view : ArchiveView} {m : Member} (hm : Legible m) {offset : ℕ}
    {rest : Bytes} (h : view.contents.drop offset = archiveProfile.localRecord m ++ rest) :
    openInfo view ⟨m.name, m.crc, m.data.length, offset⟩ = .ok m := by
  have hheader := Zip.unpack_pack (Zip.Profile.fits_localHeader representable_archiveProfile hm.fits)
  rw [Zip.Profile.localRecord, List.append_assoc, List.append_assoc] at h
  rw [openInfo, h, zipRead_append (Zip.Profile.length_pack_localHeader _ _), ok_bind]
  dsimp only
  rw [hheader]
  simp only [Zip.Profile.localHeader, Nat.add_zero, List.take_left' rfl, List.drop_left' rfl,
    decodeAscii_nameBytes hm, require_of, ok_bind, and_self]

/-- The members are opened one after the other. -/
theorem mapM_openInfo {view : ArchiveView} {ms : List Member} : ∀ {offset : ℕ} {rest : Bytes},
    (∀ m ∈ ms, Legible m) →
    view.contents.drop offset = archiveProfile.locals ms ++ rest →
    (infosOf offset ms).mapM (openInfo view) = .ok ms := by
  induction ms with
  | nil => intro _ _ _ _; rfl
  | cons m ms ih =>
    intro offset rest hms hcontents
    rw [Zip.Profile.locals_cons, List.append_assoc] at hcontents
    have hrest : view.contents.drop (offset + m.extent) = archiveProfile.locals ms ++ rest := by
      rw [← List.drop_drop, hcontents, List.drop_left' (Zip.Profile.length_localRecord _ m)]
    rw [infosOf, List.mapM_cons, openInfo_localRecord (hms m List.mem_cons_self) hcontents,
      ok_bind, ih (fun m' hm' => hms m' (List.mem_cons_of_mem m hm')) hrest]
    rfl

theorem contents_viewOf (ms : List Member) : (viewOf ms).contents = archiveProfile.archive ms := by
  rw [ArchiveView.contents, viewOf, Zip.Profile.archive, List.append_assoc, List.take_left' rfl]

/-- **The directory of a view** names its members at their places. -/
theorem infolist_viewOf {limits : ArtifactBundleLimits} {ms : List Member}
    (h : Admissible limits ms) : infolist (viewOf ms) = .ok (infosOf 0 ms) := by
  have hlength := archiveProfile.length_parts ms
  have hlocals := archiveProfile.length_locals ms
  obtain ⟨hbound, hfits⟩ := h.fits_end
  have hread := @readDirectory_directory ms 0 (archiveProfile.directory 0 ms).length h.legible
    (by omega) le_rfl
  have hlocation : (archiveProfile.archive ms).length - endFormat.sum =
      (archiveProfile.locals ms).length + (archiveProfile.directory 0 ms).length := by omega
  have hdirectory : ((archiveProfile.archive ms).drop (archiveProfile.locals ms).length).take
      (archiveProfile.directory 0 ms).length = archiveProfile.directory 0 ms := by
    rw [archiveProfile.drop_locals, List.take_left' rfl]
  rw [infolist, contents_viewOf, archiveProfile.drop_directory, Zip.endRecord, Zip.unpack_pack hfits]
  simp only [hlocation, Nat.add_sub_cancel, Nat.sub_self, hdirectory, require_of, le_refl, ok_bind,
    hread]

/-- **`ZipFile` finds the members.** -/
theorem inventory_viewOf {limits : ArtifactBundleLimits} {ms : List Member}
    (h : Admissible limits ms) : inventory (viewOf ms) = .ok ms := by
  have hcontents : (viewOf ms).contents.drop 0 = archiveProfile.locals ms ++
      (archiveProfile.directory 0 ms ++ Zip.endRecord ms.length
        (archiveProfile.directory 0 ms).length (archiveProfile.locals ms).length) := by
    rw [contents_viewOf, Zip.Profile.archive, List.append_assoc, List.drop_zero]
  rw [inventory, infolist_viewOf h, ok_bind, mapM_openInfo h.legible hcontents]

/-! ## Opening members -/

theorem map_filename_infosOf {ms : List Member} : ∀ offset,
    (infosOf offset ms).map ZipInfo.filename = ms.map Member.name := by
  induction ms with
  | nil => intro _; rfl
  | cons m ms ih => intro offset; rw [infosOf, List.map_cons, List.map_cons, ih]

/-- Information on a member opens that member. -/
theorem openInfo_of_mem {view : ArchiveView} {ms : List Member} : ∀ {offset : ℕ} {rest : Bytes},
    (∀ m ∈ ms, Legible m) → view.contents.drop offset = archiveProfile.locals ms ++ rest →
    ∀ info ∈ infosOf offset ms, ∃ m ∈ ms, info.filename = m.name ∧ openInfo view info = .ok m := by
  induction ms with
  | nil => intro _ _ _ _ info hinfo; cases hinfo
  | cons m ms ih =>
    intro offset rest hms hcontents info hinfo
    rw [Zip.Profile.locals_cons, List.append_assoc] at hcontents
    have hrest : view.contents.drop (offset + m.extent) = archiveProfile.locals ms ++ rest := by
      rw [← List.drop_drop, hcontents, List.drop_left' (Zip.Profile.length_localRecord _ m)]
    rw [infosOf] at hinfo
    rcases List.mem_cons.mp hinfo with rfl | hinfo
    · exact ⟨m, List.mem_cons_self, rfl, openInfo_localRecord (hms m List.mem_cons_self) hcontents⟩
    · obtain ⟨m', hm', hname, hopen⟩ :=
        ih (fun m' hm' => hms m' (List.mem_cons_of_mem m hm')) hrest info hinfo
      exact ⟨m', List.mem_cons_of_mem m hm', hname, hopen⟩

/-- Members have different names. -/
theorem Admissible.eq_of_name {limits : ArtifactBundleLimits} {ms : List Member}
    (h : Admissible limits ms) {m m' : Member} (hm : m ∈ ms) (hm' : m' ∈ ms)
    (hname : m.name = m'.name) : m = m' := List.inj_on_of_nodup_map h.distinct hm hm' hname

/-- **`open` finds the member of a name.** -/
theorem openMember_viewOf {limits : ArtifactBundleLimits} {ms : List Member}
    (h : Admissible limits ms) {name : String} {m : Member} :
    openMember (viewOf ms) (infosOf 0 ms) name = .ok m ↔ m ∈ ms ∧ m.name = name := by
  have hcontents : (viewOf ms).contents.drop 0 = archiveProfile.locals ms ++
      (archiveProfile.directory 0 ms ++ Zip.endRecord ms.length
        (archiveProfile.directory 0 ms).length (archiveProfile.locals ms).length) := by
    rw [contents_viewOf, Zip.Profile.archive, List.append_assoc, List.drop_zero]
  have hopen := openInfo_of_mem h.legible hcontents
  simp only [openMember, bind_eq_ok, orError_eq_ok]
  constructor
  · rintro ⟨info, hinfo, hm⟩
    have hname : info.filename = name := by simpa using List.find?_some hinfo
    obtain ⟨m', hm', hfilename, hopen'⟩ :=
      hopen info (List.mem_reverse.mp (List.mem_of_find?_eq_some hinfo))
    obtain rfl := Except.ok.inj (hm.symm.trans hopen')
    exact ⟨hm', hfilename.symm.trans hname⟩
  · rintro ⟨hm, rfl⟩
    have hmem : m.name ∈ (infosOf 0 ms).map ZipInfo.filename := by
      rw [map_filename_infosOf]
      exact List.mem_map_of_mem hm
    obtain ⟨info, hinfo, hfilename⟩ := List.mem_map.mp hmem
    rcases hfind : (infosOf 0 ms).reverse.find? fun info => info.filename = m.name with _ | found
    · have hnone := List.find?_eq_none.mp hfind info (List.mem_reverse.mpr hinfo)
      exact absurd (by simpa using hfilename) hnone
    · have hfound : found.filename = m.name := by simpa using List.find?_some hfind
      obtain ⟨m', hm', hname, hopen'⟩ :=
        hopen found (List.mem_reverse.mp (List.mem_of_find?_eq_some hfind))
      obtain rfl := h.eq_of_name hm' hm (hname.symm.trans hfound)
      exact ⟨found, hfind, hopen'⟩

/-- Reading all of a member compares its checksum. -/
theorem readMember_eq_ok {m : Member} {size : ℕ} {bytes : Bytes} (h : m.data.length ≤ size) :
    readMember m size = .ok bytes ↔ Zip.crc32 m.data = m.crc ∧ bytes = m.data := by
  have hmax : ¬ max size 4096 < m.data.length := not_lt.mpr (h.trans (le_max_left _ _))
  simp only [readMember, bind_eq_ok, require_eq_ok, exists_unit, hmax, false_or, Except.ok.injEq,
    List.take_of_length_le h, eq_comm (a := m.data)]

theorem readAll_eq_ok {m : Member} {bytes : Bytes} :
    readAll m = .ok bytes ↔ Zip.crc32 m.data = m.crc ∧ bytes = m.data := by
  simp only [readAll, bind_eq_ok, require_eq_ok, exists_unit, Except.ok.injEq,
    eq_comm (a := m.data)]

/-! ## Canonicality -/

/-- `_archive_size` of the members' names and sizes. -/
theorem length_archive_entriesOf {limits : ArtifactBundleLimits} {ms : List Member}
    (h : Admissible limits ms) :
    (archiveProfile.archive ms).length = archiveSize (entriesOf ms) := by
  rw [archiveProfile.length_archive, archiveSize, entriesOf, List.map_map]
  refine congrArg (fun sizes => endFormat.sum + List.sum sizes) (List.map_congr_left fun m hm => ?_)
  have hbytes : m.nameBytes.length = m.name.toList.length :=
    Utf8.length_encode_ascii (h.legible m hm).ascii
  rw [Function.comp, hbytes]

/-- **An accepted archive is the archive of its members**, which `ZipFile` reads in it: their local
records, then their directory, then the end record, whose fields depend on nothing else. Another
accepted archive with the same names, data and checksums is the same archive. -/
theorem preflight_canonical {archive : Bytes} {limits : ArtifactBundleLimits} {view : ArchiveView}
    {entries : List (String × ℕ)} (h : Archive.preflight archive limits = .ok (view, entries)) :
    ∃ ms : List Member, (∀ m ∈ ms, m.Representable) ∧ archive = archiveProfile.archive ms ∧
      inventory view = .ok ms ∧ entries = ms.map (fun m => (m.name, m.data.length)) ∧
      archive.length = archiveSize entries ∧
      ∀ archive' limits' view' entries', Archive.preflight archive' limits' = .ok (view', entries') →
        inventory view' = .ok ms → archive' = archive := by
  obtain ⟨ms, hms, rfl, rfl, rfl⟩ := Archive.preflight_eq_ok.mp h
  refine ⟨ms, fun m hm => (hms.legible m hm).fits, rfl, inventory_viewOf hms, rfl,
    length_archive_entriesOf hms, ?_⟩
  intro archive' limits' view' entries' h' hinventory
  obtain ⟨ms', hms', rfl, rfl, rfl⟩ := Archive.preflight_eq_ok.mp h'
  rw [inventory_viewOf hms', Except.ok.injEq] at hinventory
  rw [hinventory]

/-- Three empty documents. -/
def emptyMembers : List Member := documentNames.map fun name => ⟨name, [], 0⟩

theorem admissible_emptyMembers : Admissible ArtifactBundleLimits.default emptyMembers where
  count := by decide
  central_le := by
    rw [Zip.Profile.length_directory]
    decide
  archive_le := by
    rw [Zip.Profile.length_archive]
    decide
  named := by decide
  distinct := by decide
  documents := rfl
  sorted := rfl
  size_le := by decide
  total_le := by decide
  crc_lt := by decide

/-- The archive of three empty documents. -/
theorem preflight_canonical_empty : ∃ ms : List Member,
    archiveProfile.archive emptyMembers = archiveProfile.archive ms ∧
      inventory (viewOf emptyMembers) = .ok ms ∧
      (archiveProfile.archive emptyMembers).length = archiveSize (entriesOf emptyMembers) := by
  obtain ⟨ms, -, harchive, hinventory, -, hsize, -⟩ := preflight_canonical
    (Archive.preflight_eq_ok.mpr ⟨emptyMembers, admissible_emptyMembers, rfl, rfl, rfl⟩)
  exact ⟨ms, harchive, hinventory, hsize⟩

end EvidenceBraid
