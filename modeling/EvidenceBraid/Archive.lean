import EvidenceBraid.Hashing
import EvidenceBraid.Library.Zip
import Mathlib.Data.List.Sort
import Mathlib.Data.String.Basic

/-!
# The archive preflight

`_preflight` of `artifacts.py` scans the directory of an archive and the local headers that it points
to, and hands the directory that it has read to `ZipFile`. A file is its bytes, and a handle is what
remains of them from its position on.
-/

namespace EvidenceBraid

open Zip (centralFormat endFormat localFormat unpack)

/-! ## Limits -/

/-- `ArtifactBundleLimits`. -/
structure ArtifactBundleLimits where
  maxArtifacts : ℕ
  maxArtifactBytes : ℕ
  maxTotalObjectBytes : ℕ
  maxTotalSourceBytes : ℕ
  maxManifestBytes : ℕ
  maxWorkflowBytes : ℕ
  maxStateBytes : ℕ
  maxCentralBytes : ℕ
  maxArchiveBytes : ℕ
  artifacts_range : 1 ≤ maxArtifacts ∧ maxArtifacts ≤ 1024
  artifact_range : 1 ≤ maxArtifactBytes ∧ maxArtifactBytes ≤ 64 * 1024 * 1024
  object_range : 1 ≤ maxTotalObjectBytes ∧ maxTotalObjectBytes ≤ 512 * 1024 * 1024
  source_range : 1 ≤ maxTotalSourceBytes ∧ maxTotalSourceBytes ≤ 512 * 1024 * 1024
  manifest_range : 1 ≤ maxManifestBytes ∧ maxManifestBytes ≤ 4 * 1024 * 1024
  workflow_range : 1 ≤ maxWorkflowBytes ∧ maxWorkflowBytes ≤ 64 * 1024 * 1024
  state_range : 1 ≤ maxStateBytes ∧ maxStateBytes ≤ 64 * 1024 * 1024
  central_range : 1 ≤ maxCentralBytes ∧ maxCentralBytes ≤ 256 * 1024
  archive_range : 1 ≤ maxArchiveBytes ∧ maxArchiveBytes ≤ 1024 * 1024 * 1024

namespace ArtifactBundleLimits

/-- `ArtifactBundleLimits()`. -/
def default : ArtifactBundleLimits where
  maxArtifacts := 1024
  maxArtifactBytes := 64 * 1024 * 1024
  maxTotalObjectBytes := 512 * 1024 * 1024
  maxTotalSourceBytes := 512 * 1024 * 1024
  maxManifestBytes := 4 * 1024 * 1024
  maxWorkflowBytes := 64 * 1024 * 1024
  maxStateBytes := 64 * 1024 * 1024
  maxCentralBytes := 256 * 1024
  maxArchiveBytes := 1024 * 1024 * 1024
  artifacts_range := by decide
  artifact_range := by decide
  object_range := by decide
  source_range := by decide
  manifest_range := by decide
  workflow_range := by decide
  state_range := by decide
  central_range := by decide
  archive_range := by decide

/-- `entry_limit`. -/
def entryLimit (limits : ArtifactBundleLimits) (name : String) : ℕ :=
  if name = "manifest.json" then limits.maxManifestBytes
  else if name = "workflow.json" then limits.maxWorkflowBytes
  else if name = "state.json" then limits.maxStateBytes
  else limits.maxArtifactBytes

end ArtifactBundleLimits

/-! ## Names -/

/-- `_NAMES`. -/
def documentNames : List String := ["manifest.json", "workflow.json", "state.json"]

/-- `name.startswith("objects/")`. -/
def inObjects (name : String) : Bool := "objects/".toList.isPrefixOf name.toList

/-- `re.fullmatch(r"objects/[0-9a-f]{64}", name)`. -/
def isObjectName (name : String) : Bool :=
  inObjects name && isHash (String.ofList (name.toList.drop 8))

/-- `raw.decode("ascii")`. -/
def decodeAscii (raw : Bytes) : Option String :=
  if raw.all (· < 128) then (Utf8.decode raw).map String.ofList else none

/-- `sorted(names)`. -/
def sortNames (names : List String) : List String := names.insertionSort (· ≤ ·)

/-! ## Reading -/

/-- `_exact`: the bytes that are read and those that remain. -/
def exact (handle : Bytes) (size : ℕ) : Result (Bytes × Bytes) := do
  require ((handle.take size).length = size) (.inputFormat "truncated artifact archive")
  .ok (handle.take size, handle.drop size)

theorem exact_eq_ok {handle value rest : Bytes} {size : ℕ} :
    exact handle size = .ok (value, rest) ↔ handle = value ++ rest ∧ value.length = size := by
  simp only [exact, bind_eq_ok, require_eq_ok, exists_unit, Except.ok.injEq, Prod.mk.injEq]
  constructor
  · rintro ⟨hlength, rfl, rfl⟩
    exact ⟨(List.take_append_drop size handle).symm, hlength⟩
  · rintro ⟨rfl, rfl⟩
    simp

/-- `_MODE`: a regular file that its owner reads and writes. -/
def archiveMode : ℕ := (0o100000 ||| 0o600) <<< 16

/-- The header fields that every member has. -/
def archiveProfile : Zip.Profile where
  made := 788
  needed := 20
  time := 0
  date := 33
  external := archiveMode

/-- The variables of the loop over the directory; `central` is what remains of it. -/
structure ArchiveScan where
  central : Bytes
  entries : List (String × ℕ)
  nextLocal : ℕ
  objectBytes : ℕ

/-- One round of the loop. -/
def scanEntry (limits : ArtifactBundleLimits) (archive : Bytes) (cdOffset : ℕ) (s : ArchiveScan) :
    Result ArchiveScan := do
  let (header, central) ← exact s.central centralFormat.sum
  match unpack centralFormat header with
  | [magic, made, needed, flags, method, time, date, crc, compressed, size, nameLen, extraLen,
      commentLen, entryDisk, internal, external, localOffset] => do
    require (magic = Zip.centralSignature ∧ made = 788 ∧ needed = 20 ∧ flags = 0 ∧ method = 0 ∧
      time = 0 ∧ date = 33 ∧ compressed = size ∧ (1 ≤ nameLen ∧ nameLen ≤ 72) ∧ extraLen = 0 ∧
      commentLen = 0 ∧ entryDisk = 0 ∧ internal = 0 ∧ external = archiveMode ∧
      localOffset = s.nextLocal) (.inputFormat "noncanonical ZIP32 entry")
    let (nameRaw, central) ← exact central nameLen
    let name ← orError (decodeAscii nameRaw) (.inputFormat "archive member names must be ASCII")
    require (name ∈ documentNames ∨ isObjectName name = true)
      (.inputFormat "unsafe or unknown archive member")
    require (name ∉ s.entries.map Prod.fst ∧ size ≤ limits.entryLimit name)
      (.inputFormat "duplicate or oversized archive member")
    let objectBytes := if inObjects name then s.objectBytes + size else s.objectBytes
    require (inObjects name = true → objectBytes ≤ limits.maxTotalObjectBytes)
      (.inputFormat "archive object bytes exceed total limit")
    let nextLocal := localOffset + localFormat.sum + nameLen + size
    require (nextLocal ≤ cdOffset) (.inputFormat "archive members overlap the central directory")
    let disagree := PyError.inputFormat "local and central archive headers disagree"
    let (localRaw, handle) ← exact (archive.drop localOffset) localFormat.sum
    require (unpack localFormat localRaw = [Zip.localSignature, needed, flags, method, time, date,
      crc, compressed, size, nameLen, 0]) disagree
    let (localName, _) ← exact handle nameLen
    require (localName = nameRaw) disagree
    .ok ⟨central, s.entries ++ [(name, size)], nextLocal, objectBytes⟩
  | _ => .error (.runtime "unpack yields a number for each field")

/-- The loop over the directory. -/
def scanEntries (limits : ArtifactBundleLimits) (archive : Bytes) (cdOffset : ℕ) :
    ℕ → ArchiveScan → Result ArchiveScan
  | 0, s => .ok s
  | count + 1, s => do
    let next ← scanEntry limits archive cdOffset s
    scanEntries limits archive cdOffset count next

/-- `_ArchiveView`: the file before the directory, and the directory and the end record as the
preflight has read them. -/
structure ArchiveView where
  handle : Bytes
  offset : ℕ
  footer : Bytes
  deriving DecidableEq

/-- What `read` serves. -/
def ArchiveView.contents (v : ArchiveView) : Bytes := v.handle.take v.offset ++ v.footer

/-- `_preflight`. -/
def Archive.preflight (archive : Bytes) (limits : ArtifactBundleLimits) :
    Result (ArchiveView × List (String × ℕ)) := do
  require (endFormat.sum ≤ archive.length ∧ archive.length ≤ limits.maxArchiveBytes)
    (.inputFormat "archive byte size exceeds bounds")
  let (endRaw, _) ← exact (archive.drop (archive.length - endFormat.sum)) endFormat.sum
  match unpack endFormat endRaw with
  | [signature, disk, cdDisk, diskCount, count, cdSize, cdOffset, comment] => do
    require (signature = Zip.endSignature ∧ disk = 0 ∧ cdDisk = 0 ∧ diskCount = count ∧
      (3 ≤ count ∧ count ≤ limits.maxArtifacts + 3) ∧ comment = 0 ∧
      (0 < cdSize ∧ cdSize ≤ limits.maxCentralBytes) ∧
      cdOffset + cdSize = archive.length - endFormat.sum)
      (.inputFormat "unsupported or unbounded ZIP32 directory")
    let (centralRaw, _) ← exact (archive.drop cdOffset) cdSize
    let s ← scanEntries limits archive cdOffset count ⟨centralRaw, [], 0, 0⟩
    let names := s.entries.map Prod.fst
    require (names.take 3 = documentNames ∧ names.drop 3 = sortNames (names.drop 3) ∧
      s.nextLocal = cdOffset ∧ s.central = [])
      (.inputFormat "archive inventory/order is not canonical")
    .ok (⟨archive, cdOffset, centralRaw ++ endRaw⟩, s.entries)
  | _ => .error (.runtime "unpack yields a number for each field")

/-! ## `ZipFile`

What `zipfile` does with a view: it reads the directory again, and opens a member at its local
header. Its exceptions end as one error of the package. -/

/-- `BadZipFile`. -/
def badZipFile : PyError := .inputFormat "cannot read or verify artifact archive"

/-- A read that `zipfile` checks for its length. -/
def zipRead (handle : Bytes) (size : ℕ) : Result (Bytes × Bytes) := do
  require ((handle.take size).length = size) badZipFile
  .ok (handle.take size, handle.drop size)

theorem zipRead_append {value rest : Bytes} {size : ℕ} (h : value.length = size) :
    zipRead (value ++ rest) size = .ok (value, rest) := by
  subst h
  simp [zipRead, require, bind, Except.bind]

/-- `ZipInfo`. -/
structure ZipInfo where
  filename : String
  crc : ℕ
  compressSize : ℕ
  headerOffset : ℕ

/-- The loop of `_RealGetContents` over the directory, each of whose rounds takes some of its
bytes. Without a flag a name is in a code page that extends ASCII. -/
def readDirectory (shift : ℕ) : ℕ → Bytes → Result (List ZipInfo)
  | _, [] => .ok []
  | 0, _ => .error badZipFile
  | fuel + 1, central => do
    let (header, rest) ← zipRead central centralFormat.sum
    match unpack centralFormat header with
    | [magic, _, _, _, _, _, _, crc, compressed, _, nameLen, extraLen, commentLen, _, _, _,
        localOffset] => do
      require (magic = Zip.centralSignature) badZipFile
      let filename ← orError (decodeAscii (rest.take nameLen)) badZipFile
      let infos ← readDirectory shift fuel (rest.drop (nameLen + extraLen + commentLen))
      .ok (⟨filename, crc, compressed, localOffset + shift⟩ :: infos)
    | _ => .error badZipFile

/-- `ZipFile(view)`: its `infolist()`. -/
def infolist (view : ArchiveView) : Result (List ZipInfo) :=
  let location := view.contents.length - endFormat.sum
  match unpack endFormat (view.contents.drop location) with
  | [_, _, _, _, _, cdSize, cdOffset, _] => do
    require (cdOffset + cdSize ≤ location) badZipFile
    readDirectory (location - cdSize - cdOffset) cdSize
      ((view.contents.drop (location - cdSize)).take cdSize)
  | _ => .error badZipFile

/-- `open`, of a member with its information. -/
def openInfo (view : ArchiveView) (info : ZipInfo) : Result Zip.Member := do
  let (header, rest) ← zipRead (view.contents.drop info.headerOffset) localFormat.sum
  match unpack localFormat header with
  | [magic, _, _, _, _, _, _, _, _, nameLen, extraLen] => do
    require (magic = Zip.localSignature ∧ decodeAscii (rest.take nameLen) = some info.filename)
      badZipFile
    .ok ⟨info.filename, (rest.drop (nameLen + extraLen)).take info.compressSize, info.crc⟩
  | _ => .error badZipFile

/-- `open`: a later member of the same name hides an earlier one. -/
def openMember (view : ArchiveView) (infos : List ZipInfo) (name : String) : Result Zip.Member := do
  let info ← orError (infos.reverse.find? fun info => info.filename = name) (.runtime "KeyError")
  openInfo view info

/-- The members of a view, in the order of its directory. -/
def inventory (view : ArchiveView) : Result (List Zip.Member) := do
  let infos ← infolist view
  infos.mapM (openInfo view)

/-- `read(size)` of a member that has just been opened. Stored data is fetched in pieces of at least
`MIN_READ_SIZE` bytes, and the checksum is compared once all of it has been fetched. -/
def readMember (m : Zip.Member) (size : ℕ) : Result Bytes := do
  require (max size 4096 < m.data.length ∨ Zip.crc32 m.data = m.crc) badZipFile
  .ok (m.data.take size)

/-- `read` until nothing is left. -/
def readAll (m : Zip.Member) : Result Bytes := do
  require (Zip.crc32 m.data = m.crc) badZipFile
  .ok m.data

/-- `_archive_size`. -/
def archiveSize (sizes : List (String × ℕ)) : ℕ :=
  endFormat.sum + (sizes.map fun e =>
    centralFormat.sum + localFormat.sum + 2 * e.1.toList.length + e.2).sum

end EvidenceBraid
