import EvidenceBraid.Hashing
import EvidenceBraid.Library.Contract
import EvidenceBraid.Library.Directory
import Mathlib.Data.Finset.Dedup

/-!
# The schema directory

`export_schema_directory` writes the schema publication to a staging directory beside the
destination, verifies it there, and renames it without replacing anything. Every call of the file
system may fail, before or after its effect, and other processes act between the calls.

What the world remembers of the past (`root`, `effects`) is there for the theorems alone; no step
reads it.
-/

namespace EvidenceBraid

namespace SchemaDirectory

open FileSystem Transaction

/-! ## Exceptions -/

/-- `FileNotFoundError`, another `OSError`, `InputFormatError`, another `Exception`, or a
`BaseException` that is none. -/
inductive Kind where
  | fileNotFound | os | inputFormat | other | control
  deriving DecidableEq, Repr

/-- An exception with its notes. -/
structure Problem where
  kind : Kind
  typeName : String
  message : String
  notes : List String
  deriving DecidableEq, Repr

namespace Problem

/-- `InputFormatError(message)`. -/
def inputFormat (message : String) : Problem := ⟨.inputFormat, "InputFormatError", message, []⟩

/-- `ValidationError(message)`. -/
def validation (message : String) : Problem := ⟨.other, "ValidationError", message, []⟩

/-- The `OSError` of a refused operation. -/
def ofErrno : Errno → Problem
  | .noEntry => ⟨.fileNotFound, "FileNotFoundError", "No such file or directory", []⟩
  | .taken => ⟨.os, "FileExistsError", "File exists", []⟩
  | .notDirectory => ⟨.os, "NotADirectoryError", "Not a directory", []⟩
  | .isDirectory => ⟨.os, "IsADirectoryError", "Is a directory", []⟩
  | .notEmpty => ⟨.os, "OSError", "Directory not empty", []⟩
  | .badDescriptor => ⟨.os, "OSError", "Bad file descriptor", []⟩
  | .noSpace => ⟨.os, "OSError", "No space left on device", []⟩

/-- `add_note`. -/
def addNote (p : Problem) (note : String) : Problem := { p with notes := p.notes ++ [note] }

/-- `isinstance(p, Exception)`. -/
def isException (p : Problem) : Bool := p.kind ≠ .control

/-- `isinstance(p, OSError)`. -/
def isOSError (p : Problem) : Bool := p.kind = .os ∨ p.kind = .fileNotFound

end Problem

/-- The answer of the operating system. -/
def answer {α : Type} (x : Except Errno α) : Except Problem α := x.mapError Problem.ofErrno

/-- `_failure`. -/
def failure (primary : Option Problem) (secondary : Problem) (phase : String) : Problem :=
  match primary with
  | none => secondary
  | some p =>
    if p.isException && ! secondary.isException then
      secondary.addNote ("prior " ++ phase ++ " failure: " ++ p.typeName)
    else p.addNote ("additional " ++ phase ++ " failure: " ++ secondary.typeName)

/-! ## The publication and its place -/

/-- `SCHEMA_PUBLICATION_LINE`. -/
def publicationLine : String := "wire-1"

/-- `MAX_SCHEMA_FILE_BYTES`. -/
def maxSchemaFileBytes : ℕ := 64 * 1024

/-- `MAX_SCHEMA_PUBLICATION_BYTES`. -/
def maxSchemaPublicationBytes : ℕ := 256 * 1024

/-- What `_publication` gives: the digest of the catalog, and the resources by their names in the
directory of the line, in order. -/
structure Publication where
  catalogDigest : HexDigest
  resources : List (String × Bytes)

namespace Publication

/-- The names of the resources. -/
def names (p : Publication) : Finset String := (p.resources.map Prod.fst).toFinset

/-- `sum(map(len, resources.values()))`. -/
def size (p : Publication) : ℕ := (p.resources.map fun r => r.2.length).sum

end Publication

/-- `sys.platform`, as far as the code distinguishes platforms. -/
inductive System where
  | linux | win32 | unsupported
  deriving DecidableEq, Repr

/-- The names of the destination and of the staging directory in their parent. The second holds a new
UUID, so they differ. -/
structure Site where
  destination : String
  staging : String
  fresh : staging ≠ destination
  system : System
  /-- `str` of a path below the parent. -/
  text : List String → String

/-- `SchemaDirectoryExport`. -/
structure SchemaDirectoryExport where
  destination : String
  catalogDigest : HexDigest
  sizeBytes : ℕ
  bounded : 1 ≤ sizeBytes ∧ sizeBytes ≤ maxSchemaPublicationBytes

/-- `SchemaDirectoryExport(…)`, of an absolute path. -/
def SchemaDirectoryExport.make (destination : String) (catalogDigest : HexDigest) (sizeBytes : ℕ) :
    Except Problem SchemaDirectoryExport :=
  if h : 1 ≤ sizeBytes ∧ sizeBytes ≤ maxSchemaPublicationBytes then
    .ok ⟨destination, catalogDigest, sizeBytes, h⟩
  else .error (.validation "schema directory size is outside the compiled bound")

/-- `PublicationState`. -/
inductive PublicationState where
  | unpublished | published | unknown
  deriving DecidableEq, Repr

def PublicationState.value : PublicationState → String
  | unpublished => "unpublished"
  | published => "published"
  | unknown => "unknown"

/-! ## The world -/

/-- `_Owned`: the parent of the destination, or what the call makes below it. -/
inductive Owned where
  | parent
  | child (parent : Owned) (name : String) (directory : Bool)
  deriving DecidableEq, Repr

namespace Owned

/-- Its path, from the parent of the destination. -/
def path : Owned → List String
  | parent => []
  | child o name _ => o.path ++ [name]

def directory : Owned → Bool
  | parent => true
  | child _ _ directory => directory

end Owned

/-- What a step did. -/
inductive Act where
  | make (path : List String) (i : Ident)
  | write (i : Ident)
  | rename (i : Ident)
  | remove (path : List String) (i : Ident)
  deriving DecidableEq, Repr

/-- What a step did, between which disks. -/
structure Effect where
  act : Act
  before : Disk
  after : Disk

/-- What the other processes do next, to a disk on which `root` is this call's own. -/
structure Others (place : String) where
  act : Option Ident → Disk → Disk
  unrelated : ∀ root d, Disk.Unrelated place root d (act root d)

/-- What happens at the next call of the file system: what others do before it, what it raises, before
or with `true` after its effect, and what the system chooses. -/
structure Moment (site : Site) where
  others : Others site.staging
  fault : Option (Problem × Bool)
  fresh : Ident
  stamp : Stamp
  /-- How many bytes a read or a write moves, unless all. -/
  count : Option ℕ

/-- The disk, what the call knows, and what is still to happen. -/
structure World (site : Site) where
  disk : Disk
  /-- The `identity` of each `_Owned`. -/
  identity : Owned → Option Ident
  attempted : Bool
  state : PublicationState
  moments : ℕ → Moment site
  /-- The staging directory that this call made. -/
  root : Option Ident
  effects : List Effect

variable {site : Site}

namespace World

/-- The others have acted. -/
def next (w : World site) : World site :=
  { w with
    disk := (w.moments 0).others.act w.root w.disk
    moments := fun n => w.moments (n + 1) }

/-- A step took effect. -/
def record (w : World site) (act : Act) (d : Disk) : World site :=
  { w with
    disk := d
    root :=
      match act with
      | .make path i => if path = [site.staging] then some i else w.root
      | _ => w.root
    effects := w.effects ++ [⟨act, w.disk, d⟩] }

end World

/-! ## Calls of the file system -/

abbrev Step (site : Site) (α : Type) : Type := Action (World site) Problem α

/-- One call. -/
def call {α : Type} (op : Moment site → World site → Except Problem α × World site) : Step site α :=
  fun w =>
    match (w.moments 0).fault with
    | none => op (w.moments 0) w.next
    | some (e, false) => (.error e, w.next)
    | some (e, true) => (.error e, (op (w.moments 0) w.next).2)

/-- A call that only looks. -/
def look {α : Type} (f : Moment site → Disk → Except Problem α) : Step site α :=
  call fun m w => (f m w.disk, w)

/-- A call that changes the disk, or is refused. -/
def effect {α : Type} (change : Moment site → Disk → Except Problem (α × Act × Disk)) : Step site α :=
  call fun m w =>
    match change m w.disk with
    | .ok (a, act, d) => (.ok a, w.record act d)
    | .error e => (.error e, w)

/-- A call that looks at nothing the model has. -/
def touch : Step site Unit := look fun _ _ => .ok ()

/-- `raise InputFormatError(message)` where a test says so. -/
def refuse (test : Prop) [Decidable test] (message : String) : Step site Unit :=
  if test then Action.raise (.inputFormat message) else pure ()

inductive FileType where
  | directory | regular | other
  deriving DecidableEq, Repr

/-- `os.stat_result`. -/
structure Stat where
  ident : Ident
  type : FileType
  size : ℕ
  stamp : Stamp
  deriving DecidableEq, Repr

/-- What `lstat` tells of an object. -/
def statOf (i : Ident) : Object → Stat
  | .directory _ stamp => ⟨i, .directory, stamp.size, stamp⟩
  | .file raw stamp => ⟨i, .regular, raw.length, stamp⟩
  | .link stamp | .other stamp => ⟨i, .other, stamp.size, stamp⟩

/-- `_plain`. -/
def plain (value : Stat) (directory : Bool) : Except Problem Stat :=
  if value.type ≠ (if directory then .directory else .regular) ∨ value.stamp.reparse = true ∨
      value.ident.number = 0 then
    .error (.inputFormat "schema publication requires ordinary non-reparse files/directories")
  else .ok value

/-- `_version`. -/
def version (value : Stat) : Ident × ℕ × ℕ × ℕ :=
  (value.ident, value.size, value.stamp.modified, value.stamp.changed)

/-- `_binding`. -/
def binding (site : Site) (value : Stat) : Ident × ℕ × ℕ × Option ℕ :=
  (value.ident, value.size, value.stamp.modified,
    if site.system = .win32 then value.stamp.born else some value.stamp.changed)

/-- `path.lstat()`. -/
def statPath (path : List String) : Step site Stat :=
  look fun _ d => answer do
    let i ← d.find path
    let o ← d.status i
    pure (statOf i o)

/-- `os.fstat`. -/
def fstat (descriptor : Ident) : Step site Stat :=
  look fun _ d => answer do
    let o ← d.status descriptor
    pure (statOf descriptor o)

/-- `_lstat`. -/
def lstat (path : List String) (directory : Bool) : Step site Stat := do
  let value ← statPath path
  Action.lift (plain value directory)

/-- `os.scandir`. -/
def scandir (path : List String) : Step site (List String) :=
  look fun _ d => answer do
    let i ← d.find path
    if d.isDirectory i then pure ((d.entries i).map Prod.fst) else .error .notDirectory

/-- `os.open` for reading, of no link. -/
def openRead (path : List String) : Step site Ident :=
  look fun _ d => do
    let i ← answer (d.find path)
    match ← answer (d.status i) with
    | .link _ => .error ⟨.os, "OSError", "Too many levels of symbolic links", []⟩
    | _ => pure i

/-- `os.read`. -/
def read (descriptor : Ident) (n : ℕ) : Step site Bytes :=
  look fun m d =>
    match d.object descriptor with
    | some (.file raw _) => .ok (raw.take (min n (m.count.getD n)))
    | some (.directory _ _) => .error (.ofErrno .isDirectory)
    | _ => .error (.ofErrno .badDescriptor)

/-- `path.mkdir(mode=0o700)`. -/
def mkdir (parent : List String) (name : String) : Step site Unit :=
  effect fun m d => answer do
    let dir ← d.find parent
    let d' ← d.create dir name m.fresh true m.stamp
    pure ((), .make (parent ++ [name]) m.fresh, d')

/-- `os.open` with `O_CREAT | O_EXCL`. -/
def openNew (parent : List String) (name : String) : Step site Ident :=
  effect fun m d => answer do
    let dir ← d.find parent
    let d' ← d.create dir name m.fresh false m.stamp
    pure (m.fresh, .make (parent ++ [name]) m.fresh, d')

/-- `os.write`. -/
def write (descriptor : Ident) (raw : Bytes) : Step site ℕ :=
  effect fun m d => answer do
    let n := min raw.length (m.count.getD raw.length)
    let d' ← d.write descriptor (raw.take n) m.stamp
    pure (n, .write descriptor, d')

/-- `path.rmdir()` and `path.unlink()`. -/
def removePath (parent : List String) (name : String) (directory : Bool) : Step site Unit :=
  effect fun m d => answer do
    let dir ← d.find parent
    let (i, d') ← d.remove dir name directory m.stamp
    pure ((), .remove (parent ++ [name]) i, d')

/-- The rename without replacement, of the native function or of Windows. -/
def rename : Step site Unit :=
  effect fun m d => answer do
    let dir ← d.find []
    let (i, d') ← d.move dir site.staging site.destination m.stamp
    pure ((), .rename i, d')

/-- A body, and the release that follows it whatever happened. -/
def closing {α : Type} (phase : String) (body : Step site α) (release : Step site Unit) :
    Step site α := do
  let result ← Action.attempt body
  let released ← Action.attempt release
  match result, released with
  | .ok a, .ok () => pure a
  | .error e, .ok () => Action.raise e
  | .ok _, .error e => Action.raise (failure none e phase)
  | .error p, .error e => Action.raise (failure (some p) e phase)

/-- `except … as exc: raise InputFormatError(message) from exc`. -/
def translating {α : Type} (caught : Problem → Bool) (message : String) (body : Step site α) :
    Step site α := do
  let result ← Action.attempt body
  match result with
  | .ok a => pure a
  | .error e => Action.raise (if caught e then .inputFormat message else e)

/-! ## Verification -/

/-- The loop of `_inventory`. -/
def enumerate (expected : Finset String) : List String → Finset String → Step site (Finset String)
  | [], found => do
    touch
    pure found
  | name :: names, found => do
    touch
    refuse (found.card = expected.card ∨ name ∉ expected ∨ name ∈ found)
      "schema directory has extra or unexpected entries"
    enumerate expected names (insert name found)

/-- `_inventory`. -/
def inventory (path : List String) (expected : Finset String) : Step site Stat := do
  let before ← lstat path true
  let names ← scandir path
  closing "directory enumeration cleanup"
    (do
      let found ← enumerate expected names ∅
      refuse (found ≠ expected) "schema directory is incomplete or changed during enumeration"
      let after ← lstat path true
      refuse (version after ≠ version before)
        "schema directory is incomplete or changed during enumeration")
    touch
  pure before

/-- `_read_file`. -/
def readFile (path : List String) (expected : Bytes) (maximum : ℕ) : Step site Stat := do
  let before ← lstat path false
  refuse (maximum < expected.length ∨ before.size ≠ expected.length)
    "schema file size differs or exceeds its byte bound"
  let descriptor ← openRead path
  closing "descriptor cleanup"
    (do
      let status ← fstat descriptor
      let opened ← Action.lift (plain status false)
      refuse (binding site opened ≠ binding site before) "schema file changed before opening"
      let raw ← read descriptor (expected.length + 1)
      refuse (raw ≠ expected) "schema file differs from its fixed publication or changed"
      let now ← fstat descriptor
      refuse (version now ≠ version opened) "schema file differs from its fixed publication or changed"
      let after ← lstat path false
      refuse (version after ≠ version before) "schema file path changed during verification")
    touch
  pure before

/-- The loop over the resources: what has been read, with the running total of their sizes. -/
def readFiles (directory : List String) :
    List (String × Bytes) → ℕ → Step site (List (List String × Stat) × ℕ)
  | [], total => pure ([], total)
  | (name, expected) :: rest, total => do
    let observed ← readFile (directory ++ [name]) expected
      (min maxSchemaFileBytes (maxSchemaPublicationBytes - total))
    let (checked, size) ← readFiles directory rest (total + expected.length)
    pure ((directory ++ [name], observed) :: checked, size)

/-- The second look at a file. -/
def recheck (item : List String × Stat) : Step site Unit := do
  let now ← lstat item.1 false
  refuse (version now ≠ version item.2) "schema publication changed after a file was checked"

/-- The reads of `verify_schema_directory`. -/
def compareDirectory (publication : Publication) (destination : List String) : Step site ℕ := do
  let root ← inventory destination {publicationLine}
  let line ← inventory (destination ++ [publicationLine]) publication.names
  let (checked, total) ← readFiles (destination ++ [publicationLine]) publication.resources 0
  Action.each recheck checked
  let rootAgain ← inventory destination {publicationLine}
  refuse (version rootAgain ≠ version root) "schema directory changed during verification"
  let lineAgain ← inventory (destination ++ [publicationLine]) publication.names
  refuse (version lineAgain ≠ version line) "schema directory changed during verification"
  pure total

/-- `_hash`. -/
def requireHash (value path : String) : Step site Unit :=
  if isHash value then pure ()
  else Action.raise (.validation (path ++ " must be a lowercase SHA-256 digest"))

/-- `verify_schema_directory`. -/
def verifySchemaDirectory (publication : Publication) (destination : List String)
    (expectedCatalogDigest : String) : Step site SchemaDirectoryExport := do
  requireHash expectedCatalogDigest "expected catalog digest"
  -- `_publication` reads the installed files again.
  touch
  refuse (publication.catalogDigest.text ≠ expectedCatalogDigest)
    "expected catalog is not the installed publication"
  let total ← translating Problem.isOSError "cannot verify schema directory"
    (compareDirectory publication destination)
  Action.lift (SchemaDirectoryExport.make (site.text destination) publication.catalogDigest total)

/-! ## Ownership -/

/-- `self.identity`. -/
def identityOf (o : Owned) : Step site (Option Ident) := Action.query fun w => .ok (w.identity o)

/-- `item.identity = i`. -/
def setIdentity (o : Owned) (i : Ident) : Step site Unit :=
  Action.modify fun w => { w with identity := fun p => if p = o then some i else w.identity p }

/-- `_Owned.matches`. -/
def isOwn : Owned → Step site Bool
  | .parent => do
    match ← identityOf .parent with
    | none => pure false
    | some i =>
      let value ← lstat [] true
      pure (value.ident = i)
  | .child above name directory => do
    match ← identityOf (.child above name directory) with
    | none => pure false
    | some i =>
      if ← isOwn above then
        let value ← lstat (above.path ++ [name]) directory
        pure (value.ident = i)
      else pure false

/-- `_require_owned`. -/
def requireOwned (o : Owned) : Step site Unit := do
  let own ← isOwn o
  refuse (own = false) "schema staging ownership changed"

/-- `_make_directory`. -/
def makeDirectory (above : Owned) (name : String) : Step site Unit := do
  requireOwned above
  mkdir above.path name
  let value ← lstat (above.path ++ [name]) true
  setIdentity (.child above name true) value.ident

/-- `_write_file`. -/
def writeFile (above : Owned) (name : String) (raw : Bytes) : Step site Unit := do
  requireOwned above
  let descriptor ← openNew above.path name
  closing "descriptor cleanup"
    (do
      let status ← fstat descriptor
      let value ← Action.lift (plain status false)
      setIdentity (.child above name false) value.ident
      requireOwned (.child above name false)
      let written ← write descriptor raw
      refuse (written ≠ raw.length) "schema staging write was incomplete"
      -- `os.fsync`
      touch)
    touch

/-- `_rename_noreplace`. -/
def renameNoreplace : Step site Unit :=
  match site.system with
  | .win32 => rename
  | .unsupported =>
    Action.raise (.inputFormat "atomic directory no-replace is unsupported on this platform")
  | .linux => do
    -- Loading the native library, and `renameat2` from it.
    translating (fun e => e.isOSError || e.typeName == "AttributeError")
      "native renameat2 is unavailable; no fallback is permitted" touch
    rename

/-! ## Publication -/

/-- `identity` of `_observe_publication`. -/
def observedIdentity (path : List String) : Step site (Option Ident) := do
  match ← Action.attempt (lstat path true) with
  | .ok value => pure (some value.ident)
  | .error e => if e.kind = .fileNotFound then pure none else Action.raise e

/-- The staging directory. -/
def stage (site : Site) : Owned := .child .parent site.staging true

/-- The directory of the publication line in it. -/
def lineDirectory (site : Site) : Owned := .child (stage site) publicationLine true

/-- The identity at the destination, where a foreign file or link counts as none. -/
def observedDestination : Step site (Option Ident) := do
  match ← Action.attempt (observedIdentity [site.destination]) with
  | .ok found => pure found
  | .error e => if e.kind = .inputFormat then pure none else Action.raise e

/-- `_observe_publication`. -/
def observePublication : Step site PublicationState := do
  let known ← identityOf (stage site)
  let old ← observedIdentity (stage site).path
  let new ← observedDestination
  if old = known ∧ new ≠ known then pure .unpublished
  else if old = none ∧ new = known then pure .published
  else pure .unknown

/-- One round of `_cleanup`, inside its `try`. -/
def discard : Owned → Step site Unit
  | .parent => pure ()
  | .child above name directory => do
    let _ ← statPath (above.path ++ [name])
    let own ← isOwn (.child above name directory)
    refuse (own = false)
      ("unowned or replaced staging residue retained: " ++ site.text (above.path ++ [name]))
    removePath above.path name directory

/-- `_cleanup`, over the paths in this order. -/
def cleanup : List Owned → Option Problem → Step site (Option Problem)
  | [], primary => pure primary
  | item :: items, primary => do
    match ← Action.attempt (discard item) with
    | .ok () => cleanup items primary
    | .error e =>
      if e.kind = .fileNotFound then cleanup items primary
      else
        let phase := "staging cleanup (" ++ site.text item.path ++ ")"
        cleanup items (some (failure primary e phase))

/-- `[stage, version, *members]`. -/
def owned (site : Site) (publication : Publication) : List Owned :=
  stage site :: lineDirectory site ::
    publication.resources.map fun r => .child (lineDirectory site) r.1 false

/-- What the `try` of `export_schema_directory` does. -/
def publishTree (publication : Publication) : Step site Unit := do
  let value ← lstat [] true
  setIdentity .parent value.ident
  makeDirectory .parent site.staging
  makeDirectory (stage site) publicationLine
  Action.each (fun r => writeFile (lineDirectory site) r.1 r.2) publication.resources
  let _ ← verifySchemaDirectory publication (stage site).path publication.catalogDigest.text
  requireOwned (lineDirectory site)
  Action.modify fun w => { w with attempted := true }
  renameNoreplace
  Action.modify fun w => { w with state := .published }
  let found ← lstat [site.destination] true
  let known ← identityOf (stage site)
  if some found.ident ≠ known then
    Action.modify fun w => { w with state := .unknown }
    Action.raise (.inputFormat "published directory identity changed before acknowledgement")

/-- The `except` of `export_schema_directory`. -/
def acknowledge (problem : Problem) : Step site Problem := fun w =>
  if w.attempted && w.state == .unpublished then
    match observePublication w with
    | (.ok state, w') => (.ok problem, { w' with state := state })
    | (.error observed, w') =>
      (.ok (failure (some problem) observed "publication acknowledgement"),
        { w' with state := .unknown })
  else (.ok problem, w)

/-- What `export_schema_directory` raises: an exception from before its first step, a
`SchemaDirectoryPublicationError` with its cause, or a control exception with the state in its last
note. -/
inductive Thrown where
  | early (problem : Problem)
  | publication (destination staging : String) (state : PublicationState) (cause : Problem)
  | control (state : PublicationState) (problem : Problem)

/-- The publication state that is reported. -/
def Thrown.state : Thrown → Option PublicationState
  | early _ => none
  | publication _ _ state _ => some state
  | control state _ => some state

/-- What is raised for a problem that remains. -/
def thrown (site : Site) (state : PublicationState) (problem : Problem) : Thrown :=
  let noted := problem.addNote ("schema directory publication state: " ++ state.value ++
    "; staging path: " ++ site.text [site.staging])
  if noted.isException then
    .publication (site.text [site.destination]) (site.text [site.staging]) state noted
  else .control state noted

/-- What follows the `try`. -/
def settle (publication : Publication) (result : SchemaDirectoryExport)
    (outcome : Except Problem Unit) : World site → Except Thrown SchemaDirectoryExport × World site :=
  fun w =>
    let problem : Option Problem := match outcome with
      | .ok () => none
      | .error e => some e
    let cleaned :=
      if w.state = .unpublished then cleanup (owned site publication).reverse problem w
      else (.ok problem, w)
    match cleaned with
    | (.ok none, w') => (.ok result, w')
    | (.ok (some p), w') => (.error (thrown site w'.state p), w')
    | (.error p, w') => (.error (thrown site w'.state p), w')

/-- The `try` of `export_schema_directory`, its handler, and what follows. -/
def publish (publication : Publication) (result : SchemaDirectoryExport) :
    World site → Except Thrown SchemaDirectoryExport × World site := fun w =>
  match publishTree publication w with
  | (.ok (), w') => settle publication result (.ok ()) w'
  | (.error e, w') =>
    match acknowledge e w' with
    | (.ok p, w'') => settle publication result (.error p) w''
    | (.error p, w'') => settle publication result (.error p) w''

/-- What precedes the `try`: `_path`, the installed publication, and the result. -/
def prepare (publication : Publication) (path : String) : Step site SchemaDirectoryExport := do
  refuse (path = "" ∨ path.toList.contains (Char.ofNat 0))
    "schema directory path must be a nonempty path without NUL"
  touch
  Action.lift (SchemaDirectoryExport.make (site.text [site.destination]) publication.catalogDigest publication.size)

/-- A call begins. -/
def World.start (disk : Disk) (moments : ℕ → Moment site) : World site :=
  ⟨disk, fun _ => none, false, .unpublished, moments, none, []⟩

end SchemaDirectory

open SchemaDirectory

/-- `export_schema_directory`, of a path that makes this site. -/
def exportSchemaDirectory {site : Site} (publication : Publication) (path : String) :
    World site → Except Thrown SchemaDirectoryExport × World site := fun w =>
  match prepare publication path w with
  | (.ok result, w') => publish publication result w'
  | (.error e, w') => (.error (.early e), w')

end EvidenceBraid
