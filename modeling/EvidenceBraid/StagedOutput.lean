import EvidenceBraid.Library.Utf8
import Mathlib.Tactic.SplitIfs

/-!
# Staged publication

`staged_output` yields a staging file beside the destination. Only after the caller has filled it,
and it is flushed, synced and closed, is it renamed over the destination or linked to its name.

**Theorem (`stagedOutput_atomic`).** Whatever fails, the destination is as before or holds the whole
output.

**Idea.** No step before the publication touches the destination, and the publication finds the
staging file complete. What follows only removes the staging file and decides what is raised.
-/

namespace EvidenceBraid

namespace StagedOutput

/-! ## Exceptions and steps -/

/-- An `OSError`, an `InputFormatError`, another `Exception`, or a `BaseException` that is none. -/
inductive Kind where
  | os | inputFormat | other | interrupt
  deriving DecidableEq, Repr

/-- An exception with its notes. -/
structure Raised where
  kind : Kind
  typeName : String
  message : String
  notes : List String
  deriving DecidableEq, Repr

namespace Raised

/-- `InputFormatError(message)`. -/
def inputFormat (message : String) : Raised := ⟨.inputFormat, "InputFormatError", message, []⟩

/-- `FileExistsError`, of a link to a name that is taken. -/
def fileExists : Raised := ⟨.os, "FileExistsError", "File exists", []⟩

/-- `add_note`. -/
def addNote (e : Raised) (note : String) : Raised := { e with notes := e.notes ++ [note] }

end Raised

/-- What a name of the directory stands for: a file's bytes, or something else. -/
inductive Entry where
  | file (raw : Bytes)
  | other (description : String)
  deriving DecidableEq, Repr

/-- The destination and the staging file. -/
structure Disk where
  destination : Option Entry
  staging : Option Bytes
  deriving DecidableEq, Repr

/-- What the caller does: the content it gives the file, how much of that has reached the disk when
it is done or raises, and what it raises. -/
structure Body where
  content : Bytes
  reached : Bytes
  raises : Option Raised

/-- Which steps raise, and what. A step that is one operation of the file system may raise before its
effect or, with `true`, after it. -/
structure Failures where
  mkdir : Option Raised
  create : Option Raised
  flush : Option Raised
  fsync : Option Raised
  close : Option Raised
  publish : Option (Raised × Bool)
  unlink : Option (Raised × Bool)

/-! ## The steps -/

/-- The caller's body, the flush and the sync. -/
def fill (body : Body) (s : Failures) (d : Disk) : Except Raised Unit × Disk :=
  match body.raises, s.flush, s.fsync with
  | some e, _, _ => (.error e, { d with staging := some body.reached })
  | none, some e, _ => (.error e, { d with staging := some body.reached })
  | none, none, some e => (.error e, { d with staging := some body.content })
  | none, none, none => (.ok (), { d with staging := some body.content })

/-- `handle.close()`, after what has been returned or raised. -/
def close (s : Failures) (result : Except Raised Unit) : Except Raised Unit :=
  match s.close with
  | none => result
  | some c =>
    match result with
    | .ok () => .error c
    | .error e =>
      -- An ordinary error is noted on the earlier one; an interrupt propagates.
      if c.kind = .interrupt then .error c
      else .error (e.addNote ("staging file close failed: " ++ c.typeName))

/-- `os.replace`, in one operation. -/
def replaceFile (s : Failures) (d : Disk) : Except Raised Unit × Disk :=
  let moved : Disk := ⟨d.staging.map .file, none⟩
  match s.publish with
  | none => (.ok (), moved)
  | some (e, done) => (.error e, if done then moved else d)

/-- `os.link`, in one operation, which refuses a name that is taken. -/
def linkFile (s : Failures) (d : Disk) : Except Raised Unit × Disk :=
  let linked : Disk := ⟨d.staging.map .file, d.staging⟩
  match s.publish, d.destination with
  | none, none => (.ok (), linked)
  | none, some _ => (.error .fileExists, d)
  | some (e, done), none => (.error e, if done then linked else d)
  | some (e, _), some _ => (.error e, d)

/-- What the outer `try` leaves: whether `temporary` is set, `published`, and what it raises. -/
structure Attempt where
  temporary : Bool
  published : Bool
  result : Except Raised Unit
  disk : Disk

/-- The outer `try`. -/
def attempt (replace createParents : Bool) (body : Body) (s : Failures) (d : Disk) : Attempt :=
  match (if createParents then s.mkdir else none), s.create with
  | some e, _ => ⟨false, false, .error e, d⟩
  | none, some e => ⟨false, false, .error e, d⟩
  | none, none =>
    let filled := fill body s { d with staging := some [] }
    match close s filled.1 with
    | .error e => ⟨true, false, .error e, filled.2⟩
    | .ok () =>
      let placed := if replace then replaceFile s filled.2 else linkFile s filled.2
      match placed.1 with
      | .error e => ⟨true, false, .error e, placed.2⟩
      | .ok () => ⟨! replace, true, .ok (), placed.2⟩

/-- The handlers: an `OSError` becomes an `InputFormatError`. -/
def handled (result : Except Raised Unit) : Option Raised :=
  match result with
  | .ok () => none
  | .error e => some (if e.kind = .os then .inputFormat "cannot publish output" else e)

/-- The text about a staging file that could not be removed. -/
def residue (published : Bool) (path : String) : String :=
  if published then "output published, but staging file cleanup failed: " ++ path
  else "unpublished staging file cleanup failed: " ++ path

/-- What is raised in the end: an earlier failure, or nothing. -/
def outcome (failure : Option Raised) : Except Raised Unit :=
  match failure with
  | none => .ok ()
  | some e => .error e

/-- The `finally`, which unlinks the staging file. -/
def cleanup (path : String) (s : Failures) (a : Attempt) : Except Raised Unit × Disk :=
  if a.temporary then
    match s.unlink with
    | none => (outcome (handled a.result), { a.disk with staging := none })
    | some (u, done) =>
      let left : Disk := if done then { a.disk with staging := none } else a.disk
      if u.kind = .os then
        match handled a.result with
        | some e => (.error (e.addNote (residue a.published path)), left)
        | none => (.error (.inputFormat (residue a.published path)), left)
      else (.error u, left)
  else (outcome (handled a.result), a.disk)

end StagedOutput

open StagedOutput

/-- `staged_output`, entered and left with this body. The staging file is new, so there is none
before. -/
def stagedOutput (path staging : String) (replace createParents : Bool) (body : Body) (s : Failures)
    (destination : Option Entry) : Except Raised Unit × Disk :=
  if path = "" then
    (.error (.inputFormat "cannot publish output: destination path is empty"), ⟨destination, none⟩)
  else cleanup staging s (attempt replace createParents body s ⟨destination, none⟩)

namespace StagedOutput

/-! ## What each step does -/

/-- Filling leaves the destination, and when it returns nothing has failed and the file is complete. -/
theorem fill_spec (body : Body) (s : Failures) (d : Disk) :
    (fill body s d).2.destination = d.destination ∧
      ((fill body s d).1 = .ok () → (fill body s d).2.staging = some body.content ∧
        body.raises = none ∧ s.flush = none ∧ s.fsync = none) := by
  unfold fill
  cases hbody : body.raises with
  | some e => exact ⟨rfl, fun h => by cases h⟩
  | none =>
    cases hflush : s.flush with
    | some e => exact ⟨rfl, fun h => by cases h⟩
    | none =>
      cases hfsync : s.fsync with
      | some e => exact ⟨rfl, fun h => by cases h⟩
      | none => exact ⟨rfl, fun _ => ⟨rfl, rfl, rfl, rfl⟩⟩

/-- Closing never makes a failure good. -/
theorem close_eq_ok {s : Failures} {result : Except Raised Unit} :
    close s result = .ok () ↔ s.close = none ∧ result = .ok () := by
  unfold close
  cases s.close with
  | none => simp
  | some c =>
    cases result with
    | ok u => simp
    | error e =>
      by_cases hkind : c.kind = .interrupt <;> simp [hkind]

/-- The publication of a complete file, by either operation. -/
structure Places (replace : Bool) (content : Bytes) (d : Disk) (placed : Except Raised Unit × Disk) :
    Prop where
  whole : placed.2.destination = d.destination ∨ placed.2.destination = some (.file content)
  kept : replace = false → d.destination ≠ none → placed.2.destination = d.destination
  done : placed.1 = .ok () → placed.2.destination = some (.file content)
  moved : placed.1 = .ok () → replace = true → placed.2.staging = none

theorem places_replaceFile {content : Bytes} (s : Failures) {d : Disk}
    (h : d.staging = some content) : Places true content d (replaceFile s d) := by
  unfold replaceFile
  rw [h]
  cases s.publish with
  | none => exact ⟨.inr rfl, nofun, fun _ => rfl, fun _ _ => rfl⟩
  | some publish =>
    obtain ⟨e, done⟩ := publish
    cases done with
    | true => exact ⟨.inr rfl, nofun, nofun, nofun⟩
    | false => exact ⟨.inl rfl, nofun, nofun, nofun⟩

theorem places_linkFile {content : Bytes} (s : Failures) {d : Disk} (h : d.staging = some content) :
    Places false content d (linkFile s d) := by
  unfold linkFile
  rw [h]
  cases hpublish : s.publish with
  | none =>
    cases hfree : d.destination with
    | none => exact ⟨.inr rfl, fun _ htaken => absurd hfree htaken, fun _ => rfl, nofun⟩
    | some entry => exact ⟨.inl rfl, fun _ _ => rfl, nofun, nofun⟩
  | some publish =>
    obtain ⟨e, done⟩ := publish
    cases hfree : d.destination with
    | some entry => exact ⟨.inl rfl, fun _ _ => rfl, nofun, nofun⟩
    | none =>
      cases done with
      | true => exact ⟨.inr rfl, fun _ htaken => absurd hfree htaken, nofun, nofun⟩
      | false => exact ⟨.inl rfl.symm, fun _ htaken => absurd hfree htaken, nofun, nofun⟩

/-- A step before the publication raises. -/
def FailsBefore (body : Body) (s : Failures) : Prop :=
  body.raises ≠ none ∨ s.flush ≠ none ∨ s.fsync ≠ none ∨ s.close ≠ none

/-- What the outer `try` does to the destination, and when no staging file is left to it. -/
structure Attempts (replace : Bool) (body : Body) (s : Failures) (before : Option Entry)
    (a : Attempt) : Prop where
  whole : a.disk.destination = before ∨ a.disk.destination = some (.file body.content)
  kept : replace = false → before ≠ none → a.disk.destination = before
  done : a.result = .ok () → a.disk.destination = some (.file body.content)
  early : FailsBefore body s → a.disk.destination = before
  gone : a.temporary = false → a.disk.staging = none

/-- A failure that leaves the destination is within what is promised. -/
theorem Attempts.unpublished {replace : Bool} {body : Body} {s : Failures} {before : Option Entry}
    {a : Attempt} (hsame : a.disk.destination = before) (hfailed : a.result ≠ .ok ())
    (hgone : a.temporary = false → a.disk.staging = none) : Attempts replace body s before a :=
  ⟨.inl hsame, fun _ _ => hsame, fun h => absurd h hfailed, fun _ => hsame, hgone⟩

theorem attempts_attempt (replace createParents : Bool) (body : Body) (s : Failures)
    (before : Option Entry) :
    Attempts replace body s before (attempt replace createParents body s ⟨before, none⟩) := by
  unfold attempt
  cases hmkdir : (if createParents then s.mkdir else none) with
  | some e => exact .unpublished rfl (by simp) fun _ => rfl
  | none =>
    cases hcreate : s.create with
    | some e => exact .unpublished rfl (by simp) fun _ => rfl
    | none =>
      obtain ⟨hsame, hcomplete⟩ := fill_spec body s ⟨before, some []⟩
      generalize fill body s ⟨before, some []⟩ = filled at hsame hcomplete
      dsimp only
      cases hclosed : close s filled.1 with
      | error e => exact .unpublished hsame (by simp) nofun
      | ok u =>
        obtain ⟨hclose, hfill⟩ := close_eq_ok.mp hclosed
        obtain ⟨hstaging, hbody, hflush, hfsync⟩ := hcomplete hfill
        have hplaces : Places replace body.content filled.2
            (if replace then replaceFile s filled.2 else linkFile s filled.2) := by
          cases replace with
          | true => exact places_replaceFile s hstaging
          | false => exact places_linkFile s hstaging
        have hnone : ¬ FailsBefore body s := by simp [FailsBefore, hbody, hflush, hfsync, hclose]
        generalize (if replace then replaceFile s filled.2 else linkFile s filled.2) = placed at hplaces
        have hbefore : filled.2.destination = before := hsame
        have hwhole := hplaces.whole
        have hkept := hplaces.kept
        rw [hbefore] at hwhole hkept
        dsimp only
        cases hplaced : placed.1 with
        | error e => exact ⟨hwhole, hkept, nofun, fun h => absurd h hnone, nofun⟩
        | ok u =>
          refine ⟨hwhole, hkept, fun _ => hplaces.done hplaced,
            fun h => absurd h hnone, fun htemporary => hplaces.moved hplaced ?_⟩
          simpa using htemporary

/-- The failure to remove the staging file is reported: an ordinary one in a note or in an error of
its own, and any other is what is raised. -/
def Reported (u : Raised) (path : String) (result : Except Raised Unit) : Prop :=
  ∃ e, result = .error e ∧
    if u.kind = .os then
      ∃ published, residue published path ∈ e.notes ∨ e = .inputFormat (residue published path)
    else e = u

theorem outcome_handled {result : Except Raised Unit} (h : outcome (handled result) = .ok ()) :
    result = .ok () := by
  cases result with
  | ok u => rfl
  | error e => simp [handled, outcome] at h

/-- The `finally` leaves the destination, returns only after a publication, and leaves a staging file
only if it reports it. -/
theorem cleanup_spec (path : String) (s : Failures) (a : Attempt)
    (hgone : a.temporary = false → a.disk.staging = none) :
    (cleanup path s a).2.destination = a.disk.destination ∧
      ((cleanup path s a).1 = .ok () → a.result = .ok ()) ∧
      ((cleanup path s a).2.staging = none ∨
        ∃ u done, s.unlink = some (u, done) ∧ Reported u path (cleanup path s a).1) := by
  unfold cleanup
  by_cases htemporary : a.temporary = true
  · rw [if_pos htemporary]
    cases s.unlink with
    | none => exact ⟨rfl, outcome_handled, .inl rfl⟩
    | some unlink =>
      obtain ⟨u, done⟩ := unlink
      have hleft : (if done then { a.disk with staging := none } else a.disk).destination =
          a.disk.destination := by
        cases done <;> rfl
      dsimp only
      by_cases hkind : u.kind = .os
      · rw [if_pos hkind]
        cases handled a.result with
        | some e =>
          refine ⟨hleft, nofun, .inr ⟨u, done, rfl, e.addNote (residue a.published path), rfl, ?_⟩⟩
          rw [if_pos hkind]
          exact ⟨a.published, .inl (List.mem_append_right _ (List.mem_singleton_self _))⟩
        | none =>
          refine ⟨hleft, nofun, .inr ⟨u, done, rfl, .inputFormat (residue a.published path), rfl, ?_⟩⟩
          rw [if_pos hkind]
          exact ⟨a.published, .inr rfl⟩
      · rw [if_neg hkind]
        refine ⟨hleft, nofun, .inr ⟨u, done, rfl, u, rfl, ?_⟩⟩
        rw [if_neg hkind]
  · rw [if_neg htemporary]
    exact ⟨rfl, outcome_handled, .inl (hgone (by simpa using htemporary))⟩

/-! ## Atomicity -/

/-- **Publication is atomic**, whatever fails:
* the destination is as before, or holds all that the body wrote;
* without `replace`, a destination that exists is never changed;
* the context exits normally only if the destination holds all;
* if the body, the flush, the sync or the close raises, the destination is as before;
* the staging file is gone or renamed away, or the failure to remove it is reported. -/
theorem stagedOutput_atomic (path staging : String) (replace createParents : Bool) (body : Body)
    (s : Failures) (before : Option Entry) :
    let left := stagedOutput path staging replace createParents body s before
    (left.2.destination = before ∨ left.2.destination = some (.file body.content)) ∧
    (replace = false → before ≠ none → left.2.destination = before) ∧
    (left.1 = .ok () → left.2.destination = some (.file body.content)) ∧
    (body.raises ≠ none ∨ s.flush ≠ none ∨ s.fsync ≠ none ∨ s.close ≠ none →
      left.2.destination = before) ∧
    (left.2.staging = none ∨
      ∃ u done, s.unlink = some (u, done) ∧ Reported u staging left.1) := by
  intro left
  by_cases hpath : path = ""
  · have hleft : left = (.error (.inputFormat "cannot publish output: destination path is empty"),
        ⟨before, none⟩) := if_pos hpath
    rw [hleft]
    exact ⟨.inl rfl, fun _ _ => rfl, nofun, fun _ => rfl, .inl rfl⟩
  · have hleft : left =
        cleanup staging s (attempt replace createParents body s ⟨before, none⟩) := if_neg hpath
    have h := attempts_attempt replace createParents body s before
    obtain ⟨hsame, hok, hstaging⟩ := cleanup_spec staging s _ h.gone
    rw [hleft, hsame]
    exact ⟨h.whole, h.kept, fun hreturned => h.done (hok hreturned), h.early, hstaging⟩

end StagedOutput

end EvidenceBraid
