import EvidenceBraid.Library.Lockstep
import EvidenceBraid.Library.Utf8

/-!
# Read-only files

A file of fixed bytes with a position, and the calls on it. A seek may pass the end, where reads find
nothing; it may not pass the start, and then it raises and leaves the position.
-/

/-- The calls on a file; `whence` is 0 from the start, 1 from the position, 2 from the end. -/
inductive FileCall where
  | seek (offset whence : ℤ)
  | tell
  | read (size : ℤ)
  deriving DecidableEq, Repr

/-- What a call returns or raises. -/
inductive FileReply where
  | position (n : ℤ)
  | bytes (raw : Bytes)
  | osError
  deriving DecidableEq, Repr

/-- A read-only file. -/
structure ReadOnlyFile where
  content : Bytes
  position : ℕ
  deriving DecidableEq, Repr

namespace ReadOnlyFile

/-- Where a seek leads. -/
def target (f : ReadOnlyFile) (offset : ℤ) : ℤ → Option ℤ
  | 0 => some offset
  | 1 => some (f.position + offset)
  | 2 => some (f.content.length + offset)
  | _ => none

def seek (f : ReadOnlyFile) (offset whence : ℤ) : FileReply × ReadOnlyFile :=
  match f.target offset whence with
  | none => (.osError, f)
  | some n => if n < 0 then (.osError, f) else (.position n, ⟨f.content, n.toNat⟩)

/-- The bytes from the position on, and no more than a size that is not negative. -/
def available (f : ReadOnlyFile) (size : ℤ) : Bytes :=
  if size < 0 then f.content.drop f.position else (f.content.drop f.position).take size.toNat

def read (f : ReadOnlyFile) (size : ℤ) : Bytes × ReadOnlyFile :=
  (f.available size, ⟨f.content, f.position + (f.available size).length⟩)

/-- A file as a machine. -/
def machine : Machine ReadOnlyFile FileCall FileReply
  | f, .seek offset whence => f.seek offset whence
  | f, .tell => (.position f.position, f)
  | f, .read size => (.bytes (f.read size).1, (f.read size).2)

end ReadOnlyFile

/-- The seeks and reads of some open file with this content, whose states are `σ`: after a seek to a
position, a read returns all the bytes that it asks for and the file has. -/
structure FileHandle (σ : Type) (content : Bytes) where
  seek : σ → ℕ → σ
  read : σ → ℕ → Bytes × σ
  full : ∀ s n size, (read (seek s n) size).1 = (content.drop n).take size

/-- A read-only file is such a file. -/
def ReadOnlyFile.handle (content : Bytes) : FileHandle ℕ content where
  seek _ n := n
  read n size := ((content.drop n).take size, n + ((content.drop n).take size).length)
  full _ _ _ := rfl
