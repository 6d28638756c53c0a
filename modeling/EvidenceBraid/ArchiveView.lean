import EvidenceBraid.Archive
import EvidenceBraid.Library.ReadOnlyFile

/-!
# The view of an archive

`_ArchiveView` shows the ZIP reader an archive whose tail, the central directory, is the one that the
preflight has read. It serves what lies before the offset from the file and the rest from memory.

**Theorem (`archiveView_simulates`).** However it is called, the view answers as a read-only file of
the first `offset` bytes of the underlying file and the footer.

**Idea.** The two go in lockstep, with the same position. A read that crosses the offset takes all
that the file has up to it, so what is left over comes from the start of the footer.
-/

namespace EvidenceBraid

/-- An `OSError`. -/
structure OSError where
  message : String
  deriving DecidableEq, Repr

/-- `raw[start:stop]`, where neither is negative. -/
def byteSlice (raw : Bytes) (start stop : ℤ) : Bytes := (raw.take stop.toNat).drop start.toNat

namespace ArchiveView

/-- An `_ArchiveView` that is read; `handle` is the state of the underlying file. -/
structure Opened (σ : Type) where
  handle : σ
  offset : ℕ
  footer : Bytes
  position : ℤ

namespace Opened

variable {σ : Type} {content : Bytes}

/-- `_ArchiveView(handle, offset, footer)`. -/
def start (handle : σ) (offset : ℕ) (footer : Bytes) : Opened σ := ⟨handle, offset, footer, 0⟩

def seek (v : Opened σ) (offset whence : ℤ) : Except OSError ℤ × Opened σ :=
  let position : ℤ :=
    if whence = 0 then offset
    else if whence = 1 then v.position + offset
    else if whence = 2 then v.offset + v.footer.length + offset
    else -1
  if position < 0 then (.error ⟨"invalid archive seek"⟩, v)
  else (.ok position, { v with position := position })

def tell (v : Opened σ) : ℤ := v.position

/-- How many bytes a read asks for, of those that are left. -/
def readSize (v : Opened σ) (size : ℤ) : ℤ :=
  let left := v.offset + v.footer.length - v.position
  min (if size < 0 then left else size) (max 0 left)

/-- What a read takes from the underlying file. -/
def readHandle (f : FileHandle σ content) (v : Opened σ) (size : ℤ) : Bytes × σ :=
  if v.position < v.offset then
    f.read (f.seek v.handle v.position.toNat) (min size (v.offset - v.position)).toNat
  else ([], v.handle)

/-- What a read adds from the footer. -/
def readFooter (v : Opened σ) (size : ℤ) (result : Bytes) : Bytes :=
  let remaining := size - result.length
  if remaining ≠ 0 then
    let start := max 0 (v.position + result.length - v.offset)
    result ++ byteSlice v.footer start (start + remaining)
  else result

def read (f : FileHandle σ content) (v : Opened σ) (size : ℤ) : Bytes × Opened σ :=
  let size := v.readSize size
  let served := v.readHandle f size
  let result := v.readFooter size served.1
  (result, { v with handle := served.2, position := v.position + result.length })

/-- The view as a machine. -/
def machine (f : FileHandle σ content) : Machine (Opened σ) FileCall FileReply
  | v, .seek offset whence =>
    match v.seek offset whence with
    | (.ok position, v') => (.position position, v')
    | (.error _, v') => (.osError, v')
  | v, .tell => (.position v.tell, v)
  | v, .read size => (.bytes (v.read f size).1, (v.read f size).2)

/-! ## The simulation -/

/-- The view and a file of the first bytes of the content and the footer, at the same position. -/
structure Shows (raw : Bytes) (bound : ℕ) (tail : Bytes) (v : Opened σ) (file : ReadOnlyFile) :
    Prop where
  offset : v.offset = bound
  footer : v.footer = tail
  content : file.content = raw.take bound ++ tail
  position : v.position = file.position

section Lockstep

variable {offset : ℕ} {footer : Bytes} {v : Opened σ} {file : ReadOnlyFile}

theorem Shows.length (h : Shows content offset footer v file) (hoffset : offset ≤ content.length) :
    file.content.length = offset + footer.length := by
  rw [h.content, List.length_append, List.length_take, min_eq_left hoffset]

/-- A seek leads to the same place in both. -/
theorem seek_lockstep (h : Shows content offset footer v file) (hoffset : offset ≤ content.length)
    (f : FileHandle σ content) (distance whence : ℤ) :
    (machine f v (.seek distance whence)).1 = (file.machine (.seek distance whence)).1 ∧
      Shows content offset footer (machine f v (.seek distance whence)).2
        (file.machine (.seek distance whence)).2 := by
  have hlength := h.length hoffset
  have hmoved : ∀ n : ℤ, 0 ≤ n →
      Shows content offset footer { v with position := n } ⟨file.content, n.toNat⟩ :=
    fun n hn => ⟨h.offset, h.footer, h.content, (Int.toNat_of_nonneg hn).symm⟩
  -- A target that is not negative is where both go, and any other raises in both.
  have hgo : ∀ n : ℤ, v.seek distance whence = (if n < 0 then (.error ⟨"invalid archive seek"⟩, v)
        else (.ok n, { v with position := n })) → file.target distance whence = some n →
      (machine f v (.seek distance whence)).1 = (file.machine (.seek distance whence)).1 ∧
        Shows content offset footer (machine f v (.seek distance whence)).2
          (file.machine (.seek distance whence)).2 := by
    intro n hview hfile
    simp only [machine, hview, ReadOnlyFile.machine, ReadOnlyFile.seek, hfile]
    by_cases hn : n < 0
    · simp only [if_pos hn]
      exact ⟨trivial, h⟩
    · simp only [if_neg hn]
      exact ⟨trivial, hmoved n (not_lt.mp hn)⟩
  by_cases h0 : whence = 0
  · subst h0
    exact hgo distance rfl rfl
  by_cases h1 : whence = 1
  · subst h1
    apply hgo (v.position + distance) rfl
    rw [h.position]
    rfl
  by_cases h2 : whence = 2
  · subst h2
    apply hgo (v.offset + v.footer.length + distance) rfl
    show some ((file.content.length : ℤ) + distance) = _
    rw [hlength, h.offset, h.footer]
    push_cast
    rfl
  have hnowhere : file.target distance whence = none := by
    unfold ReadOnlyFile.target
    split
    · exact absurd rfl h0
    · exact absurd rfl h1
    · exact absurd rfl h2
    · rfl
  have hview : v.seek distance whence = (.error ⟨"invalid archive seek"⟩, v) := by
    simp [seek, h0, h1, h2]
  simp only [machine, hview, ReadOnlyFile.machine, ReadOnlyFile.seek, hnowhere]
  exact ⟨trivial, h⟩

/-- The file's bytes up to the offset and then the footer's. -/
theorem read_across {p n : ℕ} (hp : p ≤ offset) (hoffset : offset ≤ content.length) :
    (content.drop p).take (min n (offset - p)) ++ footer.take (n - (offset - p)) =
      ((content.take offset ++ footer).drop p).take n := by
  have hfirst : (content.take offset).length = offset := by
    rw [List.length_take, min_eq_left hoffset]
  have hbefore : ((content.take offset).drop p).length = offset - p := by
    rw [List.length_drop, hfirst]
  have htake : (content.drop p).take (offset - p) = (content.take offset).drop p := by
    rw [List.drop_take]
  rw [List.drop_append_of_le_length (hfirst.symm ▸ hp), List.take_append, hbefore, ← htake,
    List.take_take]

/-- From the offset on, a file has the footer's bytes. -/
theorem read_beyond {p : ℕ} (hp : offset ≤ p) (hoffset : offset ≤ content.length) :
    (content.take offset ++ footer).drop p = footer.drop (p - offset) := by
  have hfirst : (content.take offset).length = offset := by
    rw [List.length_take, min_eq_left hoffset]
  rw [List.drop_append, List.drop_eq_nil_of_le (hfirst.symm ▸ hp), hfirst, List.nil_append]

/-- The size of a read, which is negative only past the end. -/
theorem available_eq (h : Shows content offset footer v file) (hoffset : offset ≤ content.length)
    (size : ℤ) :
    file.available size = (file.content.drop file.position).take (v.readSize size).toNat ∧
      (v.readSize size < 0 →
        v.readSize size = offset + footer.length - file.position) := by
  have hlength := h.length hoffset
  have hleft : (v.offset : ℤ) + v.footer.length - v.position = offset + footer.length - file.position := by
    rw [h.offset, h.footer, h.position]
  have hrest : (file.content.drop file.position).length = offset + footer.length - file.position := by
    rw [List.length_drop, hlength]
  simp only [readSize, hleft, ReadOnlyFile.available]
  by_cases hsize : size < 0
  · simp only [if_pos hsize]
    refine ⟨?_, by omega⟩
    rw [List.take_of_length_le (by omega)]
  · simp only [if_neg hsize]
    refine ⟨?_, by omega⟩
    by_cases hwithin : size ≤ max 0 ((offset : ℤ) + footer.length - file.position)
    · rw [min_eq_left hwithin]
    · rw [List.take_of_length_le (by omega), List.take_of_length_le (by omega)]

/-- A read returns the same bytes in both. -/
theorem read_available (h : Shows content offset footer v file) (hoffset : offset ≤ content.length)
    (f : FileHandle σ content) (size : ℤ) : (v.read f size).1 = file.available size := by
  obtain ⟨havailable, hnegative⟩ := available_eq h hoffset size
  show v.readFooter (v.readSize size) (v.readHandle f (v.readSize size)).1 = _
  rw [havailable, h.content]
  generalize v.readSize size = n at hnegative
  by_cases hbefore : file.position < offset
  · -- The file serves what lies before the offset, so the footer is read from its start.
    obtain ⟨n, rfl⟩ := Int.eq_ofNat_of_zero_le (by omega : 0 ≤ n)
    have hserved : (v.readHandle f n).1 = (content.drop file.position).take (min n (offset - file.position)) := by
      have hsize : (min (n : ℤ) (offset - file.position)).toNat = min n (offset - file.position) := by
        omega
      simp only [readHandle, h.position, h.offset, Int.ofNat_lt, if_pos hbefore, Int.toNat_natCast,
        f.full, hsize]
    have hcount : ((content.drop file.position).take (min n (offset - file.position))).length =
        min n (offset - file.position) := by
      rw [List.length_take, List.length_drop]
      omega
    rw [Int.toNat_natCast, ← read_across hbefore.le hoffset, hserved]
    simp only [readFooter, hcount, h.position, h.offset, h.footer]
    by_cases hleft : n ≤ offset - file.position
    · rw [if_neg (by omega), Nat.sub_eq_zero_of_le hleft, List.take_zero, List.append_nil]
    · have hstart : max 0 ((file.position : ℤ) + (min n (offset - file.position) : ℕ) - offset) = 0 := by
        omega
      have hstop : (0 + ((n : ℤ) - (min n (offset - file.position) : ℕ))).toNat =
          n - (offset - file.position) := by omega
      rw [if_pos (by omega), hstart, byteSlice, hstop]
      rfl
  · have hbeyond : offset ≤ file.position := not_lt.mp hbefore
    have hserved : (v.readHandle f n).1 = [] := by
      simp only [readHandle, h.position, h.offset, Int.ofNat_lt, if_neg hbefore]
    rw [hserved, read_beyond hbeyond hoffset]
    simp only [readFooter, h.position, h.offset, h.footer, List.length_nil, Int.natCast_zero, Int.sub_zero,
      Int.add_zero, List.nil_append]
    have hstart : max 0 ((file.position : ℤ) - offset) = (file.position - offset : ℕ) := by omega
    by_cases hn : 0 ≤ n
    · obtain ⟨n, rfl⟩ := Int.eq_ofNat_of_zero_le hn
      by_cases hzero : n = 0
      · subst hzero
        simp
      · have hstop : (((file.position - offset : ℕ) : ℤ) + n).toNat = (file.position - offset) + n := by
          omega
        rw [if_pos (by omega), hstart, byteSlice, hstop, Int.toNat_natCast, Int.toNat_natCast,
          List.drop_take, Nat.add_sub_cancel_left]
    · -- Past the end the size is negative, and both slices are empty.
      have hend := hnegative (by omega)
      have hpast : footer.length ≤ file.position - offset := by omega
      have hnothing : n.toNat = 0 := by omega
      rw [if_pos (by omega), hstart, byteSlice, Int.toNat_natCast, hnothing, List.take_zero]
      apply List.drop_eq_nil_of_le
      rw [List.length_take]
      omega

theorem lockstep (hoffset : offset ≤ content.length) (f : FileHandle σ content) :
    Machine.Lockstep (machine f) ReadOnlyFile.machine (Shows content offset footer) := by
  intro v file h call
  cases call with
  | seek distance whence => exact seek_lockstep h hoffset f distance whence
  | tell =>
    refine ⟨?_, h⟩
    show FileReply.position v.position = .position file.position
    rw [h.position]
  | read size =>
    have hread := read_available h hoffset f size
    refine ⟨congrArg FileReply.bytes hread, h.offset, h.footer, h.content, ?_⟩
    show v.position + ((v.read f size).1.length : ℤ) =
      ((file.position + (file.available size).length : ℕ) : ℤ)
    rw [hread, h.position]
    push_cast
    rfl

end Lockstep

/-- **The view is a plain file.** However it is sought, told and read, it answers as a read-only file
of the first `offset` bytes of the underlying file and the footer, and ends at the same position. -/
theorem archiveView_simulates {content : Bytes} (f : FileHandle σ content) (handle : σ) {offset : ℕ}
    (hoffset : offset ≤ content.length) (footer : Bytes) (calls : List FileCall) :
    let view := Machine.run (machine f) (start handle offset footer) calls
    let file := Machine.run ReadOnlyFile.machine ⟨contents ⟨content, offset, footer⟩, 0⟩ calls
    view.1 = file.1 ∧ view.2.position = file.2.position := by
  intro view file
  obtain ⟨hanswers, hlast⟩ := (@lockstep σ content offset footer hoffset f).run calls
    (⟨rfl, rfl, rfl, rfl⟩ : Shows content offset footer (start handle offset footer)
      ⟨contents ⟨content, offset, footer⟩, 0⟩)
  exact ⟨hanswers, hlast.position⟩

/-- A read across the offset, and one from past the end. -/
theorem archiveView_simulates_across :
    ((machine (ReadOnlyFile.handle [1, 2, 3])).run (start 0 2 [8, 9])
      [.seek 1 0, .read 2, .seek 5 0, .read (-1), .seek (-9) 2, .tell]).1 =
      [.position 1, .bytes [2, 8], .position 5, .bytes [], .osError, .position 5] := by
  have hsame := archiveView_simulates (ReadOnlyFile.handle [1, 2, 3]) 0 (by decide : 2 ≤ 3) [8, 9]
    [.seek 1 0, .read 2, .seek 5 0, .read (-1), .seek (-9) 2, .tell]
  exact hsame.1.trans (by decide)

end Opened

end ArchiveView

end EvidenceBraid
