import EvidenceBraid.Library.Utf8
import Mathlib.Algebra.BigOperators.Group.List.Basic
import Mathlib.Algebra.Order.Ring.Nat

/-!
# Stored ZIP archives

Records of little-endian numbers of fixed widths (`pack`, `unpack`), and the archives that consist
of stored members and nothing else: a local record for each member, a directory record for each
member, and an end record. The header fields that do not depend on the member are a `Profile`.

A local record and a directory can each be read off the front of the bytes that start with it
(`localRecord_prefix`, `centralRecord_length`), so that a reader that follows the offsets of the
directory finds the members one after the other.
-/

namespace Zip

/-! ## Little-endian numbers -/

/-- The bytes of a number, modulo `256 ^ width`. -/
def toBytes : ℕ → ℕ → Bytes
  | 0, _ => []
  | width + 1, n => UInt8.ofNat n :: toBytes width (n / 256)

/-- The number that some bytes spell. -/
def ofBytes : Bytes → ℕ
  | [] => 0
  | b :: bs => b.toNat + 256 * ofBytes bs

@[simp] theorem length_toBytes (width : ℕ) : ∀ n, (toBytes width n).length = width := by
  induction width with
  | zero => intro n; rfl
  | succ width ih => intro n; rw [toBytes, List.length_cons, ih]

theorem toBytes_ofBytes (bs : Bytes) : toBytes bs.length (ofBytes bs) = bs := by
  induction bs with
  | nil => rfl
  | cons b bs ih =>
    have hb := b.toNat_lt
    have hlow : UInt8.ofNat (b.toNat + 256 * ofBytes bs) = b := by
      apply UInt8.toNat_inj.mp
      rw [UInt8.toNat_ofNat']
      omega
    have hhigh : (b.toNat + 256 * ofBytes bs) / 256 = ofBytes bs := by omega
    rw [List.length_cons, ofBytes, toBytes, hlow, hhigh, ih]

theorem ofBytes_lt (bs : Bytes) : ofBytes bs < 256 ^ bs.length := by
  induction bs with
  | nil => decide
  | cons b bs ih =>
    have hb := b.toNat_lt
    rw [ofBytes, List.length_cons, pow_succ]
    omega

theorem ofBytes_toBytes (width : ℕ) : ∀ {n : ℕ}, n < 256 ^ width → ofBytes (toBytes width n) = n := by
  induction width with
  | zero =>
    intro n hn
    rw [pow_zero] at hn
    rw [toBytes, ofBytes]
    omega
  | succ width ih =>
    intro n hn
    rw [pow_succ] at hn
    rw [toBytes, ofBytes, ih (by omega), UInt8.toNat_ofNat']
    omega

/-! ## Records -/

/-- `struct.pack`, where a record is given by the widths of its fields. -/
def pack : List ℕ → List ℕ → Bytes
  | width :: widths, n :: ns => toBytes width n ++ pack widths ns
  | _, _ => []

/-- `struct.unpack`. -/
def unpack : List ℕ → Bytes → List ℕ
  | [], _ => []
  | width :: widths, bs => ofBytes (bs.take width) :: unpack widths (bs.drop width)

/-- Numbers that fit their fields. -/
def Fits : List ℕ → List ℕ → Prop
  | width :: widths, n :: ns => n < 256 ^ width ∧ Fits widths ns
  | widths, ns => widths = [] ∧ ns = []

theorem length_pack {widths : List ℕ} : ∀ {ns : List ℕ}, widths.length = ns.length →
    (pack widths ns).length = widths.sum := by
  induction widths with
  | nil => intro ns _; rfl
  | cons width widths ih =>
    intro ns h
    cases ns with
    | nil => simp at h
    | cons n ns =>
      rw [pack, List.length_append, length_toBytes, ih (by simpa using h), List.sum_cons]

/-- **Bytes are their own record.** -/
theorem pack_unpack {widths : List ℕ} : ∀ {bs : Bytes}, bs.length = widths.sum →
    pack widths (unpack widths bs) = bs := by
  induction widths with
  | nil =>
    intro bs h
    rw [List.sum_nil] at h
    rw [List.length_eq_zero_iff.mp h]
    rfl
  | cons width widths ih =>
    intro bs h
    rw [List.sum_cons] at h
    have htake : (bs.take width).length = width := by rw [List.length_take]; omega
    have hfield : toBytes width (ofBytes (bs.take width)) = bs.take width := by
      have hbytes := toBytes_ofBytes (bs.take width)
      rwa [htake] at hbytes
    rw [unpack, pack, hfield, ih (by rw [List.length_drop]; omega), List.take_append_drop]

theorem unpack_pack {widths : List ℕ} : ∀ {ns : List ℕ}, Fits widths ns →
    unpack widths (pack widths ns) = ns := by
  induction widths with
  | nil =>
    intro ns h
    cases ns with
    | nil => rfl
    | cons n ns => exact absurd h.2 (List.cons_ne_nil n ns)
  | cons width widths ih =>
    intro ns h
    cases ns with
    | nil => exact absurd h.1 (List.cons_ne_nil width widths)
    | cons n ns =>
      have hlength := length_toBytes width n
      rw [pack, unpack, List.take_left' hlength, List.drop_left' hlength,
        ofBytes_toBytes width h.1, ih h.2]

theorem fits_unpack {widths : List ℕ} : ∀ {bs : Bytes}, bs.length = widths.sum →
    Fits widths (unpack widths bs) := by
  induction widths with
  | nil => intro bs _; exact ⟨rfl, rfl⟩
  | cons width widths ih =>
    intro bs h
    rw [List.sum_cons] at h
    have htake : (bs.take width).length = width := by rw [List.length_take]; omega
    have hfield := ofBytes_lt (bs.take width)
    rw [htake] at hfield
    exact ⟨hfield, ih (by rw [List.length_drop]; omega)⟩

/-! ## Checksums -/

/-- A remainder shifted by one bit. -/
def crcStep (r : ℕ) : ℕ := if r % 2 = 1 then r / 2 ^^^ 0xedb88320 else r / 2

/-- `zlib.crc32`. -/
def crc32 (bs : Bytes) : ℕ :=
  (bs.foldl (fun r b => crcStep^[8] (r ^^^ b.toNat)) 0xffffffff ^^^ 0xffffffff) % 2 ^ 32

example : crc32 [0x31, 0x32, 0x33, 0x34, 0x35, 0x36, 0x37, 0x38, 0x39] = 0xcbf43926 := by
  decide +kernel

theorem crc32_lt (bs : Bytes) : crc32 bs < 256 ^ 4 := Nat.mod_lt _ (by decide)

/-! ## Archives -/

/-- A member as an archive holds it: the checksum is the stored one. -/
structure Member where
  name : String
  data : Bytes
  crc : ℕ
  deriving DecidableEq

/-- The header fields that all members share. -/
structure Profile where
  made : ℕ
  needed : ℕ
  time : ℕ
  date : ℕ
  external : ℕ

def localSignature : ℕ := ofBytes [0x50, 0x4b, 0x03, 0x04]

def centralSignature : ℕ := ofBytes [0x50, 0x4b, 0x01, 0x02]

def endSignature : ℕ := ofBytes [0x50, 0x4b, 0x05, 0x06]

/-- `<4s5H3I2H`. -/
def localFormat : List ℕ := [4, 2, 2, 2, 2, 2, 4, 4, 4, 2, 2]

/-- `<4s6H3I5H2I`. -/
def centralFormat : List ℕ := [4, 2, 2, 2, 2, 2, 2, 4, 4, 4, 2, 2, 2, 2, 2, 4, 4]

/-- `<4s4H2IH`. -/
def endFormat : List ℕ := [4, 2, 2, 2, 2, 4, 4, 2]

namespace Member

def nameBytes (m : Member) : Bytes := Utf8.encode m.name.toList

/-- The bytes that a member takes before the directory. -/
def extent (m : Member) : ℕ := localFormat.sum + m.nameBytes.length + m.data.length

/-- A member whose name, size and checksum fit their fields. -/
structure Representable (m : Member) : Prop where
  name_lt : m.nameBytes.length < 256 ^ 2
  data_lt : m.data.length < 256 ^ 4
  crc_lt : m.crc < 256 ^ 4

end Member

/-- The end record. -/
def endRecord (count size offset : ℕ) : Bytes :=
  pack endFormat [endSignature, 0, 0, count, count, size, offset, 0]

@[simp] theorem length_endRecord (count size offset : ℕ) :
    (endRecord count size offset).length = endFormat.sum := length_pack rfl

namespace Profile

variable (p : Profile)

def localHeader (m : Member) : List ℕ :=
  [localSignature, p.needed, 0, 0, p.time, p.date, m.crc, m.data.length, m.data.length,
    m.nameBytes.length, 0]

def localRecord (m : Member) : Bytes := pack localFormat (p.localHeader m) ++ m.nameBytes ++ m.data

def centralHeader (offset : ℕ) (m : Member) : List ℕ :=
  [centralSignature, p.made, p.needed, 0, 0, p.time, p.date, m.crc, m.data.length, m.data.length,
    m.nameBytes.length, 0, 0, 0, 0, p.external, offset]

def centralRecord (offset : ℕ) (m : Member) : Bytes :=
  pack centralFormat (p.centralHeader offset m) ++ m.nameBytes

/-- Header fields that fit. -/
structure Representable : Prop where
  made_lt : p.made < 256 ^ 2
  needed_lt : p.needed < 256 ^ 2
  time_lt : p.time < 256 ^ 2
  date_lt : p.date < 256 ^ 2
  external_lt : p.external < 256 ^ 4

variable {p} in
theorem fits_localHeader (hp : p.Representable) {m : Member} (hm : m.Representable) :
    Fits localFormat (p.localHeader m) :=
  ⟨by decide, hp.needed_lt, by decide, by decide, hp.time_lt, hp.date_lt, hm.crc_lt, hm.data_lt,
    hm.data_lt, hm.name_lt, by decide, rfl, rfl⟩

variable {p} in
theorem fits_centralHeader (hp : p.Representable) {m : Member} (hm : m.Representable) {offset : ℕ}
    (hoffset : offset < 256 ^ 4) : Fits centralFormat (p.centralHeader offset m) :=
  ⟨by decide, hp.made_lt, hp.needed_lt, by decide, by decide, hp.time_lt, hp.date_lt, hm.crc_lt,
    hm.data_lt, hm.data_lt, hm.name_lt, by decide, by decide, by decide, by decide, hp.external_lt,
    hoffset, rfl, rfl⟩

/-- The local records of some members. -/
def locals (ms : List Member) : Bytes := ms.flatMap p.localRecord

/-- The directory of members that start at an offset. -/
def directory : ℕ → List Member → Bytes
  | _, [] => []
  | offset, m :: ms => p.centralRecord offset m ++ directory (offset + m.extent) ms

/-- **The archive of some members.** -/
def archive (ms : List Member) : Bytes :=
  p.locals ms ++ p.directory 0 ms ++
    endRecord ms.length (p.directory 0 ms).length (p.locals ms).length

theorem length_pack_localHeader (m : Member) :
    (pack localFormat (p.localHeader m)).length = localFormat.sum := length_pack rfl

theorem length_pack_centralHeader (offset : ℕ) (m : Member) :
    (pack centralFormat (p.centralHeader offset m)).length = centralFormat.sum := length_pack rfl

@[simp] theorem length_localRecord (m : Member) : (p.localRecord m).length = m.extent := by
  rw [localRecord, List.length_append, List.length_append, length_pack_localHeader, Member.extent]

@[simp] theorem length_centralRecord (offset : ℕ) (m : Member) :
    (p.centralRecord offset m).length = centralFormat.sum + m.nameBytes.length := by
  rw [centralRecord, List.length_append, length_pack_centralHeader]

theorem locals_cons (m : Member) (ms : List Member) :
    p.locals (m :: ms) = p.localRecord m ++ p.locals ms := List.flatMap_cons

theorem length_locals (ms : List Member) : (p.locals ms).length = (ms.map Member.extent).sum := by
  induction ms with
  | nil => rfl
  | cons m ms ih =>
    rw [locals_cons, List.length_append, ih, length_localRecord, List.map_cons, List.sum_cons]

theorem length_directory (ms : List Member) : ∀ offset,
    (p.directory offset ms).length = (ms.map fun m => centralFormat.sum + m.nameBytes.length).sum := by
  induction ms with
  | nil => intro offset; rfl
  | cons m ms ih =>
    intro offset
    rw [directory, List.length_append, ih, length_centralRecord, List.map_cons, List.sum_cons]

/-- **An archive's length** is that of its members' headers, names and data. -/
theorem length_archive (ms : List Member) : (p.archive ms).length = endFormat.sum +
    (ms.map fun m => centralFormat.sum + localFormat.sum + 2 * m.nameBytes.length + m.data.length).sum := by
  have hsum : (ms.map Member.extent).sum + (ms.map fun m => centralFormat.sum + m.nameBytes.length).sum =
      (ms.map fun m =>
        centralFormat.sum + localFormat.sum + 2 * m.nameBytes.length + m.data.length).sum := by
    induction ms with
    | nil => rfl
    | cons m ms ih =>
      simp only [List.map_cons, List.sum_cons, Member.extent] at ih ⊢
      omega
  rw [archive, List.length_append, List.length_append, length_locals, length_directory,
    length_endRecord, ← hsum]
  omega

theorem length_parts (ms : List Member) : (p.archive ms).length =
    (p.locals ms).length + (p.directory 0 ms).length + endFormat.sum := by
  rw [archive, List.length_append, List.length_append, length_endRecord]

/-- An archive from its directory on. -/
theorem drop_locals (ms : List Member) : (p.archive ms).drop (p.locals ms).length =
    p.directory 0 ms ++ endRecord ms.length (p.directory 0 ms).length (p.locals ms).length := by
  rw [archive, List.append_assoc, List.drop_left' rfl]

/-- An archive's last bytes. -/
theorem drop_directory (ms : List Member) :
    (p.archive ms).drop ((p.archive ms).length - endFormat.sum) =
      endRecord ms.length (p.directory 0 ms).length (p.locals ms).length := by
  rw [length_parts, Nat.add_sub_cancel, archive]
  exact List.drop_left' List.length_append

end Profile

end Zip
