import EvidenceBraid.Errors
import EvidenceBraid.Library.JsonSize
import EvidenceBraid.Library.Sha256

/-!
# Digests

Nothing depends on which hash function it is: `Hashing D` is a type of digests with the text and
the bytes that the code reads and writes, and an arbitrary function `sha256` into it.

* `HexDigest` — the digests the package really uses: SHA-256 in 64 lowercase hexadecimal digits.
* `Preimage` — digests that are their own preimages, so that the hash is injective; the
  injectivity that the soundness results assume is consistent.
-/

namespace EvidenceBraid

/-- `hashlib.sha256` and the text form of its digests. -/
class Hashing (D : Type) where
  sha256 : Bytes → D
  /-- `hexdigest()`. -/
  hex : D → String
  /-- The digest with this text, if it is one. -/
  ofHex? : String → Option D
  /-- `bytes.fromhex`. -/
  fromhex : D → Bytes
  ofHex?_hex : ∀ d, ofHex? (hex d) = some d
  hex_of_ofHex? : ∀ {s d}, ofHex? s = some d → hex d = s
  fromhex_append : ∀ {a b c d}, fromhex a ++ fromhex b = fromhex c ++ fromhex d → a = c ∧ b = d

attribute [simp] Hashing.ofHex?_hex

namespace Hashing

variable {D : Type} [Hashing D]

theorem hex_injective : Function.Injective (hex : D → String) := by
  intro a b h
  have hread := congrArg (ofHex? (D := D)) h
  simpa using hread

@[simp] theorem hex_inj {a b : D} : hex a = hex b ↔ a = b := hex_injective.eq_iff

end Hashing

open Hashing

variable {D : Type} [Hashing D]

/-- `_hash`: a JSON string that is the text of a digest. -/
def readHash (value : String) (path : String) : Result D :=
  orError (ofHex? value) (.validation (path ++ " must be a lowercase SHA-256 digest"))

@[simp] theorem readHash_hex (d : D) (path : String) : readHash (hex d) path = .ok d := by
  simp [readHash]

theorem hex_of_readHash {s path : String} {d : D} (h : readHash s path = .ok d) : hex d = s :=
  hex_of_ofHex? (orError_eq_ok.mp h)

/-! ## Hexadecimal digests -/

/-- The value of a lowercase hexadecimal digit. -/
def hexDigit? (c : Char) : Option ℕ :=
  if '0' ≤ c ∧ c ≤ '9' then some (c.toNat - 48)
  else if 'a' ≤ c ∧ c ≤ 'f' then some (c.toNat - 87)
  else none

theorem hexDigit?_lt {c : Char} {n : ℕ} (h : hexDigit? c = some n) : n < 16 := by
  unfold hexDigit? at h
  split_ifs at h with h1 h2
  · have hle : c.toNat ≤ 57 := h1.2
    simp only [Option.some.injEq] at h
    omega
  · have hle : c.toNat ≤ 102 := h2.2
    simp only [Option.some.injEq] at h
    omega

theorem hexDigit?_inj {c d : Char} {n : ℕ} (hc : hexDigit? c = some n) (hd : hexDigit? d = some n) :
    c = d := by
  have key : ∀ {e : Char}, hexDigit? e = some n →
      (48 ≤ e.toNat ∧ e.toNat ≤ 57 ∧ e.toNat = n + 48) ∨
        (97 ≤ e.toNat ∧ e.toNat ≤ 102 ∧ e.toNat = n + 87) := by
    intro e he
    unfold hexDigit? at he
    split_ifs at he with h1 h2
    · have hlo : 48 ≤ e.toNat := h1.1
      have hhi : e.toNat ≤ 57 := h1.2
      simp only [Option.some.injEq] at he
      omega
    · have hlo : 97 ≤ e.toNat := h2.1
      have hhi : e.toNat ≤ 102 := h2.2
      simp only [Option.some.injEq] at he
      omega
  have := key hc
  have := key hd
  exact Char.toNat_inj.mp (by omega)

/-- `len(value) == 64` and every character in `0123456789abcdef`. -/
def isHash (value : String) : Bool :=
  value.toList.length = 64 && value.toList.all fun c => (hexDigit? c).isSome

/-- A digest as the package writes it. -/
structure HexDigest where
  text : String
  ok : isHash text = true
  deriving DecidableEq

/-- The bytes that pairs of hexadecimal digits spell. -/
def pairBytes : List Char → Bytes
  | a :: b :: cs =>
    UInt8.ofNat ((hexDigit? a).getD 0 * 16 + (hexDigit? b).getD 0) :: pairBytes cs
  | _ => []

theorem length_pairBytes : ∀ cs : List Char, (pairBytes cs).length = cs.length / 2
  | [] => rfl
  | [_] => by simp [pairBytes]
  | _ :: _ :: cs => by
    simp only [pairBytes, List.length_cons, length_pairBytes cs]
    omega

theorem pairBytes_inj : ∀ {as bs : List Char}, as.length = bs.length → as.length % 2 = 0 →
    (∀ c ∈ as, (hexDigit? c).isSome) → (∀ c ∈ bs, (hexDigit? c).isSome) →
    pairBytes as = pairBytes bs → as = bs
  | [], [], _, _, _, _, _ => rfl
  | [_], _, _, heven, _, _, _ => by simp at heven
  | a :: b :: as, [_], hlen, _, _, _, _ => by simp at hlen
  | a :: b :: as, c :: d :: bs, hlen, heven, has, hbs, h => by
    simp only [pairBytes, List.cons.injEq] at h
    obtain ⟨w, hw⟩ := Option.isSome_iff_exists.mp (has a (by simp))
    obtain ⟨x, hx⟩ := Option.isSome_iff_exists.mp (has b (by simp))
    obtain ⟨y, hy⟩ := Option.isSome_iff_exists.mp (hbs c (by simp))
    obtain ⟨z, hz⟩ := Option.isSome_iff_exists.mp (hbs d (by simp))
    have hrest : as = bs := pairBytes_inj (by simpa using hlen) (by simp at heven; omega)
      (fun e he => has e (by simp [he])) (fun e he => hbs e (by simp [he])) h.2
    have hbyte := congrArg UInt8.toNat h.1
    simp only [hw, hx, hy, hz, Option.getD_some, UInt8.toNat_ofNat'] at hbyte
    have := hexDigit?_lt hw
    have := hexDigit?_lt hx
    have := hexDigit?_lt hy
    have := hexDigit?_lt hz
    obtain ⟨hwy, hxz⟩ : w = y ∧ x = z := by omega
    rw [hexDigit?_inj hw (hwy ▸ hy), hexDigit?_inj hx (hxz ▸ hz), hrest]

namespace HexDigest

theorem length_text (d : HexDigest) : d.text.toList.length = 64 := by
  have h := d.ok
  simp only [isHash, Bool.and_eq_true, decide_eq_true_eq] at h
  exact h.1

theorem isSome_hexDigit? (d : HexDigest) : ∀ c ∈ d.text.toList, (hexDigit? c).isSome := by
  have h := d.ok
  simp only [isHash, Bool.and_eq_true, List.all_eq_true] at h
  exact h.2

theorem pairBytes_append {a b c d : HexDigest}
    (h : pairBytes a.text.toList ++ pairBytes b.text.toList =
      pairBytes c.text.toList ++ pairBytes d.text.toList) : a = c ∧ b = d := by
  have hlen : (pairBytes a.text.toList).length = (pairBytes c.text.toList).length := by
    simp only [length_pairBytes, length_text]
  have key : ∀ {x y : HexDigest}, pairBytes x.text.toList = pairBytes y.text.toList → x = y := by
    intro x y hxy
    have htext : x.text.toList = y.text.toList :=
      pairBytes_inj (by rw [x.length_text, y.length_text]) (by rw [x.length_text])
        x.isSome_hexDigit? y.isSome_hexDigit? hxy
    cases x
    cases y
    simpa using String.toList_inj.mp htext
  obtain ⟨hl, hr⟩ := List.append_inj h hlen
  exact ⟨key hl, key hr⟩

/-- `hashlib.sha256(bytes)`. -/
def hash (bytes : Bytes) : HexDigest where
  text := Sha256.hexdigest bytes
  ok := by
    have hdigit : ∀ n < 16, (hexDigit? (Nat.digitChar n)).isSome = true := by decide
    simp only [isHash, Sha256.length_hexdigest, decide_true, Bool.true_and, List.all_eq_true]
    intro c hc
    obtain ⟨n, hn, rfl⟩ := Sha256.mem_hexdigest hc
    exact hdigit n hn

instance : Hashing HexDigest where
  sha256 := hash
  hex := text
  ofHex? s := if h : isHash s = true then some ⟨s, h⟩ else none
  fromhex d := pairBytes d.text.toList
  ofHex?_hex d := by simp [d.ok]
  hex_of_ofHex? h := by
    split_ifs at h
    simp only [Option.some.injEq] at h
    rw [← h]
  fromhex_append h := pairBytes_append h

end HexDigest

/-- The text of a digest is 64 lowercase hexadecimal digits. -/
class WideHex (D : Type) [Hashing D] : Prop where
  isHash_hex : ∀ d : D, isHash (hex d) = true

instance : WideHex HexDigest where
  isHash_hex := HexDigest.ok

theorem length_hex [WideHex D] (d : D) : (hex d).toList.length = 64 := by
  have h := WideHex.isHash_hex d
  simp only [isHash, Bool.and_eq_true, decide_eq_true_eq] at h
  exact h.1

theorem plainText_hex [WideHex D] (d : D) : Json.PlainText (hex d) := by
  have h := WideHex.isHash_hex d
  simp only [isHash, Bool.and_eq_true, List.all_eq_true] at h
  intro c hc
  have hdigit : 48 ≤ c.toNat ∧ c.toNat ≤ 57 ∨ 97 ≤ c.toNat ∧ c.toNat ≤ 102 := by
    have hsome := h.2 c hc
    unfold hexDigit? at hsome
    split_ifs at hsome with h1 h2
    · exact .inl h1
    · exact .inr h2
    · simp at hsome
  refine ⟨by omega, by omega, ?_, ?_⟩
  · rintro rfl
    revert hdigit
    decide
  · rintro rfl
    revert hdigit
    decide

@[simp] theorem quotedSize_hex [WideHex D] (d : D) : Json.quotedSize (hex d) = 66 := by
  rw [Json.quotedSize_plain (plainText_hex d), length_hex]

/-! ## Preimages -/

/-- A digest that is its own preimage. -/
structure Preimage where
  bytes : Bytes
  deriving DecidableEq

namespace Preimage

def hexText (p : Preimage) : String := String.ofList (p.bytes.map fun b => Char.ofNat b.toNat)

def ofText? (s : String) : Option Preimage :=
  if s.toList.all fun c => c.toNat < 256 then
    some ⟨s.toList.map fun c => UInt8.ofNat c.toNat⟩
  else none

/-- A self-delimiting form. -/
def framed : Bytes → Bytes
  | [] => [0]
  | b :: bs => 1 :: b :: framed bs

theorem framed_append : ∀ {as bs xs ys : Bytes},
    framed as ++ xs = framed bs ++ ys → as = bs ∧ xs = ys
  | [], [], _, _, h => by simpa [framed] using h
  | [], _ :: _, _, _, h => by simp [framed] at h
  | _ :: _, [], _, _, h => by simp [framed] at h
  | a :: as, b :: bs, xs, ys, h => by
    simp only [framed, List.cons_append, List.cons.injEq, true_and] at h
    obtain ⟨hrest, hxs⟩ := framed_append h.2
    exact ⟨by rw [h.1, hrest], hxs⟩

theorem toNat_ofNat_byte (b : UInt8) : (Char.ofNat b.toNat).toNat = b.toNat := by
  have hb : b.toNat < 256 := b.toNat_lt
  have hvalid : b.toNat.isValidChar := .inl (by omega)
  rw [Char.ofNat, dif_pos hvalid]
  rfl

instance : Hashing Preimage where
  sha256 := mk
  hex := hexText
  ofHex? := ofText?
  fromhex p := framed p.bytes
  ofHex?_hex p := by
    have hall : (p.bytes.map fun b => Char.ofNat b.toNat).all fun c => c.toNat < 256 := by
      simp only [List.all_map, List.all_eq_true, Function.comp, toNat_ofNat_byte,
        decide_eq_true_eq]
      exact fun b _ => b.toNat_lt
    simp only [ofText?, hexText, String.toList_ofList, hall, if_true, List.map_map]
    congr 2
    refine List.map_id'' (fun b => ?_) p.bytes
    simp [toNat_ofNat_byte]
  hex_of_ofHex? := by
    intro s p h
    unfold ofText? at h
    split_ifs at h with hall
    simp only [Option.some.injEq] at h
    subst h
    simp only [List.all_eq_true, decide_eq_true_eq] at hall
    simp only [hexText, List.map_map]
    rw [List.map_congr_left (g := id), List.map_id, String.ofList_toList]
    intro c hc
    have := hall c hc
    simp only [Function.comp, UInt8.toNat_ofNat', id]
    rw [Nat.mod_eq_of_lt this, Char.ofNat_toNat]
  fromhex_append := by
    intro a b c d h
    obtain ⟨hac, hbd⟩ := framed_append h
    obtain ⟨hbd, -⟩ := @framed_append b.bytes d.bytes [] [] (by simpa using hbd)
    cases a; cases b; cases c; cases d
    simp_all

theorem length_hexText (p : Preimage) : (hex p).toList.length = p.bytes.length := by
  simp [hex, hexText]

theorem sha256_injective : Function.Injective (sha256 : Bytes → Preimage) := by
  intro as bs h
  exact congrArg bytes h

end Preimage

end EvidenceBraid
