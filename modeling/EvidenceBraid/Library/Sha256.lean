import EvidenceBraid.Library.Utf8
import Mathlib.Data.Nat.Basic

/-!
# SHA-256

The hash of a byte string, word by word as the standard defines it. Words are natural numbers
below `2 ^ 32`, so that the kernel can evaluate it.
-/

namespace Sha256

/-- Addition of words. -/
def add (a b : ℕ) : ℕ := (a + b) % 2 ^ 32

def rotr (x n : ℕ) : ℕ := (x >>> n ||| x <<< (32 - n)) % 2 ^ 32

/-- The complement of a word. -/
def compl (x : ℕ) : ℕ := 2 ^ 32 - 1 - x

/-! ## Constants -/

/-- The first 32 bits of the fractional parts of the square roots of the first 8 primes. -/
def initial : List ℕ :=
  [0x6a09e667, 0xbb67ae85, 0x3c6ef372, 0xa54ff53a, 0x510e527f, 0x9b05688c, 0x1f83d9ab, 0x5be0cd19]

/-- The first 32 bits of the fractional parts of the cube roots of the first 64 primes. -/
def constants : List ℕ :=
  [0x428a2f98, 0x71374491, 0xb5c0fbcf, 0xe9b5dba5, 0x3956c25b, 0x59f111f1, 0x923f82a4, 0xab1c5ed5,
   0xd807aa98, 0x12835b01, 0x243185be, 0x550c7dc3, 0x72be5d74, 0x80deb1fe, 0x9bdc06a7, 0xc19bf174,
   0xe49b69c1, 0xefbe4786, 0x0fc19dc6, 0x240ca1cc, 0x2de92c6f, 0x4a7484aa, 0x5cb0a9dc, 0x76f988da,
   0x983e5152, 0xa831c66d, 0xb00327c8, 0xbf597fc7, 0xc6e00bf3, 0xd5a79147, 0x06ca6351, 0x14292967,
   0x27b70a85, 0x2e1b2138, 0x4d2c6dfc, 0x53380d13, 0x650a7354, 0x766a0abb, 0x81c2c92e, 0x92722c85,
   0xa2bfe8a1, 0xa81a664b, 0xc24b8b70, 0xc76c51a3, 0xd192e819, 0xd6990624, 0xf40e3585, 0x106aa070,
   0x19a4c116, 0x1e376c08, 0x2748774c, 0x34b0bcb5, 0x391c0cb3, 0x4ed8aa4a, 0x5b9cca4f, 0x682e6ff3,
   0x748f82ee, 0x78a5636f, 0x84c87814, 0x8cc70208, 0x90befffa, 0xa4506ceb, 0xbef9a3f7, 0xc67178f2]

/-! ## Padding and blocks -/

/-- The 64-bit length of the message in bits, and the zeros before it. -/
def pad (bytes : Bytes) : Bytes :=
  let zeros := (119 - bytes.length % 64) % 64
  bytes ++ 0x80 :: List.replicate zeros 0 ++
    (List.range 8).reverse.map fun i => UInt8.ofNat (8 * bytes.length / 256 ^ i % 256)

/-- Big-endian words. -/
def words : Bytes → List ℕ
  | a :: b :: c :: d :: rest =>
    (((a.toNat * 256 + b.toNat) * 256 + c.toNat) * 256 + d.toNat) :: words rest
  | _ => []

/-- One more word of the schedule, from the last sixteen, latest first. -/
def expand (ws : List ℕ) : List ℕ :=
  let w2 := ws.getD 1 0
  let w15 := ws.getD 14 0
  let s0 := rotr w15 7 ^^^ rotr w15 18 ^^^ (w15 >>> 3)
  let s1 := rotr w2 17 ^^^ rotr w2 19 ^^^ (w2 >>> 10)
  add (add (ws.getD 15 0) s0) (add (ws.getD 6 0) s1) :: ws

/-- The 64 words of a block's schedule. -/
def schedule (block : List ℕ) : List ℕ := (expand^[48] block.reverse).reverse

/-- One round, over the working variables. -/
def round : List ℕ → ℕ × ℕ → List ℕ
  | [a, b, c, d, e, f, g, h], (k, w) =>
    let s1 := rotr e 6 ^^^ rotr e 11 ^^^ rotr e 25
    let choice := (e &&& f) ^^^ (compl e &&& g)
    let t1 := add (add h s1) (add choice (add k w))
    let s0 := rotr a 2 ^^^ rotr a 13 ^^^ rotr a 22
    let majority := (a &&& b) ^^^ (a &&& c) ^^^ (b &&& c)
    [add t1 (add s0 majority), a, b, c, add d t1, e, f, g]
  | state, _ => state

/-- The compression of one block into the state. -/
def compress (state block : List ℕ) : List ℕ :=
  state.zipWith add ((constants.zip (schedule block)).foldl round state)

/-- The state after this many blocks of the padded message. -/
def blocks : ℕ → List ℕ → List ℕ → List ℕ
  | 0, state, _ => state
  | n + 1, state, ws => blocks n (compress state (ws.take 16)) (ws.drop 16)

/-- The eight words of the digest. -/
def digest (bytes : Bytes) : List ℕ :=
  let ws := words (pad bytes)
  blocks (ws.length / 16) initial ws

/-- The eight lowercase hexadecimal digits of a word. -/
def hexWord (w : ℕ) : List Char :=
  (List.range 8).reverse.map fun i => Nat.digitChar (w / 16 ^ i % 16)

/-- The digest in 64 hexadecimal digits. -/
def hexdigest (bytes : Bytes) : String := String.ofList ((digest bytes).flatMap hexWord)

theorem length_round {state : List ℕ} (h : state.length = 8) (kw : ℕ × ℕ) :
    (round state kw).length = 8 := by
  match state, h with
  | [_, _, _, _, _, _, _, _], _ => rfl

theorem length_compress {state : List ℕ} (h : state.length = 8) (block : List ℕ) :
    (compress state block).length = 8 := by
  have hrounds : ∀ (kws : List (ℕ × ℕ)) (s : List ℕ), s.length = 8 →
      (kws.foldl round s).length = 8 := by
    intro kws
    induction kws with
    | nil => exact fun s hs => hs
    | cons kw kws ih => exact fun s hs => ih _ (length_round hs kw)
  rw [compress, List.length_zipWith, h, hrounds _ _ h, Nat.min_self]

theorem length_digest (bytes : Bytes) : (digest bytes).length = 8 := by
  have hblocks : ∀ (n : ℕ) (state ws : List ℕ), state.length = 8 →
      (blocks n state ws).length = 8 := by
    intro n
    induction n with
    | zero => exact fun _ _ h => h
    | succ n ih => exact fun _ _ h => ih _ _ (length_compress h _)
  exact hblocks _ _ _ rfl

theorem length_hexdigest (bytes : Bytes) : (hexdigest bytes).toList.length = 64 := by
  rw [hexdigest, String.toList_ofList, List.length_flatMap,
    List.map_congr_left (g := fun _ => 8) fun w _ => by simp [hexWord], List.map_const',
    length_digest]
  rfl

/-- A digest is spelled with the sixteen hexadecimal digits. -/
theorem mem_hexdigest {bytes : Bytes} {c : Char} (h : c ∈ (hexdigest bytes).toList) :
    ∃ n < 16, c = Nat.digitChar n := by
  rw [hexdigest, String.toList_ofList, List.mem_flatMap] at h
  obtain ⟨w, -, hc⟩ := h
  obtain ⟨i, -, rfl⟩ := List.mem_map.mp hc
  exact ⟨_, Nat.mod_lt _ (by omega), rfl⟩

example : hexdigest (Utf8.encode "abc".toList) =
    "ba7816bf8f01cfea414140de5dae2223b00361a396177a9cb410ff61f20015ad" := by
  decide +kernel

end Sha256
