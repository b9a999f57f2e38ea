import CardTransfer.Text.Printable

/-!
# SHA-256

The message, in UTF-8, is padded with the byte 128, zeros, and its length in bits as eight bytes, to
blocks of 64 bytes. Each block is expanded to 64 words and mixed into eight words of state; the
digest is the state after the last block, in hexadecimal digits.
-/

namespace CardTransfer
namespace Text
namespace Sha256

/-- The first 32 bits of the fractions of the cube roots of the first 64 primes. -/
def roundWords : Array UInt32 := #[
  0x428a2f98, 0x71374491, 0xb5c0fbcf, 0xe9b5dba5, 0x3956c25b, 0x59f111f1,
  0x923f82a4, 0xab1c5ed5, 0xd807aa98, 0x12835b01, 0x243185be, 0x550c7dc3,
  0x72be5d74, 0x80deb1fe, 0x9bdc06a7, 0xc19bf174, 0xe49b69c1, 0xefbe4786,
  0x0fc19dc6, 0x240ca1cc, 0x2de92c6f, 0x4a7484aa, 0x5cb0a9dc, 0x76f988da,
  0x983e5152, 0xa831c66d, 0xb00327c8, 0xbf597fc7, 0xc6e00bf3, 0xd5a79147,
  0x06ca6351, 0x14292967, 0x27b70a85, 0x2e1b2138, 0x4d2c6dfc, 0x53380d13,
  0x650a7354, 0x766a0abb, 0x81c2c92e, 0x92722c85, 0xa2bfe8a1, 0xa81a664b,
  0xc24b8b70, 0xc76c51a3, 0xd192e819, 0xd6990624, 0xf40e3585, 0x106aa070,
  0x19a4c116, 0x1e376c08, 0x2748774c, 0x34b0bcb5, 0x391c0cb3, 0x4ed8aa4a,
  0x5b9cca4f, 0x682e6ff3, 0x748f82ee, 0x78a5636f, 0x84c87814, 0x8cc70208,
  0x90befffa, 0xa4506ceb, 0xbef9a3f7, 0xc67178f2]

/-- The first 32 bits of the fractions of the square roots of the first eight primes. -/
def startState : List UInt32 := [
  0x6a09e667, 0xbb67ae85, 0x3c6ef372, 0xa54ff53a,
  0x510e527f, 0x9b05688c, 0x1f83d9ab, 0x5be0cd19]

/-- `x` turned right by `n` bits. -/
def rotate (x : UInt32) (n : UInt32) : UInt32 := x >>> n ||| x <<< (32 - n)

/-- The padded message. -/
def pad (bytes : List UInt8) : List UInt8 :=
  let n := bytes.length
  let zeros := (119 - n % 64) % 64
  let size := (List.range 8).map fun i => UInt8.ofNat (8 * n / Nat.pow 256 (7 - i))
  bytes ++ 128 :: List.replicate zeros 0 ++ size

/-- Padding fills whole blocks. -/
theorem length_pad (bytes : List UInt8) : (pad bytes).length % 64 = 0 := by
  simp only [pad, List.length_append, List.length_cons, List.length_replicate, List.length_map,
    List.length_range]
  omega

/-- Big-endian words of four bytes. -/
def words : List UInt8 → List UInt32
  | a :: b :: c :: d :: rest =>
    (a.toUInt32 <<< 24 ||| b.toUInt32 <<< 16 ||| c.toUInt32 <<< 8 ||| d.toUInt32) :: words rest
  | _ => []

/-- The next word of a schedule. -/
def nextWord (w : Array UInt32) : UInt32 :=
  let n := w.size
  let x := w.getD (n - 15) 0
  let y := w.getD (n - 2) 0
  let low := rotate x 7 ^^^ rotate x 18 ^^^ x >>> 3
  let high := rotate y 17 ^^^ rotate y 19 ^^^ y >>> 10
  w.getD (n - 16) 0 + low + w.getD (n - 7) 0 + high

/-- The 64 words of a block. -/
def schedule (block : List UInt8) : Array UInt32 :=
  (List.range 48).foldl (fun w _ => w.push (nextWord w)) (words block).toArray

/-- One round on the eight words of state. -/
def round (state : List UInt32) (k : UInt32) : List UInt32 :=
  match state with
  | [a, b, c, d, e, f, g, h] =>
    let s1 := rotate e 6 ^^^ rotate e 11 ^^^ rotate e 25
    let choice := (e &&& f) ^^^ (~~~e &&& g)
    let t1 := h + s1 + choice + k
    let s0 := rotate a 2 ^^^ rotate a 13 ^^^ rotate a 22
    let majority := (a &&& b) ^^^ (a &&& c) ^^^ (b &&& c)
    [t1 + (s0 + majority), a, b, c, d + t1, e, f, g]
  | other => other

/-- Mixes a block into the state. -/
def compress (state : List UInt32) (block : List UInt8) : List UInt32 :=
  let w := schedule block
  let mixed := (List.range 64).foldl (fun s i => round s (w.getD i 0 + roundWords.getD i 0)) state
  state.zipWith (· + ·) mixed

/-- The blocks of a padded message. `count` is their number. -/
def blocks : (count : Nat) → List UInt8 → List (List UInt8)
  | 0, _ => []
  | count + 1, bytes => bytes.take 64 :: blocks count (bytes.drop 64)

/-- The digest of bytes. -/
def digestBytes (bytes : List UInt8) : List UInt32 :=
  let padded := pad bytes
  (blocks (padded.length / 64) padded).foldl compress startState

/-- The digest of a text in hexadecimal digits. -/
def digest (s : String) : String :=
  String.ofList ((digestBytes s.toUTF8.toList).flatMap fun w => hex 8 w.toNat)

end Sha256
end Text
end CardTransfer
