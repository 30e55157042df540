import Mathlib.Tactic.Ring
import Mathlib.Data.List.Basic

/-! SHA-256 and HMAC-SHA256. Words are numbers below `2 ^ 32`: sums and left shifts are cut to 32
bits. -/
namespace YartOS.Tls

def roundConstants : List Nat :=
  [0x428a2f98, 0x71374491, 0xb5c0fbcf, 0xe9b5dba5, 0x3956c25b, 0x59f111f1, 0x923f82a4, 0xab1c5ed5,
   0xd807aa98, 0x12835b01, 0x243185be, 0x550c7dc3, 0x72be5d74, 0x80deb1fe, 0x9bdc06a7, 0xc19bf174,
   0xe49b69c1, 0xefbe4786, 0x0fc19dc6, 0x240ca1cc, 0x2de92c6f, 0x4a7484aa, 0x5cb0a9dc, 0x76f988da,
   0x983e5152, 0xa831c66d, 0xb00327c8, 0xbf597fc7, 0xc6e00bf3, 0xd5a79147, 0x06ca6351, 0x14292967,
   0x27b70a85, 0x2e1b2138, 0x4d2c6dfc, 0x53380d13, 0x650a7354, 0x766a0abb, 0x81c2c92e, 0x92722c85,
   0xa2bfe8a1, 0xa81a664b, 0xc24b8b70, 0xc76c51a3, 0xd192e819, 0xd6990624, 0xf40e3585, 0x106aa070,
   0x19a4c116, 0x1e376c08, 0x2748774c, 0x34b0bcb5, 0x391c0cb3, 0x4ed8aa4a, 0x5b9cca4f, 0x682e6ff3,
   0x748f82ee, 0x78a5636f, 0x84c87814, 0x8cc70208, 0x90befffa, 0xa4506ceb, 0xbef9a3f7, 0xc67178f2]

def add32 (x y : Nat) : Nat := (x + y) % 2 ^ 32

def rotr (x n : Nat) : Nat := (x >>> n) ||| (x <<< (32 - n)) % 2 ^ 32

def ch (x y z : Nat) : Nat := (x &&& y) ^^^ ((2 ^ 32 - 1 - x) &&& z)

def maj (x y z : Nat) : Nat := (x &&& y) ^^^ (x &&& z) ^^^ (y &&& z)

def ep0 (x : Nat) : Nat := rotr x 2 ^^^ rotr x 13 ^^^ rotr x 22

def ep1 (x : Nat) : Nat := rotr x 6 ^^^ rotr x 11 ^^^ rotr x 25

def sig0 (x : Nat) : Nat := rotr x 7 ^^^ rotr x 18 ^^^ (x >>> 3)

def sig1 (x : Nat) : Nat := rotr x 17 ^^^ rotr x 19 ^^^ (x >>> 10)

structure Digest where
  a : Nat
  b : Nat
  c : Nat
  d : Nat
  e : Nat
  f : Nat
  g : Nat
  h : Nat
deriving DecidableEq, Repr

def bigEndianWords : List UInt8 → List Nat
  | a :: b :: c :: d :: rest =>
    (a.toNat * 2 ^ 24 + b.toNat * 2 ^ 16 + c.toNat * 2 ^ 8 + d.toNat) :: bigEndianWords rest
  | _ => []

/-- The message schedule, newest word first. -/
def extendSchedule : Nat → List Nat → List Nat
  | 0, w => w
  | n + 1, w =>
    extendSchedule n (add32 (add32 (add32 (sig1 (w.getD 1 0)) (w.getD 6 0)) (sig0 (w.getD 14 0))) (w.getD 15 0) :: w)

def compress (s : Digest) (kw : Nat × Nat) : Digest :=
  let t1 := add32 (add32 (add32 (add32 s.h (ep1 s.e)) (ch s.e s.f s.g)) kw.1) kw.2
  let t2 := add32 (ep0 s.a) (maj s.a s.b s.c)
  ⟨add32 t1 t2, s.a, s.b, s.c, add32 s.d t1, s.e, s.f, s.g⟩

def sha256Transform (s : Digest) (data : List UInt8) : Digest :=
  let w := (extendSchedule 48 (bigEndianWords data).reverse).reverse
  let r := (roundConstants.zip w).foldl compress s
  ⟨add32 s.a r.a, add32 s.b r.b, add32 s.c r.c, add32 s.d r.d, add32 s.e r.e, add32 s.f r.f,
    add32 s.g r.g, add32 s.h r.h⟩

/-- `sha256_ctx_t`; `buflen` is the length of `buf`. -/
structure Sha256Ctx where
  state : Digest
  bitlen : Nat
  buf : List UInt8
deriving DecidableEq, Repr

def sha256Init : Sha256Ctx where
  state := ⟨0x6a09e667, 0xbb67ae85, 0x3c6ef372, 0xa54ff53a, 0x510e527f, 0x9b05688c, 0x1f83d9ab, 0x5be0cd19⟩
  bitlen := 0
  buf := []

/-- The copying loop; each round takes a byte, so the data bounds it. -/
def sha256Feed : Nat → Sha256Ctx → List UInt8 → Sha256Ctx
  | 0, c, _ => c
  | rounds + 1, c, data =>
    if data = [] then c
    else
      let take := min (64 - c.buf.length) data.length
      let buf := c.buf ++ data.take take
      let bitlen := (c.bitlen + take * 8) % 2 ^ 64
      sha256Feed rounds (if buf.length = 64 then ⟨sha256Transform c.state buf, bitlen, []⟩
         else ⟨c.state, bitlen, buf⟩)
        (data.drop take)

def sha256Update (c : Sha256Ctx) (data : List UInt8) : Sha256Ctx := sha256Feed data.length c data

def bigEndian (width n : Nat) : List UInt8 :=
  (List.range width).map fun i => UInt8.ofNat (n / 2 ^ (8 * (width - 1 - i)))

@[simp] lemma bigEndian_length (width n : Nat) : (bigEndian width n).length = width := by simp [bigEndian]

/-- The zeros that bring `buflen` bytes, `0x80` included, to 56. -/
def zeroPad (buflen : Nat) : Nat := (56 + 64 - buflen) % 64

def sha256Final (c : Sha256Ctx) : List UInt8 :=
  let padded := sha256Update c [0x80]
  let zeroed := sha256Update padded (List.replicate (zeroPad padded.buf.length) 0)
  let s := (sha256Update zeroed (bigEndian 8 c.bitlen)).state
  bigEndian 4 s.a ++ bigEndian 4 s.b ++ bigEndian 4 s.c ++ bigEndian 4 s.d ++ bigEndian 4 s.e ++
    bigEndian 4 s.f ++ bigEndian 4 s.g ++ bigEndian 4 s.h

@[simp] lemma sha256Final_length (c : Sha256Ctx) : (sha256Final c).length = 32 := by simp [sha256Final]

/-- A key longer than a block is hashed first; a shorter one is padded with zeros. -/
def hmacKey (key : List UInt8) : List UInt8 :=
  let k := if 64 < key.length then sha256Final (sha256Update sha256Init key) else key
  k ++ List.replicate (64 - k.length) 0

def hmacSha256 (key data : List UInt8) : List UInt8 :=
  let inner := sha256Final (sha256Update (sha256Update sha256Init ((hmacKey key).map (· ^^^ 0x36)))
    data)
  sha256Final (sha256Update (sha256Update sha256Init ((hmacKey key).map (· ^^^ 0x5C))) inner)

@[simp] lemma hmacSha256_length (key data : List UInt8) : (hmacSha256 key data).length = 32 := by simp [hmacSha256]

-- No proof about the handshake looks inside the hash; without this, unification would run it.
attribute [irreducible] sha256Update sha256Final hmacSha256

-- The digest of the empty message starts with e3 b0 c4 42.
example : (sha256Final sha256Init).take 4 = [0xe3, 0xb0, 0xc4, 0x42] := by decide +kernel

end YartOS.Tls
