import Mathlib

/-!
# SHA-256

A program that hashes is modelled over an arbitrary digest function, the class
`Sha256`: what is proved holds whatever the hash is.  `Sha256.fips` is the hash
of FIPS 180-4 itself, for the concrete runs.  Its words are natural numbers
below `2 ^ 32`, so that the kernel computes it; `fips_eq` is the form in which it
does so in good time.
-/

/-- A 32-byte digest. -/
abbrev Digest := { bytes : List UInt8 // bytes.length = 32 }

class Sha256 where
  digest : List UInt8 → Digest

namespace Sha256

/-! ## FIPS 180-4 -/

/-- `K`, section 4.2.2. -/
def roundConstants : List Nat := [
  0x428a2f98, 0x71374491, 0xb5c0fbcf, 0xe9b5dba5, 0x3956c25b, 0x59f111f1, 0x923f82a4, 0xab1c5ed5,
  0xd807aa98, 0x12835b01, 0x243185be, 0x550c7dc3, 0x72be5d74, 0x80deb1fe, 0x9bdc06a7, 0xc19bf174,
  0xe49b69c1, 0xefbe4786, 0x0fc19dc6, 0x240ca1cc, 0x2de92c6f, 0x4a7484aa, 0x5cb0a9dc, 0x76f988da,
  0x983e5152, 0xa831c66d, 0xb00327c8, 0xbf597fc7, 0xc6e00bf3, 0xd5a79147, 0x06ca6351, 0x14292967,
  0x27b70a85, 0x2e1b2138, 0x4d2c6dfc, 0x53380d13, 0x650a7354, 0x766a0abb, 0x81c2c92e, 0x92722c85,
  0xa2bfe8a1, 0xa81a664b, 0xc24b8b70, 0xc76c51a3, 0xd192e819, 0xd6990624, 0xf40e3585, 0x106aa070,
  0x19a4c116, 0x1e376c08, 0x2748774c, 0x34b0bcb5, 0x391c0cb3, 0x4ed8aa4a, 0x5b9cca4f, 0x682e6ff3,
  0x748f82ee, 0x78a5636f, 0x84c87814, 0x8cc70208, 0x90befffa, 0xa4506ceb, 0xbef9a3f7, 0xc67178f2]

/-- The eight working variables. -/
structure Vars where
  a : Nat
  b : Nat
  c : Nat
  d : Nat
  e : Nat
  f : Nat
  g : Nat
  h : Nat

/-- The initial hash value, section 5.3.3. -/
def initial : Vars :=
  ⟨0x6a09e667, 0xbb67ae85, 0x3c6ef372, 0xa54ff53a, 0x510e527f, 0x9b05688c, 0x1f83d9ab, 0x5be0cd19⟩

def add (x y : Nat) : Nat := (x + y) % 2 ^ 32
def rotr (n x : Nat) : Nat := ((x >>> n) ||| (x <<< (32 - n))) % 2 ^ 32
def bigSigma0 (x : Nat) : Nat := rotr 2 x ^^^ rotr 13 x ^^^ rotr 22 x
def bigSigma1 (x : Nat) : Nat := rotr 6 x ^^^ rotr 11 x ^^^ rotr 25 x
def smallSigma0 (x : Nat) : Nat := rotr 7 x ^^^ rotr 18 x ^^^ (x >>> 3)
def smallSigma1 (x : Nat) : Nat := rotr 17 x ^^^ rotr 19 x ^^^ (x >>> 10)
def ch (x y z : Nat) : Nat := (x &&& y) ^^^ ((2 ^ 32 - 1 - x) &&& z)
def maj (x y z : Nat) : Nat := (x &&& y) ^^^ (x &&& z) ^^^ (y &&& z)

def round (v : Vars) (k w : Nat) : Vars :=
  let t1 := v.h + bigSigma1 v.e + ch v.e v.f v.g + k + w
  let t2 := bigSigma0 v.a + maj v.a v.b v.c
  ⟨add t1 t2, v.a, v.b, v.c, add v.d t1, v.e, v.f, v.g⟩

/-- The next word of the message schedule, from the sixteen before it. -/
def nextWord (w : List Nat) : Nat :=
  (smallSigma1 (w.getD 14 0) + w.getD 9 0 + smallSigma0 (w.getD 1 0) + w.getD 0 0) % 2 ^ 32

def rounds : List Nat → List Nat → Vars → Vars
  | [], _, v => v
  | k :: ks, w, v => rounds ks (w.tail ++ [nextWord w]) (round v k (w.getD 0 0))

def compress (v : Vars) (block : List Nat) : Vars :=
  let r := rounds roundConstants block v
  ⟨add v.a r.a, add v.b r.b, add v.c r.c, add v.d r.d,
    add v.e r.e, add v.f r.f, add v.g r.g, add v.h r.h⟩

/-- `n` big-endian words read from `bytes`. -/
def readWords : Nat → List UInt8 → List Nat
  | 0, _ => []
  | n + 1, bytes =>
    (bytes.take 4).foldl (fun acc b => 256 * acc + b.toNat) 0 :: readWords n (bytes.drop 4)

/-- The `width` big-endian bytes of `n`. -/
def beBytes (width n : Nat) : List UInt8 :=
  (List.range width).map fun i => UInt8.ofNat (n / 256 ^ (width - 1 - i))

@[simp] theorem length_beBytes (width n : Nat) : (beBytes width n).length = width := by
  simp [beBytes]

/-- Padding to a multiple of 64 bytes, section 5.1.1. -/
def pad (message : List UInt8) : List UInt8 :=
  message ++ 0x80 :: (List.replicate ((119 - message.length % 64) % 64) 0 ++
    beBytes 8 (8 * message.length))

def blocks : Nat → List UInt8 → Vars → Vars
  | 0, _, v => v
  | n + 1, bytes, v => blocks n (bytes.drop 64) (compress v (readWords 16 bytes))

def fipsDigest (message : List UInt8) : Digest :=
  let v := blocks ((pad message).length / 64) (pad message) initial
  ⟨[v.a, v.b, v.c, v.d, v.e, v.f, v.g, v.h].flatMap (beBytes 4), by simp⟩

/-- SHA-256 as the standard defines it. -/
@[reducible] def fips : Sha256 := ⟨fipsDigest⟩

set_option maxRecDepth 4000 in
/-- The standard's own test vector, the digest of `abc`. -/
example : (fips.digest [0x61, 0x62, 0x63]).val = [
    0xba, 0x78, 0x16, 0xbf, 0x8f, 0x01, 0xcf, 0xea, 0x41, 0x41, 0x40, 0xde, 0x5d, 0xae, 0x22, 0x23,
    0xb0, 0x03, 0x61, 0xa3, 0x96, 0x17, 0x7a, 0x9c, 0xb4, 0x10, 0xff, 0x61, 0xf2, 0x00, 0x15,
    0xad] := by
  decide +kernel

/-! ## Evaluation

The same digest, computed with numerals only: what a round needs later is evaluated before the round
is over, so that the kernel never carries a term it has not reduced.  -/

/-- `f n`, where the kernel evaluates `n` before it goes on. -/
def evaluated {α : Type} (n : Nat) (f : Nat → α) : α := Nat.rec (f 0) (fun k _ => f k.succ) n

@[simp] theorem evaluated_eq {α : Type} (n : Nat) (f : Nat → α) : evaluated n f = f n := by
  cases n <;> rfl

def evalRotr (m n x : Nat) : Nat := ((x.shiftRight m).lor (x.shiftLeft n)).mod 4294967296

/-- `rounds` with the sixteen words and the eight variables as arguments. -/
def evalRounds (ks : List Nat) : Nat → Nat → Nat → Nat → Nat → Nat → Nat → Nat →
    Nat → Nat → Nat → Nat → Nat → Nat → Nat → Nat → Nat → Nat → Nat → Nat → Nat → Nat → Nat →
    Nat → Vars :=
  List.rec (fun _ _ _ _ _ _ _ _ _ _ _ _ _ _ _ _ a b c d e f g h => ⟨a, b, c, d, e, f, g, h⟩)
    (fun k _ next w0 w1 w2 w3 w4 w5 w6 w7 w8 w9 w10 w11 w12 w13 w14 w15 a b c d e f g h =>
      evaluated
        (Nat.mod
          ((((((evalRotr 17 15 w14).xor (evalRotr 19 13 w14)).xor (w14.shiftRight 10)).add w9).add
        (((evalRotr 7 25 w1).xor (evalRotr 18 14 w1)).xor (w1.shiftRight 3))).add w0) 4294967296)
          fun w =>
      evaluated ((((h.add (((evalRotr 6 26 e).xor (evalRotr 11 21 e)).xor (evalRotr 25 7 e))).add
        ((e.land f).xor ((Nat.sub 4294967295 e).land g))).add k).add w0) fun t1 =>
      evaluated
        (Nat.mod (t1.add ((((evalRotr 2 30 a).xor (evalRotr 13 19 a)).xor (evalRotr 22 10 a)).add
        (((a.land b).xor (a.land c)).xor (b.land c)))) 4294967296) fun a' =>
      evaluated (Nat.mod (d.add t1) 4294967296) fun e' =>
      next w1 w2 w3 w4 w5 w6 w7 w8 w9 w10 w11 w12 w13 w14 w15 w a' a b c e' e f g) ks

theorem evalRounds_eq (ks : List Nat) (w0 w1 w2 w3 w4 w5 w6 w7 w8 w9 w10 w11 w12 w13 w14 w15 : Nat)
    (v : Vars) :
    evalRounds ks w0 w1 w2 w3 w4 w5 w6 w7 w8 w9 w10 w11 w12 w13 w14 w15 v.a v.b v.c v.d v.e v.f
      v.g v.h =
      rounds ks [w0, w1, w2, w3, w4, w5, w6, w7, w8, w9, w10, w11, w12, w13, w14, w15] v := by
  induction ks generalizing w0 w1 w2 w3 w4 w5 w6 w7 w8 w9 w10 w11 w12 w13 w14 w15 v with
  | nil => rfl
  | cons k ks ih =>
    refine Eq.trans ?_ (ih w1 w2 w3 w4 w5 w6 w7 w8 w9 w10 w11 w12 w13 w14 w15
      (nextWord [w0, w1, w2, w3, w4, w5, w6, w7, w8, w9, w10, w11, w12, w13, w14, w15])
        (round v k w0))
    simp only [evalRounds, evaluated_eq]
    rfl

def evalWords {α : Type} : Nat → List UInt8 → (List Nat → α) → α
  | 0, _, f => f []
  | n + 1, bytes, f =>
    evaluated ((bytes.take 4).foldl (fun acc b => (Nat.mul 256 acc).add b.toNat) 0) fun w =>
      evalWords n (bytes.drop 4) fun ws => f (w :: ws)

theorem evalWords_eq {α : Type} (n : Nat) (bytes : List UInt8) (f : List Nat → α) :
    evalWords n bytes f = f (readWords n bytes) := by
  induction n generalizing bytes f with
  | zero => rfl
  | succ n ih =>
    simp only [evalWords, evaluated_eq, ih]
    rfl

theorem length_readWords (n : Nat) (bytes : List UInt8) : (readWords n bytes).length = n := by
  induction n generalizing bytes with
  | zero => rfl
  | succ n ih => rw [readWords, List.length_cons, ih]

/-- `compress`, which hands on the eight variables. -/
def evalCompress (w : List Nat) (a b c d e f g h : Nat)
    (next : Nat → Nat → Nat → Nat → Nat → Nat → Nat → Nat → Vars) : Vars :=
  let r := evalRounds roundConstants (w.getD 0 0) (w.getD 1 0) (w.getD 2 0) (w.getD 3 0)
    (w.getD 4 0) (w.getD 5 0)
    (w.getD 6 0) (w.getD 7 0) (w.getD 8 0) (w.getD 9 0) (w.getD 10 0) (w.getD 11 0) (w.getD 12 0)
      (w.getD 13 0)
    (w.getD 14 0) (w.getD 15 0) a b c d e f g h
  evaluated ((a.add r.a).mod 4294967296) fun a => evaluated ((b.add r.b).mod 4294967296) fun b =>
  evaluated ((c.add r.c).mod 4294967296) fun c => evaluated ((d.add r.d).mod 4294967296) fun d =>
  evaluated ((e.add r.e).mod 4294967296) fun e => evaluated ((f.add r.f).mod 4294967296) fun f =>
  evaluated ((g.add r.g).mod 4294967296) fun g => evaluated ((h.add r.h).mod 4294967296) fun h =>
    next a b c d e f g h

theorem mod_add_eq (x y : Nat) : (x.add y).mod 4294967296 = add x y := by
  rw [add, show (2 : Nat) ^ 32 = 4294967296 from rfl]
  rfl

theorem evalCompress_eq {w : List Nat} (hw : w.length = 16) (v : Vars)
    (next : Nat → Nat → Nat → Nat → Nat → Nat → Nat → Nat → Vars) :
    evalCompress w v.a v.b v.c v.d v.e v.f v.g v.h next =
      next (compress v w).a (compress v w).b (compress v w).c (compress v w).d (compress v w).e
        (compress v w).f (compress v w).g (compress v w).h := by
  have hwords : [w.getD 0 0, w.getD 1 0, w.getD 2 0, w.getD 3 0, w.getD 4 0, w.getD 5 0, w.getD 6 0,
      w.getD 7 0, w.getD 8 0, w.getD 9 0, w.getD 10 0, w.getD 11 0, w.getD 12 0, w.getD 13 0,
      w.getD 14 0, w.getD 15 0] = w := by
    apply List.ext_getElem (by simp [hw])
    intro i hi hi'
    simp only [List.length_cons, List.length_nil] at hi
    interval_cases i <;> simp [hw]
  simp only [evalCompress, evaluated_eq, evalRounds_eq, mod_add_eq, hwords, compress]

def evalBlocks (n : Nat) : List UInt8 → Nat → Nat → Nat → Nat → Nat → Nat → Nat → Nat → Vars :=
  Nat.rec (fun _ a b c d e f g h => ⟨a, b, c, d, e, f, g, h⟩)
    (fun _ next bytes a b c d e f g h =>
      evalWords 16 bytes fun w => evalCompress w a b c d e f g h (next (bytes.drop 64))) n

theorem evalBlocks_succ (n : Nat) (bytes : List UInt8) (a b c d e f g h : Nat) :
    evalBlocks (n + 1) bytes a b c d e f g h =
      evalWords 16 bytes fun w => evalCompress w a b c d e f g h (evalBlocks n (bytes.drop 64)) :=
  rfl

theorem evalBlocks_eq (n : Nat) (bytes : List UInt8) (v : Vars) :
    evalBlocks n bytes v.a v.b v.c v.d v.e v.f v.g v.h = blocks n bytes v := by
  induction n generalizing bytes v with
  | zero => rfl
  | succ n ih =>
    -- unfolding both sides would compute the block
    have hblocks :
        blocks (n + 1) bytes v = blocks n (bytes.drop 64) (compress v (readWords 16 bytes)) := by
      delta blocks
      rfl
    rw [evalBlocks_succ, evalWords_eq, hblocks, ← ih, evalCompress_eq (length_readWords 16 bytes)]

def evalBytes (n : Nat) : List UInt8 :=
  [UInt8.ofNat (n.div 16777216), UInt8.ofNat (n.div 65536), UInt8.ofNat (n.div 256), UInt8.ofNat n]

theorem evalBytes_eq (n : Nat) : evalBytes n = beBytes 4 n := by
  have hdiv : ∀ k : Nat, n.div k = n / k := fun _ => rfl
  simp [evalBytes, beBytes, List.range_succ, hdiv]

def evalDigest (message : List UInt8) : Digest :=
  match evalBlocks ((pad message).length / 64) (pad message) initial.a initial.b initial.c initial.d
      initial.e initial.f initial.g initial.h with
  | ⟨a, b, c, d, e, f, g, h⟩ => ⟨[a, b, c, d, e, f, g, h].flatMap evalBytes, by simp [evalBytes]⟩

/-- The digest of a concrete run is computed by rewriting with this. -/
theorem fips_eq : fips = ⟨evalDigest⟩ := by
  have hdigest : fipsDigest = evalDigest := by
    funext message
    apply Subtype.ext
    simp only [fipsDigest, evalDigest, evalBlocks_eq, ← funext evalBytes_eq]
  rw [fips, hdigest]

end Sha256
