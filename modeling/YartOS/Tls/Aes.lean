import Mathlib.Algebra.Group.Basic
import Mathlib.Data.Fin.VecNotation
import YartOS.Lib.Octets

/-! AES-128 as `aes.c` has it, with tables computed from the field, and the proof that decryption undoes
encryption: of a block, and of blocks in CBC mode. -/
namespace YartOS.Aes

open List Octets Function

/-! The field. -/

/-- `a` times x, modulo the polynomial. -/
def double (a : UInt8) : UInt8 := if a &&& 0x80 = 0 then a <<< 1 else a <<< 1 ^^^ 0x1B

/-- The rounds of `gf_mul` that are left. -/
def gfLoop : Nat → UInt8 → UInt8 → UInt8 → UInt8
  | 0, _, _, r => r
  | n + 1, a, b, r => gfLoop n (double a) (b >>> 1) (if b &&& 1 = 0 then r else r ^^^ a)

def gfMul (a b : UInt8) : UInt8 := gfLoop 8 a b 0

def gfInv (x : UInt8) : UInt8 := (gfMul · x)^[254] 1

lemma forall_byte {p : UInt8 → Prop} (h : ∀ n < 256, p (UInt8.ofNat n)) (x : UInt8) : p x := by
  rw [← UInt8.ofNat_toNat (x := x)]
  exact h x.toNat x.toNat_lt

lemma xor_left_comm (a b c : UInt8) : a ^^^ (b ^^^ c) = b ^^^ (a ^^^ c) := by
  rw [← UInt8.xor_assoc, UInt8.xor_comm a b, UInt8.xor_assoc]

lemma xor_and (a b c : UInt8) : (a ^^^ b) &&& c = (a &&& c) ^^^ (b &&& c) := by
  refine UInt8.toBitVec_inj.mp ?_
  simp only [UInt8.toBitVec_and, UInt8.toBitVec_xor]
  ext i hi
  simp [Bool.and_xor_distrib_right]

/-- A bit is there or not. -/
lemma and_power : ∀ x : UInt8, ∀ k < 8,
    x &&& 1 <<< UInt8.ofNat k = 0 ∨ x &&& 1 <<< UInt8.ofNat k = 1 <<< UInt8.ofNat k :=
  forall_byte (by decide +kernel)

/-- A function that adds: bits go to sums of what they go to. -/
def Linear (f : UInt8 → UInt8) : Prop := ∀ a b, f (a ^^^ b) = f a ^^^ f b

lemma double_linear : Linear double := by
  intro a b
  have hTop (a : UInt8) : a &&& 0x80 = 0 ∨ a &&& 0x80 = 0x80 := and_power a 7 (by omega)
  unfold double
  rw [UInt8.shiftLeft_xor, xor_and]
  rcases hTop a with ha | ha <;> rcases hTop b with hb | hb
  all_goals rw [ha, hb]
  all_goals simp [UInt8.xor_assoc, UInt8.xor_comm, xor_left_comm]

lemma gfLoop_xor_left (n : Nat) (a a' b r r' : UInt8) :
    gfLoop n (a ^^^ a') b (r ^^^ r') = gfLoop n a b r ^^^ gfLoop n a' b r' := by
  induction n generalizing a a' b r r' with
  | zero => rfl
  | succ n ih =>
    unfold gfLoop
    rw [double_linear, ← ih]
    split
    · rfl
    · simp only [UInt8.xor_assoc, xor_left_comm a]

lemma gfLoop_xor_right (n : Nat) (a b b' r r' : UInt8) :
    gfLoop n a (b ^^^ b') (r ^^^ r') = gfLoop n a b r ^^^ gfLoop n a b' r' := by
  have hLow (b : UInt8) : b &&& 1 = 0 ∨ b &&& 1 = 1 := and_power b 0 (by omega)
  have hTwice : a ^^^ (a ^^^ (r ^^^ r')) = r ^^^ r' := by rw [← UInt8.xor_assoc, UInt8.xor_self, UInt8.zero_xor]
  induction n generalizing a b b' r r' with
  | zero => rfl
  | succ n ih =>
    unfold gfLoop
    rw [UInt8.shiftRight_xor, xor_and, ← ih]
    · rcases hLow b with hb | hb <;> rcases hLow b' with hb' | hb'
      all_goals rw [hb, hb']
      all_goals simp [UInt8.xor_comm, xor_left_comm, hTwice]
    · rw [← UInt8.xor_assoc, UInt8.xor_self, UInt8.zero_xor]

lemma gfMul_linear_left (b : UInt8) : Linear (gfMul · b) := by
  intro a a'
  have h := gfLoop_xor_left 8 a a' b 0 0
  rwa [UInt8.xor_self] at h

lemma gfMul_linear_right (a : UInt8) : Linear (gfMul a) := by
  intro b b'
  have h := gfLoop_xor_right 8 a b b' 0 0
  rwa [UInt8.xor_self] at h

lemma Linear.comp {f g : UInt8 → UInt8} (hf : Linear f) (hg : Linear g) : Linear fun x => f (g x) :=
  fun a b => (congrArg f (hg a b)).trans (hf _ _)

lemma Linear.iterate {f : UInt8 → UInt8} (hf : Linear f) (n : Nat) : Linear f^[n] := by
  induction n with
  | zero => exact fun _ _ => rfl
  | succ n ih => exact ih.comp hf

lemma Linear.zero {f : UInt8 → UInt8} (hf : Linear f) : f 0 = 0 := by
  have h := hf 0 0
  rwa [UInt8.xor_self, UInt8.xor_self] at h

/-- Linear functions agree if they do on the powers of two. -/
lemma Linear.ext {f g : UInt8 → UInt8} (hf : Linear f) (hg : Linear g)
    (powers : ∀ k < 8, f (1 <<< UInt8.ofNat k) = g (1 <<< UInt8.ofNat k)) : f = g := by
  funext x
  have hSum : ∀ x : UInt8, (range 8).foldl (fun a k => a ^^^ (x &&& 1 <<< UInt8.ofNat k)) 0 = x :=
    forall_byte (by decide +kernel)
  have hBits (n : Nat) (hn : n ≤ 8) : f ((range n).foldl (fun a k => a ^^^ (x &&& 1 <<< UInt8.ofNat k)) 0) =
      g ((range n).foldl (fun a k => a ^^^ (x &&& 1 <<< UInt8.ofNat k)) 0) := by
    induction n with
    | zero => exact hf.zero.trans hg.zero.symm
    | succ n ih =>
      rw [range_succ, foldl_append, foldl_cons, foldl_nil, hf, hg, ih (by omega)]
      rcases and_power x n (by omega) with hk | hk <;> rw [hk]
      · rw [hf.zero, hg.zero]
      · rw [powers n (by omega)]
  rw [← hSum x]
  exact hBits 8 le_rfl

/-- One multiplies by a power of two by doubling. -/
lemma gfMul_power {k : Nat} (hk : k < 8) (x : UInt8) : gfMul x (1 <<< UInt8.ofNat k) = double^[k] x := by
  have hPowers : ∀ k < 8, ∀ j < 8, gfMul (1 <<< UInt8.ofNat j) (1 <<< UInt8.ofNat k) =
      double^[k] (1 <<< UInt8.ofNat j) := by decide +kernel
  exact congrFun (Linear.ext (gfMul_linear_left _) (double_linear.iterate k) (hPowers k hk)) x

lemma gfMul_one (a : UInt8) : gfMul a 1 = a := gfMul_power (by decide : 0 < 8) a

lemma gfMul_comm (a b : UInt8) : gfMul a b = gfMul b a := by
  have hPowers : ∀ j < 8, (1 : UInt8) <<< UInt8.ofNat j = double^[j] 1 := by decide
  refine congrFun (Linear.ext (gfMul_linear_left b) (gfMul_linear_right b) fun j hj => ?_) a
  refine congrFun (Linear.ext (gfMul_linear_right _) (gfMul_linear_left _) fun k hk => ?_) b
  rw [gfMul_power hk, gfMul_power hj, hPowers j hj, hPowers k hk, ← iterate_add_apply, Nat.add_comm,
    iterate_add_apply]

lemma gfMul_double (a b : UInt8) : gfMul a (double b) = double (gfMul a b) := by
  rw [gfMul_comm, gfMul_comm a]
  refine congrFun (Linear.ext (gfMul_linear_right _) (double_linear.comp (gfMul_linear_right b)) fun k hk => ?_) a
  rw [gfMul_power hk, gfMul_power hk, ← iterate_succ_apply, iterate_succ_apply']

lemma gfMul_assoc (a b c : UInt8) : gfMul (gfMul a b) c = gfMul a (gfMul b c) := by
  refine congrFun (Linear.ext (gfMul_linear_right _) ((gfMul_linear_right a).comp (gfMul_linear_right b))
    fun k hk => ?_) c
  rw [gfMul_power hk, gfMul_power hk]
  exact (Semiconj.iterate_right (gfMul_double a) k b).symm

/-- Bytes with the multiplication of the field. -/
def Gf : Type := UInt8

instance : CommMonoid Gf where
  mul := gfMul
  one := (1 : UInt8)
  mul_assoc := gfMul_assoc
  mul_comm := gfMul_comm
  mul_one := gfMul_one
  one_mul a := (gfMul_comm 1 a).trans (gfMul_one a)

lemma gfInv_eq (x : Gf) : gfInv x = x ^ 254 := mul_right_iterate_apply_one x

/-- Squaring is linear, so that it is enough to look at eight bytes. -/
lemma pow_256 (x : Gf) : x ^ 256 = x := by
  have hSquare : Linear fun x => gfMul x x := by
    intro a b
    have h := gfMul_linear_left (a ^^^ b) a b
    dsimp only at h ⊢
    rw [h, gfMul_linear_right, gfMul_linear_right, gfMul_comm b a, UInt8.xor_assoc, ← UInt8.xor_assoc (gfMul a b),
      UInt8.xor_self, UInt8.zero_xor]
  have hPow (n : Nat) : (fun x : Gf => x * x)^[n] x = x ^ 2 ^ n := by
    induction n with
    | zero => exact (pow_one x).symm
    | succ n ih => rw [iterate_succ_apply', ih, ← pow_add, pow_succ, Nat.mul_two]
  refine (hPow 8).symm.trans ?_
  exact congrFun (Linear.ext (hSquare.iterate 8) (fun _ _ => rfl) (by decide +kernel) : _ = fun x : UInt8 => x) x

lemma pow_pow_254 (x : Gf) : (x ^ 254) ^ 254 = x := by
  have hStep (n : Nat) : x ^ (255 * n + 1) = x := by
    induction n with
    | zero => exact pow_one x
    | succ n ih => rw [show 255 * (n + 1) + 1 = 255 * n + 256 by omega, pow_add, pow_256, ← pow_succ, ih]
  rw [← pow_mul]
  exact hStep 253

lemma gfInv_gfInv (x : UInt8) : gfInv (gfInv x) = x :=
  (gfInv_eq (gfInv x)).trans ((congrArg (fun y : Gf => y ^ 254) (gfInv_eq x)).trans (pow_pow_254 x))

/-! The tables. -/

def bit (x : UInt8) (b : Nat) : UInt8 := x >>> UInt8.ofNat (b % 8) &&& 1

def affine (inv : UInt8) : UInt8 :=
  (range 8).foldl (fun s b => s ||| (bit inv b ^^^ bit inv (b + 4) ^^^ bit inv (b + 5) ^^^ bit inv (b + 6) ^^^
    bit inv (b + 7) ^^^ bit 0x63 b) <<< UInt8.ofNat b) 0

/-- An entry of `g_sbox`. -/
def sbox (i : UInt8) : UInt8 := affine (if i = 0 then 0 else gfInv i)

/-- What `aes_build_tables` has written to `g_isbox`. -/
def isbox : UInt8 → UInt8 :=
  (range 256).foldl (fun table i => update table (sbox (UInt8.ofNat i)) (UInt8.ofNat i)) fun _ => 0

/-- The affine transform of the inverse cipher, which the code does not need: turned by 1, 3 and 6. -/
def unaffine (s : UInt8) : UInt8 :=
  (s <<< 1 ||| s >>> 7) ^^^ (s <<< 3 ||| s >>> 5) ^^^ (s <<< 6 ||| s >>> 2) ^^^ 0x05

lemma sbox_injective : Injective sbox := by
  have hAffine : ∀ x : UInt8, unaffine (affine x) = x := forall_byte (by decide +kernel)
  have hEntry (x : UInt8) : sbox x = affine (gfInv x) := by
    unfold sbox
    split
    · rename_i hx
      have hZero : gfInv 0 = 0 := by
        rw [gfInv, iterate_succ_apply']
        exact (gfMul_linear_right _).zero
      rw [hx, hZero]
    · rfl
  intro x y same
  rw [hEntry, hEntry] at same
  have hInv := congrArg unaffine same
  rw [hAffine, hAffine] at hInv
  rw [← gfInv_gfInv x, hInv, gfInv_gfInv]

lemma isbox_sbox (x : UInt8) : isbox (sbox x) = x := by
  have hTable (n : Nat) (hn : x.toNat < n) (small : n ≤ 256) : (range n).foldl (fun table i =>
      update table (sbox (UInt8.ofNat i)) (UInt8.ofNat i)) (fun _ => (0 : UInt8)) (sbox x) = x := by
    induction n with
    | zero => cases hn
    | succ n ih =>
      rw [range_succ, foldl_append, foldl_cons, foldl_nil]
      rcases Nat.lt_or_eq_of_le (Nat.le_of_lt_succ hn) with hLess | rfl
      · have hOther : x ≠ UInt8.ofNat n := fun h => by
          have hn := congrArg UInt8.toNat h
          rw [UInt8.toNat_ofNat'] at hn
          omega
        rw [update_of_ne fun h => hOther (sbox_injective h), ih hLess (by omega)]
      · rw [UInt8.ofNat_toNat, update_self]
  exact hTable 256 x.toNat_lt (by decide)

/-! Blocks. -/

def byte (s : Octets 16) (i : Fin 16) : UInt8 := s.val.get ⟨i, by rw [s.2]; exact i.2⟩

def block (f : Fin 16 → UInt8) : Octets 16 := ⟨ofFn f, length_ofFn⟩

@[simp] lemma byte_block (f : Fin 16 → UInt8) (i : Fin 16) : byte (block f) i = f i := List.getElem_ofFn _

lemma eq_of_byte {s t : Octets 16} (h : ∀ i, byte s i = byte t i) : s = t := by
  refine Subtype.ext (ext_getElem (s.2.trans t.2.symm) fun i hi _ => ?_)
  exact h ⟨i, by rw [s.2] at hi; exact hi⟩

/-- The round key at `off`. -/
def addRoundKey (rk : List UInt8) (off : Nat) (s : Octets 16) : Octets 16 :=
  block fun i => byte s i ^^^ rk.getD (off + i) 0

def subBytes (s : Octets 16) : Octets 16 := block fun i => sbox (byte s i)

def invSubBytes (s : Octets 16) : Octets 16 := block fun i => isbox (byte s i)

/-- The rows turn left, by their number. -/
def shiftRows (s : Octets 16) : Octets 16 :=
  block (byte s ∘ ![0, 5, 10, 15, 4, 9, 14, 3, 8, 13, 2, 7, 12, 1, 6, 11])

def invShiftRows (s : Octets 16) : Octets 16 :=
  block (byte s ∘ ![0, 13, 10, 7, 4, 1, 14, 11, 8, 5, 2, 15, 12, 9, 6, 3])

def mix (a b c d : UInt8) : UInt8 := gfMul a 2 ^^^ gfMul b 3 ^^^ c ^^^ d

def invMix (a b c d : UInt8) : UInt8 := gfMul a 14 ^^^ gfMul b 11 ^^^ gfMul c 13 ^^^ gfMul d 9

/-- The byte below in the same column; the first comes after the last. -/
def below : Fin 16 → Fin 16 := ![1, 2, 3, 0, 5, 6, 7, 4, 9, 10, 11, 8, 13, 14, 15, 12]

/-- A byte of each column is made from it and the three below. -/
def columns (f : UInt8 → UInt8 → UInt8 → UInt8 → UInt8) (s : Octets 16) : Octets 16 :=
  block fun i => f (byte s i) (byte s (below i)) (byte s (below (below i))) (byte s (below (below (below i))))

def mixColumns (s : Octets 16) : Octets 16 := columns mix s

def invMixColumns (s : Octets 16) : Octets 16 := columns invMix s

/-- A round that is not the last. -/
def round (rk : List UInt8) (s : Octets 16) (r : Nat) : Octets 16 :=
  addRoundKey rk (r * 16) (mixColumns (shiftRows (subBytes s)))

def invRound (rk : List UInt8) (s : Octets 16) (r : Nat) : Octets 16 :=
  invMixColumns (addRoundKey rk (r * 16) (invSubBytes (invShiftRows s)))

def aes128EncryptBlock (rk : List UInt8) (input : Octets 16) : Octets 16 :=
  addRoundKey rk 160 (shiftRows (subBytes ((range' 1 9).foldl (round rk) (addRoundKey rk 0 input))))

def aes128DecryptBlock (rk : List UInt8) (input : Octets 16) : Octets 16 :=
  addRoundKey rk 0 (invSubBytes (invShiftRows ((range' 1 9).reverse.foldl (invRound rk) (addRoundKey rk 160 input))))

lemma addRoundKey_addRoundKey (rk : List UInt8) (off : Nat) (s : Octets 16) :
    addRoundKey rk off (addRoundKey rk off s) = s := by
  refine eq_of_byte fun i => ?_
  simp only [addRoundKey, byte_block]
  rw [UInt8.xor_assoc, UInt8.xor_self, UInt8.xor_zero]

/-- The coefficients of the other bytes cancel. -/
lemma invMix_mix (a b c d : UInt8) : invMix (mix a b c d) (mix b c d a) (mix c d a b) (mix d a b c) = a := by
  have hPlus (a b c : UInt8) : gfMul a b ^^^ gfMul a c = gfMul a (b ^^^ c) := (gfMul_linear_right a b c).symm
  have hNone (a : UInt8) : gfMul a 0 = 0 := (gfMul_linear_right a).zero
  have hFirst (a : UInt8) : gfMul (gfMul a 2) 14 ^^^ gfMul a 11 ^^^ gfMul a 13 ^^^ gfMul (gfMul a 3) 9 = a := by
    simp only [gfMul_assoc, hPlus]
    exact gfMul_one a
  have hSecond (b : UInt8) : gfMul (gfMul b 3) 14 ^^^ gfMul (gfMul b 2) 11 ^^^ gfMul b 13 ^^^ gfMul b 9 = 0 := by
    simp only [gfMul_assoc, hPlus]
    exact hNone b
  have hThird (c : UInt8) : gfMul c 14 ^^^ gfMul (gfMul c 3) 11 ^^^ gfMul (gfMul c 2) 13 ^^^ gfMul c 9 = 0 := by
    simp only [gfMul_assoc, hPlus]
    exact hNone c
  have hFourth (d : UInt8) : gfMul d 14 ^^^ gfMul d 11 ^^^ gfMul (gfMul d 3) 13 ^^^ gfMul (gfMul d 2) 9 = 0 := by
    simp only [gfMul_assoc, hPlus]
    exact hNone d
  have hXor (a b c : UInt8) : gfMul (a ^^^ b) c = gfMul a c ^^^ gfMul b c := gfMul_linear_left c a b
  have hSum : invMix (mix a b c d) (mix b c d a) (mix c d a b) (mix d a b c) =
      (gfMul (gfMul a 2) 14 ^^^ gfMul a 11 ^^^ gfMul a 13 ^^^ gfMul (gfMul a 3) 9) ^^^
      (gfMul (gfMul b 3) 14 ^^^ gfMul (gfMul b 2) 11 ^^^ gfMul b 13 ^^^ gfMul b 9) ^^^
      (gfMul c 14 ^^^ gfMul (gfMul c 3) 11 ^^^ gfMul (gfMul c 2) 13 ^^^ gfMul c 9) ^^^
      (gfMul d 14 ^^^ gfMul d 11 ^^^ gfMul (gfMul d 3) 13 ^^^ gfMul (gfMul d 2) 9) := by
    simp only [invMix, mix, hXor]
    ac_rfl
  rw [hSum, hFirst, hSecond, hThird, hFourth, UInt8.xor_zero, UInt8.xor_zero, UInt8.xor_zero]

lemma invMixColumns_mixColumns (s : Octets 16) : invMixColumns (mixColumns s) = s := by
  have hTurn : ∀ i, below (below (below (below i))) = i := by decide
  refine eq_of_byte fun i => ?_
  simp only [invMixColumns, mixColumns, columns, byte_block, hTurn]
  exact invMix_mix _ _ _ _

lemma invSubBytes_invShiftRows (s : Octets 16) : invSubBytes (invShiftRows (shiftRows (subBytes s))) = s := by
  have hTurn : ∀ i, (![0, 5, 10, 15, 4, 9, 14, 3, 8, 13, 2, 7, 12, 1, 6, 11] : Fin 16 → Fin 16)
      ((![0, 13, 10, 7, 4, 1, 14, 11, 8, 5, 2, 15, 12, 9, 6, 3] : Fin 16 → Fin 16) i) = i := by decide
  refine eq_of_byte fun i => ?_
  simp only [invSubBytes, invShiftRows, shiftRows, subBytes, byte_block, comp_apply, hTurn]
  exact isbox_sbox _

lemma invRound_round (rk : List UInt8) (s : Octets 16) (r : Nat) :
    invRound rk (shiftRows (subBytes (round rk s r))) r = shiftRows (subBytes s) := by
  rw [invRound, invSubBytes_invShiftRows, round, addRoundKey_addRoundKey, invMixColumns_mixColumns]

/-- Rounds made backwards undo the rounds. -/
lemma foldl_invRound (rk : List UInt8) (rounds : List Nat) (s : Octets 16) :
    rounds.reverse.foldl (invRound rk) (shiftRows (subBytes (rounds.foldl (round rk) s))) = shiftRows (subBytes s) := by
  induction rounds generalizing s with
  | nil => rfl
  | cons r rounds ih => rw [foldl_cons, reverse_cons, foldl_append, ih, foldl_cons, foldl_nil, invRound_round]

lemma decryptBlock_encryptBlock (rk : List UInt8) (input : Octets 16) :
    aes128DecryptBlock rk (aes128EncryptBlock rk input) = input := by
  rw [aes128DecryptBlock, aes128EncryptBlock, addRoundKey_addRoundKey, foldl_invRound, invSubBytes_invShiftRows,
    addRoundKey_addRoundKey]

/-! Round keys. -/

/-- The next four words; the last word is turned, substituted and marked with the constant of the round. -/
def nextRoundKey (rcon : UInt8) (k : Octets 16) : Octets 16 :=
  let t := ![sbox (byte k 13) ^^^ rcon, sbox (byte k 14), sbox (byte k 15), sbox (byte k 12)]
  let w0 := fun j : Fin 4 => byte k ⟨j, by omega⟩ ^^^ t j
  let w1 := fun j : Fin 4 => byte k ⟨4 + j, by omega⟩ ^^^ w0 j
  let w2 := fun j : Fin 4 => byte k ⟨8 + j, by omega⟩ ^^^ w1 j
  let w3 := fun j : Fin 4 => byte k ⟨12 + j, by omega⟩ ^^^ w2 j
  ⟨ofFn w0 ++ ofFn w1 ++ ofFn w2 ++ ofFn w3, by simp⟩

/-- A round key and those after it. -/
def expand : Nat → UInt8 → Octets 16 → List UInt8
  | 0, _, k => k.val
  | n + 1, rcon, k => k.val ++ expand n (gfMul rcon 2) (nextRoundKey rcon k)

def aes128Keyexpand (key : List UInt8) : List UInt8 := expand 10 1 (field key 0 16)

/-! CBC mode. -/

def chain (encrypt : Octets 16 → Octets 16) : Octets 16 → List (Octets 16) → List (Octets 16)
  | _, [] => []
  | iv, b :: bs => encrypt (b.xor iv) :: chain encrypt (encrypt (b.xor iv)) bs

def unchain (decrypt : Octets 16 → Octets 16) : Octets 16 → List (Octets 16) → List (Octets 16)
  | _, [] => []
  | prev, c :: cs => (decrypt c).xor prev :: unchain decrypt c cs

/-- Both modes work on the bytes in place. -/
def inPlace (loop : Octets 16 → List (Octets 16) → List (Octets 16)) (iv data : List UInt8) : List UInt8 :=
  (join (loop (field iv 0 16) (blocks data))).take data.length

def aes128CbcEncrypt (rk iv data : List UInt8) : List UInt8 := inPlace (chain (aes128EncryptBlock rk)) iv data

def aes128CbcDecrypt (rk iv data : List UInt8) : List UInt8 := inPlace (unchain (aes128DecryptBlock rk)) iv data

variable {encrypt decrypt : Octets 16 → Octets 16} {bs : List (Octets 16)} {prev : Octets 16} {rk iv data : List UInt8}

lemma chain_length : (chain encrypt prev bs).length = bs.length := by
  induction bs generalizing prev with
  | nil => rfl
  | cons b bs ih => exact congrArg (· + 1) ih

lemma unchain_chain (inverse : ∀ b, decrypt (encrypt b) = b) : unchain decrypt prev (chain encrypt prev bs) = bs := by
  induction bs generalizing prev with
  | nil => rfl
  | cons b bs ih => rw [chain, unchain, inverse, xor_xor, ih]

@[simp] lemma cbcEncrypt_length : (aes128CbcEncrypt rk iv data).length = data.length := by
  rw [aes128CbcEncrypt, inPlace, length_take, length_join, chain_length, blocks_length]
  omega

lemma cbcDecrypt_cbcEncrypt (whole : data.length % 16 = 0) :
    aes128CbcDecrypt rk iv (aes128CbcEncrypt rk iv data) = data := by
  have hWhole : join (blocks data) = data := join_fields (by omega)
  have hCut : aes128CbcEncrypt rk iv data = join (chain (aes128EncryptBlock rk) (field iv 0 16) (blocks data)) := by
    refine take_of_length_le ?_
    rw [length_join, chain_length, blocks_length]
    omega
  rw [hCut, aes128CbcDecrypt, inPlace, blocks_join, unchain_chain (decryptBlock_encryptBlock rk), hWhole]
  refine take_of_length_le ?_
  rw [length_join, chain_length, blocks_length]
  omega

end YartOS.Aes
