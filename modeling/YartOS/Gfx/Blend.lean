import YartOS.Gfx.Draw

/-! The two ways to blend a colour over a row of pixels. -/
namespace YartOS.Gfx

open Loops

variable {c d s sa : UInt32} {p n a k l w : Int} {f : UInt32 → UInt32} {m : Canvas}

def blendRowScalar (p n : Int) (c : UInt32) (m : Canvas) : Canvas :=
  forUpTo 0 n (fun i m => m.update (p + i) 1 (laid mix c)) m

/-! The lanes of a pixel. -/

/-- `packuswb` takes a lane for a signed number. -/
def packuswb (x : UInt16) : UInt8 := if 0x7FFF < x then 0 else if 255 < x then 255 else x.toUInt8

/-- The lane of `d`, with those of `cvec`, `savec`, `iavec` and `a255`. -/
def lane (c sa ia a : UInt16) (d : UInt32) : UInt32 :=
  let y := c * sa + d.toUInt16 * ia + 127
  (packuswb ((y + (y >>> 8) + 1) >>> 8 ||| a)).toUInt32

/-- A pixel of the four that `blend_row_sse2` loads, blends and stores at once. -/
def blendLanes (c d : UInt32) : UInt32 :=
  let mixed := fun s d : UInt32 => lane s.toUInt16 (alpha c).toUInt16 (255 - alpha c).toUInt16 0 d
  argb (lane 0 0 0 255 (alpha d)) (mixed (red c) (red d)) (mixed (green c) (green d)) (mixed (blue c) (blue d))

lemma packuswb_shiftRight (x : UInt16) : (packuswb (x >>> 8 ||| 0)).toUInt32 = (x >>> 8).toUInt32 := by
  have hLt : (x >>> 8).toNat < 256 := by
    have := x.toNat_lt
    simp [Nat.shiftRight_eq_div_pow]
    omega
  rw [UInt16.or_zero, packuswb, if_neg, if_neg]
  · exact UInt32.toNat_inj.mp (Nat.mod_eq_of_lt hLt)
  · exact Nat.not_lt.mpr (Nat.le_of_lt_succ hLt)
  · exact Nat.not_lt.mpr (hLt.le.trans (by decide))

lemma blendLanes_eq (c d : UInt32) : blendLanes c d = laid mixSse2 c d := by
  have hOpaque : lane 0 0 0 255 (alpha d) = 255 := by
    simp only [lane, UInt16.mul_zero]
    decide
  unfold blendLanes
  rw [hOpaque]
  simp only [lane, packuswb_shiftRight]
  rfl

/-- Both sums fit sixteen bits, and `(y + y / 256 + 1) / 256` is `y / 255` up to there. -/
lemma mixSse2_eq (hs : s ≤ 255) (hd : d ≤ 255) (ha : sa ≤ 255) : mixSse2 s d sa = mix s d sa := by
  have hRest : (255 - sa).toNat = 255 - sa.toNat := UInt32.toNat_sub_of_le _ _ ha
  rw [UInt32.le_iff_toNat_le] at hs hd ha
  change _ ≤ 255 at hs hd ha
  have hSource := Nat.mul_le_mul_right sa.toNat hs
  have hUnder := Nat.mul_le_mul_right (255 - sa.toNat) hd
  apply UInt32.toNat_inj.mp
  simp only [mixSse2, mix, UInt16.toNat_toUInt32, UInt16.toNat_shiftRight, UInt16.toNat_add, UInt16.toNat_mul,
    UInt32.toNat_toUInt16, UInt32.toNat_div, UInt32.toNat_add, UInt32.toNat_mul, hRest, Nat.shiftRight_eq_div_pow,
    Nat.mod_mul_mod, Nat.mul_mod_mod, Nat.mod_add_mod, Nat.add_mod_mod, UInt16.toNat_ofNat, UInt32.toNat_ofNat,
    Nat.reducePow, Nat.reduceMod]
  have hFits : s.toNat * sa.toNat + d.toNat * (255 - sa.toNat) + 127 ≤ 65152 := by omega
  generalize s.toNat * sa.toNat + d.toNat * (255 - sa.toNat) + 127 = y at *
  rw [Nat.mod_eq_of_lt (show y < 4294967296 by omega), Nat.mod_eq_of_lt (show y < 65536 by omega)]
  -- the two quotients differ by one iff the remainder is below the quotient
  rcases Nat.lt_or_ge (y % 255) (y / 255) with hLess | hLess
  · have : y / 256 + 1 = y / 255 := by omega
    omega
  · have : y / 256 = y / 255 := by omega
    omega

lemma laid_mixSse2 (c : UInt32) : laid mixSse2 c = laid mix c := by
  have small : ∀ x : UInt32, x &&& 0xFF ≤ 255 := fun _ => UInt32.and_le_right
  funext d
  simp only [laid, red, green, blue, alpha, mixSse2_eq (small _) (small _) (small _)]

lemma laid_solid (h : alpha c = 255) (d : UInt32) : laid mix c d = argb 255 (red c) (green c) (blue c) := by
  have whole : ∀ x d : UInt32, mix (x &&& 0xFF) d 255 = x &&& 0xFF := by
    intro x d
    have hx : (x &&& 0xFF).toNat ≤ 255 := UInt32.le_iff_toNat_le.mp UInt32.and_le_right
    apply UInt32.toNat_inj.mp
    simp only [mix, UInt32.sub_self, UInt32.mul_zero, UInt32.toNat_div, UInt32.toNat_add, UInt32.toNat_mul,
      UInt32.toNat_ofNat, Nat.reducePow, Nat.reduceMod]
    omega
  unfold laid
  rw [h, red, green, blue, whole, whole, whole]
  rfl

lemma update_update (hk : 0 ≤ k) (hl : 0 ≤ l) : (m.update a k f).update (a + k) l f = m.update a (k + l) f := by
  unfold Canvas.update
  congr 1
  funext b
  grind

/-- A loop over groups of `w` cells changes all their cells. -/
lemma forUpTo_update (hw : 0 ≤ w) {lo hi : Int} (h : lo ≤ hi) :
    forUpTo lo hi (fun i m => m.update (a + w * i) w f) m = m.update (a + w * lo) (w * (hi - lo)) f := by
  have rounds_update : ∀ k : Nat, rounds lo (fun i m => m.update (a + w * i) w f) k m =
      m.update (a + w * lo) (w * k) f := by
    intro k
    induction k with
    | zero =>
      unfold Canvas.update
      rw [rounds, funext fun b => if_neg (by omega)]
    | succ k ih =>
      rw [rounds, ih, Int.mul_add, ← Int.add_assoc, update_update (Int.mul_nonneg hw (Int.natCast_nonneg k)) hw,
        Int.natCast_succ, Int.mul_add, Int.mul_one]
  rw [forUpTo, rounds_update, Int.toNat_of_nonneg (by omega)]

lemma blendRow_update (h : k ≤ n) (c : UInt32) (m : Canvas) :
    forUpTo k n (fun i m => m.update (p + i) 1 (laid mix c)) m = m.update (p + k) (n - k) (laid mix c) := by
  simpa using @forUpTo_update p 1 (laid mix c) m (by decide) k n h

lemma blendRowSse2_of_pos (hn : 0 < n) (h : alpha c ≠ 255) : blendRowSse2 p n c m = m.update p n (laid mix c) := by
  have hGroups := @forUpTo_update p 4 (laid mix c) m (by decide) 0 ((n - n % 4) / 4) (by omega)
  rw [Int.mul_zero, Int.add_zero, Int.sub_zero, show 4 * ((n - n % 4) / 4) = n - n % 4 by omega] at hGroups
  simp only [blendRowSse2, if_neg h, if_pos hn, laid_mixSse2, hGroups]
  rw [blendRow_update (by omega), update_update (by omega) (by omega), add_sub_cancel]

/-- The lanes hold what the row is blended with, and the row is that of the scalar loop. -/
theorem blendRowSse2_eq_scalar (p n : Int) (c : UInt32) (m : Canvas) :
    (∀ d, blendLanes c d = laid mixSse2 c d) ∧ blendRowSse2 p n c m = blendRowScalar p n c m ∧
      ∀ b, ¬ (p ≤ b ∧ b < p + n) → (blendRowSse2 p n c m).mem b = m.mem b := by
  have hScalar : blendRowScalar p n c m = if 0 < n then m.update p n (laid mix c) else m := by
    split_ifs with hn
    · simpa [blendRowScalar] using @blendRow_update p n 0 hn.le c m
    · rw [blendRowScalar, forUpTo, Int.toNat_of_nonpos (by omega), rounds]
  have hEq : blendRowSse2 p n c m = blendRowScalar p n c m := by
    by_cases hOpaque : alpha c = 255
    · rw [blendRowSse2, if_pos hOpaque, blendRowScalar, funext (laid_solid hOpaque)]
      rfl
    rw [hScalar]
    split_ifs with hn
    · exact blendRowSse2_of_pos hn hOpaque
    · simp [blendRowSse2, hOpaque, hn, forUpTo, Int.toNat_of_nonpos (show n ≤ 0 by omega), rounds]
  refine ⟨blendLanes_eq c, hEq, fun b hb => ?_⟩
  rw [hEq, hScalar]
  split_ifs
  · exact if_neg hb
  · rfl

end YartOS.Gfx
