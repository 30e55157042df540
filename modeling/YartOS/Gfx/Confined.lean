import YartOS.Gfx.Draw

/-! Which drawing calls stay inside the clip, their surfaces and the scratch row. -/
namespace YartOS.Gfx

open Loops List Surface

/-! The frame of a call. -/

def Area (clip : Clip) (s : Surface) (a : Int) : Prop := ∃ x y, clip.ok x y = true ∧ s.Inside x y ∧ a = s.cell x y

def Pixels (s : Surface) (a : Int) : Prop := ∃ x y, s.Inside x y ∧ a = s.cell x y

/-- Cells change in `W`, sources are read in `R`, and the scratch row is kept to. -/
structure Touches (W R : Int → Prop) (m m' : Canvas) : Prop where
  mem : ∀ a, ¬ W a → m'.mem a = m.mem a
  fetched : ∀ a ∈ m'.fetched, a ∈ m.fetched ∨ R a
  scratched : ∀ i ∈ m'.scratched, i ∈ m.scratched ∨ 0 ≤ i ∧ i < sbufSize

section Frame

variable {W R : Int → Prop} {m m' m'' : Canvas} {a n p : Int}

lemma Touches.refl (m : Canvas) : Touches W R m m := ⟨fun _ _ => rfl, fun _ => .inl, fun _ => .inl⟩

lemma Touches.trans (h : Touches W R m m') (h' : Touches W R m' m'') : Touches W R m m'' where
  mem a ha := (h'.mem a ha).trans (h.mem a ha)
  fetched a ha := (h'.fetched a ha).elim (h.fetched a) .inr
  scratched i hi := (h'.scratched i hi).elim (h.scratched i) .inr

variable {hi lo i w : Int} {body : Int → Canvas → Canvas} {f : UInt32 → UInt32} {c : UInt32}

lemma Touches.thenLoop (h : Touches W R m m') (round : ∀ i, lo ≤ i → i < hi → ∀ m, Touches W R m (body i m)) :
    Touches W R m (forUpTo lo hi body m') :=
  h.trans (forUpTo_rel .refl (fun _ _ _ => .trans) round m')

lemma Touches.loop
    (round : ∀ i, lo ≤ i → i < hi → ∀ m, Touches W R m (body i m)) :
    Touches W R m (forUpTo lo hi body m) := (Touches.refl m).thenLoop round

lemma Touches.update (inside : ∀ k, 0 ≤ k → k < n → W (a + k)) : Touches W R m (m.update a n f) := by
  refine ⟨fun b hb => if_neg fun hIn => hb ?_, fun _ => .inl, fun _ => .inl⟩
  have hCell := inside (b - a) (by omega) (by omega)
  rwa [add_sub_cancel] at hCell

lemma Touches.update_one (inside : W a) : Touches W R m (m.update a 1 f) :=
  .update fun k hlo hhi => by rwa [show a + k = a by omega]

lemma Touches.store (inside : W a) : Touches W R m (m.store a c) := .update_one inside

/-- What is not skipped. -/
lemma Touches.unless {P : Prop} [Decidable P] (h : ¬ P → Touches W R m m') : Touches W R m (if P then m else m') := by
  split
  · exact .refl m
  · exact h ‹_›

lemma mem_log {P : Int → Prop} {l : List Int} (inside : P a) : ∀ b ∈ l ++ [a], b ∈ l ∨ P b :=
  fun _ hb => (mem_append.mp hb).imp_right fun hNew => by rwa [mem_singleton.mp hNew]

lemma Touches.fetch (inside : R a) : Touches W R m (m.fetch a) := ⟨fun _ _ => rfl, mem_log inside, fun _ => .inl⟩

lemma Touches.copy {d s : Int} (written : ∀ k, 0 ≤ k → k < n → W (d + k))
    (read : ∀ k, 0 ≤ k → k < n → R (s + k)) : Touches W R m (m.copy d s n) := by
  refine ⟨fun b hb => if_neg fun hIn => hb ?_, fun b hb => ?_, fun _ => .inl⟩
  · have hCell := written (b - d) (by omega) (by omega)
    rwa [add_sub_cancel] at hCell
  · refine (mem_append.mp hb).imp_right fun hNew => ?_
    obtain ⟨k, hk, rfl⟩ := mem_map.mp hNew
    have hLt := mem_range.mp hk
    exact read k (by omega) (by omega)

lemma Touches.scratch (inside : 0 ≤ i ∧ i < sbufSize) : Touches W R m (m.scratch i c) :=
  ⟨fun _ _ => rfl, fun _ => .inl, mem_log inside⟩

lemma Touches.unscratch (inside : W a) (bounds : 0 ≤ i ∧ i < sbufSize) : Touches W R m (m.unscratch a i) :=
  have hStore := @Touches.store W R m a (m.sbuf i) inside
  ⟨hStore.mem, fun _ => .inl, mem_log bounds⟩

/-! Rows. -/

lemma fillRow_touches (pos : 0 < w) (inside : ∀ k, 0 ≤ k → k < w → W (p + k)) : Touches W R m (fillRow p w c m) := by
  have hPairs : 0 ≤ (if 4 * p % 8 = 0 then w - w % 2 else 0) ∧ (if 4 * p % 8 = 0 then w - w % 2 else 0) ≤ w := by
    split <;> omega
  generalize (if 4 * p % 8 = 0 then w - w % 2 else 0) = i at hPairs
  refine Touches.thenLoop (.loop fun k hlo hhi m => .update fun j hj hj' => ?_)
    fun k hlo hhi m => .store (inside k (by omega) hhi)
  rw [Int.add_assoc]
  exact inside _ (by omega) (by omega)

lemma blendRowSse2_touches (inside : ∀ k, 0 ≤ k → k < n → W (p + k)) : Touches W R m (blendRowSse2 p n c m) := by
  unfold blendRowSse2
  split
  · exact .loop fun k hlo hhi m => .store (inside k hlo hhi)
  have hGroups : 0 ≤ (if 0 < n then n - n % 4 else 0) ∧
      ((if 0 < n then n - n % 4 else 0) ≤ n ∨ (if 0 < n then n - n % 4 else 0) = 0) := by
    split <;> omega
  generalize (if 0 < n then n - n % 4 else 0) = i at hGroups
  refine Touches.thenLoop (.loop fun k hlo hhi m => .update fun j hj hj' => ?_)
    fun k hlo hhi m => .update_one (inside k (by omega) hhi)
  rw [Int.add_assoc]
  exact inside _ (by omega) (by omega)

lemma copyRow_touches {dp sp : Int} (pos : 0 < w) (written : ∀ k, 0 ≤ k → k < w → W (dp + k))
    (read : ∀ k, 0 ≤ k → k < w → R (sp + k)) : Touches W R m (copyRow dp sp w m) := by
  have hFours : 0 ≤ (if 4 * sp % 16 = 0 ∧ 4 * dp % 16 = 0 then w - w % 4 else 0) ∧
      (if 4 * sp % 16 = 0 ∧ 4 * dp % 16 = 0 then w - w % 4 else 0) ≤ w := by
    split <;> omega
  generalize (if 4 * sp % 16 = 0 ∧ 4 * dp % 16 = 0 then w - w % 4 else 0) = i₁ at hFours
  have hTwos : 0 ≤ (if 4 * sp % 8 = 0 ∧ 4 * dp % 8 = 0 then w - w % 2 else i₁) ∧
      (if 4 * sp % 8 = 0 ∧ 4 * dp % 8 = 0 then w - w % 2 else i₁) ≤ w := by
    split <;> omega
  generalize (if 4 * sp % 8 = 0 ∧ 4 * dp % 8 = 0 then w - w % 2 else i₁) = i₂ at hTwos
  have hCopy : ∀ {k n : Int} {m : Canvas}, 0 ≤ k → k + n ≤ w → Touches W R m (m.copy (dp + k) (sp + k) n) := by
    intro k n m hk hn
    refine .copy (fun j hj hj' => ?_) fun j hj hj' => ?_
    · rw [Int.add_assoc]
      exact written _ (by omega) (by omega)
    · rw [Int.add_assoc]
      exact read _ (by omega) (by omega)
  exact ((Touches.loop fun k hlo hhi m => hCopy (by omega) (by omega)).thenLoop
    fun k hlo hhi m => hCopy (by omega) (by omega)).thenLoop
    fun k hlo hhi m => hCopy (by omega) (by omega)

end Frame

/-! Pixels, lines and rectangles. -/

variable {clip : Clip} {s : Surface} {R : Int → Prop} {m : Canvas} {x y w h : Int} {c : UInt32}

lemma Clip.ok_iff : clip.ok x y = true ↔ (clip.on = true → clip.x0 ≤ x ∧ x < clip.x1 ∧ clip.y0 ≤ y ∧ y < clip.y1) := by
  cases hOn : clip.on with
  | false => simp [Clip.ok, hOn]
  | true => simp [Clip.ok, hOn, and_assoc]

/-- The offset of a pixel is an `int`. -/
lemma Surface.offset_eq (inside : s.Inside x y) : int (y * s.pitch + x) = y * s.pitch + x := by
  obtain ⟨hx, hx', hy, hy'⟩ := inside
  have hRows := s.rows
  have hSize := s.size
  have hLow : 0 ≤ y * s.pitch := Int.mul_nonneg hy (by omega)
  have hHigh : (y + 1) * s.pitch ≤ s.h * s.pitch := Int.mul_le_mul_of_nonneg_right (by omega) (by omega)
  rw [Int.add_mul, Int.one_mul] at hHigh
  exact Int.bmod_eq_of_le (by omega) (by omega)

section

variable (hx : IsInt x) (hy : IsInt y)

include hx hy

lemma inside_of_u32 (hw : u32 x < u32 s.w) (hh : u32 y < u32 s.h) : s.Inside x y := by
  have hW := s.w_int
  have hH := s.h_int
  unfold IsInt at hx hy
  unfold u32 at hw hh
  exact ⟨by omega, by omega, by omega, by omega⟩

lemma area_of_put (hw : u32 x < u32 s.w) (hh : u32 y < u32 s.h)
    (ok : clip.ok x y = true) : Area clip s (s.px + int (y * s.pitch + x)) := by
  have hInside := inside_of_u32 hx hy hw hh
  refine ⟨x, y, ok, hInside, ?_⟩
  rw [offset_eq hInside, cell, Int.add_assoc]

lemma sfPutpx_touches : Touches (Area clip s) R m (sfPutpx clip s x y c m) := by
  unfold sfPutpx
  split_ifs with hPut
  · exact .store (area_of_put hx hy hPut.1 hPut.2.1 hPut.2.2)
  · exact .refl m

lemma sfPutpxBlend_touches : Touches (Area clip s) R m (sfPutpxBlend clip s x y c m) := by
  refine .unless fun hPut => .unless fun _ => ?_
  simp only [not_or, not_le, Bool.not_eq_true', Bool.not_eq_false] at hPut
  have hArea := area_of_put hx hy hPut.1 hPut.2.1 hPut.2.2
  split
  · exact .store hArea
  · exact .update_one hArea

end

/-- A row of pixels inside the clip and the surface. -/
lemma area_of_row {n : Int} (rows : 0 ≤ y ∧ y < s.h) (columns : 0 ≤ x ∧ x + n ≤ s.w)
    (ok : clip.on = true → clip.y0 ≤ y ∧ y < clip.y1 ∧ clip.x0 ≤ x ∧ x + n ≤ clip.x1) :
    ∀ k, 0 ≤ k → k < n → Area clip s (s.cell x y + k) := by
  intro k hlo hhi
  refine ⟨x + k, y, ?_, ⟨by omega, by omega, rows.1, rows.2⟩, ?_⟩
  · rw [Clip.ok_iff]
    intro hOn
    have hOk := ok hOn
    omega
  · rw [cell, cell, Int.add_assoc _ x k]

/-- The pixels that clipping to `[lo, hi)` leaves. -/
lemma Span.low_spec (v : Span) (lo : Int) :
    lo ≤ (v.low lo).pos ∧ v.pos ≤ (v.low lo).pos ∧ (v.low lo).pos + (v.low lo).len ≤ v.pos + v.len := by
  unfold Span.low
  split
  · simp only
    omega
  · omega

lemma Span.high_spec (v : Span) (hi : Int) :
    (v.high hi).pos = v.pos ∧ (v.high hi).pos + (v.high hi).len ≤ hi ∧ (v.high hi).len ≤ v.len := by
  unfold Span.high
  split
  · refine ⟨rfl, ?_, ?_⟩ <;> simp only <;> omega
  · omega

lemma Span.clipped_spec (v : Span) (on : Bool) (lo hi : Int) (hOn : on = true) :
    lo ≤ (v.clipped on lo hi).pos ∧ (v.clipped on lo hi).pos + (v.clipped on lo hi).len ≤ hi := by
  rw [Span.clipped, if_pos hOn]
  have hLow := v.low_spec lo
  have hHigh := (v.low lo).high_spec hi
  omega

/-- The cuts that a line makes, at the clip and at the surface. -/
lemma Span.line_spec (v : Span) (on : Bool) (lo hi size : Int) : 0 ≤ (((v.clipped on lo hi).low 0).high size).pos ∧
      (((v.clipped on lo hi).low 0).high size).pos + (((v.clipped on lo hi).low 0).high size).len ≤ size ∧
      (on = true → lo ≤ (((v.clipped on lo hi).low 0).high size).pos ∧
        (((v.clipped on lo hi).low 0).high size).pos + (((v.clipped on lo hi).low 0).high size).len ≤ hi) := by
  have hClip := v.clipped_spec on lo hi
  generalize v.clipped on lo hi = u at hClip
  have hLow := u.low_spec 0
  have hHigh := (u.low 0).high_spec size
  refine ⟨by omega, by omega, fun hOn => ?_⟩
  have hBoth := hClip hOn
  omega

lemma sfHline_touches : Touches (Area clip s) R m (sfHline clip s x y w c m) := by
  obtain ⟨hLow, hHigh, hClip⟩ := Span.line_spec ⟨x, w⟩ clip.on clip.x0 clip.x1 s.w
  refine .unless fun _ => .unless fun hRow => .unless fun hClipRow => .unless fun _ => .unless fun _ => ?_
  refine fillRow_touches (by omega) (area_of_row (by omega) ⟨hLow, hHigh⟩ fun hOn => ?_)
  have hBoth := hClip hOn
  simp only [hOn, true_and, not_or, not_lt, not_le] at hClipRow
  exact ⟨hClipRow.1, hClipRow.2, hBoth.1, hBoth.2⟩

lemma sfVline_touches : Touches (Area clip s) R m (sfVline clip s x y h c m) := by
  obtain ⟨hLow, hHigh, hClip⟩ := Span.line_spec ⟨y, h⟩ clip.on clip.y0 clip.y1 s.h
  refine .unless fun _ => .unless fun hColumn => .unless fun hClipColumn => .unless fun _ => .unless fun _ => ?_
  generalize ((Span.clipped ⟨y, h⟩ clip.on clip.y0 clip.y1).low 0).high s.h = v at hLow hHigh hClip
  refine .loop fun i hlo hhi m =>
    .store ⟨x, v.pos + i, ?_, ⟨by omega, by omega, by omega, by omega⟩, ?_⟩
  · rw [Clip.ok_iff]
    intro hOn
    have hBoth := hClip hOn
    simp only [hOn, true_and, not_or, not_lt, not_le] at hClipColumn
    omega
  · rw [cell, cell, Int.add_mul]
    omega

lemma sfFillRect_touches : Touches (Area clip s) R m (sfFillRect clip s x y w h c m) :=
  .unless fun _ => .loop fun _ _ _ _ => sfHline_touches

/-- One axis of the rectangle that is blended. -/
lemma blend_bounds (on : Bool) (lo hi size a b : Int) :
    0 ≤ max (if on then max a lo else a) 0 ∧ min (if on then min b hi else b) size ≤ size ∧
      (on = true → lo ≤ max (if on then max a lo else a) 0 ∧ min (if on then min b hi else b) size ≤ hi) := by
  refine ⟨by omega, by omega, fun hOn => ?_⟩
  rw [if_pos hOn, if_pos hOn]
  omega

lemma sfFillRectBlend_touches : Touches (Area clip s) R m (sfFillRectBlend clip s x y w h c m) := by
  refine .unless fun _ => ?_
  dsimp only
  split
  · exact sfFillRect_touches
  refine .unless fun _ => ?_
  obtain ⟨hLeft, hRight, hColumns⟩ := blend_bounds clip.on clip.x0 clip.x1 s.w x (x + w)
  obtain ⟨hTop, hBottom, hRows⟩ := blend_bounds clip.on clip.y0 clip.y1 s.h y (y + h)
  generalize max (if clip.on then max x clip.x0 else x) 0 = x0 at hLeft hColumns
  generalize max (if clip.on then max y clip.y0 else y) 0 = y0 at hTop hRows
  generalize min (if clip.on then min (x + w) clip.x1 else x + w) s.w = x1 at hRight hColumns
  generalize min (if clip.on then min (y + h) clip.y1 else y + h) s.h = y1 at hBottom hRows
  refine .loop fun yy hlo hhi m => blendRowSse2_touches (area_of_row ?_ ?_ fun hOn => ?_)
  · omega
  · omega
  · have hX := hColumns hOn
    have hY := hRows hOn
    omega

variable {r x' y' a : Int} {Y' X' Y X : Strip} {body : Int → Canvas → Canvas} {c : UInt32}
  {dst src : Surface}

lemma corners_touches {dx dy : Int} (hx : IsInt x) (hw : IsInt (x + w)) (hy : IsInt y)
    (hh : IsInt (y + h)) (hrw : r * 2 ≤ w) (hrh : r * 2 ≤ h) (hdx : 0 ≤ dx ∧ dx < r)
    (hdy : 0 ≤ dy ∧ dy < r) : Touches (Area clip s) R m (corners clip s x y w h r dx dy c m) := by
  unfold IsInt at hx hw hy hh
  have hLeft : IsInt (x + r - 1 - dx) := ⟨by omega, by omega⟩
  have hRight : IsInt (x + w - r + dx) := ⟨by omega, by omega⟩
  have hTop : IsInt (y + r - 1 - dy) := ⟨by omega, by omega⟩
  have hBottom : IsInt (y + h - r + dy) := ⟨by omega, by omega⟩
  exact (((sfPutpx_touches hLeft hTop).trans (sfPutpx_touches hRight hTop)).trans
    (sfPutpx_touches hLeft hBottom)).trans (sfPutpx_touches hRight hBottom)

lemma sfRoundRect_touches (hx : IsInt x) (hw : IsInt (x + w)) (hy : IsInt y)
    (hh : IsInt (y + h)) : Touches (Area clip s) R m (sfRoundRect clip s x y w h r c m) := by
  refine .unless fun _ => ?_
  split
  · exact sfFillRect_touches
  dsimp only
  have hWide : (if w < r * 2 then w / 2 else r) * 2 ≤ w := by split <;> omega
  generalize (if w < r * 2 then w / 2 else r) = r at hWide
  have hRadius : (if h < r * 2 then h / 2 else r) * 2 ≤ w ∧ (if h < r * 2 then h / 2 else r) * 2 ≤ h := by
    split <;> omega
  generalize (if h < r * 2 then h / 2 else r) = r at hRadius
  refine Touches.thenLoop ((sfFillRect_touches.trans sfFillRect_touches).trans sfFillRect_touches) ?_
  refine fun dy hdy hdy' m => .loop fun dx hdx hdx' m => ?_
  split
  · exact corners_touches hx hw hy hh hRadius.1 hRadius.2 ⟨hdx, hdx'⟩ ⟨hdy, hdy'⟩
  · exact .refl m

/-! Copies. -/

variable {dst src : Surface}

namespace Strip

variable (v : Strip)

lemma dstLow_spec (lo : Int) : lo ≤ (v.dstLow lo).dst ∧ v.dst ≤ (v.dstLow lo).dst ∧
    (v.dstLow lo).dst + (v.dstLow lo).len ≤ v.dst + v.len := by
  unfold dstLow
  split
  · simp only
    omega
  · omega

lemma dstHigh_spec (hi : Int) : (v.dstHigh hi).src = v.src ∧ (v.dstHigh hi).dst = v.dst ∧
    (v.dstHigh hi).len ≤ v.len ∧ (v.dstHigh hi).dst + (v.dstHigh hi).len ≤ hi := by
  unfold dstHigh
  split
  · refine ⟨rfl, rfl, ?_, ?_⟩ <;> simp only <;> omega
  · omega

lemma srcHigh_spec (size : Int) : (v.srcHigh size).src = v.src ∧ (v.srcHigh size).dst = v.dst ∧
    (v.srcHigh size).len ≤ v.len ∧ (v.srcHigh size).src + (v.srcHigh size).len ≤ size := by
  unfold srcHigh
  split
  · refine ⟨rfl, rfl, ?_, ?_⟩ <;> simp only <;> omega
  · omega

structure Fitted (v : Strip) (on : Bool) (lo hi srcSize dstSize : Int) : Prop where
  src : 0 ≤ v.src ∧ v.src + v.len ≤ srcSize
  dst : 0 ≤ v.dst ∧ v.dst + v.len ≤ dstSize
  clip : on = true → lo ≤ v.dst ∧ v.dst + v.len ≤ hi

lemma clipped_spec (on : Bool) (lo hi : Int) : v.dst ≤ (v.clipped on lo hi).dst ∧
    (v.clipped on lo hi).dst + (v.clipped on lo hi).len ≤ v.dst + v.len ∧ (on = true → lo ≤ (v.clipped on lo hi).dst ∧
      (v.clipped on lo hi).dst + (v.clipped on lo hi).len ≤ hi) := by
  have hLow := v.dstLow_spec lo
  have hHigh := (v.dstLow lo).dstHigh_spec hi
  unfold clipped
  split
  · omega
  · exact ⟨Int.le_refl _, Int.le_refl _, fun hOn => absurd hOn ‹_›⟩

lemma fitted (on : Bool) (lo hi srcSize dstSize : Int)
    (inside : 0 ≤ (((v.dstLow 0).dstHigh dstSize).clipped on lo hi).src) :
    ((((v.dstLow 0).dstHigh dstSize).clipped on lo hi).srcHigh srcSize).Fitted on lo hi srcSize
      dstSize := by
  have hLow := v.dstLow_spec 0
  have hHigh := (v.dstLow 0).dstHigh_spec dstSize
  obtain ⟨hStart, hEnd, hClip⟩ := ((v.dstLow 0).dstHigh dstSize).clipped_spec on lo hi
  generalize ((v.dstLow 0).dstHigh dstSize).clipped on lo hi = u at hStart hEnd hClip inside
  have hSrc := u.srcHigh_spec srcSize
  refine ⟨by omega, by omega, fun hOn => ?_⟩
  have hBoth := hClip hOn
  omega

end Strip

lemma guard_bind_eq_some {α : Type} {p : Prop} [Decidable p] {f : Unit → Option α} {a : α} :
    (guard p >>= f) = some a ↔ p ∧ f () = some a := by
  by_cases h : p <;> simp [guard, h]

lemma blitArea_spec (area : blitArea clip dst src X Y = some (X', Y')) :
    X'.Fitted clip.on clip.x0 clip.x1 src.w dst.w ∧ Y'.Fitted clip.on clip.y0 clip.y1 src.h dst.h := by
  simp only [blitArea, guard_bind_eq_some] at area
  obtain ⟨-, -, -, -, -, ⟨hX, hY, -, -⟩, -, hEq⟩ := area
  cases hEq
  exact ⟨Strip.fitted _ _ _ _ _ _ hX, Strip.fitted _ _ _ _ _ _ hY⟩

variable {lo hi dx dy sx sy n dw dh sw sh passes i : Int}

lemma Strip.Fitted.dstHigh {v : Strip} {on : Bool} {srcSize dstSize : Int} (h : v.Fitted on lo hi srcSize dstSize)
    (size : Int) : (v.dstHigh size).Fitted on lo hi srcSize dstSize := by
  have hHigh := v.dstHigh_spec size
  obtain ⟨hSrc, hDst, hClip⟩ := h
  refine ⟨by omega, by omega, fun hOn => ?_⟩
  have hBoth := hClip hOn
  omega

lemma blitRecheck_spec (fittedX : X.Fitted clip.on clip.x0 clip.x1 src.w dst.w)
    (fittedY : Y.Fitted clip.on clip.y0 clip.y1 src.h dst.h) (area : blitRecheck dst X Y = some (X', Y'))
    : X'.Fitted clip.on clip.x0 clip.x1 src.w dst.w ∧ Y'.Fitted clip.on clip.y0 clip.y1 src.h dst.h ∧ 0 < X'.len := by
  simp only [blitRecheck, guard_bind_eq_some] at area
  obtain ⟨-, ⟨hLen, -⟩, hEq⟩ := area
  cases hEq
  exact ⟨fittedX.dstHigh _, fittedY.dstHigh _, hLen⟩

lemma pixels_of_row {s : Surface} {x y : Int} (rows : 0 ≤ y ∧ y < s.h)
    (columns : 0 ≤ x ∧ x + n ≤ s.w) : ∀ k, 0 ≤ k → k < n → Pixels s (s.cell x y + k) := by
  intro k hlo hhi
  refine ⟨x + k, y, ⟨by omega, by omega, rows.1, rows.2⟩, ?_⟩
  rw [cell, cell, Int.add_assoc _ x k]

/-- The rows of a blit, each inside both surfaces and the clip. -/
lemma blitRows_touches {W R : Int → Prop} {row : Int → Int → Canvas → Canvas}
    (fitted : Y.Fitted clip.on clip.y0 clip.y1 src.h dst.h)
    (each : ∀ sy dy, 0 ≤ sy ∧ sy < src.h → 0 ≤ dy ∧ dy < dst.h →
      (clip.on = true → clip.y0 ≤ dy ∧ dy < clip.y1) → ∀ m, Touches W R m (row sy dy m)) :
    Touches W R m (blitRows dst src Y row m) := by
  refine .loop fun j hlo hhi m => .unless fun _ => each _ _ (by omega) (by omega) (fun hOn => ?_) m
  have hBoth := fitted.clip hOn
  omega

lemma sfBlit_touches {w h : Int} : Touches (Area clip dst) (Pixels src) m (sfBlit clip dst src dx dy sx sy w h m) := by
  refine .unless fun _ => ?_
  split
  · exact .refl m
  rename_i X Y hArea
  obtain ⟨⟨X₀, Y₀⟩, hClipped, hRecheck⟩ := Option.bind_eq_some_iff.mp hArea
  obtain ⟨hX₀, hY₀⟩ := blitArea_spec hClipped
  obtain ⟨hX, hY, hLen⟩ := blitRecheck_spec hX₀ hY₀ hRecheck
  refine blitRows_touches hY fun sy dy hSrc hDst hClip m => copyRow_touches hLen ?_ ?_
  · refine area_of_row hDst hX.dst fun hOn => ?_
    exact ⟨(hClip hOn).1, (hClip hOn).2, (hX.clip hOn).1, (hX.clip hOn).2⟩
  · exact pixels_of_row hSrc hX.src

lemma sfBlitAlpha_touches {w h : Int} :
    Touches (Area clip dst) (Pixels src) m (sfBlitAlpha clip dst src dx dy sx sy w h m) := by
  refine .unless fun _ => ?_
  split
  · exact .refl m
  rename_i X Y hArea
  obtain ⟨hX, hY⟩ := blitArea_spec hArea
  refine blitRows_touches hY fun sy dy hSrc hDst hClip m => .loop fun i hlo hhi m => ?_
  dsimp only
  have hFetch : Touches (Area clip dst) (Pixels src) m (m.fetch (src.cell X.src sy + i)) :=
    .fetch (pixels_of_row hSrc hX.src i hlo hhi)
  split
  · exact hFetch
  · have hW := dst.w_int
    have hH := dst.h_int
    have hXDst := hX.dst
    exact hFetch.trans (sfPutpxBlend_touches ⟨by omega, by omega⟩ ⟨by omega, by omega⟩)

lemma clampTo_spec {size n : Int} (pos : 0 < size) : 0 ≤ clampTo size n ∧ clampTo size n < size := by
  unfold clampTo
  dsimp only
  split <;> split <;> omega

lemma sfBlitScaled_touches (hx : IsInt dx) (hw : IsInt (dx + dw))
    (some : 0 < dw → 0 < sw → 0 < sh → src.px ≠ 0 → max dy 0 < min (dy + dh) dst.h → 0 < src.w ∧ 0 < src.h) :
    Touches (Area clip dst) (Pixels src) m (sfBlitScaled clip dst src dx dy dw dh sx sy sw sh m) := by
  refine .unless fun _ => .loop fun j hj hj' m => .unless fun _ => ?_
  obtain ⟨hWidth, hHeight⟩ := some (by omega) (by omega) (by omega) (by omega) (by omega)
  refine .loop fun i hi hi' m => Touches.trans (.fetch ?_) (sfPutpx_touches ?_ ?_)
  · have hColumn := @clampTo_spec src.w (sx + (int (i * sw)).tdiv dw) hWidth
    have hRow := @clampTo_spec src.h (sy + (int (j * sh)).tdiv dh) hHeight
    exact ⟨_, _, ⟨hColumn.1, hColumn.2, hRow.1, hRow.2⟩, rfl⟩
  · unfold IsInt at hx hw ⊢
    omega
  · have hH := dst.h_int
    exact ⟨by omega, by omega⟩

lemma sfIconTl_touches {s ico : Surface} {x y : Int} {tint : UInt32} :
    Touches (Area clip s) (Pixels ico) m (sfIconTl clip s ico x y tint m) := by
  refine .unless fun _ => .loop fun j hj hj' m => .unless fun hRow => .loop fun i hi hi' m =>
    .unless fun hSkip => ?_
  simp only [not_or, not_lt, not_le, Bool.not_eq_true', Bool.not_eq_false] at hRow hSkip
  have hFetch : Touches (Area clip s) (Pixels ico) m (m.fetch (ico.px + j * ico.pitch + i)) :=
    .fetch ⟨i, j, ⟨hi, hi', hj, hj'⟩, rfl⟩
  have hArea : Area clip s (s.px + (y + j) * s.pitch + x + i) := by
    refine ⟨x + i, y + j, hSkip.2.2, ⟨hSkip.1, hSkip.2.1, hRow.1, hRow.2⟩, ?_⟩
    rw [cell, Int.add_assoc _ x i]
  dsimp only
  split
  · exact hFetch
  split
  · exact hFetch.trans (.store hArea)
  · exact hFetch.trans (.update_one hArea)

/-! The blur. -/

variable {W : Int → Prop} {x0 y0 x1 y1 radius : Int}

variable {cell : Int → Int}

/-- A mean only reads, and only between `lo` and `hi`. -/
lemma boxMean_rel {centre : Int} {Q : Canvas → Canvas → Prop} (refl : ∀ m, Q m m)
    (trans : ∀ m m' m'', Q m m' → Q m' m'' → Q m m'') (some : lo < hi)
    (fetch : ∀ n, lo ≤ n → n < hi → ∀ m, Q m (m.fetch (cell n))) : Q m (boxMean cell lo hi radius centre m).2 := by
  refine @forUpTo_rel _ (-radius) (radius + 1) (fun k (t : Sums × Canvas) =>
    let n := centre + k
    let a := cell (if n < lo then lo else if hi ≤ n then hi - 1 else n)
    (t.1.add (t.2.mem a), t.2.fetch a)) (fun t t' => Q t.2 t'.2)
    (fun _ => refl _) (fun _ _ _ => trans _ _ _) (fun k _ _ t => fetch _ ?_ ?_ _) (({} : Sums), m)
  · split
    · omega
    · split <;> omega
  · split
    · omega
    · split <;> omega

lemma boxMeans_touches (short : lo < hi → hi - lo ≤ sbufSize)
    (read : ∀ n, lo ≤ n → n < hi → R (cell n)) : Touches W R m (boxMeans cell lo hi radius m) := by
  refine .loop fun n hlo hhi m => ?_
  have hMean : Touches W R m (boxMean cell lo hi radius n m).2 :=
    boxMean_rel .refl (fun _ _ _ => .trans) (by omega) fun k hk hk' m => .fetch (read k hk hk')
  exact hMean.trans (.scratch ⟨by omega, by omega⟩)

def Rect.Has (a : Rect) (x y : Int) : Prop := a.x0 ≤ x ∧ x < a.x1 ∧ a.y0 ≤ y ∧ y < a.y1

lemma blurArea_inside {x y w h : Int} (has : (blurArea s x y w h).Has x' y') : s.Inside x' y' := by
  simp only [Rect.Has, blurArea] at has
  exact ⟨by omega, by omega, by omega, by omega⟩

/-- A rectangle with pixels fits the scratch row and lies in the clip. -/
structure Rect.Fits (a : Rect) (clip : Clip) : Prop where
  wide : a.x0 < a.x1 → a.y0 < a.y1 → a.x1 - a.x0 ≤ sbufSize
  high : a.x0 < a.x1 → a.y0 < a.y1 → a.y1 - a.y0 ≤ sbufSize
  ok : ∀ x y, a.Has x y → clip.ok x y = true

lemma blurPass_touches {a : Rect} (fits : a.Fits clip) (inside : ∀ x y, a.Has x y → s.Inside x y) :
    Touches (Area clip s) (Pixels s) m (blurPass s a radius m) := by
  have hArea : ∀ x y, a.Has x y → Area clip s (s.cell x y) := fun x y has =>
    ⟨x, y, fits.ok x y has, inside x y has, rfl⟩
  have hPixels : ∀ x y, a.Has x y → Pixels s (s.cell x y) := fun x y has => ⟨x, y, inside x y has, rfl⟩
  refine Touches.thenLoop (.loop fun yy hy hy' m => ?_) fun xx hx hx' m => ?_
  · refine (boxMeans_touches (fun hSome => fits.wide hSome (by omega)) fun x hx hx' =>
      hPixels x yy ⟨hx, hx', hy, hy'⟩).thenLoop fun i hlo hhi m => .unscratch ?_ ⟨hlo, by omega⟩
    have hCell := hArea (a.x0 + i) yy ⟨by omega, by omega, hy, hy'⟩
    rwa [cell, ← Int.add_assoc] at hCell
  · exact (boxMeans_touches (fun hSome => fits.high (by omega) hSome) fun y hy hy' =>
      hPixels xx y ⟨hx, hx', hy, hy'⟩).thenLoop fun yy hlo hhi m =>
        .unscratch (hArea xx yy ⟨hx, hx', hlo, hhi⟩) ⟨by omega, by have := fits.high (by omega) (hlo.trans_lt hhi); omega⟩

/-! What a blur does for certain: it uses the scratch row and changes black pixels. -/

/-- Lists grow, and nothing turns black unless the scratch row holds black. -/
structure Grows (m m' : Canvas) : Prop where
  scratched : ∀ i ∈ m.scratched, i ∈ m'.scratched
  sbuf : (∀ i, m.sbuf i ≠ 0) → ∀ i, m'.sbuf i ≠ 0
  mem : (∀ i, m.sbuf i ≠ 0) → ∀ a, m.mem a ≠ 0 → m'.mem a ≠ 0

lemma Grows.refl (m : Canvas) : Grows m m := ⟨fun _ => id, id, fun _ _ => id⟩

lemma Grows.trans {m m' m'' : Canvas} (h : Grows m m') (h' : Grows m' m'') : Grows m m'' where
  scratched i hi := h'.scratched i (h.scratched i hi)
  sbuf hm := h'.sbuf (h.sbuf hm)
  mem hm a ha := h'.mem (h.sbuf hm) a (h.mem hm a ha)

lemma Grows.loop (round : ∀ i, lo ≤ i → i < hi → ∀ m, Grows m (body i m)) (m : Canvas) :
    Grows m (forUpTo lo hi body m) :=
  forUpTo_rel .refl (fun _ _ _ => .trans) round m

/-- A loop around one of its rounds. -/
lemma Grows.around (round : ∀ i, lo ≤ i → i < hi → ∀ m, Grows m (body i m)) (hlo : lo ≤ i) (hhi : i < hi) (m : Canvas) :
    ∃ t, Grows m t ∧ Grows (body i t) (forUpTo lo hi body m) :=
  forUpTo_round .refl (fun _ _ _ => .trans) round hlo hhi m

lemma Sums.mean_ne_zero (t : Sums) : t.mean ≠ 0 := by
  intro hZero
  have hNat := congrArg UInt32.toNat hZero
  simp [Sums.mean] at hNat

lemma Grows.scratch (bright : c ≠ 0) : Grows m (m.scratch i c) where
  scratched _ hj := mem_append_left _ hj
  sbuf hm j := by
    by_cases hj : j = i
    · subst hj
      simpa [Canvas.scratch] using bright
    · simpa [Canvas.scratch, hj] using hm j
  mem _ _ := id

lemma Grows.unscratch {i : Int} : Grows m (m.unscratch a i) where
  scratched _ hj := mem_append_left _ hj
  sbuf := id
  mem hm b hb := by
    simp only [Canvas.unscratch, Canvas.store, Canvas.update]
    split
    · exact hm i
    · exact hb

lemma boxMeans_round {lo hi n : Int} (hlo : lo ≤ n) (hhi : n < hi) (m : Canvas) :
    Grows m ((boxMean cell lo hi radius n m).2.scratch (n - lo) (boxMean cell lo hi radius n m).1) := by
  have hMean : Grows m (boxMean cell lo hi radius n m).2 :=
    boxMean_rel .refl (fun _ _ _ => .trans) (by omega) fun _ _ _ _ => ⟨fun _ => id, id, fun _ _ => id⟩
  exact hMean.trans (.scratch (Sums.mean_ne_zero _))

lemma boxMeans_grows : Grows m (boxMeans cell lo hi radius m) := .loop (fun _ => boxMeans_round) m

lemma boxMeans_scratched (hlo : lo ≤ n) (hhi : n < hi) : n - lo ∈ (boxMeans cell lo hi radius m).scratched := by
  obtain ⟨t, -, hAfter⟩ := Grows.around (fun _ => @boxMeans_round radius cell lo hi _) hlo hhi m
  exact hAfter.scratched _ (mem_append_right _ mem_cons_self)

lemma blurRow_grows {yy : Int} : Grows m (blurRow s x0 x1 radius yy m) :=
  boxMeans_grows.trans (.loop (fun _ _ _ _ => .unscratch) _)

lemma blurColumn_grows {xx : Int} : Grows m (blurColumn s y0 y1 radius xx m) :=
  boxMeans_grows.trans (.loop (fun _ _ _ _ => .unscratch) _)

lemma blurPass_grows {a : Rect} : Grows m (blurPass s a radius m) :=
  Grows.trans (.loop (fun _ _ _ _ => blurRow_grows) _) (.loop (fun _ _ _ _ => blurColumn_grows) _)

/-- A pass uses as much of the scratch row as the sides of its rectangle are long. -/
lemma blurPass_scratched {a : Rect} {x y : Int} (has : a.Has x y) :
    x - a.x0 ∈ (blurPass s a radius m).scratched ∧ y - a.y0 ∈ (blurPass s a radius m).scratched := by
  obtain ⟨hx, hx', hy, hy'⟩ := has
  constructor
  · obtain ⟨t, -, hAfter⟩ := Grows.around (fun _ _ _ m => @blurRow_grows s m a.x0 a.x1 radius _) hy hy' m
    have hColumns : Grows (forUpTo a.y0 a.y1 (blurRow s a.x0 a.x1 radius) m) (blurPass s a radius m) :=
      .loop (fun _ _ _ _ => blurColumn_grows) _
    refine hColumns.scratched _ (hAfter.scratched _ ?_)
    have hCopied : Grows (boxMeans (fun xx => s.cell xx y) a.x0 a.x1 radius t)
        (blurRow s a.x0 a.x1 radius y t) := .loop (fun _ _ _ _ => .unscratch) _
    exact hCopied.scratched _ (boxMeans_scratched hx hx')
  · obtain ⟨t, -, hAfter⟩ := Grows.around (fun _ _ _ m => @blurColumn_grows s m a.y0 a.y1 radius _) hx hx'
      (forUpTo a.y0 a.y1 (blurRow s a.x0 a.x1 radius) m)
    refine hAfter.scratched _ ?_
    have hCopied : Grows (boxMeans (fun yy => s.cell x yy) a.y0 a.y1 radius t)
        (blurColumn s a.y0 a.y1 radius x t) := .loop (fun _ _ _ _ => .unscratch) _
    exact hCopied.scratched _ (boxMeans_scratched hy hy')

/-- No pixel of the rectangle stays black. -/
lemma blurPass_mem {a : Rect} {x y : Int} (has : a.Has x y) (bright : ∀ i, m.sbuf i ≠ 0) :
    (blurPass s a radius m).mem (s.cell x y) ≠ 0 := by
  obtain ⟨hx, hx', hy, hy'⟩ := has
  have hRows : Grows m (forUpTo a.y0 a.y1 (blurRow s a.x0 a.x1 radius) m) := .loop (fun _ _ _ _ => blurRow_grows) _
  obtain ⟨t, hBefore, hAfter⟩ := Grows.around (fun _ _ _ m => @blurColumn_grows s m a.y0 a.y1 radius _) hx hx'
    (forUpTo a.y0 a.y1 (blurRow s a.x0 a.x1 radius) m)
  have hBright := hBefore.sbuf (hRows.sbuf bright)
  refine hAfter.mem (blurColumn_grows.sbuf hBright) _ ?_
  obtain ⟨t', hMeans, hStored⟩ := Grows.around (fun yy _ _ m => @Grows.unscratch m (s.cell x yy) (yy - a.y0))
    hy hy' (boxMeans (fun yy => s.cell x yy) a.y0 a.y1 radius t)
  have hBright' := hMeans.sbuf (boxMeans_grows.sbuf hBright)
  refine hStored.mem (Grows.unscratch.sbuf hBright') _ ?_
  simpa [Canvas.unscratch, Canvas.store, Canvas.update] using hBright' _

/-! The calls. -/

/-- The `int` sums that a call makes of its arguments do not overflow. -/
def Call.NoOverflow : Call → Prop
  | .hline _ x y w _ => IsInt x ∧ IsInt y ∧ IsInt (x + w)
  | .vline _ x y h _ => IsInt x ∧ IsInt y ∧ IsInt (y + h)
  | .fillRect _ x y w h _ | .fillRectBlend _ x y w h _ | .roundRect _ x y w h _ _
  | .blurRect _ x y w h _ _ => IsInt x ∧ IsInt y ∧ IsInt (x + w) ∧ IsInt (y + h)
  | .blit _ dx dy _ sx sy w h | .blitAlpha _ dx dy _ sx sy w h =>
    IsInt dx ∧ IsInt dy ∧ IsInt (dx + w) ∧ IsInt (dy + h) ∧ IsInt sx ∧ IsInt sy ∧ IsInt (sx + w) ∧ IsInt (sy + h)
  | .blitScaled _ dx dy dw dh _ sx sy sw sh =>
    IsInt dx ∧ IsInt dy ∧ IsInt (dx + dw) ∧ IsInt (dy + dh) ∧ IsInt sx ∧ IsInt sy ∧ IsInt (sx + sw) ∧ IsInt (sy + sh)
  | .iconTl _ x y ico _ => IsInt x ∧ IsInt y ∧ IsInt (x + ico.w) ∧ IsInt (y + ico.h)

/-- Whatever memory holds: pixels change inside clip and surface, sources are read inside, and the
scratch row is kept to. -/
def Confined (clip : Clip) (call : Call) : Prop :=
  ∀ mem sbuf, Touches (Area clip call.target) (fun a => ∃ src, call.source = some src ∧ Pixels src a)
    { mem, sbuf } (call.run clip { mem, sbuf })

/-- A scaled blit that reads has source pixels, and a blur fits clip and scratch row. -/
def Call.Fits (clip : Clip) : Call → Prop
  | .blitScaled dst _ dy dw dh src _ _ sw sh =>
    0 < dw → 0 < sw → 0 < sh → src.px ≠ 0 → max dy 0 < min (dy + dh) dst.h → 0 < src.w ∧ 0 < src.h
  | .blurRect s x y w h radius passes => 1 ≤ radius → 1 ≤ passes → (blurArea s x y w h).Fits clip
  | _ => True

lemma Surface.cell_inj {x y : Int} (inside : s.Inside x y)
    (inside' : s.Inside x' y') (h : s.cell x y = s.cell x' y') : x = x' ∧ y = y' := by
  have hRows := s.rows
  obtain ⟨hx, hx', -, -⟩ := inside
  obtain ⟨hx₁, hx₁', -, -⟩ := inside'
  unfold cell at h
  have hNext : ∀ {y y' : Int}, y < y' → y * s.pitch + s.pitch ≤ y' * s.pitch := by
    intro y y' hy
    have hMul := Int.mul_le_mul_of_nonneg_right (show y + 1 ≤ y' by omega) (show 0 ≤ s.pitch by omega)
    rwa [Int.add_mul, Int.one_mul] at hMul
  rcases lt_trichotomy y y' with hLt | rfl | hGt
  · have hStep := hNext hLt
    omega
  · exact ⟨by omega, rfl⟩
  · have hStep := hNext hGt
    omega

lemma scaled_round {x y : Int} {m : Canvas} : (sfPutpx clip s x y c (m.fetch a)).fetched ≠ [] := by
  unfold sfPutpx
  split <;> exact append_ne_nil_of_right_ne_nil _ (cons_ne_nil _ _)

/-- A scaled blit onto a row of the target reads. -/
lemma sfBlitScaled_fetched {dx dy dw dh sx sy sw sh : Int} {m : Canvas} (hw : 0 < dw) (hsw : 0 < sw)
    (hsh : 0 < sh) (px : src.px ≠ 0) (rows : max dy 0 < min (dy + dh) dst.h) :
    (sfBlitScaled clip dst src dx dy dw dh sx sy sw sh m).fetched ≠ [] := by
  have hLoop : ∀ {lo hi i : Int} {body : Int → Canvas → Canvas},
      (∀ i, lo ≤ i → i < hi → ∀ m, m.fetched ≠ [] → (body i m).fetched ≠ []) → lo ≤ i → i < hi →
      (∀ m, (body i m).fetched ≠ []) → ∀ m, (forUpTo lo hi body m).fetched ≠ [] := by
    intro lo hi i body round hlo hhi reads m
    obtain ⟨t, -, hAfter⟩ := forUpTo_round (R := fun m m' : Canvas => m.fetched ≠ [] → m'.fetched ≠ [])
      (fun _ => id) (fun _ _ _ h h' hm => h' (h hm)) round hlo hhi m
    exact hAfter (reads t)
  have hColumns : ∀ {j syy : Int} (m : Canvas), (forUpTo 0 dw (fun i m =>
      sfPutpx clip dst (dx + i) (dy + j) (m.mem (src.cell (clampTo src.w (sx + (int (i * sw)).tdiv dw)) syy))
        (m.fetch (src.cell (clampTo src.w (sx + (int (i * sw)).tdiv dw)) syy))) m).fetched ≠ [] :=
    fun m => hLoop (fun _ _ _ _ _ => scaled_round) (Int.le_refl 0) hw (fun _ => scaled_round) m
  unfold sfBlitScaled
  rw [if_neg (by omega)]
  refine hLoop (i := max dy 0 - dy) (fun j _ _ m hm => ?_) (by omega) (by omega) (fun m => ?_) m
  · split
    · exact hm
    · exact hColumns m
  · rw [if_neg (by omega)]
    exact hColumns m

lemma confined_of_source {call : Call} (source : call.source = some src)
    (touches : ∀ m, Touches (Area clip call.target) (Pixels src) m (call.run clip m)) :
    Confined clip call := fun mem sbuf =>
  let h := touches { mem, sbuf }
  ⟨h.mem, fun a ha => (h.fetched a ha).imp_right fun hSrc => ⟨src, source, hSrc⟩, h.scratched⟩

/-- A scaled blit that is confined does not read a source without pixels. -/
lemma fits_of_scaled (confined : Confined clip (.blitScaled dst dx dy dw dh src sx sy sw sh)) :
    (Call.blitScaled dst dx dy dw dh src sx sy sw sh).Fits clip := by
  intro hdw hsw hsh px rows
  have hTouches := confined (fun _ => 0) fun _ => 0
  obtain ⟨a, ha⟩ := exists_mem_of_ne_nil _
    (@sfBlitScaled_fetched clip dst src dx dy dw dh sx sy sw sh { mem := fun _ => 0, sbuf := fun _ => 0 }
      hdw hsw hsh px rows)
  rcases hTouches.fetched a ha with hOld | ⟨src', hSource, x, y, hInside, -⟩
  · exact absurd hOld not_mem_nil
  · cases hSource
    exact ⟨by have := hInside.1; have := hInside.2.1; omega, by have := hInside.2.2; omega⟩

/-- The first pass of a blur, with all that comes after it. -/
lemma sfBlurRect_pass {x y w h radius passes : Int} {m : Canvas} (hr : 1 ≤ radius)
    (hp : 1 ≤ passes) (hw : 0 < w) (hh : 0 < h) :
    ∃ t, Grows m t ∧ Grows (blurPass s (blurArea s x y w h) radius t) (sfBlurRect s x y w h radius passes m) := by
  unfold sfBlurRect
  rw [if_neg (by omega)]
  exact Grows.around (fun _ _ _ _ => blurPass_grows) (Int.le_refl 0) (by omega) m

lemma fits_of_blur {x y w h radius : Int} (confined : Confined clip (.blurRect s x y w h radius passes)) :
    (Call.blurRect s x y w h radius passes).Fits clip := by
  intro hr hp
  have hPositive : ∀ {x' y'}, (blurArea s x y w h).Has x' y' → 0 < w ∧ 0 < h := by
    intro x' y' has
    simp only [Rect.Has, blurArea] at has
    omega
  have hTouches := confined (fun _ => 0) fun _ => 1
  have hScratched : ∀ {x' y'}, (blurArea s x y w h).Has x' y' →
      x' - (blurArea s x y w h).x0 < sbufSize ∧ y' - (blurArea s x y w h).y0 < sbufSize := by
    intro x' y' has
    obtain ⟨hw, hh⟩ := hPositive has
    obtain ⟨t, -, hAfter⟩ := @sfBlurRect_pass s x y w h radius passes
      { mem := fun _ => 0, sbuf := fun _ => 1 } hr hp hw hh
    obtain ⟨hx, hy⟩ := @blurPass_scratched s t radius _ _ _ has
    have hIn : ∀ {i}, i ∈ (blurPass s (blurArea s x y w h) radius t).scratched → i < sbufSize :=
      fun hi => ((hTouches.scratched _ (hAfter.scratched _ hi)).resolve_left not_mem_nil).2
    exact ⟨hIn hx, hIn hy⟩
  have hCorner : ∀ {a : Rect}, a.x0 < a.x1 → a.y0 < a.y1 → a.Has (a.x1 - 1) (a.y1 - 1) := by
    intro a hx hy
    exact ⟨by omega, by omega, by omega, by omega⟩
  refine ⟨fun hx hy => ?_, fun hx hy => ?_, fun x' y' has => ?_⟩
  · have hLast := hScratched (hCorner hx hy)
    omega
  · have hLast := hScratched (hCorner hx hy)
    omega
  obtain ⟨hw, hh⟩ := hPositive has
  obtain ⟨t, hBefore, hAfter⟩ := @sfBlurRect_pass s x y w h radius passes
    { mem := fun _ => 0, sbuf := fun _ => 1 } hr hp hw hh
  have hBright : ∀ i, t.sbuf i ≠ 0 := hBefore.sbuf fun _ => (by decide : (1 : UInt32) ≠ 0)
  have hChanged := hAfter.mem (blurPass_grows.sbuf hBright) _ (@blurPass_mem s t radius _ _ _ has hBright)
  by_contra hOutside
  refine hChanged (hTouches.mem _ ?_)
  rintro ⟨x'', y'', hOk, hInside, hCell⟩
  obtain ⟨rfl, rfl⟩ := cell_inj (blurArea_inside has) hInside hCell
  exact hOutside hOk

/-- Drawing is confined exactly for the calls that fit. -/
theorem confined_iff_fits (clip : Clip) (call : Call) (noOverflow : call.NoOverflow) :
    Confined clip call ↔ call.Fits clip := by
  cases call with
  | hline s x y w c => exact iff_of_true (fun _ _ => sfHline_touches) trivial
  | vline s x y h c => exact iff_of_true (fun _ _ => sfVline_touches) trivial
  | fillRect s x y w h c => exact iff_of_true (fun _ _ => sfFillRect_touches) trivial
  | fillRectBlend s x y w h c => exact iff_of_true (fun _ _ => sfFillRectBlend_touches) trivial
  | roundRect s x y w h r c =>
    obtain ⟨hx, hy, hw, hh⟩ := noOverflow
    exact iff_of_true (fun _ _ => sfRoundRect_touches hx hw hy hh) trivial
  | blit dst dx dy src sx sy w h =>
    exact iff_of_true (confined_of_source rfl fun _ => sfBlit_touches) trivial
  | blitAlpha dst dx dy src sx sy w h =>
    exact iff_of_true (confined_of_source rfl fun _ => sfBlitAlpha_touches) trivial
  | iconTl s x y ico tint =>
    exact iff_of_true (confined_of_source rfl fun _ => sfIconTl_touches) trivial
  | blitScaled dst dx dy dw dh src sx sy sw sh =>
    obtain ⟨hx, -, hw, -⟩ := noOverflow
    exact ⟨fits_of_scaled, fun fits => confined_of_source rfl fun _ => sfBlitScaled_touches hx hw fits⟩
  | blurRect s x y w h radius passes =>
    exact ⟨fits_of_blur, fun fits => confined_of_source rfl fun _ => .unless fun _ => .loop fun _ _ _ m =>
      blurPass_touches (fits (by omega) (by omega)) fun _ _ => blurArea_inside⟩

def smallSurface : Surface where
  px := 16
  w := 4
  h := 4
  pitch := 4
  w_int := by decide
  h_int := by decide
  rows := by decide
  size := by decide

theorem blit_confined : (Call.blit smallSurface (-1) 2 smallSurface 0 0 4 4).NoOverflow ∧
      Confined (sfSetClip 1 1 2 2) (.blit smallSurface (-1) 2 smallSurface 0 0 4 4) := by
  have hInts : (Call.blit smallSurface (-1) 2 smallSurface 0 0 4 4).NoOverflow := by
    unfold Call.NoOverflow
    decide
  exact ⟨hInts, (confined_iff_fits _ _ hInts).mpr trivial⟩

/-- A blur of the whole surface changes the pixels outside the clip. -/
theorem blur_not_confined : (Call.blurRect smallSurface 0 0 4 4 1 1).NoOverflow ∧
      ¬ Confined (sfSetClip 0 0 1 1) (.blurRect smallSurface 0 0 4 4 1 1) := by
  refine ⟨by unfold Call.NoOverflow; decide, fun hConfined => ?_⟩
  have hFits := fits_of_blur hConfined (by decide) (by decide)
  exact absurd (hFits.ok 3 3 (by unfold Rect.Has; decide)) (by decide)

end YartOS.Gfx
