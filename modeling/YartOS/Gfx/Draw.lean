import YartOS.Lib.Loops
import Mathlib.Data.UInt

/-! The drawing calls that the compositor repaints with. Memory is a row of 32-bit cells. Sums of
coordinates and twice a radius are those of the integers; products are taken modulo 2³². -/
namespace YartOS.Gfx

open Loops

def IsInt (n : Int) : Prop := -2 ^ 31 ≤ n ∧ n < 2 ^ 31

instance (n : Int) : Decidable (IsInt n) := inferInstanceAs (Decidable (_ ∧ _))

/-- The value of an `int` product. -/
def int (n : Int) : Int := Int.bmod n (2 ^ 32)

def u32 (n : Int) : Int := n % 2 ^ 32

/-- A `surface_t` or `icon_t`; `px` is zero for a null pointer. -/
structure Surface where
  px : Int
  w : Int
  h : Int
  pitch : Int
  w_int : 0 ≤ w ∧ w < 2 ^ 31
  h_int : 0 ≤ h ∧ h < 2 ^ 31
  /-- Rows do not overlap. -/
  rows : w ≤ pitch
  /-- The offset of a pixel is an `int`. -/
  size : h * pitch ≤ 2 ^ 31

def Surface.cell (s : Surface) (x y : Int) : Int := s.px + y * s.pitch + x

def Surface.Inside (s : Surface) (x y : Int) : Prop := 0 ≤ x ∧ x < s.w ∧ 0 ≤ y ∧ y < s.h

structure Clip where
  on : Bool
  x0 : Int
  y0 : Int
  x1 : Int
  y1 : Int

def sfSetClip (x y w h : Int) : Clip := ⟨true, x, y, x + w, y + h⟩

def Clip.ok (clip : Clip) (x y : Int) : Bool := !clip.on || (clip.x0 ≤ x && x < clip.x1 && clip.y0 ≤ y && y < clip.y1)

/-! The memory, and what has been read of it. -/

/-- The cells, the scratch row `sbuf`, and lists of what was read or used, which the code does not
keep. -/
structure Canvas where
  mem : Int → UInt32
  sbuf : Int → UInt32
  fetched : List Int := []
  scratched : List Int := []

namespace Canvas

variable (m : Canvas)

def update (a n : Int) (f : UInt32 → UInt32) : Canvas :=
  { m with mem := fun b => if a ≤ b ∧ b < a + n then f (m.mem b) else m.mem b }

def store (a : Int) (c : UInt32) : Canvas := m.update a 1 fun _ => c

def copy (d s n : Int) : Canvas :=
  { m with
    mem := fun b => if d ≤ b ∧ b < d + n then m.mem (s + (b - d)) else m.mem b
    fetched := m.fetched ++ (List.range n.toNat).map fun (k : Nat) => s + k }

def fetch (a : Int) : Canvas := { m with fetched := m.fetched ++ [a] }

def scratch (i : Int) (c : UInt32) : Canvas :=
  { m with sbuf := Function.update m.sbuf i c, scratched := m.scratched ++ [i] }

def unscratch (a i : Int) : Canvas :=
  { m.store a (m.sbuf i) with scratched := m.scratched ++ [i] }

end Canvas

/-! Colours. -/

def alpha (c : UInt32) : UInt32 := (c >>> 24) &&& 0xFF

def red (c : UInt32) : UInt32 := (c >>> 16) &&& 0xFF

def green (c : UInt32) : UInt32 := (c >>> 8) &&& 0xFF

def blue (c : UInt32) : UInt32 := c &&& 0xFF

def argb (a r g b : UInt32) : UInt32 := (a <<< 24) ||| (r <<< 16) ||| (g <<< 8) ||| b

def mix (s d sa : UInt32) : UInt32 := (s * sa + d * (255 - sa) + 127) / 255

/-- One lane of the SSE2 blend: sixteen bits, and a division by multiplication. -/
def mixSse2 (s d sa : UInt32) : UInt32 :=
  let y : UInt16 := s.toUInt16 * sa.toUInt16 + d.toUInt16 * (255 - sa).toUInt16 + 127
  ((y + (y >>> 8) + 1) >>> 8).toUInt32

def laid (mix : UInt32 → UInt32 → UInt32 → UInt32) (c d : UInt32) : UInt32 :=
  (0xFF000000 : UInt32) ||| (mix (red c) (red d) (alpha c) <<< 16) ||| (mix (green c) (green d) (alpha c) <<< 8) |||
    mix (blue c) (blue d) (alpha c)

/-! Pixels and rows. -/

variable (clip : Clip) (s dst src : Surface)

def sfPutpx (x y : Int) (c : UInt32) (m : Canvas) : Canvas :=
  if u32 x < u32 s.w ∧ u32 y < u32 s.h ∧ clip.ok x y then m.store (s.px + int (y * s.pitch + x)) c else m

def sfPutpxBlend (x y : Int) (c : UInt32) (m : Canvas) : Canvas :=
  if u32 s.w ≤ u32 x ∨ u32 s.h ≤ u32 y ∨ !clip.ok x y then m
  else if alpha c = 0 then m
  else
    let d := s.px + int (y * s.pitch + x)
    if alpha c = 255 then m.store d c else m.update d 1 (laid mix c)

def fillRow (p w : Int) (c : UInt32) (m : Canvas) : Canvas :=
  let i := if 4 * p % 8 = 0 then w - w % 2 else 0
  forUpTo i w (fun i m => m.store (p + i) c) (forUpTo 0 (i / 2) (fun k m => m.update (p + 2 * k) 2 fun _ => c) m)

/-- `blend_row_sse2`: four cells at a time, and the rest one by one. -/
def blendRowSse2 (p n : Int) (c : UInt32) (m : Canvas) : Canvas :=
  if alpha c = 255 then forUpTo 0 n (fun i m => m.store (p + i) (argb 255 (red c) (green c) (blue c))) m
  else
    let i := if 0 < n then n - n % 4 else 0
    forUpTo i n (fun i m => m.update (p + i) 1 (laid mix c))
      (forUpTo 0 (i / 4) (fun k m => m.update (p + 4 * k) 4 (laid mixSse2 c)) m)

/-- `w` cells, in groups of four and of two as the alignment allows. -/
def copyRow (dp sp w : Int) (m : Canvas) : Canvas :=
  let i₁ := if 4 * sp % 16 = 0 ∧ 4 * dp % 16 = 0 then w - w % 4 else 0
  let i₂ := if 4 * sp % 8 = 0 ∧ 4 * dp % 8 = 0 then w - w % 2 else i₁
  forUpTo i₂ w (fun i m => m.copy (dp + i) (sp + i) 1)
    (forUpTo (i₁ / 2) (i₂ / 2) (fun k m => m.copy (dp + 2 * k) (sp + 2 * k) 2)
      (forUpTo 0 (i₁ / 4) (fun k m => m.copy (dp + 4 * k) (sp + 4 * k) 4) m))

structure Span where
  pos : Int
  len : Int

def Span.low (v : Span) (lo : Int) : Span := if v.pos < lo then ⟨lo, v.len - (lo - v.pos)⟩ else v

def Span.high (v : Span) (hi : Int) : Span := if hi < v.pos + v.len then ⟨v.pos, hi - v.pos⟩ else v

def Span.clipped (v : Span) (on : Bool) (lo hi : Int) : Span := if on then (v.low lo).high hi else v

def sfHline (x y w : Int) (c : UInt32) (m : Canvas) : Canvas :=
  if s.px = 0 then m
  else if y < 0 ∨ s.h ≤ y then m
  else if clip.on ∧ (y < clip.y0 ∨ clip.y1 ≤ y) then m
  else
    let v := (Span.clipped ⟨x, w⟩ clip.on clip.x0 clip.x1).low 0
    if v.len ≤ 0 then m
    else
      let v := v.high s.w
      if v.len ≤ 0 then m else fillRow (s.cell v.pos y) v.len c m

def sfVline (x y h : Int) (c : UInt32) (m : Canvas) : Canvas :=
  if s.px = 0 then m
  else if x < 0 ∨ s.w ≤ x then m
  else if clip.on ∧ (x < clip.x0 ∨ clip.x1 ≤ x) then m
  else
    let v := (Span.clipped ⟨y, h⟩ clip.on clip.y0 clip.y1).low 0
    if v.len ≤ 0 then m
    else
      let v := v.high s.h
      if v.len ≤ 0 then m
      else forUpTo 0 v.len (fun i m => m.store (s.cell x v.pos + i * s.pitch) c) m

def sfFillRect (x y w h : Int) (c : UInt32) (m : Canvas) : Canvas :=
  if w ≤ 0 ∨ h ≤ 0 then m
  else
    let x0 := max x 0
    let x1 := min (x + w) s.w
    forUpTo (max y 0) (min (y + h) s.h) (fun yy m => sfHline clip s x0 yy (x1 - x0) c m) m

def sfFillRectBlend (x y w h : Int) (c : UInt32) (m : Canvas) : Canvas :=
  if w ≤ 0 ∨ h ≤ 0 then m
  else
    let x0 := max (if clip.on then max x clip.x0 else x) 0
    let y0 := max (if clip.on then max y clip.y0 else y) 0
    let x1 := min (if clip.on then min (x + w) clip.x1 else x + w) s.w
    let y1 := min (if clip.on then min (y + h) clip.y1 else y + h) s.h
    if alpha c = 255 then sfFillRect clip s x0 y0 (x1 - x0) (y1 - y0) c m
    else if alpha c = 0 then m
    else forUpTo y0 y1 (fun yy m => blendRowSse2 (s.cell x0 yy) (x1 - x0) c m) m

def corners (x y w h r dx dy : Int) (c : UInt32) (m : Canvas) : Canvas :=
  sfPutpx clip s (x + w - r + dx) (y + h - r + dy) c (sfPutpx clip s (x + r - 1 - dx) (y + h - r + dy) c
      (sfPutpx clip s (x + w - r + dx) (y + r - 1 - dy) c (sfPutpx clip s (x + r - 1 - dx) (y + r - 1 - dy) c m)))

def sfRoundRect (x y w h r : Int) (c : UInt32) (m : Canvas) : Canvas :=
  if w ≤ 0 ∨ h ≤ 0 then m
  else if r ≤ 0 then sfFillRect clip s x y w h c m
  else
    let r := if w < r * 2 then w / 2 else r
    let r := if h < r * 2 then h / 2 else r
    let m := sfFillRect clip s (x + r) y (w - 2 * r) h c m
    let m := sfFillRect clip s x (y + r) r (h - 2 * r) c m
    let m := sfFillRect clip s (x + w - r) (y + r) r (h - 2 * r) c m
    forUpTo 0 r (fun dy m => forUpTo 0 r (fun dx m =>
      if int (dx * dx + dy * dy) ≤ int ((r - 1) * (r - 1)) then corners clip s x y w h r dx dy c m else m) m) m

/-! Copying. -/

structure Strip where
  src : Int
  dst : Int
  len : Int

namespace Strip

variable (v : Strip)

def srcLow : Strip := if v.src < 0 then ⟨0, v.dst - v.src, v.len + v.src⟩ else v

def srcHigh (size : Int) : Strip := if size < v.src + v.len then ⟨v.src, v.dst, size - v.src⟩ else v

def dstLow (lo : Int) : Strip :=
  if v.dst < lo then ⟨v.src + (lo - v.dst), lo, v.len - (lo - v.dst)⟩ else v

def dstHigh (hi : Int) : Strip := if hi < v.dst + v.len then ⟨v.src, v.dst, hi - v.dst⟩ else v

def clipped (on : Bool) (lo hi : Int) : Strip := if on then (v.dstLow lo).dstHigh hi else v

end Strip

/-- The clipping that `sf_blit` and `sf_blit_alpha` share. -/
def blitArea (X Y : Strip) : Option (Strip × Strip) := do
  let X := X.srcLow
  let Y := Y.srcLow
  guard (X.src < src.w ∧ Y.src < src.h)
  let X := X.srcHigh src.w
  let Y := Y.srcHigh src.h
  guard (0 < X.len ∧ 0 < Y.len)
  let X := X.dstLow 0
  let Y := Y.dstLow 0
  guard (X.dst < dst.w ∧ Y.dst < dst.h)
  let X := X.dstHigh dst.w
  let Y := Y.dstHigh dst.h
  guard (0 < X.len ∧ 0 < Y.len)
  let X := X.clipped clip.on clip.x0 clip.x1
  let Y := Y.clipped clip.on clip.y0 clip.y1
  guard (0 < X.len ∧ 0 < Y.len)
  guard (0 ≤ X.src ∧ 0 ≤ Y.src ∧ X.src < src.w ∧ Y.src < src.h)
  let X := X.srcHigh src.w
  let Y := Y.srcHigh src.h
  guard (0 < X.len ∧ 0 < Y.len)
  return (X, Y)

def blitRecheck (X Y : Strip) : Option (Strip × Strip) := do
  guard (0 ≤ X.dst ∧ 0 ≤ Y.dst ∧ X.dst < dst.w ∧ Y.dst < dst.h)
  let X := X.dstHigh dst.w
  let Y := Y.dstHigh dst.h
  guard (0 < X.len ∧ 0 < Y.len)
  return (X, Y)

def nothingToBlit (w h : Int) : Prop :=
  dst.px = 0 ∨ src.px = 0 ∨ w ≤ 0 ∨ h ≤ 0 ∨ src.w ≤ 0 ∨ src.h ≤ 0 ∨ dst.w ≤ 0 ∨ dst.h ≤ 0

instance (w h : Int) : Decidable (nothingToBlit dst src w h) := inferInstanceAs (Decidable (_ ∨ _))

/-- The rows of a blit; a row outside one of the surfaces is skipped. -/
def blitRows (Y : Strip) (row : Int → Int → Canvas → Canvas) (m : Canvas) : Canvas :=
  forUpTo 0 Y.len (fun j m =>
    let sy := Y.src + j
    let dy := Y.dst + j
    if sy < 0 ∨ src.h ≤ sy ∨ dy < 0 ∨ dst.h ≤ dy then m else row sy dy m) m

def sfBlit (dx dy sx sy w h : Int) (m : Canvas) : Canvas :=
  if nothingToBlit dst src w h then m
  else
    match (blitArea clip dst src ⟨sx, dx, w⟩ ⟨sy, dy, h⟩).bind fun (X, Y) => blitRecheck dst X Y with
    | none => m
    | some (X, Y) =>
      blitRows dst src Y (fun sy dy m => copyRow (dst.cell X.dst dy) (src.cell X.src sy) X.len m) m

def sfBlitAlpha (dx dy sx sy w h : Int) (m : Canvas) : Canvas :=
  if nothingToBlit dst src w h then m
  else
    match blitArea clip dst src ⟨sx, dx, w⟩ ⟨sy, dy, h⟩ with
    | none => m
    | some (X, Y) =>
      blitRows dst src Y (fun sy dy m => forUpTo 0 X.len (fun i m =>
        let a := src.cell X.src sy + i
        let c := m.mem a
        let m := m.fetch a
        if alpha c = 0 then m else sfPutpxBlend clip dst (X.dst + i) dy c m) m) m

def clampTo (size n : Int) : Int :=
  let n := if n < 0 then 0 else n
  if size ≤ n then size - 1 else n

def sfBlitScaled (dx dy dw dh sx sy sw sh : Int) (m : Canvas) : Canvas :=
  if dw ≤ 0 ∨ dh ≤ 0 ∨ sw ≤ 0 ∨ sh ≤ 0 ∨ src.px = 0 then m
  else forUpTo 0 dh (fun j m =>
    let syy := clampTo src.h (sy + (int (j * sh)).tdiv dh)
    if dy + j < 0 ∨ dst.h ≤ dy + j then m
    else forUpTo 0 dw (fun i m =>
      let sxx := clampTo src.w (sx + (int (i * sw)).tdiv dw)
      let a := src.cell sxx syy
      sfPutpx clip dst (dx + i) (dy + j) (m.mem a) (m.fetch a)) m) m

def iconColour (sp tint : UInt32) : UInt32 :=
  let sa := alpha sp
  if tint ≠ 0 then argb sa (red tint) (green tint) (blue tint) else argb sa (blue sp) (green sp) (red sp)

def sfIconTl (ico : Surface) (x y : Int) (tint : UInt32) (m : Canvas) : Canvas :=
  if ico.px = 0 ∨ ico.w = 0 ∨ ico.h = 0 then m
  else forUpTo 0 ico.h (fun j m =>
    let yy := y + j
    if yy < 0 ∨ s.h ≤ yy then m
    else forUpTo 0 ico.w (fun i m =>
      let xx := x + i
      if xx < 0 ∨ s.w ≤ xx ∨ !clip.ok xx yy then m
      else
        let a := ico.px + j * ico.pitch + i
        let sp := m.mem a
        let m := m.fetch a
        if alpha sp = 0 then m
        else
          let c := iconColour sp tint
          let d := s.px + yy * s.pitch + x + i
          if alpha sp = 255 then m.store d c else m.update d 1 (laid mix c)) m) m

/-! The blur. -/

def sbufSize : Int := 2048

structure Sums where
  r : Nat := 0
  g : Nat := 0
  b : Nat := 0
  cnt : Nat := 0

def Sums.add (t : Sums) (c : UInt32) : Sums :=
  ⟨t.r + (red c).toNat, t.g + (green c).toNat, t.b + (blue c).toNat, t.cnt + 1⟩

def Sums.mean (t : Sums) : UInt32 :=
  (0xFF000000 : UInt32) ||| (UInt32.ofNat (t.r / t.cnt) <<< 16) ||| (UInt32.ofNat (t.g / t.cnt) <<< 8) |||
    UInt32.ofNat (t.b / t.cnt)

/-- The mean around `centre`; beyond `lo` and `hi` the outermost cell counts. -/
def boxMean (cell : Int → Int) (lo hi radius centre : Int) (m : Canvas) : UInt32 × Canvas :=
  let r := forUpTo (-radius) (radius + 1) (fun k (t : Sums × Canvas) =>
    let n := centre + k
    let a := cell (if n < lo then lo else if hi ≤ n then hi - 1 else n)
    (t.1.add (t.2.mem a), t.2.fetch a)) (({} : Sums), m)
  (r.1.mean, r.2)

def boxMeans (cell : Int → Int) (lo hi radius : Int) (m : Canvas) : Canvas :=
  forUpTo lo hi (fun n m =>
    let r := boxMean cell lo hi radius n m
    r.2.scratch (n - lo) r.1) m

def blurRow (x0 x1 radius yy : Int) (m : Canvas) : Canvas :=
  let sw := min (x1 - x0) sbufSize
  forUpTo 0 sw (fun i m => m.unscratch (s.cell x0 yy + i) i) (boxMeans (fun xx => s.cell xx yy) x0 x1 radius m)

def blurColumn (y0 y1 radius xx : Int) (m : Canvas) : Canvas :=
  forUpTo y0 y1 (fun yy m => m.unscratch (s.cell xx yy) (yy - y0)) (boxMeans (fun yy => s.cell xx yy) y0 y1 radius m)

structure Rect where
  x0 : Int
  y0 : Int
  x1 : Int
  y1 : Int

def blurArea (x y w h : Int) : Rect := ⟨max x 0, max y 0, min (x + w) s.w, min (y + h) s.h⟩

def blurPass (a : Rect) (radius : Int) (m : Canvas) : Canvas :=
  forUpTo a.x0 a.x1 (blurColumn s a.y0 a.y1 radius) (forUpTo a.y0 a.y1 (blurRow s a.x0 a.x1 radius) m)

def sfBlurRect (x y w h radius passes : Int) (m : Canvas) : Canvas :=
  if radius < 1 ∨ passes < 1 ∨ w ≤ 0 ∨ h ≤ 0 then m
  else forUpTo 0 passes (fun _ m => blurPass s (blurArea s x y w h) radius m) m

/-! The calls. -/

inductive Call where
  | hline (s : Surface) (x y w : Int) (c : UInt32)
  | vline (s : Surface) (x y h : Int) (c : UInt32)
  | fillRect (s : Surface) (x y w h : Int) (c : UInt32)
  | fillRectBlend (s : Surface) (x y w h : Int) (c : UInt32)
  | roundRect (s : Surface) (x y w h r : Int) (c : UInt32)
  | blit (dst : Surface) (dx dy : Int) (src : Surface) (sx sy w h : Int)
  | blitScaled (dst : Surface) (dx dy dw dh : Int) (src : Surface) (sx sy sw sh : Int)
  | blitAlpha (dst : Surface) (dx dy : Int) (src : Surface) (sx sy w h : Int)
  | iconTl (s : Surface) (x y : Int) (ico : Surface) (tint : UInt32)
  | blurRect (s : Surface) (x y w h radius passes : Int)

namespace Call

def run (clip : Clip) : Call → Canvas → Canvas
  | hline s x y w c => sfHline clip s x y w c
  | vline s x y h c => sfVline clip s x y h c
  | fillRect s x y w h c => sfFillRect clip s x y w h c
  | fillRectBlend s x y w h c => sfFillRectBlend clip s x y w h c
  | roundRect s x y w h r c => sfRoundRect clip s x y w h r c
  | blit dst dx dy src sx sy w h => sfBlit clip dst src dx dy sx sy w h
  | blitScaled dst dx dy dw dh src sx sy sw sh => sfBlitScaled clip dst src dx dy dw dh sx sy sw sh
  | blitAlpha dst dx dy src sx sy w h => sfBlitAlpha clip dst src dx dy sx sy w h
  | iconTl s x y ico tint => sfIconTl clip s ico x y tint
  | blurRect s x y w h radius passes => sfBlurRect s x y w h radius passes

def target : Call → Surface
  | hline s .. | vline s .. | fillRect s .. | fillRectBlend s .. | roundRect s .. | iconTl s ..
  | blurRect s .. => s
  | blit dst .. | blitScaled dst .. | blitAlpha dst .. => dst

def source : Call → Option Surface
  | hline .. | vline .. | fillRect .. | fillRectBlend .. | roundRect .. => none
  | blit _ _ _ src .. | blitScaled _ _ _ _ _ src .. | blitAlpha _ _ _ src .. => some src
  | iconTl _ _ _ ico _ => some ico
  | blurRect s .. => some s

end Call

end YartOS.Gfx
