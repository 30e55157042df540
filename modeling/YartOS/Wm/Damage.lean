import Mathlib.Data.List.Induction
import Mathlib.Algebra.Order.Group.Int

/-! The rectangles that the compositor has to repaint. -/
namespace YartOS.Wm

open List

/-- A `GfxRect`; its sums are those of the integers. -/
structure GfxRect where
  x : Int
  y : Int
  w : Int
  h : Int

namespace GfxRect

variable (a b r c : GfxRect)

def empty : Bool := r.w ≤ 0 || r.h ≤ 0

def clip : GfxRect :=
  let x0 := max r.x c.x
  let y0 := max r.y c.y
  ⟨x0, y0, min (r.x + r.w) (c.x + c.w) - x0, min (r.y + r.h) (c.y + c.h) - y0⟩

def colide : Bool := a.x < b.x + b.w && b.x < a.x + a.w && a.y < b.y + b.h && b.y < a.y + a.h

def merge : GfxRect :=
  let x0 := min a.x b.x
  let y0 := min a.y b.y
  ⟨x0, y0, max (a.x + a.w) (b.x + b.w) - x0, max (a.y + a.h) (b.y + b.h) - y0⟩

def Has (x y : Int) : Prop := r.x ≤ x ∧ x < r.x + r.w ∧ r.y ≤ y ∧ y < r.y + r.h

/-- Not empty, and on a screen of `w` by `h` pixels. -/
def On (w h : Int) : Prop := 0 ≤ r.x ∧ 0 < r.w ∧ r.x + r.w ≤ w ∧ 0 ≤ r.y ∧ 0 < r.h ∧ r.y + r.h ≤ h

end GfxRect

def maxDirty : Nat := 32

/-- The loop of `damage_add`. -/
def mergeFirst (r : GfxRect) : List GfxRect → Option (List GfxRect)
  | [] => none
  | q :: dirty => if q.colide r then some (q.merge r :: dirty) else (mergeFirst r dirty).map (q :: ·)

def damageWhole (w h : Int) : List GfxRect := [⟨0, 0, w, h⟩]

def damageAdd (w h : Int) (dirty : List GfxRect) (r : GfxRect) : List GfxRect :=
  let r' := r.clip ⟨0, 0, w, h⟩
  if r.empty then dirty
  else if r'.empty then dirty
  else (mergeFirst r' dirty).getD (if dirty.length < maxDirty then dirty ++ [r'] else damageWhole w h)

variable {w h x y : Int} {r : GfxRect} {dirty dirty' : List GfxRect}

def Covered (dirty : List GfxRect) (x y : Int) : Prop := ∃ q ∈ dirty, q.Has x y

lemma covered_cons {q : GfxRect} : Covered (q :: dirty) x y ↔ q.Has x y ∨ Covered dirty x y := by simp [Covered]

/-- `dirty'` is on the screen, and covers what `dirty` and `r` cover. -/
structure Adds (w h : Int) (r : GfxRect) (dirty dirty' : List GfxRect) : Prop where
  on : ∀ q ∈ dirty', q.On w h
  covers : ∀ x y, Covered dirty x y ∨ r.Has x y → Covered dirty' x y

lemma mergeFirst_adds (hr : r.On w h) (on : ∀ q ∈ dirty, q.On w h) (found : mergeFirst r dirty = some dirty') :
    dirty'.length = dirty.length ∧ Adds w h r dirty dirty' := by
  induction dirty generalizing dirty' with
  | nil => cases found
  | cons q dirty ih =>
    obtain ⟨hq, on⟩ := forall_mem_cons.mp on
    rw [mergeFirst] at found
    split_ifs at found
    · cases found
      refine ⟨rfl, forall_mem_cons.mpr ⟨?_, on⟩, fun x y => ?_⟩
      · simp only [GfxRect.On, GfxRect.merge] at *
        omega
      · rw [covered_cons, covered_cons, or_right_comm]
        refine Or.imp_left fun hHas => ?_
        simp only [GfxRect.Has, GfxRect.merge] at *
        omega
    · obtain ⟨rest, hRest, rfl⟩ := Option.map_eq_some_iff.mp found
      obtain ⟨hLength, hOn, covers⟩ := ih on hRest
      refine ⟨by simp [hLength], forall_mem_cons.mpr ⟨hq, hOn⟩, fun x y => ?_⟩
      rw [covered_cons, covered_cons, or_assoc]
      exact Or.imp_right (covers x y)

/-- One call: `r` counts for its part on the screen. -/
lemma damageAdd_adds (few : dirty.length ≤ maxDirty) (on : ∀ q ∈ dirty, q.On w h) (r : GfxRect) :
    (damageAdd w h dirty r).length ≤ maxDirty ∧ Adds w h (r.clip ⟨0, 0, w, h⟩) dirty (damageAdd w h dirty r) := by
  have empty_iff : ∀ q : GfxRect, q.empty ↔ q.w ≤ 0 ∨ q.h ≤ 0 := by simp [GfxRect.empty]
  have hEmpty : r.empty ∨ (r.clip ⟨0, 0, w, h⟩).empty → ∀ x y, ¬ (r.clip ⟨0, 0, w, h⟩).Has x y := by
    simp only [empty_iff, GfxRect.clip, GfxRect.Has]
    omega
  have hOn : ¬ (r.clip ⟨0, 0, w, h⟩).empty → (r.clip ⟨0, 0, w, h⟩).On w h := by
    simp only [empty_iff, GfxRect.clip, GfxRect.On]
    omega
  simp only [damageAdd]
  generalize r.clip ⟨0, 0, w, h⟩ = r' at *
  split
  · rename_i hr
    exact ⟨few, on, fun x y hHas => hHas.resolve_right (hEmpty (.inl hr) x y)⟩
  split
  · rename_i hr
    exact ⟨few, on, fun x y hHas => hHas.resolve_right (hEmpty (.inr hr) x y)⟩
  rename_i hr
  replace hOn := hOn hr
  cases found : mergeFirst r' dirty with
  | some dirty' =>
    obtain ⟨hLength, adds⟩ := mergeFirst_adds hOn on found
    exact ⟨hLength.trans_le few, adds⟩
  | none =>
    rw [Option.getD_none]
    split_ifs with hRoom
    · refine ⟨by simpa using Nat.succ_le_of_lt hRoom, forall_mem_append.mpr ⟨on, by simpa using hOn⟩, fun x y => ?_⟩
      simp [Covered, or_and_right, exists_or]
    · have within : ∀ {q : GfxRect} {x y}, q.On w h → q.Has x y → GfxRect.Has ⟨0, 0, w, h⟩ x y := by
        simp only [GfxRect.On, GfxRect.Has]
        omega
      refine ⟨show 1 ≤ 32 by decide, forall_mem_singleton.mpr ⟨le_rfl, ?_⟩, fun x y hHas => ⟨_, mem_cons_self, ?_⟩⟩
      · simp only [GfxRect.On] at *
        omega
      · exact hHas.elim (fun ⟨q, hq, hHas⟩ => within (on q hq) hHas) (within hOn)

/-- Every damaged pixel on the screen is in one of the rectangles that are kept. -/
theorem damage_covered (w h : Int) (rs : List GfxRect) : let dirty := rs.foldl (damageAdd w h) []
    dirty.length ≤ maxDirty ∧ (∀ q ∈ dirty, q.On w h) ∧
      ∀ r ∈ rs, ∀ x y, r.Has x y → GfxRect.Has ⟨0, 0, w, h⟩ x y → Covered dirty x y := by
  induction rs using reverseRecOn with
  | nil => exact ⟨Nat.zero_le _, nofun, nofun⟩
  | append_singleton rs r ih =>
    obtain ⟨few, on, covered⟩ := ih
    obtain ⟨few', on', covers⟩ := damageAdd_adds few on r
    simp only [foldl_append]
    refine ⟨few', on', fun q hq x y hHas hScreen => covers x y ?_⟩
    rcases mem_append.mp hq with hq | hq
    · exact .inl (covered q hq x y hHas hScreen)
    · cases mem_singleton.mp hq
      refine .inr ?_
      simp only [GfxRect.Has, GfxRect.clip] at *
      omega

end YartOS.Wm
