import YartOS.Mm.Counting
import YartOS.Mm.Tidy

/-! The calls of one process keep the counts of frames exact. -/
namespace YartOS.Mm

open Programs Tally

/-- Exact counts for the process and `other` holders, and a sound process. -/
structure Exact (reserved : Nat → Prop) (other : Nat → Nat) (m : Mem) : Prop where
  balanced : Balanced reserved other (fun _ => 0) m
  sound : m.proc.Sound

namespace Exact

variable {reserved : Nat → Prop} {other : Nat → Nat} {m m' : Mem} {va npages : Nat}
  {flags : PteFlags} {write r : Bool} {u : Unit}

variable (h : Exact reserved other m)

include h

lemma fault (step : Fault va write m r m') : Exact reserved other m' := ⟨h.balanced.fault step, h.sound.fault step⟩

lemma kernelWrite {b : Nat} (run : kernelWrite va b m = some (u, m')) : Exact reserved other m' :=
  ⟨h.balanced.kernelWrite run, h.sound.kernelWrite run⟩

lemma reserve (hFits : reserveFits m va npages) : Exact reserved other (m.reserve va npages flags) := by
  simp only [reserveFits, Bool.and_eq_true] at hFits
  exact ⟨h.balanced.of_eq h.balanced.counted (fun _ => rfl) fun _ => rfl, h.sound.reserve hFits.1 _ _⟩

/-- Mapping pages that have no entry yet, inside the regions. -/
lemma mapFresh_forM {ns : List Nat} (nodup : ns.Nodup)
    (inside : ∀ n ∈ ns, n ∈ regionPages m.proc.regions) (absent : ∀ n ∈ ns, m.leaf n = none)
    (run : ns.forM (mapFresh flags) m = some (u, m')) : Exact reserved other m' := by
  induction ns generalizing m with
  | nil => exact (of_pure run).2 ▸ h
  | cons n ns ih =>
    obtain ⟨_, t, map, rest⟩ := of_bind run
    obtain ⟨hn, nodup⟩ := List.nodup_cons.mp nodup
    have hPage := inside n (by simp)
    have regions := mapFresh_regions map
    have balanced := h.balanced.mapFresh (fun f => by rw [absent n (by simp), entryRefs_none]) map
    have tidy := h.sound.tidy.mapFresh (fun p => ⟨lt_userHalf_of_mem h.sound.laid.placed hPage, .inl hPage⟩) map
    refine ih ⟨balanced, h.sound.of_tidy regions tidy⟩ nodup (fun k hk => ?_) (fun k hk => ?_) rest
    · rw [regions]
      exact inside k (by simp [hk])
    · rw [mapFresh_leaf_ne map (by rintro rfl; exact hn hk)]
      exact absent k (by simp [hk])

lemma vmmUserReserve {eager : Bool} (absent : eager → ∀ n ∈ (newRegion va npages flags).pages, m.leaf n = none)
    (run : vmmUserReserve va npages flags eager m = some (r, m')) : Exact reserved other m' := by
  obtain ⟨-, -, rfl⟩ | ⟨-, hFits, map⟩ := vmmUserReserve_cases run
  · exact h
  have reserved : Exact reserved other (m.reserve va npages flags) := h.reserve hFits
  cases eager with
  | false => exact (of_pure map).2 ▸ reserved
  | true =>
    have hOk : reserveOk m.proc.regions va npages := by
      simp only [reserveFits, Bool.and_eq_true] at hFits
      exact hFits.1
    refine reserved.mapFresh_forM (placed_of_reserveOk hOk).nodup_pages (fun n hn => ?_) (fun n hn => ?_) map
    · exact mem_regionPages.mpr ⟨_, List.mem_append_right _ (by simp), hn⟩
    · exact absent rfl n hn

lemma vmmUserRelease (run : vmmUserRelease va m = some (r, m')) : Exact reserved other m' := by
  obtain ⟨-, rfl⟩ | ⟨i, region, -, -, hRegion, rfl⟩ := vmmUserRelease_cases run
  · exact h
  have balanced := h.balanced.foldl_vmmUnmap region.pages
  have sound := h.sound.foldl_vmmUnmap region.pages
  have gone := fun n (hn : n ∈ region.pages) => leaf_foldl_vmmUnmap h.sound hn
  have regions := foldl_vmmUnmap_regions m region.pages
  generalize region.pages.foldl vmmUnmap m = t at *
  rw [← regions] at hRegion
  obtain ⟨laid, stays⟩ := sound.laid.dropRegion hRegion
  refine ⟨balanced.of_eq balanced.counted (fun _ => rfl) fun _ => rfl, laid, fun n e he => ?_, sound.tidy.tables⟩
  have ok := sound.tidy.leaves n e he
  cases e with
  | swapped slot => exact ok
  | present p flags =>
    refine ⟨ok.1, ok.2.imp_left fun hn => stays n hn fun hPage => ?_⟩
    exact absurd (gone n hPage) (by simp [Mem.leaf, show t.proc.leaves.lookup n = _ from he])

lemma vmmUserTeardownAll : Exact reserved other (vmmUserTeardownAll m) := by
  have balanced := h.balanced.foldl_vmmUnmap (regionPages m.proc.regions)
  have sound := h.sound.foldl_vmmUnmap (regionPages m.proc.regions)
  have gone := fun n (hn : n ∈ regionPages m.proc.regions) => leaf_foldl_vmmUnmap h.sound hn
  have regions := foldl_vmmUnmap_regions m (regionPages m.proc.regions)
  change Exact _ _ { (regionPages m.proc.regions).foldl vmmUnmap m with proc.regions := [] }
  generalize hPages : regionPages m.proc.regions = pages at *
  generalize pages.foldl vmmUnmap m = t at *
  refine ⟨balanced.of_eq balanced.counted (fun _ => rfl) fun _ => rfl, Laid.nil, fun n e he => ?_, sound.tidy.tables⟩
  have ok := sound.tidy.leaves n e he
  cases e with
  | swapped slot => exact ok
  | present p flags =>
    refine ⟨ok.1, ok.2.imp_left fun hn => ?_⟩
    rw [regions, hPages] at hn
    exact absurd (gone n hn) (by simp [Mem.leaf, show t.proc.leaves.lookup n = _ from he])

lemma linuxMmap {files : Nat → Option (List Nat)} {a : MmapArgs} {result : Except MmapError Nat} (none : a.len ≠ 0 → a.NoFallback m)
    (run : linuxMmap files a m = some (result, m')) : Exact reserved other m' :=
  linuxMmap_induction (fun _ _ _ _ h hFits => h.reserve hFits)
    (fun _ _ h => ⟨h.balanced.of_eq h.balanced.counted (fun _ => rfl) fun _ => rfl,
      h.sound.laid, h.sound.tidy.leaves, h.sound.tidy.tables⟩)
    (fun _ _ _ _ _ h write => h.kernelWrite write) none h run

end Exact

end YartOS.Mm
