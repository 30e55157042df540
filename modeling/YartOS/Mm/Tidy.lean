import YartOS.Mm.Machine

/-! The shape of an address space: regions are disjoint, and mapped pages are in them or kernel
buffers. -/
namespace YartOS.Mm

open Programs Tally List

structure Region.Placed (r : Region) : Prop where
  aligned : r.start % pageSize = 0
  floor : userVfloor ≤ r.start
  ordered : r.start ≤ r.finish
  top : r.finish ≤ userStackTop

variable {r : Region} {rs : List Region} {i : Nat}

lemma Region.Placed.mem_pages_iff (h : r.Placed) (n : Nat) :
    n ∈ r.pages ↔ r.start ≤ n * pageSize ∧ n * pageSize < r.finish := by
  obtain ⟨aligned, -, ordered, top⟩ := h
  have hFinish : r.finish % pageSize = 0 := by
    unfold Region.finish wrap pageSize at *
    omega
  unfold pageSize userStackTop at *
  simp only [Region.pages, pagesFrom, mem_map, mem_range]
  constructor
  · rintro ⟨i, hi, rfl⟩
    unfold vpn wrap pageSize at *
    omega
  intro hn
  refine ⟨n - r.start / 4096, ?_, ?_⟩
  · unfold pageSize
    omega
  · unfold vpn wrap pageSize
    omega

lemma Region.Placed.nodup_pages (h : r.Placed) : r.pages.Nodup := by
  obtain ⟨aligned, -, ordered, top⟩ := h
  refine List.Nodup.map_on ?_ nodup_range
  intro i hi j hj heq
  rw [mem_range] at hi hj
  unfold vpn wrap pageSize userStackTop at *
  omega

def regionPages (rs : List Region) : List Nat := rs.flatMap Region.pages

lemma mem_regionPages {n : Nat} : n ∈ regionPages rs ↔ ∃ r ∈ rs, n ∈ r.pages := mem_flatMap

variable {rs : List Region} {va npages n : Nat} {flags : PteFlags}

lemma placed_of_reserveOk (h : reserveOk rs va npages) : (newRegion va npages flags).Placed := by
  simp only [reserveOk, Bool.and_eq_true, decide_eq_true_eq] at h
  obtain ⟨⟨⟨⟨⟨-, hWrap⟩, hLow⟩, hHigh⟩, -⟩, -⟩ := h
  exact ⟨(pageAlignDown_spec va).1, hLow, hWrap, hHigh⟩

section

variable (placed : ∀ r ∈ rs, r.Placed)

include placed

lemma disjoint_of_reserveOk (h : reserveOk rs va npages)
    (hn : n ∈ regionPages rs) : n ∉ (newRegion va npages flags).pages := by
  intro hNew
  obtain ⟨r, hr, hn⟩ := mem_regionPages.mp hn
  rw [(placed_of_reserveOk h).mem_pages_iff] at hNew
  rw [(placed r hr).mem_pages_iff] at hn
  simp only [reserveOk, Bool.and_eq_true, Bool.not_eq_true', any_eq_false, decide_eq_true_eq, not_and] at h
  obtain ⟨⟨-, hApart⟩, -⟩ := h
  have := hApart r hr
  simp only [Region.finish, newRegion] at hn hNew this
  omega

/-- A page lies in the regions exactly when `find_region` finds one for it. -/
lemma mem_regionPages_iff_findRegion : n ∈ regionPages rs ↔ (findRegion rs (n * pageSize)).isSome := by
  rw [mem_regionPages, findRegion, find?_isSome]
  simp only [Bool.and_eq_true, decide_eq_true_eq]
  constructor
  · rintro ⟨r, hr, hn⟩
    exact ⟨r, hr, ((placed r hr).mem_pages_iff n).mp hn⟩
  · rintro ⟨r, hr, hn⟩
    exact ⟨r, hr, ((placed r hr).mem_pages_iff n).mpr hn⟩

lemma vpn_mem_regionPages (found : findRegion rs va = some r) : vpn va ∈ regionPages rs := by
  have hr := mem_of_find?_eq_some found
  have hVa := find?_some found
  simp only [Bool.and_eq_true, decide_eq_true_eq] at hVa
  refine mem_regionPages.mpr ⟨r, hr, ((placed r hr).mem_pages_iff _).mpr ?_⟩
  obtain ⟨aligned, -, -, top⟩ := placed r hr
  unfold vpn pageSize userStackTop at *
  omega

/-- Pages of regions are in the user half. -/
lemma lt_userHalf_of_mem (hn : n ∈ regionPages rs) : n < userHalf := by
  obtain ⟨r, hr, hn⟩ := mem_regionPages.mp hn
  have := ((placed r hr).mem_pages_iff n).mp hn
  have := (placed r hr).top
  unfold userHalf pageSize userStackTop at *
  omega

end

structure Laid (rs : List Region) : Prop where
  placed : ∀ r ∈ rs, r.Placed
  nodup : (regionPages rs).Nodup

lemma Laid.nil : Laid [] := ⟨nofun, nodup_nil⟩

lemma Laid.reserve {va npages : Nat} (h : Laid rs) (ok : reserveOk rs va npages)
    (flags : PteFlags) : Laid (rs ++ [newRegion va npages flags]) where
  placed r hr := by
    cases mem_append.mp hr with
    | inl hr => exact h.placed r hr
    | inr hr => exact mem_singleton.mp hr ▸ placed_of_reserveOk ok
  nodup := by
    rw [regionPages, flatMap_append, flatMap_singleton]
    refine h.nodup.append (placed_of_reserveOk ok).nodup_pages ?_
    exact fun n hn hNew => disjoint_of_reserveOk h.placed ok hn hNew

/-- Dropping an entry of the region table permutes the others. -/
lemma dropRegion_perm (h : rs[i]? = some r) : (r :: dropRegion rs i).Perm rs := by
  rcases eq_nil_or_concat rs with rfl | ⟨init, last, rfl⟩
  · simp at h
  rw [concat_eq_append] at *
  rw [dropRegion, getLast?_concat]
  dsimp only
  have moved : (last :: init).Perm (init ++ [last]) := (perm_append_singleton _ _).symm
  by_cases hLast : i < init.length
  · rw [set_append_left _ _ hLast, dropLast_concat]
    rw [getElem?_append_left hLast, getElem?_eq_getElem hLast] at h
    cases h
    refine List.Perm.trans ?_ moved
    have hInit : init.take i ++ init[i] :: init.drop (i + 1) = init := by rw [getElem_cons_drop, take_append_drop]
    rw [set_eq_take_append_cons_drop, if_pos hLast]
    nth_rewrite 4 [← hInit]
    refine (List.Perm.cons _ perm_middle).trans ((List.Perm.swap _ _ _).trans ?_)
    exact List.Perm.cons _ perm_middle.symm
  · obtain ⟨hi, -⟩ := List.getElem?_eq_some_iff.mp h
    obtain rfl : i = init.length := by
      rw [length_append, length_singleton] at hi
      omega
    obtain rfl : last = r := by simpa using h
    simpa using moved

lemma Laid.dropRegion (h : Laid rs) (hr : rs[i]? = some r) : Laid (dropRegion rs i) ∧
      ∀ n, n ∈ regionPages rs → n ∉ r.pages → n ∈ regionPages (dropRegion rs i) := by
  have perm := dropRegion_perm hr
  refine ⟨⟨fun q hq => h.placed q (perm.subset (mem_cons_of_mem _ hq)), ?_⟩, fun n hn hne => ?_⟩
  · have hNodup := (perm.flatMap_right Region.pages).nodup_iff.mpr h.nodup
    exact hNodup.of_append_right
  · have := (perm.flatMap_right Region.pages).mem_iff.mpr hn
    exact (mem_append.mp this).resolve_left hne

/-- The page is in one of the regions `rs` or a kernel buffer. Nothing is swapped out. -/
def LeafOk (rs : List Region) (n : Nat) : Pte → Prop
  | .present _ flags =>
    n < userHalf ∧ (n ∈ regionPages rs ∨ (flags.noshr = true ∧ flags.cow = false))
  | .swapped _ => False

def LowTables (p : Proc) : Prop := ∀ k g, p.tables.lookup k = some g → lowTable k

structure Tidy (rs : List Region) (p : Proc) : Prop where
  leaves : ∀ n e, p.leaves.lookup n = some e → LeafOk rs n e
  tables : LowTables p

namespace LowTables

variable {m m' : Mem} {u : Unit}

variable {k : Nat × Nat}

lemma nextTable (hk : lowTable k) : Keeps (fun m => LowTables m.proc) (nextTable k) := by
  refine Triple.get_bind fun m₀ h => Triple.ite (fun _ => Triple.pure fun s hs => hs ▸ h) fun _ => ?_
  rintro m u m' rfl run
  obtain ⟨p, t, alloc, rest⟩ := of_bind run
  obtain ⟨-, rfl⟩ := pmmAllocPage_eq_some alloc
  obtain rfl := of_modify rest
  intro k' g hg
  by_cases hkk : k' = k
  · exact hkk ▸ hk
  · exact h k' g ((AList.lookup_insert_ne hkk).symm.trans hg)

lemma forM {ks : List (Nat × Nat)} (h : LowTables m.proc) (hks : ∀ k ∈ ks, lowTable k)
    (run : ks.forM Mm.nextTable m = some (u, m')) : LowTables m'.proc :=
  Triple.forM (P := fun m : Mem => LowTables m.proc) (fun k hk => nextTable (hks k hk)) m u m' h run

lemma lowTable_of_mem (hn : n < userHalf) (hk : k ∈ tableKeys n) : lowTable k := by
  simp only [tableKeys, mem_cons, not_mem_nil, or_false] at hk
  unfold lowTable userHalf at *
  rcases hk with rfl | rfl | rfl <;> simp only [decide_eq_true_eq] <;> omega

lemma walkCreate (h : LowTables m.proc) (hn : n < userHalf) (run : walkCreate n m = some (u, m')) : LowTables m'.proc :=
  h.forM (fun _ hk => lowTable_of_mem hn hk) run

end LowTables

structure Proc.Sound (p : Proc) : Prop where
  laid : Laid p.regions
  tidy : Tidy p.regions p

namespace Tidy

variable {rs' : List Region} {m m' : Mem} {p : Nat} {e : Pte} {u : Unit}

variable (h : Tidy rs m.proc)

include h

lemma mono (sub : ∀ n ∈ regionPages rs, n ∈ regionPages rs') : Tidy rs' m.proc where
  leaves n e he := by
    have ok := h.leaves n e he
    cases e with
    | swapped slot => exact ok
    | present p flags => exact ⟨ok.1, ok.2.imp_left (sub n)⟩
  tables := h.tables

lemma setLeaf (ok : LeafOk rs n e) : Tidy rs (m.setLeaf n e).proc where
  leaves k e' hk := by
    have hLeaf := leaf_setLeaf m n k e
    unfold Mem.leaf at hLeaf
    rw [hLeaf] at hk
    split_ifs at hk with hkn
    · cases hk
      exact hkn ▸ ok
    · exact h.leaves k e' hk
  tables := h.tables

lemma walkCreate (hn : n < userHalf) (run : walkCreate n m = some (u, m')) : Tidy rs m'.proc := by
  have low := h.tables.walkCreate hn run
  obtain ⟨pmm', tables', rfl⟩ := onlyTables_of_forM run
  exact ⟨h.leaves, low⟩

lemma vmmMap (ok : LeafOk rs n (.present p flags)) (run : vmmMap n p flags m = some (u, m')) : Tidy rs m'.proc := by
  obtain ⟨t, walk, -, rfl⟩ := vmmMap_eq_some run
  exact (h.walkCreate ok.1 walk).setLeaf ok

lemma vmmUnmap (n : Nat) : Tidy rs (vmmUnmap m n).proc := by
  unfold Mm.vmmUnmap
  split
  · refine ⟨fun k e he => h.leaves k e ?_, h.tables⟩
    by_cases hkn : k = n
    · subst hkn
      exact absurd he (by simp [Mem.unref, Mem.clearLeaf])
    · exact (AList.lookup_erase_ne hkn).symm.trans he
  · exact h

lemma mapFresh (ok : ∀ p, LeafOk rs n (.present p flags))
    (run : mapFresh flags n m = some (u, m')) : Tidy rs m'.proc := by
  obtain ⟨p, t, alloc, map⟩ := of_bind run
  obtain ⟨-, rfl⟩ := pmmAllocPage_eq_some alloc
  exact vmmMap (m := { m with pmm := m.pmm.allocIdx p }) h (ok p) map

end Tidy

variable {m m' : Mem} {p : Nat} {u : Unit}

lemma vmmMap_regions (run : vmmMap n p flags m = some (u, m')) : m'.proc.regions = m.proc.regions := by
  obtain ⟨t, -, ⟨pmm', tables', rfl⟩, rfl⟩ := vmmMap_eq_some run
  rfl

lemma mapFresh_regions (run : mapFresh flags n m = some (u, m')) : m'.proc.regions = m.proc.regions := by
  obtain ⟨p, t, ⟨pmm', tables', rfl⟩, rfl⟩ := mapFresh_eq_some run
  rfl

lemma mapFresh_leaf_ne {k : Nat} (run : mapFresh flags n m = some (u, m')) (hk : k ≠ n) : m'.leaf k = m.leaf k := by
  obtain ⟨p, t, ⟨pmm', tables', rfl⟩, rfl⟩ := mapFresh_eq_some run
  rw [leaf_setLeaf, if_neg hk]
  rfl

lemma vmmUnmap_regions (m : Mem) (n : Nat) : (vmmUnmap m n).proc.regions = m.proc.regions := by
  unfold vmmUnmap
  split <;> rfl

lemma leaf_vmmUnmap_ne (m : Mem) {n k : Nat} (hk : k ≠ n) : (vmmUnmap m n).leaf k = m.leaf k := by
  unfold vmmUnmap
  split
  · exact AList.lookup_erase_ne hk
  · rfl

namespace Proc.Sound

variable {write r : Bool}

variable (h : m.proc.Sound)

include h

lemma of_tidy (regions : m'.proc.regions = m.proc.regions) (tidy : Tidy m.proc.regions m'.proc) : m'.proc.Sound := by
  refine ⟨?_, ?_⟩ <;> rw [regions]
  · exact h.laid
  · exact tidy

lemma fault (step : Fault va write m r m') : m'.proc.Sound := by
  cases step with
  | refused => exact h
  | demand absent found cap map =>
    have hPage := vpn_mem_regionPages h.laid.placed found
    have regions := mapFresh_regions map
    refine h.of_tidy regions (Tidy.mapFresh ?_ (fun p => ?_) map)
    · exact ⟨h.tidy.leaves, h.tidy.tables⟩
    · exact ⟨lt_userHalf_of_mem h.laid.placed hPage, .inl hPage⟩
  | upgrade leaf _ cow =>
    have ok := h.tidy.leaves _ _ leaf
    refine h.of_tidy rfl (h.tidy.setLeaf ⟨ok.1, ok.2.imp_right fun noshr => ⟨noshr.1, rfl⟩⟩)
  | copy leaf _ cow _ _ alloc map =>
    obtain ⟨-, rfl⟩ := pmmAllocPage_eq_some alloc
    obtain ⟨low, region | noshr⟩ := h.tidy.leaves _ _ leaf
    · have regions := vmmMap_regions map
      refine h.of_tidy regions (Tidy.vmmMap ?_ ?_ map)
      · exact ⟨h.tidy.leaves, h.tidy.tables⟩
      · exact ⟨low, .inl region⟩
    · simp [cow] at noshr
  | swapFailed leaf => exact (h.tidy.leaves _ _ leaf).elim
  | swapIn leaf => exact (h.tidy.leaves _ _ leaf).elim

lemma kernelWrite {b : Nat} (run : kernelWrite va b m = some (u, m')) : m'.proc.Sound := by
  obtain ⟨done, t, accessed, rest⟩ := of_bind run
  have kept := access_induction (P := fun m => m.proc.Sound) (fun _ _ _ h step => h.fault step) h accessed
  cases done with
  | false => cases rest
  | true =>
    obtain rfl := of_modify rest
    unfold setByte
    split <;> exact kept

lemma reserve {npages : Nat} (ok : reserveOk m.proc.regions va npages)
    (flags : PteFlags) (memPages : Nat) :
    ({ m.proc with regions := m.proc.regions ++ [newRegion va npages flags], memPages := memPages } : Proc).Sound where
  laid := h.laid.reserve ok flags
  tidy := by
    have wider : Tidy (m.proc.regions ++ [newRegion va npages flags]) m.proc :=
      h.tidy.mono fun n hn => by
        rw [regionPages, flatMap_append]
        exact mem_append_left _ hn
    exact ⟨wider.leaves, wider.tables⟩

lemma foldl_vmmUnmap (ns : List Nat) : (ns.foldl vmmUnmap m).proc.Sound := by
  induction ns generalizing m with
  | nil => exact h
  | cons n ns ih => exact ih (h.of_tidy (vmmUnmap_regions m n) (h.tidy.vmmUnmap n))

end Proc.Sound

lemma foldl_vmmUnmap_regions (m : Mem) (ns : List Nat) : (ns.foldl vmmUnmap m).proc.regions = m.proc.regions := by
  induction ns generalizing m with
  | nil => rfl
  | cons n ns ih => exact (ih _).trans (vmmUnmap_regions m n)

/-- Nothing is swapped out, so that unmapping a page leaves no entry. -/
lemma leaf_vmmUnmap_self (h : m.proc.Sound) (n : Nat) : (vmmUnmap m n).leaf n = none := by
  unfold vmmUnmap
  cases hLeaf : m.leaf n with
  | none => exact hLeaf
  | some e =>
    cases e with
    | swapped slot => exact (h.tidy.leaves n _ hLeaf).elim
    | present p flags => exact AList.lookup_erase _ _

lemma leaf_foldl_vmmUnmap (h : m.proc.Sound) {ns : List Nat} (hn : n ∈ ns) : (ns.foldl vmmUnmap m).leaf n = none := by
  have stays : ∀ (ns : List Nat) (m : Mem), m.leaf n = none → (ns.foldl vmmUnmap m).leaf n = none := by
    intro ns
    induction ns with
    | nil => exact fun _ h => h
    | cons k ns ih =>
      intro m hm
      refine ih _ ?_
      by_cases hk : n = k
      · subst hk
        unfold vmmUnmap
        rw [hm]
        exact hm
      · rw [leaf_vmmUnmap_ne m hk, hm]
  induction ns generalizing m with
  | nil => cases hn
  | cons k ns ih =>
    have kept := h.of_tidy (vmmUnmap_regions m k) (h.tidy.vmmUnmap k)
    cases mem_cons.mp hn with
    | inl hk => exact stays ns _ (hk ▸ leaf_vmmUnmap_self h k)
    | inr hn => exact ih kept hn

end YartOS.Mm
