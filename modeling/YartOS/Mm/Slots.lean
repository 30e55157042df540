import YartOS.Lib.Owners
import YartOS.Lib.Runs
import YartOS.Mm.Fork

/-! The slots of the swap pool and the entries that name them. -/
namespace YartOS.Mm

open Programs Runs Owners Function List Option

def Pte.slot : Pte → Option Nat
  | .present _ _ => none
  | .swapped slot => some slot

def Mem.slot (m : Mem) (n : Nat) : Option Nat := (m.leaf n).bind Pte.slot

structure Housed (m : Mem) : Prop where
  laid : Laid m.proc.regions
  region : ∀ n slot, m.slot n = some slot → n ∈ regionPages m.proc.regions

/-- A call leaves the slots, or a page takes a free slot or gives it back. -/
inductive SlotStep (m m' : Mem) : Prop where
  | keep (slots : ∀ n, m'.slot n = m.slot n) (swap : m'.swap = m.swap)
  | take {n slot : Nat} {bytes : Page} (free : m.swap.used slot = false) (none : m.slot n = none)
      (slots : ∀ k, m'.slot k = if k = n then some slot else m.slot k)
      (used : m'.swap.used = update m.swap.used slot true)
      (data : m'.swap.data = update m.swap.data slot bytes)
  | give {n slot : Nat} (owns : m.slot n = some slot)
      (slots : ∀ k, m'.slot k = if k = n then none else m.slot k)
      (used : m'.swap.used = update m.swap.used slot false) (data : m'.swap.data = m.swap.data)

variable {m m' : Mem} {va n npages : Nat} {flags : PteFlags} {r : Bool} {u : Unit}

/-- The contents of a used slot stay as they are. -/
lemma SlotStep.data_eq (step : SlotStep m m') {slot : Nat} (hUsed : m.swap.used slot = true) :
    m'.swap.data slot = m.swap.data slot := by
  cases step with
  | keep slots swap => rw [swap]
  | take free none slots used data =>
    rw [data, update_of_ne]
    rintro rfl
    simp [free] at hUsed
  | give owns slots used data => rw [data]

lemma slot_setLeaf (m : Mem) (n k : Nat) (e : Pte) : (m.setLeaf n e).slot k = if k = n then e.slot else m.slot k := by
  unfold Mem.slot
  rw [leaf_setLeaf]
  split <;> rfl

lemma Housed.of_slots (h : Housed m) (regions : m'.proc.regions = m.proc.regions)
    (slots : ∀ n slot, m'.slot n = some slot → m.slot n = some slot ∨ n ∈ regionPages m.proc.regions) :
    Housed m' where
  laid := regions ▸ h.laid
  region n slot hn := by
    rw [regions]
    exact (slots n slot hn).elim (h.region n slot) id

lemma swapFreeSlot_alloc {slot : Nat} (free : m.swap.used slot = false) :
    swapFreeSlot { m with swap.used := update m.swap.used slot true } slot = m := by
  have hUsed : update (update m.swap.used slot true) slot false = m.swap.used := by
    rw [update_idem, ← free, update_eq_self]
  unfold swapFreeSlot
  rw [hUsed]

structure SwapsOut (m m' : Mem) : Prop where
  step : SlotStep m m'
  housed : Housed m'
  used : ∀ slot, m.swap.used slot = true → m'.swap.used slot = true
  regions : m'.proc.regions = m.proc.regions

/-- A page is swapped out where a slot is free and its transfer works. -/
lemma vmmSwapOut_swapsOut (h : Housed m)
    (inside : ∀ p flags, m.leaf (vpn va) = some (.present p flags) → vpn va ∈ regionPages m.proc.regions)
    (run : vmmSwapOut va m = (r, m')) : SwapsOut m m' := by
  have same : SwapsOut m m := ⟨.keep (fun _ => rfl) rfl, h, fun _ h => h, rfl⟩
  unfold vmmSwapOut at run
  cases hLeaf : m.leaf (vpn va) with
  | none =>
    rw [hLeaf] at run
    cases run
    exact same
  | some e =>
    rw [hLeaf] at run
    cases e with
    | swapped slot =>
      cases run
      exact same
    | present p flags =>
      cases hAlloc : swapAllocSlot m with
      | none =>
        simp only [hAlloc] at run
        cases run
        exact same
      | some found =>
        obtain ⟨slot, hFree, rfl⟩ := map_eq_some_iff.mp hAlloc
        have free : m.swap.used slot = false := by simpa using find?_some hFree
        simp only [hAlloc] at run
        split at run
        · cases run
          rwa [swapFreeSlot_alloc free]
        cases run
        have hSlot : m.slot (vpn va) = none := by rw [Mem.slot, hLeaf]; rfl
        refine ⟨.take free hSlot (fun k => slot_setLeaf _ _ _ _) rfl rfl, ?_, fun slot' hUsed => ?_, rfl⟩
        · refine h.of_slots rfl fun k slot' hk => ?_
          rw [slot_setLeaf] at hk
          split_ifs at hk with hn
          · exact .inr (hn ▸ inside p flags hLeaf)
          · exact .inl hk
        · change update m.swap.used slot true slot' = true
          by_cases hk : slot' = slot
          · rw [hk, update_self]
          · rw [update_of_ne hk, hUsed]

lemma vmmEvictSome_swapsOut (h : Housed m) (max : Nat) : Relation.ReflTransGen SwapsOut m (vmmEvictSome max m).2 := by
  have loop : ∀ (ns : List Nat) (done : Nat) (t : Mem), Relation.ReflTransGen SwapsOut m t → Housed t →
      (∀ n ∈ ns, n ∈ regionPages t.proc.regions) →
      Relation.ReflTransGen SwapsOut m (ns.foldl (evictPage max) (done, t)).2 := by
    intro ns
    induction ns with
    | nil => exact fun _ _ run _ _ => run
    | cons n ns ih =>
      intro done t run housed inside
      have hn := inside n (by simp)
      have rest := fun k (hk : k ∈ ns) => inside k (by simp [hk])
      have hLow := lt_userHalf_of_mem housed.laid.placed hn
      have hPage : vpn (n * pageSize) = n := by
        unfold vpn pageSize userHalf at *
        omega
      have out : ∀ {r t'}, vmmSwapOut (n * pageSize) t = (r, t') → SwapsOut t t' := fun step =>
        vmmSwapOut_swapsOut housed (fun _ _ _ => by rwa [hPage]) step
      rw [foldl_cons, evictPage]
      split
      · cases hOut : vmmSwapOut (n * pageSize) t with
        | mk r t' =>
          have step := out hOut
          have next := fun done => ih done t' (run.tail step) step.housed fun k hk => by
            rw [step.regions]
            exact rest k hk
          cases r with
          | true => exact next _
          | false => exact next _
      · exact ih done t run housed rest
  exact loop _ 0 m .refl h fun n hn => hn

lemma vmmSwapIn_slotStep (h : Housed m)
    (works : ∀ slot, m.leaf (vpn va) = some (.swapped slot) → m.swap.fails slot = false)
    (run : vmmSwapIn va m = some (r, m')) : SlotStep m m' ∧ Housed m' := by
  have same : SlotStep m m ∧ Housed m := ⟨.keep (fun _ => rfl) rfl, h⟩
  replace run := of_get_bind run
  cases hLeaf : m.leaf (vpn va) with
  | none =>
    rw [hLeaf] at run
    obtain ⟨-, rfl⟩ := of_pure run
    exact same
  | some e =>
    rw [hLeaf] at run
    cases e with
    | present p flags =>
      obtain ⟨-, rfl⟩ := of_pure run
      exact same
    | swapped slot =>
      obtain ⟨p, t, alloc, run⟩ := of_bind run
      simp only [works slot hLeaf] at run
      replace run := of_modify_bind run
      obtain ⟨_, map, -⟩ := of_bind_pure run
      obtain ⟨-, rfl⟩ := pmmAllocPage_eq_some alloc
      obtain ⟨s, -, ⟨pmm', tables', rfl⟩, rfl⟩ := vmmMap_eq_some map
      have hSlot : m.slot (vpn va) = some slot := by rw [Mem.slot, hLeaf]; rfl
      refine ⟨.give hSlot (fun k => slot_setLeaf _ _ _ _) rfl rfl, h.of_slots rfl fun k slot' hk => ?_⟩
      rw [slot_setLeaf] at hk
      split at hk
      · cases hk
      · exact .inl hk

lemma mapFresh_forM_slots {ns : List Nat} (none : ∀ n ∈ ns, m.slot n = none)
    (run : ns.forM (mapFresh flags) m = some (u, m')) :
    (∀ k, m'.slot k = m.slot k) ∧ m'.swap = m.swap ∧ m'.proc.regions = m.proc.regions := by
  induction ns generalizing m with
  | nil =>
    obtain ⟨-, rfl⟩ := of_pure run
    exact ⟨fun _ => rfl, rfl, rfl⟩
  | cons n ns ih =>
    obtain ⟨_, t, map, rest⟩ := of_bind run
    obtain ⟨p, s, ⟨pmm', tables', rfl⟩, rfl⟩ := mapFresh_eq_some map
    have first : ∀ k, (Mem.setLeaf { m with pmm := pmm', proc.tables := tables' } n
        (.present p flags)).slot k = m.slot k := by
      intro k
      rw [slot_setLeaf]
      split_ifs with hk
      · rw [hk, none n (by simp)]
        rfl
      · rfl
    obtain ⟨slots, swap, regions⟩ := ih (fun k hk => (first k).trans (none k (by simp [hk]))) rest
    exact ⟨fun k => (slots k).trans (first k), swap, regions⟩

lemma vmmUserReserve_slotStep {eager : Bool} (h : Housed m)
    (run : vmmUserReserve va npages flags eager m = some (r, m')) : SlotStep m m' ∧ Housed m' := by
  obtain ⟨-, -, rfl⟩ | ⟨-, hFits, map⟩ := vmmUserReserve_cases run
  · exact ⟨.keep (fun _ => rfl) rfl, h⟩
  simp only [reserveFits, Bool.and_eq_true] at hFits
  -- an entry that names a slot is in an older region, so the new one has none
  have none : ∀ n ∈ (newRegion va npages flags).pages, m.slot n = none := by
    intro n hn
    cases hSlot : m.slot n with
    | none => rfl
    | some slot => exact absurd hn (disjoint_of_reserveOk h.laid.placed hFits.1 (h.region n slot hSlot))
  have mapped : (∀ k, m'.slot k = m.slot k) ∧ m'.swap = m.swap ∧
      m'.proc.regions = m.proc.regions ++ [newRegion va npages flags] := by
    cases eager with
    | false =>
      obtain ⟨-, rfl⟩ := of_pure map
      exact ⟨fun _ => rfl, rfl, rfl⟩
    | true => exact mapFresh_forM_slots (m := m.reserve va npages flags) none map
  obtain ⟨slots, swap, regions⟩ := mapped
  refine ⟨.keep slots swap, ⟨regions ▸ h.laid.reserve hFits.1 flags, fun n slot hn => ?_⟩⟩
  rw [slots] at hn
  rw [regions]
  obtain ⟨region, hRegion, hn⟩ := mem_regionPages.mp (h.region n slot hn)
  exact mem_regionPages.mpr ⟨region, mem_append_left _ hRegion, hn⟩

lemma foldl_vmmUnmap_slots (m : Mem) (ns : List Nat) :
    (∀ k, (ns.foldl vmmUnmap m).slot k = m.slot k) ∧ (ns.foldl vmmUnmap m).swap = m.swap := by
  have one : ∀ (m : Mem) n, (∀ k, (vmmUnmap m n).slot k = m.slot k) ∧ (vmmUnmap m n).swap = m.swap := by
    intro m n
    unfold vmmUnmap
    cases hLeaf : m.leaf n with
    | none => exact ⟨fun _ => rfl, rfl⟩
    | some e =>
      cases e with
      | swapped slot => exact ⟨fun _ => rfl, rfl⟩
      | present p flags =>
        refine ⟨fun k => ?_, rfl⟩
        by_cases hk : k = n
        · subst hk
          have gone : ((m.clearLeaf k).unref p).leaf k = none := AList.lookup_erase _ _
          rw [Mem.slot, gone, Mem.slot, hLeaf]
          rfl
        · have kept : ((m.clearLeaf n).unref p).leaf k = m.leaf k := AList.lookup_erase_ne hk
          rw [Mem.slot, kept, Mem.slot]
  induction ns generalizing m with
  | nil => exact ⟨fun _ => rfl, rfl⟩
  | cons n ns ih =>
    obtain ⟨slots, swap⟩ := ih (vmmUnmap m n)
    exact ⟨fun k => (slots k).trans ((one m n).1 k), swap.trans (one m n).2⟩

lemma vmmUserRelease_slotStep (h : Housed m)
    (none : ∀ region ∈ m.proc.regions, region.start = pageAlignDown va → ∀ n ∈ region.pages, m.slot n = none)
    (run : vmmUserRelease va m = some (r, m')) : SlotStep m m' ∧ Housed m' := by
  obtain ⟨-, rfl⟩ | ⟨i, region, -, hStart, hRegion, rfl⟩ := vmmUserRelease_cases run
  · exact ⟨.keep (fun _ => rfl) rfl, h⟩
  obtain ⟨slots, swap⟩ := foldl_vmmUnmap_slots m region.pages
  have regions := foldl_vmmUnmap_regions m region.pages
  obtain ⟨laid, stays⟩ := h.laid.dropRegion hRegion
  refine ⟨.keep slots swap, ⟨?_, fun n slot hn => ?_⟩⟩
  · rwa [regions]
  · have hn : m.slot n = some slot := (slots n).symm.trans hn
    rw [regions]
    refine stays n (h.region n slot hn) fun hPage => ?_
    rw [none region (mem_of_getElem? hRegion) hStart n hPage] at hn
    cases hn

/-- The calls that swap pages, and those that share or drop page tables. -/
inductive SwapCall where
  | swapOut (i va : Nat)
  | swapIn (i va : Nat)
  | evict (i max : Nat)
  | fork (i : Nat)
  | release (i va : Nat)
  | reserve (i va npages : Nat) (flags : PteFlags) (eager : Bool)
  | free (i : Nat)

namespace Machine

def swapCall (s : Machine) : SwapCall → Option Machine
  | .swapOut i va => (s.runOn i fun m => some (vmmSwapOut va m)).map (·.2)
  | .swapIn i va => (s.runOn i (vmmSwapIn va)).map (·.2)
  | .evict i max => (s.runOn i fun m => some (vmmEvictSome max m)).map (·.2)
  | .fork i => s.spawn i schedFork
  | .release i va => (s.runOn i (vmmUserRelease va)).map (·.2)
  | .reserve i va npages flags eager => (s.runOn i (vmmUserReserve va npages flags eager)).map (·.2)
  | .free i => s.reap i

def owner (s : Machine) (k : Nat × Nat) : Option Nat := (s.leaf k.1 k.2).bind Pte.slot

/-- Used slots are named by exactly one entry, of a mapping that is still there. -/
structure SlotsOwned (s : Machine) : Prop where
  exclusive : Exclusive s.owner s.swap.used
  live : ∀ i p n slot, s.proc i = some p → p.leaves.lookup n = some (.swapped slot) → n ∈ regionPages p.regions

structure Slotted (s : Machine) : Prop where
  exclusive : Exclusive s.owner s.swap.used
  housed : ∀ i p, s.proc i = some p → Housed (s.mem p)

def NoSlot (s : Machine) (i : Nat) (pages : Proc → Nat → Prop) : Prop :=
  ∀ p, s.proc i = some p → ∀ n, pages p n → ∀ slot, p.leaves.lookup n ≠ some (.swapped slot)

/-- The condition under which a call keeps the slots owned. -/
def SwapSafe (s : Machine) : SwapCall → Prop
  | .swapOut i va => ∀ p, s.proc i = some p → ∀ f flags,
      p.leaves.lookup (vpn va) = some (.present f flags) → vpn va ∈ regionPages p.regions
  | .swapIn i va => ∀ p, s.proc i = some p → ∀ slot,
      p.leaves.lookup (vpn va) = some (.swapped slot) → s.swap.fails slot = false
  | .fork i | .free i => s.NoSlot i fun _ _ => True
  | .release i va => s.NoSlot i fun p n =>
    ∃ region ∈ p.regions, region.start = pageAlignDown va ∧ n ∈ region.pages
  | .evict _ _ | .reserve _ _ _ _ _ => True

variable {s s' : Machine} {i : Nat} {p : Proc}

lemma slot_eq_none (h : ∀ slot, p.leaves.lookup n ≠ some (.swapped slot)) :
    ((p.leaves.lookup n).bind Pte.slot) = none := by
  cases hLeaf : p.leaves.lookup n with
  | none => rfl
  | some e =>
    cases e with
    | present f flags => rfl
    | swapped slot => exact absurd hLeaf (h slot)

lemma Slotted.slotsOwned (h : s.Slotted) : s.SlotsOwned where
  exclusive := h.exclusive
  live i p n slot hp hLeaf := (h.housed i p hp).region n slot (by
    rw [Mem.slot, show (s.mem p).leaf n = _ from hLeaf]
    rfl)

lemma put_mem (hp : s.proc i = some p) : s.put i (s.mem p) = s := by
  have hSet : s.procs.set i (some p) = s.procs := by
    obtain ⟨hi, hGet⟩ := List.getElem?_eq_some_iff.mp (getElem?_of_proc hp)
    rw [← hGet, List.set_getElem_self]
  unfold put mem
  rw [hSet]

lemma owner_put (hi : i < s.procs.length) (k : Nat × Nat) :
    (s.put i m).owner k = if k.1 = i then m.slot k.2 else s.owner k := by
  unfold owner
  rw [leaf_put hi]
  split <;> rfl

/-- A step of one process is a step of the table of owners. -/
lemma exclusive_put (h : Exclusive (s.put i m).owner m.swap.used) (hi : i < s.procs.length)
    (step : SlotStep m m') : Exclusive (s.put i m').owner m'.swap.used := by
  have update : ∀ {n o}, (∀ k, m'.slot k = if k = n then o else m.slot k) →
      (s.put i m').owner = update (s.put i m).owner (i, n) o := by
    intro n o slots
    funext ⟨j, k⟩
    rw [owner_put hi, update_apply, owner_put hi, slots]
    by_cases hj : j = i <;> by_cases hk : k = n <;> simp [hj, hk]
  cases step with
  | keep slots swap =>
    refine h.congr (fun k => ?_) (by rw [swap])
    rw [owner_put hi, owner_put hi, slots]
  | @take n slot bytes free none slots used data =>
    rw [update slots, used]
    exact h.take free (by rw [owner_put hi, if_pos rfl, none])
  | @give n slot owns slots used data =>
    rw [update slots, used]
    exact h.give (by rw [owner_put hi, if_pos rfl, owns])

lemma housed_congr {m m' : Mem} (h : Housed m) (proc : m'.proc = m.proc) : Housed m' := by
  have slots : ∀ n, m'.slot n = m.slot n := fun n => by rw [Mem.slot, Mem.leaf, proc]; rfl
  exact h.of_slots (by rw [proc]) fun n slot hn => .inl ((slots n).symm.trans hn)

lemma Slotted.put (h : s.Slotted)
    (exclusive : Exclusive (s.put i m).owner m.swap.used) (housed : Housed m) : (s.put i m).Slotted := by
  refine ⟨exclusive, fun j q hq => ?_⟩
  obtain hq | hq := proc_set _ hq
  · cases hq
    exact housed_congr housed rfl
  · exact housed_congr (h.housed j q hq) rfl

lemma NoSlot.slot {pages : Proc → Nat → Prop} (h : s.NoSlot i pages) (hp : s.proc i = some p) {n : Nat}
    (hn : pages p n) : (s.mem p).slot n = none :=
  slot_eq_none (h p hp n hn)

lemma slot_shared (leaf : Nat → Option Pte) (seen : List Nat) (n : Nat) :
    (shared leaf seen n).bind Pte.slot = (leaf n).bind Pte.slot := by
  unfold shared
  split
  · cases leaf n with
    | none => rfl
    | some e =>
      cases e with
      | swapped slot => rfl
      | present p flags => rw [map_some, share_present]; rfl
  · rfl

/-- The child of a process without slots has none either. -/
lemma Slotted.fork (h : s.Slotted) (safe : s.NoSlot i fun _ _ => True)
    (run : s.spawn i schedFork = some s') : s'.Slotted := by
  obtain ⟨p, child, m, hp, hx, rfl⟩ := spawn_eq_some run
  have hi := lt_length_of_proc hp
  obtain ⟨swap, regions, childRegions⟩ := schedFork_frame hx
  obtain ⟨leaf, childLeaf⟩ := schedFork_leaves hx
  have slots : ∀ n, m.slot n = (s.mem p).slot n := fun n => by rw [Mem.slot, leaf, slot_shared]; rfl
  have childSlots : ∀ n, (child.leaves.lookup n).bind Pte.slot = none := fun n => by
    rw [childLeaf, slot_shared]
    exact safe.slot hp trivial
  have housed := (h.housed i p hp).of_slots regions fun n slot hn => .inl ((slots n).symm.trans hn)
  have parent : (s.put i m).Slotted := by
    refine h.put (exclusive_put ?_ hi (.keep slots swap)) housed
    rw [put_mem hp]
    exact h.exclusive
  refine ⟨parent.exclusive.congr (fun ⟨j, n⟩ => ?_) rfl, fun j q hq => ?_⟩
  · unfold owner
    rw [leaf_append]
    split_ifs with hj
    · rw [childSlots, Machine.leaf, Machine.proc, hj, getElem?_eq_none (le_refl _)]
      rfl
    · rfl
  · obtain hq | rfl := proc_append hq
    · exact housed_congr (parent.housed j q hq) rfl
    · exact ⟨childRegions ▸ (h.housed i p hp).laid, fun n slot hn => absurd ((childSlots n).symm.trans hn) nofun⟩

lemma Slotted.reap (h : s.Slotted) (safe : s.NoSlot i fun _ _ => True) (run : s.reap i = some s') : s'.Slotted := by
  obtain ⟨p, hp, done⟩ := bind_eq_some_iff.mp run
  cases done
  refine ⟨h.exclusive.congr (fun ⟨j, n⟩ => ?_) rfl, fun j q hq => ?_⟩
  · unfold owner leaf proc
    rw [getElem?_set]
    by_cases hj : i = j
    · subst hj
      have gone : (s.procs[i]?.join).bind (fun q => q.leaves.lookup n) = p.leaves.lookup n := by
        rw [show s.procs[i]?.join = some p from hp]
        rfl
      rw [gone, slot_eq_none (safe p hp n trivial), if_pos rfl]
      split <;> rfl
    · rw [if_neg hj]
  · obtain hq | hq := proc_set _ hq
    · cases hq
    · exact housed_congr (h.housed j q hq) rfl

/-- A safe call: one process swaps out or makes one other step; or one without slots is forked or
freed. -/
inductive Moves (s : Machine) : Machine → Prop where
  | step {i : Nat} {p : Proc} {m : Mem} (proc : s.proc i = some p) (step : SlotStep (s.mem p) m)
      (housed : Housed m) : Moves s (s.put i m)
  | evict {i : Nat} {p : Proc} {m : Mem} (proc : s.proc i = some p)
      (steps : Relation.ReflTransGen SwapsOut (s.mem p) m) : Moves s (s.put i m)
  | fork {i : Nat} {s' : Machine} (none : s.NoSlot i fun _ _ => True)
      (run : s.spawn i schedFork = some s') : Moves s s'
  | free {i : Nat} {s' : Machine} (none : s.NoSlot i fun _ _ => True)
      (run : s.reap i = some s') : Moves s s'

lemma Moves.of_runOn {α : Type} {x : Prog Mem α} (h : s.Slotted)
    (kept : ∀ p a m, s.proc i = some p → Housed (s.mem p) → x (s.mem p) = some (a, m) →
      SlotStep (s.mem p) m ∧ Housed m) (run : (s.runOn i x).map (·.2) = some s') : Moves s s' := by
  obtain ⟨p, a, m, hp, hx, rfl⟩ := map_runOn_eq_some run
  obtain ⟨step, housed⟩ := kept p a m hp (h.housed i p hp) hx
  exact .step hp step housed

lemma moves_of_swapCall {op : SwapCall} (h : s.Slotted) (safe : s.SwapSafe op)
    (run : s.swapCall op = some s') : Moves s s' := by
  cases op with
  | swapOut i va =>
    refine .of_runOn h (fun p a m hp housed ran => ?_) run
    have out := vmmSwapOut_swapsOut housed (safe p hp) (some.inj ran)
    exact ⟨out.step, out.housed⟩
  | swapIn i va => exact .of_runOn h (fun p _ _ hp housed ran => vmmSwapIn_slotStep housed (safe p hp) ran) run
  | evict i max =>
    obtain ⟨p, a, m, hp, hx, rfl⟩ := map_runOn_eq_some run
    have out := vmmEvictSome_swapsOut (h.housed i p hp) max
    rw [some.inj hx] at out
    exact .evict hp out
  | fork i => exact .fork safe run
  | release i va =>
    refine .of_runOn h (fun p _ _ hp housed ran => vmmUserRelease_slotStep housed ?_ ran) run
    exact fun region hRegion hStart n hn => safe.slot hp ⟨region, hRegion, hStart, hn⟩
  | reserve i va npages flags eager =>
    exact .of_runOn h (fun _ _ _ _ housed ran => vmmUserReserve_slotStep housed ran) run
  | free i => exact .free safe run

lemma Slotted.moves (h : s.Slotted) (moves : Moves s s') : s'.Slotted := by
  have start : ∀ {i p}, s.proc i = some p → i < s.procs.length ∧
      Exclusive (s.put i (s.mem p)).owner (s.mem p).swap.used := by
    intro i p hp
    rw [put_mem hp]
    exact ⟨lt_length_of_proc hp, h.exclusive⟩
  cases moves with
  | step hp step housed =>
    obtain ⟨hi, exclusive⟩ := start hp
    exact h.put (exclusive_put exclusive hi step) housed
  | @evict i p m hp steps =>
    obtain ⟨hi, exclusive⟩ := start hp
    have both : Exclusive (s.put i m).owner m.swap.used ∧ Housed m := by
      induction steps with
      | refl => exact ⟨exclusive, h.housed i p hp⟩
      | tail _ out ih => exact ⟨exclusive_put ih.1 hi out.step, out.housed⟩
    exact h.put both.1 both.2
  | fork none run => exact h.fork none run
  | free none run => exact h.reap none run

lemma swap_data_of_chain {m m' : Mem} (steps : Relation.ReflTransGen SwapsOut m m') {slot : Nat}
    (hUsed : m.swap.used slot = true) : m'.swap.used slot = true ∧ m'.swap.data slot = m.swap.data slot := by
  induction steps with
  | refl => exact ⟨hUsed, rfl⟩
  | tail _ out ih => exact ⟨out.used slot ih.1, (out.step.data_eq ih.1).trans ih.2⟩

/-- The bytes of a used slot are those of the page that was swapped out to it. -/
lemma Moves.data_eq (moves : Moves s s') {slot : Nat} (hUsed : s.swap.used slot = true) :
    s'.swap.data slot = s.swap.data slot := by
  cases moves with
  | step hp step housed =>
    have kept := step.data_eq hUsed
    exact kept
  | evict hp steps => exact (swap_data_of_chain steps hUsed).2
  | fork none run =>
    obtain ⟨p, child, m, hp, hx, rfl⟩ := spawn_eq_some run
    change m.swap.data slot = _
    rw [(schedFork_frame hx).1]
    rfl
  | free none run =>
    obtain ⟨p, hp, done⟩ := bind_eq_some_iff.mp run
    cases done
    rfl

/-- In every state of a safe run each slot has one owner, and no call changes a used slot. -/
theorem slotsOwned_of_reaches (start : s.Slotted)
    (run : Reaches (Guarded SwapSafe fun s op s' => s.swapCall op = some s') s s') :
    s'.SlotsOwned ∧ ∀ op s'', s'.SwapSafe op → s'.swapCall op = some s'' →
      ∀ slot, s'.swap.used slot = true → s''.swap.data slot = s'.swap.data slot := by
  have reached := run.invariant start fun _ _ _ h step => h.moves (moves_of_swapCall h step.1 step.2)
  exact ⟨reached.slotsOwned, fun op s'' safe step slot hUsed =>
    (moves_of_swapCall reached safe step).data_eq hUsed⟩

lemma slotted_oneProcess : oneProcess.Slotted := by
  have none : ∀ i n, oneProcess.leaf i n = none := by
    intro i n
    cases i <;> rfl
  refine ⟨⟨nofun, fun k slot hk => ?_, fun k k' slot hk => ?_⟩, fun i p hp => ?_⟩
  · rw [owner, none] at hk
    cases hk
  · rw [owner, none] at hk
    cases hk
  · cases i with
    | zero =>
      cases hp
      exact ⟨Laid.nil, nofun⟩
    | succ i => cases hp

def evictRun : List SwapCall := [.reserve 0 userMmapBase 1 { rw := true, nx := true } true, .evict 0 1]

/-- The page is in the first slot; it can be swapped in or forked. -/
lemma exists_evictRun : ∃ s₁ s₂ s₃ s₄,
    oneProcess.swapCall (.reserve 0 userMmapBase 1 { rw := true, nx := true } true) = some s₁ ∧
    s₁.swapCall (.evict 0 1) = some s₂ ∧ s₂.leaf 0 (vpn userMmapBase) = some (.swapped 0) ∧
    s₂.swapCall (.swapIn 0 userMmapBase) = some s₃ ∧ s₂.swapCall (.fork 0) = some s₄ ∧
    s₄.leaf 0 (vpn userMmapBase) = some (.swapped 0) ∧ s₄.leaf 1 (vpn userMmapBase) = some (.swapped 0) := by
  have runs : (oneProcess.swapCall (.reserve 0 userMmapBase 1 { rw := true, nx := true } true)).any fun s₁ =>
      (s₁.swapCall (.evict 0 1)).any fun s₂ => s₂.leaf 0 (vpn userMmapBase) = some (.swapped 0) &&
        (s₂.swapCall (.swapIn 0 userMmapBase)).isSome && (s₂.swapCall (.fork 0)).any fun s₄ =>
          s₄.leaf 0 (vpn userMmapBase) = some (.swapped 0) && s₄.leaf 1 (vpn userMmapBase) = some (.swapped 0) := by
    decide +kernel
  simp only [Option.any_eq_true, Bool.and_eq_true, decide_eq_true_eq, Option.isSome_iff_exists] at runs
  obtain ⟨s₁, reserve, s₂, evict, ⟨evicted, s₃, swapIn⟩, s₄, fork, parent, child⟩ := runs
  exact ⟨s₁, s₂, s₃, s₄, reserve, evict, evicted, swapIn, fork, parent, child⟩

theorem slotsOwned_of_evicted_page :
    ∃ s', (evictRun ++ [SwapCall.swapIn 0 userMmapBase]).foldlM swapCall oneProcess = some s' ∧ s'.SlotsOwned := by
  obtain ⟨s₁, s₂, s₃, s₄, reserve, evict, evicted, swapIn, -⟩ := exists_evictRun
  refine ⟨s₃, by simp [evictRun, reserve, evict, swapIn], (slotsOwned_of_reaches slotted_oneProcess ?_).1⟩
  refine .tail _ (.tail _ (.tail _ .refl ⟨?_, reserve⟩) ⟨?_, evict⟩) ⟨?_, swapIn⟩
  case refine_1 | refine_2 => trivial
  intro p hp slot hSlot
  rw [leaf, hp] at evicted
  cases hSlot.symm.trans evicted
  rfl

/-- Both processes name the slot of the page that was evicted before the fork. -/
theorem fork_shares_slot :
    ∃ s', (evictRun ++ [SwapCall.fork 0]).foldlM swapCall oneProcess = some s' ∧ ¬ s'.SlotsOwned := by
  obtain ⟨s₁, s₂, s₃, s₄, reserve, evict, -, -, fork, parent, child⟩ := exists_evictRun
  refine ⟨s₄, by simp [evictRun, reserve, evict, fork], fun owned => ?_⟩
  have same := owned.exclusive.unique (0, vpn userMmapBase) (1, vpn userMmapBase) 0
    (by rw [owner, parent]; rfl) (by rw [owner, child]; rfl)
  simp at same

end Machine

end YartOS.Mm
