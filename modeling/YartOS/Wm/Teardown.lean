import YartOS.Wm.Mapping

/-! What holds of the frames of surfaces, and that it stays when surfaces and processes go. -/
namespace YartOS.Wm

open Mm Programs Tally Runs List Machine Option

def Names (s : Machine) (i n f : Nat) : Prop := ∃ flags, s.leaf i n = some (.present f flags)

instance (s : Machine) (i n f : Nat) : Decidable (Names s i n f) :=
  decidable_of_iff ((s.leaf i n).bind Pte.frame = some f) <| by
    unfold Names
    cases s.leaf i n with
    | none => simp
    | some e => cases e <;> simp [Pte.frame]

/-- Besides table and owner, one process at most refers to each frame, as a compositor. -/
structure SlotOk (s : Machine) (id : Nat) (x : Surface) : Prop where
  size : x.pages.length ≤ wmSurfMaxPages
  stray : x.stray = []
  kernel : ∀ f ∈ x.pages, s.kernelRefs f = 0
  only : ∀ j f, x.pages[j]? = some f → ∀ i p, s.proc i = some p → i ≠ x.owner → OnlyAt p f (wmPage id j)
  one : ∀ j f, x.pages[j]? = some f → ∀ i i', Names s i (wmPage id j) f → Names s i' (wmPage id j) f → i = i'

variable {reserved frames pages : Nat → Prop} {s s' : Machine} {i n f id : Nat} {p : Proc}
  {x : Surface}

lemma leaf_of_proc (hp : s.proc i = some p) (n : Nat) : s.leaf i n = p.leaves.lookup n := by rw [leaf, hp, bind_some]

lemma leaf_eq_some {e : Pte} (h : s.leaf i n = some e) :
    ∃ p, s.proc i = some p ∧ p.leaves.lookup n = some e := bind_eq_some_iff.mp h

lemma entryRefs_le_refs (p : Proc) (n f : Nat) : entryRefs f (p.leaves.lookup n) ≤ p.refs f := by
  have := weigh_erase (fun _ e => Pte.refs f e) p.leaves n
  change _ + entryRefs f (p.leaves.lookup n) = p.leafRefs f at this
  unfold Proc.refs
  omega

lemma present_of_entryRefs {o : Option Pte} (h : entryRefs f o ≠ 0) : ∃ flags, o = some (.present f flags) := by
  cases o with
  | none => exact absurd (entryRefs_none f) h
  | some e =>
    cases e with
    | swapped slot => exact absurd (entryRefs_swapped f slot) h
    | present g flags =>
      obtain rfl : g = f := by
        by_contra hgf
        exact h (if_neg hgf)
      exact ⟨flags, rfl⟩

/-- A process with an entry for the frame refers to it. -/
lemma Names.refs_ne_zero (h : Names s i n f) (hp : s.proc i = some p) : p.refs f ≠ 0 := by
  obtain ⟨flags, hLeaf⟩ := h
  have := entryRefs_le_refs p n f
  rw [leaf_of_proc hp] at hLeaf
  rw [hLeaf, entryRefs_present, unit_self] at this
  omega

lemma leaf_within (h : Machine.Within frames pages s s') (hn : pages n) {e : Pte}
    (hLeaf : s'.leaf i n = some e) : s.leaf i n = some e := by
  obtain ⟨p', hp', he⟩ := leaf_eq_some hLeaf
  obtain ⟨p, hp, within⟩ := h i p' hp'
  rw [leaf_of_proc hp]
  exact within.leaf n hn e he

lemma SlotOk.within (h : SlotOk s id x) (within : Machine.Within frames pages s s')
    (hFrames : ∀ f ∈ x.pages, frames f) (hPages : ∀ j < x.pages.length, pages (wmPage id j))
    (kernel : s'.kernelRefs = s.kernelRefs) : SlotOk s' id x where
  size := h.size
  stray := h.stray
  kernel := kernel ▸ h.kernel
  only j f hj i p' hp' hi := by
    obtain ⟨p, hp, step⟩ := within i p' hp'
    have hLt := (List.getElem?_eq_some_iff.mp hj).1
    exact step.only f _ (hFrames f (mem_of_getElem? hj)) (hPages j hLt) (h.only j f hj i p hp hi)
  one j f hj i i' hi hi' := by
    have hLt := (List.getElem?_eq_some_iff.mp hj).1
    exact h.one j f hj i i' (hi.imp fun _ => leaf_within within (hPages j hLt))
      (hi'.imp fun _ => leaf_within within (hPages j hLt))

namespace Desktop

def tableRefs (s : Desktop) (f : Nat) : Nat := tally (fun x => x.pages.count f) s.surfs

/-- A frame of a surface whose slot was used again: at most its owner refers to it. -/
structure ReplacedOk (reserved : Nat → Prop) (s : Desktop) (e : Nat × Nat) : Prop where
  notReserved : ¬ reserved e.2
  kernel : s.machine.kernelRefs e.2 = 0
  table : s.tableRefs e.2 = 0
  refs : ∀ i p, s.machine.proc i = some p → i ≠ e.1 → p.refs e.2 = 0

/-- What the calls keep: among running processes only owners see surfaces as applications, and only
the compositor as one. -/
structure Inv (reserved : Nat → Prop) (s : Desktop) : Prop where
  exact : (s.machine.holding s.tableRefs).Exact reserved
  slots : s.surfs.length = wmMaxSurfaces
  app : ∀ i id j, s.Live i → id < wmMaxSurfaces → j < wmSurfMaxPages → (s.machine.leaf i (appPage id j)).isSome →
    (s.surf id).used ∧ (s.surf id).owner = i ∧ j < (s.surf id).pages.length
  shown : ∀ i id j e, s.Live i → id < wmMaxSurfaces → j < wmSurfMaxPages → s.machine.leaf i (wmPage id j) = some e →
    s.wm = some i ∧ ∃ f, (s.surf id).pages[j]? = some f ∧ e = .present f surfFlags
  once : ∀ f, s.tableRefs f ≤ 1
  slot : ∀ id < wmMaxSurfaces, SlotOk s.machine id (s.surf id)
  replaced : ∀ e ∈ s.replaced, s.ReplacedOk reserved e

def WmLive (s : Desktop) : Prop := ∀ c, s.wm = some c → s.Live c

def Settled (s : Desktop) : Prop := ∀ e ∈ s.replaced, s.machine.pmm.used e.2

variable {s s' : Desktop} {m : Machine}

section

variable (hId : id < s.surfs.length)

include hId

lemma surf_set (x : Surface) (k : Nat) :
    { s with surfs := s.surfs.set id x : Desktop }.surf k = if k = id then x else s.surf k := by
  unfold surf
  by_cases h : id = k
  · subst h
    simp [hId]
  · simp [h, Ne.symm h]

lemma surfs_getElem? : s.surfs[id]? = some (s.surf id) := by
  unfold surf
  rw [getElem?_eq_getElem hId, getD_some]

lemma tableRefs_set (x : Surface) (f : Nat) :
    { s with surfs := s.surfs.set id x : Desktop }.tableRefs f + (s.surf id).pages.count f =
      s.tableRefs f + x.pages.count f :=
  tally_set (f := fun x : Surface => x.pages.count f) (surfs_getElem? hId) x

lemma count_le_tableRefs (f : Nat) : (s.surf id).pages.count f ≤ s.tableRefs f :=
  le_tally (f := fun x : Surface => x.pages.count f) (mem_of_getElem? (surfs_getElem? hId))

end

namespace Inv

section

variable (h : s.Inv reserved)

include h

/-- Every entry of a page table names a frame that is counted. -/
lemma refs_ne_zero {n f : Nat} {flags : PteFlags}
    (hLeaf : s.machine.leaf i n = some (.present f flags)) : s.machine.pmm.refs f ≠ 0 := by
  obtain ⟨p, hp, -⟩ := leaf_eq_some hLeaf
  have hRefs := Names.refs_ne_zero ⟨flags, hLeaf⟩ hp
  have hSum := h.exact.refs_eq f
  have hLe := refs_le hp f
  change s.machine.pmm.refs f = _ + s.machine.refs f at hSum
  omega

lemma framesKept (settled : s.Settled) : s.FramesKept where
  mapped i n f flags hLeaf := h.refs_ne_zero hLeaf
  returned e he := by
    have ok := h.replaced e he
    by_contra gone
    -- nothing refers to the frame, which is in use
    have none : s.machine.refs e.2 = 0 := tally_eq_zero_iff.mpr fun o ho => by
      obtain ⟨j, hj⟩ := mem_iff_getElem?.mp ho
      cases o with
      | none => rfl
      | some p =>
        have hp : s.machine.proc j = some p := join_eq_some_iff.mpr hj
        refine ok.refs j p hp ?_
        rintro rfl
        exact gone (by rw [hp]; rfl)
    have hRefs := h.exact.refs_eq e.2
    change s.machine.pmm.refs e.2 = s.machine.kernelRefs e.2 + s.tableRefs e.2 + s.machine.refs e.2 at hRefs
    rw [ok.kernel, ok.table, none] at hRefs
    obtain used | res := (h.exact.counted.used_iff e.2).mp (settled e he)
    · exact used hRefs
    · exact ok.notReserved res

lemma nodup_pages (hId : id < wmMaxSurfaces) : (s.surf id).pages.Nodup :=
  nodup_iff_count_le_one.mpr fun f =>
    (count_le_tableRefs (by rw [h.slots]; exact hId) f).trans (h.once f)

lemma used_of_mem (hId : id < wmMaxSurfaces) {f : Nat} (hf : f ∈ (s.surf id).pages) : s.machine.pmm.used f := by
  have hCount := count_pos_iff.mpr hf
  have hTable : (s.surf id).pages.count f ≤ s.tableRefs f := count_le_tableRefs (by rw [h.slots]; exact hId) f
  have hRefs := h.exact.refs_eq f
  change s.machine.pmm.refs f = s.machine.kernelRefs f + s.tableRefs f + s.machine.refs f at hRefs
  have : s.machine.pmm.refs f ≠ 0 := by omega
  exact (h.exact.counted.used_iff f).mpr (.inl this)

/-- Processes lose entries, or stop to run. -/
lemma shrink (zombies : List Nat) (more : ∀ i ∈ s.zombies, i ∈ zombies) (exact : (m.holding s.tableRefs).Exact reserved)
    (within : Machine.Within (fun _ => True) (fun _ => True) s.machine m)
    (kernel : m.kernelRefs = s.machine.kernelRefs) :
    { s with machine := m, zombies := zombies : Desktop }.Inv reserved := by
  have live : ∀ i, { s with machine := m, zombies := zombies : Desktop }.Live i → s.Live i := by
    rintro i ⟨hp, hz⟩
    obtain ⟨p', hp'⟩ := isSome_iff_exists.mp hp
    obtain ⟨p, hp, -⟩ := within i p' hp'
    exact ⟨by rw [hp]; rfl, fun hz' => hz (more i hz')⟩
  refine ⟨exact, h.slots, fun i id j hi hId hj hLeaf => ?_, fun i id j e hi hId hj hLeaf => ?_, h.once,
    fun id hId => ?_, fun e he => ?_⟩
  · obtain ⟨e, he⟩ := isSome_iff_exists.mp hLeaf
    exact h.app i id j (live i hi) hId hj (by rw [leaf_within within trivial he]; rfl)
  · exact h.shown i id j e (live i hi) hId hj (leaf_within within trivial hLeaf)
  · exact (h.slot id hId).within within (fun _ _ => trivial) (fun _ _ => trivial) kernel
  have ok := h.replaced e he
  refine ⟨ok.notReserved, kernel ▸ ok.kernel, ok.table, fun i p' hp' hi => ?_⟩
  obtain ⟨p, hp, step⟩ := within i p' hp'
  have := step.refs_le e.2 trivial
  have := ok.refs i p hp hi
  omega

lemma charge {n : Nat} {u : Unit} (run : s.machine.runOn i (modify (chargePages · n)) = some (u, m)) :
    { s with machine := m : Desktop }.Inv reserved := by
  obtain ⟨p, t, hp, hx, rfl⟩ := runOn_eq_some run
  obtain rfl := of_modify hx
  have hCharge : ∀ t : Mem, Exact reserved ((s.machine.holding s.tableRefs).others p) t →
      Exact reserved ((s.machine.holding s.tableRefs).others p) (chargePages t n) ∧
        Within (fun _ => True) (fun _ => True) t.proc (chargePages t n).proc := by
    intro t ht
    unfold chargePages
    split
    · exact ⟨ht, .refl ..⟩
    · exact ⟨⟨ht.balanced.of_eq ht.balanced.counted (fun _ => rfl) fun _ => rfl, ht.sound.laid,
        ht.sound.tidy.leaves, ht.sound.tidy.tables⟩, ⟨fun _ _ => Nat.le_refl _, fun _ _ _ he => he,
        fun _ _ _ _ only => only⟩⟩
  obtain ⟨exact, within⟩ := hCharge _ (h.exact.mem hp)
  exact h.shrink s.zombies (fun _ hi => hi) (h.exact.put hp exact) (within_put hp within) rfl

end

lemma released_eq {x : Surface} (small : ∀ f ∈ x.pages, f < 2 ^ 20) : x.released = { x with used := false } := by
  have saved : x.pages.map savedPage = x.pages :=
    (map_congr_left fun f hf => show savedPage f = f by
      have := small f hf
      unfold savedPage pageSize
      omega).trans (map_id _)
  rw [Surface.released, saved]

/-- A slot is given up whose application has no entries for it any more. -/
lemma giveUp (h : s.Inv reserved) (hId : id < wmMaxSurfaces)
    (small : ∀ f ∈ (s.surf id).pages, f < 2 ^ 20)
    (gone : ∀ j, s.Live (s.surf id).owner → j < (s.surf id).pages.length →
      s.machine.leaf (s.surf id).owner (appPage id j) = none) :
    { s with surfs := s.surfs.set id (s.surf id).released : Desktop }.Inv reserved := by
  have hSlot : id < s.surfs.length := by
    rw [h.slots]
    exact hId
  rw [released_eq small]
  have pages := surf_set hSlot { s.surf id with used := false }
  have table : { s with surfs := s.surfs.set id _ : Desktop }.tableRefs = s.tableRefs :=
    funext fun f => Nat.add_right_cancel (tableRefs_set hSlot { s.surf id with used := false } f)
  refine ⟨?_, by rw [length_set]; exact h.slots, fun i k j hi hk hj hLeaf => ?_,
    fun i k j e hi hk hj hLeaf => ?_, fun f => ?_, fun k hk => ?_, fun e he => ?_⟩
  · rw [table]
    exact h.exact
  · obtain ⟨used, owner, lt⟩ := h.app i k j hi hk hj hLeaf
    rw [pages]
    split_ifs with heq
    · subst heq owner
      exact absurd (gone j hi lt) (isSome_iff_ne_none.mp hLeaf)
    · exact ⟨used, owner, lt⟩
  · obtain ⟨wm, f, hf, he⟩ := h.shown i k j e hi hk hj hLeaf
    refine ⟨wm, f, ?_, he⟩
    rw [pages]
    split_ifs with heq
    · subst heq
      exact hf
    · exact hf
  · rw [table]
    exact h.once f
  · rw [pages]
    split_ifs with heq
    · subst heq
      have ok := h.slot k hk
      exact ⟨ok.size, ok.stray, ok.kernel, ok.only, ok.one⟩
    · exact h.slot k hk
  · have ok := h.replaced e he
    exact ⟨ok.notReserved, ok.kernel, (congrFun table e.2).trans ok.table, ok.refs⟩

lemma unmapApp (h : s.Inv reserved) (owner n : Nat) :
    { s with machine := Desktop.unmapApp s.machine owner id n : Desktop }.Inv reserved := by
  unfold Desktop.unmapApp
  cases hp : s.machine.proc owner with
  | none => exact h
  | some p =>
    have exact := h.exact.mem hp
    have hPut := h.exact.put (m := ((range n).map (appPage id)).foldl vmmUnmap (s.machine.mem p)) hp
      ⟨exact.balanced.foldl_vmmUnmap _, exact.sound.foldl_vmmUnmap _⟩
    exact h.shrink s.zombies (fun _ hi => hi) hPut (within_put hp (within_foldl_vmmUnmap (s.machine.mem p) _)) rfl

lemma leaf_unmapApp {m : Machine} {owner n j : Nat} (sound : ∀ p, m.proc owner = some p → p.Sound)
    (hj : j < n) : (Desktop.unmapApp m owner id n).leaf owner (appPage id j) = none := by
  unfold Desktop.unmapApp
  cases hp : m.proc owner with
  | none =>
    rw [leaf, hp, bind_none]
  | some p =>
    rw [leaf_of_proc ((proc_put hp owner).trans (if_pos rfl))]
    exact leaf_foldl_vmmUnmap (m := m.mem p) (sound p hp) (mem_map_of_mem (mem_range.mpr hj))

lemma teardown (h : s.Inv reserved) (hId : id < wmMaxSurfaces)
    (small : ∀ f ∈ (s.surf id).pages, f < 2 ^ 20) : (s.wmSurfaceTeardown id true).Inv reserved :=
  (h.unmapApp (s.surf id).owner (s.surf id).pages.length).giveUp hId small fun _ _ hj =>
    leaf_unmapApp (fun p hp => h.exact.sound _ p hp) hj

/-- The slots of a process that is gone are given up one after the other. -/
lemma foldl_teardown {ids : List Nat} (h : s.Inv reserved) (dead : ¬ s.Live i)
    (owned : ∀ id ∈ ids, id < wmMaxSurfaces ∧ (s.surf id).owner = i ∧ ∀ f ∈ (s.surf id).pages, f < 2 ^ 20) :
    (ids.foldl (fun t id => t.wmSurfaceTeardown id false) s).Inv reserved := by
  induction ids generalizing s with
  | nil => exact h
  | cons id ids ih =>
    obtain ⟨⟨hId, owner, small⟩, rest⟩ := forall_mem_cons.mp owned
    refine ih (h.giveUp hId small fun _ hi => absurd hi (owner ▸ dead)) dead fun k hk => ?_
    have pages : (s.wmSurfaceTeardown id false).surf k = if k = id then (s.surf id).released else s.surf k :=
      surf_set (by rw [h.slots]; exact hId) _ k
    rw [pages, released_eq small]
    split_ifs with heq
    · exact ⟨heq ▸ hId, owner, small⟩
    · exact rest k hk

/-- The framebuffer claim changes, while no running process composes. -/
lemma claim (h : s.Inv reserved) (wm : Option Nat) (none : ∀ c, s.wm = some c → ¬ s.Live c) :
    { s with wm := wm : Desktop }.Inv reserved where
  exact := h.exact
  slots := h.slots
  app := h.app
  shown i id j e hi hId hj hLeaf := absurd hi (none i (h.shown i id j e hi hId hj hLeaf).1)
  once := h.once
  slot := h.slot
  replaced e he := ⟨(h.replaced e he).notReserved, (h.replaced e he).kernel, (h.replaced e he).table,
    (h.replaced e he).refs⟩

end Inv

/-- Giving up slots changes the table only. -/
lemma foldl_teardown_eq (s : Desktop) (ids : List Nat) :
    ∃ surfs, ids.foldl (fun t id => t.wmSurfaceTeardown id false) s = { s with surfs := surfs } := by
  induction ids generalizing s with
  | nil => exact ⟨s.surfs, rfl⟩
  | cons id ids ih =>
    obtain ⟨surfs, h⟩ := ih (s.wmSurfaceTeardown id false)
    exact ⟨surfs, h⟩

def LowFrames (s : Desktop) (i : Nat) : Prop :=
  ∀ id < wmMaxSurfaces, (s.surf id).used → (s.surf id).owner = i → ∀ f ∈ (s.surf id).pages, f < 2 ^ 20

lemma Inv.ownerDied (h : s.Inv reserved) (dead : ¬ s.Live i) (low : s.LowFrames i) :
    (s.wmSurfaceOwnerDied i).Inv reserved := by
  have kept := h.foldl_teardown dead fun id (hId : id ∈ s.owned i) => by
    simp only [owned, mem_filter, mem_range, Bool.and_eq_true, beq_iff_eq] at hId
    exact ⟨hId.1, hId.2.2, low id hId.1 hId.2.1 hId.2.2⟩
  unfold wmSurfaceOwnerDied
  obtain ⟨surfs, hEq⟩ := s.foldl_teardown_eq (s.owned i)
  rw [hEq] at kept ⊢
  dsimp only
  split_ifs with hWm
  · refine kept.claim none fun c hc => ?_
    cases hWm.symm.trans hc
    exact dead
  · exact kept

/-- The compositor still runs when process `i` has ended. -/
lemma WmLive.ownerDied {zombies : List Nat} (h : s.WmLive)
    (others : ∀ c, c ≠ i → s.Live c → { s with machine := m, zombies := zombies : Desktop }.Live c) :
    ({ s with machine := m, zombies := zombies : Desktop }.wmSurfaceOwnerDied i).WmLive := by
  obtain ⟨surfs, hEq⟩ := foldl_teardown_eq { s with machine := m, zombies := zombies : Desktop }
    (owned { s with machine := m, zombies := zombies : Desktop } i)
  rw [wmSurfaceOwnerDied, hEq]
  intro c hc
  split at hc
  · cases hc
  · rename_i hne
    exact others c (fun heq => hne (heq ▸ hc)) (h c hc)

variable (h : s.Inv reserved) (wmLive : s.WmLive)

include h wmLive

lemma Inv.schedExit (low : s.LowFrames i) (run : s.schedExit i = some s') : s'.Inv reserved ∧ s'.WmLive := by
  obtain ⟨⟨u, m⟩, ran, done⟩ := bind_eq_some_iff.mp run
  cases done
  obtain ⟨p, t, hp, hx, rfl⟩ := runOn_eq_some ran
  obtain rfl := of_modify hx
  have exact := (h.exact.mem hp).vmmUserTeardownAll
  have within : Within (fun _ => True) (fun _ => True) p (vmmUserTeardownAll (s.machine.mem p)).proc := by
    have unmapped := within_foldl_vmmUnmap (s.machine.mem p) (p.regions.flatMap Region.pages)
    exact ⟨unmapped.refs_le, unmapped.leaf, unmapped.only⟩
  have put : ((s.machine.put i (vmmUserTeardownAll (s.machine.mem p))).holding s.tableRefs).Exact reserved :=
    h.exact.put hp exact
  have kept := h.shrink (i :: s.zombies) (fun _ hj => mem_cons_of_mem _ hj) put (within_put hp within) rfl
  refine ⟨kept.ownerDied (fun hi => hi.2 (mem_cons_self ..)) low, wmLive.ownerDied fun c hc hLive => ⟨?_, ?_⟩⟩
  · rw [proc_put hp, if_neg hc]
    exact hLive.1
  · exact fun hz => (mem_cons.mp hz).elim hc hLive.2

lemma Inv.reapTask (low : s.LowFrames i) (run : s.reapTask i = some s') : s'.Inv reserved ∧ s'.WmLive := by
  obtain ⟨m, ran, done⟩ := bind_eq_some_iff.mp run
  cases done
  have within : Machine.Within (fun _ => True) (fun _ => True) _ _ := within_reap ran
  obtain ⟨p, hp, hm⟩ := bind_eq_some_iff.mp ran
  have hReap : (s.machine.holding s.tableRefs).reap i = some (m.holding s.tableRefs) := by
    cases hm
    exact bind_eq_some_iff.mpr ⟨p, hp, rfl⟩
  have kernel : m.kernelRefs = s.machine.kernelRefs := by
    cases hm
    rfl
  have procs : m.procs = s.machine.procs.set i none := by
    cases hm
    rfl
  have hProc : ∀ c, m.proc c = if c = i then none else s.machine.proc c := fun c => by
    unfold proc
    rw [procs, getElem?_set]
    by_cases hc : i = c
    · subst hc
      simp only [if_true]
      split <;> rfl
    · simp [hc, Ne.symm hc]
  have kept := h.shrink s.zombies (fun _ hj => hj) (h.exact.reap hReap) within kernel
  refine ⟨kept.ownerDied (fun hi => ?_) low, wmLive.ownerDied fun c hc hLive => ⟨?_, hLive.2⟩⟩
  · have := hi.1
    rw [hProc, if_pos rfl] at this
    cases this
  · rw [hProc, if_neg hc]
    exact hLive.1

lemma Inv.sysFbInfo (hi : s.Live i) : (s.sysFbInfo i).Inv reserved ∧ (s.sysFbInfo i).WmLive := by
  unfold Desktop.sysFbInfo
  split_ifs with hWm
  · refine ⟨h.claim (some i) fun c hc => ?_, fun c hc => ?_⟩
    · cases hWm.symm.trans hc
    · cases hc
      exact hi
  · exact ⟨h, wmLive⟩

lemma Inv.sysWmDestroy (low : s.mayChange i id → ∀ f ∈ (s.surf id).pages, f < 2 ^ 20) :
    (s.sysWmDestroy i id).2.Inv reserved ∧ (s.sysWmDestroy i id).2.WmLive := by
  unfold Desktop.sysWmDestroy
  split_ifs with may
  · have low := low may
    simp only [mayChange, Bool.and_eq_true, decide_eq_true_eq] at may
    refine ⟨h.teardown may.1.1 low, fun c hc => ⟨?_, (wmLive c hc).2⟩⟩
    have live := (wmLive c hc).1
    change ((Desktop.unmapApp s.machine (s.surf id).owner id _).proc c).isSome
    unfold Desktop.unmapApp
    cases hp : s.machine.proc (s.surf id).owner with
    | none => exact live
    | some p =>
      rw [proc_put hp]
      split
      · rfl
      · exact live
  · exact ⟨h, wmLive⟩

end Desktop

end YartOS.Wm
