import YartOS.Wm.Placing

/-! No frame of a surface is lost, and none is freed while a process sees it. -/
namespace YartOS.Wm

open Mm Programs Tally Runs List Machine Option

namespace Desktop

variable {reserved : Nat → Prop} {s s' : Desktop} {m : Machine} {app : Option Nat} {i id first n : Nat}
  {fs : List Nat} {lost : Nat → Nat}

namespace Inv

/-- The slot `id` gets a surface with new frames. What is not about the slot stays. -/
lemma place (h : s.Inv reserved) (settled : s.Settled) (hId : id < wmMaxSurfaces)
    (hn : first + n ≤ wmSurfMaxPages)
    (placed : Placed reserved s.tableRefs s.machine app s.wm id first n fs lost m) {pmm : Pmm} {x : Surface}
    {more : List (Nat × Nat)}
    (hCount : ∀ f, x.pages.count f ≤ (s.surf id).pages.count f + fs.count f)
    (hTable : ∀ table : Nat → Nat, (∀ f, table f + (s.surf id).pages.count f = s.tableRefs f + x.pages.count f) →
        ({ m with pmm := pmm }.holding table).Exact reserved)
    (hApp : ∀ i j, s.Live i → j < wmSurfMaxPages → (m.leaf i (appPage id j)).isSome →
      x.used ∧ x.owner = i ∧ j < x.pages.length)
    (hShown : ∀ i j e, s.Live i → j < wmSurfMaxPages → m.leaf i (wmPage id j) = some e →
      s.wm = some i ∧ ∃ f, x.pages[j]? = some f ∧ e = .present f surfFlags)
    (hSlot : SlotOk m id x)
    (hMore : ∀ e ∈ more, ¬ reserved e.2 ∧ s.machine.kernelRefs e.2 = 0 ∧
      s.tableRefs e.2 + x.pages.count e.2 = (s.surf id).pages.count e.2 ∧
      ∀ c p, m.proc c = some p → c ≠ e.1 → p.refs e.2 = 0) :
    { s with
      machine := { m with pmm := pmm }, surfs := s.surfs.set id x
      replaced := s.replaced ++ more : Desktop }.Inv reserved := by
  have hLt : id < s.surfs.length := by
    rw [h.slots]
    exact hId
  have pages : ∀ k, (s.surfs.set id x)[k]?.getD {} = if k = id then x else s.surf k := surf_set hLt x
  have table : ∀ f, tally (fun y : Surface => y.pages.count f) (s.surfs.set id x) +
      (s.surf id).pages.count f = s.tableRefs f + x.pages.count f := tableRefs_set hLt x
  have within := placed.within
  have live : ∀ c, (m.proc c).isSome ∧ c ∉ s.zombies → s.Live c := fun c hc => ⟨placed.procs c ▸ hc.1, hc.2⟩
  -- the pages of another slot are not touched
  have untouched : ∀ k j, k ≠ id → k < wmMaxSurfaces → j < wmSurfMaxPages →
      Placed.Untouched id first n (appPage k j) ∧ Placed.Untouched id first n (wmPage k j) := by
    intro k j hne hk hj
    refine ⟨fun t ht => ⟨fun heq => hne ?_, ?_⟩, fun t ht => ⟨?_, fun heq => hne ?_⟩⟩
    · exact (side_appPage.inj hk hId hj (by omega) heq).1
    · exact appPage_ne_wmPage hk hId hj (by omega)
    · exact fun heq => appPage_ne_wmPage hId hk (by omega) hj heq.symm
    · exact (side_wmPage.inj hk hId hj (by omega) heq).1
  refine ⟨hTable _ table, by rw [length_set]; exact h.slots, fun c k j hc hk hj hLeaf => ?_,
    fun c k j e hc hk hj hLeaf => ?_, fun f => ?_, fun k hk => ?_, fun e he => ?_⟩
  · simp only [surf, pages]
    split_ifs with heq
    · exact hApp c j (live c hc) hj (heq ▸ hLeaf)
    · obtain ⟨e, he⟩ := isSome_iff_exists.mp hLeaf
      have := leaf_within within (untouched k j heq hk hj).1 he
      exact h.app c k j (live c hc) hk hj (by rw [this]; rfl)
  · simp only [surf, pages]
    split_ifs with heq
    · exact hShown c j e (live c hc) hj (heq ▸ hLeaf)
    · exact h.shown c k j e (live c hc) hk hj (leaf_within within (untouched k j heq hk hj).2 hLeaf)
  · have := table f
    have := hCount f
    have := h.once f
    change tally _ (s.surfs.set id x) ≤ 1
    by_cases hf : f ∈ fs
    · have := (placed.kernelRefs_new h.exact hf).2
      have := nodup_iff_count_le_one.mp placed.nodup f
      omega
    · have := count_eq_zero.mpr hf
      omega
  · simp only [surf, pages]
    split_ifs with heq
    · subst heq
      exact ⟨hSlot.size, hSlot.stray, hSlot.kernel, hSlot.only, hSlot.one⟩
    · have ok := h.slot k hk
      have kept : SlotOk m k (s.surf k) := ok.within within (fun f hf => h.used_of_mem hk hf)
        (fun j hj => (untouched k j heq hk (Nat.lt_of_lt_of_le hj ok.size)).2) placed.kernel
      exact ⟨kept.size, kept.stray, kept.kernel, kept.only, kept.one⟩
  · have hSet := table e.2
    have kernel := placed.kernel
    rcases mem_append.mp he with he | he
    · have ok := h.replaced e he
      refine ⟨ok.notReserved, kernel ▸ ok.kernel, ?_, fun c p' hp' hc => ?_⟩
      · have := hCount e.2
        have := ok.table
        have := placed.count_eq_zero (settled e he)
        change tally _ (s.surfs.set id x) = 0
        omega
      · obtain ⟨p, hp, step⟩ := within c p' hp'
        have := step.refs_le e.2 (settled e he)
        have := ok.refs c p hp hc
        omega
    · obtain ⟨notReserved, hKernel, hPages, refs⟩ := hMore e he
      refine ⟨notReserved, kernel ▸ hKernel, ?_, refs⟩
      change tally _ (s.surfs.set id x) = 0
      omega

end Inv

/-- The old surface can be replaced by `n` pages: its frames are the compositor's and within the
size, or unmapped. -/
def Reusable (s : Desktop) (id n : Nat) : Prop :=
  ∀ e ∈ (s.surf id).pages.zipIdx, (∃ c ∈ s.wm, Names s.machine c (wmPage id e.2) e.1 ∧ e.2 < n) ∨ s.machine.refs e.1 = 0

instance (s : Desktop) (id n : Nat) : Decidable (s.Reusable id n) := decidableBAll ..

lemma Reusable.cases (h : s.Reusable id n) {j f : Nat} (hj : (s.surf id).pages[j]? = some f) :
    (∃ c, s.wm = some c ∧ Names s.machine c (wmPage id j) f ∧ j < n) ∨ s.machine.refs f = 0 :=
  h (f, j) (mk_mem_zipIdx_iff_getElem?.mpr hj)

lemma freeSlot_eq_some (h : s.freeSlot = some id) : id < s.surfs.length ∧ (s.surf id).used = false := by
  obtain ⟨hId, free, -⟩ := findIdx?_eq_some_iff_getElem.mp h
  refine ⟨hId, ?_⟩
  unfold surf
  rw [getElem?_eq_getElem hId, getD_some]
  simpa using free

namespace Inv

/-- An entry of the compositor for a page of a slot names the frame of the table. -/
lemma entryRefs_shown (h : s.Inv reserved) (wmLive : s.WmLive) (hId : id < wmMaxSurfaces) {c j : Nat}
    (hj : j < wmSurfMaxPages) (hc : s.wm = some c) (f : Nat)
    (hne : entryRefs f (s.machine.leaf c (wmPage id j)) ≠ 0) : (s.surf id).pages[j]? = some f := by
  obtain ⟨flags, hLeaf⟩ := present_of_entryRefs hne
  obtain ⟨-, g, hg, heq⟩ := h.shown c id j _ (wmLive c hc) hId hj hLeaf
  cases heq
  exact hg

section

variable (h : s.Inv reserved) (wmLive : s.WmLive) (hId : id < wmMaxSurfaces)
  (hn : n ≤ wmSurfMaxPages)

include h wmLive hId hn

lemma lostAt_shown {c j f : Nat} (hj : (s.surf id).pages[j]? = some f) (hc : s.wm = some c)
    (names : Names s.machine c (wmPage id j) f) (hjn : j < n) : lostAt s.machine s.wm id n f = 1 := by
  rw [hc, lostAt, tally_eq_of_unique nodup_range (mem_range.mpr hjn) fun k hk hkj => ?_]
  · obtain ⟨flags, hLeaf⟩ := names
    rw [hLeaf, entryRefs_present, unit_self]
  · by_contra hne
    have hk' := mem_range.mp hk
    have same := h.entryRefs_shown wmLive hId (by omega) hc f hne
    have hLt := (List.getElem?_eq_some_iff.mp same).1
    exact hkj ((List.getElem?_inj hLt (h.nodup_pages hId)).mp (same.trans hj.symm))

lemma lostAt_eq_zero {f : Nat} (hf : f ∉ (s.surf id).pages) : lostAt s.machine s.wm id n f = 0 := by
  cases hc : s.wm with
  | none => rfl
  | some c =>
    refine tally_eq_zero_iff.mpr fun k hk => ?_
    by_contra hne
    have hk' := mem_range.mp hk
    exact hf (mem_of_getElem? (h.entryRefs_shown wmLive hId (by omega) hc f hne))

variable (reuse : s.Reusable id n)
  (placed : Placed reserved s.tableRefs s.machine app s.wm id 0 n fs (lostAt s.machine s.wm id n) m)

include reuse placed

/-- References of the old surface are given back with its slot. -/
lemma exact_reclaim
    {table : Nat → Nat} (hTable : ∀ f, table f + (s.surf id).pages.count f = s.tableRefs f + fs.count f)
    : ({ m with pmm := reclaim (s.surf id).pages m.pmm }.holding table).Exact reserved := by
  obtain ⟨counted, refs⟩ := reclaim_spec placed.exact.counted (h.nodup_pages hId)
  refine ⟨counted, fun f => ?_, placed.exact.sound⟩
  have after : m.pmm.refs f = m.kernelRefs f + (s.tableRefs f + (fs.count f + lostAt s.machine s.wm id n f)) +
    m.refs f := placed.exact.refs_eq f
  have before : s.machine.pmm.refs f = s.machine.kernelRefs f + s.tableRefs f + s.machine.refs f := h.exact.refs_eq f
  have hSet := hTable f
  have once := h.once f
  have reclaimed : (reclaim (s.surf id).pages m.pmm).refs f = _ := refs f
  change (reclaim (s.surf id).pages m.pmm).refs f = m.kernelRefs f + table f + m.refs f
  change _ = if f ∈ (s.surf id).pages then m.pmm.refs f - 2 else m.pmm.refs f at reclaimed
  by_cases hf : f ∈ (s.surf id).pages
  · rw [if_pos hf] at reclaimed
    have one := count_eq_one_of_mem (h.nodup_pages hId) hf
    have old := (placed.refs_old f (h.used_of_mem hId hf)).2
    have kernel := (h.slot id hId).kernel f hf
    obtain ⟨j, hj⟩ := mem_iff_getElem?.mp hf
    rcases reuse.cases hj with ⟨c, hc, names, hjn⟩ | gone
    · have := h.lostAt_shown wmLive hId hn hj hc names hjn
      omega
    · omega
  · rw [if_neg hf] at reclaimed
    have := h.lostAt_eq_zero wmLive hId hn hf
    have := count_eq_zero.mpr hf
    omega

/-- After reuse of the slot only the owner refers to the frames. -/
lemma refs_replaced {c f : Nat} {p' : Proc} (hf : f ∈ (s.surf id).pages) (hp' : m.proc c = some p')
    (hc : c ≠ (s.surf id).owner) : p'.refs f = 0 := by
  obtain ⟨p, hp, trade⟩ := placed.procRefs_old c p' hp'
  replace trade := trade f (h.used_of_mem hId hf)
  obtain ⟨j, hj⟩ := mem_iff_getElem?.mp hf
  have ok := h.slot id hId
  have only := ok.only j f hj c p hp hc
  rw [OnlyAt, ← leaf_of_proc hp] at only
  rcases reuse.cases hj with ⟨w, hw, names, hjn⟩ | gone
  · by_cases hcw : c = w
    · subst hcw
      rw [if_pos hw, h.lostAt_shown wmLive hId hn hj hw names hjn] at trade
      obtain ⟨flags, hLeaf⟩ := names
      rw [hLeaf, entryRefs_present, unit_self] at only
      omega
    · have none : entryRefs f (s.machine.leaf c (wmPage id j)) = 0 := by
        by_contra hne
        exact hcw (ok.one j f hj c w (present_of_entryRefs hne) names)
      omega
  · have := refs_le hp f
    omega

end

lemma createIn (h : s.Inv reserved) (settled : s.Settled) (wmLive : s.WmLive) (hi : s.Live i)
    (hFree : s.freeSlot = some id) (hn : n ≤ wmSurfMaxPages) (reuse : s.Reusable id n)
    (run : s.createIn i id n = some s') : s'.Inv reserved ∧ s'.WmLive := by
  obtain ⟨⟨fs, m₁⟩, pages, rest⟩ := bind_eq_some_iff.mp run
  obtain ⟨m, show', rest⟩ := bind_eq_some_iff.mp rest
  obtain ⟨⟨u, m'⟩, charged, done⟩ := bind_eq_some_iff.mp rest
  cases done
  obtain ⟨hLt, unused⟩ := freeSlot_eq_some hFree
  have hId : id < wmMaxSurfaces := h.slots ▸ hLt
  have ok := h.slot id hId
  -- no process that runs sees the slot as an application
  have absent : ∀ c j, s.Live c → j < wmSurfMaxPages → s.machine.leaf c (appPage id j) = none := by
    intro c j hc hj
    by_contra hne
    have := (h.app c id j hc hId hj (isSome_iff_ne_none.mpr hne)).1
    simp [unused] at this
  obtain ⟨first, two⟩ := placed_of_createPages h.exact hId hn (fun j hj => absent i j hi (by omega)) pages
  have placed := first.showPages two hId hn show'
  have inv : { s with
      machine := { m with pmm := reclaim (s.surf id).pages m.pmm }
      surfs := s.surfs.set id { used := true, owner := i, pages := fs }
      replaced := s.replaced ++ (s.surf id).frames : Desktop }.Inv reserved := by
    refine h.place settled hId (by omega) placed (fun f => Nat.le_add_left _ _)
      (fun table hTable => h.exact_reclaim wmLive hId hn reuse placed hTable) (fun c j hc hj hLeaf => ?_)
      (fun c j e hc hj hLeaf => ?_) ⟨?_, rfl, ?_, ?_, ?_⟩ (fun e he => ?_)
    · by_cases hNew : c = i ∧ j < n
      · exact ⟨rfl, hNew.1.symm, placed.length ▸ hNew.2⟩
      · rw [placed.kept c _ (fun hc t ht heq => ?_) (fun _ t ht => ?_), absent c j hc hj] at hLeaf
        · cases hLeaf
        · have := (side_appPage.inj hId hId hj (by omega) heq).2
          exact hNew ⟨(some.inj hc).symm, by omega⟩
        · exact appPage_ne_wmPage hId hId hj (by omega)
    · by_cases hNew : s.wm = some c ∧ j < n
      · have hj' : j < fs.length := placed.length ▸ hNew.2
        have hLeaf' := placed.new c hNew.1 j _ (getElem?_eq_getElem hj')
        rw [Nat.zero_add, hLeaf] at hLeaf'
        exact ⟨hNew.1, _, getElem?_eq_getElem hj', some.inj hLeaf'⟩
      -- an entry of the previous surface beyond the new size
      rw [placed.kept c _ (fun _ t ht heq => appPage_ne_wmPage hId hId (by omega) hj heq.symm)
        (fun hc t ht heq => ?_)] at hLeaf
      · obtain ⟨hWm, f, hf, rfl⟩ := h.shown c id j e hc hId hj hLeaf
        obtain ⟨p, hp, -⟩ := leaf_eq_some hLeaf
        have hRefs := Names.refs_ne_zero ⟨surfFlags, hLeaf⟩ hp
        rcases reuse.cases hf with ⟨w, -, -, hjn⟩ | gone
        · exact absurd ⟨hWm, hjn⟩ hNew
        · have := refs_le hp f
          omega
      · have := (side_wmPage.inj hId hId hj (by omega) heq).2
        exact hNew ⟨hc, by omega⟩
    · exact placed.length ▸ hn
    · exact fun f hf => placed.kernel ▸ (placed.kernelRefs_new h.exact hf).1
    · intro j f hj c p hp hc
      have := placed.onlyAt_new hj hp fun heq => hc (some.inj heq).symm
      rwa [Nat.zero_add] at this
    · intro j f hj c c' names names'
      have hLe : j < wmSurfMaxPages := by
        have := (List.getElem?_eq_some_iff.mp hj).1
        rw [placed.length] at this
        omega
      have wm := fun w => placed.wm_of_names (c := w) h.exact hId hn (mem_of_getElem? hj) hLe
      exact some.inj ((wm c names).symm.trans (wm c' names'))
    · simp only [Surface.frames, ok.stray, append_nil, List.mem_map] at he
      obtain ⟨f, hf, rfl⟩ := he
      have one := count_eq_one_of_mem (h.nodup_pages hId) hf
      have once := h.once f
      have le := count_le_tableRefs (s := s) hLt f
      have none := placed.count_eq_zero (h.used_of_mem hId hf)
      have hRefs : s.machine.pmm.refs f = s.machine.kernelRefs f + s.tableRefs f + s.machine.refs f := h.exact.refs_eq f
      refine ⟨fun res => ?_, ok.kernel f hf, ?_, fun c p hp hc => h.refs_replaced wmLive hId hn reuse placed hf hp hc⟩
      · have : s.machine.pmm.refs f = 0 := h.exact.counted.refs_reserved f res
        omega
      · change s.tableRefs f + fs.count f = (s.surf id).pages.count f
        omega
  refine ⟨inv.charge charged, fun c hc => ⟨?_, (wmLive c hc).2⟩⟩
  obtain ⟨p, t, hp, -, rfl⟩ := runOn_eq_some charged
  exact (isSome_proc_put hp c).trans ((placed.procs c).trans (wmLive c hc).1)

lemma growTo (h : s.Inv reserved) (settled : s.Settled) (wmLive : s.WmLive) (hId : id < wmMaxSurfaces)
    (hn : (s.surf id).pages.length + n ≤ wmSurfMaxPages) {grant : Nat} (hGrant : n ≤ grant) {r : Int}
    (run : s.growTo i id n grant = some (r, s')) : s'.Inv reserved ∧ s'.WmLive := by
  obtain ⟨⟨fs, m⟩, pages, done⟩ := bind_eq_some_iff.mp run
  dsimp only at pages done
  rw [if_neg (by omega)] at done
  rw [Nat.min_eq_left hGrant] at pages
  cases done
  have ok := h.slot id hId
  have absent : ∀ c, s.wm = some c → ∀ j < n, s.machine.leaf c (wmPage id ((s.surf id).pages.length + j)) = none := by
    intro c hc j hj
    by_contra hne
    obtain ⟨e, he⟩ := ne_none_iff_exists'.mp hne
    obtain ⟨-, f, hf, -⟩ := h.shown c id _ e (wmLive c hc) hId (by omega) he
    have := (List.getElem?_eq_some_iff.mp hf).1
    omega
  have placed := placed_of_growPages h.exact hId hn absent pages
  have grown : ∀ j f, ((s.surf id).pages ++ fs)[j]? = some f →
      (s.surf id).pages[j]? = some f ∨ ∃ t, j = (s.surf id).pages.length + t ∧ fs[t]? = some f := by
    intro j f hj
    rw [List.getElem?_append] at hj
    split at hj
    · exact .inl hj
    · exact .inr ⟨j - (s.surf id).pages.length, by omega, hj⟩
  have kept : SlotOk m id (s.surf id) := ok.within placed.within (fun f hf => h.used_of_mem hId hf)
    (fun j hj t ht => ⟨fun heq => appPage_ne_wmPage hId hId (by omega) (by omega) heq.symm, fun heq => by
      have := (side_wmPage.inj hId hId (by omega) (by omega) heq).2
      omega⟩) placed.kernel
  have inv : { s with
      machine := { m with pmm := m.pmm }
      surfs := s.surfs.set id { s.surf id with pages := (s.surf id).pages ++ fs }
      replaced := s.replaced ++ [] : Desktop }.Inv reserved := by
    refine h.place settled hId hn placed (fun f => by rw [count_append]) (fun table hTable => ?_)
      (fun c j hc hj hLeaf => ?_) (fun c j e hc hj hLeaf => ?_) ⟨?_, ok.stray, ?_, ?_, ?_⟩ nofun
    · obtain rfl : table = fun f => s.tableRefs f + (fs.count f + 0) := funext fun f => by
        have := hTable f
        rw [count_append] at this
        omega
      exact placed.exact
    · rw [placed.kept c _ nofun fun _ t ht => appPage_ne_wmPage hId hId hj (by omega)] at hLeaf
      obtain ⟨used, owner, lt⟩ := h.app c id j hc hId hj hLeaf
      exact ⟨used, owner, by rw [length_append]; omega⟩
    · by_cases hNew : s.wm = some c ∧ ∃ t < n, j = (s.surf id).pages.length + t
      · obtain ⟨hWm, t, ht, rfl⟩ := hNew
        have ht' : t < fs.length := placed.length ▸ ht
        have hLeaf' := placed.new c hWm t _ (getElem?_eq_getElem ht')
        rw [hLeaf] at hLeaf'
        refine ⟨hWm, fs[t], ?_, some.inj hLeaf'⟩
        rw [getElem?_append_right (Nat.le_add_right _ _), Nat.add_sub_cancel_left]
        exact getElem?_eq_getElem ht'
      · rw [placed.kept c _ nofun fun hWm t ht heq => hNew
          ⟨hWm, t, ht, (side_wmPage.inj hId hId hj (by omega) heq).2⟩] at hLeaf
        obtain ⟨hWm, f, hf, he⟩ := h.shown c id j e hc hId hj hLeaf
        exact ⟨hWm, f, by rw [List.getElem?_append_left (List.getElem?_eq_some_iff.mp hf).1, hf], he⟩
    · rw [length_append, placed.length]
      exact hn
    · intro f hf
      rcases mem_append.mp hf with hf | hf
      · exact kept.kernel f hf
      · exact placed.kernel ▸ (placed.kernelRefs_new h.exact hf).1
    · intro j f hj c p hp hc
      rcases grown j f hj with hj | ⟨t, rfl, ht⟩
      · exact kept.only j f hj c p hp hc
      · exact placed.onlyAt_new ht hp nofun
    · intro j f hj c c' names names'
      rcases grown j f hj with hj | ⟨t, rfl, ht⟩
      · exact kept.one j f hj c c' names names'
      · have hLt := (List.getElem?_eq_some_iff.mp ht).1
        rw [placed.length] at hLt
        have wm := fun w => placed.wm_of_names (c := w) h.exact hId (by omega) (mem_of_getElem? ht)
          (j := (s.surf id).pages.length + t) (by omega)
        exact some.inj ((wm c names).symm.trans (wm c' names'))
  rw [append_nil] at inv
  exact ⟨inv, fun c hc => ⟨(placed.procs c).trans (wmLive c hc).1, (wmLive c hc).2⟩⟩

end Inv

/-- A call keeps the frames if those asked for can be had, those given up are below 4 GiB, and the
old surface can be replaced. -/
def Safe (s : Desktop) : WmEvent → Prop
  | .claim _ => True
  | .create _ w h grant => ¬ BadSize 16 w h → ∀ id ∈ s.freeSlot, surfPages w h ≤ grant ∧ s.Reusable id (surfPages w h)
  | .resize i id w h grant => s.mayChange i id → ¬ BadSize 100 w h → surfPages w h ≤ (s.surf id).pages.length + grant
  | .destroy i id => s.mayChange i id → ∀ f ∈ (s.surf id).pages, f < 2 ^ 20
  | .exit i | .reap i => s.LowFrames i

structure Start (reserved : Nat → Prop) (s : Desktop) : Prop where
  exact : s.machine.Exact reserved
  surfs : s.surfs = replicate wmMaxSurfaces {}
  wm : s.wm = none
  replaced : s.replaced = []
  absent : ∀ i id j, id < wmMaxSurfaces → j < wmSurfMaxPages →
    s.machine.leaf i (appPage id j) = none ∧ s.machine.leaf i (wmPage id j) = none

structure Kept (reserved : Nat → Prop) (s : Desktop) : Prop where
  inv : s.Inv reserved
  settled : s.Settled
  wmLive : s.WmLive

lemma Start.kept (h : s.Start reserved) : s.Kept reserved := by
  have surf : ∀ id, s.surf id = {} := fun id => by
    unfold surf
    rw [h.surfs, getElem?_replicate]
    split <;> rfl
  have table : s.tableRefs = fun _ => 0 := funext fun f => tally_eq_zero_iff.mpr fun x hx => by
    rw [h.surfs] at hx
    rw [eq_of_mem_replicate hx]
    rfl
  refine ⟨⟨?_, by rw [h.surfs]; rfl, fun i id j _ hId hj hLeaf => ?_, fun i id j e _ hId hj hLeaf => ?_,
    fun f => ?_, fun id _ => ?_, fun e he => ?_⟩, fun e he => ?_, fun c hc => ?_⟩
  · rw [table]
    exact h.exact
  · rw [(h.absent i id j hId hj).1] at hLeaf
    cases hLeaf
  · rw [(h.absent i id j hId hj).2] at hLeaf
    cases hLeaf
  · rw [table]
    exact Nat.zero_le 1
  · rw [surf]
    exact ⟨Nat.zero_le _, rfl, nofun, nofun, nofun⟩
  · rw [h.replaced] at he
    cases he
  · rw [h.replaced] at he
    cases he
  · rw [h.wm] at hc
    cases hc

lemma Kept.perform {e : WmEvent} (h : s.Kept reserved) (live : ∀ i ∈ caller e, s.Live i) (safe : s.Safe e)
    (run : s.perform e = some s') : s'.Inv reserved ∧ s'.WmLive := by
  obtain ⟨inv, settled, wmLive⟩ := h
  cases e with
  | claim i =>
    cases run
    exact inv.sysFbInfo wmLive (live i rfl)
  | create i w h grant =>
    obtain ⟨⟨r, t⟩, ran, rfl⟩ := map_eq_some_iff.mp run
    unfold sysWmCreate at ran
    split at ran
    · cases ran
      exact ⟨inv, wmLive⟩
    rename_i size
    cases hFree : s.freeSlot with
    | none =>
      rw [hFree] at ran
      cases ran
      exact ⟨inv, wmLive⟩
    | some id =>
      rw [hFree] at ran
      obtain ⟨hGrant, reuse⟩ := safe size id hFree
      dsimp only at ran
      split at ran
      · cases ran
        exact ⟨inv, wmLive⟩
      rw [if_neg (by omega)] at ran
      obtain ⟨t, created, heq⟩ := map_eq_some_iff.mp ran
      cases heq
      exact inv.createIn settled wmLive (live i rfl) hFree (by omega) reuse created
  | resize i id w h grant =>
    obtain ⟨⟨r, t⟩, ran, rfl⟩ := map_eq_some_iff.mp run
    unfold sysWmResize at ran
    split_ifs at ran with accepted
    · cases ran
      exact ⟨inv, wmLive⟩
    simp only [not_or, not_not] at accepted
    obtain ⟨may, size, hMax⟩ := accepted
    have hGrant := safe may size
    have hId : id < wmMaxSurfaces := by
      simp only [mayChange, Bool.and_eq_true, decide_eq_true_eq] at may
      exact may.1.1
    have := (inv.slot id hId).size
    exact inv.growTo settled wmLive hId (by omega) (by omega) ran
  | destroy i id =>
    cases run
    exact inv.sysWmDestroy wmLive safe
  | exit i => exact inv.schedExit wmLive safe run
  | reap i => exact inv.reapTask wmLive safe run

lemma Kept.step {e : WmEvent} (h : s.Kept reserved) (safe : s.Safe e) (run : s.step e = some s') :
    s'.Kept reserved := by
  obtain ⟨live, ran⟩ := ite_none_right_eq_some.mp run
  obtain ⟨t, performed, rfl⟩ := map_eq_some_iff.mp ran
  obtain ⟨inv, wmLive⟩ := h.perform live safe performed
  refine ⟨⟨inv.exact, inv.slots, inv.app, inv.shown, inv.once, inv.slot, fun e he => ?_⟩, fun e he => ?_, wmLive⟩
  · have ok := inv.replaced e (mem_of_mem_filter he)
    exact ⟨ok.notReserved, ok.kernel, ok.table, ok.refs⟩
  · exact (mem_filter.mp he).2

/-- After any run of safe events no entry names a free frame, and replaced frames go back. -/
theorem framesKept_of_safe (start : s.Start reserved)
    (run : Reaches (Guarded Safe fun s e s' => s.step e = some s') s s') : s'.FramesKept :=
  have kept : s'.Kept reserved := run.invariant start.kept fun _ _ _ h step => h.step step.1 step.2
  kept.inv.framesKept kept.settled

instance (s : Desktop) (i : Nat) : Decidable (s.LowFrames i) := Nat.decidableBallLT ..

instance (s : Desktop) (e : WmEvent) : Decidable (s.Safe e) := by
  cases e <;> unfold Safe <;> infer_instance

def twoProcesses : Desktop where
  machine :=
    { oneProcess with
      pmm := { oneProcess.pmm with
        used := fun f => f < 3
        refs := fun f => if f = 1 ∨ f = 2 then 1 else 0 }
      procs := [some { root := 1 }, some { root := 2 }] }

lemma proc_twoProcesses {p : Proc} (hp : twoProcesses.machine.proc i = some p) :
    p = { root := 1 } ∨ p = { root := 2 } := by
  match i with
  | 0 => cases hp; exact .inl rfl
  | 1 => cases hp; exact .inr rfl
  | i + 2 => cases hp

lemma start_twoProcesses : twoProcesses.Start (· = 0) where
  exact := by
    refine ⟨⟨fun f => ?_, fun f hf => ?_, fun f hf => ?_, by decide⟩, fun f => ?_, fun i p hp => ?_⟩
    · simp only [twoProcesses, decide_eq_true_eq]
      split <;> omega
    · simp [twoProcesses, hf]
    · simp only [twoProcesses] at hf ⊢
      change f < 64
      split at hf <;> omega
    · change (if f = 1 ∨ f = 2 then 1 else 0) = 0 + (0 + (0 + unit 1 f) + (0 + (0 + unit 2 f) + 0))
      unfold unit
      split <;> split <;> split <;> omega
    · obtain rfl | rfl := proc_twoProcesses hp <;> exact ⟨Laid.nil, nofun, nofun⟩
  surfs := rfl
  wm := rfl
  replaced := rfl
  absent i id j _ _ := by
    have none : ∀ n, twoProcesses.machine.leaf i n = none := fun n => by
      by_contra hne
      obtain ⟨e, he⟩ := ne_none_iff_exists'.mp hne
      obtain ⟨p, hp, hLeaf⟩ := leaf_eq_some he
      obtain rfl | rfl := proc_twoProcesses hp <;> cases hLeaf
    exact ⟨none _, none _⟩

def reopen : List WmEvent :=
  [.claim 0, .create 1 32 32 1, .resize 1 0 100 100 20, .destroy 1 0, .create 1 100 100 20, .exit 1, .reap 1]

theorem framesKept_of_reopen :
    ∃ s', Reaches (Guarded Safe fun s e s' => s.step e = some s') twoProcesses s' ∧ s'.FramesKept := by
  have runs : (reopen.foldlM (fun s e => if Safe s e then step s e else none) twoProcesses).isSome := by decide +kernel
  obtain ⟨s', run⟩ := isSome_iff_exists.mp runs
  have safe := Reaches.of_guarded_foldlM run
  exact ⟨s', safe, framesKept_of_safe start_twoProcesses safe⟩

def smaller : List WmEvent := [.claim 0, .create 1 64 32 2, .destroy 1 0, .create 1 32 32 1]

/-- The entry of the compositor for the second page names a frame that is free. -/
theorem smaller_not_framesKept :
    twoProcesses.Start (· = 0) ∧ ∃ s', smaller.foldlM step twoProcesses = some s' ∧ ¬ s'.FramesKept := by
  refine ⟨start_twoProcesses, ?_⟩
  have runs : (smaller.foldlM step twoProcesses).any fun s =>
      ((s.machine.leaf 0 (wmPage 0 1)).bind Pte.frame).any fun f => s.machine.pmm.refs f == 0 := by
    decide +kernel
  generalize smaller.foldlM step twoProcesses = reached at runs ⊢
  cases reached with
  | none => cases runs
  | some s' =>
    refine ⟨s', rfl, fun kept => ?_⟩
    rw [any_some] at runs
    obtain ⟨f, hf, free⟩ := (any_eq_true _ _).mp runs
    obtain ⟨e, hLeaf, he⟩ := bind_eq_some_iff.mp hf
    cases e with
    | swapped slot => cases he
    | present g flags =>
      cases he
      exact kept.mapped 0 _ f flags hLeaf (beq_iff_eq.mp free)

end Desktop

end YartOS.Wm
