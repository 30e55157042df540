import YartOS.Wm.Teardown

/-! Fresh frames for a surface, mapped into the processes that see it. -/
namespace YartOS.Wm

open Mm Programs Tally List Machine

variable {page : Nat → Nat → Nat} {id first n k : Nat}

lemma of_mem_pages (h : k ∈ (range' first n).map (page id)) : ∃ j < n, page id (first + j) = k := by
  obtain ⟨j, hj, rfl⟩ := mem_map.mp h
  obtain ⟨t, ht, rfl⟩ := mem_range'.mp hj
  exact ⟨t, ht, by rw [Nat.one_mul]⟩

lemma Side.nodup (h : Side page) (hId : id < wmMaxSurfaces) (hn : first + n ≤ wmSurfMaxPages) :
    ((range' first n).map (page id)).Nodup := by
  refine List.Nodup.map_on (fun a ha b hb heq => ?_) nodup_range'
  obtain ⟨-, ha⟩ := mem_range'_1.mp ha
  obtain ⟨-, hb⟩ := mem_range'_1.mp hb
  exact (h.inj hId hId (by omega) (by omega) heq).2

lemma Side.low_of_mem (h : Side page) (hId : id < wmMaxSurfaces) (hn : first + n ≤ wmSurfMaxPages)
    (hk : k ∈ (range' first n).map (page id)) : k < userHalf := by
  obtain ⟨j, hj, rfl⟩ := of_mem_pages hk
  exact h.low hId (by omega)

variable {reserved : Nat → Prop} {other : Nat → Nat} {fs : List Nat} {m m' : Mem}

structure Created (id n : Nat) (fs : List Nat) (m m' : Mem) : Prop where
  length : fs.length = n
  nodup : fs.Nodup
  fresh : ∀ f ∈ fs, m.pmm.used f = false
  refs_new : ∀ f ∈ fs, m'.pmm.refs f = 2
  refs_old : ∀ f, m.pmm.used f → m'.pmm.used f ∧ m'.pmm.refs f = m.pmm.refs f
  kept : ∀ k, (∀ j < n, k ≠ appPage id j) → m'.leaf k = m.leaf k

lemma createPages_spec (h : Exact reserved other m) (hId : id < wmMaxSurfaces) (hn : n ≤ wmSurfMaxPages)
    (absent : ∀ j < n, m.leaf (appPage id j) = none) (run : createPages id n m = some (fs, m')) :
    Created id n fs m m' ∧ Exact reserved (fun f => other f + fs.count f) m' := by
  obtain ⟨fs', t, grow, rest⟩ := of_bind run
  obtain ⟨_, map, rfl⟩ := of_bind_pure rest
  obtain ⟨grown, exact⟩ := growPages_spec h (by exact nofun) (by exact nofun) grow
  have hLeaf : ∀ k, t.leaf k = m.leaf k := fun k => grown.kept k nofun
  have hPages := entriesAt_pages (appPage id) 0 fs'
  have hFrames := entriesAt_frames (appPage id) 0 fs'
  have hNew := grown.refs_new
  rw [grown.length] at hPages
  have hUsed : ∀ f ∈ fs', t.pmm.used f := fun f hf =>
    (exact.balanced.counted.used_iff f).mpr (.inl (by rw [hNew f hf]; decide))
  obtain ⟨mapped, exact⟩ := mapAll_spec exact (by rw [hPages]; exact side_appPage.nodup hId (by omega))
    (by rw [hPages]; exact fun k hk => side_appPage.low_of_mem hId (by omega) hk)
    (by rw [hFrames]; exact grown.nodup)
    (by
      rw [hFrames]
      intro f hf
      rw [hNew f hf]
      decide) map
  have none : ∀ f, heldAt t ((entriesAt (appPage id) 0 fs').map Prod.fst) f = 0 := by
    refine fun f => tally_eq_zero_iff.mpr fun k hk => ?_
    rw [hPages] at hk
    obtain ⟨j, hj, rfl⟩ := of_mem_pages hk
    rw [hLeaf, Nat.zero_add, absent j hj, entryRefs_none]
  refine ⟨⟨grown.length, grown.nodup, grown.fresh, fun f hf => ?_, fun f hf => ?_, fun k hk => ?_⟩,
    exact.balanced.congr fun f => by rw [none f]; omega, exact.sound⟩
  · rw [(mapped.refs f (hUsed f hf)).2, hFrames, hNew f hf, count_eq_one_of_mem grown.nodup hf]
    rfl
  · obtain ⟨used, refs⟩ := grown.refs_old f hf
    obtain ⟨used', refs'⟩ := mapped.refs f used
    have hNot : f ∉ fs' := fun hMem => by simp [grown.fresh f hMem] at hf
    exact ⟨used', by rw [refs', refs, hFrames, count_eq_zero.mpr hNot]; rfl⟩
  · rw [mapped.kept k, hLeaf]
    rw [hPages]
    intro hMem
    obtain ⟨j, hj, heq⟩ := of_mem_pages hMem
    exact hk j hj (by rw [← heq, Nat.zero_add])

/-- `m` once frames `fs` for the pages of slot `id` from `first` on are mapped in `app` and `wm`.
The entries of `wm` held `lost`, and the kernel holds `held`. -/
structure Placed (reserved : Nat → Prop) (held : Nat → Nat) (s : Machine) (app wm : Option Nat)
    (id first n : Nat) (fs : List Nat) (lost : Nat → Nat) (m : Machine) : Prop where
  kernel : m.kernelRefs = s.kernelRefs
  procs : ∀ c, (m.proc c).isSome = (s.proc c).isSome
  length : fs.length = n
  nodup : fs.Nodup
  fresh : ∀ f ∈ fs, s.pmm.used f = false
  exact : (m.holding fun f => held f + (fs.count f + lost f)).Exact reserved
  refs_old : ∀ f, s.pmm.used f → m.pmm.used f ∧ m.pmm.refs f = s.pmm.refs f
  kept : ∀ c k, (app = some c → ∀ j < n, k ≠ appPage id j) →
    (wm = some c → ∀ j < n, k ≠ wmPage id (first + j)) → m.leaf c k = s.leaf c k
  new : ∀ c, wm = some c → ∀ j f, fs[j]? = some f → m.leaf c (wmPage id (first + j)) = some (.present f surfFlags)
  procRefs_old : ∀ c p', m.proc c = some p' → ∃ p, s.proc c = some p ∧
    ∀ f, s.pmm.used f → p'.refs f + (if wm = some c then lost f else 0) = p.refs f
  procRefs_new : ∀ f ∈ fs, ∀ c p', m.proc c = some p' → app ≠ some c → p'.refs f ≤ if wm = some c then 1 else 0

variable {held : Nat → Nat} {s m m' : Machine} {app wm : Option Nat} {i c : Nat} {lost : Nat → Nat}
  {p : Proc} {t : Mem}

lemma isSome_proc_put (hp : s.proc i = some p) (c : Nat) : ((s.put i t).proc c).isSome = (s.proc c).isSome := by
  rw [proc_put hp]
  split_ifs with hc
  · rw [hc, hp]
    rfl
  · rfl

lemma leaf_put_of_proc (hp : s.proc i = some p) (c k : Nat) :
    (s.put i t).leaf c k = if c = i then t.leaf k else s.leaf c k :=
  leaf_put (lt_length_of_proc hp) c

/-- A frame that is free is referred to by nobody. -/
lemma procRefs_eq_zero (h : (s.holding held).Exact reserved) {f : Nat} (free : s.pmm.used f = false)
    (hp : s.proc c = some p) : p.refs f = 0 := by
  have hZero : s.pmm.refs f = 0 := Pmm.refs_eq_zero h.counted free
  have hRefs : s.pmm.refs f = s.kernelRefs f + held f + s.refs f := h.refs_eq f
  have := refs_le hp f
  omega

/-- The references of a process that ran, from the counts before and after. -/
lemma procRefs_of_exact {other extra : Nat → Nat} {t' : Mem} {f d : Nat} (h : Exact reserved other t)
    (h' : Exact reserved (fun f => other f + extra f) t') (refs : t'.pmm.refs f = t.pmm.refs f + d) :
    t'.proc.refs f + extra f = t.proc.refs f + d := by
  have := h.balanced.refs_eq f
  have := h'.balanced.refs_eq f
  omega

lemma placed_of_createPages (h : (s.holding held).Exact reserved) (hId : id < wmMaxSurfaces) (hn : n ≤ wmSurfMaxPages)
    (absent : ∀ j < n, s.leaf i (appPage id j) = none) (run : s.runOn i (createPages id n) = some (fs, m)) :
    Placed reserved held s (some i) none id 0 n fs (fun _ => 0) m ∧ ∀ f ∈ fs, m.pmm.refs f = 2 := by
  obtain ⟨p, t, hp, hx, rfl⟩ := runOn_eq_some run
  have before := h.mem hp
  obtain ⟨created, exact⟩ := createPages_spec before hId hn
    (fun j hj => (leaf_of_proc hp _).symm.trans (absent j hj)) hx
  refine ⟨⟨rfl, isSome_proc_put hp, created.length, created.nodup, created.fresh, h.put_holding hp exact,
    created.refs_old, fun c k hApp _ => ?_, nofun, fun c p' hp' => ?_, fun f hf c p' hp' hc => ?_⟩,
    created.refs_new⟩
  · rw [leaf_put_of_proc hp]
    split_ifs with hc
    · subst hc
      rw [leaf_of_proc hp]
      exact created.kept k (hApp rfl)
    · rfl
  · rw [proc_put hp] at hp'
    split_ifs at hp' with hc
    · cases hp'
      refine ⟨p, hc ▸ hp, fun f hf => ?_⟩
      have hNot : f ∉ fs := fun hMem => by
        have := created.fresh f hMem
        exact absurd (hf.symm.trans this) (by decide)
      have := procRefs_of_exact (d := 0) before exact (created.refs_old f hf).2
      rw [count_eq_zero.mpr hNot] at this
      exact this
    · exact ⟨p', hp', fun f _ => rfl⟩
  · rw [proc_put hp, if_neg fun heq : c = i => hc (heq ▸ rfl)] at hp'
    rw [procRefs_eq_zero h (created.fresh f hf) hp']
    exact Nat.zero_le _

/-- What the compositor's entries for `n` pages of a slot refer to. -/
def lostAt (s : Machine) (wm : Option Nat) (id n f : Nat) : Nat :=
  match wm with
  | none => 0
  | some c => tally (fun j => entryRefs f (s.leaf c (wmPage id j))) (range n)

lemma Placed.showPages (h : Placed reserved held s (some i) none id 0 n fs (fun _ => 0) m)
    (two : ∀ f ∈ fs, m.pmm.refs f = 2) (hId : id < wmMaxSurfaces) (hn : n ≤ wmSurfMaxPages)
    (run : Desktop.showPages wm id fs m = some m') :
    Placed reserved held s (some i) wm id 0 n fs (lostAt s wm id n) m' := by
  cases wm with
  | none =>
    cases run
    exact h
  | some c =>
    obtain ⟨⟨u, m'⟩, ran, rfl⟩ := Option.map_eq_some_iff.mp run
    obtain ⟨p, t, hp, hx, rfl⟩ := runOn_eq_some ran
    have before : Exact reserved _ (m.mem p) := h.exact.mem hp
    have hPages := entriesAt_pages (wmPage id) 0 fs
    have hFrames := entriesAt_frames (wmPage id) 0 fs
    rw [h.length] at hPages
    obtain ⟨mapped, exact⟩ := mapAll_spec before (by rw [hPages]; exact side_wmPage.nodup hId (by omega))
      (by rw [hPages]; exact fun k hk => side_wmPage.low_of_mem hId (by omega) hk)
      (by rw [hFrames]; exact h.nodup)
      (by
        rw [hFrames]
        intro f hf
        change m.pmm.refs f ≠ 0 ∧ m.pmm.refs f < refMax
        rw [two f hf]
        decide) hx
    -- the entries that are overwritten are those of before the call
    have hLost : ∀ f, heldAt (m.mem p) ((entriesAt (wmPage id) 0 fs).map Prod.fst) f =
        lostAt s (some c) id n f := fun f => by
      rw [hPages, ← range_eq_range', heldAt, tally, map_map]
      refine congrArg sum (map_congr_left fun j hj => ?_)
      have hj := mem_range.mp hj
      have hLeaf : m.leaf c (wmPage id j) = s.leaf c (wmPage id j) :=
        h.kept c _ (fun _ k hk heq => appPage_ne_wmPage hId hId (by omega) (by omega) heq.symm) (by simp)
      rw [leaf_of_proc hp] at hLeaf
      exact congrArg (entryRefs f) hLeaf
    rw [funext hLost] at exact
    have used : ∀ f ∈ fs, m.pmm.used f := fun f hf =>
      (h.exact.counted.used_iff f).mpr (.inl (by
        change m.pmm.refs f ≠ 0
        rw [two f hf]
        decide))
    have old : ∀ f, s.pmm.used f → t.pmm.used f ∧ t.pmm.refs f = m.pmm.refs f := fun f hf => by
      have hNot : f ∉ fs := fun hMem => absurd (hf.symm.trans (h.fresh f hMem)) (by decide)
      obtain ⟨used', refs'⟩ := mapped.refs f (h.refs_old f hf).1
      rw [hFrames, count_eq_zero.mpr hNot] at refs'
      exact ⟨used', refs'⟩
    have new : ∀ f ∈ fs, t.pmm.refs f = m.pmm.refs f + 1 := fun f hf => by
      have refs' := (mapped.refs f (used f hf)).2
      rw [hFrames, count_eq_one_of_mem h.nodup hf] at refs'
      exact refs'
    have after := h.exact.put_holding hp exact
    refine ⟨h.kernel, fun c' => (isSome_proc_put hp c').trans (h.procs c'), h.length, h.nodup, h.fresh, ?_,
      fun f hf => ?_, fun c' k hApp hWm => ?_, ?_, fun c' p' hp' => ?_, fun f hf c' p' hp' hc => ?_⟩
    · have sum : (fun f => held f + (fs.count f + 0) + lostAt s (some c) id n f) =
          fun f => held f + (fs.count f + lostAt s (some c) id n f) := funext fun f => by omega
      exact sum ▸ after
    · exact ⟨(old f hf).1, (old f hf).2.trans (h.refs_old f hf).2⟩
    · rw [leaf_put_of_proc hp, ← h.kept c' k hApp (by simp)]
      split_ifs with hc
      · subst hc
        rw [leaf_of_proc hp]
        refine mapped.kept k fun hMem => ?_
        rw [hPages] at hMem
        obtain ⟨j, hj, heq⟩ := of_mem_pages hMem
        exact hWm rfl j hj heq.symm
      · rfl
    · rintro c' ⟨⟩ j f hj
      rw [leaf_put_of_proc hp, if_pos rfl]
      exact mapped.new _ (mem_entriesAt hj)
    · rw [proc_put hp] at hp'
      split_ifs at hp' with hc
      · cases hp'
        subst hc
        obtain ⟨q, hq, same⟩ := h.procRefs_old c' p hp
        refine ⟨q, hq, fun f hf => ?_⟩
        have := procRefs_of_exact (d := 0) before exact (old f hf).2
        rw [if_pos rfl, ← same f hf]
        exact this
      · obtain ⟨q, hq, same⟩ := h.procRefs_old c' p' hp'
        refine ⟨q, hq, fun f hf => ?_⟩
        rw [if_neg fun heq => hc (Option.some.inj heq).symm]
        exact same f hf
    · rw [proc_put hp] at hp'
      split_ifs at hp' with hc'
      · cases hp'
        subst hc'
        have zero : p.refs f ≤ 0 := h.procRefs_new f hf c' p hp hc
        have : t.proc.refs f + _ = p.refs f + 1 := procRefs_of_exact before exact (new f hf)
        rw [if_pos rfl]
        omega
      · exact (h.procRefs_new f hf c' p' hp' hc).trans (Nat.zero_le _)

lemma placed_of_growPages (h : (s.holding held).Exact reserved) (hId : id < wmMaxSurfaces)
    (hn : first + n ≤ wmSurfMaxPages) (absent : ∀ c, wm = some c → ∀ j < n, s.leaf c (wmPage id (first + j)) = none)
    (run : s.runOn (wm.getD i) (growPages (wmPage id) wm.isSome first n) = some (fs, m)) :
    Placed reserved held s none wm id first n fs (fun _ => 0) m := by
  obtain ⟨p, t, hp, hx, rfl⟩ := runOn_eq_some run
  have runner : ∀ c, wm = some c → wm.getD i = c := fun c hc => by rw [hc, Option.getD_some]
  have before := h.mem hp
  obtain ⟨grown, exact⟩ := growPages_spec before (fun _ => side_wmPage.nodup hId hn) (fun hm k hk => by
      obtain ⟨c, hc⟩ := Option.isSome_iff_exists.mp hm
      refine ⟨side_wmPage.low_of_mem hId hn hk, ?_⟩
      obtain ⟨j, hj, rfl⟩ := of_mem_pages hk
      rw [runner c hc] at hp
      exact (leaf_of_proc hp _).symm.trans (absent c hc j hj)) hx
  have hNot : ∀ f, s.pmm.used f → f ∉ fs := fun f hf hMem =>
    absurd (hf.symm.trans (grown.fresh f hMem)) (by decide)
  refine ⟨rfl, isSome_proc_put hp, grown.length, grown.nodup, grown.fresh, h.put_holding hp exact,
    grown.refs_old, fun c k _ hWm => ?_, fun c hc j f hj => ?_, fun c p' hp' => ?_, fun f hf c p' hp' _ => ?_⟩
  · rw [leaf_put_of_proc hp]
    split_ifs with hc
    · rw [hc, leaf_of_proc hp]
      refine grown.kept k fun hm hMem => ?_
      obtain ⟨c', hc'⟩ := Option.isSome_iff_exists.mp hm
      obtain ⟨j, hj, heq⟩ := of_mem_pages hMem
      exact hWm (by rw [hc, runner c' hc', hc']) j hj heq.symm
    · rfl
  · rw [leaf_put_of_proc hp, if_pos (runner c hc).symm]
    exact grown.new (by rw [hc]; rfl) _ (mem_entriesAt hj)
  · rw [proc_put hp] at hp'
    split_ifs at hp' with hc
    · cases hp'
      refine ⟨p, hc ▸ hp, fun f hf => ?_⟩
      have := procRefs_of_exact (d := 0) before exact (grown.refs_old f hf).2
      rw [count_eq_zero.mpr (hNot f hf)] at this
      rw [ite_self]
      exact this
    · exact ⟨p', hp', fun f _ => by rw [ite_self, Nat.add_zero]⟩
  · rw [proc_put hp] at hp'
    split_ifs at hp' with hc
    · cases hp'
      have zero : p.refs f = 0 := procRefs_eq_zero h (grown.fresh f hf) hp
      have free : s.pmm.refs f = 0 := Pmm.refs_eq_zero h.counted (grown.fresh f hf)
      have hRefs : t.pmm.refs f = s.pmm.refs f + (1 + wm.isSome.toNat) := by
        rw [grown.refs_new f hf, free, Nat.zero_add]
      have : t.proc.refs f + fs.count f = p.refs f + _ := procRefs_of_exact before exact hRefs
      rw [count_eq_one_of_mem grown.nodup hf] at this
      cases wm with
      | none =>
        simp only [Option.isSome_none, Bool.toNat_false] at this
        omega
      | some c' =>
        simp only [Option.isSome_some, Bool.toNat_true] at this
        rw [if_pos (by rw [hc, runner c' rfl])]
        omega
    · rw [procRefs_eq_zero h (grown.fresh f hf) hp']
      exact Nat.zero_le _

namespace Placed

def Untouched (id first n k : Nat) : Prop := ∀ j < n, k ≠ appPage id j ∧ k ≠ wmPage id (first + j)

variable (h : Placed reserved held s app wm id first n fs lost m)

include h

lemma within : Machine.Within (fun f => s.pmm.used f = true) (Untouched id first n) s m := by
  intro c p' hp'
  obtain ⟨p, hp, refs⟩ := h.procRefs_old c p' hp'
  have hLeaf : ∀ k, Untouched id first n k → p'.leaves.lookup k = p.leaves.lookup k := fun k hk => by
    rw [← leaf_of_proc hp', ← leaf_of_proc hp]
    exact h.kept c k (fun _ j hj => (hk j hj).1) fun _ j hj => (hk j hj).2
  have hRefs : ∀ f, s.pmm.used f = true → p'.refs f ≤ p.refs f := fun f hf => by
    have := refs f hf
    omega
  refine ⟨p, hp, hRefs, fun k hk e he => (hLeaf k hk).symm.trans he, fun f k hf hk only => ?_⟩
  unfold OnlyAt at *
  rw [hLeaf k hk]
  exact (hRefs f hf).trans only

lemma count_eq_zero {f : Nat} (hf : s.pmm.used f) : fs.count f = 0 :=
  List.count_eq_zero.mpr fun hMem => absurd (hf.symm.trans (h.fresh f hMem)) (by decide)

/-- Only the compositor has entries for the new frames at its pages. -/
lemma wm_of_names (start : (s.holding held).Exact reserved) (hId : id < wmMaxSurfaces) (hn : n ≤ wmSurfMaxPages)
    {c f j : Nat} (hf : f ∈ fs) (hj : j < wmSurfMaxPages) (names : Names m c (wmPage id j) f) : wm = some c := by
  by_contra hne
  obtain ⟨flags, hLeaf⟩ := names
  rw [h.kept c _ (fun _ k hk heq => appPage_ne_wmPage hId hId (by omega) hj heq.symm)
    (fun hc => absurd hc hne)] at hLeaf
  obtain ⟨p, hp, -⟩ := leaf_eq_some hLeaf
  exact Names.refs_ne_zero ⟨flags, hLeaf⟩ hp (procRefs_eq_zero start (h.fresh f hf) hp)

lemma onlyAt_new {c f j : Nat} {p : Proc}
    (hj : fs[j]? = some f) (hp : m.proc c = some p) (hc : app ≠ some c) : OnlyAt p f (wmPage id (first + j)) := by
  have hRefs := h.procRefs_new f (mem_of_getElem? hj) c p hp hc
  unfold OnlyAt
  split_ifs at hRefs with hWm
  · have hLeaf := h.new c hWm j f hj
    rw [leaf_of_proc hp] at hLeaf
    rw [hLeaf, entryRefs_present, unit_self]
    exact hRefs
  · exact hRefs.trans (Nat.zero_le _)

/-- The kernel has no reference of its own to a frame that was free. -/
lemma kernelRefs_new
    (start : (s.holding held).Exact reserved) {f : Nat} (hf : f ∈ fs) : s.kernelRefs f = 0 ∧ held f = 0 := by
  have hZero : s.pmm.refs f = 0 := Pmm.refs_eq_zero start.counted (h.fresh f hf)
  have hRefs : s.pmm.refs f = s.kernelRefs f + held f + s.refs f := start.refs_eq f
  omega

end Placed

end YartOS.Wm
