import YartOS.Wm.Surfaces

/-! What the calls on surfaces do to the page tables of a process, and to the counts of
frames. -/
namespace YartOS.Wm

open Mm Programs Tally List

variable {id id' i j : Nat}

lemma appPage_eq (hId : id < wmMaxSurfaces) (hi : i < wmSurfMaxPages) : appPage id i = 0x60000 + id * 1024 + i := by
  simp only [appPage, vpn, wmSurfAppBase, wmSurfStride, wmMaxSurfaces, wmSurfMaxPages, pageSize] at *
  omega

lemma wmPage_eq (hId : id < wmMaxSurfaces) (hi : i < wmSurfMaxPages) : wmPage id i = 0x64000 + id * 1024 + i := by
  simp only [wmPage, vpn, wmSurfWmBase, wmSurfStride, wmMaxSurfaces, wmSurfMaxPages, pageSize] at *
  omega

structure Side (page : Nat → Nat → Nat) : Prop where
  inj : ∀ {id id' i j}, id < wmMaxSurfaces → id' < wmMaxSurfaces → i < wmSurfMaxPages →
    j < wmSurfMaxPages → page id i = page id' j → id = id' ∧ i = j
  low : ∀ {id i}, id < wmMaxSurfaces → i < wmSurfMaxPages → page id i < userHalf

lemma side_appPage : Side appPage where
  inj hId hId' hi hj h := by
    rw [appPage_eq hId hi, appPage_eq hId' hj] at h
    simp only [wmSurfMaxPages, wmSurfStride, pageSize] at hi hj
    omega
  low hId hi := by
    rw [appPage_eq hId hi]
    simp only [wmMaxSurfaces, wmSurfMaxPages, wmSurfStride, pageSize, userHalf] at *
    omega

lemma side_wmPage : Side wmPage where
  inj hId hId' hi hj h := by
    rw [wmPage_eq hId hi, wmPage_eq hId' hj] at h
    simp only [wmSurfMaxPages, wmSurfStride, pageSize] at hi hj
    omega
  low hId hi := by
    rw [wmPage_eq hId hi]
    simp only [wmMaxSurfaces, wmSurfMaxPages, wmSurfStride, pageSize, userHalf] at *
    omega

lemma appPage_ne_wmPage (hId : id < wmMaxSurfaces) (hId' : id' < wmMaxSurfaces)
    (hi : i < wmSurfMaxPages) (hj : j < wmSurfMaxPages) : appPage id i ≠ wmPage id' j := by
  rw [appPage_eq hId hi, wmPage_eq hId' hj]
  simp only [wmMaxSurfaces, wmSurfMaxPages, wmSurfStride, pageSize] at *
  omega

variable {page : Nat → Nat} {first : Nat} {fs : List Nat}

lemma entriesAt_cons (page : Nat → Nat) (first f : Nat) (fs : List Nat) :
    entriesAt page first (f :: fs) = (page first, f) :: entriesAt page (first + 1) fs := rfl

lemma entriesAt_pages (page : Nat → Nat) (first : Nat) (fs : List Nat) :
    (entriesAt page first fs).map Prod.fst = (range' first fs.length).map page := by
  induction fs generalizing first with
  | nil => rfl
  | cons f fs ih => rw [entriesAt_cons, map_cons, ih, length_cons, range'_succ, map_cons]

lemma entriesAt_frames (page : Nat → Nat) (first : Nat) (fs : List Nat) :
    (entriesAt page first fs).map Prod.snd = fs := by
  induction fs generalizing first with
  | nil => rfl
  | cons f fs ih => rw [entriesAt_cons, map_cons, ih]

lemma mem_entriesAt {j f : Nat} (h : fs[j]? = some f) : (page (first + j), f) ∈ entriesAt page first fs := by
  refine mem_map.mpr ⟨(f, first + j), ?_, rfl⟩
  exact mk_add_mem_zipIdx_iff_getElem?.mpr h

def heldAt (m : Mem) (ns : List Nat) (f : Nat) : Nat := tally (fun n => entryRefs f (m.leaf n)) ns

structure Mapped (es : List (Nat × Nat)) (m m' : Mem) : Prop where
  new : ∀ e ∈ es, m'.leaf e.1 = some (.present e.2 surfFlags)
  kept : ∀ n, n ∉ es.map Prod.fst → m'.leaf n = m.leaf n
  refs : ∀ f, m.pmm.used f → m'.pmm.used f ∧ m'.pmm.refs f = m.pmm.refs f + (es.map Prod.snd).count f

variable {reserved : Nat → Prop} {other : Nat → Nat} {m m' : Mem} {n f : Nat} {u : Unit}

/-- The mapping and its reference balance; the old entry loses one. -/
lemma mapRef_spec (h : Exact reserved other m) (hn : n < userHalf) (hf : m.pmm.refs f ≠ 0)
    (room : m.pmm.refs f < refMax) (run : mapRef n f m = some (u, m')) :
    Mapped [(n, f)] m m' ∧ Exact reserved (fun g => other g + entryRefs g (m.leaf n)) m' := by
  obtain ⟨_, t, map, rest⟩ := of_bind run
  obtain rfl := of_modify rest
  have hUsed := (h.balanced.counted.used_iff f).mpr (.inl hf)
  have stable := vmmMap_stable map
  have balanced : Balanced reserved (fun g => other g + entryRefs g (m.leaf n)) (unit f) t :=
    h.balanced.vmmMap (fun g => by omega) map
  have tidy := h.sound.tidy.vmmMap ⟨hn, .inr ⟨rfl, rfl⟩⟩ map
  have regions := vmmMap_regions map
  have hRefs := (stable f hUsed).2.1
  have counted := balanced.ref (p := f) (by omega) (by omega)
  obtain ⟨-, refs⟩ := balanced.counted.refPage (p := f) (by omega) (by omega)
  refine ⟨⟨?_, ?_, fun g hg => ⟨?_, ?_⟩⟩, counted.congr fun g => by omega, ?_⟩
  · obtain ⟨v, -, -, rfl⟩ := vmmMap_eq_some map
    intro e he
    obtain rfl := mem_singleton.mp he
    exact (leaf_setLeaf v n n _).trans (if_pos rfl)
  · obtain ⟨v, -, ⟨pmm', tables', rfl⟩, rfl⟩ := vmmMap_eq_some map
    intro k hk
    exact (leaf_setLeaf _ n k _).trans (if_neg (by simpa using hk))
  · change (t.pmm.refPage f).used g = true
    rw [Pmm.refPage_used]
    exact (stable g hg).1
  · change (t.pmm.refPage f).refs g = _
    rw [refs g, (stable g hg).2.1, map_singleton, count_singleton]
    simp [beq_iff_eq]
  · exact h.sound.of_tidy regions tidy

lemma Mapped.nil (m : Mem) : Mapped [] m m := ⟨nofun, fun _ _ => rfl, fun _ hf => ⟨hf, rfl⟩⟩

lemma mapAll_spec {es : List (Nat × Nat)} (h : Exact reserved other m) (pages : (es.map Prod.fst).Nodup)
    (low : ∀ n ∈ es.map Prod.fst, n < userHalf) (frames : (es.map Prod.snd).Nodup)
    (held : ∀ f ∈ es.map Prod.snd, m.pmm.refs f ≠ 0 ∧ m.pmm.refs f < refMax) (run : mapAll es m = some (u, m')) :
    Mapped es m m' ∧ Exact reserved (fun g => other g + heldAt m (es.map Prod.fst) g) m' := by
  induction es generalizing m other with
  | nil =>
    obtain ⟨-, rfl⟩ := of_pure run
    exact ⟨.nil m, h⟩
  | cons e es ih =>
    obtain ⟨_, t, first, rest⟩ := of_bind run
    simp only [map_cons, nodup_cons, forall_mem_cons] at pages low frames held
    obtain ⟨one, exact⟩ := mapRef_spec h low.1 held.1.1 held.1.2 first
    have hUsed := fun g (hg : g ∈ es.map Prod.snd) =>
      (h.balanced.counted.used_iff g).mpr (.inl (held.2 g hg).1)
    have hRefs : ∀ g ∈ es.map Prod.snd, t.pmm.refs g = m.pmm.refs g := fun g hg => by
      have hne : e.2 ≠ g := fun heq => frames.1 (heq ▸ hg)
      rw [(one.refs g (hUsed g hg)).2]
      simp [hne]
    obtain ⟨all, exact⟩ := ih exact pages.2 low.2 frames.2 (fun g hg => by rw [hRefs g hg]; exact held.2 g hg) rest
    have hLeaf : ∀ n ∈ es.map Prod.fst, t.leaf n = m.leaf n := fun n hn =>
      one.kept n (by simpa using fun heq : n = e.1 => pages.1 (heq ▸ hn))
    refine ⟨⟨?_, fun n hn => ?_, fun g hg => ?_⟩, exact.balanced.congr fun g => ?_, exact.sound⟩
    · refine forall_mem_cons.mpr ⟨?_, all.new⟩
      rw [all.kept e.1 pages.1]
      exact one.new e (mem_singleton_self e)
    · rw [map_cons, mem_cons, not_or] at hn
      rw [all.kept n hn.2, one.kept n (by simpa using hn.1)]
    · obtain ⟨used, refs⟩ := one.refs g hg
      obtain ⟨used', refs'⟩ := all.refs g used
      refine ⟨used', ?_⟩
      rw [refs', refs]
      simp only [map_cons, map_nil, count_cons, count_nil]
      omega
    · have : heldAt t (es.map Prod.fst) g = heldAt m (es.map Prod.fst) g := tally_congr fun n hn => by rw [hLeaf n hn]
      rw [this, map_cons]
      simp only [heldAt, tally_cons]
      omega

/-- Allocating frames `fs` for the pages of a surface from `first` on. -/
structure Grown (page : Nat → Nat) (mapped : Bool) (first n : Nat) (fs : List Nat) (m m' : Mem) : Prop where
  length : fs.length = n
  nodup : fs.Nodup
  fresh : ∀ f ∈ fs, m.pmm.used f = false
  refs_new : ∀ f ∈ fs, m'.pmm.refs f = 1 + mapped.toNat
  refs_old : ∀ f, m.pmm.used f → m'.pmm.used f ∧ m'.pmm.refs f = m.pmm.refs f
  new : mapped → ∀ e ∈ entriesAt page first fs, m'.leaf e.1 = some (.present e.2 surfFlags)
  kept : ∀ k, (mapped → k ∉ (range' first n).map page) → m'.leaf k = m.leaf k

/-- One frame, mapped or not. -/
lemma growPage_spec {k p : Nat} {mapped : Bool} {t : Mem} (h : Exact reserved other m)
    (hk : mapped → k < userHalf ∧ m.leaf k = none) (alloc : pmmAllocPage m = some (p, t))
    (run : placePage mapped k p t = some (u, m')) :
    m.pmm.used p = false ∧ m'.pmm.used p ∧ m'.pmm.refs p = 1 + mapped.toNat ∧
      (∀ f, m.pmm.used f → m'.pmm.used f ∧ m'.pmm.refs f = m.pmm.refs f) ∧
      (mapped → m'.leaf k = some (.present p surfFlags)) ∧ (∀ n, (mapped → n ≠ k) → m'.leaf n = m.leaf n) ∧
      Exact reserved (fun f => other f + unit p f) m' := by
  have held := h.balanced.alloc alloc
  obtain ⟨free, rfl⟩ := pmmAllocPage_eq_some alloc
  have stable := Pmm.stable_allocIdx free
  have exact : Exact reserved (fun f => other f + unit p f) { m with pmm := m.pmm.allocIdx p } := ⟨held, h.sound⟩
  have hRefs : (m.pmm.allocIdx p).refs p = 1 := by simp [Pmm.allocIdx]
  have hUsed : (m.pmm.allocIdx p).used p = true := by simp [Pmm.allocIdx]
  cases mapped with
  | false =>
    obtain ⟨-, rfl⟩ := of_pure run
    exact ⟨free, hUsed, hRefs, fun f hf => ⟨(stable f hf).1, (stable f hf).2.1⟩, by simp, fun _ _ => rfl, exact⟩
  | true =>
    obtain ⟨one, exact⟩ := mapRef_spec exact (hk rfl).1 (by rw [hRefs]; decide) (by rw [hRefs]; decide) run
    have new := one.refs p hUsed
    refine ⟨free, new.1, new.2.trans (by rw [hRefs]; simp), fun f hf => ?_,
      fun _ => one.new (k, p) (by simp), fun n hn => one.kept n (by simpa using hn rfl), ?_⟩
    · have hne : p ≠ f := by
        rintro rfl
        simp [hf] at free
      have := one.refs f (stable f hf).1
      exact ⟨this.1, this.2.trans (by rw [(stable f hf).2.1]; simp [hne])⟩
    · have absent : ∀ g, entryRefs g (Mem.leaf { m with pmm := m.pmm.allocIdx p } k) = 0 := fun g => by
        change entryRefs g (m.leaf k) = 0
        rw [(hk rfl).2, entryRefs_none]
      exact ⟨exact.balanced.congr fun g => by rw [absent g]; omega, exact.sound⟩

lemma growPages_spec {page : Nat → Nat} {mapped : Bool} {first n : Nat} {fs : List Nat}
    (h : Exact reserved other m) (pages : mapped → ((range' first n).map page).Nodup)
    (absent : mapped → ∀ k ∈ (range' first n).map page, k < userHalf ∧ m.leaf k = none)
    (run : growPages page mapped first n m = some (fs, m')) :
    Grown page mapped first n fs m m' ∧ Exact reserved (fun f => other f + fs.count f) m' := by
  induction n generalizing m other first fs with
  | zero =>
    obtain ⟨rfl, rfl⟩ := of_pure run
    exact ⟨⟨rfl, nodup_nil, nofun, nofun, fun _ hf => ⟨hf, rfl⟩, nofun, fun _ _ => rfl⟩, h⟩
  | succ n ih =>
    obtain ⟨p, t₁, alloc, rest⟩ := of_bind run
    obtain ⟨_, t, map, rest⟩ := of_bind rest
    obtain ⟨fs, grow, rfl⟩ := of_bind_pure rest
    simp only [range'_succ, map_cons, nodup_cons, forall_mem_cons] at pages absent
    obtain ⟨free, used, refs, old, new, kept, exact⟩ := growPage_spec h (fun hm => (absent hm).1) alloc map
    obtain ⟨more, exact⟩ := ih exact (fun hm => (pages hm).2) (fun hm k hk => by
        rw [kept k fun _ heq => (pages hm).1 (heq ▸ hk)]
        exact (absent hm).2 k hk) grow
    have hp : p ∉ fs := fun hp => by simp [more.fresh p hp] at used
    refine ⟨⟨by rw [length_cons, more.length], nodup_cons.mpr ⟨hp, more.nodup⟩, ?_, ?_,
      fun f hf => ?_, fun hm => ?_, fun k hk => ?_⟩, exact.balanced.congr fun f => ?_, exact.sound⟩
    · refine forall_mem_cons.mpr ⟨free, fun f hf => ?_⟩
      by_contra hUsed
      have := (old f (by simpa using hUsed)).1
      simp [more.fresh f hf] at this
    · exact forall_mem_cons.mpr ⟨(more.refs_old p used).2.trans refs, more.refs_new⟩
    · obtain ⟨hUsed, hRefs⟩ := old f hf
      exact ⟨(more.refs_old f hUsed).1, (more.refs_old f hUsed).2.trans hRefs⟩
    · refine forall_mem_cons.mpr ⟨?_, more.new hm⟩
      rw [more.kept _ fun _ => (pages hm).1]
      exact new hm
    · rw [range'_succ, map_cons, mem_cons, not_or] at hk
      rw [more.kept k fun hm => (hk hm).2, kept k fun hm => (hk hm).1]
    · rw [count_cons]
      simp only [beq_iff_eq, unit]
      omega

/-- A reference is dropped where there is one. -/
lemma unrefPage_spec {m : Pmm} (h : m.Counted reserved) (p : Nat) : (m.unrefPage p).Counted reserved ∧
      ∀ f, (m.unrefPage p).refs f = m.refs f - if p = f then 1 else 0 := by
  by_cases hp : m.refs p = 0
  · have hEq : m.unrefPage p = m := if_neg fun hc => hc.2.2 hp
    rw [hEq]
    refine ⟨h, fun f => ?_⟩
    split_ifs with hf
    · rw [← hf, hp]
    · rfl
  · obtain ⟨counted, refs⟩ := h.unrefPage hp
    exact ⟨counted, fun f => by have := refs f; omega⟩

lemma reclaim_spec {m : Pmm} {old : List Nat} (h : m.Counted reserved) (nodup : old.Nodup) :
    (reclaim old m).Counted reserved ∧ ∀ f, (reclaim old m).refs f = if f ∈ old then m.refs f - 2 else m.refs f := by
  induction old generalizing m with
  | nil => exact ⟨h, fun f => rfl⟩
  | cons p old ih =>
    obtain ⟨hp, nodup⟩ := nodup_cons.mp nodup
    obtain ⟨once, refs⟩ := unrefPage_spec h p
    obtain ⟨twice, refs'⟩ := unrefPage_spec once p
    obtain ⟨counted, rest⟩ := ih twice nodup
    refine ⟨counted, fun f => (rest f).trans ?_⟩
    rw [refs' f, refs f]
    by_cases hf : p = f
    · subst hf
      simp only [hp, if_false, if_true, mem_cons, true_or]
      omega
    · simp [hf, Ne.symm hf]

def OnlyAt (p : Proc) (f n : Nat) : Prop := p.refs f ≤ entryRefs f (p.leaves.lookup n)

/-- Of the frames and the pages in question, a process has lost entries at most. -/
structure Within (frames pages : Nat → Prop) (p p' : Proc) : Prop where
  refs_le : ∀ f, frames f → p'.refs f ≤ p.refs f
  leaf : ∀ n, pages n → ∀ e, p'.leaves.lookup n = some e → p.leaves.lookup n = some e
  only : ∀ f n, frames f → pages n → OnlyAt p f n → OnlyAt p' f n

variable {frames pages : Nat → Prop} {extra : Nat → Nat} {p p' q : Proc}

lemma Within.refl (frames pages : Nat → Prop) (p : Proc) : Within frames pages p p :=
  ⟨fun _ _ => Nat.le_refl _, fun _ _ _ h => h, fun _ _ _ _ h => h⟩

lemma Within.trans (first : Within frames pages p p') (second : Within frames pages p' q) :
    Within frames pages p q where
  refs_le f hf := (second.refs_le f hf).trans (first.refs_le f hf)
  leaf n hn e he := first.leaf n hn e (second.leaf n hn e he)
  only f n hf hn h := second.only f n hf hn (first.only f n hf hn h)

lemma within_vmmUnmap (m : Mem) (n : Nat) : Within (fun _ => True) (fun _ => True) m.proc (vmmUnmap m n).proc := by
  unfold vmmUnmap
  cases hLeaf : m.leaf n with
  | none => exact .refl ..
  | some e =>
    cases e with
    | swapped slot => exact .refl ..
    | present g flags =>
      have hRefs : ∀ f, (m.clearLeaf n).proc.refs f + entryRefs f (m.leaf n) = m.proc.refs f := fun f => by
        have := leafRefs_clearLeaf m n f
        change (m.clearLeaf n).proc.leafRefs f + m.proc.tableRefs f + _ = m.proc.leafRefs f + m.proc.tableRefs f
        omega
      change Within _ _ m.proc (m.clearLeaf n).proc
      refine ⟨fun f _ => by have := hRefs f; omega, fun k _ e he => ?_, fun f k _ _ only => ?_⟩
      · by_cases hk : k = n
        · subst hk
          exact absurd he (by simp [Mem.clearLeaf])
        · exact (AList.lookup_erase_ne hk).symm.trans he
      have := hRefs f
      unfold OnlyAt at *
      by_cases hk : k = n
      · subst hk
        have : m.proc.refs f ≤ entryRefs f (m.leaf k) := only
        omega
      · rw [show (m.clearLeaf n).proc.leaves.lookup k = _ from AList.lookup_erase_ne hk]
        omega

lemma within_foldl_vmmUnmap (m : Mem) (ns : List Nat) :
    Within (fun _ => True) (fun _ => True) m.proc (ns.foldl vmmUnmap m).proc := by
  induction ns generalizing m with
  | nil => exact .refl ..
  | cons n ns ih => exact (within_vmmUnmap m n).trans (ih _)

end YartOS.Wm

namespace YartOS.Mm.Machine

open Tally Wm

variable {reserved : Nat → Prop} {s : Machine} {i : Nat} {p : Proc} {m : Mem} {held extra : Nat → Nat}

def holding (s : Machine) (held : Nat → Nat) : Machine :=
  { s with kernelRefs := fun f => s.kernelRefs f + held f }

lemma proc_put (hp : s.proc i = some p) (j : Nat) : (s.put i m).proc j = if j = i then some m.proc else s.proc j := by
  have hi := lt_length_of_proc hp
  unfold proc put
  by_cases h : i = j
  · simp [h, h ▸ hi]
  · simp [h, Ne.symm h]

/-- Process `i` has run, and the kernel has gained references. -/
lemma Exact.put_holding (h : (s.holding held).Exact reserved) (hp : s.proc i = some p)
    (kept : Mm.Exact reserved (fun f => (s.holding held).others p f + extra f) m) :
    ((s.put i m).holding fun f => held f + extra f).Exact reserved where
  counted := kept.balanced.counted
  refs_eq f := by
    have := refs_put (s := s.holding held) hp kept f
    change m.pmm.refs f = s.kernelRefs f + (held f + extra f) + (s.put i m).refs f
    change m.pmm.refs f = s.kernelRefs f + held f + (s.put i m).refs f + extra f at this
    omega
  sound j q hq := by
    obtain hq | hq := proc_set _ hq
    · cases hq
      exact kept.sound
    · exact h.sound j q hq

/-- Of the frames and pages in question, every process has lost entries at most. -/
def Within (frames pages : Nat → Prop) (s s' : Machine) : Prop :=
  ∀ i p', s'.proc i = some p' → ∃ p, s.proc i = some p ∧ Wm.Within frames pages p p'

variable {frames pages : Nat → Prop} {s' : Machine}

lemma within_put (hp : s.proc i = some p) (h : Wm.Within frames pages p m.proc) :
    Within frames pages s (s.put i m) := by
  intro j q hq
  rw [proc_put hp] at hq
  split_ifs at hq with hj
  · cases hq
    exact ⟨p, hj ▸ hp, h⟩
  · exact ⟨q, hq, .refl ..⟩

lemma within_reap (run : s.reap i = some s') : Within frames pages s s' := by
  obtain ⟨p, hp, done⟩ := Option.bind_eq_some_iff.mp run
  cases done
  intro j q hq
  obtain hq | hq := proc_set none hq
  · cases hq
  · exact ⟨q, hq, .refl ..⟩

end YartOS.Mm.Machine
