import YartOS.Mm.Exact

/-! What `sched_fork` does to the entries of both processes and to the counts. -/
namespace YartOS.Mm

open Programs Tally List Pte Option

variable {m m' : Mem} {child : Proc}

structure Cloned (m : Mem) (child : Proc) (m' : Mem) : Prop where
  proc : m'.proc = m.proc
  swap : m'.swap = m.swap
  leaves : child.leaves = m.proc.leaves
  regions : child.regions = m.proc.regions
  tables : LowTables child
  stable : m.pmm.Stable m'.pmm
  balanced : ∀ {reserved other debt}, Balanced reserved other debt m →
    Balanced reserved (fun f => other f + child.refs f) (fun f => debt f + child.leafRefs f) m'

lemma vmmClonePml4_cloned (run : vmmClonePml4 m = some (child, m')) : Cloned m child m' := by
  obtain ⟨root, t, alloc, run⟩ := of_bind (of_get_bind run)
  obtain ⟨⟨_, fresh⟩, t', space, run⟩ := of_bind run
  obtain ⟨rfl, rfl⟩ := of_pure run
  obtain ⟨s, tables, rfl, rfl⟩ := inSpace_eq_some space
  obtain ⟨free, rfl⟩ := pmmAllocPage_eq_some alloc
  have only := onlyTables_of_forM tables
  have stable := stable_of_forM tables
  have low := LowTables.forM (fun k g hg => by simp [Proc.newSpace] at hg) (fun k hk => (mem_filter.mp hk).2) tables
  obtain ⟨pmm', tables', rfl⟩ := only
  refine ⟨rfl, rfl, rfl, rfl, low, (Pmm.stable_allocIdx free).trans stable, fun {reserved other debt} balanced => ?_⟩
  have held := balanced.alloc alloc
  have loaded : Balanced reserved (fun f => other f + m.proc.refs f) debt
      { m with pmm := m.pmm.allocIdx root, proc := m.proc.newSpace root } := held.newSpace
  have tabled := Triple.forM (P := Balanced reserved _ debt) (fun k _ => Balanced.nextTable k) _ _ _ loaded tables
  refine ⟨tabled.counted, fun f => ?_⟩
  have := tabled.refs_eq f
  change pmm'.refs f + debt f = other f + m.proc.refs f + (0 + (weigh (fun _ g => unit g f) tables' +
    unit root f)) at this
  change pmm'.refs f + (debt f + m.proc.leafRefs f) =
    other f + (m.proc.leafRefs f + (weigh (fun _ g => unit g f) tables' + unit root f)) + m.proc.refs f
  omega

def Pte.share : Pte → Pte
  | .present p flags => if flags.noshr then .present p flags else .present p cowFlags
  | .swapped slot => .swapped slot

def shared (leaf : Nat → Option Pte) (seen : List Nat) (n : Nat) : Option Pte :=
  if n ∈ seen then (leaf n).map share else leaf n

@[simp] lemma Pte.refs_share (f : Nat) (e : Pte) : refs f e.share = refs f e := by
  cases e with
  | swapped slot => rfl
  | present p flags => cases hShr : flags.noshr <;> simp [share, hShr, refs, frame]

def PteFlags.forked (flags : PteFlags) : PteFlags := if flags.noshr then flags else cowFlags

lemma share_present (p : Nat) (flags : PteFlags) : share (.present p flags) = .present p flags.forked := by
  unfold share PteFlags.forked
  dsimp only
  split <;> rfl

variable {child' : Proc} {n : Nat}

/-- What the first loop of `vmm_cow_fork` does to a page. -/
inductive CowPage (child : Proc) (n : Nat) (m : Mem) : Proc → Mem → Prop where
  | skip (absent : (m.leaf n).bind frame = none) : CowPage child n m child m
  | buffer {p : Nat} {flags : PteFlags} (leaf : m.leaf n = some (.present p flags))
      (noshr : flags.noshr = true) : CowPage child n m child (m.ref p)
  | share {p : Nat} {flags : PteFlags} {t : Mem} (leaf : m.leaf n = some (.present p flags))
      (noshr : flags.noshr = false)
      (map : vmmMap n p cowFlags { (m.ref p).setLeaf n (.present p cowFlags) with proc := child } = some ((), t)) :
      CowPage child n m t.proc { t with proc := (m.setLeaf n (.present p cowFlags)).proc }

lemma cowForkPage_cowPage (run : cowForkPage child n m = some (child', m')) : CowPage child n m child' m' := by
  replace run := of_get_bind run
  cases hLeaf : m.leaf n with
  | none =>
    rw [hLeaf] at run
    obtain ⟨rfl, rfl⟩ := of_pure run
    exact .skip (by rw [hLeaf]; rfl)
  | some e =>
    rw [hLeaf] at run
    cases e with
    | swapped slot =>
      obtain ⟨rfl, rfl⟩ := of_pure run
      exact .skip (by rw [hLeaf]; rfl)
    | present p flags =>
      replace run := of_modify_bind run
      cases hShr : flags.noshr with
      | true =>
        simp only [hShr, if_true] at run
        obtain ⟨rfl, rfl⟩ := of_pure run
        exact .buffer hLeaf hShr
      | false =>
        simp only [hShr] at run
        replace run := of_modify_bind run
        obtain ⟨⟨_, p'⟩, t', space, run⟩ := of_bind run
        obtain ⟨rfl, rfl⟩ := of_pure run
        obtain ⟨s, map, rfl, rfl⟩ := inSpace_eq_some space
        exact .share hLeaf hShr map

structure Forking (leaf : Nat → Option Pte) (seen : List Nat) (m : Mem) (child : Proc) : Prop where
  parent : ∀ n, m.leaf n = shared leaf seen n
  child : ∀ n, child.leaves.lookup n = shared leaf seen n

lemma shared_append (leaf : Nat → Option Pte) (seen : List Nat) (n k : Nat) :
    shared leaf (seen ++ [n]) k = if k = n then (shared leaf seen n).map share else shared leaf seen k := by
  unfold shared
  by_cases hk : k = n
  · subst hk
    by_cases hSeen : k ∈ seen
    · cases leaf k with
      | none => simp
      | some e =>
        cases e with
        | swapped slot => simp [hSeen, share]
        | present p flags => cases hShr : flags.noshr <;> simp [hSeen, share, hShr, cowFlags]
    · simp [hSeen]
  · simp [hk]

variable {seen ns : List Nat} {leaf : Nat → Option Pte} {p : Proc}

lemma Forking.step (h : Forking leaf seen m child)
    (step : CowPage child n m child' m') : Forking leaf (seen ++ [n]) m' child' := by
  have same : ∀ {s : Nat → Option Pte}, (∀ k, s k = shared leaf seen k) →
      (shared leaf seen n).map share = shared leaf seen n →
      ∀ k, s k = shared leaf (seen ++ [n]) k := by
    intro s hs hn k
    rw [shared_append, hs k]
    split_ifs with hk
    · rw [hk, hn]
    · rfl
  cases step with
  | skip absent =>
    have hn : (shared leaf seen n).map share = shared leaf seen n := by
      rw [← h.parent n]
      cases hLeaf : m.leaf n with
      | none => rfl
      | some e =>
        cases e with
        | swapped slot => rfl
        | present p flags => simp [hLeaf, frame] at absent
    exact ⟨same h.parent hn, same h.child hn⟩
  | buffer leafN noshr =>
    have hn : (shared leaf seen n).map share = shared leaf seen n := by
      rw [← h.parent n, leafN]
      simp [share, noshr]
    exact ⟨same h.parent hn, same h.child hn⟩
  | @share p flags t leafN noshr map =>
    have hn : (shared leaf seen n).map share = some (.present p cowFlags) := by
      rw [← h.parent n, leafN]
      simp [share, noshr]
    obtain ⟨t', -, ⟨pmm', tables', rfl⟩, rfl⟩ := vmmMap_eq_some map
    constructor
    · intro k
      rw [shared_append, hn, ← h.parent k]
      exact leaf_setLeaf m n k _
    · intro k
      rw [shared_append, hn, ← h.child k]
      exact leaf_setLeaf { m with proc := child } n k _

lemma forking_of_foldlM (h : Forking leaf seen m child)
    (run : ns.foldlM cowForkPage child m = some (child', m')) : Forking leaf (seen ++ ns) m' child' := by
  induction ns generalizing m child seen with
  | nil =>
    obtain ⟨rfl, rfl⟩ := of_pure run
    rwa [append_nil]
  | cons n ns ih =>
    obtain ⟨child₁, m₁, page, rest⟩ := of_bind run
    have later := ih (h.step (cowForkPage_cowPage page)) rest
    rwa [append_assoc] at later

/-- What a step of the first loop leaves as it is. -/
lemma CowPage.frame (step : CowPage child n m child' m') :
    m'.swap = m.swap ∧ m'.proc.regions = m.proc.regions ∧ child'.regions = child.regions := by
  cases step with
  | skip => exact ⟨rfl, rfl, rfl⟩
  | buffer => exact ⟨rfl, rfl, rfl⟩
  | share leaf noshr map =>
    obtain ⟨t', -, ⟨pmm', tables', rfl⟩, rfl⟩ := vmmMap_eq_some map
    exact ⟨rfl, rfl, rfl⟩

lemma frame_of_foldlM (run : ns.foldlM cowForkPage child m = some (child', m')) :
    m'.swap = m.swap ∧ m'.proc.regions = m.proc.regions ∧ child'.regions = child.regions := by
  induction ns generalizing m child with
  | nil =>
    obtain ⟨rfl, rfl⟩ := of_pure run
    exact ⟨rfl, rfl, rfl⟩
  | cons n ns ih =>
    obtain ⟨child₁, m₁, page, rest⟩ := of_bind run
    obtain ⟨swap, regions, childRegions⟩ := (cowForkPage_cowPage page).frame
    obtain ⟨swap', regions', childRegions'⟩ := ih rest
    exact ⟨swap'.trans swap, regions'.trans regions, childRegions'.trans childRegions⟩

lemma foldl_ref_swap (m : Mem) (ps : List Nat) : (ps.foldl Mem.ref m).swap = m.swap := by
  induction ps generalizing m with
  | nil => rfl
  | cons p ps ih => exact ih (m.ref p)

lemma foldl_ref_proc (m : Mem) (ps : List Nat) : (ps.foldl Mem.ref m).proc = m.proc := by
  induction ps generalizing m with
  | nil => rfl
  | cons p ps ih => exact ih (m.ref p)

section

variable (run : schedFork m = some (child, m'))

include run

/-- Page tables are copied, region pages shared, and other frames referenced. -/
lemma schedFork_parts : ∃ fresh m₁ m₂, Cloned m fresh m₁ ∧ Forking m.leaf [] m₁ fresh ∧
    (regionPages m.proc.regions).foldlM cowForkPage fresh m₁ = some (child, m₂) ∧ m' = refOutside m₂ := by
  obtain ⟨fresh, m₁, clone, run⟩ := of_bind run
  have cloned := vmmClonePml4_cloned clone
  obtain ⟨child', m₂, loop, run⟩ := of_bind (of_get_bind run)
  obtain ⟨_, outside, rfl⟩ := of_bind_pure run
  rw [cloned.proc] at loop
  refine ⟨fresh, m₁, m₂, cloned, ⟨fun n => ?_, fun n => ?_⟩, loop, (of_modify outside).symm⟩
  · rw [Mem.leaf, cloned.proc]
    rfl
  · rw [cloned.leaves]
    rfl

/-- Both processes have the entries of the parent, regions shared. -/
lemma schedFork_leaves : (∀ n, m'.leaf n = shared m.leaf (regionPages m.proc.regions) n) ∧
      ∀ n, child.leaves.lookup n = shared m.leaf (regionPages m.proc.regions) n := by
  obtain ⟨fresh, m₁, m₂, -, first, loop, rfl⟩ := schedFork_parts run
  have forked := forking_of_foldlM first loop
  refine ⟨fun n => ?_, forked.child⟩
  rw [Mem.leaf, refOutside, foldl_ref_proc]
  exact forked.parent n

lemma schedFork_frame : m'.swap = m.swap ∧ m'.proc.regions = m.proc.regions ∧ child.regions = m.proc.regions := by
  obtain ⟨fresh, m₁, m₂, cloned, -, loop, rfl⟩ := schedFork_parts run
  obtain ⟨swap, regions, childRegions⟩ := frame_of_foldlM loop
  refine ⟨?_, ?_, childRegions.trans cloned.regions⟩
  · rw [refOutside, foldl_ref_swap, swap, cloned.swap]
  · rw [refOutside, foldl_ref_proc, regions, cloned.proc]

end

section ForkCounts

variable {reserved : Nat → Prop} {other debt : Nat → Nat}

def HasRoom (m : Mem) (n : Nat) : Prop :=
  ∀ p flags, m.leaf n = some (.present p flags) → m.pmm.refs p ≠ 0 ∧ m.pmm.refs p < refMax

lemma entryRefs_of_frame_none {o : Option Pte} (h : o.bind frame = none) (f : Nat) : entryRefs f o = 0 := by
  cases o with
  | none => rfl
  | some e => cases e with
    | swapped slot => rfl
    | present p flags => simp [frame] at h

/-- A shared page takes one reference, which the entry of the child holds. -/
lemma Balanced.cowPage (h : Balanced reserved (fun f => other f + child.refs f) debt m) (room : HasRoom m n)
    (same : ∀ f, entryRefs f (child.leaves.lookup n) = entryRefs f (m.leaf n)) (step : CowPage child n m child' m') :
    Balanced reserved (fun f => other f + entryRefs f (m.leaf n) + child'.refs f) debt m' := by
  cases step with
  | skip absent => exact h.congr fun f => by rw [entryRefs_of_frame_none absent]; omega
  | buffer leaf noshr =>
    obtain ⟨hp, hMax⟩ := room _ _ leaf
    exact (h.ref hp hMax).congr fun f => by rw [leaf, entryRefs_present]; omega
  | @share p flags t leaf noshr map =>
    obtain ⟨hp, hMax⟩ := room _ _ leaf
    have hRef : Balanced reserved (fun f => (other f + unit p f) + child.refs f) debt (m.ref p) :=
      (h.ref hp hMax).congr fun f => by omega
    have hSet := hRef.setLeaf (n := n) (e := .present p cowFlags)
      (fun f => show debt f + entryRefs f (m.leaf n) + _ = debt f + unit p f + _ by
        rw [leaf, entryRefs_present])
    have hChild : Balanced reserved (fun f => (other f + unit p f) +
        (m.setLeaf n (.present p cowFlags)).proc.refs f) debt t := by
      refine hSet.load.vmmMap (fun f => ?_) map
      change debt f + entryRefs f (child.leaves.lookup n) + _ = _
      rw [same, leaf, entryRefs_present]
      rfl
    exact hChild.load.congr fun f => by rw [leaf, entryRefs_present]

variable (step : CowPage child n m child' m')

include step

/-- Frames in use keep their contents and gain the references of the entry. -/
lemma CowPage.frames (counted : m.pmm.Counted reserved) (room : HasRoom m n) {f : Nat}
    (hf : m.pmm.used f) : m'.pmm.used f ∧ m'.pmm.refs f = m.pmm.refs f + entryRefs f (m.leaf n) ∧
      m'.pmm.data f = m.pmm.data f := by
  have taken : ∀ {p flags}, m.leaf n = some (.present p flags) →
      (m.pmm.refPage p).used f ∧ (m.pmm.refPage p).refs f = m.pmm.refs f + entryRefs f (m.leaf n) ∧
        (m.pmm.refPage p).data f = m.pmm.data f := by
    intro p flags leaf
    obtain ⟨hp, hMax⟩ := room p flags leaf
    rw [Pmm.refPage_used, Pmm.refPage_data, (counted.refPage hp hMax).2 f, leaf, entryRefs_present]
    exact ⟨hf, rfl, rfl⟩
  cases step with
  | skip absent => exact ⟨hf, by rw [entryRefs_of_frame_none absent]; rfl, rfl⟩
  | buffer leaf noshr => exact taken leaf
  | share leaf noshr map =>
    obtain ⟨used, refs, data⟩ := taken leaf
    obtain ⟨used', refs', data'⟩ := vmmMap_stable map f used
    exact ⟨used', refs'.trans refs, data'.trans data⟩

/-- The parent keeps all but its entries. -/
lemma CowPage.parent : m'.proc = { m.proc with leaves := m'.proc.leaves } := by
  cases step <;> rfl

lemma CowPage.child_regions : child'.regions = child.regions := by
  cases step with
  | skip => rfl
  | buffer => rfl
  | share leaf noshr map =>
    have regions := vmmMap_regions map
    exact regions

lemma CowPage.child_tables (hn : n < userHalf) (low : LowTables child) : LowTables child' := by
  cases step with
  | skip => exact low
  | buffer => exact low
  | share leaf noshr map =>
    obtain ⟨t, walk, -, rfl⟩ := vmmMap_eq_some map
    have low' := LowTables.walkCreate (by exact low) hn walk
    exact low'

end ForkCounts

variable {reserved : Nat → Prop} {other debt : Nat → Nat} {leaf : Nat → Option Pte} {seen ns : List Nat}

def pageRefs (leaf : Nat → Option Pte) (ns : List Nat) (f : Nat) : Nat := tally (fun n => entryRefs f (leaf n)) ns

structure Looped (reserved : Nat → Prop) (other debt : Nat → Nat) (leaf : Nat → Option Pte)
    (seen ns : List Nat) (child : Proc) (m : Mem) (child' : Proc) (m' : Mem) : Prop where
  balanced : Balanced reserved (fun f => other f + pageRefs leaf ns f + child'.refs f) debt m'
  forking : Forking leaf (seen ++ ns) m' child'
  frames : ∀ f, m.pmm.used f → m'.pmm.used f ∧ m'.pmm.refs f = m.pmm.refs f + pageRefs leaf ns f ∧
    m'.pmm.data f = m.pmm.data f
  parent : m'.proc = { m.proc with leaves := m'.proc.leaves }
  regions : child'.regions = child.regions
  tables : (∀ n ∈ ns, n < userHalf) → LowTables child → LowTables child'

/-- The entry of a page names the same frame before and after it is shared. -/
lemma Forking.frame (h : Forking leaf seen m child) {n p : Nat} {flags : PteFlags}
    (hLeaf : m.leaf n = some (.present p flags)) : ∃ flags', leaf n = some (.present p flags') := by
  rw [h.parent n] at hLeaf
  unfold shared at hLeaf
  split at hLeaf
  · obtain ⟨e, he, hShare⟩ := map_eq_some_iff.mp hLeaf
    cases e with
    | swapped slot => cases hShare
    | present q flags' =>
      refine ⟨flags', he.trans ?_⟩
      unfold share at hShare
      dsimp only at hShare
      split at hShare <;> cases hShare <;> rfl
  · exact ⟨flags, hLeaf⟩

lemma looped_of_foldlM (h : Balanced reserved (fun f => other f + child.refs f) debt m)
    (fork : Forking leaf seen m child) (room : ∀ n p flags, leaf n = some (.present p flags) →
      m.pmm.refs p ≠ 0 ∧ m.pmm.refs p + pageRefs leaf ns p ≤ refMax)
    (run : ns.foldlM cowForkPage child m = some (child', m')) :
    Looped reserved other debt leaf seen ns child m child' m' := by
  induction ns generalizing m child other seen with
  | nil =>
    obtain ⟨rfl, rfl⟩ := of_pure run
    refine ⟨h.congr fun f => ?_, by rwa [append_nil], fun f hf => ⟨hf, rfl, rfl⟩, rfl, rfl, fun _ low => low⟩
    change _ = debt f + (other f + 0 + child.refs f)
    omega
  | cons n ns ih =>
    obtain ⟨child₁, m₁, page, rest⟩ := of_bind run
    have step := cowForkPage_cowPage page
    have split : ∀ f, pageRefs leaf (n :: ns) f = entryRefs f (leaf n) + pageRefs leaf ns f :=
      fun f => tally_cons _ _ _
    have entry : ∀ f, entryRefs f (m.leaf n) = entryRefs f (leaf n) := fun f => by
      rw [fork.parent, shared]
      split
      · cases leaf n <;> simp [entryRefs]
      · rfl
    have hasRoom : HasRoom m n := by
      intro p flags hLeaf
      obtain ⟨flags', hn⟩ := fork.frame hLeaf
      obtain ⟨hp, hMax⟩ := room n p flags' hn
      rw [split, hn, entryRefs_present, unit_self] at hMax
      exact ⟨hp, by omega⟩
    have same : ∀ f, entryRefs f (child.leaves.lookup n) = entryRefs f (m.leaf n) := fun f => by
      rw [fork.child, fork.parent]
    have frames := fun f hf => step.frames h.counted hasRoom (f := f) hf
    have later := ih (h.cowPage hasRoom same step) (fork.step step) (fun k p flags hk => ?_) rest
    · refine ⟨later.balanced.congr fun f => ?_, ?_, fun f hf => ?_, ?_, ?_, fun hns low => ?_⟩
      · rw [split, entry]
        omega
      · have := later.forking
        rwa [append_assoc] at this
      · obtain ⟨used, refs, data⟩ := frames f hf
        obtain ⟨used', refs', data'⟩ := later.frames f used
        refine ⟨used', ?_, data'.trans data⟩
        rw [refs', refs, entry, split]
        omega
      · rw [later.parent, step.parent]
      · exact later.regions.trans step.child_regions
      · exact later.tables (fun k hk => hns k (by simp [hk])) (step.child_tables (hns n (by simp)) low)
    · obtain ⟨hp, hMax⟩ := room k p flags hk
      obtain ⟨-, refs, -⟩ := frames p ((h.counted.used_iff p).mpr (.inl hp))
      rw [split] at hMax
      rw [refs, entry]
      exact ⟨by omega, by omega⟩

/-- References taken one after the other, where there is room for all. -/
lemma Balanced.foldl_ref {ps : List Nat} (h : Balanced reserved other debt m)
    (room : ∀ p ∈ ps, m.pmm.refs p ≠ 0 ∧ m.pmm.refs p + ps.count p ≤ refMax) :
    Balanced reserved (fun f => other f + ps.count f) debt (ps.foldl Mem.ref m) := by
  induction ps generalizing m other with
  | nil => exact h.congr fun f => by simp
  | cons p ps ih =>
    obtain ⟨hp, hMax⟩ := room p (by simp)
    rw [count_cons_self] at hMax
    have taken := h.counted.refPage hp (by omega)
    have next := h.ref hp (by omega)
    refine (ih next fun q hq => ?_).congr fun f => ?_
    · obtain ⟨hq₀, hqMax⟩ := room q (by simp [hq])
      rw [count_cons] at hqMax
      simp only [beq_iff_eq] at hqMax
      change (m.pmm.refPage p).refs q ≠ 0 ∧ (m.pmm.refPage p).refs q + _ ≤ _
      rw [taken.2 q]
      omega
    · rw [count_cons]
      simp only [beq_iff_eq, unit]
      omega

def outsideRefs (rs : List Region) (f n : Nat) (e : Pte) : Nat := (outsideFrame rs n e).elim 0 (unit · f)

/-- Each entry of a sound process is visited by exactly one of the two loops. -/
lemma leafRefs_split (h : p.Sound) (f : Nat) :
    p.leafRefs f = pageRefs (fun n => p.leaves.lookup n) (regionPages p.regions) f +
      weigh (outsideRefs p.regions f) p.leaves := by
  have inside := weigh_of_mem (fun _ e => refs f e) p.leaves h.laid.nodup
  change weigh (fun _ e => refs f e) p.leaves = tally _ _ + _
  rw [show (tally (fun n => entryRefs f (p.leaves.lookup n)) (regionPages p.regions)) = _ from inside.symm]
  refine weigh_add fun n e he => ?_
  have ok := h.tidy.leaves n e he
  cases e with
  | swapped slot => exact ok.elim
  | present q flags =>
    obtain ⟨low, covered⟩ := ok
    have hFind := mem_regionPages_iff_findRegion h.laid.placed (n := n)
    by_cases hn : n ∈ regionPages p.regions
    · have := hFind.mp hn
      simp [hn, outsideRefs, outsideFrame, isNone_eq_false_iff.mpr this]
    · have hNone : findRegion p.regions (n * pageSize) = none := by
        rw [← not_isSome_iff_eq_none, ← hFind]
        exact hn
      have hShr := (covered.resolve_left hn).1
      simp [hn, outsideRefs, outsideFrame, hNone, hShr, low, refs, frame]

/-- Sharing pages does not concern the second loop. -/
lemma outsideRefs_share (rs : List Region) (f n : Nat) (e : Pte) :
    outsideRefs rs f n e.share = outsideRefs rs f n e := by
  cases e with
  | swapped slot => rfl
  | present p flags =>
    cases hShr : flags.noshr <;> simp [share, hShr, outsideRefs, outsideFrame, cowFlags]

structure Forked (reserved : Nat → Prop) (other : Nat → Nat) (child : Proc) (m' : Mem) : Prop where
  parent : Exact reserved (fun f => other f + child.refs f) m'
  childSound : child.Sound

/-- The counts have room for the references that a fork takes. -/
def ForkRoom (m : Mem) : Prop := ∀ f, m.proc.leafRefs f ≠ 0 → m.pmm.refs f + m.proc.leafRefs f ≤ refMax

lemma sound_of_shared {q : Proc} (h : p.Sound) (regions : q.regions = p.regions) (tables : LowTables q)
    (leaves : ∀ n, q.leaves.lookup n = shared (p.leaves.lookup ·) (regionPages p.regions) n) : q.Sound := by
  refine ⟨regions ▸ h.laid, fun n e he => ?_, tables⟩
  rw [regions]
  rw [leaves] at he
  unfold shared at he
  split_ifs at he with hn
  · obtain ⟨e', he', rfl⟩ := map_eq_some_iff.mp he
    have ok := h.tidy.leaves n e' he'
    cases e' with
    | swapped slot => exact ok
    | present q flags =>
      unfold share
      dsimp only
      split
      · exact ok
      · exact ⟨ok.1, .inl hn⟩
  · exact h.tidy.leaves n e he

/-- The second loop visits the same frames after the first one as before it. -/
lemma count_outside {m m₂ : Mem}
    (fork : ∀ n, m₂.leaf n = shared m.leaf seen n) (regions : m₂.proc.regions = m.proc.regions) (f : Nat) :
    (outsideFrames m₂.proc).count f = weigh (outsideRefs m.proc.regions f) m.proc.leaves := by
  rw [outsideFrames, count_filterMap, regions]
  refine weigh_congr (f := outsideRefs m.proc.regions f) fun n => ?_
  change (m₂.leaf n).elim 0 _ = (m.leaf n).elim 0 _
  rw [fork]
  unfold shared
  split
  · cases m.leaf n with
    | none => rfl
    | some e => exact outsideRefs_share _ f n e
  · rfl

lemma forked_of_schedFork (h : Exact reserved other m) (room : ForkRoom m)
    (run : schedFork m = some (child, m')) : Forked reserved other child m' := by
  obtain ⟨fresh, m₁, m₂, cloned, first, loop, rfl⟩ := schedFork_parts run
  have hSplit : ∀ f, m.proc.leafRefs f = pageRefs m.leaf (regionPages m.proc.regions) f +
      weigh (outsideRefs m.proc.regions f) m.proc.leaves := leafRefs_split h.sound
  -- a frame that an entry names has room for the references of both loops
  have live : ∀ n p flags, m.leaf n = some (.present p flags) → m.pmm.used p ∧ m.pmm.refs p ≠ 0 ∧
      m.pmm.refs p + m.proc.leafRefs p ≤ refMax := by
    intro n p flags hLeaf
    have hRefs := h.balanced.refs_ne_zero hLeaf rfl
    have hEntry := entryRefs_le_leafRefs m n p
    rw [hLeaf, entryRefs_present, unit_self] at hEntry
    exact ⟨(h.balanced.counted.used_iff p).mpr (.inl hRefs), hRefs, room p (by omega)⟩
  have looped : Looped reserved other (fun f => 0 + fresh.leafRefs f) m.leaf []
      (regionPages m.proc.regions) fresh m₁ child m₂ := by
    refine looped_of_foldlM (cloned.balanced h.balanced) first (fun n p flags hLeaf => ?_) loop
    obtain ⟨used, hRefs, hMax⟩ := live n p flags hLeaf
    rw [(cloned.stable p used).2.1]
    have := hSplit p
    exact ⟨hRefs, by omega⟩
  have regions₂ : m₂.proc.regions = m.proc.regions := by rw [looped.parent, cloned.proc]
  have count := count_outside looped.forking.parent regions₂
  have hasRoom : ∀ p ∈ outsideFrames m₂.proc,
      m₂.pmm.refs p ≠ 0 ∧ m₂.pmm.refs p + (outsideFrames m₂.proc).count p ≤ refMax := by
    intro p hp
    obtain ⟨e, he, hFrame⟩ := mem_filterMap.mp hp
    have hEntry : ∃ flags, m₂.leaf e.1 = some (.present p flags) := by
      have hLeaf : m₂.leaf e.1 = some e.2 := AList.mem_lookup_iff.mpr he
      cases hPte : e.2 with
      | swapped slot => simp [hPte, outsideFrame] at hFrame
      | present q flags =>
        simp only [hPte, outsideFrame, ite_none_right_eq_some] at hFrame
        obtain ⟨-, hq⟩ := hFrame
        cases hq
        exact ⟨flags, hPte ▸ hLeaf⟩
    obtain ⟨flags, hLeaf⟩ := hEntry
    obtain ⟨flags', hOld⟩ := looped.forking.frame hLeaf
    obtain ⟨used, hRefs, hMax⟩ := live e.1 p flags' hOld
    obtain ⟨used₁, refs₁, -⟩ := cloned.stable p used
    rw [(looped.frames p used₁).2.1, refs₁, count]
    have := hSplit p
    exact ⟨by omega, by omega⟩
  have balanced := looped.balanced.foldl_ref hasRoom
  have hProc : (refOutside m₂).proc = { m.proc with leaves := m₂.proc.leaves } := by
    rw [refOutside, foldl_ref_proc, looped.parent, cloned.proc]
  have hLeaf : ∀ n, (refOutside m₂).leaf n = shared m.leaf (regionPages m.proc.regions) n := by
    intro n
    rw [Mem.leaf, hProc]
    exact looped.forking.parent n
  have hRegions : child.regions = m.proc.regions := looped.regions.trans cloned.regions
  have hTables : LowTables child := looped.tables (fun n hn => lt_userHalf_of_mem h.sound.laid.placed hn) cloned.tables
  refine ⟨⟨?_, ?_⟩, ?_⟩
  · refine balanced.congr fun f => ?_
    have := hSplit f
    have hFresh : fresh.leafRefs f = m.proc.leafRefs f := by rw [Proc.leafRefs, cloned.leaves, Proc.leafRefs]
    rw [count, hFresh]
    omega
  · exact sound_of_shared h.sound (by rw [hProc]) (by rw [hProc]; exact h.sound.tidy.tables) hLeaf
  · exact sound_of_shared h.sound hRegions hTables looped.forking.child

end YartOS.Mm
