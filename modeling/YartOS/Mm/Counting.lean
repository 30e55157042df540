import YartOS.Mm.Machine

/-! The references to frames that an address space holds, and what the virtual memory
manager does to the counts. -/
namespace YartOS.Mm

open Programs Tally List Option

def unit (p f : Nat) : Nat := if p = f then 1 else 0

def Pte.refs (f : Nat) (e : Pte) : Nat := e.frame.elim 0 (unit · f)

def entryRefs (f : Nat) (o : Option Pte) : Nat := o.elim 0 (Pte.refs f)

namespace Proc

def leafRefs (p : Proc) (f : Nat) : Nat := weigh (fun _ e => Pte.refs f e) p.leaves

def tableRefs (p : Proc) (f : Nat) : Nat := weigh (fun _ g => unit g f) p.tables + unit p.root f

def refs (p : Proc) (f : Nat) : Nat := p.leafRefs f + p.tableRefs f

end Proc

@[simp] lemma entryRefs_none (f : Nat) : entryRefs f none = 0 := rfl

@[simp] lemma entryRefs_present (f p : Nat) (flags : PteFlags) : entryRefs f (some (.present p flags)) = unit p f := rfl

@[simp] lemma entryRefs_swapped (f slot : Nat) : entryRefs f (some (.swapped slot)) = 0 := rfl

@[simp] lemma unit_self (p : Nat) : unit p p = 1 := if_pos rfl

lemma leafRefs_setLeaf (m : Mem) (n f : Nat) (e : Pte) : (m.setLeaf n e).proc.leafRefs f + entryRefs f (m.leaf n) =
      m.proc.leafRefs f + entryRefs f (some e) :=
  weigh_insert _ _ _ _

lemma leafRefs_clearLeaf (m : Mem) (n f : Nat) :
    (m.clearLeaf n).proc.leafRefs f + entryRefs f (m.leaf n) = m.proc.leafRefs f :=
  weigh_erase _ _ _

lemma entryRefs_le_leafRefs (m : Mem) (n f : Nat) : entryRefs f (m.leaf n) ≤ m.proc.leafRefs f := by
  have := leafRefs_clearLeaf m n f
  omega

lemma count_filterMap {α : Type} (g : α → Option Nat) (l : List α) (f : Nat) :
    (l.filterMap g).count f = tally (fun x => (g x).elim 0 (unit · f)) l := by
  induction l with
  | nil => rfl
  | cons x l ih =>
    rw [tally_cons, ← ih]
    cases hx : g x with
    | none => simp [hx]
    | some p =>
      rw [filterMap_cons_some hx, count_cons]
      simp only [beq_iff_eq, elim_some, unit]
      omega

/-- Of an address space in the user half, all that is referenced is freed. -/
lemma count_frames {p : Proc} (leaves : ∀ n e, p.leaves.lookup n = some e → n < userHalf)
    (tables : ∀ k g, p.tables.lookup k = some g → lowTable k) (f : Nat) : p.frames.count f = p.refs f := by
  have hLeaves : tally (fun e : Sigma fun _ : Nat => Pte =>
      (if e.1 < userHalf then e.2.frame else none).elim 0 (unit · f)) p.leaves.entries = p.leafRefs f :=
    tally_congr fun e he => by
      rw [if_pos (leaves e.1 e.2 (AList.mem_lookup_iff.mpr he))]
      rfl
  have hTables : tally (fun e : Sigma fun _ : Nat × Nat => Nat =>
      (if lowTable e.1 then some e.2 else none).elim 0 (unit · f)) p.tables.entries =
        weigh (fun _ g => unit g f) p.tables :=
    tally_congr fun e he => by
      rw [if_pos (tables e.1 e.2 (AList.mem_lookup_iff.mpr he))]
      rfl
  rw [Proc.frames, count_append, count_append, count_filterMap, count_filterMap, hLeaves, hTables, count_singleton]
  simp only [beq_iff_eq, Proc.refs, Proc.tableRefs, unit]
  omega

/-- Freeing an address space takes its references off the counts. -/
lemma counted_vmmFreePml4 {reserved : Nat → Prop} {m : Mem} {q : Proc} (h : m.pmm.Counted reserved)
    (leaves : ∀ n e, q.leaves.lookup n = some e → n < userHalf)
    (tables : ∀ k g, q.tables.lookup k = some g → lowTable k) (held : ∀ f, q.refs f ≤ m.pmm.refs f) :
    (vmmFreePml4 q m).pmm.Counted reserved ∧ ∀ f, (vmmFreePml4 q m).pmm.refs f + q.refs f = m.pmm.refs f := by
  have hCount := count_frames leaves tables
  have enough : ∀ f, q.frames.count f ≤ m.pmm.refs f := fun f => by
    rw [hCount]
    exact held f
  obtain ⟨counted, refs⟩ := h.unrefPages enough
  exact ⟨counted, fun f => by rw [← hCount]; exact refs f⟩

/-- The counts are those of the address space and `other` holders, up to `debt`. -/
structure Balanced (reserved : Nat → Prop) (other debt : Nat → Nat) (m : Mem) : Prop where
  counted : m.pmm.Counted reserved
  refs_eq : ∀ f, m.pmm.refs f + debt f = other f + m.proc.refs f

namespace Balanced

variable {reserved : Nat → Prop} {other other' debt debt' : Nat → Nat} {m m' : Mem} {n p : Nat}
  {flags : PteFlags} {u : Unit}

section

variable (h : Balanced reserved other debt m)

include h

lemma congr
    (balance : ∀ f, debt' f + other f = debt f + other' f) : Balanced reserved other' debt' m where
  counted := h.counted
  refs_eq f := by
    have := h.refs_eq f
    have := balance f
    omega

/-- A step that changes neither counts nor references. -/
lemma of_eq (counted : m'.pmm.Counted reserved)
    (refs : ∀ f, m'.pmm.refs f = m.pmm.refs f) (held : ∀ f, m'.proc.refs f = m.proc.refs f) :
    Balanced reserved other debt m' where
  counted := counted
  refs_eq f := by
    rw [refs, held]
    exact h.refs_eq f

lemma alloc (run : pmmAllocPage m = some (p, m')) : Balanced reserved (fun f => other f + unit p f) debt m' := by
  obtain ⟨⟨q, pmm'⟩, found, hq⟩ := map_eq_some_iff.mp run
  cases hq
  obtain ⟨counted, refs⟩ := h.counted.allocPage found
  refine ⟨counted, fun f => ?_⟩
  have := h.refs_eq f
  rw [refs f]
  change _ = other f + unit q f + m.proc.refs f
  unfold unit
  omega

lemma setLeaf {e : Pte} (balance : ∀ f, debt' f + entryRefs f (m.leaf n) + other f =
      debt f + entryRefs f (some e) + other' f) :
    Balanced reserved other' debt' (m.setLeaf n e) where
  counted := h.counted
  refs_eq f := by
    have hRefs := h.refs_eq f
    have hLeaf := leafRefs_setLeaf m n f e
    have hBalance := balance f
    change m.pmm.refs f + debt' f = other' f + ((m.setLeaf n e).proc.leafRefs f + m.proc.tableRefs f)
    rw [Proc.refs] at hRefs
    omega

end

lemma nextTable (k : Nat × Nat) : Keeps (Balanced reserved other debt) (nextTable k) := by
  refine Triple.get_bind fun m₀ h => Triple.ite (fun _ => Triple.pure fun s hs => hs ▸ h) fun absent => ?_
  rintro m u m' rfl run
  obtain ⟨p, t, alloc, rest⟩ := of_bind run
  have held := h.alloc alloc
  obtain ⟨-, rfl⟩ := pmmAllocPage_eq_some alloc
  obtain rfl := of_modify rest
  refine ⟨held.counted, fun f => ?_⟩
  have hRefs := held.refs_eq f
  have hInsert := weigh_insert (fun _ g => unit g f) m.proc.tables k p
  rw [not_isSome_iff_eq_none.mp absent] at hInsert
  simp only [elim_none, add_zero] at hInsert
  change (m.pmm.allocIdx p).refs f + debt f = other f + unit p f + (m.proc.leafRefs f +
    (weigh (fun _ g => unit g f) m.proc.tables + unit m.proc.root f)) at hRefs
  change (m.pmm.allocIdx p).refs f + debt f = other f + (m.proc.leafRefs f +
    (weigh (fun _ g => unit g f) (m.proc.tables.insert k p) + unit m.proc.root f))
  omega

section

variable (h : Balanced reserved other debt m)

include h

lemma walkCreate (run : walkCreate n m = some (u, m')) : Balanced reserved other debt m' :=
  Triple.forM (fun k _ => nextTable k) m u m' h run

/-- Mapping a frame trades the reference of the old entry for one to the frame. -/
lemma vmmMap (balance : ∀ f, debt' f + entryRefs f (m.leaf n) + other f = debt f + unit p f + other' f)
    (run : vmmMap n p flags m = some (u, m')) : Balanced reserved other' debt' m' := by
  obtain ⟨t, walk, ⟨pmm', tables', rfl⟩, rfl⟩ := vmmMap_eq_some run
  exact (h.walkCreate walk).setLeaf balance

lemma mapFresh (absent : ∀ f, entryRefs f (m.leaf n) = 0)
    (run : mapFresh flags n m = some (u, m')) : Balanced reserved other debt m' := by
  obtain ⟨p, t, alloc, map⟩ := of_bind run
  have held := h.alloc alloc
  obtain ⟨-, rfl⟩ := pmmAllocPage_eq_some alloc
  refine held.vmmMap (fun f => ?_) map
  have hAbsent : entryRefs f (m.leaf n) = 0 := absent f
  change debt f + entryRefs f (m.leaf n) + _ = _
  omega

lemma unref (hp : m.pmm.refs p ≠ 0) : Balanced reserved other (fun f => debt f + unit p f) (m.unref p) := by
  obtain ⟨counted, refs⟩ := h.counted.unrefPage hp
  refine ⟨counted, fun f => ?_⟩
  have := h.refs_eq f
  have := refs f
  change (m.pmm.unrefPage p).refs f + (debt f + unit p f) = other f + m.proc.refs f
  unfold unit
  omega

lemma ref (hp : m.pmm.refs p ≠ 0) (room : m.pmm.refs p < refMax) :
    Balanced reserved (fun f => other f + unit p f) debt (m.ref p) := by
  obtain ⟨counted, refs⟩ := h.counted.refPage hp room
  refine ⟨counted, fun f => ?_⟩
  have := h.refs_eq f
  change (m.pmm.refPage p).refs f + debt f = other f + unit p f + m.proc.refs f
  rw [refs f]
  unfold unit
  omega

/-- A frame that an entry names is counted, unless its references are in debt. -/
lemma refs_ne_zero (hLeaf : m.leaf n = some (.present p flags)) (noDebt : debt p = 0) : m.pmm.refs p ≠ 0 := by
  have hRefs := h.refs_eq p
  have hEntry := entryRefs_le_leafRefs m n p
  rw [hLeaf, entryRefs_present, unit_self] at hEntry
  rw [Proc.refs] at hRefs
  omega

end

lemma vmmUnmap (h : Balanced reserved other (fun _ => 0) m) (n : Nat) :
    Balanced reserved other (fun _ => 0) (vmmUnmap m n) := by
  unfold Mm.vmmUnmap
  cases hLeaf : m.leaf n with
  | none => exact h
  | some e =>
    cases e with
    | swapped slot => exact h
    | present p flags =>
      have dropped := h.unref (h.refs_ne_zero hLeaf rfl)
      refine ⟨dropped.counted, fun f => ?_⟩
      have hRefs := dropped.refs_eq f
      have hClear := leafRefs_clearLeaf m n f
      rw [hLeaf, entryRefs_present] at hClear
      change (m.pmm.unrefPage p).refs f + _ = other f + (m.proc.leafRefs f + m.proc.tableRefs f) at hRefs
      change (m.pmm.unrefPage p).refs f + 0 = other f + ((m.clearLeaf n).proc.leafRefs f + m.proc.tableRefs f)
      omega

lemma foldl_vmmUnmap (h : Balanced reserved other (fun _ => 0) m) (ns : List Nat) :
    Balanced reserved other (fun _ => 0) (ns.foldl Mm.vmmUnmap m) := by
  induction ns generalizing m with
  | nil => exact h
  | cons n ns ih => exact ih (h.vmmUnmap n)

lemma store (h : Balanced reserved other debt m) (p : Nat) (page : Page) :
    Balanced reserved other debt (m.store p page) :=
  ⟨⟨h.counted.used_iff, h.counted.refs_reserved, h.counted.lt_total, h.counted.last_le⟩, h.refs_eq⟩

lemma swapFreeSlot (h : Balanced reserved other debt m) (slot : Nat) :
    Balanced reserved other debt (swapFreeSlot m slot) := ⟨h.counted, h.refs_eq⟩

variable {va : Nat} {write r : Bool}

lemma fault (h : Balanced reserved other (fun _ => 0) m) (step : Fault va write m r m') :
    Balanced reserved other (fun _ => 0) m' := by
  cases step with
  | refused => exact h
  | demand absent _ _ map =>
    have charged : Balanced reserved other (fun _ => 0)
        { m with proc.memPages := m.proc.memPages + 1 } := h.of_eq h.counted (fun _ => rfl) fun _ => rfl
    refine charged.mapFresh (fun f => ?_) map
    change entryRefs f (m.leaf (vpn va)) = 0
    rw [absent, entryRefs_none]
  | upgrade leaf => exact h.setLeaf fun f => by rw [leaf, entryRefs_present, entryRefs_present]
  | copy leaf _ _ _ _ alloc map =>
    have held := h.alloc alloc
    obtain ⟨-, rfl⟩ := pmmAllocPage_eq_some alloc
    refine vmmMap ((held.store _ _).unref (held.refs_ne_zero leaf rfl)) (fun f => ?_) map
    change 0 + entryRefs f (m.leaf (vpn va)) + _ = _
    rw [leaf, entryRefs_present]
    omega
  | @swapFailed slot p t leaf alloc _ =>
    have held := h.alloc alloc
    obtain ⟨-, rfl⟩ := pmmAllocPage_eq_some alloc
    have dropped := held.unref (p := p) (by simp [Pmm.allocIdx])
    exact (dropped.congr fun f => by omega).swapFreeSlot slot
  | swapIn leaf alloc _ map =>
    have held := h.alloc alloc
    obtain ⟨-, rfl⟩ := pmmAllocPage_eq_some alloc
    refine vmmMap ((held.store _ _).swapFreeSlot _) (fun f => ?_) map
    change 0 + entryRefs f (m.leaf (vpn va)) + _ = _
    rw [leaf, entryRefs_swapped]
    omega

lemma kernelWrite {b : Nat} (h : Balanced reserved other (fun _ => 0) m)
    (run : kernelWrite va b m = some (u, m')) : Balanced reserved other (fun _ => 0) m' := by
  obtain ⟨done, t, accessed, rest⟩ := of_bind run
  have kept := access_induction (P := Balanced reserved other fun _ => 0) (fun _ _ _ h step => h.fault step)
    h accessed
  cases done with
  | false => cases rest
  | true =>
    obtain rfl := of_modify rest
    unfold setByte
    split
    · exact kept.store _ _
    · exact kept

/-- A fresh address space holds its root only. -/
lemma newSpace {root : Nat} (h : Balanced reserved (fun f => other f + unit root f) debt m) :
    Balanced reserved (fun f => other f + m.proc.refs f) debt { m with proc := m.proc.newSpace root } where
  counted := h.counted
  refs_eq f := by
    have := h.refs_eq f
    change m.pmm.refs f + debt f = other f + m.proc.refs f + (0 + (0 + unit root f))
    omega

lemma vmmFreePml4 {q : Proc} (h : Balanced reserved (fun f => other f + q.refs f) (fun _ => 0) m)
    (leaves : ∀ n e, q.leaves.lookup n = some e → n < userHalf)
    (tables : ∀ k g, q.tables.lookup k = some g → lowTable k) :
    Balanced reserved other (fun _ => 0) (vmmFreePml4 q m) := by
  obtain ⟨counted, refs⟩ := counted_vmmFreePml4 h.counted leaves tables fun f => by
    have := h.refs_eq f
    omega
  refine ⟨counted, fun f => ?_⟩
  have := h.refs_eq f
  have := refs f
  change _ + 0 = other f + m.proc.refs f
  omega

/-- With another address space loaded, this one counts as an other holder. -/
lemma load {outer : Nat → Nat} {p : Proc} (h : Balanced reserved (fun f => outer f + p.refs f) debt m) :
    Balanced reserved (fun f => outer f + m.proc.refs f) debt { m with proc := p } where
  counted := h.counted
  refs_eq f := by
    have := h.refs_eq f
    change m.pmm.refs f + debt f = outer f + m.proc.refs f + p.refs f
    omega

end Balanced

end YartOS.Mm
