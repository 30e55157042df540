import YartOS.Mm.Calls

/-! Where mappings can go: `linux_mmap` leaves user space, and the cap, by the fallback of a fixed
mapping. -/
namespace YartOS.Mm

open Programs Tally List Option

def InUser (n : Nat) : Prop := userVfloor ≤ n * pageSize ∧ n * pageSize < userStackTop

instance (n : Nat) : Decidable (InUser n) := inferInstanceAs (Decidable (_ ∧ _))

def Proc.mapped (p : Proc) : Nat := weigh (fun _ _ => 1) p.leaves

/-- Assigned entries are in user space, and new pages are charged below the cap. -/
structure UserMapped (start : Proc) (m : Mem) : Prop where
  inside : ∀ n ∈ m.written, InUser n
  charged : m.proc.mapped + start.memPages ≤ start.mapped + m.proc.memPages
  capped : m.proc.memPages ≤ max start.memPages memLimitPages

variable {m m' t : Mem} {n p va : Nat} {flags : PteFlags} {u : Unit} {r : Bool}

/-- Faults at page `n` assign its entry and charge it if it had none. -/
structure Faulted (n : Nat) (m m' : Mem) : Prop where
  written : ∃ k, m'.written = replicate k n ++ m.written
  charged : m'.proc.mapped + m.proc.memPages = m.proc.mapped + m'.proc.memPages
  grows : m.proc.memPages ≤ m'.proc.memPages
  capped : m'.proc.memPages ≤ max m.proc.memPages memLimitPages

lemma Faulted.refl : Faulted n m m := ⟨⟨0, rfl⟩, rfl, le_refl _, le_max_left _ _⟩

lemma Faulted.trans (first : Faulted n m t) (second : Faulted n t m') : Faulted n m m' where
  written := by
    obtain ⟨k, hk⟩ := first.written
    obtain ⟨k', hk'⟩ := second.written
    exact ⟨k' + k, by rw [hk', hk, replicate_add, append_assoc]⟩
  charged := by
    have := first.charged
    have := second.charged
    omega
  grows := first.grows.trans second.grows
  capped := by
    have := first.capped
    have := second.capped
    omega

/-- A step that leaves the entries, the charge and the log alone. -/
lemma Faulted.of_eq (leaves : m'.proc.leaves = m.proc.leaves)
    (memPages : m'.proc.memPages = m.proc.memPages) (written : m'.written = m.written) :
    Faulted n m m' where
  written := ⟨0, written⟩
  charged := by rw [memPages, Proc.mapped, Proc.mapped, leaves]
  grows := memPages.ge
  capped := by
    rw [memPages]
    exact le_max_left _ _

lemma OnlyTables.faulted (h : OnlyTables m m') : Faulted n m m' := by
  obtain ⟨pmm', tables', rfl⟩ := h
  exact .of_eq rfl rfl rfl

lemma mapped_setLeaf (m : Mem) (n : Nat) (e : Pte) :
    (m.setLeaf n e).proc.mapped + (m.leaf n).elim 0 (fun _ => 1) = m.proc.mapped + 1 :=
  weigh_insert _ _ _ _

lemma setLeaf_faulted (present : (m.leaf n).isSome) (e : Pte) : Faulted n m (m.setLeaf n e) where
  written := ⟨1, rfl⟩
  charged := by
    obtain ⟨old, hold⟩ := isSome_iff_exists.mp present
    have := mapped_setLeaf m n e
    rw [hold] at this
    change _ + m.proc.memPages = _ + m.proc.memPages
    simp only [elim_some] at this
    omega
  grows := le_refl _
  capped := le_max_left _ _

lemma vmmMap_faulted (present : (m.leaf n).isSome) (h : vmmMap n p flags m = some (u, m')) : Faulted n m m' := by
  obtain ⟨t, -, tables, rfl⟩ := vmmMap_eq_some h
  refine tables.faulted.trans (setLeaf_faulted ?_ _)
  obtain ⟨pmm', tables', rfl⟩ := tables
  exact present

lemma Fault.faulted {write : Bool} (h : Fault va write m r m') : Faulted (vpn va) m m' := by
  cases h with
  | refused => exact .refl
  | @demand region _ absent _ cap map =>
    obtain ⟨p, t, ⟨pmm', tables', rfl⟩, rfl⟩ := mapFresh_eq_some map
    have hMapped := mapped_setLeaf m (vpn va) (.present p region.flags)
    rw [absent] at hMapped
    simp only [elim_none] at hMapped
    refine ⟨⟨1, rfl⟩, ?_, Nat.le_succ _, cap.trans (le_max_right _ _)⟩
    change (m.setLeaf (vpn va) (.present p region.flags)).proc.mapped + m.proc.memPages =
      m.proc.mapped + (m.proc.memPages + 1)
    omega
  | upgrade leaf => exact setLeaf_faulted (isSome_iff_exists.mpr ⟨_, leaf⟩) _
  | copy leaf _ _ _ _ alloc map | swapIn leaf alloc _ map =>
    obtain ⟨-, rfl⟩ := pmmAllocPage_eq_some alloc
    refine Faulted.trans ?_ (vmmMap_faulted ?_ map)
    · exact .of_eq rfl rfl rfl
    · exact isSome_iff_exists.mpr ⟨_, leaf⟩
  | swapFailed leaf alloc =>
    obtain ⟨-, rfl⟩ := pmmAllocPage_eq_some alloc
    exact .of_eq rfl rfl rfl

lemma kernelWrite_faulted {b : Nat} (h : kernelWrite va b m = some (u, m')) : Faulted (vpn va) m m' := by
  obtain ⟨done, t, accessed, h⟩ := of_bind h
  have faulted : Faulted (vpn va) m t :=
    access_induction (fun _ _ _ before fault => before.trans fault.faulted) .refl accessed
  refine faulted.trans ?_
  cases done with
  | false => cases h
  | true =>
    obtain rfl := of_modify h
    unfold setByte
    split
    · exact .of_eq rfl rfl rfl
    · exact .refl

variable {p₀ : Proc} {bytes : List Nat}

lemma UserMapped.of_eq (h : UserMapped p₀ m) (leaves : m'.proc.leaves = m.proc.leaves)
    (memPages : m'.proc.memPages = m.proc.memPages) (written : m'.written = m.written) :
    UserMapped p₀ m' where
  inside := written ▸ h.inside
  charged := by
    rw [memPages, Proc.mapped, leaves]
    exact h.charged
  capped := memPages ▸ h.capped

lemma UserMapped.fault (h : UserMapped p₀ m) (fault : Faulted n m m') (hn : InUser n) : UserMapped p₀ m' where
  inside := by
    obtain ⟨k, hk⟩ := fault.written
    rw [hk]
    intro x hx
    cases mem_append.mp hx with
    | inl hx => exact eq_of_mem_replicate hx ▸ hn
    | inr hx => exact h.inside x hx
  charged := by
    have := h.charged
    have := fault.charged
    omega
  capped := by
    have := h.capped
    have := fault.capped
    omega

/-- A fault does not make up for an earlier mapping. -/
lemma UserMapped.of_fault (h : UserMapped p₀ m') (fault : Faulted n m m') : UserMapped p₀ m where
  inside := by
    obtain ⟨k, hk⟩ := fault.written
    exact fun x hx => h.inside x (hk ▸ mem_append_right _ hx)
  charged := by
    have := h.charged
    have := fault.charged
    omega
  capped := fault.grows.trans h.capped

lemma UserMapped.copyToUser (h : UserMapped p₀ m) (inside : ∀ i < bytes.length, InUser (vpn (wrap (va + i))))
    (copy : copyToUser va bytes m = some (u, m')) : UserMapped p₀ m' := by
  refine Triple.forM (P := UserMapped p₀) (fun e he => ?_) m u m' h copy
  intro s v s' hs write
  have hi : e.2 < bytes.length := by simpa using (mem_zipIdx he).2.1
  exact hs.fault (kernelWrite_faulted write) (inside e.2 hi)

lemma UserMapped.of_copyToUser (h : UserMapped p₀ m')
    (copy : Mm.copyToUser va bytes m = some (u, m')) : UserMapped p₀ m := by
  by_contra hm
  refine Triple.forM (P := fun s => ¬ UserMapped p₀ s) (fun e _ => ?_) m u m' hm copy h
  intro s v s' hs write h'
  exact hs (h'.of_fault (kernelWrite_faulted write))

/-- The fallback of `linux_mmap` assigns each entry and charges none. -/
structure Installed (ns : List Nat) (m m' : Mem) : Prop where
  written : ∀ n, n ∈ m'.written ↔ n ∈ ns ∨ n ∈ m.written
  leaf : ∀ n, (m'.leaf n).isSome ↔ n ∈ ns ∨ (m.leaf n).isSome
  memPages : m'.proc.memPages = m.proc.memPages
  mapped_le : m.proc.mapped ≤ m'.proc.mapped
  mapped_eq_iff : m'.proc.mapped = m.proc.mapped ↔ ∀ n ∈ ns, (m.leaf n).isSome

lemma mapFresh_installed (h : mapFresh flags n m = some (u, m')) : Installed [n] m m' := by
  obtain ⟨p, t, ⟨pmm', tables', rfl⟩, rfl⟩ := mapFresh_eq_some h
  have hMapped := mapped_setLeaf m n (.present p flags)
  have hCount : (m.setLeaf n (.present p flags)).proc.mapped = m.proc.mapped + if (m.leaf n).isSome then 0 else 1 := by
    cases hLeaf : m.leaf n with
    | none =>
      rw [hLeaf] at hMapped
      exact hMapped
    | some e =>
      rw [hLeaf] at hMapped
      exact Nat.succ.inj hMapped
  refine ⟨by simp [Mem.setLeaf], fun k => ?_, rfl, ?_, ?_⟩
  · have := leaf_setLeaf m n k (.present p flags)
    change ((m.setLeaf n (.present p flags)).leaf k).isSome ↔ _
    rw [this]
    by_cases hk : k = n <;> simp [hk]
  · exact hCount ▸ Nat.le_add_right _ _
  · change (m.setLeaf n (.present p flags)).proc.mapped = _ ↔ _
    rw [hCount]
    by_cases hLeaf : (m.leaf n).isSome <;> simp [hLeaf]

lemma Installed.trans {ns ns' : List Nat} {t : Mem} (first : Installed ns m t)
    (second : Installed ns' t m') : Installed (ns ++ ns') m m' where
  written n := by
    rw [second.written, first.written, mem_append]
    tauto
  leaf n := by
    rw [second.leaf, first.leaf, mem_append]
    tauto
  memPages := second.memPages.trans first.memPages
  mapped_le := first.mapped_le.trans second.mapped_le
  mapped_eq_iff := by
    have split : m'.proc.mapped = m.proc.mapped ↔ t.proc.mapped = m.proc.mapped ∧ m'.proc.mapped = t.proc.mapped := by
      have := first.mapped_le
      have := second.mapped_le
      omega
    rw [split, first.mapped_eq_iff, second.mapped_eq_iff]
    constructor
    · rintro ⟨left, right⟩ n hn
      cases mem_append.mp hn with
      | inl hn => exact left n hn
      | inr hn => exact ((first.leaf n).mp (right n hn)).elim (left n) id
    · intro all
      exact ⟨fun n hn => all n (mem_append_left _ hn),
        fun n hn => (first.leaf n).mpr (.inr (all n (mem_append_right _ hn)))⟩

lemma installed_of_forM {ns : List Nat} (h : ns.forM (mapFresh flags) m = some (u, m')) : Installed ns m m' := by
  induction ns generalizing m with
  | nil =>
    obtain ⟨-, rfl⟩ := of_pure h
    exact ⟨by simp, by simp, rfl, le_refl _, by simp⟩
  | cons n ns ih =>
    obtain ⟨_, m₁, map, rest⟩ := of_bind h
    exact (mapFresh_installed map).trans (ih rest)

lemma Installed.userMapped_iff {ns : List Nat} (h : Installed ns m m') (start : m.written = []) :
    UserMapped m.proc m' ↔ ∀ n ∈ ns, InUser n ∧ (m.leaf n).isSome := by
  have hCount := h.mapped_eq_iff
  have hLe := h.mapped_le
  constructor
  · intro mapped n hn
    have hEq : m'.proc.mapped = m.proc.mapped := by
      have := mapped.charged
      rw [h.memPages] at this
      omega
    exact ⟨mapped.inside n ((h.written n).mpr (.inl hn)), hCount.mp hEq n hn⟩
  intro all
  refine ⟨fun n hn => ?_, ?_, ?_⟩
  · rw [h.written, start] at hn
    exact (all n (by simpa using hn)).1
  · rw [h.memPages, hCount.mpr fun n hn => (all n hn).2]
  · rw [h.memPages]
    exact le_max_left _ _

variable {npages len addr : Nat}

lemma UserMapped.reserve (h : UserMapped p₀ m) (hFits : reserveFits m va npages) :
    UserMapped p₀ (m.reserve va npages flags) where
  inside := h.inside
  charged := by
    have := h.charged
    change m.proc.mapped + p₀.memPages ≤ p₀.mapped + (m.proc.memPages + npages)
    omega
  capped := by
    simp only [reserveFits, Bool.and_eq_true, decide_eq_true_eq] at hFits
    exact hFits.2.trans (le_max_right _ _)

lemma inUser_vpn {x : Nat} (low : userVfloor ≤ x) (high : x < userStackTop) : InUser (vpn x) := by
  unfold InUser vpn userVfloor userStackTop pageSize at *
  omega

/-- An accepted range of whole pages lies in user space. -/
lemma reserveFits_bounds (h : reserveFits m va npages) :
    userVfloor ≤ pageAlignDown va ∧ wrap (pageAlignDown va + wrap (npages * pageSize)) ≤ userStackTop ∧
      pageAlignDown va ≤ wrap (pageAlignDown va + wrap (npages * pageSize)) := by
  simp only [reserveFits, reserveOk, Bool.and_eq_true, decide_eq_true_eq] at h
  obtain ⟨⟨⟨⟨⟨⟨-, hWrap⟩, hLow⟩, hHigh⟩, -⟩, -⟩, -⟩ := h
  exact ⟨hLow, hHigh, hWrap⟩

lemma UserMapped.sysMmapProt {exec : Bool} {found : Option Nat} (h : UserMapped p₀ m)
    (run : sysMmapProt len exec m = some (found, m')) : UserMapped p₀ m' :=
  sysMmapProt_induction (fun _ _ _ _ h hFits => h.reserve hFits) (fun _ _ h => h.of_eq rfl rfl rfl) h run

lemma UserMapped.growBrk (h : UserMapped p₀ m) (run : growBrk addr m = some (r, m')) : UserMapped p₀ m' := by
  replace run := of_get_bind run
  split at run
  · obtain ⟨-, rfl⟩ := of_pure run
    exact h
  split at run
  · obtain ⟨-, rfl⟩ := of_pure run
    exact h
  · obtain ⟨-, -, rfl⟩ | ⟨-, hFits, rfl⟩ := vmmUserReserve_lazy run
    · exact h
    · exact h.reserve hFits

lemma UserMapped.sysBrk {brk : Option Nat} (h : UserMapped p₀ m)
    (run : sysBrk addr m = some (brk, m')) : UserMapped p₀ m' := by
  replace run := of_get_bind run
  split at run
  · obtain ⟨-, rfl⟩ := of_pure run
    exact h
  split at run
  · obtain ⟨-, rfl⟩ := of_pure run
    exact h
  split at run
  · obtain ⟨-, rfl⟩ := of_pure run
    exact h
  obtain ⟨grown, t, grow, run⟩ := of_bind run
  have kept := h.growBrk grow
  cases grown with
  | false =>
    obtain ⟨-, rfl⟩ := of_pure run
    exact kept
  | true =>
    obtain ⟨-, rfl⟩ := of_pure run
    exact kept.of_eq rfl rfl rfl

section Placement

variable {limit cand : Nat}

lemma vmmUserFindFree_le {regions : List Region} {rounds : Nat}
    (found : vmmUserFindFree regions npages limit rounds cand ≠ 0) :
    wrap (vmmUserFindFree regions npages limit rounds cand + wrap (npages * pageSize)) ≤ limit := by
  induction rounds generalizing cand with
  | zero => exact absurd rfl found
  | succ rounds ih =>
    unfold vmmUserFindFree at found ⊢
    by_cases hFits : wrap (cand + wrap (npages * pageSize)) ≤ limit
    · simp only [hFits, if_true] at found ⊢
      split
      · rename_i r hr
        rw [hr] at found
        exact ih found
      · exact hFits
    · simp [hFits] at found

/-- The address of `sys_mmap_prot` leaves room for the length in the arena. -/
lemma mmapRound_inUser (run : mmapRound (pageAlignUp len) flags m = some (some va, m')) :
    ∀ i < pageAlignUp len, InUser (vpn (wrap (va + i))) := by
  obtain ⟨reserved, t, reserve, run⟩ := of_bind (of_get_bind run)
  cases reserved with
  | false =>
    exact absurd (of_pure run).1 nofun
  | true =>
    have hVa := some.inj (of_pure run).1
    rw [hVa] at reserve
    by_cases hZero : va = 0
    · simp only [reserveFound, hZero, if_true] at reserve
      exact absurd (of_pure reserve).1 nofun
    simp only [reserveFound, hZero, if_false] at reserve
    have hEnd := vmmUserFindFree_le (hVa ▸ hZero)
    rw [hVa, pageAlignUp_div_mul, wrap_of_lt (pageAlignUp_lt len)] at hEnd
    obtain ⟨hFalse, -⟩ | ⟨-, hFits, -⟩ := vmmUserReserve_lazy reserve
    · exact absurd hFalse nofun
    obtain ⟨hLow, hHigh, hWrap⟩ := reserveFits_bounds hFits
    obtain ⟨-, hDown, hUp⟩ := pageAlignDown_spec va
    have hLen := pageAlignUp_lt len
    generalize pageAlignUp len = size at *
    generalize pageAlignDown va = start at *
    intro i hi
    -- neither sum passes 2 ^ 64, as the start is below the end of user space
    have hSum : va + size < 2 ^ 64 := by
      unfold wrap userStackTop pageSize userVfloor at *
      omega
    rw [wrap_of_lt hSum] at hEnd
    rw [wrap_of_lt (by omega)]
    refine inUser_vpn (hLow.trans (by omega)) ?_
    unfold userMmapEnd at hEnd
    unfold userStackTop
    omega

lemma sysMmapProt_inUser {exec : Bool} (run : sysMmapProt len exec m = some (some va, m')) :
    ∀ i < pageAlignUp len, InUser (vpn (wrap (va + i))) := by
  unfold sysMmapProt at run
  split at run
  · exact absurd (of_pure run).1 nofun
  obtain ⟨first, t, round, run⟩ := of_bind run
  cases first with
  | some va' =>
    obtain ⟨hVa, -⟩ := of_pure run
    cases hVa
    exact mmapRound_inUser round
  | none => exact mmapRound_inUser run

/-- The pages of a fixed mapping that is accepted lie in user space. -/
lemma reserveFits_inUser (aligned : va % pageSize = 0) (hFits : reserveFits m va (pageAlignUp len / pageSize)) :
    ∀ i < pageAlignUp len, InUser (vpn (wrap (va + i))) := by
  have hBounds := reserveFits_bounds hFits
  rw [pageAlignUp_div_mul, wrap_of_lt (pageAlignUp_lt len)] at hBounds
  have hStart : pageAlignDown va = va := by
    unfold pageAlignDown pageSize at *
    omega
  rw [hStart] at hBounds
  obtain ⟨hLow, hHigh, hWrap⟩ := hBounds
  have hLen := pageAlignUp_lt len
  generalize pageAlignUp len = size at *
  intro i hi
  have hSum : va + size < 2 ^ 64 := by
    unfold wrap userStackTop at *
    omega
  rw [wrap_of_lt hSum] at hHigh
  rw [wrap_of_lt (by omega)]
  exact inUser_vpn (hLow.trans (by omega)) (by omega)

/-- The bytes of a fixed mapping lie in its pages. -/
lemma vpn_mem_pagesFrom {i : Nat} (aligned : va % pageSize = 0) (hi : i < npages * pageSize) :
    vpn (wrap (va + i)) ∈ pagesFrom va npages := by
  refine mem_map.mpr ⟨i / pageSize, mem_range.mpr (Nat.div_lt_of_lt_mul ?_), ?_⟩
  · rwa [mul_comm]
  · unfold vpn wrap pageSize at *
    omega

end Placement

variable {m m' : Mem} {a : MmapArgs} {u : Unit} {files : Nat → Option (List Nat)}

/-- Where the fallback of a fixed mapping runs, its pages have entries in user space. -/
def MapCall.Confined (m : Mem) : MapCall → Prop
  | .mmap a => a.len ≠ 0 → a.fixed → a.addr ≠ 0 → a.addr % pageSize = 0 → reserveFits m a.addr a.pages = false →
      ∀ n ∈ pagesFrom a.addr a.pages, InUser n ∧ (m.leaf n).isSome
  | _ => True

lemma UserMapped.refl (start : m.written = []) : UserMapped m.proc m where
  inside := by simp [start]
  charged := Nat.le_refl _
  capped := Nat.le_max_left _ _

lemma length_mmapBytes_le (files : Nat → Option (List Nat)) (a : MmapArgs) :
    (mmapBytes files a).length ≤ pageAlignUp a.len := by
  unfold mmapBytes
  split
  · split
    · exact length_take_le _ _
    · exact Nat.zero_le _
  · exact Nat.zero_le _

lemma mmapFixed_userMapped_iff (start : m.written = []) (run : mmapFixed a m = some (u, m')) :
    UserMapped m.proc m' ↔ (reserveFits m a.addr a.pages = false →
        ∀ n ∈ pagesFrom a.addr a.pages, InUser n ∧ (m.leaf n).isSome) := by
  obtain ⟨reserved, t, reserve, rest⟩ := of_bind run
  obtain ⟨rfl, hFits, rfl⟩ | ⟨rfl, hFits, rfl⟩ := vmmUserReserve_lazy reserve
  · rw [(installed_of_forM rest).userMapped_iff start]
    simp [hFits]
  · obtain ⟨-, rfl⟩ := of_pure rest
    simp [hFits, (UserMapped.refl start).reserve hFits]

lemma linuxMmap_userMapped_iff {r : Except MmapError Nat} (start : m.written = [])
    (run : linuxMmap files a m = some (r, m')) : UserMapped m.proc m' ↔ (MapCall.mmap a).Confined m := by
  unfold linuxMmap at run
  by_cases hLen : a.len = 0
  · simp only [hLen, if_true] at run
    obtain ⟨-, rfl⟩ := of_pure run
    simp [MapCall.Confined, hLen, UserMapped.refl start]
  simp only [hLen, if_false] at run
  obtain ⟨place, t, placed, run⟩ := of_bind run
  unfold mmapPlace at placed
  cases hFixed : a.fixed with
  | false =>
    -- an arena mapping is reserved lazily, below the end of the arena
    simp only [hFixed] at placed
    obtain ⟨found, t', mmap, placed⟩ := of_bind placed
    have kept := (UserMapped.refl start).sysMmapProt mmap
    have hConfined : (MapCall.mmap a).Confined m := by simp [MapCall.Confined, hFixed]
    rw [iff_true_right hConfined]
    cases found with
    | none =>
      obtain ⟨rfl, rfl⟩ := of_pure placed
      obtain ⟨-, rfl⟩ := of_pure run
      exact kept
    | some va =>
      obtain ⟨rfl, rfl⟩ := of_pure placed
      obtain ⟨_, t'', copy, run⟩ := of_bind run
      obtain ⟨-, rfl⟩ := of_pure run
      refine kept.copyToUser (fun i hi => ?_) copy
      have hSize := hi.trans_le (length_mmapBytes_le files a)
      exact sysMmapProt_inUser mmap i (by rwa [pageAlignUp_idem])
  | true =>
    simp only [hFixed, if_true] at placed
    by_cases hAddr : a.addr = 0 ∨ a.addr % pageSize ≠ 0
    · simp only [hAddr, if_true] at placed
      obtain ⟨rfl, rfl⟩ := of_pure placed
      obtain ⟨-, rfl⟩ := of_pure run
      refine iff_of_true (.refl start) fun _ _ hZero hAligned => ?_
      exact absurd hAddr (by simp [hZero, hAligned])
    simp only [hAddr, if_false] at placed
    obtain ⟨_, t', fixed, placed⟩ := of_bind placed
    obtain ⟨rfl, rfl⟩ := of_pure placed
    obtain ⟨_, copy, -⟩ := of_bind_pure run
    obtain ⟨hZero, hAligned⟩ : a.addr ≠ 0 ∧ a.addr % pageSize = 0 := by simpa using hAddr
    have hIff := mmapFixed_userMapped_iff start fixed
    have hConfined : (MapCall.mmap a).Confined m ↔ UserMapped m.proc t' := by
      rw [hIff]
      simp [MapCall.Confined, hLen, hFixed, hZero, hAligned]
    rw [hConfined]
    refine ⟨fun mapped => mapped.of_copyToUser copy, fun mapped => mapped.copyToUser (fun i hi => ?_) copy⟩
    have hSize := hi.trans_le (length_mmapBytes_le files a)
    cases hFits : reserveFits m a.addr a.pages with
    | true => exact reserveFits_inUser hAligned hFits i hSize
    | false =>
      rw [← pageAlignUp_div_mul] at hSize
      exact (hIff.mp mapped hFits _ (vpn_mem_pagesFrom hAligned hSize)).1

/-- A mapping call stays in user space and below the cap exactly if its fallback does. -/
theorem mapCall_userMapped_iff (files : Nat → Option (List Nat)) (call : MapCall) (m m' : Mem)
    (run : call.run files { m with written := [] } = some m') : UserMapped m.proc m' ↔ call.Confined m := by
  have first := UserMapped.refl (m := { m with written := [] }) rfl
  cases call with
  | mmapProt len exec =>
    obtain ⟨⟨found, _⟩, call, rfl⟩ := map_eq_some_iff.mp run
    exact iff_of_true (first.sysMmapProt call) trivial
  | brk addr =>
    obtain ⟨⟨brk, _⟩, call, rfl⟩ := map_eq_some_iff.mp run
    exact iff_of_true (first.sysBrk call) trivial
  | mmap args =>
    obtain ⟨⟨r, _⟩, call, rfl⟩ := map_eq_some_iff.mp run
    exact linuxMmap_userMapped_iff (m := { m with written := [] }) rfl call
  | mremap oldAddr oldSize newSize =>
    obtain ⟨⟨r, _⟩, call, rfl⟩ := map_eq_some_iff.mp run
    refine iff_of_true ?_ trivial
    unfold linuxMremap at call
    split at call
    · obtain ⟨-, rfl⟩ := of_pure call
      exact first
    · refine (linuxMmap_userMapped_iff (m := { m with written := [] }) rfl call).mpr ?_
      exact fun _ hFixed => absurd (show Nat.testBit 0x22 4 from hFixed) (by decide)

def emptyTask : Mem where
  pmm := { used := fun p => p < 2, refs := fun p => if p = 1 then 1 else 0, data := fun _ => zeroPage, total := 16 }
  swap := { used := fun _ => false, data := fun _ => zeroPage, slots := swapSlots }
  proc := { root := 1 }

def fixedPage (addr : Nat) : MapCall := .mmap ⟨addr, pageSize, 3, 0x32, 2 ^ 64 - 1, 0⟩

theorem fixed_page_in_arena_userMapped :
    ∃ m', (fixedPage userMmapBase).run (fun _ => none) { emptyTask with written := [] } = some m' ∧
      UserMapped emptyTask.proc m' :=
  ⟨_, rfl, (mapCall_userMapped_iff (fun _ => none) (fixedPage userMmapBase) emptyTask _ rfl).mpr
    fun _ _ _ _ hFits => absurd hFits (by decide)⟩

/-- The last page but one of the kernel half is mapped for the user. -/
theorem fixed_page_in_kernel_half :
    ∃ m', (fixedPage 0xFFFFFFFFFFFFE000).run (fun _ => none) { emptyTask with written := [] } = some m' ∧
      ¬ UserMapped emptyTask.proc m' := by
  refine ⟨_, rfl, fun h => ?_⟩
  exact absurd (h.inside (2 ^ 36 - 2) (by decide)) (by decide)

end YartOS.Mm
