import YartOS.Mm.Exact

/-! What `user_exec` does to the counts. The page of the trampoline is mapped twice. -/
namespace YartOS.Mm

open Programs Tally List

variable {reserved : Nat → Prop} {outer : Nat → Nat} {m m' : Mem} {n : Nat} {u : Unit}

/-- A program that maps a fresh frame at the page `n`, and changes nothing else. -/
structure Filled (n : Nat) (m m' : Mem) : Prop where
  entry : ∃ p flags, flags.cow = false ∧ m'.leaf n = some (.present p flags)
  others : ∀ k, k ≠ n → m'.leaf k = m.leaf k
  tables : n < userHalf → LowTables m.proc → LowTables m'.proc
  balanced : ∀ {reserved outer}, m.leaf n = none → Balanced reserved outer (fun _ => 0) m →
    Balanced reserved outer (fun _ => 0) m'

variable {flags : PteFlags} {β : Type} {r : Bool} {bytes : List (Nat × Nat)} {result : Option (List Region)}
  {img : Image}

lemma mapFresh_filled (hCow : flags.cow = false)
    (run : mapFresh flags n m = some (u, m')) : Filled n m m' where
  entry := by
    obtain ⟨p, t, -, rfl⟩ := mapFresh_eq_some run
    exact ⟨p, flags, hCow, by rw [leaf_setLeaf, if_pos rfl]⟩
  others _ hk := mapFresh_leaf_ne run hk
  tables hn low := by
    obtain ⟨p, t, alloc, map⟩ := of_bind run
    obtain ⟨-, rfl⟩ := pmmAllocPage_eq_some alloc
    obtain ⟨t, walk, -, rfl⟩ := vmmMap_eq_some map
    have low' := LowTables.walkCreate (by exact low) hn walk
    exact low'
  balanced absent h := h.mapFresh (fun f => by rw [absent, entryRefs_none]) run

lemma loadPage_filled {wantWrite wantExec : Bool} {contents : Page}
    (run : loadPage n wantWrite wantExec contents m = some (u, m')) : Filled n m m' := by
  obtain ⟨p, t, alloc, run⟩ := of_bind run
  obtain ⟨_, t', map, run⟩ := of_bind run
  obtain rfl := of_modify run
  have fresh : mapFresh { rw := true, us := true } n m = some ((), t') := bind_of alloc map
  have filled := mapFresh_filled rfl fresh
  have hLeaf : t'.leaf n = some (.present p { rw := true, us := true }) := by
    obtain ⟨s, -, -, rfl⟩ := vmmMap_eq_some map
    rw [leaf_setLeaf, if_pos rfl]
  have hSet : vmmSetFlags (t'.store p contents) n { us := true, rw := wantWrite, nx := !wantExec } =
      (t'.store p contents).setLeaf n (.present p { us := true, rw := wantWrite, nx := !wantExec }) := by
    unfold vmmSetFlags
    rw [show (t'.store p contents).leaf n = _ from hLeaf]
  rw [hSet]
  refine ⟨⟨p, _, rfl, by rw [leaf_setLeaf, if_pos rfl]⟩, fun k hk => ?_, filled.tables, fun absent h => ?_⟩
  · rw [leaf_setLeaf, if_neg hk]
    exact filled.others k hk
  · refine ((filled.balanced absent h).store p contents).setLeaf fun f => ?_
    rw [show (t'.store p contents).leaf n = _ from hLeaf, entryRefs_present, entryRefs_present]

/-- While it is loaded, exactly the pages of `rs` are mapped, unshared. -/
structure Loading (reserved : Nat → Prop) (outer : Nat → Nat) (rs : List Region) (m : Mem) : Prop where
  balanced : Balanced reserved outer (fun _ => 0) m
  laid : Laid rs
  mapped : ∀ n ∈ regionPages rs, ∃ p flags, flags.cow = false ∧ m.leaf n = some (.present p flags)
  absent : ∀ n, n ∉ regionPages rs → m.leaf n = none
  tables : LowTables m.proc

variable {xs : List β} {x : β → Prog Mem Unit} {page : β → Nat}

/-- A loop that fills pages one after the other. -/
lemma filled_forM (fills : ∀ b ∈ xs, ∀ m u m', x b m = some (u, m') → Filled (page b) m m')
    (nodup : (xs.map page).Nodup) (low : ∀ n ∈ xs.map page, n < userHalf) (absent : ∀ n ∈ xs.map page, m.leaf n = none)
    (run : xs.forM x m = some (u, m')) :
    (∀ n ∈ xs.map page, ∃ p flags, flags.cow = false ∧ m'.leaf n = some (.present p flags)) ∧
      (∀ n, n ∉ xs.map page → m'.leaf n = m.leaf n) ∧ (LowTables m.proc → LowTables m'.proc) ∧
      (Balanced reserved outer (fun _ => 0) m → Balanced reserved outer (fun _ => 0) m') := by
  induction xs generalizing m with
  | nil =>
    obtain ⟨-, rfl⟩ := of_pure run
    exact ⟨by simp, fun _ _ => rfl, id, id⟩
  | cons b xs ih =>
    obtain ⟨_, t, first, rest⟩ := of_bind run
    have filled := fills b (by simp) _ _ _ first
    rw [map_cons] at *
    obtain ⟨hb, nodup⟩ := nodup_cons.mp nodup
    obtain ⟨entries, others, tables, balanced⟩ := ih (fun c hc => fills c (by simp [hc])) nodup
      (fun n hn => low n (by simp [hn]))
      (fun n hn => by rw [filled.others n fun e => hb (e ▸ hn)]; exact absent n (by simp [hn])) rest
    refine ⟨fun n hn => ?_, fun n hn => ?_, fun h => ?_, fun h => ?_⟩
    · cases mem_cons.mp hn with
      | inl hn =>
        rw [hn, others _ hb]
        exact filled.entry
      | inr hn => exact entries n hn
    · rw [mem_cons, not_or] at hn
      rw [others n hn.2, filled.others n hn.1]
    · exact tables (filled.tables (low _ (by simp)) h)
    · exact balanced (filled.balanced (absent _ (by simp)) h)

/-- Filling the pages of a region that was just reserved. -/
lemma Loading.fill {rs : List Region} {va npages : Nat} (h : Loading reserved outer rs m) (ok : reserveOk rs va npages)
    (pages : xs.map page = (newRegion va npages flags).pages)
    (fills : ∀ b ∈ xs, ∀ m u m', x b m = some (u, m') → Filled (page b) m m') (run : xs.forM x m = some (u, m')) :
    Loading reserved outer (rs ++ [newRegion va npages flags]) m' := by
  have laid := h.laid.reserve ok flags
  have hMem : ∀ n, n ∈ regionPages (rs ++ [newRegion va npages flags]) ↔
      n ∈ regionPages rs ∨ n ∈ (newRegion va npages flags).pages := by
    intro n
    rw [regionPages, flatMap_append, flatMap_singleton, mem_append]
    rfl
  obtain ⟨entries, others, tables, balanced⟩ := filled_forM fills (pages ▸ (placed_of_reserveOk ok).nodup_pages)
    (fun n hn => lt_userHalf_of_mem laid.placed ((hMem n).mpr (.inr (pages ▸ hn))))
    (fun n hn => h.absent n fun hOld => disjoint_of_reserveOk h.laid.placed ok hOld (pages ▸ hn)) run
  rw [pages] at entries others
  refine ⟨balanced h.balanced, laid, fun n hn => ?_, fun n hn => ?_, tables h.tables⟩
  · by_cases hNew : n ∈ (newRegion va npages flags).pages
    · exact entries n hNew
    · rw [others n hNew]
      exact h.mapped n (((hMem n).mp hn).resolve_right hNew)
  · rw [hMem, not_or] at hn
    rw [others n hn.2]
    exact h.absent n hn.1

variable {rs rs' : List Region} {va npages : Nat} {flags : PteFlags}

/-- An access to a page that is mapped and not shared causes no change. -/
lemma access_of_present {user write : Bool} {p faults : Nat} (hCow : flags.cow = false)
    (hLeaf : m.leaf (vpn va) = some (.present p flags))
    (run : access user write va faults m = some (r, m')) : m' = m := by
  refine access_induction (P := fun t => t = m) (fun t r t' ht step => ?_) rfl run
  subst ht
  cases step with
  | refused => rfl
  | demand absent => simp [hLeaf] at absent
  | upgrade leaf _ cow | copy leaf _ cow =>
    cases hLeaf.symm.trans leaf
    simp [hCow] at cow
  | swapFailed leaf => cases hLeaf.symm.trans leaf
  | swapIn leaf => cases hLeaf.symm.trans leaf

lemma Loading.kernelWrite {b : Nat} (h : Loading reserved outer rs m) (hPage : vpn va ∈ regionPages rs)
    (run : kernelWrite va b m = some (u, m')) : Loading reserved outer rs m' := by
  obtain ⟨done, t, accessed, run⟩ := of_bind run
  obtain ⟨p, flags, hCow, hLeaf⟩ := h.mapped _ hPage
  obtain rfl := access_of_present hCow hLeaf accessed
  cases done with
  | false => cases run
  | true =>
    obtain rfl := of_modify run
    rw [setByte, vmmTranslate, hLeaf]
    exact ⟨h.balanced.store _ _, h.laid, h.mapped, h.absent, h.tables⟩

def Inside (rs : List Region) (bytes : List (Nat × Nat)) : Prop := ∀ e ∈ bytes, vpn e.1 ∈ regionPages rs

lemma Loading.kernelWrites (h : Loading reserved outer rs m)
    (inside : Inside rs bytes) (run : kernelWrites bytes m = some (u, m')) : Loading reserved outer rs m' :=
  Triple.forM (fun e he _ _ _ h run => Loading.kernelWrite h (inside e he) run) m u m' h run

lemma vmmReserveIn_cases {eager : Bool} (run : vmmReserveIn rs va npages flags eager m = some (result, m')) :
    (reserveOk rs va npages = false ∧ result = none ∧ m' = m) ∨
    (reserveOk rs va npages = true ∧ result = some (rs ++ [newRegion va npages flags]) ∧
      mapRegion (newRegion va npages flags) eager m = some ((), m')) := by
  unfold vmmReserveIn at run
  cases hOk : reserveOk rs va npages with
  | false =>
    simp only [hOk] at run
    obtain ⟨rfl, rfl⟩ := of_pure run
    exact .inl ⟨rfl, rfl, rfl⟩
  | true =>
    simp only [hOk, if_true] at run
    obtain ⟨_, map, rfl⟩ := of_bind_pure run
    exact .inr ⟨rfl, rfl, map⟩

def addRegion (rs : List Region) (va npages : Nat) (flags : PteFlags) : List Region :=
  if reserveOk rs va npages then rs ++ [newRegion va npages flags] else rs

lemma Loading.reserveEager (hCow : flags.cow = false) (h : Loading reserved outer rs m)
    {result : Option (List Region)} (run : vmmReserveIn rs va npages flags true m = some (result, m')) :
    Loading reserved outer (addRegion rs va npages flags) m' ∧
      result = if reserveOk rs va npages then some (addRegion rs va npages flags) else none := by
  obtain ⟨hOk, rfl, rfl⟩ | ⟨hOk, rfl, map⟩ := vmmReserveIn_cases run
  · simpa [addRegion, hOk] using h
  · have filled : Loading reserved outer (rs ++ [newRegion va npages flags]) m' :=
      h.fill hOk (map_id' _) (fun _ _ _ _ _ run => mapFresh_filled (by exact hCow) run) map
    simpa [addRegion, hOk] using filled

def imageFlags : PteFlags := { rw := true, us := true, nx := true }

/-- The second pass of `load_user_elf_into` maps the pages of the region. -/
lemma image_pages (ok : reserveOk rs img.first img.pages.length) :
    (img.pages.zipIdx.map fun e => vpn (wrap (img.first + e.2 * pageSize))) =
      (newRegion img.first img.pages.length imageFlags).pages := by
  have hStart : pageAlignDown img.first = img.first := by
    have := img.aligned
    unfold pageAlignDown pageSize at *
    omega
  have hCount : ((newRegion img.first img.pages.length imageFlags).finish - img.first) / pageSize =
      img.pages.length := by
    have hPlaced : (newRegion _ _ imageFlags).Placed := placed_of_reserveOk ok
    have hOrdered := hPlaced.ordered
    have hTop := hPlaced.top
    have hFits := img.fits
    simp only [newRegion, Region.finish, hStart] at *
    unfold wrap pageSize userStackTop at *
    omega
  have hIndices : img.pages.zipIdx.map Prod.snd = range img.pages.length := by rw [zipIdx_map_snd, range_eq_range']
  rw [Region.pages, pagesFrom, show (newRegion img.first img.pages.length imageFlags).start = img.first from hStart,
    hCount, ← hIndices, map_map]
  rfl

lemma Loading.loadUserElfInto (h : Loading reserved outer rs m) (run : loadUserElfInto rs img m = some (result, m')) :
    Loading reserved outer (addRegion rs img.first img.pages.length imageFlags) m' ∧
      result = if reserveOk rs img.first img.pages.length then
        some (addRegion rs img.first img.pages.length imageFlags) else none := by
  obtain ⟨accepted, t, reserve, rest⟩ := of_bind run
  obtain ⟨hOk, rfl, rfl⟩ | ⟨hOk, rfl, lazy⟩ := vmmReserveIn_cases reserve
  · obtain ⟨rfl, rfl⟩ := of_pure rest
    simpa [addRegion, hOk] using h
  · obtain ⟨-, rfl⟩ := of_pure lazy
    obtain ⟨_, pages, rfl⟩ := of_bind_pure rest
    have filled := h.fill hOk (image_pages hOk) (fun _ _ _ _ _ run => loadPage_filled run) pages
    simp only [addRegion, hOk, if_true]
    exact ⟨filled, rfl⟩

def addInterp (rs : List Region) : Option Image → List Region
  | none => rs
  | some img => addRegion rs img.first img.pages.length imageFlags

lemma Loading.loadInterp {interp : Option Image} (h : Loading reserved outer rs m)
    (inside : ∀ img, interp = some img → reserveOk rs img.first img.pages.length →
      Inside (addInterp rs interp) img.relocations) (run : loadInterp rs interp m = some (rs', m')) :
    rs' = addInterp rs interp ∧ Loading reserved outer rs' m' := by
  cases interp with
  | none =>
    obtain ⟨rfl, rfl⟩ := of_pure run
    exact ⟨rfl, h⟩
  | some img =>
    obtain ⟨result, t, load, run⟩ := of_bind run
    obtain ⟨loaded, rfl⟩ := h.loadUserElfInto load
    cases hOk : reserveOk rs img.first img.pages.length with
    | false =>
      rw [hOk] at run
      obtain ⟨rfl, rfl⟩ := of_pure run
      simp only [addInterp, addRegion, hOk] at loaded ⊢
      exact ⟨rfl, loaded⟩
    | true =>
      rw [hOk] at run
      obtain ⟨_, writes, rfl⟩ := of_bind_pure run
      exact ⟨rfl, loaded.kernelWrites (inside img rfl hOk) writes⟩

/-- The frame reserved for the trampoline keeps a count and has no entry. -/
lemma Loading.userMapTrampoline (h : Loading reserved outer rs m) (run : userMapTrampoline rs m = some (rs', m')) :
    ∃ orphan : Option Nat, (orphan.isSome ↔ reserveOk rs sigreturnTrampVa 1) ∧
      rs' = addRegion rs sigreturnTrampVa 1 { us := true } ∧
      Loading reserved (fun f => outer f + orphan.elim 0 (unit · f)) rs' m' := by
  obtain ⟨result, t, reserve, run⟩ := of_bind run
  obtain ⟨loaded, rfl⟩ := h.reserveEager rfl reserve
  cases hOk : reserveOk rs sigreturnTrampVa 1 with
  | false =>
    rw [hOk] at run
    obtain ⟨rfl, rfl⟩ := of_pure run
    refine ⟨none, by simp, by simp [addRegion, hOk], ?_⟩
    simpa [addRegion, hOk] using loaded
  | true =>
    rw [hOk] at run
    obtain ⟨p, t₁, alloc, run⟩ := of_bind run
    replace run := of_modify_bind run
    obtain ⟨_, t₃, map, run⟩ := of_bind run
    obtain ⟨rfl, rfl⟩ := of_pure run
    have hPage : vpn sigreturnTrampVa ∈ regionPages (addRegion rs sigreturnTrampVa 1 { us := true }) := by
      simp only [addRegion, hOk, if_true]
      refine mem_regionPages.mpr ⟨_, mem_append_right _ (mem_singleton.mpr rfl), ?_⟩
      decide
    obtain ⟨q, flags, hCow, hLeaf⟩ := loaded.mapped _ hPage
    have held := loaded.balanced.alloc alloc
    obtain ⟨-, rfl⟩ := pmmAllocPage_eq_some alloc
    refine ⟨some q, by simp, rfl, ?_⟩
    have balanced : Balanced reserved (fun f => outer f + unit q f) (fun _ => 0) t₃ := by
      refine (held.store p trampolineCode).vmmMap (fun f => ?_) map
      change 0 + entryRefs f (t.leaf _) + (outer f + unit p f) = _
      rw [hLeaf, entryRefs_present]
      omega
    obtain ⟨s, walk, only, rfl⟩ := vmmMap_eq_some map
    have low := LowTables.walkCreate (by exact loaded.tables) (lt_userHalf_of_mem loaded.laid.placed hPage) walk
    have leaves : ∀ k, k ≠ vpn sigreturnTrampVa → s.leaf k = t.leaf k := by
      obtain ⟨pmm', tables', rfl⟩ := only
      exact fun _ _ => rfl
    refine ⟨balanced, loaded.laid, fun n hn => ?_, fun n hn => ?_, low⟩
    · by_cases hk : n = vpn sigreturnTrampVa
      · exact ⟨p, _, rfl, by rw [leaf_setLeaf, if_pos hk]⟩
      · rw [leaf_setLeaf, if_neg hk, leaves n hk]
        exact loaded.mapped n hn
    · have hk : n ≠ vpn sigreturnTrampVa := fun e => hn (e ▸ hPage)
      rw [leaf_setLeaf, if_neg hk, leaves n hk]
      exact loaded.absent n hn

variable {other : Nat → Nat} {prog : Program}

def Program.images (prog : Program) (img : Image) : List Region :=
  addInterp (addRegion [] img.first img.pages.length imageFlags) prog.interp

def Program.regions (prog : Program) (img : Image) : List Region :=
  addRegion (addRegion (prog.images img) sigreturnTrampVa 1 { us := true })
    (wrap (prog.top + 2 ^ 64 - userStackPages * pageSize)) userStackPages { rw := true, nx := true }

/-- The image is accepted, and the page of the trampoline is free. -/
def Program.MapsTrampoline (prog : Program) : Prop :=
  ∃ img, prog.main = some img ∧ reserveOk [] img.first img.pages.length ∧ reserveOk (prog.images img) sigreturnTrampVa 1

/-- The bytes of the relocations and of the stack lie in pages of the program. -/
def Program.WritesInside (prog : Program) : Prop :=
  ∀ img, prog.main = some img → reserveOk [] img.first img.pages.length →
    Inside (addRegion [] img.first img.pages.length imageFlags) img.relocations ∧
    (∀ interp, prog.interp = some interp → Inside (prog.images img) interp.relocations) ∧
    Inside (prog.regions img) prog.stack

lemma Loading.buildUserStackInto {top : Nat}
    (h : Loading reserved outer rs m)
    (inside : Inside (addRegion rs (wrap (top + 2 ^ 64 - userStackPages * pageSize)) userStackPages
      { rw := true, nx := true }) bytes)
    (run : buildUserStackInto rs top bytes m = some (result, m')) :
    ∃ rs', Loading reserved outer rs' m' ∧ ∀ rs'', result = some rs'' → rs'' = rs' := by
  obtain ⟨accepted, t, reserve, run⟩ := of_bind run
  obtain ⟨loaded, rfl⟩ := h.reserveEager rfl reserve
  cases hOk : reserveOk rs (wrap (top + 2 ^ 64 - userStackPages * pageSize)) userStackPages with
  | false =>
    rw [hOk] at run
    obtain ⟨rfl, rfl⟩ := of_pure run
    exact ⟨_, loaded, nofun⟩
  | true =>
    rw [hOk] at run
    obtain ⟨_, writes, rfl⟩ := of_bind_pure run
    exact ⟨_, loaded.kernelWrites inside writes, fun _ h => (Option.some.inj h).symm⟩

/-- Loading keeps the counts, up to the trampoline's lost frame. -/
lemma Loading.loadProgram (h : Loading reserved outer [] m)
    (inside : prog.WritesInside) (run : loadProgram prog m = some (result, m')) :
    ∃ (rs : List Region) (orphan : Option Nat), (orphan.isSome ↔ prog.MapsTrampoline) ∧
      Loading reserved (fun f => outer f + orphan.elim 0 (unit · f)) rs m' ∧
      ∀ rs', result = some rs' → rs' = rs := by
  unfold Mm.loadProgram at run
  cases hMain : prog.main with
  | none =>
    rw [hMain] at run
    obtain ⟨rfl, rfl⟩ := of_pure run
    exact ⟨[], none, by simp [Program.MapsTrampoline, hMain], h, nofun⟩
  | some img =>
    rw [hMain] at run
    obtain ⟨loadedMain, t, load, run⟩ := of_bind run
    obtain ⟨loaded, rfl⟩ := h.loadUserElfInto load
    cases hOk : reserveOk [] img.first img.pages.length with
    | false =>
      rw [hOk] at run
      obtain ⟨rfl, rfl⟩ := of_pure run
      exact ⟨_, none, by simp [Program.MapsTrampoline, hMain, hOk], loaded, nofun⟩
    | true =>
      rw [hOk] at run
      obtain ⟨insideMain, insideInterp, insideStack⟩ := inside img hMain hOk
      obtain ⟨_, t₁, writes, run⟩ := of_bind run
      obtain ⟨rs₁, t₂, interp, run⟩ := of_bind run
      obtain ⟨rs₂, t₃, tramp, run⟩ := of_bind run
      obtain ⟨rfl, loadedInterp⟩ := (loaded.kernelWrites insideMain writes).loadInterp
        (fun interp hInterp _ => insideInterp interp hInterp) interp
      obtain ⟨orphan, hOrphan, rfl, loadedTramp⟩ := loadedInterp.userMapTrampoline tramp
      obtain ⟨rs, loadedStack, hResult⟩ := loadedTramp.buildUserStackInto insideStack run
      refine ⟨rs, orphan, hOrphan.trans ?_, loadedStack, hResult⟩
      constructor
      · exact fun hTramp => ⟨img, hMain, hOk, hTramp⟩
      · rintro ⟨img', hMain', -, hTramp⟩
        cases hMain.symm.trans hMain'
        exact hTramp

lemma Loading.tidy (h : Loading reserved outer rs m) : Tidy rs m.proc where
  leaves n e he := by
    by_cases hn : n ∈ regionPages rs
    · obtain ⟨p, flags, -, hLeaf⟩ := h.mapped n hn
      cases (show m.leaf n = some e from he).symm.trans hLeaf
      exact ⟨lt_userHalf_of_mem h.laid.placed hn, .inl hn⟩
    · cases (show m.leaf n = some e from he).symm.trans (h.absent n hn)
  tables := h.tables

lemma Tidy.lt_userHalf {p : Proc} (h : Tidy rs p) (n : Nat) (e : Pte) (he : p.leaves.lookup n = some e) :
    n < userHalf := by
  have ok := h.leaves n e he
  cases e with
  | swapped slot => exact ok.elim
  | present p flags => exact ok.1

/-- `user_exec` keeps the counts exact, up to the frame of the trampoline. -/
lemma exact_of_userExec (h : Exact reserved other m) (inside : prog.WritesInside)
    (run : userExec prog m = some (r, m')) :
    ∃ orphan : Option Nat, (orphan.isSome ↔ prog.MapsTrampoline) ∧
      Exact reserved (fun f => other f + orphan.elim 0 (unit · f)) m' := by
  obtain ⟨root, t, alloc, run⟩ := of_bind (of_get_bind run)
  obtain ⟨⟨result, fresh⟩, t', space, run⟩ := of_bind run
  obtain ⟨s, load, rfl, rfl⟩ := inSpace_eq_some space
  have held := h.balanced.alloc alloc
  obtain ⟨-, rfl⟩ := pmmAllocPage_eq_some alloc
  have start : Loading reserved (fun f => other f + m.proc.refs f) []
      { m with pmm := m.pmm.allocIdx root, proc := m.proc.newSpace root } :=
    ⟨held.newSpace, Laid.nil, by simp [regionPages], fun _ _ => rfl, fun k g hg => by simp [Proc.newSpace] at hg⟩
  obtain ⟨rs, orphan, hOrphan, loaded, hResult⟩ := start.loadProgram inside load
  refine ⟨orphan, hOrphan, ?_⟩
  have total : Balanced reserved (fun f => (other f + orphan.elim 0 (unit · f)) + m.proc.refs f)
      (fun _ => 0) s := loaded.balanced.congr fun f => by omega
  cases result with
  | some rs' =>
    obtain rfl := hResult rs' rfl
    obtain ⟨-, rfl⟩ := of_pure run
    have freed := total.vmmFreePml4 h.sound.tidy.lt_userHalf h.sound.tidy.tables
    exact ⟨⟨freed.counted, freed.refs_eq⟩, loaded.laid, loaded.tidy.leaves, loaded.tidy.tables⟩
  | none =>
    obtain ⟨-, rfl⟩ := of_pure run
    have back := total.load
    have freed := Balanced.vmmFreePml4 back loaded.tidy.lt_userHalf loaded.tidy.tables
    exact ⟨⟨freed.counted, freed.refs_eq⟩, h.sound.laid, h.sound.tidy.leaves, h.sound.tidy.tables⟩

end YartOS.Mm
