import YartOS.Vfs.Initial

/-! The tree stays well formed where the paths of calls end in a name. -/
namespace YartOS.Vfs

open Fs Runs Sched List Option

namespace Files

/-- Links of children and parents agree, and names are good, short and different. Vnodes not there
are no directories. -/
structure TreeOk (s : Files) : Prop where
  pos : 0 < s.next
  unborn : ∀ v, s.next ≤ v → (s.node v).kind ≠ .dir
  parent : ∀ p v, v ∈ (s.node p).children → (s.node v).parent = some p
  born : ∀ p v, v ∈ (s.node p).children → v < s.next ∧ v ≠ rootNode
  dir : ∀ p v, v ∈ (s.node p).children → (s.node p).kind = .dir
  names : ∀ v, v < s.next → v ≠ rootNode → GoodName (s.node v).name ∧ (s.node v).name.length ≤ maxName - 1
  siblings : ∀ p, (s.node p).children.Pairwise fun v w => (s.node v).name ≠ (s.node w).name

structure Same (s s' : Files) : Prop where
  next : s'.next = s.next
  node : ∀ v, (s'.node v).name = (s.node v).name ∧ (s'.node v).kind = (s.node v).kind ∧
    (s'.node v).parent = (s.node v).parent ∧ (s'.node v).children = (s.node v).children

structure Attached (s s' : Files) (p : Nat) (name : Name) (kind : Kind) : Prop where
  next : s'.next = s.next + 1
  new : (s'.node s.next).name = name ∧ (s'.node s.next).kind = kind ∧
    (s'.node s.next).parent = some p ∧ (s'.node s.next).children = []
  above : (s'.node p).name = (s.node p).name ∧ (s'.node p).kind = (s.node p).kind ∧
    (s'.node p).parent = (s.node p).parent ∧ (s'.node p).children = (s.node p).children ++ [s.next]
  others : ∀ v, v ≠ s.next → v ≠ p → s'.node v = s.node v

variable {s s' : Files} {p v : Nat} {name : Name} {kind : Kind}

lemma TreeOk.same (h : TreeOk s) (hSame : Same s s') : TreeOk s' where
  pos := hSame.next ▸ h.pos
  unborn v hv := by
    rw [(hSame.node v).2.1]
    exact h.unborn v (hSame.next ▸ hv)
  parent p v hv := by
    rw [(hSame.node p).2.2.2] at hv
    rw [(hSame.node v).2.2.1]
    exact h.parent p v hv
  born p v hv := by
    rw [(hSame.node p).2.2.2] at hv
    rw [hSame.next]
    exact h.born p v hv
  dir p v hv := by
    rw [(hSame.node p).2.2.2] at hv
    rw [(hSame.node p).2.1]
    exact h.dir p v hv
  names v hv hRoot := by
    rw [(hSame.node v).1]
    exact h.names v (hSame.next ▸ hv) hRoot
  siblings p := by
    simp only [(hSame.node _).1, (hSame.node p).2.2.2]
    exact h.siblings p

namespace Attached

variable (ha : Attached s s' p name kind)

include ha

lemma name_of_ne (hv : v ≠ s.next) : (s'.node v).name = (s.node v).name := by
  by_cases hp : v = p
  · rw [hp]
    exact ha.above.1
  · rw [ha.others v hv hp]

lemma kind_of_ne (hv : v ≠ s.next) : (s'.node v).kind = (s.node v).kind := by
  by_cases hp : v = p
  · rw [hp]
    exact ha.above.2.1
  · rw [ha.others v hv hp]

lemma parent_of_ne (hv : v ≠ s.next) : (s'.node v).parent = (s.node v).parent := by
  by_cases hp : v = p
  · rw [hp]
    exact ha.above.2.2.1
  · rw [ha.others v hv hp]

/-- The children of a vnode: those before, and the new vnode where it belongs. -/
lemma children_cases {q : Nat} (hv : v ∈ (s'.node q).children) : v ∈ (s.node q).children ∨ v = s.next ∧ q = p := by
  by_cases hNew : q = s.next
  · rw [hNew, ha.new.2.2.2] at hv
    cases hv
  by_cases hp : q = p
  · rw [hp, ha.above.2.2.2] at hv
    rcases mem_append.mp hv with hv | hv
    · exact .inl (hp ▸ hv)
    · exact .inr ⟨mem_singleton.mp hv, hp⟩
  · rw [ha.others q hNew hp] at hv
    exact .inl hv

end Attached

/-- A new vnode in a directory, with a good name that no vnode there has. -/
lemma TreeOk.attached (h : TreeOk s) (ha : Attached s s' p name kind) (hDir : (s.node p).kind = .dir)
    (good : GoodName name) (short : name.length ≤ maxName - 1)
    (fresh : ∀ v ∈ (s.node p).children, (s.node v).name ≠ name) : TreeOk s' := by
  have hp : p < s.next := Nat.lt_of_not_le fun hp => h.unborn p hp hDir
  have old : ∀ {q v}, v ∈ (s.node q).children → v ≠ s.next := fun hv => (h.born _ _ hv).1.ne
  have above : ∀ {q v}, v ∈ (s.node q).children → q ≠ s.next := by
    rintro q v hv rfl
    exact h.unborn _ le_rfl (h.dir _ v hv)
  refine ⟨by rw [ha.next]; omega, fun v hv => ?_, fun q v hv => ?_, fun q v hv => ?_, fun q v hv => ?_,
    fun v hv hRoot => ?_, fun q => ?_⟩
  · rw [ha.next] at hv
    rw [ha.kind_of_ne (by omega)]
    exact h.unborn v (by omega)
  · rcases ha.children_cases hv with hv | ⟨rfl, rfl⟩
    · rw [ha.parent_of_ne (old hv)]
      exact h.parent q v hv
    · exact ha.new.2.2.1
  · rw [ha.next]
    rcases ha.children_cases hv with hv | ⟨rfl, rfl⟩
    · exact ⟨(h.born q v hv).1.trans (Nat.lt_succ_self _), (h.born q v hv).2⟩
    · exact ⟨Nat.lt_succ_self _, h.pos.ne'⟩
  · rcases ha.children_cases hv with hv | ⟨rfl, rfl⟩
    · rw [ha.kind_of_ne (above hv)]
      exact h.dir q v hv
    · rw [ha.kind_of_ne hp.ne]
      exact hDir
  · by_cases hNew : v = s.next
    · rw [hNew, ha.new.1]
      exact ⟨good, short⟩
    · rw [ha.next] at hv
      rw [ha.name_of_ne hNew]
      exact h.names v (by omega) hRoot
  by_cases hNew : q = s.next
  · rw [hNew, ha.new.2.2.2]
    exact List.Pairwise.nil
  have kept : (s.node q).children.Pairwise fun v w => (s'.node v).name ≠ (s'.node w).name := by
    refine (h.siblings q).imp_of_mem fun hv hw hne => ?_
    rwa [ha.name_of_ne (old hv), ha.name_of_ne (old hw)]
  by_cases hq : q = p
  · subst hq
    rw [ha.above.2.2.2, pairwise_append]
    refine ⟨kept, pairwise_singleton _ _, fun v hv w hw => ?_⟩
    rw [mem_singleton.mp hw, ha.new.1, ha.name_of_ne (old hv)]
    exact fresh v hv
  · rwa [ha.others q hNew hq]

structure Detached (s s' : Files) (p v : Nat) : Prop where
  next : s'.next = s.next
  name : ∀ q, (s'.node q).name = (s.node q).name
  kind : ∀ q, (s'.node q).kind = (s.node q).kind
  parent : ∀ q, q ≠ v → (s'.node q).parent = (s.node q).parent
  above : (s'.node p).children = (s.node p).children.erase v
  children : ∀ q, q ≠ p → (s'.node q).children = (s.node q).children

@[simp] lemma setNode_self (n : Node) : (s.setNode v n).node v = n := Function.update_self ..

lemma setNode_of_ne {q : Nat} (n : Node) (hq : q ≠ v) : (s.setNode v n).node q = s.node q := Function.update_of_ne hq ..

/-- A field that an update of a vnode keeps. -/
lemma setNode_field {α : Type} (field : Node → α) {n : Node} (h : field n = field (s.node v)) (q : Nat) :
    field ((s.setNode v n).node q) = field (s.node q) := by
  by_cases hq : q = v
  · rw [hq, setNode_self, h]
  · rw [setNode_of_ne n hq]

lemma same_setNode {n : Node} (name : n.name = (s.node v).name) (kind : n.kind = (s.node v).kind)
    (parent : n.parent = (s.node v).parent) (children : n.children = (s.node v).children) : Same s (s.setNode v n) :=
  ⟨rfl, fun q => ⟨setNode_field (·.name) name q, setNode_field (·.kind) kind q, setNode_field Node.parent parent q,
    setNode_field Node.children children q⟩⟩

lemma vfsUnlink_detached (hUnlink : s.vfsUnlink v = some s') : ∃ p, (s.node v).parent = some p ∧ Detached s s' p v := by
  unfold vfsUnlink at hUnlink
  split at hUnlink
  · cases hUnlink
  rename_i p hp
  split at hUnlink
  · cases hUnlink
  cases hUnlink
  refine ⟨p, hp, rfl, fun q => ?_, fun q => ?_, fun q hq => ?_, ?_, fun q hq => ?_⟩
  · exact (setNode_field (·.name) (by rfl) q).trans (setNode_field (·.name) (by rfl) q)
  · exact (setNode_field (·.kind) (by rfl) q).trans (setNode_field (·.kind) (by rfl) q)
  · rw [setNode_of_ne _ hq]
    exact setNode_field Node.parent (by rfl) q
  · refine (setNode_field Node.children (by rfl) p).trans ?_
    rw [setNode_self]
  · refine (setNode_field Node.children (by rfl) q).trans ?_
    rw [setNode_of_ne _ hq]

/-- `vfs_unlink` takes a vnode out of its directory. -/
lemma TreeOk.vfsUnlink (h : TreeOk s) (hUnlink : s.vfsUnlink v = some s') : TreeOk s' := by
  obtain ⟨p, hp, hd⟩ := vfsUnlink_detached hUnlink
  have mem : ∀ {q w}, w ∈ (s'.node q).children → w ∈ (s.node q).children ∧ w ≠ v := by
    intro q w hw
    have nodup : (s.node q).children.Nodup := (h.siblings q).imp fun hne heq => hne (by rw [heq])
    by_cases hq : q = p
    · rw [hq, hd.above] at hw
      rw [hq] at nodup ⊢
      exact ⟨mem_of_mem_erase hw, fun hwv => (nodup.mem_erase_iff.mp hw).1 hwv⟩
    · rw [hd.children q hq] at hw
      refine ⟨hw, ?_⟩
      rintro rfl
      exact hq (some.inj ((h.parent q w hw).symm.trans hp))
  refine ⟨hd.next ▸ h.pos, fun w hw => ?_, fun q w hw => ?_, fun q w hw => ?_, fun q w hw => ?_, fun w hw => ?_,
    fun q => ?_⟩
  · rw [hd.kind]
    exact h.unborn w (hd.next ▸ hw)
  · rw [hd.parent w (mem hw).2]
    exact h.parent q w (mem hw).1
  · rw [hd.next]
    exact h.born q w (mem hw).1
  · rw [hd.kind]
    exact h.dir q w (mem hw).1
  · rw [hd.name]
    exact h.names w (hd.next ▸ hw)
  simp only [hd.name]
  by_cases hq : q = p
  · rw [hq, hd.above]
    exact (h.siblings p).sublist erase_sublist
  · rw [hd.children q hq]
    exact h.siblings q

lemma attach_attached (hp : p ≠ s.next) (n : Vnode) : Attached s (s.attach p n) p n.name n.kind := by
  refine ⟨rfl, ?_, ?_, fun v hv hvp => ?_⟩
  · simp [attach, setNode]
  · simp [attach, setNode, hp]
  · simp [attach, setNode, hv, hvp]

lemma name_ne_of_findChild (hDir : (s.node p).kind = .dir) (hNone : s.findChild p name = none) :
    ∀ v ∈ (s.node p).children, (s.node v).name ≠ name := by
  rw [findChild, if_neg (by simp [hDir])] at hNone
  simpa using find?_eq_none.mp hNone

variable {env : Caller} {target base path uninit new : Name} {fuel flags : Nat} {t : Task}

lemma TreeOk.vfsCreate (h : TreeOk s) (hCreate : s.vfsCreate env p name kind = some (s', v))
    (good : GoodName name) (short : name.length ≤ maxName - 1) : TreeOk s' := by
  unfold Files.vfsCreate at hCreate
  split at hCreate
  · cases hCreate
  rename_i hCheck
  simp only [ne_eq, not_or, not_not, not_isSome_iff_eq_none] at hCheck
  cases hCreate
  have hp : p ≠ s.next := by
    rintro rfl
    exact h.unborn _ le_rfl hCheck.1
  refine @TreeOk.attached s _ p name kind h ⟨rfl, ?_, ?_, fun v hv hvp => ?_⟩ hCheck.1 good short
    (name_ne_of_findChild hCheck.1 hCheck.2)
  · simp [setNode, mknode, take_of_length_le short]
  · simp [setNode, hp]
  · simp [setNode, hv, hvp]

lemma TreeOk.vfsSymlink (h : TreeOk s) (hCreate : s.vfsSymlink env p name target = some s')
    (good : GoodName name) (short : name.length ≤ maxName - 1) : TreeOk s' := by
  unfold Files.vfsSymlink at hCreate
  split at hCreate
  · cases hCreate
  rename_i hCheck
  simp only [ne_eq, not_or, not_not, not_isSome_iff_eq_none] at hCheck
  cases hCreate
  have hp : p ≠ s.next := by
    rintro rfl
    exact h.unborn _ le_rfl hCheck.1
  have hName : (linkNode env name target).name = name := take_of_length_le short
  have attached := attach_attached hp (linkNode env name target)
  rw [hName] at attached
  have ok := h.attached attached hCheck.1 good short (name_ne_of_findChild hCheck.1 hCheck.2)
  exact ok.same (same_setNode rfl rfl rfl rfl)

/-- A name that is short after it was cut was not cut. -/
lemma eq_of_take_eq {short : Name} (hShort : short.length < maxName - 1)
    (h : base.take (maxName - 1) = short) : base = short := by
  have hLen := congrArg length h
  rw [length_take] at hLen
  rwa [take_of_length_le (by omega)] at h

/-- A name stays good when it is cut. -/
lemma goodName_take (hSlash : slash ∉ base)
    (named : base ≠ [] ∧ base ≠ text "." ∧ base ≠ text "..") : GoodName (base.take (maxName - 1)) where
  nonempty h := named.1 (eq_of_take_eq (by decide) h)
  noSlash h := hSlash (mem_of_mem_take h)
  notDot h := named.2.1 (eq_of_take_eq (by decide +kernel) h)
  notDots h := named.2.2 (eq_of_take_eq (by decide +kernel) h)

/-- A path that is not there in a directory that is there ends in a good name. -/
lemma good_of_lookup {cwd : Option Nat} {d : Nat} (hPath : s.vfsLookupAt fuel cwd path = some none)
    (hDir : s.vfsLookupAt fuel cwd (splitPath path).1 = some (some d)) : GoodName (splitPath path).2 := by
  cases fuel with
  | zero => cases hPath
  | succ fuel =>
    have hStart : start cwd (splitPath path).1 = start cwd path := by simp [start, splitPath_head]
    rw [vfsLookupAt_succ] at hPath hDir
    rw [hStart] at hDir
    obtain ⟨base, hBase, hSlash, hParts⟩ := splitPath_parts path
    have named : base ≠ [] ∧ base ≠ text "." ∧ base ≠ text ".." := by
      by_contra hNot
      have hDots : base = [] ∨ base = text "." ∨ base = text ".." := by tauto
      obtain ⟨v, hv⟩ := walk_dots hDir hDots
      rw [hParts, hPath] at hv
      cases hv
    rw [hBase]
    exact goodName_take hSlash named

lemma TreeOk.findOrCreate {base : Nat} {r : Option (Nat × Bool)}
    (h : TreeOk s) (run : findOrCreate fuel s t base path flags = some (s', r)) : TreeOk s' := by
  unfold Vfs.findOrCreate at run
  split at run
  · cases run
  · cases run
    exact h
  rename_i hPath
  split at run
  · cases run
    exact h
  split at run
  · cases run
  · cases run
    exact h
  rename_i d hDir
  split at run
  · cases run
    exact h
  split at run
  · cases run
    exact h
  · rename_i s₁ v hCreate
    cases run
    exact h.vfsCreate hCreate (good_of_lookup hPath hDir) (splitPath_length path)

lemma TreeOk.finishOpen {k : Nat} {created : Bool} (h : TreeOk s) :
    TreeOk (finishOpen s t k v created flags).files := by
  unfold Vfs.finishOpen
  dsimp only
  split
  · exact h.same (same_setNode rfl rfl rfl rfl)
  · exact h

lemma TreeOk.openDevice (h : TreeOk s) (run : openDevice s path = some (some s')) : TreeOk s' := by
  unfold Vfs.openDevice at run
  split at run
  · cases run
    exact h
  split at run
  · obtain ⟨i, -, rfl⟩ := map_eq_some_iff.mp (some.inj run)
    exact h.same ⟨rfl, fun _ => ⟨rfl, rfl, rfl, rfl⟩⟩
  split at run
  · split at run
    · cases run
      exact h
    · cases run
  · cases run

lemma TreeOk.sysOpen {o : Outcome} (h : TreeOk s) (run : sysOpen fuel s t path flags = some o) : TreeOk o.files := by
  unfold Vfs.sysOpen at run
  split at run
  · cases run
    exact h
  split at run
  · cases run
    exact h
  · rename_i s₁ hDevice
    cases run
    exact h.openDevice hDevice
  split at run
  · cases run
  · rename_i hFind
    cases run
    exact h.findOrCreate hFind
  rename_i s₁ v created hFind
  have found := h.findOrCreate hFind
  split at run
  · cases run
    exact found
  · cases run
    exact found.finishOpen

lemma TreeOk.sysMkdir (h : TreeOk s)
    (good : GoodName (splitPath path).2) (run : sysMkdir fuel s t path = some s') : TreeOk s' := by
  unfold Vfs.sysMkdir at run
  split at run
  · cases run
  · cases run
    exact h
  split at run
  · cases run
    exact h
  split at run
  · cases run
    exact h
  · rename_i hCreate
    cases run
    exact h.vfsCreate hCreate good (splitPath_length path)

/-- The name buffer holds the cut name where the string in it ends in time. -/
lemma nameBuffer_eq (ends : base.length < maxName - 1 ∨ uninit = []) :
    nameBuffer uninit base = base.take (maxName - 1) := by
  unfold nameBuffer
  split_ifs with hShort
  · rw [take_of_length_le hShort.le]
  · rw [ends.resolve_left hShort, append_nil]

lemma length_take_le (base : Name) : (base.take (maxName - 1)).length ≤ maxName - 1 := by
  rw [length_take]
  exact Nat.min_le_left _ _

lemma symlinkSplit_noSlash (path : Name) : slash ∉ (symlinkSplit path).2 := by
  unfold symlinkSplit
  split
  · exact slash_notMem_afterSlash path
  · assumption

lemma TreeOk.sysSymlink (h : TreeOk s)
    (named : (symlinkSplit path).2 ≠ [] ∧ (symlinkSplit path).2 ≠ text "." ∧ (symlinkSplit path).2 ≠ text "..")
    (ends : (symlinkSplit path).2.length < maxName - 1 ∨ uninit = [])
    (run : sysSymlink fuel s t uninit target path = some s') : TreeOk s' := by
  unfold Vfs.sysSymlink at run
  split at run
  · cases run
  · cases run
    exact h
  split at run
  · cases run
    exact h
  split at run
  · cases run
    exact h
  · rename_i hCreate
    cases run
    rw [nameBuffer_eq ends] at hCreate
    exact h.vfsSymlink hCreate (goodName_take (symlinkSplit_noSlash path) named) (length_take_le _)

/-- A name that is not there is not one of the two that are always there. -/
lemma named_of_lookup {np : Nat} (hNone : s.vfsLookupAt fuel (some np) base = some none) :
    base ≠ [] ∧ base ≠ text "." ∧ base ≠ text ".." := by
  by_contra hNot
  have hDots : base = [] ∨ base = text "." ∨ base = text ".." := by tauto
  cases fuel with
  | zero => cases hNone
  | succ fuel =>
    rw [vfsLookupAt_succ] at hNone
    obtain ⟨v, hv⟩ := @walk_dots s (s.followLinks (s.vfsLookupAt fuel) 8) (start (some np) base) [] _ rfl base hDots
    rw [nil_append, hNone] at hv
    cases hv

section

variable (h : TreeOk s) (noSlash : slash ∉ (renameSplit new).2)
  (ends : (renameSplit new).2.length < maxName - 1 ∨ uninit = [])

include h noSlash ends

lemma TreeOk.renameTo (run : renameTo fuel s t uninit v new = some s') : TreeOk s' := by
  unfold Vfs.renameTo at run
  split at run
  · cases run
  · cases run
    exact h
  split at run
  · cases run
    exact h
  dsimp only at run
  split at run
  · cases run
  · cases run
    exact h
  rename_i hNone
  split at run
  · cases run
    exact h
  rename_i s₁ nv hCreate
  cases run
  have named := named_of_lookup hNone
  rw [nameBuffer_eq ends] at named hCreate
  have good : GoodName ((renameSplit new).2.take (maxName - 1)) :=
    ⟨named.1, fun hMem => noSlash (mem_of_mem_take hMem), named.2.1, named.2.2⟩
  have created := h.vfsCreate hCreate good (length_take_le _)
  have copied : TreeOk (s₁.setNode nv (renamed (s₁.node v) (s₁.node nv))) := created.same (same_setNode rfl rfl rfl rfl)
  cases hUnlink : (s₁.setNode nv (renamed (s₁.node v) (s₁.node nv))).vfsUnlink v with
  | none => exact copied
  | some s₂ => exact copied.vfsUnlink hUnlink

lemma TreeOk.sysRename {old : Name} (run : sysRename fuel s t uninit old new = some s') : TreeOk s' := by
  unfold Vfs.sysRename at run
  split at run
  · cases run
  · cases run
    exact h
  split at run
  · cases run
    exact h
  split at run
  · cases run
    exact h
  · exact h.renameTo noSlash ends run

end

lemma TreeOk.sysUnlink (h : TreeOk s) (run : sysUnlink fuel s t path = some (some s')) : TreeOk s' := by
  unfold Vfs.sysUnlink at run
  split at run
  · cases run
  · cases run
  split at run
  · cases run
  split at run
  · cases run
  · exact h.vfsUnlink (some.inj run)

/-- The loop of `vfs_mkdir_p` over good names. -/
lemma TreeOk.mkdirParts {names : List Name} (h : TreeOk s) {cur : Nat}
    (good : ∀ part ∈ names, part ≠ [] → GoodName part ∧ part.length ≤ maxName - 1) :
    TreeOk (s.mkdirParts env cur names) := by
  induction names generalizing s cur with
  | nil => exact h
  | cons part rest ih =>
    have goodRest : ∀ part ∈ rest, part ≠ [] → GoodName part ∧ part.length ≤ maxName - 1 :=
      fun other hOther => good other (mem_cons_of_mem part hOther)
    unfold mkdirParts
    split_ifs with hPart
    · exact ih h goodRest
    split
    · split
      · exact h
      · exact ih h goodRest
    split
    · exact h
    · rename_i hCreate
      obtain ⟨hGood, hShort⟩ := good part mem_cons_self (by simpa using hPart)
      exact ih (h.vfsCreate hCreate hGood hShort) goodRest

lemma TreeOk.vfsMkdirP (h : TreeOk s)
    (noDots : text "." ∉ parts path ∧ text ".." ∉ parts path) : TreeOk (s.vfsMkdirP env path) := by
  have hParts : parts (if path.head? = some slash then path.tail else path) = parts path := by
    cases path with
    | nil => rfl
    | cons c rest =>
      by_cases hc : c = slash
      · subst hc
        exact (parts_slash_cons rest).symm
      · rw [if_neg (by simpa using hc)]
  refine h.mkdirParts fun part hPart hne => ?_
  have mem : part ∈ parts path := by
    rw [← hParts, parts, mem_filter]
    exact ⟨hPart, by simpa using hne⟩
  obtain ⟨hSlash, hShort⟩ := lookupParts_mem hPart
  exact ⟨⟨hne, hSlash, fun h => noDots.1 (h ▸ mem), fun h => noDots.2 (h ▸ mem)⟩, hShort⟩

end Files

/-- The last name is one, without slash and ended in its buffer, and `vfs_mkdir_p` makes no `.` or
`..`. -/
def TreeCall.Safe : TreeCall → Prop
  | .open' .. => True
  | .mkdir _ path => (splitPath path).2 ≠ [] ∧ (splitPath path).2 ≠ text "." ∧ (splitPath path).2 ≠ text ".."
  | .symlink _ uninit _ path =>
    ((symlinkSplit path).2 ≠ [] ∧ (symlinkSplit path).2 ≠ text "." ∧ (symlinkSplit path).2 ≠ text "..") ∧
      ((symlinkSplit path).2.length < maxName - 1 ∨ uninit = [])
  | .rename _ uninit _ new =>
    slash ∉ (renameSplit new).2 ∧ ((renameSplit new).2.length < maxName - 1 ∨ uninit = [])
  | .unlink .. => True
  | .mkdirP _ path => text "." ∉ parts path ∧ text ".." ∉ parts path

namespace Files

variable {s s' : Files}

lemma TreeOk.treeCall {fuel : Nat} {call : TreeCall} (h : TreeOk s) (safe : call.Safe)
    (run : s.treeCall fuel call = some s') : TreeOk s' := by
  cases call with
  | open' t path flags =>
    obtain ⟨o, hOpen, rfl⟩ := map_eq_some_iff.mp run
    exact h.sysOpen hOpen
  | mkdir t path =>
    exact h.sysMkdir ⟨safe.1, splitPath_noSlash path, safe.2.1, safe.2.2⟩ run
  | symlink t uninit target path => exact h.sysSymlink safe.1 safe.2 run
  | rename t uninit old new => exact h.sysRename safe.1 safe.2 run
  | unlink t path =>
    obtain ⟨o, hUnlink, rfl⟩ := map_eq_some_iff.mp run
    cases o with
    | none => exact h
    | some s₁ => exact h.sysUnlink hUnlink
  | mkdirP env path =>
    cases run
    exact h.vfsMkdirP safe

def pathOf (names : List Name) : Name := names.flatMap (slash :: ·)

lemma parts_pathOf {names : List Name} (good : ∀ n ∈ names, GoodName n ∧ n.length ≤ maxName - 1) :
    parts (pathOf names) = names := by
  induction names with
  | nil => rfl
  | cons n rest ih =>
    obtain ⟨hGood, hShort⟩ := good n mem_cons_self
    have hRest := ih fun other hOther => good other (mem_cons_of_mem n hOther)
    have hName := parts_name hGood.nonempty hGood.noSlash hShort
    change parts (slash :: (n ++ pathOf rest)) = _
    rw [parts_slash_cons]
    cases rest with
    | nil => simpa [pathOf] using hName
    | cons m rest =>
      have hSlash : pathOf (m :: rest) = slash :: (m ++ pathOf rest) := rfl
      rw [hSlash, parts_slash_cons] at hRest
      rw [hSlash, parts_append, hName, hRest]
      rfl

variable {v p : Nat}

lemma TreeOk.findChild_name (h : TreeOk s) (hv : v ∈ (s.node p).children) : s.findChild p (s.node v).name = some v := by
  rw [findChild, if_neg (by simp [h.dir p v hv])]
  cases hFind : (s.node p).children.find? fun c => (s.node c).name = (s.node v).name with
  | none =>
    have := find?_eq_none.mp hFind v hv
    simp at this
  | some w =>
    have hName : (s.node w).name = (s.node v).name := by simpa using find?_some hFind
    have symm : Std.Symm fun v w => (s.node v).name ≠ (s.node w).name := ⟨fun _ _ => Ne.symm⟩
    by_contra hne
    exact (h.siblings p).forall (mem_of_find?_eq_some hFind) hv (fun heq => hne (by rw [heq])) hName

/-- The names on the way to a vnode are its path, and a walk finds it. -/
structure LedTo (s : Files) (v : Nat) (names : List Name) : Prop where
  good : ∀ n ∈ names, GoodName n ∧ n.length ≤ maxName - 1
  walk : ∀ lookup, (s.node v).kind ≠ .symlink → s.walk (s.followLinks lookup 8) true rootNode names = some (some v)
  path : ∀ {fuel room below path}, s.pathLoop fuel room (some v) below = some path → path = pathOf names ++ below

lemma TreeOk.ledTo (h : TreeOk s) (reached : s.Reached v) : ∃ names, LedTo s v names := by
  induction reached with
  | root =>
    refine ⟨[], nofun, fun _ _ => rfl, fun {fuel room below path} run => ?_⟩
    cases fuel with
    | zero => cases run
    | succ fuel =>
      cases run
      rfl
  | @child p v _ mem ih =>
    obtain ⟨names, led⟩ := ih
    obtain ⟨hBorn, hRoot⟩ := h.born p v mem
    obtain ⟨hGood, hShort⟩ := h.names v hBorn hRoot
    refine ⟨names ++ [(s.node v).name], fun n hn => ?_, fun lookup hKind => ?_, fun {fuel room below path} run => ?_⟩
    · rcases mem_append.mp hn with hn | hn
      · exact led.good n hn
      · rw [mem_singleton.mp hn]
        exact ⟨hGood, hShort⟩
    · have above := led.walk lookup (by rw [h.dir p v mem]; nofun)
      rw [walk_append _ above, walk, if_neg, if_neg hGood.notDots, h.findChild_name mem]
      · simp only [Bool.not_true, Bool.false_eq_true, and_false, if_false]
        rw [followLinks, if_pos hKind]
        rfl
      · rintro (hEmpty | hDot)
        · exact hGood.nonempty (isEmpty_iff.mp hEmpty)
        · exact hGood.notDot hDot
    · cases fuel with
      | zero => cases run
      | succ fuel =>
        rw [pathLoop, if_neg hRoot] at run
        split at run
        · cases run
        rw [h.parent p v mem] at run
        rw [led.path run]
        simp [pathOf]

/-- The invariant of the tree makes it well formed. -/
lemma TreeOk.wellFormed (h : TreeOk s) : s.WellFormed where
  names v hv hRoot := (h.names v hv hRoot).1
  siblings := h.siblings
  lookup v cap path fuel reached hKind hCap hPath := by
    obtain ⟨names, led⟩ := h.ledTo reached
    have hStart : ∀ path, start none path = rootNode := fun path => by
      unfold start
      split <;> rfl
    rw [vfsLookupAt_succ, hStart]
    unfold vfsPathOf at hPath
    split_ifs at hPath with hRoot
    · cases hPath
      rw [take_of_length_le (by simpa using hCap.trans' (by decide))]
      subst hRoot
      rfl
    split at hPath
    · cases hPath
    rename_i path' hLoop
    split at hPath
    · cases hPath
    cases hPath
    rw [led.path hLoop, append_nil, parts_pathOf led.good]
    exact led.walk _ hKind

structure Grafted (s s' : Files) (p : Nat) : Prop where
  next : s.next ≤ s'.next
  name : ∀ q, q < s.next → (s'.node q).name = (s.node q).name
  kind : ∀ q, q < s.next → (s'.node q).kind = (s.node q).kind
  others : ∀ q, q < s.next → q ≠ p → s'.node q = s.node q

/-- Named vnodes below a directory that has none of their names. -/
lemma TreeOk.graft {f : Forest} (h : TreeOk s) (named : Named f) (hp : p < s.next)
    (hDir : f = .nil ∨ (s.node p).kind = .dir) (fresh : ∀ v ∈ (s.node p).children, (s.node v).name ∉ tops f) :
    TreeOk (s.graft p f) ∧ Grafted s (s.graft p f) p := by
  induction f generalizing s p with
  | nil => exact ⟨h, le_rfl, fun _ _ => rfl, fun _ _ => rfl, fun _ _ _ => rfl⟩
  | cons v child sibling ihChild ihSibling =>
    obtain ⟨fit, hNew, hBelow, namedChild, namedSibling⟩ := named
    have hDir := hDir.resolve_left nofun
    rw [graft]
    have attached := attach_attached hp.ne v
    have ok := h.attached attached hDir fit.1 fit.2 fun w hw hName => fresh w hw (by simp [tops, hName])
    -- what is below the new vnode
    obtain ⟨okChild, below⟩ := ihChild (p := s.next) ok namedChild (by rw [attached.next]; omega)
      (by rwa [attached.new.2.1]) (by simp [attached.new.2.2.2])
    have pBelow := below.others p (by rw [attached.next]; omega) hp.ne
    have nameBelow : ∀ q, q < s.next → ((graft s.next child (s.attach p v)).node q).name = (s.node q).name := by
      intro q hq
      rw [below.name q (by rw [attached.next]; omega), attached.name_of_ne hq.ne]
    -- what comes after it
    obtain ⟨okAll, after⟩ := ihSibling (p := p) okChild namedSibling (by have := below.next; rw [attached.next] at this; omega)
      (.inr (by rw [pBelow, attached.above.2.1, hDir])) fun w hw => by
        rw [pBelow, attached.above.2.2.2] at hw
        rcases mem_append.mp hw with hw | hw
        · rw [nameBelow w (h.born p w hw).1]
          exact fun hMem => fresh w hw (mem_cons_of_mem _ hMem)
        · rw [mem_singleton.mp hw, below.name s.next (by rw [attached.next]; omega), attached.new.1]
          exact hNew
    have hNext := below.next
    rw [attached.next] at hNext
    refine ⟨okAll, by have := after.next; omega, fun q hq => ?_, fun q hq => ?_, fun q hq hqp => ?_⟩
    · rw [after.name q (by omega), nameBelow q hq]
    · rw [after.kind q (by omega), below.kind q (by rw [attached.next]; omega), attached.kind_of_ne hq.ne]
    · rw [after.others q (by omega) hqp, below.others q (by rw [attached.next]; omega) hq.ne,
        attached.others q hq.ne hqp]

lemma onlyRoot_children (root : Vnode) (q : Nat) : ((onlyRoot root).node q).children = [] := by
  unfold onlyRoot
  dsimp only
  split <;> rfl

lemma treeOk_onlyRoot (root : Vnode) : TreeOk (onlyRoot root) := by
  have none : ∀ {q v}, v ∉ ((onlyRoot root).node q).children := by
    intro q v
    rw [onlyRoot_children]
    exact not_mem_nil
  refine ⟨Nat.one_pos, fun v hv => ?_, fun _ _ hv => absurd hv none, fun _ _ hv => absurd hv none,
    fun _ _ hv => absurd hv none, fun v hv hRoot => absurd (Nat.lt_one_iff.mp hv) hRoot, fun p => ?_⟩
  · have hRoot : v ≠ rootNode := by
      rintro rfl
      cases hv
    simp [onlyRoot, hRoot]
  · rw [onlyRoot_children]
    exact List.Pairwise.nil

/-- A named tree with its links satisfies the invariant. -/
lemma treeOk_ofTree {t : Tree} (h : TreeNamed t) : TreeOk (ofTree t) ∧ ((ofTree t).node rootNode).kind = .dir := by
  obtain ⟨hDir, named⟩ := h
  obtain ⟨ok, grafted⟩ := (treeOk_onlyRoot t.root).graft (p := rootNode) named Nat.one_pos (.inr hDir)
    (by simp [onlyRoot_children])
  exact ⟨ok, (grafted.kind rootNode Nat.one_pos).trans hDir⟩

/-- From the tree of `vfs_init` on, safe calls keep the tree well formed. -/
theorem wellFormed_of_reaches {env : Caller} {initrd : Bytes.Buffer} {total : Nat}
    (initrdSafe : InitrdSafe env initrd total) {s : Files}
    (run : Reaches (Guarded (fun _ (call : Nat × TreeCall) => call.2.Safe)
      fun s call s' => s.treeCall call.1 call.2 = some s') (ofTree (vfsInit env initrd total)) s) :
    s.WellFormed := by
  have ok : TreeOk s := run.invariant (treeOk_ofTree (treeNamed_vfsInit initrdSafe)).1 fun s call s' h hStep =>
    h.treeCall hStep.1 hStep.2
  exact ok.wellFormed

def rootTask : Task where
  fds := { fds := FdTask.fds0, size := FdTask.size_fds0, cwd := rootNode }
  cred := { uid := 0, euid := 0, gid := 0 }

lemma sysMkdir_root (s : Files) (path name : Name) (hSplit : splitPath path = ([slash], name)) :
    sysMkdir 1 s rootTask path = some ((s.vfsCreate (rootTask.caller s.now) rootNode name .dir).elim s (·.1)) := by
  have hLookup : s.vfsLookupAt 1 (some rootTask.fds.cwd) [slash] = some (some rootNode) := rfl
  have hPerm : rootTask.permOk (s.node rootNode) permW = true := rfl
  unfold sysMkdir
  rw [hSplit, hLookup]
  simp only [hPerm, Bool.not_true, Bool.false_eq_true, if_false]
  cases s.vfsCreate (rootTask.caller s.now) rootNode name .dir <;> rfl

theorem wellFormed_of_mkdir :
    ∃ s, (ofTree (vfsInit {} Bytes.zeros 0)).treeCall 1 (.mkdir rootTask [slash, 97]) = some s ∧ s.WellFormed := by
  have run := sysMkdir_root (ofTree (vfsInit {} Bytes.zeros 0)) [slash, 97] [97] rfl
  refine ⟨_, run, @wellFormed_of_reaches {} Bytes.zeros 0 nofun _
    (.tail (1, .mkdir rootTask [slash, 97]) .refl ⟨?_, run⟩)⟩
  change [97] ≠ [] ∧ [97] ≠ text "." ∧ [97] ≠ text ".."
  decide +kernel

/-- `sys_mkdir("/.")` makes a directory with the name `.` in the root directory. -/
theorem mkdir_dot_not_wellFormed :
    ∃ s, (ofTree (vfsInit {} Bytes.zeros 0)).treeCall 1 (.mkdir rootTask [slash, 46]) = some s ∧ ¬ s.WellFormed := by
  obtain ⟨ok, hDir⟩ := treeOk_ofTree (@treeNamed_vfsInit {} 0 Bytes.zeros nofun)
  generalize ofTree (vfsInit {} Bytes.zeros 0) = s at *
  have hDot : text "." = [46] := by decide +kernel
  have hNone : s.findChild rootNode [46] = none := by
    rw [findChild, if_neg (by simp [hDir]), find?_eq_none]
    intro v hv
    obtain ⟨hBorn, hRoot⟩ := ok.born rootNode v hv
    simpa [hDot] using (ok.names v hBorn hRoot).1.notDot
  have run := sysMkdir_root s [slash, 46] [46] rfl
  rw [vfsCreate, if_neg (by simp [hDir, hNone])] at run
  refine ⟨_, run, fun h => ?_⟩
  have good := h.names s.next (Nat.lt_succ_self _) ok.pos.ne'
  refine good.notDot ?_
  exact congrArg (·.name) (setNode_self _)

end Files

end YartOS.Vfs
