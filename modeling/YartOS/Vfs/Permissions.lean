import YartOS.Vfs.Lookup
import YartOS.Sched.Credentials
import Mathlib.Data.List.TakeWhile

/-! The permission checks of the native calls on files against the calls of the Linux ABI. -/
namespace YartOS.Vfs

open Fs Sched List

def permR : Nat := 4
def permW : Nat := 2
def permSticky : Nat := 0o1000
def aclMax : Nat := 8

def oWronly : Nat := 0x1
def oRdwr : Nat := 0x2
def oCreat : Nat := 0x40
def oTrunc : Nat := 0x200
def oAppend : Nat := 0x400

structure Task where
  fds : FdTask
  cred : Cred
  umask : Nat := 0

def Task.caller (t : Task) (now : Nat) : Caller where
  euid := t.cred.euid.toNat
  egid := t.cred.gid.toNat
  umask := t.umask
  now := now

/-- `sched_current_groups`: the primary group and the others, eight at most. -/
def Task.groups (t : Task) : List Nat :=
  let supp := (ofFn t.cred.suppGids).take t.cred.suppGidCount
  ((t.cred.gid :: supp.filter (· ≠ t.cred.gid)).take 8).map (·.toNat)

/-- An entry of the access control list for the user goes before the mode bits. -/
def vfsCheckPerm (v : Node) (euid : Nat) (groups : List Nat) (want : Nat) : Bool :=
  if euid = 0 then true
  else
    match (v.acl.take aclMax).find? fun entry => entry.1 = euid with
    | some (_, mask) => mask &&& want = want
    | none =>
      let bits :=
        if v.uid = euid then v.mode >>> 6 &&& 7
        else if groups.contains v.gid then v.mode >>> 3 &&& 7
        else v.mode &&& 7
      bits &&& want = want

def Task.permOk (t : Task) (v : Node) (want : Nat) : Bool := vfsCheckPerm v t.cred.euid.toNat t.groups want

structure Outcome where
  files : Files
  task : Task
  fd : Option Nat := none
  created : Bool := false
  truncated : Bool := false

variable (fuel : Nat) (s : Files) (t : Task)

def ptyAlloc : Option Files :=
  (s.ptys.findIdx? fun pty => !pty.inUse).map fun i =>
    { s with ptys := s.ptys.set i { inUse := true } }

/-- The number at the start of the name of a slave, in 32 bits. -/
def ptyNumber : Name → Nat → Nat
  | c :: rest, id => if 48 ≤ c ∧ c ≤ 57 then ptyNumber rest ((id * 10 + (c.toNat - 48)) % 2 ^ 32) else id
  | [], id => id

def ptySlaveOpen (name : Name) : Bool :=
  match s.ptys[ptyNumber name 0]? with
  | some pty => pty.inUse && !pty.locked
  | none => false

/-- Device paths: `none` for other paths, `some none` if refused. -/
def openDevice (path : Name) : Option (Option Files) :=
  if path ∈ [text "/dev/null", text "/dev/zero", text "/dev/urandom", text "/dev/random",
      text "/dev/tty", text "/dev/console"] then some (some s)
  else if path = text "/dev/ptmx" then some (ptyAlloc s)
  else if path.take 9 = text "/dev/pts/" then
    some (if ptySlaveOpen s (path.drop 9) then some s else none)
  else none

def splitPath (path : Name) : Name × Name :=
  if slash ∈ path then
    let base := (path.reverse.takeWhile (· ≠ slash)).reverse
    let dir := (path.reverse.dropWhile (· ≠ slash)).tail.reverse
    (if dir.isEmpty then [slash] else dir, base.take (maxName - 1))
  else (text ".", path.take (maxName - 1))

/-- The vnode to open, or a new one in a writable directory, and whether it is new. -/
def findOrCreate (base : Nat) (path : Name) (flags : Nat) : Option (Files × Option (Nat × Bool)) :=
  match s.vfsLookupAt fuel (some base) path with
  | none => none
  | some (some v) => some (s, some (v, false))
  | some none =>
    if flags &&& oCreat = 0 then some (s, none)
    else
      match s.vfsLookupAt fuel (some base) (splitPath path).1 with
      | none => none
      | some none => some (s, none)
      | some (some d) =>
        if !t.permOk (s.node d) permW then some (s, none)
        else
          match s.vfsCreate (t.caller s.now) d (splitPath path).2 .file with
          | none => some (s, none)
          | some (s', v) => some (s', some (v, true))

def openNeed (flags : Nat) : Nat :=
  (if flags &&& 3 ≠ oWronly then permR else 0) |||
    (if flags &&& (oWronly ||| oRdwr ||| oTrunc ||| oAppend) ≠ 0 then permW else 0)

def finishOpen (k v : Nat) (created : Bool) (flags : Nat) : Outcome :=
  let truncates := (s.node v).kind = .file ∧ flags &&& oTrunc ≠ 0
  { files := if truncates then s.vfsTruncate v else s
    task := { t with fds := t.fds.setFd k (.node v) }
    fd := some k
    created := created
    truncated := truncates }

/-- The result is `none` when a lookup does not return. -/
def sysOpen (path : Name) (flags : Nat) : Option Outcome :=
  match t.fds.allocFdFrom 0 with
  | none => some { files := s, task := t }
  | some k =>
    match openDevice s path with
    | some none => some { files := s, task := t }
    | some (some s') =>
      some { files := s', task := { t with fds := t.fds.setFd k .device }, fd := some k }
    | none =>
      match findOrCreate fuel s t t.fds.cwd path flags with
      | none => none
      | some (s', none) => some { files := s', task := t }
      | some (s', some (v, created)) =>
        if openNeed flags ≠ 0 ∧ !t.permOk (s'.node v) (openNeed flags) then
          some { files := s', task := t, created := created }
        else some (finishOpen s' t k v created flags)

def linuxBase (path : Name) : Nat :=
  if path.head? = some slash then rootNode else t.fds.cwd

def setNewMode (v : Nat) (created : Bool) (mode : Nat) : Files :=
  if created ∧ mode ≠ 0 then s.setNode v { s.node v with mode := mode &&& 0o777 } else s

/-- `linux_openat` with `AT_FDCWD`: mode of the call, and no check of the vnode. -/
def linuxOpenat (path : Name) (flags mode : Nat) : Option Outcome :=
  match t.fds.allocFdFrom 0 with
  | none => some { files := s, task := t }
  | some k =>
    match openDevice s path with
    | some none => some { files := s, task := t }
    | some (some s') =>
      some { files := s', task := { t with fds := t.fds.setFd k .device }, fd := some k }
    | none =>
      match findOrCreate fuel s t (linuxBase t path) path flags with
      | none => none
      | some (s', none) => some { files := s', task := t }
      | some (s', some (v, created)) =>
        some (finishOpen (setNewMode s' v created mode) t k v created flags)

/-- In a sticky directory only root and the owners may remove. -/
def stickyAllows (s : Files) (t : Task) (p v : Nat) : Bool :=
  (s.node p).mode &&& permSticky = 0 ∨ t.cred.euid = 0 ∨ t.cred.euid.toNat = (s.node p).uid ∨
    t.cred.euid.toNat = (s.node v).uid

/-- `none` when the lookup does not return, `some none` for a refusal. -/
def sysUnlink (fuel : Nat) (s : Files) (t : Task) (path : Name) : Option (Option Files) :=
  match s.vfsLookupAtNofollow fuel (some t.fds.cwd) path with
  | none => none
  | some none => some none
  | some (some v) =>
    match (s.node v).parent with
    | none => some none
    | some p =>
      if !t.permOk (s.node p) permW ∨ !stickyAllows s t p v then some none
      else some (s.vfsUnlink v)

/-- `linux_unlinkat` with `AT_FDCWD`. -/
def linuxUnlinkat (fuel : Nat) (s : Files) (t : Task) (path : Name) (flags : Nat) : Option (Option Files) :=
  match s.vfsLookupAtNofollow fuel (some (linuxBase t path)) path with
  | none => none
  | some none => some none
  | some (some v) =>
    if flags &&& 0x200 ≠ 0 ∧ (s.node v).kind ≠ .dir then some none
    else some (s.vfsUnlink v)

def chmodNode (s : Files) (t : Task) (v mode : Nat) : Option Files :=
  if t.cred.euid ≠ 0 ∧ (s.node v).uid ≠ t.cred.euid.toNat then none
  else some (s.setNode v { s.node v with mode := mode &&& 0o777, dirty := true })

def sysChmod (fuel : Nat) (s : Files) (t : Task) (path : Name) (mode : Nat) : Option (Option Files) :=
  match s.vfsLookupAt fuel (some t.fds.cwd) path with
  | none => none
  | some none => some none
  | some (some v) => some (chmodNode s t v mode)

def linuxFchmod (s : Files) (t : Task) (fd mode : Nat) : Option Files :=
  match t.fds.fdGet fd with
  | some (.node v) => some (s.setNode v { s.node v with mode := mode &&& 0o777 })
  | _ => none

variable (path : Name) (flags mode fd : Nat)

/-- `linux_openat` opens, creates or truncates only if `sys_open` does. -/
def OpenRespected : Prop :=
  ∀ o, linuxOpenat fuel s t path flags mode = some o → ∃ o', sysOpen fuel s t path flags = some o' ∧
    (o.fd.isSome → o'.fd.isSome) ∧ (o.created → o'.created) ∧ (o.truncated → o'.truncated)

/-- `linux_unlinkat` removes a vnode only if `sys_unlink` does. -/
def UnlinkRespected : Prop :=
  ∀ s', linuxUnlinkat fuel s t path flags = some (some s') → ∃ s'', sysUnlink fuel s t path = some (some s'')

/-- `linux_fchmod` sets a mode only if `sys_chmod` on that vnode does. -/
def FchmodRespected : Prop :=
  ∀ s' v, linuxFchmod s t fd mode = some s' → t.fds.fdGet fd = some (.node v) →
    ∃ s'', chmodNode s t v mode = some s'' ∧ ∀ fuel path, s.vfsLookupAt fuel (some t.fds.cwd) path = some (some v) →
        sysChmod fuel s t path mode = some (some s'')

def OpenAllowed : Prop :=
  ∀ s' v created, (t.fds.allocFdFrom 0).isSome → openDevice s path = none →
    findOrCreate fuel s t t.fds.cwd path flags = some (s', some (v, created)) →
    openNeed flags = 0 ∨ t.permOk (s'.node v) (openNeed flags) = true

/-- The task may write the directory, and the sticky bit allows it. -/
def UnlinkAllowed : Prop :=
  ∀ v p, s.vfsLookupAtNofollow fuel (some t.fds.cwd) path = some (some v) →
    (s.node v).parent = some p → (s.vfsUnlink v).isSome →
    (flags &&& 0x200 = 0 ∨ (s.node v).kind = .dir) →
    t.permOk (s.node p) permW = true ∧ stickyAllows s t p v = true

def FchmodAllowed : Prop := ∀ v, t.fds.fdGet fd = some (.node v) → t.cred.euid = 0 ∨ (s.node v).uid = t.cred.euid.toNat

variable {fuel s t path flags mode fd}

lemma vfsLookupAt_linuxBase (dir : Name) (h : dir.head? = some slash ↔ path.head? = some slash) :
    s.vfsLookupAt fuel (some (linuxBase t path)) dir = s.vfsLookupAt fuel (some t.fds.cwd) dir := by
  cases fuel with
  | zero => rfl
  | succ fuel =>
    have : linuxBase t path = if dir.head? = some slash then rootNode else t.fds.cwd := by simp [linuxBase, h]
    rw [Files.vfsLookupAt, Files.vfsLookupAt, this, Files.lookupFrom_absolute]

/-- A path with a slash: what is before the last one, and the rest. -/
lemma eq_around_last_slash (h : slash ∈ path) : path = (path.reverse.dropWhile (· ≠ slash)).tail.reverse ++
      slash :: (path.reverse.takeWhile (· ≠ slash)).reverse := by
  have whole := takeWhile_append_dropWhile (p := (· ≠ slash)) (l := path.reverse)
  obtain ⟨c, rest, hDrop⟩ : ∃ c rest, path.reverse.dropWhile (· ≠ slash) = c :: rest := by
    cases hDrop : path.reverse.dropWhile (· ≠ slash) with
    | nil =>
      rw [dropWhile_eq_nil_iff] at hDrop
      have := hDrop slash (by simpa using h)
      simp at this
    | cons c rest => exact ⟨c, rest, rfl⟩
  have hc : c = slash := by
    have := head?_dropWhile_not (· ≠ slash) path.reverse
    rw [hDrop] at this
    simpa using this
  rw [hDrop, hc] at whole
  rw [hDrop, tail_cons]
  have := congrArg reverse whole
  rw [reverse_append, reverse_cons, reverse_reverse, append_assoc] at this
  exact this.symm

/-- The directory of an absolute path is absolute, that of another one is not. -/
lemma splitPath_head (path : Name) : (splitPath path).1.head? = some slash ↔ path.head? = some slash := by
  unfold splitPath
  split
  · next h =>
    have around := eq_around_last_slash h
    generalize (path.reverse.dropWhile (· ≠ slash)).tail.reverse = dir at around
    rw [around]
    cases dir with
    | nil => rfl
    | cons c dir => rfl
  · next h =>
    have dot : (text ".").head? ≠ some slash := by decide
    exact iff_of_false dot fun hHead => h (mem_of_mem_head? hHead)

lemma findOrCreate_linuxBase : findOrCreate fuel s t (linuxBase t path) path flags =
      findOrCreate fuel s t t.fds.cwd path flags := by
  unfold findOrCreate
  rw [vfsLookupAt_linuxBase path Iff.rfl, vfsLookupAt_linuxBase _ (splitPath_head path)]

/-- The two calls differ only in the check of the vnode that was found or made. -/
lemma openRespected_iff : OpenRespected fuel s t path flags mode ↔ OpenAllowed fuel s t path flags := by
  unfold OpenRespected OpenAllowed linuxOpenat sysOpen
  rw [findOrCreate_linuxBase]
  cases hFd : t.fds.allocFdFrom 0 with
  | none => simp
  | some k =>
    cases hDevice : openDevice s path with
    | some device => cases device <;> simp
    | none =>
      cases hFind : findOrCreate fuel s t t.fds.cwd path flags with
      | none => simp
      | some result =>
        obtain ⟨s', found⟩ := result
        cases found with
        | none => simp
        | some opened =>
          obtain ⟨v, created⟩ := opened
          simp only
          constructor
          · rintro h _ _ _ - - ⟨⟩
            obtain ⟨o', ho', hFd, -⟩ := h _ rfl
            by_contra hNot
            rw [if_pos (by simpa using hNot)] at ho'
            cases ho'
            exact absurd (hFd rfl) (by simp)
          rintro h _ ⟨⟩
          have allowed := h s' v created rfl trivial rfl
          refine ⟨finishOpen s' t k v created flags, if_neg ?_, fun _ => rfl, id, ?_⟩
          · rintro ⟨hNeed, hPerm⟩
            rcases allowed with allowed | allowed
            · exact hNeed allowed
            · simp [allowed] at hPerm
          · simp only [finishOpen]
            unfold setNewMode
            split
            · simp [Files.setNode]
            · exact id

lemma unlinkRespected_iff : UnlinkRespected fuel s t path flags ↔ UnlinkAllowed fuel s t path flags := by
  have lookup : s.vfsLookupAtNofollow fuel (some (linuxBase t path)) path =
      s.vfsLookupAtNofollow fuel (some t.fds.cwd) path := s.lookupFrom_absolute _ _ _ _
  unfold UnlinkRespected UnlinkAllowed linuxUnlinkat sysUnlink
  rw [lookup]
  cases hFind : s.vfsLookupAtNofollow fuel (some t.fds.cwd) path with
  | none => simp
  | some found =>
    cases found with
    | none => simp
    | some v =>
      simp only
      constructor
      · rintro h _ p ⟨⟩ hParent hUnlink hFlags
        obtain ⟨s', hs'⟩ := Option.isSome_iff_exists.mp hUnlink
        rw [if_neg (by tauto), hParent] at h
        obtain ⟨s'', hs''⟩ := h s' (congrArg some hs')
        simp only at hs''
        by_contra hNot
        rw [if_pos (by simpa [or_iff_not_imp_left] using hNot)] at hs''
        cases hs''
      · intro h s' hs'
        split at hs'
        · cases hs'
        next hFlags =>
        have hUnlink := Option.some_inj.mp hs'
        cases hParent : (s.node v).parent with
        | none => simp [Files.vfsUnlink, hParent] at hUnlink
        | some p =>
          obtain ⟨hPerm, hSticky⟩ := h v p rfl hParent (by simp [hUnlink]) (by tauto)
          exact ⟨s', by simp [hPerm, hSticky, hUnlink]⟩

lemma fchmodRespected_iff : FchmodRespected s t mode fd ↔ FchmodAllowed s t fd := by
  unfold FchmodRespected FchmodAllowed linuxFchmod
  constructor
  · intro h v hFd
    rw [hFd] at h
    obtain ⟨s'', hs'', -⟩ := h _ v rfl rfl
    by_contra hNot
    rw [chmodNode, if_pos (not_or.mp hNot)] at hs''
    cases hs''
  · intro h s' v _ hFd
    have allowed := h v hFd
    refine ⟨_, if_neg (by tauto), fun fuel path hFind => ?_⟩
    rw [sysChmod, hFind]
    exact congrArg some (if_neg (by tauto))

/-- Native checks hold for the Linux calls iff the caller has the access they check. -/
theorem abis_agree_iff (fuel : Nat) (s : Files) (t : Task) (path : Name) (flags mode : Nat)
    (victim : Name) (atFlags : Nat) (fd newMode : Nat) :
    (OpenRespected fuel s t path flags mode ∧ UnlinkRespected fuel s t victim atFlags ∧
      FchmodRespected s t newMode fd) ↔
    (OpenAllowed fuel s t path flags ∧ UnlinkAllowed fuel s t victim atFlags ∧ FchmodAllowed s t fd) :=
  and_congr openRespected_iff (and_congr unlinkRespected_iff fchmodRespected_iff)

def secretFile : Files where
  node := fun v => if v = 0 then { name := text "/", kind := .dir, mode := 0o755, children := [1] }
    else { name := [102], kind := .file, mode := 0o600, parent := some 0 }
  next := 2

def ordinaryTask : Task where
  fds := { fds := FdTask.fds0, size := FdTask.size_fds0, cwd := 0 }
  cred := { uid := 1000, euid := 1000, gid := 1000 }

/-- `linux_openat` opens `/f` and `sys_open` does not; the Linux calls also remove it and make it
readable. -/
theorem linux_calls_unchecked : ¬ OpenRespected 1 secretFile ordinaryTask [47, 102] 0 0 ∧
    ¬ UnlinkRespected 1 secretFile ordinaryTask [47, 102] 0 ∧
    ¬ FchmodRespected secretFile { ordinaryTask with fds := ordinaryTask.fds.setFd 3 (.node 1) } 0o644 3 := by
  rw [openRespected_iff, unlinkRespected_iff, fchmodRespected_iff]
  refine ⟨fun h => ?_, fun h => ?_, fun h => ?_⟩
  · have := h secretFile 1 false (by decide) (by decide) rfl
    revert this
    decide
  · have := h 1 0 rfl rfl rfl (by decide)
    revert this
    decide
  · have := h 1 rfl
    revert this
    decide

end YartOS.Vfs
