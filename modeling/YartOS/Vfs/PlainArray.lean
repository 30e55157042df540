import YartOS.Vfs.Contents
import YartOS.Lib.Runs

/-! File contents as an unbounded array of bytes that `vfs_read`, `vfs_write` and `vfs_truncate`
work on. -/
namespace YartOS.Vfs.Contents

open Bytes Fs Runs

/-- An unbounded array of bytes that is zero from `length` on. -/
structure PlainArray where
  length : Nat := 0
  bytes : Buffer := zeros
  blank : ∀ i, length ≤ i → bytes i = 0 := by intros; rfl

namespace PlainArray

def write (a : PlainArray) (buf : Buffer) (off n : Nat) : PlainArray where
  length := max a.length (off + n)
  bytes := copyTo a.bytes off buf n
  blank := by
    intro i hi
    unfold copyTo
    rw [if_neg (by omega)]
    exact a.blank i (by omega)

def truncate (a : PlainArray) (n : Nat) : PlainArray where
  length := n
  bytes := fun i => if i < n then a.bytes i else 0
  blank := fun i hi => if_neg (by omega)

def available (a : PlainArray) (off n : Nat) : Nat := min n (a.length - off)

end PlainArray

/-- The buffer of the file holds the array. -/
structure Represents (v : FileNode) (a : PlainArray) : Prop where
  size : v.size = a.length
  fits : v.size ≤ v.cap
  bytes : ∀ i < v.size, v.data i = a.bytes i

inductive Request where
  | read (off n : Nat)
  | write (buf : Buffer) (off n : Nat)
  | truncate (n : Nat)

structure Call where
  request : Request
  heap : Heap
  now : Nat

structure Answer where
  result : Int
  moved : Buffer := zeros

def perform (v : FileNode) (c : Call) : Except Fault (Answer × FileNode) :=
  match c.request with
  | .read off n => (vfsRead v off n).map fun r => (⟨r.1, r.2⟩, v)
  | .write buf off n => (vfsWrite c.heap c.now v buf off n).map fun r => (⟨r.1, zeros⟩, r.2)
  | .truncate n => (vfsTruncate c.heap c.now v n).map fun r => (⟨r.1, zeros⟩, r.2)

def Request.effect (a : PlainArray) : Request → PlainArray
  | .read _ _ => a
  | .write buf off n => a.write buf off n
  | .truncate n => a.truncate n

/-- The answer to a granted request: bytes moved, and those read. -/
def Request.Answered (a : PlainArray) (answer : Answer) : Request → Prop
  | .read off n => answer.result = a.available off n ∧ ∀ i < a.available off n, answer.moved i = a.bytes (off + i)
  | .write _ _ n => answer.result = n
  | .truncate _ => answer.result = 0

/-- The call stays in the buffer; on success it does what the array does, otherwise nothing. -/
def Faithful (v : FileNode) (a : PlainArray) (c : Call) : Prop :=
  perform v c ≠ .error .outside ∧ ∀ answer v', perform v c = .ok (answer, v') → if 0 ≤ answer.result then
        c.request.Answered a answer ∧ Represents v' (c.request.effect a)
      else v' = v

/-- Offsets and lengths do not wrap, and the number of bytes moved fits an `int`. -/
def Request.Sound (a : PlainArray) : Request → Prop
  | .read off n => (off < a.length → off + n < wordSize) ∧ a.available off n < 2 ^ 31
  | .write _ off n => off + n < wordSize ∧ n < 2 ^ 31
  | .truncate _ => True

variable {v v' : FileNode} {a : PlainArray} {c : Call} {heap : Heap} {buf : Buffer}
  {off n need now : Nat}

lemma toInt_eq (small : n < 2 ^ 31) : toInt n = n := by
  unfold toInt
  split_ifs <;> omega

lemma touch_inside {cap lo len : Nat} (inside : lo + len ≤ cap) : touch cap lo len = .ok () :=
  if_pos (.inr inside)

structure Grown (need : Nat) (v v' : FileNode) : Prop where
  size : v'.size = v.size
  room : need ≤ v'.cap
  fits : v'.size ≤ v'.cap
  bytes : ∀ i < v.size, v'.data i = v.data i

lemma le_of_capLoop {fuel c newcap : Nat} (h : capLoop need fuel c = some newcap) : need ≤ newcap := by
  induction fuel generalizing c with
  | zero =>
    rw [capLoop] at h
    split_ifs at h with hShort
    cases h
    omega
  | succ fuel ih =>
    rw [capLoop] at h
    split_ifs at h with hShort
    · exact ih h
    · cases h
      omega

/-- Where `ensure_cap` comes back it has made room, or left the file alone. -/
lemma ensureCap_spec (fits : v.size ≤ v.cap) :
    ensureCap heap v need = .error .endless ∨ ensureCap heap v need = .ok (false, v) ∨
      ∃ v', ensureCap heap v need = .ok (true, v') ∧ Grown need v v' := by
  by_cases enough : need ≤ v.cap
  · exact .inr (.inr ⟨v, if_pos enough, rfl, enough, fits, fun _ _ => rfl⟩)
  unfold ensureCap
  rw [if_neg enough]
  cases hLoop : capLoop need 64 (startCap v.cap) with
  | none => exact .inl rfl
  | some newcap =>
    have hRoom := le_of_capLoop hLoop
    simp only
    cases heap newcap with
    | none => exact .inr (.inl rfl)
    | some nb =>
      simp only [touch_inside (show 0 + v.size ≤ v.cap by omega), touch_inside (show 0 + v.size ≤ newcap by omega)]
      refine .inr (.inr ⟨_, rfl, rfl, hRoom, ?_, fun i hi => ?_⟩)
      · change v.size ≤ newcap
        omega
      · exact if_pos ⟨Nat.zero_le i, by omega⟩

/-- The gap up to `off` becomes zero; the bytes in front of it stay. -/
lemma fillGap_spec (grown : Grown need v v') (room : off ≤ need) :
    ∃ v'', fillGap v' off = .ok v'' ∧ v''.size = v.size ∧ v''.cap = v'.cap ∧
      ∀ i < max v.size off, v''.data i = if i < v.size then v.data i else 0 := by
  have hRoom := grown.room
  unfold fillGap
  by_cases gap : v'.size < off
  · rw [if_pos gap, touch_inside (show v'.size + (off - v'.size) ≤ v'.cap by omega)]
    refine ⟨_, rfl, grown.size, rfl, fun i hi => ?_⟩
    change copyTo v'.data v'.size zeros (off - v'.size) i = _
    have hSize := grown.size
    unfold copyTo
    by_cases old : i < v.size
    · rw [if_neg (by omega), if_pos old, grown.bytes i old]
    · rw [if_pos (by omega), if_neg old]
      rfl
  · rw [if_neg gap]
    have hSize := grown.size
    refine ⟨v', rfl, grown.size, rfl, fun i hi => ?_⟩
    have old : i < v.size := by omega
    rw [if_pos old, grown.bytes i old]

/-- The bytes are stored in a buffer with room for them. -/
lemma storeAt_spec (represents : Represents v a) (grown : Grown (off + n) v v') :
    ∃ v'', storeAt v' buf off n (off + n) now = .ok (toInt n, v'') ∧ Represents v'' (a.write buf off n) := by
  obtain ⟨v₂, hFill, hSize, hCap, hBytes⟩ := fillGap_spec grown (Nat.le_add_right off n)
  have hRoom := grown.room
  have hOld := represents.size
  have hFits := grown.fits
  have hSame := grown.size
  have hNew : (if v₂.size < off + n then off + n else v₂.size) = max a.length (off + n) := by split_ifs <;> omega
  unfold storeAt
  rw [hFill]
  change ∃ v'', (touch v₂.cap off n >>= fun _ => _) = _ ∧ _
  rw [touch_inside (show off + n ≤ v₂.cap by omega), hNew]
  refine ⟨_, rfl, rfl, ?_, fun i hi => ?_⟩
  · change max a.length (off + n) ≤ v₂.cap
    omega
  change i < max a.length (off + n) at hi
  change copyTo v₂.data off buf n i = copyTo a.bytes off buf n i
  unfold copyTo
  by_cases written : off ≤ i ∧ i < off + n
  · rw [if_pos written, if_pos written]
  · rw [if_neg written, if_neg written, hBytes i (by omega)]
    by_cases old : i < v.size
    · rw [if_pos old, represents.bytes i old]
    · rw [if_neg old, a.blank i (by omega)]

section

variable (represents : Represents v a) (hFile : v.kind = .file)

include represents hFile

/-- A write that does not wrap. -/
lemma vfsWrite_spec (noWrap : off + n < wordSize) : vfsWrite heap now v buf off n = .error .endless ∨
      vfsWrite heap now v buf off n = .ok (-1, v) ∨
      ∃ v', vfsWrite heap now v buf off n = .ok (toInt n, v') ∧ Represents v' (a.write buf off n) := by
  unfold vfsWrite
  rw [if_neg (not_not.mpr hFile), Nat.mod_eq_of_lt noWrap]
  rcases @ensureCap_spec v heap (off + n) represents.fits with h | h | ⟨v₁, h, grown⟩
  · rw [h]
    exact .inl rfl
  · rw [h]
    exact .inr (.inl rfl)
  · rw [h]
    exact .inr (.inr (storeAt_spec represents grown))

lemma vfsTruncate_spec : vfsTruncate heap now v n = .error .endless ∨ vfsTruncate heap now v n = .ok (-1, v) ∨
      ∃ v', vfsTruncate heap now v n = .ok (0, v') ∧ Represents v' (a.truncate n) := by
  have hOld := represents.size
  have hFits := represents.fits
  unfold vfsTruncate
  rw [if_neg (not_not.mpr hFile)]
  by_cases longer : v.size < n
  · rw [if_pos longer]
    rcases @ensureCap_spec v heap n represents.fits with h | h | ⟨v₁, h, grown⟩
    · rw [h]
      exact .inl rfl
    · rw [h]
      exact .inr (.inl rfl)
    obtain ⟨v₂, hFill, -, hCap, hBytes⟩ := fillGap_spec grown le_rfl
    have hRoom := grown.room
    rw [h]
    change _ ∨ _ ∨ ∃ v', (fillGap v₁ n >>= fun v => _) = _ ∧ _
    rw [hFill]
    refine .inr (.inr ⟨_, rfl, rfl, ?_, fun i hi => ?_⟩)
    · change n ≤ v₂.cap
      omega
    change i < n at hi
    change v₂.data i = if i < n then a.bytes i else 0
    rw [if_pos hi, hBytes i (by omega)]
    by_cases old : i < v.size
    · rw [if_pos old, represents.bytes i old]
    · rw [if_neg old, a.blank i (by omega)]
  · rw [if_neg longer]
    refine .inr (.inr ⟨_, rfl, rfl, ?_, fun i hi => ?_⟩)
    · change n ≤ v.cap
      omega
    · change i < n at hi
      change v.data i = if i < n then a.bytes i else 0
      rw [if_pos hi, represents.bytes i (by omega)]

/-- A read that does not wrap moves what there is. -/
lemma vfsRead_spec (noWrap : off < a.length → off + n < wordSize) :
    ∃ moved, vfsRead v off n = .ok (toInt (a.available off n), moved) ∧
      ∀ i < a.available off n, moved i = a.bytes (off + i) := by
  have hSize := represents.size
  have hFits := represents.fits
  unfold vfsRead PlainArray.available
  rw [if_neg (not_not.mpr hFile)]
  by_cases past : v.size ≤ off
  · rw [if_pos past]
    refine ⟨zeros, ?_, fun i hi => ?_⟩
    · rw [show min n (a.length - off) = 0 by omega]
      rfl
    · omega
  · have hCount : (if v.size < off + n then v.size - off else n) = min n (a.length - off) := by split_ifs <;> omega
    rw [if_neg past, Nat.mod_eq_of_lt (noWrap (by omega)), hCount]
    simp only [touch_inside (show off + min n (a.length - off) ≤ v.cap by omega)]
    exact ⟨_, rfl, fun i hi => represents.bytes (off + i) (by omega)⟩

end

lemma perform_not_file (hKind : v.kind ≠ .file) : ∃ moved, perform v c = .ok (⟨-1, moved⟩, v) := by
  unfold perform
  cases c.request with
  | read off n => exact ⟨zeros, by simp [vfsRead, if_pos hKind]; rfl⟩
  | write buf off n => exact ⟨zeros, by simp [vfsWrite, if_pos hKind]; rfl⟩
  | truncate n => exact ⟨zeros, by simp [vfsTruncate, if_pos hKind]; rfl⟩

/-- A sound call never returns, fails without a change, or does what the array does. -/
lemma perform_spec (represents : Represents v a) (sound : c.request.Sound a) :
    perform v c = .error .endless ∨ (∃ moved, perform v c = .ok (⟨-1, moved⟩, v)) ∨
      ∃ answer v', perform v c = .ok (answer, v') ∧ 0 ≤ answer.result ∧
        c.request.Answered a answer ∧ Represents v' (c.request.effect a) := by
  by_cases hFile : v.kind = .file
  · unfold perform
    cases hRequest : c.request with
    | read off n =>
      rw [hRequest] at sound
      obtain ⟨moved, h, hMoved⟩ := vfsRead_spec represents hFile sound.1
      rw [toInt_eq sound.2] at h
      simp only [h]
      exact .inr (.inr ⟨_, v, rfl, Int.natCast_nonneg _, ⟨rfl, hMoved⟩, represents⟩)
    | write buf off n =>
      rw [hRequest] at sound
      rcases @vfsWrite_spec v a c.heap buf off n c.now represents hFile sound.1 with
        h | h | ⟨v', h, after⟩
      · simp only [h]
        exact .inl rfl
      · simp only [h]
        exact .inr (.inl ⟨_, rfl⟩)
      · rw [toInt_eq sound.2] at h
        simp only [h]
        exact .inr (.inr ⟨_, v', rfl, Int.natCast_nonneg _, rfl, after⟩)
    | truncate n =>
      rcases @vfsTruncate_spec v a c.heap n c.now represents hFile with h | h | ⟨v', h, after⟩
      · simp only [h]
        exact .inl rfl
      · simp only [h]
        exact .inr (.inl ⟨_, rfl⟩)
      · simp only [h]
        exact .inr (.inr ⟨_, v', rfl, le_rfl, rfl, after⟩)
  · exact .inr (.inl (perform_not_file hFile))

lemma faithful_of_sound (represents : Represents v a) (sound : c.request.Sound a) : Faithful v a c := by
  rcases perform_spec represents sound with h | ⟨moved, h⟩ | ⟨answer, v', h, hResult, hAnswered, after⟩
  · rw [Faithful, h]
    exact ⟨nofun, nofun⟩
  · rw [Faithful, h]
    refine ⟨nofun, ?_⟩
    intro answer v' hReturn
    cases hReturn
    rw [if_neg (show ¬ (0 : Int) ≤ -1 by decide)]
  · rw [Faithful, h]
    refine ⟨nofun, ?_⟩
    intro answer' v'' hReturn
    cases hReturn
    rw [if_pos hResult]
    exact ⟨hAnswered, after⟩

def contentsOf (v : FileNode) : PlainArray where
  length := v.size
  bytes := fun i => if i < v.size then v.data i else 0
  blank := fun i hi => if_neg (by omega)

structure Tracked where
  file : FileNode
  array : PlainArray

/-- A call that returns; the array takes part when it returns success. -/
def Step (s : Tracked) (c : Call) (s' : Tracked) : Prop :=
  ∃ answer, perform s.file c = .ok (answer, s'.file) ∧
    s'.array = if 0 ≤ answer.result then c.request.effect s.array else s.array

def SoundCall (s : Tracked) (c : Call) : Prop := c.request.Sound s.array

lemma represents_of_step {s s' : Tracked} (represents : Represents s.file s.array)
    (last : Guarded SoundCall Step s c s') : Represents s'.file s'.array := by
  obtain ⟨sound, answer, hCall, hArray⟩ := last
  have faithful := (faithful_of_sound represents sound).2 answer s'.file hCall
  rw [hArray]
  split_ifs at faithful ⊢ with hResult
  · exact faithful.2
  · rw [faithful]
    exact represents

/-- In a run of sound calls the file holds what the array holds. -/
theorem faithful_of_sound_run {s : Tracked} (fits : v.size ≤ v.cap)
    (run : Reaches (Guarded SoundCall Step) ⟨v, contentsOf v⟩ s) :
    Represents s.file s.array ∧ ∀ c, SoundCall s c → Faithful s.file s.array c := by
  have represents : Represents s.file s.array :=
    run.invariant ⟨rfl, fits, fun _ hi => (if_pos hi).symm⟩ fun _ _ _ before last => represents_of_step before last
  exact ⟨represents, fun c sound => faithful_of_sound represents sound⟩

theorem faithful_after_gap : ∃ s, Reaches (Guarded SoundCall Step) ⟨{}, contentsOf {}⟩ s ∧
    s.array.length = 103 ∧ Represents s.file s.array := by
  let first : Call := ⟨.write (fun _ => 7) 100 3, fun _ => some zeros, 0⟩
  obtain ⟨answer, v', hCall, hResult⟩ : ∃ answer v', perform {} first = .ok (answer, v') ∧
      0 ≤ answer.result := ⟨_, _, rfl, by decide⟩
  have run : Reaches (Guarded SoundCall Step) ⟨{}, contentsOf {}⟩ ⟨v', (contentsOf {}).write (fun _ => 7) 100 3⟩ :=
    Reaches.refl.tail first ⟨⟨by decide, by decide⟩, answer, hCall, by rw [if_pos hResult]; rfl⟩
  exact ⟨_, run, rfl, (faithful_of_sound_run (by decide) run).1⟩

/-- Two bytes written at the last 64-bit position land far outside the buffer. -/
theorem write_at_the_end_not_faithful : ∃ off, sysLseek 0 1 (2 ^ 64 - 1) 0 = some off ∧
    ¬ Faithful { size := 1, cap := 64 } (contentsOf { size := 1, cap := 64 })
      ⟨.write zeros off 2, fun _ => none, 0⟩ := by
  refine ⟨2 ^ 64 - 1, rfl, fun faithful => ?_⟩
  exact faithful.1 rfl

end YartOS.Vfs.Contents
