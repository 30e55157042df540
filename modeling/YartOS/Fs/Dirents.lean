import YartOS.Fs.Mount

/-! Directory entries as `dir_build_entries` lays them out and `mount_dir` visits them. -/
namespace YartOS.Fs

open Bytes List

variable {buf buf' : Buffer} {size off fuel stop : Nat} {c : Vnode} {l : List Vnode} {f : Forest}

/-- What the record loop visits, with offsets, where it stops, and whether at a bad header. -/
structure Pass where
  entries : List (Nat × Dirent)
  stop : Nat
  refused : Bool

def records (buf : Buffer) (size : Nat) : Nat → Nat → Pass
  | 0, off => ⟨[], off, false⟩
  | fuel + 1, off =>
    if size < u32 (off + 8) then ⟨[], off, false⟩
    else
      let e := readDirent buf off
      if e.recLen < 8 ∨ sub32 size off < e.recLen then ⟨[], off, true⟩
      else
        let rest := records buf size fuel (u32 (off + e.recLen))
        { rest with entries := (off, e) :: rest.entries }

/-- The children that have an inode number, in the order of the list. -/
def listed : Forest → List Vnode
  | .nil => []
  | .cons c _ sibling => if c.ino = 0 then listed sibling else c :: listed sibling

def direntOf (c : Vnode) : Dirent where
  ino := c.ino
  recLen := direntRecLen c.name.length
  nameLen := c.name.length
  kind := c.kind
  name := c.name

/-- A child whose inode number a volume can have, with a name of 1 to 95 bytes. -/
structure Storable (c : Vnode) : Prop where
  ino : c.ino ≤ maxGroups * inodesPerGroup
  named : 1 ≤ c.name.length
  short : c.name.length < maxName
  plain : 0 ∉ c.name

def encodedSize (l : List Vnode) : Nat := (l.map fun c => direntRecLen c.name.length).sum

def Encoded (buf : Buffer) : Nat → List Vnode → Prop
  | _, [] => True
  | off, c :: l => readDirent buf off = direntOf c ∧ Encoded buf (off + direntRecLen c.name.length) l

lemma direntRecLen_bounds (short : c.name.length < maxName) :
    8 + c.name.length ≤ direntRecLen c.name.length ∧ direntRecLen c.name.length < 2 ^ 16 := by
  unfold direntRecLen maxName at *
  omega

lemma cstr_of_bytes {name : Name} (bytes : ∀ i, i < name.length → buf (off + i) = ofBytes name i)
    (plain : 0 ∉ name) : cstr buf off name.length = name := by
  induction name generalizing off with
  | nil => rfl
  | cons x name ih =>
    have head : buf off = x := bytes 0 (by simp)
    rw [length_cons, cstr, head, if_neg fun h => plain (by simp [h])]
    congr 1
    refine ih (fun i hi => ?_) fun h => plain (by simp [h])
    rw [add_assoc, add_comm 1 i, bytes (i + 1) (by simpa using hi)]
    rfl

/-- An entry is read back from its bytes. -/
lemma readDirent_of_bytes (ok : Storable c) (head : ∀ i < 8, buf (off + i) =
      direntHead c.ino (direntRecLen c.name.length) c.name.length c.kind.number i)
    (name : ∀ i < c.name.length, buf (off + 8 + i) = ofBytes c.name i) :
    readDirent buf off = direntOf c := by
  have hRec := direntRecLen_bounds ok.short
  have hShort := ok.short
  have hKind : c.kind.number < 256 := by cases c.kind <;> decide
  have word : ∀ k < 4, (buf (off + (4 + k))).toNat = (direntRecLen c.name.length +
      2 ^ 16 * (c.name.length % 2 ^ 8) + 2 ^ 24 * c.kind.number) / 2 ^ (8 * k) % 256 := by
    intro k hk
    rw [head (4 + k) (by omega), direntHead, packWords, show (4 + k) / 4 = 1 by omega,
      show (4 + k) % 4 = k by omega, if_neg (by decide), toNat_byteOf]
  have hIno : getU32 buf off = c.ino := by
    rw [getU32_of_bytes fun k hk => ?_]
    · exact Nat.mod_eq_of_lt (ok.ino.trans_lt (by decide))
    · rw [head k (by omega), direntHead, packWords, show k / 4 = 0 by omega, Nat.mod_eq_of_lt hk, if_pos rfl]
  have w0 := word 0 (by decide)
  have w1 := word 1 (by decide)
  have w2 := word 2 (by decide)
  have w3 := word 3 (by decide)
  simp only [add_zero, Nat.reduceAdd] at w0 w1 w2 w3
  have hLen : (buf (off + 6)).toNat = c.name.length := by
    unfold maxName at hShort
    omega
  have hMin : min c.name.length (maxName - 1) = c.name.length := by omega
  have hRecLen : getU16 buf (off + 4) = direntRecLen c.name.length := by
    rw [getU16, add_assoc off 4 1, w0, w1]
    omega
  have hType : Kind.ofNumber (buf (off + 7)).toNat = c.kind := by
    rw [w3, show _ / 2 ^ (8 * 3) % 256 = c.kind.number by omega]
    cases c.kind <;> rfl
  unfold readDirent direntOf
  rw [hIno, hRecLen, hLen, hMin, hType, cstr_of_bytes name ok.plain]

/-- `dir_build_entries` lays out the listed children and leaves what is in front. -/
lemma dirEntries_spec (ok : ∀ c ∈ listed f, Storable c) (h : dirEntries f buf off = (buf', stop)) :
    stop = off + encodedSize (listed f) ∧ (∀ i < off, buf' i = buf i) ∧ Encoded buf' off (listed f) := by
  induction f generalizing buf off with
  | nil =>
    obtain ⟨rfl, rfl⟩ := h
    exact ⟨rfl, fun _ _ => rfl, trivial⟩
  | cons c child sibling _ ih =>
    rw [dirEntries] at h
    by_cases hIno : c.ino = 0
    · rw [if_pos hIno] at h
      rw [listed, if_pos hIno] at ok ⊢
      exact ih ok h
    rw [if_neg hIno] at h
    rw [listed, if_neg hIno] at ok ⊢
    have okC := ok c (by simp)
    have hRec := direntRecLen_bounds okC.short
    obtain ⟨rfl, before, rest⟩ := ih (fun d hd => ok d (by simp [hd])) h
    refine ⟨?_, fun i hi => ?_, readDirent_of_bytes okC (fun i hi => ?_) (fun i hi => ?_), rest⟩
    · rw [encodedSize, encodedSize, map_cons, sum_cons, add_assoc]
    · rw [before i (by omega), copyTo, if_neg (by omega), copyTo, if_neg (by omega)]
    · rw [before _ (by omega), copyTo, if_neg (by omega), copyTo, if_pos (by omega), Nat.add_sub_cancel_left]
    · rw [before _ (by omega), copyTo, if_pos (by omega), Nat.add_sub_cancel_left]

def entriesFrom : Nat → List Vnode → List (Nat × Dirent)
  | _, [] => []
  | off, c :: l => (off, direntOf c) :: entriesFrom (off + direntRecLen c.name.length) l

lemma entriesFrom_map (off : Nat) (l : List Vnode) : (entriesFrom off l).map Prod.snd = l.map direntOf := by
  induction l generalizing off with
  | nil => rfl
  | cons c l ih => rw [entriesFrom, map_cons, map_cons, ih]

lemma encodedSize_cons (c : Vnode) (l : List Vnode) :
    encodedSize (c :: l) = direntRecLen c.name.length + encodedSize l := rfl

lemma entriesFrom_inside (ok : ∀ c ∈ l, Storable c) :
    ∀ e ∈ entriesFrom off l, e.1 + 8 + e.2.nameLen ≤ off + encodedSize l := by
  induction l generalizing off with
  | nil => simp [entriesFrom]
  | cons c l ih =>
    have hRec := direntRecLen_bounds (ok c (by simp)).short
    rw [encodedSize_cons]
    intro e he
    rcases mem_cons.mp he with rfl | he
    · change off + 8 + c.name.length ≤ _
      omega
    · have := ih (fun d hd => ok d (by simp [hd])) e he
      omega

/-- Each entry takes at least 8 bytes. -/
lemma length_le_encodedSize (ok : ∀ c ∈ l, Storable c) : 8 * l.length ≤ encodedSize l := by
  induction l with
  | nil => exact le_rfl
  | cons c l ih =>
    have hRec := direntRecLen_bounds (ok c (by simp)).short
    have := ih fun d hd => ok d (by simp [hd])
    rw [encodedSize_cons, length_cons]
    omega

/-- One turn of the loop at an entry that lies inside the size. -/
lemma records_step (ok : Storable c) (hEntry : readDirent buf off = direntOf c)
    (hSize : size < 2 ^ 32) (inside : off + direntRecLen c.name.length ≤ size) :
    records buf size (fuel + 1) off = { records buf size fuel (off + direntRecLen c.name.length) with
        entries := (off, direntOf c) :: (records buf size fuel (off + direntRecLen c.name.length)).entries } := by
  have hRec := direntRecLen_bounds ok.short
  have hLen : (direntOf c).recLen = direntRecLen c.name.length := rfl
  rw [records, u32_eq (by omega), if_neg (by omega)]
  simp only [hEntry, hLen]
  rw [if_neg, u32_eq (by omega)]
  rw [sub32_eq (by omega)]
  omega

/-- The loop goes through the entries that lie inside the size. -/
lemma records_encoded (ok : ∀ c ∈ l, Storable c) (encoded : Encoded buf off l) (hSize : size < 2 ^ 32)
    (inside : off + encodedSize l ≤ size) : records buf size (l.length + fuel) off =
      { records buf size fuel (off + encodedSize l) with
        entries := entriesFrom off l ++ (records buf size fuel (off + encodedSize l)).entries } := by
  induction l generalizing off with
  | nil => simp [entriesFrom, encodedSize]
  | cons c l ih =>
    rw [encodedSize_cons] at *
    have step := @records_step _ _ _ (l.length + fuel) _ (ok c (by simp)) encoded.1 hSize (by omega)
    rw [length_cons, Nat.add_right_comm, step, ih (fun d hd => ok d (by simp [hd])) encoded.2 (by omega), add_assoc]
    rfl

/-- What the loop of `mount_dir` does on the buffer of `dir_build_entries`. -/
def passOver (child : Forest) : Pass :=
  let (buf, size) := dirBuildEntries child
  records buf size (size / 8 + 1) 0

def builtSize (child : Forest) : Nat := (dirEntries child zeros 0).2

/-- The loop visits the listed children in order, reads inside the buffer and stops at its end. -/
structure RoundTrip (child : Forest) : Prop where
  visited : (passOver child).entries.map Prod.snd = (listed child).map direntOf
  inside : ∀ e ∈ (passOver child).entries, e.1 + 8 + e.2.nameLen ≤ builtSize child
  ends : (passOver child).stop = builtSize child ∧ (passOver child).refused = false

variable {child : Forest}

section

variable (ok : ∀ c ∈ listed child, Storable c)

include ok

lemma builtSize_eq : builtSize child = encodedSize (listed child) := by
  rcases h : dirEntries child zeros 0 with ⟨buf, stop⟩
  rw [builtSize, h, (dirEntries_spec ok h).1, zero_add]

/-- The loop on a directory whose size is not cut. -/
lemma passOver_eq (small : builtSize child < 2 ^ 32) :
    ∃ buf rest fuel, rest = records buf (builtSize child) (fuel + 1) (builtSize child) ∧
      passOver child = { rest with entries := entriesFrom 0 (listed child) ++ rest.entries } := by
  have hBuilt := builtSize_eq ok
  have hLength := length_le_encodedSize ok
  rcases h : dirEntries child zeros 0 with ⟨buf, stop⟩
  have encoded := (dirEntries_spec ok h).2.2
  have hStop : stop = builtSize child := by rw [builtSize, h]
  obtain ⟨fuel, hFuel⟩ : ∃ fuel, builtSize child / 8 + 1 = (listed child).length + (fuel + 1) :=
    ⟨builtSize child / 8 - (listed child).length, by omega⟩
  refine ⟨buf, _, fuel, rfl, ?_⟩
  have whole := @records_encoded buf (builtSize child) 0 (fuel + 1) (listed child) ok encoded small (by omega)
  rw [← hBuilt, zero_add] at whole
  unfold passOver dirBuildEntries
  simp only [h, hStop, u32_eq small]
  rw [hFuel, whole]

end

lemma roundTrip_of_small (ok : ∀ c ∈ listed child, Storable c)
    (small : builtSize child + 8 < 2 ^ 32) : RoundTrip child := by
  obtain ⟨buf, rest, fuel, hRest, hPass⟩ := passOver_eq ok (by omega)
  rw [records, u32_eq small, if_pos (by omega)] at hRest
  subst hRest
  have hEntries : (passOver child).entries = entriesFrom 0 (listed child) := by
    rw [hPass]
    exact append_nil _
  refine ⟨?_, ?_, ?_⟩
  · rw [hEntries, entriesFrom_map]
  · rw [hEntries, builtSize_eq ok, ← zero_add (encodedSize _)]
    exact entriesFrom_inside ok
  · rw [hPass]
    exact ⟨rfl, rfl⟩

lemma encodedSize_le (ok : ∀ c ∈ l, Storable c) : encodedSize l ≤ 104 * l.length := by
  induction l with
  | nil => exact le_rfl
  | cons c l ih =>
    have hShort := (ok c (by simp)).short
    have := ih fun d hd => ok d (by simp [hd])
    rw [encodedSize_cons, length_cons]
    unfold direntRecLen maxName at *
    omega

/-- The round trip works for every directory of a volume: its children that have an inode number
have different ones, so there are at most `64 * 1024` of them and no offset of the loop wraps. -/
theorem roundTrip_of_numbers (ok : ∀ c ∈ listed child, Storable c)
    (distinct : ((listed child).map Vnode.ino).Nodup) : RoundTrip child := by
  have hNumbers : (listed child).map Vnode.ino ⊆ range (maxGroups * inodesPerGroup + 1) := by
    intro k hk
    obtain ⟨c, hc, rfl⟩ := mem_map.mp hk
    exact mem_range.mpr (Nat.lt_succ_of_le (ok c hc).ino)
  have hCount := (distinct.subperm hNumbers).length_le
  rw [length_map, length_range] at hCount
  have hSize := encodedSize_le ok
  apply roundTrip_of_small ok
  rw [builtSize_eq ok]
  unfold maxGroups inodesPerGroup at hCount
  omega

/-- A directory, a file that has no inode number yet, a link and a file. -/
def fourChildren : Forest :=
  .cons { name := text "etc", kind := .dir, ino := 2 } .nil <|
    .cons { name := text "new", kind := .file, ino := 0 } .nil <|
      .cons { name := text "sh", kind := .symlink, ino := 65536 } .nil <|
        .cons { name := text "motd", kind := .file, ino := 7 } .nil .nil

theorem roundTrip_of_four_children : (listed fourChildren).map Vnode.ino = [2, 65536, 7] ∧ RoundTrip fourChildren := by
  refine ⟨rfl, roundTrip_of_numbers (fun c hc => ?_) (by decide)⟩
  rcases mem_cons.mp hc with rfl | hc
  · exact ⟨by decide, by decide, by decide, by decide⟩
  rcases mem_cons.mp hc with rfl | hc
  · exact ⟨by decide, by decide, by decide, by decide⟩
  obtain rfl := mem_singleton.mp hc
  exact ⟨by decide, by decide, by decide, by decide⟩

end YartOS.Fs
