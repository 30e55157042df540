import YartOS.Exec.Elf

/-! When loading an executable reads only bytes of the file and writes only to the pages
it reserved. -/
namespace YartOS.Exec

open Bytes Mm List

/-- An access of no bytes touches nothing. -/
def Access.Inside (size : Nat) (span : Nat × Nat) : Access → Prop
  | .read off len => len = 0 ∨ off + len ≤ size
  | .write addr len => len = 0 ∨ (span.1 ≤ addr ∧ addr + len ≤ span.2)

variable (f : File) (bias : Nat) (regions : List Region)

def Confined : Prop :=
  ∀ access ∈ (loadAndRelocate f bias regions).accesses,
    access.Inside f.size (loadAndRelocate f bias regions).span

/-- The end in the file does not wrap; or the end in memory wraps to where nothing is copied, or
beyond all pages, which then lie in the file from the offset on. -/
def SegmentSafe (ph : Phdr) : Prop :=
  ph.offset + ph.filesz < 2 ^ 64 ∨
  (2 ^ 64 - ph.filesz ≤ ph.va bias ∧ ph.va bias % pageSize ≤ 2 ^ 64 - ph.filesz) ∨
  (ph.va bias < 2 ^ 64 - ph.filesz ∧
    ph.offset + (pageAlignUp (ph.va bias + ph.memsz) - ph.va bias) ≤ f.size)

/-- An accepted relocation section is in the file, and its relocations name eight bytes of the
span. -/
def SectionSafe (span : Nat × Nat) (sh : Shdr) : Prop :=
  sh.type = shtRela → sh.offset ≤ f.size → wrap (sh.offset + sh.size) ≤ f.size →
    sh.offset + sh.size ≤ f.size ∧
    ∀ k < sh.size / 24, getU64 f.data (sh.offset + k * 24 + 8) % 2 ^ 32 = rX8664Relative →
      span.1 ≤ wrap (bias + getU64 f.data (sh.offset + k * 24)) ∧
      wrap (bias + getU64 f.data (sh.offset + k * 24)) + 8 ≤ span.2

def HasSections : Prop :=
  f.ehdr.shoff ≠ 0 ∧ sizeofShdr ≤ f.ehdr.shentsize ∧ f.ehdr.shoff ≤ f.size ∧
    f.ehdr.shoff + f.ehdr.shnum * f.ehdr.shentsize ≤ f.size

def Accepted : Prop :=
  (loadUserElfInto f bias regions).span ≠ (0, 0)

def ElfSafe : Prop :=
  Accepted f bias regions → (∀ ph ∈ f.segments, SegmentSafe f bias ph) ∧
    ((loadUserElfInto f bias regions).entry ≠ 0 → HasSections f → ∀ i < f.ehdr.shnum,
      SectionSafe f bias (loadUserElfInto f bias regions).span (f.shdr i))

variable {f : File} {bias a first last : Nat} {ph : Phdr} {regions : List Region}

section Segments

structure SegmentOk (f : File) (bias : Nat) (ph : Phdr) : Prop where
  mem : ph.va bias + ph.memsz ≤ userStackTop
  offset : ph.offset ≤ f.size
  file : wrap (ph.offset + ph.filesz) ≤ f.size
  filesz_lt : ph.filesz < 2 ^ 64

lemma SegmentOk.of_segmentOk (hMem : ph.memsz < 2 ^ 64) (hFilesz : ph.filesz < 2 ^ 64) (h : segmentOk f bias ph = true) :
    SegmentOk f bias ph := by
  simp only [segmentOk, Bool.and_eq_true, decide_eq_true_eq] at h
  obtain ⟨⟨⟨⟨hOver, -⟩, hTop⟩, hOffset⟩, hFile⟩ := h
  refine ⟨?_, hOffset, hFile, hFilesz⟩
  unfold wrap userStackTop at *
  omega

lemma SegmentOk.wrap_mem (ok : SegmentOk f bias ph) :
    wrap (ph.va bias + ph.memsz) = ph.va bias + ph.memsz := Nat.mod_eq_of_lt (by
  have := ok.mem
  unfold userStackTop at this
  omega)

/-- The copy into a page below user top, with sums that cannot wrap. -/
lemma mem_copyPage {access : Access} (ok : SegmentOk f bias ph) (hTop : a + pageSize ≤ userStackTop) :
    access ∈ copyPage bias a ph ↔
      (ph.va bias < a + pageSize ∧ a < ph.va bias + ph.memsz ∧ a < wrap (ph.va bias + ph.filesz)) ∧
      (access = .read (wrap (ph.offset + (max a (ph.va bias) - ph.va bias)))
        (wrap (min (a + pageSize) (wrap (ph.va bias + ph.filesz)) + (2 ^ 64 - max a (ph.va bias)))) ∨
      access = .write (max a (ph.va bias))
        (wrap (min (a + pageSize) (wrap (ph.va bias + ph.filesz)) + (2 ^ 64 - max a (ph.va bias))))) := by
  have hPage : wrap (a + pageSize) = a + pageSize := Nat.mod_eq_of_lt (by
    unfold userStackTop at hTop
    omega)
  unfold copyPage
  simp only [hPage, ok.wrap_mem]
  split
  · simp only [not_mem_nil, false_iff]
    omega
  · split
    · simp only [not_mem_nil, false_iff]
      omega
    · simp only [mem_cons, not_mem_nil, or_false, iff_and_self]
      omega

variable (ok : SegmentOk f bias ph)

include ok

lemma copyPage_inside (safe : SegmentSafe f bias ph) (hAligned : a % pageSize = 0) (hFirst : first ≤ a)
    (hLast : a + pageSize ≤ last) (hTop : last ≤ userStackTop) :
    ∀ access ∈ copyPage bias a ph, access.Inside f.size (first, last) := by
  intro access hAccess
  obtain ⟨⟨hAbove, hBelow, hFile⟩, hAccess⟩ := (mem_copyPage ok (by omega)).mp hAccess
  have hMem := ok.mem
  have hSum := ok.file
  have hFilesz := ok.filesz_lt
  have hSize := f.size_lt
  unfold SegmentSafe pageAlignUp pageAlignDown at safe
  unfold wrap pageSize userStackTop at *
  generalize ph.va bias = va at *
  rcases hAccess with rfl | rfl
  · unfold Access.Inside
    omega
  · unfold Access.Inside
    omega

/-- The end in memory wraps below the segment in its first page: that copy has a length of nearly
`2 ^ 64`. -/
lemma copyPage_outside_of_below (hWraps : 2 ^ 64 ≤ ph.offset + ph.filesz) (hBelow : 2 ^ 64 - ph.filesz ≤ ph.va bias)
    (hNear : 2 ^ 64 - ph.filesz < ph.va bias % pageSize) (span : Nat × Nat) :
    ∃ access ∈ copyPage bias (pageAlignDown (ph.va bias)) ph, ¬ access.Inside f.size span := by
  have hMem := ok.mem
  have hOffset := ok.offset
  have hFilesz := ok.filesz_lt
  have hSize := f.size_lt
  obtain ⟨-, hLe, hLt⟩ := pageAlignDown_spec (ph.va bias)
  have hPage : pageAlignDown (ph.va bias) = ph.va bias - ph.va bias % pageSize := by
    unfold pageAlignDown pageSize
    omega
  have hEnd : wrap (ph.va bias + ph.filesz) = ph.va bias - (2 ^ 64 - ph.filesz) := by
    unfold wrap userStackTop at *
    omega
  have hTop : pageAlignDown (ph.va bias) + pageSize ≤ userStackTop := by
    unfold userStackTop pageSize pageAlignDown at *
    omega
  have hMod := Nat.mod_le (ph.va bias) pageSize
  refine ⟨_, (mem_copyPage ok hTop).mpr ⟨⟨hLt, by omega, by omega⟩, .inl rfl⟩, ?_⟩
  rw [hEnd, Nat.max_eq_right hLe, Nat.min_eq_right (by omega)]
  have hLen : wrap (ph.va bias - (2 ^ 64 - ph.filesz) + (2 ^ 64 - ph.va bias)) = ph.filesz := by
    unfold wrap userStackTop at *
    omega
  unfold Access.Inside
  omega

/-- The end wraps above all pages: the last page is filled from beyond the file. -/
lemma copyPage_outside_of_above (hAbove : ph.va bias < 2 ^ 64 - ph.filesz) (hWraps : 2 ^ 64 ≤ ph.offset + ph.filesz)
    (hFar : f.size < ph.offset + (pageAlignUp (ph.va bias + ph.memsz) - ph.va bias)) (span : Nat × Nat) :
    pageAlignDown (ph.va bias) + pageSize ≤ pageAlignUp (ph.va bias + ph.memsz) ∧
    ∃ access ∈ copyPage bias (pageAlignUp (ph.va bias + ph.memsz) - pageSize) ph,
      ¬ access.Inside f.size span := by
  have hMem := ok.mem
  have hOffset := ok.offset
  have hSize := f.size_lt
  obtain ⟨hAligned, hLe, hLt⟩ := pageAlignUp_spec ok.mem
  obtain ⟨hDown, hDownLe, hDownLt⟩ := pageAlignDown_spec (ph.va bias)
  have hEnd : wrap (ph.va bias + ph.filesz) = ph.va bias + ph.filesz := Nat.mod_eq_of_lt (by omega)
  have hTop : pageAlignUp (ph.va bias + ph.memsz) ≤ userStackTop := by
    unfold userStackTop pageSize at *
    omega
  generalize pageAlignUp (ph.va bias + ph.memsz) = top at *
  have hRoom : pageAlignDown (ph.va bias) + pageSize ≤ top := by
    unfold pageSize at *
    omega
  have hBig : userStackTop ≤ ph.filesz := by
    unfold userStackTop
    omega
  have hPage : top - pageSize + pageSize = top := Nat.sub_add_cancel (by omega)
  refine ⟨hRoom, _, (mem_copyPage ok (by omega)).mpr ⟨⟨by omega, by omega, by omega⟩, .inl rfl⟩, ?_⟩
  have hDstLt : max (top - pageSize) (ph.va bias) < top :=
    Nat.max_lt.mpr ⟨Nat.sub_lt (by omega) (by decide), by omega⟩
  rw [hEnd, hPage, min_eq_left (by omega)]
  generalize max (top - pageSize) (ph.va bias) = dst at *
  have hLen : wrap (top + (2 ^ 64 - dst)) = top - dst := by
    unfold wrap userStackTop at *
    omega
  have hSrc : wrap (ph.offset + (dst - ph.va bias)) = ph.offset + (dst - ph.va bias) :=
    Nat.mod_eq_of_lt (by
      unfold userStackTop at *
      omega)
  unfold Access.Inside
  omega

/-- Some page shows that a segment is not safe. -/
lemma exists_copyPage_outside (notSafe : ¬ SegmentSafe f bias ph)
    (span : Nat × Nat) : ∃ a, a % pageSize = 0 ∧ pageAlignDown (ph.va bias) ≤ a ∧
      a + pageSize ≤ pageAlignUp (ph.va bias + ph.memsz) ∧
      ∃ access ∈ copyPage bias a ph, ¬ access.Inside f.size span := by
  simp only [SegmentSafe, not_or, not_and_or, Nat.not_le, not_lt] at notSafe
  obtain ⟨hWraps, hNear, hFar⟩ := notSafe
  obtain ⟨hUp, hUpLe, -⟩ := pageAlignUp_spec ok.mem
  obtain ⟨hDown, hDownLe, hDownLt⟩ := pageAlignDown_spec (ph.va bias)
  by_cases hBelow : 2 ^ 64 - ph.filesz ≤ ph.va bias
  · refine ⟨_, hDown, le_refl _, ?_, copyPage_outside_of_below ok hWraps hBelow (by omega) span⟩
    unfold pageSize at *
    omega
  · obtain ⟨hRoom, outside⟩ := copyPage_outside_of_above ok (by omega) hWraps (by omega) span
    refine ⟨_, ?_, ?_, ?_, outside⟩
    all_goals
      unfold pageSize at *
      omega

end Segments

structure SpanOk (span : Nat × Nat) : Prop where
  first : span.1 = noSpan ∨ span.1 % pageSize = 0
  last : span.2 % pageSize = 0
  top : span.2 ≤ userStackTop

lemma SpanOk.growSpan {span : Nat × Nat} (h : SpanOk span) (ok : SegmentOk f bias ph) :
    SpanOk (growSpan bias span ph) := by
  obtain ⟨hUp, -, hUpLt⟩ := pageAlignUp_spec ok.mem
  obtain ⟨hDown, -, -⟩ := pageAlignDown_spec (ph.va bias)
  obtain ⟨hFirst, hLast, hTop⟩ := h
  have hMem := ok.mem
  have hUpTop : pageAlignUp (ph.va bias + ph.memsz) ≤ userStackTop := by
    unfold userStackTop pageSize at *
    omega
  unfold Exec.growSpan
  rw [ok.wrap_mem]
  refine ⟨?_, ?_, Nat.max_le.mpr ⟨hTop, hUpTop⟩⟩
  · rcases Nat.le_total span.1 (pageAlignDown (ph.va bias)) with hle | hle
    · rw [Nat.min_eq_left hle]
      exact hFirst
    · rw [Nat.min_eq_right hle]
      exact .inr hDown
  · rcases Nat.le_total span.2 (pageAlignUp (ph.va bias + ph.memsz)) with hle | hle
    · rw [Nat.max_eq_right hle]
      exact hUp
    · rw [Nat.max_eq_left hle]
      exact hLast

/-- The span reaches over the pages of every segment. -/
lemma foldl_growSpan (segments : List Phdr) (ok : ∀ ph ∈ segments, SegmentOk f bias ph)
    (span : Nat × Nat) (h : SpanOk span) : SpanOk (segments.foldl (growSpan bias) span) ∧
    (segments.foldl (growSpan bias) span).1 ≤ span.1 ∧ span.2 ≤ (segments.foldl (growSpan bias) span).2 ∧
    ∀ ph ∈ segments, (segments.foldl (growSpan bias) span).1 ≤ pageAlignDown (ph.va bias) ∧
      pageAlignUp (ph.va bias + ph.memsz) ≤ (segments.foldl (growSpan bias) span).2 := by
  induction segments generalizing span with
  | nil => exact ⟨h, le_refl _, le_refl _, by simp⟩
  | cons ph segments ih =>
    have okHead := ok ph (by simp)
    obtain ⟨hSpan, hFirst, hLast, hAll⟩ := ih (fun ph hph => ok ph (by simp [hph])) _ (h.growSpan okHead)
    have hUp : pageAlignUp (ph.va bias + ph.memsz) ≤ (growSpan bias span ph).2 := by
      rw [← okHead.wrap_mem]
      exact le_max_right _ _
    refine ⟨hSpan, hFirst.trans (min_le_left _ _), (le_max_left _ _).trans hLast,
      fun ph' hph' => ?_⟩
    rcases mem_cons.mp hph' with rfl | hph'
    · exact ⟨hFirst.trans (min_le_right _ _), hUp.trans hLast⟩
    · exact hAll ph' hph'

lemma mem_pages (hFirst : first % pageSize = 0) (hLast : last % pageSize = 0) :
    a ∈ pages first last ↔ a % pageSize = 0 ∧ first ≤ a ∧ a + pageSize ≤ last := by
  unfold pages pageSize at *
  simp only [mem_map, mem_range]
  constructor
  · rintro ⟨k, hk, rfl⟩
    omega
  · rintro ⟨hAligned, hLow, hHigh⟩
    exact ⟨(a - first) / 4096, by omega, by omega⟩

section Relocations

variable {span : Nat × Nat} {sh : Shdr}

lemma applyRelocation_inside_iff {at_ : Nat} : (∀ access ∈ applyRelocation f bias at_, access.Inside f.size span) ↔
      at_ + 24 ≤ f.size ∧ (getU64 f.data (at_ + 8) % 2 ^ 32 = rX8664Relative →
        span.1 ≤ wrap (bias + getU64 f.data at_) ∧ wrap (bias + getU64 f.data at_) + 8 ≤ span.2) := by
  unfold applyRelocation
  by_cases h : getU64 f.data (at_ + 8) % 2 ^ 32 = rX8664Relative
  · simp [mem_cons, not_mem_nil, or_false, forall_eq_or_imp, Access.Inside, OfNat.ofNat_ne_zero, false_or]
  · simp [mem_cons, not_mem_nil, or_false, Access.Inside, OfNat.ofNat_ne_zero, false_or]

/-- A section whose end wraps is read beyond the file. -/
lemma applySection_inside_iff :
    (∀ access ∈ applySection f bias sh, access.Inside f.size span) ↔ SectionSafe f bias span sh := by
  unfold applySection SectionSafe
  split
  · next h =>
    refine iff_of_true (by simp) fun hType hOffset hEnd => absurd h ?_
    omega
  next h =>
  simp only [not_or, not_not, not_lt] at h
  obtain ⟨hType, hOffset, hEnd⟩ := h
  simp only [hType, hOffset, hEnd, forall_const, mem_flatMap, mem_range, forall_exists_index, and_imp]
  have swap : (∀ access k, k < sh.size / 24 →
      access ∈ applyRelocation f bias (sh.offset + k * 24) → access.Inside f.size span) ↔
      ∀ k < sh.size / 24, ∀ access ∈ applyRelocation f bias (sh.offset + k * 24),
        access.Inside f.size span := by
    constructor
    · exact fun h k hk access hAccess => h access k hk hAccess
    · exact fun h access k hk hAccess => h k hk access hAccess
  rw [swap]
  simp only [applyRelocation_inside_iff]
  constructor
  · intro h
    refine ⟨?_, fun k hk => (h k hk).2⟩
    by_contra hWraps
    have hSize := f.size_lt
    have := h ((f.size - sh.offset) / 24) (by unfold wrap at hEnd; omega)
    omega
  · rintro ⟨hIn, hTargets⟩ k hk
    exact ⟨by omega, hTargets k hk⟩

lemma applyRelocations_inside_iff : (∀ access ∈ applyRelocations f bias, access.Inside f.size span) ↔
      (HasSections f → ∀ i < f.ehdr.shnum, SectionSafe f bias span (f.shdr i)) := by
  have hSize := f.size_lt
  have hNum := getU16_lt f.data 60
  have hEntry := getU16_lt f.data 58
  have hTable : f.ehdr.shnum * f.ehdr.shentsize < 2 ^ 16 * 2 ^ 16 := Nat.mul_lt_mul'' hNum hEntry
  unfold applyRelocations HasSections
  split
  · next h =>
    refine iff_of_true (by simp) ?_
    rintro ⟨hOff, hEntsize, hInFile, hEnd⟩ i hi
    rw [wrap, Nat.mod_eq_of_lt (by omega)] at h
    omega
  next h =>
  simp only [not_or, not_lt] at h
  obtain ⟨hOff, hShnum, hEntsize, hInFile, hEnd⟩ := h
  rw [wrap, Nat.mod_eq_of_lt (by omega)] at hEnd
  have swap : ∀ P : Access → Prop, (∀ access ∈ (range f.ehdr.shnum).flatMap fun i =>
      .read (f.ehdr.shoff + i * f.ehdr.shentsize) sizeofShdr :: applySection f bias (f.shdr i),
      P access) ↔ ∀ i < f.ehdr.shnum, P (.read (f.ehdr.shoff + i * f.ehdr.shentsize) sizeofShdr) ∧
        ∀ access ∈ applySection f bias (f.shdr i), P access := by
    intro P
    simp only [mem_flatMap, mem_range, mem_cons]
    constructor
    · exact fun h i hi => ⟨h _ ⟨i, hi, .inl rfl⟩, fun access hAccess => h _ ⟨i, hi, .inr hAccess⟩⟩
    · rintro h access ⟨i, hi, rfl | hAccess⟩
      · exact (h i hi).1
      · exact (h i hi).2 access hAccess
  rw [swap]
  simp only [applySection_inside_iff]
  constructor
  · exact fun h _ i hi => (h i hi).2
  intro h i hi
  refine ⟨.inr ?_, h ⟨hOff, hEntsize, hInFile, hEnd⟩ i hi⟩
  -- header `i` ends before the end of the table
  have : (i + 1) * f.ehdr.shentsize ≤ f.ehdr.shnum * f.ehdr.shentsize := Nat.mul_le_mul_right _ hi
  rw [Nat.add_mul, one_mul] at this
  omega

end Relocations

lemma segment_bounds (h : ph ∈ f.segments) : ph.memsz < 2 ^ 64 ∧ ph.filesz < 2 ^ 64 := by
  obtain ⟨hMem, -⟩ := mem_filter.mp h
  obtain ⟨i, -, rfl⟩ := mem_map.mp hMem
  exact ⟨getU64_lt _ _, getU64_lt _ _⟩

def headerReads (f : File) : List Access :=
  [.read 0 sizeofEhdr, .read f.ehdr.phoff (f.ehdr.phnum * sizeofPhdr)]

def copies (f : File) (bias : Nat) : List Access :=
  (pages (span bias f.segments).1 (span bias f.segments).2).flatMap fun a =>
    f.segments.flatMap (copyPage bias a)

structure Copied (f : File) (bias : Nat) (regions : List Region) : Prop where
  segments : ∀ ph ∈ f.segments, SegmentOk f bias ph
  first : (span bias f.segments).1 % pageSize = 0
  last : (span bias f.segments).2 % pageSize = 0
  lt : (span bias f.segments).1 < (span bias f.segments).2
  top : (span bias f.segments).2 ≤ userStackTop
  loaded : loadUserElfInto f bias regions =
    { accesses := headerReads f ++ copies f bias
      span := span bias f.segments
      entry := wrap (bias + f.ehdr.entry) }

lemma headerReads_inside (h : headerOk f = true) (span : Nat × Nat) :
    ∀ access ∈ headerReads f, access.Inside f.size span := by
  simp only [headerOk, Bool.and_eq_true, decide_eq_true_eq] at h
  have hSize := f.size_lt
  have hTable : wrap (f.ehdr.phoff + f.ehdr.phnum * sizeofPhdr) =
      f.ehdr.phoff + f.ehdr.phnum * sizeofPhdr := Nat.mod_eq_of_lt (by
    unfold sizeofPhdr
    omega)
  intro access hAccess
  simp only [headerReads, mem_cons, not_mem_nil, or_false] at hAccess
  rcases hAccess with rfl | rfl
  · right
    omega
  · right
    omega

lemma loadUserElfInto_cases (f : File) (bias : Nat) (regions : List Region) :
    (headerOk f = true ∧ Copied f bias regions) ∨
    ∃ accesses, loadUserElfInto f bias regions = { accesses := accesses } ∧
      ∀ access ∈ accesses, access.Inside f.size (0, 0) := by
  unfold loadUserElfInto
  split
  · exact .inr ⟨[], rfl, by simp⟩
  next hSize =>
  split
  · refine .inr ⟨_, rfl, fun access hAccess => ?_⟩
    obtain rfl := mem_singleton.mp hAccess
    right
    omega
  next hHeader =>
  have hHeader : headerOk f = true := by simpa using hHeader
  simp only
  split
  · exact .inr ⟨_, rfl, headerReads_inside hHeader _⟩
  next hChecks =>
  have hLoaded : loadUserElfInto f bias regions = _ :=
    (if_neg hSize).trans ((if_neg (by simp [hHeader])).trans (if_neg hChecks))
  simp only [Bool.or_eq_true, not_or, Bool.not_eq_true, Bool.not_eq_false',
    decide_eq_false_iff_not, all_eq_true, Nat.not_le] at hChecks
  obtain ⟨⟨⟨hSegments, hFirst⟩, hLt⟩, -⟩ := hChecks
  have ok : ∀ ph ∈ f.segments, SegmentOk f bias ph := fun ph hph =>
    .of_segmentOk (segment_bounds hph).1 (segment_bounds hph).2 (hSegments ph hph)
  obtain ⟨⟨hAligned, hLast, hTop⟩, -, -, -⟩ := foldl_growSpan f.segments ok (noSpan, 0) ⟨.inl rfl, rfl, Nat.zero_le _⟩
  exact .inl ⟨hHeader, ok, hAligned.resolve_left hFirst, hLast, hLt, hTop, hLoaded⟩

lemma copies_inside_iff (h : Copied f bias regions) :
    (∀ access ∈ copies f bias, access.Inside f.size (span bias f.segments)) ↔
      ∀ ph ∈ f.segments, SegmentSafe f bias ph := by
  have pages_iff := fun a => mem_pages (a := a) h.first h.last
  have around := (foldl_growSpan f.segments h.segments (noSpan, 0) ⟨.inl rfl, rfl, Nat.zero_le _⟩).2.2.2
  simp only [copies, mem_flatMap, forall_exists_index, and_imp]
  constructor
  · intro inside ph hph
    by_contra notSafe
    obtain ⟨a, hAligned, hLow, hHigh, access, hAccess, outside⟩ :=
      exists_copyPage_outside (h.segments ph hph) notSafe (span bias f.segments)
    obtain ⟨hFirst, hLast⟩ := around ph hph
    exact outside (inside access a ((pages_iff a).mpr ⟨hAligned, hFirst.trans hLow, hHigh.trans hLast⟩) ph hph hAccess)
  · intro safe access a ha ph hph hAccess
    obtain ⟨hAligned, hFirst, hLast⟩ := (pages_iff a).mp ha
    exact copyPage_inside (h.segments ph hph) (safe ph hph) hAligned hFirst hLast h.top access hAccess

/-- Loading stays inside file and span iff the values of the file are safe. -/
theorem confined_iff (f : File) (bias : Nat) (regions : List Region) :
    Confined f bias regions ↔ ElfSafe f bias regions := by
  unfold Confined ElfSafe Accepted loadAndRelocate
  obtain ⟨hHeader, h⟩ | ⟨accesses, hLoaded, inside⟩ := loadUserElfInto_cases f bias regions
  · have accepted : span bias f.segments ≠ (0, 0) := fun hSpan => by
      have := h.lt
      rw [hSpan] at this
      exact absurd this (lt_irrefl 0)
    have headers := headerReads_inside hHeader (span bias f.segments)
    simp only [h.loaded, ne_eq, accepted, not_false_eq_true, forall_const]
    rw [← copies_inside_iff h]
    by_cases hEntry : wrap (bias + f.ehdr.entry) = 0
    · simp only [hEntry, if_true, not_true_eq_false, false_imp_iff, and_true, mem_append]
      exact ⟨fun inside access hAccess => inside access (.inr hAccess),
        fun inside access hAccess => hAccess.elim (headers access) (inside access)⟩
    simp only [hEntry, if_false, not_false_eq_true, forall_const, mem_append]
    rw [← applyRelocations_inside_iff]
    constructor
    · exact fun inside => ⟨fun access hAccess => inside access (.inl (.inr hAccess)),
        fun access hAccess => inside access (.inr hAccess)⟩
    · rintro ⟨copied, relocated⟩ access ((hAccess | hAccess) | hAccess)
      · exact headers access hAccess
      · exact copied access hAccess
      · exact relocated access hAccess
  · simp only [hLoaded, if_true]
    exact iff_of_true inside fun h => absurd rfl h

def kernelRelocation : File where
  data := [(0, elfMagic), (4, 2), (16, etDyn + 2 ^ 16 * emX8664), (24, 1), (32, 64), (40, 120),
    (52, 2 ^ 16 * 56), (56, 1 + 2 ^ 16 * 64), (60, 1), (64, ptLoad), (104, 1), (124, shtRela),
    (144, 184), (152, 24), (188, 0xFFFFFFFF), (192, rX8664Relative)].foldl (fun b (off, x) => putU32 b off x) zeros
  size := 208
  size_lt := by decide

/-- Its relocation is written to kernel memory. -/
theorem kernelRelocation_not_confined : ¬ Confined kernelRelocation userVbase [] := by
  intro confined
  have inside := confined (.write 0xFFFFFFFF40000000 8) (by decide +kernel)
  revert inside
  unfold Access.Inside
  decide +kernel

end YartOS.Exec
