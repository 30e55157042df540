import YartOS.Vfs.Initial

/-! The USTAR format of the initrd, and what the import loop decodes from one header. -/
namespace YartOS.Vfs

open Fs Bytes List

/-- An archive entry: `front` (the source's prefix) and `name` spell its path, `comps` are its
components. -/
structure Entry where
  front : Name
  name : Name
  comps : List Name
  dir : Bool
  mode : Nat
  data : List UInt8

def joined : List Name → Name
  | [] => []
  | [c] => c
  | c :: d :: cs => c ++ slash :: joined (d :: cs)

/-- A header field of `n` bytes, filled up with zeros. -/
def Field (b : Buffer) (off n : Nat) (l : Name) : Prop := ∀ i < n, b (off + i) = l.getD i 0

/-- A header field of `n` bytes with octal digits and a terminator. -/
def Octal (b : Buffer) (off n x : Nat) : Prop :=
  ∃ ds : List Nat, ds.length < n ∧ (∀ d ∈ ds, d < 8) ∧ (∀ i < ds.length, (b (off + i)).toNat = 48 + ds.getD i 0) ∧
    (b (off + ds.length) = 0 ∨ b (off + ds.length) = 32) ∧ ds.foldl (fun acc d => acc * 8 + d) 0 = x

namespace Entry

def path (e : Entry) : Name := if e.front = [] then e.name else e.front ++ slash :: e.name

def target (e : Entry) : List Name := e.comps.filter fun c => c ≠ [] ∧ c ≠ text "."

def room (e : Entry) : Nat := 512 + (e.data.length + 511) / 512 * 512

/-- An entry that the format can hold; only a directory may end in a slash. -/
structure WellFormed (e : Entry) : Prop where
  front : e.front.length ≤ 155 ∧ 0 ∉ e.front
  name : e.name ≠ [] ∧ e.name.length ≤ 100 ∧ 0 ∉ e.name
  short : e.path.length < 255
  comps : ∀ c ∈ e.comps, slash ∉ c ∧ c.length ≤ maxName - 1
  spelled : ∃ k tail, e.path = replicate k slash ++ joined e.comps ++ tail ∧ (tail = [] ∨ e.dir = true ∧ tail = [slash])
  file : e.dir = false → ∃ c ∈ e.comps.getLast?, c ≠ [] ∧ c ≠ text "."
  empty : e.dir = true → e.data = []

structure Encoded (b : Buffer) (p : Nat) (e : Entry) : Prop where
  name : Field b p 100 e.name
  mode : Octal b (p + 100) 8 e.mode
  size : Octal b (p + 124) 12 e.data.length
  type : if e.dir then b (p + 156) = 53 else b (p + 156) = 48 ∨ b (p + 156) = 0
  magic : ∀ i < 5, b (p + 257 + i) = (text "ustar").getD i 0
  front : Field b (p + 345) 155 e.front
  pad : Field b (p + 500) 12 []
  data : ∀ i < e.data.length, b (p + 512 + i) = e.data.getD i 0

/-- The name ends before its field does, and no inner component is empty. -/
structure Plain (e : Entry) : Prop where
  name : e.name.length < 100
  comps : ∀ c ∈ e.comps, c ≠ []

end Entry

/-- From the offset `p` on the image is a well-formed archive of the entries. -/
def Archive (b : Buffer) (total : Nat) : Nat → List Entry → Prop
  | p, [] => total < p + 512 ∨ b p = 0
  | p, e :: es => e.WellFormed ∧ e.Encoded b p ∧ p + e.room ≤ total ∧ Archive b total (p + e.room) es

variable {b : Buffer} {off n x : Nat} {l : Name}

lemma oct_digits {ds : List Nat} {acc : Nat} (short : ds.length < n) (digits : ∀ d ∈ ds, d < 8)
    (bytes : ∀ i < ds.length, (b (off + i)).toNat = 48 + ds.getD i 0)
    (ends : b (off + ds.length) = 0 ∨ b (off + ds.length) = 32) :
    oct b off n acc = ds.foldl (fun acc d => acc * 8 + d) acc := by
  induction ds generalizing off n acc with
  | nil =>
    obtain ⟨n, rfl⟩ : ∃ m, n = m + 1 := ⟨n - 1, by simp at short; omega⟩
    unfold oct
    rw [if_pos]
    · rfl
    · rcases ends with h | h <;> simp at h <;> rw [h] <;> decide
  | cons d ds ih =>
    obtain ⟨n, rfl⟩ : ∃ m, n = m + 1 := ⟨n - 1, by simp at short; omega⟩
    have hd : (b off).toNat = 48 + d := by simpa using bytes 0 (by simp)
    have hLt : d < 8 := digits d mem_cons_self
    have rest : oct b (off + 1) n (acc * 8 + d) = ds.foldl (fun acc d => acc * 8 + d) (acc * 8 + d) := by
      apply ih
      · simpa using short
      · exact fun d' h => digits d' (mem_cons_of_mem _ h)
      · intro i hi
        have byte := bytes (i + 1) (by simpa using hi)
        rwa [getD_cons_succ, show off + (i + 1) = off + 1 + i by omega] at byte
      · simpa [Nat.add_comm ds.length 1, Nat.add_assoc] using ends
    unfold oct
    rw [if_neg, hd, Nat.add_sub_cancel_left, rest]
    · rfl
    · simp only [UInt8.lt_iff_toNat_lt, hd, UInt8.reduceToNat]
      omega

lemma Octal.oct_eq (h : Octal b off n x) : oct b off n 0 = x := by
  obtain ⟨ds, short, digits, bytes, ends, rfl⟩ := h
  exact oct_digits short digits bytes ends

lemma cstr_eq (short : l.length < n) (noZero : 0 ∉ l) (bytes : ∀ i < l.length, b (off + i) = l.getD i 0)
    (ends : b (off + l.length) = 0) : cstr b off n = l := by
  induction l generalizing off n with
  | nil =>
    obtain ⟨n, rfl⟩ : ∃ m, n = m + 1 := ⟨n - 1, by simp at short; omega⟩
    unfold cstr
    rw [if_pos (by simpa using ends)]
  | cons c l ih =>
    obtain ⟨n, rfl⟩ : ∃ m, n = m + 1 := ⟨n - 1, by simp at short; omega⟩
    have hc : b off = c := by simpa using bytes 0 (by simp)
    have hne : c ≠ 0 := fun h => noZero (by simp [h])
    have rest : cstr b (off + 1) n = l := by
      apply ih
      · simpa using short
      · exact fun h => noZero (mem_cons_of_mem _ h)
      · intro i hi
        have byte := bytes (i + 1) (by simpa using hi)
        rwa [getD_cons_succ, show off + (i + 1) = off + 1 + i by omega] at byte
      · simpa [Nat.add_comm l.length 1, Nat.add_assoc] using ends
    unfold cstr
    rw [if_neg (by rwa [hc]), hc, rest]

/-- A string that ends in its field is read as it is. -/
lemma Field.cstr_eq {size : Nat} (h : Field b off size l) (noZero : 0 ∉ l) (inField : l.length < size)
    (short : l.length < n) : cstr b off n = l := by
  refine Vfs.cstr_eq short noZero (fun i hi => h i (by omega)) ?_
  rw [h l.length inField, getD_eq_default _ _ (le_refl _)]

namespace Entry

variable {p : Nat} {e : Entry}

lemma Encoded.front_eq (h : e.Encoded b p) (wf : e.WellFormed) : cstr b (p + 345) 254 = e.front := by
  have hLen := wf.front.1
  refine cstr_eq (by omega) wf.front.2 (fun i hi => h.front i (by omega)) ?_
  -- A front that fills its field is ended by the padding of the header.
  rcases Nat.lt_or_ge e.front.length 155 with hLt | hFull
  · rw [h.front _ hLt, getD_eq_default _ _ (le_refl _)]
  · have : p + 345 + e.front.length = p + 500 + 0 := by omega
    rw [this, h.pad 0 (by decide)]
    rfl

lemma Encoded.headerPath_eq (h : e.Encoded b p) (wf : e.WellFormed) (plain : e.Plain) : headerPath b p = e.path := by
  have hShort := wf.short
  have first : b (p + 345) = 0 ↔ e.front = [] := by
    rw [show b (p + 345) = e.front.getD 0 0 from h.front 0 (by decide)]
    cases hFront : e.front with
    | nil => simp
    | cons c cs =>
      have : c ≠ 0 := fun hc => wf.front.2 (by simp [hFront, hc])
      simpa using this
  unfold headerPath path
  unfold path at hShort
  by_cases hFront : e.front = []
  · rw [if_pos (first.mpr hFront), if_pos hFront]
    rw [if_pos hFront] at hShort
    exact h.name.cstr_eq wf.name.2.2 plain.name hShort
  rw [if_neg (mt first.mp hFront), if_neg hFront]
  rw [if_neg hFront] at hShort
  simp only [length_append, length_cons] at hShort
  simp only [h.front_eq wf]
  rw [h.name.cstr_eq wf.name.2.2 plain.name (by omega)]
  rfl

lemma Encoded.magic_eq (h : e.Encoded b p) : cstr b (p + 257) 5 = text "ustar" := by
  have h0 := h.magic 0 (by decide)
  have h1 := h.magic 1 (by decide)
  have h2 := h.magic 2 (by decide)
  have h3 := h.magic 3 (by decide)
  have h4 := h.magic 4 (by decide)
  have hText : text "ustar" = [117, 115, 116, 97, 114] := by decide
  simp [cstr, hText, Nat.add_assoc, h0, h1, h2, h3, h4]

lemma Encoded.first_ne (h : e.Encoded b p) (wf : e.WellFormed) : b p ≠ 0 := by
  obtain ⟨c, cs, hName⟩ := exists_cons_of_ne_nil wf.name.1
  have : b p = c := by simpa [hName] using h.name 0 (by decide)
  rw [this]
  exact fun hc => wf.name.2.2 (by simp [hName, hc])

end Entry

variable {cs : List Name} {tail : Name} {fuel : Nat}

/-- The parts that `insert_path` cuts from a path, each with the flag `last`. -/
def flagged : List Name → List (Name × Bool)
  | [] => []
  | [c] => [(c, true)]
  | c :: d :: cs => (c, false) :: flagged (d :: cs)

lemma takeWhile_component {c rest : Name} (h : slash ∉ c) (hRest : rest = [] ∨ rest.head? = some slash) :
    (c ++ rest).takeWhile (· ≠ 47) = c := by
  induction c with
  | nil =>
    rcases hRest with rfl | hRest
    · rfl
    · obtain ⟨rest', rfl⟩ : ∃ r, rest = slash :: r := by
        cases rest with
        | nil => cases hRest
        | cons x r => exact ⟨r, by simpa using hRest⟩
      rfl
  | cons x c ih =>
    have hx : x ≠ 47 := fun hx => h (by simp [slash, hx])
    have hc : slash ∉ c := fun hc => h (mem_cons_of_mem _ hc)
    rw [cons_append, takeWhile_cons_of_pos (by simpa using hx), ih hc]

/-- One round of the loop of `insert_path`. -/
lemma pathParts_component {c rest : Name} (hne : c ≠ []) (hSlash : slash ∉ c) (hLen : c.length ≤ maxName - 1)
    (hRest : rest = [] ∨ rest.head? = some slash) :
    pathParts (fuel + 1) (c ++ rest) = (c, rest.isEmpty || rest == [47]) :: pathParts fuel rest.tail := by
  rw [pathParts]
  simp only [takeWhile_component hSlash hRest, take_of_length_le hLen, drop_left]
  rw [if_neg (by simpa using hne)]
  congr 2
  split_ifs with h
  · rfl
  · rw [hRest.resolve_right h, tail_nil]

lemma pathParts_joined (hTail : tail = [] ∨ tail = [slash])
    (fit : ∀ c ∈ cs, c ≠ [] ∧ slash ∉ c ∧ c.length ≤ maxName - 1) (enough : cs.length ≤ fuel) :
    pathParts fuel (joined cs ++ tail) = flagged cs := by
  have hTail' : tail = [] ∨ tail.head? = some slash := hTail.imp_right fun h => by rw [h]; rfl
  have hEnd (fuel : Nat) : pathParts fuel tail.tail = [] := by rcases hTail with rfl | rfl <;> cases fuel <;> rfl
  induction cs generalizing fuel with
  | nil =>
    rcases hTail with rfl | rfl <;> cases fuel <;> rfl
  | cons c cs ih =>
    obtain ⟨fuel, rfl⟩ : ∃ m, fuel = m + 1 := ⟨fuel - 1, by simp at enough; omega⟩
    obtain ⟨hne, hSlash, hLen⟩ := fit c mem_cons_self
    have fitRest : ∀ d ∈ cs, d ≠ [] ∧ slash ∉ d ∧ d.length ≤ maxName - 1 :=
      fun d hd => fit d (mem_cons_of_mem _ hd)
    cases cs with
    | nil =>
      rw [joined, pathParts_component hne hSlash hLen hTail', hEnd]
      rcases hTail with rfl | rfl <;> rfl
    | cons d cs =>
      have hd : joined (d :: cs) ≠ [] := by
        obtain ⟨x, d', hd⟩ := exists_cons_of_ne_nil (fitRest d mem_cons_self).1
        cases cs <;> simp [joined, hd]
      rw [joined, append_assoc, pathParts_component hne hSlash hLen (.inr rfl), flagged,
        ← ih fitRest (by simpa using enough)]
      simp [slash, hd]

lemma dropWhile_slashes (k : Nat) (s : Name) : (replicate k slash ++ s).dropWhile (· = 47) = s.dropWhile (· = 47) := by
  induction k with
  | zero => rfl
  | succ k ih =>
    exact ih

/-- The dots at the start of a path are dropped with the slashes around them. -/
lemma stripPath_joined (hTail : tail = [] ∨ tail = [slash]) (fit : ∀ c ∈ cs, c ≠ [] ∧ slash ∉ c) {k : Nat}
    (enough : (replicate k slash ++ joined cs ++ tail).length ≤ fuel) :
    stripPath fuel (replicate k slash ++ joined cs ++ tail) =
      if cs.dropWhile (· = text ".") = [] then [] else joined (cs.dropWhile (· = text ".")) ++ tail := by
  have hDot : text "." = [46] := by decide
  induction cs generalizing k fuel with
  | nil =>
    have hAll : (replicate k slash ++ tail).dropWhile (· = 47) = [] := by
      rw [dropWhile_slashes]
      rcases hTail with rfl | rfl <;> rfl
    cases fuel with
    | zero =>
      have : replicate k slash ++ joined [] ++ tail = [] := eq_nil_of_length_eq_zero (by omega)
      rw [this]
      rfl
    | succ fuel =>
      unfold stripPath
      simp only [joined, append_nil, hAll]
      simp
  | cons c cs ih =>
    obtain ⟨hne, hSlash⟩ := fit c mem_cons_self
    have fitRest : ∀ d ∈ cs, d ≠ [] ∧ slash ∉ d := fun d hd => fit d (mem_cons_of_mem _ hd)
    obtain ⟨x, c', rfl⟩ := exists_cons_of_ne_nil hne
    have hx : x ≠ 47 := fun hx => hSlash (by simp [slash, hx])
    -- What follows the component begins with a slash or is nothing.
    obtain ⟨j, hRest⟩ : ∃ j, joined ((x :: c') :: cs) ++ tail = x :: (c' ++ (replicate j slash ++ joined cs ++ tail)) ∧
          (replicate j slash ++ joined cs ++ tail = [] ∨
            (replicate j slash ++ joined cs ++ tail).head? = some slash) := by
      cases cs with
      | nil =>
        refine ⟨0, by simp [joined], ?_⟩
        rcases hTail with rfl | rfl <;> simp [joined]
      | cons d cs => exact ⟨1, by simp [joined], by simp⟩
    have hDrop : (replicate k slash ++ joined ((x :: c') :: cs) ++ tail).dropWhile (· = 47) =
        joined ((x :: c') :: cs) ++ tail := by
      rw [append_assoc, dropWhile_slashes, hRest.1, dropWhile_cons_of_neg (by simpa using hx)]
    obtain ⟨fuel, rfl⟩ : ∃ m, fuel = m + 1 := by
      refine ⟨fuel - 1, ?_⟩
      have : (joined ((x :: c') :: cs) ++ tail).length ≠ 0 := by simp [hRest.1]
      simp only [length_append] at enough this
      omega
    unfold stripPath
    simp only [hDrop]
    by_cases hIs : x :: c' = text "."
    · obtain ⟨rfl, rfl⟩ : x = 46 ∧ c' = [] := by simpa [hDot] using hIs
      rw [dropWhile_cons_of_pos (by simpa using hIs), hRest.1]
      have hCheck : (46 :: ([] ++ (replicate j slash ++ joined cs ++ tail)) : Name).head? = some 46 ∧
          ((46 :: ([] ++ (replicate j slash ++ joined cs ++ tail)) : Name).tail.isEmpty = true ∨
            (46 :: ([] ++ (replicate j slash ++ joined cs ++ tail)) : Name).tail.head? = some 47) :=
        ⟨rfl, hRest.2.imp_left fun h => by simp [tail_cons, h, isEmpty_nil]⟩
      rw [if_pos hCheck]
      refine ih fitRest ?_
      have := congrArg length hRest.1
      simp only [length_append, length_cons, nil_append] at enough this ⊢
      omega
    · rw [dropWhile_cons_of_neg (by simpa using hIs), if_neg, if_neg (by simp)]
      rw [hRest.1]
      rintro ⟨hHead, hNext⟩
      obtain rfl : x = 46 := by simpa using hHead
      cases c' with
      | nil => exact hIs hDot.symm
      | cons y c' =>
        have : y ≠ 47 := fun hy => hSlash (by simp [slash, hy])
        simp [this] at hNext

end YartOS.Vfs
