import YartOS.Vfs.Paths

/-! When the resolution of links comes back: each round of `resolve_link` looks a path up, which
resolves links again. -/
namespace YartOS.Vfs

open Fs List Option

namespace Files

/-- `resolve_link`, with a bound on the nesting of lookups. -/
def resolveLink (s : Files) (fuel v : Nat) : Option (Option Nat) := s.followLinks (s.vfsLookupAt fuel) 8 v

def linkBase (s : Files) (v : Nat) : Option Nat :=
  if (s.linkTarget v).head? = some slash then some rootNode else (s.node v).parent

def IsLink (s : Files) (v : Nat) : Prop := (s.node v).kind = .symlink ∧ s.linkTarget v ≠ []

/-- No link is a directory: the root and all parents are no links. -/
structure PlainParents (s : Files) : Prop where
  root : (s.node rootNode).kind ≠ .symlink
  parents : ∀ v p, (s.node v).parent = some p → (s.node p).kind ≠ .symlink

variable {s : Files} {fuel fuel' cur v w u n : Nat} {names : List Name} {follow : Bool}
  {resolve resolve' : Nat → Option (Option Nat)} {r r' : Option Nat}
  {lookup lookup' : Option Nat → Name → Option (Option Nat)}

/-- The part of a path names a child. -/
def Proper (part : Name) : Prop := ¬ (part.isEmpty ∨ part = text ".") ∧ part ≠ text ".."

def thenFrom (found : Option Nat) (next : Nat → Option (Option Nat)) : Option (Option Nat) :=
  found.elim (some none) next

/-- A part is skipped, leads up, or names a child. -/
lemma walk_cases (s : Files) (cur : Nat) (part : Name) (rest : List Name) :
    (∀ resolve follow, s.walk resolve follow cur (part :: rest) = s.walk resolve follow cur rest) ∨
      (∀ resolve follow, s.walk resolve follow cur (part :: rest) =
        s.walk resolve follow ((s.node cur).parent.getD cur) rest) ∨ Proper part := by
  by_cases hSkip : part.isEmpty ∨ part = text "."
  · exact .inl fun _ _ => by rw [walk, if_pos hSkip]
  by_cases hUp : part = text ".."
  · exact .inr (.inl fun _ _ => by rw [walk, if_neg hSkip, if_pos hUp])
  · exact .inr (.inr ⟨hSkip, hUp⟩)

variable {part : Name} {rest : List Name}

lemma walk_missing (proper : Proper part) (missing : s.findChild cur part = none) :
    s.walk resolve follow cur (part :: rest) = some none := by
  rw [walk, if_neg proper.1, if_neg proper.2, missing]

lemma walk_last (proper : Proper part) (found : s.findChild cur part = some u) :
    s.walk resolve false cur [part] = some (some u) := by
  rw [walk, if_neg proper.1, if_neg proper.2, found]
  rfl

lemma walk_child (proper : Proper part) (found : s.findChild cur part = some u)
    (resolved : follow = true ∨ rest ≠ []) : s.walk resolve follow cur (part :: rest) =
      (resolve u).bind fun found => thenFrom found fun v => s.walk resolve follow v rest := by
  have hResolved : ¬ (rest.isEmpty = true ∧ (!follow) = true) := by
    rintro ⟨hRest, hFollow⟩
    rcases resolved with rfl | h
    · cases hFollow
    · exact h (List.isEmpty_iff.mp hRest)
  rw [walk, if_neg proper.1, if_neg proper.2, found]
  simp only [if_neg hResolved]
  rcases resolve u with _ | _ | v <;> rfl

lemma followLinks_plain (h : (s.node v).kind ≠ .symlink) : s.followLinks lookup n v = some (some v) := by
  cases n with
  | zero => rfl
  | succ n => rw [followLinks, if_pos h]

lemma followLinks_empty (h : (s.node v).kind = .symlink) (empty : s.linkTarget v = []) :
    s.followLinks lookup (n + 1) v = some none := by
  rw [followLinks, if_neg (not_not.mpr h)]
  simp [empty]

lemma followLinks_link (link : s.IsLink v) : s.followLinks lookup (n + 1) v =
      (lookup (s.linkBase v) (s.linkTarget v)).bind fun found =>
        thenFrom found fun w => s.followLinks lookup n w := by
  rw [followLinks, if_neg (not_not.mpr link.1)]
  simp only [List.isEmpty_iff, link.2, if_false]
  unfold linkBase
  rcases lookup _ (s.linkTarget v) with _ | _ | w <;> rfl

/-- A vnode is no link, a link without a target, or a link. -/
lemma link_cases (s : Files) (v : Nat) : (s.node v).kind ≠ .symlink ∨
    ((s.node v).kind = .symlink ∧ s.linkTarget v = []) ∨ s.IsLink v := by
  by_cases hKind : (s.node v).kind = .symlink
  · by_cases hTarget : s.linkTarget v = []
    · exact .inr (.inl ⟨hKind, hTarget⟩)
    · exact .inr (.inr ⟨hKind, hTarget⟩)
  · exact .inl hKind

/-- A walk comes back with every resolver that comes back more often. -/
lemma walk_mono (more : ∀ v r, resolve v = some r → resolve' v = some r)
    (h : s.walk resolve follow cur names = some r) : s.walk resolve' follow cur names = some r := by
  induction names generalizing cur with
  | nil => exact h
  | cons part rest ih =>
    rcases walk_cases s cur part rest with skip | up | proper
    · rw [skip] at h ⊢
      exact ih h
    · rw [up] at h ⊢
      exact ih h
    cases hChild : s.findChild cur part with
    | none => rwa [walk_missing proper hChild] at h ⊢
    | some child =>
      by_cases resolved : follow = true ∨ rest ≠ []
      · rw [walk_child proper hChild resolved] at h ⊢
        obtain ⟨found, hFound, hNext⟩ := bind_eq_some_iff.mp h
        rw [more child found hFound, bind_some]
        cases found with
        | none => exact hNext
        | some v => exact ih hNext
      · rw [not_or, not_not, Bool.not_eq_true] at resolved
        obtain ⟨rfl, rfl⟩ := resolved
        rwa [walk_last proper hChild] at h ⊢

lemma followLinks_mono (more : ∀ cwd path r, lookup cwd path = some r → lookup' cwd path = some r)
    (h : s.followLinks lookup n v = some r) : s.followLinks lookup' n v = some r := by
  induction n generalizing v with
  | zero => exact h
  | succ n ih =>
    rcases s.link_cases v with plain | ⟨hKind, empty⟩ | link
    · rwa [followLinks_plain plain] at h ⊢
    · rwa [followLinks_empty hKind empty] at h ⊢
    rw [followLinks_link link] at h ⊢
    obtain ⟨found, hFound, hNext⟩ := bind_eq_some_iff.mp h
    rw [more _ _ found hFound, bind_some]
    cases found with
    | none => exact hNext
    | some w => exact ih hNext

variable {cwd : Option Nat} {path : Name}

/-- A lookup that comes back does not depend on the bound. -/
lemma vfsLookupAt_mono (le : fuel ≤ fuel')
    (h : s.vfsLookupAt fuel cwd path = some r) : s.vfsLookupAt fuel' cwd path = some r := by
  induction fuel generalizing fuel' cwd path r with
  | zero => cases h
  | succ fuel ih =>
    obtain ⟨m, rfl⟩ : ∃ m, fuel' = m + 1 := ⟨fuel' - 1, by omega⟩
    rw [vfsLookupAt_succ] at h ⊢
    refine walk_mono (fun v r hv => ?_) h
    exact followLinks_mono (fun cwd path r => ih (by omega)) hv

lemma resolveLink_mono (le : fuel ≤ fuel') (h : s.resolveLink fuel v = some r) : s.resolveLink fuel' v = some r :=
  followLinks_mono (fun _ _ _ => vfsLookupAt_mono le) h

def Resolves (s : Files) (v : Nat) (r : Option Nat) : Prop := ∃ fuel, s.resolveLink fuel v = some r

lemma Resolves.eq (first : s.Resolves v r) (second : s.Resolves v r') : r = r' := by
  obtain ⟨fuel, h⟩ := first
  obtain ⟨fuel', h'⟩ := second
  have := resolveLink_mono (le_max_left fuel fuel') h
  rw [resolveLink_mono (le_max_right fuel fuel') h'] at this
  exact (some.inj this).symm

def FindsPlain (s : Files) (resolve : Nat → Option (Option Nat)) : Prop :=
  ∀ u w, resolve u = some (some w) → (s.node w).kind ≠ .symlink

lemma PlainParents.up (plain : PlainParents s) (h : (s.node cur).kind ≠ .symlink) :
    (s.node ((s.node cur).parent.getD cur)).kind ≠ .symlink := by
  cases hParent : (s.node cur).parent with
  | none => exact h
  | some p => exact plain.parents cur p hParent

lemma walk_plain (plain : PlainParents s) (finds : FindsPlain s resolve) (hCur : (s.node cur).kind ≠ .symlink)
    (h : s.walk resolve true cur names = some (some w)) : (s.node w).kind ≠ .symlink := by
  induction names generalizing cur with
  | nil =>
    cases h
    exact hCur
  | cons part rest ih =>
    rcases walk_cases s cur part rest with skip | up | proper
    · rw [skip] at h
      exact ih hCur h
    · rw [up] at h
      exact ih (plain.up hCur) h
    cases hChild : s.findChild cur part with
    | none =>
      rw [walk_missing proper hChild] at h
      cases h
    | some child =>
      rw [walk_child proper hChild (.inl rfl)] at h
      obtain ⟨found, hFound, hNext⟩ := bind_eq_some_iff.mp h
      cases found with
      | none => cases hNext
      | some v => exact ih (finds child v hFound) hNext

lemma PlainParents.start (plain : PlainParents s) (v : Nat) :
    (s.node (start (s.linkBase v) (s.linkTarget v))).kind ≠ .symlink := by
  unfold Files.start linkBase
  split_ifs
  · exact plain.root
  · cases hParent : (s.node v).parent with
    | none => exact plain.root
    | some p => exact plain.parents v p hParent

/-- Where target lookups find no links, one round is enough. -/
lemma followLinks_once (link : s.IsLink v)
    (finds : ∀ w, lookup (s.linkBase v) (s.linkTarget v) = some (some w) → (s.node w).kind ≠ .symlink) :
    s.followLinks lookup (n + 1) v = lookup (s.linkBase v) (s.linkTarget v) := by
  rw [followLinks_link link]
  cases hFound : lookup (s.linkBase v) (s.linkTarget v) with
  | none => rfl
  | some found =>
    cases found with
    | none => rfl
    | some w => exact followLinks_plain (finds w hFound)

lemma followLinks_findsPlain
    (finds : ∀ v w, lookup (s.linkBase v) (s.linkTarget v) = some (some w) → (s.node w).kind ≠ .symlink) :
    FindsPlain s (s.followLinks lookup (n + 1)) := by
  intro v w h
  rcases s.link_cases v with hPlain | ⟨hKind, empty⟩ | link
  · rw [followLinks_plain hPlain] at h
    cases h
    exact hPlain
  · rw [followLinks_empty hKind empty] at h
    cases h
  · rw [followLinks_once link (finds v)] at h
    exact finds v w h

lemma lookup_plain (plain : PlainParents s) (hStart : (s.node (start cwd path)).kind ≠ .symlink)
    (h : s.vfsLookupAt fuel cwd path = some (some w)) : (s.node w).kind ≠ .symlink := by
  induction fuel generalizing cwd path w with
  | zero => cases h
  | succ fuel ih =>
    rw [vfsLookupAt_succ] at h
    exact walk_plain plain (followLinks_findsPlain fun v w => ih (plain.start v)) hStart h

lemma resolveLink_link (plain : PlainParents s) (link : s.IsLink v) :
    s.resolveLink fuel v = s.vfsLookupAt fuel (s.linkBase v) (s.linkTarget v) :=
  followLinks_once link fun _ => lookup_plain plain (plain.start v)

/-- A walk from `cur` comes to the child `u`, in front of any link. -/
inductive Passes (s : Files) : Nat → List Name → Nat → Prop where
  | skip {cur u : Nat} {part : Name} {rest : List Name} (h : part.isEmpty ∨ part = text ".")
      (later : Passes s cur rest u) : Passes s cur (part :: rest) u
  | up {cur u : Nat} {rest : List Name} (later : Passes s ((s.node cur).parent.getD cur) rest u) :
      Passes s cur (text ".." :: rest) u
  | here {cur u : Nat} {part : Name} {rest : List Name} (proper : Proper part)
      (found : s.findChild cur part = some u) : Passes s cur (part :: rest) u
  | later {cur u v w : Nat} {part : Name} {rest : List Name} (proper : Proper part)
      (found : s.findChild cur part = some v) (resolved : s.Resolves v (some w))
      (later : Passes s w rest u) : Passes s cur (part :: rest) u

/-- A walk over a name comes to the child of that name first. -/
lemma Passes.cases_child (passes : s.Passes cur (part :: rest) u) (proper : Proper part)
    (found : s.findChild cur part = some v) : u = v ∨ ∃ w, s.Passes w rest u := by
  cases passes with
  | skip h _ => exact absurd h proper.1
  | up _ => exact absurd rfl proper.2
  | here _ found' =>
    rw [found] at found'
    exact .inl (some.inj found').symm
  | later _ _ _ later => exact .inr ⟨_, later⟩

def Meets (s : Files) (u v : Nat) : Prop :=
  s.IsLink v ∧ s.IsLink u ∧ s.Passes (start (s.linkBase v) (s.linkTarget v)) (parts (s.linkTarget v)) u

/-- A walk comes back if every vnode that it comes to resolves. -/
lemma walk_returns (follow : Bool) (resolves : ∀ u, s.Passes cur names u → ∃ r, s.Resolves u r) :
    ∃ fuel r, s.walk (s.resolveLink fuel) follow cur names = some r := by
  induction names generalizing cur with
  | nil => exact ⟨0, some cur, rfl⟩
  | cons part rest ih =>
    by_cases hSkip : part.isEmpty ∨ part = text "."
    · obtain ⟨fuel, r, h⟩ := ih fun u hu => resolves u (.skip hSkip hu)
      exact ⟨fuel, r, by rw [walk, if_pos hSkip, h]⟩
    by_cases hUp : part = text ".."
    · subst hUp
      obtain ⟨fuel, r, h⟩ := ih fun u hu => resolves u (.up hu)
      exact ⟨fuel, r, by rw [walk, if_neg hSkip, if_pos rfl, h]⟩
    have proper : Proper part := ⟨hSkip, hUp⟩
    cases hChild : s.findChild cur part with
    | none => exact ⟨0, none, walk_missing proper hChild⟩
    | some child =>
      by_cases resolved : follow = true ∨ rest ≠ []
      · obtain ⟨r, fuel, hr⟩ := resolves child (.here proper hChild)
        cases r with
        | none => exact ⟨fuel, none, by rw [walk_child proper hChild resolved, hr]; rfl⟩
        | some v =>
          obtain ⟨fuel', r', h⟩ := ih fun u hu =>
            resolves u (.later proper hChild ⟨fuel, hr⟩ hu)
          refine ⟨max fuel fuel', r', ?_⟩
          rw [walk_child proper hChild resolved, resolveLink_mono (le_max_left _ _) hr]
          exact walk_mono (fun _ _ => resolveLink_mono (le_max_right _ _)) h
      · rw [not_or, not_not, Bool.not_eq_true] at resolved
        obtain ⟨rfl, rfl⟩ := resolved
        exact ⟨0, some child, walk_last proper hChild⟩

/-- A walk that comes back has resolved every vnode that it came to. -/
lemma resolved_of_walk (h : s.walk (s.resolveLink fuel) true cur names = some r)
    (passes : s.Passes cur names u) : ∃ r, s.resolveLink fuel u = some r := by
  induction passes with
  | skip hSkip _ ih =>
    rw [walk, if_pos hSkip] at h
    exact ih h
  | up _ ih =>
    exact ih h
  | here proper found =>
    rw [walk_child proper found (.inl rfl)] at h
    obtain ⟨r, hr, -⟩ := bind_eq_some_iff.mp h
    exact ⟨r, hr⟩
  | later proper found resolved _ ih =>
    rw [walk_child proper found (.inl rfl)] at h
    obtain ⟨found', hFound, hNext⟩ := bind_eq_some_iff.mp h
    obtain rfl := Resolves.eq ⟨fuel, hFound⟩ resolved
    exact ih hNext

def Returns (s : Files) : Prop :=
  ∀ cwd path, (∃ fuel r, s.vfsLookupAt fuel cwd path = some r) ∧ ∃ fuel r, s.vfsLookupAtNofollow fuel cwd path = some r

lemma resolves_of_wellFounded (plain : PlainParents s) (wf : WellFounded s.Meets) (v : Nat) : ∃ r, s.Resolves v r := by
  induction v using wf.induction with
  | _ v ih =>
    rcases s.link_cases v with hPlain | ⟨hKind, empty⟩ | link
    · exact ⟨some v, 0, followLinks_plain hPlain⟩
    · exact ⟨none, 0, followLinks_empty hKind empty⟩
    have each : ∀ u, s.Passes (start (s.linkBase v) (s.linkTarget v)) (parts (s.linkTarget v)) u →
        ∃ r, s.Resolves u r := by
      intro u hu
      rcases s.link_cases u with hPlain | ⟨hKind, empty⟩ | link'
      · exact ⟨some u, 0, followLinks_plain hPlain⟩
      · exact ⟨none, 0, followLinks_empty hKind empty⟩
      · exact ih u ⟨link, link', hu⟩
    obtain ⟨fuel, r, h⟩ := walk_returns true each
    refine ⟨r, fuel + 1, ?_⟩
    rw [resolveLink_link plain link, vfsLookupAt_succ]
    exact h

lemma returns_of_wellFounded (plain : PlainParents s) (wf : WellFounded s.Meets) : s.Returns := by
  intro cwd path
  have walks : ∀ follow cur names, ∃ fuel r, s.walk (s.resolveLink fuel) follow cur names = some r :=
    fun follow _ _ => walk_returns follow fun u _ => resolves_of_wellFounded plain wf u
  constructor
  · obtain ⟨fuel, r, h⟩ := walks true (start cwd path) (parts path)
    exact ⟨fuel + 1, r, (vfsLookupAt_succ fuel cwd path).trans h⟩
  · unfold vfsLookupAtNofollow lookupFrom
    split_ifs
    · exact ⟨0, _, rfl⟩
    · exact walks false _ _
    · exact walks false _ _

/-- Where lookups come back, resolving nests less for links met. -/
lemma wellFounded_of_returns (plain : PlainParents s) (returns : s.Returns) : WellFounded s.Meets := by
  have resolves : ∀ v, ∃ fuel, (s.resolveLink fuel v).isSome := by
    intro v
    rcases s.link_cases v with hPlain | ⟨hKind, empty⟩ | link
    · exact ⟨0, by rw [resolveLink, followLinks_plain hPlain]; rfl⟩
    · exact ⟨0, by rw [resolveLink, followLinks_empty hKind empty]; rfl⟩
    · obtain ⟨fuel, r, h⟩ := (returns (s.linkBase v) (s.linkTarget v)).1
      exact ⟨fuel, by rw [resolveLink_link plain link, h]; rfl⟩
  classical
  refine Subrelation.wf ?_ (measure fun v => Nat.find (resolves v)).wf
  rintro u v ⟨link, -, passes⟩
  have hv := Nat.find_spec (resolves v)
  rw [resolveLink_link plain link] at hv
  obtain ⟨r, hr⟩ := isSome_iff_exists.mp hv
  cases hFuel : Nat.find (resolves v) with
  | zero =>
    rw [hFuel] at hr
    cases hr
  | succ fuel =>
    rw [hFuel, vfsLookupAt_succ] at hr
    obtain ⟨r', hr'⟩ := resolved_of_walk hr passes
    change Nat.find (resolves u) < Nat.find (resolves v)
    rw [hFuel]
    exact Nat.lt_succ_of_le (Nat.find_min' _ (by rw [hr']; rfl))

/-- The target of the link `v` leads to `u`; a link at its end is not followed. -/
def LeadsTo (s : Files) (v u : Nat) : Prop :=
  s.IsLink v ∧ ∃ fuel, s.vfsLookupAtNofollow fuel (s.linkBase v) (s.linkTarget v) = some (some u)

/-- A chain of `n` links from `v` to `w`. -/
inductive Chain (s : Files) : Nat → Nat → Nat → Prop where
  | nil {v : Nat} : Chain s 0 v v
  | cons {n v u w : Nat} (first : s.LeadsTo v u) (rest : Chain s n u w) : Chain s (n + 1) v w

/-- A walk with the last link followed finds what that link resolves to. -/
lemma walk_of_nofollow (plain : PlainParents s) (hCur : (s.node cur).kind ≠ .symlink)
    (h : s.walk (s.resolveLink fuel) false cur names = some (some u))
    (resolved : s.resolveLink fuel u = some (some w)) : s.walk (s.resolveLink fuel) true cur names = some (some w) := by
  induction names generalizing cur with
  | nil =>
    cases h
    rw [resolveLink, followLinks_plain hCur] at resolved
    exact resolved
  | cons part rest ih =>
    rcases walk_cases s cur part rest with skip | up | proper
    · rw [skip] at h ⊢
      exact ih hCur h
    · rw [up] at h ⊢
      exact ih (plain.up hCur) h
    cases hChild : s.findChild cur part with
    | none =>
      rw [walk_missing proper hChild] at h
      cases h
    | some child =>
      rw [walk_child proper hChild (.inl rfl)]
      by_cases hRest : rest = []
      · subst hRest
        rw [walk_last proper hChild] at h
        cases h
        rw [resolved]
        rfl
      · rw [walk_child proper hChild (.inr hRest)] at h
        obtain ⟨found, hFound, hNext⟩ := bind_eq_some_iff.mp h
        rw [hFound, bind_some]
        cases found with
        | none => cases hNext
        | some v => exact ih (followLinks_findsPlain (fun v _ => lookup_plain plain (plain.start v)) child v hFound) hNext

/-- A link resolves to what the next in the chain resolves to. -/
lemma LeadsTo.resolves (plain : PlainParents s) (leads : s.LeadsTo v u)
    (next : s.Resolves u (some w)) : s.Resolves v (some w) := by
  obtain ⟨link, fuel, h⟩ := leads
  obtain ⟨fuel', hNext⟩ := next
  have resolved := resolveLink_mono (le_max_right fuel fuel') hNext
  have hStart := plain.start v
  refine ⟨max fuel fuel' + 1, ?_⟩
  rw [resolveLink_link plain link]
  change s.lookupFrom (s.resolveLink (max fuel fuel')) true _ _ = _
  change s.lookupFrom (s.resolveLink fuel) false _ _ = _ at h
  unfold lookupFrom at h ⊢
  by_cases hRoot : (s.linkTarget v).isEmpty ∨ s.linkTarget v = [slash]
  · rw [if_pos hRoot] at h ⊢
    cases h
    rwa [resolveLink, followLinks_plain hStart] at resolved
  · rw [if_neg hRoot] at h ⊢
    exact walk_of_nofollow plain hStart (walk_mono (fun _ _ => resolveLink_mono (le_max_left fuel fuel')) h) resolved

lemma Chain.resolves (plain : PlainParents s) (chain : s.Chain n v w)
    (hEnd : (s.node w).kind ≠ .symlink) : s.Resolves v (some w) := by
  induction chain with
  | nil => exact ⟨0, followLinks_plain hEnd⟩
  | cons first _ ih => exact first.resolves plain (ih hEnd)

/-- Lookups come back, and chains of more than 8 links are not followed. -/
structure LinksBounded (s : Files) : Prop where
  returns : s.Returns
  stops : ∀ n v w, 8 < n → s.Chain n v w → (s.node w).kind ≠ .symlink → ¬ s.Resolves v (some w)

/-- Both hold iff links do not lead back and no chain exceeds 8. -/
theorem linksBounded_iff (plain : PlainParents s) : s.LinksBounded ↔ WellFounded s.Meets ∧
      ∀ n v w, s.Chain n v w → (s.node w).kind ≠ .symlink → n ≤ 8 := by
  constructor
  · rintro ⟨returns, stops⟩
    refine ⟨wellFounded_of_returns plain returns, fun n v w chain hEnd => ?_⟩
    by_contra hLong
    exact stops n v w (by omega) chain hEnd (chain.resolves plain hEnd)
  · rintro ⟨wf, short⟩
    refine ⟨returns_of_wellFounded plain wf, fun n v w hLong chain hEnd => ?_⟩
    have := short n v w chain hEnd
    omega

def letter (v : Nat) : Name := [UInt8.ofNat (96 + v)]

def linkRow (targets : List Name) : Files where
  node := fun v =>
    if v = rootNode then
      { name := [], kind := .dir, children := (range (targets.length + 1)).map (· + 1) }
    else if v ≤ targets.length then
      { name := letter v, kind := .symlink, parent := some rootNode
        size := (targets.getD (v - 1) []).length
        data := ofBytes (targets.getD (v - 1) []) }
    else { name := letter v, kind := .file, parent := some rootNode }
  next := targets.length + 2

lemma linkRow_plain (targets : List Name) : PlainParents (linkRow targets) := by
  refine ⟨by simp [linkRow], fun v p hp => ?_⟩
  have : p = rootNode := by
    simp only [linkRow] at hp
    split_ifs at hp
    · exact (some.inj hp).symm
    · exact (some.inj hp).symm
  rw [this]
  simp [linkRow]

/-- A link to a file keeps to the bounds. -/
theorem linksBounded_of_one_link : (linkRow [letter 2]).LinksBounded := by
  have hParts : parts (letter 2) = [letter 2] := by decide +kernel
  have hChild : (linkRow [letter 2]).findChild rootNode (letter 2) = some 2 := by decide +kernel
  have proper : Proper (letter 2) := by unfold Proper; decide +kernel
  have hTarget : (linkRow [letter 2]).linkTarget 1 = letter 2 := by decide +kernel
  have hBase : (linkRow [letter 2]).linkBase 1 = some rootNode := by decide +kernel
  have only : ∀ v, (linkRow [letter 2]).IsLink v → v = 1 := by
    rintro v ⟨hKind, -⟩
    simp only [linkRow] at hKind
    split_ifs at hKind with hRoot hLink
    simp only [length_cons, length_nil] at hLink
    unfold rootNode at hRoot
    omega
  rw [linksBounded_iff (linkRow_plain _)]
  constructor
  · refine ⟨fun v => ⟨v, fun u meets => ?_⟩⟩
    obtain ⟨hv, hu, passes⟩ := meets
    rw [only v hv, only u hu, hTarget, hBase, hParts] at passes
    rcases passes.cases_child proper hChild with h | ⟨w, later⟩
    · exact absurd h (by decide)
    · cases later
  intro n v w chain _
  cases chain with
  | nil => exact Nat.zero_le 8
  | cons first rest =>
    obtain ⟨hv, fuel, h⟩ := first
    rw [only v hv, hTarget, hBase] at h
    cases h
    cases rest with
    | nil => decide
    | cons second _ => exact absurd (only 2 second.1) (by decide)

/-- A link to itself: its lookup never comes back. -/
lemma self_link_never_returns (fuel : Nat) :
    (linkRow [letter 1]).vfsLookupAt fuel (some rootNode) (letter 1) = none := by
  induction fuel with
  | zero => rfl
  | succ fuel ih =>
    have hChild : (linkRow [letter 1]).findChild rootNode (letter 1) = some 1 := by decide +kernel
    have proper : Proper (letter 1) := by unfold Proper; decide +kernel
    have hTarget : (linkRow [letter 1]).linkTarget 1 = letter 1 := by decide +kernel
    have hBase : (linkRow [letter 1]).linkBase 1 = some rootNode := by decide +kernel
    have link : (linkRow [letter 1]).IsLink 1 := ⟨rfl, by rw [hTarget]; decide⟩
    change (linkRow [letter 1]).walk _ true rootNode [letter 1] = none
    rw [walk_child proper hChild (.inl rfl)]
    change ((linkRow [letter 1]).resolveLink fuel 1).bind _ = none
    rw [resolveLink_link (linkRow_plain _) link, hTarget, hBase, ih]
    rfl

def nineTargets : List Name := (range 9).map fun i => letter (i + 2)

lemma nine_chain (k : Nat) (hk : k ≤ 9) : (linkRow nineTargets).Chain k (10 - k) 10 := by
  have leads : ∀ v < 9, ((linkRow nineTargets).node (v + 1)).kind = .symlink ∧
      (linkRow nineTargets).linkTarget (v + 1) ≠ [] ∧
      (linkRow nineTargets).vfsLookupAtNofollow 0 ((linkRow nineTargets).linkBase (v + 1))
        ((linkRow nineTargets).linkTarget (v + 1)) = some (some (v + 2)) := by decide +kernel
  induction k with
  | zero => exact .nil
  | succ k ih =>
    obtain ⟨hKind, hTarget, hNext⟩ := leads (8 - k) (by omega)
    rw [show 8 - k + 1 = 10 - (k + 1) by omega, show 8 - k + 2 = 10 - k by omega] at *
    exact .cons ⟨⟨hKind, hTarget⟩, 0, hNext⟩ (ih (by omega))

/-- A link to itself is followed for ever, and nine in a row to the end. -/
theorem links_not_bounded : ¬ (linkRow [letter 1]).LinksBounded ∧
    (linkRow nineTargets).Chain 9 1 10 ∧ (linkRow nineTargets).Resolves 1 (some 10) := by
  refine ⟨fun bounded => ?_, ?_, ?_⟩
  · obtain ⟨fuel, r, h⟩ := (bounded.returns (some rootNode) (letter 1)).1
    rw [self_link_never_returns] at h
    cases h
  · exact nine_chain 9 le_rfl
  · exact ⟨9, by decide +kernel⟩

end Files

end YartOS.Vfs
