import YartOS.Lib.Tally
import Mathlib.Data.List.AList

/-! Sums of a weight over the entries of a finite table, as entries are inserted and
erased. -/
namespace YartOS.Tally

open List

abbrev Table (κ α : Type*) := AList fun _ : κ => α

variable {κ α : Type*} {f g : κ → α → Nat}

def weigh (f : κ → α → Nat) (t : Table κ α) : Nat := tally (fun e => f e.1 e.2) t.entries

variable [DecidableEq κ] {t : Table κ α} {k : κ} {a : α}

lemma weigh_eq_zero (h : ∀ k a, t.lookup k = some a → f k a = 0) : weigh f t = 0 :=
  tally_eq_zero_iff.mpr fun e he => h e.1 e.2 (AList.mem_lookup_iff.mpr he)

lemma tally_kerase (f : κ → α → Nat) (k : κ) (l : List (Sigma fun _ : κ => α)) :
    tally (fun e => f e.1 e.2) (l.kerase k) + (l.dlookup k).elim 0 (f k) = tally (fun e => f e.1 e.2) l := by
  induction l with
  | nil => rfl
  | cons e l ih =>
    rw [tally_cons]
    by_cases h : k = e.1
    · have erased : (e :: l).kerase k = l := kerase_cons_eq h
      have found : (e :: l).dlookup k = some e.2 := by
        subst h
        exact dlookup_cons_eq l e.1 e.2
      rw [erased, found, h]
      exact add_comm _ _
    · have erased : (e :: l).kerase k = e :: l.kerase k := kerase_cons_ne h
      have found : (e :: l).dlookup k = l.dlookup k := dlookup_cons_ne l e h
      rw [erased, found, tally_cons]
      omega

/-- Erasing a key drops the weight of its entry. -/
lemma weigh_erase (f : κ → α → Nat) (t : Table κ α) (k : κ) :
    weigh f (t.erase k) + (t.lookup k).elim 0 (f k) = weigh f t :=
  tally_kerase f k t.entries

/-- Inserting trades the weight of the old entry for that of the new one. -/
lemma weigh_insert (f : κ → α → Nat) (t : Table κ α) (k : κ) (a : α) :
    weigh f (t.insert k a) + (t.lookup k).elim 0 (f k) = weigh f t + f k a := by
  have erased := tally_kerase f k t.entries
  have inserted : weigh f (t.insert k a) = f k a + tally (fun e => f e.1 e.2) (t.entries.kerase k) := tally_cons _ _ _
  have old : (t.lookup k).elim 0 (f k) = (t.entries.dlookup k).elim 0 (f k) := rfl
  have whole : weigh f t = tally (fun e => f e.1 e.2) t.entries := rfl
  omega

/-- The weight of a table is determined by what it holds for each key. -/
lemma weigh_congr {t' : Table κ α}
    (same : ∀ k, (t.lookup k).elim 0 (f k) = (t'.lookup k).elim 0 (g k)) : weigh f t = weigh g t' := by
  induction t using AList.insertRec generalizing t' with
  | H0 =>
    refine (weigh_eq_zero fun k a hk => ?_).symm
    have := same k
    rw [hk] at this
    exact this.symm
  | IH k a t fresh ih =>
    have inserted := weigh_insert f t k a
    rw [AList.lookup_eq_none.mpr fresh] at inserted
    have erased := weigh_erase g t' k
    have hk := same k
    rw [AList.lookup_insert] at hk
    have rest : weigh f t = weigh g (t'.erase k) := by
      refine ih fun j => ?_
      by_cases hj : j = k
      · subst hj
        rw [AList.lookup_eq_none.mpr fresh, AList.lookup_erase]
        rfl
      · rw [AList.lookup_erase_ne hj, ← same j, AList.lookup_insert_ne hj]
    simp only [Option.elim_none, Option.elim_some] at inserted hk
    omega

/-- A weight that is a sum of two. -/
lemma weigh_add {h : κ → α → Nat} (sum : ∀ k a, t.lookup k = some a → h k a = f k a + g k a) :
    weigh h t = weigh f t + weigh g t := by
  have := tally_add (l := t.entries) (f := fun e => f e.1 e.2) (g := fun e => g e.1 e.2)
    (h := fun e => h e.1 e.2) fun e he => sum e.1 e.2 (AList.mem_lookup_iff.mpr he)
  exact this

/-- The weight of the entries whose keys are in a list without repetitions. -/
lemma weigh_of_mem (f : κ → α → Nat) (t : Table κ α) {l : List κ} (nodup : l.Nodup) :
    weigh (fun k a => if k ∈ l then f k a else 0) t = tally (fun k => (t.lookup k).elim 0 (f k)) l := by
  induction l with
  | nil => exact weigh_eq_zero fun k a _ => if_neg (by simp)
  | cons k l ih =>
    obtain ⟨hk, nodup⟩ := nodup_cons.mp nodup
    rw [tally_cons, ← ih nodup]
    have one : weigh (fun j a => if j = k then f j a else 0) t = (t.lookup k).elim 0 (f k) := by
      have erased := weigh_erase (fun j a => if j = k then f j a else 0) t k
      have none : weigh (fun j a => if j = k then f j a else 0) (t.erase k) = 0 := by
        refine weigh_eq_zero fun j a hj => if_neg ?_
        rintro rfl
        rw [AList.lookup_erase] at hj
        cases hj
      rw [none, zero_add] at erased
      simpa using erased.symm
    rw [← one]
    refine weigh_add fun j a _ => ?_
    by_cases hj : j = k
    · simp [hj, hk]
    · simp [hj]

end YartOS.Tally
