import Mathlib.Order.Interval.Finset.Nat

/-!
# Runs of a list of numbers

`runs` puts numbers that follow each other together. A `Run` is never empty. For
increasing numbers the runs are the maximal ranges of the set: they have the same members
(`mem_runs`), there is a number missing between one and the next (`runs_apart`), and their
lengths add up to the number of members (`total_runs`).
-/

set_option autoImplicit false

namespace Vzgot.Runs

/-- The numbers from `first` to `last`. -/
structure Run where
  first : Nat
  last : Nat
  le : first ≤ last

/-- The run of one number. -/
def Run.single (i : Nat) : Run := ⟨i, i, Nat.le_refl i⟩

/-- The members of a run. -/
def Run.members (r : Run) : Finset Nat := Finset.Icc r.first r.last

/-- How many they are. -/
def Run.count (r : Run) : Nat := r.last - r.first + 1

/-- Members of all the runs. -/
def total : List Run → Nat
  | [] => 0
  | r :: rs => r.count + total rs

/-- One number in front: the first run takes it if it begins right behind. -/
def push (i : Nat) : List Run → List Run
  | [] => [Run.single i]
  | r :: rs =>
      if h : r.first = i + 1 then ⟨i, r.last, by have := r.le; omega⟩ :: rs
      else Run.single i :: r :: rs

/-- The numbers put together in runs. -/
def runs : List Nat → List Run
  | [] => []
  | i :: l => push i (runs l)

theorem total_push (i : Nat) (rs : List Run) : total (push i rs) = total rs + 1 := by
  cases rs with
  | nil => simp [push, total, Run.count, Run.single]
  | cons r rs =>
      rw [push]
      split
      · rename_i h
        have hle := r.le
        simp only [total, Run.count]
        omega
      · simp only [total, Run.count, Run.single]
        omega

/-- The lengths of the runs add up to the length of the list. -/
theorem total_runs (l : List Nat) : total (runs l) = l.length := by
  induction l with
  | nil => rfl
  | cons i l ih => rw [runs, total_push, ih, List.length_cons]

theorem Run.mem_members {r : Run} {j : Nat} : j ∈ r.members ↔ r.first ≤ j ∧ j ≤ r.last :=
  Finset.mem_Icc

theorem Run.mem_single {i j : Nat} : j ∈ (Run.single i).members ↔ j = i :=
  Run.mem_members.trans (and_comm.trans le_antisymm_iff.symm)

theorem mem_push {i j : Nat} {rs : List Run} :
    (∃ r ∈ push i rs, j ∈ r.members) ↔ j = i ∨ ∃ r ∈ rs, j ∈ r.members := by
  cases rs with
  | nil => simp [push, Run.mem_single]
  | cons r rs =>
      rw [push]
      split
      · rename_i h
        have hle := r.le
        have hhead : i ≤ j ∧ j ≤ r.last ↔ j = i ∨ r.first ≤ j ∧ j ≤ r.last := by omega
        simp only [List.mem_cons, exists_eq_or_imp, Run.mem_members, hhead, or_assoc]
      · simp only [List.mem_cons, exists_eq_or_imp, Run.mem_single]

/-- The runs have the members of the list. -/
theorem mem_runs {j : Nat} {l : List Nat} : (∃ r ∈ runs l, j ∈ r.members) ↔ j ∈ l := by
  induction l with
  | nil => simp [runs]
  | cons i l ih => rw [runs, mem_push, ih, List.mem_cons]

/-- Runs that keep a number free between one and the next. -/
def Apart (rs : List Run) : Prop := rs.Pairwise fun r s => r.last + 1 < s.first

theorem Apart.push {i : Nat} {rs : List Run} (h : Apart rs) (hi : ∀ r ∈ rs, i < r.first) :
    Apart (push i rs) := by
  cases rs with
  | nil => exact List.pairwise_singleton _ _
  | cons r rs =>
      obtain ⟨hhead, htail⟩ := List.pairwise_cons.mp h
      have hle := r.le
      rw [Runs.push]
      split
      · exact List.pairwise_cons.mpr ⟨hhead, htail⟩
      · rename_i hgap
        have hr := hi r List.mem_cons_self
        refine List.pairwise_cons.mpr ⟨List.forall_mem_cons.mpr ⟨?_, fun s hs => ?_⟩, h⟩
        · simp only [Run.single]
          omega
        · have hs := hhead s hs
          simp only [Run.single]
          omega

/-- The runs of an increasing list are maximal. -/
theorem runs_apart {l : List Nat} (h : l.Pairwise (· < ·)) : Apart (runs l) := by
  induction l with
  | nil => exact List.Pairwise.nil
  | cons i l ih =>
      obtain ⟨hhead, htail⟩ := List.pairwise_cons.mp h
      refine (ih htail).push fun r hr => hhead _ (mem_runs.mp ⟨r, hr, ?_⟩)
      exact Run.mem_members.mpr ⟨Nat.le_refl _, r.le⟩

end Vzgot.Runs
