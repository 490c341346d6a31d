import Mathlib.Data.List.Basic

/-!
# Path resolution

A directory is the list of its components below the root, innermost first. `walk`
follows a list of components from a directory: an empty component and `.` stay, `..`
goes to the parent, and the root is its own parent. `resolve` reads an absolute path.

`relative` reads components without a directory: how many directories they climb, and
what they then descend. `walk_eq` says that this is all a walk depends on.

`resolve` does not ask which directories there are. `Passable` says that those which a path
leaves again by `..` are among the given ones.
-/

set_option autoImplicit false

namespace Vzgot.Path

/-- Components below the root, innermost first. -/
abbrev Dir := List (List Char)

/-- One component followed from a directory. -/
def enter (dir : Dir) (c : List Char) : Dir :=
  if c = [] ∨ c = ['.'] then dir
  else if c = ['.', '.'] then dir.tail
  else c :: dir

/-- Components followed one after the other. -/
def walk (dir : Dir) (cs : List (List Char)) : Dir := cs.foldl enter dir

/-- Components of a path, empty ones included. -/
def components (path : List Char) : List (List Char) := path.splitOn '/'

/-- Directory that an absolute path names. -/
def resolve (path : List Char) : Dir := walk [] (components path)

/-- Directories that the components leave again by `..`. -/
def climbed (dir : Dir) : List (List Char) → List Dir
  | [] => []
  | c :: cs => (if c = ['.', '.'] then [dir] else []) ++ climbed (enter dir c) cs

/-- Every directory that a path leaves again by `..` is the root or one of `dirs`. -/
def Passable (path : List Char) (dirs : List Dir) : Prop :=
  ∀ d ∈ climbed [] (components path), d = [] ∨ d ∈ dirs

instance (path : List Char) (dirs : List Dir) : Decidable (Passable path dirs) :=
  inferInstanceAs (Decidable (∀ d ∈ climbed [] (components path), d = [] ∨ d ∈ dirs))

theorem climbed_eq_nil {dir : Dir} {cs : List (List Char)} (h : ['.', '.'] ∉ cs) :
    climbed dir cs = [] := by
  induction cs generalizing dir with
  | nil => rfl
  | cons c cs ih =>
      rw [List.mem_cons, not_or] at h
      rw [climbed, if_neg (Ne.symm h.1), ih h.2]
      rfl

/-- A path without `..` passes whatever directories there are. -/
theorem passable_of_not_mem {path : List Char} (h : ['.', '.'] ∉ components path)
    (dirs : List Dir) : Passable path dirs := by
  intro d hd
  rw [climbed_eq_nil h] at hd
  cases hd

theorem Passable.mono {path : List Char} {dirs more : List Dir} (h : Passable path dirs)
    (hsub : dirs ⊆ more) : Passable path more :=
  fun d hd => (h d hd).imp_right fun hmem => hsub hmem

/-- The last component of a path, slashes at its end set aside. -/
def lastComponent (path : List Char) : List Char :=
  ((components path).filter (· ≠ [])).getLastD []

/-- Directories climbed, and components descended behind them. -/
structure Relative where
  ups : Nat
  downs : Dir
  deriving DecidableEq

/-- One component followed from a relative position. -/
def Relative.enter (r : Relative) (c : List Char) : Relative :=
  if c = [] ∨ c = ['.'] then r
  else if c = ['.', '.'] then
    match r.downs with
    | [] => ⟨r.ups + 1, []⟩
    | _ :: downs => ⟨r.ups, downs⟩
  else ⟨r.ups, c :: r.downs⟩

/-- What a path means from an unknown directory. -/
def relative (path : List Char) : Relative :=
  (components path).foldl Relative.enter ⟨0, []⟩

/-- The directory at a relative position. -/
def Relative.from (r : Relative) (dir : Dir) : Dir := r.downs ++ dir.drop r.ups

section Walk

variable {dir : Dir} {path : List Char}

theorem Relative.enter_from (r : Relative) (dir : Dir) (c : List Char) :
    (r.enter c).from dir = Path.enter (r.from dir) c := by
  unfold Relative.enter Path.enter
  split
  · rfl
  · split
    · cases hd : r.downs with
      | nil => simp [Relative.from, hd, List.tail_drop]
      | cons d downs => simp [Relative.from, hd]
    · rfl

theorem walk_from (cs : List (List Char)) (r : Relative) :
    walk (r.from dir) cs = (cs.foldl Relative.enter r).from dir := by
  induction cs generalizing r with
  | nil => rfl
  | cons c cs ih =>
      rw [List.foldl_cons, ← ih, Relative.enter_from]
      rfl

/-- A walk depends only on the relative position that its path means. -/
theorem walk_eq (dir : Dir) (path : List Char) :
    walk dir (components path) = (relative path).from dir :=
  walk_from (components path) ⟨0, []⟩

theorem resolve_append (base path : List Char) :
    resolve (base ++ '/' :: path) = (relative path).from (resolve base) := by
  rw [← walk_eq]
  simp only [resolve, components, walk, List.splitOn_append_cons_self, List.foldl_append]

end Walk

/-- Descending from above a directory and arriving below its ancestor `base`. -/
theorem append_drop_eq_append {downs l base : Dir} {n : Nat} :
    downs ++ base.drop n = l ++ base ↔ downs = l ++ base.take n := by
  have hsplit : l ++ base = l ++ base.take n ++ base.drop n := by
    rw [List.append_assoc, List.take_append_drop]
  rw [hsplit]
  exact List.append_left_inj _

end Vzgot.Path
