import Vzgot.Boot.Names
import Vzgot.Library.Ftw

/-!
# Removing the cgroups of a container

Two programs remove the cgroups of a container with all that was made inside: `boot`
with `sys_clean_all_cgroup` (`lib/utlsys.c`), and the small supervisor of
`utilities/syspvt.c` with `undo_sys_cgroup`. Both kill the processes through `cgroup.kill`
and walk the directories, entries first. The first walks once, a second behind the kill;
the second walks up to 100 times.

A `Course` is what the processes do meanwhile, and `Groups` the directories of the host
with the instant. Nothing here depends on the order in which the processes end.
-/

set_option autoImplicit false

namespace Vzgot.Cgroup

open Ftw Vzgot.Path
open Boot (Cgroup cleanPath sysGetSysfs resolve_cleanPath resolve_sysfs)

/-- The processes of every directory in every instant, and how many instants a second and
the 20 ms of `usleep` take. -/
structure Course where
  procs : Nat → Dir → List Nat
  second : Nat
  relax : Nat

/-- A directory with a process in it is not removed. -/
def Course.busy (c : Course) (time : Nat) (d : Dir) : Bool := !(c.procs time d).isEmpty

theorem busy_eq_false {c : Course} {time : Nat} {d : Dir} :
    c.busy time d = false ↔ c.procs time d = [] := by
  simp [Course.busy]

theorem busy_eq_true {c : Course} {time : Nat} {d : Dir} :
    c.busy time d = true ↔ c.procs time d ≠ [] := by
  simp [Course.busy]

/-- The directories of the host, from its root, and the instant. -/
structure Groups where
  tree : Forest (List Char)
  time : Nat

/-- All directories, each behind those inside. -/
def Groups.dirs (g : Groups) : List Dir := g.tree.postorder []

section Walk

variable (c : Course)

/-- `rmdir` refuses a directory with a process in it, and a path that ends with `.`. -/
def Course.refuses (path : List Char) (time : Nat) (d : Dir) : Bool :=
  c.busy time d || (lastComponent path = ['.'] ∧ d = resolve path)

/-- `nftw` with `FTW_DEPTH` and a callback that removes the directory (`rm_cgroup_item`,
`nftw_cleanup_cb`): it ends with the first that cannot be removed. A path that leaves by
`..` a directory that is not there leads nowhere. -/
def nftw (path : List Char) (g : Groups) : Int × Groups :=
  if Passable path g.dirs then
    match sweepAt (c.refuses path) g.time [] (resolve path).reverse g.tree with
    | none => (-1, g)
    | some s => (if s.stopped = none then 0 else -1, ⟨s.left, s.time⟩)
  else (-1, g)

/-- The path names one directory all along a walk of it: it leaves by `..` only directories
that are there and are not walked, and does not end with `.`. -/
structure Steady (path : List Char) (dirs : List Dir) : Prop where
  passable : Passable path (beside (resolve path) dirs)
  named : lastComponent path ≠ ['.']

variable {c} {path : List Char} {g : Groups}

theorem Steady.refuses {dirs : List Dir} (h : Steady path dirs) : c.refuses path = c.busy := by
  funext t d
  simp [Course.refuses, h.named]

/-- Other directories than the walked ones decide. -/
theorem Steady.of_beside {dirs dirs' : List Dir} (h : Steady path dirs)
    (heq : beside (resolve path) dirs' = beside (resolve path) dirs) : Steady path dirs' :=
  ⟨heq ▸ h.passable, h.named⟩

/-- What a walk of the directory does to the list of all directories. -/
structure Walked (c : Course) (path : List Char) (g g' : Groups) : Prop where
  below : below (resolve path) g'.dirs = (clear c.busy g.time (below (resolve path) g.dirs)).2
  beside : beside (resolve path) g'.dirs = beside (resolve path) g.dirs
  time : g'.time = (clear c.busy g.time (Ftw.below (resolve path) g.dirs)).1
  distinct : g'.tree.Distinct

/-- Every directory but the root is below the root. -/
theorem below_root {top : Dir} (htop : top ≠ []) : ∃ n, [n] <:+ top := by
  obtain ⟨rest, n, rfl⟩ := (List.eq_nil_or_concat top).resolve_left htop
  exact ⟨n, rest, List.concat_eq_append.symm⟩

theorem nftw_status : (nftw c path g).1 = 0 ∨ (nftw c path g).1 = -1 := by
  unfold nftw
  split
  · split
    · exact Or.inr rfl
    · split
      · exact Or.inl rfl
      · exact Or.inr rfl
  · exact Or.inr rfl

theorem nftw_walked (hd : g.tree.Distinct) (htop : resolve path ≠ [])
    (hsteady : Steady path g.dirs) :
    Walked c path g (nftw c path g).2 ∧
      ((nftw c path g).1 = 0 ↔
        resolve path ∈ g.dirs ∧ below (resolve path) (nftw c path g).2.dirs = []) := by
  have hsome := @sweepAt_isSome _ _ c.busy g.time [] _ _ hd
    (List.reverse_ne_nil_iff.2 htop)
  rw [List.reverse_reverse, List.append_nil] at hsome
  obtain ⟨n, hn⟩ := below_root htop
  have hpass : Passable path g.dirs := hsteady.passable.mono fun d hmem => (mem_beside.1 hmem).1
  unfold nftw
  rw [if_pos hpass, hsteady.refuses]
  cases hs : sweepAt c.busy g.time [] (resolve path).reverse g.tree with
  | none =>
      have hnot : resolve path ∉ g.dirs := fun h => by simpa [hs] using hsome.2 h
      have hnil : below (resolve path) g.dirs = [] := (below_eq_nil_iff hn).2 hnot
      refine ⟨⟨?_, rfl, ?_, hd⟩, by simp [hnot]⟩
      · rw [hnil, clear_nil]
      · rw [hnil, clear_nil]
  | some s =>
      have hmem : resolve path ∈ g.dirs := hsome.1 (by rw [hs]; rfl)
      obtain ⟨hleft, hothers, htime, hstopped⟩ := sweepAt_acts hd hs
      rw [List.reverse_reverse, List.append_nil] at hleft hothers htime hstopped
      refine ⟨⟨hleft, hothers, htime, (sweepAt_distinct hd hs).1⟩, ?_⟩
      simp only [hmem, true_and]
      change _ ↔ below (resolve path) (s.left.postorder []) = []
      rw [hleft, hstopped]
      cases (clear c.busy g.time (below (resolve path) (g.tree.postorder []))).2 with
      | nil => simp
      | cons d rest => simp

end Walk

/-! ## The clean-up of `boot` -/

section Boot

variable (c : Course) (pid : Nat)

/-- `cgroup_clean_recursive` in the process `pid`: no result when the kill reaches it.
`isok` is not set before the walk, so without a failure it is what was on the stack. -/
def cgroupCleanRecursive (stack : Bool) (path : List Char) (g : Groups) :
    Option (Bool × Groups) :=
  if Passable path g.dirs ∧
      ((below (resolve path) g.dirs).any fun d => (c.procs g.time d).contains pid) = true then none
  else
    let r := nftw c path { g with time := g.time + c.second }
    some (if r.1 < 0 then false else stack, r.2)

/-- `sys_clean_all_cgroup` -/
def sysCleanAllCgroup (stack : Bool) (contname : List Char) (ext : Cgroup) (g : Groups) :
    Option (Bool × Groups) :=
  match ext with
  | .containers | .supervisors => cgroupCleanRecursive c pid stack (cleanPath ext contname) g
  | _ => some (false, g)

/-- The two calls of phase 17 of `boot`; their results are not looked at. -/
def cleanContainer (stack₁ stack₂ : Bool) (contname : List Char) (g : Groups) : Option Groups :=
  (sysCleanAllCgroup c pid stack₁ contname .containers g).bind fun r =>
    (sysCleanAllCgroup c pid stack₂ contname .supervisors r.2).map Prod.snd

variable {c pid} {stack ok : Bool} {path contname : List Char} {g g' : Groups}

/-- The supervisor is in none of the directories that are killed. -/
def Outside (c : Course) (pid : Nat) (top : Dir) (g : Groups) : Prop :=
  ∀ d ∈ below top g.dirs, pid ∉ c.procs g.time d

theorem cgroupCleanRecursive_isSome :
    (cgroupCleanRecursive c pid stack path g).isSome = true ↔
      (Passable path g.dirs → Outside c pid (resolve path) g) := by
  unfold cgroupCleanRecursive Outside
  split
  · rename_i hkilled
    simp only [Option.isSome_none, Bool.false_eq_true, false_iff]
    obtain ⟨d, hd, hmem⟩ := List.any_eq_true.1 hkilled.2
    exact fun h => h hkilled.1 d hd (List.contains_iff_mem.1 hmem)
  · rename_i hnone
    simp only [Option.isSome_some, true_iff]
    intro hpass d hd hmem
    exact hnone ⟨hpass, List.any_eq_true.2 ⟨d, hd, List.contains_iff_mem.2 hmem⟩⟩

theorem cgroupCleanRecursive_walked (hd : g.tree.Distinct) (htop : resolve path ≠ [])
    (hsteady : Steady path g.dirs)
    (h : cgroupCleanRecursive c pid stack path g = some (ok, g')) :
    Walked c path { g with time := g.time + c.second } g' ∧
      (ok = true ↔
        stack = true ∧ resolve path ∈ g.dirs ∧ below (resolve path) g'.dirs = []) := by
  unfold cgroupCleanRecursive at h
  split at h
  · cases h
  · obtain ⟨hwalked, hstatus⟩ :=
      @nftw_walked c path { g with time := g.time + c.second } hd htop hsteady
    have hcases := @nftw_status c path { g with time := g.time + c.second }
    generalize nftw c path { g with time := g.time + c.second } = r at h hwalked hstatus hcases
    obtain ⟨rfl, rfl⟩ := Prod.mk.inj (Option.some.inj h)
    refine ⟨hwalked, ?_⟩
    rcases hcases with hzero | hfailed
    · have hgone := hstatus.1 hzero
      rw [hzero]
      exact ⟨fun hok => ⟨hok, hgone⟩, fun hok => hok.1⟩
    · rw [hfailed]
      constructor
      · intro hok
        cases hok
      · intro hok
        have hzero := hstatus.2 hok.2
        rw [hfailed] at hzero
        cases hzero

theorem sysCleanAllCgroup_eq {ext : Cgroup} (hext : ext.perContainer = true) :
    sysCleanAllCgroup c pid stack contname ext g =
      cgroupCleanRecursive c pid stack (cleanPath ext contname) g := by
  cases ext with
  | containers => rfl
  | supervisors => rfl
  | top => cases hext
  | vzgot => cases hext

/-- The directories of a host with one container and what it has made inside. -/
def oneContainer (contname : List Char) (inside : Forest (List Char)) : Forest (List Char) :=
  .dir "sys".toList (.dir "fs".toList (.dir "cgroup".toList (.dir "vzgot".toList
    (.dir "supervisors".toList (.dir contname .nil .nil)
      (.dir "containers".toList (.dir contname inside .nil) .nil)) .nil) .nil) .nil) .nil

theorem oneContainer_distinct (contname : List Char) (inside : Forest (List Char))
    (hd : inside.Distinct) : (oneContainer contname inside).Distinct := by
  simp [oneContainer, Forest.Distinct, Forest.names, hd]

/-- One process, which ends at the instant; a second is three instants. -/
def endsAt (last : Nat) (contname : List Char) : Course :=
  ⟨fun t d => if t < last ∧ d = resolve (cleanPath .containers contname) then [7] else [], 3, 2⟩

theorem endsAt_subset {last t p : Nat} {d : Dir} (h : p ∈ (endsAt last contname).procs t d) :
    p ∈ [7] := by
  unfold endsAt at h
  dsimp only at h
  split at h
  · exact h
  · cases h

/-- What `sys_clean_all_cgroup` leaves: every directory elsewhere, and of the container's
those from the first on that still had a process when its turn came. It returns true
only when nothing is left. -/
theorem sysCleanAllCgroup_exact {ext : Cgroup} (hd : g.tree.Distinct)
    (hext : ext.perContainer = true) (htop : resolve (cleanPath ext contname) ≠ [])
    (hsteady : Steady (cleanPath ext contname) g.dirs)
    (h : sysCleanAllCgroup c pid stack contname ext g = some (ok, g')) :
    beside (resolve (cleanPath ext contname)) g'.dirs =
        beside (resolve (cleanPath ext contname)) g.dirs ∧
      (∃ gone, below (resolve (cleanPath ext contname)) g.dirs =
          gone ++ below (resolve (cleanPath ext contname)) g'.dirs ∧
        (∀ i d, gone[i]? = some d → c.procs (g.time + c.second + i) d = []) ∧
        ∀ d, (below (resolve (cleanPath ext contname)) g'.dirs).head? = some d →
          c.procs (g.time + c.second + gone.length) d ≠ []) ∧
      (ok = true ↔ stack = true ∧ resolve (cleanPath ext contname) ∈ g.dirs ∧
        below (resolve (cleanPath ext contname)) g'.dirs = []) := by
  rw [sysCleanAllCgroup_eq hext] at h
  obtain ⟨hwalked, hok⟩ := cgroupCleanRecursive_walked hd htop hsteady h
  refine ⟨hwalked.beside, ?_, hok⟩
  obtain ⟨gone, hsplit, hgone, hleft, -⟩ := clear_spec c.busy (g.time + c.second)
    (below (resolve (cleanPath ext contname)) g.dirs)
  rw [hwalked.below]
  exact ⟨gone, hsplit, fun i d hi => busy_eq_false.1 (hgone i d hi),
    fun d hd => busy_eq_true.1 (hleft d hd).1⟩

/-- A process that outlives the second: what it has made is gone, its own directory
stays. -/
theorem sysCleanAllCgroup_exact_slow :
    ∃ gone, below (resolve (cleanPath .containers ['w']))
        ((oneContainer ['w'] (.dir ['x'] .nil .nil)).postorder []) =
          gone ++ below (resolve (cleanPath .containers ['w']))
            ((oneContainer ['w'] .nil).postorder []) ∧
        (∀ i d, gone[i]? = some d → (endsAt 9 ['w']).procs (0 + 3 + i) d = []) ∧
        ∀ d, (below (resolve (cleanPath .containers ['w']))
            ((oneContainer ['w'] .nil).postorder [])).head? = some d →
          (endsAt 9 ['w']).procs (0 + 3 + gone.length) d ≠ [] :=
  have h : sysCleanAllCgroup (endsAt 9 ['w']) 1 true ['w'] .containers
      ⟨oneContainer ['w'] (.dir ['x'] .nil .nil), 0⟩ = some (false, ⟨oneContainer ['w'] .nil, 5⟩) :=
    rfl
  (sysCleanAllCgroup_exact
    (oneContainer_distinct _ (.dir ['x'] .nil .nil) ⟨by decide, trivial, trivial⟩) rfl (by decide)
    ⟨by decide, by decide⟩ h).2.1

/-- The directory with the processes of a container. -/
def contDir (contname : List Char) : Dir := resolve (cleanPath .containers contname)

/-- The directory with its supervisor. -/
def supDir (contname : List Char) : Dir := resolve (cleanPath .supervisors contname)

/-- The directories of a container have nothing in common. -/
theorem apart {x : List Char} {ext other : Cgroup} (hname : relative contname = ⟨0, [x]⟩)
    (hext : ext.perContainer = true) (hother : other.perContainer = true)
    (hne : ext.leaf ≠ other.leaf) (d : Dir) :
    resolve (cleanPath ext contname) <:+ d → ¬ resolve (cleanPath other contname) <:+ d := by
  intro h₁ h₂
  rw [resolve_cleanPath, resolve_sysfs hext, hname] at h₁
  rw [resolve_cleanPath, resolve_sysfs hother, hname] at h₂
  have heq := (List.suffix_of_suffix_length_le h₁ h₂ (Nat.le_refl _)).eq_of_length rfl
  exact hne (List.cons.inj (List.cons.inj heq).2).1

theorem contDir_ne_nil {x : List Char} (hname : relative contname = ⟨0, [x]⟩) :
    contDir contname ≠ [] := by
  rw [contDir, resolve_cleanPath, hname]
  exact List.cons_ne_nil _ _

theorem supDir_ne_nil {x : List Char} (hname : relative contname = ⟨0, [x]⟩) :
    supDir contname ≠ [] := by
  rw [supDir, resolve_cleanPath, hname]
  exact List.cons_ne_nil _ _

theorem contDir_apart {x : List Char} (hname : relative contname = ⟨0, [x]⟩) (d : Dir) :
    contDir contname <:+ d → ¬ supDir contname <:+ d :=
  apart hname rfl rfl (by decide) d

/-- Both paths of the container name its directories all along. -/
def SteadyName (contname : List Char) (dirs : List Dir) : Prop :=
  ∀ ext : Cgroup, ext.perContainer = true →
    Passable (cleanPath ext contname) (beside (supDir contname) (beside (contDir contname) dirs)) ∧
      lastComponent (cleanPath ext contname) ≠ ['.']

section SteadyName

variable {dirs : List Dir}

theorem SteadyName.cont (h : SteadyName contname dirs) :
    Steady (cleanPath .containers contname) dirs := by
  obtain ⟨hpass, hlast⟩ := h .containers rfl
  exact ⟨hpass.mono fun d hmem => (mem_beside.1 hmem).1, hlast⟩

theorem SteadyName.sup (h : SteadyName contname dirs) :
    Steady (cleanPath .supervisors contname) dirs := by
  obtain ⟨hpass, hlast⟩ := h .supervisors rfl
  rw [beside_comm] at hpass
  exact ⟨hpass.mono fun d hmem => (mem_beside.1 hmem).1, hlast⟩

/-- A walk of the container's directory changes nothing about it. -/
theorem SteadyName.of_beside {dirs' : List Dir} (h : SteadyName contname dirs)
    (heq : beside (contDir contname) dirs' = beside (contDir contname) dirs) :
    SteadyName contname dirs' := by
  intro ext hext
  rw [heq]
  exact h ext hext

end SteadyName

/-- Every directory is in one of three lists. -/
theorem nothing_below_iff {top : Dir} {ds : List Dir} :
    below top ds = [] ↔ ∀ d ∈ ds, ¬ top <:+ d := by
  rw [List.eq_nil_iff_forall_not_mem]
  simp only [mem_below, not_and]

/-- Phase 17 of `boot` with the supervisor out of the container's directories: it leaves
every other directory, and nothing of the container exactly when every directory is
without a process when its turn comes, the first a second behind the kill. -/
theorem cleanContainer_nothing_left_iff {stack₁ stack₂ : Bool} {x : List Char}
    (hd : g.tree.Distinct) (hname : relative contname = ⟨0, [x]⟩)
    (hsteady : SteadyName contname g.dirs)
    (hpid : ∀ t d, pid ∈ c.procs t d → ¬ contDir contname <:+ d ∧ ¬ supDir contname <:+ d) :
    ∃ g', cleanContainer c pid stack₁ stack₂ contname g = some g' ∧
      beside (supDir contname) (beside (contDir contname) g'.dirs) =
        beside (supDir contname) (beside (contDir contname) g.dirs) ∧
      ((∀ d ∈ g'.dirs, ¬ contDir contname <:+ d ∧ ¬ supDir contname <:+ d) ↔
        (∀ i d, (below (contDir contname) g.dirs)[i]? = some d →
          c.procs (g.time + c.second + i) d = []) ∧
        ∀ i d, (below (supDir contname) g.dirs)[i]? = some d →
          c.procs (g.time + c.second + (below (contDir contname) g.dirs).length + c.second + i)
            d = []) := by
  have hout : ∀ ext h, (resolve (cleanPath ext contname) = contDir contname ∨
      resolve (cleanPath ext contname) = supDir contname) →
      Outside c pid (resolve (cleanPath ext contname)) h := by
    intro ext h hdir d hmem hproc
    obtain ⟨hcont, hsup⟩ := hpid _ _ hproc
    have hsuffix := (mem_below.1 hmem).2
    rcases hdir with hdir | hdir
    · exact hcont (hdir ▸ hsuffix)
    · exact hsup (hdir ▸ hsuffix)
  obtain ⟨⟨ok₁, g₁⟩, h₁⟩ := Option.isSome_iff_exists.1
    (@cgroupCleanRecursive_isSome _ _ stack₁ _ _ |>.2 fun _ => hout .containers g (Or.inl rfl))
  obtain ⟨⟨ok₂, g₂⟩, h₂⟩ := Option.isSome_iff_exists.1
    (@cgroupCleanRecursive_isSome _ _ stack₂ _ _ |>.2 fun _ => hout .supervisors g₁ (Or.inr rfl))
  obtain ⟨hw₁, -⟩ := cgroupCleanRecursive_walked hd (contDir_ne_nil hname) hsteady.cont h₁
  have hsteady₁ : SteadyName contname g₁.dirs := hsteady.of_beside hw₁.beside
  obtain ⟨hw₂, -⟩ :=
    cgroupCleanRecursive_walked hw₁.distinct (supDir_ne_nil hname) hsteady₁.sup h₂
  refine ⟨g₂, ?_, ?_, ?_⟩
  · unfold cleanContainer
    rw [sysCleanAllCgroup_eq rfl, h₁]
    simp only [Option.bind_some]
    rw [sysCleanAllCgroup_eq rfl, h₂]
    rfl
  · calc beside (supDir contname) (beside (contDir contname) g₂.dirs)
        = beside (contDir contname) (beside (supDir contname) g₁.dirs) := by
          rw [beside_comm, supDir, hw₂.beside]
          rfl
      _ = beside (supDir contname) (beside (contDir contname) g.dirs) := by
          rw [beside_comm, contDir, hw₁.beside]
          rfl
  · -- neither walk touches the directories of the other
    have hcont : below (contDir contname) g₂.dirs =
        (clear c.busy (g.time + c.second) (below (contDir contname) g.dirs)).2 :=
      (below_congr hw₂.beside (contDir_apart hname)).trans hw₁.below
    have hsup : below (supDir contname) g₂.dirs =
        (clear c.busy (g₁.time + c.second) (below (supDir contname) g.dirs)).2 := by
      have hkept : below (supDir contname) g₁.dirs = below (supDir contname) g.dirs :=
        below_congr hw₁.beside fun d h₁ h₂ => contDir_apart hname d h₂ h₁
      rw [← hkept]
      exact hw₂.below
    have hnone : (∀ d ∈ g₂.dirs, ¬ contDir contname <:+ d ∧ ¬ supDir contname <:+ d) ↔
        below (contDir contname) g₂.dirs = [] ∧ below (supDir contname) g₂.dirs = [] := by
      rw [nothing_below_iff, nothing_below_iff]
      exact forall₂_and
    rw [hnone, hcont, hsup, clear_eq_nil_iff]
    simp only [busy_eq_false]
    refine and_congr_right fun hfree => ?_
    have htime : g₁.time = g.time + c.second + (below (contDir contname) g.dirs).length :=
      hw₁.time.trans (clear_time ((clear_eq_nil_iff _ _ _).2 fun i d hi =>
        busy_eq_false.2 (hfree i d hi)))
    rw [htime, clear_eq_nil_iff]
    simp only [busy_eq_false]

/-- A name without `..` is steady whatever directories there are. -/
theorem steadyName_w (dirs : List Dir) : SteadyName ['w'] dirs := by
  intro ext hext
  cases ext with
  | containers => exact ⟨passable_of_not_mem (by decide) _, by decide⟩
  | supervisors => exact ⟨passable_of_not_mem (by decide) _, by decide⟩
  | top => cases hext
  | vzgot => cases hext

/-- A container whose process ends within the second. -/
theorem cleanContainer_nothing_left_quick :
    ∃ g', cleanContainer (endsAt 2 ['w']) 1 true true ['w'] ⟨oneContainer ['w'] .nil, 0⟩ = some g' ∧
      ∀ d ∈ g'.dirs, ¬ contDir ['w'] <:+ d ∧ ¬ supDir ['w'] <:+ d := by
  have hpid : ∀ t d, 1 ∈ (endsAt 2 ['w']).procs t d →
      ¬ contDir ['w'] <:+ d ∧ ¬ supDir ['w'] <:+ d := by
    intro t d hmem
    cases List.mem_singleton.1 (endsAt_subset hmem)
  have hname : relative ['w'] = ⟨0, [['w']]⟩ := by decide
  obtain ⟨g', h, -, hiff⟩ := cleanContainer_nothing_left_iff
    (g := ⟨oneContainer ['w'] .nil, 0⟩) (oneContainer_distinct ['w'] .nil trivial) hname
    (steadyName_w _) hpid
  refine ⟨g', h, hiff.2 ⟨fun i d _ => if_neg ?_, fun i d _ => if_neg ?_⟩⟩
  · rintro ⟨hlt, -⟩
    simp only [endsAt] at hlt
    omega
  · rintro ⟨hlt, -⟩
    simp only [endsAt] at hlt
    omega

end Boot

/-! ## The release of `syspvt` -/

section Undo

variable (c : Course)

/-- Phase 1 of `undo_sys_cgroup`: walks until one meets no failure. -/
def undoWalks (path : List Char) : Nat → Groups → Groups
  | 0, g => g
  | retries + 1, g =>
      let r := nftw c path g
      if r.1 = -1 then undoWalks path retries { r.2 with time := r.2.time + c.relax } else r.2

/-- `rmdir` of a directory; as for a walk, what is inside and the processes keep it. -/
def rmdir (path : List Char) (g : Groups) : Bool × Groups :=
  if below (resolve path) g.dirs = [resolve path] then
    let r := nftw c path g
    (r.1 = 0, r.2)
  else (false, g)

/-- `undo_sys_cgroup`, with the results of `write_file` on `cgroup.kill` and on
`cgroup.procs`. `cgroup` has 64 bytes. -/
def undoSysCgroup (killed moved : Bool) (contname : List Char) (g : Groups) : Bool × Groups :=
  if killed = false then (false, g)
  else
    let cgroup := ("containers/".toList ++ contname).take 63
    let g₁ := undoWalks c (sysGetSysfs .vzgot ++ '/' :: cgroup) 100 g
    if moved = false then (false, g₁)
    else rmdir c (cleanPath .supervisors contname) g₁

variable {c} {path contname : List Char} {g : Groups}

/-- Walks over one directory act on its list as `retry` does. -/
theorem undoWalks_retry (hd : g.tree.Distinct) (htop : resolve path ≠ [])
    (hsteady : Steady path g.dirs) (retries : Nat) :
    below (resolve path) (undoWalks c path retries g).dirs =
        (retry c.busy c.relax retries g.time (below (resolve path) g.dirs)).2 ∧
      beside (resolve path) (undoWalks c path retries g).dirs = beside (resolve path) g.dirs ∧
      (undoWalks c path retries g).tree.Distinct := by
  induction retries generalizing g with
  | zero => exact ⟨rfl, rfl, hd⟩
  | succ retries ih =>
      obtain ⟨hwalked, hstatus⟩ := nftw_walked (c := c) hd htop hsteady
      have hcases := @nftw_status c path g
      unfold undoWalks retry
      generalize nftw c path g = r at hwalked hstatus hcases
      obtain ⟨hbelow, hbeside, htime, hdistinct⟩ := hwalked
      dsimp only
      split
      · -- the walk failed: the next one begins with what is left
        obtain ⟨hleft, hothers, hd'⟩ :=
          ih (g := { r.2 with time := r.2.time + c.relax }) hdistinct (hsteady.of_beside hbeside)
        refine ⟨?_, hothers.trans hbeside, hd'⟩
        rw [hleft]
        change (retry c.busy c.relax retries (r.2.time + c.relax)
          (below (resolve path) r.2.dirs)).2 = _
        rw [hbelow, htime]
        split
        · rename_i time' heq
          rw [heq]
          exact List.suffix_nil.1 (retry_suffix retries _ [])
        · rename_i time' d rest heq
          rw [heq]
      · rename_i hne
        have hgone := (hstatus.1 (hcases.resolve_right hne)).2
        refine ⟨?_, hbeside, hdistinct⟩
        rw [hgone] at hbelow ⊢
        split
        · rfl
        · rename_i time' d rest heq
          rw [heq] at hbelow
          cases hbelow

theorem rmdir_spec (hd : g.tree.Distinct) (htop : resolve path ≠ [])
    (hsteady : Steady path g.dirs) :
    beside (resolve path) (rmdir c path g).2.dirs = beside (resolve path) g.dirs ∧
      ((rmdir c path g).1 = true ↔
        resolve path ∈ g.dirs ∧ resolve path ∉ (rmdir c path g).2.dirs) := by
  obtain ⟨n, hn⟩ := below_root htop
  obtain ⟨hwalked, hstatus⟩ := nftw_walked (c := c) hd htop hsteady
  unfold rmdir
  split
  · refine ⟨hwalked.beside, ?_⟩
    dsimp only
    rw [decide_eq_true_iff, hstatus]
    exact and_congr_right fun _ => below_eq_nil_iff hn
  · exact ⟨rfl, by simp⟩

theorem undo_path (hlength : contname.length ≤ 52) :
    sysGetSysfs .vzgot ++ '/' :: ("containers/".toList ++ contname).take 63 =
      cleanPath .containers contname := by
  rw [List.take_of_length_le (by simp; omega)]
  rfl

/-- Phases 2 and 3 of `undo_sys_cgroup`. -/
theorem releaseSupervisor_spec {moved : Bool} {x : List Char}
    (hname : relative contname = ⟨0, [x]⟩) (hd : g.tree.Distinct)
    (hsteady : SteadyName contname g.dirs) :
    beside (supDir contname)
        (if moved = false then (false, g) else rmdir c (cleanPath .supervisors contname) g).2.dirs =
        beside (supDir contname) g.dirs ∧
      ((if moved = false then (false, g) else
          rmdir c (cleanPath .supervisors contname) g).1 = true ↔
        moved = true ∧ supDir contname ∈ g.dirs ∧ supDir contname ∉
          (if moved = false then (false, g) else
            rmdir c (cleanPath .supervisors contname) g).2.dirs) := by
  cases moved with
  | false => exact ⟨rfl, by simp⟩
  | true =>
      obtain ⟨hothers, hresult⟩ := rmdir_spec (c := c) hd (supDir_ne_nil hname) hsteady.sup
      refine ⟨hothers, ?_⟩
      simp only [Bool.true_eq_false, if_false, true_and]
      exact hresult

/-- `undo_sys_cgroup` leaves every directory that is not the container's or its
supervisor's. The directories of the container are gone when its processes have ended
before the last of 100 walks; what stays begins with a directory that had a process then.
The result says only whether the directory of the supervisor has been removed. -/
theorem undoSysCgroup_releases {killed moved : Bool} {x : List Char} (hd : g.tree.Distinct)
    (hname : relative contname = ⟨0, [x]⟩) (hsteady : SteadyName contname g.dirs)
    (hlength : contname.length ≤ 52) :
    beside (supDir contname) (beside (contDir contname)
        (undoSysCgroup c killed moved contname g).2.dirs) =
        beside (supDir contname) (beside (contDir contname) g.dirs) ∧
      (killed = true → ∀ free, (∀ t d, free ≤ t → contDir contname <:+ d → c.procs t d = []) →
        free ≤ g.time + 99 * (c.relax + 1) →
        ∀ d ∈ (undoSysCgroup c killed moved contname g).2.dirs, ¬ contDir contname <:+ d) ∧
      (killed = true → ∀ d,
        (below (contDir contname) (undoSysCgroup c killed moved contname g).2.dirs).head? = some d →
        ∃ t, g.time + 99 * (c.relax + 1) ≤ t ∧ c.procs t d ≠ []) ∧
      ((undoSysCgroup c killed moved contname g).1 = true ↔ killed = true ∧ moved = true ∧
        supDir contname ∈ g.dirs ∧
        supDir contname ∉ (undoSysCgroup c killed moved contname g).2.dirs) := by
  cases killed with
  | false =>
      refine ⟨rfl, ?_, ?_, by simp [undoSysCgroup]⟩
      · intro h
        cases h
      · intro h
        cases h
  | true =>
      obtain ⟨hcont, hothers, hdistinct⟩ :=
        undoWalks_retry (c := c) hd (contDir_ne_nil hname) hsteady.cont 100
      rw [← contDir] at hcont hothers
      unfold undoSysCgroup
      simp only [Bool.true_eq_false, if_false, true_and, forall_const, undo_path hlength]
      generalize undoWalks c (cleanPath .containers contname) 100 g = g₁
        at hcont hothers hdistinct
      -- what the phases for the supervisor do behind the walks
      obtain ⟨hrest, hresult⟩ :=
        @releaseSupervisor_spec c _ _ moved _ hname hdistinct (hsteady.of_beside hothers)
      generalize (if moved = false then (false, g₁) else
        rmdir c (cleanPath .supervisors contname) g₁) = r at hrest hresult
      have hleft : below (contDir contname) r.2.dirs =
          (retry c.busy c.relax 100 g.time (below (contDir contname) g.dirs)).2 :=
        (below_congr hrest (contDir_apart hname)).trans hcont
      refine ⟨?_, fun free hfree htime => ?_, fun d hd' => ?_, ?_⟩
      · rw [beside_comm, hrest, beside_comm, hothers]
      · rw [← nothing_below_iff, hleft]
        exact retry_eq_nil (by decide)
          (fun t d ht hmem => busy_eq_false.2 (hfree t d ht (mem_below.1 hmem).2)) htime
      · rw [hleft] at hd'
        obtain ⟨rest, hrest'⟩ : ∃ rest,
            (retry c.busy c.relax 100 g.time (below (contDir contname) g.dirs)).2 = d :: rest :=
          List.head?_eq_some_iff.1 hd'
        obtain ⟨t, ht, hbusy⟩ := retry_kept (by decide) hrest'
        exact ⟨t, ht, busy_eq_true.1 hbusy⟩
      · have hsup : supDir contname ∈ g₁.dirs ↔ supDir contname ∈ g.dirs := by
          have hnot : ¬ contDir contname <:+ supDir contname := fun h =>
            contDir_apart hname _ h (List.suffix_refl _)
          have hmem := @mem_beside _ _ (contDir contname) (supDir contname)
          simp only [hnot, not_false_eq_true, and_true] at hmem
          rw [← hmem, hothers, hmem]
        rw [hresult, hsup]

/-- A process that ends during the first walks. -/
theorem undoSysCgroup_releases_web :
    (undoSysCgroup (endsAt 9 ['w']) true true ['w'] ⟨oneContainer ['w'] .nil, 0⟩).2.dirs.filter
      (fun d => (contDir ['w']).isSuffixOf d) = [] := by
  rw [List.filter_eq_nil_iff]
  intro d hd
  rw [List.isSuffixOf_iff_suffix]
  refine (undoSysCgroup_releases (oneContainer_distinct ['w'] .nil trivial) (x := ['w']) (by decide)
    (steadyName_w _) (by decide)).2.1 rfl 9 (fun t d ht _ => if_neg ?_) (by decide) d hd
  rintro ⟨hlt, -⟩
  omega

end Undo

end Vzgot.Cgroup
