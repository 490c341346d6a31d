import Vzgot.Boot.History
import Vzgot.Library.Path

/-!
# The cgroups that a name reaches

Phase 17 hands two paths built from the container name to `cgroup_clean_recursive`,
which kills every process below them. `CleansChildren` says that they lead to a direct
child of the containers or of the supervisors directory. The name is not looked at
before it is used; the paths are right exactly for the names of `SingleComponent`.
-/

set_option autoImplicit false

open Vzgot.Transition Vzgot.Path

namespace Vzgot.Boot

/-- Directories with one cgroup for each container. -/
def Cgroup.perContainer : Cgroup → Bool
  | .containers | .supervisors => true
  | _ => false

/-- The path leads to a direct child of one of these directories. -/
def DirectChild (path : List Char) : Prop :=
  ∃ ext : Cgroup, ext.perContainer = true ∧ ∃ x, resolve path = x :: resolve (sysGetSysfs ext)

/-- Every path handed to `cgroup_clean_recursive` leads to a direct child. -/
def CleansChildren (s : BootState) : Prop :=
  ∀ k path, (k, .cleanCgroup path) ∈ s.ops → DirectChild path

/-- Components of the directory above the two directories, innermost first. -/
def vzgotDir : Dir := resolve (sysGetSysfs .vzgot)

/-- Last component of the directory. -/
def Cgroup.leaf : Cgroup → List Char
  | .containers => "containers".toList
  | .supervisors => "supervisors".toList
  | .vzgot => "vzgot".toList
  | .top => "cgroup".toList

/-- A relative position that is a child of one of the two directories, seen from either
of them: one component, or the way out of the directory and back by the components of
the directory to one component below it. -/
def ReachesChild (r : Relative) : Prop :=
  (r.ups = 0 ∧ r.downs.length = 1) ∨
    (1 ≤ r.ups ∧ ∃ ext : Cgroup, ext.perContainer = true ∧ ∃ x,
      r.downs = x :: ext.leaf :: vzgotDir.take (r.ups - 1))

/-- What the first 119 bytes of the name mean as a path is a child. -/
def SingleComponent (name : List Char) : Prop := ReachesChild (relative (contname name))

section Names

variable {name : List Char}

theorem resolve_sysfs {ext : Cgroup} (h : ext.perContainer = true) :
    resolve (sysGetSysfs ext) = ext.leaf :: vzgotDir := by
  cases ext with
  | containers => rfl
  | supervisors => rfl
  | top => cases h
  | vzgot => cases h

theorem resolve_cleanPath (ext : Cgroup) (cont : List Char) :
    resolve (cleanPath ext cont) = (relative cont).from (resolve (sysGetSysfs ext)) :=
  resolve_append (sysGetSysfs ext) cont

/-- Where the name leads does not depend on which of the two directories it starts
from. -/
theorem directChild_cleanPath {ext : Cgroup} (hext : ext.perContainer = true) :
    DirectChild (cleanPath ext (contname name)) ↔ SingleComponent name := by
  have hresolve : DirectChild (cleanPath ext (contname name)) ↔
      ∃ ext' : Cgroup, ext'.perContainer = true ∧ ∃ x,
        (relative (contname name)).from (ext.leaf :: vzgotDir) = x :: ext'.leaf :: vzgotDir := by
    refine exists_congr fun ext' => and_congr_right fun hext' => exists_congr fun x => ?_
    rw [resolve_cleanPath, resolve_sysfs hext, resolve_sysfs hext']
  rw [hresolve]
  unfold SingleComponent ReachesChild Relative.from
  cases hups : (relative (contname name)).ups with
  | zero =>
      -- the name descends from the directory of its cgroup
      have hno : ¬ 1 ≤ 0 := by decide
      simp only [List.drop_zero, true_and, hno, false_and, or_false]
      constructor
      · rintro ⟨ext', -, x, hx⟩
        have hlen := congrArg List.length hx
        simp only [List.length_append, List.length_cons] at hlen
        omega
      · intro hlen
        obtain ⟨x, hx⟩ := List.length_eq_one_iff.1 hlen
        exact ⟨ext, hext, x, by rw [hx]; rfl⟩
  | succ n =>
      -- it has left that directory: what is below its parent must be descended again
      simp only [List.drop_succ_cons, Nat.succ_ne_zero, false_and, false_or, Nat.le_add_left,
        true_and, Nat.add_sub_cancel]
      refine exists_congr fun ext' => and_congr_right fun _ => exists_congr fun x => ?_
      exact append_drop_eq_append (l := [x, ext'.leaf])

/-- What phase 17 hands over. -/
def CleansName (name : List Char) (s : BootState) : Prop :=
  ∀ k path, (k, .cleanCgroup path) ∈ s.ops →
    ∃ ext : Cgroup, ext.perContainer = true ∧ path = cleanPath ext (contname name)

theorem cleansName_step {s t : BootState} {a : BootAnswer} (hs : CleansName name s)
    (h : bootStep name s a = some t) : CleansName name t := by
  obtain ⟨-, w, hw, rfl⟩ := bootStep_eq_some.1 h
  intro k path hmem
  rcases mem_after_ops hmem with ⟨-, hnew⟩ | hold
  · have h₁₇ := bootPhase_mem hw rfl hnew
    rw [h₁₇] at hw
    obtain ⟨-, top, hops⟩ := bootPhase_cleaning hw
    rw [hops] at hnew
    simp only [List.mem_cons, BootOp.cleanCgroup.injEq, reduceCtorEq, List.not_mem_nil,
      or_false] at hnew
    rcases hnew with rfl | rfl
    · exact ⟨.supervisors, rfl, rfl⟩
    · exact ⟨.containers, rfl, rfl⟩
  · exact hs k path hold

/-- The shortest way to phase 17: no configuration of the name can be read. -/
theorem run_unconfigured (name : List Char) : ∃ s,
    run (bootStep name) bootInit [.config false, .none, .cleaned .moved true true] = some s ∧
      (0, .cleanCgroup (cleanPath .containers (contname name))) ∈ s.ops :=
  ⟨_, rfl, .tail _ (.head _)⟩

/-- Every run of `boot` for the name cleans direct children only if and only if the name
is a single component. -/
theorem boot_cleans_children (name : List Char) :
    (∀ as s, run (bootStep name) bootInit as = some s → CleansChildren s) ↔
      SingleComponent name := by
  constructor
  · intro hall
    obtain ⟨s, h, hmem⟩ := run_unconfigured name
    exact (directChild_cleanPath rfl).1 (hall _ s h 0 _ hmem)
  · intro hname as s h k path hmem
    have hinit : CleansName name bootInit := by simp [CleansName, bootInit]
    obtain ⟨ext, hext, rfl⟩ :=
      run_invariant (fun _ _ _ => cleansName_step) hinit h k path hmem
    exact (directChild_cleanPath hext).2 hname

end Names

/-- The empty name: the containers directory itself is cleaned. -/
theorem boot_cleans_all_containers : ∃ s,
    run (bootStep []) bootInit [.config false, .none, .cleaned .moved true true] = some s ∧
      ¬ CleansChildren s := by
  obtain ⟨s, h, hmem⟩ := run_unconfigured []
  refine ⟨s, h, fun hs => ?_⟩
  rcases (directChild_cleanPath rfl).1 (hs 0 _ hmem) with ⟨-, hlen⟩ | ⟨hups, -⟩
  · exact absurd hlen (by decide)
  · exact absurd hups (by decide)

end Vzgot.Boot
