import Vzgot.Cgroup.Limits

/-!
# Limits in force when reported

`Reports` says what the result of `cnt_set_cgroup` stands for: true only when the
controllers and the value of every limit of the environment were completely written,
each to its own file, and false after any write that failed. The result is false exactly
for the failures that a step looks at (`Refused`), whatever became of the texts, so the
report is right exactly when such a failure occurs or every text was written
(`cnt_set_cgroup_reports_iff`).
-/

set_option autoImplicit false

namespace Vzgot.Cgroup

open Vzgot.Cpu Vzgot.Stdio

/-- Registers that hold the limit. -/
def Limit.registers : Limit → List Register
  | .pidmax => [Register.pidsMax]
  | .memmax => [Register.memoryMax]
  | .swapmax => [Register.swapMax]
  | .numcpu => [Register.cpusetCpus]
  | .pwrcpu => [Register.cpuWeight]
  | .maxcpu => [Register.cpuMax]

/-- Registers written for the limit, the ones it presets included. -/
def Limit.written (env : Env) : Limit → List Register
  | .memmax => [Register.swapPreset, .memoryMax]
  | .pwrcpu => if env.cpuweight.isSome then [Register.parentWeight, .cpuWeight] else [.cpuWeight]
  | lim => lim.registers

/-- Registers of the controllers and of the limits that are present. -/
def required (env : Env) : List Register :=
  Register.subtreeVzgot :: .subtreeContainers ::
    (lims.filter fun lim => (env.limit lim).isSome).flatMap Limit.registers

/-- Registers written when no step reports a failure. -/
def written (env : Env) : List Register :=
  [Register.subtreeVzgot, .subtreeContainers] ++
    (lims.filter fun lim => (env.limit lim).isSome).flatMap (Limit.written env) ++
    [.supervisorProcs]

/-! ## Values of the limits -/

/-- Path of the register, as the procedure that writes it prints it. -/
def Register.path (contname : List Char) : Register → List Char
  | .subtreeVzgot => Boot.sysGetSysfs .vzgot ++ "/cgroup.subtree_control".toList
  | .subtreeContainers => Boot.sysGetSysfs .containers ++ "/cgroup.subtree_control".toList
  | .pidsMax => slashRegister contname "pids.max"
  | .swapPreset | .swapMax => slashRegister contname "memory.swap.max"
  | .memoryMax => slashRegister contname "memory.max"
  | .cpusetCpus => cpusetPath contname
  | .parentWeight => Boot.sysGetSysfs .containers ++ "/cpu.weight".toList
  | .cpuWeight => slashRegister contname "cpu.weight"
  | .cpuMax => slashRegister contname "cpu.max"
  | .supervisorProcs => Boot.sysGetSysfs .supervisors ++ '/' :: contname ++ "/cgroup.procs".toList

/-- The limit of the processes set for a ratio of the largest number. -/
def pidsOf (pidMax : Nat) (ratio : Rat) : Nat := (max 100 (toLong (pidMax * ratio / 100))).toNat

/-- The limit of the memory set for a ratio of the total. -/
def memoryOf (info : SysInfo) (ratio : Rat) : Nat :=
  let memmax : Nat := info.totalram * info.memUnit % 2 ^ 64
  max (32 * 1024 * 1024) (toUvlong (memmax * ratio / 100))

/-- The limit of the swap set for a ratio of the total. -/
def swapOf (info : SysInfo) (ratio : Rat) : Nat :=
  let swapmax : Nat := info.totalswap * info.memUnit % 2 ^ 64
  toUvlong (swapmax * ratio / 100)

/-- The weight of all containers. -/
def parentWeightOf (value : List Char) : Nat := ((strtoll value).1 % 2 ^ 64).toNat

/-- The weight set for a ratio of the total. -/
def weightOf (total : Nat) (ratio : Rat) : Nat := min 10000 (max 1 (toUvlong (total * ratio / 100)))

/-- The first word of `cpu.max`. -/
def ceilingOf (numcpu : Nat) (ratio : Rat) : List Char :=
  let computed := toUvlong (ratio * numcpu * 100000 / 100)
  let usage := if computed = 0 then 25000 else computed
  if numcpu * 100000 ≤ usage then "max".toList else decimal usage

/-- The CPUs drawn for a ratio of those available. -/
def cpusOf (m : Machine) (contname : List Char) (ratio : Rat) : Option (List Nat) :=
  (sysSetcpuset m.cpus contname ratio m.rand (m.store .cpusetCpus)).bind fun sel =>
    sel.cont.map fun cont => writtenCpus cont.maxcpu cont.allocated

/-- The text for a register: the controllers, the value of a limit that is present, or the
number of the supervisor. -/
def registerText (m : Machine) (contname : List Char) (env : Env) : Register → Option (List Char)
  | .subtreeVzgot | .subtreeContainers => some "+memory +pids +cpu +cpuset".toList
  | .pidsMax =>
      (env.limit .pidmax).bind fun value => m.pidMax.map fun pidMax =>
        decimal (pidsOf pidMax (aplGetdouble value))
  | .swapPreset => some (decimal 0)
  | .memoryMax =>
      (env.limit .memmax).bind fun value => (m.sysinfo false).map fun info =>
        decimal (memoryOf info (aplGetdouble value))
  | .swapMax =>
      (env.limit .swapmax).bind fun value => (m.sysinfo true).map fun info =>
        decimal (swapOf info (aplGetdouble value))
  | .cpusetCpus =>
      (env.limit .numcpu).bind fun value => (cpusOf m contname (aplGetdouble value)).map fun cpus =>
        cpuList cpus ++ ['\n']
  | .parentWeight => env.cpuweight.map fun value => decimal (parentWeightOf value)
  | .cpuWeight =>
      (env.limit .pwrcpu).bind fun value => m.parentWeight.map fun total =>
        decimal (weightOf total (aplGetdouble value)) ++ ['\n']
  | .cpuMax =>
      (env.limit .maxcpu).map fun value =>
        ceilingOf m.numcpu (aplGetdouble value) ++ ' ' :: decimal 100000 ++ ['\n']
  | .supervisorProcs => some (decimal m.supervisorPid ++ ['\n'])

/-- A store goes to the path of its register, with the text for it. -/
structure Directed (m : Machine) (contname : List Char) (env : Env) (w : Store) : Prop where
  path : w.path = w.register.path contname
  text : registerText m contname env w.register = some w.text

/-- The result tells whether the texts were written. -/
def Reports (m : Machine) (contname : List Char) (env : Env) (d : Done) : Prop :=
  (d.isok = true → ∀ register ∈ required env, ∃ w ∈ d.stores,
    w.register = register ∧ w.path = register.path contname ∧
      registerText m contname env register = some w.text ∧ w.run = .whole) ∧
  ((∃ w ∈ d.stores, w.run ≠ .whole) → d.isok = false)

/-- The selection of CPUs is refused: the number of CPUs, `/proc/stat` or the opening of
`cpuset.cpus` fails. -/
def CpusRefused (m : Machine) : Prop :=
  m.cpus.onln = none ∨ (sysGetCpuHostList m.cpus).1 = false ∨
    readWeights (sysGetCpuHostList m.cpus).2 m.cpus.stat = none ∨ m.store .cpusetCpus = .notOpened

/-- The step of the limit reports a failure. -/
def Limit.Refused (m : Machine) : Limit → Prop
  | .pidmax => m.pidMax = none
  | .memmax => m.sysinfo false = none
  | .swapmax => m.sysinfo true = none
  | .numcpu => CpusRefused m
  | .pwrcpu => m.parentWeight = none
  | .maxcpu => m.cpuMaxReadable = false ∨ m.numcpu = 0 ∨ m.store .cpuMax = .notOpened

/-- A directory is not made, or the step of a limit that is present reports a failure. -/
def Refused (env : Env) (m : Machine) : Prop :=
  (∃ d, doMkdir (m.mkdir d) < 0) ∨ ∃ lim, (env.limit lim).isSome ∧ lim.Refused m

/-! ## Steps -/

/-- The step reports a failure exactly under the condition, and otherwise has written
these registers, each with its text. -/
structure Step (m : Machine) (contname : List Char) (env : Env) (refused : Prop)
    (registers : List Register) (d : Done) : Prop where
  isok : d.isok = false ↔ refused
  registers : d.isok = true → d.stores.map Store.register = registers
  directed : d.isok = true → ∀ w ∈ d.stores, Directed m contname env w
  run : ∀ w ∈ d.stores, w.run = m.store w.register

section Steps

variable {m : Machine} {contname : List Char} {env : Env} {p q : Prop} {xs ys : List Register}

theorem andThen_eq_some {first second : Option Done} {r : Done}
    (h : andThen first second = some r) :
    ∃ d, first = some d ∧ ((d.isok = false ∧ r = d) ∨
      (d.isok = true ∧ ∃ e, second = some e ∧ r = ⟨e.isok, d.stores ++ e.stores⟩)) := by
  obtain ⟨d, hd, hr⟩ := Option.bind_eq_some_iff.mp h
  refine ⟨d, hd, ?_⟩
  cases hok : d.isok with
  | false =>
      rw [hok] at hr
      cases hr
      exact Or.inl ⟨rfl, rfl⟩
  | true =>
      rw [hok] at hr
      obtain ⟨e, he, rfl⟩ := Option.map_eq_some_iff.mp hr
      exact Or.inr ⟨rfl, e, he, rfl⟩

/-- Two steps in sequence. -/
theorem Step.andThen {first second : Option Done} {r : Done}
    (hfirst : ∀ d, first = some d → Step m contname env p xs d)
    (hsecond : ∀ d, second = some d → Step m contname env q ys d)
    (h : Cgroup.andThen first second = some r) : Step m contname env (p ∨ q) (xs ++ ys) r := by
  obtain ⟨d, hd, ⟨hok, rfl⟩ | ⟨hok, e, he, rfl⟩⟩ := andThen_eq_some h
  · have hstep := hfirst r hd
    have hfalse : ¬ r.isok = true := by simp [hok]
    exact ⟨⟨fun _ => Or.inl (hstep.isok.mp hok), fun _ => hok⟩, fun h => absurd h hfalse,
      fun h => absurd h hfalse, hstep.run⟩
  · have hstep := hfirst d hd
    have hstep' := hsecond e he
    have hp : ¬ p := fun hp => by
      rw [hstep.isok.mpr hp] at hok
      cases hok
    refine ⟨?_, ?_, ?_, ?_⟩
    · simp only [hp, false_or]
      exact hstep'.isok
    · intro hok'
      rw [List.map_append, hstep.registers hok, hstep'.registers hok']
    · intro hok' w hw
      rcases List.mem_append.mp hw with hw | hw
      · exact hstep.directed hok w hw
      · exact hstep'.directed hok' w hw
    · intro w hw
      rcases List.mem_append.mp hw with hw | hw
      · exact hstep.run w hw
      · exact hstep'.run w hw

theorem directed_put (register : Register) {text : List Char}
    (htext : registerText m contname env register = some text) :
    Directed m contname env (m.put register (register.path contname) text) := ⟨rfl, htext⟩

/-- A step that never reports a failure. -/
theorem Step.sure {stores : List Store} (hregs : stores.map Store.register = xs)
    (hdirected : ∀ w ∈ stores, Directed m contname env w)
    (hrun : ∀ w ∈ stores, w.run = m.store w.register) :
    Step m contname env False xs ⟨true, stores⟩ :=
  ⟨by simp, fun _ => hregs, fun _ => hdirected, hrun⟩

/-- A step that writes one register and never reports a failure. -/
theorem Step.single (register : Register) {text : List Char}
    (htext : registerText m contname env register = some text) :
    Step m contname env False [register] ⟨true, [m.put register (register.path contname) text]⟩ := by
  refine Step.sure rfl ?_ ?_
  · intro w hw
    rw [List.mem_singleton.mp hw]
    exact directed_put register htext
  · intro w hw
    rw [List.mem_singleton.mp hw]
    rfl

/-- A step that reports a failure. -/
theorem Step.refused {stores : List Store} (hp : p) (xs : List Register)
    (hrun : ∀ w ∈ stores, w.run = m.store w.register) :
    Step m contname env p xs ⟨false, stores⟩ :=
  ⟨by simp [hp], fun h => (Bool.false_ne_true h).elim, fun h => (Bool.false_ne_true h).elim, hrun⟩

theorem Step.congr {d : Done} (h : Step m contname env p xs d) (hpq : p ↔ q) (hxs : xs = ys) :
    Step m contname env q ys d := by
  subst hxs
  exact ⟨h.isok.trans hpq, h.registers, h.directed, h.run⟩

end Steps

section Machine

variable {m : Machine} {contname : List Char} {env : Env}

theorem step_prcSetpidsmax {value : List Char} (hvalue : env.limit .pidmax = some value) :
    Step m contname env (m.pidMax = none) [Register.pidsMax] (prcSetpidsmax m contname value) := by
  rw [prcSetpidsmax]
  cases hmax : m.pidMax with
  | none => exact Step.refused rfl _ (by simp)
  | some n =>
      have htext : registerText m contname env .pidsMax =
          some (decimal (pidsOf n (aplGetdouble value))) := by
        rw [registerText, hvalue, Option.bind_some, hmax, Option.map_some]
      simp only [sysWriteSysLong_eq_true]
      exact (Step.single _ htext).congr (by simp) rfl

theorem step_memmax {value : List Char} (hvalue : env.limit .memmax = some value) :
    Step m contname env (m.sysinfo false = none) [Register.swapPreset, .memoryMax]
      (prcSetmemmax m contname value false) := by
  rw [prcSetmemmax]
  cases hinfo : m.sysinfo false with
  | none => exact Step.refused rfl _ (by simp)
  | some info =>
      have htext : registerText m contname env .memoryMax =
          some (decimal (memoryOf info (aplGetdouble value))) := by
        rw [registerText, hvalue, Option.bind_some, hinfo, Option.map_some]
      simp only [sysWriteSysLong_eq_true, Bool.false_eq_true, if_false]
      refine (Step.sure rfl ?_ (by simp [Machine.put])).congr (by simp) rfl
      -- the swap is preset in front of the limit of the memory
      intro w hw
      rcases List.mem_cons.mp hw with rfl | hw
      · exact directed_put .swapPreset rfl
      · rw [List.mem_singleton.mp hw]
        exact directed_put _ htext

theorem step_swapmax {value : List Char} (hvalue : env.limit .swapmax = some value) :
    Step m contname env (m.sysinfo true = none) [Register.swapMax]
      (prcSetmemmax m contname value true) := by
  rw [prcSetmemmax]
  cases hinfo : m.sysinfo true with
  | none => exact Step.refused rfl _ (by simp)
  | some info =>
      have htext : registerText m contname env .swapMax =
          some (decimal (swapOf info (aplGetdouble value))) := by
        rw [registerText, hvalue, Option.bind_some, hinfo, Option.map_some]
      simp only [sysWriteSysLong_eq_true, if_true]
      exact (Step.single _ htext).congr (by simp) rfl

theorem storeSelection_spec {run : WriteRun} {todraw : PhyCpu} {sel : Selection}
    (h : storeSelection contname run todraw = some sel) :
    (sel.isok = false ↔ run = .notOpened) ∧ sel.cont = some todraw ∧
      sel.stores = [⟨.cpusetCpus, cpusetPath contname,
        cpuList (writtenCpus todraw.maxcpu todraw.allocated) ++ ['\n'], run⟩] := by
  rw [storeSelection] at h
  split at h
  · cases h
    exact ⟨by simp [*], rfl, rfl⟩
  · split at h
    · cases h
    · cases h
      exact ⟨by simp [*], rfl, rfl⟩

theorem step_numcpu {value : List Char} {sel : Selection} (hvalue : env.limit .numcpu = some value)
    (h : sysSetcpuset m.cpus contname (aplGetdouble value) m.rand (m.store .cpusetCpus) = some sel) :
    Step m contname env (CpusRefused m) [Register.cpusetCpus] ⟨sel.isok, sel.stores⟩ := by
  have hsel := h
  rw [sysSetcpuset] at h
  -- each failure in front of the stores is a refusal, and stores nothing
  cases honln : m.cpus.onln with
  | none =>
      rw [honln] at h
      cases h
      exact Step.refused (Or.inl honln) _ (by simp)
  | some n =>
      rw [honln] at h
      simp only [cpuselector] at h
      cases hlist : sysGetCpuHostList m.cpus with
      | mk isok host =>
          rw [hlist] at h
          cases isok with
          | false =>
              cases h
              exact Step.refused (Or.inr (Or.inl (by rw [hlist]))) _ (by simp)
          | true =>
              cases hread : readWeights host m.cpus.stat with
              | none =>
                  simp only [hread] at h
                  cases h
                  exact Step.refused (Or.inr (Or.inr (Or.inl (by rw [hlist]; exact hread)))) _
                    (by simp)
              | some w =>
                  simp only [hread, drawSelection] at h
                  split at h
                  · cases h
                  · obtain ⟨hok, hcont, hstores⟩ := storeSelection_spec h
                    refine ⟨?_, ?_, fun _ w hw => ?_, ?_⟩
                    · rw [hok, CpusRefused, honln, hlist]
                      simp [hread]
                    · intro _
                      simp [hstores]
                    · rw [hstores] at hw
                      rw [List.mem_singleton.mp hw]
                      refine ⟨rfl, ?_⟩
                      simp only [registerText, hvalue, Option.bind_some, cpusOf, hsel, hcont,
                        Option.map_some]
                    · simp [hstores]

theorem step_sysSetContWeight {value : List Char} (hvalue : env.limit .pwrcpu = some value) :
    Step m contname env (m.parentWeight = none) (Limit.written env .pwrcpu)
      (sysSetContWeight m contname env.cpuweight (aplGetdouble value)) := by
  simp only [sysSetContWeight, Limit.written]
  cases htotal : m.parentWeight with
  | none =>
      apply Step.refused rfl
      cases env.cpuweight with
      | none => simp
      | some parent => simp [Machine.put]
  | some total =>
      have htext : registerText m contname env .cpuWeight =
          some (decimal (weightOf total (aplGetdouble value)) ++ ['\n']) := by
        rw [registerText, hvalue, Option.bind_some, htotal, Option.map_some]
      cases hparent : env.cpuweight with
      | none => exact (Step.single _ htext).congr (by simp) rfl
      | some parent =>
          have hall : registerText m contname env .parentWeight =
              some (decimal (parentWeightOf parent)) := by
            rw [registerText, hparent, Option.map_some]
          refine (Step.sure rfl ?_ (by simp [Machine.put])).congr (by simp) rfl
          intro w hw
          rcases List.mem_cons.mp hw with rfl | hw
          · exact directed_put _ hall
          · rw [List.mem_singleton.mp hw]
            exact directed_put _ htext

theorem step_sysSetContUsage {value : List Char} (hvalue : env.limit .maxcpu = some value) :
    Step m contname env (m.cpuMaxReadable = false ∨ m.numcpu = 0 ∨ m.store .cpuMax = .notOpened)
      [Register.cpuMax] (sysSetContUsage m contname (aplGetdouble value)) := by
  rw [sysSetContUsage]
  by_cases hread : m.cpuMaxReadable = false
  · rw [if_pos hread]
    exact Step.refused (Or.inl hread) _ (by simp)
  · rw [if_neg hread]
    by_cases hnum : m.numcpu = 0
    · rw [if_pos hnum]
      exact Step.refused (Or.inr (Or.inl hnum)) _ (by simp)
    · rw [if_neg hnum]
      by_cases hopen : m.store .cpuMax = .notOpened
      · simp only [hopen, if_true]
        exact Step.refused (Or.inr (Or.inr trivial)) _ (by simp [Machine.put, hopen])
      · have htext : registerText m contname env .cpuMax =
            some (ceilingOf m.numcpu (aplGetdouble value) ++ ' ' :: decimal 100000 ++ ['\n']) := by
          rw [registerText, hvalue, Option.map_some]
        simp only [hopen, if_false]
        exact (Step.single _ htext).congr (by simp [hread, hnum]) rfl

theorem step_setLimit {value : List Char} (lim : Limit) (hvalue : env.limit lim = some value)
    {d : Done} (h : setLimit m contname env value lim = some d) :
    Step m contname env (lim.Refused m) (lim.written env) d := by
  cases lim with
  | pidmax =>
      cases h
      exact step_prcSetpidsmax hvalue
  | memmax =>
      cases h
      exact step_memmax hvalue
  | swapmax =>
      cases h
      exact step_swapmax hvalue
  | numcpu =>
      obtain ⟨sel, hsel, rfl⟩ := Option.map_eq_some_iff.mp h
      exact step_numcpu hvalue hsel
  | pwrcpu =>
      cases h
      exact step_sysSetContWeight hvalue
  | maxcpu =>
      cases h
      exact step_sysSetContUsage hvalue

/-- The loop over the rest of the table. -/
theorem step_cgroupLimits (rest : List Limit) {d : Done}
    (h : cgroupLimits m contname env rest = some d) :
    Step m contname env (∃ lim ∈ rest, (env.limit lim).isSome ∧ lim.Refused m)
      ((rest.filter fun lim => (env.limit lim).isSome).flatMap (Limit.written env)) d := by
  induction rest generalizing d with
  | nil =>
      cases h
      exact (Step.sure rfl (by simp) (by simp)).congr (by simp) rfl
  | cons lim rest ih =>
      rw [cgroupLimits] at h
      cases hlim : env.limit lim with
      | none =>
          rw [hlim] at h
          exact (ih h).congr (by simp [hlim]) (by simp [hlim])
      | some value =>
          rw [hlim] at h
          have hstep :=
            Step.andThen (fun d hd => step_setLimit lim hlim hd) (fun d hd => ih hd) h
          exact hstep.congr (by simp [hlim]) (by simp [hlim])

theorem step_makeDirectory (dir : Directory) {d : Done} (h : makeDirectory m dir = some d) :
    Step m contname env (doMkdir (m.mkdir dir) < 0) [] d := by
  cases h
  refine ⟨?_, fun _ => rfl, fun _ w hw => absurd hw List.not_mem_nil,
    fun w hw => absurd hw List.not_mem_nil⟩
  rw [decide_eq_false_iff_not, not_le]

theorem step_enableVzgot {d : Done} (h : enableControllers m .subtreeVzgot .vzgot = some d) :
    Step m contname env False [Register.subtreeVzgot] d := by
  rw [enableControllers, sysWriteStr_eq_true] at h
  cases h
  exact Step.single .subtreeVzgot rfl

theorem step_enableContainers {d : Done}
    (h : enableControllers m .subtreeContainers .containers = some d) :
    Step m contname env False [Register.subtreeContainers] d := by
  rw [enableControllers, sysWriteStr_eq_true] at h
  cases h
  exact Step.single .subtreeContainers rfl

theorem step_moveSupervisor {d : Done} (h : moveSupervisor m contname = some d) :
    Step m contname env False [Register.supervisorProcs] d := by
  cases h
  exact Step.single .supervisorProcs rfl

theorem step_cntSetCgroup {d : Done} (h : cntSetCgroup m contname env = some d) :
    Step m contname env (Refused env m) (written env) d := by
  have hstep :=
    Step.andThen (fun _ => step_makeDirectory .vzgot) (fun _ =>
    Step.andThen (fun _ => step_enableVzgot) (fun _ =>
    Step.andThen (fun _ => step_makeDirectory .supervisors) (fun _ =>
    Step.andThen (fun _ => step_makeDirectory .containers) (fun _ =>
    Step.andThen (fun _ => step_enableContainers) (fun _ =>
    Step.andThen (fun _ => step_makeDirectory .supervisor) (fun _ =>
    Step.andThen (fun _ => step_makeDirectory .container) (fun _ =>
    Step.andThen (fun _ => step_cgroupLimits lims) (fun _ => step_moveSupervisor)))))))) h
  -- the steps fail one by one, `Refused` collects them by their kind
  refine hstep.congr ?_ ?_
  · have hdirs : (∃ dir, doMkdir (m.mkdir dir) < 0) ↔
        doMkdir (m.mkdir .vzgot) < 0 ∨ doMkdir (m.mkdir .supervisors) < 0 ∨
          doMkdir (m.mkdir .containers) < 0 ∨ doMkdir (m.mkdir .supervisor) < 0 ∨
          doMkdir (m.mkdir .container) < 0 := by
      constructor
      · rintro ⟨dir, hdir⟩
        cases dir <;> simp [hdir]
      · rintro (h | h | h | h | h) <;> exact ⟨_, h⟩
    have hlims : (∃ lim ∈ lims, (env.limit lim).isSome ∧ lim.Refused m) ↔
        ∃ lim, (env.limit lim).isSome ∧ lim.Refused m := by
      constructor
      · rintro ⟨lim, -, hlim⟩
        exact ⟨lim, hlim⟩
      · rintro ⟨lim, hlim⟩
        exact ⟨lim, by cases lim <;> simp [lims], hlim⟩
    rw [Refused, hdirs, hlims]
    simp only [false_or, or_false, or_assoc]
  · simp [written]

end Machine

/-- The registers of a limit are among those written for it. -/
theorem required_subset_written (env : Env) : ∀ register ∈ required env, register ∈ written env := by
  intro register h
  have hlim : ∀ lim : Limit, register ∈ lim.registers → register ∈ lim.written env := by
    intro lim hmem
    cases lim with
    | memmax => exact List.mem_cons_of_mem _ hmem
    | pwrcpu =>
        rw [Limit.written]
        split
        · exact List.mem_cons_of_mem _ hmem
        · exact hmem
    | pidmax => exact hmem
    | swapmax => exact hmem
    | numcpu => exact hmem
    | maxcpu => exact hmem
  simp only [required, written, List.mem_cons, List.mem_flatMap, List.mem_append] at h ⊢
  rcases h with h | h | ⟨lim, hmem, hreg⟩
  · exact Or.inl (Or.inl (Or.inl h))
  · exact Or.inl (Or.inl (Or.inr (Or.inl h)))
  · exact Or.inl (Or.inr ⟨lim, hmem, hlim lim hreg⟩)

/-- Whenever `cnt_set_cgroup` returns, its result is right if and only if a step reports a
failure or every register was completely written. -/
theorem cnt_set_cgroup_reports_iff {m : Machine} {contname : List Char} {env : Env} {d : Done}
    (h : cntSetCgroup m contname env = some d) :
    Reports m contname env d ↔
      Refused env m ∨ ∀ register ∈ written env, m.store register = .whole := by
  have hstep := step_cntSetCgroup h
  cases hok : d.isok with
  | false =>
      have hrefused := hstep.isok.mp hok
      simp [Reports, hok, hrefused]
  | true =>
      have hnot : ¬ Refused env m := fun hr => by
        rw [hstep.isok.mpr hr] at hok
        cases hok
      have hregs := hstep.registers hok
      have hall : (∀ register ∈ written env, m.store register = .whole) ↔
          ∀ w ∈ d.stores, w.run = .whole := by
        rw [← hregs, List.forall_mem_map]
        constructor
        · intro hw w hmem
          rw [hstep.run w hmem]
          exact hw w hmem
        · intro hw w hmem
          rw [← hstep.run w hmem]
          exact hw w hmem
      simp only [hnot, false_or, hall]
      constructor
      · -- a write that is not whole would have to be reported
        rintro ⟨-, hfail⟩ w hw
        by_contra hrun
        rw [hfail ⟨w, hw, hrun⟩] at hok
        cases hok
      · intro hw
        refine ⟨?_, ?_⟩
        · intro _ register hregister
          have hmem : register ∈ d.stores.map Store.register := by
            rw [hregs]
            exact required_subset_written env register hregister
          obtain ⟨w, hwmem, rfl⟩ := List.mem_map.mp hmem
          obtain ⟨hpath, htext⟩ := hstep.directed hok w hwmem
          exact ⟨w, hwmem, rfl, hpath, htext, hw w hwmem⟩
        · rintro ⟨w, hwmem, hrun⟩
          exact absurd (hw w hwmem) hrun

/-- A host where nothing fails but what becomes of the texts is given. -/
def plainMachine (store : Register → WriteRun) : Machine where
  mkdir _ := .made
  store := store
  pidMax := some 32768
  sysinfo _ := some ⟨4194304, 1048576, 1024⟩
  cpus := ⟨some 1, some 1, some ⟨{0}, by decide⟩, some [.other, .cpu 0 1 2 3]⟩
  rand _ := 0
  parentWeight := some 100
  cpuMaxReadable := true
  numcpu := 1
  supervisorPid := 42

/-- Half of the process numbers and nothing else. -/
def pidmaxEnv : Env := ⟨fun lim => if lim = .pidmax then some "50.0".toList else none, none⟩

theorem cnt_set_cgroup_reports_whole :
    ∃ d, cntSetCgroup (plainMachine fun _ => .whole) "web".toList pidmaxEnv = some d ∧
      (Reports (plainMachine fun _ => .whole) "web".toList pidmaxEnv d ↔
        Refused pidmaxEnv (plainMachine fun _ => .whole) ∨
          ∀ register ∈ written pidmaxEnv, WriteRun.whole = .whole) := by
  have hrun : ∃ d, cntSetCgroup (plainMachine fun _ => .whole) "web".toList pidmaxEnv = some d ∧
      d.isok = true := (Option.any_eq_true _ _).mp (by decide +kernel)
  obtain ⟨d, hd, -⟩ := hrun
  exact ⟨d, hd, cnt_set_cgroup_reports_iff hd⟩

/-- The file `pids.max` cannot be opened, and the container is told to be limited. -/
theorem cnt_set_cgroup_hides_failure :
    ∃ d, cntSetCgroup (plainMachine fun register =>
        if register = .pidsMax then .notOpened else .whole) "web".toList pidmaxEnv = some d ∧
      d.isok = true ∧ ¬ Reports (plainMachine fun register =>
        if register = .pidsMax then .notOpened else .whole) "web".toList pidmaxEnv d := by
  have hrun : ∃ d, cntSetCgroup (plainMachine fun register =>
        if register = .pidsMax then .notOpened else .whole) "web".toList pidmaxEnv = some d ∧
      (d.isok && d.stores.any fun w => w.run = .notOpened) = true :=
    (Option.any_eq_true _ _).mp (by decide +kernel)
  obtain ⟨d, hd, h⟩ := hrun
  obtain ⟨hok, hany⟩ := Bool.and_eq_true_iff.mp h
  obtain ⟨w, hw, hopen⟩ := List.any_eq_true.mp hany
  refine ⟨d, hd, hok, ?_⟩
  rintro ⟨-, hfail⟩
  have hfalse := hfail ⟨w, hw, by simp [of_decide_eq_true hopen]⟩
  rw [hok] at hfalse
  cases hfalse

end Vzgot.Cgroup
