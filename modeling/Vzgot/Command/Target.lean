import Mathlib.Logic.Function.Basic
import Vzgot.Command.Exec
import Vzgot.Library.Stdio
import Vzgot.Library.Transition

/-!
# The processes that a command reaches

`vzexec` and `cont_shutdown` know a container by the number in its `first.pid`. A `World`
is what that number depends on: the process table, the files, the supervisors that write
them and the commands that have read them. Numbers are given again once a process is
reaped, and a supervisor may be killed with its file left behind. A container is its name;
the file is the one of its directory, which two names may have in common.

`targets` are the numbers that a command is still going to use; by `Call.step_targets` a
turn acts on these only.
-/

set_option autoImplicit false

namespace Vzgot.Command

open Stdio Transition

/-! ## The file -/

/-- Line that `cnt_set_cont_pid` prints. -/
def cntSetContPid (cpid : Nat) : List Char := printNat false 0 cpid ++ ['\n']

/-- `cnt_get_cont_pid` on the contents of `first.pid`, if there is one. -/
def cntGetContPid : Option (List Char) → Int
  | none => 0
  | some bytes =>
      match fgets 79 bytes with
      | none => 0
      | some strloc => (scanInt (cstr strloc)).getD 0

/-- Where containers are: `HOMEFS` as the configuration of a name sets it, and the
directory of those that set none. -/
structure Layout where
  vzpath : List Char
  homefs : List Char → Option (List Char)

/-- `sys_get_cont_path` -/
def Layout.sysGetContPath (l : Layout) (contName : List Char) : List Char :=
  match l.homefs contName with
  | none => (l.vzpath ++ '/' :: contName).take 127
  | some homefs => homefs.take 127

/-- Largest number of a process. -/
def pidMax : Nat := 4194304

/-- What was written is read back. -/
theorem cntGetContPid_cntSetContPid {cpid : Nat} (h : cpid ≤ pidMax) :
    cntGetContPid (some (cntSetContPid cpid)) = cpid := by
  have hlen := printNat_length_le false 0 (d := 7) (by decide)
    (show cpid < 10 ^ 7 by unfold pidMax at h; omega)
  have hsize : (printNat false 0 cpid).length + 1 < 79 := by omega
  obtain ⟨hgets, hscan⟩ := scanInt_fgets_printNat false 0 cpid hsize []
  simp only [cntGetContPid, cntSetContPid, hgets, cstr_printNat, hscan, Option.getD_some]

/-! ## Commands -/

/-- A command in progress. -/
inductive Body where
  | exec (s : Exec)
  | shutdown (s : Shutdown)

/-- A command called for a container. -/
structure Call where
  name : List Char
  body : Body

/-- One turn of a command. -/
def Call.step (c : Call) (a : Answer) : Option (Call × List Op) :=
  match c.body with
  | .exec s => (execStep c.name s a).map fun r => ({ c with body := .exec r.1 }, r.2)
  | .shutdown s => (shutdownStep c.name s a).map fun r => ({ c with body := .shutdown r.1 }, r.2)

/-- Number that `vzexec` is about to use. -/
def Exec.targets (s : Exec) : List Int := if s.phase = 3 then [s.cntpid] else []

/-- Numbers that `cont_shutdown` is still going to use. -/
def Shutdown.targets (s : Shutdown) : List Int :=
  (if 2 ≤ s.phase ∧ s.phase ≤ 4 then [s.cntpid] else []) ++
    if s.phase = 2 then s.exec.targets else []

/-- Numbers that a command is still going to use. -/
def Body.targets : Body → List Int
  | .exec s => s.targets
  | .shutdown s => s.targets

/-- Process number that an operation acts on. -/
def Op.target : Op → Option Int
  | .inject pid => some pid
  | .kill pid => some pid
  | .removePid _ => none

/-- What one turn does with numbers: it acts on those it has, and has new ones only from
`cnt_get_cont_pid`. -/
def Bounded (before after : List Int) (ops : List Op) (a : Answer) : Prop :=
  (∀ op ∈ ops, ∀ p, op.target = some p → p ∈ before) ∧
    ∀ p ∈ after, p ∈ before ∨ (a = .pid p ∧ p ≠ 0)

section Turns

variable {name : List Char} {a : Answer}

theorem execStep_targets {s t : Exec} {ops : List Op} (h : execStep name s a = some (t, ops)) :
    Bounded s.targets t.targets ops a := by
  unfold execStep at h
  by_cases hp : s.proceed = true
  · rw [if_pos hp] at h
    split at h
    case h_6 => cases h
    all_goals
      rename_i hphase
      simp only [Option.some.injEq, Prod.mk.injEq] at h
      obtain ⟨rfl, rfl⟩ := h
    · split <;> simp [Bounded, Exec.targets]
    · simp [Bounded, Exec.targets]
    · -- the number is read
      rename_i pid
      by_cases h0 : pid = 0
      · simp [Bounded, Exec.targets, h0]
      · simp [Bounded, Exec.targets, h0]
    · -- the command is run with it
      constructor
      · intro op hop p hp
        split at hop
        · cases hop
        · rw [List.mem_singleton.1 hop] at hp
          simp only [Op.target, Option.some.injEq] at hp
          simp [Exec.targets, hphase, hp]
      · intro p hp
        split at hp <;> simp [Exec.targets] at hp
    · simp only [Bounded, Exec.targets, hphase, Nat.succ_eq_add_one]
      simp
  · rw [if_neg hp] at h
    cases h

theorem afterExec_targets {s t : Shutdown} {ops : List Op} (hphase : s.phase = 2)
    (h : afterExec s a = some (t, ops)) : Bounded s.targets t.targets ops a := by
  unfold afterExec at h
  split at h
  case h_3 => cases h
  all_goals
    split at h
    all_goals
      first
      | cases h
        done
      | simp only [Option.some.injEq, Prod.mk.injEq] at h
        obtain ⟨rfl, rfl⟩ := h
        simp [Bounded, Shutdown.targets, Op.target, hphase]

theorem shutdownStep_targets {s t : Shutdown} {ops : List Op}
    (h : shutdownStep name s a = some (t, ops)) : Bounded s.targets t.targets ops a := by
  unfold shutdownStep at h
  by_cases hp : s.proceed = true
  · rw [if_pos hp] at h
    split at h
    case h_9 => cases h
    all_goals rename_i hphase
    · simp only [Option.some.injEq, Prod.mk.injEq] at h
      obtain ⟨rfl, rfl⟩ := h
      simp [Bounded, Shutdown.targets]
    · -- the number is read for the SIGKILL
      rename_i pid
      simp only [Option.some.injEq, Prod.mk.injEq] at h
      obtain ⟨rfl, rfl⟩ := h
      by_cases h0 : pid = 0
      · simp [Bounded, Shutdown.targets, h0]
      · simp [Bounded, Shutdown.targets, h0, execInit, Exec.targets]
    · by_cases hexec : s.exec.proceed = true
      · -- a turn of `vzexec`, which reads the number once more
        rw [if_pos hexec, Option.map_eq_some_iff] at h
        obtain ⟨⟨e, eops⟩, he, heq⟩ := h
        simp only [Prod.mk.injEq] at heq
        obtain ⟨rfl, rfl⟩ := heq
        obtain ⟨hact, hnew⟩ := execStep_targets he
        simp only [Bounded, Shutdown.targets, hphase, le_refl, Nat.reduceLeDiff, and_self,
          if_true, List.singleton_append, List.mem_cons]
        refine ⟨fun op hop p htgt => .inr (hact op hop p htgt), fun p hmem => ?_⟩
        rcases hmem with rfl | hmem
        · exact .inl (.inl rfl)
        · exact (hnew p hmem).imp .inr id
      · rw [if_neg hexec] at h
        exact afterExec_targets hphase h
    · simp only [Option.some.injEq, Prod.mk.injEq] at h
      obtain ⟨rfl, rfl⟩ := h
      split <;> simp [Bounded, Shutdown.targets, hphase]
    · split at h
      · simp only [Option.some.injEq, Prod.mk.injEq] at h
        obtain ⟨rfl, rfl⟩ := h
        simp [Bounded, Shutdown.targets, hphase]
      · cases h
    · split at h
      · simp only [Option.some.injEq, Prod.mk.injEq] at h
        obtain ⟨rfl, rfl⟩ := h
        split <;> simp [Bounded, Shutdown.targets, hphase]
      · cases h
    · split at h
      · simp only [Option.some.injEq, Prod.mk.injEq] at h
        obtain ⟨rfl, rfl⟩ := h
        simp [Bounded, Shutdown.targets, Op.target, hphase]
      · cases h
    · simp only [Option.some.injEq, Prod.mk.injEq] at h
      obtain ⟨rfl, rfl⟩ := h
      simp only [Bounded, Shutdown.targets, hphase, Nat.succ_eq_add_one]
      simp
  · rw [if_neg hp] at h
    cases h

/-- A turn of a command acts on the numbers it has. -/
theorem Call.step_targets {c d : Call} {ops : List Op} (h : c.step a = some (d, ops)) :
    d.name = c.name ∧ Bounded c.body.targets d.body.targets ops a := by
  unfold Call.step at h
  split at h
  · rename_i s hbody
    rw [Option.map_eq_some_iff] at h
    obtain ⟨⟨t, tops⟩, ht, heq⟩ := h
    simp only [Prod.mk.injEq] at heq
    obtain ⟨rfl, rfl⟩ := heq
    rw [hbody]
    exact ⟨rfl, execStep_targets ht⟩
  · rename_i s hbody
    rw [Option.map_eq_some_iff] at h
    obtain ⟨⟨t, tops⟩, ht, heq⟩ := h
    simp only [Prod.mk.injEq] at heq
    obtain ⟨rfl, rfl⟩ := heq
    rw [hbody]
    exact ⟨rfl, shutdownStep_targets ht⟩

end Turns

/-! ## The host -/

/-- A process: the name of the container it belongs to, if it belongs to one, and the
supervisor that has cloned it. One that has ended keeps its number until it is reaped. -/
structure Proc where
  owner : Option (List Char)
  parent : Option Nat
  live : Bool

/-- A supervisor: a run of `boot`. `child` is the process that it has not reaped. -/
structure Sup where
  name : List Char
  child : Option Nat

/-- A process of `owner` entered, given a command or killed for the container `cont`. -/
structure Hit where
  cont : List Char
  owner : Option (List Char)
  deriving DecidableEq

/-- Processes by number, files by directory, supervisors and commands, and the ledger of
what the commands have done to processes. -/
structure World where
  procs : Nat → Option Proc
  pidFile : List Char → Option (List Char)
  sups : Nat → Option Sup
  calls : Nat → Option Call
  hits : List Hit

/-- One event: a supervisor starts, clones the container, writes or removes its
`first.pid`, or is gone (it returns or is killed); a process forks, ends or is reaped; a
command is called for a container or takes a turn. `kept` bytes of the line reach the
file. -/
inductive Event where
  | supervise (sup : Nat) (name : List Char)
  | clone (sup pid : Nat)
  | record (sup kept : Nat)
  | unlink (sup : Nat)
  | gone (sup : Nat)
  | fork (parent pid : Nat)
  | ends (pid : Nat)
  | reap (pid : Nat)
  | vzexec (id : Nat) (name : List Char)
  | contShutdown (id : Nat) (name : List Char)
  | turn (id : Nat) (a : Answer)

/-- The number can be given to a new process. -/
def World.free (w : World) (pid : Nat) : Bool := 0 < pid ∧ pid ≤ pidMax ∧ (w.procs pid).isNone

/-- A new process. -/
def World.start (w : World) (pid : Nat) (proc : Proc) : World :=
  { w with procs := Function.update w.procs pid (some proc) }

/-- New contents of `first.pid` in the directory, or no such file. -/
def World.setFile (w : World) (dir : List Char) (bytes : Option (List Char)) : World :=
  { w with pidFile := Function.update w.pidFile dir bytes }

/-- A supervisor has another child, or is gone. -/
def World.setSup (w : World) (id : Nat) (sup : Option Sup) : World :=
  { w with sups := Function.update w.sups id sup }

/-- Something is done to the process with this number. A number below 1 stands for
processes that may be anyone's; a process that has ended feels nothing. -/
def World.hit (w : World) (cont : List Char) (pid : Int) : World :=
  if pid ≤ 0 then { w with hits := ⟨cont, none⟩ :: w.hits }
  else
    match w.procs pid.toNat with
    | some proc =>
        if proc.live then { w with hits := ⟨cont, proc.owner⟩ :: w.hits } else w
    | none => w

/-- One operation of a command for the container. -/
def World.does (l : Layout) (cont : List Char) (w : World) : Op → Option World
  | .inject pid => some (w.hit cont pid)
  | .kill pid => some (w.hit cont pid)
  | .removePid ok =>
      let dir := l.sysGetContPath cont
      if ok then if (w.pidFile dir).isSome then some (w.setFile dir none) else none
      else some w

/-- `cnt_get_cont_pid` answers with what is in the file, or 0 when it cannot open it. -/
def World.answers (l : Layout) (w : World) (cont : List Char) : Answer → Bool
  | .pid pid => pid = 0 ∨ pid = cntGetContPid (w.pidFile (l.sysGetContPath cont))
  | _ => true

/-- A process that has ended is reaped, by its supervisor if that one still waits for
it. -/
def World.reap (w : World) (pid : Nat) (proc : Proc) : World :=
  let w := { w with procs := Function.update w.procs pid none }
  match proc.parent with
  | none => w
  | some id =>
      match w.sups id with
      | some sup => if sup.child = some pid then w.setSup id (some { sup with child := none }) else w
      | none => w

/-- A command is called. -/
def World.call (w : World) (id : Nat) (c : Call) : Option World :=
  if (w.calls id).isNone then some { w with calls := Function.update w.calls id (some c) }
  else none

/-- One turn of the command `id`. -/
def World.turn (l : Layout) (w : World) (id : Nat) (a : Answer) : Option World :=
  (w.calls id).bind fun c =>
    if w.answers l c.name a then
      (c.step a).bind fun r =>
        r.2.foldlM (World.does l c.name) { w with calls := Function.update w.calls id (some r.1) }
    else none

/-- One event of the host. -/
def World.step (l : Layout) (w : World) : Event → Option World
  | .supervise id name =>
      if (w.sups id).isNone then some (w.setSup id (some ⟨name, none⟩)) else none
  | .clone id pid =>
      (w.sups id).bind fun sup =>
        if w.free pid then
          some ((w.start pid ⟨some sup.name, some id, true⟩).setSup id
            (some { sup with child := some pid }))
        else none
  | .record id kept =>
      (w.sups id).bind fun sup =>
        sup.child.map fun pid =>
          w.setFile (l.sysGetContPath sup.name) (some ((cntSetContPid pid).take kept))
  -- `cnt_rm_cont_pid` in `cont_attend`
  | .unlink id => (w.sups id).map fun sup => w.setFile (l.sysGetContPath sup.name) none
  | .gone id => some (w.setSup id none)
  | .fork parent pid =>
      -- a child belongs where its parent belongs
      (w.procs parent).bind fun proc =>
        if proc.live ∧ w.free pid then some (w.start pid ⟨proc.owner, none, true⟩) else none
  | .ends pid =>
      -- the number stays in use until the process is reaped
      (w.procs pid).map fun proc => w.start pid { proc with live := false }
  | .reap pid =>
      (w.procs pid).bind fun proc => if proc.live then none else some (w.reap pid proc)
  | .vzexec id name => w.call id ⟨name, .exec execInit⟩
  | .contShutdown id name => w.call id ⟨name, .shutdown shutdownInit⟩
  | .turn id a => w.turn l id a

/-- A host with its first process. -/
def World.init : World where
  procs := Function.update (fun _ => none) 1 (some ⟨none, none, true⟩)
  pidFile := fun _ => none
  sups := fun _ => none
  calls := fun _ => none
  hits := []

end Vzgot.Command
