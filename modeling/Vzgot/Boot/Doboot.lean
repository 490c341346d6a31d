import Vzgot.Library.Calls

/-!
# The first process of a container

`doboot` (`app/vzgot.c`) runs in the cloned process: it closes the root of the container
behind itself and then executes the program of the container. Its loop has a turn for
every phase; `dobootTurn` is one turn, with the calls that it makes and what follows from
their results. The helpers `cnt_set_rootfs_dir` (`lib/unicnt.c`), `sys_set_boot_time`
(`lib/utlsys.c`) and `monitoring` make calls of their own. What is done to the standard
descriptors is left out, its results are not looked at.
-/

set_option autoImplicit false

namespace Vzgot.Boot

open Vzgot.Calls

/-! ## Calls -/

/-- Flags of `mount`. -/
inductive MountFlag where
  | recursive
  | makePrivate
  | bind
  | nosuid
  | nodev
  | noexec
  deriving DecidableEq

/-- Domains of `personality`. -/
inductive Persona where
  | linux32
  | linux
  deriving DecidableEq

/-- System calls that succeed or fail. -/
inductive SysCall where
  | personality (persona : Persona)
  | unshareCgroupTime
  | setDeathSignal
  | sysinfo
  | openTimensOffsets
  | writeTimensOffsets
  | chmod (path : List Char) (mode : Nat)
  | mount (source target : List Char) (type : Option (List Char)) (flags : List MountFlag)
  | chdir (path : List Char)
  | pivotRoot (new old : List Char)
  | umountDetach (path : List Char)
  | rmdir (path : List Char)
  | setsid
  | openDevice (path : List Char)
  | fexecve (mfd : Nat) (name : List Char)
  | execvpe (args : List (List Char))
  deriving DecidableEq

/-- Calls of `doboot` and of its helpers. -/
inductive Call where
  | sys (c : SysCall)
  | mkdir (path : List Char) (mode : Nat)
  | getMemfd (path name : List Char)
  | fork
  deriving DecidableEq

/-- Results of `mkdir`. -/
inductive MkdirResult where
  | made
  | exists
  | error

/-- Results of `fork`: none, the one of the child, and the one of the parent. -/
inductive ForkResult where
  | failed
  | child
  | parent

/-- What a call answers. -/
def Result : Call → Type
  | .sys _ => Bool
  | .mkdir _ _ => MkdirResult
  | .getMemfd _ _ => Option Nat
  | .fork => ForkResult

/-- A call and its result. -/
abbrev Event := Sigma Result

/-- Programs of the process. -/
abbrev Process (α : Type) := Prog Result α

/-- The program goes on with the success of the call. -/
def sys {α : Type} (c : SysCall) (k : Bool → Process α) : Process α := .call (.sys c) k

/-! ## Helpers -/

/-- `setarch`: an architecture that is not in the table is refused without a call. -/
def setarch (arch : List Char) : Process Bool :=
  if arch = "i386".toList ∨ arch = "i686".toList then sys (.personality .linux32) .ret
  else if arch = "x86_64".toList then sys (.personality .linux) .ret
  else .ret false

/-- `sys_set_boot_time` -/
def sysSetBootTime : Process Bool :=
  sys .sysinfo fun known =>
    if known then
      sys .openTimensOffsets fun opened =>
        if opened then sys .writeTimensOffsets .ret else .ret false
    else .ret false

/-- `do_mkdir` -/
def doMkdir (dirname : List Char) (mode : Nat) : Process Bool :=
  .call (.mkdir dirname mode) fun
    | .made => .ret true
    | .exists => sys (.chmod dirname mode) .ret
    | .error => .ret false

/-- `needed`, up to the closing entry. -/
def needed : List (List Char × Nat) :=
  [("dev".toList, 0o755), ("old_root".toList, 0o755), ("proc".toList, 0o555),
    ("run".toList, 0o1777), ("sys".toList, 0o555), ("tmp".toList, 0o1777)]

/-- The loop of `cnt_set_rootfs_dir` goes on behind a directory that cannot be made. -/
def setDirs (contpath : List Char) : List (List Char × Nat) → Bool → Process Bool
  | [], isok => .ret isok
  | dir :: dirs, isok =>
      (doMkdir (contpath ++ "/rootfs/".toList ++ dir.1) dir.2).bind fun made =>
        setDirs contpath dirs (isok && made)

/-- `cnt_set_rootfs_dir` -/
def cntSetRootfsDir (contpath : List Char) : Process Bool := setDirs contpath needed true

/-- The child of `monitoring`: it exits or becomes the monitor. -/
def monitorChild (mfd : Nat) (mrk : List Char) : Process Unit :=
  sys .setsid fun alone =>
    if alone then
      sys (.openDevice "/dev/console".toList) fun _ => sys (.fexecve mfd mrk) fun _ => .ret ()
    else .ret ()

/-- `monitoring`: its result, or nothing in the child, which does not come back. -/
def monitoring (mfd : Nat) (contname : List Char) : Process (Option Bool) :=
  .call .fork fun
    | .failed => .ret (some false)
    | .child =>
        (monitorChild mfd ("[vzgot:".toList ++ contname ++ "]".toList)).bind fun _ => .ret none
    | .parent => .ret (some true)

/-! ## The phases -/

/-- What `doboot` reads of the container, and the result of `sys_get_cont_path`. -/
structure Cont where
  contname : List Char
  contarch : List Char
  execArgs : List (List Char)
  contpath : List Char

/-- `rootfs` -/
def Cont.rootfs (cont : Cont) : List Char := cont.contpath ++ "/rootfs".toList

/-- Variables of `doboot`. -/
structure Vars where
  phase : Nat
  proceed : Bool
  status : Int
  mfd : Nat

/-- How the process goes on behind `doboot`: it returns, it has become the program of the
container, or it was the child of `monitoring`. -/
inductive Outcome where
  | returned (status : Int)
  | executed
  | monitor
  deriving DecidableEq

/-- What follows a turn: the next one, or the end. -/
inductive Turn where
  | next (s : Vars)
  | ended (o : Outcome)

/-- The phase is done. -/
def Vars.pass (s : Vars) : Process Turn := .ret (.next { s with phase := s.phase + 1 })

/-- `TOOBAD` -/
def Vars.tooBad (s : Vars) : Process Turn :=
  .ret (.next { s with status := 1, proceed := false, phase := s.phase + 1 })

/-- A call that has to succeed before the program goes on. -/
def require (c : SysCall) (s : Vars) (k : Process Turn) : Process Turn :=
  sys c fun ok => if ok then k else s.tooBad

/-- `dirs`, up to the closing entry. -/
def dirs : List (List Char × List Char) :=
  [("proc".toList, "proc".toList), ("sys".toList, "sysfs".toList), ("run".toList, "tmpfs".toList)]

/-- The loop of phase 8. -/
def mountDirs (rootfs : List Char) (s : Vars) : List (List Char × List Char) → Process Turn
  | [] => s.pass
  | dir :: rest =>
      require (.mount dir.2 (rootfs ++ '/' :: dir.1) (some dir.2) [.nosuid, .nodev, .noexec]) s
        (mountDirs rootfs s rest)

/-- One turn of the loop. -/
def dobootTurn (cont : Cont) (s : Vars) : Process Turn :=
  match s.phase with
  | 0 => s.pass
  | 1 => (setarch cont.contarch).bind fun isok => if isok then s.pass else s.tooBad
  | 2 => sys .unshareCgroupTime fun ok => if ok then s.pass else { s with status := -2 }.tooBad
  | 3 => require .setDeathSignal s s.pass
  | 4 => sysSetBootTime.bind fun isok => if isok then s.pass else s.tooBad
  | 5 => require (.mount "none".toList "/".toList none [.recursive, .makePrivate]) s s.pass
  | 6 => (cntSetRootfsDir cont.contpath).bind fun isok => if isok then s.pass else s.tooBad
  | 7 => require (.mount cont.rootfs cont.rootfs none [.bind, .recursive]) s s.pass
  | 8 => mountDirs cont.rootfs s dirs
  | 9 =>
      .call (.getMemfd "/usr/libexec/vzgot/bin/vzmon".toList "[vzgot]".toList) fun
        | some mfd => { s with mfd := mfd }.pass
        | none => s.tooBad
  | 10 =>
      require (.mount (cont.contpath ++ "/dev".toList) (cont.rootfs ++ "/dev".toList) none
        [.bind, .recursive]) s s.pass
  -- phase 11 leaves the switch before it mounts anything
  | 11 => s.pass
  | 12 =>
      require (.mount "cgroup2".toList (cont.rootfs ++ "/sys/fs/cgroup".toList)
        (some "cgroup2".toList) [.nosuid, .nodev, .noexec]) s s.pass
  | 13 => s.pass
  | 14 =>
      require (.chdir cont.rootfs) s
        (require (.pivotRoot ".".toList "old_root".toList) s
          (require (.chdir "/".toList) s s.pass))
  | 15 =>
      require (.umountDetach "/old_root".toList) s
        (require (.rmdir "/old_root".toList) s s.pass)
  | 16 =>
      (monitoring s.mfd cont.contname).bind fun
        | some true => s.pass
        | some false => s.tooBad
        | none => .ret (.ended .monitor)
  | 17 =>
      sys (.openDevice "/dev/console".toList) fun console =>
        let exec : Process Turn := sys (.execvpe cont.execArgs) fun executed =>
          if executed then .ret (.ended .executed) else s.tooBad
        if console then exec else sys (.openDevice "/dev/null".toList) fun _ => exec
  | phase => .ret (.next { s with proceed := false, phase := phase + 1 })

/-- The loop, with a bound on the number of turns. -/
def dobootLoop (cont : Cont) : Nat → Vars → Process (Option Outcome)
  | 0, _ => .ret none
  | fuel + 1, s =>
      if s.proceed then
        (dobootTurn cont s).bind fun
          | .next s => dobootLoop cont fuel s
          | .ended o => .ret (some o)
      else .ret (some (.returned s.status))

/-- `doboot`; there is no memory file before phase 9. -/
def doboot (cont : Cont) : Process (Option Outcome) := dobootLoop cont 20 ⟨0, true, 0, 0⟩

end Vzgot.Boot
