import Vzgot.Lock.Processes
import Vzgot.Lock.Sequential

/-!
# One process among the processes

`lckLocking` is one call of `lck_locking` as a function, `lockStep` makes the same calls to
the system one by one. A process that runs alone gets from `lockStep` what the function says
(`lckLocking_runs`): its result, and what stands on the lock path then. The function also
knows links, files of another kind and failures of `fdopen` and `fgets`, which the events
leave out; `Alone` excludes them.
-/

set_option autoImplicit false

namespace Vzgot.Lock

open Vzgot.Stdio Vzgot.Transition

/-! ## The two views of the lock path -/

/-- What the lock path leads to, as `lckLocking` sees it. -/
def LockDir.view (d : LockDir) : LockPath :=
  match d.path with
  | none => .removed
  | some i => ⟨false, if (d.node i).regular then .regular (d.node i).bytes else .special⟩

/-- The process runs alone, the files are regular, streams are opened and read, and `kill`
answers as the processes live. -/
structure Alone (w : World) (p : Nat) (c : Calls) : Prop where
  alive : w.alive p = true
  free : ∀ i, w.flocker i = none
  regular : ∀ i, w.dir.path = some i → (w.dir.node i).regular = true
  streams : ∀ n, (c.round n).fdopen = true ∧ (c.round n).fgets = true
  kill : ∀ n pid, w.dir.view.owner = some pid → 0 < pid →
    (c.round n).kill = w.alive pid.toNat

/-- The process gets from one world to the other with its own calls. -/
def Runs (p : Nat) (w w' : World) : Prop :=
  ∃ replies : List Reply, run lockStep w (replies.map (.call p)) = some w'

/-- Where the process stands when `lck_locking` returns. -/
def outcome (done : Bool) : LckPc := if done then .granted else .refused

/-- A call that does its work, or fails. -/
def reply (ok : Bool) : Reply := if ok then .done else .fault

section Views

variable {d : LockDir} {i : Nat}

theorem view_none (h : d.path = none) : d.view = .removed := by
  rw [LockDir.view, h]

theorem view_some (h : d.path = some i) (hi : (d.node i).regular = true) :
    d.view = ⟨false, .regular (d.node i).bytes⟩ := by
  simp only [LockDir.view, h, hi, if_true]

theorem view_stat (d : LockDir) : d.view.stat = d.stat := by
  rw [LockDir.view, LockDir.stat]
  cases d.path with
  | none => rfl
  | some i => cases hi : (d.node i).regular <;> simp [LockPath.stat, hi]

theorem view_unlink (d : LockDir) : d.unlink.view = .removed := view_none rfl

/-- `creat` makes an empty file of the one that is there, or a new one. -/
theorem exists_creat (h : ∀ i, d.path = some i → (d.node i).regular = true) :
    ∃ i d', d.creat = some (i, d') ∧ d'.path = some i ∧ d'.node i = ⟨true, []⟩ ∧
      d'.view = d.view.creat := by
  cases hpath : d.path with
  | none =>
      have hnode : d.bindNew.node d.next = ⟨true, []⟩ := Function.update_self ..
      refine ⟨d.next, d.bindNew, by rw [LockDir.creat, hpath], rfl, hnode, ?_⟩
      rw [view_none hpath, view_some rfl (congrArg File.regular hnode), hnode]
      rfl
  | some i =>
      have hi := h i hpath
      have hnode : (d.setBytes i []).node i = ⟨true, []⟩ := by
        simp [LockDir.setBytes, hi]
      refine ⟨i, d.setBytes i [], by simp only [LockDir.creat, hpath, hi, if_true], hpath, hnode, ?_⟩
      rw [view_some hpath hi, view_some (d := d.setBytes i []) hpath (congrArg File.regular hnode),
        hnode]
      rfl

end Views

section Runs

variable {w w' w'' : World} {p : Nat} {c : Calls}

theorem Runs.refl (p : Nat) (w : World) : Runs p w w := ⟨[], rfl⟩

/-- One call, and the calls behind it. -/
theorem Runs.call (halive : w.alive p = true) (r : Reply) (hcall : w.perform p r = some w')
    (hrest : Runs p w' w'') : Runs p w w'' := by
  obtain ⟨replies, hrun⟩ := hrest
  refine ⟨r :: replies, ?_⟩
  rw [List.map_cons]
  exact run_cons_eq_some.mpr ⟨w', by rw [lockStep, if_pos halive, hcall], hrun⟩

theorem Runs.trans (h : Runs p w w') (h' : Runs p w' w'') : Runs p w w'' := by
  obtain ⟨replies, hrun⟩ := h
  obtain ⟨replies', hrun'⟩ := h'
  refine ⟨replies ++ replies', ?_⟩
  rw [List.map_append]
  exact run_append_eq_some.mpr ⟨w', hrun, hrun'⟩

theorem goto_goto (w : World) (p : Nat) (a b : LckPc) : (w.goto p a).goto p b = w.goto p b := by
  simp [World.goto]

theorem Alone.goto (h : Alone w p c) (a : LckPc) : Alone (w.goto p a) p c :=
  ⟨h.alive, h.free, h.regular, h.streams, h.kill⟩

theorem Alone.unlink (h : Alone w p c) (a : LckPc) :
    Alone ({ w with dir := w.dir.unlink }.goto p a) p c where
  alive := h.alive
  free := h.free
  regular := nofun
  streams := h.streams
  kill := by
    intro n pid howner
    have hview : ({ w with dir := w.dir.unlink }.goto p a).dir.view = .removed :=
      view_unlink w.dir
    rw [hview] at howner
    cases howner

end Runs

/-! ## The phases -/

section Phases

variable {w : World} {p : Nat} {c : Calls}

/-- Phases 7 and 8, with a file that has just been made. -/
theorem flock_runs (halive : w.alive p = true) {i : Nat} (hfree : w.flocker i = none)
    (hpc : w.pc p = .flock i) (hpath : w.dir.path = some i) (hnode : w.dir.node i = ⟨true, []⟩)
    (n : Nat) :
    ∃ w', Runs p w w' ∧ w'.pc p = .granted ∧
      w'.dir.view = w.dir.view.write ((numid p).take n) := by
  let w₁ : World := { w with flocker := Function.update w.flocker i (some p) }.goto p (.write i)
  have hflock : w.perform p .done = some w₁ := by
    rw [World.perform, hpc]
    simp only [reduceCtorEq, if_false, hfree, if_true]
    rfl
  have hpc₁ : w₁.pc p = .write i := World.goto_pc_self _ p _
  let d := w.dir.setBytes i ((numid p).take n)
  let w₂ : World := { w₁ with dir := d }.goto p (.close i)
  have hwrite : w₁.perform p (.short n) = some w₂ := by
    have hold : w₁.dir.node i = ⟨true, []⟩ := hnode
    rw [World.perform, hpc₁]
    simp only [hold, overwrite, List.drop_nil, List.append_nil]
    rfl
  have hpc₂ : w₂.pc p = .close i := World.goto_pc_self _ p _
  let w₃ : World := { w₂ with flocker := Function.update w₂.flocker i none }.goto p .granted
  have hclose : w₂.perform p .done = some w₃ := by
    rw [World.perform, hpc₂]
  refine ⟨w₃, ?_, World.goto_pc_self _ p _, ?_⟩
  · exact .call halive .done hflock
      (.call halive (.short n) hwrite (.call halive .done hclose (.refl p _)))
  · have hnew : d.node i = ⟨true, (numid p).take n⟩ := by
      simp [d, LockDir.setBytes, hnode]
    have hview : d.view = ⟨false, .regular (d.node i).bytes⟩ :=
      view_some hpath (congrArg File.regular hnew)
    have hempty : w.dir.view = ⟨false, .regular (w.dir.node i).bytes⟩ :=
      view_some hpath (congrArg File.regular hnode)
    show d.view = _
    rw [hview, hnew, hempty]
    rfl

/-- Phases 6 to 8. -/
theorem phase6_runs (h : Alone w p c) (hpc : w.pc p = .creat) :
    ∃ w', Runs p w w' ∧ w'.pc p = outcome (phase6 c p w.dir.view).1 ∧
      w'.dir.view = (phase6 c p w.dir.view).2 := by
  cases hcreat : c.creat with
  | false =>
      -- the path is left as it is
      have hphase : phase6 c p w.dir.view = (false, w.dir.view) := if_pos hcreat
      have hcall : w.perform p .fault = some (w.goto p .refused) := by
        rw [World.perform, hpc]
        rfl
      rw [hphase]
      exact ⟨w.goto p .refused, .call h.alive .fault hcall (.refl p _), w.goto_pc_self p _, rfl⟩
  | true =>
      obtain ⟨i, d, hnew, hpath, hnode, hview⟩ := exists_creat h.regular
      let w₁ : World := { w with dir := d }.goto p (.flock i)
      have hcall : w.perform p .done = some w₁ := by
        rw [World.perform, hpc]
        simp only [reduceCtorEq, if_false, hnew]
        rfl
      have hpc₁ : w₁.pc p = .flock i := World.goto_pc_self _ p _
      cases hflock : c.flock with
      | false =>
          -- refused, but the new file stays
          have hphase : phase6 c p w.dir.view = (false, w.dir.view.creat) := by
            rw [phase6, if_neg (by simp [hcreat]), if_pos hflock]
          have hrefused : w₁.perform p .fault = some (w₁.goto p .refused) := by
            rw [World.perform, hpc₁]
            rfl
          rw [hphase]
          refine ⟨w₁.goto p .refused, ?_, World.goto_pc_self _ p _, hview⟩
          exact .call h.alive .done hcall (.call h.alive .fault hrefused (.refl p _))
      | true =>
          have hphase : phase6 c p w.dir.view =
              (true, w.dir.view.creat.write ((numid p).take c.written)) := by
            rw [phase6, if_neg (by simp [hcreat]), if_neg (by simp [hflock])]
          obtain ⟨w', hruns, hgranted, hwritten⟩ :=
            flock_runs (w := w₁) h.alive (h.free i) hpc₁ hpath hnode c.written
          rw [hphase, ← hview]
          exact ⟨w', .call h.alive .done hcall hruns, hgranted, hwritten⟩

/-- `rm_lock` on the file that is still there. -/
theorem rmLock_runs (h : Alone w p c) {t fd : Nat} {strloc : List Char}
    (hpc : w.pc p = .compare t fd strloc) (hpath : w.dir.path = some fd) (r : Round) :
    if rmLock r then Runs p w ({ w with dir := w.dir.unlink }.goto p .creat)
    else Runs p w (w.goto p (nextTry t)) := by
  -- one reply stands for the three calls that compare the descriptor with the path
  cases hsame : r.fileno && r.fstat && r.lstat with
  | false =>
      have hrm : rmLock r = false := by rw [rmLock, hsame, Bool.false_and]
      have hcall : w.perform p .fault = some (w.goto p (nextTry t)) := by
        rw [World.perform, hpc]
        rfl
      rw [hrm, if_neg Bool.false_ne_true]
      exact .call h.alive .fault hcall (.refl p _)
  | true =>
      have hrm : rmLock r = r.unlink := by rw [rmLock, hsame, Bool.true_and]
      let w₁ := w.goto p (.unlinkOld t fd strloc)
      have hcall : w.perform p .done = some w₁ := by
        rw [World.perform, hpc]
        simp only [ne_eq, reduceCtorEq, not_false_eq_true, hpath, and_self, decide_true]
        rfl
      have hpc₁ : w₁.pc p = .unlinkOld t fd strloc := w.goto_pc_self p _
      rw [hrm]
      cases r.unlink with
      | false =>
          have hunlink : w₁.perform p .fault = some (w₁.goto p (nextTry t)) := by
            rw [World.perform, hpc₁]
            rfl
          rw [goto_goto] at hunlink
          exact .call h.alive .done hcall (.call h.alive .fault hunlink (.refl p _))
      | true =>
          have hunlink : w₁.perform p .done =
              some ({ w with dir := w.dir.unlink }.goto p .creat) := by
            have hpath₁ : w₁.dir.path ≠ none := by
              intro hnone
              exact Option.some_ne_none fd (hpath.symm.trans hnone)
            rw [World.perform, hpc₁]
            simp only [reduceCtorEq, hpath₁, or_self, if_false]
            exact congrArg some (goto_goto { w with dir := w.dir.unlink } p _ _)
          exact .call h.alive .done hcall (.call h.alive .done hunlink (.refl p _))

/-- The old lock is opened and read; a line that names no live process goes to `rm_lock`. -/
theorem read_runs (h : Alone w p c) {t fd : Nat} (hpc : w.pc p = .openOld t)
    (hpath : w.dir.path = some fd) {strloc : List Char}
    (hstrloc : strlocOf (w.dir.node fd).bytes = strloc) (n : Nat) :
    if stale (c.round n) strloc then Runs p w (w.goto p (.compare t fd strloc))
    else Runs p w (w.goto p (nextTry t)) := by
  have hcall : w.perform p .done = some (w.goto p (afterRead t fd strloc)) := by
    rw [World.perform, hpc]
    simp only [reduceCtorEq, if_false, hpath, hstrloc]
  cases hscan : scanInt strloc with
  | none =>
      -- no process to ask for: an empty line is stale, another one is not
      by_cases hempty : strloc = []
      · have hread : afterRead t fd strloc = .compare t fd strloc := by
          simp only [afterRead, hscan, if_pos hempty]
        have hstale : stale (c.round n) strloc = true := by
          simp only [stale, hscan, decide_eq_true hempty]
        rw [hread] at hcall
        rw [if_pos hstale]
        exact .call h.alive .done hcall (.refl p _)
      · have hread : afterRead t fd strloc = nextTry t := by
          simp only [afterRead, hscan, if_neg hempty]
        have hstale : stale (c.round n) strloc = false := by
          simp only [stale, hscan, decide_eq_false hempty]
        rw [hread] at hcall
        rw [if_neg (by simp [hstale])]
        exact .call h.alive .done hcall (.refl p _)
  | some pid =>
      have hread : afterRead t fd strloc = .check t fd strloc pid := by
        simp only [afterRead, hscan]
      rw [hread] at hcall
      have howner : w.dir.view.owner = some pid := by
        rw [view_some hpath (h.regular fd hpath)]
        exact (congrArg scanInt hstrloc).trans hscan
      -- the line is what `owner` reads, so that `kill` answers as the processes live
      have hkill : w.kill0 pid (reply (c.round n).kill) = (c.round n).kill := by
        rw [World.kill0]
        split
        · rename_i hpos
          exact (h.kill n pid howner hpos).symm
        · cases (c.round n).kill with
          | true => rfl
          | false => rfl
      let w₁ := w.goto p (.check t fd strloc pid)
      have hpc₁ : w₁.pc p = .check t fd strloc pid := w.goto_pc_self p _
      have hcheck : w₁.perform p (reply (c.round n).kill) =
          some (w₁.goto p (afterCheck t fd strloc (prcCheckprocess pid (c.round n).kill))) := by
        have hkill₁ : w₁.kill0 pid (reply (c.round n).kill) = (c.round n).kill := hkill
        rw [World.perform.eq_def, hpc₁]
        simp only [hkill₁]
      rw [goto_goto] at hcheck
      have hruns : Runs p w
          (w.goto p (afterCheck t fd strloc (prcCheckprocess pid (c.round n).kill))) :=
        .call h.alive .done hcall (.call h.alive _ hcheck (.refl p _))
      have hstale : stale (c.round n) strloc = !prcCheckprocess pid (c.round n).kill := by
        simp only [stale, hscan]
      rw [hstale]
      cases hactive : prcCheckprocess pid (c.round n).kill with
      | true =>
          rw [hactive] at hruns
          exact hruns
      | false =>
          rw [hactive] at hruns
          exact hruns

/-- One round of phase 5: it never crashes, and it leaves the path for phase 6, unlinks it
first, or goes on with the next tentative. -/
theorem round_runs (h : Alone w p c) {n : Nat} (hpc : w.pc p = .openOld (n + 1)) :
    match oldLockRound (c.round (n + 1)) w.dir.view with
    | some .crashed => False
    | some .missing => Runs p w (w.goto p .creat)
    | some .removed => Runs p w ({ w with dir := w.dir.unlink }.goto p .creat)
    | none => Runs p w (w.goto p (nextTry (n + 1))) := by
  obtain ⟨hfdopen, hfgets⟩ := h.streams (n + 1)
  cases hopen : (c.round (n + 1)).openOld with
  | false =>
      have hround : oldLockRound (c.round (n + 1)) w.dir.view = some .missing := by
        simp [oldLockRound, hopen]
      have hcall : w.perform p .fault = some (w.goto p .creat) := by
        rw [World.perform, hpc]
        rfl
      rw [hround]
      exact .call h.alive .fault hcall (.refl p _)
  | true =>
      cases hpath : w.dir.path with
      | none =>
          -- removed between `stat` and `open`
          have hround : oldLockRound (c.round (n + 1)) w.dir.view = some .missing := by
            simp [oldLockRound, view_none hpath, LockPath.openOld, LockPath.removed]
          have hcall : w.perform p .done = some (w.goto p .creat) := by
            rw [World.perform, hpc]
            simp only [reduceCtorEq, if_false, hpath]
          rw [hround]
          exact .call h.alive .done hcall (.refl p _)
      | some fd =>
          obtain ⟨strloc, hstrloc⟩ : ∃ s, strlocOf (w.dir.node fd).bytes = s := ⟨_, rfl⟩
          have hread := read_runs h hpc hpath hstrloc (n + 1)
          have hround : oldLockRound (c.round (n + 1)) w.dir.view =
              if stale (c.round (n + 1)) strloc && rmLock (c.round (n + 1)) then some .removed
              else none := by
            rw [oldLockRound, view_some hpath (h.regular fd hpath)]
            simp only [hopen, if_true, LockPath.openOld, hfdopen, Bool.true_eq_false, if_false,
              hfgets, hstrloc]
          rw [hround]
          cases hstale : stale (c.round (n + 1)) strloc with
          | false =>
              rw [hstale, if_neg Bool.false_ne_true] at hread
              exact hread
          | true =>
              rw [hstale, if_pos rfl] at hread
              have hrm := rmLock_runs (h.goto (.compare (n + 1) fd strloc)) (w.goto_pc_self p _)
                hpath (c.round (n + 1))
              cases hlock : rmLock (c.round (n + 1)) with
              | false =>
                  rw [hlock, if_neg Bool.false_ne_true, goto_goto] at hrm
                  exact hread.trans hrm
              | true =>
                  have hsame : { w.goto p (.compare (n + 1) fd strloc) with
                      dir := (w.goto p (.compare (n + 1) fd strloc)).dir.unlink }.goto p .creat =
                      { w with dir := w.dir.unlink }.goto p .creat :=
                    goto_goto { w with dir := w.dir.unlink } p _ _
                  rw [hlock, if_pos rfl, hsame] at hrm
                  exact hread.trans hrm

/-- A round that ends the loop of phase 5, and what is behind it. -/
theorem roundEnd_runs (h : Alone w p c) {n : Nat} (hpc : w.pc p = .openOld (n + 1))
    {e : RoundEnd} (hend : oldLockRound (c.round (n + 1)) w.dir.view = some e) :
    ∃ result w', phase5 c p w.dir.view (n + 1) = some result ∧ Runs p w w' ∧
      w'.pc p = outcome result.1 ∧ w'.dir.view = result.2 := by
  have hround := round_runs h hpc
  rw [hend] at hround
  rw [phase5, hend]
  cases e with
  | crashed => exact hround.elim
  | missing =>
      obtain ⟨w', hruns, hpc', hview⟩ := phase6_runs (h.goto .creat) (w.goto_pc_self p _)
      exact ⟨_, w', rfl, hround.trans hruns, hpc', hview⟩
  | removed =>
      obtain ⟨w', hruns, hpc', hview⟩ :=
        phase6_runs (h.unlink .creat) (World.goto_pc_self _ p _)
      have hremoved : ({ w with dir := w.dir.unlink }.goto p .creat).dir.view = .removed :=
        view_unlink w.dir
      rw [hremoved] at hpc' hview
      exact ⟨_, w', rfl, hround.trans hruns, hpc', hview⟩

/-- Phase 5, with tentatives left. -/
theorem phase5_runs (h : Alone w p c) {n : Nat} (hpc : w.pc p = .openOld (n + 1)) :
    ∃ result w', phase5 c p w.dir.view (n + 1) = some result ∧ Runs p w w' ∧
      w'.pc p = outcome result.1 ∧ w'.dir.view = result.2 := by
  -- on the tentatives that are left; a round that goes on leaves the path as it is
  induction n generalizing w with
  | zero =>
      cases hend : oldLockRound (c.round (0 + 1)) w.dir.view with
      | some e => exact roundEnd_runs h hpc hend
      | none =>
          have hround := round_runs h hpc
          rw [hend] at hround
          rw [phase5, hend]
          exact ⟨_, _, rfl, hround, w.goto_pc_self p _, rfl⟩
  | succ n ih =>
      cases hend : oldLockRound (c.round (n + 1 + 1)) w.dir.view with
      | some e => exact roundEnd_runs h hpc hend
      | none =>
          have hround := round_runs h hpc
          rw [hend] at hround
          obtain ⟨result, w', hphase, hruns, hpc', hview⟩ :=
            ih (h.goto (.openOld (n + 1))) (w.goto_pc_self p _)
          rw [phase5, hend]
          exact ⟨result, w', hphase, Runs.trans hround hruns, hpc', hview⟩

end Phases

/-- What a process that runs alone gets from the system call by call is what the function
says, and the lock path is left as it says. -/
theorem lckLocking_runs {w : World} {p t : Nat} {c : Calls} (h : Alone w p c)
    (happdir : c.appdir = true) (hpc : w.pc p = .mkdir t) (ht : 0 < t) :
    ∃ result w', lckLocking c p t w.dir.view = some result ∧ Runs p w w' ∧
      w'.pc p = outcome result.1 ∧ w'.dir.view = result.2 := by
  rw [lckLocking, if_neg (by simp [happdir])]
  cases hmkdir : c.mkdir with
  | false =>
      have hcall : w.perform p .fault = some (w.goto p .refused) := by
        rw [World.perform, hpc]
        rfl
      exact ⟨_, _, if_pos rfl, .call h.alive .fault hcall (.refl p _), w.goto_pc_self p _, rfl⟩
  | true =>
      rw [if_neg (by simp)]
      let w₁ := w.goto p (.stat t)
      have hcall : w.perform p .done = some w₁ := by
        rw [World.perform, hpc]
        rfl
      have hpc₁ : w₁.pc p = .stat t := w.goto_pc_self p _
      have hstat : w₁.perform p (reply c.stat) =
          some (w.goto p (afterStat t (if c.stat then w.dir.view.stat else none))) := by
        rw [World.perform.eq_def, hpc₁, view_stat]
        cases c.stat with
        | true => exact congrArg some (goto_goto w p _ _)
        | false => exact congrArg some (goto_goto w p _ _)
      have hfirst : Runs p w
          (w.goto p (afterStat t (if c.stat then w.dir.view.stat else none))) :=
        .call h.alive .done hcall (.call h.alive _ hstat (.refl p _))
      cases hfile : (if c.stat then w.dir.view.stat else none) with
      | none =>
          rw [hfile] at hfirst
          obtain ⟨w', hruns, hpc', hview⟩ := phase6_runs (h.goto .creat) (w.goto_pc_self p _)
          exact ⟨_, w', rfl, Runs.trans hfirst hruns, hpc', hview⟩
      | some regular =>
          rw [hfile] at hfirst
          cases regular with
          | false => exact ⟨_, _, rfl, hfirst, w.goto_pc_self p _, rfl⟩
          | true =>
              obtain ⟨n, rfl⟩ : ∃ n, t = n + 1 := ⟨t - 1, by omega⟩
              obtain ⟨result, w', hphase, hruns, hpc', hview⟩ :=
                phase5_runs (h.goto (.openOld (n + 1))) (w.goto_pc_self p _)
              exact ⟨result, w', hphase, Runs.trans hfirst hruns, hpc', hview⟩

end Vzgot.Lock
