import Vzgot.Cgroup.Shown
import Vzgot.Cpu.Info
import Vzgot.Library.Fixed
import Vzgot.Monitor.Mounts

/-!
# The files a container sees in `/proc`

The supervisor writes files under the `dev` directory of the container that take the
place of some of `/proc`: `loadavg`, `meminfo`, `swaps` and `cpuinfo`. `cnt_updateproc`
(`lib/unicnt.c`) writes them anew, at most every five seconds; `cont_attend` calls it
behind an update of the status (`duty`).

`setswapsinfo` prints two static variables that `setmeminfo` has set. Nobody looks whether
what is printed reaches the files: of a file that `fopen` has cut there may be a beginning of
the text, or nothing. `loadavg` is not cut, so a `pwrite` that falls short leaves the rest of
the line that was there. A run is a list of calls, and `passes` are those of its calls that
wrote files.
-/

set_option autoImplicit false

namespace Vzgot.Proc

open Stdio Status Monitor Cgroup

/-! ## The memory figures -/

/-- Fields of `sysinfo` that `setmeminfo` reads. -/
structure SysMem where
  totalram : UVlong
  freeram : UVlong
  totalswap : UVlong
  freeswap : UVlong
  memUnit : UVlong

/-- Registers that `setmeminfo` reads. -/
inductive MemFile where
  | memoryMax
  | memoryCurrent
  | swapMax
  | swapCurrent

/-- Answers of the system to `setmeminfo`; `kept` bytes of what is printed reach the file. -/
structure MeminfoCalls where
  sysinfo : Option SysMem
  file : MemFile → Option (List Char)
  fopen : Bool
  kept : Nat
  fchmod : Bool

/-- `mem_total_kb`, `mem_free_kb`, `swap_total_kb` and `swap_free_kb`. -/
structure Figures where
  memTotal : UVlong
  memFree : UVlong
  swapTotal : UVlong
  swapFree : UVlong

/-- `prc_getcgroupmem` -/
def prcGetcgroupmem (file : Option (List Char)) (cgmem : UVlong) : Option UVlong :=
  let r := sysReadSysLong file cgmem
  if r.1 then some r.2 else none

/-- Phases 0 to 6 of `setmeminfo`. -/
def figures (m : MeminfoCalls) : Option Figures :=
  m.sysinfo.bind fun info =>
    let memmax := info.totalram * info.memUnit
    let memcur := memmax - info.freeram * info.memUnit
    let swapmax := info.totalswap * info.memUnit
    let swapcur := swapmax - info.freeswap * info.memUnit
    (prcGetcgroupmem (m.file .memoryMax) memmax).bind fun memmax =>
    (prcGetcgroupmem (m.file .memoryCurrent) memcur).bind fun memcur =>
    (prcGetcgroupmem (m.file .swapMax) swapmax).bind fun swapmax =>
    (prcGetcgroupmem (m.file .swapCurrent) swapcur).map fun swapcur =>
      let memcur := if memmax < memcur then memmax else memcur
      let swapcur := if swapmax < swapcur then swapmax else swapcur
      ⟨memmax / 1024, (memmax - memcur) / 1024, swapmax / 1024, (swapmax - swapcur) / 1024⟩

/-- A line of `meminfo`. -/
def memLine (key : List Char) (kb : UVlong) : List Char :=
  key ++ printNat false 14 kb.toNat ++ " kB\n".toList

/-- Phase 8 of `setmeminfo`. -/
def meminfoText (f : Figures) : List Char :=
  memLine "MemTotal:       ".toList f.memTotal ++
  memLine "MemFree:        ".toList f.memFree ++
  memLine "MemAvailable:   ".toList f.memFree ++
  memLine "Buffer:         ".toList 0 ++
  memLine "Cached:         ".toList 0 ++
  memLine "SwapTotal:      ".toList f.swapTotal ++
  memLine "SwapFree:       ".toList f.swapFree

/-- What is left of a total is not more than the total. -/
theorem left_le {total used : UVlong} (h : used ≤ total) : (total - used) / 1024 ≤ total / 1024 := by
  rw [BitVec.le_def, BitVec.toNat_udiv, BitVec.toNat_udiv, BitVec.toNat_sub_of_le h]
  exact Nat.div_le_div_right (Nat.sub_le _ _)

theorem capped_le (cur total : UVlong) : (if total < cur then total else cur) ≤ total := by
  split
  · exact BitVec.le_refl _
  · rename_i h
    exact BitVec.not_lt.1 h

theorem figures_le {m : MeminfoCalls} {f : Figures} (h : figures m = some f) :
    f.memFree ≤ f.memTotal ∧ f.swapFree ≤ f.swapTotal := by
  obtain ⟨info, -, h⟩ := Option.bind_eq_some_iff.1 h
  obtain ⟨memmax, -, h⟩ := Option.bind_eq_some_iff.1 h
  obtain ⟨memcur, -, h⟩ := Option.bind_eq_some_iff.1 h
  obtain ⟨swapmax, -, h⟩ := Option.bind_eq_some_iff.1 h
  obtain ⟨swapcur, -, rfl⟩ := Option.map_eq_some_iff.1 h
  exact ⟨left_le (capped_le memcur memmax), left_le (capped_le swapcur swapmax)⟩

/-- Static variables `swap_total_kb` and `swap_free_kb`. -/
structure Swaps where
  total : UVlong
  free : UVlong

/-- `setmeminfo`: its result, the static variables, and what it writes. -/
def setmeminfo (m : MeminfoCalls) : Bool × Swaps × Option (List Char) :=
  match figures m with
  | none => (false, ⟨0, 0⟩, none)
  | some f =>
      if m.fopen then (m.fchmod, ⟨f.swapTotal, f.swapFree⟩, some ((meminfoText f).take m.kept))
      else (false, ⟨f.swapTotal, f.swapFree⟩, none)

/-- What `setswapsinfo` prints. -/
def swapsText (size used : UVlong) : List Char :=
  "Filename\t\t\t\tType\t\tSize\t\tUsed\t\tPriority\n".toList ++
  "/dev/cvz-swap\t\t\t\thosted\t\t".toList ++ padRight 10 (decimal size.toNat) ++
  '\t' :: padRight 10 (decimal used.toNat) ++ "\t-2\n".toList

/-- `setswapsinfo`; `kept` bytes reach the file. -/
def setswapsinfo (s : Swaps) (fopen : Bool) (kept : Nat) (fchmod : Bool) :
    Bool × Option (List Char) :=
  if fopen then (fchmod, some ((swapsText s.total (s.total - s.free)).take kept))
  else (false, none)

/-! ## The load average -/

/-- The static string `loadavg` of `sys_cal_loadavg`, of 40 bytes. -/
def loadavgText : Shown → List Char
  | .zeroavg => "?.??  ?.??  ?.?? 0/0 0".toList
  | .load avg pids lastPid =>
      (printFixed 6 2 (avg 0) ++ ' ' :: printFixed 6 2 (avg 1) ++ ' ' :: printFixed 6 2 (avg 2) ++
        " 1/".toList ++ padRight 5 (decimal pids) ++ ' ' :: padRight 7 (decimal lastPid)).take 39

/-- Answers of the system to `setloadavg`: `pwrite` fails or takes a number of bytes. -/
structure LoadavgCalls where
  opened : Bool
  pwrite : Option Nat
  fchmod : Bool

/-- `buffer` of `setloadavg`, of 64 bytes. -/
def loadavgLine (loadavg : List Char) : List Char := (padRight 62 loadavg ++ ['\n']).take 63

/-- `setloadavg`: its result and the new content. The file is not cut. -/
def setloadavg (c : LoadavgCalls) (loadavg : List Char) (old : Option (List Char)) :
    Bool × Option (List Char) :=
  if c.opened = false then (false, old)
  else
    match c.pwrite with
    | none => (false, some (old.getD []))
    | some n =>
        let done := (loadavgLine loadavg).take n
        (c.fchmod, some (done ++ (old.getD []).drop done.length))

/-! ## The update -/

/-- The files, where they exist. -/
structure Files where
  cpuinfo : Option (List Char)
  loadavg : Option (List Char)
  meminfo : Option (List Char)
  swaps : Option (List Char)

/-- Answers of the system during one turn of `cont_attend`. -/
structure Call where
  duty : UpdateCalls
  clock : Option TimeTic
  update : UpdateCalls
  host : Cpu.Host
  contcpus : Cpu.PhyCpu
  cpuinfoFopen : Bool
  cpuinfoKept : Nat
  cpuinfoFchmod : Bool
  cpuinfo : Option (List Char)
  loadavg : LoadavgCalls
  meminfo : MeminfoCalls
  swapsFopen : Bool
  swapsKept : Nat
  swapsFchmod : Bool

/-- Static variables, status record and files. -/
structure Feed where
  lastTime : TimeTic
  swaps : Swaps
  load : LoadStatic
  stat : StaTyp
  files : Files

/-- What `setcpuinfo` leaves in the file. -/
def Call.cpuinfoText (c : Call) : Option (List Char) :=
  (Cpu.setcpuinfo c.host c.contcpus c.cpuinfoFopen c.cpuinfoFchmod c.cpuinfo).2.map fun blocks =>
    (Cpu.infoText blocks).take c.cpuinfoKept

/-- The `switch` of phase 3. -/
def feedDevice (c : Call) (loadavg : List Char) (s : Swaps × Files) : DevEnum → Swaps × Files
  | .loadavg => (s.1, { s.2 with loadavg := (setloadavg c.loadavg loadavg s.2.loadavg).2 })
  | .meminfo =>
      let r := setmeminfo c.meminfo
      (r.2.1, { s.2 with meminfo := r.2.2.or s.2.meminfo })
  | .swaps =>
      let r := setswapsinfo s.1 c.swapsFopen c.swapsKept c.swapsFchmod
      (s.1, { s.2 with swaps := r.2.or s.2.swaps })
  | .cpuinfo => (s.1, { s.2 with cpuinfo := c.cpuinfoText.or s.2.cpuinfo })
  | _ => s

/-- `delta_t` of `cnt_updateproc`. -/
def deltaT (cur last : TimeTic) : Rat :=
  ((cur.sec - last.sec : Int) : Rat) + ((cur.nsec - last.nsec : Int) : Rat) / 10 ^ 9

/-- `cnt_updateproc` -/
def cntUpdateproc (c : Call) (s : Feed) : Bool × Feed :=
  match c.clock with
  | none => (false, s)
  | some cur =>
      if deltaT cur s.lastTime < 5 then (true, s)
      else
        let r := sysUpdateContStatus s.load s.stat c.update
        let s := { s with load := r.2.1, stat := r.2.2 }
        if r.1 = false then (true, s)
        else
          let t := (specdevs.map Prod.snd).foldl (feedDevice c (loadavgText s.load.loadavg))
            (s.swaps, s.files)
          (true, { s with swaps := t.1, files := t.2, lastTime := cur })

/-- The duty of `cont_attend` on a timeout. -/
def duty (s : Feed) (c : Call) : Feed :=
  let r := sysUpdateContStatus s.load s.stat c.duty
  let s := { s with load := r.2.1, stat := r.2.2 }
  if r.1 = false then s else (cntUpdateproc c s).2

/-- The files as `cnt_set_sup_devices` leaves them: those of a new tmpfs are empty or not there,
those of one that was mounted already are still as another supervisor has left them. -/
structure Left extends Files where
  width : (loadavg.getD []).length ≤ 63

/-- A supervisor with this status record, in front of these files. -/
def Feed.start (stat : StaTyp) (left : Left) : Feed :=
  ⟨⟨0, 0⟩, ⟨0, 0⟩, LoadStatic.zero, stat, left.toFiles⟩

/-! ## The passes of a run -/

/-- A call that wrote the files: its time, and the load average it shows. -/
structure Pass where
  time : TimeTic
  load : List Char
  call : Call

/-- The pass that the call makes, if any. -/
def pass (s : Feed) (c : Call) : Option Pass :=
  let r₁ := sysUpdateContStatus s.load s.stat c.duty
  if r₁.1 = false then none
  else
    c.clock.bind fun cur =>
      if deltaT cur s.lastTime < 5 then none
      else
        let r₂ := sysUpdateContStatus r₁.2.1 r₁.2.2 c.update
        if r₂.1 = false then none else some ⟨cur, loadavgText r₂.2.1.loadavg, c⟩

/-- Passes of the run, in order. -/
def passes : Feed → List Call → List Pass
  | _, [] => []
  | s, c :: cs => (pass s c).toList ++ passes (duty s c) cs

/-- What the pass leaves in `cpuinfo`, if it opens the file. -/
def Pass.cpuinfo (p : Pass) : Option (List Char) := p.call.cpuinfoText

/-- What the pass leaves in `meminfo`, if it opens the file. -/
def Pass.meminfo (p : Pass) : Option (List Char) :=
  if p.call.meminfo.fopen then
    (figures p.call.meminfo).map fun f => (meminfoText f).take p.call.meminfo.kept
  else none

/-- What the pass leaves in `swaps`, if it opens the file: figures of this pass, or zeros. -/
def Pass.swaps (p : Pass) : Option (List Char) :=
  if p.call.swapsFopen then
    some ((match figures p.call.meminfo with
      | some f => swapsText f.swapTotal (f.swapTotal - f.swapFree)
      | none => swapsText 0 0).take p.call.swapsKept)
  else none

/-- Bytes that the pass writes into `loadavg`. -/
def LoadavgCalls.wrote (c : LoadavgCalls) : Nat := if c.opened then c.pwrite.getD 0 else 0

/-- What the pass makes of the content of `loadavg`. -/
def Pass.overlay (p : Pass) (old : List Char) : List Char :=
  (loadavgLine p.load).take p.call.loadavg.wrote ++ old.drop p.call.loadavg.wrote

/-- The last text that a pass wrote. -/
def written (text : Pass → Option (List Char)) (ps : List Pass) : Option (List Char) :=
  (ps.filterMap text).getLast?

/-- The files behind a pass. -/
def Pass.files (p : Pass) (old : Files) : Files where
  cpuinfo := p.cpuinfo.or old.cpuinfo
  loadavg := (setloadavg p.call.loadavg p.load old.loadavg).2
  meminfo := p.meminfo.or old.meminfo
  swaps := p.swaps.or old.swaps

section Passes

variable {s : Feed} {c : Call} {p : Pass}

/-- The files `meminfo` and `swaps` of a pass show the figures of that pass. -/
theorem feed_files (swaps : Swaps) (files : Files) (cur : TimeTic) (load : List Char) :
    ((specdevs.map Prod.snd).foldl (feedDevice c load) (swaps, files)).2 =
      (Pass.mk cur load c).files files := by
  have hmeminfo : (setmeminfo c.meminfo).2.2 = (Pass.mk cur load c).meminfo := by
    unfold setmeminfo Pass.meminfo
    cases figures c.meminfo with
    | none => simp
    | some f => cases c.meminfo.fopen <;> simp
  have hswaps : (setswapsinfo (setmeminfo c.meminfo).2.1 c.swapsFopen c.swapsKept c.swapsFchmod).2 =
      (Pass.mk cur load c).swaps := by
    unfold setswapsinfo Pass.swaps setmeminfo
    cases hf : figures c.meminfo with
    | none => cases c.swapsFopen <;> simp
    | some f => cases c.swapsFopen <;> cases c.meminfo.fopen <;> simp
  simp only [specdevs, List.map_cons, List.map_nil, List.foldl_cons, List.foldl_nil, feedDevice,
    Pass.files, Pass.cpuinfo, hmeminfo, hswaps]

/-- A call without a pass leaves the files and the time. -/
theorem duty_of_none (h : pass s c = none) :
    (duty s c).files = s.files ∧ (duty s c).lastTime = s.lastTime := by
  unfold pass at h
  unfold duty
  dsimp only at h ⊢
  split at h
  · rename_i hduty
    rw [if_pos hduty]
    exact ⟨rfl, rfl⟩
  · rename_i hduty
    rw [if_neg hduty]
    unfold cntUpdateproc
    cases hclock : c.clock with
    | none => exact ⟨rfl, rfl⟩
    | some cur =>
        rw [hclock, Option.bind_some] at h
        dsimp only
        split at h
        · rename_i hearly
          rw [if_pos hearly]
          exact ⟨rfl, rfl⟩
        · rename_i hlate
          rw [if_neg hlate]
          split at h
          · rename_i hupdate
            rw [if_pos hupdate]
            exact ⟨rfl, rfl⟩
          · cases h

/-- A pass writes the files once and notes its time. -/
theorem duty_of_some (h : pass s c = some p) :
    (duty s c).files = p.files s.files ∧ (duty s c).lastTime = p.time := by
  unfold pass at h
  unfold duty
  dsimp only at h ⊢
  split at h
  · cases h
  · rename_i hduty
    rw [if_neg hduty]
    unfold cntUpdateproc
    cases hclock : c.clock with
    | none =>
        rw [hclock] at h
        cases h
    | some cur =>
        rw [hclock, Option.bind_some] at h
        dsimp only
        split at h
        · cases h
        · rename_i hlate
          rw [if_neg hlate]
          split at h
          · cases h
          · rename_i hupdate
            rw [if_neg hupdate]
            obtain rfl := Option.some.inj h
            exact ⟨feed_files _ _ cur _, rfl⟩

theorem sysUpdateContStatus_fst (st : LoadStatic) (stat : StaTyp) (u : UpdateCalls) :
    (sysUpdateContStatus st stat u).1 = (u.clock.isSome && u.users.isSome) := by
  unfold sysUpdateContStatus
  cases u.clock with
  | none => rfl
  | some cur => cases u.users <;> rfl

/-- The answers that both updates of a turn need. -/
def Call.answered (c : Call) : Prop :=
  (c.duty.clock.isSome ∧ c.duty.users.isSome) ∧ c.update.clock.isSome ∧ c.update.users.isSome

/-- A call makes a pass when it is answered, five seconds or more behind the last one. -/
theorem pass_eq_some_iff : pass s c = some p ↔ c.answered ∧ 5 ≤ deltaT p.time s.lastTime ∧
    c.clock = some p.time ∧ p.call = c ∧
    p.load = loadavgText (sysUpdateContStatus (sysUpdateContStatus s.load s.stat c.duty).2.1
      (sysUpdateContStatus s.load s.stat c.duty).2.2 c.update).2.1.loadavg := by
  unfold pass Call.answered
  dsimp only
  rw [sysUpdateContStatus_fst, sysUpdateContStatus_fst, ← Bool.and_eq_true, ← Bool.and_eq_true]
  cases c.duty.clock.isSome && c.duty.users.isSome with
  | false => simp
  | true =>
      cases hclock : c.clock with
      | none => simp
      | some cur =>
          simp only [Bool.true_eq_false, if_false, Option.bind_some, true_and, Option.some.injEq]
          -- the pass is given up when it is less than five seconds behind
          by_cases hlate : deltaT cur s.lastTime < 5
          · rw [if_pos hlate]
            simp only [reduceCtorEq, false_iff]
            rintro ⟨-, hle, rfl, -⟩
            exact absurd hle (not_le.2 hlate)
          · rw [if_neg hlate]
            cases c.update.clock.isSome && c.update.users.isSome with
            | false => simp
            | true =>
                simp only [Bool.true_eq_false, if_false, Option.some.injEq, true_and]
                constructor
                · rintro rfl
                  exact ⟨not_lt.1 hlate, rfl, rfl, rfl⟩
                · rintro ⟨-, rfl, rfl, hload⟩
                  rw [← hload]

theorem written_nil (text : Pass → Option (List Char)) : written text [] = none := rfl

theorem written_cons (text : Pass → Option (List Char)) (p : Pass) (ps : List Pass) :
    written text (p :: ps) = (written text ps).or (text p) := by
  unfold written
  cases h : text p with
  | none => simp [h]
  | some t =>
      rw [List.filterMap_cons_some h, List.getLast?_cons]
      cases (ps.filterMap text).getLast? <;> rfl

theorem loadavgLine_length {load : List Char} (h : load.length ≤ 62) :
    (loadavgLine load).length = 63 := by
  simp only [loadavgLine, List.length_take, List.length_append, padRight_length, List.length_cons,
    List.length_nil]
  omega

theorem loadavgText_length (shown : Shown) : (loadavgText shown).length ≤ 39 := by
  cases shown with
  | zeroavg => decide
  | load avg pids lastPid => exact List.length_take_le _ _

end Passes

/-! ## Runs -/

/-- What a pass leaves in `loadavg`. -/
theorem setloadavg_overlay {p : Pass} {old : Option (List Char)} (hload : p.load.length ≤ 62)
    (hold : (old.getD []).length ≤ 63) :
    (setloadavg p.call.loadavg p.load old).2.getD [] = p.overlay (old.getD []) := by
  have hline := loadavgLine_length hload
  unfold setloadavg Pass.overlay LoadavgCalls.wrote
  cases p.call.loadavg.opened with
  | false => simp
  | true =>
      cases p.call.loadavg.pwrite with
      | none => simp
      | some n =>
          -- a number beyond the line cuts nothing that is there
          have hdrop : (old.getD []).drop (min n 63) = (old.getD []).drop n := by
            rcases Nat.le_total n 63 with hn | hn
            · rw [Nat.min_eq_left hn]
            · rw [Nat.min_eq_right hn, List.drop_eq_nil_of_le hold,
                List.drop_eq_nil_of_le (Nat.le_trans hold hn)]
          simp [hline, hdrop]

section Overlay

variable {p : Pass} {old : List Char}

theorem overlay_length (hload : p.load.length ≤ 62) (hold : old.length ≤ 63) :
    (p.overlay old).length = max (min p.call.loadavg.wrote 63) old.length := by
  rw [Pass.overlay, List.length_append, List.length_take, List.length_drop,
    loadavgLine_length hload]
  omega

/-- A whole line takes the place of what was there. -/
theorem overlay_whole (hload : p.load.length ≤ 62) (hold : old.length ≤ 63)
    (hwhole : 63 ≤ p.call.loadavg.wrote) : p.overlay old = loadavgLine p.load := by
  rw [Pass.overlay, List.drop_eq_nil_of_le (Nat.le_trans hold hwhole), List.append_nil,
    List.take_of_length_le ((loadavgLine_length hload).trans_le hwhole)]

theorem overlay_none (hnone : p.call.loadavg.wrote = 0) : p.overlay old = old := by
  rw [Pass.overlay, hnone, List.take_zero, List.nil_append, List.drop_zero]

end Overlay

/-- `loadavg` behind some passes. -/
def overlaid (ps : List Pass) (old : List Char) : List Char := ps.foldl (fun text p => p.overlay text) old

section Overlaid

variable {ps post : List Pass} {p : Pass} {old : List Char}

theorem overlaid_width (hloads : ∀ p ∈ ps, p.load.length ≤ 62) (hold : old.length ≤ 63) :
    old.length ≤ (overlaid ps old).length ∧ (overlaid ps old).length ≤ 63 := by
  induction ps generalizing old with
  | nil => exact ⟨Nat.le_refl _, hold⟩
  | cons p ps ih =>
      rw [List.forall_mem_cons] at hloads
      have hlength := overlay_length hloads.1 hold
      obtain ⟨hle, hmax⟩ := @ih (p.overlay old) hloads.2 (by omega)
      exact ⟨by rw [hlength] at hle; exact Nat.le_trans (Nat.le_max_right _ _) hle, hmax⟩

/-- A line that was written whole stays where nothing is written behind it. -/
theorem overlaid_whole {pre : List Pass} (hloads : ∀ q ∈ pre ++ p :: post, q.load.length ≤ 62)
    (hold : old.length ≤ 63) (hwhole : 63 ≤ p.call.loadavg.wrote) :
    (overlaid (pre ++ p :: post) old).length = 63 ∧
      ((∀ q ∈ post, q.call.loadavg.wrote = 0) →
        overlaid (pre ++ p :: post) old = loadavgLine p.load) := by
  rw [List.forall_mem_append, List.forall_mem_cons] at hloads
  obtain ⟨hpre, hp, hpost⟩ := hloads
  have hsplit : overlaid (pre ++ p :: post) old = overlaid post (loadavgLine p.load) := by
    rw [← overlay_whole hp (overlaid_width hpre hold).2 hwhole]
    simp only [overlaid, List.foldl_append, List.foldl_cons]
  have hline := loadavgLine_length hp
  rw [hsplit]
  constructor
  · obtain ⟨hle, hmax⟩ := overlaid_width hpost hline.le
    omega
  · intro hnone
    clear hsplit hpost
    induction post with
    | nil => rfl
    | cons q post ih =>
        rw [List.forall_mem_cons] at hnone
        rw [overlaid, List.foldl_cons, overlay_none hnone.1]
        exact ih hnone.2

end Overlaid

theorem passes_load {cs : List Call} {s : Feed} {p : Pass} (h : p ∈ passes s cs) :
    p.load.length ≤ 62 := by
  induction cs generalizing s with
  | nil => cases h
  | cons c cs ih =>
      rw [passes, List.mem_append] at h
      rcases h with h | h
      · rw [(pass_eq_some_iff.1 (Option.mem_toList.1 h)).2.2.2.2]
        exact Nat.le_trans (loadavgText_length _) (by decide)
      · exact ih h

/-- The files behind a run are those the last passes wrote. -/
theorem run_files (cs : List Call) (s : Feed) (hold : (s.files.loadavg.getD []).length ≤ 63) :
    (cs.foldl duty s).files.cpuinfo = (written Pass.cpuinfo (passes s cs)).or s.files.cpuinfo ∧
      (cs.foldl duty s).files.meminfo = (written Pass.meminfo (passes s cs)).or s.files.meminfo ∧
      (cs.foldl duty s).files.swaps = (written Pass.swaps (passes s cs)).or s.files.swaps ∧
      (cs.foldl duty s).files.loadavg.getD [] =
        overlaid (passes s cs) (s.files.loadavg.getD []) := by
  induction cs generalizing s with
  | nil => simp [passes, written_nil, overlaid]
  | cons c cs ih =>
      rw [List.foldl_cons, passes]
      cases hpass : pass s c with
      | none =>
          obtain ⟨hfiles, -⟩ := duty_of_none hpass
          have hih := ih (duty s c) (by rw [hfiles]; exact hold)
          rw [hfiles] at hih
          exact hih
      | some p =>
          obtain ⟨hfiles, -⟩ := duty_of_some hpass
          have hload : p.load.length ≤ 62 := by
            rw [(pass_eq_some_iff.1 hpass).2.2.2.2]
            exact Nat.le_trans (loadavgText_length _) (by decide)
          have hline : (p.files s.files).loadavg.getD [] = p.overlay (s.files.loadavg.getD []) :=
            setloadavg_overlay hload hold
          have hih := ih (duty s c) (by
            rw [hfiles, hline, overlay_length hload hold]
            omega)
          rw [hfiles, hline] at hih
          simp only [Option.toList_some, List.singleton_append, written_cons, Option.or_assoc]
          exact hih

/-- The times are five seconds apart, each from the one before. -/
def Paced (ts : List TimeTic) : Prop := ts.IsChain fun last cur => 5 ≤ deltaT cur last

theorem passes_paced (cs : List Call) (s : Feed) :
    Paced (s.lastTime :: (passes s cs).map Pass.time) := by
  induction cs generalizing s with
  | nil => exact List.isChain_singleton _
  | cons c cs ih =>
      have hih := ih (duty s c)
      rw [passes]
      cases hpass : pass s c with
      | none =>
          rw [(duty_of_none hpass).2] at hih
          exact hih
      | some p =>
          rw [(duty_of_some hpass).2] at hih
          exact List.isChain_cons_cons.2 ⟨(pass_eq_some_iff.1 hpass).2.1, hih⟩

/-- The time that a run leaves is that of its last pass. -/
theorem run_lastTime (cs : List Call) (s : Feed) :
    some (cs.foldl duty s).lastTime = (s.lastTime :: (passes s cs).map Pass.time).getLast? := by
  induction cs generalizing s with
  | nil => rfl
  | cons c cs ih =>
      rw [List.foldl_cons, ih, passes]
      cases hpass : pass s c with
      | none =>
          rw [(duty_of_none hpass).2]
          rfl
      | some p =>
          rw [(duty_of_some hpass).2]
          exact List.getLast?_cons_cons.symm

/-- In every reachable state `cpuinfo`, `meminfo` and `swaps` are what the last pass that opened
them left there: a beginning of its text, where `swaps` shows the figures of that pass or zeros,
and no figure is larger than its total. `loadavg` is made of the passes one over the other. It is
never wider than one line, has this width once a pass has written a whole line, and is this line
as long as no later pass writes to it. -/
theorem duty_files (stat : StaTyp) (left : Left) (cs : List Call) :
    ∃ ps files, ps = passes (Feed.start stat left) cs ∧
      files = (cs.foldl duty (Feed.start stat left)).files ∧
      files.cpuinfo = (written Pass.cpuinfo ps).or left.cpuinfo ∧
      files.meminfo = (written Pass.meminfo ps).or left.meminfo ∧
      files.swaps = (written Pass.swaps ps).or left.swaps ∧
      files.loadavg.getD [] = overlaid ps (left.loadavg.getD []) ∧
      (files.loadavg.getD []).length ≤ 63 ∧
      (∀ pre p post, ps = pre ++ p :: post → 63 ≤ p.call.loadavg.wrote →
        (files.loadavg.getD []).length = 63 ∧
          ((∀ q ∈ post, q.call.loadavg.wrote = 0) → files.loadavg.getD [] = loadavgLine p.load)) ∧
      ∀ p ∈ ps, ∀ f, figures p.call.meminfo = some f →
        f.memFree ≤ f.memTotal ∧ f.swapFree ≤ f.swapTotal := by
  refine ⟨_, _, rfl, rfl, ?_⟩
  have hloads : ∀ p ∈ passes (Feed.start stat left) cs, p.load.length ≤ 62 := fun _ => passes_load
  obtain ⟨h₁, h₂, h₃, h₄⟩ := run_files cs (Feed.start stat left) left.width
  refine ⟨h₁, h₂, h₃, h₄, ?_, ?_, fun _ _ _ => figures_le⟩
  · rw [h₄]
    exact (overlaid_width hloads left.width).2
  · intro pre p post hsplit hwhole
    rw [hsplit] at hloads h₄
    rw [h₄]
    exact overlaid_whole hloads left.width hwhole

/-- The files are written anew at most every five seconds, and by every answered call
that comes five seconds or more behind the last pass. -/
theorem duty_paced (stat : StaTyp) (left : Left) (cs : List Call) (c : Call) :
    Paced (⟨0, 0⟩ :: (passes (Feed.start stat left) cs).map Pass.time) ∧
      ((pass (cs.foldl duty (Feed.start stat left)) c).isSome = true ↔
        c.answered ∧ ∃ cur, c.clock = some cur ∧
          ∃ last, (⟨0, 0⟩ :: (passes (Feed.start stat left) cs).map Pass.time).getLast? = some last ∧
            5 ≤ deltaT cur last) := by
  refine ⟨passes_paced cs (Feed.start stat left), ?_⟩
  have hlast := run_lastTime cs (Feed.start stat left)
  change _ = ((⟨0, 0⟩ : TimeTic) :: _).getLast? at hlast
  rw [Option.isSome_iff_exists, ← hlast]
  constructor
  · rintro ⟨p, hp⟩
    obtain ⟨hanswered, hlate, hclock, -⟩ := pass_eq_some_iff.1 hp
    exact ⟨hanswered, p.time, hclock, _, rfl, hlate⟩
  · rintro ⟨hanswered, cur, hclock, last, hsome, hlate⟩
    obtain rfl := Option.some.inj hsome
    exact ⟨⟨cur, _, c⟩, pass_eq_some_iff.2 ⟨hanswered, hlate, hclock, rfl, rfl⟩⟩

/-! ## The limit that is shown -/

/-- `memory.max` behind a store, with pages of 4096 bytes: what is beyond the largest number of
pages reads as `max`. -/
def memoryMax (text : List Char) : List Char :=
  let pages := Nat.ofDigitChars 10 text 0 / 4096
  (if pages < (2 ^ 63 - 1) / 4096 then decimal (pages * 4096) else "max".toList) ++ ['\n']

end Vzgot.Proc
