import Mathlib.Data.List.TakeWhile
import Vzgot.Migration.Movefrom

/-!
# The boot at the end of a migration

`dotransfer` boots the container behind a second `vzgot standby` whose status is 0. That
status says only that the script was run: `vzgot.standby` discards the result of the
remote `vzgot shutdown` and leaves it out on two paths, and the program discards the
status of the script. `dotransfer_boots_alone_iff` says when the container is down on
the remote host at the boot.
-/

set_option autoImplicit false

namespace Vzgot.Migration

open Vzgot.Boot Vzgot.Sed Vzgot.Storage

/-- A turn of `vzgot.standby` comes to its `vzgot shutdown`. -/
structure StandbyTurn.Reaches (r : StandbyTurn) (cont : List Char) : Prop where
  /-- No line of the local list shows the container as up. -/
  notUp : r.locstat cont = []
  /-- The remote host knows the container. -/
  known : (r.name cont).all (· = []) = false
  /-- The local file system is there, or `loc_create` does not print `0`. -/
  pool : r.poolDiffers = true → r.locCreate ≠ "0".toList

/-- A call of `vzgot standby` takes the container down on the remote host. -/
structure StandbyCall.Stops (v : StandbyCall) (binome cont : List Char) : Prop where
  started : v.pipe.started = true
  tools : v.script.tools = true
  remote : binome ≠ []
  reaches : (v.script.turn 0).Reaches cont
  down : (v.script.turn 0).down = true

/-- `dotransfer` comes to its `vzgot boot`: the local check finds nothing, the remote check
finds something, and the second `vzgot standby` was run to its end. -/
structure TransferRun.Boots (t : TransferRun) (cont : List Char) (s : Hosts) : Prop where
  notHere : t.onlineHere cont s = []
  there : t.onlineThere cont s ≠ []
  closed : t.second.pipe = .closed

section Standby

variable {r : StandbyTurn} {v : StandbyCall} {binome cont onboot : List Char} {s : Hosts}

/-- Without `yes` a turn leaves the containers as they run. -/
theorem standbyBody_no : (standbyBody r "no".toList cont s).2 = s := by
  unfold standbyBody
  split
  · rfl
  · split
    · rfl
    · split
      · rfl
      · rw [if_pos (.inr (by decide))]

/-- With `yes` a turn stops the container when it comes to that and the stop works. -/
theorem standbyBody_yes_stops (h : r.Reaches cont) (hdown : r.down = true) :
    (standbyBody r "yes".toList cont s).2 = s.stopThere cont := by
  have hpool : ¬ (r.poolDiffers = true ∧ r.locCreate = "0".toList) :=
    fun hboth => h.pool hboth.1 hboth.2
  have hyes : ¬ ("yes".toList = [] ∨ "yes".toList ≠ "yes".toList) := by decide
  have hknown : ¬ (r.name cont).all (· = []) = true := by
    rw [h.known]
    decide
  rw [standbyBody, if_neg (not_not.2 h.notUp), if_neg hknown, if_neg hpool, if_neg hyes,
    if_pos hdown]

/-- Otherwise it leaves the containers as they run. -/
theorem standbyBody_yes_leaves (h : ¬ (r.Reaches cont ∧ r.down = true)) :
    (standbyBody r "yes".toList cont s).2 = s := by
  unfold standbyBody
  split
  · rfl
  · rename_i hnotUp
    split
    · rfl
    · rename_i hknown
      split
      · rfl
      · rename_i hpool
        have hdown : r.down ≠ true := by
          refine fun hdown => h ⟨⟨not_not.1 hnotUp, ?_, fun hd hc => hpool ⟨hd, hc⟩⟩, hdown⟩
          simpa using hknown
        rw [if_neg hdown, ite_self]

/-- The loop over one container name. -/
theorem standbyLoop_single (turn : Nat → StandbyTurn) (c : ContName) :
    (standbyLoop turn 0 onboot ((c.text.splitOn ',').filter (· ≠ [])) s).2 =
      (standbyBody (turn 0) onboot c.text s).2 := by
  have hcut : c.text.takeWhile (· ≠ ':') = c.text := by
    apply List.takeWhile_eq_self_iff.2
    intro x hx
    have hne : x ≠ ':' := by
      rintro rfl
      exact c.not_mem (by decide) hx
    simpa using hne
  have hlist : (c.text.splitOn ',').filter (· ≠ []) = [c.text] := by
    rw [List.splitOn_eq_singleton (c.not_mem (by decide))]
    simp [c.ne_nil]
  rw [hlist, standbyLoop, hcut]
  split
  · rename_i heq
    rw [heq]
  · rename_i heq
    rw [heq]
    rfl

theorem standby_hosts (v : StandbyScript) (c : ContName) :
    (standby v binome c.text onboot s).2 =
      if v.tools = true ∧ binome ≠ [] then (standbyBody (v.turn 0) onboot c.text s).2 else s := by
  unfold standby
  split
  · rename_i htools
    simp [htools]
  · rename_i htools
    split
    · rename_i hbinome
      simp [hbinome]
    · rename_i hbinome
      rw [standbyLoop_single, if_pos ⟨by simpa using htools, hbinome⟩]

/-- `vzgot standby` with `no` leaves the containers as they run. -/
theorem vzgotStandby_no (c : ContName) :
    (vzgotStandby v binome c.text "no".toList s).2 = s := by
  rw [vzgotStandby]
  split
  · rw [standby_hosts, standbyBody_no, ite_self]
  · rfl

open Classical in
/-- `vzgot standby` with `yes` takes the container down, or leaves all containers. -/
theorem vzgotStandby_yes (c : ContName) :
    (vzgotStandby v binome c.text "yes".toList s).2 =
      if v.Stops binome c.text then s.stopThere c.text else s := by
  by_cases hstops : v.Stops binome c.text
  · rw [if_pos hstops, vzgotStandby]
    rw [if_pos hstops.started, standby_hosts, if_pos ⟨hstops.tools, hstops.remote⟩,
      standbyBody_yes_stops hstops.reaches hstops.down]
  · rw [if_neg hstops, vzgotStandby]
    split
    · rename_i hstarted
      rw [standby_hosts]
      split
      · rename_i hrun
        exact standbyBody_yes_leaves fun h => hstops ⟨hstarted, hrun.1, hrun.2, h.1, h.2⟩
      · rfl
    · rfl

/-- The status of `vzgot standby` does not depend on what the script did. -/
theorem vzgotStandby_status : (vzgotStandby v binome cont onboot s).1 = 0 ↔ v.pipe = .closed := by
  rw [vzgotStandby, vzscript]
  cases v.pipe <;> simp [Pipe.fate, cntInitscript]

end Standby

section Transfer

variable {t : TransferRun} {binome : List Char} {s : Hosts}

theorem not_runsThere_stopThere (s : Hosts) (cont : List Char) :
    ¬ (s.stopThere cont).RunsThere cont := by
  rintro ⟨r, hr, rfl⟩
  simp [Hosts.stopThere] at hr

open Classical in
/-- When `dotransfer` boots the container, and on which hosts. -/
theorem dotransfer_booted (c : ContName) :
    (dotransfer t binome c.text s).booted =
      if t.Boots c.text s then some (if t.second.Stops binome c.text then s.stopThere c.text else s)
      else none := by
  rw [← vzgotStandby_yes, dotransfer, vzgotStandby_no]
  by_cases hhere : t.onlineHere c.text s = []
  · rw [if_neg (not_not.2 hhere)]
    by_cases hthere : t.onlineThere c.text s = []
    · rw [if_pos hthere, if_neg fun hb => hb.there hthere]
    · rw [if_neg hthere]
      by_cases hclosed : t.second.pipe = .closed
      · rw [if_neg (not_not.2 (vzgotStandby_status.2 hclosed)), if_pos ⟨hhere, hthere, hclosed⟩]
      · -- exit 4
        rw [if_pos fun hstatus => hclosed (vzgotStandby_status.1 hstatus),
          if_neg fun hb => hclosed hb.closed]
  · -- exit 3
    rw [if_pos hhere, if_neg fun hb => hhere hb.notHere]

/-- `dotransfer` boots the container only while it is down on the remote host exactly when
a container that runs there and comes to be booted has been stopped by the second
`vzgot standby`. -/
theorem dotransfer_boots_alone_iff (c : ContName) :
    (∀ m, (dotransfer t binome c.text s).booted = some m → ¬ m.RunsThere c.text) ↔
      (s.RunsThere c.text → t.Boots c.text s → t.second.Stops binome c.text) := by
  rw [dotransfer_booted]
  constructor
  · intro h hruns hboots
    by_contra hstops
    refine h s ?_ hruns
    rw [if_pos hboots, if_neg hstops]
  · intro h m hm
    split at hm
    · rename_i hboots
      obtain rfl := Option.some.inj hm
      split
      · exact not_runsThere_stopThere s c.text
      · rename_i hstops
        exact fun hruns => hstops (h hruns hboots)
    · cases hm

end Transfer

/-- The local check asks for the name with a blank behind it, and `vzgot online` prints a
colon there: for a name without dots it finds nothing. -/
theorem onlineHere_eq_nil {t : TransferRun} {c : ContName} {s : Hosts} (hdot : '.' ∉ c.text)
    (hblank : ∀ r ∈ s.here, ' ' ∉ r.name) : t.onlineHere c.text s = [] := by
  rw [TransferRun.onlineHere]
  split
  · apply List.filter_eq_nil_iff.2
    intro line hline hmatch
    obtain ⟨r, hr, rfl⟩ := List.mem_map.1 hline
    have hpattern : '.' ∉ c.text ++ [' '] := by simp [hdot]
    rw [basic_of_not_mem hpattern, matchesHead_map_some] at hmatch
    -- the blank of the pattern would stand in the name, on the colon, or behind it
    obtain ⟨later, hlater⟩ := hmatch
    have hsplit : c.text ++ ' ' :: later = r.name ++ ':' :: ' ' :: r.uptime := by
      simpa using hlater
    rcases List.append_eq_append_iff.1 hsplit with ⟨w, hw, hrest⟩ | ⟨w, hw, hrest⟩
    · cases w with
      | nil => cases hrest
      | cons x w =>
          injection hrest with hx
          exact hblank r (List.mem_filter.1 hr).1 (by rw [hw, ← hx]; simp)
    · cases w with
      | nil => cases hrest
      | cons x w =>
          injection hrest with hx
          exact c.not_mem (by decide) (by rw [hw, ← hx]; simp : ':' ∈ c.text)
  · rfl

def mailName : ContName := ⟨"mail".toList, by decide, by decide, by decide⟩

/-- `mail` runs on the remote host. -/
def mailThere : Hosts where
  here := []
  there := [⟨"mail".toList, true, "UP for   3 days".toList⟩]

/-- Every command works, but for the `ssh` of the remote shutdown. -/
def lostShutdown : TransferRun :=
  let turn : StandbyTurn := {
    list := ["Name".toList]
    remoteList := ["mail  Yes  Up  10.0.0.2  /vzgot/mail".toList]
    remPool := "20G".toList
    locPool := "20G".toList
    locCreate := []
    down := false
    sourced := some "standby".toList }
  let call : StandbyCall := ⟨.closed, ⟨true, fun _ => turn⟩⟩
  ⟨true, call, true, call⟩

/-- The container is booted while it runs on the remote host. -/
theorem dotransfer_split_brain :
    ¬ ∀ (t : TransferRun) (binome : List Char) (c : ContName) (s m : Hosts), binome ≠ [] →
      (dotransfer t binome c.text s).booted = some m → ¬ m.RunsThere c.text := by
  intro hall
  have hbooted : (dotransfer lostShutdown "hostb".toList mailName.text mailThere).booted =
      some mailThere := by decide +kernel
  exact hall lostShutdown "hostb".toList mailName mailThere mailThere (by decide) hbooted (by decide)

end Vzgot.Migration
