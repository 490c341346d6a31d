import Vzgot.Boot.History
import Vzgot.Config.Agree

/-!
# The network of the containers

`boot` has the route to a container set by `vzgot.eth.up` in phase 11 and deleted by
`vzgot.eth.down` in phase 14. Both scripts inherit the variables of `boot`, source
`vzgot_config` again, and look for the names file in `name/` before they source it from
`names/`: it is never sourced, and the variables are those of `boot`, but for those that the
scripts set for themselves, exactly when no variable is set differently by the two files
(`network_variables_iff`).

The table of routes is shared. When no two containers have the same route and the scripts do
their work, then over all interleavings of the supervisors the route of an attended container
is there once `vzgot.eth.up` has succeeded, a `boot` that has returned leaves no route behind,
and other routes are not touched (`routes_kept`).
-/

set_option autoImplicit false

namespace Vzgot.Network

open Vzgot.Transition Vzgot.Config Vzgot.Boot

/-! ## The variables -/

/-- `CONFDIR`, and the directory of `apl_dfltconfdir`. -/
def confdir : List Char := "/etc/vzgot".toList

/-- `CONTNAME` -/
def contnameName : List Char := "CONTNAME".toList

/-- `CONFDIR` -/
def confdirName : List Char := "CONFDIR".toList

/-- The variables that the scripts set for themselves. -/
def ownNames : List (List Char) := [contnameName, "VEPID".toList, confdirName]

/-- What they set; only `vzgot.eth.up` has a `VEPID`. -/
def ownVars (contname : List Char) (vepid : Option (List Char)) : List (List Char × List Char) :=
  (contnameName, contname) :: (vepid.map fun pid => ("VEPID".toList, pid)).toList ++
    [(confdirName, confdir)]

/-- The first part of both scripts, called with `contname` and `vepid`. -/
def scriptEnv (files : Files) (contname : List Char) (vepid : Option (List Char)) (env : Env) :
    Option Env :=
  let env := (ownVars contname vepid).foldl (putVar true) env
  match files.content (confdir ++ "/vzgot_config".toList) with
  | none => some env
  | some text =>
      (source text env).bind fun env =>
        let dir := (env confdirName).getD []
        let cont := (env contnameName).getD []
        -- `name` in the test, `names` behind it
        match files.content (dir ++ "/name/".toList ++ cont) with
        | none => some env
        | some _ =>
            match files.content (dir ++ "/names/".toList ++ cont) with
            | none => some env
            | some text => source text env

/-- The variables of `boot` behind phase 0. -/
def bootEnv (files : Files) (contname : List Char) (env : Env) : Env :=
  (cfgLoadconfig files confdir none (some contname) env).2

section Variables

variable {files : Files} {contname : List Char} {common container : List Line}

theorem bootEnv_eq (hcommon : files.content (confdir ++ "/vzgot_config".toList) = some (textOf common))
    (hcontainer : files.content (confdir ++ "/names/".toList ++ contname) = some (textOf container))
    (hclean : ∀ l ∈ common ++ container, l.Clean) (env : Env) (n : List Char) :
    bootEnv files contname env n =
      (lastOf n (container.filterMap Line.given)).or
        ((lastOf n (common.filterMap Line.given)).or (env n)) := by
  have hload : bootEnv files contname env =
      ((common ++ container).flatMap Line.taken).foldl (putVar true) env :=
    congrArg Prod.snd (cfgLoadconfig_eq hcommon hcontainer [] env)
  rw [hload, flatMap_taken_of_clean hclean, List.filterMap_append, List.foldl_append, foldl_putVar,
    foldl_putVar]

theorem lastOf_ownVars {n : List Char} (h : n ∉ ownNames) (contname : List Char)
    (vepid : Option (List Char)) : lastOf n (ownVars contname vepid) = none := by
  simp only [ownNames, List.mem_cons, List.not_mem_nil, or_false, not_or] at h
  obtain ⟨hcont, hvepid, hconfdir⟩ := h
  cases vepid with
  | none => simp [ownVars, lastOf, Ne.symm hcont, Ne.symm hconfdir]
  | some pid =>
      simp only [ownVars, Option.map_some, Option.toList_some, List.cons_append, List.nil_append, lastOf,
        if_neg (Ne.symm hcont), if_neg (Ne.symm hvepid), if_neg (Ne.symm hconfdir), Option.or_none]

/-- No file is found in `name`, which the script looks for where the common file has left it. -/
theorem scriptEnv_eq (hcommon : files.content (confdir ++ "/vzgot_config".toList) = some (textOf common))
    (hname : files.content ((lastOf confdirName (common.filterMap Line.given)).getD confdir ++
      "/name/".toList ++ (lastOf contnameName (common.filterMap Line.given)).getD contname) = none)
    (vepid : Option (List Char)) (env : Env) :
    scriptEnv files contname vepid env =
      some ((common.filterMap Line.given).foldl (putVar true)
        ((ownVars contname vepid).foldl (putVar true) env)) := by
  have hgetD : ∀ (value : Option (List Char)) (own : List Char),
      (value.or (some own)).getD [] = value.getD own := by
    intro value own
    cases value <;> rfl
  have hconfdir : lastOf confdirName (ownVars contname vepid) = some confdir := by
    cases vepid <;> rfl
  have hcontname : lastOf contnameName (ownVars contname vepid) = some contname := by
    cases vepid <;> rfl
  simp only [scriptEnv, hcommon, source_textOf, Option.bind_some]
  rw [foldl_putVar, foldl_putVar, foldl_putVar, foldl_putVar, hconfdir, hcontname, Option.some_or,
    Option.some_or, hgetD, hgetD, hname]

/-- The scripts have the variables of `boot`, but for those that they set for themselves, if and
only if no such variable has one value in `vzgot_config` and another one in the names file. A
variable that both files set has the value of `vzgot_config` there, and that of the names file in
`boot`. -/
theorem network_variables_iff
    (hcommon : files.content (confdir ++ "/vzgot_config".toList) = some (textOf common))
    (hcontainer : files.content (confdir ++ "/names/".toList ++ contname) = some (textOf container))
    (hname : files.content ((lastOf confdirName (common.filterMap Line.given)).getD confdir ++
      "/name/".toList ++ (lastOf contnameName (common.filterMap Line.given)).getD contname) = none)
    (hclean : ∀ l ∈ common ++ container, l.Clean) (vepid : Option (List Char)) :
    ((∀ env, ∃ env', scriptEnv files contname vepid (bootEnv files contname env) = some env' ∧
        ∀ n, n ∉ ownNames → env' n = bootEnv files contname env n) ↔
      ∀ n, n ∉ ownNames → ∀ x y, lastOf n (common.filterMap Line.given) = some x →
        lastOf n (container.filterMap Line.given) = some y → x = y) ∧
    ∀ env n x y, lastOf n (common.filterMap Line.given) = some x →
      lastOf n (container.filterMap Line.given) = some y →
      (scriptEnv files contname vepid (bootEnv files contname env)).bind (· n) = some x ∧
        bootEnv files contname env n = some y := by
  have hscript := fun env => scriptEnv_eq hcommon hname vepid (bootEnv files contname env)
  have hboot := fun env n => bootEnv_eq hcommon hcontainer hclean env n
  have hvalues : ∀ env n x y, lastOf n (common.filterMap Line.given) = some x →
      lastOf n (container.filterMap Line.given) = some y →
      (scriptEnv files contname vepid (bootEnv files contname env)).bind (· n) = some x ∧
        bootEnv files contname env n = some y := by
    intro env n x y hx hy
    rw [hscript, Option.bind_some, foldl_putVar, hx, hboot, hy]
    exact ⟨rfl, rfl⟩
  refine ⟨⟨?_, ?_⟩, hvalues⟩
  · intro h n hn x y hx hy
    obtain ⟨env', henv, hsame⟩ := h fun _ => none
    obtain ⟨hfirst, hsecond⟩ := hvalues (fun _ => none) n x y hx hy
    rw [henv, Option.bind_some, hsame n hn, hsecond] at hfirst
    exact (Option.some.inj hfirst).symm
  · intro h env
    refine ⟨_, hscript env, fun n hn => ?_⟩
    rw [foldl_putVar, foldl_putVar, lastOf_ownVars hn, Option.none_or, hboot]
    cases hx : lastOf n (common.filterMap Line.given) with
    | none => rfl
    | some x =>
        cases hy : lastOf n (container.filterMap Line.given) with
        | none => rfl
        | some y =>
            rw [h n hn x y hx hy]
            rfl

end Variables

/-- A line with a value in quotes that has nothing in it for the loader to stop at. -/
theorem clean_of_all {a : Assign} (hquoted : a.quoted = true) (hrest : (Line.assign a).rest = [])
    (hvalue : (a.value.all fun c => c ≠ '#' && !Stdio.isSpace c) = true) : (Line.assign a).Clean := by
  refine ⟨hrest, ?_⟩
  rintro _ ⟨⟩
  constructor
  · intro c hc
    have hall := List.all_eq_true.mp hvalue c hc
    simpa using hall
  · intro hnot
    rw [hquoted] at hnot
    cases hnot

/-- `vzgot_config` with one line, and the names file of the container `web` with one line. -/
def bothFiles (common container : Line) : Files where
  content path :=
    if path = "/etc/vzgot/vzgot_config".toList then some (textOf [common])
    else if path = "/etc/vzgot/names/web".toList then some (textOf [container])
    else none
  short := by
    intro path text h
    split at h
    · subst path
      decide
    · split at h
      · subst path
        decide
      · cases h

/-- `BRIDGENAME` in both files. -/
def bridgeFiles : Files :=
  bothFiles (quotedLine "BRIDGENAME".toList "vz-br0".toList rfl)
    (quotedLine "BRIDGENAME".toList "vz-br1".toList rfl)

/-- A container with a bridge of its own is linked to the bridge of the host. -/
theorem network_variables_bridge :
    (¬ ∀ env, ∃ env', scriptEnv bridgeFiles "web".toList (some "4242".toList)
          (bootEnv bridgeFiles "web".toList env) = some env' ∧
        ∀ n, n ∉ ownNames → env' n = bootEnv bridgeFiles "web".toList env n) ∧
      (scriptEnv bridgeFiles "web".toList (some "4242".toList)
          (bootEnv bridgeFiles "web".toList fun _ => none)).bind (· "BRIDGENAME".toList) =
        some "vz-br0".toList := by
  have hclean : ∀ l ∈ [quotedLine "BRIDGENAME".toList "vz-br0".toList rfl] ++
      [quotedLine "BRIDGENAME".toList "vz-br1".toList rfl], l.Clean := by
    simp only [List.singleton_append, List.forall_mem_cons]
    exact ⟨clean_of_all rfl (by decide +kernel) (by decide +kernel),
      clean_of_all rfl (by decide +kernel) (by decide +kernel), fun _ h => nomatch h⟩
  obtain ⟨hiff, hvalues⟩ := @network_variables_iff bridgeFiles "web".toList _ _ rfl rfl rfl hclean
    (some "4242".toList)
  constructor
  · intro h
    have hsame := hiff.mp h "BRIDGENAME".toList (by decide) "vz-br0".toList "vz-br1".toList rfl rfl
    exact absurd hsame (by decide)
  · exact (hvalues _ "BRIDGENAME".toList _ _ rfl rfl).1

/-! ## The scripts -/

/-- The variables that the scripts look at; what is not set is empty. -/
structure Vars where
  homefs : List Char
  fullname : List Char
  bridgename : List Char

/-- A route: address and device. -/
abbrev Route := List Char × List Char

/-- The statuses of the commands of `vzgot.eth.up`, and what `dig` prints. -/
structure UpRun where
  add : Nat
  set : Nat
  addif : Nat
  netns : Nat
  dig : List Char
  route : Nat

/-- The status of `ip route del`, and what `dig` prints. -/
structure DownRun where
  dig : List Char
  route : Nat

/-- `IPNUM` -/
def ipnum (fullname dig : List Char) : List Char :=
  if fullname ≠ [] ∧ fullname.all (fun c => c.isDigit || c = '.') then fullname else dig

/-- `vzgot.eth.up`: its status, and the routes. `ip route add` does not replace a route. -/
def ethUp (v : Vars) (u : UpRun) (table : Route → Bool) : Nat × (Route → Bool) :=
  let r : Route := (ipnum v.fullname u.dig, v.bridgename)
  if v.homefs = [] ∨ v.fullname = [] then (1, table)
  else if u.add ≠ 0 then (u.add, table)
  else if u.set ≠ 0 then (u.set, table)
  else if u.addif ≠ 0 then (u.addif, table)
  else if u.netns ≠ 0 then (u.netns, table)
  else if r.1 = [] then (0, table)
  else if u.route ≠ 0 then (u.route, table)
  else if table r then (2, table)
  else (0, Function.update table r true)

/-- `vzgot.eth.down`: its status, and the routes. -/
def ethDown (v : Vars) (d : DownRun) (table : Route → Bool) : Nat × (Route → Bool) :=
  let r : Route := (ipnum v.fullname d.dig, v.bridgename)
  if v.homefs = [] ∨ v.fullname = [] then (1, table)
  else if r.1 = [] then (0, table)
  -- a failure is told and forgotten
  else if d.route ≠ 0 then (0, table)
  else (0, Function.update table r false)

section Scripts

variable {v : Vars} {table : Route → Bool} {r : Route}

theorem ethUp_others {u : UpRun} (h : r ≠ (ipnum v.fullname u.dig, v.bridgename)) :
    (ethUp v u table).2 r = table r := by
  simp only [ethUp]
  repeat' split
  all_goals first | rfl | exact Function.update_of_ne h ..

theorem ethDown_others {d : DownRun} (h : r ≠ (ipnum v.fullname d.dig, v.bridgename)) :
    (ethDown v d table).2 r = table r := by
  simp only [ethDown]
  repeat' split
  all_goals first | rfl | exact Function.update_of_ne h ..

/-- With a status of zero and an address the route is there. -/
theorem ethUp_done {u : UpRun} (hr : r = (ipnum v.fullname u.dig, v.bridgename)) (hne : r.1 ≠ [])
    (h : (ethUp v u table).1 = 0) : (ethUp v u table).2 r = true := by
  subst hr
  simp only [ethUp] at h ⊢
  repeat' split at h
  all_goals simp_all

/-- The route is deleted, unless there is no container name file with its variables. -/
theorem ethDown_done {d : DownRun} (hr : r = (ipnum v.fullname d.dig, v.bridgename)) (hne : r.1 ≠ [])
    (hroute : d.route = 0) (hset : v.homefs ≠ [] ∧ v.fullname ≠ []) :
    (ethDown v d table).2 r = false := by
  subst hr
  simp only [ethDown]
  rw [if_neg (by simp [hset]), if_neg hne, if_neg (by simp [hroute])]
  exact Function.update_self ..

theorem ethUp_unset (hset : ¬ (v.homefs ≠ [] ∧ v.fullname ≠ [])) (u : UpRun) :
    (ethUp v u table).2 = table := by
  simp only [ethUp]
  rw [if_pos (by by_cases h : v.homefs = [] <;> simp_all)]

theorem ethDown_unset (hset : ¬ (v.homefs ≠ [] ∧ v.fullname ≠ [])) (d : DownRun) :
    (ethDown v d table).2 = table := by
  simp only [ethDown]
  rw [if_pos (by by_cases h : v.homefs = [] <;> simp_all)]

end Scripts

/-! ## The supervisors of a host -/

/-- The loops of `boot` of all containers, the routes, and the containers whose last
`vzgot.eth.up` has ended with zero. -/
structure Host where
  boot : List Char → BootState
  table : Route → Bool
  up : List Char → Bool

/-- Phase 11 or phase 14 of a container, with its script if that is started, or another phase. -/
inductive Event where
  | up (c : List Char) (script : Option UpRun) (reaped : Bool)
  | down (c : List Char) (script : Option DownRun) (reaped : Bool)
  | other (c : List Char) (a : BootAnswer)

/-- What `cnt_initscript` learns of a script. -/
def fateOf (status : Option Nat) (reaped : Bool) : ScriptRun :=
  match status with
  | none => .noPipe
  | some status => if reaped then .exited status else .noStatus

/-- One turn of the loop of one container. -/
def step (vars : List Char → Vars) (h : Host) : Event → Option Host
  | .up c script reaped =>
      let r := script.map fun u => ethUp (vars c) u h.table
      if (h.boot c).phase = 11 then
        (bootStep c (h.boot c) (.script (fateOf (r.map Prod.fst) reaped))).map fun b =>
          ⟨Function.update h.boot c b, (r.map Prod.snd).getD h.table,
            Function.update h.up c (r.map Prod.fst = some 0)⟩
      else none
  | .down c script reaped =>
      let r := script.map fun d => ethDown (vars c) d h.table
      if (h.boot c).phase = 14 then
        (bootStep c (h.boot c) (.script (fateOf (r.map Prod.fst) reaped))).map fun b =>
          ⟨Function.update h.boot c b, (r.map Prod.snd).getD h.table, h.up⟩
      else none
  | .other c a =>
      if (h.boot c).phase = 11 ∨ (h.boot c).phase = 14 then none
      else (bootStep c (h.boot c) a).map fun b => ⟨Function.update h.boot c b, h.table, h.up⟩

/-- `vzgot.eth.up` finds the address of the container and its end is seen; `vzgot.eth.down` is
started, finds the same address, and `ip route del` is not refused. -/
def Sound (vars : List Char → Vars) (route : List Char → Route) (_ : Host) : Event → Prop
  | .up c script reaped =>
      ∀ u, script = some u → route c = (ipnum (vars c).fullname u.dig, (vars c).bridgename) ∧
        reaped = true
  | .down c script _ =>
      ∃ d, script = some d ∧ route c = (ipnum (vars c).fullname d.dig, (vars c).bridgename) ∧
        d.route = 0
  | .other _ _ => True

/-- The container is between both scripts. -/
def Attended (b : BootState) : Prop := 12 ≤ b.phase ∧ b.phase ≤ 14

instance (b : BootState) : Decidable (Attended b) := inferInstanceAs (Decidable (_ ∧ _))

/-- What holds in every state, when `base` were the routes. -/
structure Inv (vars : List Char → Vars) (route : List Char → Route) (base : Route → Bool)
    (h : Host) : Prop where
  /-- Away from the scripts no route is left; a container without its variables has none. -/
  quiet : ∀ c, ¬ Attended (h.boot c) ∨ ¬ ((vars c).homefs ≠ [] ∧ (vars c).fullname ≠ []) →
    h.table (route c) = true → base (route c) = true
  attended : ∀ c, Attended (h.boot c) → h.up c = true → h.table (route c) = true
  others : ∀ r, (∀ c, route c ≠ r) → h.table r = base r

section Step

variable {vars : List Char → Vars} {route : List Char → Route} {base : Route → Bool} {h h' : Host}
  {c : List Char}

/-- The phases between the scripts are entered in phase 11 and left in phase 14. -/
theorem attended_after {b : BootState} {a : BootAnswer} {w : Work}
    (hw : bootPhase c b.phase b.vars a = some w) (h₁₁ : b.phase ≠ 11) (h₁₄ : b.phase ≠ 14) :
    Attended (b.after w) ↔ Attended b := by
  have htarget := bootPhase_target hw
  rw [Attended, Attended, after_phase]
  by_cases h₁₂ : b.phase = 12
  · rw [h₁₂] at hw
    obtain ⟨sent, -, rfl⟩ := bootPhase_clearance hw
    rw [h₁₂]
    exact iff_of_true (show 12 ≤ 13 ∧ 13 ≤ 14 by decide) (by decide)
  · by_cases h₁₃ : b.phase = 13
    · rw [h₁₃] at hw
      obtain ⟨status, -, rfl⟩ := bootPhase_attending hw
      rw [h₁₃]
      exact iff_of_true (show 12 ≤ 14 ∧ 14 ≤ 14 by decide) (by decide)
    · omega

/-- Phase 11 leads to phase 12 unless the script is not started or its end is not seen. -/
theorem phase_up {b : BootState} {status : Option Nat} {reaped : Bool} {w : Work}
    (hphase : b.phase = 11)
    (hw : bootPhase c b.phase b.vars (.script (fateOf status reaped)) = some w) :
    (b.after w).phase = if status.isSome = true ∧ reaped = true then 12 else 16 := by
  rw [after_phase, hphase]
  rw [hphase] at hw
  obtain ⟨fate, hfate, rfl⟩ := bootPhase_network hw
  injection hfate with hfate
  subst hfate
  cases status <;> cases reaped <;> rfl

/-- Phase 14 is not followed by a phase between the scripts. -/
theorem phase_down {b : BootState} {a : BootAnswer} {w : Work} (hphase : b.phase = 14)
    (hw : bootPhase c b.phase b.vars a = some w) : ¬ Attended (b.after w) := by
  have htarget := bootPhase_target hw
  rw [Attended, after_phase]
  omega

/-- A turn of one container, with what it does to the routes: none but its own one changes, and
what is asked of the own one is kept. -/
theorem Inv.turn (hi : Inv vars route base h) (hinj : Function.Injective route) {b : BootState}
    {table : Route → Bool} {up : List Char → Bool}
    (hothers : ∀ r, r ≠ route c → table r = h.table r) (hup : ∀ d, d ≠ c → up d = h.up d)
    (hquiet : ¬ Attended b ∨ ¬ ((vars c).homefs ≠ [] ∧ (vars c).fullname ≠ []) →
      table (route c) = true → base (route c) = true)
    (hattended : Attended b → up c = true → table (route c) = true) :
    Inv vars route base ⟨Function.update h.boot c b, table, up⟩ := by
  constructor
  · intro d hd ht
    -- another container has another route
    by_cases hdc : d = c
    · subst hdc
      simp only [Function.update_self] at hd
      exact hquiet hd ht
    · simp only [Function.update_of_ne hdc] at hd
      change table (route d) = true at ht
      rw [hothers _ (hinj.ne hdc)] at ht
      exact hi.quiet d hd ht
  · intro d hd hu
    change table (route d) = true
    by_cases hdc : d = c
    · subst hdc
      simp only [Function.update_self] at hd
      exact hattended hd hu
    · simp only [Function.update_of_ne hdc] at hd
      change up d = true at hu
      rw [hup d hdc] at hu
      rw [hothers _ (hinj.ne hdc)]
      exact hi.attended d hd hu
  · intro r hr
    exact (hothers r (hr c).symm).trans (hi.others r hr)

theorem inv_up (hi : Inv vars route base h) (hinj : Function.Injective route)
    (haddress : (route c).1 ≠ []) {script : Option UpRun} {reaped : Bool}
    (hv : Sound vars route h (.up c script reaped))
    (hs : step vars h (.up c script reaped) = some h') : Inv vars route base h' := by
  simp only [step, Option.ite_none_right_eq_some, Option.map_eq_some_iff, bootStep_eq_some] at hs
  obtain ⟨hphase, b, ⟨-, w, hw, rfl⟩, rfl⟩ := hs
  have hnext := phase_up hphase hw
  have hstart : ¬ Attended (h.boot c) := by
    rw [Attended]
    omega
  cases script with
  | none =>
      -- without the script the routes stay
      apply hi.turn hinj (fun r _ => rfl)
      · exact fun d hd => Function.update_of_ne hd ..
      · exact fun _ => hi.quiet c (.inl hstart)
      · intro hatt
        rw [Attended, hnext, if_neg (by simp)] at hatt
        omega
  | some u =>
      obtain ⟨hroute, rfl⟩ := hv u rfl
      have hnow : Attended ((h.boot c).after w) := by
        rw [Attended, hnext, if_pos ⟨rfl, rfl⟩]
        decide
      apply hi.turn hinj
      · intro r hr
        exact ethUp_others (hroute ▸ hr)
      · exact fun d hd => Function.update_of_ne hd ..
      · rintro (hnot | hunset)
        · exact absurd hnow hnot
        · change (ethUp (vars c) u h.table).2 (route c) = true → _
          rw [ethUp_unset hunset]
          exact hi.quiet c (.inl hstart)
      · intro _ hzero
        rw [Function.update_self] at hzero
        exact ethUp_done hroute haddress (by simpa using hzero)

theorem inv_down (hi : Inv vars route base h) (hinj : Function.Injective route)
    (haddress : (route c).1 ≠ []) {script : Option DownRun} {reaped : Bool}
    (hv : Sound vars route h (.down c script reaped))
    (hs : step vars h (.down c script reaped) = some h') : Inv vars route base h' := by
  simp only [step, Option.ite_none_right_eq_some, Option.map_eq_some_iff, bootStep_eq_some] at hs
  obtain ⟨hphase, b, ⟨-, w, hw, rfl⟩, rfl⟩ := hs
  obtain ⟨d, rfl, hroute, hdone⟩ := hv
  have hnot := phase_down hphase hw
  apply hi.turn hinj
  · intro r hr
    exact ethDown_others (hroute ▸ hr)
  · exact fun _ _ => rfl
  · intro _
    change (ethDown (vars c) d h.table).2 (route c) = true → _
    by_cases hset : (vars c).homefs ≠ [] ∧ (vars c).fullname ≠ []
    · rw [ethDown_done hroute haddress hdone hset]
      intro hfalse
      cases hfalse
    · rw [ethDown_unset hset]
      exact hi.quiet c (.inr hset)
  · exact fun hatt => absurd hatt hnot

theorem inv_other (hi : Inv vars route base h) (hinj : Function.Injective route) {a : BootAnswer}
    (hs : step vars h (.other c a) = some h') : Inv vars route base h' := by
  simp only [step, Option.ite_none_left_eq_some, Option.map_eq_some_iff, bootStep_eq_some,
    not_or] at hs
  obtain ⟨⟨h₁₁, h₁₄⟩, b, ⟨-, w, hw, rfl⟩, rfl⟩ := hs
  have hatt := attended_after hw h₁₁ h₁₄
  apply hi.turn hinj (fun r _ => rfl) (fun _ _ => rfl)
  · rw [hatt]
    exact hi.quiet c
  · rw [hatt]
    exact hi.attended c

theorem inv_step (hi : Inv vars route base h) (hinj : Function.Injective route)
    (haddress : ∀ c, (route c).1 ≠ []) {e : Event} (hv : Sound vars route h e)
    (hs : step vars h e = some h') : Inv vars route base h' := by
  cases e with
  | up c script reaped => exact inv_up hi hinj (haddress c) hv hs
  | down c script reaped => exact inv_down hi hinj (haddress c) hv hs
  | other c a => exact inv_other hi hinj hs

end Step

/-! ## Runs -/

/-- A host where no container is booted yet. -/
def start (base : Route → Bool) : Host := ⟨fun _ => bootInit, base, fun _ => false⟩

section Runs

variable {vars : List Char → Vars} {route : List Char → Route} {base : Route → Bool} {t : Host}

theorem inv_start : Inv vars route base (start base) where
  quiet _ _ h := h
  attended _ h := absurd h.1 (show ¬ 12 ≤ 0 by decide)
  others _ _ := rfl

theorem chronicled_update {boot : List Char → BootState} {b : BootState} {c : List Char}
    (h : ∀ d, Chronicled (boot d)) (hb : Chronicled b) (d : List Char) :
    Chronicled (Function.update boot c b d) := by
  by_cases hdc : d = c
  · subst hdc
    rw [Function.update_self]
    exact hb
  · rw [Function.update_of_ne hdc]
    exact h d

theorem chronicled_step {h h' : Host} {e : Event} (hall : ∀ c, Chronicled (h.boot c))
    (hs : step vars h e = some h') : ∀ c, Chronicled (h'.boot c) := by
  cases e with
  | up c script reaped =>
      simp only [step, Option.ite_none_right_eq_some, Option.map_eq_some_iff] at hs
      obtain ⟨-, b, hb, rfl⟩ := hs
      exact chronicled_update hall ((hall c).step hb)
  | down c script reaped =>
      simp only [step, Option.ite_none_right_eq_some, Option.map_eq_some_iff] at hs
      obtain ⟨-, b, hb, rfl⟩ := hs
      exact chronicled_update hall ((hall c).step hb)
  | other c a =>
      simp only [step, Option.ite_none_left_eq_some, Option.map_eq_some_iff] at hs
      obtain ⟨-, b, hb, rfl⟩ := hs
      exact chronicled_update hall ((hall c).step hb)

/-- A loop that has come to its end is not between the scripts. -/
theorem not_attended_of_returned {es : List Event}
    (hr : run (step vars) (start base) es = some t) {c : List Char} (hret : (t.boot c).returned) :
    ¬ Attended (t.boot c) := by
  have hall : ∀ c, Chronicled (t.boot c) :=
    run_invariant (fun _ _ _ h hs => chronicled_step h hs) (fun _ => chronicled_init) hr
  have hend := (hall c).stopped hret
  rw [Attended]
  omega

/-- For all containers of a host whose routes are different, over all interleavings of their
supervisors: the routes of others stay as they are, a `boot` that has returned leaves no route
behind, and an attended container whose `vzgot.eth.up` has ended with zero has its route. -/
theorem routes_kept (hinj : Function.Injective route) (haddress : ∀ c, (route c).1 ≠ [])
    {es : List Event} (hv : Meets (step vars) (Sound vars route) (start base) es)
    (hr : run (step vars) (start base) es = some t) :
    (∀ r, (∀ c, route c ≠ r) → t.table r = base r) ∧
      ∀ c, ((t.boot c).returned → t.table (route c) = true → base (route c) = true) ∧
        (Attended (t.boot c) → t.up c = true → t.table (route c) = true) := by
  have hi : Inv vars route base t :=
    meets_invariant (fun _ _ _ hi hg hs => inv_step hi hinj haddress hg hs) inv_start hv hr
  refine ⟨hi.others, fun c => ⟨fun hret => hi.quiet c (.inl ?_), hi.attended c⟩⟩
  exact not_attended_of_returned hr hret

end Runs

/-- The phases of a container in front of `vzgot.eth.up`. -/
def coming (c : List Char) : List Event :=
  [.config true, .lock true, .script (.exited 0), .pipe (some (3, 4)), .pty (.ready 5),
    .setCgroup true, .setSupDevices true, .console (.tracked 6 70), .clone (some 71),
    .record .written true, .confine .moved .written .written .written].map (.other c)

/-- Every name is resolved to an address of its own. -/
def named : List Char → Vars := fun c => ⟨"/h".toList, 'n' :: c, "vz-br0".toList⟩

/-- The routes of these containers. -/
def routeOf (c : List Char) : Route := ('i' :: c, "vz-br0".toList)

theorem routeOf_injective : Function.Injective routeOf := by
  intro c d h
  exact List.tail_eq_of_cons_eq (congrArg Prod.fst h)

/-- What is asked of the scripts does not depend on the state of the host. -/
theorem meets_sound {vars : List Char → Vars} {route : List Char → Route} {h : Host}
    {es : List Event} (hes : ∀ e ∈ es, ∀ m, Sound vars route m e) :
    Meets (step vars) (Sound vars route) h es := by
  apply meets_of_forall
  intro pre e post m heq _
  apply hes
  rw [heq]
  exact List.mem_append_right pre List.mem_cons_self

theorem sound_coming {vars : List Char → Vars} {route : List Char → Route} (c : List Char) :
    ∀ e ∈ coming c, ∀ m, Sound vars route m e := by
  intro e he m
  obtain ⟨a, -, rfl⟩ := List.mem_map.mp he
  trivial

/-- A container comes up beside the routes that are there. -/
theorem routes_kept_web :
    ∃ t, run (step named) (start fun _ => false) (coming "web".toList ++
        [.up "web".toList (some ⟨0, 0, 0, 0, "iweb".toList, 0⟩) true,
          .other "web".toList (.clearance true)]) = some t ∧
      Attended (t.boot "web".toList) ∧ t.table (routeOf "web".toList) = true := by
  have hrun : (run (step named) (start fun _ => false) (coming "web".toList ++
      [.up "web".toList (some ⟨0, 0, 0, 0, "iweb".toList, 0⟩) true,
        .other "web".toList (.clearance true)])).any
          (fun t => decide (Attended (t.boot "web".toList) ∧ t.up "web".toList = true)) = true := by
    decide +kernel
  obtain ⟨t, hr, hatt, hup⟩ := exists_run hrun
  refine ⟨t, hr, hatt, ((routes_kept routeOf_injective (fun _ => List.cons_ne_nil _ _) ?_ hr).2
    "web".toList).2 hatt hup⟩
  -- only `vzgot.eth.up` is asked for something
  refine meets_sound (List.forall_mem_append.mpr ⟨sound_coming _, ?_⟩)
  refine List.forall_mem_cons.mpr ⟨?_, List.forall_mem_singleton.mpr fun _ => trivial⟩
  rintro _ u ⟨⟩
  exact ⟨by decide, rfl⟩

/-- Variables with an address that is not looked up. -/
def numbered : Vars := ⟨"/h".toList, "10.0.0.1".toList, "vz-br0".toList⟩

theorem ipnum_numbered : ipnum numbered.fullname [] = "10.0.0.1".toList := by decide

/-- Two containers with one route: the end of one takes it from the other. -/
theorem routes_kept_shared :
    ¬ ∀ (vars : List Char → Vars) (route : List Char → Route) (base : Route → Bool)
      (es : List Event) (t : Host), (∀ c, (route c).1 ≠ []) →
        Meets (step vars) (Sound vars route) (start base) es →
          run (step vars) (start base) es = some t →
            ∀ c, Attended (t.boot c) → t.up c = true → t.table (route c) = true := by
  intro hall
  have hrun : (run (step fun _ => numbered) (start fun _ => false)
      (coming "a".toList ++ .up "a".toList (some ⟨0, 0, 0, 0, [], 0⟩) true ::
        (coming "b".toList ++ [.up "b".toList (some ⟨0, 0, 0, 0, [], 0⟩) true,
          .other "b".toList (.clearance true), .other "b".toList (.attend 2),
          .down "b".toList (some ⟨[], 0⟩) true]))).any
        (fun t => decide (Attended (t.boot "a".toList) ∧ t.up "a".toList = true ∧
          t.table (ipnum numbered.fullname [], numbered.bridgename) = false)) = true := by
    decide +kernel
  obtain ⟨t, hr, hatt, hup, hgone⟩ := exists_run hrun
  have hkept := hall _ (fun _ => (ipnum numbered.fullname [], numbered.bridgename)) _ _ t
    (fun _ => ?_) ?_ hr _ hatt hup
  · rw [hgone] at hkept
    cases hkept
  · rw [ipnum_numbered]
    exact List.cons_ne_nil _ _
  · have hscript : ∀ (c : List Char) (h : Host), Sound (fun _ => numbered)
        (fun _ => (ipnum numbered.fullname [], numbered.bridgename)) h
          (.up c (some ⟨0, 0, 0, 0, [], 0⟩) true) := by
      rintro c h u ⟨⟩
      exact ⟨rfl, rfl⟩
    apply meets_sound
    simp only [List.forall_mem_append, List.forall_mem_cons]
    exact ⟨sound_coming _, hscript _, sound_coming _, hscript _, fun _ => trivial, fun _ => trivial,
      fun _ => ⟨_, rfl, rfl, rfl⟩, fun _ h => nomatch h⟩

end Vzgot.Network
