import Vzgot.Cpu.Info

/-!
# Template of the online display

`cfg_open_online` (`lib/unicfg.c`) reads the template of the display in pieces of at most
298 characters. A line `$NAME=<format>` declares a variable, a line `>text` is a line of
the display with keys `$NAME:`. A name stands for the first entry of `voc` that it is the
beginning of.
-/

set_option autoImplicit false

namespace Vzgot.Online

open Vzgot.Stdio Vzgot.Pieces

/-- `TPLENUM` -/
inductive TplEnum where
  | ceiling | chwratio | coomkill | cint | cip | cmem | cmpress | cname | ctrxtx | csrxtx
  | cswap | cpuidle | cpuused | cpuwait | hmem | hmpress | hint | hip | hmodel | hname
  | hoomkill | hsrxtx | htrxtx | hswap | lavg | lstass | model | maxcpu | memmax | numcpu
  | onl | pid | pidmax | pwrcpu | swapmax | throttle | uptime | users | unknown
  deriving DecidableEq

/-- `VARTYP` -/
structure VarTyp where
  code : TplEnum
  format : List Char
  deriving DecidableEq

/-- `TPLTYP`. The status is an argument of what reads it. -/
structure Tpl where
  vars : List VarTyp
  lines : List (List Char)
  updated : List (List Char)
  deriving DecidableEq

/-- `voc`, up to the closing entry. -/
def voc : List (List Char × TplEnum) :=
  [("CEILING".toList, TplEnum.ceiling),
    ("COOMKILL".toList, .coomkill),
    ("CHWRATIO".toList, .chwratio),
    ("CINT".toList, .cint),
    ("CIP".toList, .cip),
    ("CMEM".toList, .cmem),
    ("CMPRESS".toList, .cmpress),
    ("CNAME".toList, .cname),
    ("CPUIDLE".toList, .cpuidle),
    ("CPUUSED".toList, .cpuused),
    ("CPUWAIT".toList, .cpuwait),
    ("CTRXTX".toList, .ctrxtx),
    ("CSRXTX".toList, .csrxtx),
    ("CSWAP".toList, .cswap),
    ("HINT".toList, .hint),
    ("HIP".toList, .hip),
    ("HMEM".toList, .hmem),
    ("HNAME".toList, .hname),
    ("HMODEL".toList, .hmodel),
    ("HMPRESS".toList, .hmpress),
    ("HOOMKILL".toList, .hoomkill),
    ("HSRXTX".toList, .hsrxtx),
    ("HSWAP".toList, .hswap),
    ("HTRXTX".toList, .htrxtx),
    ("LOADAVG".toList, .lavg),
    ("LSTASS".toList, .lstass),
    ("MEMMAX".toList, .memmax),
    ("MAXCPU".toList, .maxcpu),
    ("NUMCPU".toList, .numcpu),
    ("ONL".toList, .onl),
    ("PID".toList, .pid),
    ("PIDMAX".toList, .pidmax),
    ("PWRCPU".toList, .pwrcpu),
    ("SWAPMAX".toList, .swapmax),
    ("THROTTLE".toList, .throttle),
    ("USERS".toList, .users),
    ("UPTIME".toList, .uptime)]

/-- `lookup`: code of the first entry that the name is the beginning of. -/
def lookup (varname : List Char) : Option TplEnum :=
  (voc.find? fun id => varname.isPrefixOf id.1).map Prod.snd

/-- `TAILLE` of `scanvar` -/
def taille : Nat := 49

/-- `scanvar`: whether the line declares a new variable, and the variables behind it. -/
def scanvar (vars : List VarTyp) (line : List Char) : Bool × List VarTyp :=
  match scanUntil taille '=' line with
  | some (name, '=' :: '<' :: rest) =>
      match scanUntil taille '>' rest, lookup name with
      | some (format, _), some found =>
          if vars.any (·.code = found) then (false, vars) else (true, vars ++ [⟨found, format⟩])
      | _, _ => (false, vars)
  | _ => (false, vars)

/-- What is done with one piece of the template. -/
def scanLine (isok : Bool) (tpl : Tpl) (piece : List Char) : Bool × Tpl :=
  match Cpu.aplCleanstring (cstr piece) with
  | '$' :: line =>
      let r := scanvar tpl.vars line
      (isok && r.1, { tpl with vars := r.2 })
  | '>' :: line => (isok, { tpl with lines := tpl.lines ++ [line] })
  -- an empty line, a comment, and an unexpected line, which is only reported
  | _ => (isok, tpl)

/-- A new structure. -/
def Tpl.new : Tpl := ⟨[], [], []⟩

/-- `cfg_open_online`: `named` says that there are a directory and a name, `bytes` is the
file if it can be opened, and `status` says that there is a status. Without a status the
structure is returned as it is. -/
def cfgOpenOnline (named : Bool) (bytes : Option (List Char)) (status : Bool) : Option Tpl :=
  if named then
    bytes.bind fun text =>
      if status then
        let r := (piecesOf 298 text).foldl (fun r piece => scanLine r.1 r.2 piece) (true, Tpl.new)
        if r.1 then some r.2 else none
      else some Tpl.new
  else none

/-! ## Names -/

/-- A name that is found is the beginning of a word of the vocabulary. -/
theorem lookup_eq_some {name : List Char} {code : TplEnum} (h : lookup name = some code) :
    ∃ id ∈ voc, name <+: id.1 ∧ id.2 = code := by
  rw [lookup, Option.map_eq_some_iff] at h
  obtain ⟨id, hfind, hcode⟩ := h
  have hpre := List.find?_some hfind
  exact ⟨id, List.mem_of_find?_eq_some hfind, List.isPrefixOf_iff_prefix.mp hpre, hcode⟩

theorem length_le_of_lookup {name : List Char} {code : TplEnum} (h : lookup name = some code) :
    name.length ≤ 8 := by
  have hall : (voc.all fun id => id.1.length ≤ 8) = true := by decide
  obtain ⟨id, hid, hpre, -⟩ := lookup_eq_some h
  have hlen := of_decide_eq_true (List.all_eq_true.mp hall id hid)
  exact hpre.length_le.trans hlen

/-- The words of the vocabulary are capital letters. -/
theorem isUpper_of_lookup {name : List Char} {code : TplEnum} (h : lookup name = some code)
    {c : Char} (hc : c ∈ name) : c.isUpper = true := by
  have hall : (voc.all fun id => id.1.all Char.isUpper) = true := by decide
  obtain ⟨id, hid, hpre, -⟩ := lookup_eq_some h
  exact List.all_eq_true.mp (List.all_eq_true.mp hall id hid) c (hpre.subset hc)

end Vzgot.Online
