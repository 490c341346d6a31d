import Mathlib.Data.Fin.Basic
import Vzgot.Config.Lines

/-!
# What `vzgot.create` makes of its arguments

`shell/vzgot.create` splits its first argument at the first dot into the name of the
container and the domain, takes the IP number from `dig` or from its second argument, and
writes the name file. With an IP number in the second argument, `FULLNAME` of the name
file is that number and no longer the name. `$CONFDIR/names/$CONTNAME` is kept as the text
that the script writes.
-/

set_option autoImplicit false

namespace Vzgot.Rebuild

open Vzgot.Config Vzgot.Shell Vzgot.Transition

/-! ## Names and numbers -/

/-- Letters, digits, dots, dashes and underscores. -/
def isHostChar (c : Char) : Bool := c.isAlphanum || c = '.' || c = '-' || c = '_'

/-- A domain, which may be empty. -/
structure Domain where
  text : List Char
  chars : ∀ c ∈ text, isHostChar c = true

/-- A host name, with or without a domain; it does not begin with a dot. -/
structure HostName where
  text : List Char
  ne_nil : text ≠ []
  head_ne : text.head? ≠ some '.'
  chars : ∀ c ∈ text, isHostChar c = true

/-- An IPv4 number. -/
structure Ipv4 where
  a : Fin 256
  b : Fin 256
  c : Fin 256
  d : Fin 256

/-- An IPv4 number as it is written. -/
def Ipv4.text (ip : Ipv4) : List Char :=
  Nat.toDigits 10 ip.a ++ '.' :: (Nat.toDigits 10 ip.b ++ '.' ::
    (Nat.toDigits 10 ip.c ++ '.' :: Nat.toDigits 10 ip.d))

/-! ## The arguments -/

/-- `25[0-5]|(2[0-4]|1[0-9]|[1-9]|)[0-9]` -/
def isOctet : List Char → Bool
  | [x] => x.isDigit
  | [x, y] => x.isDigit && x ≠ '0' && y.isDigit
  | [x, y, z] =>
      (x = '2' && y = '5' && z.isDigit && z ≤ '5') || (x = '2' && y.isDigit && y ≤ '4' && z.isDigit) ||
        (x = '1' && y.isDigit && z.isDigit)
  | _ => false

/-- `ip_regex`: four such numbers with dots between them. -/
def ipRegex (s : List Char) : Bool :=
  match s.splitOn '.' with
  | [a, b, c, d] => isOctet a && isOctet b && isOctet c && isOctet d
  | _ => false

/-- Where `IPNUM` comes from: `dig +short` of a name, or the second argument. -/
inductive IpSource where
  | dig (host : List Char)
  | given (ipnum : List Char)
  deriving DecidableEq

/-- The variables that are set from the arguments. -/
structure Created where
  contname : List Char
  domain : List Char
  fullname : List Char
  ip : IpSource
  deriving DecidableEq

/-- `CONTNAME`, `DOMAIN` and `FULLNAME` from `$1`. -/
def splitName (hostDomain fullname : List Char) : List Char × List Char × List Char :=
  let contname := fullname.takeWhile (· ≠ '.')
  let domain := (fullname.dropWhile (· ≠ '.')).tail
  if domain = [] then (contname, hostDomain, contname ++ '.' :: hostDomain)
  else (contname, domain, fullname)

/-- `vzgot.create` up to the configuration; `hostDomain` is what `hostname -d` prints. It
exits without a name, and with an IP number that is none. -/
def vzgotCreate (hostDomain : List Char) (args : List (List Char)) : Option Created :=
  match args with
  | [] => none
  | arg :: rest =>
      if arg = [] then none
      else
        let (contname, domain, fullname) := splitName hostDomain arg
        let ipnum := rest.head?.getD []
        if ipnum = [] then
          some ⟨contname, domain, fullname, .dig (contname ++ '.' :: domain)⟩
        else if ipRegex ipnum then some ⟨contname, domain, ipnum, .given ipnum⟩
        else none

/-! ## The name file -/

/-- A value that stays one word: what `vzgot_config` gives to the variables below. -/
structure Setting where
  text : List Char
  plain : ∀ c ∈ text, isPlain c = true ∧ c ≠ '~'

/-- What goes into a name file besides the name: the output of `date`, and variables of
`vzgot_config`. -/
structure Site where
  date : List Char
  date_line : '\n' ∉ date
  vzdir : Setting
  onlinetpl : Setting
  privileged : Setting
  cpuweight : Setting
  memmax : Setting
  swapmax : Setting
  pidmax : Setting
  pwrcpu : Setting
  maxcpu : Setting
  numcpu : Setting

/-- A line of a name file. -/
inductive NameLine where
  | comment (text : List Char)
  | set (var value : List Char)
  | onboot

/-- The line as it is written. -/
def NameLine.text : NameLine → List Char
  | .comment text => '#' :: text
  | .set var value => var ++ '=' :: value
  | .onboot => "ONBOOT=\"No\"".toList

/-- A row of dashes. -/
def rule : NameLine := .comment "----------------------------------------------------".toList

/-- The lines of the name file. -/
def nameLines (p : Created) (site : Site) : List NameLine :=
  [rule,
    .comment ("vzgot site '".toList ++ p.contname ++ "' generation date:".toList ++ site.date),
    rule,
    .set "NAME".toList p.contname,
    .set "FULLNAME".toList p.fullname,
    rule,
    .comment "booting information".toList,
    .onboot,
    .set "HOMEFS".toList (site.vzdir.text ++ '/' :: p.contname),
    .set "ONLINETPL".toList site.onlinetpl.text,
    rule,
    .comment "Container working Mode".toList,
    .set "PRIVILEGED".toList site.privileged.text,
    rule,
    .comment "cgroup quota limitations ".toList,
    .set "CPUWEIGHT".toList site.cpuweight.text,
    .set "MEMMAX".toList site.memmax.text,
    .set "SWAPMAX".toList site.swapmax.text,
    .set "PIDMAX".toList site.pidmax.text,
    .set "PWRCPU".toList site.pwrcpu.text,
    .set "MAXCPU".toList site.maxcpu.text,
    .set "NUMCPU".toList site.numcpu.text,
    rule]

/-- Text of such lines. -/
def textOfLines (lines : List NameLine) : List Char := lines.flatMap fun l => l.text ++ ['\n']

/-- The name file. -/
def nameFile (p : Created) (site : Site) : List Char := textOfLines (nameLines p site)

/-! ## Lemmas on names -/

theorem toDigits_not_dot {n : Nat} : '.' ∉ Nat.toDigits 10 n := fun h =>
  absurd (Nat.isDigit_of_mem_toDigits (by decide) (by decide) h) (by decide)

theorem isOctet_toDigits (n : Fin 256) : isOctet (Nat.toDigits 10 n) = true := by
  revert n
  decide +kernel

/-- Every IPv4 number passes. -/
theorem ipRegex_text (ip : Ipv4) : ipRegex ip.text = true := by
  have hsplit : ip.text.splitOn '.' = [Nat.toDigits 10 ip.a, Nat.toDigits 10 ip.b,
      Nat.toDigits 10 ip.c, Nat.toDigits 10 ip.d] := by
    rw [Ipv4.text, List.splitOn_append_cons_self_of_not_mem toDigits_not_dot,
      List.splitOn_append_cons_self_of_not_mem toDigits_not_dot,
      List.splitOn_append_cons_self_of_not_mem toDigits_not_dot,
      List.splitOn_eq_singleton toDigits_not_dot]
  simp [ipRegex, hsplit, isOctet_toDigits]

/-- A name in front of a dot, split again. -/
theorem splitName_cons {contname : List Char} (h : '.' ∉ contname)
    (hostDomain domain : List Char) :
    splitName hostDomain (contname ++ '.' :: domain) =
      if domain = [] then (contname, hostDomain, contname ++ '.' :: hostDomain)
      else (contname, domain, contname ++ '.' :: domain) := by
  rw [splitName, Stdio.takeWhile_ne_append h, Stdio.dropWhile_ne_append h, List.tail_cons]

theorem takeWhile_not_dot (s : List Char) : '.' ∉ s.takeWhile (· ≠ '.') := fun h =>
  absurd (List.mem_takeWhile_imp h) (by simp)

/-- `FULLNAME` is the name, a dot and the domain. -/
theorem splitName_eq (hostDomain fullname : List Char) :
    ∃ domain, splitName hostDomain fullname = (fullname.takeWhile (· ≠ '.'), domain,
        fullname.takeWhile (· ≠ '.') ++ '.' :: domain) ∧
      (domain = [] → hostDomain = []) ∧ ∀ c ∈ domain, c ∈ hostDomain ∨ c ∈ fullname := by
  rw [splitName]
  by_cases hdomain : (fullname.dropWhile (· ≠ '.')).tail = []
  · exact ⟨hostDomain, if_pos hdomain, id, fun c hc => Or.inl hc⟩
  refine ⟨(fullname.dropWhile (· ≠ '.')).tail, ?_, fun h => absurd h hdomain, fun c hc => ?_⟩
  · -- there is a dot, and it stands in front of the domain
    obtain ⟨x, rest, hdrop⟩ : ∃ x rest, fullname.dropWhile (· ≠ '.') = x :: rest := by
      cases h : fullname.dropWhile (· ≠ '.') with
      | nil => exact absurd (by rw [h]; rfl) hdomain
      | cons x rest => exact ⟨x, rest, rfl⟩
    have hx : x = '.' := by
      have hhead := List.head?_dropWhile_not (fun c => decide (c ≠ '.')) fullname
      rw [hdrop] at hhead
      simpa using hhead
    have hsplit := List.takeWhile_append_dropWhile (p := fun c => decide (c ≠ '.')) (l := fullname)
    rw [if_neg hdomain]
    rw [hdrop, hx] at hsplit
    rw [hdrop, List.tail_cons, hsplit]
  · exact Or.inr ((List.dropWhile_suffix _).subset (List.mem_of_mem_tail hc))

/-! ## Lemmas on the name file -/

/-- The line can be sourced. -/
def NameLine.Plain : NameLine → Prop
  | .comment text => '\n' ∉ text
  | .set var value => isName var = true ∧ ∀ c ∈ value, isPlain c = true ∧ c ≠ '~'
  | .onboot => True

/-- The command of the line. -/
def NameLine.commands : NameLine → List (List Word)
  | .comment _ => []
  | .set var value =>
      [[var.map (fun c => (c, false)) ++ ('=', false) :: value.map fun c => (c, false)]]
  | .onboot => [["ONBOOT=".toList.map (fun c => (c, false)) ++ "No".toList.map fun c => (c, true)]]

/-- The variable that the line sets. -/
def NameLine.given : NameLine → Option (List Char × List Char)
  | .comment _ => none
  | .set var value => some (var, value)
  | .onboot => some ("ONBOOT".toList, "No".toList)

theorem run_nameLine {l : NameLine} (h : l.Plain) (commands : List (List Word)) :
    run Lexer.step (.between commands) (l.text ++ ['\n']) =
      some (.between (commands ++ l.commands)) := by
  rw [run_append_eq_some]
  cases l with
  | comment text =>
      refine ⟨⟨.comment, [], [], commands⟩, ?_, ?_⟩
      · have hhash : (Lexer.between commands).step '#' = some ⟨.comment, [], [], commands⟩ := by
          simp [Lexer.step, Lexer.between, Lexer.unquoted, isBlank]
        have hrun : run Lexer.step ⟨.comment, [], [], commands⟩ text =
            some ⟨.comment, [], [], commands⟩ := run_comment rfl h
        exact run_cons_eq_some.mpr ⟨_, hhash, hrun⟩
      · rw [run_cons, step_newline rfl]
        simp [Lexer.endLine, Lexer.endWord, Lexer.between, NameLine.commands]
  | set var value =>
      refine ⟨_, run_plain_assignment h.1 (fun c hc => (h.2 c hc).1) commands, ?_⟩
      rw [run_cons, step_newline rfl]
      simp [Lexer.endLine, Lexer.endWord, Lexer.between, NameLine.commands]
  | onboot =>
      -- the value is in quotes: its characters are marked as quoted
      have htext : NameLine.onboot.text = ("ONBOOT".toList ++ '=' :: []) ++ "\"No\"".toList := rfl
      have hquoted (t : Lexer) (ht : t.mode = .word) : run Lexer.step t "\"No\"".toList =
          some { t with word := t.word ++ "No".toList.map fun c => (c, true) } := by
        obtain ⟨mode, word, words, commands⟩ := t
        subst ht
        simp [run_cons, Lexer.step, Lexer.unquoted, Lexer.push, isBlank]
      rw [htext]
      refine ⟨_, run_append_eq_some.mpr ⟨_, run_plain_assignment (by decide) (by simp) commands,
        hquoted _ rfl⟩, ?_⟩
      rw [run_cons, step_newline rfl]
      simp [Lexer.endLine, Lexer.endWord, Lexer.between, NameLine.commands]

theorem run_textOfLines {lines : List NameLine} (h : ∀ l ∈ lines, l.Plain)
    (commands : List (List Word)) :
    run Lexer.step (.between commands) (textOfLines lines) =
      some (.between (commands ++ lines.flatMap NameLine.commands)) := by
  induction lines generalizing commands with
  | nil => simp [textOfLines]
  | cons l lines ih =>
      rw [List.forall_mem_cons] at h
      have hcons : textOfLines (l :: lines) = (l.text ++ ['\n']) ++ textOfLines lines := rfl
      rw [hcons, run_append_eq_some]
      exact ⟨_, run_nameLine h.1 commands, by rw [ih h.2, List.flatMap_cons, List.append_assoc]⟩

theorem assignmentsOf_lines {lines : List NameLine} (h : ∀ l ∈ lines, l.Plain) :
    assignmentsOf (lines.flatMap NameLine.commands) = some (lines.filterMap NameLine.given) := by
  induction lines with
  | nil => rfl
  | cons l lines ih =>
      rw [List.forall_mem_cons] at h
      have hrest := ih h.2
      rw [assignmentsOf] at hrest ⊢
      rw [List.flatMap_cons, List.flatten_append, List.filterMap_cons]
      cases l with
      | comment text => exact hrest
      | set var value =>
          -- a tilde without quotes would be expanded
          have htilde : ('~', false) ∉ value.map fun c => (c, false) := by
            intro hmem
            obtain ⟨c, hc, heq⟩ := List.mem_map.mp hmem
            exact (h.1.2 c hc).2 (Prod.mk.inj heq).1
          simp only [NameLine.commands, NameLine.given, List.flatten_cons, List.flatten_nil,
            List.append_nil, List.singleton_append, List.mapM_cons, assignment_eq h.1.1 htilde,
            hrest]
          rfl
      | onboot =>
          have honboot : assignment ("ONBOOT=".toList.map (fun c => (c, false)) ++
              "No".toList.map fun c => (c, true)) = some ("ONBOOT".toList, "No".toList) := by
            decide
          simp only [NameLine.commands, NameLine.given, List.flatten_cons, List.flatten_nil,
            List.append_nil, List.singleton_append, List.mapM_cons, honboot, hrest]
          rfl

/-- Sourcing such lines sets the variables in order. -/
theorem source_textOfLines {lines : List NameLine} (h : ∀ l ∈ lines, l.Plain) (env : Env) :
    source (textOfLines lines) env =
      some ((lines.filterMap NameLine.given).foldl (putVar true) env) := by
  rw [source, commandsOf_eq_some (run_textOfLines h []) rfl, Option.bind_some, endLine_between,
    List.nil_append]
  have hcommands : (Lexer.between (lines.flatMap NameLine.commands)).commands =
      lines.flatMap NameLine.commands := rfl
  rw [hcommands, assignmentsOf_lines h, Option.map_some]

theorem isPlain_of_isHostChar {c : Char} (hc : isHostChar c = true) : isPlain c = true ∧ c ≠ '~' := by
  have hne : ∀ d, isHostChar d = false → c ≠ d := by
    rintro d hd rfl
    exact Bool.noConfusion (hd.symm.trans hc)
  refine ⟨?_, hne '~' (by decide)⟩
  simp only [isPlain, isBlank, isOperator, hne '\n' (by decide), hne ' ' (by decide),
    hne '\t' (by decide), hne '\'' (by decide), hne '"' (by decide), hne '\\' (by decide),
    hne '|' (by decide), hne '&' (by decide), hne ';' (by decide), hne '<' (by decide),
    hne '>' (by decide), hne '(' (by decide), hne ')' (by decide), hne '$' (by decide),
    hne '\x60' (by decide), decide_false, Bool.or_false, Bool.not_false, Bool.and_true,
    ne_eq, not_false_eq_true, decide_true]

end Vzgot.Rebuild
