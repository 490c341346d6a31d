import Vzgot.Rebuild.Create

/-!
# What `vzgot.rebuild` gives to `vzgot create`

`rebuild` of `shell/vzgot.rebuild` sources the name file of a container, takes the
container away, and calls `vzgot create $FULLNAME`. Without an IP number, `FULLNAME` is the
name of the container with its domain, and `vzgot.create` makes the same container of it.
With one, `FULLNAME` is the number: the new container is called like its first octet, and
`dig` is asked for its number (`rebuild_recreates_iff`). The old one is gone by then.
-/

set_option autoImplicit false

namespace Vzgot.Rebuild

open Vzgot.Config Vzgot.Shell

/-! ## The script -/

/-- Commands of `vzgot` that the script calls. -/
inductive Command where
  | shutdown (contname : List Char)
  | freeze (contname : List Char)
  | destroy (contname : List Char)
  | create (args : List (List Char))
  | boot (contname : List Char)
  deriving DecidableEq

/-- What the script finds: whether `vzgot_config` is there, the variables behind sourcing
it, the text of the name file, whether the lock file is taken, and whether `first.pid` and
the directory of the container are there. -/
structure Found where
  config : Bool
  env : Env
  names : Option (List Char)
  locked : Bool
  firstPid : Bool
  directory : Bool

/-- The words of a variable without quotes. -/
def wordsOf (v : List Char) : List (List Char) :=
  (v.splitOnP fun c => c = ' ' || c = '\t' || c = '\n').filter (· ≠ [])

/-- `rebuild`: the commands that it calls. The programs that it may run before, and the
waiting for `first.pid`, change none of its variables. A name file of anything else than
assignments has no value here. -/
def rebuild (y : Found) (contname : List Char) : Option (List Command) :=
  if y.config = false then some []
  else
    match y.names with
    | none => some []
    | some text => (source text y.env).map fun env =>
        let fullname := wordsOf ((env "FULLNAME".toList).getD [])
        let homefs := (env "HOMEFS".toList).getD []
        if fullname = [] ∨ homefs = [] ∨ y.locked then []
        else
          (if y.firstPid then [.shutdown contname] else []) ++
            (if y.directory then [.freeze contname, .destroy contname] else []) ++
              [.create fullname, .boot contname]

/-- Among the commands is a `vzgot create` that makes a container of the same name, with
its IP number from the same source. -/
def Recreates (hostDomain : Domain) (p : Created) (commands : Option (List Command)) : Prop :=
  ∃ l args q, commands = some l ∧ Command.create args ∈ l ∧
    vzgotCreate hostDomain.text args = some q ∧ q.contname = p.contname ∧ q.ip = p.ip

/-- Arguments of `vzgot create X` and of `vzgot create X ip`. -/
def createArgs (x : HostName) (ip : Option Ipv4) : List (List Char) :=
  x.text :: (ip.map Ipv4.text).toList

/-! ## The name file read again -/

/-- What the name file of a created container needs to be read again. -/
structure Created.Plain (p : Created) : Prop where
  contname : ∀ c ∈ p.contname, isPlain c = true ∧ c ≠ '~'
  fullname : ∀ c ∈ p.fullname, isPlain c = true ∧ c ≠ '~'

section NameFile

variable {p : Created} (hp : p.Plain) (site : Site)
include hp

theorem nameLines_plain : ∀ l ∈ nameLines p site, l.Plain := by
  have hcomment : NameLine.Plain (.comment
      ("vzgot site '".toList ++ p.contname ++ "' generation date:".toList ++ site.date)) := by
    simp only [NameLine.Plain, List.mem_append, not_or]
    refine ⟨⟨⟨by decide, fun h => ?_⟩, by decide⟩, site.date_line⟩
    exact absurd (hp.contname _ h).1 (by decide)
  have hhome : ∀ c ∈ site.vzdir.text ++ '/' :: p.contname, isPlain c = true ∧ c ≠ '~' := by
    intro c hc
    rcases List.mem_append.mp hc with hc | hc
    · exact site.vzdir.plain c hc
    · rcases List.mem_cons.mp hc with rfl | hc
      · decide
      · exact hp.contname c hc
  have hrule : rule.Plain := by
    simp only [NameLine.Plain, rule]
    decide
  simp only [nameLines, List.forall_mem_cons]
  refine ⟨hrule, hcomment, hrule, ⟨by decide, hp.contname⟩, ⟨by decide, hp.fullname⟩, hrule, ?_,
    trivial, ⟨by decide, hhome⟩, ⟨by decide, site.onlinetpl.plain⟩, hrule, ?_,
    ⟨by decide, site.privileged.plain⟩, hrule, ?_, ⟨by decide, site.cpuweight.plain⟩,
    ⟨by decide, site.memmax.plain⟩, ⟨by decide, site.swapmax.plain⟩,
    ⟨by decide, site.pidmax.plain⟩, ⟨by decide, site.pwrcpu.plain⟩,
    ⟨by decide, site.maxcpu.plain⟩, ⟨by decide, site.numcpu.plain⟩, hrule, fun _ h => nomatch h⟩
  · simp only [NameLine.Plain]
    decide
  · simp only [NameLine.Plain]
    decide
  · simp only [NameLine.Plain]
    decide

/-- The shell reads `FULLNAME` and `HOMEFS` as they were written. -/
theorem source_nameFile (env : Env) :
    ∃ env', source (nameFile p site) env = some env' ∧
      env' "FULLNAME".toList = some p.fullname ∧
        env' "HOMEFS".toList = some (site.vzdir.text ++ '/' :: p.contname) := by
  refine ⟨_, source_textOfLines (nameLines_plain hp site) env, ?_, ?_⟩
  · rw [foldl_putVar]
    rfl
  · rw [foldl_putVar]
    rfl

/-- The script goes on to `vzgot create` with `FULLNAME` as its only argument. -/
theorem rebuild_nameFile {y : Found} (hconfig : y.config = true) (hlock : y.locked = false)
    (hnames : y.names = some (nameFile p site)) (hne : p.fullname ≠ []) :
    ∃ before, rebuild y p.contname =
        some (before ++ [.create [p.fullname], .boot p.contname]) ∧
      ∀ args, Command.create args ∉ before := by
  obtain ⟨env, hsource, hfullname, hhomefs⟩ := source_nameFile hp site y.env
  -- `FULLNAME` stands without quotes in the script, but it is one word
  have hwords : wordsOf p.fullname = [p.fullname] := by
    have hblank : ∀ c ∈ p.fullname, (decide (c = ' ') || decide (c = '\t') || decide (c = '\n')) = false := by
      intro c hc
      have hplain := (hp.fullname c hc).1
      simp only [isPlain, isBlank, Bool.and_eq_true, Bool.not_eq_true', Bool.or_eq_false_iff,
        decide_eq_true_eq, decide_eq_false_iff_not] at hplain
      simp [hplain.1.1.1.1.1, hplain.1.1.1.1.2]
    rw [wordsOf, List.splitOnP_eq_singleton hblank]
    simp [hne]
  refine ⟨(if y.firstPid then [.shutdown p.contname] else []) ++
    (if y.directory then [.freeze p.contname, .destroy p.contname] else []), ?_, fun args h => ?_⟩
  · have hgo : ¬([p.fullname] = [] ∨ site.vzdir.text ++ '/' :: p.contname = [] ∨ y.locked = true) := by
      simp [hlock]
    rw [rebuild, if_neg (by simp [hconfig]), hnames]
    simp only [hsource, Option.map_some, hfullname, hhomefs, Option.getD_some, hwords, if_neg hgo]
  · cases hpid : y.firstPid <;> cases hdir : y.directory <;> simp [hpid, hdir] at h

/-- It comes down to what `vzgot create` makes of `FULLNAME` alone. -/
theorem recreates_iff_create {y : Found} (hconfig : y.config = true) (hlock : y.locked = false)
    (hnames : y.names = some (nameFile p site)) (hne : p.fullname ≠ []) (hostDomain : Domain) :
    Recreates hostDomain p (rebuild y p.contname) ↔
      ∃ q, vzgotCreate hostDomain.text [p.fullname] = some q ∧ q.contname = p.contname ∧
        q.ip = p.ip := by
  obtain ⟨before, hrebuild, hbefore⟩ := rebuild_nameFile hp site hconfig hlock hnames hne
  constructor
  · rintro ⟨l, args, q, hl, hmem, hq⟩
    obtain rfl := Option.some.inj (hrebuild.symm.trans hl)
    have hargs : args = [p.fullname] := by
      rcases List.mem_append.mp hmem with h | h
      · exact absurd h (hbefore args)
      · simpa using h
    exact ⟨q, hargs ▸ hq⟩
  · rintro ⟨q, hq⟩
    exact ⟨_, _, q, hrebuild, List.mem_append_right _ List.mem_cons_self, hq⟩

end NameFile

/-! ## The same container again -/

theorem isHostChar_of_mem_takeWhile {s : List Char} (h : ∀ c ∈ s, isHostChar c = true) :
    ∀ c ∈ s.takeWhile (· ≠ '.'), isHostChar c = true :=
  fun c hc => h c ((List.takeWhile_prefix _).subset hc)

theorem Ipv4.text_isHostChar (ip : Ipv4) : ∀ c ∈ ip.text, isHostChar c = true := by
  have hdigit (n : Nat) : ∀ c ∈ Nat.toDigits 10 n, isHostChar c = true := by
    intro c hc
    have h := Nat.isDigit_of_mem_toDigits (by decide) (by decide) hc
    simp [isHostChar, Char.isAlphanum, h]
  intro c hc
  simp only [Ipv4.text, List.mem_append, List.mem_cons] at hc
  rcases hc with h | rfl | h | rfl | h | rfl | h
  · exact hdigit _ c h
  · rfl
  · exact hdigit _ c h
  · rfl
  · exact hdigit _ c h
  · rfl
  · exact hdigit _ c h

/-- What `vzgot create X` and `vzgot create X ip` come to. -/
theorem vzgotCreate_args (x : HostName) (ip : Option Ipv4) (hostDomain : Domain) :
    ∃ domain, (domain = [] → hostDomain.text = []) ∧ (∀ c ∈ domain, isHostChar c = true) ∧
      vzgotCreate hostDomain.text (createArgs x ip) =
        some (match ip with
          | none => ⟨x.text.takeWhile (· ≠ '.'), domain, x.text.takeWhile (· ≠ '.') ++ '.' :: domain,
              .dig (x.text.takeWhile (· ≠ '.') ++ '.' :: domain)⟩
          | some ip => ⟨x.text.takeWhile (· ≠ '.'), domain, ip.text, .given ip.text⟩) := by
  obtain ⟨domain, hsplit, hempty, hmem⟩ := splitName_eq hostDomain.text x.text
  have hchars : ∀ c ∈ domain, isHostChar c = true := fun c hc =>
    (hmem c hc).elim (hostDomain.chars c) (x.chars c)
  refine ⟨domain, hempty, hchars, ?_⟩
  cases ip with
  | none => simp [vzgotCreate, createArgs, x.ne_nil, hsplit]
  | some ip =>
      have hne : ip.text ≠ [] := List.append_ne_nil_of_left_ne_nil Nat.toDigits_ne_nil _
      simp [vzgotCreate, createArgs, x.ne_nil, hsplit, hne, ipRegex_text]

/-- A name with its domain is split into the same parts again. -/
theorem vzgotCreate_fullname {contname domain : List Char} (hdot : '.' ∉ contname)
    (hostDomain : List Char) (hempty : domain = [] → hostDomain = []) :
    vzgotCreate hostDomain [contname ++ '.' :: domain] =
      some ⟨contname, domain, contname ++ '.' :: domain, .dig (contname ++ '.' :: domain)⟩ := by
  have hne : contname ++ '.' :: domain ≠ [] := List.append_ne_nil_of_right_ne_nil _ (List.cons_ne_nil _ _)
  have hsplit : splitName hostDomain (contname ++ '.' :: domain) =
      (contname, domain, contname ++ '.' :: domain) := by
    rw [splitName_cons hdot]
    by_cases hdomain : domain = []
    · rw [if_pos hdomain, hempty hdomain, hdomain]
    · rw [if_neg hdomain]
  simp [vzgotCreate, hne, hsplit]

/-- One argument never gives an IP number. -/
theorem vzgotCreate_one {hostDomain arg : List Char} {q : Created}
    (h : vzgotCreate hostDomain [arg] = some q) (ipnum : List Char) : q.ip ≠ .given ipnum := by
  rw [vzgotCreate] at h
  split_ifs at h with harg
  simp only [List.head?_nil, Option.getD_none, if_true, Option.some.injEq] at h
  rw [← h]
  exact IpSource.noConfusion

/-- `vzgot rebuild` recreates a container just when it was created without an IP number. -/
theorem rebuild_recreates_iff (x : HostName) (ip : Option Ipv4) (hostDomain : Domain)
    (site : Site) (y : Found) (hconfig : y.config = true) (hlock : y.locked = false) :
    ∃ p, vzgotCreate hostDomain.text (createArgs x ip) = some p ∧
      (Recreates hostDomain p (rebuild { y with names := some (nameFile p site) } p.contname) ↔
        ip = none) := by
  obtain ⟨domain, hempty, hdomain, hcreate⟩ := vzgotCreate_args x ip hostDomain
  have hcont := isHostChar_of_mem_takeWhile x.chars
  have hdot := takeWhile_not_dot x.text
  generalize x.text.takeWhile (· ≠ '.') = contname at hcreate hcont hdot
  have hplain {s : List Char} (h : ∀ c ∈ s, isHostChar c = true) :
      ∀ c ∈ s, isPlain c = true ∧ c ≠ '~' := fun c hc => isPlain_of_isHostChar (h c hc)
  have hfullname : ∀ c ∈ contname ++ '.' :: domain, isHostChar c = true := by
    intro c hc
    rcases List.mem_append.mp hc with h | h
    · exact hcont c h
    · rcases List.mem_cons.mp h with rfl | h
      · rfl
      · exact hdomain c h
  cases ip with
  | none =>
      -- `FULLNAME` is a name with its domain, which is split into the same parts
      let p : Created :=
        ⟨contname, domain, contname ++ '.' :: domain, .dig (contname ++ '.' :: domain)⟩
      have hne : p.fullname ≠ [] := List.append_ne_nil_of_right_ne_nil _ (List.cons_ne_nil _ _)
      refine ⟨p, hcreate, iff_of_true ?_ rfl⟩
      exact (recreates_iff_create ⟨hplain hcont, hplain hfullname⟩ site
        (y := { y with names := some (nameFile p site) }) hconfig hlock rfl hne hostDomain).mpr
          ⟨p, vzgotCreate_fullname hdot _ hempty, rfl, rfl⟩
  | some ip =>
      -- `FULLNAME` is the IP number, which is taken for a name
      let p : Created := ⟨contname, domain, ip.text, .given ip.text⟩
      have hne : p.fullname ≠ [] := List.append_ne_nil_of_left_ne_nil Nat.toDigits_ne_nil _
      refine ⟨p, hcreate, iff_of_false ?_ (Option.some_ne_none ip)⟩
      rw [recreates_iff_create ⟨hplain hcont, hplain ip.text_isHostChar⟩ site
        (y := { y with names := some (nameFile p site) }) hconfig hlock rfl hne]
      rintro ⟨q, hq, -, hip⟩
      exact vzgotCreate_one hq _ hip

/-! ## One container -/

/-- The settings of the configuration that comes with the program. -/
def plainSite : Site :=
  let setting (s : String) (h : s.toList.all (fun c => isPlain c && c ≠ '~') = true) : Setting :=
    ⟨s.toList, fun c hc => by simpa using List.all_eq_true.mp h c hc⟩
  { date := "Thu Jan  1 00:00:00 UTC 2026".toList
    date_line := by decide
    vzdir := setting "/vzgot/test" (by decide)
    onlinetpl := setting "online.tpl" (by decide)
    privileged := setting "NO" (by decide)
    cpuweight := setting "10000" (by decide)
    memmax := setting "100.0" (by decide)
    swapmax := setting "100.0" (by decide)
    pidmax := setting "100.0" (by decide)
    pwrcpu := setting "95.0" (by decide)
    maxcpu := setting "95.0" (by decide)
    numcpu := setting "100.0" (by decide) }

/-- `web.example.org` -/
def webHost : HostName :=
  ⟨"web.example.org".toList, by decide, by decide, List.all_eq_true.mp (by decide)⟩

/-- `example.org` -/
def exampleDomain : Domain := ⟨"example.org".toList, List.all_eq_true.mp (by decide)⟩

/-- A host on which nothing runs. -/
def idleFound : Found := ⟨true, fun _ => none, none, false, false, true⟩

theorem rebuild_recreates_web :
    ∃ p, vzgotCreate exampleDomain.text (createArgs webHost none) = some p ∧
      (Recreates exampleDomain p
        (rebuild { idleFound with names := some (nameFile p plainSite) } p.contname) ↔
          (none : Option Ipv4) = none) :=
  rebuild_recreates_iff webHost none exampleDomain plainSite idleFound rfl rfl

/-- `web` with the number 10.0.0.5 comes back as `10`, and `dig` is asked for its number. -/
theorem rebuild_recreates_other :
    ∃ p q, vzgotCreate exampleDomain.text (createArgs webHost (some ⟨10, 0, 0, 5⟩)) = some p ∧
      p.contname = "web".toList ∧ p.ip = .given "10.0.0.5".toList ∧
        vzgotCreate exampleDomain.text [p.fullname] = some q ∧ q.contname = "10".toList ∧
          q.ip = .dig "10.0.0.5".toList ∧
            ¬Recreates exampleDomain p
              (rebuild { idleFound with names := some (nameFile p plainSite) } p.contname) := by
  let p : Created :=
    ⟨"web".toList, "example.org".toList, "10.0.0.5".toList, .given "10.0.0.5".toList⟩
  let q : Created :=
    ⟨"10".toList, "0.0.5".toList, "10.0.0.5".toList, .dig "10.0.0.5".toList⟩
  have hq : vzgotCreate exampleDomain.text [p.fullname] = some q := by decide
  have hplain : p.Plain :=
    ⟨fun c hc => isPlain_of_isHostChar (List.all_eq_true.mp (by decide) c hc),
      fun c hc => isPlain_of_isHostChar (List.all_eq_true.mp (by decide) c hc)⟩
  refine ⟨p, q, by decide, rfl, rfl, hq, rfl, rfl, ?_⟩
  rw [recreates_iff_create hplain plainSite
    (y := { idleFound with names := some (nameFile p plainSite) }) rfl rfl rfl (by decide)]
  rintro ⟨r, hr, hcont, -⟩
  obtain rfl := Option.some.inj (hq.symm.trans hr)
  exact absurd hcont (by decide)

end Vzgot.Rebuild
