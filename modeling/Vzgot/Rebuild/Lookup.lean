import Mathlib.Data.List.Nodup
import Vzgot.Library.Sed
import Vzgot.Rebuild.Recreate

/-!
# The container's entry in `vzgot_list`

`shell/vzgot.create` takes the comments and the blank lines out of `vzgot_list`, looks for
the name of the container with `grep $CONTNAME`, and reads `NODE TEMPLATE DISTRIB CPUARCH`
from the words of all lines that `grep` lets through. The name is found anywhere in a
line: in another name, in a template, in a distribution or in an architecture. What is
built is the first such line, and the script aborts when there is none. The name of the
template's file is a pattern in the directory that the script is run in: files that it
matches take its place, and with more than one of them those behind the first come before the
distribution (`create_right_iff`).
-/

set_option autoImplicit false

namespace Vzgot.Rebuild

open Shell

/-! ## The script -/

/-- `sed 's/#.*//g'` on a line. -/
def stripComment (line : List Char) : List Char := line.takeWhile (· ≠ '#')

/-- The lines that `grep $CONTNAME` lets through, without their comments. -/
def matchingLines (contname : List Char) (lines : List (List Char)) : List (List Char) :=
  ((lines.map stripComment).filter fun l => !l.all Stdio.isSpace).filter
    (Sed.occurs (Sed.basic contname))

/-- `ENTRY`: the text between backquotes, without the last newline. -/
def entryOf (contname list : List Char) : List Char :=
  ['\n'].intercalate (matchingLines contname (list.splitOn '\n'))

/-- The variables set by `read`. -/
structure Definition where
  node : List Char
  template : List Char
  distrib : List Char
  cpuarch : List Char

/-- `read -r NODE TEMPLATE DISTRIB CPUARCH` from what `echo $ENTRY` prints: the words of
`ENTRY` with a blank between them. The last variable gets the rest of the line. -/
def readDefinition (entry : List Char) : Definition :=
  let words := wordsOf entry
  { node := words.getD 0 []
    template := words.getD 1 []
    distrib := words.getD 2 []
    cpuarch := [' '].intercalate (words.drop 3) }

/-- What `vzgot.build` makes of its first four arguments. -/
structure Build where
  contname : List Char
  tarfile : List Char
  dist : List Char
  arch : List Char
  deriving DecidableEq

/-- The files that `${TEMPLATE}.tar*` matches; a star does not go over a slash. -/
def tarFiles (files : List (List Char)) (template : List Char) : List (List Char) :=
  let front := template ++ ".tar".toList
  files.filter fun f => front.isPrefixOf f && !(f.drop front.length).contains '/'

/-- What the shell makes of `${TPL}` without quotes: the files it matches, as they stand in the
order of the shell, or the pattern itself when there are none. -/
def expandTar (files : List (List Char)) (template : List Char) : List (List Char) :=
  if tarFiles files template = [] then [template ++ ".tar*".toList] else tarFiles files template

/-- The arguments are `${CONTNAME} ${TPL} ${DISTRIB} ${CPUARCH}`, without quotes; `files` are the
paths from the working directory. `read` has left no blanks in `TEMPLATE`. -/
def buildOf (files : List (List Char)) (contname : List Char) (d : Definition) : Build :=
  let args := wordsOf contname ++ expandTar files d.template ++ wordsOf d.distrib ++ wordsOf d.cpuarch
  ⟨args.getD 0 [], args.getD 1 [], args.getD 2 [], args.getD 3 []⟩

/-- Two files of the template in the directory: the second is given as the distribution. -/
example :
    buildOf ["fedora.tar.gz".toList, "fedora.tar.xz".toList, "src/fedora.tar".toList] "shop".toList
        ⟨"shop".toList, "fedora".toList, "fedora".toList, "x86_64".toList⟩ =
      ⟨"shop".toList, "fedora.tar.gz".toList, "fedora.tar.xz".toList, "fedora".toList⟩ := by
  decide

/-- The name file and the container that are made, or the message of `abort`. -/
inductive Outcome where
  | aborted (message : List Char)
  | built (names : List Char) (container : Build)
  deriving DecidableEq

/-- `IPNUM`; `answer` is what `dig` gives. -/
def Created.ipnum (p : Created) (answer : List Char) : List Char :=
  match p.ip with
  | .dig _ => answer
  | .given ipnum => ipnum

def undefined (contname : List Char) : List Char :=
  "Unable to find \"".toList ++ contname ++ "\" definition within  /etc/vzgot/vzgot_list".toList

def noIpnum (contname : List Char) : List Char :=
  "No IP number found for ".toList ++ contname ++ " hostname".toList

/-- `vzgot.create` from the lookup to the call of `vzgot.build`. -/
def lookup (p : Created) (answer : List Char) (site : Site) (files : List (List Char))
    (list : List Char) : Outcome :=
  let d := readDefinition (entryOf p.contname list)
  if d.node = [] then .aborted (undefined p.contname)
  else if p.ipnum answer = [] then .aborted (noIpnum p.contname)
  else .built (nameFile p site) (buildOf files p.contname d)

/-! ## The file -/

/-- Visible characters that mean nothing to the shell in a variable without quotes, and do
not begin a comment. -/
def isFieldChar (c : Char) : Bool :=
  decide ('!' ≤ c) && decide (c ≤ '~') && c ≠ '#' && c ≠ '*' && c ≠ '?' && c ≠ '[' && c ≠ '\\'

/-- A field of an entry. -/
structure Field where
  text : List Char
  ne_nil : text ≠ []
  chars : ∀ c ∈ text, isFieldChar c = true

/-- `name template distribution architecture`. -/
structure Entry where
  name : Field
  template : Field
  distrib : Field
  cpuarch : Field
  name_head : name.text.head? ≠ some '-'

def Entry.fields (e : Entry) : List (List Char) :=
  [e.name.text, e.template.text, e.distrib.text, e.cpuarch.text]

/-- Blanks, which may be missing. -/
structure Blanks where
  text : List Char
  blank : ∀ c ∈ text, isBlank c = true

/-- The blanks between two fields. -/
structure Gap extends Blanks where
  ne_nil : text ≠ []

/-- A line: the blanks in front, an entry with its gaps, the blanks behind it, and a
comment. Without an entry it is a blank line or a comment. -/
structure ListLine where
  indent : Blanks
  entry : Option (Entry × Gap × Gap × Gap)
  trail : Blanks
  comment : Option (List Char)
  comment_line : ∀ text ∈ comment, '\n' ∉ text

/-- The line without its comment. -/
def ListLine.body (l : ListLine) : List Char :=
  l.indent.text ++
    (match l.entry with
      | none => []
      | some (e, g₁, g₂, g₃) =>
          e.name.text ++ g₁.text ++ e.template.text ++ g₂.text ++ e.distrib.text ++ g₃.text ++
            e.cpuarch.text) ++ l.trail.text

/-- The line as it is written. -/
def ListLine.text (l : ListLine) : List Char :=
  l.body ++ (l.comment.map fun text => '#' :: text).getD []

/-- The entries of some lines, in order. -/
def entriesOf (lines : List ListLine) : List Entry := lines.filterMap fun l => l.entry.map Prod.fst

/-- A file of such lines, with pairwise different names. -/
structure VzgotList where
  lines : List ListLine
  distinct : ((entriesOf lines).map fun e => e.name.text).Nodup

def VzgotList.entries (list : VzgotList) : List Entry := entriesOf list.lines

/-- The lines with newlines between them. -/
def VzgotList.text (list : VzgotList) : List Char :=
  ['\n'].intercalate (list.lines.map ListLine.text)

/-- A host name whose first label begins with a letter, a digit or an underscore. -/
structure ContName extends HostName where
  head_ne_dash : text.head? ≠ some '-'

/-- `CONTNAME` -/
def ContName.label (x : ContName) : List Char := x.text.takeWhile (· ≠ '.')

/-! ## What the lookup is for -/

/-- A container made as the entry says: from a file of its template, with its distribution and
its architecture. -/
structure Entry.Builds (files : List (List Char)) (e : Entry) (b : Build) : Prop where
  contname : b.contname = e.name.text
  tarfile : b.tarfile ∈ expandTar files e.template.text
  dist : b.dist = e.distrib.text
  arch : b.arch = e.cpuarch.text

/-- Once its IP number is known, the container is built as the entry with its name says; and
without such an entry nothing is made. -/
def LooksUp (p : Created) (site : Site) (files : List (List Char)) (list : VzgotList) : Prop :=
  ∀ answer,
    (p.ipnum answer ≠ [] → ∀ e ∈ list.entries, e.name.text = p.contname →
      ∃ b, lookup p answer site files list.text = .built (nameFile p site) b ∧ e.Builds files b) ∧
    ((∀ e ∈ list.entries, e.name.text ≠ p.contname) →
      ∃ message, lookup p answer site files list.text = .aborted message)

/-- The name stands in one of the fields, anywhere. -/
def Entry.mentions (e : Entry) (contname : List Char) : Bool :=
  e.fields.any fun f => decide (contname <:+: f)

/-- The words for the file of the template, the distribution and the architecture. -/
def Entry.words (files : List (List Char)) (e : Entry) : List (List Char) :=
  expandTar files e.template.text ++ [e.distrib.text, e.cpuarch.text]

/-- The first three words of the first entry that has the name anywhere in its fields are a file
of the template, the distribution and the architecture of the entry of this name. -/
def FirstIsRight (files : List (List Char)) (list : VzgotList) (contname : List Char) : Prop :=
  ∀ e₀, list.entries.find? (·.mentions contname) = some e₀ →
    ∃ e ∈ list.entries, e.name.text = contname ∧
      ∃ tarfile ∈ expandTar files e.template.text,
        (e₀.words files).take 3 = [tarfile, e.distrib.text, e.cpuarch.text]

/-! ## Words -/

/-- Character between two words. -/
def isBreak (c : Char) : Bool := c = ' ' || c = '\t' || c = '\n'

section Words

variable {u v w s : List Char} {c : Char}

/-- The words in front of a break, and those behind it. -/
theorem wordsOf_append_cons (hc : isBreak c = true) (u v : List Char) :
    wordsOf (u ++ c :: v) = wordsOf u ++ wordsOf v := by
  have hsplit : (u ++ c :: v).splitOnP isBreak = u.splitOnP isBreak ++ v.splitOnP isBreak :=
    List.splitOnP_append_cons u v hc
  have hwords : ∀ s, wordsOf s = (s.splitOnP isBreak).filter (· ≠ []) := fun _ => rfl
  rw [hwords, hsplit, List.filter_append]
  rfl

theorem wordsOf_word (hne : w ≠ []) (hw : ∀ c ∈ w, isBreak c = false) : wordsOf w = [w] := by
  have hwords : wordsOf w = (w.splitOnP isBreak).filter (· ≠ []) := rfl
  rw [hwords, List.splitOnP_eq_singleton hw]
  simp [hne]

theorem wordsOf_breaks_append (hu : ∀ c ∈ u, isBreak c = true) (v : List Char) :
    wordsOf (u ++ v) = wordsOf v := by
  induction u with
  | nil => rfl
  | cons c u ih =>
      rw [List.forall_mem_cons] at hu
      exact (wordsOf_append_cons hu.1 [] (u ++ v)).trans (ih hu.2)

/-- Words with breaks between them. -/
theorem wordsOf_append_breaks (hne : w ≠ []) (hw : ∀ c ∈ w, isBreak c = true) (u v : List Char) :
    wordsOf (u ++ w ++ v) = wordsOf u ++ wordsOf v := by
  obtain ⟨c, w, rfl⟩ := List.exists_cons_of_ne_nil hne
  rw [List.forall_mem_cons] at hw
  rw [List.append_assoc, List.cons_append, wordsOf_append_cons hw.1, wordsOf_breaks_append hw.2]

/-- A text without breaks is found in a line exactly when it is found in one of its words. -/
theorem infix_iff_words (hne : u ≠ []) (hu : ∀ c ∈ u, isBreak c = false) :
    u <:+: s ↔ ∃ w ∈ wordsOf s, u <:+: w := by
  induction hn : s.length using Nat.strongRecOn generalizing s with
  | ind n ih =>
      by_cases hbreak : ∃ c ∈ s, isBreak c = true
      · obtain ⟨c, hmem, hc⟩ := hbreak
        obtain ⟨x, y, rfl⟩ := List.append_of_mem hmem
        have hsep : c ∉ u := fun h => by simp [hu c h] at hc
        rw [List.length_append, List.length_cons] at hn
        rw [Sed.infix_append_cons_iff hsep, ih x.length (by omega) rfl, ih y.length (by omega) rfl,
          wordsOf_append_cons hc]
        simp only [List.mem_append, or_and_right, exists_or]
      · have hword : ∀ c ∈ s, isBreak c = false :=
          fun c hc => eq_false_of_ne_true fun h => hbreak ⟨c, hc, h⟩
        cases hs : s with
        | nil =>
            have hwords : wordsOf [] = [] := rfl
            simp [hwords, hne]
        | cons c s' =>
            rw [hs] at hword
            rw [wordsOf_word (List.cons_ne_nil c s') hword]
            simp

end Words

/-! ## The lines -/

section Lines

variable {c : Char}

theorem isFieldChar_ne {d : Char} (hc : isFieldChar c = true) (hd : isFieldChar d = false) :
    c ≠ d := by
  rintro rfl
  exact Bool.noConfusion (hd.symm.trans hc)

theorem isBreak_of_isFieldChar (hc : isFieldChar c = true) : isBreak c = false := by
  have hblank : c ≠ ' ' := isFieldChar_ne hc (by decide)
  have htab : c ≠ '\t' := isFieldChar_ne hc (by decide)
  have hnewline : c ≠ '\n' := isFieldChar_ne hc (by decide)
  simp [isBreak, hblank, htab, hnewline]

theorem isSpace_of_isFieldChar (hc : isFieldChar c = true) : Stdio.isSpace c = false := by
  have hne : ∀ d, isFieldChar d = false → decide (c = d) = false :=
    fun d hd => decide_eq_false (isFieldChar_ne hc hd)
  simp only [Stdio.isSpace, hne ' ' (by decide), hne '\t' (by decide), hne '\n' (by decide),
    hne '\x0b' (by decide), hne '\x0c' (by decide), hne '\r' (by decide), Bool.or_false]

theorem isBlank_cases (hc : isBlank c = true) : c = ' ' ∨ c = '\t' := by
  simpa [isBlank] using hc

theorem isBreak_of_isBlank (hc : isBlank c = true) : isBreak c = true := by
  rcases isBlank_cases hc with rfl | rfl <;> rfl

theorem isSpace_of_isBlank (hc : isBlank c = true) : Stdio.isSpace c = true := by
  rcases isBlank_cases hc with rfl | rfl <;> rfl

theorem Field.wordsOf_text (f : Field) : wordsOf f.text = [f.text] :=
  wordsOf_word f.ne_nil fun c hc => isBreak_of_isFieldChar (f.chars c hc)

theorem Blanks.breaks (b : Blanks) : ∀ c ∈ b.text, isBreak c = true :=
  fun c hc => isBreak_of_isBlank (b.blank c hc)

/-- A character of a line is a blank or one of a field. -/
theorem ListLine.body_chars (l : ListLine) :
    ∀ c ∈ l.body, isBlank c = true ∨ isFieldChar c = true := by
  intro c hc
  cases hentry : l.entry with
  | none =>
      simp only [ListLine.body, hentry, List.append_nil, List.mem_append] at hc
      rcases hc with hc | hc
      · exact .inl (l.indent.blank c hc)
      · exact .inl (l.trail.blank c hc)
  | some entry =>
      obtain ⟨e, g₁, g₂, g₃⟩ := entry
      simp only [ListLine.body, hentry, List.mem_append] at hc
      rcases hc with (hc | (((((hc | hc) | hc) | hc) | hc) | hc) | hc) | hc
      · exact .inl (l.indent.blank c hc)
      · exact .inr (e.name.chars c hc)
      · exact .inl (g₁.blank c hc)
      · exact .inr (e.template.chars c hc)
      · exact .inl (g₂.blank c hc)
      · exact .inr (e.distrib.chars c hc)
      · exact .inl (g₃.blank c hc)
      · exact .inr (e.cpuarch.chars c hc)
      · exact .inl (l.trail.blank c hc)

theorem ListLine.not_mem_body (l : ListLine) {d : Char} (hblank : isBlank d = false)
    (hfield : isFieldChar d = false) : d ∉ l.body := by
  intro hd
  rcases l.body_chars d hd with h | h
  · exact Bool.noConfusion (hblank.symm.trans h)
  · exact Bool.noConfusion (hfield.symm.trans h)

theorem ListLine.stripComment_text (l : ListLine) : stripComment l.text = l.body := by
  have hbody : '#' ∉ l.body := l.not_mem_body (by decide) (by decide)
  cases hcomment : l.comment with
  | none =>
      rw [stripComment, ListLine.text, hcomment]
      simp only [Option.map_none, Option.getD_none, List.append_nil]
      exact Stdio.takeWhile_ne_of_not_mem hbody
  | some text =>
      rw [stripComment, ListLine.text, hcomment]
      exact Stdio.takeWhile_ne_append hbody text

theorem ListLine.newline_not_mem (l : ListLine) : '\n' ∉ l.text := by
  rw [ListLine.text, List.mem_append]
  rintro (h | h)
  · exact l.not_mem_body (by decide) (by decide) h
  · cases hcomment : l.comment with
    | none => simp [hcomment] at h
    | some text =>
        have hline := l.comment_line text hcomment
        simp [hcomment, hline] at h

/-- The fields of the line. -/
def ListLine.fields (l : ListLine) : List (List Char) :=
  match l.entry with
  | none => []
  | some (e, _) => e.fields

theorem ListLine.wordsOf_body (l : ListLine) : wordsOf l.body = l.fields := by
  have hnil : wordsOf [] = [] := rfl
  have htrail : ∀ u, wordsOf (u ++ l.trail.text) = wordsOf u := by
    intro u
    cases hblanks : l.trail.text with
    | nil => rw [List.append_nil]
    | cons c b =>
        have hsplit := wordsOf_append_breaks (List.cons_ne_nil c b)
          (fun d hd => l.trail.breaks d (hblanks ▸ hd)) u []
        rwa [List.append_nil, hnil, List.append_nil] at hsplit
  have hgap : ∀ (g : Gap) (u v : List Char), wordsOf (u ++ g.text ++ v) = wordsOf u ++ wordsOf v :=
    fun g => wordsOf_append_breaks g.ne_nil g.toBlanks.breaks
  rw [ListLine.body, htrail, wordsOf_breaks_append l.indent.breaks, ListLine.fields]
  cases l.entry with
  | none => exact hnil
  | some entry =>
      obtain ⟨e, g₁, g₂, g₃⟩ := entry
      simp only [hgap, Field.wordsOf_text, Entry.fields, List.cons_append, List.nil_append]

/-- `grep -v` takes the lines without an entry. -/
theorem ListLine.all_isSpace_body (l : ListLine) : l.body.all Stdio.isSpace = l.entry.isNone := by
  cases hentry : l.entry with
  | none =>
      refine List.all_eq_true.2 fun c hc => ?_
      simp only [ListLine.body, hentry, List.append_nil, List.mem_append] at hc
      rcases hc with hc | hc
      · exact isSpace_of_isBlank (l.indent.blank c hc)
      · exact isSpace_of_isBlank (l.trail.blank c hc)
  | some entry =>
      obtain ⟨e, g₁, g₂, g₃⟩ := entry
      obtain ⟨c, hc⟩ := List.exists_mem_of_ne_nil _ e.name.ne_nil
      have hmem : c ∈ l.body := by simp [ListLine.body, hentry, hc]
      refine List.all_eq_false.2 ⟨c, hmem, ?_⟩
      simp [isSpace_of_isFieldChar (e.name.chars c hc)]

end Lines

/-! ## What is looked up -/

section Lookup

variable {contname : List Char}

/-- What a name of a container is for `grep` and for the shell: a text that is one word. -/
structure Literal (contname : List Char) : Prop where
  ne_nil : contname ≠ []
  no_dot : '.' ∉ contname
  no_break : ∀ c ∈ contname, isBreak c = false

theorem ContName.label_literal (x : ContName) : Literal x.label where
  ne_nil := by
    obtain ⟨c, cs, hcs⟩ := List.exists_cons_of_ne_nil x.ne_nil
    have hdot : c ≠ '.' := by
      rintro rfl
      exact x.head_ne (by rw [hcs]; rfl)
    simp [ContName.label, hcs, hdot]
  no_dot := takeWhile_not_dot x.text
  no_break := by
    intro c hc
    have hhost := x.chars c ((List.takeWhile_prefix _).subset hc)
    have hne : ∀ d, isHostChar d = false → c ≠ d := by
      rintro d hd rfl
      exact Bool.noConfusion (hd.symm.trans hhost)
    simp [isBreak, hne ' ' (by decide), hne '\t' (by decide), hne '\n' (by decide)]

/-- `grep` lets a line through when one of its fields has the name in it. -/
theorem occurs_body (h : Literal contname) (l : ListLine) :
    Sed.occurs (Sed.basic contname) l.body = l.fields.any fun f => decide (contname <:+: f) := by
  rw [Bool.eq_iff_iff, Sed.basic_of_not_mem h.no_dot, Sed.occurs_map_some,
    infix_iff_words h.ne_nil h.no_break, l.wordsOf_body]
  simp

/-- The words that `grep` lets through are the fields of the entries with the name in one of
their fields. -/
theorem wordsOf_matchingLines (h : Literal contname) (lines : List ListLine) :
    (matchingLines contname (lines.map ListLine.text)).flatMap wordsOf =
      ((entriesOf lines).filter (·.mentions contname)).flatMap Entry.fields := by
  induction lines with
  | nil => rfl
  | cons l lines ih =>
      simp only [matchingLines, List.map_cons] at ih ⊢
      rw [l.stripComment_text, List.filter_cons, l.all_isSpace_body]
      cases hentry : l.entry with
      | none => simpa [entriesOf, hentry] using ih
      | some entry =>
          have hentries : entriesOf (l :: lines) = entry.1 :: entriesOf lines := by
            simp [entriesOf, hentry]
          have hfields : l.fields = entry.1.fields := by rw [ListLine.fields, hentry]
          have hoccurs : Sed.occurs (Sed.basic contname) l.body = entry.1.mentions contname := by
            rw [occurs_body h, hfields]
            rfl
          simp only [Option.isNone_some, Bool.not_false, if_true, List.filter_cons, hoccurs, hentries]
          cases entry.1.mentions contname with
          | false => simpa using ih
          | true =>
              simp only [if_true, List.flatMap_cons, l.wordsOf_body, hfields, ih]

theorem wordsOf_intercalate (ls : List (List Char)) :
    wordsOf (['\n'].intercalate ls) = ls.flatMap wordsOf := by
  induction ls with
  | nil => rfl
  | cons l ls ih =>
      cases ls with
      | nil => simp
      | cons l' ls =>
          rw [List.intercalate_cons_cons, List.append_assoc, List.singleton_append,
            wordsOf_append_cons rfl, ih]
          rfl

theorem VzgotList.splitOn_text (list : VzgotList) (hne : list.lines ≠ []) :
    list.text.splitOn '\n' = list.lines.map ListLine.text := by
  refine List.splitOn_intercalate '\n' ?_ (by simpa using hne)
  intro t ht
  obtain ⟨l, -, rfl⟩ := List.mem_map.1 ht
  exact l.newline_not_mem

theorem wordsOf_entryOf (h : Literal contname) (list : VzgotList) :
    wordsOf (entryOf contname list.text) =
      (list.entries.filter (·.mentions contname)).flatMap Entry.fields := by
  rw [entryOf, wordsOf_intercalate]
  by_cases hlines : list.lines = []
  · have hempty : list.text = [] := by rw [VzgotList.text, hlines]; rfl
    rw [hempty, VzgotList.entries, hlines]
    rfl
  · rw [list.splitOn_text hlines, wordsOf_matchingLines h]
    rfl

/-- The variable for the architecture begins with the word that was read first. -/
theorem wordsOf_rest (f : Field) (ws : List (List Char)) :
    ∃ more, wordsOf ([' '].intercalate (f.text :: ws)) = f.text :: more := by
  cases ws with
  | nil => exact ⟨[], by rw [List.intercalate_singleton, f.wordsOf_text]⟩
  | cons w ws =>
      refine ⟨wordsOf ([' '].intercalate (w :: ws)), ?_⟩
      rw [List.intercalate_cons_cons, List.append_assoc, List.singleton_append,
        wordsOf_append_cons rfl, f.wordsOf_text]
      rfl

theorem expandTar_ne_nil (files : List (List Char)) (template : List Char) :
    expandTar files template ≠ [] := by
  unfold expandTar
  split
  · exact List.cons_ne_nil _ _
  · assumption

/-- What `vzgot.build` is given when the first entry that was read is this one. -/
def Entry.buildAs (e : Entry) (files : List (List Char)) (contname : List Char) : Build :=
  let words := e.words files
  ⟨contname, words.getD 0 [], words.getD 1 [], words.getD 2 []⟩

/-- There are three words at least, so nothing behind the architecture is used. -/
theorem Entry.words_eq (e : Entry) (files : List (List Char)) :
    ∃ tarfile dist arch rest, e.words files = tarfile :: dist :: arch :: rest := by
  obtain ⟨tarfile, tars, htars⟩ := List.exists_cons_of_ne_nil (expandTar_ne_nil files e.template.text)
  rw [Entry.words, htars]
  match tars with
  | [] => exact ⟨tarfile, _, _, _, rfl⟩
  | [dist] => exact ⟨tarfile, dist, _, _, rfl⟩
  | dist :: arch :: rest => exact ⟨tarfile, dist, arch, _, rfl⟩

/-- The outcome is that of the first entry that has the name in one of its fields. -/
theorem lookup_eq {p : Created} (h : Literal p.contname) (answer : List Char) (site : Site)
    (files : List (List Char)) (list : VzgotList) :
    lookup p answer site files list.text =
      match list.entries.find? (·.mentions p.contname) with
      | none => .aborted (undefined p.contname)
      | some e₀ =>
          if p.ipnum answer = [] then .aborted (noIpnum p.contname)
          else .built (nameFile p site) (e₀.buildAs files p.contname) := by
  have hwords := wordsOf_entryOf h list
  rw [← List.head?_filter]
  cases hfilter : list.entries.filter (·.mentions p.contname) with
  | nil =>
      rw [hfilter] at hwords
      have hnode : (readDefinition (entryOf p.contname list.text)).node = [] := by
        rw [readDefinition, hwords]
        rfl
      rw [lookup, if_pos hnode]
      rfl
  | cons e₀ rest =>
      rw [hfilter, List.flatMap_cons] at hwords
      have hread : readDefinition (entryOf p.contname list.text) =
          ⟨e₀.name.text, e₀.template.text, e₀.distrib.text,
            [' '].intercalate (e₀.cpuarch.text :: rest.flatMap Entry.fields)⟩ := by
        rw [readDefinition, hwords]
        rfl
      obtain ⟨more, hmore⟩ := wordsOf_rest e₀.cpuarch (rest.flatMap Entry.fields)
      obtain ⟨tarfile, dist, arch, tail, hargs⟩ := e₀.words_eq files
      have hbuild : buildOf files p.contname (readDefinition (entryOf p.contname list.text)) =
          e₀.buildAs files p.contname := by
        have hjoined : expandTar files e₀.template.text ++
            (e₀.distrib.text :: e₀.cpuarch.text :: more) = e₀.words files ++ more := by
          simp [Entry.words]
        rw [hread, buildOf, Entry.buildAs, wordsOf_word h.ne_nil h.no_break, e₀.distrib.wordsOf_text,
          hmore]
        simp only [List.append_assoc, List.cons_append, List.nil_append, hjoined, hargs]
        rfl
      rw [lookup, hbuild, hread, if_neg e₀.name.ne_nil]
      rfl

theorem Entry.mentions_self (e : Entry) : e.mentions e.name.text = true := by
  simp [Entry.mentions, Entry.fields]

/-- What is built for the first entry is what another entry says. -/
theorem Entry.builds_buildAs {files : List (List Char)} {e e₀ : Entry} {contname : List Char}
    (hname : e.name.text = contname) :
    e.Builds files (e₀.buildAs files contname) ↔
      ∃ tarfile ∈ expandTar files e.template.text,
        (e₀.words files).take 3 = [tarfile, e.distrib.text, e.cpuarch.text] := by
  obtain ⟨tarfile, dist, arch, rest, hwords⟩ := e₀.words_eq files
  have hbuild : e₀.buildAs files contname = ⟨contname, tarfile, dist, arch⟩ := by
    rw [Entry.buildAs, hwords]
    rfl
  rw [hbuild, hwords]
  constructor
  · rintro ⟨-, htar, rfl, rfl⟩
    exact ⟨tarfile, htar, rfl⟩
  · rintro ⟨w, htar, hsame⟩
    simp only [List.take_succ_cons, List.take_zero, List.cons.injEq, and_true] at hsame
    obtain ⟨rfl, rfl, rfl⟩ := hsame
    exact ⟨hname.symm, htar, rfl, rfl⟩

/-- Only one entry has the name. -/
theorem VzgotList.eq_of_name (list : VzgotList) {e e' : Entry} (he : e ∈ list.entries)
    (he' : e' ∈ list.entries) (hname : e.name.text = e'.name.text) : e = e' :=
  List.inj_on_of_nodup_map list.distinct he he' hname

theorem looksUp_iff {p : Created} (h : Literal p.contname) (hip : p.ip ≠ .given []) (site : Site)
    (files : List (List Char)) (list : VzgotList) :
    LooksUp p site files list ↔ FirstIsRight files list p.contname := by
  constructor
  · intro hlook e₀ hfirst
    -- an answer of `dig` with which the script goes on
    have hipnum : p.ipnum ['1'] ≠ [] := by
      cases hsource : p.ip with
      | dig host => simp [Created.ipnum, hsource]
      | given ipnum =>
          rw [Created.ipnum, hsource]
          rintro rfl
          exact hip hsource
    have houtcome := lookup_eq h ['1'] site files list
    simp only [hfirst, if_neg hipnum] at houtcome
    obtain ⟨hbuilt, haborted⟩ := hlook ['1']
    by_cases hentry : ∃ e ∈ list.entries, e.name.text = p.contname
    · obtain ⟨e, he, hname⟩ := hentry
      obtain ⟨b, hlookup, hbuilds⟩ := hbuilt hipnum e he hname
      have hsame := houtcome.symm.trans hlookup
      injection hsame with _ hbuild
      exact ⟨e, he, hname, (Entry.builds_buildAs hname).1 (hbuild ▸ hbuilds)⟩
    · obtain ⟨message, hmessage⟩ := haborted fun e he hname => hentry ⟨e, he, hname⟩
      rw [houtcome] at hmessage
      cases hmessage
  · intro hright answer
    have houtcome := lookup_eq h answer site files list
    constructor
    · intro hipnum e he hname
      cases hfirst : list.entries.find? (·.mentions p.contname) with
      | none =>
          have hmiss := List.find?_eq_none.1 hfirst e he
          exact absurd (hname ▸ e.mentions_self) hmiss
      | some e₀ =>
          obtain ⟨e', he', hname', hfields⟩ := hright e₀ hfirst
          obtain rfl := list.eq_of_name he he' (hname.trans hname'.symm)
          simp only [hfirst, if_neg hipnum] at houtcome
          exact ⟨_, houtcome, (Entry.builds_buildAs hname).2 hfields⟩
    · intro hnone
      cases hfirst : list.entries.find? (·.mentions p.contname) with
      | none =>
          rw [hfirst] at houtcome
          exact ⟨_, houtcome⟩
      | some e₀ =>
          obtain ⟨e, he, hname, -⟩ := hright e₀ hfirst
          exact absurd hname (hnone e he)

end Lookup

/-- `vzgot.create` builds a container as the entry of its name in `vzgot_list` says, and makes
nothing without such an entry, exactly when the first entry that has the name anywhere in its
fields gives the words of the entry of the name. -/
theorem create_right_iff (x : ContName) (ip : Option Ipv4) (hostDomain : Domain) (site : Site)
    (files : List (List Char)) (list : VzgotList) :
    ∃ p, vzgotCreate hostDomain.text (createArgs x.toHostName ip) = some p ∧
      p.contname = x.label ∧ (LooksUp p site files list ↔ FirstIsRight files list x.label) := by
  obtain ⟨domain, -, -, hcreate⟩ := vzgotCreate_args x.toHostName ip hostDomain
  refine ⟨_, hcreate, ?_⟩
  cases ip with
  | none => exact ⟨rfl, looksUp_iff x.label_literal IpSource.noConfusion site files list⟩
  | some ip =>
      have hne : ip.text ≠ [] := List.append_ne_nil_of_left_ne_nil Nat.toDigits_ne_nil _
      refine ⟨rfl, looksUp_iff x.label_literal (fun hgiven => ?_) site files list⟩
      exact hne (IpSource.given.inj hgiven)

/-! ## Two containers -/

/-- An entry with a tab in front of its fields, between them and behind them. -/
def entryLine (e : Entry) : ListLine :=
  let tab : Gap := ⟨⟨['\t'], List.all_eq_true.1 (by decide)⟩, by decide⟩
  ⟨tab.toBlanks, some (e, tab, tab, tab), tab.toBlanks, none, fun _ hc => by cases hc⟩

def shop2Entry : Entry where
  name := ⟨"shop2".toList, by decide, List.all_eq_true.1 (by decide)⟩
  template := ⟨"fedora-20260714".toList, by decide, List.all_eq_true.1 (by decide)⟩
  distrib := ⟨"fedora".toList, by decide, List.all_eq_true.1 (by decide)⟩
  cpuarch := ⟨"x86_64".toList, by decide, List.all_eq_true.1 (by decide)⟩
  name_head := by decide

def shopEntry : Entry where
  name := ⟨"shop".toList, by decide, List.all_eq_true.1 (by decide)⟩
  template := ⟨"alpine-3.24".toList, by decide, List.all_eq_true.1 (by decide)⟩
  distrib := ⟨"alpine".toList, by decide, List.all_eq_true.1 (by decide)⟩
  cpuarch := ⟨"x86_64".toList, by decide, List.all_eq_true.1 (by decide)⟩
  name_head := by decide

/-- `shop2` stands in front of `shop`. -/
def shop2First : VzgotList := ⟨[entryLine shop2Entry, entryLine shopEntry], by decide⟩

/-- `shop.example.org` -/
def shopHost : ContName :=
  ⟨⟨"shop.example.org".toList, by decide, by decide, List.all_eq_true.1 (by decide)⟩, by decide⟩

/-- `shop.example.org` is built from the template of `shop2`. -/
theorem create_wrong_template :
    ∃ p, vzgotCreate exampleDomain.text (createArgs shopHost.toHostName none) = some p ∧
      lookup p "192.168.1.5".toList plainSite [] shop2First.text =
        .built (nameFile p plainSite)
          ⟨"shop".toList, "fedora-20260714.tar*".toList, "fedora".toList, "x86_64".toList⟩ ∧
        ¬ LooksUp p plainSite [] shop2First := by
  let p : Created :=
    ⟨"shop".toList, "example.org".toList, shopHost.text, .dig "shop.example.org".toList⟩
  have hname : Literal p.contname := shopHost.label_literal
  have hlookup : lookup p "192.168.1.5".toList plainSite [] shop2First.text =
      .built (nameFile p plainSite)
        ⟨"shop".toList, "fedora-20260714.tar*".toList, "fedora".toList, "x86_64".toList⟩ := by
    rw [lookup_eq hname]
    rfl
  refine ⟨p, by decide, hlookup, fun hright => ?_⟩
  obtain ⟨b, hbuilt, hbuilds⟩ := (hright "192.168.1.5".toList).1 (by decide) shopEntry
    (List.mem_cons_of_mem _ List.mem_cons_self) rfl
  rw [hlookup] at hbuilt
  injection hbuilt with _ hbuild
  rw [← hbuild] at hbuilds
  exact absurd hbuilds.dist (by decide)

end Vzgot.Rebuild
