import Vzgot.Online.Bounds

/-!
# Lines of the display

A line of the template is a text in front of its keys, and for each key `$NAME:` the text
up to the next one. `cfg_update_online` (`lib/unicfg.c`) works on one array and begins its
search again where it has put a value; between that place and the next key there is no
other key (`adjustKeys_layout`). Each key gives way to its value, and a value that is
longer than its key takes the place of what stands behind the key.
-/

set_option autoImplicit false

namespace Vzgot.Online

open Vzgot.Stdio Vzgot.Buffer

/-- A key of a line, its formatted value, and the text up to the next key. -/
structure Key where
  name : List Char
  value : List Char
  gap : List Char

/-- `$NAME:` -/
def Key.text (k : Key) : List Char := '$' :: (k.name ++ [':'])

/-- The key in the template. -/
def Key.whole (k : Key) : List Char := k.text ++ k.gap

/-- The key in the line that is stored: its value, and what the value does not cover. -/
def Key.put (k : Key) : List Char := k.value ++ k.gap.drop (k.value.length - k.text.length)

section Layout

variable (printf : List Char → Argument → List Char) (st : Content) (tpl : Tpl)

/-- The formatted value of a name that the template declares. -/
def formatted (name : List Char) : Option (List Char) :=
  (lookup name).bind fun code => (tpl.variable code).bind fun var =>
    (argument st var.code).map (printf var.format)

/-- The template declares the key, its value has at most fifty-nine characters, and there
is no other key in the value and behind it. -/
structure Key.Regular (k : Key) : Prop where
  formatted_eq : formatted printf st tpl k.name = some k.value
  length_pos : 0 < k.value.length
  length_le : k.value.length ≤ 59
  dollar_value : '$' ∉ k.value
  nul_value : '\x00' ∉ k.value
  dollar_gap : '$' ∉ k.gap
  nul_gap : '\x00' ∉ k.gap

end Layout

/-! ## One key -/

section OneKey

variable {printf : List Char → Argument → List Char} {st : Content} {tpl : Tpl} {k : Key}

theorem Key.text_length (k : Key) : k.text.length = k.name.length + 2 := by
  simp [Key.text]

theorem Key.Regular.lookup (hk : k.Regular printf st tpl) : ∃ code, lookup k.name = some code := by
  obtain ⟨code, hcode, -⟩ := Option.bind_eq_some_iff.mp hk.formatted_eq
  exact ⟨code, hcode⟩

theorem Key.Regular.nul_text (hk : k.Regular printf st tpl) : '\x00' ∉ k.text := by
  obtain ⟨code, hcode⟩ := hk.lookup
  intro h
  rcases List.mem_cons.mp h with h | h
  · exact absurd h (by decide)
  · rcases List.mem_append.mp h with h | h
    · exact absurd (isUpper_of_lookup hcode h) (by decide)
    · exact absurd (List.mem_singleton.mp h) (by decide)

theorem Key.Regular.nul_whole (hk : k.Regular printf st tpl) : '\x00' ∉ k.whole :=
  List.not_mem_append hk.nul_text hk.nul_gap

theorem Key.Regular.nul_put (hk : k.Regular printf st tpl) : '\x00' ∉ k.put := by
  apply List.not_mem_append hk.nul_value
  intro h
  exact hk.nul_gap (List.mem_of_mem_drop h)

theorem Key.Regular.dollar_put (hk : k.Regular printf st tpl) : '$' ∉ k.put := by
  apply List.not_mem_append hk.dollar_value
  intro h
  exact hk.dollar_gap (List.mem_of_mem_drop h)

/-- The name of a key is read up to its colon. -/
theorem varName_append {name : List Char} (hcolon : ':' ∉ name) (hlen : name.length < taille)
    (rest : List Char) : varName ('$' :: (name ++ ':' :: rest)) = name := by
  obtain ⟨n, hn⟩ : ∃ n, taille - name.length = n + 1 := ⟨taille - name.length - 1, by omega⟩
  have htake : (name ++ ':' :: rest).take taille = name ++ ':' :: rest.take n := by
    rw [List.take_append, List.take_of_length_le (Nat.le_of_lt hlen), hn, List.take_succ_cons]
  have hname : (name ++ ':' :: rest.take n).takeWhile (· ≠ ':') = name :=
    takeWhile_ne_append hcolon _
  rw [varName, scanUntil, htake, hname]
  cases name with
  | nil => rfl
  | cons c cs => rfl

/-- One key is replaced by its value. -/
theorem adjusting_key (hk : k.Regular printf st tpl) {pre rest : List Char} {work : Work}
    (h : work.Holds pre (k.text ++ rest)) (hrest : '\x00' ∉ rest)
    (hroom : pre.length + 59 < workSize) :
    ∃ work', (adjusting printf st tpl pre.length work).2 = some (true, work') ∧
      work'.Holds pre (k.value ++ rest.drop (k.value.length - k.text.length)) := by
  obtain ⟨code, hcode, hvar⟩ := Option.bind_eq_some_iff.mp hk.formatted_eq
  obtain ⟨var, hvar, harg⟩ := Option.bind_eq_some_iff.mp hvar
  obtain ⟨arg, harg, hvalue⟩ := Option.map_eq_some_iff.mp harg
  have hnul : '\x00' ∉ k.text ++ rest := List.not_mem_append hk.nul_text hrest
  have hname : varName (work.text pre.length) = k.name := by
    rw [h.text hnul, Key.text, List.cons_append, List.append_assoc, List.singleton_append]
    refine varName_append ?_ ?_ rest
    · intro hmem
      exact absurd (isUpper_of_lookup hcode hmem) (by decide)
    · have hlen := length_le_of_lookup hcode
      rw [taille]
      omega
  rw [← hname] at hcode
  let e : Execution := ⟨work, pre.length, (varName (work.text pre.length)).length + 2, k.value⟩
  have hcall : adjusting printf st tpl pre.length work =
      ([e], e.run.map fun after => (true, after)) := by
    rw [adjusting_declared hcode hvar harg, hvalue]
  have hkeyLen : e.keyLen = k.text.length := by
    rw [k.text_length, ← hname]
  have hne : e.printed ≠ [] := List.ne_nil_of_length_pos hk.length_pos
  have hroom' : e.printed.length < e.remain := by
    have hle := hk.length_le
    simp only [e, Execution.remain]
    omega
  have hkey : e.printed.length < e.keyLen → e.keyLen ≤ (k.text ++ rest).length := by
    intro _
    rw [hkeyLen, List.length_append]
    omega
  obtain ⟨work', hrun, hwork'⟩ :=
    run_eq_some (e := e) h hnul rfl hne (hk.length_le.trans (by decide)) hroom' hkey
  refine ⟨work', ?_, ?_⟩
  · rw [hcall, hrun]
    rfl
  · have hmax : max e.printed.length e.keyLen =
        k.text.length + (k.value.length - k.text.length) := by
      rw [hkeyLen]
      simp only [e]
      omega
    rwa [replace_take hk.length_le, hmax, ← List.drop_drop, List.drop_left] at hwork'

end OneKey

/-! ## A line -/

section Line

variable {printf : List Char → Argument → List Char} {st : Content} {tpl : Tpl}
  {keys : List Key}

theorem not_mem_flatMap {f : Key → List Char} {c : Char} (h : ∀ k ∈ keys, c ∉ f k) :
    c ∉ keys.flatMap f := by
  intro hmem
  obtain ⟨k, hk, hc⟩ := List.mem_flatMap.mp hmem
  exact h k hk hc

/-- A value that ends before the next key leaves the keys behind it as they are. -/
theorem value_append_drop {k : Key} (hgap : keys ≠ [] → k.value.length ≤ k.whole.length) :
    k.value ++ (k.gap ++ keys.flatMap Key.whole).drop (k.value.length - k.text.length) =
      k.put ++ keys.flatMap Key.whole := by
  rw [Key.put, List.append_assoc]
  congr 1
  cases keys with
  | nil => simp
  | cons k' keys =>
      apply List.drop_append_of_le_length
      have hle := hgap (List.cons_ne_nil _ _)
      rw [Key.whole, List.length_append] at hle
      omega

theorem Key.put_length_le {k : Key} (hgap : k.value.length ≤ k.whole.length) :
    k.put.length ≤ k.whole.length := by
  rw [Key.whole, List.length_append] at hgap ⊢
  rw [Key.put, List.length_append, List.length_drop]
  omega

/-- One turn of the loop: the search passes over the text `mid` and stops at the key, whose
value is put there. -/
theorem adjustKeys_key {k : Key} (hk : k.Regular printf st tpl) {before mid rest : List Char}
    {work : Work} (h : work.Holds before (mid ++ (k.text ++ rest))) (hdollar : '$' ∉ mid)
    (hnul : '\x00' ∉ mid) (hrest : '\x00' ∉ rest)
    (hroom : (before ++ mid).length + 59 < workSize) :
    ∃ work', work'.Holds (before ++ mid)
        (k.value ++ rest.drop (k.value.length - k.text.length)) ∧
      ∀ numvar, (adjustKeys printf st tpl (numvar + 1) before.length work).2 =
        (adjustKeys printf st tpl numvar (before ++ mid).length work').2 := by
  have htext : work.text before.length = mid ++ (k.text ++ rest) :=
    h.text (List.not_mem_append hnul (List.not_mem_append hk.nul_text hrest))
  have hkey : '$' ∈ work.text before.length := by
    rw [htext]
    exact List.mem_append_right _ List.mem_cons_self
  have hptr : before.length + ((work.text before.length).takeWhile (· ≠ '$')).length =
      (before ++ mid).length := by
    have hmid : (mid ++ (k.text ++ rest)).takeWhile (· ≠ '$') = mid :=
      takeWhile_ne_append hdollar _
    rw [htext, hmid, List.length_append]
  have hhere : work.Holds (before ++ mid) (k.text ++ rest) := by
    obtain ⟨tail, htail⟩ := h
    exact ⟨tail, by simpa only [List.append_assoc] using htail⟩
  obtain ⟨work', hcall, hput⟩ := adjusting_key hk hhere hrest hroom
  refine ⟨work', hput, ?_⟩
  intro numvar
  rw [adjustKeys, if_pos hkey, hptr]
  simp only [hcall]

/-- The keys of a line are replaced one after the other. Between the place where the search
begins and the first key there is the text `mid` without a key. -/
theorem adjustKeys_layout {numvar : Nat} {before mid : List Char} {work : Work}
    (hten : keys.length ≤ numvar) (hkeys : ∀ k ∈ keys, k.Regular printf st tpl)
    (hgap : ∀ k ∈ keys.dropLast, k.value.length ≤ k.whole.length)
    (h : work.Holds before (mid ++ keys.flatMap Key.whole))
    (hdollar : '$' ∉ mid) (hnul : '\x00' ∉ mid)
    (hsize : keys ≠ [] → before.length + (mid ++ keys.flatMap Key.whole).length ≤ 297) :
    ∃ work', (adjustKeys printf st tpl numvar before.length work).2 = some work' ∧
      work'.Holds [] (before ++ mid ++ keys.flatMap Key.put) := by
  -- on the keys: what one turn has put is part of the text in front of the next key
  induction keys generalizing numvar before mid work with
  | nil =>
      rw [List.flatMap_nil, List.append_nil] at h
      have htext : work.text before.length = mid := h.text hnul
      have hall : work.Holds [] (before ++ mid) := h
      refine ⟨work, ?_, by rwa [List.flatMap_nil, List.append_nil]⟩
      cases numvar with
      | zero => rfl
      | succ numvar => rw [adjustKeys, htext, if_neg hdollar]
  | cons k keys ih =>
      obtain ⟨numvar, rfl⟩ : ∃ n, numvar = n + 1 := ⟨numvar - 1, by simp at hten; omega⟩
      have hk := hkeys k List.mem_cons_self
      have hkeys' : ∀ k ∈ keys, k.Regular printf st tpl :=
        fun k' hk' => hkeys k' (List.mem_cons_of_mem k hk')
      have hline : mid ++ (k :: keys).flatMap Key.whole =
          mid ++ (k.text ++ (k.gap ++ keys.flatMap Key.whole)) := by
        rw [List.flatMap_cons, Key.whole, List.append_assoc]
      have hrest : '\x00' ∉ k.gap ++ keys.flatMap Key.whole :=
        List.not_mem_append hk.nul_gap (not_mem_flatMap fun k' hk' => (hkeys' k' hk').nul_whole)
      rw [hline] at h
      have hsize := hsize (List.cons_ne_nil _ _)
      simp only [List.length_append, List.flatMap_cons] at hsize
      have hpos : 0 < k.whole.length := by simp [Key.whole, Key.text]
      have hroom : (before ++ mid).length + 59 < workSize := by
        rw [List.length_append, workSize]
        omega
      obtain ⟨work₁, hput, hturn⟩ := adjustKeys_key hk h hdollar hnul hrest hroom
      -- only the value of the last key may run over the end of its gap
      have hgap₁ : keys ≠ [] → k.value.length ≤ k.whole.length := by
        intro hne
        refine hgap k ?_
        rw [List.dropLast_cons_of_ne_nil hne]
        exact List.mem_cons_self
      have hgap' : ∀ k ∈ keys.dropLast, k.value.length ≤ k.whole.length := by
        intro k' hk'
        refine hgap k' ?_
        rw [List.dropLast_cons_of_ne_nil (List.ne_nil_of_mem (List.mem_of_mem_dropLast hk'))]
        exact List.mem_cons_of_mem k hk'
      rw [value_append_drop hgap₁] at hput
      obtain ⟨work₂, hnext, hwork₂⟩ := ih (Nat.le_of_succ_le_succ hten) hkeys' hgap' hput
        hk.dollar_put hk.nul_put (by
          intro hne
          have hle := Key.put_length_le (hgap₁ hne)
          simp only [List.length_append]
          omega)
      refine ⟨work₂, ?_, ?_⟩
      · rw [hturn, hnext]
      · rwa [List.flatMap_cons, ← List.append_assoc]

/-- The lines that are stored are the converted ones. -/
theorem getElem_convertLines {stack : Nat → Work} {n : Nat} {lines updated : List (List Char)}
    (h : convertLines printf st tpl stack n lines = some updated) {i : Nat} {line : List Char}
    (hline : lines[i]? = some line) :
    updated[i]? = (convertLine printf st tpl (stack (n + i)) line).2 := by
  induction lines generalizing n i updated with
  | nil => cases hline
  | cons first lines ih =>
      obtain ⟨u, hfirst, hrest⟩ := Option.bind_eq_some_iff.mp h
      obtain ⟨us, hlines, rfl⟩ := Option.map_eq_some_iff.mp hrest
      cases i with
      | zero =>
          obtain rfl : first = line := Option.some.inj hline
          rw [Nat.add_zero, hfirst]
          rfl
      | succ i =>
          rw [List.getElem?_cons_succ] at hline ⊢
          rw [ih hlines hline, Nat.add_assoc, Nat.add_comm 1 i]

/-- The lines are stored when each of them is converted. -/
theorem convertLines_isSome {stack : Nat → Work} {n : Nat} {lines : List (List Char)}
    (h : ∀ j line, lines[j]? = some line →
      (convertLine printf st tpl (stack (n + j)) line).2.isSome = true) :
    ∃ updated, convertLines printf st tpl stack n lines = some updated := by
  induction lines generalizing n with
  | nil => exact ⟨[], rfl⟩
  | cons first lines ih =>
      obtain ⟨u, hfirst⟩ := Option.isSome_iff_exists.mp (h 0 first rfl)
      obtain ⟨us, hlines⟩ := ih (n := n + 1) fun j line hline => by
        rw [Nat.add_assoc, Nat.add_comm 1 j]
        exact h (j + 1) line hline
      refine ⟨u :: us, ?_⟩
      rw [convertLines, ← Nat.add_zero n, hfirst, Nat.add_zero, Option.bind_some, hlines]
      rfl

/-- One line with all its keys. -/
theorem convertLine_layout {lead : List Char} (hten : keys.length ≤ 10)
    (hlen : (lead ++ keys.flatMap Key.whole).length ≤ 297)
    (hlead : '$' ∉ lead ∧ '\x00' ∉ lead) (hkeys : ∀ k ∈ keys, k.Regular printf st tpl)
    (hgap : ∀ k ∈ keys.dropLast, k.value.length ≤ k.whole.length) (stack : Work) :
    (convertLine printf st tpl stack (lead ++ keys.flatMap Key.whole)).2 =
      some (lead ++ keys.flatMap Key.put) := by
  have hnul : '\x00' ∉ lead ++ keys.flatMap Key.whole :=
    List.not_mem_append hlead.2 (not_mem_flatMap fun k hk => (hkeys k hk).nul_whole)
  have hput : '\x00' ∉ lead ++ keys.flatMap Key.put :=
    List.not_mem_append hlead.2 (not_mem_flatMap fun k hk => (hkeys k hk).nul_put)
  obtain ⟨work, hwork, hconvert⟩ := convertLine_eq printf st tpl stack
    (lead ++ keys.flatMap Key.whole)
  rw [cstr_of_not_mem hnul, List.take_of_length_le (hlen.trans (by decide))] at hwork
  have hsize : keys ≠ [] → ([] : List Char).length + (lead ++ keys.flatMap Key.whole).length ≤
      297 := by
    intro _
    rw [List.length_nil, Nat.zero_add]
    exact hlen
  obtain ⟨work', hloop, hwork'⟩ :=
    adjustKeys_layout hten hkeys hgap hwork hlead.1 hlead.2 hsize
  rw [List.length_nil] at hloop
  rw [hconvert, hloop, Option.map_some]
  exact congrArg some (hwork'.text hput)

/-- Such a line is converted without leaving an array. -/
theorem convertLine_layout_safe {lead : List Char} (hten : keys.length ≤ 10)
    (hlen : (lead ++ keys.flatMap Key.whole).length ≤ 297)
    (hlead : '$' ∉ lead ∧ '\x00' ∉ lead) (hkeys : ∀ k ∈ keys, k.Regular printf st tpl)
    (hgap : ∀ k ∈ keys.dropLast, k.value.length ≤ k.whole.length) (stack : Work)
    {e : Execution}
    (he : e ∈ (convertLine printf st tpl stack (lead ++ keys.flatMap Key.whole)).1) :
    e.Safe := by
  have hstored := convertLine_layout hten hlen hlead hkeys hgap stack
  -- a line that is stored at all is one whose executions fit
  have hfits : ∀ e ∈ (convertLine printf st tpl stack (lead ++ keys.flatMap Key.whole)).1,
      e.Fits := by
    rw [← convertLine_isSome_iff, hstored]
    rfl
  exact (hfits e he).safe (ended_of_mem_convertLine he)

end Line

/-- A line of the display is its template line with every key replaced by its value; a
value that is longer than its key takes the place of as many characters behind it. The
line is stored when the other lines of the template are converted as well. -/
theorem cfgUpdateOnline_layout (printf : List Char → Argument → List Char) (st : Content)
    (tpl : Tpl) (stack : Nat → Work) (i : Nat) (lead : List Char) (keys : List Key)
    (hline : tpl.lines[i]? = some (lead ++ keys.flatMap Key.whole))
    (hlen : (lead ++ keys.flatMap Key.whole).length ≤ 297) (hten : keys.length ≤ 10)
    (hlead : '$' ∉ lead ∧ '\x00' ∉ lead) (hkeys : ∀ k ∈ keys, k.Regular printf st tpl)
    (hgap : ∀ k ∈ keys.dropLast, k.value.length ≤ k.whole.length) :
    (convertLine printf st tpl (stack i) (lead ++ keys.flatMap Key.whole)).2 =
        some (lead ++ keys.flatMap Key.put) ∧
      '$' ∉ lead ++ keys.flatMap Key.put ∧
      (∀ isok tpl', cfgUpdateOnline printf (some st) stack tpl = some (isok, tpl') →
        tpl'.updated[i]? = some (lead ++ keys.flatMap Key.put)) ∧
      ((∀ j line, j ≠ i → tpl.lines[j]? = some line →
          (convertLine printf st tpl (stack j) line).2.isSome = true) →
        ∃ isok tpl', cfgUpdateOnline printf (some st) stack tpl = some (isok, tpl') ∧
          tpl'.updated[i]? = some (lead ++ keys.flatMap Key.put)) := by
  have hconvert := convertLine_layout hten hlen hlead hkeys hgap (stack i)
  have hne : tpl.lines ≠ [] := by
    intro hnil
    rw [hnil] at hline
    cases hline
  have hstored : ∀ isok tpl', cfgUpdateOnline printf (some st) stack tpl = some (isok, tpl') →
      tpl'.updated[i]? = some (lead ++ keys.flatMap Key.put) := by
    intro isok tpl' hupdate
    rw [cfgUpdateOnline, if_neg hne] at hupdate
    obtain ⟨updated, hlines, heq⟩ := Option.map_eq_some_iff.mp hupdate
    obtain ⟨rfl, rfl⟩ := Prod.mk.inj heq
    rw [getElem_convertLines hlines hline, Nat.zero_add, hconvert]
  refine ⟨hconvert, ?_, hstored, fun hothers => ?_⟩
  · exact List.not_mem_append hlead.1 (not_mem_flatMap fun k hk => (hkeys k hk).dollar_put)
  · have hall : ∀ j line, tpl.lines[j]? = some line →
        (convertLine printf st tpl (stack (0 + j)) line).2.isSome = true := by
      intro j line hj
      rw [Nat.zero_add]
      by_cases hji : j = i
      · rw [hji, hline] at hj
        rw [hji, ← Option.some.inj hj, hconvert]
        rfl
      · exact hothers j line hji hj
    obtain ⟨updated, hlines⟩ := convertLines_isSome hall
    have hupdate : cfgUpdateOnline printf (some st) stack tpl =
        some (false, { tpl with updated := updated }) := by
      rw [cfgUpdateOnline, if_neg hne, hlines]
      rfl
    exact ⟨_, _, hupdate, hstored _ _ hupdate⟩

/-- The line of the network interface, as the template has it. -/
def networkLead : List Char := "interface        : ".toList

/-- Its keys, for an interface with a long name. -/
def networkKeys : List Key :=
  [⟨"CINT".toList, "veth-web01".toList, "               | IP             : ".toList⟩,
    ⟨"CIP".toList, "192.168.10.127".toList, []⟩]

/-- A template of a heading and the line of the network interface. -/
def networkTpl : Tpl :=
  ⟨[⟨.cint, "%-6s".toList⟩, ⟨.cip, "%s".toList⟩],
    ["container".toList, "interface        : $CINT:               | IP             : $CIP:".toList], []⟩

/-- The status of a container with this interface and this number. -/
def networkStatus : Content :=
  { Content.zero with
    intname := fun _ => "veth-web01".toList
    ipNum := fun _ => "192.168.10.127".toList }

theorem cfgUpdateOnline_layout_network : ∃ isok tpl',
    cfgUpdateOnline printText (some networkStatus)
        (fun _ => ⟨List.replicate workSize ' ', List.length_replicate⟩) networkTpl =
      some (isok, tpl') ∧
    tpl'.updated[1]? =
      some "interface        : veth-web01           | IP             : 192.168.10.127".toList := by
  have hline : networkLead ++ networkKeys.flatMap Key.whole =
      "interface        : $CINT:               | IP             : $CIP:".toList := by decide
  have hput : networkLead ++ networkKeys.flatMap Key.put =
      "interface        : veth-web01           | IP             : 192.168.10.127".toList := by
    decide
  have hkeys : ∀ k ∈ networkKeys, k.Regular printText networkStatus networkTpl := by
    rw [networkKeys, List.forall_mem_cons, List.forall_mem_singleton]
    exact ⟨⟨by decide, by decide, by decide, by decide, by decide, by decide, by decide⟩,
      ⟨by decide, by decide, by decide, by decide, by decide, by decide, by decide⟩⟩
  obtain ⟨-, -, -, hstored⟩ := cfgUpdateOnline_layout printText networkStatus networkTpl
    (fun _ => ⟨List.replicate workSize ' ', List.length_replicate⟩) 1 networkLead networkKeys
    (congrArg some hline.symm) (by decide) (by decide) (by decide) hkeys (by decide)
  rw [← hput]
  refine hstored fun j line hj hget => ?_
  match j with
  | 0 =>
      -- the heading has no keys
      obtain rfl := Option.some.inj hget
      have hheading := @convertLine_layout printText networkStatus networkTpl [] "container".toList
        (by decide) (by decide) (by decide) (by simp) (by simp)
        ⟨List.replicate workSize ' ', List.length_replicate⟩
      rw [List.flatMap_nil, List.append_nil] at hheading
      rw [hheading]
      rfl
  | 1 => exact absurd rfl hj
  | j + 2 => cases hget

end Vzgot.Online
