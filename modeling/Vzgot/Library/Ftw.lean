import Mathlib.Data.List.Basic

/-!
# Removing a tree of directories

A `Forest` is the directories inside a directory, in the order in which they are read.
`postorder` lists all of them, each behind what it holds. `sweep` is the walk that
removes them in that order and stops at the first one that stays: a directory is removed
when nothing is left inside and nothing keeps it at that instant. Every visit takes one
instant.

`clear` is the same on a list. `sweep_clear` says that the walk over the tree is `clear`
on the list of its directories: a directory stays only where something keeps it, never
because of a directory inside. `sweepAt` walks one directory of a larger tree, and
`sweepAt_acts` says that it acts on that directory alone.
-/

set_option autoImplicit false

namespace Vzgot.Ftw

universe u

variable {α : Type u}

/-- Directories beside each other, in the order in which they are read. -/
inductive Forest (α : Type u) where
  | nil
  | dir (name : α) (inside next : Forest α)
  deriving DecidableEq

/-! ## The list of directories -/

namespace Forest

/-- The directories of two forests, one after the other. -/
def append : Forest α → Forest α → Forest α
  | nil, g => g
  | dir name inside next, g => dir name inside (next.append g)

/-- Paths of all directories below `path`, innermost component first, each directory
behind those inside. -/
def postorder (path : List α) : Forest α → List (List α)
  | nil => []
  | dir name inside next =>
      inside.postorder (name :: path) ++ (name :: path) :: next.postorder path

@[simp] theorem postorder_nil (path : List α) : (nil : Forest α).postorder path = [] := rfl

@[simp] theorem postorder_dir (path : List α) (name : α) (inside next : Forest α) :
    (dir name inside next).postorder path =
      inside.postorder (name :: path) ++ (name :: path) :: next.postorder path := rfl

@[simp] theorem postorder_append (path : List α) (f g : Forest α) :
    (f.append g).postorder path = f.postorder path ++ g.postorder path := by
  induction f with
  | nil => rfl
  | dir name inside next _ ih => simp [append, ih]

/-- Names of the directories beside each other. -/
def names : Forest α → List α
  | nil => []
  | dir name _ next => name :: next.names

/-- No two directories beside each other have one name. -/
def Distinct : Forest α → Prop
  | nil => True
  | dir name inside next => name ∉ next.names ∧ inside.Distinct ∧ next.Distinct

@[simp] theorem names_append (f g : Forest α) : (f.append g).names = f.names ++ g.names := by
  induction f with
  | nil => rfl
  | dir name inside next _ ih => simp [append, names, ih]

theorem Distinct.append {f g : Forest α} (hf : f.Distinct) (hg : g.Distinct)
    (hdisjoint : ∀ n ∈ f.names, n ∉ g.names) : (f.append g).Distinct := by
  induction f with
  | nil => exact hg
  | dir name inside next _ ih =>
      obtain ⟨hname, hinside, hnext⟩ := hf
      refine ⟨?_, hinside, ih hnext fun n hn => hdisjoint n (List.mem_cons_of_mem _ hn)⟩
      rw [names_append, List.mem_append]
      rintro (hn | hn)
      · exact hname hn
      · exact hdisjoint name List.mem_cons_self hn

/-- Every directory of a forest is at or below one of those named in it. -/
theorem suffix_of_mem {f : Forest α} {path d : List α} (h : d ∈ f.postorder path) :
    ∃ name ∈ f.names, name :: path <:+ d := by
  induction f generalizing path with
  | nil => cases h
  | dir name inside next ih₁ ih₂ =>
      rw [postorder_dir, List.mem_append, List.mem_cons] at h
      rcases h with h | rfl | h
      · obtain ⟨inner, -, hinner⟩ := ih₁ h
        exact ⟨name, List.mem_cons_self, (List.suffix_cons inner (name :: path)).trans hinner⟩
      · exact ⟨name, List.mem_cons_self, List.suffix_refl _⟩
      · obtain ⟨other, hother, hsuffix⟩ := ih₂ h
        exact ⟨other, List.mem_cons_of_mem _ hother, hsuffix⟩

/-- Two names below one directory on the way to one path are the same. -/
theorem name_unique {n name : α} {path d : List α} (h₁ : n :: path <:+ d)
    (h₂ : name :: path <:+ d) : n = name := by
  have heq : n :: path = name :: path :=
    (List.suffix_of_suffix_length_le h₁ h₂ (Nat.le_refl _)).eq_of_length rfl
  exact (List.cons.inj heq).1

/-- Directories of a forest without the name are beside everything below it. -/
theorem none_below {f : Forest α} {n : α} {path top : List α} (hn : n ∉ f.names)
    (htop : n :: path <:+ top) : ∀ d ∈ f.postorder path, ¬ top <:+ d := by
  intro d hd hsuffix
  obtain ⟨name, hname, hbelow⟩ := suffix_of_mem hd
  obtain rfl := name_unique (htop.trans hsuffix) hbelow
  exact hn hname

/-- So is a directory with another name, with all it holds. -/
theorem none_below_other {inside : Forest α} {name n : α} {path top : List α} (hne : name ≠ n)
    (htop : n :: path <:+ top) :
    ∀ d ∈ inside.postorder (name :: path) ++ [name :: path], ¬ top <:+ d := by
  intro d hd hsuffix
  have hbelow : name :: path <:+ d := by
    rcases List.mem_append.1 hd with hd | hd
    · obtain ⟨inner, -, hinner⟩ := suffix_of_mem hd
      exact (List.suffix_cons inner _).trans hinner
    · obtain rfl := List.mem_singleton.1 hd
      exact List.suffix_refl _
  exact hne (name_unique hbelow (htop.trans hsuffix))

/-- The directories on the way to a listed one are listed. -/
theorem mem_of_suffix {f : Forest α} {path d top : List α} {n : α} (hd : d ∈ f.postorder path)
    (hbelow : top <:+ d) (htop : n :: path <:+ top) : top ∈ f.postorder path := by
  induction f generalizing path n with
  | nil => cases hd
  | dir name inside next ih₁ ih₂ =>
      rw [postorder_dir, List.mem_append, List.mem_cons] at hd ⊢
      rcases hd with hd | rfl | hd
      · obtain ⟨inner, -, hinner⟩ := suffix_of_mem hd
        have hname : name :: path <:+ d := (List.suffix_cons inner _).trans hinner
        obtain rfl := name_unique hname (htop.trans hbelow)
        obtain ⟨way, rfl⟩ := htop
        rcases List.eq_nil_or_concat way with rfl | ⟨rest, m, rfl⟩
        · exact Or.inr (Or.inl rfl)
        · exact Or.inl (ih₁ (n := m) hd ⟨rest, by simp⟩)
      · have hlength := htop.length_le
        have hle := hbelow.length_le
        have heq : top = name :: path :=
          hbelow.eq_of_length (by simp only [List.length_cons] at hlength hle ⊢; omega)
        exact Or.inr (Or.inl heq)
      · exact Or.inr (Or.inr (ih₂ hd htop))

end Forest

/-! ## The walk on a list -/

section Clear

variable {β : Type u} (keeps : Nat → β → Bool)

/-- Items are given up from the front, one in each instant, up to the first that is kept:
the instant behind the last visit, and the items left. -/
def clear (time : Nat) : List β → Nat × List β
  | [] => (time, [])
  | d :: ds => if keeps time d then (time + 1, d :: ds) else clear (time + 1) ds

/-- Visits of a list until nothing is left, at most `tries`, with `pause` instants behind
each that leaves something. -/
def retry (pause : Nat) : Nat → Nat → List β → Nat × List β
  | 0, time, ds => (time, ds)
  | tries + 1, time, ds =>
      match clear keeps time ds with
      | (time', []) => (time', [])
      | (time', d :: rest) => retry pause tries (time' + pause) (d :: rest)

variable {keeps}

@[simp] theorem clear_nil (time : Nat) : clear keeps time [] = (time, []) := rfl

theorem clear_cons (time : Nat) (d : β) (ds : List β) :
    clear keeps time (d :: ds) =
      if keeps time d then (time + 1, d :: ds) else clear keeps (time + 1) ds := rfl

/-- Visiting two lists: the second one only when nothing of the first is left. -/
theorem clear_append (time : Nat) (ds es : List β) :
    clear keeps time (ds ++ es) =
      match clear keeps time ds with
      | (time', []) => clear keeps time' es
      | (time', d :: rest) => (time', d :: rest ++ es) := by
  induction ds generalizing time with
  | nil => rfl
  | cons d ds ih =>
      rw [List.cons_append, clear_cons, clear_cons]
      split
      · rfl
      · exact ih (time + 1)

/-- What is given up had nothing to keep it in its instant, and the first item left had. -/
theorem clear_spec (keeps : Nat → β → Bool) (time : Nat) (ds : List β) :
    ∃ given, ds = given ++ (clear keeps time ds).2 ∧
      (∀ i d, given[i]? = some d → keeps (time + i) d = false) ∧
      (∀ d, (clear keeps time ds).2.head? = some d →
        keeps (time + given.length) d = true ∧
          (clear keeps time ds).1 = time + given.length + 1) ∧
      ((clear keeps time ds).2 = [] → (clear keeps time ds).1 = time + given.length) := by
  induction ds generalizing time with
  | nil => exact ⟨[], rfl, by simp, by simp, fun _ => rfl⟩
  | cons d ds ih =>
      rw [clear_cons]
      split
      · rename_i hkept
        refine ⟨[], rfl, by simp, fun e he => ?_, fun h => by cases h⟩
        obtain rfl : d = e := Option.some.inj he
        exact ⟨hkept, rfl⟩
      · rename_i hfree
        obtain ⟨given, hsplit, hgiven, hleft, hall⟩ := ih (time + 1)
        refine ⟨d :: given, congrArg (d :: ·) hsplit, fun i e he => ?_, fun e he => ?_, fun h => ?_⟩
        · cases i with
          | zero =>
              obtain rfl : d = e := Option.some.inj he
              simpa using hfree
          | succ i =>
              rw [List.getElem?_cons_succ] at he
              simpa [Nat.add_assoc, Nat.add_comm 1] using hgiven i e he
        · rw [List.length_cons, Nat.add_comm given.length, ← Nat.add_assoc]
          exact hleft e he
        · rw [List.length_cons, Nat.add_comm given.length, ← Nat.add_assoc]
          exact hall h

theorem clear_suffix (keeps : Nat → β → Bool) (time : Nat) (ds : List β) : (clear keeps time ds).2 <:+ ds := by
  obtain ⟨given, hsplit, -⟩ := clear_spec keeps time ds
  exact ⟨given, hsplit.symm⟩

/-- Everything is given up exactly when every item is free in its own instant. -/
theorem clear_eq_nil_iff (keeps : Nat → β → Bool) (time : Nat) (ds : List β) :
    (clear keeps time ds).2 = [] ↔ ∀ i d, ds[i]? = some d → keeps (time + i) d = false := by
  induction ds generalizing time with
  | nil => simp
  | cons d ds ih =>
      rw [clear_cons]
      split
      · rename_i hkept
        constructor
        · intro h
          cases h
        · intro h
          have hfree := h 0 d rfl
          rw [Nat.add_zero, hkept] at hfree
          cases hfree
      · rename_i hfree
        rw [ih]
        refine ⟨fun h i e he => ?_, fun h i e he => ?_⟩
        · cases i with
          | zero =>
              obtain rfl : d = e := Option.some.inj he
              simpa using hfree
          | succ i => simpa [Nat.add_assoc, Nat.add_comm 1] using h i e he
        · simpa [Nat.add_assoc, Nat.add_comm 1] using h (i + 1) e he

/-- A visit that leaves nothing takes an instant for each item. -/
theorem clear_time {time : Nat} {ds : List β} (h : (clear keeps time ds).2 = []) :
    (clear keeps time ds).1 = time + ds.length := by
  obtain ⟨given, hsplit, -, -, htime⟩ := clear_spec keeps time ds
  rw [h, List.append_nil] at hsplit
  rw [htime h, hsplit]

variable {pause : Nat}

theorem retry_suffix (tries time : Nat) (ds : List β) :
    (retry keeps pause tries time ds).2 <:+ ds := by
  induction tries generalizing time ds with
  | zero => exact List.suffix_refl _
  | succ tries ih =>
      have hclear := clear_suffix keeps time ds
      unfold retry
      split
      · exact List.nil_suffix
      · rename_i time' d rest heq
        rw [heq] at hclear
        exact (ih _ _).trans hclear

/-- From some instant on nothing is kept, and one visit starts behind it: nothing is left. -/
theorem retry_eq_nil {tries time free : Nat} {ds : List β} (hpos : 0 < tries)
    (hfree : ∀ t d, free ≤ t → d ∈ ds → keeps t d = false)
    (htime : free ≤ time + (tries - 1) * (pause + 1)) :
    (retry keeps pause tries time ds).2 = [] := by
  induction tries generalizing time ds with
  | zero => exact absurd hpos (by omega)
  | succ tries ih =>
      unfold retry
      split
      · rfl
      · rename_i time' d rest heq
        have hsuffix := clear_suffix keeps time ds
        rw [heq] at hsuffix
        have hkept : time + 1 ≤ time' := by
          obtain ⟨given, -, -, hleft, -⟩ := clear_spec keeps time ds
          have hlast := (hleft d (by rw [heq]; rfl)).2
          rw [heq] at hlast
          have : time' = time + given.length + 1 := hlast
          omega
        cases tries with
        | zero =>
            -- the only visit starts behind the instant, so it cannot leave anything
            have hnil := (clear_eq_nil_iff keeps time ds).2 fun i e he =>
              hfree _ e (by omega) (List.mem_of_getElem? he)
            rw [heq] at hnil
            cases hnil
        | succ tries =>
            refine ih (Nat.succ_pos _) (fun t e ht he => hfree t e ht (hsuffix.subset he)) ?_
            have hmul : (tries + 1 + 1 - 1) * (pause + 1) = (tries + 1 - 1) * (pause + 1) + (pause + 1) := by
              simp only [Nat.add_sub_cancel, Nat.succ_mul]
            omega

/-- With something left behind at least one try, its first item was kept at an instant not
before that of the last try. -/
theorem retry_kept {tries time : Nat} {ds rest : List β} {d : β} (hpos : 0 < tries)
    (h : (retry keeps pause tries time ds).2 = d :: rest) :
    ∃ t, time + (tries - 1) * (pause + 1) ≤ t ∧ keeps t d = true := by
  induction tries generalizing time ds with
  | zero => exact absurd hpos (by omega)
  | succ tries ih =>
      unfold retry at h
      split at h
      · cases h
      · rename_i time' e es heq
        obtain ⟨given, -, -, hleft, -⟩ := clear_spec keeps time ds
        have hlast := hleft e (by rw [heq]; rfl)
        rw [heq] at hlast
        obtain ⟨hkept, htime⟩ := hlast
        have htime' : time' = time + given.length + 1 := htime
        cases tries with
        | zero =>
            obtain ⟨rfl, rfl⟩ : e = d ∧ es = rest := by simpa [retry] using h
            exact ⟨_, by omega, hkept⟩
        | succ tries =>
            obtain ⟨t, ht, hk⟩ := ih (Nat.succ_pos _) h
            have hmul : (tries + 1 + 1 - 1) * (pause + 1) = (tries + 1 - 1) * (pause + 1) + (pause + 1) := by
              simp only [Nat.add_sub_cancel, Nat.succ_mul]
            exact ⟨t, by omega, hk⟩

end Clear

/-! ## The walk over a tree -/

/-- Result of a walk: the directories left, the instant behind the last visit, and the
directory where it stopped. -/
structure Swept (α : Type u) where
  left : Forest α
  time : Nat
  stopped : Option (List α)

section Sweep

variable (keeps : Nat → List α → Bool)

/-- The walk over a forest, entries first. -/
def sweep (path : List α) (time : Nat) : Forest α → Swept α
  | .nil => ⟨.nil, time, none⟩
  | .dir name inside next =>
      match sweep (name :: path) time inside with
      | ⟨inside', time', some d⟩ => ⟨.dir name inside' next, time', some d⟩
      | ⟨.dir n i e, time', none⟩ =>
          ⟨.dir name (.dir n i e) next, time' + 1, some (name :: path)⟩
      | ⟨.nil, time', none⟩ =>
          if keeps time' (name :: path) then
            ⟨.dir name .nil next, time' + 1, some (name :: path)⟩
          else sweep path (time' + 1) next

variable {keeps}

theorem sweep_dir (path : List α) (time : Nat) (name : α) (inside next : Forest α) :
    sweep keeps path time (.dir name inside next) =
      match sweep keeps (name :: path) time inside with
      | ⟨inside', time', some d⟩ => ⟨.dir name inside' next, time', some d⟩
      | ⟨.dir n i e, time', none⟩ =>
          ⟨.dir name (.dir n i e) next, time' + 1, some (name :: path)⟩
      | ⟨.nil, time', none⟩ =>
          if keeps time' (name :: path) then
            ⟨.dir name .nil next, time' + 1, some (name :: path)⟩
          else sweep keeps path (time' + 1) next := rfl

/-- The walk over a tree is the walk over the list of its directories. -/
theorem sweep_clear (path : List α) (time : Nat) (f : Forest α) :
    ((sweep keeps path time f).time, (sweep keeps path time f).left.postorder path) =
        clear keeps time (f.postorder path) ∧
      (sweep keeps path time f).stopped = (clear keeps time (f.postorder path)).2.head? := by
  induction f generalizing path time with
  | nil => exact ⟨rfl, rfl⟩
  | dir name inside next ih₁ ih₂ =>
      obtain ⟨hclear, hstopped⟩ := ih₁ (name :: path) time
      rw [← hclear] at hstopped
      rw [Forest.postorder_dir, clear_append, ← hclear, sweep_dir]
      revert hstopped
      generalize sweep keeps (name :: path) time inside = s
      obtain ⟨inside', time', stopped⟩ := s
      intro hstopped
      cases inside' with
      | nil =>
          -- everything inside is gone, so only what keeps the directory itself counts
          obtain rfl : stopped = none := hstopped
          simp only [Forest.postorder_nil, clear_cons]
          split
          · exact ⟨rfl, rfl⟩
          · exact ih₂ path (time' + 1)
      | dir n i e =>
          obtain ⟨d, rest, hlist⟩ : ∃ d rest,
              (Forest.dir n i e).postorder (name :: path) = d :: rest :=
            List.exists_cons_of_ne_nil fun h => by simp at h
          have hstop : stopped = ((Forest.dir n i e).postorder (name :: path)).head? := hstopped
          rw [hlist] at hstop
          obtain rfl : stopped = some d := hstop
          rw [hlist]
          dsimp only
          rw [Forest.postorder_dir path name, hlist]
          exact ⟨rfl, rfl⟩

theorem sweep_left (path : List α) (time : Nat) (f : Forest α) :
    (sweep keeps path time f).left.postorder path = (clear keeps time (f.postorder path)).2 := by
  rw [← (sweep_clear path time f).1]

theorem sweep_time (path : List α) (time : Nat) (f : Forest α) :
    (sweep keeps path time f).time = (clear keeps time (f.postorder path)).1 := by
  rw [← (sweep_clear path time f).1]

/-- A walk leaves the names of a forest distinct, and makes no new ones. -/
theorem sweep_distinct {time : Nat} {path : List α} {f : Forest α} (hd : f.Distinct) :
    (sweep keeps path time f).left.Distinct ∧
      ∀ n ∈ (sweep keeps path time f).left.names, n ∈ f.names := by
  induction f generalizing path time with
  | nil => exact ⟨trivial, fun n hn => hn⟩
  | dir name inside next ih₁ ih₂ =>
      obtain ⟨hname, hinside, hnext⟩ := hd
      obtain ⟨hleft, -⟩ := @ih₁ time (name :: path) hinside
      rw [sweep_dir]
      revert hleft
      generalize sweep keeps (name :: path) time inside = s
      obtain ⟨inside', time', stopped⟩ := s
      intro hleft
      have hkept : (Forest.dir name inside' next).Distinct := ⟨hname, hleft, hnext⟩
      cases stopped with
      | some d => exact ⟨hkept, fun n hn => hn⟩
      | none =>
          cases inside' with
          | dir n i e => exact ⟨hkept, fun n hn => hn⟩
          | nil =>
              dsimp only
              split
              · exact ⟨hkept, fun n hn => hn⟩
              · obtain ⟨hd', hsub⟩ := @ih₂ (time' + 1) path hnext
                exact ⟨hd', fun n hn => List.mem_cons_of_mem _ (hsub n hn)⟩

end Sweep

/-! ## One directory of a larger tree -/

section At

variable [DecidableEq α] (keeps : Nat → List α → Bool)

/-- The walk of the directory that `target`, outermost component first, names in a
forest; nothing when there is no such directory. -/
def sweepAt (time : Nat) : List α → List α → Forest α → Option (Swept α)
  | _, _, .nil => none
  | _, [], .dir _ _ _ => none
  | path, [n], .dir name inside next =>
      if name = n then
        let s := sweep keeps path time (.dir name inside .nil)
        some { s with left := s.left.append next }
      else
        (sweepAt time path [n] next).map fun s => { s with left := .dir name inside s.left }
  | path, n :: m :: more, .dir name inside next =>
      if name = n then
        (sweepAt time (name :: path) (m :: more) inside).map fun s =>
          { s with left := .dir name s.left next }
      else
        (sweepAt time path (n :: m :: more) next).map fun s =>
          { s with left := .dir name inside s.left }

variable {keeps}

/-- The paths at or below one of them. -/
def below (top : List α) (ds : List (List α)) : List (List α) := ds.filter fun d => top.isSuffixOf d

/-- The paths neither at nor below it. -/
def beside (top : List α) (ds : List (List α)) : List (List α) :=
  ds.filter fun d => !top.isSuffixOf d

@[simp] theorem below_append (top : List α) (ds es : List (List α)) :
    below top (ds ++ es) = below top ds ++ below top es := List.filter_append ..

@[simp] theorem beside_append (top : List α) (ds es : List (List α)) :
    beside top (ds ++ es) = beside top ds ++ beside top es := List.filter_append ..

theorem mem_below {top d : List α} {ds : List (List α)} :
    d ∈ below top ds ↔ d ∈ ds ∧ top <:+ d := by
  rw [below, List.mem_filter, List.isSuffixOf_iff_suffix]

theorem mem_beside {top d : List α} {ds : List (List α)} :
    d ∈ beside top ds ↔ d ∈ ds ∧ ¬ top <:+ d := by
  rw [beside, List.mem_filter, ← List.isSuffixOf_iff_suffix, Bool.not_eq_true,
    Bool.not_eq_true']

/-- There is nothing at or below a directory that is not in the forest. -/
theorem below_eq_nil_iff {f : Forest α} {path top : List α} {n : α} (htop : n :: path <:+ top) :
    below top (f.postorder path) = [] ↔ top ∉ f.postorder path := by
  constructor
  · intro hnil hmem
    have hself := mem_below.2 ⟨hmem, List.suffix_refl top⟩
    rw [hnil] at hself
    cases hself
  · intro hnot
    refine List.eq_nil_iff_forall_not_mem.2 fun d hd => ?_
    obtain ⟨hmem, hsuffix⟩ := mem_below.1 hd
    exact hnot (Forest.mem_of_suffix hmem hsuffix htop)

/-- What is at or below a path is the same in two lists that agree beside another one that
has nothing in common with it. -/
theorem below_congr {top other : List α} {ds es : List (List α)}
    (h : beside other ds = beside other es) (hapart : ∀ d, top <:+ d → ¬ other <:+ d) :
    below top ds = below top es := by
  have hfilter : ∀ l : List (List α), below top l = below top (beside other l) := by
    intro l
    rw [below, below, beside, List.filter_filter]
    refine List.filter_congr fun d _ => ?_
    cases ht : top.isSuffixOf d with
    | false => rfl
    | true =>
        have hnot := hapart d (List.isSuffixOf_iff_suffix.1 ht)
        rw [← List.isSuffixOf_iff_suffix, Bool.not_eq_true] at hnot
        rw [hnot]
        rfl
  rw [hfilter ds, hfilter es, h]

theorem beside_comm (top other : List α) (ds : List (List α)) :
    beside top (beside other ds) = beside other (beside top ds) := by
  simp only [beside, List.filter_filter, Bool.and_comm]

theorem below_of_all {top : List α} {ds : List (List α)} (h : ∀ d ∈ ds, top <:+ d) :
    below top ds = ds ∧ beside top ds = [] := by
  constructor
  · exact List.filter_eq_self.2 fun d hd => List.isSuffixOf_iff_suffix.2 (h d hd)
  · exact List.filter_eq_nil_iff.2 fun d hd => by
      simp [List.isSuffixOf_iff_suffix.2 (h d hd)]

theorem below_of_none {top : List α} {ds : List (List α)} (h : ∀ d ∈ ds, ¬ top <:+ d) :
    below top ds = [] ∧ beside top ds = ds := by
  have hfalse : ∀ d ∈ ds, top.isSuffixOf d = false := fun d hd =>
    Bool.eq_false_iff.2 fun ht => h d hd (List.isSuffixOf_iff_suffix.1 ht)
  constructor
  · exact List.filter_eq_nil_iff.2 fun d hd => by simp [hfalse d hd]
  · exact List.filter_eq_self.2 fun d hd => by simp [hfalse d hd]

/-- The walk that ended in `s` acted as `clear` on the directories at and below `top`, and
left all the others. -/
structure Acts (keeps : Nat → List α → Bool) (time : Nat) (top path : List α) (f : Forest α)
    (s : Swept α) : Prop where
  left : below top (s.left.postorder path) = (clear keeps time (below top (f.postorder path))).2
  others : beside top (s.left.postorder path) = beside top (f.postorder path)
  instant : s.time = (clear keeps time (below top (f.postorder path))).1
  stopped : s.stopped = (clear keeps time (below top (f.postorder path))).2.head?

/-- Directories in front that are beside `top` change nothing. -/
theorem Acts.next {time : Nat} {top path : List α} {name : α} {inside next : Forest α}
    {s : Swept α} (h : Acts keeps time top path next s)
    (hnone : ∀ d ∈ inside.postorder (name :: path) ++ [name :: path], ¬ top <:+ d) :
    Acts keeps time top path (.dir name inside next) { s with left := .dir name inside s.left } := by
  obtain ⟨hbelow, hbeside⟩ := below_of_none hnone
  have hsplit : ∀ g : Forest α, (Forest.dir name inside g).postorder path =
      (inside.postorder (name :: path) ++ [name :: path]) ++ g.postorder path := fun g => by simp
  refine ⟨?_, ?_, ?_, ?_⟩ <;> simp only [hsplit, below_append, beside_append, hbelow, hbeside,
    List.nil_append]
  · exact h.left
  · rw [h.others]
  · exact h.instant
  · exact h.stopped

/-- Neither do those behind. -/
theorem Acts.inside {time : Nat} {top path : List α} {name : α} {inside next : Forest α}
    {s : Swept α} (h : Acts keeps time top (name :: path) inside s)
    (hnone : ∀ d ∈ (name :: path) :: next.postorder path, ¬ top <:+ d) :
    Acts keeps time top path (.dir name inside next) { s with left := .dir name s.left next } := by
  obtain ⟨hbelow, hbeside⟩ := below_of_none hnone
  refine ⟨?_, ?_, ?_, ?_⟩ <;> simp only [Forest.postorder_dir, below_append, beside_append, hbelow,
    hbeside, List.append_nil]
  · exact h.left
  · rw [h.others]
  · exact h.instant
  · exact h.stopped

/-- The walk of a directory in front of others. -/
theorem Acts.here {time : Nat} {path : List α} {name : α} {inside next : Forest α}
    (hname : name ∉ next.names) :
    Acts keeps time (name :: path) path (.dir name inside next)
      { sweep keeps path time (.dir name inside .nil) with
        left := (sweep keeps path time (.dir name inside .nil)).left.append next } := by
  have hall : ∀ d ∈ (Forest.dir name inside .nil).postorder path, name :: path <:+ d := by
    intro d hd
    obtain ⟨n, hn, hsuffix⟩ := Forest.suffix_of_mem hd
    obtain rfl := List.mem_singleton.1 hn
    exact hsuffix
  have hrest : ∀ d ∈ (clear keeps time ((Forest.dir name inside .nil).postorder path)).2,
      name :: path <:+ d := fun d hd => hall d ((clear_suffix _ _ _).subset hd)
  obtain ⟨hbelow, hbeside⟩ := below_of_none (Forest.none_below hname (List.suffix_refl (name :: path)))
  have hsplit : (Forest.dir name inside next).postorder path =
      (Forest.dir name inside .nil).postorder path ++ next.postorder path := by simp
  refine ⟨?_, ?_, ?_, ?_⟩ <;> simp only [hsplit, Forest.postorder_append, sweep_left, below_append,
    beside_append, hbelow, hbeside, List.append_nil, (below_of_all hall).1, (below_of_all hall).2,
    List.nil_append]
  · exact (below_of_all hrest).1
  · rw [(below_of_all hrest).2, List.nil_append]
  · exact sweep_time path time _
  · exact (sweep_clear path time _).2

/-- The walk of one directory acts on the list of that directory as `clear` does. -/
theorem sweepAt_acts {time : Nat} {path target : List α} {f : Forest α} {s : Swept α}
    (hd : f.Distinct) (h : sweepAt keeps time path target f = some s) :
    Acts keeps time (target.reverse ++ path) path f s := by
  induction f generalizing path target s with
  | nil => cases target <;> cases h
  | dir name inside next ih₁ ih₂ =>
      obtain ⟨hname, hinside, hnext⟩ := hd
      cases target with
      | nil => cases h
      | cons n more =>
          -- everything at and below the target is below the first directory on the way
          have htop : n :: path <:+ (n :: more).reverse ++ path := by simp
          cases more with
          | nil =>
              unfold sweepAt at h
              split at h
              · rename_i heq
                subst heq
                obtain rfl := Option.some.inj h
                exact Acts.here hname
              · rename_i hne
                obtain ⟨s', hs', rfl⟩ := Option.map_eq_some_iff.1 h
                exact (ih₂ hnext hs').next (Forest.none_below_other hne htop)
          | cons m more =>
              unfold sweepAt at h
              split at h
              · rename_i heq
                subst heq
                obtain ⟨s', hs', rfl⟩ := Option.map_eq_some_iff.1 h
                have hacts := ih₁ hinside hs'
                have hpath : (name :: m :: more).reverse ++ path =
                    (m :: more).reverse ++ (name :: path) := by simp
                rw [hpath] at htop ⊢
                refine hacts.inside fun d hd => ?_
                rcases List.mem_cons.1 hd with rfl | hd
                · intro hsuffix
                  have hlength := hsuffix.length_le
                  simp at hlength
                  omega
                · exact Forest.none_below hname htop d hd
              · rename_i hne
                obtain ⟨s', hs', rfl⟩ := Option.map_eq_some_iff.1 h
                exact (ih₂ hnext hs').next (Forest.none_below_other hne htop)

/-- The names stay distinct, and there are no new ones. -/
theorem sweepAt_distinct {time : Nat} {path target : List α} {f : Forest α} {s : Swept α}
    (hd : f.Distinct) (h : sweepAt keeps time path target f = some s) :
    s.left.Distinct ∧ ∀ n ∈ s.left.names, n ∈ f.names := by
  induction f generalizing path target s with
  | nil => cases target <;> cases h
  | dir name inside next ih₁ ih₂ =>
      obtain ⟨hname, hinside, hnext⟩ := hd
      -- a walk behind the first directory
      have hbehind : ∀ {target' s'}, sweepAt keeps time path target' next = some s' →
          (Forest.dir name inside s'.left).Distinct ∧
            ∀ n ∈ (Forest.dir name inside s'.left).names, n ∈ (Forest.dir name inside next).names := by
        intro target' s' hs'
        obtain ⟨hleft, hsub⟩ := ih₂ hnext hs'
        exact ⟨⟨fun hn => hname (hsub _ hn), hinside, hleft⟩,
          fun n hn => by
            rcases List.mem_cons.1 hn with rfl | hn
            · exact List.mem_cons_self
            · exact List.mem_cons_of_mem _ (hsub n hn)⟩
      match target with
      | [] => cases h
      | [n] =>
          unfold sweepAt at h
          split at h
          · obtain rfl := Option.some.inj h
            have hone : (Forest.dir name inside .nil).Distinct := ⟨by simp [Forest.names], hinside, trivial⟩
            obtain ⟨hleft, hsub⟩ := @sweep_distinct _ keeps time path _ hone
            refine ⟨hleft.append hnext fun m hm => ?_, fun m hm => ?_⟩
            · obtain rfl := List.mem_singleton.1 (hsub m hm)
              exact hname
            · rw [Forest.names_append, List.mem_append] at hm
              rcases hm with hm | hm
              · obtain rfl := List.mem_singleton.1 (hsub m hm)
                exact List.mem_cons_self
              · exact List.mem_cons_of_mem _ hm
          · obtain ⟨s', hs', rfl⟩ := Option.map_eq_some_iff.1 h
            exact hbehind hs'
      | n :: m :: more =>
          unfold sweepAt at h
          split at h
          · obtain ⟨s', hs', rfl⟩ := Option.map_eq_some_iff.1 h
            exact ⟨⟨hname, (ih₁ hinside hs').1, hnext⟩, fun n hn => hn⟩
          · obtain ⟨s', hs', rfl⟩ := Option.map_eq_some_iff.1 h
            exact hbehind hs'

/-- There is something to walk exactly when the directory is in the tree. -/
theorem sweepAt_isSome {time : Nat} {path target : List α} {f : Forest α} (hd : f.Distinct)
    (htarget : target ≠ []) :
    (sweepAt keeps time path target f).isSome = true ↔
      target.reverse ++ path ∈ f.postorder path := by
  induction f generalizing path target with
  | nil => cases target <;> simp [sweepAt]
  | dir name inside next ih₁ ih₂ =>
      obtain ⟨hname, hinside, hnext⟩ := hd
      cases target with
      | nil => exact absurd rfl htarget
      | cons n more =>
          have htop : n :: path <:+ (n :: more).reverse ++ path := by simp
          -- what is below a directory of another name is somewhere else
          have hother : name ≠ n →
              (n :: more).reverse ++ path ∉ inside.postorder (name :: path) ++ [name :: path] :=
            fun hne hmem => Forest.none_below_other hne htop _ hmem (List.suffix_refl _)
          have hsplit : (Forest.dir name inside next).postorder path =
              (inside.postorder (name :: path) ++ [name :: path]) ++ next.postorder path := by simp
          cases more with
          | nil =>
              unfold sweepAt
              split
              · rename_i heq
                subst heq
                simp
              · rename_i hne
                rw [Option.isSome_map, ih₂ hnext (by simp), hsplit, List.mem_append]
                exact ⟨Or.inr, fun h => h.resolve_left (hother hne)⟩
          | cons m more =>
              unfold sweepAt
              split
              · rename_i heq
                subst heq
                have hpath : (name :: m :: more).reverse ++ path =
                    (m :: more).reverse ++ (name :: path) := by simp
                rw [Option.isSome_map, ih₁ hinside (by simp), hpath, Forest.postorder_dir,
                  List.mem_append]
                -- the target is below this directory, neither itself nor one behind it
                refine ⟨Or.inl, fun h => h.resolve_right fun h => ?_⟩
                rcases List.mem_cons.1 h with h | h
                · have hlength := congrArg List.length h
                  simp at hlength
                  omega
                · exact Forest.none_below hname (hpath ▸ htop) _ h (List.suffix_refl _)
              · rename_i hne
                rw [Option.isSome_map, ih₂ hnext (by simp), hsplit, List.mem_append]
                exact ⟨Or.inr, fun h => h.resolve_left (hother hne)⟩

end At

end Vzgot.Ftw
