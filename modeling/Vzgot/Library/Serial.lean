import Mathlib.Data.List.Basic

/-!
# Histories without interleaving

A history is the list of the marks of some actors, newest first: an actor starts a run, or
acts. It is serial when nobody else acts between two acts of one run of an actor
(`Serial.between`). Actors that exclude each other while they act have a serial history:
acts keep what is asked for their actor (`Serial.acts`), and an actor that has not acted in its
run may begin (`AloneSince.of_fresh`).
-/

set_option autoImplicit false

namespace Vzgot.Marks

universe u

/-- A mark of an actor. -/
inductive Mark (α : Type u) where
  | start (a : α)
  | act (a : α)

variable {α : Type u} [DecidableEq α]

/-- Who has acted since the actor has started its run. -/
def since (p : α) : List (Mark α) → List α
  | [] => []
  | .start q :: older => if q = p then [] else since p older
  | .act q :: older => q :: since p older

/-- The actor has not acted in its run. -/
def Fresh (p : α) (marks : List (Mark α)) : Prop := p ∉ since p marks

/-- Since its first act in the run nobody else has acted. -/
def AloneSince (p : α) (marks : List (Mark α)) : Prop := p ∉ (since p marks).dropWhile (· = p)

/-- Every act comes from an actor that was alone. -/
def Serial : List (Mark α) → Prop
  | [] => True
  | .start _ :: older => Serial older
  | .act p :: older => AloneSince p older ∧ Serial older

section Marks

variable {p q : α} {marks : List (Mark α)}

theorem fresh_start (p : α) (marks : List (Mark α)) : Fresh p (.start p :: marks) := by
  rw [Fresh, since, if_pos rfl]
  exact List.not_mem_nil

theorem Fresh.start (h : Fresh p marks) (hq : q ≠ p) : Fresh p (.start q :: marks) := by
  rw [Fresh, since, if_neg hq]
  exact h

theorem Fresh.act (h : Fresh p marks) (hq : q ≠ p) : Fresh p (.act q :: marks) := by
  rw [Fresh, since, List.mem_cons]
  rintro (rfl | hmem)
  · exact hq rfl
  · exact h hmem

theorem AloneSince.of_fresh (h : Fresh p marks) : AloneSince p marks := fun hmem =>
  h ((List.dropWhile_suffix _).subset hmem)

theorem AloneSince.start (h : AloneSince p marks) (hq : q ≠ p) : AloneSince p (.start q :: marks) := by
  rw [AloneSince, since, if_neg hq]
  exact h

theorem AloneSince.act (h : AloneSince p marks) : AloneSince p (.act p :: marks) := by
  rw [AloneSince, since, List.dropWhile_cons_of_pos (by simp)]
  exact h

theorem AloneSince.acts (h : AloneSince p marks) (n : Nat) :
    AloneSince p (List.replicate n (.act p) ++ marks) := by
  induction n with
  | zero => exact h
  | succ n ih => exact ih.act

theorem Fresh.acts (h : Fresh p marks) (hq : q ≠ p) (n : Nat) :
    Fresh p (List.replicate n (.act q) ++ marks) := by
  induction n with
  | zero => exact h
  | succ n ih => exact ih.act hq

/-- Several acts of one actor, alone before the first of them. -/
theorem Serial.acts (h : Serial marks) (ha : AloneSince p marks) (n : Nat) :
    Serial (List.replicate n (.act p) ++ marks) := by
  induction n with
  | zero => exact h
  | succ n ih => exact ⟨ha.acts n, ih⟩

/-- The acts between two acts of a run. -/
theorem since_append {mid old : List (Mark α)} (hstart : .start p ∉ mid) :
    since p (mid ++ old) = since p mid ++ since p old := by
  induction mid with
  | nil => rfl
  | cons m mid ih =>
      have hrest : Mark.start p ∉ mid := fun h => hstart (List.mem_cons_of_mem m h)
      cases m with
      | act r => rw [List.cons_append, since, since, ih hrest, List.cons_append]
      | start r =>
          have hr : r ≠ p := by
            rintro rfl
            exact hstart List.mem_cons_self
          rw [List.cons_append, since, since, if_neg hr, if_neg hr, ih hrest]

theorem mem_since {mid : List (Mark α)} (hstart : .start p ∉ mid) (hq : .act q ∈ mid) :
    q ∈ since p mid := by
  induction mid with
  | nil => cases hq
  | cons m mid ih =>
      have hrest : Mark.start p ∉ mid := fun h => hstart (List.mem_cons_of_mem m h)
      cases m with
      | act r =>
          rw [since, List.mem_cons]
          rcases List.mem_cons.1 hq with heq | hq
          · cases heq
            exact .inl rfl
          · exact .inr (ih hrest hq)
      | start r =>
          have hr : r ≠ p := by
            rintro rfl
            exact hstart List.mem_cons_self
          rw [since, if_neg hr]
          rcases List.mem_cons.1 hq with heq | hq
          · cases heq
          · exact ih hrest hq

theorem Serial.of_append {new : List (Mark α)} (h : Serial (new ++ marks)) : Serial marks := by
  induction new with
  | nil => exact h
  | cons m new ih =>
      cases m with
      | start r => exact ih h
      | act r => exact ih h.2

/-- An actor stands behind the first other one. -/
theorem mem_dropWhile_append {l : List α} (hq : q ∈ l) (hne : q ≠ p) (later : List α) :
    p ∈ (l ++ p :: later).dropWhile (· = p) := by
  induction l with
  | nil => cases hq
  | cons r l ih =>
      by_cases hr : r = p
      · rw [List.cons_append, List.dropWhile_cons_of_pos (by simpa using hr)]
        rcases List.mem_cons.1 hq with rfl | hq
        · exact absurd hr hne
        · exact ih hq
      · rw [List.cons_append, List.dropWhile_cons_of_neg (by simpa using hr)]
        simp

/-- Between two acts of one run of an actor there is no act of another one. -/
theorem Serial.between {new mid old : List (Mark α)}
    (h : Serial (new ++ .act p :: mid ++ .act p :: old)) (hstart : .start p ∉ mid)
    (hq : .act q ∈ mid) : q = p := by
  have hlast : AloneSince p (mid ++ .act p :: old) := by
    rw [List.append_assoc, List.cons_append] at h
    exact h.of_append.1
  rw [AloneSince, since_append hstart, since] at hlast
  by_contra hne
  exact hlast (mem_dropWhile_append (mem_since hstart hq) hne _)

end Marks

end Vzgot.Marks
