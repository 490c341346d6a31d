import Mathlib.Data.List.Basic

/-!
# Ledgers

A ledger is the list of the events of a run, newest first. `latest` is the value of
a flag that some events set and the others leave alone. `Preceded` says that every
event of one kind has an event of another kind before it.
-/

set_option autoImplicit false

namespace Vzgot.Ledger

universe u v

variable {α : Type u} {β : Type v}

/-- Value set by the newest event that sets one, `init` when none does. -/
def latest (sets : α → Option β) (init : β) : List α → β
  | [] => init
  | e :: older => (sets e).getD (latest sets init older)

/-- Every event that needs it has a `given` event before it. -/
def Preceded (needs given : α → Prop) : List α → Prop
  | [] => True
  | e :: older => (needs e → ∃ g ∈ older, given g) ∧ Preceded needs given older

instance decidablePreceded (needs given : α → Prop) [DecidablePred needs]
    [DecidablePred given] : ∀ events, Decidable (Preceded needs given events)
  | [] => .isTrue trivial
  | _ :: older =>
      have := decidablePreceded needs given older
      inferInstanceAs (Decidable (_ ∧ _))

section Latest

variable {sets : α → Option β} {init : β}

@[simp] theorem latest_nil : latest sets init [] = init := rfl

theorem latest_cons (e : α) (older : List α) :
    latest sets init (e :: older) = (sets e).getD (latest sets init older) := rfl

/-- Events that leave the flag alone. -/
theorem latest_append_of_none {new older : List α} (h : ∀ e ∈ new, sets e = none) :
    latest sets init (new ++ older) = latest sets init older := by
  induction new with
  | nil => rfl
  | cons e new ih =>
      rw [List.cons_append, latest_cons, h e (List.mem_cons_self ..)]
      exact ih fun e' he' => h e' (List.mem_cons_of_mem _ he')

end Latest

section Precedence

variable {needs given : α → Prop} {new older : List α}

theorem Preceded.of_append (h : Preceded needs given (new ++ older)) :
    Preceded needs given older := by
  induction new with
  | nil => exact h
  | cons _ _ ih => exact ih h.2

/-- Events that need nothing. -/
theorem Preceded.append_of_not (h : Preceded needs given older) (hn : ∀ e ∈ new, ¬ needs e) :
    Preceded needs given (new ++ older) := by
  induction new with
  | nil => exact h
  | cons e new ih =>
      refine ⟨fun he => absurd he (hn e (List.mem_cons_self ..)), ih fun e' he' => ?_⟩
      exact hn e' (List.mem_cons_of_mem _ he')

/-- Events behind a `given` event. -/
theorem Preceded.append_of_given (h : Preceded needs given older) (hg : ∃ g ∈ older, given g) :
    Preceded needs given (new ++ older) := by
  induction new with
  | nil => exact h
  | cons e new ih =>
      obtain ⟨g, hmem, hgiven⟩ := hg
      exact ⟨fun _ => ⟨g, List.mem_append_right _ hmem, hgiven⟩, ih⟩

/-- An event that needs a `given` event and has none before it. -/
theorem not_preceded {e : α} (he : e ∈ new) (hneeds : needs e)
    (hnone : ∀ g ∈ new ++ older, ¬ given g) : ¬ Preceded needs given (new ++ older) := by
  induction new with
  | nil => cases he
  | cons a new ih =>
      intro h
      have hrest : ∀ g ∈ new ++ older, ¬ given g :=
        fun g hg => hnone g (List.mem_cons_of_mem _ hg)
      rcases List.mem_cons.1 he with rfl | he
      · obtain ⟨g, hg, hgiven⟩ := h.1 hneeds
        exact hrest g hg hgiven
      · exact ih he hrest h.2

end Precedence

end Vzgot.Ledger
