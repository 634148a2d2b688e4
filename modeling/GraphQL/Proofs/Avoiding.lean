import Mathlib.Logic.Relation

/-!
# Walks that avoid labels

A depth-first walk with a path of labels takes a step only from something
whose label is not on the path, and puts the label on the path. That it
reaches everything that can be reached rests on one fact about relations: a
walk either never uses a label, or it can be started over behind its last
use of it.
-/

namespace GraphQL

open Relation

variable {α β : Type} {Step : α → α → Prop} {label : α → Option β} {path : List β}

/-- A step from something whose label, if it has one, is not on the path. -/
def Avoiding (Step : α → α → Prop) (label : α → Option β) (path : List β) (a b : α) : Prop :=
  Step a b ∧ ∀ name, label a = some name → name ∉ path

theorem avoiding_nil (Step : α → α → Prop) (label : α → Option β) :
    Avoiding Step label [] = Step := by
  funext a b
  simp [Avoiding]

theorem Avoiding.cons {name : β} {a b : α} (h : Avoiding Step label path a b)
    (hn : label a ≠ some name) : Avoiding Step label (name :: path) a b := by
  refine ⟨h.1, ?_⟩
  intro other ho hm
  rcases List.mem_cons.1 hm with rfl | hm
  · exact hn ho
  · exact h.2 other ho hm

/-- **The cut loses nothing**: a walk that avoids a path either avoids one
more label too, or what follows its last use of that label does. -/
theorem avoiding_cons_or (name : β) {a c : α}
    (h : ReflTransGen (Avoiding Step label path) a c) :
    ReflTransGen (Avoiding Step label (name :: path)) a c ∨
      ∃ b d, label b = some name ∧ Step b d ∧
        ReflTransGen (Avoiding Step label (name :: path)) d c := by
  induction h using ReflTransGen.head_induction_on with
  | refl => exact .inl .refl
  | @head a d hstep _ ih =>
    rcases ih with hd | hlater
    · by_cases hn : label a = some name
      · exact .inr ⟨a, d, hn, hstep.1, hd⟩
      · exact .inl (.head (hstep.cons hn) hd)
    · exact .inr hlater

end GraphQL
