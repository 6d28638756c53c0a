import Mathlib.Data.List.Infix

/-!
# Splitting at a separator

The first occurrence of a separator in a list, and what comes before and after it. Bytes that follow
do not change where it is.
-/

namespace Separator

variable {α : Type} [DecidableEq α]

/-- What comes before and after the first occurrence of a separator. -/
def splitFirst (sep : List α) : List α → Option (List α × List α)
  | [] => none
  | a :: as =>
    if sep <+: a :: as then some ([], (a :: as).drop sep.length)
    else (splitFirst sep as).map fun parts => (a :: parts.1, parts.2)

/-- The parts between all occurrences. -/
def splitAll (sep : List α) (xs : List α) : List (List α) :=
  match splitFirst sep xs with
  | none => [xs]
  | some (first, rest) => if rest.length < xs.length then first :: splitAll sep rest else [first]
termination_by xs.length

theorem eq_of_splitFirst {sep : List α} : ∀ {xs before after : List α},
    splitFirst sep xs = some (before, after) → xs = before ++ (sep ++ after)
  | [], _, _, h => by simp [splitFirst] at h
  | a :: as, before, after, h => by
    rw [splitFirst] at h
    by_cases hsep : sep <+: a :: as
    · rw [if_pos hsep] at h
      obtain ⟨rfl, rfl⟩ := Prod.mk.inj (Option.some.inj h)
      obtain ⟨rest, hrest⟩ := hsep
      rw [← hrest, List.drop_left, List.nil_append]
    · rw [if_neg hsep, Option.map_eq_some_iff] at h
      obtain ⟨⟨before', after'⟩, hrest, hparts⟩ := h
      obtain ⟨rfl, rfl⟩ := Prod.mk.inj hparts
      rw [List.cons_append, ← eq_of_splitFirst hrest]

/-- What follows does not move the first occurrence. -/
theorem splitFirst_append {sep : List α} : ∀ {xs before after : List α} (ys : List α),
    splitFirst sep xs = some (before, after) →
      splitFirst sep (xs ++ ys) = some (before, after ++ ys)
  | [], _, _, _, h => by simp [splitFirst] at h
  | a :: as, before, after, ys, h => by
    have hlength := congrArg List.length (eq_of_splitFirst h)
    rw [splitFirst] at h
    rw [List.cons_append, splitFirst]
    by_cases hsep : sep <+: a :: as
    · have hlonger : sep <+: a :: (as ++ ys) := hsep.trans (List.prefix_append (a :: as) ys)
      rw [if_pos hsep] at h
      obtain ⟨rfl, rfl⟩ := Prod.mk.inj (Option.some.inj h)
      rw [if_pos hlonger, ← List.cons_append, List.drop_append_of_le_length hsep.length_le]
    · -- The list holds an occurrence, so it is too long for one that reaches into what follows.
      have hnot : ¬ sep <+: a :: (as ++ ys) := by
        intro hlonger
        apply hsep
        apply List.prefix_of_prefix_length_le hlonger (List.prefix_append (a :: as) ys)
        rw [hlength, List.length_append, List.length_append]
        omega
      rw [if_neg hsep, Option.map_eq_some_iff] at h
      obtain ⟨⟨before', after'⟩, hrest, hparts⟩ := h
      obtain ⟨rfl, rfl⟩ := Prod.mk.inj hparts
      rw [if_neg hnot, splitFirst_append ys hrest, Option.map_some]

end Separator
