import Mathlib.Data.List.Infix

/-!
# Histories whose events are justified by what went before

A history is a list of events, the latest one last. It is justified when each event is allowed by the
events before it. A justified history grows by allowed events only, and what it says about two of its
events follows from what the later one says about the past.
-/

namespace EvidenceBraid

variable {ε : Type*} {good : List ε → ε → Prop} {h : List ε}

/-- Every event is allowed by the events before it. -/
def Justified (good : List ε → ε → Prop) (h : List ε) : Prop :=
  ∀ h₁ e h₂, h = h₁ ++ e :: h₂ → good h₁ e

/-- What holds of a history and of one more event. -/
theorem forall_mem_concat {p : ε → Prop} {e : ε} (hh : ∀ x ∈ h, p x) (he : p e) :
    ∀ x ∈ h ++ [e], p x :=
  List.forall_mem_append.mpr ⟨hh, List.forall_mem_singleton.mpr he⟩

namespace Justified

theorem nil : Justified good [] := by
  intro h₁ e h₂ heq
  exact absurd heq.symm (by simp)

/-- A history grows by an event that is allowed. -/
theorem concat (hh : Justified good h) {e : ε} (he : good h e) : Justified good (h ++ [e]) := by
  intro h₁ x h₂ heq
  rcases List.eq_nil_or_concat h₂ with rfl | ⟨h₃, y, rfl⟩
  · obtain ⟨rfl, hx⟩ := List.append_inj' heq rfl
    cases hx
    exact he
  · have hsplit : h ++ [e] = (h₁ ++ x :: h₃) ++ [y] := by
      rw [heq]
      simp
    obtain ⟨rfl, -⟩ := List.append_inj' hsplit rfl
    exact hh h₁ x h₃ rfl

/-- The later of two events was allowed after the earlier one. -/
theorem later (hh : Justified good h) {h₁ h₂ : List ε} {e x : ε} (heq : h = h₁ ++ e :: h₂)
    (hx : x ∈ h₂) : ∃ past, e ∈ past ∧ h₁ <+: past ∧ good past x := by
  obtain ⟨h₃, h₄, rfl⟩ := List.append_of_mem hx
  refine ⟨h₁ ++ e :: h₃, by simp, List.prefix_append _ _, hh _ x h₄ ?_⟩
  rw [heq]
  simp

/-- Events that are allowed only when none of their kind came before: there is at most one. -/
theorem countP_le_one {p : ε → Bool} (hh : Justified good h)
    (hfirst : ∀ past e, good past e → p e = true → ∀ x ∈ past, p x = false) :
    h.countP p ≤ 1 := by
  by_cases hnone : ∃ e ∈ h, p e = true
  · obtain ⟨e, he, hpe⟩ := hnone
    obtain ⟨h₁, h₂, heq⟩ := List.append_of_mem he
    have hbefore : h₁.countP p = 0 := by
      rw [List.countP_eq_zero]
      intro x hx
      rw [hfirst h₁ e (hh h₁ e h₂ heq) hpe x hx]
      exact Bool.false_ne_true
    have hafter : h₂.countP p = 0 := by
      rw [List.countP_eq_zero]
      intro x hx hpx
      obtain ⟨past, hmem, -, hgood⟩ := hh.later heq hx
      rw [hfirst past x hgood hpx e hmem] at hpe
      exact Bool.false_ne_true hpe
    rw [heq, List.countP_append, List.countP_cons_of_pos hpe, hbefore, hafter]
  · have hzero : h.countP p = 0 :=
      List.countP_eq_zero.mpr fun e he hpe => hnone ⟨e, he, hpe⟩
    rw [hzero]
    exact Nat.zero_le 1

end Justified

end EvidenceBraid
