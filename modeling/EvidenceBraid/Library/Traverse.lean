import Mathlib.Data.List.Forall2
import Mathlib.Data.List.Perm.Basic

/-!
# Loops that may raise

`xs.mapM f` over `Except` returns when `f` returns on every item, with its results in order
(`mapM_eq_ok`). On a permuted list it returns a permutation of the results (`mapM_perm`).
-/

namespace List

variable {ε α β : Type} {f : α → Except ε β}

theorem mapM_eq_ok : ∀ {xs : List α} {ys : List β},
    xs.mapM f = .ok ys ↔ Forall₂ (fun x y => f x = .ok y) xs ys
  | [], ys => by
    rw [mapM_nil, forall₂_nil_left_iff]
    constructor
    · intro h
      exact (Except.ok.inj h).symm
    · rintro rfl
      rfl
  | x :: xs, ys => by
    rw [mapM_cons]
    constructor
    · intro h
      rcases hx : f x with e | y
      · rw [hx] at h
        cases h
      · rcases hxs : xs.mapM f with e | zs
        · rw [hx, hxs] at h
          cases h
        · rw [hx, hxs] at h
          obtain rfl : y :: zs = ys := Except.ok.inj h
          exact .cons hx (mapM_eq_ok.mp hxs)
    · rintro (_ | ⟨hx, hxs⟩)
      rw [hx, mapM_eq_ok.mpr hxs]
      rfl

theorem exists_of_mem_forall₂ {R : α → β → Prop} {xs : List α} {ys : List β} (h : Forall₂ R xs ys)
    {y : β} (hy : y ∈ ys) : ∃ x ∈ xs, R x y := by
  induction h with
  | nil => cases hy
  | cons hx _ ih =>
    rcases mem_cons.mp hy with rfl | hy
    · exact ⟨_, mem_cons_self, hx⟩
    · obtain ⟨x, hmem, hx⟩ := ih hy
      exact ⟨x, mem_cons_of_mem _ hmem, hx⟩

theorem exists_of_forall₂_mem {R : α → β → Prop} {xs : List α} {ys : List β} (h : Forall₂ R xs ys)
    {x : α} (hx : x ∈ xs) : ∃ y ∈ ys, R x y := exists_of_mem_forall₂ h.flip hx

theorem forall₂_congr_mem {R S : α → β → Prop} {xs : List α} {ys : List β}
    (h : ∀ x ∈ xs, ∀ y, R x y ↔ S x y) : Forall₂ R xs ys ↔ Forall₂ S xs ys := by
  induction xs generalizing ys with
  | nil => rw [forall₂_nil_left_iff, forall₂_nil_left_iff]
  | cons x xs ih =>
    rw [forall_mem_cons] at h
    rw [forall₂_cons_left_iff, forall₂_cons_left_iff]
    simp only [h.1, ih h.2]

theorem exists_of_mem_mapM {xs : List α} {ys : List β} (h : xs.mapM f = .ok ys) {y : β}
    (hy : y ∈ ys) : ∃ x ∈ xs, f x = .ok y := exists_of_mem_forall₂ (mapM_eq_ok.mp h) hy

theorem exists_of_mem_of_mapM {xs : List α} {ys : List β} (h : xs.mapM f = .ok ys) {x : α}
    (hx : x ∈ xs) : ∃ y ∈ ys, f x = .ok y := exists_of_forall₂_mem (mapM_eq_ok.mp h) hx

/-- A loop returns when every round does. -/
theorem exists_mapM {xs : List α} (h : ∀ x ∈ xs, ∃ y, f x = .ok y) : ∃ ys, xs.mapM f = .ok ys := by
  induction xs with
  | nil => exact ⟨[], rfl⟩
  | cons x xs ih =>
    rw [forall_mem_cons] at h
    obtain ⟨y, hy⟩ := h.1
    obtain ⟨ys, hys⟩ := ih h.2
    exact ⟨y :: ys, mapM_eq_ok.mpr (.cons hy (mapM_eq_ok.mp hys))⟩

/-- **A loop over a permuted list** returns the same results, permuted. -/
theorem mapM_perm {xs xs' : List α} {ys : List β} (hperm : xs'.Perm xs) (h : xs.mapM f = .ok ys) :
    ∃ ys', xs'.mapM f = .ok ys' ∧ ys'.Perm ys := by
  obtain ⟨ys', hys', hperm'⟩ := perm_comp_forall₂ hperm (mapM_eq_ok.mp h)
  exact ⟨ys', mapM_eq_ok.mpr hys', hperm'⟩

theorem mapM_map_eq {γ : Type} {g : β → γ} {k : α → γ} {xs : List α} {ys : List β}
    (h : xs.mapM f = .ok ys) (hkey : ∀ x y, f x = .ok y → g y = k x) : ys.map g = xs.map k := by
  rw [mapM_eq_ok] at h
  induction h with
  | nil => rfl
  | cons hx _ ih => rw [map_cons, map_cons, ih, hkey _ _ hx]

/-- A loop over part of a list returns that part of the results. -/
theorem mapM_filter {p : α → Bool} {q : β → Bool} {xs : List α} {ys : List β}
    (h : xs.mapM f = .ok ys) (hpq : ∀ x y, f x = .ok y → q y = p x) :
    (xs.filter p).mapM f = .ok (ys.filter q) := by
  rw [mapM_eq_ok] at h ⊢
  induction h with
  | nil => exact .nil
  | @cons x y _ _ hx _ ih =>
    rw [filter_cons, filter_cons, hpq x y hx]
    split
    · exact .cons hx ih
    · exact ih

/-- A loop whose rounds return what those of another do. -/
theorem mapM_imp {g : α → Except ε β} {xs : List α} {ys : List β} (h : xs.mapM f = .ok ys)
    (himp : ∀ x ∈ xs, ∀ y, f x = .ok y → g x = .ok y) : xs.mapM g = .ok ys := by
  rw [mapM_eq_ok] at h ⊢
  induction h with
  | nil => exact .nil
  | cons hx _ ih =>
    rw [forall_mem_cons] at himp
    exact .cons (himp.1 _ hx) (ih himp.2)

/-- A loop whose rounds are related to those of a loop that returns. -/
theorem exists_mapM_related {γ δ : Type} {k : α → γ} {g : γ → Except ε δ} {R : β → δ → Prop}
    {xs : List α} {ys : List β} (h : xs.mapM f = .ok ys)
    (hround : ∀ x ∈ xs, ∀ y, f x = .ok y → ∃ z, g (k x) = .ok z ∧ R y z) :
    ∃ zs, (xs.map k).mapM g = .ok zs ∧ Forall₂ R ys zs := by
  rw [mapM_eq_ok] at h
  induction h with
  | nil => exact ⟨[], rfl, .nil⟩
  | @cons x y xs ys hy _ ih =>
    obtain ⟨z, hz, hyz⟩ := hround x mem_cons_self y hy
    obtain ⟨zs, hzs, hyzs⟩ := ih fun x hx => hround x (mem_cons_of_mem _ hx)
    refine ⟨z :: zs, ?_, .cons hyz hyzs⟩
    rw [mapM_eq_ok] at hzs ⊢
    exact .cons hz hzs

/-- Loops whose rounds agree are equal. -/
theorem mapM_congr_mem {g : α → Except ε β} {xs : List α} (h : ∀ x ∈ xs, f x = g x) :
    xs.mapM f = xs.mapM g := by
  induction xs with
  | nil => rfl
  | cons x xs ih =>
    rw [forall_mem_cons] at h
    rw [mapM_cons, mapM_cons, h.1, ih h.2]

end List
