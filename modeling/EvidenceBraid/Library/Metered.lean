import Mathlib.Data.List.Forall2
import Mathlib.Order.Basic

/-!
# Metered computations

A computation that counts its work in a meter, admits it only within limits, and may fail.
`Stable` says that limits can only turn an answer into an error: what is computed within some
limits is computed, and with the same meter, within all larger ones. The operations that read the
limits are tests that larger limits pass as well; everything built from them is stable.
-/

/-- A computation over a meter `S` within limits `L`. -/
def Metered (L S ε α : Type) := L → S → Except ε (α × S)

namespace Metered

variable {L S ε α β : Type}

instance : Monad (Metered L S ε) where
  pure a := fun _ s => .ok (a, s)
  bind x f := fun l s =>
    match x l s with
    | .ok (a, s') => f a l s'
    | .error e => .error e

/-- A computation that neither reads the limits nor counts. -/
def lift (x : Except ε α) : Metered L S ε α := fun _ s =>
  match x with
  | .ok a => .ok (a, s)
  | .error e => .error e

/-- Fail unless the meter is within the limits. -/
def allow (p : L → S → Prop) [∀ l s, Decidable (p l s)] (e : ε) : Metered L S ε Unit := fun l s =>
  if p l s then .ok ((), s) else .error e

/-- Count. -/
def tally (f : S → S) : Metered L S ε Unit := fun _ s => .ok ((), f s)

/-- One computation for each item, in order. -/
def mapEach (f : α → Metered L S ε β) : List α → Metered L S ε (List β)
  | [] => pure []
  | a :: as => do
    let b ← f a
    let bs ← mapEach f as
    pure (b :: bs)

/-! ## What has been computed -/

variable {l : L} {s : S}

@[simp] theorem pure_eq_ok {a : α} {r : α × S} :
    (pure a : Metered L S ε α) l s = .ok r ↔ r = (a, s) := by
  show Except.ok (a, s) = Except.ok r ↔ _
  rw [Except.ok.injEq, eq_comm]

@[simp] theorem bind_eq_ok {x : Metered L S ε α} {f : α → Metered L S ε β} {r : β × S} :
    (x >>= f) l s = .ok r ↔ ∃ a s', x l s = .ok (a, s') ∧ f a l s' = .ok r := by
  show (match x l s with
    | .ok (a, s') => f a l s'
    | .error e => .error e) = .ok r ↔ _
  cases x l s with
  | error e => simp
  | ok p =>
    obtain ⟨a, s'⟩ := p
    show f a l s' = .ok r ↔ _
    refine ⟨fun h => ⟨a, s', rfl, h⟩, ?_⟩
    rintro ⟨b, t, hok, h⟩
    rw [Except.ok.injEq, Prod.mk.injEq] at hok
    rw [hok.1, hok.2]
    exact h

@[simp] theorem lift_eq_ok {x : Except ε α} {r : α × S} :
    (lift x : Metered L S ε α) l s = .ok r ↔ x = .ok r.1 ∧ r.2 = s := by
  obtain ⟨a, s'⟩ := r
  cases x with
  | error e => simp [lift]
  | ok b => simp [lift, eq_comm]

@[simp] theorem allow_eq_ok {p : L → S → Prop} [∀ l s, Decidable (p l s)] {e : ε} {r : Unit × S} :
    allow p e l s = .ok r ↔ p l s ∧ r.2 = s := by
  by_cases h : p l s
  · simp [allow, h, Prod.ext_iff, eq_comm]
  · simp [allow, h]

@[simp] theorem tally_eq_ok {f : S → S} {r : Unit × S} :
    (tally f : Metered L S ε Unit) l s = .ok r ↔ r.2 = f s := by
  simp [tally, Prod.ext_iff, eq_comm]

/-! ## What has failed -/

theorem bind_eq_error {x : Metered L S ε α} {f : α → Metered L S ε β} {e : ε} :
    (x >>= f) l s = .error e ↔
      x l s = .error e ∨ ∃ a s', x l s = .ok (a, s') ∧ f a l s' = .error e := by
  cases h : x l s with
  | error e' => simp only [bind, h, Except.error.injEq, reduceCtorEq, false_and, exists_false, or_false]
  | ok r =>
    obtain ⟨a, s'⟩ := r
    simp [bind, h]

theorem allow_eq_error {p : L → S → Prop} [∀ l s, Decidable (p l s)] {e e' : ε} :
    allow p e l s = .error e' ↔ ¬p l s ∧ e = e' := by
  by_cases h : p l s
  · simp [allow, h]
  · simp [allow, h]

theorem tally_ne_error {f : S → S} {e : ε} : (tally f : Metered L S ε Unit) l s ≠ .error e := by
  simp [tally]

theorem lift_eq_error {x : Except ε α} {e : ε} :
    (lift x : Metered L S ε α) l s = .error e ↔ x = .error e := by
  cases x with
  | error e' => simp [lift]
  | ok a => simp [lift]

/-- A loop fails only where one of its steps does. -/
theorem mapEach_ne_error {f : α → Metered L S ε β} {e : ε} (hf : ∀ a s, f a l s ≠ .error e)
    (as : List α) (s : S) : mapEach f as l s ≠ .error e := by
  induction as generalizing s with
  | nil => simp [mapEach, pure]
  | cons a as ih =>
    intro h
    rw [mapEach, bind_eq_error] at h
    obtain h | ⟨b, s', -, h⟩ := h
    · exact hf a s h
    · rw [bind_eq_error] at h
      obtain h | ⟨bs, s'', -, h⟩ := h
      · exact ih s' h
      · simp [pure] at h

/-! ## What a loop has computed -/

/-- What a loop has computed stands item by item for what it went over. -/
theorem forall₂_of_mapEach {f : α → Metered L S ε β} {R : α → β → Prop} {as : List α}
    (hf : ∀ a ∈ as, ∀ s b s', f a l s = .ok (b, s') → R a b) : ∀ {s s' : S} {bs : List β},
      mapEach f as l s = .ok (bs, s') → List.Forall₂ R as bs := by
  induction as with
  | nil =>
    intro s s' bs h
    rw [mapEach, pure_eq_ok, Prod.mk.injEq] at h
    rw [h.1]
    exact .nil
  | cons a as ih =>
    intro s s' bs h
    simp only [mapEach, bind_eq_ok, pure_eq_ok, Prod.mk.injEq] at h
    obtain ⟨b, s₁, hb, cs, s₂, hcs, rfl, -⟩ := h
    exact .cons (hf a (by simp) s b s₁ hb) (ih (fun c hc => hf c (by simp [hc])) hcs)

/-! ## Larger limits -/

section Stable

variable [LE L]

/-- **Larger limits give the same answer.** -/
def Stable (x : Metered L S ε α) : Prop :=
  ∀ l l' : L, l ≤ l' → ∀ s r, x l s = .ok r → x l' s = .ok r

theorem stable_pure (a : α) : Stable (pure a : Metered L S ε α) := by
  intro l l' _ s r h
  rw [pure_eq_ok] at h ⊢
  exact h

theorem Stable.bind {x : Metered L S ε α} {f : α → Metered L S ε β} (hx : Stable x)
    (hf : ∀ a, Stable (f a)) : Stable (x >>= f) := by
  intro l l' hl s r h
  rw [bind_eq_ok] at h ⊢
  obtain ⟨a, s', ha, hr⟩ := h
  exact ⟨a, s', hx l l' hl s _ ha, hf a l l' hl s' r hr⟩

theorem stable_lift (x : Except ε α) : Stable (lift x : Metered L S ε α) := by
  intro l l' _ s r h
  rw [lift_eq_ok] at h ⊢
  exact h

/-- A test is stable when larger limits pass it as well. -/
theorem stable_allow {p : L → S → Prop} [∀ l s, Decidable (p l s)] {e : ε}
    (h : ∀ l l' : L, l ≤ l' → ∀ s, p l s → p l' s) : Stable (allow p e) := by
  intro l l' hl s r hr
  rw [allow_eq_ok] at hr ⊢
  exact ⟨h l l' hl s hr.1, hr.2⟩

theorem stable_tally (f : S → S) : Stable (tally f : Metered L S ε Unit) := by
  intro l l' _ s r h
  rw [tally_eq_ok] at h ⊢
  exact h

theorem stable_mapEach {f : α → Metered L S ε β} (hf : ∀ a, Stable (f a)) (as : List α) :
    Stable (mapEach f as) := by
  induction as with
  | nil => exact stable_pure []
  | cons a as ih => exact (hf a).bind fun b => ih.bind fun bs => stable_pure (b :: bs)

end Stable

end Metered
