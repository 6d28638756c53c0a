import EvidenceBraid.Library.Transaction

/-!
# Contracts of actions

`Ensures P x Q E`: from a state in `P`, the action `x` either returns in a state in `Q`, or raises in
a state in `E`. The rules follow a program: return and raise, sequence, a caught failure, a loop over
a list.
-/

namespace Transaction

namespace Action

variable {σ ε α β ι : Type}

/-! ## Raising and catching -/

/-- Raise. -/
def raise (e : ε) : Action σ ε α := fun s => (.error e, s)

/-- Run and catch: what has been done stays done. -/
def attempt (x : Action σ ε α) : Action σ ε (Except ε α) := fun s => (.ok (x s).1, (x s).2)

/-- Change the state. -/
def modify (f : σ → σ) : Action σ ε Unit := fun s => (.ok (), f s)

/-- Once for each item, in order. -/
def each (f : ι → Action σ ε Unit) : List ι → Action σ ε Unit
  | [] => pure ()
  | i :: is => do
    f i
    each f is

/-! ## Contracts -/

/-- From `P`, the action returns in `Q` or raises in `E`. -/
def Ensures (P : σ → Prop) (x : Action σ ε α) (Q : α → σ → Prop) (E : σ → Prop) : Prop :=
  ∀ s, P s → (∀ a t, x s = (.ok a, t) → Q a t) ∧ (∀ e t, x s = (.error e, t) → E t)

namespace Ensures

variable {P P' : σ → Prop} {Q Q' : α → σ → Prop} {R : β → σ → Prop} {E E' : σ → Prop}
  {x : Action σ ε α}

theorem weaken (h : Ensures P x Q E) (hP : ∀ s, P' s → P s) (hQ : ∀ a s, Q a s → Q' a s)
    (hE : ∀ s, E s → E' s) : Ensures P' x Q' E' := by
  intro s hs
  obtain ⟨hok, herror⟩ := h s (hP s hs)
  exact ⟨fun a t hx => hQ a t (hok a t hx), fun e t hx => hE t (herror e t hx)⟩

theorem pre (h : Ensures P x Q E) (hP : ∀ s, P' s → P s) : Ensures P' x Q E :=
  h.weaken hP (fun _ _ hq => hq) fun _ he => he

theorem post (h : Ensures P x Q E) (hQ : ∀ a s, Q a s → Q' a s) : Ensures P x Q' E :=
  h.weaken (fun _ hp => hp) hQ fun _ he => he

/-- A fixed fact may be assumed. -/
theorem assuming {p : Prop} (h : p → Ensures P x Q E) : Ensures (fun s => p ∧ P s) x Q E := by
  intro s hs
  exact h hs.1 s hs.2

theorem pure {a : α} (h : ∀ s, P s → Q a s) : Ensures P (pure a : Action σ ε α) Q E := by
  intro s hs
  constructor
  · intro b t hx
    obtain ⟨rfl, rfl⟩ := pure_eq_ok.mp hx
    exact h s hs
  · intro e t hx
    cases congrArg Prod.fst hx

theorem raise {e : ε} (h : ∀ s, P s → E s) : Ensures P (raise e : Action σ ε α) Q E := by
  intro s hs
  constructor
  · intro a t hx
    cases congrArg Prod.fst hx
  · intro e' t hx
    obtain rfl : s = t := congrArg Prod.snd hx
    exact h s hs

theorem modify {f : σ → σ} {Q : Unit → σ → Prop} (h : ∀ s, P s → Q () (f s)) :
    Ensures P (modify f : Action σ ε Unit) Q E := by
  intro s hs
  constructor
  · intro a t hx
    obtain rfl : f s = t := congrArg Prod.snd hx
    exact h s hs
  · intro e t hx
    cases congrArg Prod.fst hx

theorem query {f : σ → Except ε α} (h : ∀ s a, P s → f s = .ok a → Q a s) (hE : ∀ s, P s → E s) :
    Ensures P (query f) Q E := by
  intro s hs
  constructor
  · intro a t hx
    obtain ⟨hf, rfl⟩ := query_eq_ok.mp hx
    exact h s a hs hf
  · intro e t hx
    obtain rfl : s = t := congrArg Prod.snd hx
    exact hE s hs

/-- **Sequence.** What the first action ensures is what the second may rely on. -/
theorem bind {f : α → Action σ ε β} (hx : Ensures P x Q E) (hf : ∀ a, Ensures (Q a) (f a) R E) :
    Ensures P (x >>= f) R E := by
  intro s hs
  obtain ⟨hok, herror⟩ := hx s hs
  rw [bind_apply]
  rcases h : x s with ⟨e | a, t⟩
  · refine ⟨fun b u hu => ?_, fun e' u hu => ?_⟩
    · cases congrArg Prod.fst hu
    · obtain rfl : t = u := congrArg Prod.snd hu
      exact herror e t h
  · exact hf a t (hok a t h)

/-- A caught failure is an outcome like any other. -/
theorem attempt {F : σ → Prop} (h : Ensures P x Q E) :
    Ensures P (attempt x) (fun r t => (∀ a, r = .ok a → Q a t) ∧ (∀ e, r = .error e → E t)) F := by
  intro s hs
  obtain ⟨hok, herror⟩ := h s hs
  constructor
  · intro r t hx
    obtain ⟨hr, ht⟩ := Prod.mk.inj hx
    obtain rfl := Except.ok.inj hr
    subst ht
    exact ⟨fun a ha => hok a _ (Prod.ext ha rfl), fun e he => herror e _ (Prod.ext he rfl)⟩
  · intro e t hx
    cases congrArg Prod.fst hx

/-- A loop whose every round keeps `P`. -/
theorem each {f : ι → Action σ ε Unit} :
    ∀ {is : List ι}, (∀ i ∈ is, Ensures P (f i) (fun _ => P) E) →
      Ensures P (each f is) (fun _ => P) E
  | [], _ => pure fun _ hs => hs
  | i :: _, h =>
    bind (h i List.mem_cons_self) fun _ => each fun j hj => h j (List.mem_cons_of_mem i hj)

end Ensures

end Action

end Transaction
