import EvidenceBraid.Library.Transaction

/-!
# Sessions with faults

A program that works on a session: the durable database, the working copy of the open transaction,
flags of the program's own, and the faults to come. Every step may raise instead of returning,
before or after its effect, and an exception is ordinary or a control exception.

* `step` — one step of a program; `query`, `execute`, `compute`, `begin`, `commit`, `rollback`.
* `Transparent` — a program that ends with a control exception whenever a step of it raised one.
* `Computes` — what a program computes where no step raises.
-/

namespace Transaction

/-- An exception: an ordinary one, or a control exception, which `except Exception` misses. -/
inductive Raised (ε : Type) where
  | ordinary (e : ε)
  | control
  deriving DecidableEq, Repr

namespace Raised

variable {ε : Type}

def isControl : Raised ε → Bool
  | ordinary _ => false
  | control => true

@[simp] theorem isControl_ordinary (e : ε) : (ordinary e).isControl = false := rfl

@[simp] theorem isControl_control : (control : Raised ε).isControl = true := rfl

theorem isControl_iff {r : Raised ε} : r.isControl = true ↔ r = control := by
  cases r <;> simp

end Raised

/-- A step that raises, before or after it took effect. -/
structure Fault (ε : Type) where
  raised : Raised ε
  effect : Bool

/-- The durable database and the copy that the open transaction works on. -/
structure Copies (σ : Type) where
  durable : σ
  working : σ

/-- What a program works on. -/
structure Session (σ τ ε : Type) where
  copies : Copies σ
  flags : τ
  /-- The faults of the steps to come, first one first. -/
  faults : List (Option (Fault ε))
  /-- Whether a step has raised a control exception. -/
  interrupted : Bool

abbrev Program (σ τ ε : Type) := Action (Session σ τ ε) (Raised ε)

section Steps

variable {σ τ ε α β : Type}

/-- One step. -/
def step (f : Copies σ → Except ε α × Copies σ) : Program σ τ ε α := fun s =>
  match s.faults with
  | some fault :: rest =>
    (.error fault.raised,
      { s with
        copies := if fault.effect then (f s.copies).2 else s.copies
        faults := rest
        interrupted := s.interrupted || fault.raised.isControl })
  | faults =>
    ((f s.copies).1.mapError .ordinary,
      { s with
        copies := (f s.copies).2
        faults := faults.tail })

/-- A query of the working copy. -/
def query (f : σ → Except ε α) : Program σ τ ε α := step fun c => (f c.working, c)

/-- A statement that changes the working copy, or fails without a change. -/
def execute (f : σ → Except ε σ) : Program σ τ ε Unit := step fun c =>
  match f c.working with
  | .ok t => (.ok (), { c with working := t })
  | .error e => (.error e, c)

/-- A computation beside the database. -/
def compute (x : Except ε α) : Program σ τ ε α := step fun c => (x, c)

/-- A step without an effect on the database. -/
def idle : Program σ τ ε Unit := step fun c => (.ok (), c)

/-- `BEGIN`. -/
def begin : Program σ τ ε Unit := step fun c => (.ok (), { c with working := c.durable })

/-- `COMMIT`. -/
def commit : Program σ τ ε Unit := step fun c => (.ok (), { c with durable := c.working })

/-- `ROLLBACK`. -/
def rollback : Program σ τ ε Unit := step fun c => (.ok (), { c with working := c.durable })

/-- An assignment to the program's flags. -/
def setFlags (f : τ → τ) : Program σ τ ε Unit := fun s => (.ok (), { s with flags := f s.flags })

def getFlags : Program σ τ ε τ := fun s => (.ok s.flags, s)

/-! ## What a step leaves -/

@[simp] theorem step_flags (f : Copies σ → Except ε α × Copies σ) (s : Session σ τ ε) :
    (step f s).2.flags = s.flags := by
  unfold step
  split <;> rfl

/-- The copies after a step are those before or those of its effect. -/
theorem step_copies (f : Copies σ → Except ε α × Copies σ) (s : Session σ τ ε) :
    (step f s).2.copies = s.copies ∨ (step f s).2.copies = (f s.copies).2 := by
  unfold step
  split
  · dsimp only
    split_ifs
    · exact .inr rfl
    · exact .inl rfl
  · exact .inr rfl

/-- A step that returns took effect. -/
theorem step_ok {f : Copies σ → Except ε α × Copies σ} {s t : Session σ τ ε} {a : α}
    (h : step f s = (.ok a, t)) :
    (f s.copies).1 = .ok a ∧ t.copies = (f s.copies).2 ∧ t.flags = s.flags := by
  unfold step at h
  split at h
  · simp at h
  · obtain ⟨hresult, rfl⟩ := Prod.mk.inj h
    refine ⟨?_, rfl, rfl⟩
    cases hf : (f s.copies).1 with
    | ok b => simpa [hf, Except.mapError] using hresult
    | error e => simp [hf, Except.mapError] at hresult

/-! ## Control exceptions -/

/-- A program that raises a control exception exactly when one of its steps has. -/
def Transparent (a : Program σ τ ε α) : Prop :=
  ∀ s, (a s).2.interrupted = true ↔ s.interrupted = true ∨ (a s).1 = .error .control

theorem transparent_step (f : Copies σ → Except ε α × Copies σ) :
    Transparent (step f : Program σ τ ε α) := by
  intro s
  unfold step
  split
  · simp [Raised.isControl_iff]
  · cases (f s.copies).1 <;> simp [Except.mapError]

theorem transparent_pure (a : α) : Transparent (pure a : Program σ τ ε α) := by
  intro s
  change s.interrupted = true ↔ s.interrupted = true ∨ (Except.ok a : Except (Raised ε) α) = _
  simp

theorem transparent_setFlags (f : τ → τ) : Transparent (setFlags f : Program σ τ ε Unit) := by
  intro s
  simp [setFlags]

theorem transparent_getFlags : Transparent (getFlags : Program σ τ ε τ) := by
  intro s
  simp [getFlags]

theorem bind_apply (x : Program σ τ ε α) (f : α → Program σ τ ε β) (s : Session σ τ ε) :
    (x >>= f) s = match x s with
      | (.ok a, t) => f a t
      | (.error e, t) => (.error e, t) := by
  simp only [bind]
  rcases x s with ⟨e | a, t⟩ <;> rfl

theorem Transparent.bind {x : Program σ τ ε α} {f : α → Program σ τ ε β} (hx : Transparent x)
    (hf : ∀ a, Transparent (f a)) : Transparent (x >>= f) := by
  intro s
  have hs := hx s
  rw [bind_apply]
  rcases hxs : x s with ⟨e | a, t⟩
  · rw [hxs] at hs
    simpa using hs
  · rw [hxs] at hs
    rw [hf a t, hs]
    simp

/-- A program seen as one step: it has raised what it ends with. -/
def observed (a : Program σ τ ε α) : Program σ τ ε α := fun s =>
  match a s with
  | (.error e, t) => (.error e, { t with interrupted := s.interrupted || e.isControl })
  | (.ok x, t) => (.ok x, { t with interrupted := s.interrupted })

theorem transparent_observed (a : Program σ τ ε α) : Transparent (observed a) := by
  intro s
  unfold observed
  rcases a s with ⟨e | x, t⟩
  · simp [Raised.isControl_iff]
  · simp

/-- Where the steps of a program are transparent, nothing is lost by seeing it as one. -/
theorem Transparent.observed_eq {a : Program σ τ ε α} (h : Transparent a) : observed a = a := by
  funext s
  have hs := h s
  unfold observed
  rcases has : a s with ⟨e | x, t⟩
  · rw [has] at hs
    have hinterrupted : t.interrupted = (s.interrupted || e.isControl) := by
      rw [Bool.eq_iff_iff, hs]
      simp [Raised.isControl_iff]
    dsimp only
    rw [← hinterrupted]
  · rw [has] at hs
    have hinterrupted : t.interrupted = s.interrupted := by
      rw [Bool.eq_iff_iff, hs]
      simp
    dsimp only
    rw [← hinterrupted]

/-! ## Programs that only use the working copy -/

/-- A program that leaves the durable database alone. -/
def KeepsDurable (a : Program σ τ ε α) : Prop := ∀ s, (a s).2.copies.durable = s.copies.durable

theorem keepsDurable_step {f : Copies σ → Except ε α × Copies σ}
    (h : ∀ c, (f c).2.durable = c.durable) : KeepsDurable (step f : Program σ τ ε α) := by
  intro s
  rcases step_copies f s with hs | hs
  · rw [hs]
  · rw [hs, h]

theorem keepsDurable_query (f : σ → Except ε α) : KeepsDurable (query f : Program σ τ ε α) :=
  keepsDurable_step fun _ => rfl

theorem keepsDurable_compute (x : Except ε α) : KeepsDurable (compute x : Program σ τ ε α) :=
  keepsDurable_step fun _ => rfl

theorem keepsDurable_execute (f : σ → Except ε σ) :
    KeepsDurable (execute f : Program σ τ ε Unit) := by
  refine keepsDurable_step fun c => ?_
  split <;> rfl

theorem keepsDurable_pure (a : α) : KeepsDurable (pure a : Program σ τ ε α) := fun _ => rfl

theorem keepsDurable_setFlags (f : τ → τ) : KeepsDurable (setFlags f : Program σ τ ε Unit) :=
  fun _ => rfl

theorem KeepsDurable.bind {x : Program σ τ ε α} {f : α → Program σ τ ε β} (hx : KeepsDurable x)
    (hf : ∀ a, KeepsDurable (f a)) : KeepsDurable (x >>= f) := by
  intro s
  have hs := hx s
  rw [bind_apply]
  rcases hxs : x s with ⟨e | a, t⟩
  · rw [hxs] at hs
    exact hs
  · rw [hxs] at hs
    rw [hf a t]
    exact hs

/-! ## Without faults -/

/-- A session without faults to come. -/
def Session.Quiet (s : Session σ τ ε) : Prop := s.faults = []

theorem step_quiet {s : Session σ τ ε} (h : s.Quiet) (f : Copies σ → Except ε α × Copies σ) :
    step f s = ((f s.copies).1.mapError .ordinary, { s with copies := (f s.copies).2 }) := by
  obtain ⟨c, flags, faults, interrupted⟩ := s
  cases h
  rfl

/-- The session with another working copy and other flags. -/
def Session.put (s : Session σ τ ε) (w : σ) (o : τ) : Session σ τ ε :=
  { s with
    copies := { s.copies with working := w }
    flags := o }

theorem Session.Quiet.put {s : Session σ τ ε} (h : s.Quiet) (w : σ) (o : τ) : (s.put w o).Quiet := h

/-- What a program computes without faults from its working copy and its flags. After an exception
they may be anything. -/
structure Computes (a : Program σ τ ε α) (f : σ → τ → Except ε (α × σ × τ)) : Prop where
  ok : ∀ s, s.Quiet → ∀ x w o, f s.copies.working s.flags = .ok (x, w, o) →
    a s = (.ok x, s.put w o)
  error : ∀ s, s.Quiet → ∀ e, f s.copies.working s.flags = .error e →
    ∃ w o, a s = (.error (.ordinary e), s.put w o)

theorem computes_query (f : σ → Except ε α) :
    Computes (query f : Program σ τ ε α) fun w o => do
      let x ← f w
      .ok (x, w, o) where
  ok := by
    intro s hs x w o h
    rw [query, step_quiet hs]
    cases hf : f s.copies.working <;> rw [hf] at h
    · cases h
    · cases h
      rfl
  error := by
    intro s hs e h
    rw [query, step_quiet hs]
    cases hf : f s.copies.working <;> rw [hf] at h
    · cases h
      exact ⟨s.copies.working, s.flags, rfl⟩
    · cases h

theorem computes_compute (x : Except ε α) :
    Computes (compute x : Program σ τ ε α) (fun w o => do
      let a ← x
      .ok (a, w, o)) :=
  computes_query fun _ => x

theorem computes_execute (f : σ → Except ε σ) :
    Computes (execute f : Program σ τ ε Unit) fun w o => do
      let u ← f w
      .ok ((), u, o) where
  ok := by
    intro s hs x w o h
    rw [execute, step_quiet hs]
    cases hf : f s.copies.working <;> rw [hf] at h
    · cases h
    · cases h
      rfl
  error := by
    intro s hs e h
    rw [execute, step_quiet hs]
    cases hf : f s.copies.working <;> rw [hf] at h
    · cases h
      exact ⟨s.copies.working, s.flags, rfl⟩
    · cases h

theorem computes_setFlags (k : τ → τ) :
    Computes (setFlags k : Program σ τ ε Unit) fun w o => .ok ((), w, k o) where
  ok := by
    intro s hs x w o h
    cases h
    rfl
  error := by
    intro s hs e h
    cases h

theorem computes_pure (a : α) :
    Computes (pure a : Program σ τ ε α) fun w o => .ok (a, w, o) where
  ok := by
    intro s hs x w o h
    cases h
    rfl
  error := by
    intro s hs e h
    cases h

/-- **Programs compute one after the other.** -/
theorem Computes.bind {x : Program σ τ ε α} {k : α → Program σ τ ε β}
    {f : σ → τ → Except ε (α × σ × τ)} {g : α → σ → τ → Except ε (β × σ × τ)} (hx : Computes x f)
    (hk : ∀ a, Computes (k a) (g a)) :
    Computes (x >>= k) fun w o => do
      let r ← f w o
      g r.1 r.2.1 r.2.2 where
  ok := by
    intro s hs y w o h
    cases hf : f s.copies.working s.flags with
    | error e =>
      rw [hf] at h
      cases h
    | ok r =>
      rw [hf] at h
      rw [bind_apply, hx.ok s hs _ _ _ hf]
      exact (hk r.1).ok (s.put r.2.1 r.2.2) (hs.put _ _) y w o h
  error := by
    intro s hs e h
    rw [bind_apply]
    cases hf : f s.copies.working s.flags with
    | error e' =>
      rw [hf] at h
      cases h
      obtain ⟨w, o, hxs⟩ := hx.error s hs _ hf
      rw [hxs]
      exact ⟨w, o, rfl⟩
    | ok r =>
      rw [hf] at h
      rw [hx.ok s hs _ _ _ hf]
      exact (hk r.1).error (s.put r.2.1 r.2.2) (hs.put _ _) e h

/-! ## Programs that return despite faults -/

/-- The session with no faults to come. -/
def Session.quiet (s : Session σ τ ε) : Session σ τ ε := { s with faults := [] }

/-- A program that does the same without faults wherever it returns. -/
def Steady (a : Program σ τ ε α) : Prop :=
  ∀ s x t, a s = (.ok x, t) → a s.quiet = (.ok x, t.quiet)

theorem steady_step (f : Copies σ → Except ε α × Copies σ) :
    Steady (step f : Program σ τ ε α) := by
  intro s x t h
  obtain ⟨copies, flags, faults, interrupted⟩ := s
  match faults with
  | some fault :: rest => cases (Prod.mk.inj h).1
  | [] | none :: rest =>
    obtain ⟨hx, rfl⟩ := Prod.mk.inj h
    exact Prod.ext hx rfl

theorem steady_pure (a : α) : Steady (pure a : Program σ τ ε α) := by
  intro s x t h
  obtain ⟨hx, rfl⟩ := Prod.mk.inj h
  exact Prod.ext hx rfl

theorem steady_setFlags (f : τ → τ) : Steady (setFlags f : Program σ τ ε Unit) := by
  intro s x t h
  obtain ⟨hx, rfl⟩ := Prod.mk.inj h
  exact Prod.ext hx rfl

theorem steady_getFlags : Steady (getFlags : Program σ τ ε τ) := by
  intro s x t h
  obtain ⟨hx, rfl⟩ := Prod.mk.inj h
  exact Prod.ext hx rfl

theorem Steady.bind {x : Program σ τ ε α} {k : α → Program σ τ ε β} (hx : Steady x)
    (hk : ∀ a, Steady (k a)) : Steady (x >>= k) := by
  intro s y t h
  rw [bind_apply] at h ⊢
  rcases hxs : x s with ⟨e | a, u⟩
  · rw [hxs] at h
    cases (Prod.mk.inj h).1
  · rw [hxs] at h
    rw [hx s a u hxs]
    exact hk a u y t h

/-- **A program that returns has computed** what it computes without faults. -/
theorem Steady.computed {a : Program σ τ ε α} (h : Steady a)
    {f : σ → τ → Except ε (α × σ × τ)} (hf : Computes a f) {s t : Session σ τ ε} {x : α}
    (hs : a s = (.ok x, t)) :
    f s.copies.working s.flags = .ok (x, t.copies.working, t.flags) := by
  have hquiet := h s x t hs
  cases hfs : f s.copies.working s.flags with
  | error e =>
    obtain ⟨w, o, herror⟩ := hf.error s.quiet rfl e hfs
    rw [herror] at hquiet
    cases (Prod.mk.inj hquiet).1
  | ok r =>
    have hok := hf.ok s.quiet rfl r.1 r.2.1 r.2.2 hfs
    rw [hok] at hquiet
    obtain ⟨hx, ht⟩ := Prod.mk.inj hquiet
    obtain ⟨copies, flags, faults, interrupted⟩ := t
    obtain ⟨y, w, o⟩ := r
    cases hx
    cases ht
    rfl

theorem Computes.congr {a : Program σ τ ε α} {f g : σ → τ → Except ε (α × σ × τ)}
    (h : Computes a f) (hfg : ∀ w o, f w o = g w o) : Computes a g := by
  have heq : f = g := funext fun w => funext fun o => hfg w o
  exact heq ▸ h

end Steps

end Transaction
