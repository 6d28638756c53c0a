import EvidenceBraid.Library.Dict

/-!
# Machines with one state for each key

Every command is addressed to one key and moves that key's state only. A run of such a machine is
the runs of its keys side by side: it goes through exactly when every key's own commands go
through alone (`runAlone_of_run`, `run_of_runAlone`). Hence a key's final state depends on its own
commands only, and commands of different keys can be swapped.
-/

/-- Which key a command moves, and how. -/
structure Keyed (κ τ α ε : Type) where
  key : τ → κ
  advance : τ → Option α → Except ε α

namespace Keyed

variable {κ τ α ε : Type} [DecidableEq κ] (m : Keyed κ τ α ε)

/-- One command. -/
def step (d : Dict κ α) (t : τ) : Except ε (Dict κ α) :=
  (m.advance t (d.get? (m.key t))).map (d.set (m.key t))

/-- The commands in order. -/
def run : Dict κ α → List τ → Except ε (Dict κ α)
  | d, [] => .ok d
  | d, t :: ts =>
    match m.step d t with
    | .ok e => run e ts
    | .error error => .error error

omit [DecidableEq κ] in
/-- The commands of one key, in order. -/
def runAlone : Option α → List τ → Except ε (Option α)
  | a?, [] => .ok a?
  | a?, t :: ts =>
    match m.advance t a? with
    | .ok a => runAlone (some a) ts
    | .error error => .error error

/-- The commands that are addressed to a key. -/
def addressed (k : κ) (ts : List τ) : List τ := ts.filter fun t => m.key t = k

variable {m}

theorem step_eq_ok {d e : Dict κ α} {t : τ} :
    m.step d t = .ok e ↔ ∃ a, m.advance t (d.get? (m.key t)) = .ok a ∧ d.set (m.key t) a = e := by
  unfold step
  cases m.advance t (d.get? (m.key t)) <;> simp [Except.map]

@[simp] theorem run_nil {d e : Dict κ α} : m.run d [] = .ok e ↔ d = e := by
  simp [run]

theorem run_cons {d f : Dict κ α} {t : τ} {ts : List τ} :
    m.run d (t :: ts) = .ok f ↔ ∃ e, m.step d t = .ok e ∧ m.run e ts = .ok f := by
  rw [run]
  cases m.step d t <;> simp

omit [DecidableEq κ] in
@[simp] theorem runAlone_nil {a? b? : Option α} : m.runAlone a? [] = .ok b? ↔ a? = b? := by
  simp [runAlone]

omit [DecidableEq κ] in
theorem runAlone_cons {a? b? : Option α} {t : τ} {ts : List τ} :
    m.runAlone a? (t :: ts) = .ok b? ↔
      ∃ a, m.advance t a? = .ok a ∧ m.runAlone (some a) ts = .ok b? := by
  rw [runAlone]
  cases m.advance t a? <;> simp

theorem run_append {ts us : List τ} : ∀ {d f : Dict κ α},
    m.run d (ts ++ us) = .ok f ↔ ∃ e, m.run d ts = .ok e ∧ m.run e us = .ok f := by
  induction ts with
  | nil => intro d f; simp
  | cons t ts ih =>
    intro d f
    simp only [List.cons_append, run_cons, ih]
    constructor
    · rintro ⟨e, he, g, hg, hf⟩
      exact ⟨g, ⟨e, he, hg⟩, hf⟩
    · rintro ⟨g, ⟨e, he, hg⟩, hf⟩
      exact ⟨e, he, g, hg, hf⟩

/-! ## One key alone -/

theorem addressed_cons_self (t : τ) (ts : List τ) :
    m.addressed (m.key t) (t :: ts) = t :: m.addressed (m.key t) ts := by
  simp [addressed]

theorem addressed_cons_ne {k : κ} {t : τ} (h : m.key t ≠ k) (ts : List τ) :
    m.addressed k (t :: ts) = m.addressed k ts := by
  simp [addressed, h]

theorem addressed_append (k : κ) (ts us : List τ) :
    m.addressed k (ts ++ us) = m.addressed k ts ++ m.addressed k us := List.filter_append ts us

/-- **A run moves each key as the key's own commands do.** -/
theorem runAlone_of_run {ts : List τ} : ∀ {d e : Dict κ α}, m.run d ts = .ok e →
    ∀ k, m.runAlone (d.get? k) (m.addressed k ts) = .ok (e.get? k) := by
  induction ts with
  | nil =>
    intro d e h k
    rw [run_nil.mp h]
    rfl
  | cons t ts ih =>
    intro d e h k
    obtain ⟨next, hnext, hrest⟩ := run_cons.mp h
    obtain ⟨a, ha, rfl⟩ := step_eq_ok.mp hnext
    have hrec := ih hrest k
    by_cases hk : m.key t = k
    · subst hk
      rw [Dict.get?_set_self] at hrec
      rw [addressed_cons_self, runAlone_cons]
      exact ⟨a, ha, hrec⟩
    · rw [Dict.get?_set_ne d (Ne.symm hk)] at hrec
      rwa [addressed_cons_ne hk]

/-- **Commands that go through alone for every key go through together.** -/
theorem run_of_runAlone {f : κ → Option α} {ts : List τ} : ∀ {d : Dict κ α},
    (∀ k, m.runAlone (d.get? k) (m.addressed k ts) = .ok (f k)) →
      ∃ e, m.run d ts = .ok e ∧ ∀ k, e.get? k = f k := by
  induction ts with
  | nil =>
    intro d h
    exact ⟨d, run_nil.mpr rfl, fun k => runAlone_nil.mp (h k)⟩
  | cons t ts ih =>
    intro d h
    have hself := h (m.key t)
    rw [addressed_cons_self, runAlone_cons] at hself
    obtain ⟨a, ha, hrest⟩ := hself
    have hnext (k : κ) :
        m.runAlone ((d.set (m.key t) a).get? k) (m.addressed k ts) = .ok (f k) := by
      by_cases hk : m.key t = k
      · subst hk
        rwa [Dict.get?_set_self]
      · rw [Dict.get?_set_ne d (Ne.symm hk), ← addressed_cons_ne hk]
        exact h k
    obtain ⟨e, he, hget⟩ := ih hnext
    exact ⟨e, run_cons.mpr ⟨_, step_eq_ok.mpr ⟨a, ha, rfl⟩, he⟩, hget⟩

/-- **Only the order of each key's own commands matters.** -/
theorem run_congr {d e : Dict κ α} {ts us : List τ}
    (hsame : ∀ k, m.addressed k ts = m.addressed k us) (h : m.run d ts = .ok e) :
    ∃ e', m.run d us = .ok e' ∧ ∀ k, e'.get? k = e.get? k :=
  run_of_runAlone fun k => hsame k ▸ runAlone_of_run h k

/-- Commands of different keys may be swapped. -/
theorem addressed_swap {s t : τ} (h : m.key s ≠ m.key t) (xs ys : List τ) (k : κ) :
    m.addressed k (xs ++ s :: t :: ys) = m.addressed k (xs ++ t :: s :: ys) := by
  rw [addressed_append, addressed_append]
  congr 1
  by_cases hs : m.key s = k
  · have ht : m.key t ≠ k := fun hk => h (hs.trans hk.symm)
    simp [addressed, hs, ht]
  · by_cases ht : m.key t = k <;> simp [addressed, hs, ht]

end Keyed
