import Mathlib.Data.List.Range
import Mathlib.Tactic.SplitIfs

/-!
# Sequences of linked steps

Steps of any kind that begin where the last one ended.

**State.** `Links source target P s as t`: the steps `as` lead from `s` to `t`, each begins at its
`source`, ends at its `target` and satisfies `P`.

* `links_append` — sequences split where they are joined, and the place between is determined.
* `Links.count` — a quantity that each step raises by one counts the steps.
* `Links.ranges` — where each step raises a position, the steps partition what lies between the
  ends.
-/

variable {α σ : Type}

/-- The steps lead from one state to another, each from the end of the last. -/
def Links (source target : α → σ) (P : α → Prop) : σ → List α → σ → Prop
  | s, [], t => s = t
  | s, a :: as, t => source a = s ∧ P a ∧ Links source target P (target a) as t

namespace Links

variable {source target : α → σ} {P Q : α → Prop} {s t : σ} {as bs : List α}

@[simp] theorem nil_iff : Links source target P s [] t ↔ s = t := Iff.rfl

@[simp] theorem cons_iff {a : α} : Links source target P s (a :: as) t ↔
    source a = s ∧ P a ∧ Links source target P (target a) as t := Iff.rfl

/-- **Sequences split where they are joined.** -/
theorem append_iff : ∀ {as : List α} {s : σ}, Links source target P s (as ++ bs) t ↔
    ∃ u, Links source target P s as u ∧ Links source target P u bs t
  | [], s => by simp
  | a :: as, s => by
    simp only [List.cons_append, cons_iff, append_iff]
    constructor
    · rintro ⟨hs, ha, u, hu, ht⟩
      exact ⟨u, ⟨hs, ha, hu⟩, ht⟩
    · rintro ⟨u, ⟨hs, ha, hu⟩, ht⟩
      exact ⟨hs, ha, u, hu, ht⟩

/-- The last step ends where the sequence does. -/
theorem concat_iff {a : α} : Links source target P s (as ++ [a]) t ↔
    Links source target P s as (source a) ∧ P a ∧ target a = t := by
  rw [append_iff]
  constructor
  · rintro ⟨u, hu, rfl, ha, ht⟩
    exact ⟨hu, ha, ht⟩
  · rintro ⟨hu, ha, ht⟩
    exact ⟨_, hu, rfl, ha, ht⟩

/-- Where a sequence ends is determined. -/
theorem unique : ∀ {as : List α} {s t u : σ}, Links source target P s as t →
    Links source target Q s as u → t = u
  | [], _, _, _, ht, hu => ht.symm.trans hu
  | _ :: _, _, _, _, ht, hu => unique ht.2.2 hu.2.2

theorem forall_mem : ∀ {as : List α} {s : σ}, Links source target P s as t → ∀ a ∈ as, P a
  | [], _, _ => by simp
  | _ :: _, _, h => List.forall_mem_cons.mpr ⟨h.2.1, h.2.2.forall_mem⟩

theorem imp_of_mem : ∀ {as : List α} {s : σ}, Links source target P s as t →
    (∀ a ∈ as, P a → Q a) → Links source target Q s as t
  | [], _, h, _ => h
  | a :: _, _, h, himp => ⟨h.1, himp a List.mem_cons_self h.2.1,
      h.2.2.imp_of_mem fun b hb => himp b (List.mem_cons_of_mem a hb)⟩

/-- What holds at the start and is kept by the steps holds at the end. -/
theorem invariant {I : σ → Prop} (hstep : ∀ a, P a → I (source a) → I (target a)) :
    ∀ {as : List α} {s : σ}, Links source target P s as t → I s → I t
  | [], _, h, hs => h ▸ hs
  | a :: _, _, h, hs => h.2.2.invariant hstep (hstep a h.2.1 (h.1 ▸ hs))

/-- What holds at the start and is kept by the steps holds wherever one begins. -/
theorem sources {I : σ → Prop} (hstep : ∀ a, P a → I (source a) → I (target a)) :
    ∀ {as : List α} {s : σ}, Links source target P s as t → I s → ∀ a ∈ as, I (source a)
  | [], _, _, _ => by simp
  | a :: _, _, h, hs => List.forall_mem_cons.mpr ⟨h.1 ▸ hs,
      h.2.2.sources hstep (hstep a h.2.1 (h.1 ▸ hs))⟩

/-- **A quantity that each step raises by one counts the steps.** -/
theorem count {f : σ → ℕ} (hstep : ∀ a, P a → f (target a) = f (source a) + 1) :
    ∀ {as : List α} {s : σ}, Links source target P s as t → f t = f s + as.length
  | [], _, h => by rw [nil_iff.mp h, List.length_nil, Nat.add_zero]
  | a :: as, s, h => by
    rw [h.2.2.count hstep, hstep a h.2.1, h.1, List.length_cons]
    omega

/-- A quantity that no step lowers is between those of the ends. -/
theorem between {f : σ → ℕ} (hstep : ∀ a, P a → f (source a) ≤ f (target a)) :
    ∀ {as : List α} {s : σ}, Links source target P s as t →
      f s ≤ f t ∧ ∀ a ∈ as, f s ≤ f (source a) ∧ f (target a) ≤ f t
  | [], _, h => by rw [nil_iff.mp h]; simp
  | a :: as, s, h => by
    obtain ⟨hle, hall⟩ := h.2.2.between hstep
    have ha := hstep a h.2.1
    rw [h.1] at ha
    refine ⟨ha.trans hle, List.forall_mem_cons.mpr ⟨⟨(congrArg f h.1).ge, hle⟩, fun b hb => ?_⟩⟩
    obtain ⟨hsource, htarget⟩ := hall b hb
    exact ⟨ha.trans hsource, htarget⟩

/-- **Where each step raises a position, the steps partition what lies between the ends.** -/
theorem ranges {f : σ → ℕ} (hstep : ∀ a, P a → f (source a) < f (target a)) :
    ∀ {as : List α} {s : σ}, Links source target P s as t →
      as.flatMap (fun a => List.range' (f (source a)) (f (target a) - f (source a))) =
        List.range' (f s) (f t - f s)
  | [], _, h => by rw [nil_iff.mp h]; simp
  | a :: as, s, h => by
    have ha := hstep a h.2.1
    have hle := (h.2.2.between fun a ha => (hstep a ha).le).1
    rw [List.flatMap_cons, h.2.2.ranges hstep, h.1] at *
    rw [show f t - f s = (f (target a) - f s) + (f t - f (target a)) by omega,
      ← List.range'_append_1]
    congr 2
    omega

end Links
