import EvidenceBraid.Library.JsonNodes

/-!
# Paths into a document

A path is a list of keys and indices. `Resolves` says what a path leads to: a key leads into a
dict that has it, an index into an array that is long enough, and nothing else leads anywhere.
`at?` follows a path (`at?_eq_some`), so what a path leads to is unique, and it is a node of the
document.
-/

namespace Json

/-- One step of a path. -/
inductive PathPart where
  | key (k : String)
  | index (i : ℕ)
  deriving DecidableEq, Repr

/-- The path leads from the first document to the second. -/
inductive Resolves : Json → List PathPart → Json → Prop where
  | here (v : Json) : Resolves v [] v
  | member {kvs : List (String × Json)} {k : String} {w v : Json} {path : List PathPart}
      (hget : get? kvs k = some w) (hrest : Resolves w path v) :
      Resolves (.obj kvs) (.key k :: path) v
  | item {xs : List Json} {i : ℕ} {w v : Json} {path : List PathPart}
      (hget : xs[i]? = some w) (hrest : Resolves w path v) :
      Resolves (.arr xs) (.index i :: path) v

/-- A dict or an array. -/
def IsContainer : Json → Prop
  | .arr _ | .obj _ => True
  | _ => False

/-- One step, if there is one. -/
def step? : Json → PathPart → Option Json
  | .obj kvs, .key k => get? kvs k
  | .arr xs, .index i => xs[i]?
  | _, _ => none

/-- Follow a path. -/
def at? (v : Json) : List PathPart → Option Json
  | [] => some v
  | part :: path => (step? v part).bind fun w => at? w path

theorem resolves_cons {v u : Json} {part : PathPart} {path : List PathPart} :
    Resolves v (part :: path) u ↔ ∃ w, step? v part = some w ∧ Resolves w path u := by
  constructor
  · intro h
    cases h with
    | member hget hrest => exact ⟨_, hget, hrest⟩
    | item hget hrest => exact ⟨_, hget, hrest⟩
  · intro h
    obtain ⟨w, hstep, hrest⟩ := h
    cases v with
    | obj kvs =>
      cases part with
      | key k => exact .member hstep hrest
      | index i => cases hstep
    | arr xs =>
      cases part with
      | key k => cases hstep
      | index i => exact .item hstep hrest
    | _ => cases hstep

/-- **Following a path finds what it leads to.** -/
theorem at?_eq_some {path : List PathPart} : ∀ {v u : Json},
    at? v path = some u ↔ Resolves v path u := by
  induction path with
  | nil =>
    intro v u
    constructor
    · intro h
      rw [Option.some.inj h]
      exact .here u
    · intro h
      cases h
      rfl
  | cons part path ih =>
    intro v u
    rw [at?, Option.bind_eq_some_iff, resolves_cons]
    simp only [ih]

theorem Resolves.unique {v u w : Json} {path : List PathPart} (hu : Resolves v path u)
    (hw : Resolves v path w) : u = w :=
  Option.some.inj ((at?_eq_some.mpr hu).symm.trans (at?_eq_some.mpr hw))

theorem at?_eq_none {v : Json} {path : List PathPart} :
    at? v path = none ↔ ¬ ∃ u, Resolves v path u := by
  rw [Option.eq_none_iff_forall_ne_some, not_exists]
  simp only [Ne, at?_eq_some]

/-- What a path leads to is a node of the document. -/
theorem Resolves.mem_popped {v u : Json} {path : List PathPart} (h : Resolves v path u) :
    ∀ {P : Json → Prop}, (∀ w ∈ popped v, P w) → ∀ w ∈ popped u, P w := by
  induction h with
  | here v => exact id
  | member hget hrest ih =>
    intro P hall
    rw [popped, List.forall_mem_cons, forall_poppedMembers] at hall
    obtain ⟨before, after, hkvs, -⟩ := List.lookup_eq_some_iff.mp hget
    exact ih (hall.2 _ (by rw [hkvs]; exact List.mem_append_right _ (List.mem_cons_self ..)))
  | item hget hrest ih =>
    intro P hall
    exact ih ((forall_popped_arr.mp hall).2 _ (List.mem_of_getElem? hget))

theorem mem_popped_self (v : Json) : v ∈ popped v := by
  cases v <;> simp [popped]

end Json
