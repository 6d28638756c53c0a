import EvidenceBraid.Library.Utf8
import Mathlib.Logic.Relation
import Mathlib.Tactic.SplitIfs

/-!
# Directories that others use

* `Disk` — objects by their identity; a directory lists names. Paths start from `home`.
* `create`, `write`, `remove`, `move` — one operation each; `move` takes no name that is taken.
* `Change` — what an operation below `home` does: at most it frees one name of `home`, and whatever
  it enters anywhere is new.
* `Unrelated` — what other processes may do to a disk while a tree is somebody's own: anything,
  elsewhere.
-/

namespace FileSystem

/-! ## Objects -/

/-- A device and an inode number. -/
structure Ident where
  device : ℕ
  number : ℕ
  deriving DecidableEq, Repr

/-- What `stat` tells besides the kind and, of a file, the size. -/
structure Stamp where
  reparse : Bool
  size : ℕ
  modified : ℕ
  changed : ℕ
  born : Option ℕ
  deriving DecidableEq, Repr

inductive Object where
  | directory (entries : List (String × Ident)) (stamp : Stamp)
  | file (raw : Bytes) (stamp : Stamp)
  | link (stamp : Stamp)
  | other (stamp : Stamp)
  deriving DecidableEq, Repr

namespace Object

def entries : Object → List (String × Ident)
  | directory es _ => es
  | _ => []

/-- A new directory or file, which is empty. -/
def blank (isDirectory : Bool) (stamp : Stamp) : Object :=
  if isDirectory then directory [] stamp else file [] stamp

@[simp] theorem entries_directory (es : List (String × Ident)) (stamp : Stamp) :
    (directory es stamp).entries = es := rfl

@[simp] theorem entries_file (raw : Bytes) (stamp : Stamp) : (file raw stamp).entries = [] := rfl

@[simp] theorem entries_blank (isDirectory : Bool) (stamp : Stamp) :
    (blank isDirectory stamp).entries = [] := by
  cases isDirectory <;> rfl

end Object

/-- Why an operation is refused. -/
inductive Errno where
  | noEntry | taken | notDirectory | isDirectory | notEmpty | badDescriptor | noSpace
  deriving DecidableEq, Repr

/-- The objects, of which every name leads to one, and the directory that paths start from. -/
structure Disk where
  home : Option Ident
  object : Ident → Option Object
  whole : ∀ i o, object i = some o → ∀ e ∈ o.entries, (object e.2).isSome

namespace Disk

/-! ## Names and paths -/

def entries (d : Disk) (i : Ident) : List (String × Ident) :=
  match d.object i with
  | some o => o.entries
  | none => []

def isDirectory (d : Disk) (i : Ident) : Bool :=
  match d.object i with
  | some (.directory _ _) => true
  | _ => false

/-- What a directory has under a name. -/
def child (d : Disk) (dir : Ident) (name : String) : Except Errno Ident :=
  match (d.entries dir).lookup name with
  | some i => .ok i
  | none => .error (if d.isDirectory dir then .noEntry else .notDirectory)

/-- What a path leads to from an object. -/
def walk (d : Disk) : Ident → List String → Except Errno Ident
  | dir, [] => .ok dir
  | dir, name :: rest =>
    match d.child dir name with
    | .ok i => d.walk i rest
    | .error e => .error e

/-- What a path leads to from `home`. -/
def find (d : Disk) (path : List String) : Except Errno Ident :=
  match d.home with
  | some h => d.walk h path
  | none => .error .noEntry

def status (d : Disk) (i : Ident) : Except Errno Object :=
  match d.object i with
  | some o => .ok o
  | none => .error .noEntry

/-- What `home` has under a name. -/
def named (d : Disk) (name : String) : Option Ident :=
  match d.home with
  | some h => (d.entries h).lookup name
  | none => none

/-- What a path from an object leads to, with its identity. -/
def tree (d : Disk) (root : Ident) (path : List String) : Option (Ident × Object) :=
  match d.walk root path with
  | .ok i => (d.object i).map (i, ·)
  | .error _ => none

/-- A directory lists an object under a name. -/
def Entry (d : Disk) (dir : Ident) (name : String) (i : Ident) : Prop := (name, i) ∈ d.entries dir

/-- An object is reached from another. -/
def Under (d : Disk) : Ident → Ident → Prop :=
  Relation.ReflTransGen fun a b => ∃ name, d.Entry a name b

/-- An object has a name other than this one of `home`. -/
def Elsewhere (d : Disk) (place : String) (i : Ident) : Prop :=
  ∃ dir name, d.Entry dir name i ∧ ¬(d.home = some dir ∧ name = place)

theorem entries_of_none {d : Disk} {i : Ident} (h : d.object i = none) : d.entries i = [] := by
  rw [entries, h]

theorem entries_of_some {d : Disk} {i : Ident} {o : Object} (h : d.object i = some o) :
    d.entries i = o.entries := by
  rw [entries, h]

theorem Entry.isSome {d : Disk} {dir i : Ident} {name : String} (h : d.Entry dir name i) :
    (d.object i).isSome := by
  unfold Entry at h
  cases hdir : d.object dir with
  | none =>
    rw [entries_of_none hdir] at h
    cases h
  | some o =>
    rw [entries_of_some hdir] at h
    exact d.whole dir o hdir (name, i) h

theorem Entry.dir_isSome {d : Disk} {dir i : Ident} {name : String} (h : d.Entry dir name i) :
    (d.object dir).isSome := by
  unfold Entry at h
  cases hdir : d.object dir with
  | none =>
    rw [entries_of_none hdir] at h
    cases h
  | some o => rfl

theorem entry_of_lookup {d : Disk} {dir i : Ident} {name : String}
    (h : (d.entries dir).lookup name = some i) : d.Entry dir name i := by
  obtain ⟨before, after, hsplit, -⟩ := List.lookup_eq_some_iff.mp h
  rw [Entry, hsplit]
  exact List.mem_append_right _ List.mem_cons_self

theorem child_eq_ok {d : Disk} {dir i : Ident} {name : String} :
    d.child dir name = .ok i ↔ (d.entries dir).lookup name = some i := by
  unfold child
  cases (d.entries dir).lookup name <;> simp

theorem walk_cons_eq_ok {d : Disk} {dir i : Ident} {name : String} {rest : List String} :
    d.walk dir (name :: rest) = .ok i ↔ ∃ c, d.child dir name = .ok c ∧ d.walk c rest = .ok i := by
  rw [walk]
  cases d.child dir name with
  | error e => simp
  | ok c => simp

theorem walk_append {d : Disk} {i : Ident} {more : List String} :
    ∀ {path : List String} {dir : Ident}, d.walk dir (path ++ more) = .ok i ↔
      ∃ c, d.walk dir path = .ok c ∧ d.walk c more = .ok i
  | [], dir => by simp [walk]
  | name :: path, dir => by
    have ih := @walk_append d i more path
    rw [List.cons_append, walk_cons_eq_ok]
    simp only [walk_cons_eq_ok, ih]
    constructor
    · intro h
      obtain ⟨c, hc, b, hb, hi⟩ := h
      exact ⟨b, ⟨c, hc, hb⟩, hi⟩
    · intro h
      obtain ⟨b, ⟨c, hc, hb⟩, hi⟩ := h
      exact ⟨c, hc, b, hb, hi⟩

/-- A path that starts with a name goes on from what `home` has under it. -/
theorem find_cons {d : Disk} {i : Ident} {name : String} {rest : List String} :
    d.find (name :: rest) = .ok i ↔ ∃ r, d.named name = some r ∧ d.walk r rest = .ok i := by
  unfold find named
  cases d.home with
  | none => simp
  | some h =>
    rw [walk_cons_eq_ok]
    simp only [child_eq_ok]

theorem find_append {d : Disk} {i : Ident} {path : List String} {name : String} :
    d.find (path ++ [name]) = .ok i ↔ ∃ dir, d.find path = .ok dir ∧ d.child dir name = .ok i := by
  unfold find
  cases d.home with
  | none => simp
  | some h =>
    rw [walk_append]
    constructor
    · intro hfound
      obtain ⟨dir, hdir, hi⟩ := hfound
      obtain ⟨c, hc, hci⟩ := walk_cons_eq_ok.mp hi
      obtain rfl : c = i := Except.ok.inj hci
      exact ⟨dir, hdir, hc⟩
    · intro hfound
      obtain ⟨dir, hdir, hi⟩ := hfound
      exact ⟨dir, hdir, walk_cons_eq_ok.mpr ⟨i, hi, rfl⟩⟩

theorem home_of_find_nil {d : Disk} {i : Ident} (h : d.find [] = .ok i) : d.home = some i := by
  unfold find at h
  cases hp : d.home with
  | none =>
    rw [hp] at h
    cases h
  | some p =>
    rw [hp] at h
    exact congrArg some (Except.ok.inj h)

theorem home_of_find {d : Disk} {i : Ident} {name : String} {rest : List String}
    (h : d.find (name :: rest) = .ok i) : ∀ p, d.home = some p → (d.object p).isSome := by
  intro p hp
  obtain ⟨r, hr, -⟩ := find_cons.mp h
  rw [named, hp] at hr
  exact (entry_of_lookup hr).dir_isSome

theorem under_of_walk {d : Disk} :
    ∀ {path : List String} {r i : Ident}, d.walk r path = .ok i → d.Under r i
  | [], r, i, h => by
    obtain rfl : r = i := Except.ok.inj h
    exact .refl
  | name :: path, r, i, h => by
    obtain ⟨c, hc, hi⟩ := walk_cons_eq_ok.mp h
    exact .head ⟨name, entry_of_lookup (child_eq_ok.mp hc)⟩ (under_of_walk hi)

theorem Under.isSome {d : Disk} {r i : Ident} (h : d.Under r i) (hr : (d.object r).isSome) :
    (d.object i).isSome := by
  induction h with
  | refl => exact hr
  | tail _ hentry _ =>
    obtain ⟨name, hentry⟩ := hentry
    exact hentry.isSome

theorem tree_eq_some {d : Disk} {r i : Ident} {o : Object} {path : List String} :
    d.tree r path = some (i, o) ↔ d.walk r path = .ok i ∧ d.object i = some o := by
  unfold tree
  cases d.walk r path with
  | error e => simp
  | ok j =>
    simp only [Option.map_eq_some_iff, Prod.mk.injEq, Except.ok.injEq]
    constructor
    · intro h
      obtain ⟨o', ho, rfl, rfl⟩ := h
      exact ⟨rfl, ho⟩
    · intro h
      obtain ⟨rfl, ho⟩ := h
      exact ⟨o, ho, rfl, rfl⟩

/-! ## Disks that agree on a tree -/

section Congruence

variable {d d' : Disk} {r : Ident}

theorem entries_congr {i : Ident} (h : d'.object i = d.object i) : d'.entries i = d.entries i := by
  unfold entries
  rw [h]

theorem child_congr {i : Ident} (h : d'.object i = d.object i) (name : String) :
    d'.child i name = d.child i name := by
  unfold child isDirectory
  rw [entries_congr h, h]

/-- Paths lead where they led. -/
theorem walk_congr (h : ∀ i, d.Under r i → d'.object i = d.object i) :
    ∀ (path : List String) {i : Ident}, d.Under r i → d'.walk i path = d.walk i path
  | [], _, _ => rfl
  | name :: rest, i, hi => by
    rw [walk, walk, child_congr (h i hi)]
    cases hchild : d.child i name with
    | error e => rfl
    | ok c =>
      exact walk_congr h rest (hi.tail ⟨name, entry_of_lookup (child_eq_ok.mp hchild)⟩)

/-- **A tree is what its objects are.** -/
theorem tree_congr (h : ∀ i, d.Under r i → d'.object i = d.object i) : d'.tree r = d.tree r := by
  funext path
  unfold tree
  rw [walk_congr h path .refl]
  cases hwalk : d.walk r path with
  | error e => rfl
  | ok i =>
    show (d'.object i).map _ = (d.object i).map _
    rw [h i (under_of_walk hwalk)]

theorem under_of_congr (h : ∀ i, d.Under r i → d'.object i = d.object i) {i : Ident}
    (hi : d'.Under r i) : d.Under r i := by
  induction hi with
  | refl => exact .refl
  | tail _ hentry ih =>
    obtain ⟨name, hentry⟩ := hentry
    rw [Entry, entries_congr (h _ ih)] at hentry
    exact ih.tail ⟨name, hentry⟩

end Congruence

/-! ## Operations -/

/-- Put an object in its place. Its names lead to objects. -/
def place (d : Disk) (i : Ident) (o : Object)
    (h : ∀ e ∈ o.entries, (d.object e.2).isSome ∨ e.2 = i) : Disk where
  home := d.home
  object j := if j = i then some o else d.object j
  whole := by
    intro j p hj e he
    show (if e.2 = i then some o else d.object e.2).isSome
    by_cases hi : e.2 = i
    · rw [if_pos hi]
      rfl
    · rw [if_neg hi]
      by_cases hji : j = i
      · rw [if_pos hji] at hj
        obtain rfl := Option.some.inj hj
        exact (h e he).resolve_right hi
      · rw [if_neg hji] at hj
        exact d.whole j p hj e he

@[simp] theorem home_place (d : Disk) (i : Ident) (o : Object) (h) :
    (d.place i o h).home = d.home := rfl

theorem object_place (d : Disk) (i j : Ident) (o : Object) (h) :
    (d.place i o h).object j = if j = i then some o else d.object j := rfl

theorem entries_place (d : Disk) (i j : Ident) (o : Object) (h) :
    (d.place i o h).entries j = if j = i then o.entries else d.entries j := by
  unfold entries
  rw [object_place]
  by_cases hj : j = i
  · rw [if_pos hj, if_pos hj]
  · rw [if_neg hj, if_neg hj]

theorem isSome_place {d : Disk} {i j : Ident} {o : Object} {h} (hj : (d.object j).isSome) :
    ((d.place i o h).object j).isSome := by
  rw [object_place]
  by_cases hji : j = i
  · rw [if_pos hji]
    rfl
  · rwa [if_neg hji]

/-- List other names in a directory: each leads to an object. -/
def relist (d : Disk) (dir : Ident) (es : List (String × Ident)) (stamp : Stamp)
    (h : ∀ e ∈ es, (d.object e.2).isSome) : Disk :=
  d.place dir (.directory es stamp) fun e he => .inl (h e he)

theorem entries_isSome (d : Disk) (dir : Ident) : ∀ e ∈ d.entries dir, (d.object e.2).isSome :=
  fun e he => Entry.isSome (show d.Entry dir e.1 e.2 from he)

/-- The other names of a directory. -/
def others (d : Disk) (dir : Ident) (name : String) : List (String × Ident) :=
  (d.entries dir).filter fun e => e.1 ≠ name

theorem others_isSome (d : Disk) (dir : Ident) (name : String) :
    ∀ e ∈ d.others dir name, (d.object e.2).isSome :=
  fun e he => d.entries_isSome dir e (List.mem_of_mem_filter he)

/-- A new object that is empty. -/
def allot (d : Disk) (fresh : Ident) (isDirectory : Bool) (stamp : Stamp) : Disk :=
  d.place fresh (.blank isDirectory stamp) fun e he => by
    rw [Object.entries_blank] at he
    exact absurd he List.not_mem_nil

/-- Make an empty directory or file under a name that is free. The number is one that is not in use. -/
def create (d : Disk) (dir : Ident) (name : String) (fresh : Ident) (isDirectory : Bool)
    (stamp : Stamp) : Except Errno Disk :=
  if d.isDirectory dir = false then .error .notDirectory
  else if ((d.entries dir).lookup name).isSome then .error .taken
  else if (d.object fresh).isSome then .error .noSpace
  else .ok ((d.allot fresh isDirectory stamp).relist dir (d.entries dir ++ [(name, fresh)]) stamp
    fun e he => by
      rcases List.mem_append.mp he with hold | hnew
      · exact isSome_place (d.entries_isSome dir e hold)
      · obtain rfl := List.mem_singleton.mp hnew
        rw [allot, object_place, if_pos rfl]
        rfl)

/-- Write at the start of a file. -/
def write (d : Disk) (i : Ident) (raw : Bytes) (stamp : Stamp) : Except Errno Disk :=
  match d.object i with
  | some (.file old _) =>
    .ok (d.place i (.file (raw ++ old.drop raw.length) stamp) fun _ he => absurd he List.not_mem_nil)
  | _ => .error .badDescriptor

/-- Remove an empty directory, or something else, by its name. -/
def remove (d : Disk) (dir : Ident) (name : String) (isDirectory : Bool) (stamp : Stamp) :
    Except Errno (Ident × Disk) :=
  match d.child dir name with
  | .error e => .error e
  | .ok i =>
    if isDirectory && ! d.isDirectory i then .error .notDirectory
    else if isDirectory && ! (d.entries i).isEmpty then .error .notEmpty
    else if ! isDirectory && d.isDirectory i then .error .isDirectory
    else .ok (i, d.relist dir (d.others dir name) stamp (d.others_isSome dir name))

/-- Rename within a directory. No name that is taken is replaced. -/
def move (d : Disk) (dir : Ident) (old new : String) (stamp : Stamp) : Except Errno (Ident × Disk) :=
  match h : (d.entries dir).lookup old with
  | none => .error (if d.isDirectory dir then .noEntry else .notDirectory)
  | some i =>
    if ((d.entries dir).lookup new).isSome then .error .taken
    else .ok (i, d.relist dir (d.others dir old ++ [(new, i)]) stamp fun e he => by
      rcases List.mem_append.mp he with hold | hnew
      · exact d.others_isSome dir old e hold
      · obtain rfl := List.mem_singleton.mp hnew
        exact (entry_of_lookup h).isSome)

/-! ## Changes below -/

/-- What an operation does: it frees at most one name of `home`, and what it enters is new, and
empty. -/
structure Change (place : String) (d d' : Disk) : Prop where
  home : d'.home = d.home
  named : ∀ name, d'.named name = d.named name ∨ (name = place ∧ d'.named name = none)
  entry : ∀ a name b, d'.Entry a name b → d.Entry a name b ∨
    (d.object b = none ∧ d.home ≠ some b ∧ ∀ n c, ¬ d'.Entry b n c)
  kept : ∀ i, (d.object i).isSome → (d'.object i).isSome

namespace Change

variable {place : String} {d d' : Disk}

theorem elsewhere (h : Change place d d') {r : Ident} (hr : (d.object r).isSome)
    (helse : d'.Elsewhere place r) : d.Elsewhere place r := by
  obtain ⟨dir, name, hentry, hplace⟩ := helse
  rw [h.home] at hplace
  rcases h.entry dir name r hentry with hold | hnew
  · exact ⟨dir, name, hold, hplace⟩
  · rw [hnew.1] at hr
    cases hr

theorem under (h : Change place d d') {r i : Ident} (hi : d'.Under r i) :
    d.Under r i ∨ (d.object i = none ∧ d.home ≠ some i ∧ ∀ n c, ¬ d'.Entry i n c) := by
  induction hi with
  | refl => exact .inl .refl
  | tail _ hentry ih =>
    obtain ⟨name, hentry⟩ := hentry
    rcases ih with hunder | hnew
    · rcases h.entry _ name _ hentry with hold | hfresh
      · exact .inl (hunder.tail ⟨name, hold⟩)
      · exact .inr hfresh
    · exact absurd hentry (hnew.2.2 name _)

end Change

theorem named_of_home {d d' : Disk} (hhome : d'.home = d.home)
    (h : ∀ p, d.home = some p → d'.entries p = d.entries p) (name : String) :
    d'.named name = d.named name := by
  unfold named
  rw [hhome]
  cases hp : d.home with
  | none => rfl
  | some p =>
    show (d'.entries p).lookup name = (d.entries p).lookup name
    rw [h p hp]

theorem create_eq_ok {d d' : Disk} {dir fresh : Ident} {name : String} {isDirectory : Bool}
    {stamp : Stamp} (h : d.create dir name fresh isDirectory stamp = .ok d') :
    d.isDirectory dir = true ∧ (d.entries dir).lookup name = none ∧ d.object fresh = none ∧
      d'.home = d.home ∧
      d'.object = fun j => if j = dir then some (.directory (d.entries dir ++ [(name, fresh)]) stamp)
        else if j = fresh then some (.blank isDirectory stamp) else d.object j := by
  unfold create at h
  split_ifs at h with hdir hname hfresh
  refine ⟨Bool.of_not_eq_false hdir, Option.not_isSome_iff_eq_none.mp hname,
    Option.not_isSome_iff_eq_none.mp hfresh, ?_⟩
  rw [← Except.ok.inj h]
  exact ⟨rfl, rfl⟩

theorem isSome_of_isDirectory {d : Disk} {i : Ident} (h : d.isDirectory i = true) :
    (d.object i).isSome := by
  unfold isDirectory at h
  cases hi : d.object i with
  | none =>
    rw [hi] at h
    cases h
  | some o => rfl

/-- What a creation lists in which directory. -/
theorem entries_create {d d' : Disk} {dir fresh : Ident} {name : String} {isDirectory : Bool}
    {stamp : Stamp} (h : d.create dir name fresh isDirectory stamp = .ok d') (j : Ident) :
    d'.entries j = if j = dir then d.entries dir ++ [(name, fresh)] else d.entries j := by
  obtain ⟨-, -, hfresh, -, hobject⟩ := create_eq_ok h
  unfold entries
  rw [hobject]
  dsimp only
  by_cases hj : j = dir
  · rw [if_pos hj, if_pos hj]
    rfl
  · rw [if_neg hj, if_neg hj]
    by_cases hjf : j = fresh
    · rw [if_pos hjf, hjf, hfresh]
      exact Object.entries_blank isDirectory stamp
    · rw [if_neg hjf]

theorem entry_create {d d' : Disk} {dir fresh : Ident} {name : String} {isDirectory : Bool}
    {stamp : Stamp} (h : d.create dir name fresh isDirectory stamp = .ok d') {a b : Ident} {n : String}
    (hentry : d'.Entry a n b) : d.Entry a n b ∨ (a = dir ∧ n = name ∧ b = fresh) := by
  rw [Entry, entries_create h] at hentry
  by_cases ha : a = dir
  · rw [if_pos ha] at hentry
    rcases List.mem_append.mp hentry with hold | hnew
    · exact .inl (by rwa [Entry, ha])
    · obtain ⟨rfl, rfl⟩ := Prod.mk.inj (List.mem_singleton.mp hnew)
      exact .inr ⟨ha, rfl, rfl⟩
  · rw [if_neg ha] at hentry
    exact .inl hentry

/-- What is new lists nothing. -/
theorem not_entry_fresh {d d' : Disk} {dir fresh : Ident} {name : String} {isDirectory : Bool}
    {stamp : Stamp} (h : d.create dir name fresh isDirectory stamp = .ok d') (n : String) (c : Ident) :
    ¬ d'.Entry fresh n c := by
  obtain ⟨hdir, -, hfresh, -, -⟩ := create_eq_ok h
  have hne : fresh ≠ dir := by
    intro heq
    have hsome := isSome_of_isDirectory hdir
    rw [← heq, hfresh] at hsome
    cases hsome
  rw [Entry, entries_create h, if_neg hne, entries_of_none hfresh]
  exact List.not_mem_nil

theorem kept_create {d d' : Disk} {dir fresh : Ident} {name : String} {isDirectory : Bool}
    {stamp : Stamp} (h : d.create dir name fresh isDirectory stamp = .ok d') {i : Ident}
    (hi : (d.object i).isSome) : (d'.object i).isSome := by
  obtain ⟨-, -, -, -, hobject⟩ := create_eq_ok h
  rw [hobject]
  dsimp only
  split_ifs
  · rfl
  · rfl
  · exact hi

theorem lookup_append_of_some {es more : List (String × Ident)} {name : String} {i : Ident}
    (h : es.lookup name = some i) : (es ++ more).lookup name = some i := by
  rw [List.lookup_append, h]
  rfl

/-- A creation redirects no path. -/
theorem walk_create {d d' : Disk} {dir fresh : Ident} {name : String} {isDirectory : Bool}
    {stamp : Stamp} (h : d.create dir name fresh isDirectory stamp = .ok d') :
    ∀ {path : List String} {a i : Ident}, d.walk a path = .ok i → d'.walk a path = .ok i
  | [], _, _, hwalk => hwalk
  | n :: path, a, i, hwalk => by
    obtain ⟨c, hc, hi⟩ := walk_cons_eq_ok.mp hwalk
    rw [child_eq_ok] at hc
    apply walk_cons_eq_ok.mpr
    refine ⟨c, child_eq_ok.mpr ?_, walk_create h hi⟩
    rw [entries_create h]
    by_cases ha : a = dir
    · rw [if_pos ha]
      exact lookup_append_of_some (ha ▸ hc)
    · rwa [if_neg ha]

/-- What is made is found under its name. -/
theorem find_create {d d' : Disk} {dir fresh : Ident} {name : String} {isDirectory : Bool}
    {stamp : Stamp} {path : List String} (hdir : d.find path = .ok dir)
    (h : d.create dir name fresh isDirectory stamp = .ok d') :
    d'.find (path ++ [name]) = .ok fresh := by
  obtain ⟨-, hfree, -, hhome, -⟩ := create_eq_ok h
  apply find_append.mpr
  refine ⟨dir, ?_, child_eq_ok.mpr ?_⟩
  · unfold find at hdir ⊢
    rw [hhome]
    cases hp : d.home with
    | none =>
      rw [hp] at hdir
      cases hdir
    | some p =>
      rw [hp] at hdir
      exact walk_create h hdir
  · rw [entries_create h, if_pos rfl, List.lookup_append, hfree]
    simp

/-- **Creating below `home`** enters what is new. -/
theorem change_create {d d' : Disk} {dir fresh : Ident} {name : String} {isDirectory : Bool}
    {stamp : Stamp} (h : d.create dir name fresh isDirectory stamp = .ok d') (place : String)
    (hdir : d.home ≠ some dir) (hhome : ∀ p, d.home = some p → (d.object p).isSome) :
    Change place d d' := by
  obtain ⟨-, -, hfresh, hsame, -⟩ := create_eq_ok h
  have hother : d.home ≠ some fresh := by
    intro hp
    have hsome := hhome fresh hp
    rw [hfresh] at hsome
    cases hsome
  refine ⟨hsame, fun n => .inl ?_, fun a n b hentry => ?_, fun i hi => kept_create h hi⟩
  · apply named_of_home hsame
    intro p hp
    have hne : p ≠ dir := by
      intro heq
      exact hdir (by rw [hp, heq])
    rw [entries_create h, if_neg hne]
  · rcases entry_create h hentry with hold | ⟨-, -, rfl⟩
    · exact .inl hold
    · exact .inr ⟨hfresh, hother, not_entry_fresh h⟩

/-- **Writing** lists what was listed. -/
theorem change_write {d d' : Disk} {i : Ident} {raw : Bytes} {stamp : Stamp}
    (h : d.write i raw stamp = .ok d') (place : String) : Change place d d' := by
  unfold write at h
  split at h
  · rename_i old stamp' hi
    obtain rfl := Except.ok.inj h
    have hentries : ∀ j, (d.place i (.file (raw ++ old.drop raw.length) stamp)
        fun _ he => absurd he List.not_mem_nil).entries j = d.entries j := by
      intro j
      rw [entries_place]
      by_cases hj : j = i
      · rw [if_pos hj, hj, entries_of_some hi]
        rfl
      · rw [if_neg hj]
    refine ⟨rfl, fun n => .inl ?_, fun a n b hentry => ?_, fun j hj => isSome_place hj⟩
    · apply named_of_home
      · rfl
      · intro p _
        exact hentries p
    · rw [Entry, hentries] at hentry
      exact .inl hentry
  · cases h

theorem remove_eq_ok {d d' : Disk} {dir i : Ident} {name : String} {isDirectory : Bool}
    {stamp : Stamp} (h : d.remove dir name isDirectory stamp = .ok (i, d')) :
    d.child dir name = .ok i ∧
      d' = d.relist dir (d.others dir name) stamp (d.others_isSome dir name) := by
  unfold remove at h
  cases hchild : d.child dir name with
  | error e =>
    rw [hchild] at h
    cases h
  | ok j =>
    rw [hchild] at h
    dsimp only at h
    split_ifs at h
    obtain ⟨rfl, rfl⟩ := Prod.mk.inj (Except.ok.inj h)
    exact ⟨rfl, rfl⟩

theorem lookup_filter_ne {es : List (String × Ident)} {name other : String} :
    (es.filter fun e => e.1 ≠ other).lookup name =
      if name = other then none else es.lookup name := by
  induction es with
  | nil =>
    rw [List.filter_nil, List.lookup_nil]
    by_cases hname : name = other <;> simp [hname]
  | cons e es ih =>
    obtain ⟨n, i⟩ := e
    by_cases hn : n = other
    · rw [List.filter_cons_of_neg (by simpa using hn), ih, hn]
      by_cases hname : name = other
      · rw [if_pos hname, if_pos hname]
      · have hbeq : (name == other) = false := by simpa using hname
        rw [if_neg hname, if_neg hname, List.lookup_cons, hbeq]
    · rw [List.filter_cons_of_pos (by simpa using hn), List.lookup_cons, List.lookup_cons, ih]
      by_cases hname : name = other
      · have hbeq : (name == n) = false := by
          rw [hname]
          simpa using Ne.symm hn
        rw [if_pos hname, hbeq]
        exact (if_pos hname).symm
      · rw [if_neg hname, if_neg hname]

/-- **Removing** frees at most the name that `home` has under `place`, where it is one of those. -/
theorem change_remove {d d' : Disk} {dir i : Ident} {name : String} {isDirectory : Bool}
    {stamp : Stamp} (h : d.remove dir name isDirectory stamp = .ok (i, d')) {place : String}
    (hplace : d.home = some dir → name = place) : Change place d d' := by
  obtain ⟨-, rfl⟩ := remove_eq_ok h
  refine ⟨rfl, fun n => ?_, fun a n b hentry => .inl ?_, fun j hj => isSome_place hj⟩
  · unfold named relist
    rw [home_place]
    cases hp : d.home with
    | none => exact .inl rfl
    | some p =>
      show ((d.place dir _ _).entries p).lookup n = _ ∨ _ ∧ ((d.place dir _ _).entries p).lookup n = _
      rw [entries_place]
      by_cases hpd : p = dir
      · rw [if_pos hpd, Object.entries_directory, others, lookup_filter_ne, hpd]
        by_cases hn : n = name
        · rw [if_pos hn]
          exact .inr ⟨hn.trans (hplace (hpd ▸ hp)), rfl⟩
        · rw [if_neg hn]
          exact .inl rfl
      · rw [if_neg hpd]
        exact .inl rfl
  · rw [Entry, relist, entries_place] at hentry
    by_cases ha : a = dir
    · rw [if_pos ha] at hentry
      rw [Entry, ha]
      exact List.mem_of_mem_filter hentry
    · rwa [if_neg ha] at hentry

/-- What a renaming does to its directory, and to nothing else. -/
theorem move_eq_ok {d d' : Disk} {dir i : Ident} {old new : String} {stamp : Stamp}
    (h : d.move dir old new stamp = .ok (i, d')) :
    (d.entries dir).lookup old = some i ∧ (d.entries dir).lookup new = none ∧ d'.home = d.home ∧
      d'.object = fun j => if j = dir then
        some (.directory (d.others dir old ++ [(new, i)]) stamp) else d.object j := by
  unfold move at h
  split at h
  · cases h
  · rename_i j hold
    split_ifs at h with hnew
    obtain ⟨rfl, rfl⟩ := Prod.mk.inj (Except.ok.inj h)
    exact ⟨hold, Option.not_isSome_iff_eq_none.mp hnew, rfl, rfl⟩

/-- The names of `home` after a renaming in it. -/
theorem named_move {d d' : Disk} {dir i : Ident} {old new : String} {stamp : Stamp}
    (h : d.move dir old new stamp = .ok (i, d')) (hhome : d.home = some dir) (name : String) :
    d'.named name = (d.others dir old ++ [(new, i)]).lookup name := by
  obtain ⟨-, -, hsame, hobject⟩ := move_eq_ok h
  have hdir : d'.object dir = some (.directory (d.others dir old ++ [(new, i)]) stamp) := by
    rw [hobject]
    exact if_pos rfl
  unfold named
  rw [hsame, hhome]
  show (d'.entries dir).lookup name = _
  rw [entries_of_some hdir, Object.entries_directory]

/-! ## What others do -/

/-- What other processes may do while the tree under `root`, if there is one, is somebody's own, and
so is the name `place` of `home`: they change no object of the tree and do not touch that name, and
what has no other name gets none, since a directory is renamed but never linked. -/
structure Unrelated (place : String) (root : Option Ident) (d d' : Disk) : Prop where
  home : d'.home = d.home
  own : root ≠ none → d'.named place = d.named place
  tree : ∀ r, root = some r → ∀ i, d.Under r i → d'.object i = d.object i
  names : ∀ r, root = some r → d'.Elsewhere place r → d.Elsewhere place r

namespace Unrelated

variable {place : String} {r : Ident} {d d' : Disk}

theorem refl (place : String) (root : Option Ident) (d : Disk) : Unrelated place root d d :=
  ⟨rfl, fun _ => rfl, fun _ _ _ _ => rfl, fun _ _ h => h⟩

theorem tree_eq (h : Unrelated place (some r) d d') : d'.tree r = d.tree r :=
  tree_congr (h.tree r rfl)

theorem walk (h : Unrelated place (some r) d d') (path : List String) :
    d'.walk r path = d.walk r path :=
  walk_congr (h.tree r rfl) path .refl

theorem under (h : Unrelated place (some r) d d') {i : Ident} (hi : d'.Under r i) : d.Under r i :=
  under_of_congr (h.tree r rfl) hi

end Unrelated

end Disk

end FileSystem
