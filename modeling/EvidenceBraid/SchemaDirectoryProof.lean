import EvidenceBraid.SchemaDirectory

/-!
# The schema directory is published whole, or not at all

**Theorem (`exportSchemaDirectory_truthful`).** Whatever fails and whatever others do elsewhere: a
returned export is of a directory that this call made, verified and renamed; what an error says of
the publication is so; an existing destination is never replaced; and only what this call made is
removed, and never after a publication.

**Idea.** `Staged` holds until the rename takes effect and `Published` from then on, and neither is
disturbed by others. The staging name leads to the root before, never after; the destination never
before. So each observation of an identity tells one from the other.
-/

namespace EvidenceBraid

namespace SchemaDirectory

open FileSystem Transaction
open Transaction.Action (Ensures)

variable {site : Site} {α : Type}

/-! ## What others leave -/

/-- Others do not disturb it. -/
def Stable (I : World site → Prop) : Prop := ∀ w, I w → I w.next

namespace Stable

variable {I J : World site → Prop}

theorem and (hI : Stable I) (hJ : Stable J) : Stable fun w => I w ∧ J w :=
  fun w h => ⟨hI w h.1, hJ w h.2⟩

theorem or (hI : Stable I) (hJ : Stable J) : Stable fun w => I w ∨ J w :=
  fun w h => h.imp (hI w) (hJ w)

theorem identity (o : Owned) (k : Option Ident) : Stable fun w : World site => w.identity o = k :=
  fun _ h => h

end Stable

theorem unrelated_next (w : World site) :
    Disk.Unrelated site.staging w.root w.disk w.next.disk :=
  (w.moments 0).others.unrelated w.root w.disk

/-! ## What a call ensures -/

section Calls

variable {I E : World site → Prop} {Q : α → World site → Prop}

/-- A call: others act, and the operation is done or not, whatever is raised. -/
theorem ensures_call (hI : Stable I) {op : Moment site → World site → Except Problem α × World site}
    (hop : ∀ m, Ensures I (op m) Q E) (hQ : ∀ a w, Q a w → E w) (hE : ∀ w, I w → E w) :
    Ensures I (call op) Q E := by
  intro w hw
  have hnext := hI w hw
  obtain ⟨hok, herror⟩ := hop (w.moments 0) w.next hnext
  have hdone : E (op (w.moments 0) w.next).2 := by
    rcases hresult : op (w.moments 0) w.next with ⟨e | a, t⟩
    · exact herror e t hresult
    · exact hQ a t (hok a t hresult)
  unfold call
  rcases hfault : (w.moments 0).fault with _ | ⟨e, done⟩
  · exact ⟨hok, herror⟩
  · cases done with
    | false =>
      refine ⟨fun a t ht => ?_, fun e' t ht => ?_⟩
      · cases congrArg Prod.fst ht
      · obtain ⟨-, rfl⟩ := Prod.mk.inj ht
        exact hE _ hnext
    | true =>
      refine ⟨fun a t ht => ?_, fun e' t ht => ?_⟩
      · cases congrArg Prod.fst ht
      · obtain ⟨-, rfl⟩ := Prod.mk.inj ht
        exact hdone

theorem ensures_look (hI : Stable I) (f : Moment site → Disk → Except Problem α) :
    Ensures I (look f) (fun a w => I w ∧ ∃ m, f m w.disk = .ok a) I := by
  apply ensures_call hI
  · intro m w hw
    refine ⟨fun a t ht => ?_, fun e t ht => ?_⟩
    · obtain ⟨hf, rfl⟩ := Prod.mk.inj ht
      exact ⟨hw, m, hf⟩
    · obtain ⟨-, rfl⟩ := Prod.mk.inj ht
      exact hw
  · exact fun _ _ h => h.1
  · exact fun _ h => h

theorem ensures_touch (hI : Stable I) : Ensures I (touch : Step site Unit) (fun _ => I) I :=
  (ensures_look hI _).post fun _ _ h => h.1

theorem ensures_effect (hI : Stable I)
    (change : Moment site → Disk → Except Problem (α × Act × Disk))
    (hchange : ∀ m w a act d, I w → change m w.disk = .ok (a, act, d) → Q a (w.record act d))
    (hQ : ∀ a w, Q a w → E w) (hE : ∀ w, I w → E w) : Ensures I (effect change) Q E := by
  apply ensures_call hI _ hQ hE
  intro m w hw
  rcases hresult : change m w.disk with e | ⟨a, act, d⟩
  · refine ⟨fun a t ht => ?_, fun e' t ht => ?_⟩
    · dsimp only at ht
      rw [hresult] at ht
      cases congrArg Prod.fst ht
    · dsimp only at ht
      rw [hresult] at ht
      obtain ⟨-, rfl⟩ := Prod.mk.inj ht
      exact hE _ hw
  · refine ⟨fun b t ht => ?_, fun e' t ht => ?_⟩
    · dsimp only at ht
      rw [hresult] at ht
      obtain ⟨hb, rfl⟩ := Prod.mk.inj ht
      obtain rfl := Except.ok.inj hb
      exact hchange m w a act d hw hresult
    · dsimp only at ht
      rw [hresult] at ht
      cases congrArg Prod.fst ht

theorem ensures_refuse {test : Prop} [Decidable test] (message : String) :
    Ensures I (refuse test message : Step site Unit) (fun _ w => I w ∧ ¬ test) I := by
  unfold refuse
  by_cases htest : test
  · rw [if_pos htest]
    exact .raise fun _ h => h
  · rw [if_neg htest]
    exact .pure fun _ h => ⟨h, htest⟩

theorem ensures_lift (x : Except Problem α) :
    Ensures I (Action.lift x : Step site α) (fun a w => I w ∧ x = .ok a) I := by
  intro w hw
  refine ⟨fun a t ht => ?_, fun e t ht => ?_⟩
  · obtain ⟨hx, rfl⟩ := Action.lift_eq_ok.mp ht
    exact ⟨hw, hx⟩
  · obtain ⟨-, rfl⟩ := Prod.mk.inj ht
    exact hw

/-- A body and its release. -/
theorem ensures_closing {P : World site → Prop} (phase : String) {body : Step site α}
    (hbody : Ensures P body Q E) (hQ : ∀ a, Stable (Q a)) (hE : Stable E)
    (hQE : ∀ a w, Q a w → E w) : Ensures P (closing phase body touch) Q E := by
  unfold closing
  apply Ensures.bind (hbody.attempt (F := E))
  intro result
  cases result with
  | ok a =>
    apply Ensures.bind ((ensures_touch (hQ a)).attempt.pre fun w h => h.1 a rfl)
    intro released
    cases released with
    | ok u => exact .pure fun w h => h.1 u rfl
    | error e => exact .raise fun w h => hQE a w (h.2 e rfl)
  | error p =>
    apply Ensures.bind ((ensures_touch hE).attempt.pre fun w h => h.2 p rfl)
    intro released
    cases released with
    | ok u => exact .raise fun w h => h.1 u rfl
    | error e => exact .raise fun w h => h.2 e rfl

theorem ensures_translating {P : World site → Prop} (caught : Problem → Bool) (message : String)
    {body : Step site α} (hbody : Ensures P body Q E) :
    Ensures P (translating caught message body) Q E := by
  unfold translating
  apply Ensures.bind (hbody.attempt (F := E))
  intro result
  cases result with
  | ok a => exact .pure fun w h => h.1 a rfl
  | error e => exact .raise fun w h => h.2 e rfl

theorem ensures_identityOf (o : Owned) :
    Ensures I (identityOf o) (fun k w => I w ∧ w.identity o = k) I :=
  .query (fun _ _ hw h => ⟨hw, Except.ok.inj h⟩) fun _ hw => hw

end Calls

/-! ## Looking at a path -/

@[simp] theorem answer_eq_ok {x : Except Errno α} {a : α} : answer x = .ok a ↔ x = .ok a := by
  unfold answer
  cases x <;> simp [Except.mapError]

theorem status_eq_ok {d : Disk} {i : Ident} {o : Object} :
    d.status i = .ok o ↔ d.object i = some o := by
  unfold Disk.status
  cases d.object i <;> simp

theorem ident_statOf (i : Ident) (o : Object) : (statOf i o).ident = i := by
  cases o <;> rfl

theorem plain_eq_ok {value plained : Stat} {directory : Bool} (h : plain value directory = .ok plained) :
    plained = value ∧ value.type = if directory then .directory else .regular := by
  unfold plain at h
  by_cases htest : value.type ≠ (if directory then .directory else .regular) ∨
      value.stamp.reparse = true ∨ value.ident.number = 0
  · rw [if_pos htest] at h
    cases h
  · rw [if_neg htest] at h
    exact ⟨(Except.ok.inj h).symm, not_not.mp (not_or.mp htest).1⟩

section Looking

variable {I : World site → Prop}

/-- What `lstat` saw there. -/
def Saw (path : List String) (value : Stat) (w : World site) : Prop :=
  ∃ o, w.disk.find path = .ok value.ident ∧ w.disk.object value.ident = some o ∧
    value = statOf value.ident o

theorem ensures_statPath (hI : Stable I) (path : List String) :
    Ensures I (statPath path) (fun value w => I w ∧ Saw path value w) I := by
  apply (ensures_look hI _).post
  intro value w h
  obtain ⟨hw, -, hvalue⟩ := h
  simp only [answer_eq_ok, bind_eq_ok, status_eq_ok] at hvalue
  obtain ⟨i, hfind, o, hobject, hstat⟩ := hvalue
  obtain rfl : statOf i o = value := Except.ok.inj hstat
  unfold Saw
  rw [ident_statOf]
  exact ⟨hw, o, hfind, hobject, rfl⟩

theorem ensures_lstat (hI : Stable I) (path : List String) (directory : Bool) :
    Ensures I (lstat path directory) (fun value w => I w ∧ Saw path value w ∧
      value.type = if directory then .directory else .regular) I := by
  unfold lstat
  apply Ensures.bind (ensures_statPath hI path)
  intro value
  apply (ensures_lift (plain value directory)).weaken (fun _ h => h) _ fun _ h => h.1
  intro plained w h
  obtain ⟨⟨hw, hsaw⟩, hplain⟩ := h
  obtain ⟨rfl, htype⟩ := plain_eq_ok hplain
  exact ⟨hw, hsaw, htype⟩

end Looking

/-! ## Before the rename -/

/-- The call did this. -/
def World.Did (w : World site) (act : Act) : Prop := ∃ e ∈ w.effects, e.act = act

/-- A step left an existing destination where it was. -/
def Effect.Keeps (site : Site) (e : Effect) : Prop :=
  ∀ i, e.before.named site.destination = some i → e.after.named site.destination = some i

/-- **Before the rename.** What the call knows of itself, it made; the staging name leads to nothing
but the root, which has no other name; and the tree under it is apart from the parent. -/
structure Staged (w : World site) : Prop where
  known : ∀ o i, o ≠ .parent → w.identity o = some i → w.root ≠ none ∧ w.Did (.make o.path i)
  stage : ∀ i, w.identity (stage site) = some i → w.root = some i
  bound : ∀ r i, w.root = some r → w.disk.named site.staging = some i → i = r
  sole : ∀ r, w.root = some r → ¬ w.disk.Elsewhere site.staging r
  apart : ∀ r i, w.root = some r → w.disk.Under r i → w.disk.home ≠ some i
  present : ∀ r, w.root = some r → (w.disk.object r).isSome
  unmoved : ∀ i, ¬ w.Did (.rename i)
  kept : ∀ e ∈ w.effects, e.Keeps site
  removed : ∀ path i, w.Did (.remove path i) → w.Did (.make path i)

theorem staged_start (disk : Disk) (moments : ℕ → Moment site) :
    Staged (World.start disk moments) where
  known _ _ _ h := by cases h
  stage _ h := by cases h
  bound _ _ h := by cases h
  sole _ h := by cases h
  apart _ _ h := by cases h
  present _ h := by cases h
  unmoved _ h := by
    obtain ⟨e, he, -⟩ := h
    cases he
  kept _ h := by cases h
  removed _ _ h := by
    obtain ⟨e, he, -⟩ := h
    cases he

/-- What others do to the tree under a root. -/
theorem unrelated_of_root {w : World site} {r : Ident} (hr : w.root = some r) :
    Disk.Unrelated site.staging (some r) w.disk w.next.disk := by
  rw [← hr]
  exact unrelated_next w

/-- **Others do not disturb what is staged.** -/
theorem stable_staged : Stable (Staged : World site → Prop) := by
  intro w hw
  refine ⟨hw.known, hw.stage, fun r i hr hi => ?_, fun r hr helse => ?_, fun r i hr hi => ?_,
    fun r hr => ?_, hw.unmoved, hw.kept, hw.removed⟩
  · have hr : w.root = some r := hr
    rw [(unrelated_of_root hr).own (by simp)] at hi
    exact hw.bound r i hr hi
  · have hr : w.root = some r := hr
    exact hw.sole r hr ((unrelated_of_root hr).names r rfl helse)
  · have hr : w.root = some r := hr
    rw [(unrelated_of_root hr).home]
    exact hw.apart r i hr ((unrelated_of_root hr).under hi)
  · have hr : w.root = some r := hr
    rw [(unrelated_of_root hr).tree r rfl r .refl]
    exact hw.present r hr

/-- A path below the staging directory. -/
def Below (site : Site) (path : List String) : Prop := ∃ rest, path = site.staging :: rest

theorem Below.append {path : List String} (h : Below site path) (name : String) :
    Below site (path ++ [name]) := by
  obtain ⟨rest, rfl⟩ := h
  exact ⟨rest ++ [name], rfl⟩

/-- What a path below the staging directory leads to is in the tree. -/
theorem Staged.walk {w : World site} (h : Staged w) {r i : Ident} (hr : w.root = some r)
    {rest : List String} (hi : w.disk.find (site.staging :: rest) = .ok i) :
    w.disk.walk r rest = .ok i := by
  obtain ⟨x, hx, hwalk⟩ := Disk.find_cons.mp hi
  rwa [h.bound r x hr hx] at hwalk

/-- **Others do not redirect it.** -/
theorem Staged.find_next {w : World site} (h : Staged w) (hr : w.root ≠ none) {path : List String}
    {i : Ident} (hpath : Below site path) (hi : w.disk.find path = .ok i) :
    w.next.disk.find path = .ok i := by
  obtain ⟨r, hr⟩ := Option.ne_none_iff_exists'.mp hr
  obtain ⟨rest, rfl⟩ := hpath
  obtain ⟨x, hx, hwalk⟩ := Disk.find_cons.mp hi
  obtain rfl := h.bound r x hr hx
  have hunrelated := unrelated_of_root hr
  rw [Disk.find_cons]
  exact ⟨x, by rw [hunrelated.own (by simp), hx], by rw [hunrelated.walk rest, hwalk]⟩

/-! ## The effects of the steps -/

theorem did_record {w : World site} {act act' : Act} {d : Disk} :
    (w.record act d).Did act' ↔ w.Did act' ∨ act = act' := by
  unfold World.Did World.record
  constructor
  · intro h
    obtain ⟨e, he, hact⟩ := h
    rcases List.mem_append.mp he with hold | hnew
    · exact .inl ⟨e, hold, hact⟩
    · obtain rfl := List.mem_singleton.mp hnew
      exact .inr hact
  · intro h
    rcases h with ⟨e, he, hact⟩ | hact
    · exact ⟨e, List.mem_append_left _ he, hact⟩
    · exact ⟨_, List.mem_append_right _ (List.mem_singleton.mpr rfl), hact⟩

theorem root_record {w : World site} {act : Act} {d : Disk}
    (h : ∀ i, act ≠ .make [site.staging] i) : (w.record act d).root = w.root := by
  unfold World.record
  cases act with
  | make path i =>
    show (if path = [site.staging] then some i else w.root) = w.root
    rw [if_neg]
    intro hpath
    exact h i (by rw [hpath])
  | _ => rfl

theorem keeps_of_change {d d' : Disk} (h : Disk.Change site.staging d d') (act : Act) :
    Effect.Keeps site ⟨act, d, d'⟩ := by
  intro i hi
  rcases h.named site.destination with hsame | ⟨hname, -⟩
  · exact hsame.trans hi
  · exact absurd hname.symm site.fresh

/-- **A change below** leaves what is staged as it is. -/
theorem Staged.record {w : World site} (h : Staged w) {act : Act} {d : Disk}
    (hchange : Disk.Change site.staging w.disk d) (hmake : ∀ i, act ≠ .make [site.staging] i)
    (hrename : ∀ i, act ≠ .rename i)
    (hremove : ∀ path i, act = .remove path i → w.Did (.make path i)) : Staged (w.record act d) := by
  have hroot := root_record (w := w) (d := d) hmake
  refine ⟨fun o i ho hi => ?_, fun i hi => ?_, fun r i hr hi => ?_, fun r hr helse => ?_,
    fun r i hr hi => ?_, fun r hr => ?_, fun i hi => ?_, fun e he => ?_, fun path i hi => ?_⟩
  · obtain ⟨hsome, hdid⟩ := h.known o i ho hi
    rw [hroot]
    exact ⟨hsome, did_record.mpr (.inl hdid)⟩
  · rw [hroot]
    exact h.stage i hi
  · rw [hroot] at hr
    rcases hchange.named site.staging with hsame | ⟨-, hnone⟩
    · exact h.bound r i hr (hsame.symm.trans hi)
    · cases hnone.symm.trans hi
  · rw [hroot] at hr
    exact h.sole r hr (hchange.elsewhere (h.present r hr) helse)
  · rw [hroot] at hr
    show d.home ≠ some i
    rw [hchange.home]
    rcases hchange.under hi with hold | hnew
    · exact h.apart r i hr hold
    · exact hnew.2.1
  · rw [hroot] at hr
    exact hchange.kept r (h.present r hr)
  · rcases did_record.mp hi with hold | hact
    · exact h.unmoved i hold
    · exact hrename i hact
  · rcases List.mem_append.mp he with hold | hnew
    · exact h.kept e hold
    · obtain rfl := List.mem_singleton.mp hnew
      exact keeps_of_change hchange act
  · rcases did_record.mp hi with hold | hact
    · exact did_record.mpr (.inl (h.removed path i hold))
    · exact did_record.mpr (.inl (hremove path i hact))

/-- A directory below is none of the parent's. -/
theorem Staged.home_ne {w : World site} (h : Staged w) (hr : w.root ≠ none) {path : List String}
    {dir : Ident} (hpath : Below site path) (hdir : w.disk.find path = .ok dir) :
    w.disk.home ≠ some dir := by
  obtain ⟨r, hr⟩ := Option.ne_none_iff_exists'.mp hr
  obtain ⟨rest, rfl⟩ := hpath
  exact h.apart r dir hr (Disk.under_of_walk (h.walk hr hdir))

theorem below_ne_stage {path : List String} (h : Below site path) (name : String) :
    path ++ [name] ≠ [site.staging] := by
  obtain ⟨rest, rfl⟩ := h
  simp

/-- Making something below the staging directory. -/
theorem Staged.make_below {w : World site} (h : Staged w) (hr : w.root ≠ none) {path : List String}
    {name : String} {dir fresh : Ident} {isDirectory : Bool} {stamp : Stamp} {d : Disk}
    (hpath : Below site path) (hdir : w.disk.find path = .ok dir)
    (hcreate : w.disk.create dir name fresh isDirectory stamp = .ok d) :
    Staged (w.record (.make (path ++ [name]) fresh) d) := by
  have hhome : ∀ p, w.disk.home = some p → (w.disk.object p).isSome := by
    obtain ⟨rest, rfl⟩ := hpath
    exact Disk.home_of_find hdir
  apply h.record (Disk.change_create hcreate _ (h.home_ne hr hpath hdir) hhome)
  · intro i hact
    exact below_ne_stage hpath name (Act.make.inj hact).1
  · intro i hact
    cases hact
  · intro _ i hact
    cases hact

/-- Making the staging directory. -/
theorem Staged.make_stage {w : World site} (h : Staged w) (hr : w.root = none) {dir fresh : Ident}
    {stamp : Stamp} {d : Disk} (hdir : w.disk.home = some dir)
    (hcreate : w.disk.create dir site.staging fresh true stamp = .ok d) :
    Staged (w.record (.make [site.staging] fresh) d) := by
  obtain ⟨hisDirectory, hfree, hfresh, hhome, hobject⟩ := Disk.create_eq_ok hcreate
  have hroot : (w.record (.make [site.staging] fresh) d).root = some fresh := by
    show (if [site.staging] = [site.staging] then some fresh else w.root) = some fresh
    rw [if_pos rfl]
  have hne : dir ≠ fresh := by
    intro heq
    have hsome := Disk.isSome_of_isDirectory hisDirectory
    rw [heq, hfresh] at hsome
    cases hsome
  have hnamed (name : String) :
      d.named name = (w.disk.entries dir ++ [(site.staging, fresh)]).lookup name := by
    unfold Disk.named
    rw [hhome, hdir]
    show (d.entries dir).lookup name = _
    rw [Disk.entries_create hcreate, if_pos rfl]
  refine ⟨fun o i ho hi => absurd hr (h.known o i ho hi).1, fun i hi => ?_, fun r i hr' hi => ?_,
    fun r hr' helse => ?_, fun r i hr' hi => ?_, fun r hr' => ?_, fun i hi => ?_, fun e he => ?_,
    fun path i hi => ?_⟩
  · cases hr.symm.trans (h.stage i hi)
  · obtain rfl := Option.some.inj (hroot.symm.trans hr')
    have hi : d.named site.staging = some i := hi
    rw [hnamed, List.lookup_append, hfree] at hi
    simpa [List.lookup_cons] using hi.symm
  · obtain rfl := Option.some.inj (hroot.symm.trans hr')
    obtain ⟨a, name, hentry, hplace⟩ := helse
    rcases Disk.entry_create hcreate hentry with hold | ⟨rfl, rfl, -⟩
    · have hsome := hold.isSome
      rw [hfresh] at hsome
      cases hsome
    · exact hplace ⟨hhome.trans hdir, rfl⟩
  · obtain rfl := Option.some.inj (hroot.symm.trans hr')
    show d.home ≠ some i
    rw [hhome, hdir]
    have hi : d.Under fresh i := hi
    rcases hi.cases_head with rfl | ⟨c, ⟨name, hentry⟩, -⟩
    · exact fun heq => hne (Option.some.inj heq)
    · exact absurd hentry (Disk.not_entry_fresh hcreate name c)
  · obtain rfl := Option.some.inj (hroot.symm.trans hr')
    show (d.object fresh).isSome
    rw [hobject]
    dsimp only
    rw [if_neg hne.symm, if_pos rfl]
    rfl
  · rcases did_record.mp hi with hold | hact
    · exact h.unmoved i hold
    · cases hact
  · rcases List.mem_append.mp he with hold | hnew
    · exact h.kept e hold
    · obtain rfl := List.mem_singleton.mp hnew
      intro i hi
      have hi : w.disk.named site.destination = some i := hi
      show d.named site.destination = some i
      rw [hnamed]
      apply Disk.lookup_append_of_some
      rwa [Disk.named, hdir] at hi
  · rcases did_record.mp hi with hold | hact
    · exact did_record.mpr (.inl (h.removed path i hold))
    · cases hact

/-! ## Ownership -/

/-- The object that the call knows by this path is there. -/
def Found (o : Owned) (w : World site) : Prop :=
  ∃ i, w.identity o = some i ∧ w.disk.find o.path = .ok i

/-- The call knows what is above it. -/
def KnownAbove : Owned → World site → Prop
  | .parent, _ => True
  | .child above _ _, w => w.identity above ≠ none

/-- **A match is no mistake.** -/
theorem ensures_isOwn : ∀ (o : Owned) {I : World site → Prop}, Stable I →
    Ensures I (isOwn o) (fun own w => I w ∧ (own = true → Found o w ∧ KnownAbove o w)) I
  | .parent, I, hI => by
    rw [isOwn]
    apply Ensures.bind (ensures_identityOf _)
    intro k
    cases k with
    | none => exact .pure fun w h => ⟨h.1, fun htrue => by cases htrue⟩
    | some i =>
      apply Ensures.bind
        ((ensures_lstat (hI.and (.identity .parent (some i))) [] true).weaken
          (fun _ h => h) (fun _ _ h => h) fun _ h => h.1)
      intro value
      apply Ensures.pure
      intro w h
      obtain ⟨⟨hw, hknown⟩, ⟨o, hfind, -, -⟩, -⟩ := h
      refine ⟨hw, fun htrue => ⟨⟨i, hknown, ?_⟩, trivial⟩⟩
      rw [← of_decide_eq_true htrue]
      exact hfind
  | .child above name directory, I, hI => by
    rw [isOwn]
    apply Ensures.bind (ensures_identityOf _)
    intro k
    cases k with
    | none => exact .pure fun w h => ⟨h.1, fun htrue => by cases htrue⟩
    | some i =>
      have hknown := hI.and (.identity (.child above name directory) (some i))
      apply Ensures.bind
        ((ensures_isOwn above hknown).weaken (fun _ h => h) (fun _ _ h => h) fun _ h => h.1)
      intro own
      cases own with
      | false => exact .pure fun w h => ⟨h.1.1, fun htrue => by cases htrue⟩
      | true =>
        show Ensures _ (lstat (above.path ++ [name]) directory >>= _) _ _
        have habove : Stable fun w : World site =>
            (I w ∧ w.identity (.child above name directory) = some i) ∧ w.identity above ≠ none :=
          hknown.and fun _ h => h
        apply Ensures.bind
          ((ensures_lstat habove (above.path ++ [name]) directory).weaken
            (fun w h => ⟨h.1, ?_⟩) (fun _ _ h => h) fun _ h => h.1.1)
        · intro value
          apply Ensures.pure
          intro w h
          obtain ⟨⟨⟨hw, hidentity⟩, habove⟩, ⟨o, hfind, -, -⟩, -⟩ := h
          refine ⟨hw, fun htrue => ⟨⟨i, hidentity, ?_⟩, habove⟩⟩
          rw [← of_decide_eq_true htrue]
          exact hfind
        · obtain ⟨⟨j, hj, -⟩, -⟩ := h.2 rfl
          rw [hj]
          exact Option.some_ne_none j

theorem ensures_requireOwned {I : World site → Prop} (hI : Stable I) (o : Owned) :
    Ensures I (requireOwned o) (fun _ w => I w ∧ Found o w ∧ KnownAbove o w) I := by
  unfold requireOwned
  apply Ensures.bind (ensures_isOwn o hI)
  intro own
  apply (ensures_refuse _).weaken (fun _ h => h) _ fun _ h => h.1
  intro _ w h
  obtain ⟨⟨hw, hfound⟩, hown⟩ := h
  exact ⟨hw, hfound (Bool.of_not_eq_false hown)⟩

/-- What is known below the parent has a root to be below of. -/
theorem Staged.root_of_found {w : World site} (h : Staged w) {o : Owned} (ho : o ≠ .parent)
    (hfound : Found o w) : w.root ≠ none := by
  obtain ⟨i, hi, -⟩ := hfound
  exact (h.known o i ho hi).1

theorem stable_found {o : Owned} (ho : o ≠ .parent) (hbelow : Below site o.path) :
    Stable fun w : World site => Staged w ∧ Found o w := by
  intro w h
  obtain ⟨hw, hfound⟩ := h
  have hroot := hw.root_of_found ho hfound
  obtain ⟨i, hi, hfind⟩ := hfound
  exact ⟨stable_staged w hw, i, hi, hw.find_next hroot hbelow hfind⟩

/-! ## Building the tree -/

/-- Nothing has been removed, and the rename has not been tried. -/
structure Building (w : World site) : Prop where
  staged : Staged w
  clean : ∀ path i, ¬ w.Did (.remove path i)
  idle : w.attempted = false
  early : w.state = .unpublished

theorem stable_building : Stable (Building : World site → Prop) :=
  fun w h => ⟨stable_staged w h.staged, h.clean, h.idle, h.early⟩

theorem Building.record {w : World site} (h : Building w) {act : Act} {d : Disk}
    (hstaged : Staged (w.record act d)) (hact : ∀ path i, act ≠ .remove path i) :
    Building (w.record act d) := by
  refine ⟨hstaged, fun path i hdid => ?_, h.idle, h.early⟩
  rcases did_record.mp hdid with hold | hnew
  · exact h.clean path i hold
  · exact hact path i hnew

/-- The staging directory has been made. -/
def Rooted (w : World site) : Prop := Building w ∧ w.root ≠ none

theorem stable_rooted : Stable (Rooted : World site → Prop) := stable_building.and fun _ h => h

/-- This call made what the path leads to. -/
def Made (path : List String) (w : World site) : Prop :=
  w.root ≠ none ∧ ∃ i, w.Did (.make path i) ∧ w.disk.find path = .ok i

theorem stable_made {path : List String} (hbelow : Below site path) :
    Stable fun w : World site => Building w ∧ Made path w := by
  intro w h
  obtain ⟨hw, hroot, i, hdid, hfind⟩ := h
  exact ⟨stable_building w hw, hroot, i, hdid, hw.staged.find_next hroot hbelow hfind⟩

/-- The call learns the identity of what it made. -/
theorem ensures_setIdentity {o : Owned} {i : Ident} {E : World site → Prop} :
    Ensures (fun w => Building w ∧ w.root ≠ none ∧ w.Did (.make o.path i) ∧
        (o = stage site → w.disk.find o.path = .ok i))
      (setIdentity o i) (fun _ => Rooted) E := by
  apply Ensures.modify
  intro w h
  obtain ⟨hw, hroot, hdid, hfind⟩ := h
  refine ⟨⟨⟨fun p j hp hj => ?_, fun j hj => ?_, hw.staged.bound, hw.staged.sole, hw.staged.apart,
    hw.staged.present, hw.staged.unmoved, hw.staged.kept, hw.staged.removed⟩, hw.clean, hw.idle,
    hw.early⟩, hroot⟩
  · by_cases hpo : p = o
    · have hj : (if p = o then some i else w.identity p) = some j := hj
      rw [if_pos hpo] at hj
      obtain rfl := Option.some.inj hj
      rw [hpo]
      exact ⟨hroot, hdid⟩
    · have hj : (if p = o then some i else w.identity p) = some j := hj
      rw [if_neg hpo] at hj
      exact hw.staged.known p j hp hj
  · have hj : (if stage site = o then some i else w.identity (stage site)) = some j := hj
    by_cases hso : stage site = o
    · rw [if_pos hso] at hj
      obtain rfl := Option.some.inj hj
      have hfound := hfind hso.symm
      rw [← hso] at hfound
      obtain ⟨r, hr⟩ := Option.ne_none_iff_exists'.mp hroot
      have hwalk : w.disk.walk r [] = .ok _ := hw.staged.walk hr hfound
      obtain rfl : r = i := Except.ok.inj hwalk
      exact hr
    · rw [if_neg hso] at hj
      exact hw.staged.stage j hj

theorem ensures_setIdentity_parent (i : Ident) {E : World site → Prop} :
    Ensures (fun w => Building w ∧ w.root = none) (setIdentity .parent i)
      (fun _ w => Building w ∧ w.root = none) E := by
  apply Ensures.modify
  intro w h
  obtain ⟨hw, hroot⟩ := h
  refine ⟨⟨⟨fun p j hp hj => ?_, fun j hj => ?_, hw.staged.bound, hw.staged.sole, hw.staged.apart,
    hw.staged.present, hw.staged.unmoved, hw.staged.kept, hw.staged.removed⟩, hw.clean, hw.idle,
    hw.early⟩, hroot⟩
  · have hj : (if p = .parent then some i else w.identity p) = some j := hj
    rw [if_neg hp] at hj
    exact hw.staged.known p j hp hj
  · exact hw.staged.stage j hj

/-- `mkdir` below the parent: the staging directory, or what is below it. -/
theorem ensures_mkdir {above : Owned} {name : String} {I : World site → Prop} (hI : Stable I)
    (hbuilding : ∀ w, I w → Building w)
    (hmake : ∀ w dir fresh stamp d, I w → w.disk.find above.path = .ok dir →
      w.disk.create dir name fresh true stamp = .ok d →
      Staged (w.record (.make (above.path ++ [name]) fresh) d) ∧
        (w.record (.make (above.path ++ [name]) fresh) d).root ≠ none) :
    Ensures I (mkdir above.path name) (fun _ w => Building w ∧ Made (above.path ++ [name]) w)
      Building := by
  unfold mkdir
  apply ensures_effect hI
  · intro m w a act d hw hchange
    simp only [answer_eq_ok, bind_eq_ok] at hchange
    obtain ⟨dir, hdir, d', hcreate, hresult⟩ := hchange
    obtain ⟨-, hact⟩ := Prod.mk.inj (Except.ok.inj hresult)
    obtain ⟨rfl, rfl⟩ := Prod.mk.inj hact
    obtain ⟨hstaged, hroot⟩ := hmake w dir _ _ _ hw hdir hcreate
    refine ⟨(hbuilding w hw).record hstaged (by simp), hroot, m.fresh, did_record.mpr (.inr rfl), ?_⟩
    exact Disk.find_create hdir hcreate
  · exact fun _ _ h => h.1
  · exact hbuilding

/-- What follows `mkdir`. -/
theorem ensures_capture {above : Owned} {name : String} (hbelow : Below site (above.path ++ [name])) :
    Ensures (fun w => Building w ∧ Made (above.path ++ [name]) w)
      (do
        let value ← lstat (above.path ++ [name]) true
        setIdentity (.child above name true) value.ident)
      (fun _ => Rooted) (Building : World site → Prop) := by
  apply Ensures.bind
    ((ensures_lstat (stable_made hbelow) _ true).weaken (fun _ h => h) (fun _ _ h => h) fun _ h => h.1)
  intro value
  apply (ensures_setIdentity (o := .child above name true)).pre
  intro w h
  obtain ⟨⟨hw, hroot, i, hdid, hfind⟩, ⟨o, hsaw, -, -⟩, -⟩ := h
  obtain rfl : i = value.ident := Except.ok.inj (hfind.symm.trans hsaw)
  exact ⟨hw, hroot, hdid, fun _ => hfind⟩

/-- **The staging directory.** -/
theorem ensures_makeStage :
    Ensures (fun w => Building w ∧ w.root = none) (makeDirectory .parent site.staging)
      (fun _ => Rooted) (Building : World site → Prop) := by
  unfold makeDirectory
  have hstable : Stable fun w : World site => Building w ∧ w.root = none :=
    stable_building.and fun _ h => h
  apply Ensures.bind
    ((ensures_requireOwned hstable .parent).weaken (fun _ h => h) (fun _ _ h => h.1) fun _ h => h.1)
  intro _
  apply Ensures.bind (@ensures_mkdir _ .parent _ _ hstable (fun _ h => h.1) ?_)
  · intro _
    exact @ensures_capture _ .parent _ ⟨[], rfl⟩
  · intro w dir fresh stamp d hw hdir hcreate
    have hhome := Disk.home_of_find_nil hdir
    refine ⟨hw.1.staged.make_stage hw.2 hhome hcreate, ?_⟩
    show (if [site.staging] = [site.staging] then some fresh else w.root) ≠ none
    rw [if_pos rfl]
    exact Option.some_ne_none fresh

theorem root_make_below {w : World site} {path : List String} (h : Below site path) (name : String)
    (i : Ident) (d : Disk) : (w.record (.make (path ++ [name]) i) d).root = w.root :=
  root_record fun _ hact => below_ne_stage h name (Act.make.inj hact).1

/-- **A directory below.** -/
theorem ensures_makeBelow {above : Owned} (hbelow : Below site above.path)
    (name : String) :
    Ensures Rooted (makeDirectory above name) (fun _ => Rooted) (Building : World site → Prop) := by
  unfold makeDirectory
  apply Ensures.bind
    ((ensures_requireOwned stable_rooted above).weaken (fun _ h => h) (fun _ _ h => h.1) fun _ h => h.1)
  intro _
  apply Ensures.bind (ensures_mkdir stable_rooted (fun _ h => h.1) ?_)
  · intro _
    exact ensures_capture (hbelow.append name)
  · intro w dir fresh stamp d hw hdir hcreate
    refine ⟨hw.1.staged.make_below hw.2 hbelow hdir hcreate, ?_⟩
    rw [root_make_below hbelow]
    exact hw.2

/-- **A file below.** -/
theorem ensures_writeFile {above : Owned} (hbelow : Below site above.path)
    (name : String) (raw : Bytes) :
    Ensures Rooted (writeFile above name raw) (fun _ => Rooted) (Building : World site → Prop) := by
  unfold writeFile
  apply Ensures.bind
    ((ensures_requireOwned stable_rooted above).weaken (fun _ h => h) (fun _ _ h => h.1) fun _ h => h.1)
  intro _
  apply Ensures.bind
    (Q := fun i w => Building w ∧ w.root ≠ none ∧ w.Did (.make (above.path ++ [name]) i))
  · unfold openNew
    apply ensures_effect stable_rooted
    · intro m w a act d hw hchange
      simp only [answer_eq_ok, bind_eq_ok] at hchange
      obtain ⟨dir, hdir, d', hcreate, hresult⟩ := hchange
      obtain ⟨rfl, hact⟩ := Prod.mk.inj (Except.ok.inj hresult)
      obtain ⟨rfl, rfl⟩ := Prod.mk.inj hact
      have hstaged := hw.1.staged.make_below hw.2 hbelow hdir hcreate
      refine ⟨hw.1.record hstaged (by simp), ?_, did_record.mpr (.inr rfl)⟩
      rw [root_make_below hbelow]
      exact hw.2
    · exact fun _ _ h => h.1
    · exact fun _ h => h.1
  intro descriptor
  apply ensures_closing _ _ (fun _ => stable_rooted) stable_building fun _ _ h => h.1
  have hmade : Stable fun w : World site => Building w ∧ w.root ≠ none ∧
      w.Did (.make (above.path ++ [name]) descriptor) := stable_building.and fun _ h => h
  apply Ensures.bind ((ensures_look hmade _).weaken (fun _ h => h) (fun _ _ h => h) fun _ h => h.1)
  intro status
  apply Ensures.bind
    ((ensures_lift (plain status false)).weaken (fun _ h => h) (fun _ _ h => h) fun _ h => h.1.1)
  intro value
  apply Ensures.bind (Q := fun _ => Rooted)
  · apply (ensures_setIdentity (o := .child above name false)).pre
    intro w h
    obtain ⟨⟨⟨hw, hroot, hdid⟩, m, hstatus⟩, hplain⟩ := h
    simp only [answer_eq_ok, bind_eq_ok] at hstatus
    obtain ⟨o, -, hstat⟩ := hstatus
    obtain rfl : statOf descriptor o = status := Except.ok.inj hstat
    obtain ⟨rfl, -⟩ := plain_eq_ok hplain
    rw [ident_statOf]
    refine ⟨hw, hroot, hdid, fun hstage => ?_⟩
    cases hstage
  intro _
  apply Ensures.bind
    ((ensures_requireOwned stable_rooted _).weaken (fun _ h => h) (fun _ _ h => h.1) fun _ h => h.1)
  intro _
  apply Ensures.bind (Q := fun _ => Rooted)
  · unfold write
    apply ensures_effect stable_rooted
    · intro m w a act d hw hchange
      simp only [answer_eq_ok, bind_eq_ok] at hchange
      obtain ⟨d', hwrite, hresult⟩ := hchange
      obtain ⟨-, hact⟩ := Prod.mk.inj (Except.ok.inj hresult)
      obtain ⟨rfl, rfl⟩ := Prod.mk.inj hact
      have hstaged : Staged (w.record (.write descriptor) _) := hw.1.staged.record
        (Disk.change_write hwrite site.staging) (by simp) (by simp) (by simp)
      refine ⟨hw.1.record hstaged (by simp), ?_⟩
      rw [root_record (by simp)]
      exact hw.2
    · exact fun _ _ h => h.1
    · exact fun _ h => h.1
  intro written
  apply Ensures.bind ((ensures_refuse _).weaken (fun _ h => h) (fun _ _ h => h.1) fun _ h => h.1)
  intro _
  exact (ensures_touch stable_rooted).weaken (fun _ h => h) (fun _ _ h => h) fun _ h => h.1

/-! ## Verification -/

/-- A directory lists exactly these names, each once. -/
def Lists (entries : List (String × Ident)) (names : Finset String) : Prop :=
  (entries.map Prod.fst).Nodup ∧ (entries.map Prod.fst).toFinset = names

/-- **A tree is the publication**: one directory, in it one for the line, and in that the resources
and nothing else. -/
structure Complete (publication : Publication) (tree : List String → Option (Ident × Object)) :
    Prop where
  root : ∃ i es stamp, tree [] = some (i, .directory es stamp) ∧ Lists es {publicationLine}
  line : ∃ i es stamp, tree [publicationLine] = some (i, .directory es stamp) ∧
    Lists es publication.names
  resources : ∀ r ∈ publication.resources, ∃ i stamp,
    tree [publicationLine, r.1] = some (i, .file r.2 stamp)

/-- The call is building, and this is the tree under its root. -/
structure Seeing (r : Ident) (tree : List String → Option (Ident × Object)) (w : World site) :
    Prop where
  building : Building w
  root : w.root = some r
  tree : w.disk.tree r = tree

variable {r : Ident} {tree : List String → Option (Ident × Object)}

theorem stable_seeing : Stable (Seeing r tree : World site → Prop) := by
  intro w h
  refine ⟨stable_building w h.building, h.root, ?_⟩
  rw [(unrelated_of_root h.root).tree_eq, h.tree]

/-- What is found below the staging directory is of the tree. -/
theorem Seeing.tree_of_find {w : World site} (h : Seeing r tree w) {rest : List String} {i : Ident}
    {o : Object} (hfind : w.disk.find (site.staging :: rest) = .ok i) (ho : w.disk.object i = some o) :
    tree rest = some (i, o) := by
  rw [← h.tree]
  exact Disk.tree_eq_some.mpr ⟨h.building.staged.walk h.root hfind, ho⟩

/-- What is in the tree is there. -/
theorem Seeing.object {w : World site} (h : Seeing r tree w) {rest : List String} {i : Ident}
    {o : Object} (ho : tree rest = some (i, o)) : w.disk.object i = some o := by
  rw [← h.tree] at ho
  exact (Disk.tree_eq_some.mp ho).2

theorem directory_of_statOf {i : Ident} {o : Object} (h : (statOf i o).type = .directory) :
    ∃ es stamp, o = .directory es stamp := by
  cases o with
  | directory es stamp => exact ⟨es, stamp, rfl⟩
  | _ => cases h

theorem file_of_statOf {i : Ident} {o : Object} (h : (statOf i o).type = .regular) :
    ∃ raw stamp, o = .file raw stamp := by
  cases o with
  | file raw stamp => exact ⟨raw, stamp, rfl⟩
  | _ => cases h

/-- `_lstat`, below the staging directory. -/
theorem ensures_lstat_below (rest : List String) (directory : Bool) :
    Ensures (Seeing r tree : World site → Prop) (lstat (site.staging :: rest) directory)
      (fun value w => Seeing r tree w ∧ ∃ i o, tree rest = some (i, o) ∧ value = statOf i o ∧
        value.type = if directory then .directory else .regular)
      (Seeing r tree) := by
  apply (ensures_lstat stable_seeing _ _).post
  intro value w h
  obtain ⟨hw, ⟨o, hfind, ho, hvalue⟩, htype⟩ := h
  exact ⟨hw, value.ident, o, hw.tree_of_find hfind ho, hvalue, htype⟩

theorem ensures_enumerate {I : World site → Prop} (hI : Stable I) (expected : Finset String) :
    ∀ (names : List String) (found : Finset String),
      Ensures I (enumerate expected names found)
        (fun all w => I w ∧ names.Nodup ∧ (∀ n ∈ names, n ∉ found) ∧ all = found ∪ names.toFinset) I
  | [], found => by
    rw [enumerate]
    apply Ensures.bind (ensures_touch hI)
    intro _
    exact .pure fun _ hw => ⟨hw, List.nodup_nil, by simp, by simp⟩
  | name :: names, found => by
    rw [enumerate]
    apply Ensures.bind (ensures_touch hI)
    intro _
    apply Ensures.bind (ensures_refuse _)
    intro _ w hw
    obtain ⟨hw, hnew⟩ := hw
    have hname : name ∉ found := fun h => hnew (.inr (.inr h))
    apply ((ensures_enumerate hI expected names (insert name found)).post _) w hw
    intro all w h
    obtain ⟨hw, hnodup, hfresh, hall⟩ := h
    refine ⟨hw, List.nodup_cons.mpr ⟨fun hmem => ?_, hnodup⟩, fun n hn => ?_, ?_⟩
    · exact hfresh name hmem (Finset.mem_insert_self name found)
    · rcases List.mem_cons.mp hn with rfl | hn
      · exact hname
      · exact fun hmem => hfresh n hn (Finset.mem_insert_of_mem hmem)
    · rw [hall, List.toFinset_cons, Finset.insert_union, Finset.union_insert]

/-- **`_inventory`** accepts a directory that lists exactly these names. -/
theorem ensures_inventory (rest : List String) (expected : Finset String) :
    Ensures (Seeing r tree : World site → Prop) (inventory (site.staging :: rest) expected)
      (fun _ w => Seeing r tree w ∧
        ∃ i es stamp, tree rest = some (i, .directory es stamp) ∧ Lists es expected)
      (Seeing r tree) := by
  unfold inventory
  apply Ensures.bind ((ensures_lstat_below rest true).post fun _ _ h => h.1)
  intro before
  apply Ensures.bind (Q := fun names w => Seeing r tree w ∧ ∃ i es stamp,
    tree rest = some (i, .directory es stamp) ∧ es.map Prod.fst = names)
  · apply (ensures_look stable_seeing _).post
    intro names w h
    obtain ⟨hw, m, hnames⟩ := h
    simp only [answer_eq_ok, bind_eq_ok] at hnames
    obtain ⟨i, hfind, hnames⟩ := hnames
    by_cases hdir : w.disk.isDirectory i = true
    · rw [if_pos hdir] at hnames
      obtain rfl := Except.ok.inj hnames
      unfold Disk.isDirectory at hdir
      split at hdir
      · rename_i es stamp ho
        refine ⟨hw, i, es, stamp, hw.tree_of_find hfind ho, ?_⟩
        rw [Disk.entries_of_some ho, Object.entries_directory]
      · cases hdir
    · rw [if_neg hdir] at hnames
      cases hnames
  intro names w h
  obtain ⟨hw, i, es, stamp, htree, hnames⟩ := h
  refine (Ensures.bind (Q := fun _ w => Seeing r tree w ∧ Lists es expected) ?_ ?_) w hw
  · apply ensures_closing _ _ (fun _ => stable_seeing.and fun _ h => h) stable_seeing
      fun _ _ h => h.1
    apply Ensures.bind (ensures_enumerate stable_seeing expected names ∅)
    intro found
    apply Ensures.bind ((ensures_refuse _).weaken (fun _ h => h) (fun _ _ h => h) fun _ h => h.1)
    intro _ w h
    obtain ⟨⟨hw, hnodup, -, hfound⟩, hexpected⟩ := h
    have hlists : Lists es expected := by
      rw [Finset.empty_union] at hfound
      exact ⟨hnames ▸ hnodup, by rw [hnames, ← hfound, not_not.mp hexpected]⟩
    refine (Ensures.bind ((ensures_lstat_below rest true).post fun _ _ h => h.1) fun after => ?_) w hw
    exact (ensures_refuse _).post fun _ _ h => ⟨h.1, hlists⟩
  · intro _
    exact .pure fun _ h => ⟨h.1, i, es, stamp, htree, h.2⟩

/-- **`_read_file`** accepts a file with exactly these bytes. -/
theorem ensures_readFile (rest : List String) (expected : Bytes) (maximum : ℕ) :
    Ensures (Seeing r tree : World site → Prop) (readFile (site.staging :: rest) expected maximum)
      (fun _ w => Seeing r tree w ∧ ∃ i stamp, tree rest = some (i, .file expected stamp))
      (Seeing r tree) := by
  unfold readFile
  apply Ensures.bind (ensures_lstat_below rest false)
  intro before
  apply Ensures.bind ((ensures_refuse _).weaken (fun _ h => h) (fun _ _ h => h) fun _ h => h.1)
  intro _ w h
  obtain ⟨⟨hw, i, o, htree, hbefore, htype⟩, hsize⟩ := h
  rw [hbefore] at htype
  obtain ⟨raw, stamp, rfl⟩ := file_of_statOf htype
  have hlength : raw.length = expected.length := by
    rw [hbefore] at hsize
    exact not_not.mp (not_or.mp hsize).2
  refine (Ensures.bind (Q := fun descriptor w => Seeing r tree w ∧ descriptor = i) ?_ ?_) w hw
  · apply (ensures_look stable_seeing _).post
    intro descriptor w h
    obtain ⟨hw, m, hopen⟩ := h
    simp only [answer_eq_ok, bind_eq_ok, status_eq_ok] at hopen
    obtain ⟨j, hfind, o, ho, hresult⟩ := hopen
    have hsame := hw.tree_of_find hfind ho
    rw [htree] at hsame
    obtain ⟨rfl, rfl⟩ := Prod.mk.inj (Option.some.inj hsame)
    exact ⟨hw, (Except.ok.inj hresult).symm⟩
  intro descriptor
  apply Ensures.bind (Q := fun _ w => Seeing r tree w ∧ raw = expected)
  · apply ensures_closing _ _ (fun _ => stable_seeing.and fun _ h => h) stable_seeing
      fun _ _ h => h.1
    have hdescriptor : Stable fun w : World site => Seeing r tree w ∧ descriptor = i :=
      stable_seeing.and fun _ h => h
    apply Ensures.bind
      ((ensures_look hdescriptor _).weaken (fun _ h => h) (fun _ _ h => h.1) fun _ h => h.1)
    intro status
    apply Ensures.bind ((ensures_lift _).weaken (fun _ h => h) (fun _ _ h => h.1) fun _ h => h.1)
    intro opened
    apply Ensures.bind ((ensures_refuse _).weaken (fun _ h => h) (fun _ _ h => h.1) fun _ h => h.1)
    intro _
    apply Ensures.bind
      ((ensures_look hdescriptor _).weaken (fun _ h => h) (fun _ _ h => h) fun _ h => h.1)
    intro got
    apply Ensures.bind ((ensures_refuse _).weaken (fun _ h => h) (fun _ _ h => h) fun _ h => h.1.1)
    intro _ w h
    obtain ⟨⟨⟨hw, rfl⟩, m, hread⟩, hgot⟩ := h
    have hraw : raw = expected := by
      rw [hw.object htree] at hread
      rw [← not_not.mp hgot, ← Except.ok.inj hread] at hlength ⊢
      rw [List.length_take] at hlength
      rw [List.take_of_length_le (by omega)]
    refine (Ensures.bind (Q := fun _ => Seeing r tree) ?_ ?_) w hw
    · exact (ensures_look stable_seeing _).post fun _ _ h => h.1
    intro now
    apply Ensures.bind ((ensures_refuse _).post fun _ _ h => h.1)
    intro _
    apply Ensures.bind ((ensures_lstat_below rest false).post fun _ _ h => h.1)
    intro after
    exact (ensures_refuse _).post fun _ _ h => ⟨h.1, hraw⟩
  · intro _
    apply Ensures.pure
    intro w h
    obtain ⟨hw, rfl⟩ := h
    exact ⟨hw, i, stamp, htree⟩

theorem ensures_readFiles : ∀ (resources : List (String × Bytes)) (total : ℕ),
    Ensures (Seeing r tree : World site → Prop)
      (readFiles [site.staging, publicationLine] resources total)
      (fun read w => Seeing r tree w ∧ (∀ p ∈ resources, ∃ i stamp,
        tree [publicationLine, p.1] = some (i, .file p.2 stamp)) ∧
        ∀ item ∈ read.1, Below site item.1)
      (Seeing r tree)
  | [], total => by
    rw [readFiles]
    exact .pure fun _ hw => ⟨hw, by simp, by simp⟩
  | (name, expected) :: rest, total => by
    rw [readFiles]
    apply Ensures.bind (ensures_readFile [publicationLine, name] expected _)
    intro observed w h
    obtain ⟨hw, hfile⟩ := h
    refine (Ensures.bind (ensures_readFiles rest _) fun read => ?_) w hw
    apply Ensures.pure
    intro w h
    obtain ⟨hw, hrest, hbelow⟩ := h
    refine ⟨hw, fun p hp => ?_, fun item hitem => ?_⟩
    · rcases List.mem_cons.mp hp with rfl | hp
      · exact hfile
      · exact hrest p hp
    · rcases List.mem_cons.mp hitem with rfl | hitem
      · exact ⟨[publicationLine, name], rfl⟩
      · exact hbelow item hitem

/-- **The verification accepts nothing but the publication.** -/
theorem ensures_compareDirectory (publication : Publication) :
    Ensures (Seeing r tree : World site → Prop) (compareDirectory publication (stage site).path)
      (fun _ w => Seeing r tree w ∧ Complete publication tree) (Seeing r tree) := by
  unfold compareDirectory
  apply Ensures.bind (ensures_inventory [] _)
  intro root w h
  obtain ⟨hw, hroot⟩ := h
  refine (Ensures.bind (ensures_inventory [publicationLine] _) ?_) w hw
  intro line w h
  obtain ⟨hw, hline⟩ := h
  refine (Ensures.bind (ensures_readFiles publication.resources 0) ?_) w hw
  intro read w h
  obtain ⟨hw, hresources, hbelow⟩ := h
  refine (Ensures.bind (Q := fun _ => Seeing r tree) ?_ ?_) w hw
  · apply Ensures.each
    intro item hitem
    obtain ⟨rest, hrest⟩ := hbelow item hitem
    unfold recheck
    rw [hrest]
    apply Ensures.bind ((ensures_lstat_below rest false).post fun _ _ h => h.1)
    intro now
    exact (ensures_refuse _).post fun _ _ h => h.1
  intro _
  apply Ensures.bind ((ensures_inventory [] _).post fun _ _ h => h.1)
  intro rootAgain
  apply Ensures.bind ((ensures_refuse _).post fun _ _ h => h.1)
  intro _
  apply Ensures.bind ((ensures_inventory [publicationLine] _).post fun _ _ h => h.1)
  intro lineAgain
  apply Ensures.bind ((ensures_refuse _).post fun _ _ h => h.1)
  intro _
  exact .pure fun _ h => ⟨h, hroot, hline, hresources⟩

theorem ensures_verify (publication : Publication) (digest : String) :
    Ensures (Seeing r tree : World site → Prop)
      (verifySchemaDirectory publication (stage site).path digest)
      (fun _ w => Seeing r tree w ∧ Complete publication tree) (Seeing r tree) := by
  unfold verifySchemaDirectory
  apply Ensures.bind (Q := fun _ => Seeing r tree)
  · unfold requireHash
    by_cases hdigest : isHash digest = true
    · rw [if_pos hdigest]
      exact .pure fun _ h => h
    · rw [if_neg hdigest]
      exact .raise fun _ h => h
  intro _
  apply Ensures.bind (ensures_touch stable_seeing)
  intro _
  apply Ensures.bind ((ensures_refuse _).post fun _ _ h => h.1)
  intro _
  apply Ensures.bind (ensures_translating _ _ (ensures_compareDirectory publication))
  intro total
  exact (ensures_lift _).weaken (fun _ h => h) (fun _ _ h => h.1) fun _ h => h.1

/-! ## The rename -/

/-- The call knows the staging directory, whose tree is the publication. -/
structure Ready (publication : Publication) (r : Ident) (w : World site) : Prop where
  staged : Staged w
  clean : ∀ path i, ¬ w.Did (.remove path i)
  root : w.root = some r
  stage : w.identity (stage site) = some r
  complete : Complete publication (w.disk.tree r)

/-- A rename took a free name, for a whole publication. -/
def Effect.Whole (site : Site) (publication : Publication) (e : Effect) : Prop :=
  ∀ i, e.act = .rename i → e.before.named site.destination = none ∧
    e.after.named site.destination = some i ∧ Complete publication (e.after.tree i)

/-- **After the rename.** The staging name is gone, and nothing has been removed. -/
structure Published (publication : Publication) (r : Ident) (w : World site) : Prop where
  root : w.root = some r
  stage : w.identity (stage site) = some r
  made : w.Did (.make [site.staging] r)
  moved : w.Did (.rename r)
  complete : Complete publication (w.disk.tree r)
  gone : w.disk.named site.staging ≠ some r
  clean : ∀ path i, ¬ w.Did (.remove path i)
  kept : ∀ e ∈ w.effects, e.Keeps site
  whole : ∀ e ∈ w.effects, e.Whole site publication

variable {publication : Publication}

theorem stable_ready : Stable (Ready publication r : World site → Prop) := by
  intro w h
  refine ⟨stable_staged w h.staged, h.clean, h.root, h.stage, ?_⟩
  rw [(unrelated_of_root h.root).tree_eq]
  exact h.complete

theorem stable_published : Stable (Published publication r : World site → Prop) := by
  intro w h
  refine ⟨h.root, h.stage, h.made, h.moved, ?_, ?_, h.clean, h.kept, h.whole⟩
  · rw [(unrelated_of_root h.root).tree_eq]
    exact h.complete
  · rw [(unrelated_of_root h.root).own (by simp)]
    exact h.gone

/-- **The rename publishes.** -/
theorem Ready.publish {w : World site} (h : Ready publication r w) {dir i : Ident} {stamp : Stamp}
    {d : Disk} (hdir : w.disk.home = some dir)
    (hmove : w.disk.move dir site.staging site.destination stamp = .ok (i, d)) :
    Published publication r (w.record (.rename i) d) := by
  obtain ⟨hold, hfree, hhome, hobject⟩ := Disk.move_eq_ok hmove
  have hi : i = r := by
    apply h.staged.bound r i h.root
    rw [Disk.named, hdir]
    exact hold
  subst hi
  have htree : d.tree i = w.disk.tree i := by
    apply Disk.tree_congr
    intro j hj
    have hne : j ≠ dir := by
      intro heq
      exact h.staged.apart i j h.root hj (heq ▸ hdir)
    rw [hobject]
    exact if_neg hne
  have hnamed := Disk.named_move hmove hdir
  have hbefore : w.disk.named site.destination = none := by
    rw [Disk.named, hdir]
    exact hfree
  have hafter : d.named site.destination = some i := by
    rw [hnamed, Disk.others, List.lookup_append, Disk.lookup_filter_ne, if_neg site.fresh.symm, hfree]
    simp
  have hgone : d.named site.staging = none := by
    have hname : (site.staging == site.destination) = false := by simpa using site.fresh
    rw [hnamed, Disk.others, List.lookup_append, Disk.lookup_filter_ne, if_pos rfl]
    simp [List.lookup_cons, hname]
  have hcomplete : Complete publication (d.tree i) := by
    rw [htree]
    exact h.complete
  have hmade := (h.staged.known (SchemaDirectory.stage site) i (by simp [SchemaDirectory.stage])
    h.stage).2
  refine ⟨h.root, h.stage, did_record.mpr (.inl hmade), did_record.mpr (.inr rfl), hcomplete, ?_,
    fun path j hdid => ?_, fun e he => ?_, fun e he => ?_⟩
  · show d.named site.staging ≠ some i
    rw [hgone]
    exact Option.some_ne_none i |>.symm
  · rcases did_record.mp hdid with hearlier | hact
    · exact h.clean path j hearlier
    · cases hact
  · rcases List.mem_append.mp he with hearlier | hnew
    · exact h.staged.kept e hearlier
    · obtain rfl := List.mem_singleton.mp hnew
      intro j hj
      cases hbefore.symm.trans hj
  · rcases List.mem_append.mp he with hearlier | hnew
    · intro j hj
      exact absurd ⟨e, hearlier, hj⟩ (h.staged.unmoved j)
    · obtain rfl := List.mem_singleton.mp hnew
      intro j hj
      obtain rfl := Act.rename.inj hj
      exact ⟨hbefore, hafter, hcomplete⟩

/-- The rename has been tried. -/
structure Trying (w : World site) : Prop where
  attempted : w.attempted = true
  early : w.state = .unpublished

theorem ensures_rename :
    Ensures (fun w : World site => Ready publication r w ∧ Trying w) rename
      (fun _ w => Published publication r w ∧ Trying w)
      (fun w => (Ready publication r w ∨ Published publication r w) ∧ Trying w) := by
  unfold rename
  have htrying : Stable (Trying : World site → Prop) := fun _ h => ⟨h.attempted, h.early⟩
  apply ensures_effect (stable_ready.and htrying)
  · intro m w a act d hw hchange
    simp only [answer_eq_ok, bind_eq_ok] at hchange
    obtain ⟨dir, hdir, p, hmove, hresult⟩ := hchange
    obtain ⟨i, d'⟩ := p
    obtain ⟨-, hact⟩ := Prod.mk.inj (Except.ok.inj hresult)
    obtain ⟨rfl, rfl⟩ := Prod.mk.inj hact
    exact ⟨hw.1.publish (Disk.home_of_find_nil hdir) hmove, hw.2.attempted, hw.2.early⟩
  · exact fun _ _ h => ⟨.inr h.1, h.2⟩
  · exact fun _ h => ⟨.inl h.1, h.2⟩

theorem ensures_renameNoreplace :
    Ensures (fun w : World site => Ready publication r w ∧ Trying w) renameNoreplace
      (fun _ w => Published publication r w ∧ Trying w)
      (fun w => (Ready publication r w ∨ Published publication r w) ∧ Trying w) := by
  have htrying : Stable (Trying : World site → Prop) := fun _ h => ⟨h.attempted, h.early⟩
  unfold renameNoreplace
  cases site.system with
  | win32 => exact ensures_rename
  | unsupported => exact .raise fun _ h => ⟨.inl h.1, h.2⟩
  | linux =>
    apply Ensures.bind
      ((ensures_translating _ _ (ensures_touch (stable_ready.and htrying))).weaken
        (fun _ h => h) (fun _ _ h => h) fun _ h => ⟨.inl h.1, h.2⟩)
    intro _
    exact ensures_rename

/-! ## The outcome of the `try` -/

/-- The call returned from the rename, and saw the staging directory at the destination. -/
structure Acknowledged (publication : Publication) (w : World site) : Prop where
  published : ∃ r, Published publication r w ∧ w.disk.named site.destination = some r
  state : w.state = .published

/-- What an exception leaves: the rename was not tried; or it was, and raised; or it returned. -/
inductive Failed (publication : Publication) (w : World site) : Prop where
  | building (h : Building w)
  | trying (r : Ident) (h : Ready publication r w ∨ Published publication r w) (ht : Trying w)
  | published (r : Ident) (h : Published publication r w) (hs : w.state ≠ .unpublished)

/-- **The `try`.** -/
theorem ensures_publishTree (publication : Publication) :
    Ensures (fun w : World site => Building w ∧ w.root = none) (publishTree publication)
      (fun _ => Acknowledged publication) (Failed publication) := by
  unfold publishTree
  have hfresh : Stable fun w : World site => Building w ∧ w.root = none :=
    stable_building.and fun _ h => h
  have hstage : Below site (stage site).path := ⟨[], rfl⟩
  have hline : Below site (lineDirectory site).path := ⟨[publicationLine], rfl⟩
  apply Ensures.bind
    ((ensures_lstat hfresh [] true).weaken (fun _ h => h) (fun _ _ h => h.1) fun _ h => .building h.1)
  intro value
  apply Ensures.bind (ensures_setIdentity_parent value.ident)
  intro _
  apply Ensures.bind (ensures_makeStage.weaken (fun _ h => h) (fun _ _ h => h) fun _ h => .building h)
  intro _
  apply Ensures.bind ((ensures_makeBelow hstage publicationLine).weaken (fun _ h => h)
    (fun _ _ h => h) fun _ h => .building h)
  intro _
  apply Ensures.bind (Q := fun _ => Rooted)
  · apply Ensures.each
    intro p _
    exact (ensures_writeFile hline p.1 p.2).weaken (fun _ h => h) (fun _ _ h => h) fun _ h =>
      .building h
  intro _ w hw
  -- From here on the tree is that of this moment.
  obtain ⟨r, hr⟩ := Option.ne_none_iff_exists'.mp hw.2
  have hsee : Seeing r (w.disk.tree r) w := ⟨hw.1, hr, rfl⟩
  generalize w.disk.tree r = tree at hsee
  refine (Ensures.bind ((ensures_verify publication _).weaken (fun _ h => h) (fun _ _ h => h)
    fun _ h => .building h.building) ?_) w hsee
  intro _ w hw
  obtain ⟨hw, hcomplete⟩ := hw
  refine (Ensures.bind (Q := fun _ w => Ready publication r w ∧ Building w) ?_ ?_) w hw
  · apply (ensures_requireOwned stable_seeing _).weaken (fun _ h => h) _ fun _ h =>
      .building h.building
    intro _ w h
    obtain ⟨hw, -, habove⟩ := h
    obtain ⟨i, hi⟩ := Option.ne_none_iff_exists'.mp habove
    obtain rfl := Option.some.inj (hw.root.symm.trans (hw.building.staged.stage i hi))
    refine ⟨⟨hw.building.staged, hw.building.clean, hw.root, hi, ?_⟩, hw.building⟩
    rw [hw.tree]
    exact hcomplete
  intro _
  apply Ensures.bind (Q := fun _ w => Ready publication r w ∧ Trying w)
  · apply Ensures.modify
    intro w h
    obtain ⟨⟨hstaged, hclean, hroot, hknown, htree⟩, hw⟩ := h
    exact ⟨⟨⟨hstaged.known, hstaged.stage, hstaged.bound, hstaged.sole, hstaged.apart,
      hstaged.present, hstaged.unmoved, hstaged.kept, hstaged.removed⟩, hclean, hroot, hknown, htree⟩,
      rfl, hw.early⟩
  intro _
  apply Ensures.bind (ensures_renameNoreplace.weaken (fun _ h => h) (fun _ _ h => h)
    fun _ h => .trying r h.1 h.2)
  intro _
  apply Ensures.bind (Q := fun _ w => Published publication r w ∧ w.state = .published)
  · apply Ensures.modify
    intro w h
    obtain ⟨hw, -⟩ := h
    exact ⟨⟨hw.root, hw.stage, hw.made, hw.moved, hw.complete, hw.gone, hw.clean, hw.kept, hw.whole⟩,
      rfl⟩
  intro _
  have hpublished : Stable fun w : World site => Published publication r w ∧ w.state = .published :=
    stable_published.and fun _ h => h
  have hfailed : ∀ w : World site, Published publication r w ∧ w.state = .published →
      Failed publication w := by
    intro w h
    apply Failed.published r h.1
    rw [h.2]
    exact fun hstate => by cases hstate
  apply Ensures.bind ((ensures_lstat hpublished _ true).weaken (fun _ h => h) (fun _ _ h => h)
    fun w h => hfailed w h)
  intro found
  apply Ensures.bind ((ensures_identityOf _).weaken (fun _ h => h) (fun _ _ h => h)
    fun w h => hfailed w h.1)
  intro known
  by_cases hsame : some found.ident ≠ known
  · rw [if_pos hsame]
    apply Ensures.bind (Q := fun _ => Failed publication)
    · apply Ensures.modify
      intro w h
      obtain ⟨⟨⟨hw, -⟩, -⟩, -⟩ := h
      apply Failed.published r _ (by simp)
      exact ⟨hw.root, hw.stage, hw.made, hw.moved, hw.complete, hw.gone, hw.clean, hw.kept, hw.whole⟩
    intro _
    exact .raise fun _ h => h
  · rw [if_neg hsame]
    apply Ensures.pure
    intro w h
    obtain ⟨⟨⟨hw, hstate⟩, ⟨o, hfind, -, -⟩, -⟩, hknown⟩ := h
    refine ⟨⟨r, hw, ?_⟩, hstate⟩
    have hident : found.ident = r := by
      rw [hw.stage, ← not_not.mp hsame] at hknown
      exact (Option.some.inj hknown).symm
    rw [hident] at hfind
    obtain ⟨x, hx, hwalk⟩ := Disk.find_cons.mp hfind
    obtain rfl : x = r := Except.ok.inj hwalk
    exact hx

/-! ## Observing the publication -/

/-- The rename was tried, and did or did not take effect. -/
def Tried (publication : Publication) (r : Ident) (w : World site) : Prop :=
  Ready publication r w ∨ Published publication r w

theorem stable_tried : Stable (Tried publication r : World site → Prop) := stable_ready.or stable_published

theorem Tried.stage {w : World site} (h : Tried publication r w) :
    w.identity (stage site) = some r :=
  h.elim (fun h => h.stage) fun h => h.stage

theorem ensures_observedIdentity {I : World site → Prop} (hI : Stable I) (path : List String) :
    Ensures I (observedIdentity path)
      (fun found w => I w ∧ ∀ i, found = some i → w.disk.find path = .ok i) I := by
  unfold observedIdentity
  apply Ensures.bind ((ensures_lstat hI path true).attempt (F := I))
  intro result
  cases result with
  | ok value =>
    apply Ensures.pure
    intro w h
    obtain ⟨hw, ⟨o, hfind, -, -⟩, -⟩ := h.1 value rfl
    refine ⟨hw, fun i hi => ?_⟩
    rw [← Option.some.inj hi]
    exact hfind
  | error e =>
    show Ensures _ (if e.kind = .fileNotFound then pure none else Action.raise e) _ _
    by_cases hkind : e.kind = .fileNotFound
    · rw [if_pos hkind]
      exact .pure fun w h => ⟨h.2 e rfl, fun i hi => by cases hi⟩
    · rw [if_neg hkind]
      exact .raise fun w h => h.2 e rfl

/-- Before the rename, the destination does not lead to the staging directory. -/
theorem Ready.destination {w : World site} (h : Ready publication r w) :
    w.disk.find [site.destination] ≠ .ok r := by
  intro hfind
  obtain ⟨x, hx, hwalk⟩ := Disk.find_cons.mp hfind
  obtain rfl : x = r := Except.ok.inj hwalk
  apply h.staged.sole x h.root
  unfold Disk.named at hx
  cases hhome : w.disk.home with
  | none =>
    rw [hhome] at hx
    cases hx
  | some p =>
    rw [hhome] at hx
    refine ⟨p, site.destination, Disk.entry_of_lookup hx, ?_⟩
    intro hplace
    exact site.fresh hplace.2.symm

/-- After the rename, the staging name does not. -/
theorem Published.staging {w : World site} (h : Published publication r w) :
    w.disk.find [site.staging] ≠ .ok r := by
  intro hfind
  obtain ⟨x, hx, hwalk⟩ := Disk.find_cons.mp hfind
  obtain rfl : x = r := Except.ok.inj hwalk
  exact h.gone hx

/-- **What is observed is so.** -/
theorem ensures_observePublication :
    Ensures (Tried publication r : World site → Prop) observePublication
      (fun state w => Tried publication r w ∧ (state = .unpublished → Staged w) ∧
        (state = .published → Published publication r w))
      (Tried publication r) := by
  unfold observePublication
  apply Ensures.bind (ensures_identityOf _)
  intro known w h
  obtain ⟨hw, hknown⟩ := h
  obtain rfl : known = some r := hknown.symm.trans hw.stage
  refine (Ensures.bind (Q := fun old w => Tried publication r w ∧
    (old = some r → Ready publication r w)) ?_ ?_) w hw
  · apply (ensures_observedIdentity stable_tried _).post
    intro old w h
    obtain ⟨hw, hold⟩ := h
    refine ⟨hw, fun hr => ?_⟩
    rcases hw with hready | hpublished
    · exact hready
    · exact absurd (hold r hr) hpublished.staging
  intro old
  have hstable : Stable fun w : World site => Tried publication r w ∧
      (old = some r → Ready publication r w) :=
    stable_tried.and fun w h hold => stable_ready w (h hold)
  apply Ensures.bind (Q := fun new w => (Tried publication r w ∧
    (old = some r → Ready publication r w)) ∧ (new = some r → Published publication r w))
  · unfold observedDestination
    apply Ensures.bind ((ensures_observedIdentity hstable [site.destination]).attempt
      (F := Tried publication r))
    intro result
    cases result with
    | ok new =>
      apply Ensures.pure
      intro w h
      obtain ⟨hw, hnew⟩ := h.1 new rfl
      refine ⟨hw, fun hr => ?_⟩
      rcases hw.1 with hready | hpublished
      · exact absurd (hnew r hr) hready.destination
      · exact hpublished
    | error e =>
      show Ensures _ (if e.kind = .inputFormat then pure none else Action.raise e) _ _
      by_cases hkind : e.kind = .inputFormat
      · rw [if_pos hkind]
        exact .pure fun w h => ⟨h.2 e rfl, fun hr => by cases hr⟩
      · rw [if_neg hkind]
        exact .raise fun w h => (h.2 e rfl).1
  intro new
  by_cases hbefore : old = some r ∧ new ≠ some r
  · rw [if_pos hbefore]
    apply Ensures.pure
    intro w h
    exact ⟨h.1.1, fun _ => (h.1.2 hbefore.1).staged, fun hstate => by simp at hstate⟩
  · rw [if_neg hbefore]
    by_cases hafter : old = none ∧ new = some r
    · rw [if_pos hafter]
      apply Ensures.pure
      intro w h
      exact ⟨h.1.1, fun hstate => (by simp at hstate), fun _ => h.2 hafter.2⟩
    · rw [if_neg hafter]
      apply Ensures.pure
      intro w h
      exact ⟨h.1.1, fun hstate => (by simp at hstate), fun hstate => by simp at hstate⟩

/-! ## What the call has done -/

/-- What holds of the steps of a call, whatever became of it. -/
structure Sound (publication : Publication) (w : World site) : Prop where
  kept : ∀ e ∈ w.effects, e.Keeps site
  whole : ∀ e ∈ w.effects, e.Whole site publication
  removed : ∀ path i, w.Did (.remove path i) → w.Did (.make path i) ∧ ∀ j, ¬ w.Did (.rename j)

theorem Staged.sound {w : World site} (h : Staged w) : Sound publication w where
  kept := h.kept
  whole e he i hi := absurd ⟨e, he, hi⟩ (h.unmoved i)
  removed path i hdid := ⟨h.removed path i hdid, h.unmoved⟩

theorem Published.sound {w : World site} (h : Published publication r w) : Sound publication w where
  kept := h.kept
  whole := h.whole
  removed path i hdid := absurd hdid (h.clean path i)

theorem Tried.sound {w : World site} (h : Tried publication r w) : Sound publication w :=
  h.elim (fun h => h.staged.sound) fun h => h.sound

/-- The state that the call holds to be is so. -/
structure Told (publication : Publication) (w : World site) : Prop where
  sound : Sound publication w
  unpublished : w.state = .unpublished → Staged w
  published : w.state = .published → ∃ r, Published publication r w

/-- **The handler** finds out what is so. -/
theorem told_acknowledge {w w' : World site} {problem : Problem} {result : Except Problem Problem}
    (h : Failed publication w) (hw : acknowledge problem w = (result, w')) :
    Told publication w' := by
  unfold acknowledge at hw
  cases h with
  | building h =>
    rw [h.idle, Bool.false_and, if_neg Bool.false_ne_true] at hw
    obtain ⟨-, rfl⟩ := Prod.mk.inj hw
    refine ⟨h.staged.sound, fun _ => h.staged, fun hstate => ?_⟩
    cases h.early.symm.trans hstate
  | published r h hstate =>
    have hno : ¬(w.attempted && w.state == .unpublished) = true := by
      intro hboth
      rw [Bool.and_eq_true, beq_iff_eq] at hboth
      exact hstate hboth.2
    rw [if_neg hno] at hw
    obtain ⟨-, rfl⟩ := Prod.mk.inj hw
    exact ⟨h.sound, fun hunpublished => absurd hunpublished hstate, fun _ => ⟨r, h⟩⟩
  | trying r h ht =>
    rw [ht.attempted, ht.early, Bool.true_and, if_pos (beq_self_eq_true _)] at hw
    obtain ⟨hok, herror⟩ := ensures_observePublication w h
    rcases hobserve : observePublication w with ⟨e | state, v⟩
    · rw [hobserve] at hw
      obtain ⟨-, rfl⟩ := Prod.mk.inj hw
      have hv := (herror e v hobserve).sound
      refine ⟨⟨hv.kept, hv.whole, hv.removed⟩, fun hstate => ?_, fun hstate => ?_⟩
      · cases hstate
      · cases hstate
    · rw [hobserve] at hw
      obtain ⟨-, rfl⟩ := Prod.mk.inj hw
      obtain ⟨hv, hunpublished, hpublished⟩ := hok state v hobserve
      refine ⟨⟨hv.sound.kept, hv.sound.whole, hv.sound.removed⟩, fun hstate => ?_, fun hstate => ?_⟩
      · have hstaged := hunpublished hstate
        exact ⟨hstaged.known, hstaged.stage, hstaged.bound, hstaged.sole, hstaged.apart,
          hstaged.present, hstaged.unmoved, hstaged.kept, hstaged.removed⟩
      · have h := hpublished hstate
        exact ⟨r, h.root, h.stage, h.made, h.moved, h.complete, h.gone, h.clean, h.kept, h.whole⟩

/-! ## The cleanup -/

/-- Nothing has been published, and the call knows that. -/
def Tidy (w : World site) : Prop := Staged w ∧ w.state = .unpublished

theorem stable_tidy : Stable (Tidy : World site → Prop) := stable_staged.and fun _ h => h

/-- **Removing what is found** removes what the call made. -/
theorem Staged.remove {w : World site} (h : Staged w) {above : Owned} {name : String}
    {directory isDirectory : Bool} (hbelow : Below site (above.path ++ [name]))
    (hfound : Found (.child above name directory) w) {dir i : Ident} {stamp : Stamp} {d : Disk}
    (hdir : w.disk.find above.path = .ok dir)
    (hremove : w.disk.remove dir name isDirectory stamp = .ok (i, d)) :
    Staged (w.record (.remove (above.path ++ [name]) i) d) := by
  have hroot := h.root_of_found (by simp) hfound
  obtain ⟨j, hj, hfind⟩ := hfound
  have hthere : w.disk.find (above.path ++ [name]) = .ok i :=
    Disk.find_append.mpr ⟨dir, hdir, (Disk.remove_eq_ok hremove).1⟩
  obtain rfl : j = i := Except.ok.inj (hfind.symm.trans hthere)
  apply h.record (Disk.change_remove hremove ?_) (by simp) (by simp)
  · intro path k hact
    obtain ⟨rfl, rfl⟩ := Act.remove.inj hact
    exact (h.known _ j (by simp) hj).2
  · intro hhome
    obtain ⟨rest, hrest⟩ := hbelow
    cases hpath : above.path with
    | nil =>
      rw [hpath] at hrest
      exact (List.cons.inj hrest).1
    | cons first more =>
      rw [hpath] at hrest hdir
      obtain rfl : first = site.staging := (List.cons.inj hrest).1
      exact absurd hhome (h.home_ne hroot ⟨more, rfl⟩ hdir)

theorem ensures_discard {above : Owned} {name : String} {directory : Bool}
    (hbelow : Below site (above.path ++ [name])) :
    Ensures Tidy (discard (.child above name directory)) (fun _ => Tidy) (Tidy : World site → Prop) := by
  unfold discard
  apply Ensures.bind ((ensures_statPath stable_tidy _).post fun _ _ h => h.1)
  intro _
  apply Ensures.bind (ensures_isOwn _ stable_tidy)
  intro own
  apply Ensures.bind ((ensures_refuse _).weaken (fun _ h => h) (fun _ _ h => h) fun _ h => h.1)
  intro _
  have hstable : Stable fun w : World site =>
      (Staged w ∧ Found (.child above name directory) w) ∧ w.state = .unpublished :=
    (stable_found (by simp) hbelow).and fun _ h => h
  unfold removePath
  apply Ensures.pre (P := fun w : World site =>
    (Staged w ∧ Found (.child above name directory) w) ∧ w.state = .unpublished)
  · apply ensures_effect hstable
    · intro m w a act d hw hchange
      obtain ⟨⟨hstaged, hfound⟩, hstate⟩ := hw
      simp only [answer_eq_ok, bind_eq_ok] at hchange
      obtain ⟨dir, hdir, p, hremove, hresult⟩ := hchange
      obtain ⟨i, d'⟩ := p
      obtain ⟨-, hact⟩ := Prod.mk.inj (Except.ok.inj hresult)
      obtain ⟨rfl, rfl⟩ := Prod.mk.inj hact
      exact ⟨hstaged.remove hbelow hfound hdir hremove, hstate⟩
    · exact fun _ _ h => h
    · exact fun _ h => ⟨h.1.1, h.2⟩
  · intro w h
    obtain ⟨⟨hw, hfound⟩, hown⟩ := h
    exact ⟨⟨hw.1, (hfound (Bool.of_not_eq_false hown)).1⟩, hw.2⟩

/-- **`_cleanup`** never raises, and removes only what the call made. -/
theorem ensures_cleanup {items : List Owned}
    (h : ∀ item ∈ items, item ≠ .parent ∧ Below site item.path) (primary : Option Problem) :
    Ensures Tidy (cleanup items primary)
      (fun left w => Tidy w ∧ (primary.isSome → left.isSome)) (fun _ : World site => False) := by
  induction items generalizing primary with
  | nil => exact .pure fun _ hw => ⟨hw, fun hsome => hsome⟩
  | cons item items ih =>
    have hrest := ih fun item hitem => h item (List.mem_cons_of_mem _ hitem)
    rw [cleanup]
    apply Ensures.bind (Q := fun _ => Tidy)
    · have hdiscard : Ensures Tidy (discard item) (fun _ => Tidy) (Tidy : World site → Prop) := by
        obtain ⟨hparent, hbelow⟩ := h item List.mem_cons_self
        cases item with
        | parent => exact absurd rfl hparent
        | child above name directory => exact ensures_discard hbelow
      apply hdiscard.attempt.post
      intro result w hw
      cases result with
      | ok u => exact hw.1 u rfl
      | error e => exact hw.2 e rfl
    intro result
    cases result with
    | ok u => exact hrest primary
    | error e =>
      show Ensures _ (if e.kind = .fileNotFound then cleanup items primary else _) _ _
      by_cases hkind : e.kind = .fileNotFound
      · rw [if_pos hkind]
        exact hrest primary
      · rw [if_neg hkind]
        exact (hrest _).post fun left w hw => ⟨hw.1, fun _ => hw.2 rfl⟩

theorem below_of_mem_owned {item : Owned} (h : item ∈ (owned site publication).reverse) :
    item ≠ .parent ∧ Below site item.path := by
  have hitem := List.mem_reverse.mp h
  unfold owned at hitem
  rcases List.mem_cons.mp hitem with rfl | hitem
  · exact ⟨by simp [stage], [], rfl⟩
  rcases List.mem_cons.mp hitem with rfl | hitem
  · exact ⟨by simp [lineDirectory], [publicationLine], rfl⟩
  obtain ⟨p, -, rfl⟩ := List.mem_map.mp hitem
  exact ⟨by simp, [publicationLine, p.1], rfl⟩

/-! ## The call -/

/-- **What a call tells is so**, and what it did it was entitled to. -/
structure Truthful (publication : Publication) (result : Except Thrown SchemaDirectoryExport)
    (w : World site) : Prop where
  /-- A returned export: the destination is the directory that the call made and renamed, and that is
  the whole publication. -/
  returned : ∀ x, result = .ok x → ∃ i, w.disk.named site.destination = some i ∧
    w.Did (.make [site.staging] i) ∧ w.Did (.rename i) ∧ Complete publication (w.disk.tree i)
  /-- An error that says `unpublished`: the call renamed nothing. -/
  unpublished : ∀ t, result = .error t → t.state = some .unpublished → ∀ i, ¬ w.Did (.rename i)
  /-- An error that says `published`: it did rename what it had made. -/
  published : ∀ t, result = .error t → t.state = some .published →
    ∃ i, w.Did (.make [site.staging] i) ∧ w.Did (.rename i)
  /-- An existing destination is never replaced, and what is put there is whole. -/
  kept : ∀ e ∈ w.effects, e.Keeps site
  whole : ∀ e ∈ w.effects, e.Whole site publication
  /-- What is removed was made by this call under the same name, and then nothing is published. -/
  cleaned : ∀ path i, w.Did (.remove path i) →
    w.Did (.make path i) ∧ ∀ j, ¬ w.Did (.rename j)

theorem state_thrown (site : Site) (state : PublicationState) (problem : Problem) :
    (thrown site state problem).state = some state := by
  unfold thrown
  dsimp only
  split_ifs
  · rfl
  · rfl

/-- An error that reports the state of the call. -/
theorem truthful_of_told {w : World site} (h : Told publication w) (problem : Problem) :
    Truthful publication (.error (thrown site w.state problem)) w where
  returned x hx := by cases hx
  unpublished t ht hstate := by
    obtain rfl := Except.error.inj ht
    rw [state_thrown] at hstate
    exact (h.unpublished (Option.some.inj hstate)).unmoved
  published t ht hstate := by
    obtain rfl := Except.error.inj ht
    rw [state_thrown] at hstate
    obtain ⟨r, hr⟩ := h.published (Option.some.inj hstate)
    exact ⟨r, hr.made, hr.moved⟩
  kept := h.sound.kept
  whole := h.sound.whole
  cleaned := h.sound.removed

theorem Tidy.told {w : World site} (h : Tidy w) : Told publication w := by
  refine ⟨h.1.sound, fun _ => h.1, fun hstate => ?_⟩
  cases h.2.symm.trans hstate

/-- What follows an exception. -/
theorem truthful_settle_error {w : World site} (h : Told publication w)
    (export_ : SchemaDirectoryExport) (e : Problem) :
    Truthful publication (settle publication export_ (.error e) w).1
      (settle publication export_ (.error e) w).2 := by
  unfold settle
  dsimp only
  by_cases hstate : w.state = .unpublished
  · rw [if_pos hstate]
    obtain ⟨hok, herror⟩ := ensures_cleanup (fun _ => @below_of_mem_owned _ publication _)
      (some e) w ⟨h.unpublished hstate, hstate⟩
    rcases hcleanup : cleanup (owned site publication).reverse (some e) w with ⟨p | left, v⟩
    · exact absurd (herror p v hcleanup) not_false
    · obtain ⟨hv, hsome⟩ := hok left v hcleanup
      cases left with
      | none => cases hsome rfl
      | some p => exact truthful_of_told hv.told p
  · rw [if_neg hstate]
    exact truthful_of_told h e

/-- What follows a return. -/
theorem truthful_settle_ok {w : World site} (h : Acknowledged publication w)
    (result : SchemaDirectoryExport) :
    Truthful publication (settle publication result (.ok ()) w).1
      (settle publication result (.ok ()) w).2 := by
  obtain ⟨⟨r, hr, hdestination⟩, hstate⟩ := h
  have hno : w.state ≠ .unpublished := by
    rw [hstate]
    simp
  unfold settle
  dsimp only
  rw [if_neg hno]
  have hsound := hr.sound
  refine ⟨fun _ _ => ⟨r, hdestination, hr.made, hr.moved, hr.complete⟩, fun t ht => ?_, fun t ht => ?_,
    hsound.kept, hsound.whole, hsound.removed⟩
  · cases ht
  · cases ht

theorem truthful_publish {w : World site} (hw : Building w) (hroot : w.root = none)
    (result : SchemaDirectoryExport) :
    Truthful publication (publish publication result w).1 (publish publication result w).2 := by
  obtain ⟨hok, herror⟩ := ensures_publishTree publication w ⟨hw, hroot⟩
  unfold publish
  rcases htry : publishTree publication w with ⟨e | u, v⟩
  · have hfailed := herror e v htry
    dsimp only
    rcases hacknowledge : acknowledge e v with ⟨p | p, t⟩
    · exact truthful_settle_error (told_acknowledge hfailed hacknowledge) result p
    · exact truthful_settle_error (told_acknowledge hfailed hacknowledge) result p
  · exact truthful_settle_ok (hok u v htry) result

theorem ensures_prepare (publication : Publication) (path : String) :
    Ensures (fun w : World site => Building w ∧ w.root = none) (prepare publication path)
      (fun _ w => Building w ∧ w.root = none) Building := by
  have hstable : Stable fun w : World site => Building w ∧ w.root = none :=
    stable_building.and fun _ h => h
  unfold prepare
  apply Ensures.bind ((ensures_refuse _).weaken (fun _ h => h) (fun _ _ h => h.1) fun _ h => h.1)
  intro _
  apply Ensures.bind ((ensures_touch hstable).weaken (fun _ h => h) (fun _ _ h => h) fun _ h => h.1)
  intro _
  exact (ensures_lift _).weaken (fun _ h => h) (fun _ _ h => h.1) fun _ h => h.1

theorem building_start (disk : Disk) (moments : ℕ → Moment site) :
    Building (World.start disk moments) := by
  refine ⟨staged_start disk moments, fun path i hdid => ?_, rfl, rfl⟩
  obtain ⟨e, he, -⟩ := hdid
  cases he

end SchemaDirectory

open SchemaDirectory

/-- **The export is truthful and tidies up only after itself**, whatever fails before or after its
effect, and whatever other processes do to names and objects that are not this call's. -/
theorem exportSchemaDirectory_truthful {site : Site} (publication : Publication) (path : String)
    (disk : FileSystem.Disk) (moments : ℕ → Moment site) :
    Truthful publication (exportSchemaDirectory publication path (World.start disk moments)).1
      (exportSchemaDirectory publication path (World.start disk moments)).2 := by
  obtain ⟨hok, herror⟩ := ensures_prepare publication path _ ⟨building_start disk moments, rfl⟩
  unfold exportSchemaDirectory
  rcases hprepare : prepare publication path (World.start disk moments) with ⟨e | result, w⟩
  · have hsound := @Staged.sound _ publication _ (herror e w hprepare).staged
    refine ⟨fun x hx => ?_, fun t ht hstate => ?_, fun t ht hstate => ?_, hsound.kept, hsound.whole,
      hsound.removed⟩
    · cases hx
    · obtain rfl := Except.error.inj ht
      cases hstate
    · obtain rfl := Except.error.inj ht
      cases hstate
  · obtain ⟨hw, hroot⟩ := hok result w hprepare
    exact truthful_publish hw hroot result

end EvidenceBraid
