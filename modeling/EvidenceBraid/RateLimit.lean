import EvidenceBraid.Library.Dict
import Mathlib.Algebra.Order.Field.Rat
import Mathlib.Tactic.Linarith
import Mathlib.Tactic.Positivity

/-!
# Rate limiting

Each actor has a bucket of 4 credits and all of them share one of 16. `_rate` refills both buckets of
a request by the time since their latest reading, admits the request if both hold a full credit, and
only then debits them.

**Theorem (`rate_bounded`).** In any window of the requests that a bucket sees, at most its rate are
admitted, and its rate again for every second by which the latest reading grows.

**Idea.** What a request spends and what is left in the bucket are together at most what was there
and what the growth of the latest reading pays. This adds up over a window, whose first refill leaves
at most the capacity.
-/

namespace EvidenceBraid

/-! ## Buckets -/

/-- A full credit, and a second in nanoseconds. -/
def fullCredit : ℤ := 1000000000

/-- A `_Bucket`; `lastAt` is its `at`. -/
structure Bucket where
  rate : ℕ
  credit : ℤ
  lastAt : ℤ
  deriving DecidableEq, Repr

namespace Bucket

/-- `_Bucket(rate, now)`. -/
def start (rate : ℕ) (now : ℤ) : Bucket := ⟨rate, rate * fullCredit, now⟩

/-- The time that a refill pays for. -/
def elapsed (b : Bucket) (now : ℤ) : ℤ := max 0 (min (now - b.lastAt) fullCredit)

def refill (b : Bucket) (now : ℤ) : Bucket where
  rate := b.rate
  credit := min (b.rate * fullCredit) (b.credit + b.elapsed now * b.rate)
  lastAt := max now b.lastAt

def debit (b : Bucket) : Bucket := { b with credit := b.credit - fullCredit }

/-- The credit lies between nothing and the capacity. -/
def Valid (b : Bucket) : Prop := 0 ≤ b.credit ∧ b.credit ≤ b.rate * fullCredit

@[simp] theorem refill_rate (b : Bucket) (now : ℤ) : (b.refill now).rate = b.rate := rfl

@[simp] theorem refill_lastAt (b : Bucket) (now : ℤ) : (b.refill now).lastAt = max now b.lastAt := rfl

@[simp] theorem debit_rate (b : Bucket) : b.debit.rate = b.rate := rfl

@[simp] theorem debit_lastAt (b : Bucket) : b.debit.lastAt = b.lastAt := rfl

@[simp] theorem debit_credit (b : Bucket) : b.debit.credit = b.credit - fullCredit := rfl

theorem elapsed_nonneg (b : Bucket) (now : ℤ) : 0 ≤ b.elapsed now := le_max_left _ _

/-- A refill pays for no more than the growth of the latest reading. -/
theorem elapsed_le (b : Bucket) (now : ℤ) : b.elapsed now ≤ (b.refill now).lastAt - b.lastAt := by
  show max 0 (min (now - b.lastAt) fullCredit) ≤ max now b.lastAt - b.lastAt
  omega

theorem valid_start (rate : ℕ) (now : ℤ) : (start rate now).Valid :=
  ⟨by simp only [start, fullCredit]; positivity, le_refl _⟩

theorem le_refill {b : Bucket} (hb : b.Valid) (now : ℤ) : b.credit ≤ (b.refill now).credit := by
  have hpaid : 0 ≤ b.elapsed now * b.rate := mul_nonneg (b.elapsed_nonneg now) (Int.natCast_nonneg _)
  exact le_min hb.2 (by omega)

theorem valid_refill {b : Bucket} (hb : b.Valid) (now : ℤ) : (b.refill now).Valid :=
  ⟨hb.1.trans (le_refill hb now), min_le_left _ _⟩

theorem valid_debit {b : Bucket} (hb : b.Valid) (hfull : fullCredit ≤ b.credit) : b.debit.Valid := by
  refine ⟨?_, ?_⟩
  · rw [debit_credit]
    omega
  · have hcap := hb.2
    rw [debit_credit, debit_rate]
    unfold fullCredit at *
    omega

/-- A refill adds at most what the growth of the latest reading pays. -/
theorem refill_credit_le (b : Bucket) (now : ℤ) :
    (b.refill now).credit ≤ b.credit + b.rate * ((b.refill now).lastAt - b.lastAt) := by
  have hpaid : b.elapsed now * b.rate ≤ ((b.refill now).lastAt - b.lastAt) * b.rate :=
    mul_le_mul_of_nonneg_right (b.elapsed_le now) (Int.natCast_nonneg _)
  calc (b.refill now).credit ≤ b.credit + b.elapsed now * b.rate := min_le_right _ _
    _ ≤ b.credit + ((b.refill now).lastAt - b.lastAt) * b.rate := by omega
    _ = b.credit + b.rate * ((b.refill now).lastAt - b.lastAt) := by rw [mul_comm (b.rate : ℤ)]

end Bucket

/-! ## The limiter -/

/-- The buckets of a service. -/
structure Limiter where
  buckets : Dict String Bucket
  globalBucket : Bucket

/-- A request by an actor, and the clock's reading when it is rated. -/
structure Request where
  actor : String
  now : ℤ
  deriving DecidableEq, Repr

/-- What `_rate` does: it returns, raises `rate_limited`, or raises a `KeyError`. -/
inductive Admission where
  | admitted | rateLimited | unknownActor
  deriving DecidableEq, Repr

namespace Limiter

/-- The buckets of a new service with these actors' credentials. -/
def start (now : ℤ) (actors : List String) : Limiter where
  buckets := Dict.ofItems (actors.map fun actor => (actor, Bucket.start 4 now))
  globalBucket := Bucket.start 16 now

/-- `_rate`. -/
def rate (s : Limiter) (r : Request) : Admission × Limiter :=
  match s.buckets.get? r.actor with
  | none => (.unknownActor, s)
  | some own =>
    let own := own.refill r.now
    let all := s.globalBucket.refill r.now
    if min own.credit all.credit < fullCredit then
      (.rateLimited, ⟨s.buckets.set r.actor own, all⟩)
    else
      (.admitted, ⟨s.buckets.set r.actor own.debit, all.debit⟩)

/-- The buckets after some requests. -/
def after (s : Limiter) : List Request → Limiter
  | [] => s
  | r :: rs => (s.rate r).2.after rs

/-- The requests with what `_rate` does with each. -/
def admissions (s : Limiter) : List Request → List (Request × Admission)
  | [] => []
  | r :: rs => (r, (s.rate r).1) :: (s.rate r).2.admissions rs

end Limiter

/-! ## Whose bucket -/

/-- A bucket of the limiter: an actor's own, or the global one. -/
inductive Owner where
  | actor (name : String)
  | everyone
  deriving DecidableEq, Repr

namespace Owner

/-- The rates of `__init__`. -/
def rate : Owner → ℕ
  | .actor _ => 4
  | .everyone => 16

/-- The bucket sees the requests of its actor, or of all actors. -/
def sees (actors : List String) (o : Owner) (r : Request) : Bool :=
  r.actor ∈ actors && match o with
    | .actor name => r.actor == name
    | .everyone => true

end Owner

/-- The bucket of an owner. -/
def Limiter.bucket (s : Limiter) : Owner → Option Bucket
  | .actor name => s.buckets.get? name
  | .everyone => some s.globalBucket

/-- The largest of the first reading and those of some requests. -/
def largest (start : ℤ) (seen : List Request) : ℤ := seen.foldl (fun m r => max m r.now) start

/-- How much the largest reading grows over a window, from its first request on. -/
def growth (start : ℤ) (before window : List Request) : ℤ :=
  largest start (before ++ window) - largest start (before ++ window.take 1)

/-- How many requests a bucket sees admitted. -/
def admittedCount (actors : List String) (o : Owner) (rated : List (Request × Admission)) : ℕ :=
  rated.countP fun p => o.sees actors p.1 && p.2 == .admitted

/-! ## One request -/

/-- What `_rate` can do. -/
theorem rate_cases (s : Limiter) (r : Request) :
    (s.buckets.get? r.actor = none ∧ s.rate r = (.unknownActor, s)) ∨
    ∃ own, s.buckets.get? r.actor = some own ∧
      ((¬ (fullCredit ≤ (own.refill r.now).credit ∧ fullCredit ≤ (s.globalBucket.refill r.now).credit) ∧
          s.rate r = (.rateLimited,
            ⟨s.buckets.set r.actor (own.refill r.now), s.globalBucket.refill r.now⟩)) ∨
        ((fullCredit ≤ (own.refill r.now).credit ∧ fullCredit ≤ (s.globalBucket.refill r.now).credit) ∧
          s.rate r = (.admitted, ⟨s.buckets.set r.actor (own.refill r.now).debit,
            (s.globalBucket.refill r.now).debit⟩))) := by
  unfold Limiter.rate
  cases hown : s.buckets.get? r.actor with
  | none => exact .inl ⟨rfl, rfl⟩
  | some own =>
    refine .inr ⟨own, rfl, ?_⟩
    by_cases hlow : min (own.refill r.now).credit (s.globalBucket.refill r.now).credit < fullCredit
    · exact .inl ⟨by omega, if_pos hlow⟩
    · exact .inr ⟨by omega, if_neg hlow⟩

/-- The limiter has the buckets of these actors. -/
def Limiter.Knows (actors : List String) (s : Limiter) : Prop :=
  ∀ actor, (s.buckets.get? actor).isSome ↔ actor ∈ actors

theorem knows_set {actors : List String} {s : Limiter} (hs : s.Knows actors) {actor : String}
    {own : Bucket} (hown : s.buckets.get? actor = some own) (b all : Bucket) :
    Limiter.Knows actors ⟨s.buckets.set actor b, all⟩ := by
  intro name
  by_cases hname : name = actor
  · have hknown := hs name
    rw [hname, hown] at hknown
    simpa [hname] using hknown
  · simpa only [Dict.get?_set_ne _ hname] using hs name

theorem knows_rate {actors : List String} {s : Limiter} (hs : s.Knows actors) (r : Request) :
    (s.rate r).2.Knows actors := by
  obtain ⟨_, h⟩ | ⟨own, hown, ⟨_, h⟩ | ⟨_, h⟩⟩ := rate_cases s r
  · rw [h]
    exact hs
  · rw [h]
    exact knows_set hs hown _ _
  · rw [h]
    exact knows_set hs hown _ _

/-- What a request does to one bucket: nothing if the bucket does not see it, and otherwise a refill
and, if the request is admitted, a debit of a credit that is there. -/
theorem bucket_rate {actors : List String} {s : Limiter} (hs : s.Knows actors) (r : Request)
    {o : Owner} {b : Bucket} (hb : s.bucket o = some b) :
    (o.sees actors r = false ∧ (s.rate r).2.bucket o = some b) ∨
    (o.sees actors r = true ∧ (s.rate r).1 = .rateLimited ∧
      (s.rate r).2.bucket o = some (b.refill r.now)) ∨
    (o.sees actors r = true ∧ (s.rate r).1 = .admitted ∧ fullCredit ≤ (b.refill r.now).credit ∧
      (s.rate r).2.bucket o = some (b.refill r.now).debit) := by
  obtain ⟨hnone, h⟩ | ⟨own, hown, hrated⟩ := rate_cases s r
  · -- An actor without a bucket is none of the service's.
    have hactor : r.actor ∉ actors := fun hmem => by simpa [hnone] using (hs r.actor).mpr hmem
    rw [h]
    exact .inl ⟨by simp [Owner.sees, hactor], hb⟩
  · have hactor : r.actor ∈ actors := (hs r.actor).mp (by simp [hown])
    cases o with
    | everyone =>
      obtain rfl : s.globalBucket = b := Option.some.inj hb
      have hsees : Owner.everyone.sees actors r = true := by simp [Owner.sees, hactor]
      obtain ⟨_, h⟩ | ⟨hfull, h⟩ := hrated
      · rw [h]
        exact .inr (.inl ⟨hsees, rfl, rfl⟩)
      · rw [h]
        exact .inr (.inr ⟨hsees, rfl, hfull.2, rfl⟩)
    | actor name =>
      have hget : s.buckets.get? name = some b := hb
      by_cases hname : name = r.actor
      · subst hname
        obtain rfl : own = b := Option.some.inj (hown.symm.trans hget)
        have hsees : (Owner.actor r.actor).sees actors r = true := by simp [Owner.sees, hactor]
        obtain ⟨_, h⟩ | ⟨hfull, h⟩ := hrated
        · rw [h]
          exact .inr (.inl ⟨hsees, rfl, Dict.get?_set_self _ _ _⟩)
        · rw [h]
          exact .inr (.inr ⟨hsees, rfl, hfull.1, Dict.get?_set_self _ _ _⟩)
      · have hsees : (Owner.actor name).sees actors r = false := by
          simp [Owner.sees, Ne.symm hname]
        have hkept (b' : Bucket) : (s.buckets.set r.actor b').get? name = some b := by
          rw [Dict.get?_set_ne _ hname, hget]
        obtain ⟨_, h⟩ | ⟨_, h⟩ := hrated
        · rw [h]
          exact .inl ⟨hsees, hkept _⟩
        · rw [h]
          exact .inl ⟨hsees, hkept _⟩

/-! ## A run of requests -/

/-- Over a run, what a bucket spends and what is left in it are at most what was there and what the
growth of its latest reading pays. -/
theorem spend_window {actors : List String} {o : Owner} (window : List Request) {s : Limiter}
    {b : Bucket} (hs : s.Knows actors) (hb : s.bucket o = some b) (hvalid : b.Valid) :
    ∃ b', (s.after window).bucket o = some b' ∧ (s.after window).Knows actors ∧ b'.Valid ∧
      b'.rate = b.rate ∧ b'.lastAt = largest b.lastAt (window.filter (o.sees actors)) ∧
      admittedCount actors o (s.admissions window) * fullCredit + b'.credit ≤
        b.credit + b.rate * (b'.lastAt - b.lastAt) := by
  induction window generalizing s b with
  | nil => exact ⟨b, hb, hs, hvalid, rfl, rfl, by simp [Limiter.admissions, admittedCount]⟩
  | cons r rs ih =>
    have hpaid := b.refill_credit_le r.now
    obtain ⟨hsees, hkept⟩ | ⟨hsees, hlimited, hkept⟩ | ⟨hsees, hadmitted, hfull, hkept⟩ :=
      bucket_rate hs r hb
    · obtain ⟨b', hb', hs', hvalid', hrate, hlast, hspent⟩ := ih (knows_rate hs r) hkept hvalid
      refine ⟨b', hb', hs', hvalid', hrate, ?_, ?_⟩
      · simpa [hsees] using hlast
      · simpa [Limiter.admissions, admittedCount, hsees] using hspent
    · obtain ⟨b', hb', hs', hvalid', hrate, hlast, hspent⟩ :=
        ih (knows_rate hs r) hkept (Bucket.valid_refill hvalid r.now)
      refine ⟨b', hb', hs', hvalid', hrate, ?_, ?_⟩
      · simpa [hsees, largest, max_comm] using hlast
      · have hcount : admittedCount actors o (s.admissions (r :: rs)) =
            admittedCount actors o ((s.rate r).2.admissions rs) := by
          simp [Limiter.admissions, admittedCount, hlimited]
        rw [hcount]
        rw [Bucket.refill_rate] at hspent
        linarith
    · obtain ⟨b', hb', hs', hvalid', hrate, hlast, hspent⟩ :=
        ih (knows_rate hs r) hkept (Bucket.valid_debit (Bucket.valid_refill hvalid r.now) hfull)
      refine ⟨b', hb', hs', hvalid', hrate, ?_, ?_⟩
      · simpa [hsees, largest, max_comm] using hlast
      · have hcount : admittedCount actors o (s.admissions (r :: rs)) =
            admittedCount actors o ((s.rate r).2.admissions rs) + 1 := by
          simp [Limiter.admissions, admittedCount, hsees, hadmitted]
        rw [hcount]
        rw [Bucket.debit_rate, Bucket.refill_rate, Bucket.debit_lastAt, Bucket.debit_credit] at hspent
        push_cast
        linarith

/-- The first refill in a window leaves at most the capacity, so only later growth pays for more. -/
theorem admitted_window {actors : List String} {o : Owner} (window : List Request) {s : Limiter}
    {b : Bucket} (hs : s.Knows actors) (hb : s.bucket o = some b) (hvalid : b.Valid) :
    admittedCount actors o (s.admissions window) * fullCredit ≤
      b.rate * fullCredit + b.rate * (largest b.lastAt (window.filter (o.sees actors)) -
        largest b.lastAt ((window.filter (o.sees actors)).take 1)) := by
  induction window generalizing s b with
  | nil =>
    have hcap : 0 ≤ b.rate * fullCredit := hvalid.1.trans hvalid.2
    simpa [Limiter.admissions, admittedCount, largest] using hcap
  | cons r rs ih =>
    by_cases hsees : o.sees actors r = true
    · have hrefilled := Bucket.valid_refill hvalid r.now
      have hfilter : (r :: rs).filter (o.sees actors) = r :: rs.filter (o.sees actors) :=
        List.filter_cons_of_pos hsees
      have hfirst : largest b.lastAt [r] = (b.refill r.now).lastAt := max_comm _ _
      have hrest : largest b.lastAt (r :: rs.filter (o.sees actors)) =
          largest (b.refill r.now).lastAt (rs.filter (o.sees actors)) := by
        rw [← hfirst]
        rfl
      rw [hfilter, hrest, List.take_succ_cons, List.take_zero, hfirst]
      obtain ⟨hnot, _⟩ | ⟨_, hlimited, hkept⟩ | ⟨_, hadmitted, hfull, hkept⟩ := bucket_rate hs r hb
      · exact absurd hsees (by simp [hnot])
      · obtain ⟨b', _, _, hvalid', _, hlast, hspent⟩ :=
          spend_window rs (knows_rate hs r) hkept hrefilled
        have hcount : admittedCount actors o (s.admissions (r :: rs)) =
            admittedCount actors o ((s.rate r).2.admissions rs) := by
          simp [Limiter.admissions, admittedCount, hlimited]
        rw [hcount, ← hlast]
        have hleft := hvalid'.1
        have hcap := hrefilled.2
        rw [Bucket.refill_rate] at hspent hcap
        linarith
      · obtain ⟨b', _, _, hvalid', _, hlast, hspent⟩ :=
          spend_window rs (knows_rate hs r) hkept (Bucket.valid_debit hrefilled hfull)
        have hcount : admittedCount actors o (s.admissions (r :: rs)) =
            admittedCount actors o ((s.rate r).2.admissions rs) + 1 := by
          simp [Limiter.admissions, admittedCount, hsees, hadmitted]
        rw [Bucket.debit_lastAt] at hlast
        rw [hcount, ← hlast]
        have hleft := hvalid'.1
        have hcap := hrefilled.2
        rw [Bucket.refill_rate] at hcap
        rw [Bucket.debit_rate, Bucket.refill_rate, Bucket.debit_lastAt, Bucket.debit_credit] at hspent
        push_cast
        linarith
    · have hnot : o.sees actors r = false := by simpa using hsees
      obtain ⟨_, hkept⟩ | ⟨hyes, _⟩ | ⟨hyes, _⟩ := bucket_rate hs r hb
      · have hrest := ih (knows_rate hs r) hkept hvalid
        simpa [Limiter.admissions, admittedCount, hnot] using hrest
      · exact absurd hyes hsees
      · exact absurd hyes hsees

/-! ## Every run -/

theorem get?_start (now : ℤ) (actors : List String) (actor : String) :
    (Limiter.start now actors).buckets.get? actor =
      if actor ∈ actors then some (Bucket.start 4 now) else none := by
  have hset : ∀ (names : List String) (d : Dict String Bucket),
      ((names.map fun name => (name, Bucket.start 4 now)).foldl (fun d kv => d.set kv.1 kv.2) d).get?
        actor = if actor ∈ names then some (Bucket.start 4 now) else d.get? actor := by
    intro names
    induction names with
    | nil => simp
    | cons name rest ih =>
      intro d
      rw [List.map_cons, List.foldl_cons, ih, Dict.get?_set]
      by_cases hname : actor = name <;> simp [hname]
  show (Dict.ofItems _).get? actor = _
  unfold Dict.ofItems
  rw [hset, Dict.get?_empty]

theorem knows_start (now : ℤ) (actors : List String) : (Limiter.start now actors).Knows actors := by
  intro actor
  rw [get?_start]
  by_cases hactor : actor ∈ actors <;> simp [hactor]

theorem eq_of_bucket_start {now : ℤ} {actors : List String} {o : Owner} {b : Bucket}
    (h : (Limiter.start now actors).bucket o = some b) : b = Bucket.start o.rate now := by
  cases o with
  | everyone => exact (Option.some.inj h).symm
  | actor name =>
    have hget : (Limiter.start now actors).buckets.get? name = some b := h
    rw [get?_start] at hget
    by_cases hname : name ∈ actors
    · rw [if_pos hname] at hget
      exact (Option.some.inj hget).symm
    · rw [if_neg hname] at hget
      simp at hget

/-- A bucket that is not there sees no request. -/
theorem unseen {actors : List String} {s : Limiter} (hs : s.Knows actors) {o : Owner}
    (h : s.bucket o = none) (r : Request) : o.sees actors r = false := by
  cases o with
  | everyone => simp [Limiter.bucket] at h
  | actor name =>
    have hname : name ∉ actors := by
      intro hmem
      have hget : s.buckets.get? name = none := h
      simpa [hget] using (hs name).mpr hmem
    by_cases hactor : r.actor = name
    · simp [Owner.sees, hactor, hname]
    · simp [Owner.sees, hactor]

theorem knows_after {actors : List String} (rs : List Request) {s : Limiter} (hs : s.Knows actors) :
    (s.after rs).Knows actors := by
  induction rs generalizing s with
  | nil => exact hs
  | cons r rs ih => exact ih (knows_rate hs r)

/-- Every bucket of a service has its owner's rate, is valid, and keeps the largest reading that it
has seen. -/
theorem bucket_after {now : ℤ} {actors : List String} {before : List Request} {o : Owner} {b : Bucket}
    (h : ((Limiter.start now actors).after before).bucket o = some b) :
    b.rate = o.rate ∧ b.Valid ∧ b.lastAt = largest now (before.filter (o.sees actors)) := by
  have hs := knows_start now actors
  cases hfirst : (Limiter.start now actors).bucket o with
  | some b₀ =>
    obtain rfl := eq_of_bucket_start hfirst
    obtain ⟨b', hb', _, hvalid, hrate, hlast, _⟩ :=
      spend_window before hs hfirst (Bucket.valid_start _ _)
    obtain rfl : b' = b := Option.some.inj (hb'.symm.trans h)
    exact ⟨hrate, hvalid, hlast⟩
  | none =>
    cases o with
    | everyone => simp [Limiter.bucket] at hfirst
    | actor name =>
      have hname : name ∉ actors := fun hmem => by
        have hget : (Limiter.start now actors).buckets.get? name = none := hfirst
        simpa [hget] using (hs name).mpr hmem
      have hget : ((Limiter.start now actors).after before).buckets.get? name = some b := h
      exact absurd ((knows_after before hs name).mp (by simp [hget])) hname

/-- A request is admitted exactly when both refilled buckets hold a full credit. -/
theorem rate_admitted_iff {s : Limiter} {r : Request} {own : Bucket}
    (hown : s.bucket (.actor r.actor) = some own) :
    (s.rate r).1 = .admitted ↔
      fullCredit ≤ (own.refill r.now).credit ∧ fullCredit ≤ (s.globalBucket.refill r.now).credit := by
  have hget : s.buckets.get? r.actor = some own := hown
  obtain ⟨hnone, _⟩ | ⟨b, hb, hrated⟩ := rate_cases s r
  · simp [hget] at hnone
  · obtain rfl : own = b := Option.some.inj (hget.symm.trans hb)
    obtain ⟨hlow, h⟩ | ⟨hfull, h⟩ := hrated
    · rw [h]
      exact ⟨fun hadmitted => by simp at hadmitted, fun hfull => absurd hfull hlow⟩
    · rw [h]
      exact ⟨fun _ => hfull, fun _ => rfl⟩

/-- **The rate limit.** In a service's every state and for each of its buckets:
* in the window of requests that comes next, the bucket sees no more admitted than its rate, and its
  rate again for every second by which the largest reading it has seen grows over the window;
* its credit lies between nothing and its capacity;
* a request that is not admitted takes nothing from it;
* a request is admitted if it finds a full credit in both of its buckets, before their refill or
  after it, and otherwise it is not. -/
theorem rate_bounded (now : ℤ) (actors : List String) (before window : List Request) (o : Owner) :
    let s := (Limiter.start now actors).after before
    let seen := List.filter (o.sees actors)
    (admittedCount actors o (s.admissions window) : ℚ) ≤
        o.rate + o.rate * growth now (seen before) (seen window) / 10 ^ 9 ∧
    (∀ b, s.bucket o = some b →
      b.rate = o.rate ∧ 0 ≤ b.credit ∧ b.credit ≤ o.rate * fullCredit ∧
      (∀ r, (s.rate r).1 ≠ .admitted →
        ∃ b', (s.rate r).2.bucket o = some b' ∧ b.credit ≤ b'.credit)) ∧
    (∀ r own, s.bucket (.actor r.actor) = some own →
      ((s.rate r).1 = .admitted ↔
        fullCredit ≤ (own.refill r.now).credit ∧ fullCredit ≤ (s.globalBucket.refill r.now).credit) ∧
      (fullCredit ≤ own.credit → fullCredit ≤ s.globalBucket.credit → (s.rate r).1 = .admitted)) := by
  intro s seen
  have hs : s.Knows actors := knows_after before (knows_start now actors)
  refine ⟨?_, ?_, ?_⟩
  · have hbound : admittedCount actors o (s.admissions window) * fullCredit ≤
        o.rate * fullCredit + o.rate * growth now (seen before) (seen window) := by
      cases hb : s.bucket o with
      | some b =>
        obtain ⟨hrate, hvalid, hlast⟩ := bucket_after hb
        have hwindow := admitted_window window hs hb hvalid
        rw [hrate, hlast] at hwindow
        simpa only [growth, largest, List.foldl_append] using hwindow
      | none =>
        have hnone : seen window = [] :=
          List.filter_eq_nil_iff.mpr fun r _ => by simp [unseen hs hb r]
        have hcount : admittedCount actors o (s.admissions window) = 0 :=
          List.countP_eq_zero.mpr fun p _ => by simp [unseen hs hb p.1]
        rw [hcount, hnone]
        simp only [growth, List.take_nil, sub_self, fullCredit]
        positivity
    have hcast : (admittedCount actors o (s.admissions window) : ℚ) * 10 ^ 9 ≤
        o.rate * 10 ^ 9 + o.rate * growth now (seen before) (seen window) := by
      unfold fullCredit at hbound
      exact_mod_cast hbound
    linarith
  · intro b hb
    obtain ⟨hrate, hvalid, _⟩ := bucket_after hb
    refine ⟨hrate, hvalid.1, hrate ▸ hvalid.2, ?_⟩
    intro r hrejected
    obtain ⟨_, hkept⟩ | ⟨_, _, hkept⟩ | ⟨_, hadmitted, _⟩ := bucket_rate hs r hb
    · exact ⟨b, hkept, le_refl _⟩
    · exact ⟨b.refill r.now, hkept, Bucket.le_refill hvalid r.now⟩
    · exact absurd hadmitted hrejected
  · intro r own hown
    refine ⟨rate_admitted_iff hown, ?_⟩
    intro hfull hshared
    have hvalid := (bucket_after hown).2.1
    have hall : s.globalBucket.Valid := (bucket_after (o := .everyone) rfl).2.1
    exact (rate_admitted_iff hown).mpr ⟨hfull.trans (Bucket.le_refill hvalid r.now),
      hshared.trans (Bucket.le_refill hall r.now)⟩

end EvidenceBraid
