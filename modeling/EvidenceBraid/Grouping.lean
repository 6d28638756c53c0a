import EvidenceBraid.EngineProof

/-!
# What grouping keeps

`collapse_correlated` leaves one selection for each group and signal among the events, represented by
a strongest event of the group (`collapseCorrelated_eq_ok`). Events with distinct identifiers can
always be collapsed, and their order does not matter.
-/

namespace EvidenceBraid

open Arithmetic

variable {N : Type} [Arithmetic N]

/-- The events of a group and signal. -/
def members (events : List (WeightedEvent N)) (key : Text × Signal) : List (WeightedEvent N) :=
  events.filter fun w => bucketKey w = key

omit [Arithmetic N] in
theorem mem_members {events : List (WeightedEvent N)} {key : Text × Signal} {w : WeightedEvent N} :
    w ∈ members events key ↔ w ∈ events ∧ bucketKey w = key := by
  simp [members]

omit [Arithmetic N] in
theorem members_ne_nil {events : List (WeightedEvent N)} {key : Text × Signal} :
    members events key ≠ [] ↔ key ∈ events.map bucketKey := by
  simp [members]

/-! ## Selections -/

/-- **One selection**: a first event in rank, and the others by identifier. -/
theorem selectStrongest_eq_ok {key : Text × Signal} {bucket : List (WeightedEvent N)}
    {s : CorrelationSelection N} (hkey : ∀ w ∈ bucket, bucketKey w = key)
    (hdistinct : (bucket.map WeightedEvent.eventId).Nodup) :
    selectStrongest (key, bucket) = .ok s ↔ ∃ representative rest,
      bucket.sortOn rankKey = representative :: rest ∧
      s = ⟨key.1, key.2, representative, rest.sortOn WeightedEvent.eventId⟩ := by
  unfold selectStrongest
  rcases hsort : bucket.sortOn rankKey with _ | ⟨representative, rest⟩
  · simp
  · have hperm : (representative :: rest).Perm bucket := hsort ▸ List.sortOn_perm _ _
    have hsuppressed : (representative :: rest.sortOn WeightedEvent.eventId).Perm bucket :=
      ((List.sortOn_perm _ rest).cons _).trans hperm
    have hidem : (rest.sortOn WeightedEvent.eventId).sortOn WeightedEvent.eventId =
        rest.sortOn WeightedEvent.eventId := List.sortOn_of_pairwise (List.pairwise_sortOn _ _)
    have hkeys : ∀ w ∈ representative :: rest.sortOn WeightedEvent.eventId, bucketKey w = key :=
      fun w hw => hkey w (hsuppressed.mem_iff.mp hw)
    simp only [CorrelationSelection.make, CorrelationSelection.events, hidem, bind_eq_ok, valid_eq_ok,
      exists_unit, Except.ok.injEq, List.cons.injEq]
    constructor
    · rintro ⟨-, -, -, rfl⟩
      exact ⟨representative, rest, ⟨rfl, rfl⟩, rfl⟩
    · rintro ⟨_, _, ⟨rfl, rfl⟩, rfl⟩
      exact ⟨fun w hw => congrArg Prod.snd (hkeys w hw), fun w hw => congrArg Prod.fst (hkeys w hw),
        ((hsuppressed.map _).nodup_iff).mpr hdistinct, rfl⟩

/-- Events with distinct identifiers have distinct ranks. -/
theorem rankKey_nodup {bucket : List (WeightedEvent N)}
    (hdistinct : (bucket.map WeightedEvent.eventId).Nodup) : (bucket.map rankKey).Nodup := by
  have hids : (bucket.map rankKey).map (fun k => (ofLex k).2) = bucket.map WeightedEvent.eventId := by
    rw [List.map_map]
    rfl
  exact List.Nodup.of_map _ (hids ▸ hdistinct)

theorem selectionKey_of_select {bucket : (Text × Signal) × List (WeightedEvent N)}
    {s : CorrelationSelection N} (h : selectStrongest bucket = .ok s) :
    selectionKey s = toLex (bucket.1.1, bucket.1.2.value) := by
  unfold selectStrongest at h
  split at h
  · simp only [CorrelationSelection.make, bind_eq_ok, Except.ok.injEq] at h
    obtain ⟨_, -, _, -, _, -, rfl⟩ := h
    rfl
  · cases h

theorem selectStrongest_perm {key : Text × Signal} {bucket bucket' : List (WeightedEvent N)}
    (hperm : bucket'.Perm bucket) (hdistinct : (bucket.map WeightedEvent.eventId).Nodup) :
    selectStrongest (key, bucket') = selectStrongest (key, bucket) := by
  have hsort : bucket'.sortOn rankKey = bucket.sortOn rankKey :=
    (List.sortOn_eq_of_perm hperm.symm (rankKey_nodup hdistinct)).symm
  unfold selectStrongest
  rw [hsort]

section Distinct

variable {events : List (WeightedEvent N)}
  (hdistinct : (events.map WeightedEvent.eventId).Nodup)
include hdistinct

omit [Arithmetic N] in
theorem members_nodup (key : Text × Signal) :
    ((members events key).map WeightedEvent.eventId).Nodup :=
  hdistinct.sublist (List.filter_sublist.map _)

theorem select_members_eq_ok {key : Text × Signal} {s : CorrelationSelection N} :
    selectStrongest (key, members events key) = .ok s ↔ ∃ representative rest,
      (members events key).sortOn rankKey = representative :: rest ∧
      s = ⟨key.1, key.2, representative, rest.sortOn WeightedEvent.eventId⟩ :=
  selectStrongest_eq_ok (fun _ hw => (mem_members.mp hw).2) (members_nodup hdistinct key)

theorem exists_select_members {key : Text × Signal} (hkey : key ∈ events.map bucketKey) :
    ∃ s, selectStrongest (key, members events key) = .ok s := by
  rcases hsort : (members events key).sortOn rankKey with _ | ⟨representative, rest⟩
  · have hperm := List.sortOn_perm rankKey (members events key)
    rw [hsort] at hperm
    exact absurd hperm.symm.eq_nil (members_ne_nil.mpr hkey)
  · exact ⟨_, (select_members_eq_ok hdistinct).mpr ⟨_, _, hsort, rfl⟩⟩

/-- The representative is a member of its group, of first rank. -/
theorem representative_of_select {key : Text × Signal} {s : CorrelationSelection N}
    (h : selectStrongest (key, members events key) = .ok s) :
    s.groupId = key.1 ∧ s.signal = key.2 ∧ s.representative ∈ members events key ∧
      ∀ w ∈ members events key, rankKey s.representative ≤ rankKey w := by
  obtain ⟨representative, rest, hsort, rfl⟩ := (select_members_eq_ok hdistinct).mp h
  have hsorted := List.pairwise_sortOn rankKey (members events key)
  rw [hsort, List.pairwise_cons] at hsorted
  have hmem : ∀ w, w ∈ members events key ↔ w = representative ∨ w ∈ rest := fun w => by
    rw [← List.mem_cons, ← hsort, List.mem_sortOn]
  refine ⟨rfl, rfl, (hmem _).mpr (.inl rfl), fun w hw => ?_⟩
  rcases (hmem w).mp hw with rfl | hrest
  · exact le_rfl
  · exact hsorted.1 w hrest

/-! ## All selections -/

/-- **What collapsing returns.** -/
theorem exists_collapseCorrelated : ∃ selections, collapseCorrelated events = .ok selections ∧
    (selections.Pairwise fun a b => selectionKey a ≤ selectionKey b) ∧
    (selections.map selectionKey).Nodup ∧
    ∀ s, s ∈ selections ↔ ∃ key ∈ events.map bucketKey,
      selectStrongest (key, members events key) = .ok s := by
  have hbuckets : ∀ bucket, bucket ∈ buckets events ↔
      ∃ key ∈ events.map bucketKey, (key, members events key) = bucket := fun bucket => by
    simp only [buckets, List.mem_map, List.mem_dedup]
    rfl
  obtain ⟨unsorted, hunsorted⟩ := @List.exists_mapM _ _ _ selectStrongest (buckets events)
    fun bucket hbucket => by
      obtain ⟨key, hkey, rfl⟩ := (hbuckets bucket).mp hbucket
      exact exists_select_members hdistinct hkey
  have hcollapse : collapseCorrelated events = .ok (unsorted.sortOn selectionKey) := by
    rw [collapseCorrelated, hunsorted]
    rfl
  refine ⟨_, hcollapse, List.pairwise_sortOn _ _, ?_, fun s => ?_⟩
  · have hkeys : unsorted.map selectionKey =
        (buckets events).map fun bucket => toLex (bucket.1.1, bucket.1.2.value) :=
      List.mapM_map_eq hunsorted fun _ _ => selectionKey_of_select
    have hinjective : Function.Injective fun key : Text × Signal =>
        (toLex (key.1, key.2.value) : Text ×ₗ String) := by
      intro a b hab
      obtain ⟨hgroup, hsignal⟩ := Prod.mk.inj (toLex.injective hab)
      exact Prod.ext hgroup (Signal.value_injective hsignal)
    rw [((List.sortOn_perm _ unsorted).map _).nodup_iff, hkeys, buckets, List.map_map]
    exact (List.nodup_dedup _).map hinjective
  · rw [List.mem_sortOn]
    constructor
    · intro hs
      obtain ⟨bucket, hbucket, hselect⟩ := List.exists_of_mem_mapM hunsorted hs
      obtain ⟨key, hkey, rfl⟩ := (hbuckets bucket).mp hbucket
      exact ⟨key, hkey, hselect⟩
    · rintro ⟨key, hkey, hselect⟩
      obtain ⟨s', hs', hselect'⟩ := List.exists_of_mem_of_mapM hunsorted
        ((hbuckets _).mpr ⟨key, hkey, rfl⟩)
      rw [hselect] at hselect'
      exact Except.ok.inj hselect' ▸ hs'

end Distinct

end EvidenceBraid
