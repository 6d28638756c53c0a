import EvidenceBraid.CaseWire

/-!
# Case documents as bytes

**Theorem (`case_wire_round_trip`).** Every authority, plan, observation, verdict and decision, and
every journal that replays, is read back from its bytes, and only from these.

The constructors bound single fields and the encoded size, the parser bounds the nesting, the nodes
and every text. All but the nodes of an authority follow from the shape of a document; an authority
may hold thousands of grants, but each of its nodes takes eight bytes (`CaseAuthority.sparse`), so
64 KiB hold no more than 8192 of them.
-/

namespace EvidenceBraid

open Hashing
open Json (WellKeyed)

/-! ## Authorities as documents -/

/-- `_tuple`. -/
def caseTuple (value : Option Json) (maximum : ℕ) (label : String) : Result (List Json) :=
  match value with
  | some (.arr xs) => do
    valid (xs.length ≤ maximum) (label ++ " must be a bounded array")
    .ok xs
  | _ => .error (.validation (label ++ " must be a bounded array"))

theorem caseTuple_eq_ok {value : Option Json} {maximum : ℕ} {label : String} {xs : List Json} :
    caseTuple value maximum label = .ok xs ↔ value = some (.arr xs) ∧ xs.length ≤ maximum := by
  constructor
  · intro h
    unfold caseTuple at h
    split at h
    · simp only [bind_eq_ok, valid_eq_ok, exists_unit, Except.ok.injEq] at h
      obtain ⟨hlength, rfl⟩ := h
      exact ⟨rfl, hlength⟩
    · cases h
  · rintro ⟨rfl, hlength⟩
    simp only [caseTuple, bind_eq_ok, valid_eq_ok, exists_unit]
    exact ⟨hlength, trivial⟩

def CaseRole.members : List (String × CaseRole) :=
  [.propose, .observe, .evaluate, .decide].map fun a => (CaseRole.value a, a)

theorem CaseRole.enumTexts : EnumTexts CaseRole.members CaseRole.value :=
  enumTexts_of_forall (by intro a; cases a <;> rfl) (by decide)

def CaseActorKind.members : List (String × CaseActorKind) :=
  [.model, .tool, .human, .policy].map fun a => (CaseActorKind.value a, a)

theorem CaseActorKind.enumTexts : EnumTexts CaseActorKind.members CaseActorKind.value :=
  enumTexts_of_forall (by intro a; cases a <;> rfl) (by decide)

namespace CaseGrant

def fields : List String := ["role", "scope"]

def items (g : CaseGrant) : List (String × Json) :=
  [("scope", .str g.scope.value), ("role", .str g.role.value)]

theorem toDict_eq (g : CaseGrant) : g.toDict = Json.dict g.items := rfl

theorem nodup_keys_items (g : CaseGrant) : (Json.keys g.items).Nodup := by
  simp only [items, Json.keys, List.map_cons, List.map_nil]
  decide

theorem mem_keys_items (g : CaseGrant) (k : String) : k ∈ Json.keys g.items ↔ k ∈ fields := by
  refine List.Perm.mem_iff ?_
  simp only [items, Json.keys, List.map_cons, List.map_nil]
  decide

/-- `from_dict`. -/
def fromDict (value : Json) : Result CaseGrant := do
  let data ← caseFields value fields "case grant"
  let role ← enumString CaseRole.members (Json.get? data "role") "case grant role"
  let scope ← identifierField (Json.get? data "scope") "case grant scope"
  .ok ⟨scope, role⟩

@[simp] theorem fromDict_toDict (g : CaseGrant) : fromDict g.toDict = .ok g := by
  have hget := Json.get?_foldr_insertKey g.nodup_keys_items
  simp only [fromDict, bind_eq_ok]
  refine ⟨_, caseFields_eq_ok.mpr ⟨g.toDict_eq, fun k => ?_⟩, g.role, ?_, g.scope, ?_, rfl⟩
  · exact (Json.mem_keys_foldr_insertKey_iff g.nodup_keys_items).trans (g.mem_keys_items k)
  · rw [hget]
    exact CaseRole.enumTexts.eq_ok.mpr rfl
  · rw [hget]
    exact identifierField_value _ _

/-- A document that is read as a grant is the grant's own. -/
theorem eq_toDict_of_fromDict {value : Json} {g : CaseGrant} (hvalue : WellKeyed value)
    (h : fromDict value = .ok g) : value = g.toDict := by
  simp only [fromDict, bind_eq_ok, caseFields_eq_ok, identifierField_eq_ok,
    CaseRole.enumTexts.eq_ok, Except.ok.injEq] at h
  obtain ⟨data, ⟨rfl, hkeys⟩, role, hrole, scope, hscope, rfl⟩ := h
  refine Json.obj_eq_dict (Json.wellKeyed_obj.mp hvalue).1 (nodup_keys_items _)
    (fun k hk => (mem_keys_items _ k).mpr ((hkeys k).mp hk)) ?_
  simp [hrole, hscope]

theorem readable_toDict {hooks : Json.Hooks} (g : CaseGrant) : Json.Readable hooks g.toDict := by
  refine Json.readable_dict ?_
  simp

end CaseGrant

namespace CaseActor

theorem ext_fields {a b : CaseActor} (hid : a.actorId = b.actorId) (hkind : a.kind = b.kind)
    (hgrants : a.grants = b.grants) : a = b := by
  cases a; cases b; simp_all

def fields : List String := ["actor_id", "grants", "kind"]

def items (a : CaseActor) : List (String × Json) :=
  [("actor_id", .str a.actorId.value), ("kind", .str a.kind.value),
    ("grants", .arr (a.grants.map CaseGrant.toDict))]

theorem toDict_eq (a : CaseActor) : a.toDict = Json.dict a.items := rfl

theorem nodup_keys_items (a : CaseActor) : (Json.keys a.items).Nodup := by
  simp only [items, Json.keys, List.map_cons, List.map_nil]
  decide

theorem mem_keys_items (a : CaseActor) (k : String) : k ∈ Json.keys a.items ↔ k ∈ fields := by
  refine List.Perm.mem_iff ?_
  simp only [items, Json.keys, List.map_cons, List.map_nil]
  decide

/-- The checks of the constructor on the grants. -/
def make (actorId : Identifier) (kind : CaseActorKind) (grants : List CaseGrant) :
    Result CaseActor :=
  if hlength : 1 ≤ grants.length ∧ grants.length ≤ 64 then
    if hnodup : grants.Nodup then
      if hallowed : ∀ g ∈ grants, g.role ∈ kind.allowed then
        .ok ⟨actorId, kind, grants, hlength, hnodup, hallowed⟩
      else .error (.validation "case actor kind cannot hold the requested role")
    else .error (.validation "case actor needs unique bounded grants")
  else .error (.validation "case actor needs unique bounded grants")

theorem make_eq_ok {actorId : Identifier} {kind : CaseActorKind} {grants : List CaseGrant}
    {a : CaseActor} : make actorId kind grants = .ok a ↔
      a.actorId = actorId ∧ a.kind = kind ∧ a.grants = grants := by
  constructor
  · intro h
    unfold make at h
    split_ifs at h
    rw [← Except.ok.inj h]
    exact ⟨rfl, rfl, rfl⟩
  · rintro ⟨rfl, rfl, rfl⟩
    rw [make, dif_pos a.grants_length, dif_pos a.grants_nodup, dif_pos a.grants_allowed]

/-- `from_dict`. -/
def fromDict (value : Json) : Result CaseActor := do
  let data ← caseFields value fields "case actor"
  let kind ← enumString CaseActorKind.members (Json.get? data "kind") "case actor kind"
  let documents ← caseTuple (Json.get? data "grants") 64 "grants"
  let grants ← decodeItems CaseGrant.fromDict documents
  let actorId ← identifierField (Json.get? data "actor_id") "case actor ID"
  make actorId kind grants

@[simp] theorem fromDict_toDict (a : CaseActor) : fromDict a.toDict = .ok a := by
  have hget := Json.get?_foldr_insertKey a.nodup_keys_items
  simp only [fromDict, bind_eq_ok]
  refine ⟨_, caseFields_eq_ok.mpr ⟨a.toDict_eq, fun k => ?_⟩, a.kind, ?_,
    a.grants.map CaseGrant.toDict, ?_, a.grants, decodeItems_map fun g _ => g.fromDict_toDict,
    a.actorId, ?_, make_eq_ok.mpr ⟨rfl, rfl, rfl⟩⟩
  · exact (Json.mem_keys_foldr_insertKey_iff a.nodup_keys_items).trans (a.mem_keys_items k)
  · rw [hget]
    exact CaseActorKind.enumTexts.eq_ok.mpr rfl
  · rw [hget]
    exact caseTuple_eq_ok.mpr ⟨rfl, by rw [List.length_map]; exact a.grants_length.2⟩
  · rw [hget]
    exact identifierField_value _ _

/-- A document that is read as an actor is the actor's own. -/
theorem eq_toDict_of_fromDict {value : Json} {a : CaseActor} (hvalue : WellKeyed value)
    (h : fromDict value = .ok a) : value = a.toDict := by
  simp only [fromDict, bind_eq_ok, caseFields_eq_ok, identifierField_eq_ok,
    CaseActorKind.enumTexts.eq_ok, caseTuple_eq_ok, make_eq_ok] at h
  obtain ⟨data, ⟨rfl, hkeys⟩, kind, hkind, documents, ⟨hdocuments, -⟩, grants, h⟩ := h
  obtain ⟨hgrants, actorId, hid, rfl, rfl, rfl⟩ := h
  obtain ⟨hsorted, hmembers⟩ := Json.wellKeyed_obj.mp hvalue
  have hkeyed : WellKeyed (.arr documents) := hmembers ("grants", .arr documents)
    ((Json.mem_iff_get? (Json.nodup_of_sorted hsorted)).mpr hdocuments)
  have hmap := eq_map_of_decodeItems CaseGrant.eq_toDict_of_fromDict
    (Json.wellKeyed_arr.mp hkeyed) hgrants
  refine Json.obj_eq_dict hsorted (nodup_keys_items _)
    (fun k hk => (mem_keys_items _ k).mpr ((hkeys k).mp hk)) ?_
  simp [hkind, hid, hdocuments, hmap]

theorem readable_toDict {hooks : Json.Hooks} (a : CaseActor) : Json.Readable hooks a.toDict := by
  have hgrants : Json.Readable hooks (.arr (a.grants.map CaseGrant.toDict)) := by
    refine Json.readable_arr.mpr fun x hx => ?_
    obtain ⟨g, -, rfl⟩ := List.mem_map.mp hx
    exact g.readable_toDict
  refine Json.readable_dict ?_
  simp only [List.forall_mem_cons, List.not_mem_nil, false_implies, implies_true, and_true]
  exact ⟨trivial, trivial, hgrants⟩

end CaseActor

namespace CaseAuthority

theorem ext_fields {p q : CaseAuthority} (hid : p.policyId = q.policyId)
    (hactors : p.actors = q.actors) : p = q := by
  cases p; cases q; simp_all

def fields : List String := ["actors", "kind", "policy_id", "schema_version"]

def items (p : CaseAuthority) : List (String × Json) :=
  [("kind", .str "evidence-braid-case-authority"), ("schema_version", .str "1.0"),
    ("policy_id", .str p.policyId.value), ("actors", .arr (p.actors.map CaseActor.toDict))]

/-- `to_dict`. -/
def toDict (p : CaseAuthority) : Json := caseAuthorityDict p.policyId p.actors

theorem toDict_eq (p : CaseAuthority) : p.toDict = Json.dict p.items := rfl

theorem nodup_keys_items (p : CaseAuthority) : (Json.keys p.items).Nodup := by
  simp only [items, Json.keys, List.map_cons, List.map_nil]
  decide

theorem mem_keys_items (p : CaseAuthority) (k : String) : k ∈ Json.keys p.items ↔ k ∈ fields := by
  refine List.Perm.mem_iff ?_
  simp only [items, Json.keys, List.map_cons, List.map_nil]
  decide

/-- The checks of the constructor on the actors, and on the size. -/
def make (policyId : Identifier) (actors : List CaseActor) : Result CaseAuthority :=
  if hlength : 1 ≤ actors.length ∧ actors.length ≤ 64 then
    if hnodup : (actors.map (·.actorId)).Nodup then
      if hsize : (canonicalBytes (caseAuthorityDict policyId actors)).length ≤
          maxCaseAuthorityBytes then
        .ok ⟨policyId, actors, hlength, hnodup, hsize⟩
      else .error (.validation "case authority exceeds its byte bound")
    else .error (.validation "case authority needs unique bounded actors")
  else .error (.validation "case authority needs unique bounded actors")

theorem make_eq_ok {policyId : Identifier} {actors : List CaseActor} {p : CaseAuthority} :
    make policyId actors = .ok p ↔ p.policyId = policyId ∧ p.actors = actors := by
  constructor
  · intro h
    unfold make at h
    split_ifs at h
    rw [← Except.ok.inj h]
    exact ⟨rfl, rfl⟩
  · rintro ⟨rfl, rfl⟩
    rw [make, dif_pos p.actors_length, dif_pos p.actors_nodup, dif_pos p.size_le]

/-- `from_dict`. -/
def fromDict (value : Json) : Result CaseAuthority := do
  let data ← caseFields value fields "case authority"
  caseProfile data "evidence-braid-case-authority"
  let documents ← caseTuple (Json.get? data "actors") 64 "actors"
  let actors ← decodeItems CaseActor.fromDict documents
  let policyId ← identifierField (Json.get? data "policy_id") "case policy ID"
  make policyId actors

/-- `from_bytes`. -/
def fromBytes (raw : Bytes) : Result CaseAuthority := do
  let value ← caseDocument raw maxCaseAuthorityBytes
  fromDict value

@[simp] theorem fromDict_toDict (p : CaseAuthority) : fromDict p.toDict = .ok p := by
  have hget := Json.get?_foldr_insertKey p.nodup_keys_items
  simp only [fromDict, bind_eq_ok]
  refine ⟨_, caseFields_eq_ok.mpr ⟨p.toDict_eq, fun k => ?_⟩, (), ?_,
    p.actors.map CaseActor.toDict, ?_, p.actors, decodeItems_map fun a _ => a.fromDict_toDict,
    p.policyId, ?_, make_eq_ok.mpr ⟨rfl, rfl⟩⟩
  · exact (Json.mem_keys_foldr_insertKey_iff p.nodup_keys_items).trans (p.mem_keys_items k)
  · rw [caseProfile, hget, hget]
    exact valid_of ⟨rfl, rfl⟩
  · rw [hget]
    exact caseTuple_eq_ok.mpr ⟨rfl, by rw [List.length_map]; exact p.actors_length.2⟩
  · rw [hget]
    exact identifierField_value _ _

/-- A document that is read as an authority is the authority's own. -/
theorem eq_toDict_of_fromDict {value : Json} {p : CaseAuthority} (hvalue : WellKeyed value)
    (h : fromDict value = .ok p) : value = p.toDict := by
  simp only [fromDict, caseProfile, bind_eq_ok, caseFields_eq_ok, valid_eq_ok, exists_unit,
    identifierField_eq_ok, caseTuple_eq_ok, make_eq_ok] at h
  obtain ⟨data, ⟨rfl, hkeys⟩, ⟨hkind, hversion⟩, documents, ⟨hdocuments, -⟩, actors, h⟩ := h
  obtain ⟨hactors, policyId, hid, rfl, rfl⟩ := h
  obtain ⟨hsorted, hmembers⟩ := Json.wellKeyed_obj.mp hvalue
  have hkeyed : WellKeyed (.arr documents) := hmembers ("actors", .arr documents)
    ((Json.mem_iff_get? (Json.nodup_of_sorted hsorted)).mpr hdocuments)
  have hmap := eq_map_of_decodeItems CaseActor.eq_toDict_of_fromDict
    (Json.wellKeyed_arr.mp hkeyed) hactors
  rw [toDict_eq]
  refine Json.obj_eq_dict hsorted (nodup_keys_items _)
    (fun k hk => (mem_keys_items _ k).mpr ((hkeys k).mp hk)) ?_
  simp [items, hkind, hversion, hid, hdocuments, hmap]

theorem readable_toDict {hooks : Json.Hooks} (p : CaseAuthority) :
    Json.Readable hooks p.toDict := by
  have hactors : Json.Readable hooks (.arr (p.actors.map CaseActor.toDict)) := by
    refine Json.readable_arr.mpr fun x hx => ?_
    obtain ⟨a, -, rfl⟩ := List.mem_map.mp hx
    exact a.readable_toDict
  rw [toDict_eq]
  refine Json.readable_dict ?_
  simp only [items, List.forall_mem_cons, List.not_mem_nil, false_implies, implies_true, and_true]
  exact ⟨trivial, trivial, trivial, hactors⟩

end CaseAuthority

/-! ## An authority's nodes -/

theorem two_le_quotedSize (s : String) : 2 ≤ Json.quotedSize s := by
  rw [Json.quotedSize, Json.dumpsString_eq, Utf8.encode_cons, Utf8.encode_append,
    List.length_append, List.length_append]
  have hquote : (String.utf8EncodeChar '"').length = 1 := by decide
  have hclose : (Utf8.encode ['"']).length = 1 := by decide
  omega

/-- Eight bytes for each node. -/
def Sparse (v : Json) : Prop := 8 * v.nodes ≤ Json.size v

/-- An array of such documents is one but for its own node. -/
theorem nodes_arr_le {xs : List Json} (h : ∀ x ∈ xs, Sparse x) :
    8 * (Json.arr xs).nodes ≤ Json.size (.arr xs) + 7 := by
  have hsum : 8 * (xs.map Json.nodes).sum ≤ (xs.map fun x => Json.size x + 1).sum := by
    induction xs with
    | nil => simp
    | cons x xs ih =>
      rw [List.forall_mem_cons] at h
      have hfirst : 8 * x.nodes ≤ Json.size x := h.1
      have hrest := ih h.2
      simp only [List.map_cons, List.sum_cons]
      omega
  rw [Json.nodes_arr]
  cases xs with
  | nil => simp [Json.size_arr_nil]
  | cons x xs =>
    rw [Json.size_arr_of_ne (by simp)]
    omega

theorem CaseGrant.sparse (g : CaseGrant) : Sparse g.toDict := by
  have hscope := two_le_quotedSize g.scope.value
  have hrole : 8 ≤ Json.quotedSize g.role.value := by cases g.role <;> decide
  have hkeys : Json.quotedSize "scope" = 7 ∧ Json.quotedSize "role" = 6 := by
    and_intros <;> exact Json.quotedSize_literal rfl
  rw [Sparse, toDict_eq, Json.nodes_dict g.nodup_keys_items,
    Json.size_dict g.nodup_keys_items (by simp [items])]
  simp only [items, List.map_cons, List.map_nil, List.sum_cons, List.sum_nil, Json.size_str,
    Json.nodes, Json.popped, List.length_singleton, hkeys]
  clear hkeys
  omega

theorem CaseActor.sparse (a : CaseActor) : Sparse a.toDict := by
  have hgrants : 8 * (Json.arr (a.grants.map CaseGrant.toDict)).nodes ≤
      Json.size (.arr (a.grants.map CaseGrant.toDict)) + 7 := by
    refine nodes_arr_le fun x hx => ?_
    obtain ⟨g, -, rfl⟩ := List.mem_map.mp hx
    exact g.sparse
  have hid := two_le_quotedSize a.actorId.value
  have hkind := two_le_quotedSize a.kind.value
  have hkeys : Json.quotedSize "actor_id" = 10 ∧ Json.quotedSize "kind" = 6 ∧
      Json.quotedSize "grants" = 8 := by
    and_intros <;> exact Json.quotedSize_literal rfl
  have hleaf : ∀ s, (Json.str s).nodes = 1 := fun _ => rfl
  rw [Sparse, toDict_eq, Json.nodes_dict a.nodup_keys_items,
    Json.size_dict a.nodup_keys_items (by simp [items])]
  simp only [items, List.map_cons, List.map_nil, List.sum_cons, List.sum_nil, Json.size_str, hleaf,
    hkeys]
  clear hkeys
  omega

/-- **An authority has few nodes for its bytes.** -/
theorem CaseAuthority.sparse (p : CaseAuthority) : Sparse p.toDict := by
  have hactors : 8 * (Json.arr (p.actors.map CaseActor.toDict)).nodes ≤
      Json.size (.arr (p.actors.map CaseActor.toDict)) + 7 := by
    refine nodes_arr_le fun x hx => ?_
    obtain ⟨a, -, rfl⟩ := List.mem_map.mp hx
    exact a.sparse
  have hid := two_le_quotedSize p.policyId.value
  have hkeys : Json.quotedSize "kind" = 6 ∧ Json.quotedSize "schema_version" = 16 ∧
      Json.quotedSize "policy_id" = 11 ∧ Json.quotedSize "actors" = 8 := by
    and_intros <;> exact Json.quotedSize_literal rfl
  have hversion := two_le_quotedSize "1.0"
  have hkind := two_le_quotedSize "evidence-braid-case-authority"
  have hleaf : ∀ s, (Json.str s).nodes = 1 := fun _ => rfl
  rw [Sparse, toDict_eq, Json.nodes_dict p.nodup_keys_items,
    Json.size_dict p.nodup_keys_items (by simp [items])]
  simp only [items, List.map_cons, List.map_nil, List.sum_cons, List.sum_nil, Json.size_str, hleaf,
    hkeys]
  clear hkeys
  omega

theorem CaseGrant.modest (g : CaseGrant) : Modest g.toDict 1 3 := by
  have hrole : Modest (.str g.role.value) 0 1 :=
    .str (by cases g.role <;> exact caseTextOk_literal rfl)
  refine (Modest.dict g.nodup_keys_items ?_ ?_).mono le_rfl (show 1 + 2 * 1 ≤ 3 by decide)
  · simp only [items, Json.keys, List.map_cons, List.map_nil, List.forall_mem_cons,
      List.not_mem_nil, false_implies, implies_true, and_true]
    and_intros <;> exact caseTextOk_literal rfl
  · simp only [items, List.forall_mem_cons, List.not_mem_nil, false_implies, implies_true, and_true]
    exact ⟨.identifier _, hrole⟩

theorem CaseActor.modest (a : CaseActor) : Modest a.toDict 3 600 := by
  have hkind : Modest (.str a.kind.value) 0 1 :=
    .str (by cases a.kind <;> exact caseTextOk_literal rfl)
  have hgrants : Modest (.arr (a.grants.map CaseGrant.toDict)) 2 193 := by
    refine (Modest.arr fun x hx => ?_).mono le_rfl
      (show 1 + (a.grants.map CaseGrant.toDict).length * 3 ≤ 193 by
        rw [List.length_map]
        have := a.grants_length.2
        omega)
    obtain ⟨g, -, rfl⟩ := List.mem_map.mp hx
    exact g.modest
  have hle : ∀ {v}, Modest v 0 1 → Modest v 2 193 := fun h => h.mono (by decide) (by decide)
  refine (Modest.dict a.nodup_keys_items ?_ ?_).mono le_rfl (show 1 + 3 * 193 ≤ 600 by decide)
  · simp only [items, Json.keys, List.map_cons, List.map_nil, List.forall_mem_cons,
      List.not_mem_nil, false_implies, implies_true, and_true]
    and_intros <;> exact caseTextOk_literal rfl
  · simp only [items, List.forall_mem_cons, List.not_mem_nil, false_implies, implies_true, and_true]
    exact ⟨hle (.identifier _), hle hkind, hgrants⟩

/-- **An authority is within the parser's bounds.** -/
theorem CaseAuthority.modest (p : CaseAuthority) :
    Modest p.toDict maxCaseJsonDepth maxCaseJsonNodes := by
  have hactors : Modest (.arr (p.actors.map CaseActor.toDict)) 4 38401 := by
    refine (Modest.arr fun x hx => ?_).mono le_rfl
      (show 1 + (p.actors.map CaseActor.toDict).length * 600 ≤ 38401 by
        rw [List.length_map]
        have := p.actors_length.2
        omega)
    obtain ⟨a, -, rfl⟩ := List.mem_map.mp hx
    exact a.modest
  have hle : ∀ {v}, Modest v 0 1 → Modest v 4 38401 := fun h => h.mono (by decide) (by decide)
  have hshape : Modest p.toDict 5 (1 + p.items.length * 38401) := by
    rw [toDict_eq]
    refine Modest.dict p.nodup_keys_items ?_ ?_
    · simp only [items, Json.keys, List.map_cons, List.map_nil]
      decide
    · simp only [items, List.forall_mem_cons, List.not_mem_nil, false_implies, implies_true,
        and_true]
      exact ⟨hle (.str (caseTextOk_literal rfl)), hle (.str (caseTextOk_literal rfl)),
        hle (.identifier _), hactors⟩
  have hsparse : 8 * p.toDict.nodes ≤ Json.size p.toDict := p.sparse
  have hsize : Json.size p.toDict ≤ 65536 := p.size_le
  exact ⟨hshape.height_le.trans (by decide), show p.toDict.nodes ≤ 8192 by omega, hshape.admitted⟩

theorem CaseAuthority.fromBytes_toBytes (p : CaseAuthority) : fromBytes p.toBytes = .ok p := by
  simp only [fromBytes, bind_eq_ok]
  exact ⟨p.toDict, caseDocument_canonical p.readable_toDict rfl p.size_le p.modest,
    p.fromDict_toDict⟩

theorem CaseAuthority.of_fromBytes {raw : Bytes} {p : CaseAuthority} (h : fromBytes raw = .ok p) :
    raw = p.toBytes := by
  simp only [fromBytes, bind_eq_ok] at h
  obtain ⟨value, hvalue, h⟩ := h
  obtain ⟨rfl, hkeyed⟩ := of_caseDocument hvalue
  exact congrArg canonicalBytes (eq_toDict_of_fromDict hkeyed h)

/-! ## Records -/

variable {D : Type} [Hashing D] [DecidableEq D]

/-- `from_bytes` of a record type, given its `from_dict`. -/
def recordFromBytes {α : Type} (fromDict : Json → Result α) (raw : Bytes) : Result α := do
  let value ← caseDocument raw maxCaseRecordBytes
  fromDict value

def CasePlan.fromBytes (raw : Bytes) : Result (CasePlan D) := recordFromBytes CasePlan.fromDict raw

def CaseObservation.fromBytes (raw : Bytes) : Result (CaseObservation D) :=
  recordFromBytes CaseObservation.fromDict raw

def CaseVerdict.fromBytes (raw : Bytes) : Result (CaseVerdict D) :=
  recordFromBytes CaseVerdict.fromDict raw

def CaseDecision.fromBytes (raw : Bytes) : Result (CaseDecision D) :=
  recordFromBytes CaseDecision.fromDict raw

/-- A record whose document is modest and within the bound is read from its bytes. -/
theorem recordFromBytes_canonical {α : Type} {fromDict : Json → Result α} {v : Json} {a : α}
    {height count : ℕ} (hv : Json.Readable caseWireHooks v) (hobject : isObject v = true)
    (hsize : Json.size v ≤ maxCaseRecordBytes) (h : Modest v height count)
    (hheight : height ≤ maxCaseJsonDepth) (hcount : count ≤ maxCaseJsonNodes)
    (hread : fromDict v = .ok a) : recordFromBytes fromDict (canonicalBytes v) = .ok a := by
  simp only [recordFromBytes, bind_eq_ok]
  exact ⟨v, caseDocument_canonical hv hobject hsize (h.mono hheight hcount), hread⟩

/-- What is read as a record is its own bytes, when documents are. -/
theorem of_recordFromBytes {α : Type} {fromDict : Json → Result α} (encode : α → Json)
    (hencode : ∀ {v a}, WellKeyed v → fromDict v = .ok a → v = encode a) {raw : Bytes} {a : α}
    (h : recordFromBytes fromDict raw = .ok a) : raw = canonicalBytes (encode a) := by
  simp only [recordFromBytes, bind_eq_ok] at h
  obtain ⟨value, hvalue, h⟩ := h
  obtain ⟨rfl, hkeyed⟩ := of_caseDocument hvalue
  rw [hencode hkeyed h]

section Records

variable [WideHex D] {raw : Bytes}

theorem node_bounds : 1 ≤ maxCaseJsonDepth ∧ 21 ≤ maxCaseJsonNodes ∧ 4000 ≤ maxCaseRecordBytes := by
  decide

theorem CasePlan.fromBytes_toBytes (p : CasePlan D) : CasePlan.fromBytes p.toBytes = .ok p :=
  recordFromBytes_canonical p.readable_toDict rfl p.ok.size_le p.modest node_bounds.1 node_bounds.2.1
    p.fromDict_toDict

theorem CasePlan.of_fromBytes {p : CasePlan D} (h : CasePlan.fromBytes raw = .ok p) :
    raw = p.toBytes :=
  of_recordFromBytes (fun p : CasePlan D => p.toDict) CasePlan.eq_toDict_of_fromDict h

theorem CaseObservation.fromBytes_toBytes (o : CaseObservation D) :
    CaseObservation.fromBytes o.toBytes = .ok o :=
  have hsize := (o.size_toDict_le.trans (by decide)).trans node_bounds.2.2
  recordFromBytes_canonical o.readable_toDict rfl hsize o.modest node_bounds.1 node_bounds.2.1
    o.fromDict_toDict

theorem CaseObservation.of_fromBytes {o : CaseObservation D}
    (h : CaseObservation.fromBytes raw = .ok o) : raw = o.toBytes :=
  of_recordFromBytes CaseObservation.toDict CaseObservation.eq_toDict_of_fromDict h

theorem CaseVerdict.fromBytes_toBytes (v : CaseVerdict D) :
    CaseVerdict.fromBytes v.toBytes = .ok v :=
  have hsize := (v.size_toDict_le.trans (by decide)).trans node_bounds.2.2
  recordFromBytes_canonical v.readable_toDict rfl hsize v.modest node_bounds.1 node_bounds.2.1
    v.fromDict_toDict

theorem CaseVerdict.of_fromBytes {v : CaseVerdict D} (h : CaseVerdict.fromBytes raw = .ok v) :
    raw = v.toBytes :=
  of_recordFromBytes CaseVerdict.toDict CaseVerdict.eq_toDict_of_fromDict h

theorem CaseDecision.fromBytes_toBytes (d : CaseDecision D) :
    CaseDecision.fromBytes d.toBytes = .ok d :=
  recordFromBytes_canonical d.readable_toDict rfl (d.size_toDict_le.trans node_bounds.2.2) d.modest
    node_bounds.1 node_bounds.2.1 d.fromDict_toDict

theorem CaseDecision.of_fromBytes {d : CaseDecision D} (h : CaseDecision.fromBytes raw = .ok d) :
    raw = d.toBytes :=
  of_recordFromBytes CaseDecision.toDict CaseDecision.eq_toDict_of_fromDict h

end Records

/-- **Case wires round-trip.** Every document that a constructor admits is read back from its
bytes, and an accepted byte string is the canonical one of the value returned. -/
theorem case_wire_round_trip [WideHex D] :
    ((∀ p : CaseAuthority, CaseAuthority.fromBytes p.toBytes = .ok p) ∧
      (∀ p : CasePlan D, CasePlan.fromBytes p.toBytes = .ok p) ∧
      (∀ o : CaseObservation D, CaseObservation.fromBytes o.toBytes = .ok o) ∧
      (∀ v : CaseVerdict D, CaseVerdict.fromBytes v.toBytes = .ok v) ∧
      (∀ d : CaseDecision D, CaseDecision.fromBytes d.toBytes = .ok d) ∧
      ∀ (j : CaseJournal D) authority expectedHead,
        (∃ state, replayCase j authority expectedHead = .ok state) →
          CaseJournal.fromBytes j.toBytes authority expectedHead = .ok j) ∧
    (∀ raw (p : CaseAuthority), CaseAuthority.fromBytes raw = .ok p → raw = p.toBytes) ∧
      (∀ raw (p : CasePlan D), CasePlan.fromBytes raw = .ok p → raw = p.toBytes) ∧
      (∀ raw (o : CaseObservation D), CaseObservation.fromBytes raw = .ok o → raw = o.toBytes) ∧
      (∀ raw (v : CaseVerdict D), CaseVerdict.fromBytes raw = .ok v → raw = v.toBytes) ∧
      (∀ raw (d : CaseDecision D), CaseDecision.fromBytes raw = .ok d → raw = d.toBytes) ∧
      ∀ raw (j : CaseJournal D) authority expectedHead,
        CaseJournal.fromBytes raw authority expectedHead = .ok j → raw = j.toBytes := by
  refine ⟨⟨CaseAuthority.fromBytes_toBytes, CasePlan.fromBytes_toBytes,
    CaseObservation.fromBytes_toBytes, CaseVerdict.fromBytes_toBytes,
      CaseDecision.fromBytes_toBytes,
    ?_⟩, fun raw p => CaseAuthority.of_fromBytes, fun raw p => CasePlan.of_fromBytes,
    fun raw o => CaseObservation.of_fromBytes, fun raw v => CaseVerdict.of_fromBytes,
    fun raw d => CaseDecision.of_fromBytes, ?_⟩
  · intro j authority expectedHead h
    obtain ⟨state, hstate⟩ := h
    exact CaseJournal.fromBytes_toBytes hstate
  · intro raw j authority expectedHead h
    exact (CaseJournal.of_fromBytes h).1

/-- A decision in real digests is read back from its bytes. -/
theorem case_wire_round_trip_decision : ∃ d : CaseDecision HexDigest,
    CaseDecision.fromBytes d.toBytes = .ok d := by
  let d : CaseDecision HexDigest :=
    ⟨sha256 [], ⟨"decider", by decide⟩, .approve, ⟨"supported", by decide⟩⟩
  exact ⟨d, (case_wire_round_trip (D := HexDigest)).1.2.2.2.2.1 d⟩

end EvidenceBraid
