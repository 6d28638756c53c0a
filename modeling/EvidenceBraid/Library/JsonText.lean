import EvidenceBraid.Library.JsonLayout
import EvidenceBraid.Library.JsonNodes

/-!
# The characters of the canonical text

A character of the text is printable ASCII, or one of a string or a key of the document. So the
text is in every class of characters that has these (`mem_dumps`).
-/

namespace Json

variable {P : Char → Prop}

/-- The strings that a node has of its own are made of these characters. -/
def Spelled (P : Char → Prop) : Json → Prop
  | .str s => ∀ c ∈ s.toList, P c
  | .obj kvs => ∀ k ∈ keys kvs, ∀ c ∈ k.toList, P c
  | _ => True

theorem mem_escape (hascii : ∀ d : Char, 32 ≤ d.toNat → d.toNat < 127 → P d) {c d : Char}
    (hc : P c) (hd : d ∈ escape c) : P d := by
  have hprintable := printable_escape c d hd
  rcases escape_cases c with ⟨e, hmem, h⟩ | ⟨hlow, h⟩ | ⟨-, -, -, h⟩
  · have hall : ∀ p ∈ shortEscapes, p.2.toNat < 127 := by decide
    rw [h, List.mem_cons, List.mem_singleton] at hd
    rcases hd with rfl | rfl
    · exact hascii _ hprintable (by decide)
    · exact hascii _ hprintable (hall _ hmem)
  · have hhex : ∀ n < 16, (hexChar n).toNat < 127 := by decide
    obtain ⟨hhi, hlo⟩ := hexChar_all (P := fun d => d.toNat < 127) hhex hlow
    have hall : ∀ d ∈ escape c, d.toNat < 127 := by
      rw [h]
      simp only [List.forall_mem_cons, List.not_mem_nil, false_implies, implies_true, and_true]
      exact ⟨by decide, by decide, by decide, by decide, hhi, hlo⟩
    exact hascii _ hprintable (hall d hd)
  · rw [h, List.mem_singleton] at hd
    exact hd ▸ hc

theorem mem_dumpsString (hascii : ∀ d : Char, 32 ≤ d.toNat → d.toNat < 127 → P d) {s : String}
    (hs : ∀ c ∈ s.toList, P c) : ∀ d ∈ dumpsString s, P d := by
  intro d hd
  rw [dumpsString_eq] at hd
  simp only [List.mem_cons, List.mem_append, List.mem_flatMap, List.not_mem_nil, or_false] at hd
  rcases hd with rfl | ⟨c, hc, hd⟩ | rfl
  · exact hascii _ (by decide) (by decide)
  · exact mem_escape hascii (hs c hc) hd
  · exact hascii _ (by decide) (by decide)

theorem mem_numeral (hascii : ∀ d : Char, 32 ≤ d.toNat → d.toNat < 127 → P d) {t : Numeral}
    (ht : t.Wf) : ∀ d ∈ t.text, P d := by
  intro d hd
  apply hascii d (printable_numeral ht d hd)
  rcases Numeral.mem_text ht hd with hdigit | rfl | rfl | rfl | rfl
  on_goal 1 =>
    simp only [Char.isDigit, Bool.and_eq_true, decide_eq_true_eq] at hdigit
    have hhigh : d.toNat ≤ 57 := hdigit.2
    omega
  all_goals decide

/-- A short text of printable ASCII. -/
theorem mem_literal (hascii : ∀ d : Char, 32 ≤ d.toNat → d.toNat < 127 → P d) {cs : List Char}
    (hcs : cs.all (fun d => decide (32 ≤ d.toNat) && decide (d.toNat < 127)) = true) :
    ∀ d ∈ cs, P d := by
  intro d hd
  have h := List.all_eq_true.mp hcs d hd
  simp only [Bool.and_eq_true, decide_eq_true_eq] at h
  exact hascii d h.1 h.2

mutual

/-- **The text of a document** is made of the characters of its strings and of printable ASCII. -/
theorem mem_dumps (hascii : ∀ d : Char, 32 ≤ d.toNat → d.toNat < 127 → P d) :
    ∀ v : Json, (∀ item ∈ v.popped, Spelled P item) → ∀ d ∈ dumps v, P d
  | .null, _ => mem_literal hascii rfl
  | .bool true, _ => mem_literal hascii rfl
  | .bool false, _ => mem_literal hascii rfl
  | .int n, _ => mem_numeral hascii (Numeral.wf_ofInt n)
  | .float x, _ => mem_numeral hascii (Numeral.wf_repr x)
  | .str s, h => mem_dumpsString hascii (h _ (List.mem_singleton_self _))
  | .arr xs, h => by
    intro d hd
    rw [forall_popped_arr] at h
    rcases List.mem_cons.mp hd with rfl | hd
    · exact hascii _ (by decide) (by decide)
    · exact mem_dumpsItems hascii xs true h.2 d hd
  | .obj kvs, h => by
    intro d hd
    rw [popped, List.forall_mem_cons, forall_poppedMembers] at h
    rcases List.mem_cons.mp hd with rfl | hd
    · exact hascii _ (by decide) (by decide)
    · exact mem_dumpsMembers hascii kvs true h.1 h.2 d hd

theorem mem_dumpsItems (hascii : ∀ d : Char, 32 ≤ d.toNat → d.toNat < 127 → P d) :
    ∀ (xs : List Json) (first : Bool), (∀ x ∈ xs, ∀ item ∈ x.popped, Spelled P item) →
      ∀ d ∈ dumpsItems first xs, P d
  | [], first, _ => by rw [dumpsItems]; exact mem_literal hascii rfl
  | x :: xs, first, h => by
    intro d hd
    rw [List.forall_mem_cons] at h
    simp only [dumpsItems, List.mem_append] at hd
    rcases hd with hd | hd | hd
    · revert d
      cases first <;> exact mem_literal hascii rfl
    · exact mem_dumps hascii x h.1 d hd
    · exact mem_dumpsItems hascii xs false h.2 d hd

theorem mem_dumpsMembers (hascii : ∀ d : Char, 32 ≤ d.toNat → d.toNat < 127 → P d) :
    ∀ (kvs : List (String × Json)) (first : Bool), (∀ k ∈ keys kvs, ∀ c ∈ k.toList, P c) →
      (∀ kv ∈ kvs, ∀ item ∈ kv.2.popped, Spelled P item) → ∀ d ∈ dumpsMembers first kvs, P d
  | [], first, _, _ => by rw [dumpsMembers]; exact mem_literal hascii rfl
  | (k, x) :: kvs, first, hkeys, h => by
    intro d hd
    rw [List.forall_mem_cons] at h
    rw [keys, List.map_cons, List.forall_mem_cons] at hkeys
    simp only [dumpsMembers, List.mem_append, List.mem_cons] at hd
    rcases hd with hd | hd | rfl | hd | hd
    · revert d
      cases first <;> exact mem_literal hascii rfl
    · exact mem_dumpsString hascii hkeys.1 d hd
    · exact hascii _ (by decide) (by decide)
    · exact mem_dumps hascii x h.1 d hd
    · exact mem_dumpsMembers hascii kvs false hkeys.2 h.2 d hd

end

end Json
