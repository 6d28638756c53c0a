import EvidenceBraid.Cursor

/-!
# A walk over the pages is complete

**Theorem (`LedgerSelection.walk_complete`).** Following `next_cursor` with any limits and byte
budgets serves the matching receipts in order, each once; every page keeps to its limits and takes
at least one receipt; and the walk ends, or stops at a receipt that is larger than the page's
budget, where it can be resumed.

A page is cut from the positions that are left (`page_eq`): `fill` takes a nonempty prefix of them,
unless the first receipt is over the budget (`fill_spec`), and the cursor leads to the rest. The
induction is on the requests, and what it carries is the list of positions left.
-/

namespace EvidenceBraid

open Hashing

variable {D : Type} [Hashing D] [DecidableEq D]

namespace LedgerSelection

/-! ## Filling a page -/

/-- The receipts at these positions. -/
def receiptsAt (entries : List (LedgerEntry D)) (positions : List ℕ) : List (LedgerEntry D) :=
  positions.filterMap (entries[·]?)

/-- The refusal of a receipt that is over the budget. -/
def oversized : PyError := .validation "next receipt exceeds the page byte budget"

/-- A page cut from these positions: some receipts, the bytes taken and the positions left. -/
structure Cut (entries : List (LedgerEntry D)) (limit budget taken size : ℕ) (positions : List ℕ)
    (es : List (LedgerEntry D)) (size' : ℕ) (left : List ℕ) : Prop where
  split : ∃ served, positions = served ++ left ∧ es = receiptsAt entries served ∧
    es.length = served.length
  count_le : taken + es.length ≤ limit
  size_eq : size' = size + (es.map entrySize).sum
  size_le : size' ≤ budget
  progress : taken = 0 → positions ≠ [] → es ≠ []

omit [DecidableEq D] in
/-- **The loop of `page`** cuts the positions, or meets a first receipt over the budget. -/
theorem fill_spec {entries : List (LedgerEntry D)} {limit budget : ℕ} {positions : List ℕ}
    (hpositions : ∀ p ∈ positions, p < entries.length) : ∀ {taken size : ℕ},
      taken ≤ limit → 0 < limit → size ≤ budget →
      (∃ es size' left, fill entries limit budget taken size positions = .ok (es, size', left) ∧
        Cut entries limit budget taken size positions es size' left) ∨
      (taken = 0 ∧ fill entries limit budget taken size positions = .error oversized ∧
        ∃ p rest entry, positions = p :: rest ∧ entries[p]? = some entry ∧
          budget < size + entrySize entry) := by
  induction positions with
  | nil =>
    intro taken size htaken _ hsize
    exact .inl ⟨[], size, [], rfl, ⟨[], rfl, rfl, rfl⟩, by simpa using htaken, by simp, hsize,
      fun _ h => absurd rfl h⟩
  | cons p positions ih =>
    intro taken size htaken hlimit hsize
    by_cases hfull : taken < limit
    · obtain ⟨entry, hentry⟩ : ∃ entry, entries[p]? = some entry :=
        ⟨_, List.getElem?_eq_getElem (hpositions p (by simp))⟩
      by_cases hover : budget < size + entrySize entry
      · by_cases hfirst : taken = 0
        · refine .inr ⟨hfirst, ?_, p, positions, entry, rfl, hentry, hover⟩
          rw [fill, if_pos hfull, hentry]
          simp only [hover, hfirst, if_true]
          rfl
        · refine .inl ⟨[], size, p :: positions, ?_, ⟨[], rfl, rfl, rfl⟩, by simpa using htaken,
            by simp, hsize, fun h => absurd h hfirst⟩
          rw [fill, if_pos hfull, hentry]
          simp only [hover, hfirst, if_true, if_false]
      · rcases ih (fun q hq => hpositions q (by simp [hq])) (show taken + 1 ≤ limit by omega) hlimit
          (show size + entrySize entry ≤ budget by omega) with
          ⟨es, size', left, hfill, ⟨served, hserved, hes, hlength⟩, hcount, hsum, hle, -⟩ | ⟨h, -⟩
        · refine .inl ⟨entry :: es, size', left, ?_, ⟨p :: served, by rw [hserved]; rfl, ?_, by
            simp [hlength]⟩, ?_, ?_, hle, fun _ _ => by simp⟩
          · rw [fill, if_pos hfull, hentry]
            simp only [hover, if_false, bind_eq_ok]
            exact ⟨_, hfill, rfl⟩
          · simp [receiptsAt, hentry, hes]
          · rw [List.length_cons]
            omega
          · rw [List.map_cons, List.sum_cons]
            omega
        · omega
    · refine .inl ⟨[], size, p :: positions, ?_, ⟨[], rfl, rfl, rfl⟩, by simpa using htaken,
        by simp, hsize, fun h => by omega⟩
      rw [fill, if_neg hfull]

/-! ## Positions -/

variable (s : LedgerSelection D)

theorem lt_of_mem_positions {i : ℕ} (hi : i ∈ s.positions) : i < s.index.ledger.entries.length := by
  obtain ⟨entry, _, hentry, -⟩ := (s.positions_spec.2.1 i).mp hi
  exact (List.getElem?_eq_some_iff.mp hentry).1

theorem length_positions_le : s.positions.length ≤ s.index.ledger.entries.length := by
  have hnodup : s.positions.Nodup := s.positions_spec.1.imp ne_of_lt
  have hsubset : s.positions ⊆ List.range s.index.ledger.entries.length := fun i hi =>
    List.mem_range.mpr (s.lt_of_mem_positions hi)
  have hle := (hnodup.subperm hsubset).length_le
  rwa [List.length_range] at hle

/-- The positions from a sequence number on. -/
def ahead (start : ℕ) : List ℕ := s.positions.dropWhile fun position => position < start

theorem ahead_zero : s.ahead 0 = s.positions := by
  unfold ahead
  cases s.positions <;> simp

theorem ahead_suffix (start : ℕ) : s.ahead start <:+ s.positions := List.dropWhile_suffix _

/-- The position that a cursor names comes first after it. -/
theorem ahead_of_split {served rest : List ℕ} {p : ℕ} (h : s.positions = served ++ p :: rest) :
    s.ahead p = p :: rest := by
  have hsorted := s.positions_spec.1
  rw [h, List.pairwise_append] at hsorted
  have hserved : ∀ q ∈ served, decide (q < p) = true := fun q hq =>
    decide_eq_true (hsorted.2.2 q hq p (by simp))
  rw [ahead, h, List.dropWhile_append_of_pos hserved]
  simp

/-- The receipts of a selection's positions carry these positions. -/
theorem sequence_receiptsAt {positions : List ℕ}
    (h : ∀ p ∈ positions, p < s.index.ledger.entries.length) :
    (receiptsAt s.index.ledger.entries positions).map (·.sequence) = positions := by
  induction positions with
  | nil => rfl
  | cons p positions ih =>
    obtain ⟨entry, hentry⟩ : ∃ entry, s.index.ledger.entries[p]? = some entry :=
      ⟨_, List.getElem?_eq_getElem (h p (by simp))⟩
    have hsequence := EvidenceLedger.sequence_of_verify s.index.verified hentry
    rw [receiptsAt, List.filterMap_cons_some hentry, List.map_cons, hsequence]
    exact congrArg (p :: ·) (ih fun q hq => h q (by simp [hq]))

omit [Hashing D] [DecidableEq D] in
theorem exists_of_mem_receiptsAt {entries : List (LedgerEntry D)} {positions : List ℕ}
    {e : LedgerEntry D} (h : e ∈ receiptsAt entries positions) :
    ∃ p ∈ positions, entries[p]? = some e := List.mem_filterMap.mp h

/-! ## A page -/

omit [DecidableEq D] in
/-- Verified receipts in ascending order pass the constructor's loop. -/
theorem checkEntries_of {n : ℕ} {es : List (LedgerEntry D)}
    (hes : ∀ e ∈ es, LedgerEntry.fromDict e.toDict = .ok e ∧ e.sequence < n) :
    ∀ {previous : ℤ}, (es.map (·.sequence)).Pairwise (· < ·) →
      (∀ e ∈ es, previous < e.sequence) → LedgerPage.checkEntries n previous es = .ok () := by
  induction es with
  | nil => exact fun _ _ => rfl
  | cons e es ih =>
    intro previous hsorted hprevious
    obtain ⟨hdecodes, hlt⟩ := hes e (by simp)
    rw [List.map_cons, List.pairwise_cons] at hsorted
    simp only [LedgerPage.checkEntries, bind_eq_ok, valid_eq_ok, exists_unit]
    refine ⟨e, hdecodes, ⟨hprevious e (by simp), by exact_mod_cast hlt⟩,
      ih (fun f hf => hes f (by simp [hf])) hsorted.2 fun f hf => ?_⟩
    exact_mod_cast hsorted.1 _ (List.mem_map_of_mem hf)

theorem cursor_ne_nil (next : ℕ) : s.cursor next ≠ [] := by
  intro h
  have hlength := congrArg List.length h
  have hsize : 1 ≤ (canonicalBytes (Json.dict (s.cursorItems next))).length := by
    rw [Json.dict, canonicalBytes, canonicalJson]
    refine le_trans ?_ (Utf8.length_le_length_encode _)
    rw [if_neg (by decide), Json.dumps, List.length_cons]
    exact Nat.le_add_left _ _
  rw [cursor_eq, length_base64, List.length_nil] at hlength
  omega

/-- The limits that `page` accepts. -/
structure Limits (limit budget : ℕ) : Prop where
  limit_pos : 1 ≤ limit
  limit_le : limit ≤ 1000
  budget_pos : 1 ≤ budget
  budget_le : budget ≤ maxPageBytes

/-- The page that is cut from the positions ahead. -/
def cutPage (es : List (LedgerEntry D)) (size : ℕ) (left : List ℕ) : LedgerPage D where
  entries := es
  headDigest := s.index.ledger.headDigest
  snapshotEntries := s.index.ledger.entries.length
  totalMatches := s.positions.length
  entryBytes := size
  nextCursor := left.head?.map s.cursor
  queryIdentity := s.query.identity

/-- The page's own checks pass. -/
theorem postInit_cutPage [WideHex D] {limit budget start size : ℕ} {es : List (LedgerEntry D)}
    {left : List ℕ} (hlimits : Limits limit budget)
    (hcut : Cut s.index.ledger.entries limit budget 0 0 (s.ahead start) es size left) :
    (s.cutPage es size left).postInit = .ok () := by
  obtain ⟨served, hsplit, rfl, hlength⟩ := hcut.split
  have hserved : ∀ p ∈ served, p ∈ s.positions := fun p hp =>
    (s.ahead_suffix start).subset (by rw [hsplit]; simp [hp])
  have hlt := fun p hp => s.lt_of_mem_positions (hserved p hp)
  have hsequences := s.sequence_receiptsAt hlt
  have hreceipts : ∀ e ∈ receiptsAt s.index.ledger.entries served,
      LedgerEntry.fromDict e.toDict = .ok e ∧ e.sequence < s.index.ledger.entries.length := by
    intro e he
    obtain ⟨p, hp, hentry⟩ := exists_of_mem_receiptsAt he
    refine ⟨EvidenceLedger.fromDict_of_verify s.index.verified hentry, ?_⟩
    rw [EvidenceLedger.sequence_of_verify s.index.verified hentry]
    exact hlt p hp
  have hsorted : served.Pairwise (· < ·) := by
    have hahead := s.positions_spec.1.sublist (s.ahead_suffix start).sublist
    rw [hsplit] at hahead
    exact (List.pairwise_append.mp hahead).1
  have hcount : served.length ≤ s.positions.length := by
    have hle := (s.ahead_suffix start).length_le
    rw [hsplit, List.length_append] at hle
    omega
  have hmax := (EvidenceLedger.version_of_verify s.index.verified).2
  have htotal := s.length_positions_le
  have hle := hcut.count_le
  have hsize := hcut.size_le
  have hlimit := hlimits.limit_le
  have hbudget := hlimits.budget_le
  simp only [LedgerPage.postInit, cutPage, bind_eq_ok, countInt_eq_ok, exists_unit]
  refine ⟨⟨by omega, by exact_mod_cast hmax⟩, ⟨by omega, by exact_mod_cast htotal⟩,
    ⟨by omega, by exact_mod_cast hsize.trans hbudget⟩, valid_of (by omega), ?_, valid_of ?_,
    valid_of ?_⟩
  · exact checkEntries_of hreceipts (by rw [hsequences]; exact hsorted) fun e _ => by omega
  · have hsum := hcut.size_eq
    omega
  · intro c hc
    obtain ⟨p, hp, rfl⟩ := Option.map_eq_some_iff.mp hc
    have hmem : p ∈ s.positions := by
      refine (s.ahead_suffix start).subset ?_
      rw [hsplit]
      exact List.mem_append_right _ (List.mem_of_head? hp)
    exact ⟨s.cursor_ne_nil p, s.length_cursor_le (s.lt_of_mem_positions hmem).le⟩

/-- **What a page is**: a cut of the positions from its cursor on, or a refusal of the first
receipt. -/
theorem page_eq [WideHex D] {limit budget start : ℕ} {token : Option (List Char)}
    (hlimits : Limits limit budget) (hstart : s.start token = .ok start) :
    (∃ es size left, s.page limit budget token = .ok (s.cutPage es size left) ∧
      Cut s.index.ledger.entries limit budget 0 0 (s.ahead start) es size left) ∨
    (s.page limit budget token = .error oversized ∧
      ∃ p rest entry, s.ahead start = p :: rest ∧ s.index.ledger.entries[p]? = some entry ∧
        budget < entrySize entry) := by
  have hlimit : countInt limit "limit" 1000 1 = .ok () :=
    countInt_eq_ok.mpr ⟨by exact_mod_cast hlimits.limit_pos, by exact_mod_cast hlimits.limit_le⟩
  have hbudget : countInt budget "max_entry_bytes" maxPageBytes 1 = .ok () :=
    countInt_eq_ok.mpr ⟨by exact_mod_cast hlimits.budget_pos, by exact_mod_cast hlimits.budget_le⟩
  have hpositions : ∀ p ∈ s.ahead start, p < s.index.ledger.entries.length := fun p hp =>
    s.lt_of_mem_positions ((s.ahead_suffix start).subset hp)
  rcases @fill_spec D _ s.index.ledger.entries limit budget _ hpositions 0 0 (Nat.zero_le _)
    hlimits.limit_pos (Nat.zero_le _) with ⟨es, size, left, hfill, hcut⟩ | ⟨-, hfill, p, rest,
    entry, hahead, hentry, hover⟩
  · refine .inl ⟨es, size, left, ?_, hcut⟩
    simp only [page, bind_eq_ok]
    exact ⟨(), hlimit, (), hbudget, start, hstart, _, hfill, (),
      s.postInit_cutPage hlimits hcut, rfl⟩
  · refine .inr ⟨?_, p, rest, entry, hahead, hentry, by simpa using hover⟩
    unfold page
    rw [hlimit, ok_bind, hbudget, ok_bind, hstart, ok_bind]
    change (fill s.index.ledger.entries limit budget 0 0 (s.ahead start) >>= _) = _
    rw [hfill]
    rfl

/-! ## Walks -/

/-- How a walk stands: at its end, at a cursor whose page was refused, or at the next cursor. -/
inductive Stop where
  | done
  | refused (token : Option (List Char)) (error : PyError)
  | more (token : Option (List Char))
  deriving DecidableEq

/-- Follow `next_cursor` with these limits and byte budgets. -/
def walk : List (ℕ × ℕ) → Option (List Char) → List (LedgerPage D) × Stop
  | [], token => ([], .more token)
  | (limit, budget) :: requests, token =>
    match s.page limit budget token with
    | .error e => ([], .refused token e)
    | .ok page =>
      match page.nextCursor with
      | none => ([page], .done)
      | some next =>
        let (pages, stop) := walk requests (some next)
        (page :: pages, stop)

/-- The positions that a walk has yet to serve. -/
def left : Stop → Result (List ℕ)
  | .done => .ok []
  | .refused token _ | .more token => s.ahead <$> s.start token

/-- The sequence numbers on these pages, in their order. -/
def visited (pages : List (LedgerPage D)) : List ℕ :=
  pages.flatMap fun page => page.entries.map (·.sequence)

/-- A page keeps to the limits it was asked for, and takes something while something is left. -/
structure Respects (positions : List ℕ) (page : LedgerPage D) (request : ℕ × ℕ) : Prop where
  count_le : page.entries.length ≤ request.1
  bytes_eq : page.entryBytes = (page.entries.map entrySize).sum
  bytes_le : page.entryBytes ≤ request.2
  progress : positions ≠ [] → page.entries ≠ []
  receipts : ∀ e ∈ page.entries, s.index.ledger.entries[e.sequence]? = some e

/-- What a walk over these positions has served, and how it stands. -/
structure Served (requests : List (ℕ × ℕ)) (positions : List ℕ) (pages : List (LedgerPage D))
    (stop : Stop) : Prop where
  /-- Each position is visited once, in order, up to those that are left. -/
  visits : ∃ rest, s.left stop = .ok rest ∧ visited pages ++ rest = positions
  respects : List.Forall₂ (s.Respects positions) pages (requests.take pages.length)
  /-- A page is refused only for a receipt that is over its budget. -/
  refused : ∀ token e, stop = .refused token e → e = oversized ∧ ∃ request p rest entry,
    requests[pages.length]? = some request ∧ s.left stop = .ok (p :: rest) ∧
      s.index.ledger.entries[p]? = some entry ∧ request.2 < entrySize entry
  /-- Enough requests come to an end. -/
  finished : max 1 positions.length ≤ requests.length → ∀ token, stop ≠ .more token
  answered : ∀ token, stop = .more token → pages.length = requests.length

variable {s}

/-- A cut page keeps to its limits. -/
theorem Cut.respects {limit budget start size : ℕ} {es : List (LedgerEntry D)} {rest : List ℕ}
    (hcut : Cut s.index.ledger.entries limit budget 0 0 (s.ahead start) es size rest) :
    s.Respects (s.ahead start) (s.cutPage es size rest) (limit, budget) where
  count_le := by simpa [cutPage] using hcut.count_le
  bytes_eq := by simpa [cutPage] using hcut.size_eq
  bytes_le := hcut.size_le
  progress := hcut.progress rfl
  receipts e he := by
    obtain ⟨served, -, rfl, -⟩ := hcut.split
    obtain ⟨p, -, hentry⟩ := exists_of_mem_receiptsAt he
    rw [EvidenceLedger.sequence_of_verify s.index.verified hentry]
    exact hentry

/-- A cut page visits the positions that it leaves out. -/
theorem Cut.visits {limit budget start size : ℕ} {es : List (LedgerEntry D)} {rest : List ℕ}
    (hcut : Cut s.index.ledger.entries limit budget 0 0 (s.ahead start) es size rest) :
    es.map (·.sequence) ++ rest = s.ahead start := by
  obtain ⟨served, hsplit, rfl, -⟩ := hcut.split
  rw [s.sequence_receiptsAt, hsplit]
  intro p hp
  refine s.lt_of_mem_positions ((s.ahead_suffix start).subset ?_)
  rw [hsplit]
  exact List.mem_append_left _ hp

/-- The cursor of a cut page leads to the positions it left. -/
theorem Cut.start_next [WideHex D] {limit budget start size p : ℕ} {es : List (LedgerEntry D)}
    {rest : List ℕ}
    (hcut : Cut s.index.ledger.entries limit budget 0 0 (s.ahead start) es size (p :: rest)) :
    s.start (some (s.cursor p)) = .ok p ∧ s.ahead p = p :: rest := by
  obtain ⟨before, hbefore⟩ := s.ahead_suffix start
  rw [← hcut.visits, ← List.append_assoc] at hbefore
  have hmem : p ∈ s.positions := by
    rw [← hbefore]
    simp
  exact ⟨s.resume_cursor (s.lt_of_mem_positions hmem).le, s.ahead_of_split hbefore.symm⟩

/-- Walks from a cursor on, page by page. -/
theorem served_walk [WideHex D] {requests : List (ℕ × ℕ)} :
    (∀ request ∈ requests, Limits request.1 request.2) → ∀ {token : Option (List Char)} {start : ℕ},
      s.start token = .ok start →
        s.Served requests (s.ahead start) (s.walk requests token).1 (s.walk requests token).2 := by
  induction requests with
  | nil =>
    intro _ token start hstart
    refine ⟨⟨s.ahead start, ?_, rfl⟩, .nil, fun _ _ h => (by cases h), ?_, fun _ _ => rfl⟩
    · simp [walk, left, hstart]
    · intro hlength
      rw [List.length_nil] at hlength
      omega
  | cons request requests ih =>
    intro hlimits token start hstart
    obtain ⟨limit, budget⟩ := request
    rcases s.page_eq (hlimits (limit, budget) (by simp)) hstart with
      ⟨es, size, rest, hpage, hcut⟩ | ⟨hpage, p, rest, entry, hahead, hentry, hover⟩
    · cases rest with
      | nil =>
        have hwalk : s.walk ((limit, budget) :: requests) token =
            ([s.cutPage es size []], .done) := by
          rw [walk, hpage]
          rfl
        rw [hwalk]
        refine ⟨⟨[], rfl, ?_⟩, .cons hcut.respects .nil, fun _ _ h => (by cases h),
          fun _ _ h => (by cases h), fun _ h => (by cases h)⟩
        simpa [visited, cutPage] using hcut.visits
      | cons p rest =>
        obtain ⟨hnext, hahead⟩ := hcut.start_next
        have hrest := ih (fun r hr => hlimits r (by simp [hr])) hnext
        rw [hahead] at hrest
        obtain ⟨hvisits, hrespects, hrefused, hfinished, hanswered⟩ := hrest
        have hwalk : s.walk ((limit, budget) :: requests) token =
            (s.cutPage es size (p :: rest) :: (s.walk requests (some (s.cursor p))).1,
              (s.walk requests (some (s.cursor p))).2) := by
          rw [walk, hpage]
          rfl
        have hne : s.ahead start ≠ [] := by
          rw [← hcut.visits]
          simp
        rw [hwalk]
        refine ⟨?_, .cons hcut.respects ?_, ?_, ?_, fun token' hstop => ?_⟩
        · obtain ⟨remaining, hremaining, hsplit⟩ := hvisits
          refine ⟨remaining, hremaining, ?_⟩
          rw [← hcut.visits, ← hsplit, ← List.append_assoc]
          rfl
        · refine hrespects.imp fun page request h => ⟨h.count_le, h.bytes_eq, h.bytes_le,
            fun _ => h.progress (by simp), h.receipts⟩
        · intro token' e hstop
          obtain ⟨he, request, q, remaining, entry, hrequest, hleft, hentry, hover⟩ :=
            hrefused token' e hstop
          exact ⟨he, request, q, remaining, entry, by simpa using hrequest, hleft, hentry, hover⟩
        · intro hlength
          apply hfinished
          have hserved : 0 < es.length := List.length_pos_iff.mpr (hcut.progress rfl hne)
          have htotal := congrArg List.length hcut.visits
          rw [List.length_append, List.length_map, List.length_cons] at htotal
          rw [List.length_cons] at hlength ⊢
          omega
        · rw [List.length_cons, List.length_cons, hanswered token' hstop]
    · have hwalk : s.walk ((limit, budget) :: requests) token = ([], .refused token oversized) := by
        rw [walk, hpage]
      have hleft : s.left (.refused token oversized) = .ok (p :: rest) := by
        simp [left, hstart, hahead]
      rw [hwalk]
      refine ⟨⟨p :: rest, hleft, hahead.symm⟩, .nil, ?_, fun _ _ h => (by cases h),
        fun _ h => (by cases h)⟩
      intro token' e hstop
      obtain ⟨-, rfl⟩ := Stop.refused.inj hstop
      exact ⟨rfl, (limit, budget), p, rest, entry, rfl, hleft, hentry, hover⟩

/-- **A walk is complete.** From the first page on it visits every matching position once, in
order, within each page's limits, and it ends; it stops early only at a receipt over the page's
budget, and the same cursor resumes it there. -/
theorem walk_complete [WideHex D] (s : LedgerSelection D) {requests retry : List (ℕ × ℕ)}
    (hrequests : ∀ request ∈ requests, Limits request.1 request.2)
    (hretry : ∀ request ∈ retry, Limits request.1 request.2) :
    s.Served requests s.positions (s.walk requests none).1 (s.walk requests none).2 ∧
    ((s.walk requests none).2 = .done → visited (s.walk requests none).1 = s.positions) ∧
    ∀ token e, (s.walk requests none).2 = .refused token e →
      (∃ rest, s.left (s.walk retry token).2 = .ok rest ∧
        visited ((s.walk requests none).1 ++ (s.walk retry token).1) ++ rest = s.positions) ∧
      ∀ p rest entry, s.left (.refused token e) = .ok (p :: rest) →
        s.index.ledger.entries[p]? = some entry →
        (∃ request, retry.head? = some request ∧ entrySize entry ≤ request.2) →
          (s.walk retry token).1 ≠ [] := by
  have hfirst := @served_walk D _ _ s _ _ hrequests none 0 rfl
  rw [ahead_zero] at hfirst
  refine ⟨hfirst, ?_, ?_⟩
  · intro hdone
    obtain ⟨rest, hrest, hsplit⟩ := hfirst.visits
    rw [hdone] at hrest
    cases hrest
    simpa using hsplit
  · intro token e hstop
    obtain ⟨rest, hrest, hsplit⟩ := hfirst.visits
    rw [hstop] at hrest
    obtain ⟨start, hstart, rfl⟩ := map_eq_ok.mp hrest
    have hsecond := @served_walk D _ _ s _ _ hretry token start hstart
    refine ⟨?_, ?_⟩
    · obtain ⟨rest', hrest', hsplit'⟩ := hsecond.visits
      refine ⟨rest', hrest', ?_⟩
      rw [← hsplit, ← hsplit', visited, List.flatMap_append, List.append_assoc]
      rfl
    · rintro p rest entry hleft hentry ⟨request, hrequest, hbudget⟩ hnil
      have hahead : s.ahead start = p :: rest := Except.ok.inj (hrest.symm.trans hleft)
      obtain ⟨rest', hrest', hsplit'⟩ := hsecond.visits
      cases hagain : (s.walk retry token).2 with
      | done =>
        rw [hagain] at hrest'
        cases hrest'
        rw [hnil, hahead] at hsplit'
        cases hsplit'
      | refused token' e' =>
        obtain ⟨-, request', q, rest'', entry', hrequest', hleft', hentry', hover⟩ :=
          hsecond.refused token' e' hagain
        rw [hleft', Except.ok.injEq] at hrest'
        rw [hnil, ← hrest', hahead] at hsplit'
        obtain ⟨rfl, -⟩ := List.cons.inj hsplit'
        rw [hentry, Option.some.injEq] at hentry'
        rw [hnil, List.length_nil, ← List.head?_eq_getElem?, hrequest,
          Option.some.injEq] at hrequest'
        subst hentry' hrequest'
        omega
      | more token' =>
        have hlength := hsecond.answered token' hagain
        rw [hnil, List.length_nil] at hlength
        rw [List.length_eq_zero_iff.mp hlength.symm] at hrequest
        cases hrequest

/-- A walk over the smallest ledger. -/
theorem walk_complete_sample : ∃ s : LedgerSelection HexDigest,
    ∀ token, (s.walk [(1000, 1000)] none).2 ≠ .more token := by
  have hlimits : ∀ request ∈ [(1000, 1000)], Limits request.1 request.2 := by
    intro request hrequest
    rw [List.mem_singleton.mp hrequest]
    exact ⟨by decide, by decide, by decide, by decide⟩
  let s : LedgerSelection HexDigest := ⟨sampleIndex HexDigest size_sampleEntry_hex, {}⟩
  have hlength : s.positions.length ≤ 1 := s.length_positions_le
  exact ⟨s, (walk_complete s hlimits hlimits).1.finished (by
    rw [List.length_singleton]
    omega)⟩

end LedgerSelection

end EvidenceBraid
