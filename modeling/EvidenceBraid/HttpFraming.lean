import EvidenceBraid.ServiceWire
import EvidenceBraid.Library.Dict
import EvidenceBraid.Library.Separator

/-!
# HTTP framing

`read_headers` reads pieces until it has seen the blank line, and hands what it has read beyond it to
`read_body`. The pieces are whatever `recv` returns: some bytes of the stream, never none before its
end, and never more than it was asked for.

**Theorem (`framing_independent`).** The headers, the body and every rejection are a function of the
stream; how it came in pieces makes no difference.

**Idea.** What has been read is always the start of the stream, at most `maximum` bytes of it. So the
first blank line in it is the first blank line of the stream, or there is none in the first `maximum`
bytes. The reader's tail and what is still to come are together what follows the blank line.
-/

namespace EvidenceBraid

open Separator (splitFirst splitAll)

/-! ## The connection -/

/-- A rejection: a `WorkflowServiceError`, or an `OSError`. -/
inductive FramingError where
  | service (code : ServiceCode)
  | os (message : String)
  deriving DecidableEq, Repr

/-- A connection: what the peer has still to deliver before it closes, and how many bytes each of the
next calls of `recv` gets at most. -/
structure Peer where
  stream : Bytes
  cuts : ℕ → ℕ

/-- `recv`: at least one byte while there are any, and at most the size. -/
def Peer.recv (p : Peer) (size : ℕ) : Bytes × Peer :=
  let count := min size (max 1 (p.cuts 0))
  (p.stream.take count, ⟨p.stream.drop count, fun i => p.cuts (i + 1)⟩)

/-! ## Headers -/

/-- The bounds of `WorkflowServiceLimits` on headers. -/
structure HeaderLimits where
  maximum : ℕ
  lineMax : ℕ
  firstMax : ℕ
  countMax : ℕ
  deriving DecidableEq, Repr

/-- The bounds on a response's headers. -/
def HeaderLimits.response : HeaderLimits := ⟨4096, 1024, 1024, 8⟩

/-- `b"\r\n"`. -/
def crlf : Bytes := [13, 10]

/-- `b"\r\n\r\n"`. -/
def blankLine : Bytes := [13, 10, 13, 10]

/-- The loop of `read_headers`: what has been read when it holds a blank line. -/
def readUntil (maximum : ℕ) (raw : Bytes) (p : Peer) : Except FramingError (Bytes × Peer) :=
  if (splitFirst blankLine raw).isSome then .ok (raw, p)
  else if _hroom : maximum ≤ raw.length then .error (.service .limitExceeded)
  else
    let piece := (p.recv (min 1024 (maximum - raw.length))).1
    if _hpiece : piece = [] then .error (.os "premature HTTP header EOF")
    else readUntil maximum (raw ++ piece) (p.recv (min 1024 (maximum - raw.length))).2
termination_by maximum - raw.length
decreasing_by
  have hlength : 0 < (p.recv (min 1024 (maximum - raw.length))).1.length :=
    List.length_pos_iff.mpr _hpiece
  rw [List.length_append]
  omega

/-- A byte of a header's text. -/
def printable (b : UInt8) : Bool := 32 ≤ b && b ≤ 126

/-- A byte of a header's name. -/
def nameByte (b : UInt8) : Bool := (97 ≤ b && b ≤ 122) || (65 ≤ b && b ≤ 90) || b = 45

/-- The whitespace that `strip` removes from bytes. -/
def spaceByte (b : UInt8) : Bool := (9 ≤ b && b ≤ 13) || b = 32

/-- `strip`. -/
def stripBytes (raw : Bytes) : Bytes := ((raw.dropWhile spaceByte).reverse.dropWhile spaceByte).reverse

/-- `decode("ascii")`, of bytes below 128. -/
def asciiText (raw : Bytes) : String := String.ofList (raw.map fun b => Char.ofNat b.toNat)

abbrev Headers := Dict String String

/-- One line of the headers; `none` is a `ValueError`. -/
def headerLine (headers : Headers) (line : Bytes) : Option Headers := do
  let (name, value) ← splitFirst [58, 32] line
  if name = [] ∨ name.any (! nameByte ·) then none
  else if value = [] ∨ value ≠ stripBytes value ∨ value.any (! printable ·) then none
  else
    let key := asciiText (name.map fun b => if 65 ≤ b && b ≤ 90 then b + 32 else b)
    if (headers.get? key).isSome then none else some (headers.set key (asciiText value))

/-- The lines after the first. -/
def headerLines (lineMax : ℕ) : List Bytes → Headers → Except FramingError Headers
  | [], headers => .ok headers
  | line :: lines, headers =>
    if lineMax < line.length then .error (.service .limitExceeded)
    else match headerLine headers line with
      | none => .error (.service .invalidRequest)
      | some headers => headerLines lineMax lines headers

/-- What `read_headers` makes of the bytes before the blank line. -/
def parseHeader (l : HeaderLimits) (header : Bytes) : Except FramingError (String × Headers) := do
  let lines := splitAll crlf header
  let first := lines.headD []
  if l.firstMax < first.length ∨ l.countMax < lines.length - 1 then
    .error (.service .limitExceeded)
  else if first.any (! printable ·) then .error (.service .invalidRequest)
  else
    let headers ← headerLines l.lineMax lines.tail Dict.empty
    .ok (asciiText first, headers)

/-- `read_headers`: the first line, the headers, and the tail that has been read beyond them. -/
def readHeaders (l : HeaderLimits) (p : Peer) :
    Except FramingError ((String × Headers) × Bytes × Peer) := do
  let (raw, p) ← readUntil l.maximum [] p
  let (header, tail) := (splitFirst blankLine raw).getD (raw, [])
  let parsed ← parseHeader l header
  .ok (parsed, tail, p)

/-! ## Bodies -/

/-- `content_length`. -/
def contentLength (headers : Headers) (maximum : ℕ) : Except FramingError ℕ :=
  let value := ((headers.get? "content-length").getD "").toList
  if value = [] ∨ (Nat.toDigits 10 maximum).length < value.length ∨ value.any (! ·.isDigit) then
    .error (.service .invalidRequest)
  else if 1 < value.length ∧ value.head? = some '0' then .error (.service .invalidRequest)
  else
    let size := Nat.ofDigitChars 10 value 0
    if maximum < size then .error (.service .limitExceeded) else .ok size

/-- The loop of `read_body`. -/
def readSized (size : ℕ) (raw : Bytes) (p : Peer) : Except FramingError (Bytes × Peer) :=
  if _hroom : size ≤ raw.length then .ok (raw, p)
  else
    let piece := (p.recv (min 65536 (size - raw.length))).1
    if _hpiece : piece = [] then .error (.os "premature HTTP body EOF")
    else readSized size (raw ++ piece) (p.recv (min 65536 (size - raw.length))).2
termination_by size - raw.length
decreasing_by
  have hlength : 0 < (p.recv (min 65536 (size - raw.length))).1.length :=
    List.length_pos_iff.mpr _hpiece
  rw [List.length_append]
  omega

/-- `read_body`. -/
def readBody (p : Peer) (tail : Bytes) (size : ℕ) : Except FramingError (Bytes × Peer) :=
  readSized size (tail.take size) p

/-- `read_headers`, `content_length` and `read_body`, one after the other. -/
def receiveFrame (l : HeaderLimits) (maximum : ℕ) (p : Peer) :
    Except FramingError ((String × Headers) × Bytes) := do
  let (parsed, tail, p) ← readHeaders l p
  let size ← contentLength parsed.2 maximum
  let (body, _) ← readBody p tail size
  .ok (parsed, body)

/-! ## What a reader finds -/

theorem recv_append (p : Peer) (size : ℕ) : (p.recv size).1 ++ (p.recv size).2.stream = p.stream :=
  List.take_append_drop _ _

theorem length_recv_le (p : Peer) (size : ℕ) : (p.recv size).1.length ≤ size := by
  show (p.stream.take (min size (max 1 (p.cuts 0)))).length ≤ size
  rw [List.length_take]
  omega

/-- Nothing comes only at the end of the stream. -/
theorem stream_of_recv {p : Peer} {size : ℕ} (hsize : 0 < size) (h : (p.recv size).1 = []) :
    p.stream = [] := by
  have hlength : (p.stream.take (min size (max 1 (p.cuts 0)))).length = 0 :=
    List.length_eq_zero_iff.mpr h
  rw [List.length_take] at hlength
  apply List.length_eq_zero_iff.mp
  omega

/-- The header of a stream: what stands before the blank line that ends within the first bytes. -/
def headerOf (maximum : ℕ) (stream : Bytes) : Except FramingError Bytes :=
  match splitFirst blankLine (stream.take maximum) with
  | some (header, _) => .ok header
  | none =>
    if maximum ≤ stream.length then .error (.service .limitExceeded)
    else .error (.os "premature HTTP header EOF")

/-- The loop fails as the stream has it, or it stops after the stream's header and its blank line. -/
theorem readUntil_spec {maximum : ℕ} (raw : Bytes) (p : Peer) (hraw : raw.length ≤ maximum) :
    (∃ e, headerOf maximum (raw ++ p.stream) = .error e ∧ readUntil maximum raw p = .error e) ∨
    ∃ raw' p' header tail, headerOf maximum (raw ++ p.stream) = .ok header ∧
      readUntil maximum raw p = .ok (raw', p') ∧ splitFirst blankLine raw' = some (header, tail) ∧
      raw' ++ p'.stream = raw ++ p.stream ∧ raw'.length ≤ maximum := by
  induction raw, p using readUntil.induct maximum with
  | case1 raw p hfound =>
    obtain ⟨⟨header, tail⟩, hsplit⟩ := Option.isSome_iff_exists.mp hfound
    refine .inr ⟨raw, p, header, tail, ?_, ?_, hsplit, rfl, hraw⟩
    · have htake : (raw ++ p.stream).take maximum = raw ++ p.stream.take (maximum - raw.length) := by
        rw [List.take_append, List.take_of_length_le hraw]
      rw [headerOf, htake, Separator.splitFirst_append _ hsplit]
    · rw [readUntil, if_pos hfound]
  | case2 raw p hmissing hfull =>
    have hnone : splitFirst blankLine raw = none := by simpa using hmissing
    have htake : (raw ++ p.stream).take maximum = raw := by
      rw [List.take_append_of_le_length hfull, List.take_of_length_le hraw]
    refine .inl ⟨.service .limitExceeded, ?_, ?_⟩
    · rw [headerOf, htake, hnone]
      exact if_pos (by rw [List.length_append]; omega)
    · rw [readUntil, if_neg hmissing, dif_pos hfull]
  | case3 raw p hmissing hroom piece hend =>
    have hnone : splitFirst blankLine raw = none := by simpa using hmissing
    have hstream : p.stream = [] := stream_of_recv (by omega) hend
    refine .inl ⟨.os "premature HTTP header EOF", ?_, ?_⟩
    · rw [headerOf, hstream, List.append_nil, List.take_of_length_le hraw, hnone]
      exact if_neg hroom
    · rw [readUntil, if_neg hmissing, dif_neg hroom]
      exact dif_pos hend
  | case4 raw p hmissing hroom piece hpiece ih =>
    have hread := length_recv_le p (min 1024 (maximum - raw.length))
    have hwhole : (raw ++ piece) ++ (p.recv (min 1024 (maximum - raw.length))).2.stream =
        raw ++ p.stream := by
      rw [List.append_assoc, recv_append]
    have hstep : readUntil maximum raw p =
        readUntil maximum (raw ++ piece) (p.recv (min 1024 (maximum - raw.length))).2 := by
      rw [readUntil, if_neg hmissing, dif_neg hroom]
      exact dif_neg hpiece
    rw [hstep, ← hwhole]
    apply ih
    show (raw ++ (p.recv (min 1024 (maximum - raw.length))).1).length ≤ maximum
    rw [List.length_append]
    omega

/-- The loop of a body fails when the stream is too short, or it takes exactly its size. -/
theorem readSized_spec {size : ℕ} (raw : Bytes) (p : Peer) (hraw : raw.length ≤ size) :
    ((raw ++ p.stream).length < size ∧
      readSized size raw p = .error (.os "premature HTTP body EOF")) ∨
    (size ≤ (raw ++ p.stream).length ∧ ∃ p', readSized size raw p = .ok ((raw ++ p.stream).take size, p')) := by
  induction raw, p using readSized.induct size with
  | case1 raw p hfull =>
    refine .inr ⟨by rw [List.length_append]; omega, p, ?_⟩
    rw [readSized, dif_pos hfull, List.take_append_of_le_length hfull, List.take_of_length_le hraw]
  | case2 raw p hroom piece hend =>
    have hstream : p.stream = [] := stream_of_recv (by omega) hend
    refine .inl ⟨by rw [hstream, List.append_nil]; omega, ?_⟩
    rw [readSized, dif_neg hroom]
    exact dif_pos hend
  | case3 raw p hroom piece hpiece ih =>
    have hread := length_recv_le p (min 65536 (size - raw.length))
    have hwhole : (raw ++ piece) ++ (p.recv (min 65536 (size - raw.length))).2.stream =
        raw ++ p.stream := by
      rw [List.append_assoc, recv_append]
    have hstep : readSized size raw p =
        readSized size (raw ++ piece) (p.recv (min 65536 (size - raw.length))).2 := by
      rw [readSized, dif_neg hroom]
      exact dif_neg hpiece
    rw [hstep, ← hwhole]
    apply ih
    show (raw ++ (p.recv (min 65536 (size - raw.length))).1).length ≤ size
    rw [List.length_append]
    omega

/-- `read_body` takes the first bytes after the blank line, those of the tail among them. -/
theorem readBody_spec (p : Peer) (tail : Bytes) (size : ℕ) :
    ((tail ++ p.stream).length < size ∧
      readBody p tail size = .error (.os "premature HTTP body EOF")) ∨
    (size ≤ (tail ++ p.stream).length ∧ ∃ p', readBody p tail size = .ok ((tail ++ p.stream).take size, p')) := by
  have hloop := @readSized_spec size (tail.take size) p (by rw [List.length_take]; omega)
  by_cases hlong : size ≤ tail.length
  · have hraw : (tail.take size).length = size := by rw [List.length_take, min_eq_left hlong]
    have htake : (tail.take size ++ p.stream).take size = (tail ++ p.stream).take size := by
      rw [List.take_append_of_le_length hraw.ge, List.take_append_of_le_length hlong,
        List.take_take, min_self]
    obtain ⟨hshort, _⟩ | ⟨_, p', hread⟩ := hloop
    · rw [List.length_append, hraw] at hshort
      omega
    · refine .inr ⟨by rw [List.length_append]; omega, p', ?_⟩
      rw [readBody, hread, htake]
  · rw [List.take_of_length_le (by omega)] at hloop
    rw [readBody, List.take_of_length_le (by omega)]
    exact hloop

/-- `read_headers` finds the header of the stream, and its tail and what is still to come are together
what follows the blank line. -/
theorem readHeaders_spec (l : HeaderLimits) (p : Peer) :
    (∃ e, (headerOf l.maximum p.stream >>= parseHeader l) = .error e ∧ readHeaders l p = .error e) ∨
    ∃ header parsed tail p', headerOf l.maximum p.stream = .ok header ∧
      parseHeader l header = .ok parsed ∧ readHeaders l p = .ok (parsed, tail, p') ∧
      p.stream = header ++ (blankLine ++ (tail ++ p'.stream)) ∧
      header.length + blankLine.length ≤ l.maximum := by
  have hloop := readUntil_spec [] p (Nat.zero_le l.maximum)
  rw [List.nil_append] at hloop
  obtain ⟨e, hheader, hread⟩ | ⟨raw, p', header, tail, hheader, hread, hsplit, hwhole, hlength⟩ := hloop
  · refine .inl ⟨e, ?_, ?_⟩
    · rw [hheader]
      rfl
    · rw [readHeaders, hread]
      rfl
  · have hraw := Separator.eq_of_splitFirst hsplit
    cases hparse : parseHeader l header with
    | error e =>
      refine .inl ⟨e, ?_, ?_⟩
      · rw [hheader]
        exact hparse
      · simp only [readHeaders, hread, ok_bind, hsplit, Option.getD_some, hparse]
        rfl
    | ok parsed =>
      refine .inr ⟨header, parsed, tail, p', hheader, hparse, ?_, ?_, ?_⟩
      · simp only [readHeaders, hread, ok_bind, hsplit, Option.getD_some, hparse]
      · rw [← hwhole, hraw]
        simp only [List.append_assoc]
      · rw [hraw, List.length_append, List.length_append] at hlength
        omega

/-! ## Framing -/

/-- What a stream says, whatever its pieces. -/
def framed (l : HeaderLimits) (maximum : ℕ) (stream : Bytes) :
    Except FramingError ((String × Headers) × Bytes) := do
  let header ← headerOf l.maximum stream
  let parsed ← parseHeader l header
  let size ← contentLength parsed.2 maximum
  let rest := stream.drop (header.length + blankLine.length)
  if rest.length < size then .error (.os "premature HTTP body EOF") else .ok (parsed, rest.take size)

theorem receiveFrame_eq (l : HeaderLimits) (maximum : ℕ) (p : Peer) :
    receiveFrame l maximum p = framed l maximum p.stream := by
  obtain ⟨e, hheader, hread⟩ | ⟨header, parsed, tail, p', hheader, hparse, hread, hwhole, _⟩ :=
    readHeaders_spec l p
  · have hframed : framed l maximum p.stream = (headerOf l.maximum p.stream >>= parseHeader l) >>=
        fun parsed => framed l maximum p.stream := by
      rw [hheader]
      cases hfound : headerOf l.maximum p.stream with
      | error e' =>
        rw [hfound] at hheader
        have he : e' = e := Except.error.inj hheader
        simp only [framed, hfound, he]
        rfl
      | ok header =>
        rw [hfound] at hheader
        have hparse : parseHeader l header = .error e := hheader
        simp only [framed, hfound, ok_bind, hparse]
        rfl
    rw [hframed, hheader, receiveFrame, hread]
    rfl
  · have hrest : p.stream.drop (header.length + blankLine.length) = tail ++ p'.stream := by
      rw [hwhole, ← List.append_assoc, ← List.length_append, List.drop_left]
    simp only [receiveFrame, hread, framed, hheader, hparse, ok_bind, hrest]
    cases contentLength parsed.2 maximum with
    | error e => rfl
    | ok size =>
      simp only [ok_bind]
      obtain ⟨hshort, hbody⟩ | ⟨hlong, p'', hbody⟩ := readBody_spec p' tail size
      · rw [hbody, if_pos hshort]
        rfl
      · rw [hbody, if_neg (by omega)]
        rfl

/-- **Framing does not depend on segmentation.** However the stream is cut into pieces,
* the headers and the body, or the rejection, are the same;
* so are the headers by themselves, and they are admitted only if their blank line ends within the
  configured bytes;
* the tail and what is still to come are what follows the blank line, and a body of any size is its
  first bytes, or a rejection if it has not as many. -/
theorem framing_independent (l : HeaderLimits) (stream : Bytes) (cuts cuts' : ℕ → ℕ) :
    (∀ maximum, receiveFrame l maximum ⟨stream, cuts⟩ = receiveFrame l maximum ⟨stream, cuts'⟩) ∧
    (readHeaders l ⟨stream, cuts⟩).map Prod.fst = (readHeaders l ⟨stream, cuts'⟩).map Prod.fst ∧
    ∀ parsed tail p, readHeaders l ⟨stream, cuts⟩ = .ok (parsed, tail, p) →
      ∃ header, stream = header ++ (blankLine ++ (tail ++ p.stream)) ∧
        header.length + blankLine.length ≤ l.maximum ∧ headerOf l.maximum stream = .ok header ∧
        ∀ size,
          (size ≤ (tail ++ p.stream).length →
            ∃ p', readBody p tail size = .ok ((tail ++ p.stream).take size, p')) ∧
          ((tail ++ p.stream).length < size →
            readBody p tail size = .error (.os "premature HTTP body EOF")) := by
  refine ⟨?_, ?_, ?_⟩
  · intro maximum
    rw [receiveFrame_eq, receiveFrame_eq]
  · obtain ⟨e, hheader, hread⟩ | ⟨header, parsed, tail, p, hheader, hparse, hread, _⟩ :=
      readHeaders_spec l ⟨stream, cuts⟩
    · obtain ⟨e', hheader', hread'⟩ | ⟨header', parsed', _, _, hheader', hparse', _⟩ :=
        readHeaders_spec l ⟨stream, cuts'⟩
      · rw [hread, hread', Except.error.inj (hheader.symm.trans hheader')]
      · rw [hheader', ok_bind, hparse'] at hheader
        simp at hheader
    · obtain ⟨e', hheader', _⟩ | ⟨header', parsed', _, _, hheader', hparse', hread', _⟩ :=
        readHeaders_spec l ⟨stream, cuts'⟩
      · rw [hheader, ok_bind, hparse] at hheader'
        simp at hheader'
      · obtain rfl := Except.ok.inj (hheader.symm.trans hheader')
        obtain rfl := Except.ok.inj (hparse.symm.trans hparse')
        rw [hread, hread']
        rfl
  · intro parsed tail p hread
    obtain ⟨e, _, hfailed⟩ | ⟨header, parsed', tail', p', hheader, _, hread', hwhole, hwithin⟩ :=
      readHeaders_spec l ⟨stream, cuts⟩
    · rw [hread] at hfailed
      simp at hfailed
    · obtain ⟨rfl, rfl, rfl⟩ : parsed = parsed' ∧ tail = tail' ∧ p = p' := by
        simpa using Except.ok.inj (hread.symm.trans hread')
      refine ⟨header, hwhole, hwithin, hheader, fun size => ⟨fun hlong => ?_, fun hshort => ?_⟩⟩
      · obtain ⟨hshort, _⟩ | ⟨_, hbody⟩ := readBody_spec p tail size
        · omega
        · exact hbody
      · obtain ⟨_, hbody⟩ | ⟨hlong, _⟩ := readBody_spec p tail size
        · exact hbody
        · omega

end EvidenceBraid
