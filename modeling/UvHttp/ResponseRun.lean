/-
# Runs of operations on one response

What a list of operations does to a response and sends to its client, one lemma
per fact a later proof needs: the bytes of a head line by line, the single string
a writing operation sends, and the response after a run.
-/
import UvHttp.Response
import UvHttp.HttpWire

variable {κ : Type}

/-! ## The head line by line -/

/-- One header line. -/
def fieldLine (p : OString × OString) : OString := p.1 ++ lit ": " ++ p.2

/-- The header lines, last key first, as the fold leaves them. -/
def bindingLines (headers : StringMap OString) : List OString :=
  headers.toList.reverse.flatMap fun p => (fieldLine p).splitOn lf

/-- The lines that the content type occupies. -/
def contentTypeLines (res : ResT κ) : List OString :=
  (lit "Content-type: " ++ res.contentType).splitOn lf

def statusLine (res : ResT κ) : OString :=
  lit "HTTP/1.1 " ++ stringOfInt res.statusCode ++ lit " " ++ getStatusCodeName res.statusCode

def dateLine (now : Tm) : OString := lit "Date: " ++ dateToStr now

/-- The content type stands on a field line. -/
theorem contentTypeLine_eq (s : OString) :
    lit "Content-type: " ++ s = fieldLine (lit "Content-type", s) := by
  have hname : lit "Content-type: " = lit "Content-type" ++ lit ": " := by decide
  rw [hname, fieldLine]

/-- So does the date. -/
theorem dateLine_eq (now : Tm) : dateLine now = fieldLine (lit "Date", dateToStr now) := by
  have hname : lit "Date: " = lit "Date" ++ lit ": " := by decide
  rw [dateLine, hname, fieldLine]

/-- All lines of a head.  A line feed in a header or in the content type makes
lines of its own. -/
def linesOfHead (now : Tm) (res : ResT κ) : List OString :=
  statusLine res :: (contentTypeLines res ++ dateLine now :: bindingLines res.headers)

/-- The header lines are the lines of the bindings and an empty one. -/
theorem headerLines_eq_unlines (headers : StringMap OString) :
    headerLines headers = unlines (bindingLines headers) ++ [lf] := by
  unfold headerLines bindingLines
  rw [Std.ExtTreeMap.foldl_eq_foldl_toList]
  induction headers.toList using List.reverseRecOn with
  | nil => rfl
  | append_singleton ps p ih =>
    rw [List.foldl_append, ih, List.reverse_append, List.reverse_singleton, List.flatMap_append,
      List.flatMap_singleton, unlines_append, unlines_splitOn]
    simp [fieldLine]

/-- The head is its lines and an empty one. -/
theorem head_eq_unlines (now : Tm) (res : ResT κ) :
    head now res = unlines (linesOfHead now res) ++ [lf] := by
  unfold head linesOfHead
  rw [headerLines_eq_unlines, unlines_cons, unlines_append, unlines_cons, contentTypeLines,
    unlines_splitOn]
  simp [statusLine, dateLine]

/-- No name of a day has a line feed in it. -/
theorem lf_notMem_weekdays (i : Fin 7) : lf ∉ weekdays i := by revert i; decide

/-- No name of a month has a line feed in it. -/
theorem lf_notMem_months (i : Fin 12) : lf ∉ months i := by revert i; decide

/-- The line of the date is one line. -/
theorem lf_notMem_dateLine (now : Tm) : lf ∉ dateLine now := by
  have hcomma : lf ∉ lit ", " := by decide
  have hspace : lf ∉ lit " " := by decide
  have hcolon : lf ∉ lit ":" := by decide
  have hgmt : lf ∉ lit " GMT" := by decide
  have hdate : lf ∉ lit "Date: " := by decide
  simp only [dateLine, dateToStr, List.mem_append, not_or]
  simp only [lf_notMem_weekdays, lf_notMem_months, lf_notMem_stringOfInt, lf_notMem_twoDigits,
    hcomma, hspace, hcolon, hgmt, hdate, not_false_eq_true, and_self]

/-- The status line is one line; its code is printed in digits. -/
theorem lf_notMem_statusLine (res : ResT κ) : lf ∉ statusLine res := by
  have hproto : lf ∉ lit "HTTP/1.1 " := by decide
  have hspace : lf ∉ lit " " := by decide
  have hname : lf ∉ getStatusCodeName res.statusCode := by
    unfold getStatusCodeName
    split_ifs <;> decide
  simp only [statusLine, List.mem_append, not_or]
  exact ⟨⟨⟨hproto, lf_notMem_stringOfInt _⟩, hspace⟩, hname⟩

/-- Every line of the head is one line. -/
theorem lf_notMem_linesOfHead (now : Tm) (res : ResT κ) : ∀ l ∈ linesOfHead now res, lf ∉ l := by
  intro l hl
  rw [linesOfHead, List.mem_cons, List.mem_append, List.mem_cons] at hl
  rcases hl with rfl | hl | rfl | hl
  · exact lf_notMem_statusLine res
  · exact lf_notMem_of_mem_splitOn hl
  · exact lf_notMem_dateLine now
  · rw [bindingLines, List.mem_flatMap] at hl
    obtain ⟨p, -, hp⟩ := hl
    exact lf_notMem_of_mem_splitOn hp

/-- A line of two bytes or more is not blank. -/
theorem isBlank_eq_false {l : OString} (hl : 2 ≤ l.length) : isBlank l = false := by
  unfold isBlank stripCr
  rw [decide_eq_false_iff_not]
  split_ifs with hcr
  · intro hnil
    have := congrArg List.length hnil
    rw [List.length_dropLast, List.length_nil] at this
    omega
  · rintro rfl
    simp at hl

/-- The status line does not end the head. -/
theorem isBlank_statusLine (res : ResT κ) : isBlank (statusLine res) = false := by
  apply isBlank_eq_false
  have : (lit "HTTP/1.1 ").length = 9 := by decide
  simp only [statusLine, List.length_append]
  omega

/-- The line of the date does not end the head. -/
theorem isBlank_dateLine (now : Tm) : isBlank (dateLine now) = false := by
  apply isBlank_eq_false
  have : (lit "Date: ").length = 6 := by decide
  simp only [dateLine, List.length_append]
  omega

/-! ## One operation -/

/-- The string that `write` puts in front of its message. -/
def headerStr (now : Tm) (res : ResT κ) : OString :=
  if res.wroteHeaders then [] else head now res

/-- `write` in one equation: it marks the head as written and sends one string. -/
theorem write_eq (now : Tm) (res : ResT κ) (msg : OString) :
    write now res msg = ({ res with wroteHeaders := true },
      [.uvWrite (chunkedMsg res (headerStr now res) msg)]) := by
  unfold write headerStr
  cases hw : res.wroteHeaders with
  | false => rfl
  | true =>
    have hres : { res with wroteHeaders := true } = res := by rw [← hw]
    simp [hres]

/-- The end of a response is an empty message and a shutdown. -/
theorem endConnection_eq (now : Tm) (res : ResT κ) :
    endConnection now res = ({ res with wroteHeaders := true },
      [.uvWrite (chunkedMsg res (headerStr now res) []), .uvShutdown]) := by
  rw [endConnection, write_eq]
  rfl

/-- The message that an operation sends, if it sends one. -/
def Op.message : Op κ → Option OString
  | .write msg => some msg
  | .endConnection => some []
  | _ => none

/-- The strings among the calls. -/
def written (calls : List UvCall) : List OString :=
  calls.filterMap fun
    | .uvWrite s => some s
    | .uvShutdown => none

/-- The bytes among the calls, in the order of sending. -/
def sent (calls : List UvCall) : OString := (written calls).flatten

/-- What is written by calls one after the other. -/
@[simp] theorem written_append (cs ds : List UvCall) :
    written (cs ++ ds) = written cs ++ written ds := List.filterMap_append

/-- What is sent by calls one after the other. -/
@[simp] theorem sent_append (cs ds : List UvCall) : sent (cs ++ ds) = sent cs ++ sent ds := by
  simp [sent]

/-- An operation with a message writes it, behind the head if it is the first. -/
theorem applyOp_of_message (now : Tm) (res : ResT κ) {o : Op κ} {msg : OString}
    (ho : o.message = some msg) :
    (applyOp now res o).1 = { res with wroteHeaders := true } ∧
      written (applyOp now res o).2 = [chunkedMsg res (headerStr now res) msg] := by
  cases o <;> simp only [Op.message, Option.some.injEq, reduceCtorEq] at ho
  · subst ho
    rw [applyOp, write_eq]
    exact ⟨rfl, rfl⟩
  · subst ho
    rw [applyOp, endConnection_eq]
    exact ⟨rfl, rfl⟩

/-- Other operations make no calls. -/
theorem calls_of_message_eq_none (now : Tm) (res : ResT κ) {o : Op κ} (ho : o.message = none) :
    (applyOp now res o).2 = [] := by
  cases o <;> first | rfl | simp [Op.message] at ho

/-! ## Chunks on the wire -/

/-- `chunk` frames a message as the chunked format does. -/
theorem chunk_eq_frame (msg : OString) : chunk msg = chunkFormat.frame msg := rfl

/-- A message followed by `CRLF` never begins with two line feeds and continues
with itself. -/
theorem ne_append_crlf (msg : OString) : lf :: lf :: msg ≠ msg ++ crlf := fun h => by
  have hcount := congrArg (List.count cr) h
  have hlf : (lf == cr) = false := by decide
  rw [List.count_append, List.count_cons, List.count_cons, hlf] at hcount
  have hcrlf : List.count cr crlf = 1 := by decide
  rw [hcrlf] at hcount
  simp at hcount

/-- Text that ends in an empty line, followed by a message, does not end in that
message's chunk. -/
theorem not_chunk_suffix_of_blank_line (text msg : OString) :
    ¬ chunk msg <:+ (text ++ [lf, lf]) ++ msg := by
  rintro ⟨t, ht⟩
  unfold chunk at ht
  -- the two strings end in the same number of bytes, so what stands in front of
  -- the last `msg.length` bytes is the same on both sides
  have hlen : (t ++ (upperHex msg.length ++ crlf) ++ (msg ++ crlf).take 2).length
      = (text ++ [lf, lf]).length := by
    have := congrArg List.length ht
    simp only [List.length_append, List.length_take] at this ⊢
    have h2 : crlf.length = 2 := rfl
    omega
  have hre : (t ++ (upperHex msg.length ++ crlf) ++ (msg ++ crlf).take 2)
      ++ (msg ++ crlf).drop 2 = (text ++ [lf, lf]) ++ msg := by
    rw [List.append_assoc _ (List.take 2 (msg ++ crlf)), List.take_append_drop, ← ht]
    simp only [List.append_assoc]
  obtain ⟨hfront, hback⟩ := List.append_inj hre hlen
  have htwo : (msg ++ crlf).take 2 = [lf, lf] := by
    refine (List.append_inj' hfront ?_).2
    have h2 : crlf.length = 2 := rfl
    simp only [List.length_take, List.length_append, List.length_cons, List.length_nil]
    omega
  have hmsg : msg ++ crlf = lf :: lf :: msg := by
    conv_lhs => rw [← List.take_append_drop 2 (msg ++ crlf), htwo, hback]
    rfl
  exact ne_append_crlf msg hmsg.symm

/-- **A write is framed as a chunk exactly when the switch takes the chunked
branch.**  The string sent ends in the chunk of the message only then. -/
theorem chunk_suffix_chunkedMsg_iff (now : Tm) (res : ResT κ) (msg : OString) :
    chunk msg <:+ chunkedMsg res (headerStr now res) msg ↔ isChunked res = true := by
  unfold chunkedMsg
  by_cases hc : isChunked res
  · rw [if_pos hc]
    exact ⟨fun _ => hc, fun _ => List.suffix_append _ _⟩
  · rw [if_neg hc]
    refine ⟨fun h => ?_, fun h => absurd h hc⟩
    unfold headerStr at h
    split_ifs at h with hw
    · have := h.length_le
      rw [List.nil_append, chunk, List.length_append, List.length_append] at this
      have h2 : crlf.length = 2 := rfl
      omega
    · obtain ⟨text, htext⟩ : ∃ text, head now res = text ++ [lf, lf] := by
        rw [head_eq_unlines]
        have hne : linesOfHead now res ≠ [] := by simp [linesOfHead]
        rw [← List.dropLast_append_getLast hne, unlines_append]
        exact ⟨unlines (linesOfHead now res).dropLast ++ (linesOfHead now res).getLast hne,
          by simp⟩
      rw [htext] at h
      exact absurd h (not_chunk_suffix_of_blank_line text msg)

/-! ## Runs -/

/-- The response after a list of operations. -/
def afterOps (now : Tm) (res : ResT κ) (ops : List (Op κ)) : ResT κ :=
  ops.foldl (fun r o => (applyOp now r o).1) res

/-- The calls that a list of operations makes. -/
def callsOf (now : Tm) : ResT κ → List (Op κ) → List UvCall
  | _, [] => []
  | res, o :: ops => (applyOp now res o).2 ++ callsOf now (applyOp now res o).1 ops

@[simp] theorem afterOps_nil (now : Tm) (res : ResT κ) : afterOps now res [] = res := rfl

@[simp] theorem afterOps_cons (now : Tm) (res : ResT κ) (o : Op κ) (ops : List (Op κ)) :
    afterOps now res (o :: ops) = afterOps now (applyOp now res o).1 ops := rfl

/-- The response after two lists of operations. -/
theorem afterOps_append (now : Tm) (res : ResT κ) (ops ops' : List (Op κ)) :
    afterOps now res (ops ++ ops') = afterOps now (afterOps now res ops) ops' :=
  List.foldl_append

@[simp] theorem callsOf_nil (now : Tm) (res : ResT κ) : callsOf now res [] = [] := rfl

@[simp] theorem callsOf_cons (now : Tm) (res : ResT κ) (o : Op κ) (ops : List (Op κ)) :
    callsOf now res (o :: ops) = (applyOp now res o).2 ++ callsOf now (applyOp now res o).1 ops :=
  rfl

/-- The calls of two lists of operations. -/
theorem callsOf_append (now : Tm) (res : ResT κ) (ops ops' : List (Op κ)) :
    callsOf now res (ops ++ ops')
      = callsOf now res ops ++ callsOf now (afterOps now res ops) ops' := by
  induction ops generalizing res with
  | nil => rfl
  | cons o ops ih => simp [ih]
