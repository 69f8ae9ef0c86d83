/-
# The body of a response

A handler writes its messages and ends the connection.  The client takes the head
off the stream and decodes the chunked body; the question is when it gets the
messages back.
-/
import UvHttp.ResponseRun

variable {κ : Type}

/-! ## Heads without line breaks in their values -/

/-- No header and no content type breaks its line. -/
structure ResT.WellFormed (res : ResT κ) : Prop where
  contentType_oneLine : lf ∉ res.contentType
  headers_oneLine : ∀ (k v : OString), res.headers[k]? = some v → lf ∉ k ∧ lf ∉ v

/-- A plain content type is one line. -/
theorem contentTypeLines_of_wellFormed {res : ResT κ} (h : res.WellFormed) :
    contentTypeLines res = [lit "Content-type: " ++ res.contentType] := by
  apply List.splitOn_eq_singleton
  rw [List.mem_append, not_or]
  exact ⟨by decide, h.contentType_oneLine⟩

/-- Plain headers are one line each. -/
theorem bindingLines_of_wellFormed {res : ResT κ} (h : res.WellFormed) :
    bindingLines res.headers = res.headers.toList.reverse.map fieldLine := by
  unfold bindingLines
  rw [← List.flatMap_singleton' (List.map fieldLine _), List.flatMap_map]
  refine List.flatMap_congr fun p hp => ?_
  obtain ⟨hk, hv⟩ := h.headers_oneLine p.1 p.2 (StringMap.mem_reverse_toList_iff.mp hp)
  apply List.splitOn_eq_singleton
  simp only [fieldLine, List.mem_append, not_or]
  exact ⟨⟨hk, by decide⟩, hv⟩

/-- A well-formed head has no blank line before its end. -/
theorem isBlank_linesOfHead {res : ResT κ} (h : res.WellFormed) (now : Tm) :
    ∀ l ∈ linesOfHead now res, isBlank l = false := by
  intro l hl
  rw [linesOfHead, contentTypeLines_of_wellFormed h, bindingLines_of_wellFormed h] at hl
  simp only [List.mem_cons, List.mem_append, List.mem_map, List.not_mem_nil, or_false] at hl
  rcases hl with rfl | rfl | rfl | ⟨p, -, rfl⟩
  · exact isBlank_statusLine res
  · apply isBlank_eq_false
    have : (lit "Content-type: ").length = 14 := by decide
    simp only [List.length_append]
    omega
  · exact isBlank_dateLine now
  · apply isBlank_eq_false
    have : (lit ": ").length = 2 := by decide
    simp only [fieldLine, List.length_append]
    omega

/-- The parser takes a well-formed head off the stream, whatever comes next. -/
theorem splitHead_head_append {res : ResT κ} (h : res.WellFormed) (now : Tm) (rest : OString) :
    splitHead (head now res ++ rest) = some ((linesOfHead now res).map stripCr, rest) := by
  rw [head_eq_unlines, List.append_assoc]
  exact splitHead_unlines _ (lf_notMem_linesOfHead now res) (isBlank_linesOfHead h now) rest

/-! ## Decoding the body -/

/-- The operations of a handler that writes its messages and ends. -/
def writeAll (msgs : List OString) : List (Op κ) := msgs.map .write ++ [.endConnection]

/-- There is no second head. -/
theorem headerStr_of_wrote {res : ResT κ} (now : Tm) (h : res.wroteHeaders = true) :
    headerStr now res = [] := if_pos h

/-- The first message comes behind the head. -/
theorem headerStr_of_not_wrote {res : ResT κ} (now : Tm) (h : res.wroteHeaders = false) :
    headerStr now res = head now res := by simp [headerStr, h]

/-- What the first write of a response sends. -/
def firstWrite (now : Tm) (res : ResT κ) (msg : OString) : OString := sent (write now res msg).2

/-- The first write is the head and the message, framed when the response is chunked. -/
theorem firstWrite_eq (now : Tm) {res : ResT κ} (hnew : res.wroteHeaders = false) (msg : OString) :
    firstWrite now res msg
      = head now res ++ if isChunked res then chunk msg else msg := by
  rw [firstWrite, write_eq, headerStr_of_not_wrote now hnew, chunkedMsg]
  split_ifs <;> simp [sent, written]

/-- A chunked response sends its head, if that is still to come, and then one
frame for each message; the end is the frame of the empty message. -/
theorem sent_writeAll (now : Tm) (res : ResT κ) (hc : isChunked res = true)
    (msgs : List OString) :
    sent (callsOf now res (writeAll msgs))
      = headerStr now res ++ chunkFormat.stream (msgs ++ [[]]) := by
  have hone : ∀ (r : ResT κ) (o : Op κ) (m : OString), isChunked r = true →
      o.message = some m → sent (applyOp now r o).2 = headerStr now r ++ chunkFormat.frame m := by
    intro r o m hr ho
    rw [sent, (applyOp_of_message now r ho).2, chunkedMsg, if_pos hr, chunk_eq_frame]
    simp
  induction msgs generalizing res with
  | nil =>
    have := hone res .endConnection [] hc rfl
    simpa [writeAll] using this
  | cons m ms ih =>
    have hnext : (applyOp now res (.write m)).1 = { res with wroteHeaders := true } :=
      (applyOp_of_message now res rfl).1
    have hrest := ih { res with wroteHeaders := true } hc
    rw [headerStr_of_wrote now rfl, List.nil_append] at hrest
    rw [writeAll, List.map_cons, List.cons_append, callsOf_cons, sent_append,
      hone res _ m hc rfl, hnext, ← writeAll, hrest]
    simp

/-- The client reads a head and then a chunked body that is exactly the messages
and that ends where the stream ends. -/
def BodyRoundTrips (now : Tm) (res : ResT κ) (msgs : List OString) : Prop :=
  ∃ lines body, splitHead (sent (callsOf now res (writeAll msgs))) = some (lines, body) ∧
    decodeChunked body = some (msgs.flatten, [])

/-- A reader finds the end of the head. -/
theorem splitHead_sent_writeAll (now : Tm) (res : ResT κ) (hwf : res.WellFormed)
    (hnew : res.wroteHeaders = false) (hc : isChunked res = true) (msgs : List OString) :
    splitHead (sent (callsOf now res (writeAll msgs)))
      = some ((linesOfHead now res).map stripCr, chunkFormat.stream (msgs ++ [[]])) := by
  rw [sent_writeAll now res hc, headerStr_of_not_wrote now hnew, splitHead_head_append hwf]

/-- An empty message is framed as the last chunk: the decoder stops there, and at
least the terminator of `endConnection` is left over. -/
theorem not_bodyRoundTrips_of_empty (now : Tm) (res : ResT κ) (hwf : res.WellFormed)
    (hnew : res.wroteHeaders = false) (hc : isChunked res = true) (msgs : List OString)
    (hempty : [] ∈ msgs) : ¬ BodyRoundTrips now res msgs := by
  rintro ⟨lines, body, hsplit, hdec⟩
  rw [splitHead_sent_writeAll now res hwf hnew hc, Option.some.injEq, Prod.mk.injEq] at hsplit
  obtain ⟨-, rfl⟩ := hsplit
  -- the first empty message splits the list
  obtain ⟨pre, post, rfl, hpre⟩ := List.eq_append_cons_of_mem hempty
  have hne : ∀ m ∈ pre, m ≠ [] := fun m hm h => hpre (h ▸ hm)
  rw [List.append_assoc, List.cons_append, decodeChunked_of_first_empty pre _ hne] at hdec
  have hrest : chunkFormat.stream (post ++ [[]]) = [] := (Prod.mk.inj (Option.some.inj hdec)).2
  rw [FrameFormat.stream_eq_nil_iff] at hrest
  exact absurd hrest (by simp)

/-- A response with that header is chunked. -/
theorem isChunked_of_binding {res : ResT κ}
    (hc : res.headers[transferEncoding]? = some chunked) : isChunked res = true := by
  simp [isChunked, hc]

/-- **The chunked body round-trips exactly when no message is empty.** -/
theorem bodyRoundTrips_iff (now : Tm) (res : ResT κ) (hwf : res.WellFormed)
    (hnew : res.wroteHeaders = false) (hc : res.headers[transferEncoding]? = some chunked)
    (msgs : List OString) :
    BodyRoundTrips now res msgs ↔ ∀ m ∈ msgs, m ≠ [] := by
  have hchunked := isChunked_of_binding hc
  constructor
  · rintro hrt m hm rfl
    exact not_bodyRoundTrips_of_empty now res hwf hnew hchunked msgs hm hrt
  · intro hms
    refine ⟨_, _, splitHead_sent_writeAll now res hwf hnew hchunked msgs, ?_⟩
    rw [decodeChunked_of_first_empty msgs [] hms]
    rfl

/-- The header map of a fresh response. -/
theorem getElem?_initialRes_headers (client : ClientT) (k : OString) :
    (initialRes client : ResT κ).headers[k]?
      = if lit "Connection" = k then some (lit "keep-alive")
        else if transferEncoding = k then some chunked else none := by
  rw [initialRes, StringMap.getElem?_add, StringMap.getElem?_add, Std.ExtTreeMap.getElem?_empty]

/-- The response of `createServer` meets the assumptions. -/
theorem initialRes_wellFormed (client : ClientT) : (initialRes client : ResT κ).WellFormed := by
  have hct : lf ∉ lit "text/plain" := by decide
  refine ⟨hct, fun k v hk => ?_⟩
  rw [getElem?_initialRes_headers] at hk
  split_ifs at hk with hconn hte
  · subst hconn
    cases hk
    decide
  · subst hte
    cases hk
    decide

/-- A response is chunked at first. -/
theorem initialRes_transferEncoding (client : ClientT) :
    (initialRes client : ResT κ).headers[transferEncoding]? = some chunked := by
  rw [getElem?_initialRes_headers, if_neg (by decide), if_pos rfl]

/-- A payload that looks like the end of the body. -/
theorem bodyRoundTrips_fake_terminator :
    BodyRoundTrips epoch (initialRes 0 : ResT Empty) [lit "0\r\n\r\n", lit "A\r\n"] :=
  (bodyRoundTrips_iff epoch _ (initialRes_wellFormed 0) rfl (initialRes_transferEncoding 0) _).mpr
    (by decide)

/-- The static server on an empty file: one empty message, then the end. -/
theorem empty_file_not_bodyRoundTrips :
    (initialRes 0 : ResT Empty).WellFormed ∧
      (initialRes 0 : ResT Empty).headers[transferEncoding]? = some chunked ∧
      ¬ BodyRoundTrips epoch (initialRes 0 : ResT Empty) [[]] :=
  ⟨initialRes_wellFormed 0, initialRes_transferEncoding 0,
    not_bodyRoundTrips_of_empty epoch _ (initialRes_wellFormed 0) rfl
      (isChunked_of_binding (initialRes_transferEncoding 0)) _ List.mem_cons_self⟩
