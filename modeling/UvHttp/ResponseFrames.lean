/-
# The frames of a response

As long as nothing rebinds `Transfer-Encoding`, a response is one head and then a
frame for each message, the last one empty.  A reader of frames gets the messages
back, whatever bytes they are made of.
-/
import UvHttp.AnnouncedFraming

variable {κ : Type}

/-! ## Size lines -/

/-- A hexadecimal size and `CRLF`, nothing between them. -/
def readSizeLine (s : OString) : Option (ℕ × OString) :=
  match hexadecimal.read s with
  | some (n, 13 :: 10 :: rest) => some (n, rest)
  | _ => none

/-- The frames that `write` sends, read without chunk extensions. -/
def sizeLineFormat : FrameFormat UInt8 where
  size := fun n => upperHex n ++ crlf
  readSize := readSizeLine
  closing := crlf
  size_ne_nil := chunkFormat.size_ne_nil
  readSize_size := fun n rest => by
    have hread : hexadecimal.read (upperHex n ++ (crlf ++ rest)) = some (n, crlf ++ rest) := by
      refine hexadecimal.read_print_append n _ ?_
      intro c hc
      obtain rfl : cr = c := by simpa [crlf] using hc
      exact cr_not_hex
    rw [List.append_assoc, readSizeLine, hread]
    rfl

/-- `chunk` frames a message behind a line with its size. -/
theorem chunk_eq_sizeLineFrame : (chunk : OString → OString) = sizeLineFormat.frame := rfl

/-! ## Runs that keep the binding -/

/-- The operation is one of the interface and does not set the exact key
`Transfer-Encoding`. -/
def Op.keepsTransferEncoding : Op κ → Bool
  | .setHeader s _ => s ≠ transferEncoding
  | o => o.isApi

/-- The messages of a run, in order. -/
def messages (ops : List (Op κ)) : List OString := ops.filterMap Op.message

/-- An operation that keeps the transfer encoding does not assign it. -/
theorem assignsHeader_of_keeps {o : Op κ} (ho : o.keepsTransferEncoding = true) :
    o.assignsHeader transferEncoding = none := by
  cases o with
  | setHeader s v =>
    rw [Op.assignsHeader, if_neg]
    exact of_decide_eq_true ho
  | headers m => cases ho
  | _ => rfl

/-- An operation that keeps the transfer encoding is one of the interface. -/
theorem isApi_of_keeps {o : Op κ} (ho : o.keepsTransferEncoding = true) : o.isApi = true := by
  cases o with
  | setHeader s v => rfl
  | _ => exact ho

/-- A chunked response stays chunked. -/
theorem isChunked_applyOp (now : Tm) {res : ResT κ} (hc : isChunked res = true) {o : Op κ}
    (ho : o.keepsTransferEncoding = true) : isChunked (applyOp now res o).1 = true := by
  have hget :
      (applyOp now res o).1.headers[transferEncoding]? = res.headers[transferEncoding]? := by
    rw [applyOp_fst, Op.getElem?_editHeaders, assignsHeader_of_keeps ho, Option.getD_none]
  unfold isChunked at hc ⊢
  rw [hget]
  exact hc

/-- Only a message puts up the flag. -/
theorem wroteHeaders_applyOp (now : Tm) (res : ResT κ) {o : Op κ} (ho : o.isApi = true) :
    (applyOp now res o).1.wroteHeaders = (o.message.isSome || res.wroteHeaders) := by
  rw [applyOp_fst]
  cases o with
  | headers m => cases ho
  | wroteHeaders b => cases ho
  | _ => rfl

/-- Behind the head there are only frames. -/
theorem written_of_wrote (now : Tm) {res : ResT κ} (hc : isChunked res = true)
    (hw : res.wroteHeaders = true) (ops : List (Op κ))
    (hops : ∀ o ∈ ops, o.keepsTransferEncoding = true) :
    written (callsOf now res ops) = (messages ops).map chunk := by
  induction ops generalizing res with
  | nil => rfl
  | cons o ops ih =>
    have ho := hops o List.mem_cons_self
    have hnext := ih (isChunked_applyOp now hc ho)
      (by rw [wroteHeaders_applyOp now res (isApi_of_keeps ho), hw, Bool.or_true])
      fun p hp => hops p (List.mem_cons_of_mem o hp)
    rw [callsOf_cons, written_append, hnext]
    cases hmsg : o.message with
    | none =>
      rw [calls_of_message_eq_none now res hmsg, messages, messages, List.filterMap_cons_none hmsg]
      rfl
    | some msg =>
      rw [(applyOp_of_message now res hmsg).2, headerStr_of_wrote now hw, chunkedMsg, if_pos hc,
        messages, messages, List.filterMap_cons_some hmsg]
      rfl

/-- **The strings of a run**: the head goes out with the first message, as the
fields are then, and every message is a frame. -/
theorem written_of_new (now : Tm) {res : ResT κ} (hc : isChunked res = true)
    (hnew : res.wroteHeaders = false) (ops : List (Op κ))
    (hops : ∀ o ∈ ops, o.keepsTransferEncoding = true) {msg : OString} {msgs : List OString}
    (hmsgs : messages ops = msg :: msgs) :
    written (callsOf now res ops)
      = (head now (afterOps now res (beforeFirstMessage ops)) ++ chunk msg) :: msgs.map chunk := by
  induction ops generalizing res with
  | nil => cases hmsgs
  | cons o ops ih =>
    have ho := hops o List.mem_cons_self
    have hrest : ∀ p ∈ ops, p.keepsTransferEncoding = true := fun p hp =>
      hops p (List.mem_cons_of_mem o hp)
    have hflag := wroteHeaders_applyOp now res (isApi_of_keeps ho)
    rw [callsOf_cons, written_append]
    cases hm : o.message with
    | none =>
      -- nothing is sent yet
      rw [messages, List.filterMap_cons_none hm] at hmsgs
      rw [hm, Option.isSome_none, Bool.false_or] at hflag
      have hskip : beforeFirstMessage (o :: ops) = o :: beforeFirstMessage ops := by
        rw [beforeFirstMessage, List.takeWhile_cons_of_pos (by rw [hm]; rfl)]
        rfl
      rw [calls_of_message_eq_none now res hm, hskip, afterOps_cons,
        ih (isChunked_applyOp now hc ho) (hflag.trans hnew) hrest hmsgs]
      rfl
    | some m =>
      rw [messages, List.filterMap_cons_some hm] at hmsgs
      obtain ⟨rfl, rfl⟩ := List.cons.inj hmsgs
      rw [hm, Option.isSome_some, Bool.true_or] at hflag
      have hstop : beforeFirstMessage (o :: ops) = [] := by
        rw [beforeFirstMessage, List.takeWhile_cons_of_neg (by simp [hm])]
      rw [(applyOp_of_message now res hm).2, headerStr_of_not_wrote now hnew, chunkedMsg, if_pos hc,
        written_of_wrote now (isChunked_applyOp now hc ho) hflag ops hrest, hstop, afterOps_nil]
      rfl

/-! ## The stream of a whole response -/

/-- A run of a handler, closed by `endConnection`. -/
def ended (ops : List (Op κ)) : List (Op κ) := ops ++ [.endConnection]

/-- The fields as they are when the first write of the run begins. -/
def atFirstWrite (now : Tm) (client : ClientT) (ops : List (Op κ)) : ResT κ :=
  afterOps now (initialRes client) (beforeFirstMessage (ended ops))

/-- The end of a response is one more message, which is empty. -/
theorem messages_ended (ops : List (Op κ)) : messages (ended ops) = messages ops ++ [[]] := by
  rw [messages, ended, List.filterMap_append]
  rfl

/-- What is written for a response: the first message behind the head, and the others. -/
theorem written_ended (now : Tm) (client : ClientT) (ops : List (Op κ))
    (hops : ∀ o ∈ ops, o.keepsTransferEncoding = true) {msg : OString} {msgs : List OString}
    (hmsgs : messages ops ++ [[]] = msg :: msgs) :
    written (callsOf now (initialRes client) (ended ops))
      = (head now (atFirstWrite now client ops) ++ chunk msg) :: msgs.map chunk := by
  have hall : ∀ o ∈ ended ops, o.keepsTransferEncoding = true := by
    intro o ho
    rw [ended, List.mem_append, List.mem_singleton] at ho
    rcases ho with ho | rfl
    · exact hops o ho
    · rfl
  refine written_of_new now (isChunked_of_binding (initialRes_transferEncoding client)) rfl _ hall
    ?_
  rw [messages_ended, hmsgs]

/-- On the wire it is the head and a stream of frames. -/
theorem sent_ended (now : Tm) (client : ClientT) (ops : List (Op κ))
    (hops : ∀ o ∈ ops, o.keepsTransferEncoding = true) :
    sent (callsOf now (initialRes client) (ended ops))
      = head now (atFirstWrite now client ops) ++ sizeLineFormat.stream (messages ops ++ [[]]) := by
  obtain ⟨msg, msgs, hmsgs⟩ :=
    List.exists_cons_of_ne_nil (List.append_ne_nil_of_right_ne_nil (messages ops)
      (List.cons_ne_nil ([] : OString) []))
  rw [sent, written_ended now client ops hops hmsgs, hmsgs, List.flatten_cons, List.append_assoc,
    chunk_eq_sizeLineFrame, FrameFormat.stream, List.flatMap_cons, List.flatMap_def]

/-- **The messages of a response can be read off its stream.**  The stream is one
head, sent with the first write and made of the fields as they are then, followed
by frames; reading them to the end gives the messages and then an empty one.  From
the same fields and clock at the first write, the same stream means the same
messages. -/
theorem response_frames (now : Tm) (client : ClientT) (ops : List (Op κ))
    (hops : ∀ o ∈ ops, o.keepsTransferEncoding = true) :
    (∃ msg msgs, messages ops ++ [[]] = msg :: msgs ∧
      written (callsOf now (initialRes client) (ended ops))
        = (head now (atFirstWrite now client ops) ++ chunk msg) :: msgs.map chunk) ∧
    (∃ frames, sent (callsOf now (initialRes client) (ended ops))
        = head now (atFirstWrite now client ops) ++ frames ∧
      sizeLineFormat.readAll frames = some (messages ops ++ [[]])) ∧
    ∀ (client' : ClientT) (ops' : List (Op κ)),
      (∀ o ∈ ops', o.keepsTransferEncoding = true) →
      atFirstWrite now client' ops' = atFirstWrite now client ops →
      sent (callsOf now (initialRes client') (ended ops'))
        = sent (callsOf now (initialRes client) (ended ops)) →
      messages ops' = messages ops := by
  refine ⟨?_, ⟨_, sent_ended now client ops hops, sizeLineFormat.readAll_stream _⟩, ?_⟩
  · obtain ⟨msg, msgs, hmsgs⟩ :=
      List.exists_cons_of_ne_nil (List.append_ne_nil_of_right_ne_nil (messages ops)
        (List.cons_ne_nil ([] : OString) []))
    exact ⟨msg, msgs, hmsgs, written_ended now client ops hops hmsgs⟩
  · intro client' ops' hops' hstate hsent
    rw [sent_ended now client ops hops, sent_ended now client' ops' hops', hstate] at hsent
    exact List.append_cancel_right
      (sizeLineFormat.stream_injective (List.append_cancel_left hsent))

/-- Messages that look like frames, and an empty one between them. -/
def framedLookalikes : List (Op Empty) :=
  [.statusCode 404, .setHeader (lit "transfer-encoding") (lit "identity"), .write (lit "3\r\nabc"),
    .write [], .contentType (lit "text/html"), .write (lit "\r\n0\r\n\r\n")]

theorem response_frames_lookalikes :
    ∃ frames, sent (callsOf epoch (initialRes 0) (ended framedLookalikes))
        = head epoch (atFirstWrite epoch 0 framedLookalikes) ++ frames ∧
      sizeLineFormat.readAll frames
        = some [lit "3\r\nabc", [], lit "\r\n0\r\n\r\n", []] :=
  (response_frames epoch 0 framedLookalikes (by decide)).2.1
