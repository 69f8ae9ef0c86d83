/-
# What a client reads off a stream

A client takes the head of a response off the stream, decodes the chunked body behind
it, and keeps the rest.  Of the stream of a run it reads the messages before the first
empty one; the others are left over, without a head.
-/
import UvHttp.HeadRoundTrip
import UvHttp.ResponseFrames

variable {κ : Type}

/-- A client reads a response with these fields, in some order, and this body, and has
bytes left. -/
def ClientReads (s : OString) (code : ℤ) (fields : List (OString × OString))
    (body left : OString) : Prop :=
  ∃ parsed, readResponse s = some parsed ∧ parsed.protocol = lit "HTTP/1.1" ∧
    (parsed.code : ℤ) = code ∧ parsed.fields.Perm fields ∧
    decodeChunked parsed.body = some (body, left)

/-- A plain head is read whatever comes behind it. -/
theorem exists_readResponse_head_append (now : Tm) {res : ResT κ} (hplain : res.Plain)
    (rest : OString) :
    ∃ parsed, readResponse (head now res ++ rest) = some parsed ∧
      parsed.protocol = lit "HTTP/1.1" ∧ (parsed.code : ℤ) = res.statusCode ∧
      parsed.fields.Perm ((lit "Content-type", res.contentType) ::
        (lit "Date", dateToStr now) :: res.headers.toList) ∧
      parsed.body = rest := by
  obtain ⟨n, hn, hstatus⟩ := readStatusLine_statusLine hplain
  have hsplit := splitHead_head_append hplain.wellFormed now rest
  have hfields := headFields_linesOfHead hplain now
  rw [linesOfHead, List.map_cons] at hsplit hfields
  rw [headFields, List.tail_cons] at hfields
  refine ⟨⟨lit "HTTP/1.1", n, (lit "Content-type", res.contentType) ::
    (lit "Date", dateToStr now) :: res.headers.toList.reverse, rest⟩, ?_, rfl, hn, ?_, rfl⟩
  · simp only [readResponse, hsplit, hstatus, Option.map_some, hfields]
  · exact ((List.reverse_perm _).cons _).cons _

/-- The stream of a run on a fresh chunked response: nothing, or the head as the fields are
before the first message, and a frame for every message. -/
theorem sent_callsOf (now : Tm) {res : ResT κ} (hc : isChunked res = true)
    (hnew : res.wroteHeaders = false) (ops : List (Op κ))
    (hops : ∀ o ∈ ops, o.keepsTransferEncoding = true) :
    sent (callsOf now res ops) = if messages ops = [] then []
      else head now (afterOps now res (beforeFirstMessage ops))
        ++ chunkFormat.stream (messages ops) := by
  split_ifs with hnil
  · have hquiet : ∀ o ∈ ops, o.message = none := List.filterMap_eq_nil_iff.mp hnil
    rw [callsOf_eq_nil_of_quiet now res ops hquiet]
    rfl
  · obtain ⟨msg, msgs, hmsgs⟩ := List.exists_cons_of_ne_nil hnil
    have hframe : (chunk : OString → OString) = chunkFormat.frame := funext chunk_eq_frame
    rw [sent, written_of_new now hc hnew ops hops hmsgs, hmsgs, List.flatten_cons,
      List.append_assoc, hframe, FrameFormat.stream, List.flatMap_cons, List.flatMap_def]

/-- **What a client reads of a run**: the head as the fields were before the first message,
as body the messages before the first empty one, and behind it the frames of the
others. -/
theorem clientReads_of_messages (now : Tm) {res : ResT κ} (hc : isChunked res = true)
    (hnew : res.wroteHeaders = false) (ops : List (Op κ))
    (hops : ∀ o ∈ ops, o.keepsTransferEncoding = true)
    (hplain : (afterOps now res (beforeFirstMessage ops)).Plain) {pre post : List OString}
    (hmsgs : messages ops = pre ++ [] :: post) (hpre : ∀ m ∈ pre, m ≠ []) :
    ClientReads (sent (callsOf now res ops))
      (afterOps now res (beforeFirstMessage ops)).statusCode
      ((lit "Content-type", (afterOps now res (beforeFirstMessage ops)).contentType) ::
        (lit "Date", dateToStr now) ::
        (afterOps now res (beforeFirstMessage ops)).headers.toList)
      pre.flatten (chunkFormat.stream post) := by
  have hne : messages ops ≠ [] := by simp [hmsgs]
  obtain ⟨parsed, hread, hprotocol, hcode, hfields, hbody⟩ :=
    exists_readResponse_head_append now hplain (chunkFormat.stream (messages ops))
  refine ⟨parsed, ?_, hprotocol, hcode, hfields, ?_⟩
  · rw [sent_callsOf now hc hnew ops hops, if_neg hne, hread]
  · rw [hbody, hmsgs, decodeChunked_of_first_empty pre post hpre]

theorem messages_flatMap {α : Type} (f : α → List (Op κ)) (xs : List α) :
    messages (xs.flatMap f) = xs.flatMap fun x => messages (f x) := by
  induction xs with
  | nil => rfl
  | cons x xs ih =>
    rw [List.flatMap_cons, List.flatMap_cons, ← ih]
    exact List.filterMap_append

/-! ## Fresh responses -/

/-- The bindings of a fresh response, in the order of their keys. -/
def initialFields : List (OString × OString) :=
  [(lit "Connection", lit "keep-alive"), (transferEncoding, chunked)]

theorem toList_initialRes_headers (client : ClientT) :
    (initialRes client : ResT κ).headers.toList = initialFields := by
  have horder : InKeyOrder initialFields := by
    unfold InKeyOrder
    decide
  refine (StringMap.inKeyOrder_toList _).eq_of_mem_iff horder fun p => ?_
  rw [StringMap.mem_toList_iff, getElem?_initialRes_headers, initialFields, List.mem_cons,
    List.mem_singleton, Prod.ext_iff, Prod.ext_iff]
  split_ifs with hconn hte
  · rw [← hconn]
    have hne : lit "Connection" ≠ transferEncoding := by decide
    simp [hne, eq_comm]
  · rw [← hte]
    have hne : transferEncoding ≠ lit "Connection" := by decide
    simp [hne, eq_comm]
  · simp [Ne.symm hconn, Ne.symm hte]

/-- A fresh response with another status code of three digits and another plain content type
is plain. -/
theorem initialRes_plain (client : ClientT) (code : ℤ) (hge : 100 ≤ code) (hle : code ≤ 999)
    {contentType : OString} (hplain : IsPlain contentType) :
    ({ initialRes client with statusCode := code, contentType := contentType } : ResT κ).Plain where
  statusCode_ge := hge
  statusCode_le := hle
  contentType_plain := hplain
  headers_plain := fun k v hk => by
    rw [getElem?_initialRes_headers (κ := κ) client] at hk
    split_ifs at hk with hconn hte
    · obtain rfl := Option.some.inj hk
      rw [← hconn]
      exact ⟨⟨by decide, by decide⟩, ⟨by decide, by decide, by decide, by decide⟩⟩
    · obtain rfl := Option.some.inj hk
      rw [← hte]
      exact ⟨⟨by decide, by decide⟩, ⟨by decide, by decide, by decide, by decide⟩⟩

/-- What a client reads of a run that begins with the response of `createServer` and, before
its first message, changes at most the status code and the content type. -/
theorem clientReads_of_fresh (now : Tm) (client : ClientT) (ops : List (Op κ))
    (hops : ∀ o ∈ ops, o.keepsTransferEncoding = true) {code : ℤ} {contentType : OString}
    (hfirst : afterOps now (initialRes client) (beforeFirstMessage ops)
      = { initialRes client with statusCode := code, contentType := contentType })
    (hge : 100 ≤ code) (hle : code ≤ 999) (hplain : IsPlain contentType) {pre post : List OString}
    (hmsgs : messages ops = pre ++ [] :: post) (hpre : ∀ m ∈ pre, m ≠ []) :
    ClientReads (sent (callsOf now (initialRes client) ops)) code
      ([(lit "Content-type", contentType), (lit "Date", dateToStr now)] ++ initialFields)
      pre.flatten (chunkFormat.stream post) := by
  have hreads := clientReads_of_messages now
    (isChunked_of_binding (initialRes_transferEncoding (κ := κ) client)) rfl ops hops
    (hfirst ▸ initialRes_plain client code hge hle hplain) hmsgs hpre
  rw [hfirst, toList_initialRes_headers (κ := κ) client] at hreads
  exact hreads
