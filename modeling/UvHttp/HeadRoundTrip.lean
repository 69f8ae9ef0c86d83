/-
# Reading a head back

A response whose strings are plain is written as a head that a client reads back: the
protocol, the status code, the content type, the date, and every binding of the header
map, and behind the empty line the first message as it was framed.
-/
import UvHttp.AnnouncedFraming

variable {κ : Type}

/-! ## The record -/

/-- A response whose head can be read back: three digits of status, tokens as keys,
and plain values. -/
structure ResT.Plain (res : ResT κ) : Prop where
  statusCode_ge : 100 ≤ res.statusCode
  statusCode_le : res.statusCode ≤ 999
  contentType_plain : IsPlain res.contentType
  headers_plain : ∀ (k v : OString), res.headers[k]? = some v → IsToken k ∧ IsPlain v

theorem ResT.Plain.wellFormed {res : ResT κ} (h : res.Plain) : res.WellFormed where
  contentType_oneLine := h.contentType_plain.lf_notMem
  headers_oneLine := fun k v hk =>
    ⟨(h.headers_plain k v hk).1.notMem (by decide), (h.headers_plain k v hk).2.lf_notMem⟩

/-! ## The lines of the head -/

/-- The status line does not end in a carriage return. -/
theorem stripCr_statusLine (res : ResT κ) : stripCr (statusLine res) = statusLine res := by
  obtain ⟨name, c, hname, hc⟩ :
      ∃ name c, getStatusCodeName res.statusCode = name ++ [c] ∧ c ≠ cr := by
    unfold getStatusCodeName
    split_ifs
    · exact ⟨lit "O", 75, by decide, by decide⟩
    · exact ⟨lit "Unknow", 110, by decide, by decide⟩
  have hlast : (statusLine res).getLast? = some c := by
    rw [statusLine, hname, ← List.append_assoc, List.getLast?_concat]
  rw [stripCr, if_neg]
  rw [hlast, Option.some.injEq]
  exact hc

/-- Three digits of status are read back. -/
theorem readStatusLine_statusLine {res : ResT κ} (h : res.Plain) :
    ∃ n : ℕ, (n : ℤ) = res.statusCode ∧
      readStatusLine (stripCr (statusLine res)) = some (lit "HTTP/1.1", n) := by
  have hge := h.statusCode_ge
  have hle := h.statusCode_le
  obtain ⟨n, hn⟩ := Int.eq_ofNat_of_zero_le (show 0 ≤ res.statusCode by omega)
  have hlen : (decimal.print n).length = 3 :=
    decimal.length_print (k := 2) (show 10 ^ 2 ≤ n by omega) (show n < 10 ^ 3 by omega)
  have hproto : lit "HTTP/1.1 " = lit "HTTP/1.1" ++ [32] := by decide
  have hline : statusLine res
      = lit "HTTP/1.1" ++ 32 :: (decimal.print n ++ 32 :: getStatusCodeName res.statusCode) := by
    rw [statusLine, hn, hproto, lit_space]
    simp [stringOfInt]
  have hword : ∀ c ∈ lit "HTTP/1.1", decide (c ≠ 32) = true := by
    intro c hc
    have hall : 32 ∉ lit "HTTP/1.1" := by decide
    exact decide_eq_true fun h => hall (h ▸ hc)
  have hdigits : ∀ c ∈ decimal.print n, decimal.isDigit c = true := fun c hc =>
    decimal.isDigit_of_mem_print hc
  have hstop : ¬ decimal.isDigit 32 = true := by decide
  refine ⟨n, hn.symm, ?_⟩
  rw [stripCr_statusLine, hline, readStatusLine, List.dropWhile_append_of_pos hword,
    List.takeWhile_append_of_pos hword, List.dropWhile_cons_of_neg (by simp),
    List.takeWhile_cons_of_neg (by simp), List.append_nil, List.drop_one, List.tail_cons,
    List.takeWhile_append_of_pos hdigits, List.takeWhile_cons_of_neg hstop, List.append_nil, hlen,
    decimal.read_print_append]
  · rfl
  · rintro c hc
    obtain rfl := Option.some.inj hc
    exact Bool.eq_false_iff.mpr hstop

theorem cr_notMem_weekdays (i : Fin 7) : cr ∉ weekdays i := by revert i; decide

theorem cr_notMem_months (i : Fin 12) : cr ∉ months i := by revert i; decide

/-- Every date is a plain value. -/
theorem isPlain_dateToStr (now : Tm) : IsPlain (dateToStr now) where
  cr_notMem := by
    have hcr : decimal.isDigit cr = false := by decide
    have hcomma : cr ∉ lit ", " := by decide
    have hspace : cr ∉ lit " " := by decide
    have hcolon : cr ∉ lit ":" := by decide
    have hgmt : cr ∉ lit " GMT" := by decide
    simp only [dateToStr, List.mem_append, not_or]
    simp only [cr_notMem_weekdays, cr_notMem_months, notMem_stringOfInt hcr (by decide),
      notMem_twoDigits hcr, hcomma, hspace, hcolon, hgmt, not_false_eq_true, and_self]
  lf_notMem := fun h => lf_notMem_dateLine now (List.mem_append_right _ h)
  head := by
    have hletter : ∀ i : Fin 7, weekdays i ≠ [] ∧ (weekdays i).head?.any isBlankChar = false := by
      decide
    obtain ⟨hne, hhead⟩ := hletter now.tm_wday
    obtain ⟨c, s, hs⟩ := List.exists_cons_of_ne_nil hne
    rw [hs] at hhead
    rw [dateToStr, hs]
    exact hhead
  last := by
    have hgmt : lit " GMT" = [32, 71, 77] ++ [84] := by decide
    rw [dateToStr, hgmt, ← List.append_assoc, List.getLast?_concat]
    decide

/-! ## The head -/

/-- The lines of a plain head: one for every field. -/
theorem linesOfHead_of_wellFormed {res : ResT κ} (h : res.WellFormed) (now : Tm) :
    linesOfHead now res = statusLine res :: (lit "Content-type: " ++ res.contentType) ::
      dateLine now :: res.headers.toList.reverse.map fieldLine := by
  rw [linesOfHead, contentTypeLines_of_wellFormed h, bindingLines_of_wellFormed h]
  rfl

/-- The fields of a plain head. -/
theorem headFields_linesOfHead {res : ResT κ} (h : res.Plain) (now : Tm) :
    headFields ((linesOfHead now res).map stripCr)
      = (lit "Content-type", res.contentType) :: (lit "Date", dateToStr now) ::
          res.headers.toList.reverse := by
  have hcontentType : splitField (stripCr (lit "Content-type: " ++ res.contentType))
      = (lit "Content-type", res.contentType) := by
    rw [contentTypeLine_eq]
    exact splitField_of_plain (k := lit "Content-type") (by decide) h.contentType_plain
  have hdate : splitField (stripCr (dateLine now)) = (lit "Date", dateToStr now) := by
    rw [dateLine_eq]
    exact splitField_of_plain (k := lit "Date") (by decide) (isPlain_dateToStr now)
  have hbinding : ∀ p ∈ res.headers.toList.reverse, splitField (stripCr (fieldLine p)) = p := by
    rintro ⟨k, v⟩ hp
    have hk : res.headers[k]? = some v := StringMap.mem_reverse_toList_iff.mp hp
    obtain ⟨htoken, hvalue⟩ := h.headers_plain k v hk
    exact splitField_of_plain (htoken.notMem (by decide)) hvalue
  have hbindings : ((res.headers.toList.reverse.map fieldLine).map stripCr).map splitField
      = res.headers.toList.reverse := by
    rw [List.map_map, List.map_map]
    exact (List.map_congr_left hbinding).trans (List.map_id _)
  rw [headFields, linesOfHead_of_wellFormed h.wellFormed, List.map_cons, List.tail_cons,
    List.map_cons, List.map_cons, List.map_cons, List.map_cons, hcontentType, hdate, hbindings]

/-- **The head of a plain response is read back**: the protocol, the code, and as fields the
content type, the date and every binding once; and the first message is left as it was
framed. -/
theorem readResponse_firstWrite (now : Tm) (res : ResT κ) (hnew : res.wroteHeaders = false)
    (hplain : res.Plain) (msg : OString) :
    ∃ parsed, readResponse (firstWrite now res msg) = some parsed ∧
      parsed.protocol = lit "HTTP/1.1" ∧ (parsed.code : ℤ) = res.statusCode ∧
      parsed.fields.Perm ((lit "Content-type", res.contentType) ::
        (lit "Date", dateToStr now) :: res.headers.toList) ∧
      parsed.body = if isChunked res then chunk msg else msg := by
  obtain ⟨n, hn, hstatus⟩ := readStatusLine_statusLine hplain
  have hsplit := splitHead_head_append hplain.wellFormed now
    (if isChunked res then chunk msg else msg)
  have hfields := headFields_linesOfHead hplain now
  rw [linesOfHead, List.map_cons] at hsplit hfields
  rw [headFields, List.tail_cons] at hfields
  refine ⟨⟨lit "HTTP/1.1", n, (lit "Content-type", res.contentType) ::
    (lit "Date", dateToStr now) :: res.headers.toList.reverse,
    if isChunked res then chunk msg else msg⟩, ?_, rfl, hn, ?_, rfl⟩
  · simp only [readResponse, firstWrite_eq now hnew, hsplit, hstatus, Option.map_some, hfields]
  · exact ((List.reverse_perm _).cons _).cons _

/-- A response that was not found, with a header of its own, and a message that looks like
the end of a head. -/
def notFound : ResT Empty :=
  { initialRes 0 with
    statusCode := 404
    headers := (∅ : StringMap OString).insert (lit "X-Why") (lit "no: such file") }

theorem notFound_plain : notFound.Plain where
  statusCode_ge := by decide
  statusCode_le := by decide
  contentType_plain := ⟨by decide, by decide, by decide, by decide⟩
  headers_plain := fun k v hk => by
    rw [notFound, StringMap.getElem?_add, Std.ExtTreeMap.getElem?_empty] at hk
    split_ifs at hk with hkey
    obtain rfl := Option.some.inj hk
    obtain rfl := hkey
    exact ⟨⟨by decide, by decide⟩, ⟨by decide, by decide, by decide, by decide⟩⟩

theorem readResponse_notFound :
    ∃ parsed, readResponse (firstWrite epoch notFound (lit "\n\nSet-Cookie: a=b\n"))
        = some parsed ∧
      parsed.protocol = lit "HTTP/1.1" ∧ (parsed.code : ℤ) = notFound.statusCode ∧
      parsed.fields.Perm ((lit "Content-type", notFound.contentType) ::
        (lit "Date", dateToStr epoch) :: notFound.headers.toList) ∧
      parsed.body = if isChunked notFound then chunk (lit "\n\nSet-Cookie: a=b\n")
        else lit "\n\nSet-Cookie: a=b\n" :=
  readResponse_firstWrite epoch notFound rfl notFound_plain _
