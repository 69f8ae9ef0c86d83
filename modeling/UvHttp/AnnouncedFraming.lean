/-
# Announced and used framing

The head of a response announces how its body is framed; `write` decides it again
for every message, from the header map as it is then.  The two agree along a run
exactly when the run is settled in a sense that speaks of the record alone.
-/
import UvHttp.ResponseBody
import UvHttp.ResponseFields

variable {κ : Type}

/-! ## Announced and used framing -/

/-- What the header map and the content type announce: the fields on their lines
up to the first blank one declare `chunked` as the final coding. -/
def recordAnnounces (res : ResT κ) : Bool :=
  declaresChunked ((((contentTypeLines res ++ bindingLines res.headers).takeWhile
    fun l => !isBlank l).map stripCr).map splitField)

theorem stripCr_dateLine (now : Tm) : stripCr (dateLine now) = dateLine now := by
  have hgmt : lit " GMT" = [32, 71, 77, 84] := by decide
  have hlast : (dateLine now).getLast? = some 84 := by
    simp [dateLine, dateToStr, hgmt]
  unfold stripCr
  rw [if_neg]
  rw [hlast]
  decide

/-- The date is no transfer coding. -/
theorem not_isTransferEncoding_dateLine (now : Tm) :
    isTransferEncoding (splitField (stripCr (dateLine now))) = false := by
  rw [stripCr_dateLine]
  have hdate : lit "Date: " = [68, 97, 116, 101, 58, 32] := by decide
  have hname : (splitField (dateLine now)).1 = [68, 97, 116, 101] := by
    simp [splitField, dateLine, hdate]
  unfold isTransferEncoding
  rw [hname]
  decide

theorem declaresChunked_append_cons (fs gs : List (OString × OString)) (f : OString × OString)
    (hf : isTransferEncoding f = false) :
    declaresChunked (fs ++ f :: gs) = declaresChunked (fs ++ gs) := by
  unfold declaresChunked transferCodings
  rw [List.filter_append, List.filter_append, List.filter_cons_of_neg (by simp [hf])]

/-- **The head sent announces what the record announces**: neither the status,
the clock nor the message that follows matters. -/
theorem announcesChunked_head_append (now : Tm) (res : ResT κ) (rest : OString) :
    announcesChunked (head now res ++ rest) = recordAnnounces res := by
  obtain ⟨rest', hsplit⟩ :=
    exists_splitHead_unlines (linesOfHead now res) (lf_notMem_linesOfHead now res) rest
  have hstream : head now res ++ rest = unlines (linesOfHead now res) ++ lf :: rest := by
    rw [head_eq_unlines, List.append_assoc]
    rfl
  simp only [announcesChunked, hstream, hsplit, recordAnnounces, headFields]
  have hdate : (!isBlank (dateLine now)) = true := by rw [isBlank_dateLine]; rfl
  have hstatus : (!isBlank (statusLine res)) = true := by rw [isBlank_statusLine]; rfl
  rw [linesOfHead, List.takeWhile_cons_of_pos (p := fun l => !isBlank l) hstatus, List.map_cons,
    List.tail_cons, List.takeWhile_append, List.takeWhile_append]
  -- the date line is read only when no line of the content type is blank
  split_ifs
  · rw [List.takeWhile_cons_of_pos (p := fun l => !isBlank l) hdate, List.map_append,
      List.map_append, List.map_cons, List.map_cons, List.map_append, List.map_append]
    exact declaresChunked_append_cons _ _ _ (not_isTransferEncoding_dateLine now)
  · rfl

/-- The operations of the interface: everything but assigning the header map or
the mark for a written head directly. -/
def Op.isApi : Op κ → Bool
  | .headers _ => false
  | .wroteHeaders _ => false
  | _ => true

/-- Without a message nothing is sent. -/
theorem callsOf_eq_nil_of_quiet (now : Tm) (res : ResT κ) (ops : List (Op κ))
    (hquiet : ∀ o ∈ ops, o.message = none) : callsOf now res ops = [] := by
  induction ops generalizing res with
  | nil => rfl
  | cons o ops ih =>
    rw [callsOf_cons, calls_of_message_eq_none now res (hquiet o List.mem_cons_self),
      ih _ fun p hp => hquiet p (List.mem_cons_of_mem o hp), List.append_nil]

/-- And the head stays unwritten. -/
theorem wroteHeaders_of_quiet (now : Tm) (res : ResT κ) (ops : List (Op κ))
    (hapi : ∀ o ∈ ops, o.isApi = true) (hquiet : ∀ o ∈ ops, o.message = none) :
    (afterOps now res ops).wroteHeaders = res.wroteHeaders := by
  rw [wroteHeaders_afterOps]
  refine lastValue_of_forall_eq_none fun o ho => ?_
  have hoapi := hapi o ho
  have hoquiet := hquiet o ho
  cases o with
  | write msg => cases hoquiet
  | endConnection => cases hoquiet
  | wroteHeaders b => cases hoapi
  | _ => rfl

/-- The operations before the first message of a run. -/
def beforeFirstMessage (ops : List (Op κ)) : List (Op κ) :=
  ops.takeWhile fun o => o.message.isNone

/-- The bytes of a run with a message start with the head of the response as it
was before the first message. -/
theorem exists_sent_eq_head_append (now : Tm) (res : ResT κ) (hnew : res.wroteHeaders = false)
    (ops : List (Op κ)) (hapi : ∀ o ∈ ops, o.isApi = true)
    (hmsg : ∃ o ∈ ops, o.message ≠ none) :
    ∃ rest, sent (callsOf now res ops)
      = head now (afterOps now res (beforeFirstMessage ops)) ++ rest := by
  have hsplit := List.takeWhile_append_dropWhile (p := fun o => o.message.isNone) (l := ops)
  cases hdrop : ops.dropWhile fun o => o.message.isNone with
  | nil =>
    obtain ⟨o, ho, hne⟩ := hmsg
    rw [List.dropWhile_eq_nil_iff] at hdrop
    exact absurd (Option.isNone_iff_eq_none.mp (hdrop o ho)) hne
  | cons o post =>
    have hsome : o.message.isNone = false := by
      have := List.head?_dropWhile_not (fun o : Op κ => o.message.isNone) ops
      rw [hdrop] at this
      simpa using this
    obtain ⟨msg, hmsg⟩ : ∃ msg, o.message = some msg := by
      cases h : o.message with
      | none => rw [h] at hsome; exact absurd hsome (by decide)
      | some msg => exact ⟨msg, rfl⟩
    have hquiet : ∀ p ∈ beforeFirstMessage ops, p.message = none := fun p hp =>
      Option.isNone_iff_eq_none.mp
        (List.mem_takeWhile_imp (p := fun o : Op κ => o.message.isNone) hp)
    have hcalls := callsOf_eq_nil_of_quiet now res (beforeFirstMessage ops) hquiet
    have hw := wroteHeaders_of_quiet now res (beforeFirstMessage ops)
      (fun p hp => hapi p ((List.takeWhile_sublist _).mem hp)) hquiet
    have hhead := headerStr_of_not_wrote now (hw.trans hnew)
    rw [hdrop, ← beforeFirstMessage] at hsplit
    conv => enter [1, rest]; rw [← hsplit]
    rw [callsOf_append, hcalls, List.nil_append, callsOf_cons, sent_append, sent,
      (applyOp_of_message now _ hmsg).2, chunkedMsg, hhead]
    have htake : beforeFirstMessage (beforeFirstMessage ops ++ o :: post)
        = beforeFirstMessage ops := by rw [hsplit]
    rw [htake]
    split_ifs
    · exact ⟨_, by rw [List.flatten_singleton, List.append_assoc]⟩
    · exact ⟨_, by rw [List.flatten_singleton, List.append_assoc]⟩

/-- At a message of a run, the framing used is the framing announced: the string
passed to `uv_write` ends in the chunk of the message exactly when the head, read
off the bytes sent so far, declares `chunked` as the final coding. -/
def FramedAsAnnounced (now : Tm) (client : ClientT) (pre : List (Op κ)) (o : Op κ)
    (msg : OString) : Prop :=
  ∀ s ∈ written (applyOp now (afterOps now (initialRes client) pre) o).2,
    (chunk msg <:+ s ↔
      announcesChunked (sent (callsOf now (initialRes client) (pre ++ [o]))) = true)

/-- Every message of the run is framed as announced. -/
def FramingAgrees (now : Tm) (client : ClientT) (ops : List (Op κ)) : Prop :=
  ∀ pre o post msg, ops = pre ++ o :: post → o.message = some msg →
    FramedAsAnnounced now client pre o msg

/-- At every message the exact key is bound to the exact value just when the
record announced a chunked body before the first message. -/
def FramingSettled (now : Tm) (client : ClientT) (ops : List (Op κ)) : Prop :=
  ∀ pre o post, ops = pre ++ o :: post → o.message ≠ none →
    isChunked (afterOps now (initialRes client) pre)
      = recordAnnounces (afterOps now (initialRes client) (beforeFirstMessage ops))

theorem framedAsAnnounced_iff (now : Tm) (client : ClientT) (pre : List (Op κ)) (o : Op κ)
    (post : List (Op κ)) (msg : OString) (ho : o.message = some msg)
    (hapi : ∀ p ∈ pre ++ o :: post, p.isApi = true) :
    FramedAsAnnounced now client pre o msg ↔
      isChunked (afterOps now (initialRes client) pre)
        = recordAnnounces (afterOps now (initialRes client)
            (beforeFirstMessage (pre ++ o :: post))) := by
  -- the message `o` is in both lists, so both have the same first message
  have hfirst : beforeFirstMessage (pre ++ [o]) = beforeFirstMessage (pre ++ o :: post) := by
    have hstop : ∀ l, (o :: l).takeWhile (fun p => p.message.isNone) = [] := fun l => by
      simp [ho]
    simp only [beforeFirstMessage, List.takeWhile_append, hstop]
  have hsub : ∀ p ∈ pre ++ [o], p.isApi = true := by
    intro p hp
    refine hapi p ?_
    rw [List.mem_append, List.mem_singleton] at hp
    rcases hp with hp | rfl
    · exact List.mem_append_left _ hp
    · exact List.mem_append_right _ List.mem_cons_self
  obtain ⟨rest, hsent⟩ := exists_sent_eq_head_append now (initialRes client) rfl (pre ++ [o]) hsub
    ⟨o, List.mem_append_right _ List.mem_cons_self, by rw [ho]; exact Option.some_ne_none msg⟩
  unfold FramedAsAnnounced
  rw [(applyOp_of_message now _ ho).2, hsent, announcesChunked_head_append, hfirst]
  simp only [List.mem_singleton, forall_eq, chunk_suffix_chunkedMsg_iff]
  exact Bool.eq_iff_iff.symm

/-! ## Runs that leave the framing alone -/

/-- The operation breaks no line and sets no header under a name that a client
reads as `Transfer-Encoding`. -/
def Op.leavesFraming : Op κ → Prop
  | .setHeader s v =>
    lf ∉ s ∧ lf ∉ v ∧ lower (s.takeWhile (· ≠ 58)) ≠ lit "transfer-encoding"
  | .contentType s => lf ∉ s
  | o => o.isApi = true

instance (o : Op κ) : Decidable o.leavesFraming :=
  match o with
  | .setHeader _ _ => inferInstanceAs (Decidable (_ ∧ _ ∧ _))
  | .contentType _ => inferInstanceAs (Decidable (_ ∉ _))
  | .write _ => inferInstanceAs (Decidable (_ = true))
  | .endConnection => inferInstanceAs (Decidable (_ = true))
  | .on _ _ => inferInstanceAs (Decidable (_ = true))
  | .statusCode _ => inferInstanceAs (Decidable (_ = true))
  | .headers _ => inferInstanceAs (Decidable (_ = true))
  | .wroteHeaders _ => inferInstanceAs (Decidable (_ = true))

/-- The record announces and uses chunks, and no other entry is read as a
transfer coding. -/
structure ResT.PlainlyChunked (res : ResT κ) : Prop extends res.WellFormed where
  binding : res.headers[transferEncoding]? = some chunked
  unique : ∀ (k v : OString), res.headers[k]? = some v →
    lower (k.takeWhile (· ≠ 58)) = lit "transfer-encoding" → k = transferEncoding

theorem applyOp_plainlyChunked (now : Tm) {res : ResT κ} (h : res.PlainlyChunked) {o : Op κ}
    (ho : o.leavesFraming) : (applyOp now res o).1.PlainlyChunked := by
  cases o with
  | write msg => rw [(applyOp_of_message now res rfl).1]; exact ⟨⟨h.1.1, h.1.2⟩, h.2, h.3⟩
  | endConnection => rw [(applyOp_of_message now res rfl).1]; exact ⟨⟨h.1.1, h.1.2⟩, h.2, h.3⟩
  | on t cb => cases t <;> exact ⟨⟨h.1.1, h.1.2⟩, h.2, h.3⟩
  | statusCode n => exact ⟨⟨h.1.1, h.1.2⟩, h.2, h.3⟩
  | contentType s => exact ⟨⟨ho, h.1.2⟩, h.2, h.3⟩
  | headers m => exact absurd ho (by simp [Op.leavesFraming, Op.isApi])
  | wroteHeaders b => exact absurd ho (by simp [Op.leavesFraming, Op.isApi])
  | setHeader s v =>
    obtain ⟨hs, hv, hname⟩ := ho
    have hget : ∀ k : OString, (setHeader res s v).headers[k]?
        = if s = k then some v else res.headers[k]? := fun k =>
      StringMap.getElem?_add res.headers s k v
    refine ⟨⟨h.contentType_oneLine, fun k w hk => ?_⟩, ?_, fun k w hk hlow => ?_⟩
    · rw [applyOp, hget] at hk
      split_ifs at hk with hsk
      · subst hsk
        obtain rfl : v = w := Option.some.inj hk
        exact ⟨hs, hv⟩
      · exact h.headers_oneLine k w hk
    · have hne : s ≠ transferEncoding := by
        rintro rfl
        exact hname (by decide)
      rw [applyOp, hget, if_neg hne, h.binding]
    · rw [applyOp, hget] at hk
      split_ifs at hk with hsk
      · subst hsk
        exact absurd hlow hname
      · exact h.unique k w hk hlow

theorem afterOps_plainlyChunked (now : Tm) {res : ResT κ} (h : res.PlainlyChunked)
    (ops : List (Op κ)) (hops : ∀ o ∈ ops, o.leavesFraming) :
    (afterOps now res ops).PlainlyChunked := by
  induction ops generalizing res with
  | nil => exact h
  | cons o ops ih =>
    exact ih (applyOp_plainlyChunked now h (hops o List.mem_cons_self))
      fun p hp => hops p (List.mem_cons_of_mem o hp)

/-- Removing a carriage return at the end leaves the name of a field line. -/
theorem splitField_stripCr_fst (k v : OString) :
    (splitField (stripCr (fieldLine (k, v)))).1 = k.takeWhile (· ≠ 58) := by
  obtain ⟨x, hx⟩ : ∃ x, stripCr (fieldLine (k, v)) = k ++ 58 :: x := by
    have hline : fieldLine (k, v) = k ++ 58 :: 32 :: v := by simp [fieldLine, lit_colon_space]
    rw [hline]
    unfold stripCr
    split_ifs
    · exact ⟨(32 :: v).dropLast, by rw [List.dropLast_append_cons]; rfl⟩
    · exact ⟨32 :: v, rfl⟩
  have hcolon : (58 :: x).takeWhile (fun c : UInt8 => decide (c ≠ 58)) = [] :=
    List.takeWhile_cons_of_neg (by simp)
  rw [hx, splitField, List.takeWhile_append, hcolon]
  split_ifs with hall
  · rw [List.append_nil, (List.takeWhile_prefix _).eq_of_length hall]
  · rfl

/-- Fields whose transfer codings all come from `Transfer-Encoding: chunked`. -/
theorem declaresChunked_of_forall (fs : List (OString × OString))
    (hall : ∀ f ∈ fs, isTransferEncoding f = true → f = (transferEncoding, chunked))
    (hmem : (transferEncoding, chunked) ∈ fs) : declaresChunked fs = true := by
  have helem : listElements chunked = [chunked] := by decide
  have hcodings : ∀ c ∈ transferCodings fs, c = chunked := by
    intro c hc
    rw [transferCodings, List.mem_flatMap] at hc
    obtain ⟨f, hf, hc⟩ := hc
    rw [List.mem_filter] at hf
    rw [hall f hf.1 hf.2, helem, List.mem_singleton] at hc
    exact hc
  have hchunked : chunked ∈ transferCodings fs := by
    rw [transferCodings, List.mem_flatMap]
    exact ⟨_, List.mem_filter.mpr ⟨hmem, by decide⟩, by rw [helem]; exact List.mem_cons_self⟩
  have hne : transferCodings fs ≠ [] := List.ne_nil_of_mem hchunked
  rw [declaresChunked, List.getLast?_eq_some_getLast hne, hcodings _ (List.getLast_mem hne)]
  decide

/-- A plainly chunked record announces a chunked body. -/
theorem recordAnnounces_of_plainlyChunked {res : ResT κ} (h : res.PlainlyChunked) :
    recordAnnounces res = true := by
  have hblank : ∀ l ∈ contentTypeLines res ++ bindingLines res.headers,
      (!isBlank l) = true := by
    intro l hl
    have := isBlank_linesOfHead h.toWellFormed epoch l
    simp only [linesOfHead, List.mem_cons, List.mem_append] at this hl
    rw [this (by tauto)]
    rfl
  have hctLine : contentTypeLines res = [fieldLine (lit "Content-type", res.contentType)] := by
    rw [contentTypeLines_of_wellFormed h.toWellFormed, contentTypeLine_eq]
  have hfield : splitField (stripCr (fieldLine (transferEncoding, chunked)))
      = (transferEncoding, chunked) := by decide
  rw [recordAnnounces, List.takeWhile_eq_self_iff.mpr hblank, hctLine,
    bindingLines_of_wellFormed h.toWellFormed, List.map_map]
  apply declaresChunked_of_forall
  · intro f hf hte
    rw [List.mem_map] at hf
    obtain ⟨l, hl, rfl⟩ := hf
    rw [Function.comp_apply] at hte ⊢
    rw [List.mem_append, List.mem_singleton, List.mem_map] at hl
    rcases hl with rfl | ⟨⟨k, v⟩, hkv, rfl⟩
    · rw [isTransferEncoding, splitField_stripCr_fst] at hte
      exact absurd hte (by decide)
    · have hmem : res.headers[k]? = some v := StringMap.mem_reverse_toList_iff.mp hkv
      rw [isTransferEncoding, splitField_stripCr_fst, decide_eq_true_iff] at hte
      obtain rfl := h.unique k v hmem hte
      rw [h.binding] at hmem
      rw [← Option.some.inj hmem, hfield]
  · rw [List.mem_map]
    refine ⟨fieldLine (transferEncoding, chunked), List.mem_append_right _ ?_, hfield⟩
    exact List.mem_map_of_mem (StringMap.mem_reverse_toList_iff.mpr h.binding)

/-- **Ordinary handlers agree with their heads.**  A run that sets no header read
as `Transfer-Encoding` and breaks no line keeps its framing settled. -/
theorem framingSettled_of_leavesFraming (now : Tm) (client : ClientT) (ops : List (Op κ))
    (hops : ∀ o ∈ ops, o.leavesFraming) : FramingSettled now client ops := by
  intro pre o post hsplit _
  have hinit : (initialRes client : ResT κ).PlainlyChunked := by
    refine ⟨initialRes_wellFormed client, initialRes_transferEncoding client, fun k v hk hlow => ?_⟩
    rw [getElem?_initialRes_headers] at hk
    split_ifs at hk with hconn hte
    · subst hconn
      exact absurd hlow (by decide)
    · exact hte.symm
  have hpre := afterOps_plainlyChunked now hinit pre fun p hp =>
    hops p (hsplit ▸ List.mem_append_left _ hp)
  have hfirst := afterOps_plainlyChunked now hinit (beforeFirstMessage ops) fun p hp =>
    hops p ((List.takeWhile_sublist _).mem hp)
  rw [recordAnnounces_of_plainlyChunked hfirst, isChunked_of_binding hpre.binding]

/-! ## The two agree exactly when the framing is settled -/

/-- **Announced framing is used framing, exactly when the framing is settled.**
The framing of a run agrees with its head if and only if, at every message, the
entry under the exact key is what the record announced before the first one. -/
theorem framingAgrees_iff (now : Tm) (client : ClientT) (ops : List (Op κ))
    (hapi : ∀ o ∈ ops, o.isApi = true) :
    FramingAgrees now client ops ↔ FramingSettled now client ops := by
  constructor
  · intro h pre o post hops hmsg
    obtain ⟨msg, ho⟩ := Option.ne_none_iff_exists'.mp hmsg
    subst hops
    exact (framedAsAnnounced_iff now client pre o post msg ho hapi).mp (h pre o post msg rfl ho)
  · intro h pre o post msg hops ho
    subst hops
    refine (framedAsAnnounced_iff now client pre o post msg ho hapi).mpr (h pre o post rfl ?_)
    rw [ho]
    exact Option.some_ne_none msg

/-- A handler that leaves the framing alone. -/
def plainRun : List (Op Empty) :=
  [.contentType (lit "text/html"), .write (lit "Hello"), .setHeader (lit "Server") (lit "uv"),
    .statusCode 404, .write [], .endConnection]

theorem framingAgrees_plainRun : FramingAgrees epoch 0 plainRun :=
  (framingAgrees_iff epoch 0 plainRun (by decide)).mpr
    (framingSettled_of_leavesFraming epoch 0 plainRun (by decide))

/-- Switching the framing off after the head was sent. -/
def lateSwitch : List (Op Empty) :=
  [.write (lit "a"), .setHeader transferEncoding (lit "identity"), .write (lit "b")]

/-- A spelling of the value that HTTP takes for the same coding. -/
def otherSpelling : List (Op Empty) :=
  [.setHeader transferEncoding (lit "Chunked"), .write (lit "a")]

/-- In both runs the last message goes out bare under a head that announces
chunks. -/
theorem not_framingAgrees_lateSwitch_otherSpelling :
    ¬ FramingAgrees epoch 0 lateSwitch ∧ ¬ FramingAgrees epoch 0 otherSpelling := by
  constructor
  · intro h
    have hb := h [.write (lit "a"), .setHeader transferEncoding (lit "identity")]
      (.write (lit "b")) [] (lit "b") rfl rfl
    rw [framedAsAnnounced_iff epoch 0 _ _ [] (lit "b") rfl (by decide)] at hb
    exact absurd hb (by decide)
  · intro h
    have ha := h [.setHeader transferEncoding (lit "Chunked")] (.write (lit "a")) [] (lit "a")
      rfl rfl
    rw [framedAsAnnounced_iff epoch 0 _ _ [] (lit "a") rfl (by decide)] at ha
    exact absurd ha (by decide)
