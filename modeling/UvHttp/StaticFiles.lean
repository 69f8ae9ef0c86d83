/-
# What the static server makes of a file

`readFile` reads lines and joins them by line feeds, so the line feed at the end of a
file is lost and everything else is kept.  What it returns is the one message of the
response, and the body that the client reads.
-/
import UvHttp.ExampleStatic
import UvHttp.Records
import UvHttp.ResponseBody

/-! ## Reading -/

/-- `input_line` takes the first record off the channel. -/
theorem records_of_inputLine {chan chan' : InChannel} {s : OString}
    (h : inputLine chan = .line s chan') :
    records lf chan.rest = s :: records lf chan'.rest ∧ chan'.failsAtEnd = chan.failsAtEnd := by
  have hspec := inputLine_spec chan
  rw [h] at hspec
  obtain ⟨hfails, hlf, hrest⟩ := hspec
  refine ⟨?_, hfails⟩
  rcases hrest with hrest | ⟨hne, hrest, hnil⟩
  · rw [hrest, records_append_cons hlf]
  · rw [hrest, hnil, records_of_notMem hlf hne, records_nil]

/-- **The loop of `readFile`**: it comes to an end, without a result only when reading
fails, and else with the lines it has and the records that are left. -/
theorem readFileFrom_eq (chan : InChannel) (acc : List OString) :
    readFileFrom chan acc = if chan.failsAtEnd then none
      else some ([lf].intercalate (acc.reverse ++ records lf chan.rest)) := by
  fun_induction readFileFrom chan acc with
  | case1 chan acc s chan' h ih =>
    obtain ⟨hrecords, hfails⟩ := records_of_inputLine h
    rw [ih, hfails, hrecords, List.reverse_cons, List.append_assoc, List.singleton_append]
  | case2 chan acc h =>
    have hspec := inputLine_spec chan
    rw [h] at hspec
    obtain ⟨hfails, hrest⟩ := hspec
    rw [hfails, hrest, records_nil, List.append_nil, lit_lf]
    rfl
  | case3 chan acc h =>
    have hfails := inputLine_spec chan
    rw [h] at hfails
    rw [if_pos hfails]

/-- **`readFile` returns the file without its final line feed**, whatever the file. -/
theorem readFileFrom_nil (content : OString) :
    readFileFrom ⟨content, false⟩ [] = some (dropFinal lf content) := by
  rw [readFileFrom_eq, List.reverse_nil, List.nil_append, intercalate_records]
  rfl

/-! ## Serving -/

/-- Every content type is on one line. -/
theorem lf_notMem_contentType (path : OString) : lf ∉ contentType path := by
  unfold contentType
  cases rindex path 46 with
  | none => exact (by decide : lf ∉ lit "text/plain")
  | some i =>
    show lf ∉ ite _ _ _
    split_ifs <;> decide

/-- The body that a client reads: what the chunks after the head decode to. -/
def bodyRead (s : OString) : Option OString :=
  (splitHead s).bind fun p => (decodeChunked p.2).map Prod.fst

/-- The body that a client reads for the first request of its connection. -/
def staticBody (now : Tm) (openIn : OpenIn) (client : ClientT) (req : ReqT) : Option OString :=
  match staticServer openIn req [] with
  | .ok ops _ => bodyRead (sent (callsOf now (initialRes client) ops))
  | .error _ _ => none

/-- One message is the body, the empty one as well. -/
theorem bodyRead_one (now : Tm) {res : ResT Empty} (hwf : res.WellFormed)
    (hnew : res.wroteHeaders = false) (hc : isChunked res = true) (msg : OString) :
    bodyRead (sent (callsOf now res (writeAll [msg]))) = some msg := by
  rw [bodyRead, splitHead_sent_writeAll now res hwf hnew hc, Option.bind_some]
  by_cases hmsg : msg = []
  · subst hmsg
    exact congrArg (Option.map Prod.fst) (decodeChunked_of_first_empty [] [[]] nofun)
  · have hdecode := decodeChunked_of_first_empty [msg] []
      fun m hm => by rwa [List.mem_singleton.mp hm]
    exact (congrArg (Option.map Prod.fst) hdecode).trans (by simp)

/-- The server serves a body for a request whose path it has made out of the URL: `readFile`
returns it, the handler writes it as its one message, and the client reads it. -/
structure Serves (openIn : OpenIn) (req : ReqT) (url body : OString) : Prop where
  returned : ∀ opened, readFile openIn (lit "." ++ url) opened
    = .ok (some body) (opened ++ [lit "." ++ url])
  written : ∀ opened, staticServer openIn req opened
    = .ok [.contentType (contentType url), .write body, .endConnection]
        (opened ++ [lit "." ++ url])
  received : ∀ now client, staticBody now openIn client req = some body

section Serving

variable {openIn : OpenIn} {req : ReqT} {url content : OString}

/-- **Every readable file is served without its final line feed.** -/
theorem serves_dropFinal (hserved : servedUrl req.url = .ok url)
    (hfile : openIn (lit "." ++ url) = some ⟨content, false⟩) :
    Serves openIn req url (dropFinal lf content) := by
  have hread :
      (openIn (lit "." ++ url)).bind (readFileFrom · []) = some (dropFinal lf content) := by
    rw [hfile, Option.bind_some, readFileFrom_nil]
  have hops : ∀ opened, staticServer openIn req opened
      = .ok [.contentType (contentType url), .write (dropFinal lf content), .endConnection]
          (opened ++ [lit "." ++ url]) := by
    intro opened
    rw [staticServer_apply openIn hserved, hread, respond]
  refine ⟨fun opened => ?_, hops, fun now client => ?_⟩
  · show EStateM.Result.ok _ _ = _
    rw [hread]
  · have hwf :
        ({ initialRes client with contentType := contentType url } : ResT Empty).WellFormed :=
      ⟨lf_notMem_contentType url, (initialRes_wellFormed (κ := Empty) client).headers_oneLine⟩
    rw [staticBody, hops]
    exact bodyRead_one now hwf rfl
      (isChunked_of_binding (initialRes_transferEncoding (κ := Empty) client)) _

/-- What is served is determined. -/
theorem Serves.unique {body body' : OString} (h : Serves openIn req url body)
    (h' : Serves openIn req url body') : body = body' := by
  have hreceived := h.received epoch 0
  rw [h'.received] at hreceived
  exact (Option.some.inj hreceived).symm

/-- **A readable file is served as it is exactly when it does not end in a line feed.** -/
theorem serves_content_iff (hserved : servedUrl req.url = .ok url)
    (hfile : openIn (lit "." ++ url) = some ⟨content, false⟩) :
    Serves openIn req url content ↔ content.getLast? ≠ some lf := by
  rw [← dropFinal_eq_self_iff]
  have hserves := serves_dropFinal hserved hfile
  constructor
  · exact hserves.unique
  · intro hsame
    rwa [hsame] at hserves

end Serving

/-- A file of one line without a line feed behind it. -/
theorem serves_hi :
    Serves (fun _ => some ⟨lit "hi", false⟩) ⟨lit "/a.txt", ∅⟩ (lit "/a.txt") (lit "hi") :=
  (serves_content_iff (servedUrl_of_ne_nil (by decide)) rfl).mpr (by decide)

/-- The same file with a line feed behind the line. -/
theorem not_serves_hi_lf :
    ¬ Serves (fun _ => some ⟨lit "hi\n", false⟩) ⟨lit "/a.txt", ∅⟩ (lit "/a.txt")
      (lit "hi\n") := by
  intro h
  have hserves : Serves (fun _ => some ⟨lit "hi\n", false⟩) ⟨lit "/a.txt", ∅⟩ (lit "/a.txt")
      (dropFinal lf (lit "hi\n")) := serves_dropFinal (servedUrl_of_ne_nil (by decide)) rfl
  exact absurd (h.unique hserves) (by decide)
