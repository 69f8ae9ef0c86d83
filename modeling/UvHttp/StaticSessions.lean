/-
# The sessions of the static server

The handler of the static server registers no callbacks and ends every request at once.
What its clients read is said here for whole sessions and for all clients at once.
-/
import UvHttp.Clients
import UvHttp.ClientView
import UvHttp.EndOfResponse
import UvHttp.StaticFiles

/-! ## The handler -/

/-- The handler of the static server; its state is the list of the paths it has opened.
For an empty URL, which is left when a read begins where the URL ends, the code raises an
exception; here there are just no operations, and the results are about other URLs. -/
def staticHandler (openIn : OpenIn) : Handler Empty (List OString) where
  request := fun req _ opened =>
    match staticServer openIn req opened with
    | .ok ops opened' => (ops, opened')
    | .error _ opened' => ([], opened')
  data := fun cb => nomatch cb
  finish := fun cb => nomatch cb

/-- The path of the file for a URL. -/
def staticUrl (url : OString) : OString :=
  url ++ if url.getLast? = some slash then lit "index.html" else []

/-- The path for a URL that is not empty. -/
theorem servedUrl_eq {url : OString} (hurl : url ≠ []) : servedUrl url = .ok (staticUrl url) := by
  rw [servedUrl_of_ne_nil hurl, staticUrl, List.getLast?_eq_some_getLast hurl]
  simp only [Option.some.injEq]

/-- What a request is answered with. -/
structure Answer where
  code : ℤ
  contentType : OString
  body : OString

/-- The answer that the files determine: a file that can be read to its end, without its
final line feed, or a message. -/
def answerOf (openIn : OpenIn) (url : OString) : Answer :=
  match openIn (lit "." ++ staticUrl url) with
  | some ⟨content, false⟩ => ⟨200, contentType (staticUrl url), dropFinal lf content⟩
  | _ => ⟨404, lit "text/plain", lit "Couldn't find that!"⟩

/-- The operations of an answer. -/
def answerOps (openIn : OpenIn) (url : OString) : List (Op Empty) :=
  (match openIn (lit "." ++ staticUrl url) with
    | some ⟨_, false⟩ => .contentType (contentType (staticUrl url))
    | _ => .statusCode 404) :: [.write (answerOf openIn url).body, .endConnection]

/-- The operations for what became of the file. -/
theorem respond_eq (openIn : OpenIn) (url : OString) :
    respond (staticUrl url) ((openIn (lit "." ++ staticUrl url)).bind (readFileFrom · []))
      = answerOps openIn url := by
  rw [answerOps, answerOf]
  rcases openIn (lit "." ++ staticUrl url) with _ | ⟨content, fails⟩
  · rfl
  · cases fails with
    | true =>
      rw [Option.bind_some, readFileFrom_eq]
      rfl
    | false =>
      rw [Option.bind_some, readFileFrom_nil]
      rfl

/-- The handler opens one file and answers. -/
theorem request_staticHandler (openIn : OpenIn) {req : ReqT} (hurl : req.url ≠ [])
    (res : ResT Empty) (opened : List OString) :
    (staticHandler openIn).request req res opened
      = (answerOps openIn req.url, opened ++ [lit "." ++ staticUrl req.url]) := by
  have hserver := staticServer_apply openIn (servedUrl_eq hurl) opened
  rw [respond_eq] at hserver
  show (match staticServer openIn req opened with
    | .ok ops opened' => (ops, opened')
    | .error _ opened' => ([], opened')) = _
  rw [hserver]

/-- The messages of an answer: its body, and the empty one that ends it. -/
theorem messages_answerOps (openIn : OpenIn) (url : OString) :
    messages (answerOps openIn url) = [(answerOf openIn url).body, []] := by
  rw [answerOps, messages]
  rcases openIn (lit "." ++ staticUrl url) with _ | ⟨content, _ | _⟩ <;> rfl

/-- An answer keeps the transfer encoding. -/
theorem keeps_answerOps (openIn : OpenIn) (url : OString) :
    ∀ o ∈ answerOps openIn url, o.keepsTransferEncoding = true := by
  rw [answerOps]
  rcases openIn (lit "." ++ staticUrl url) with _ | ⟨content, _ | _⟩ <;>
    simp [Op.keepsTransferEncoding, Op.isApi]

/-- There is an end for every message. -/
theorem countP_isEnd_answers (openIn : OpenIn) (ms : List Message) :
    (ms.flatMap fun m => answerOps openIn m.url).countP Op.isEnd = ms.length := by
  induction ms with
  | nil => rfl
  | cons m ms ih =>
    have hanswer : (answerOps openIn m.url).countP Op.isEnd = 1 := by
      rw [answerOps]
      rcases openIn (lit "." ++ staticUrl m.url) with _ | ⟨content, _ | _⟩ <;> rfl
    rw [List.flatMap_cons, List.countP_append, ih, hanswer, List.length_cons, Nat.add_comm]

/-! ## Sessions -/

section Sessions

variable {σ : Type} (now : Tm) (h : Handler Empty σ)

/-- Without closures nothing is run for a string of the body. -/
theorem data_of_noClosures (p : Progress Empty σ) (b : OString) : p.data now h b = p := by
  unfold Progress.data
  cases p.res.onData with
  | noop => rfl
  | closure k => nomatch k

/-- Without closures nothing is run for the end of a message. -/
theorem finish_of_noClosures (p : Progress Empty σ) : p.finish now h = p := by
  unfold Progress.finish
  cases p.res.onEnd with
  | noop => rfl
  | closure k => nomatch k

/-- A message is its request. -/
theorem message_of_noClosures (p : Progress Empty σ) (req : ReqT) (body : List OString) :
    p.message now h req body = p.request now h req := by
  rw [Progress.message, finish_of_noClosures]
  induction body with
  | nil => rfl
  | cons b body ih => rw [List.foldl_cons, data_of_noClosures, ih]

/-- The operations of a session of the static server. -/
theorem session_staticHandler (openIn : OpenIn) (p : Progress Empty (List OString))
    (history : List (OString × OString)) (ms : List Message) (hurls : ∀ m ∈ ms, m.url ≠ []) :
    (p.session now (staticHandler openIn) history ms).ops
      = p.ops ++ ms.flatMap fun m => answerOps openIn m.url := by
  induction ms generalizing p history with
  | nil => exact (List.append_nil _).symm
  | cons m ms ih =>
    have hm : (assembled history m).url ≠ [] := hurls m List.mem_cons_self
    have hops := ih (p.message now (staticHandler openIn) (assembled history m) m.body)
      (history ++ (m.headers ++ m.trailers)) fun m' hm' => hurls m' (List.mem_cons_of_mem m hm')
    rw [Progress.session, hops, message_of_noClosures, Progress.request,
      request_staticHandler openIn hm]
    exact List.append_assoc _ _ _

end Sessions

/-- The messages of a list of requests: each answer, and the empty message that ends it. -/
def answers (openIn : OpenIn) (ms : List Message) : List OString :=
  ms.flatMap fun m => [(answerOf openIn m.url).body, []]

/-- The content types are plain. -/
theorem contentType_plain (path : OString) : IsPlain (contentType path) := by
  have htypes : contentType path ∈ [lit "text/plain", lit "text/html", lit "text/css",
      lit "video/mp4", lit "application/javascript"] := by
    unfold contentType
    cases rindex path 46 with
    | none => exact List.mem_cons_self
    | some i =>
      show ite _ _ _ ∈ _
      split_ifs <;> decide
  simp only [List.mem_cons, List.not_mem_nil, or_false] at htypes
  rcases htypes with h | h | h | h | h <;> rw [h] <;>
    exact ⟨by decide, by decide, by decide, by decide⟩

/-- The response before its first message. -/
theorem beforeFirst_answers (now : Tm) (openIn : OpenIn) (client : ClientT) (url : OString)
    (ops : List (Op Empty)) :
    afterOps now (initialRes client) (beforeFirstMessage (answerOps openIn url ++ ops))
      = { initialRes client with
          statusCode := (answerOf openIn url).code
          contentType := (answerOf openIn url).contentType } := by
  rw [answerOps, answerOf]
  rcases openIn (lit "." ++ staticUrl url) with _ | ⟨content, _ | _⟩ <;> rfl

/-- A body and the empty message behind it, up to the first empty message. -/
theorem exists_split_body (body : OString) (rest : List OString) :
    ∃ pre post, body :: [] :: rest = pre ++ [] :: post ∧ (∀ m ∈ pre, m ≠ []) ∧
      pre.flatten = body ∧
      chunkFormat.stream post
        = (if body = [] then chunk [] else []) ++ chunkFormat.stream rest := by
  by_cases hempty : body = []
  · refine ⟨[], [] :: rest, by rw [hempty]; rfl, nofun, hempty.symm, ?_⟩
    rw [if_pos hempty, chunk_eq_frame, FrameFormat.stream_cons]
  · refine ⟨[body], rest, rfl, fun m hm => ?_, List.flatten_singleton, ?_⟩
    · rwa [List.mem_singleton.mp hm]
    · rw [if_neg hempty, List.nil_append]

/-- **Every client reads its file.**  Whatever the clients ask for, and in whatever order
their messages arrive, a client whose messages have all arrived reads one response, the
answer to its first message: the file without its final line feed under its type, or
status 404.  Behind it are the answers to its later messages, as chunks without a head;
an empty file leaves one more chunk; and the connection is shut down once for each
message. -/
theorem staticServer_clients (now : Tm) (openIn : OpenIn) (visits : ClientT → Visit)
    (es : List ServerEvent) (hes : UnderWay visits es) (c : ClientT) (m : Message)
    (ms : List Message) (hvisit : visits c = .served (m :: ms))
    (hurls : ∀ m' ∈ m :: ms, m'.url ≠ [])
    (harrived : eventsOf c es = (visits c).events c) :
    ClientReads (sent (observe (Server.run now (staticHandler openIn) [] es).store c).calls)
      (answerOf openIn m.url).code
      ([(lit "Content-type", (answerOf openIn m.url).contentType), (lit "Date", dateToStr now)]
        ++ initialFields)
      (answerOf openIn m.url).body
      ((if (answerOf openIn m.url).body = [] then chunk [] else [])
        ++ chunkFormat.stream (answers openIn ms)) ∧
    (observe (Server.run now (staticHandler openIn) [] es).store c).calls.count .uvShutdown
      = ms.length + 1 := by
  have hcalls := ((observe_underWay now (staticHandler openIn) [] visits es hes c).2.2 harrived).1
  have hsession := session_staticHandler now openIn (.start c []) [] (m :: ms) hurls
  rw [hvisit, Visit.calls, sessionOps, hsession, Progress.start, List.nil_append] at hcalls
  rw [hcalls]
  constructor
  · have hmessages : messages ((m :: ms).flatMap fun m => answerOps openIn m.url)
        = (answerOf openIn m.url).body :: [] :: answers openIn ms := by
      rw [messages_flatMap]
      simp only [messages_answerOps]
      rfl
    have hkeeps : ∀ o ∈ (m :: ms).flatMap fun m => answerOps openIn m.url,
        o.keepsTransferEncoding = true := by
      intro o ho
      obtain ⟨m', -, hm'⟩ := List.mem_flatMap.mp ho
      exact keeps_answerOps openIn m'.url o hm'
    have hfirst := beforeFirst_answers now openIn c m.url
      (ms.flatMap fun m => answerOps openIn m.url)
    have hcode : 100 ≤ (answerOf openIn m.url).code ∧ (answerOf openIn m.url).code ≤ 999 := by
      rw [answerOf]
      split <;> simp
    have hplain : IsPlain (answerOf openIn m.url).contentType := by
      rw [answerOf]
      split
      · exact contentType_plain _
      · exact ⟨by decide, by decide, by decide, by decide⟩
    obtain ⟨pre, post, hsplit, hpre, hbody, hpost⟩ :=
      exists_split_body (answerOf openIn m.url).body (answers openIn ms)
    rw [← hpost, ← hbody]
    exact clientReads_of_fresh now c _ hkeeps hfirst hcode.1 hcode.2 hplain
      (hmessages.trans hsplit) hpre
  · rw [count_shutdown_callsOf, countP_isEnd_answers, List.length_cons]

/-- One file, with a line feed at its end. -/
def oneFile : OpenIn := fun path => if path = lit "./a" then some ⟨lit "hi\n", false⟩ else none

theorem staticServer_clients_meeting :
    ClientReads (sent (observe (Server.run epoch (staticHandler oneFile) [] meeting).store 1).calls)
      (answerOf oneFile (lit "/a")).code
      ([(lit "Content-type", (answerOf oneFile (lit "/a")).contentType),
        (lit "Date", dateToStr epoch)] ++ initialFields)
      (answerOf oneFile (lit "/a")).body
      ((if (answerOf oneFile (lit "/a")).body = [] then chunk [] else [])
        ++ chunkFormat.stream (answers oneFile [])) ∧
    (observe (Server.run epoch (staticHandler oneFile) [] meeting).store 1).calls.count
      .uvShutdown = 0 + 1 :=
  staticServer_clients epoch oneFile threeVisits meeting underWay_meeting 1
    ⟨lit "/a", [(lit "Host", lit "x")], [lit "b"], []⟩ [] rfl (by decide) (by decide)
