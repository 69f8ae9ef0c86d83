/-
# The pages of the example server

Every request is answered by a page: a greeting, the URL, the headers, and a word for
each string of the body.  The first page of a connection is read by its client as a
response; the later ones follow it without a head.
-/
import UvHttp.Clients
import UvHttp.ClientView
import UvHttp.EndOfResponse

/-! ## Pages -/

/-- The bindings of a map, each followed by a line break, last key first. -/
theorem printHeaders_eq (h : StringMap OString) :
    printHeaders h
      = h.toList.reverse.flatMap fun p => p.1 ++ lit ": " ++ p.2 ++ lit "<br>" := by
  rw [printHeaders, Std.ExtTreeMap.foldl_eq_foldl_toList]
  induction h.toList using List.reverseRecOn with
  | nil => rfl
  | append_singleton ps p ih =>
    rw [List.foldl_append, ih, List.reverse_append, List.reverse_singleton, List.flatMap_append,
      List.flatMap_singleton]
    rfl

/-- The messages of a page for a request with `n` strings of body. -/
def pageMessages (req : ReqT) (n : ℕ) : List OString :=
  [lit "Hello World from libuv in reason", lit "<br>Url: " ++ req.url,
    lit "<br>Headers:<br>" ++ req.headers.toList.reverse.flatMap fun p =>
      p.1 ++ lit ": " ++ p.2 ++ lit "<br>"] ++ List.replicate n (lit "testdata")

/-- The requests of a session with the number of strings in their bodies. -/
def pageRequests (history : List (OString × OString)) (ms : List Message) : List (ReqT × ℕ) :=
  (assembledAll history ms).zip (ms.map fun m => m.body.length)

/-- The messages of all pages, each with the empty one that ends it. -/
def sessionMessages (history : List (OString × OString)) (ms : List Message) : List OString :=
  (pageRequests history ms).flatMap fun q => pageMessages q.1 q.2 ++ [[]]

/-- The operations of a page. -/
def pageOps (req : ReqT) (n : ℕ) : List (Op ServerCb) :=
  [.contentType (lit "text/html"),
    .write (lit "Hello World from libuv in reason"),
    .write (lit "<br>Url: " ++ req.url),
    .write (lit "<br>Headers:<br>" ++ printHeaders req.headers),
    .on .Data (.closure .testdata),
    .on .End (.closure .endConnection)] ++
  (List.replicate n (.write (lit "testdata")) ++ [.endConnection])

/-- No message of a page is empty. -/
theorem pageMessages_ne_nil (req : ReqT) (n : ℕ) : ∀ m ∈ pageMessages req n, m ≠ [] := by
  intro m hm
  rcases List.mem_append.mp hm with hm | hm
  · rcases List.mem_cons.mp hm with rfl | hm
    · decide
    · rcases List.mem_cons.mp hm with rfl | hm
      · exact List.append_ne_nil_of_left_ne_nil (by decide) _
      · rw [List.mem_singleton.mp hm]
        exact List.append_ne_nil_of_left_ne_nil (by decide) _
  · rw [List.eq_of_mem_replicate hm]
    decide

/-- The messages of a page, and the empty one that ends it. -/
theorem messages_pageOps (req : ReqT) (n : ℕ) :
    messages (pageOps req n) = pageMessages req n ++ [[]] := by
  have hbody : messages (List.replicate n (.write (lit "testdata")) : List (Op ServerCb))
      = List.replicate n (lit "testdata") := by
    induction n with
    | zero => rfl
    | succ n ih => exact congrArg (lit "testdata" :: ·) ih
  have hend : messages ([.endConnection] : List (Op ServerCb)) = [[]] := rfl
  rw [pageOps, messages, List.filterMap_append, List.filterMap_append, ← messages, ← messages,
    ← messages, hbody, hend, pageMessages, ← printHeaders_eq, List.append_assoc]
  rfl

/-- A page keeps the transfer encoding. -/
theorem keeps_pageOps (req : ReqT) (n : ℕ) :
    ∀ o ∈ pageOps req n, o.keepsTransferEncoding = true := by
  intro o ho
  rcases List.mem_append.mp ho with ho | ho
  · simp only [List.mem_cons, List.not_mem_nil, or_false] at ho
    rcases ho with rfl | rfl | rfl | rfl | rfl | rfl <;> rfl
  · rcases List.mem_append.mp ho with ho | ho
    · rw [List.eq_of_mem_replicate ho]
      rfl
    · rw [List.mem_singleton.mp ho]
      rfl

/-- A page ends the connection once. -/
theorem countP_isEnd_pages (qs : List (ReqT × ℕ)) :
    (qs.flatMap fun q => pageOps q.1 q.2).countP Op.isEnd = qs.length := by
  induction qs with
  | nil => rfl
  | cons q qs ih =>
    have hpage : (pageOps q.1 q.2).countP Op.isEnd = 1 := by
      rw [pageOps, List.countP_append, List.countP_append, List.countP_replicate]
      rfl
    rw [List.flatMap_cons, List.countP_append, ih, hpage, List.length_cons, Nat.add_comm]

/-- There is a page for every message. -/
theorem length_pageRequests (history : List (OString × OString)) (ms : List Message) :
    (pageRequests history ms).length = ms.length := by
  induction ms generalizing history with
  | nil => rfl
  | cons m ms ih => exact congrArg (· + 1) (ih _)

/-! ## What the handler does -/

/-- The closures of the handler are in force. -/
structure Registered (p : Progress ServerCb Unit) : Prop where
  onData : p.res.onData = .closure .testdata
  onEnd : p.res.onEnd = .closure .endConnection

section Handler

variable (now : Tm) {p : Progress ServerCb Unit}

/-- A string of the body. -/
theorem data_exampleServer (hp : Registered p) (b : OString) :
    Registered (p.data now exampleServer b) ∧
      (p.data now exampleServer b).ops = p.ops ++ [.write (lit "testdata")] := by
  have hdata : p.data now exampleServer b = p.script now ([.write (lit "testdata")], ()) := by
    rw [Progress.data, hp.onData]
    rfl
  rw [hdata]
  refine ⟨⟨?_, ?_⟩, rfl⟩
  · rw [Progress.script, onData_afterOps]
    exact hp.onData
  · rw [Progress.script, onEnd_afterOps]
    exact hp.onEnd

/-- All strings of the body. -/
theorem foldl_data_exampleServer (hp : Registered p) (bs : List OString) :
    Registered (bs.foldl (Progress.data now exampleServer) p) ∧
      (bs.foldl (Progress.data now exampleServer) p).ops
        = p.ops ++ List.replicate bs.length (.write (lit "testdata")) := by
  induction bs generalizing p with
  | nil => exact ⟨hp, (List.append_nil _).symm⟩
  | cons b bs ih =>
    obtain ⟨hnext, hops⟩ := data_exampleServer now hp b
    obtain ⟨hlast, hall⟩ := ih hnext
    refine ⟨hlast, ?_⟩
    rw [List.foldl_cons, hall, hops, List.append_assoc, List.length_cons, List.replicate_succ]
    rfl

/-- **One message is one page**, whatever the response was before. -/
theorem message_exampleServer (p : Progress ServerCb Unit) (req : ReqT) (body : List OString) :
    (p.message now exampleServer req body).ops = p.ops ++ pageOps req body.length := by
  have hregistered : Registered (p.request now exampleServer req) := by
    refine ⟨?_, ?_⟩
    · rw [Progress.request, Progress.script, onData_afterOps]
      rfl
    · rw [Progress.request, Progress.script, onEnd_afterOps]
      rfl
  obtain ⟨hlast, hops⟩ := foldl_data_exampleServer now hregistered body
  have hfinish : ∀ q : Progress ServerCb Unit, Registered q →
      (q.finish now exampleServer).ops = q.ops ++ [.endConnection] := by
    intro q hq
    rw [Progress.finish, hq.onEnd]
    rfl
  rw [Progress.message, hfinish _ hlast, hops, Progress.request, Progress.script, pageOps,
    List.append_assoc, List.append_assoc]
  rfl

/-- A session is answered page by page. -/
theorem session_exampleServer (p : Progress ServerCb Unit) (history : List (OString × OString))
    (ms : List Message) :
    (p.session now exampleServer history ms).ops
      = p.ops ++ (pageRequests history ms).flatMap fun q => pageOps q.1 q.2 := by
  induction ms generalizing p history with
  | nil => exact (List.append_nil _).symm
  | cons m ms ih =>
    rw [Progress.session, ih, message_exampleServer, List.append_assoc]
    rfl

end Handler

/-! ## What the clients read -/

/-- **Every client reads a page.**  Whatever messages the clients send, and in whatever
order these arrive, a client whose messages have all arrived reads one response: status
200, an HTML page that ends with one `testdata` for each string of the body of the first
message; behind it are the pages of its later messages, as chunks without a head; and its
connection is shut down once for each message. -/
theorem exampleServer_clients (now : Tm) (visits : ClientT → Visit) (es : List ServerEvent)
    (hes : UnderWay visits es) (c : ClientT) (m : Message) (ms : List Message)
    (hvisit : visits c = .served (m :: ms)) (harrived : eventsOf c es = (visits c).events c) :
    ClientReads (sent (observe (Server.run now exampleServer () es).store c).calls) 200
      ([(lit "Content-type", lit "text/html"), (lit "Date", dateToStr now)] ++ initialFields)
      (pageMessages m.request m.body.length).flatten
      (chunkFormat.stream (sessionMessages (m.headers ++ m.trailers) ms)) ∧
    (observe (Server.run now exampleServer () es).store c).calls.count .uvShutdown
      = ms.length + 1 := by
  have hcalls := ((observe_underWay now exampleServer () visits es hes c).2.2 harrived).1
  rw [hvisit, Visit.calls, sessionOps, session_exampleServer, Progress.start, List.nil_append]
    at hcalls
  rw [hcalls]
  constructor
  · have hmessages : messages ((pageRequests [] (m :: ms)).flatMap fun q => pageOps q.1 q.2)
        = pageMessages m.request m.body.length ++
          [] :: sessionMessages (m.headers ++ m.trailers) ms := by
      rw [messages_flatMap]
      simp only [messages_pageOps]
      rw [← sessionMessages]
      show pageMessages (assembled [] m) m.body.length ++ [[]] ++ _ = _
      rw [List.append_assoc]
      rfl
    have hkeeps : ∀ o ∈ (pageRequests [] (m :: ms)).flatMap fun q => pageOps q.1 q.2,
        o.keepsTransferEncoding = true := by
      intro o ho
      obtain ⟨q, -, hq⟩ := List.mem_flatMap.mp ho
      exact keeps_pageOps q.1 q.2 o hq
    have hfirst : afterOps now (initialRes c) (beforeFirstMessage
        ((pageRequests [] (m :: ms)).flatMap fun q => pageOps q.1 q.2))
        = { initialRes c with statusCode := 200, contentType := lit "text/html" } := rfl
    exact clientReads_of_fresh now c _ hkeeps hfirst (by decide) (by decide)
      ⟨by decide, by decide, by decide, by decide⟩ hmessages (pageMessages_ne_nil _ _)
  · rw [count_shutdown_callsOf, countP_isEnd_pages, length_pageRequests, List.length_cons]

theorem exampleServer_clients_meeting :
    ClientReads (sent (observe (Server.run epoch exampleServer () meeting).store 1).calls) 200
      ([(lit "Content-type", lit "text/html"), (lit "Date", dateToStr epoch)] ++ initialFields)
      (pageMessages ⟨lit "/a", firstBindings [(lit "Host", lit "x")]⟩ 1).flatten
      (chunkFormat.stream (sessionMessages ([(lit "Host", lit "x")] ++ []) [])) ∧
    (observe (Server.run epoch exampleServer () meeting).store 1).calls.count .uvShutdown
      = 0 + 1 :=
  exampleServer_clients epoch threeVisits meeting underWay_meeting 1
    ⟨lit "/a", [(lit "Host", lit "x")], [lit "b"], []⟩ [] rfl (by decide)
