/-
# Assembly of requests

What the request callback is given, for the events that a parser makes out of a
request.  The accumulators of `createParser` are one string, which every URL event
overwrites, and two lists, which every name and every value event pushes to and
which nothing ever empties.  The header map is folded from the two lists, the
newest pair first, so the oldest pair of a name is the one that stays.
-/
import UvHttp.ConnectionLog

variable {κ σ : Type}

/-! ## The header map -/

/-- The map that sends every name to the value of its first pair. -/
def firstBindings (ps : List (OString × OString)) : StringMap OString :=
  ps.foldr (fun p map => map.insert p.1 p.2) ∅

theorem getElem?_firstBindings (ps : List (OString × OString)) (k : OString) :
    (firstBindings ps)[k]? = ps.lookup k := by
  induction ps with
  | nil => simp [firstBindings]
  | cons p ps ih =>
    show ((firstBindings ps).insert p.1 p.2)[k]? = _
    rw [StringMap.getElem?_add, List.lookup_cons, ih]
    by_cases hk : p.1 = k
    · simp [hk]
    · have hbeq : (k == p.1) = false := by simpa using fun h => hk h.symm
      rw [if_neg hk, hbeq]

theorem firstBindings_eq_iff (ps qs : List (OString × OString)) :
    firstBindings ps = firstBindings qs ↔ ∀ k, ps.lookup k = qs.lookup k := by
  constructor
  · intro h k
    rw [← getElem?_firstBindings, h, getElem?_firstBindings]
  · intro h
    refine Std.ExtTreeMap.ext_getElem? fun k => ?_
    rw [getElem?_firstBindings, getElem?_firstBindings, h]

/-- With as many names as values, pushed in order, the fold binds every name to the
value of its first pair. -/
theorem headersOf_reverse (names values : List OString) (h : names.length = values.length) :
    headersOf names.reverse values.reverse = .ok (firstBindings (names.zip values)) := by
  have hzip : names.reverse.zip values.reverse = (names.zip values).reverse := by
    rw [List.zip_eq_zipWith, List.zip_eq_zipWith, List.reverse_zipWith h]
  rw [headersOf, foldLeft2_of_length_eq _ _ _ _ (by simpa using h), hzip, List.foldl_reverse]
  rfl

/-- With more names than values, or fewer, the fold raises. -/
theorem headersOf_reverse_of_ne (names values : List OString) (h : names.length ≠ values.length) :
    headersOf names.reverse values.reverse = .error (.invalidArgument "List.fold_left2") :=
  foldLeft2_of_length_ne _ _ _ _ (by simpa using h)

/-! ## What a handler sees -/

/-- Operations are neither requests nor data. -/
theorem seen_didLog (now : Tm) (res : ResT κ) (ops : List (Op κ)) :
    requestsSeen (Conn.didLog now res ops) = [] ∧ dataSeen (Conn.didLog now res ops) = [] := by
  induction ops generalizing res with
  | nil => exact ⟨rfl, rfl⟩
  | cons o ops ih => exact ih _

theorem requestsSeen_act (now : Tm) (s : Conn κ σ) (a : Entry κ) (script : List (Op κ) × σ) :
    requestsSeen (s.act now a script).log = requestsSeen s.log ++ requestsSeen [a] := by
  have hdid := (seen_didLog now s.res script.1).1
  rw [Conn.act, requestsSeen_append, ← List.singleton_append, requestsSeen_append, hdid,
    List.append_nil]

theorem dataSeen_act (now : Tm) (s : Conn κ σ) (a : Entry κ) (script : List (Op κ) × σ) :
    dataSeen (s.act now a script).log = dataSeen s.log ++ dataSeen [a] := by
  have hdid := (seen_didLog now s.res script.1).2
  rw [Conn.act, dataSeen_append, ← List.singleton_append, dataSeen_append, hdid, List.append_nil]

/-! ## The accumulators along a run -/

/-- The accumulators and what has been seen on a connection: the last URL, the
names and the values in the order of their events, the requests and the data. -/
structure Conn.Seen (s : Conn κ σ) (url : OString) (names values : List OString)
    (reqs : List ReqT) (data : List OString) : Prop where
  url : s.url = url
  fields : s.fields = names.reverse
  values : s.values = values.reverse
  requests : requestsSeen s.log = reqs
  data : dataSeen s.log = data

theorem accept_seen (client : ClientT) (own : σ) :
    (Conn.accept client own : Conn κ σ).Seen [] [] [] [] [] := ⟨rfl, rfl, rfl, rfl, rfl⟩

section Steps

variable (now : Tm) (h : Handler κ σ) {s : Conn κ σ} {url : OString}
  {names values : List OString} {reqs : List ReqT} {data : List OString}

theorem run_messageBegin (es : List Event) :
    s.run now h (.messageBegin :: es) = s.run now h es := rfl

/-- A run of events of one kind, by the step for one event: what holds of the pieces
that have arrived goes on to hold when one more arrives. -/
theorem exists_run_pieces (kind : OString → Event) {P : List OString → Conn κ σ → Prop}
    (hstep : ∀ pre x s, P pre s → ∃ s', s.step now h (kind x) = .ok s' ∧ P (pre ++ [x]) s')
    (pre xs : List OString) (hs : P pre s) (es : List Event) :
    ∃ s' : Conn κ σ, s.run now h (xs.map kind ++ es) = s'.run now h es ∧ P (pre ++ xs) s' := by
  induction xs generalizing s pre with
  | nil => exact ⟨s, rfl, by rw [List.append_nil]; exact hs⟩
  | cons x xs ih =>
    obtain ⟨s₁, hstep₁, hs₁⟩ := hstep pre x s hs
    obtain ⟨s₂, hrun, hs₂⟩ := ih (pre ++ [x]) hs₁
    rw [List.append_assoc] at hs₂
    refine ⟨s₂, ?_, hs₂⟩
    rw [List.map_cons, List.cons_append, Conn.run, hstep₁]
    exact hrun

/-- Every URL event overwrites the URL. -/
theorem exists_run_urls (hs : s.Seen url names values reqs data) (us : List OString)
    (es : List Event) :
    ∃ s' : Conn κ σ, s.run now h (us.map .url ++ es) = s'.run now h es ∧
      s'.Seen (us.getLastD url) names values reqs data := by
  refine exists_run_pieces now h .url
    (P := fun us s => s.Seen (us.getLastD url) names values reqs data) ?_ [] us hs es
  intro pre u s hs
  refine ⟨{ s with url := u }, rfl, ?_, hs.fields, hs.values, hs.requests, hs.data⟩
  rw [List.getLastD_concat]

/-- Every name event pushes a name. -/
theorem exists_run_names (hs : s.Seen url names values reqs data) (fs : List OString)
    (es : List Event) :
    ∃ s' : Conn κ σ, s.run now h (fs.map .headerField ++ es) = s'.run now h es ∧
      s'.Seen url (names ++ fs) values reqs data := by
  refine exists_run_pieces now h .headerField
    (P := fun names s => s.Seen url names values reqs data) ?_ names fs hs es
  intro pre f s hs
  refine ⟨{ s with fields := f :: s.fields }, rfl, hs.url, ?_, hs.values, hs.requests, hs.data⟩
  rw [List.reverse_append, hs.fields]
  rfl

/-- Every value event pushes a value. -/
theorem exists_run_values (hs : s.Seen url names values reqs data) (vs : List OString)
    (es : List Event) :
    ∃ s' : Conn κ σ, s.run now h (vs.map .headerValue ++ es) = s'.run now h es ∧
      s'.Seen url names (values ++ vs) reqs data := by
  refine exists_run_pieces now h .headerValue
    (P := fun values s => s.Seen url names values reqs data) ?_ values vs hs es
  intro pre v s hs
  refine ⟨{ s with values := v :: s.values }, rfl, hs.url, hs.fields, ?_, hs.requests, hs.data⟩
  rw [List.reverse_append, hs.values]
  rfl

/-- Body events hand their strings on and leave the accumulators alone. -/
theorem exists_run_bodies (hs : s.Seen url names values reqs data) (bs : List OString)
    (es : List Event) :
    ∃ s' : Conn κ σ, s.run now h (bs.map .body ++ es) = s'.run now h es ∧
      s'.Seen url names values reqs (data ++ bs) := by
  refine exists_run_pieces now h .body
    (P := fun data s => s.Seen url names values reqs data) ?_ data bs hs es
  intro pre b s hs
  refine ⟨s.act now (.data s.res.onData b)
    (s.scriptOf (fun k res own => h.data k b res own) s.res.onData), rfl,
    hs.url, hs.fields, hs.values, ?_, ?_⟩
  · rw [requestsSeen_act, hs.requests]
    exact List.append_nil _
  · rw [dataSeen_act, hs.data]
    rfl

/-- With as many names as values, the end of the headers calls the handler once. -/
theorem exists_run_headersComplete (hs : s.Seen url names values reqs data)
    (hlen : names.length = values.length) (es : List Event) :
    ∃ s' : Conn κ σ, s.run now h (.headersComplete :: es) = s'.run now h es ∧
      s'.Seen url names values (reqs ++ [⟨url, firstBindings (names.zip values)⟩]) data := by
  have hheaders : headersOf s.fields s.values = .ok (firstBindings (names.zip values)) := by
    rw [hs.fields, hs.values, headersOf_reverse names values hlen]
  let req : ReqT := ⟨s.url, firstBindings (names.zip values)⟩
  refine ⟨s.act now (.request req s.res) (h.request req s.res s.own), ?_,
    hs.url, hs.fields, hs.values, ?_, ?_⟩
  · rw [Conn.run, Conn.step, hheaders]
  · rw [requestsSeen_act, hs.requests, ← hs.url]
    rfl
  · rw [dataSeen_act, hs.data]
    exact List.append_nil _

/-- With more names than values, or fewer, the end of the headers raises. -/
theorem run_headersComplete_of_ne (hs : s.Seen url names values reqs data)
    (hlen : names.length ≠ values.length) (es : List Event) :
    s.run now h (.headersComplete :: es)
      = (s, some (.invalidArgument "List.fold_left2")) := by
  have hheaders : headersOf s.fields s.values = .error (.invalidArgument "List.fold_left2") := by
    rw [hs.fields, hs.values, headersOf_reverse_of_ne names values hlen]
  rw [Conn.run, Conn.step, hheaders]

/-- The end of a message leaves the accumulators alone. -/
theorem exists_run_messageComplete (hs : s.Seen url names values reqs data) (es : List Event) :
    ∃ s' : Conn κ σ, s.run now h (.messageComplete :: es) = s'.run now h es ∧
      s'.Seen url names values reqs data := by
  refine ⟨s.act now (.finish s.res.onEnd) (s.scriptOf h.finish s.res.onEnd), rfl,
    hs.url, hs.fields, hs.values, ?_, ?_⟩
  · rw [requestsSeen_act, hs.requests]
    exact List.append_nil _
  · rw [dataSeen_act, hs.data]
    exact List.append_nil _

end Steps

/-! ## One request, cut into reads -/

/-- A request as it stands on the wire. -/
structure Request where
  url : OString
  headers : List (OString × OString)
  body : OString

/-- Consecutive pieces of a string: at least one, some perhaps empty. -/
def IsCut (s : OString) (pieces : List OString) : Prop := pieces ≠ [] ∧ pieces.flatten = s

instance (s : OString) (pieces : List OString) : Decidable (IsCut s pieces) :=
  inferInstanceAs (Decidable (_ ∧ _))

/-- What one way of cutting the bytes of a request into reads makes of its events:
the URL, every name, every value and the body arrive in pieces. -/
structure Reading (r : Request) where
  url : List OString
  headers : List (List OString × List OString)
  body : List OString
  url_cut : IsCut r.url url
  headers_cut : List.Forall₂ (fun h p => IsCut h.1 p.1 ∧ IsCut h.2 p.2) r.headers headers
  body_cut : body.flatten = r.body

namespace Reading

variable {r : Request}

/-- The events of one header. -/
def headerEvents (p : List OString × List OString) : List Event :=
  p.1.map .headerField ++ p.2.map .headerValue

/-- The events of the request as read. -/
def events (a : Reading r) : List Event :=
  .messageBegin :: (a.url.map .url ++ (a.headers.flatMap headerEvents ++
    .headersComplete :: (a.body.map .body ++ [.messageComplete])))

/-- All pieces of names. -/
def names (a : Reading r) : List OString := a.headers.flatMap Prod.fst

/-- All pieces of values. -/
def values (a : Reading r) : List OString := a.headers.flatMap Prod.snd

end Reading

/-- The pieces of the headers end up in the two lists. -/
theorem exists_run_headers (now : Tm) (h : Handler κ σ) {s : Conn κ σ} {url : OString}
    {names values : List OString} {reqs : List ReqT} {data : List OString}
    (hs : s.Seen url names values reqs data) (ps : List (List OString × List OString))
    (es : List Event) :
    ∃ s' : Conn κ σ, s.run now h (ps.flatMap Reading.headerEvents ++ es) = s'.run now h es ∧
      s'.Seen url (names ++ ps.flatMap Prod.fst) (values ++ ps.flatMap Prod.snd) reqs data := by
  induction ps generalizing s names values with
  | nil => exact ⟨s, rfl, by simpa using hs⟩
  | cons p ps ih =>
    obtain ⟨s₁, hrun₁, hs₁⟩ := exists_run_names now h hs p.1
      (p.2.map .headerValue ++ (ps.flatMap Reading.headerEvents ++ es))
    obtain ⟨s₂, hrun₂, hs₂⟩ := exists_run_values now h hs₁ p.2
      (ps.flatMap Reading.headerEvents ++ es)
    obtain ⟨s₃, hrun₃, hs₃⟩ := ih hs₂
    refine ⟨s₃, ?_, by simpa using hs₃⟩
    rw [List.flatMap_cons, Reading.headerEvents, List.append_assoc, List.append_assoc, hrun₁,
      hrun₂, hrun₃]

/-- The connection when all pieces of the head have arrived. -/
theorem exists_serve_head (now : Tm) (h : Handler κ σ) (client : ClientT) (own : σ) {r : Request}
    (a : Reading r) :
    ∃ s : Conn κ σ, serve now h client own a.events
        = s.run now h (.headersComplete :: (a.body.map .body ++ [.messageComplete])) ∧
      s.Seen (a.url.getLastD []) a.names a.values [] [] := by
  obtain ⟨s₁, hrun₁, hs₁⟩ := exists_run_urls now h (accept_seen client own) a.url
    (a.headers.flatMap Reading.headerEvents ++
      .headersComplete :: (a.body.map .body ++ [.messageComplete]))
  obtain ⟨s₂, hrun₂, hs₂⟩ := exists_run_headers now h hs₁ a.headers
    (.headersComplete :: (a.body.map .body ++ [.messageComplete]))
  refine ⟨s₂, ?_, hs₂⟩
  rw [serve_eq_run, Reading.events, run_messageBegin, hrun₁, hrun₂]

/-- **What a cut request looks like to the handler.**  The URL is the last piece of
the URL.  When there are as many pieces of names as of values, the handler is
called once, with the pieces paired in order. -/
theorem serve_reading (now : Tm) (h : Handler κ σ) (client : ClientT) (own : σ) {r : Request}
    (a : Reading r) (hlen : a.names.length = a.values.length) :
    (serve now h client own a.events).2 = none ∧
      requestsSeen (serve now h client own a.events).1.log
        = [⟨a.url.getLastD [], firstBindings (a.names.zip a.values)⟩] ∧
      dataSeen (serve now h client own a.events).1.log = a.body := by
  obtain ⟨s₁, hrun₁, hs₁⟩ := exists_serve_head now h client own a
  obtain ⟨s₂, hrun₂, hs₂⟩ := exists_run_headersComplete now h hs₁ hlen
    (a.body.map .body ++ [.messageComplete])
  obtain ⟨s₃, hrun₃, hs₃⟩ := exists_run_bodies now h hs₂ a.body [.messageComplete]
  obtain ⟨s₄, hrun₄, hs₄⟩ := exists_run_messageComplete now h hs₃ []
  have hserve : serve now h client own a.events = (s₄, none) := by
    rw [hrun₁, hrun₂, hrun₃, hrun₄]
    rfl
  rw [hserve]
  exact ⟨rfl, hs₄.requests, hs₄.data⟩

/-- With more pieces of names than of values, or fewer, the request callback is
never reached: `List.fold_left2` raises. -/
theorem serve_reading_of_ne (now : Tm) (h : Handler κ σ) (client : ClientT) (own : σ)
    {r : Request} (a : Reading r) (hlen : a.names.length ≠ a.values.length) :
    (serve now h client own a.events).2 = some (.invalidArgument "List.fold_left2") := by
  obtain ⟨s, hrun, hs⟩ := exists_serve_head now h client own a
  rw [hrun, run_headersComplete_of_ne now h hs hlen]

/-- Two ways of cutting a request come to the same: neither raises, the handler is
called with the same requests, and the data is the body in both. -/
def SameRequest (now : Tm) (h : Handler κ σ) (client : ClientT) (own : σ) {r : Request}
    (a b : Reading r) : Prop :=
  (serve now h client own a.events).2 = none ∧ (serve now h client own b.events).2 = none ∧
    requestsSeen (serve now h client own a.events).1.log
      = requestsSeen (serve now h client own b.events).1.log ∧
    (dataSeen (serve now h client own a.events).1.log).flatten = r.body ∧
    (dataSeen (serve now h client own b.events).1.log).flatten = r.body

/-- Each cut has as many pieces of names as of values, the last pieces of the URL
are the same, and, the pieces paired in order, every string is first paired with
the same piece of a value. -/
def CutsAgree {r : Request} (a b : Reading r) : Prop :=
  a.names.length = a.values.length ∧ b.names.length = b.values.length ∧
    a.url.getLastD [] = b.url.getLastD [] ∧
    ∀ k, (a.names.zip a.values).lookup k = (b.names.zip b.values).lookup k

/-- **Requests do not depend on the reads, exactly when the cuts agree.**  The body
may be cut anywhere. -/
theorem sameRequest_iff (now : Tm) (h : Handler κ σ) (client : ClientT) (own : σ) {r : Request}
    (a b : Reading r) : SameRequest now h client own a b ↔ CutsAgree a b := by
  constructor
  · rintro ⟨ha, hb, hreqs, -, -⟩
    -- no exception means equal numbers of pieces, and then the requests are known
    have hla : a.names.length = a.values.length := by
      by_contra hne
      rw [serve_reading_of_ne now h client own a hne] at ha
      cases ha
    have hlb : b.names.length = b.values.length := by
      by_contra hne
      rw [serve_reading_of_ne now h client own b hne] at hb
      cases hb
    rw [(serve_reading now h client own a hla).2.1, (serve_reading now h client own b hlb).2.1,
      List.cons.injEq, ReqT.mk.injEq] at hreqs
    obtain ⟨⟨hurl, hheaders⟩, -⟩ := hreqs
    exact ⟨hla, hlb, hurl, (firstBindings_eq_iff _ _).mp hheaders⟩
  · rintro ⟨hla, hlb, hurl, hheaders⟩
    obtain ⟨ha, hra, hda⟩ := serve_reading now h client own a hla
    obtain ⟨hb, hrb, hdb⟩ := serve_reading now h client own b hlb
    refine ⟨ha, hb, ?_, ?_, ?_⟩
    · rw [hra, hrb, hurl, (firstBindings_eq_iff _ _).mpr hheaders]
    · rw [hda, a.body_cut]
    · rw [hdb, b.body_cut]

/-- `GET /index` with one header. -/
def indexRequest : Request := ⟨lit "/index", [(lit "Host", lit "a")], []⟩

/-- The request in one read. -/
def indexWhole : Reading indexRequest where
  url := [lit "/index"]
  headers := [([lit "Host"], [lit "a"])]
  body := []
  url_cut := by decide
  headers_cut := .cons (by decide) .nil
  body_cut := rfl

/-- The request with a read that ends inside the URL. -/
def indexUrlCut : Reading indexRequest where
  url := [lit "/in", lit "dex"]
  headers := [([lit "Host"], [lit "a"])]
  body := []
  url_cut := by decide
  headers_cut := .cons (by decide) .nil
  body_cut := rfl

/-- The request with a read that ends inside the name of the header. -/
def indexNameCut : Reading indexRequest where
  url := [lit "/index"]
  headers := [([lit "Ho", lit "st"], [lit "a"])]
  body := []
  url_cut := by decide
  headers_cut := .cons (by decide) .nil
  body_cut := rfl

/-- A cut inside the URL changes the request, and a cut inside a name raises. -/
theorem not_sameRequest_index :
    ¬ SameRequest epoch exampleServer 0 () indexWhole indexUrlCut ∧
      ¬ SameRequest epoch exampleServer 0 () indexWhole indexNameCut := by
  constructor
  · rintro ⟨-, -, hreqs, -⟩
    rw [(serve_reading epoch exampleServer 0 () indexWhole rfl).2.1,
      (serve_reading epoch exampleServer 0 () indexUrlCut rfl).2.1, List.cons.injEq,
      ReqT.mk.injEq] at hreqs
    exact absurd hreqs.1.1 (by decide)
  · rintro ⟨-, hraise, -⟩
    rw [serve_reading_of_ne epoch exampleServer 0 () indexNameCut (by decide)] at hraise
    cases hraise

/-! ## Requests on a persistent connection -/

/-- One message as an unfragmented parse delivers it: a URL, headers, the pieces of
the body, and trailers. -/
structure Message where
  url : OString
  headers : List (OString × OString)
  body : List OString
  trailers : List (OString × OString)

namespace Message

/-- The events of a list of pairs. -/
def pairEvents (ps : List (OString × OString)) : List Event :=
  ps.flatMap fun p => [.headerField p.1, .headerValue p.2]

/-- The events of a message. -/
def events (m : Message) : List Event :=
  .messageBegin :: .url m.url :: (pairEvents m.headers ++
    .headersComplete :: (m.body.map .body ++ (pairEvents m.trailers ++ [.messageComplete])))

/-- The request of a message, from its own URL and headers. -/
def request (m : Message) : ReqT := ⟨m.url, firstBindings m.headers⟩

/-- All pairs of a list of messages, headers and trailers in order. -/
def pairs (ms : List Message) : List (OString × OString) :=
  ms.flatMap fun m => m.headers ++ m.trailers

end Message

/-- The request that the code assembles for a message after earlier pairs. -/
def assembled (history : List (OString × OString)) (m : Message) : ReqT :=
  ⟨m.url, firstBindings (history ++ m.headers)⟩

/-- The requests for a list of messages after earlier pairs. -/
def assembledAll : List (OString × OString) → List Message → List ReqT
  | _, [] => []
  | history, m :: ms =>
    assembled history m :: assembledAll (history ++ (m.headers ++ m.trailers)) ms

section Messages

variable (now : Tm) (h : Handler κ σ) {s : Conn κ σ} {url : OString}
  {history : List (OString × OString)} {reqs : List ReqT} {data : List OString}

/-- Pairs are pushed to both lists. -/
theorem exists_run_pairs (hs : s.Seen url (history.map Prod.fst) (history.map Prod.snd) reqs data)
    (ps : List (OString × OString)) (es : List Event) :
    ∃ s' : Conn κ σ, s.run now h (Message.pairEvents ps ++ es) = s'.run now h es ∧
      s'.Seen url ((history ++ ps).map Prod.fst) ((history ++ ps).map Prod.snd) reqs data := by
  have hevents : Message.pairEvents ps
      = (ps.map fun p => ([p.1], [p.2])).flatMap Reading.headerEvents := by
    rw [Message.pairEvents, List.flatMap_map]
    rfl
  obtain ⟨s', hrun, hs'⟩ := exists_run_headers now h hs
    (ps.map fun p => ([p.1], [p.2])) es
  have hfst : (ps.map fun p => ([p.1], [p.2])).flatMap Prod.fst = ps.map Prod.fst := by
    rw [List.flatMap_map, List.map_eq_flatMap]
  have hsnd : (ps.map fun p => ([p.1], [p.2])).flatMap Prod.snd = ps.map Prod.snd := by
    rw [List.flatMap_map, List.map_eq_flatMap]
  refine ⟨s', by rw [hevents, hrun], ?_⟩
  rw [List.map_append, List.map_append, ← hfst, ← hsnd]
  exact hs'

/-- **One message of a connection**: the handler is called with a header map that
holds every pair the connection has seen, and the pairs stay. -/
theorem exists_run_message
    (hs : s.Seen url (history.map Prod.fst) (history.map Prod.snd) reqs data) (m : Message)
    (es : List Event) :
    ∃ s' : Conn κ σ, s.run now h (m.events ++ es) = s'.run now h es ∧
      s'.Seen m.url ((history ++ (m.headers ++ m.trailers)).map Prod.fst)
        ((history ++ (m.headers ++ m.trailers)).map Prod.snd)
        (reqs ++ [assembled history m]) (data ++ m.body) := by
  obtain ⟨s₁, hrun₁, hs₁⟩ := exists_run_urls now h hs [m.url]
    (Message.pairEvents m.headers ++ .headersComplete :: (m.body.map .body ++
      (Message.pairEvents m.trailers ++ .messageComplete :: es)))
  obtain ⟨s₂, hrun₂, hs₂⟩ := exists_run_pairs now h hs₁ m.headers
    (.headersComplete :: (m.body.map .body ++
      (Message.pairEvents m.trailers ++ .messageComplete :: es)))
  obtain ⟨s₃, hrun₃, hs₃⟩ := exists_run_headersComplete now h hs₂ (by simp)
    (m.body.map .body ++ (Message.pairEvents m.trailers ++ .messageComplete :: es))
  obtain ⟨s₄, hrun₄, hs₄⟩ := exists_run_bodies now h hs₃ m.body
    (Message.pairEvents m.trailers ++ .messageComplete :: es)
  obtain ⟨s₅, hrun₅, hs₅⟩ := exists_run_pairs now h hs₄ m.trailers
    (.messageComplete :: es)
  obtain ⟨s₆, hrun₆, hs₆⟩ := exists_run_messageComplete now h hs₅ es
  have hzip : ((history ++ m.headers).map Prod.fst).zip ((history ++ m.headers).map Prod.snd)
      = history ++ m.headers := by
    rw [← List.unzip_fst, ← List.unzip_snd, List.zip_unzip]
  refine ⟨s₆, ?_, ?_⟩
  · have hevents : m.events ++ es = .messageBegin :: ([m.url].map .url ++
        (Message.pairEvents m.headers ++ .headersComplete :: (m.body.map .body ++
          (Message.pairEvents m.trailers ++ .messageComplete :: es)))) := by
      simp [Message.events]
    rw [hevents, run_messageBegin, hrun₁, hrun₂, hrun₃, hrun₄, hrun₅, hrun₆]
  · -- names and values were pushed in pairs, so zipping them gives the pairs back
    rw [hzip] at hs₆
    rw [← List.append_assoc history]
    exact hs₆

/-- **A run of messages**, by the step for one message. -/
theorem exists_run_messages (history : List (OString × OString))
    (hs : s.Seen url (history.map Prod.fst) (history.map Prod.snd) reqs data)
    (ms : List Message) :
    (s.run now h (ms.flatMap Message.events)).2 = none ∧
      requestsSeen (s.run now h (ms.flatMap Message.events)).1.log
        = reqs ++ assembledAll history ms := by
  induction ms generalizing s url history reqs data with
  | nil => exact ⟨rfl, by rw [assembledAll, List.append_nil]; exact hs.requests⟩
  | cons m ms ih =>
    obtain ⟨s', hrun, hs'⟩ := exists_run_message now h hs m
      (ms.flatMap Message.events)
    obtain ⟨hnone, hreqs⟩ := ih _ hs'
    rw [List.flatMap_cons, hrun]
    exact ⟨hnone, by rw [hreqs, assembledAll, List.append_assoc]; rfl⟩

end Messages

/-- Every request that the handler sees is made of its own message alone. -/
def RequestsIsolated (now : Tm) (h : Handler κ σ) (client : ClientT) (own : σ)
    (ms : List Message) : Prop :=
  requestsSeen (serve now h client own (ms.flatMap Message.events)).1.log
    = ms.map Message.request

/-- Every name that an earlier message has in its headers or trailers has, in the
headers of each later message, the value it had first. -/
def EarlierPairsRepeated (ms : List Message) : Prop :=
  ∀ pre m post, ms = pre ++ m :: post →
    ∀ k v, (Message.pairs pre).lookup k = some v → m.headers.lookup k = some v

/-- One message after earlier pairs gives its own request exactly when it repeats
them. -/
theorem assembled_eq_request_iff (history : List (OString × OString)) (m : Message) :
    assembled history m = m.request ↔
      ∀ k v, history.lookup k = some v → m.headers.lookup k = some v := by
  rw [assembled, Message.request, ReqT.mk.injEq, firstBindings_eq_iff]
  simp only [true_and, List.lookup_append]
  constructor
  · intro h k v hk
    have := h k
    rw [hk] at this
    exact this.symm
  · intro h k
    cases hk : history.lookup k with
    | none => rfl
    -- the older pair wins, so the message has to repeat it
    | some v => exact (h k v hk).symm

theorem assembledAll_eq_iff (history : List (OString × OString)) (ms : List Message) :
    assembledAll history ms = ms.map Message.request ↔
      ∀ pre m post, ms = pre ++ m :: post → ∀ k v,
        (history ++ Message.pairs pre).lookup k = some v → m.headers.lookup k = some v := by
  induction ms generalizing history with
  | nil => simp [assembledAll]
  | cons m ms ih =>
    rw [assembledAll, List.map_cons, List.cons.injEq, assembled_eq_request_iff, ih]
    constructor
    · rintro ⟨hm, hms⟩ pre m' post hsplit
      cases pre with
      | nil =>
        obtain ⟨rfl, -⟩ := List.cons.inj hsplit
        simpa [Message.pairs] using hm
      | cons p pre =>
        obtain ⟨rfl, rfl⟩ := List.cons.inj hsplit
        have := hms pre m' post rfl
        simpa [Message.pairs] using this
    · intro hall
      refine ⟨?_, fun pre m' post hsplit => ?_⟩
      · have := hall [] m ms rfl
        simpa [Message.pairs] using this
      · have := hall (m :: pre) m' post (by rw [hsplit]; rfl)
        simpa [Message.pairs] using this

/-- **Requests are isolated exactly when every message repeats the earlier pairs.**
The accumulators are never emptied, so a pair of an earlier message, header or
trailer, is in the map of every later one and wins over its own. -/
theorem requestsIsolated_iff (now : Tm) (h : Handler κ σ) (client : ClientT) (own : σ)
    (ms : List Message) :
    RequestsIsolated now h client own ms ↔ EarlierPairsRepeated ms := by
  have hrun := (exists_run_messages now h []
    (accept_seen client own) ms).2
  rw [RequestsIsolated, serve_eq_run, hrun, List.nil_append, assembledAll_eq_iff]
  simp only [List.nil_append, EarlierPairsRepeated]

/-- Two requests, the second without the cookie of the first. -/
def cookieThenPlain : List Message :=
  [⟨lit "/a", [(lit "Cookie", lit "secret")], [], []⟩, ⟨lit "/b", [], [], []⟩]

/-- The second request is handed the cookie of the first. -/
theorem not_requestsIsolated_cookie :
    ¬ RequestsIsolated epoch exampleServer 0 () cookieThenPlain := by
  intro hiso
  have hrun := (exists_run_messages epoch exampleServer []
    (accept_seen 0 ()) cookieThenPlain).2
  rw [RequestsIsolated, serve_eq_run, hrun, List.nil_append, assembledAll_eq_iff] at hiso
  have := hiso [⟨lit "/a", [(lit "Cookie", lit "secret")], [], []⟩] ⟨lit "/b", [], [], []⟩ [] rfl
    (lit "Cookie") (lit "secret") (by decide)
  exact absurd this (by decide)
