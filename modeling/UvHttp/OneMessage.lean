/-
# One message, delivered in one piece

A message with each name and each value in one event: the order in which the request
callback, `onData` and `onEnd` are applied and what they are given, and how far they bring
the handler.
-/
import UvHttp.RequestAssembly

variable {κ σ : Type}

/-! ## Applications in order -/

/-- An application of one of the three callbacks, with the strings it is given. -/
inductive Call where
  | request (req : ReqT)
  | data (body : OString)
  | finish

/-- The application that an entry of the record stands for. -/
def Entry.call? : Entry κ → Option Call
  | .request req _ => some (.request req)
  | .data _ body => some (.data body)
  | .finish _ => some .finish
  | .did _ _ => none

/-- The applications in a record. -/
def callsSeen (log : List (Entry κ)) : List Call := log.filterMap Entry.call?

/-- The application that an event makes by itself, the end of the headers apart. -/
def Event.call? : Event → Option Call
  | .body b => some (.data b)
  | .messageComplete => some .finish
  | _ => none

/-- Operations are no applications. -/
theorem callsSeen_didLog (now : Tm) (res : ResT κ) (ops : List (Op κ)) :
    callsSeen (Conn.didLog now res ops) = [] := by
  induction ops generalizing res with
  | nil => rfl
  | cons o ops ih => exact ih _

/-- An application is recorded once, whatever its operations are. -/
theorem callsSeen_act (now : Tm) (s : Conn κ σ) (a : Entry κ) (script : List (Op κ) × σ) :
    callsSeen (s.act now a script).log = callsSeen s.log ++ callsSeen [a] := by
  rw [Conn.act, callsSeen, List.filterMap_append, ← List.singleton_append, List.filterMap_append]
  show callsSeen s.log ++ (callsSeen [a] ++ callsSeen (Conn.didLog now s.res script.1)) = _
  rw [callsSeen_didLog, List.append_nil]

/-! ## Runs -/

section Runs

variable (now : Tm) (h : Handler κ σ)

/-- A run over two lists of events goes on with the second unless the first raises. -/
theorem run_append (s : Conn κ σ) (es fs : List Event) :
    s.run now h (es ++ fs) = match s.run now h es with
      | (s', none) => s'.run now h fs
      | (s', some x) => (s', some x) := by
  induction es generalizing s with
  | nil => rfl
  | cons e es ih =>
    rw [List.cons_append, Conn.run, Conn.run]
    cases s.step now h e with
    | error x => rfl
    | ok s' => exact ih s'

/-- **The step**: an event other than the end of the headers raises nothing and applies
at most the callback that belongs to it. -/
theorem callsSeen_step (s : Conn κ σ) {e : Event} (he : e ≠ .headersComplete) :
    ∃ s', s.step now h e = .ok s' ∧
      callsSeen s'.log = callsSeen s.log ++ e.call?.toList := by
  cases e with
  | headersComplete => exact absurd rfl he
  | body b => exact ⟨_, rfl, callsSeen_act now s _ _⟩
  | messageComplete => exact ⟨_, rfl, callsSeen_act now s _ _⟩
  | _ => exact ⟨_, rfl, (List.append_nil _).symm⟩

/-- A run without the end of the headers. -/
theorem callsSeen_run (s : Conn κ σ) {es : List Event} (hes : .headersComplete ∉ es) :
    ∃ s', s.run now h es = (s', none) ∧
      callsSeen s'.log = callsSeen s.log ++ es.filterMap Event.call? := by
  induction es generalizing s with
  | nil => exact ⟨s, rfl, (List.append_nil _).symm⟩
  | cons e es ih =>
    rw [List.mem_cons, not_or] at hes
    obtain ⟨s₁, hstep, hcalls₁⟩ := callsSeen_step now h s (Ne.symm hes.1)
    obtain ⟨s₂, hrun, hcalls₂⟩ := ih s₁ hes.2
    refine ⟨s₂, ?_, ?_⟩
    · rw [Conn.run, hstep]
      exact hrun
    · rw [hcalls₂, hcalls₁, List.append_assoc, List.filterMap_cons]
      cases e.call? <;> rfl

end Runs

/-! ## The message -/

namespace Message

variable (m : Message)

/-- The events up to the end of the headers. -/
def headEvents : List Event := .messageBegin :: .url m.url :: pairEvents m.headers

/-- The events after the end of the headers. -/
def restEvents : List Event :=
  m.body.map .body ++ (pairEvents m.trailers ++ [.messageComplete])

/-- The end of the headers parts the events of a message in two. -/
theorem events_eq : m.events = m.headEvents ++ .headersComplete :: m.restEvents := rfl

/-- Names and values do not end the headers. -/
theorem headersComplete_notMem_pairEvents (ps : List (OString × OString)) :
    .headersComplete ∉ pairEvents ps := by
  intro hmem
  obtain ⟨p, -, hp⟩ := List.mem_flatMap.mp hmem
  simp at hp

/-- Names and values apply no callback. -/
theorem call_pairEvents (ps : List (OString × OString)) :
    (pairEvents ps).filterMap Event.call? = [] := by
  induction ps with
  | nil => rfl
  | cons p ps ih => exact ih

/-- The headers do not end before their end. -/
theorem headersComplete_notMem_headEvents : .headersComplete ∉ m.headEvents := by
  simp [headEvents, headersComplete_notMem_pairEvents]

/-- The headers do not end a second time. -/
theorem headersComplete_notMem_restEvents : .headersComplete ∉ m.restEvents := by
  simp [restEvents, headersComplete_notMem_pairEvents]

/-- No callback is applied before the end of the headers. -/
theorem call_headEvents : m.headEvents.filterMap Event.call? = [] := call_pairEvents m.headers

/-- After it `onData` is applied to every string of the body, then `onEnd`. -/
theorem call_restEvents :
    m.restEvents.filterMap Event.call? = m.body.map .data ++ [.finish] := by
  rw [restEvents, List.filterMap_append, List.filterMap_append, call_pairEvents,
    List.filterMap_map]
  congr 1
  induction m.body with
  | nil => rfl
  | cons b bs ih => exact congrArg (Call.data b :: ·) ih

end Message

/-- The map has the names of the pairs. -/
theorem mem_firstBindings_iff (ps : List (OString × OString)) (k : OString) :
    k ∈ firstBindings ps ↔ k ∈ ps.map Prod.fst := by
  rw [Std.ExtTreeMap.mem_iff_isSome_getElem?, getElem?_firstBindings]
  induction ps with
  | nil => simp
  | cons p ps ih =>
    rw [List.lookup_cons, List.map_cons, List.mem_cons]
    by_cases hk : k = p.1
    · simp [hk]
    · have hbeq : (k == p.1) = false := by simpa using hk
      rw [hbeq, ih]
      simp [hk]

/-! ## The big step -/

/-- How far the handler has got on a connection: the response, its own state, and the
operations it has performed. -/
@[ext]
structure Progress (κ σ : Type) where
  res : ResT κ
  own : σ
  ops : List (Op κ)

namespace Progress

variable (now : Tm) (h : Handler κ σ) (p : Progress κ σ)

/-- A response that was just made. -/
def start (client : ClientT) (own : σ) : Progress κ σ := ⟨initialRes client, own, []⟩

/-- One of the handler's scripts is performed. -/
def script (todo : List (Op κ) × σ) : Progress κ σ :=
  ⟨afterOps now p.res todo.1, todo.2, p.ops ++ todo.1⟩

/-- The request callback. -/
def request (req : ReqT) : Progress κ σ := p.script now (h.request req p.res p.own)

/-- The callback that is in force for the strings of a body. -/
def data (body : OString) : Progress κ σ :=
  match p.res.onData with
  | .noop => p
  | .closure k => p.script now (h.data k body p.res p.own)

/-- The callback that is in force for the end of a message. -/
def finish : Progress κ σ :=
  match p.res.onEnd with
  | .noop => p
  | .closure k => p.script now (h.finish k p.res p.own)

/-- A whole message. -/
def message (req : ReqT) (body : List OString) : Progress κ σ :=
  (body.foldl (data now h) (p.request now h req)).finish now h

end Progress

/-! ## The small steps -/

/-- The progress of a connection. -/
def Conn.progress (s : Conn κ σ) : Progress κ σ := ⟨s.res, s.own, opsOf s.log⟩

/-- The operations of a record of operations. -/
theorem opsOf_didLog (now : Tm) (res : ResT κ) (ops : List (Op κ)) :
    opsOf (Conn.didLog now res ops) = ops := by
  induction ops generalizing res with
  | nil => rfl
  | cons o ops ih => exact congrArg (o :: ·) (ih _)

/-- An application makes progress by its script. -/
theorem progress_act (now : Tm) (s : Conn κ σ) {a : Entry κ} (ha : a.isCall = true)
    (todo : List (Op κ) × σ) : (s.act now a todo).progress = s.progress.script now todo := by
  have hops : opsOf (s.act now a todo).log = opsOf s.log ++ todo.1 := by
    rw [Conn.act, opsOf_append, ← List.singleton_append, opsOf_append, opsOf_call ha, opsOf_didLog,
      List.nil_append]
  exact Progress.ext rfl rfl hops

/-- A string of a body makes progress by the callback in force for it. -/
theorem progress_act_data (now : Tm) (h : Handler κ σ) (s : Conn κ σ) (b : OString) :
    (s.act now (.data s.res.onData b)
      (s.scriptOf (fun k res own => h.data k b res own) s.res.onData)).progress
      = s.progress.data now h b := by
  rw [progress_act now s rfl, Progress.data]
  show _ = match s.res.onData with
    | .noop => s.progress
    | .closure k => s.progress.script now (h.data k b s.res s.own)
  cases s.res.onData with
  | noop => exact Progress.ext rfl rfl (List.append_nil _)
  | closure k => rfl

/-- The end of a message makes progress by the callback in force for it. -/
theorem progress_act_finish (now : Tm) (h : Handler κ σ) (s : Conn κ σ) :
    (s.act now (.finish s.res.onEnd) (s.scriptOf h.finish s.res.onEnd)).progress
      = s.progress.finish now h := by
  rw [progress_act now s rfl, Progress.finish]
  show _ = match s.res.onEnd with
    | .noop => s.progress
    | .closure k => s.progress.script now (h.finish k s.res s.own)
  cases s.res.onEnd with
  | noop => exact Progress.ext rfl rfl (List.append_nil _)
  | closure k => rfl

/-- Between two parts of a message: the pairs that have arrived on the connection, and how
far the handler has got. -/
structure Conn.Stands (s : Conn κ σ) (history : List (OString × OString))
    (p : Progress κ σ) : Prop where
  fields : s.fields = (history.map Prod.fst).reverse
  values : s.values = (history.map Prod.snd).reverse
  progress : s.progress = p

/-- A connection that was just accepted stands at its start. -/
theorem accept_stands (client : ClientT) (own : σ) :
    (Conn.accept client own : Conn κ σ).Stands [] (.start client own) := ⟨rfl, rfl, rfl⟩

section Steps

variable (now : Tm) (h : Handler κ σ) {s : Conn κ σ} {history : List (OString × OString)}
  {p : Progress κ σ}

/-- Pairs of names and values, one after the other. -/
theorem exists_run_pairEvents (hs : s.Stands history p) (ps : List (OString × OString))
    (es : List Event) :
    ∃ s' : Conn κ σ, s.run now h (Message.pairEvents ps ++ es) = s'.run now h es ∧
      s'.Stands (history ++ ps) p ∧ s'.url = s.url := by
  induction ps generalizing s history with
  | nil => exact ⟨s, rfl, by rwa [List.append_nil], rfl⟩
  | cons q ps ih =>
    have hnext : Conn.Stands { s with fields := q.1 :: s.fields, values := q.2 :: s.values }
        (history ++ [q]) p :=
      ⟨by simp [hs.fields], by simp [hs.values], hs.progress⟩
    obtain ⟨s', hrun, hs', hurl⟩ := ih hnext
    exact ⟨s', hrun, by rwa [List.append_assoc] at hs', hurl⟩

/-- The end of the headers: names and values have come in pairs, so the request is made. -/
theorem step_headersComplete (hs : s.Stands history p) :
    s.step now h .headersComplete = .ok (s.act now (.request ⟨s.url, firstBindings history⟩ s.res)
      (h.request ⟨s.url, firstBindings history⟩ s.res s.own)) := by
  have hzip : (history.map Prod.fst).zip (history.map Prod.snd) = history := by
    rw [← List.unzip_fst, ← List.unzip_snd, List.zip_unzip]
  have hheaders : headersOf s.fields s.values = .ok (firstBindings history) := by
    rw [hs.fields, hs.values, headersOf_reverse _ _ (by simp), hzip]
  rw [Conn.step, hheaders]

/-- The request callback makes its progress. -/
theorem act_request_stands (hs : s.Stands history p) (req : ReqT) :
    (s.act now (.request req s.res) (h.request req s.res s.own)).Stands history
      (p.request now h req) := by
  refine ⟨hs.fields, hs.values, ?_⟩
  rw [progress_act now s rfl, ← hs.progress]
  rfl

/-- The strings of a body. -/
theorem exists_run_body (hs : s.Stands history p) (bs : List OString) (es : List Event) :
    ∃ s' : Conn κ σ, s.run now h (bs.map .body ++ es) = s'.run now h es ∧
      s'.Stands history (bs.foldl (Progress.data now h) p) := by
  induction bs generalizing s p with
  | nil => exact ⟨s, rfl, hs⟩
  | cons b bs ih =>
    have hnext := progress_act_data now h s b
    rw [hs.progress] at hnext
    exact ih (s := s.act now (.data s.res.onData b) _) ⟨hs.fields, hs.values, hnext⟩

/-- **One message**, event by event, is one big step. -/
theorem exists_run_bigStep (hs : s.Stands history p) (m : Message) (es : List Event) :
    ∃ s' : Conn κ σ, s.run now h (m.events ++ es) = s'.run now h es ∧
      s'.Stands (history ++ (m.headers ++ m.trailers))
        (p.message now h (assembled history m) m.body) := by
  have hevents : m.events ++ es = .messageBegin :: .url m.url :: (Message.pairEvents m.headers ++
      .headersComplete :: (m.body.map .body ++ (Message.pairEvents m.trailers ++
        .messageComplete :: es))) := by
    simp [Message.events]
  have hurl : Conn.Stands { s with url := m.url } history p := ⟨hs.fields, hs.values, hs.progress⟩
  obtain ⟨s₁, hrun₁, hs₁, hurl₁⟩ := exists_run_pairEvents now h hurl m.headers
    (.headersComplete :: (m.body.map .body ++ (Message.pairEvents m.trailers ++
      .messageComplete :: es)))
  have hs₂ := act_request_stands now h hs₁ ⟨s₁.url, firstBindings (history ++ m.headers)⟩
  obtain ⟨s₃, hrun₃, hs₃⟩ := exists_run_body now h hs₂ m.body
    (Message.pairEvents m.trailers ++ .messageComplete :: es)
  obtain ⟨s₄, hrun₄, hs₄, -⟩ := exists_run_pairEvents now h hs₃ m.trailers
    (.messageComplete :: es)
  refine ⟨s₄.act now (.finish s₄.res.onEnd) (s₄.scriptOf h.finish s₄.res.onEnd), ?_,
    by rw [← List.append_assoc]; exact hs₄.fields,
    by rw [← List.append_assoc]; exact hs₄.values, ?_⟩
  · have hhead : s.run now h (m.events ++ es) = s₁.run now h
        (.headersComplete :: (m.body.map .body ++ (Message.pairEvents m.trailers ++
          .messageComplete :: es))) := by
      rw [hevents]
      exact hrun₁
    rw [hhead, Conn.run, step_headersComplete now h hs₁]
    exact hrun₃.trans hrun₄
  · rw [progress_act_finish, hs₄.progress, hurl₁]
    rfl

end Steps

/-! ## Main result -/

/-- The applications that a message makes, when it is the first of its connection. -/
theorem callsSeen_serve (now : Tm) (h : Handler κ σ) (client : ClientT) (own : σ) (m : Message) :
    callsSeen (serve now h client own m.events).1.log
      = .request ⟨m.url, firstBindings m.headers⟩ :: (m.body.map .data ++ [.finish]) := by
  have hurl : Conn.Stands { (Conn.accept client own : Conn κ σ) with url := m.url } []
      (.start client own) := ⟨rfl, rfl, rfl⟩
  -- the names and values have come in pairs when the headers end
  obtain ⟨s₁, hrun₁, hs₁, hurl₁⟩ := exists_run_pairEvents now h hurl m.headers []
  obtain ⟨s₁', hhead, hcalls₁⟩ := callsSeen_run now h (Conn.accept client own)
    m.headersComplete_notMem_headEvents
  obtain rfl : s₁' = s₁ := by
    have hboth : (Conn.accept client own).run now h m.headEvents = (s₁, none) := by
      rw [← List.append_nil m.headEvents]
      exact hrun₁
    rw [hhead] at hboth
    exact (Prod.mk.inj hboth).1
  let req : ReqT := ⟨s₁'.url, firstBindings m.headers⟩
  let s₂ := s₁'.act now (.request req s₁'.res) (h.request req s₁'.res s₁'.own)
  obtain ⟨s₃, hrest, hcalls₃⟩ := callsSeen_run now h s₂ m.headersComplete_notMem_restEvents
  have hserve : serve now h client own m.events = (s₃, none) := by
    rw [serve_eq_run, m.events_eq, run_append, hhead]
    show Conn.run now h s₁' (.headersComplete :: m.restEvents) = _
    rw [Conn.run, step_headersComplete now h hs₁]
    exact hrest
  have hreq : req = ⟨m.url, firstBindings m.headers⟩ :=
    congrArg (fun url => (⟨url, firstBindings m.headers⟩ : ReqT)) hurl₁
  rw [hserve, hcalls₃, m.call_restEvents, callsSeen_act, hcalls₁, m.call_headEvents, hreq]
  rfl

/-- **The first message of a connection.**  No exception is raised, and the response, the
handler's state and its operations are those of the callbacks run one after the other.
The request callback is applied once, first, to the URL and a map that has every name of
the headers with the value of its first pair and no other; then `onData` to every string
of the body, in order, and last `onEnd`; and every callback applied is the one that the
operations recorded before have put in force. -/
theorem serve_message (now : Tm) (h : Handler κ σ) (client : ClientT) (own : σ) (m : Message) :
    (serve now h client own m.events).2 = none ∧
    (serve now h client own m.events).1.progress
      = (Progress.start client own).message now h ⟨m.url, firstBindings m.headers⟩ m.body ∧
    (∃ headers : StringMap OString,
      callsSeen (serve now h client own m.events).1.log
        = .request ⟨m.url, headers⟩ :: (m.body.map .data ++ [.finish]) ∧
      (∀ k, k ∈ headers ↔ k ∈ m.headers.map Prod.fst) ∧
      ∀ k, headers[k]? = m.headers.lookup k) ∧
    Replays now client (serve now h client own m.events).1.log := by
  obtain ⟨s, hrun, hs⟩ := exists_run_bigStep now h (accept_stands client own) m []
  have hserve : serve now h client own m.events = (s, none) := by
    rw [serve_eq_run, ← List.append_nil m.events]
    exact hrun
  refine ⟨congrArg Prod.snd hserve, ?_,
    ⟨firstBindings m.headers, callsSeen_serve now h client own m,
      mem_firstBindings_iff m.headers, getElem?_firstBindings m.headers⟩,
    (serve_recorded now h client own m.events).log⟩
  rw [hserve]
  exact hs.progress
