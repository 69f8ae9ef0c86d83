/-
# One connection: parser callbacks, handler and response

The request half of `Http.re`: `createParser` with its three accumulators and the
response it shares among all messages of a connection.  The code is written once
against references, so that it can be run on any store; here it runs on a record
that holds the cells of a single connection.  `Conn.step` is what one parser event
does to that record, and `deliver_eq_run` says that the code does exactly that.  The
handler of the example server is given last, as an instance.
-/
import UvHttp.RefProgram
import UvHttp.ResponseRun

/-! ## Parser events and settings -/

/-- The callbacks that the stubs make out of an input, one constructor for each
field of `http_parser_settings`. -/
inductive Event where
  | messageBegin
  | url (s : OString)
  | status (s : OString)
  | headerField (s : OString)
  | headerValue (s : OString)
  | headersComplete
  | body (s : OString)
  | messageComplete
  deriving DecidableEq

/-- `http_parser_settings`.  The parser handle, which no callback looks at, is left
out. -/
structure HttpParserSettings (S : Type) where
  onMessageBegin : Ocaml S ℤ
  onUrl : OString → ℤ → Ocaml S ℤ
  onStatus : OString → ℤ → Ocaml S ℤ
  onHeaderField : OString → ℤ → Ocaml S ℤ
  onHeaderValue : OString → ℤ → Ocaml S ℤ
  onHeadersComplete : Ocaml S ℤ
  onBody : OString → ℤ → Ocaml S ℤ
  onMessageComplete : Ocaml S ℤ

variable {S κ σ : Type}

/-- The stub of an event applies the callback to the string and its length. -/
def fire (settings : HttpParserSettings S) : Event → Ocaml S ℤ
  | .messageBegin => settings.onMessageBegin
  | .url s => settings.onUrl s s.length
  | .status s => settings.onStatus s s.length
  | .headerField s => settings.onHeaderField s s.length
  | .headerValue s => settings.onHeaderValue s s.length
  | .headersComplete => settings.onHeadersComplete
  | .body s => settings.onBody s s.length
  | .messageComplete => settings.onMessageComplete

/-- The events of an input, one callback after the other. -/
def deliver (settings : HttpParserSettings S) (events : List Event) : Ocaml S Unit :=
  events.forM fun e => do let _ ← fire settings e

/-- The first event, and the others unless it raises. -/
theorem deliver_cons (settings : HttpParserSettings S) (e : Event) (es : List Event) (s : S) :
    deliver settings (e :: es) s = match fire settings e s with
      | .ok _ s' => deliver settings es s'
      | .error x s' => .error x s' := by
  show ((fire settings e >>= fun _ => pure ()) >>= fun _ => deliver settings es) s = _
  rw [EStateM.bind_apply, EStateM.bind_apply]
  cases fire settings e s <;> rfl

/-! ## The handler and its cells -/

/-- What happens on a connection, in order: applications of the request callback
and of the closures in the response, and the operations these perform, each with
the libuv calls it makes. -/
inductive Entry (κ : Type) where
  | request (req : ReqT) (res : ResT κ)
  | data (cb : Callback κ) (body : OString)
  | finish (cb : Callback κ)
  | did (o : Op κ) (calls : List UvCall)

/-- A handler: what its request callback and its closures do when they are run.
The operations may depend on the arguments, on the response and on a state of the
handler's own, kept for each connection; nothing else changes the response meanwhile, so
the operations of one run are determined when it starts. -/
structure Handler (κ σ : Type) where
  request : ReqT → ResT κ → σ → List (Op κ) × σ
  data : κ → OString → ResT κ → σ → List (Op κ) × σ
  finish : κ → ResT κ → σ → List (Op κ) × σ

/-- The mutable cells that the closures of one connection capture, and the record
of what they do, kept under the client handle of the response. -/
structure Cells (S κ σ : Type) where
  url : Ref S OString
  fields : Ref S (List OString)
  values : Ref S (List OString)
  res : Ref S (ResT κ)
  own : Ref S σ
  emit : ClientT → Entry κ → S → S

namespace Cells

variable (now : Tm) (h : Handler κ σ) (c : Cells S κ σ)

/-- Note an action. -/
def note (a : Entry κ) : Ocaml S Unit := fun s => .ok () (c.emit (c.res.get s).client a s)

/-- One operation on the response. -/
def perform (o : Op κ) : Ocaml S Unit := do
  let res ← c.res.read
  c.res.assign (applyOp now res o).1
  c.note (.did o (applyOp now res o).2)

/-- Run what a callback of the handler does. -/
def runScript (script : List (Op κ) × σ) : Ocaml S Unit := do
  c.own.assign script.2
  script.1.forM (c.perform now)

/-- `req_cb(req, res)`. -/
def reqCb (req : ReqT) : Ocaml S Unit := do
  let res ← c.res.read
  c.note (.request req res)
  c.runScript now (h.request req res (← c.own.read))

/-- Apply a callback of the response: the initial one does nothing. -/
def applyCallback (run : κ → ResT κ → σ → List (Op κ) × σ) (res : ResT κ) :
    Callback κ → Ocaml S Unit
  | .noop => pure ()
  | .closure k => do c.runScript now (run k res (← c.own.read))

/-- `res.onData(body)`. -/
def onData (body : OString) : Ocaml S Unit := do
  let res ← c.res.read
  c.note (.data res.onData body)
  c.applyCallback now (fun k res own => h.data k body res own) res res.onData

/-- `res.onEnd()`. -/
def onEnd : Ocaml S Unit := do
  let res ← c.res.read
  c.note (.finish res.onEnd)
  c.applyCallback now h.finish res res.onEnd

end Cells

/-- `secondArg`. -/
def secondArg (cb : OString → Ocaml S Unit) : OString → ℤ → Ocaml S ℤ :=
  fun v _ => do
    cb v
    pure 0

/-- The fold of `on_headers_complete`. -/
def headersOf (fields values : List OString) : Except Exn (StringMap OString) :=
  foldLeft2 (fun map f v => map.insert f v) ∅ fields values

/-- `createParser`: the settings over the cells of one connection. -/
def createParser (now : Tm) (h : Handler κ σ) (c : Cells S κ σ) : HttpParserSettings S where
  -- a new message finds the cells as the last one left them
  onMessageBegin := pure 0
  onUrl := secondArg fun u => c.url.assign u
  onStatus := fun _ _ => pure 0
  onHeaderField := secondArg fun f => do c.fields.assign (f :: (← c.fields.read))
  onHeaderValue := secondArg fun v => do c.values.assign (v :: (← c.values.read))
  onHeadersComplete := do
    let url ← c.url.read
    let fields ← c.fields.read
    let values ← c.values.read
    match headersOf fields values with
    -- `fold_left2` raises while the request is made, before the callback
    | .error e => throw e
    | .ok headers =>
      c.reqCb now h { url, headers }
      pure 0
  onBody := secondArg fun body => c.onData now h body
  onMessageComplete := do
    c.onEnd now h
    pure 0

/-! ## A connection by itself -/

/-- The cells of one connection and the record of what happened on it. -/
structure Conn (κ σ : Type) where
  url : OString
  fields : List OString
  values : List OString
  res : ResT κ
  own : σ
  log : List (Entry κ)

namespace Conn

/-- The cells of a connection that is the whole store. -/
def cells : Cells (Conn κ σ) κ σ where
  url := ⟨Conn.url, fun a s => { s with url := a }⟩
  fields := ⟨Conn.fields, fun a s => { s with fields := a }⟩
  values := ⟨Conn.values, fun a s => { s with values := a }⟩
  res := ⟨Conn.res, fun a s => { s with res := a }⟩
  own := ⟨Conn.own, fun a s => { s with own := a }⟩
  emit := fun _ a s => { s with log := s.log ++ [a] }

/-- The cells as `createServer` and `createParser` allocate them. -/
def accept (client : ClientT) (own : σ) : Conn κ σ where
  url := []
  fields := []
  values := []
  res := initialRes client
  own := own
  log := []

/-- The entries that a list of operations leaves in the record. -/
def didLog (now : Tm) : ResT κ → List (Op κ) → List (Entry κ)
  | _, [] => []
  | res, o :: ops => .did o (applyOp now res o).2 :: didLog now (applyOp now res o).1 ops

/-- The connection after an action and the operations it runs. -/
def act (now : Tm) (s : Conn κ σ) (a : Entry κ) (script : List (Op κ) × σ) : Conn κ σ :=
  { s with
    res := afterOps now s.res script.1
    own := script.2
    log := s.log ++ a :: didLog now s.res script.1 }

/-- What a closure stored in the response does. -/
def scriptOf (s : Conn κ σ) (run : κ → ResT κ → σ → List (Op κ) × σ) :
    Callback κ → List (Op κ) × σ
  | .noop => ([], s.own)
  | .closure k => run k s.res s.own

/-- What one parser event does to a connection. -/
def step (now : Tm) (h : Handler κ σ) (s : Conn κ σ) : Event → Except Exn (Conn κ σ)
  | .messageBegin => .ok s
  | .url u => .ok { s with url := u }
  | .status _ => .ok s
  | .headerField f => .ok { s with fields := f :: s.fields }
  | .headerValue v => .ok { s with values := v :: s.values }
  | .headersComplete =>
    match headersOf s.fields s.values with
    | .error e => .error e
    | .ok headers =>
      .ok (s.act now (.request ⟨s.url, headers⟩ s.res) (h.request ⟨s.url, headers⟩ s.res s.own))
  | .body b => .ok (s.act now (.data s.res.onData b)
      (s.scriptOf (fun k res own => h.data k b res own) s.res.onData))
  | .messageComplete =>
    .ok (s.act now (.finish s.res.onEnd) (s.scriptOf h.finish s.res.onEnd))

/-- A run over a list of events: the connection at its end, and the exception
that ended it early, if any. -/
def run (now : Tm) (h : Handler κ σ) : Conn κ σ → List Event → Conn κ σ × Option Exn
  | s, [] => (s, none)
  | s, e :: es =>
    match s.step now h e with
    | .ok s' => run now h s' es
    | .error x => (s, some x)

/-! ## The code does what the steps say -/

/-- An operation on the cells of one connection is noted with its calls. -/
theorem perform_apply (now : Tm) (o : Op κ) (s : Conn κ σ) :
    cells.perform now o s = .ok ()
      { s with res := (applyOp now s.res o).1
               log := s.log ++ [.did o (applyOp now s.res o).2] } := rfl

/-- A list of operations. -/
theorem forM_perform (now : Tm) (ops : List (Op κ)) (s : Conn κ σ) :
    List.forM ops (cells.perform (σ := σ) now) s = .ok ()
      { s with res := afterOps now s.res ops, log := s.log ++ didLog now s.res ops } := by
  induction ops generalizing s with
  | nil =>
    rw [didLog, List.append_nil]
    rfl
  | cons o ops ih =>
    show (cells.perform now o >>= fun _ => List.forM ops (cells.perform now)) s = _
    rw [EStateM.bind_ok (perform_apply now o s), ih, didLog, afterOps_cons]
    simp

/-- A script, on the cells of one connection: its operations, and the new state. -/
theorem runScript_apply (now : Tm) (script : List (Op κ) × σ) (s : Conn κ σ) :
    cells.runScript now script s = .ok ()
      { s with res := afterOps now s.res script.1
               own := script.2
               log := s.log ++ didLog now s.res script.1 } := by
  rw [Cells.runScript, EStateM.bind_ok (Ref.assign_apply _ _ _), forM_perform]
  rfl

/-- A script after the entry for its application. -/
theorem runScript_noted (now : Tm) (script : List (Op κ) × σ) (s : Conn κ σ) (a : Entry κ) :
    cells.runScript now script { s with log := s.log ++ [a] } = .ok () (s.act now a script) := by
  rw [runScript_apply, act]
  simp

/-- The request callback. -/
theorem reqCb_apply (now : Tm) (h : Handler κ σ) (req : ReqT) (s : Conn κ σ) :
    cells.reqCb now h req s
      = .ok () (s.act now (.request req s.res) (h.request req s.res s.own)) :=
  runScript_noted now (h.request req s.res s.own) s (.request req s.res)

/-- A callback that was registered, or none, after its entry. -/
theorem applyCallback_noted (now : Tm) (run : κ → ResT κ → σ → List (Op κ) × σ)
    (s : Conn κ σ) (a : Entry κ) (cb : Callback κ) :
    cells.applyCallback now run s.res cb { s with log := s.log ++ [a] }
      = .ok () (s.act now a (s.scriptOf run cb)) := by
  cases cb with
  | noop => rfl
  | closure k => exact runScript_noted now (run k s.res s.own) s a

/-- The callback for data. -/
theorem onData_apply (now : Tm) (h : Handler κ σ) (b : OString) (s : Conn κ σ) :
    cells.onData now h b s = .ok () (s.act now (.data s.res.onData b)
      (s.scriptOf (fun k res own => h.data k b res own) s.res.onData)) :=
  applyCallback_noted now _ s (.data s.res.onData b) s.res.onData

/-- The callback for the end. -/
theorem onEnd_apply (now : Tm) (h : Handler κ σ) (s : Conn κ σ) :
    cells.onEnd now h s = .ok () (s.act now (.finish s.res.onEnd)
      (s.scriptOf h.finish s.res.onEnd)) :=
  applyCallback_noted now h.finish s (.finish s.res.onEnd) s.res.onEnd

/-- The callback of every event does what the step says; it returns `0`, so the
parser never stops because of it. -/
theorem fire_eq_step (now : Tm) (h : Handler κ σ) (s : Conn κ σ) (e : Event) :
    fire (createParser now h cells) e s = match s.step now h e with
      | .ok s' => .ok 0 s'
      | .error x => .error x s := by
  cases e with
  | headersComplete =>
    show (match headersOf s.fields s.values with
      | .error e => throw e
      | .ok headers => cells.reqCb now h ⟨s.url, headers⟩ >>= fun _ => pure 0 :
        Ocaml (Conn κ σ) ℤ) s = _
    rw [step]
    cases headersOf s.fields s.values with
    | error x => rfl
    | ok headers =>
      show ((cells.reqCb now h ⟨s.url, headers⟩ >>= fun _ => pure 0) : Ocaml (Conn κ σ) ℤ) s = _
      rw [EStateM.bind_ok (reqCb_apply now h _ s)]
      rfl
  | body b =>
    show ((cells.onData now h b >>= fun _ => pure 0) : Ocaml (Conn κ σ) ℤ) s = _
    rw [EStateM.bind_ok (onData_apply now h b s)]
    rfl
  | messageComplete =>
    show ((cells.onEnd now h >>= fun _ => pure 0) : Ocaml (Conn κ σ) ℤ) s = _
    rw [EStateM.bind_ok (onEnd_apply now h s)]
    rfl
  | messageBegin => rfl
  | url u => rfl
  | status u => rfl
  | headerField f => rfl
  | headerValue v => rfl

/-- **The code of a connection runs as its steps.** -/
theorem deliver_eq_run (now : Tm) (h : Handler κ σ) (es : List Event) (s : Conn κ σ) :
    deliver (createParser now h cells) es s = match s.run now h es with
      | (s', none) => .ok () s'
      | (s', some x) => .error x s' := by
  induction es generalizing s with
  | nil => rfl
  | cons e es ih =>
    rw [deliver_cons, fire_eq_step, run]
    cases s.step now h e with
    | error x => rfl
    | ok s' => exact ih s'

/-! ## Runs -/

/-- What every step keeps holds after a run, also after one that raised. -/
theorem run_induction {P : Conn κ σ → Prop} (now : Tm) (h : Handler κ σ)
    (hstep : ∀ s e s', P s → s.step now h e = .ok s' → P s') (s : Conn κ σ) (hs : P s)
    (es : List Event) : P (s.run now h es).1 := by
  induction es generalizing s with
  | nil => exact hs
  | cons e es ih =>
    rw [run]
    cases hse : s.step now h e with
    -- a run that raises ends in the connection before the event
    | error x => exact hs
    | ok s' => exact ih s' (hstep s e s' hs hse)

/-- **Inversion of a step.**  A step changes one accumulator, or nothing, or it
notes one action and runs the operations that belong to it. -/
theorem step_cases {now : Tm} {h : Handler κ σ} {s s' : Conn κ σ} {e : Event}
    (hstep : s.step now h e = .ok s') :
    (∃ url fields values, s' = { s with url, fields, values }) ∨
    (∃ headers, e = .headersComplete ∧ headersOf s.fields s.values = .ok headers ∧
      s' = s.act now (.request ⟨s.url, headers⟩ s.res)
        (h.request ⟨s.url, headers⟩ s.res s.own)) ∨
    (∃ b, e = .body b ∧ s' = s.act now (.data s.res.onData b)
      (s.scriptOf (fun k res own => h.data k b res own) s.res.onData)) ∨
    (e = .messageComplete ∧
      s' = s.act now (.finish s.res.onEnd) (s.scriptOf h.finish s.res.onEnd)) := by
  cases e with
  | headersComplete =>
    rw [step] at hstep
    cases hh : headersOf s.fields s.values with
    | error x =>
      rw [hh] at hstep
      cases hstep
    | ok headers =>
      rw [hh] at hstep
      cases hstep
      exact .inr (.inl ⟨headers, rfl, rfl, rfl⟩)
  | body b =>
    cases hstep
    exact .inr (.inr (.inl ⟨b, rfl, rfl⟩))
  | messageComplete =>
    cases hstep
    exact .inr (.inr (.inr ⟨rfl, rfl⟩))
  | messageBegin => cases hstep; exact .inl ⟨s.url, s.fields, s.values, rfl⟩
  | url u => cases hstep; exact .inl ⟨u, s.fields, s.values, rfl⟩
  | status u => cases hstep; exact .inl ⟨s.url, s.fields, s.values, rfl⟩
  | headerField f => cases hstep; exact .inl ⟨s.url, f :: s.fields, s.values, rfl⟩
  | headerValue v => cases hstep; exact .inl ⟨s.url, s.fields, v :: s.values, rfl⟩

end Conn

/-! ## A connection from its acceptance on -/

/-- The code of a fresh connection on a list of events: the connection at the end,
and the exception that ended it early, if any. -/
def serve (now : Tm) (h : Handler κ σ) (client : ClientT) (own : σ) (es : List Event) :
    Conn κ σ × Option Exn :=
  match deliver (createParser now h Conn.cells) es (Conn.accept client own) with
  | .ok _ s => (s, none)
  | .error x s => (s, some x)

/-- The code on a fresh connection is a run of its steps. -/
theorem serve_eq_run (now : Tm) (h : Handler κ σ) (client : ClientT) (own : σ)
    (es : List Event) : serve now h client own es = (Conn.accept client own).run now h es := by
  rw [serve, Conn.deliver_eq_run]
  rcases (Conn.accept client own).run now h es with ⟨s, _ | x⟩ <;> rfl

/-! ## The handler of `ExampleServer.re` -/

/-- The two closures that the handler registers. -/
inductive ServerCb where
  | testdata
  | endConnection
  deriving DecidableEq

/-- `printHeaders`: a fold with the format `"%s: %s<br>%s"`. -/
def printHeaders (h : StringMap OString) : OString :=
  h.foldl (fun a k v => k ++ lit ": " ++ v ++ lit "<br>" ++ a) []

/-- The callback given to `createServer`.  It has no state of its own. -/
def exampleServer : Handler ServerCb Unit where
  request := fun req _ _ =>
    ([.contentType (lit "text/html"),
      .write (lit "Hello World from libuv in reason"),
      .write (lit "<br>Url: " ++ req.url),
      .write (lit "<br>Headers:<br>" ++ printHeaders req.headers),
      .on .Data (.closure .testdata),
      .on .End (.closure .endConnection)], ())
  data := fun cb _ _ _ =>
    match cb with
    | .testdata => ([.write (lit "testdata")], ())
    | .endConnection => ([], ())
  finish := fun cb _ _ =>
    match cb with
    | .testdata => ([], ())
    | .endConnection => ([.endConnection], ())

/-- Two requests on one connection. -/
def twoRequests : List Event :=
  [.messageBegin, .url (lit "/a"), .headersComplete, .messageComplete,
    .messageBegin, .url (lit "/b"), .headersComplete, .messageComplete]
