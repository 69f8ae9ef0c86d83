/-
# The server process

From what libuv reads to what the connections do: the buffer that `alloc_cb` gives, the
copy that `read_cb` makes, the closure that `requestOn` stored for the client, the native
parser that this closure captures, and the callbacks of `createParser`.  One process
serves all clients, so it ends for all of them: in `read_cb`, on an error or at the end of
an input, or with the exception that a callback lets through.
-/
import UvHttp.FatalInput
import UvHttp.Outage
import UvHttp.Pool
import UvHttp.ServerRead

variable {π κ σ : Type}

/-! ## The code -/

/-- What the loop has for the stubs: a connection, which `uv_accept` takes or not, or a read
from a client. -/
inductive LoopEvent where
  | connection (client : ClientT) (accepted : Bool)
  | read (client : ClientT) (e : ReadEvent)

/-- The cells of the OCaml code, the native parsers of the clients that were accepted, and the
buffers that `alloc_cb` gave. -/
structure Process (π κ σ : Type) where
  server : Server κ σ
  parsers : ClientT → Option π
  buffers : Pool Unit

namespace Process

variable (now : Tm) (h : Handler κ σ) (own : σ) (p : HttpParser π)

/-- OCaml code, run in the process. -/
def onServer {α : Type} (m : Ocaml (Server κ σ) α) : EStateM Stop (Process π κ σ) α := fun s =>
  match m s.server with
  | .ok a server => .ok a { s with server }
  | .error x server => .error (.raised x) { s with server }

/-- `HttpParser.execute` on the parser of a client: the callbacks run during the call. -/
def execute (client : ClientT) (data : OString) : EStateM Stop (Process π κ σ) Unit := fun s =>
  match s.parsers client with
  | none => .ok () s
  | some st =>
    let r := p.execute st data
    onServer (List.forM (r.events.map (.parser client)) (Server.handle now h own))
      { s with parsers := Function.update s.parsers client (some r.parser) }

/-- The closure that `createServer` stores for a client. -/
def closure (client : ClientT) : List Value → EStateM Stop (Process π κ σ) Unit
  | [.string data] => execute now h own p client data
  | _ => pure ()

/-- `alloc_cb`, then `read_cb`: what it does by itself, and what the body of its closure does.
An exception passes over the release of the buffer. -/
def onRead (client : ClientT) (e : ReadEvent) : EStateM Stop (Process π κ σ) Unit := fun s =>
  let buf := s.buffers.fresh
  let s := { s with buffers := s.buffers.alloc () }
  match readCb 1 e StubTrace.empty with
  | .error x _ => .error x s
  | .ok _ t =>
    match List.forM t.bodies (closure now h own p client) s with
    | .ok _ s => .ok () { s with buffers := s.buffers.release buf }
    | .error x s => .error x s

/-- What an event of the loop makes the process do.  Reads come from the clients that were
accepted. -/
def handle : LoopEvent → EStateM Stop (Process π κ σ) Unit
  | .connection client accepted => do
    onServer (Server.handle now h own (.connection client accepted))
    if accepted then
      -- `HttpParser.init`
      modify fun s => { s with parsers := Function.update s.parsers client (some p.init) }
  | .read client e => fun s =>
    match s.parsers client with
    | none => .ok () s
    | some _ => onRead now h own p client e s

/-- A process that nothing has happened to. -/
def fresh : Process π κ σ := ⟨Server.fresh own, fun _ => none, .empty⟩

/-- A run of the loop. -/
def run (es : List LoopEvent) : EStateM.Result Stop (Process π κ σ) Unit :=
  List.forM es (handle now h own p) (fresh own)

end Process

/-! ## The events of the parsers -/

/-- What the library makes of a read; nothing was read where `nread` is `0`. -/
def HttpParser.take (p : HttpParser π) (st : π) (e : ReadEvent) : Execution π :=
  if 0 < e.nread then p.execute st e.bytes else ⟨st, [], 0⟩

/-- The native parsers, and the events that they have made out of the reads. -/
structure Feed (π : Type) where
  parsers : ClientT → Option π
  events : List ServerEvent

/-- One event of the loop. -/
def Feed.next (p : HttpParser π) (f : Feed π) : LoopEvent → Feed π
  | .connection client accepted =>
    ⟨if accepted then Function.update f.parsers client (some p.init) else f.parsers,
      f.events ++ [.connection client accepted]⟩
  | .read client e =>
    match f.parsers client with
    | none => f
    | some st =>
      ⟨Function.update f.parsers client (some (p.take st e).parser),
        f.events ++ (p.take st e).events.map (.parser client)⟩

/-- All events of the loop. -/
def feed (p : HttpParser π) (es : List LoopEvent) : Feed π :=
  es.foldl (Feed.next p) ⟨fun _ => none, []⟩

/-- The events of the connections in a run of the loop. -/
def serverEvents (p : HttpParser π) (es : List LoopEvent) : List ServerEvent := (feed p es).events

/-- One more event. -/
theorem feed_concat (p : HttpParser π) (es : List LoopEvent) (ev : LoopEvent) :
    feed p (es ++ [ev]) = (feed p es).next p ev := List.foldl_append

/-- The clients that were accepted have parsers. -/
theorem parsers_feed_iff (p : HttpParser π) (es : List LoopEvent) (client : ClientT) :
    (feed p es).parsers client ≠ none ↔ .connection client true ∈ es := by
  induction es using List.reverseRecOn with
  | nil => simp [feed]
  | append_singleton es ev ih =>
    rw [feed_concat, List.mem_append, List.mem_singleton, ← ih]
    rcases ev with ⟨c, _ | _⟩ | ⟨c, e⟩
    · simp [Feed.next]
    · by_cases hc : client = c
      · simp [Feed.next, hc]
      · simp [Feed.next, hc]
    · rw [Feed.next]
      cases hst : (feed p es).parsers c with
      | none => simp
      | some st =>
        by_cases hc : client = c
        · simp [hc, hst]
        · simp [hc]

/-! ## Reads that end the process -/

/-- A read from an accepted client that is no read: its end of the connection, or an error. -/
def Fails (pre : List LoopEvent) : LoopEvent → Prop
  | .read client e => .connection client true ∈ pre ∧ e.nread < 0
  | _ => False

/-- No client closes or fails. -/
def Calm (es : List LoopEvent) : Prop := AtEvery (fun pre ev => ¬ Fails pre ev) es

section Run

variable {now : Tm} {h : Handler κ σ} {own : σ} {p : HttpParser π} {es : List LoopEvent}
  {s : Process π κ σ}

/-- The process after events: its parsers are fed, its server has run their events, and every
buffer was released. -/
structure InStep (now : Tm) (h : Handler κ σ) (own : σ) (p : HttpParser π) (es : List LoopEvent)
    (s : Process π κ σ) : Prop where
  parsers : s.parsers = (feed p es).parsers
  server : Server.run now h own (serverEvents p es) = .ok () s.server
  buffers : s.buffers.Accounted []

/-- Nothing has happened yet. -/
theorem inStep_fresh : InStep now h own p [] (Process.fresh own) :=
  ⟨rfl, rfl, Pool.accounted_empty⟩

/-- The server goes on with more events. -/
theorem InStep.run_append (hs : InStep now h own p es s) (evs : List ServerEvent) :
    Server.run now h own (serverEvents p es ++ evs)
      = List.forM evs (Server.handle now h own) s.server := by
  have hserver := hs.server
  rw [Server.run] at hserver ⊢
  rw [EStateM.forM_append, hserver]

/-- The body of the closure, on what `read_cb` has read. -/
theorem bodies_readCb {e : ReadEvent} (hn : 0 ≤ e.nread) :
    ∃ t, readCb 1 e StubTrace.empty = .ok () t ∧
      t.bodies = if 0 < e.nread then [[.string e.bytes]] else [] := by
  obtain ⟨t, hrun, hbodies, -, -⟩ := exists_readCb_of_nonneg hn StubTrace.empty
  refine ⟨t, hrun, hbodies.trans ?_⟩
  have hneg : ¬ e.nread < 0 := Int64.not_lt.mpr hn
  by_cases hzero : e.nread = 0
  · have hpos : ¬ 0 < e.nread := by
      rw [hzero]
      decide
    rw [ReadEvent.due, if_neg hneg, if_pos hzero, if_neg hpos]
    rfl
  · have hpos : 0 < e.nread := Int64.lt_of_le_of_ne hn (Ne.symm hzero)
    rw [ReadEvent.due, if_neg hneg, if_neg hzero, if_pos hpos]
    rfl

/-- What a call of `execute` does to the process. -/
theorem execute_apply {client : ClientT} {st : π} (hst : s.parsers client = some st)
    (data : OString) :
    Process.execute now h own p client data s =
      match List.forM ((p.execute st data).events.map (.parser client)) (Server.handle now h own)
        s.server with
      | .ok _ server => .ok ()
          ⟨server, Function.update s.parsers client (some (p.execute st data).parser), s.buffers⟩
      | .error x server => .error (.raised x)
          ⟨server, Function.update s.parsers client (some (p.execute st data).parser),
            s.buffers⟩ := by
  show (match s.parsers client with
    | none => EStateM.Result.ok () s
    | some st => Process.onServer (List.forM ((p.execute st data).events.map
          (ServerEvent.parser client))
        (Server.handle now h own))
      { s with parsers := Function.update s.parsers client (some (p.execute st data).parser) }) = _
  rw [hst]
  dsimp only
  unfold Process.onServer
  cases List.forM ((p.execute st data).events.map (.parser client)) (Server.handle now h own)
    s.server <;> rfl

/-- A client that was not accepted is not read. -/
theorem handle_read_of_none {client : ClientT} (hst : s.parsers client = none) (e : ReadEvent) :
    Process.handle now h own p (.read client e) s = .ok () s := by
  show (match s.parsers client with
    | none => EStateM.Result.ok () s
    | some _ => Process.onRead now h own p client e s) = _
  rw [hst]

/-- A client that was accepted is read. -/
theorem handle_read_of_some {client : ClientT} {st : π} (hst : s.parsers client = some st)
    (e : ReadEvent) :
    Process.handle now h own p (.read client e) s = Process.onRead now h own p client e s := by
  show (match s.parsers client with
    | none => EStateM.Result.ok () s
    | some _ => Process.onRead now h own p client e s) = _
  rw [hst]

/-- **One read**: the callbacks that the library makes of it, and the buffer is gone. -/
theorem onRead_apply {client : ClientT} {st : π} (hst : s.parsers client = some st)
    {e : ReadEvent} (hn : 0 ≤ e.nread) :
    Process.onRead now h own p client e s =
      match List.forM ((p.take st e).events.map (.parser client)) (Server.handle now h own)
        s.server with
      | .ok _ server => .ok ()
          ⟨server, Function.update s.parsers client (some (p.take st e).parser),
            (s.buffers.alloc ()).release s.buffers.fresh⟩
      | .error x server => .error (.raised x)
          ⟨server, Function.update s.parsers client (some (p.take st e).parser),
            s.buffers.alloc ()⟩ := by
  obtain ⟨t, hread, hbodies⟩ := bodies_readCb hn
  rw [Process.onRead, hread]
  dsimp only
  rw [hbodies, HttpParser.take]
  by_cases hpos : 0 < e.nread
  · rw [if_pos hpos, if_pos hpos]
    show (match (Process.closure now h own p client [.string e.bytes] >>= fun _ => pure ())
        { s with buffers := s.buffers.alloc () } with
      | .ok _ s' => EStateM.Result.ok ()
          { s' with buffers := s'.buffers.release s.buffers.fresh }
      | .error x s' => .error x s') = _
    have hexecute : Process.execute now h own p client e.bytes
        { s with buffers := s.buffers.alloc () } = _ :=
      execute_apply (s := { s with buffers := s.buffers.alloc () }) hst e.bytes
    rw [EStateM.bind_apply, Process.closure, hexecute]
    dsimp only
    cases List.forM ((p.execute st e.bytes).events.map (.parser client)) (Server.handle now h own)
      s.server <;> rfl
  · rw [if_neg hpos, if_neg hpos]
    dsimp only
    rw [← hst, Function.update_eq_self]
    rfl

/-- **One event of the loop** that is no error: the server runs the events that
the parsers have made of it. -/
theorem InStep.handle (hs : InStep now h own p es s) {ev : LoopEvent} (hev : ¬ Fails es ev) :
    match Server.run now h own (serverEvents p (es ++ [ev])) with
    | .ok _ _ => ∃ s', Process.handle now h own p ev s = .ok () s' ∧
        InStep now h own p (es ++ [ev]) s'
    | .error x server => ∃ s', Process.handle now h own p ev s = .error (.raised x) s' ∧
        s'.server = server := by
  cases ev with
  | connection client accepted =>
    have hevents : serverEvents p (es ++ [.connection client accepted])
        = serverEvents p es ++ [.connection client accepted] := by
      rw [serverEvents, feed_concat]
      rfl
    have hrun := hs.run_append [.connection client accepted]
    obtain ⟨server, hserver⟩ : ∃ server, Server.handle now h own (.connection client accepted)
        s.server = .ok () server := by
      cases accepted with
      | true => exact ⟨_, Server.callback_true s.server own client⟩
      | false => exact ⟨_, rfl⟩
    have hone : List.forM [.connection client accepted] (Server.handle now h own) s.server
        = .ok () server := EStateM.bind_ok hserver
    rw [hone] at hrun
    rw [hevents, hrun]
    have hparsers : (feed p (es ++ [.connection client accepted])).parsers
        = if accepted then Function.update s.parsers client (some p.init) else s.parsers := by
      rw [feed_concat, hs.parsers]
      rfl
    have honServer : Process.onServer (Server.handle now h own (.connection client accepted)) s
        = .ok () { s with server } := by
      rw [Process.onServer, hserver]
    cases accepted with
    | true =>
      refine ⟨_, EStateM.bind_ok honServer, hparsers.symm, ?_, hs.buffers⟩
      rw [hevents]
      exact hrun
    | false =>
      refine ⟨_, EStateM.bind_ok honServer, hparsers.symm, ?_, hs.buffers⟩
      rw [hevents]
      exact hrun
  | read client e =>
    cases hst : s.parsers client with
    | none =>
      have hfeed : feed p (es ++ [.read client e]) = feed p es := by
        rw [feed_concat, Feed.next, ← hs.parsers, hst]
      have hrun := hs.server
      have hevents : serverEvents p (es ++ [.read client e]) = serverEvents p es :=
        congrArg Feed.events hfeed
      rw [hevents, hrun]
      exact ⟨s, handle_read_of_none hst e, hfeed ▸ hs.parsers, hevents ▸ hrun, hs.buffers⟩
    | some st =>
      have hmem : .connection client true ∈ es := by
        rw [← parsers_feed_iff p, ← hs.parsers, hst]
        exact Option.some_ne_none st
      have hn : 0 ≤ e.nread := Int64.not_lt.mp fun hneg => hev ⟨hmem, hneg⟩
      have hfeed : feed p (es ++ [.read client e])
          = ⟨Function.update s.parsers client (some (p.take st e).parser),
            serverEvents p es ++ (p.take st e).events.map (.parser client)⟩ := by
        rw [feed_concat, Feed.next, ← hs.parsers, hst]
        rfl
      have hevents : serverEvents p (es ++ [.read client e])
          = serverEvents p es ++ (p.take st e).events.map (.parser client) :=
        congrArg Feed.events hfeed
      have hrun := hs.run_append ((p.take st e).events.map (.parser client))
      rw [hevents, hrun, handle_read_of_some hst, onRead_apply hst hn]
      rw [← hevents] at hrun
      cases hforM : List.forM ((p.take st e).events.map (.parser client))
          (Server.handle now h own) s.server with
      | ok _ server =>
        refine ⟨_, rfl, ?_, ?_, ?_⟩
        · rw [hfeed]
        · rw [hrun, hforM]
        · exact (hs.buffers.alloc ()).release (List.Perm.refl [s.buffers.fresh])
      | error x server => exact ⟨_, rfl, rfl⟩

/-- A client that closes or fails ends the process: `read_cb` gets no string for it. -/
theorem InStep.errorStop (hs : InStep now h own p es s) {client : ClientT} {e : ReadEvent}
    (hev : Fails es (.read client e)) :
    ∃ s', Process.handle now h own p (.read client e) s = .error (errorStop e.nread) s' ∧
      s'.server = s.server := by
  obtain ⟨hmem, hneg⟩ := hev
  have hst : s.parsers client ≠ none := by
    rw [hs.parsers]
    exact (parsers_feed_iff p es client).mpr hmem
  obtain ⟨st, hst⟩ := Option.ne_none_iff_exists'.mp hst
  refine ⟨{ s with buffers := s.buffers.alloc () }, ?_, rfl⟩
  rw [handle_read_of_some hst, Process.onRead, readCb_of_neg hneg]

/-! ## The run -/

/-- One more event of the loop only adds events of the parsers. -/
theorem exists_serverEvents_concat (p : HttpParser π) (es : List LoopEvent) (ev : LoopEvent) :
    ∃ evs, serverEvents p (es ++ [ev]) = serverEvents p es ++ evs := by
  rw [serverEvents, feed_concat]
  rcases ev with ⟨c, a⟩ | ⟨c, e⟩
  · exact ⟨_, rfl⟩
  · rw [Feed.next]
    cases (feed p es).parsers c with
    | none => exact ⟨[], (List.append_nil _).symm⟩
    | some st => exact ⟨_, rfl⟩

/-- The event neither is an error nor makes a callback raise. -/
def GoesOn (p : HttpParser π) (pre : List LoopEvent) (ev : LoopEvent) : Prop :=
  ¬ Fails pre ev ∧ KeepsRunning (serverEvents p (pre ++ [ev]))

/-- The loop goes on when no client closes or fails and no callback raises. -/
theorem atEvery_goesOn_iff (p : HttpParser π) (es : List LoopEvent) :
    AtEvery (GoesOn p) es ↔ Calm es ∧ KeepsRunning (serverEvents p es) := by
  induction es using List.reverseRecOn with
  | nil => exact iff_of_true (atEvery_nil _) ⟨atEvery_nil _, atEvery_nil _⟩
  | append_singleton es ev ih =>
    have hkeeps : KeepsRunning (serverEvents p (es ++ [ev])) →
        KeepsRunning (serverEvents p es) := by
      intro hes
      obtain ⟨evs, hevs⟩ := exists_serverEvents_concat p es ev
      rw [hevs] at hes
      exact hes.of_append
    have hcalm : Calm (es ++ [ev]) ↔ Calm es ∧ ¬ Fails es ev := atEvery_concat_iff _ es ev
    rw [atEvery_concat_iff, ih, hcalm]
    constructor
    · rintro ⟨⟨hcalm, -⟩, hfails, hnext⟩
      exact ⟨⟨hcalm, hfails⟩, hnext⟩
    · rintro ⟨⟨hcalm, hfails⟩, hnext⟩
      exact ⟨⟨hcalm, hkeeps hnext⟩, hfails, hnext⟩

/-- **The run**, as long as it goes on. -/
theorem exists_run_inStep (now : Tm) (h : Handler κ σ) (own : σ) (hes : AtEvery (GoesOn p) es) :
    ∃ s, Process.run now h own p es = .ok () s ∧ InStep now h own p es s := by
  induction es using List.reverseRecOn with
  | nil => exact ⟨_, rfl, inStep_fresh⟩
  | append_singleton es ev ih =>
    obtain ⟨hpre, hfails, hkeeps⟩ := (atEvery_concat_iff _ _ _).mp hes
    obtain ⟨s, hrun, hs⟩ := ih hpre
    obtain ⟨server, hserver, -⟩ := exists_standing_run now h own hkeeps
    have hstep := hs.handle hfails
    rw [hserver] at hstep
    obtain ⟨s', hhandle, hs'⟩ := hstep
    refine ⟨s', ?_, hs'⟩
    rw [Process.run] at hrun ⊢
    rw [EStateM.forM_concat, hrun]
    exact hhandle

/-- Nothing is run behind an event that ends the process. -/
theorem run_append_of_handle {s' : Process π κ σ} {ev : LoopEvent} {x : Stop}
    (hrun : Process.run now h own p es = .ok () s)
    (hev : Process.handle now h own p ev s = .error x s') (post : List LoopEvent) :
    Process.run now h own p (es ++ ev :: post) = .error x s' := by
  rw [Process.run] at hrun ⊢
  rw [EStateM.forM_append, hrun]
  exact EStateM.bind_error hev

end Run

/-- What can be seen of each client is what can be seen of it when it is alone with its own
events. -/
def AsIfAlone (now : Tm) (h : Handler κ σ) (own : σ) (evs : List ServerEvent)
    (server : Server κ σ) : Prop :=
  ∀ c, observe server c = observe (Server.run now h own (eventsOf c evs)).store c

section Ends

variable (now : Tm) (h : Handler κ σ) (own : σ) {p : HttpParser π} {es : List LoopEvent}

/-- Each client is served as if it were alone. -/
theorem InStep.asIfAlone {s : Process π κ σ} (hs : InStep now h own p es s)
    (hes : KeepsRunning (serverEvents p es)) :
    AsIfAlone now h own (serverEvents p es) s.server := by
  intro c
  have halone := observe_eq_alone now h own hes c
  rw [hs.server] at halone
  exact halone

/-- The end in `read_cb`. -/
theorem exists_run_errorStop (hes : AtEvery (GoesOn p) es) {client : ClientT} {e : ReadEvent}
    (hev : Fails es (.read client e)) (post : List LoopEvent) :
    ∃ s, Process.run now h own p (es ++ .read client e :: post) = .error (errorStop e.nread) s ∧
      AsIfAlone now h own (serverEvents p es) s.server := by
  obtain ⟨s, hrun, hs⟩ := exists_run_inStep now h own hes
  obtain ⟨s', hhandle, hserver⟩ := hs.errorStop hev
  refine ⟨s', run_append_of_handle hrun hhandle post, ?_⟩
  rw [hserver]
  exact hs.asIfAlone now h own ((atEvery_goesOn_iff p es).mp hes).2

/-- The exception of a callback, for the first of the parser's events that raises one. -/
theorem exists_run_raised (hes : AtEvery (GoesOn p) es) {ev : LoopEvent} (hfails : ¬ Fails es ev)
    {evs evs' : List ServerEvent} {e : ServerEvent}
    (hevents : serverEvents p (es ++ [ev]) = evs ++ e :: evs') (hevs : KeepsRunning evs)
    (he : StopsLoop evs e) (post : List LoopEvent) :
    ∃ s, Process.run now h own p (es ++ ev :: post)
        = .error (.raised (.invalidArgument "List.fold_left2")) s ∧
      AsIfAlone now h own evs s.server := by
  obtain ⟨s, hrun, hs⟩ := exists_run_inStep now h own hes
  obtain ⟨server, hserver, halone⟩ := exists_stopped_run now h own hevs he evs'
  have hstep := hs.handle hfails
  rw [hevents, hserver] at hstep
  obtain ⟨s', hhandle, rfl⟩ := hstep
  exact ⟨s', run_append_of_handle hrun hhandle post, halone⟩

/-- An event that the process does not survive. -/
theorem exists_run_error (hes : AtEvery (GoesOn p) es) {ev : LoopEvent} (hev : ¬ GoesOn p es ev)
    (post : List LoopEvent) : ∃ x s, Process.run now h own p (es ++ ev :: post) = .error x s := by
  by_cases hfails : Fails es ev
  · cases ev with
    | connection client accepted => exact hfails.elim
    | read client e =>
      obtain ⟨s, hrun, -⟩ := exists_run_errorStop now h own hes hfails post
      exact ⟨_, s, hrun⟩
  · have hstops : ¬ KeepsRunning (serverEvents p (es ++ [ev])) := fun hkeeps =>
      hev ⟨hfails, hkeeps⟩
    obtain ⟨evs, e, evs', hevents, hevs, he⟩ := exists_first_of_not_atEvery hstops
    obtain ⟨s, hrun, -⟩ := exists_run_raised now h own hes hfails hevents hevs (not_not.mp he) post
    exact ⟨_, s, hrun⟩

/-- A run that comes to its end. -/
theorem goesOn_of_run {s : Process π κ σ} (hrun : Process.run now h own p es = .ok () s) :
    AtEvery (GoesOn p) es := by
  by_contra hes
  obtain ⟨pre, ev, post, rfl, hpre, hev⟩ := exists_first_of_not_atEvery hes
  obtain ⟨x, s', hs'⟩ := exists_run_error now h own hpre hev post
  rw [hrun] at hs'
  cases hs'

/-- The process after such a run. -/
theorem inStep_of_run {s : Process π κ σ} (hrun : Process.run now h own p es = .ok () s) :
    InStep now h own p es s := by
  obtain ⟨s', hrun', hs'⟩ := exists_run_inStep now h own (goesOn_of_run now h own hrun)
  rw [hrun] at hrun'
  cases hrun'
  exact hs'

end Ends
