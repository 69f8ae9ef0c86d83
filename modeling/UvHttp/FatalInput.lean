/-
# Fatal inputs

The closure that `createServer` registers with `requestOn` runs the parser on every
input and drops the result.  An empty string, which stands for the end of the
input or a read error, and a parse error are fatal for a connection; nothing but
the handler can end it.
-/
import UvHttp.EndOfResponse

variable {π κ σ : Type}

/-! ## The parser -/

/-- What `http_parser_execute` makes of an input: the state after it, the callbacks
it made and its result, the number of bytes it consumed. -/
structure Execution (π : Type) where
  parser : π
  events : List Event
  consumed : ℕ

/-- The parser library.  All callbacks of `createParser` return `0`, so what it
does with an input does not depend on them. -/
structure HttpParser (π : Type) where
  init : π
  execute : π → OString → Execution π
  /-- `HTTP_PARSER_ERRNO` is not `HPE_OK`. -/
  inError : π → Bool
  upgrade : π → Bool

namespace HttpParser

/-- What the library documents: it stops short exactly on an error or an upgrade,
and in error it does nothing more. -/
structure Documented (p : HttpParser π) : Prop where
  init : p.inError p.init = false
  short : ∀ s data, data ≠ [] → ((p.execute s data).consumed < data.length ↔
    p.inError (p.execute s data).parser = true ∨ p.upgrade (p.execute s data).parser = true)
  stuck : ∀ s data, p.inError s = true →
    p.inError (p.execute s data).parser = true ∧ (p.execute s data).events = []

/-- `execute` reports a parse error. -/
def ReportsError (p : HttpParser π) (s : π) (data : OString) : Prop :=
  (p.execute s data).consumed < data.length ∧ p.inError (p.execute s data).parser = true

/-- The input ends the connection: the end of the input, a read error or a parse
error. -/
def Fatal (p : HttpParser π) (s : π) (data : OString) : Prop := data = [] ∨ p.ReportsError s data

end HttpParser

/-! ## The closure of `requestOn` -/

/-- A connection with its parser. -/
structure Session (π κ σ : Type) where
  parser : π
  conn : Conn κ σ

/-- `HttpParser.execute`: the callbacks run during the call. -/
def execute (p : HttpParser π) (settings : HttpParserSettings (Conn κ σ)) (data : OString) :
    Ocaml (Session π κ σ) ℤ := fun s =>
  let r := p.execute s.parser data
  match deliver settings r.events s.conn with
  | .ok _ conn => .ok r.consumed ⟨r.parser, conn⟩
  | .error x conn => .error x ⟨r.parser, conn⟩

/-- The closure: `let _ = HttpParser.execute(parser, settings, data);`. -/
def onInput (now : Tm) (h : Handler κ σ) (p : HttpParser π) (data : OString) :
    Ocaml (Session π κ σ) Unit := do
  let _ ← execute p (createParser now h Conn.cells) data
  pure ()

/-- The session of a connection that was just accepted. -/
def Session.start (p : HttpParser π) (client : ClientT) (own : σ) : Session π κ σ :=
  ⟨p.init, Conn.accept client own⟩

/-- The closure on a list of inputs. -/
def onInputs (now : Tm) (h : Handler κ σ) (p : HttpParser π) (client : ClientT) (own : σ)
    (inputs : List OString) : EStateM.Result Exn (Session π κ σ) Unit :=
  List.forM inputs (onInput now h p) (Session.start p client own)

/-- One input does what the events of its execution do. -/
theorem onInput_apply (now : Tm) (h : Handler κ σ) (p : HttpParser π) (data : OString)
    (s : Session π κ σ) :
    onInput now h p data s = match s.conn.run now h (p.execute s.parser data).events with
      | (conn, none) => .ok () ⟨(p.execute s.parser data).parser, conn⟩
      | (conn, some x) => .error x ⟨(p.execute s.parser data).parser, conn⟩ := by
  rw [onInput, EStateM.bind_apply, execute, Conn.deliver_eq_run]
  rcases s.conn.run now h (p.execute s.parser data).events with ⟨conn, _ | x⟩ <;> rfl

/-! ## Reached sessions -/

section Reached

variable {now : Tm} {h : Handler κ σ} {p : HttpParser π} {client : ClientT} {own : σ}

/-- One more input. -/
theorem onInputs_concat {inputs : List OString} {data : OString} {s : Session π κ σ}
    (hs : onInputs now h p client own (inputs ++ [data]) = .ok () s) :
    ∃ s₀, onInputs now h p client own inputs = .ok () s₀ ∧ onInput now h p data s₀ = .ok () s := by
  rw [onInputs, EStateM.forM_concat, ← onInputs] at hs
  cases hinputs : onInputs now h p client own inputs with
  | ok _ s₀ =>
    rw [hinputs] at hs
    exact ⟨s₀, rfl, hs⟩
  | error x s₀ =>
    rw [hinputs] at hs
    cases hs

theorem onInput_recorded {data : OString} {s s' : Session π κ σ}
    (hs : s.conn.Recorded now client) (hrun : onInput now h p data s = .ok () s') :
    s'.conn.Recorded now client := by
  have hrecorded := Conn.run_recorded h hs (p.execute s.parser data).events
  rw [onInput_apply] at hrun
  rcases hconn : s.conn.run now h (p.execute s.parser data).events with ⟨conn, _ | x⟩
  · rw [hconn] at hrun hrecorded
    cases hrun
    exact hrecorded
  · rw [hconn] at hrun
    cases hrun

/-- The record of every reached session replays. -/
theorem onInputs_recorded {inputs : List OString} {s : Session π κ σ}
    (hs : onInputs now h p client own inputs = .ok () s) : s.conn.Recorded now client := by
  induction inputs using List.reverseRecOn generalizing s with
  | nil =>
    cases hs
    exact Conn.accept_recorded own
  | append_singleton inputs data ih =>
    obtain ⟨s₀, hs₀, hdata⟩ := onInputs_concat hs
    exact onInput_recorded (ih hs₀) hdata

/-- A shutdown was asked for exactly when a callback has called `endConnection`. -/
theorem shutdown_mem_iff {inputs : List OString} {s : Session π κ σ}
    (hs : onInputs now h p client own inputs = .ok () s) :
    .uvShutdown ∈ callsIn s.conn.log ↔ .endConnection ∈ opsOf s.conn.log := by
  rw [callsIn_eq_callsOf (onInputs_recorded hs).log, shutdown_mem_callsOf_iff]

/-- In error, the parser drops its input. -/
theorem onInput_of_inError (hp : p.Documented) {data : OString} {s s' : Session π κ σ}
    (herr : p.inError s.parser = true) (hrun : onInput now h p data s = .ok () s') :
    s'.conn = s.conn := by
  rw [onInput_apply, (hp.stuck s.parser data herr).2] at hrun
  cases hrun
  rfl

end Reached

/-! ## No connection survives -/

/-- The closure got an input in a reached session and came back. -/
def Processed (now : Tm) (h : Handler κ σ) (p : HttpParser π) (client : ClientT) (own : σ)
    (inputs : List OString) (s : Session π κ σ) (data : OString) (s' : Session π κ σ) : Prop :=
  ∃ pre post, inputs = pre ++ data :: post ∧ onInputs now h p client own pre = .ok () s ∧
    onInput now h p data s = .ok () s'

/-- After a fatal input the client is shut down, and no reached session has a parser
in error and a client that is not. -/
structure NoneSurvives (now : Tm) (h : Handler κ σ) (p : HttpParser π) (client : ClientT)
    (own : σ) (inputs : List OString) : Prop where
  fatal : ∀ s data s', Processed now h p client own inputs s data s' → p.Fatal s.parser data →
    .uvShutdown ∈ callsIn s'.conn.log
  broken : ∀ pre post s, inputs = pre ++ post → onInputs now h p client own pre = .ok () s →
    p.inError s.parser = true → .uvShutdown ∈ callsIn s.conn.log

/-- By the end of every fatal input a callback of the handler has called
`endConnection`. -/
def EndedByHandler (now : Tm) (h : Handler κ σ) (p : HttpParser π) (client : ClientT) (own : σ)
    (inputs : List OString) : Prop :=
  ∀ s data s', Processed now h p client own inputs s data s' → p.Fatal s.parser data →
    .endConnection ∈ opsOf s'.conn.log

theorem Processed.reached {now : Tm} {h : Handler κ σ} {p : HttpParser π} {client : ClientT}
    {own : σ} {inputs : List OString} {s s' : Session π κ σ} {data : OString}
    (hproc : Processed now h p client own inputs s data s') :
    ∃ pre, onInputs now h p client own pre = .ok () s' := by
  obtain ⟨pre, -, -, hs, hdata⟩ := hproc
  refine ⟨pre ++ [data], ?_⟩
  rw [onInputs, EStateM.forM_concat, ← onInputs, hs]
  exact hdata

/-- A parser is in error because of an input that was fatal. -/
theorem shutdown_of_inError {now : Tm} {h : Handler κ σ} {p : HttpParser π} (hp : p.Documented)
    {client : ClientT} {own : σ} {inputs : List OString}
    (hfatal : ∀ s data s', Processed now h p client own inputs s data s' →
      p.Fatal s.parser data → .uvShutdown ∈ callsIn s'.conn.log)
    (pre post : List OString) (s : Session π κ σ) (hsplit : inputs = pre ++ post)
    (hs : onInputs now h p client own pre = .ok () s) (herr : p.inError s.parser = true) :
    .uvShutdown ∈ callsIn s.conn.log := by
  induction pre using List.reverseRecOn generalizing post s with
  | nil =>
    cases hs
    have := hp.init
    rw [Session.start, this] at herr
    cases herr
  | append_singleton pre data ih =>
    obtain ⟨s₀, hs₀, hdata⟩ := onInputs_concat hs
    have hsplit₀ : inputs = pre ++ data :: post := by rw [hsplit, List.append_assoc]; rfl
    by_cases herr₀ : p.inError s₀.parser = true
    · -- it was in error before, and the input was dropped
      rw [onInput_of_inError hp herr₀ hdata]
      exact ih (data :: post) s₀ hsplit₀ hs₀ herr₀
    · -- this input has broken it, so it was fatal
      refine hfatal s₀ data s ⟨pre, post, hsplit₀, hs₀, hdata⟩ ?_
      have hparser : s.parser = (p.execute s₀.parser data).parser := by
        rw [onInput_apply] at hdata
        split at hdata <;> cases hdata
        rfl
      by_cases hempty : data = []
      · exact .inl hempty
      · rw [hparser] at herr
        exact .inr ⟨(hp.short s₀.parser data hempty).mpr (.inl herr), herr⟩

/-- **No connection survives a fatal input, exactly when the handler ends every such
connection itself.** -/
theorem noneSurvives_iff (now : Tm) (h : Handler κ σ) (p : HttpParser π) (hp : p.Documented)
    (client : ClientT) (own : σ) (inputs : List OString) :
    NoneSurvives now h p client own inputs ↔ EndedByHandler now h p client own inputs := by
  constructor
  · intro hnone s data s' hproc hfatal
    obtain ⟨pre, hs'⟩ := hproc.reached
    exact (shutdown_mem_iff hs').mp (hnone.fatal s data s' hproc hfatal)
  · intro hended
    have hfatal : ∀ s data s', Processed now h p client own inputs s data s' →
        p.Fatal s.parser data → .uvShutdown ∈ callsIn s'.conn.log := by
      intro s data s' hproc hf
      obtain ⟨pre, hs'⟩ := hproc.reached
      exact (shutdown_mem_iff hs').mpr (hended s data s' hproc hf)
    exact ⟨hfatal, shutdown_of_inError hp hfatal⟩

/-- A request without headers. -/
def getRequest : OString := lit "GET / HTTP/1.1\r\n\r\n"

/-- The part of the parser that takes one request at a time, in one piece, and
everything else for an error. -/
def oneRequestParser : HttpParser Bool where
  init := false
  execute := fun broken data =>
    if broken = false ∧ data = getRequest then
      ⟨false, [.messageBegin, .url (lit "/"), .headersComplete, .messageComplete], data.length⟩
    else if data = [] then ⟨broken, [], 0⟩
    else ⟨true, [], 0⟩
  inError := fun broken => broken
  upgrade := fun _ => false

theorem oneRequestParser_documented : oneRequestParser.Documented := by
  constructor
  · rfl
  · intro broken data hdata
    have hlen : 0 < data.length := List.length_pos_iff.mpr hdata
    rw [oneRequestParser]
    dsimp only
    split_ifs with hrequest
    · simp
    · simpa using hlen
  · intro broken data hbroken
    have hne : ¬ (broken = false ∧ data = getRequest) := by
      rintro ⟨rfl, -⟩
      cases hbroken
    have hstate : broken = true := hbroken
    rw [oneRequestParser]
    dsimp only
    rw [if_neg hne]
    split_ifs
    · exact ⟨hstate, rfl⟩
    · exact ⟨rfl, rfl⟩

/-- A request that the example server answers and ends, and then the end of the
input. -/
theorem noneSurvives_getRequest :
    NoneSurvives epoch exampleServer oneRequestParser 0 () [getRequest, []] := by
  refine (noneSurvives_iff epoch exampleServer oneRequestParser oneRequestParser_documented
    0 () _).mpr ?_
  intro s data s' hproc _
  obtain ⟨prior, hprior⟩ := hproc.reached
  rw [← shutdown_mem_iff hprior]
  obtain ⟨pre, post, hsplit, hs, hdata⟩ := hproc
  have hafter : s' = (onInput epoch exampleServer oneRequestParser data s).store := by
    rw [hdata]
    rfl
  have hbefore : s = (onInputs epoch exampleServer oneRequestParser 0 () pre).store := by
    rw [hs]
    rfl
  rw [hafter, hbefore]
  rcases pre with _ | ⟨first, _ | ⟨second, pre⟩⟩
  · obtain ⟨rfl, -⟩ := List.cons.inj hsplit
    decide +kernel
  · obtain ⟨rfl, hrest⟩ := List.cons.inj hsplit
    obtain ⟨rfl, -⟩ := List.cons.inj hrest
    decide +kernel
  · simp at hsplit

/-- Bytes that begin no request. -/
def garbage : OString := [1]

/-- The example server keeps a client that has sent no request, or garbage, and then
closes its end. -/
theorem not_noneSurvives_garbage :
    ¬ NoneSurvives epoch exampleServer oneRequestParser 0 () [garbage] ∧
      ¬ NoneSurvives epoch exampleServer oneRequestParser 0 () [[]] := by
  constructor
  · intro h
    have := h.broken [garbage] [] ⟨true, Conn.accept 0 ()⟩ rfl rfl rfl
    exact absurd this (by decide)
  · intro h
    have := h.fatal (Session.start oneRequestParser 0 ()) [] (Session.start oneRequestParser 0 ())
      ⟨[], [], rfl, rfl, rfl⟩ (.inl rfl)
    exact absurd this (by decide)
