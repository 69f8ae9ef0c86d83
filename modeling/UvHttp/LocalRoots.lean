/-
# The stack of local roots

`caml_local_roots` is a list of blocks in the frames of C functions.  `CAMLparam`
remembers its head and pushes, `CAMLlocal` pushes, `CAMLreturn` puts the head back; a
plain `return` does nothing.  A run is a sequence of calls and returns between OCaml
code, the stubs, the two libraries and the callbacks that the libraries make.
-/
import Mathlib.Data.Int.Notation
import UvHttp.Machine
import UvHttp.ShadowStack

namespace LocalRoots

/-! ## The functions -/

/-- The callbacks that `http_parser_execute` makes. -/
inductive Callback where
  | onMessageBegin
  | onUrl
  | onStatus
  | onHeaderField
  | onHeaderValue
  | onHeadersComplete
  | onBody
  | onMessageComplete
  deriving DecidableEq

/-- A callback with data, for which a string is allocated. -/
def Callback.isData : Callback → Bool
  | .onUrl | .onStatus | .onHeaderField | .onHeaderValue | .onBody => true
  | .onMessageBegin | .onHeadersComplete | .onMessageComplete => false

/-- The stubs that run no OCaml code. -/
inductive External where
  | uvAcceptOcaml
  | uvReadStartOcaml
  | uvShutdownOcaml
  | uvDefaultLoopOcaml
  | uvTcpInitOcaml
  | uvTcpBindOcaml
  | uvListenOcaml
  | uvWriteOcaml
  | requestOn
  | request
  | camlHttpParserVersion
  | camlHttpParserInit
  | camlHttpParserFree
  | camlHttpShouldKeepAlive
  | camlHttpMethodStr
  | camlHttpErrnoCode
  | camlHttpErrnoName
  | camlHttpErrnoDescription
  | camlHttpParserPause
  | camlHttpBodyIsFinal
  | camlHttpStatusCode
  | camlHttpMethodCode
  | camlHttpIsUpgrade
  | camlHttpParserParseUrl
  deriving DecidableEq

/-- A C function with an active frame; for `caml_http_parser_execute` with the
callbacks that were made in it so far. -/
inductive Func where
  | external (f : External)
  | uvRunOcaml
  | runUvLoop
  | camlHttpParserExecute (made : List Callback)
  | connectionCb
  | readCb (nread : Int64)
  | clientReadCb (nread : Int64)
  | clientConnectCb
  | writeCb
  | shutdownCb
  | closeCb
  | timeoutFiredCb
  | callback (cb : Callback)
  deriving DecidableEq

/-- The `N` of `CAMLparamN` and of `CAMLlocalN`; none where the macro is not used. -/
structure Macros where
  param : Option ℕ
  locals : Option ℕ

/-- The macros at the head of a stub. -/
def External.macros : External → Macros
  | .uvAcceptOcaml => ⟨some 2, none⟩
  | .uvReadStartOcaml => ⟨some 1, none⟩
  | .uvShutdownOcaml => ⟨some 1, none⟩
  | .uvDefaultLoopOcaml => ⟨some 0, some 1⟩
  | .uvTcpInitOcaml => ⟨some 1, some 1⟩
  | .uvTcpBindOcaml => ⟨some 4, none⟩
  | .uvListenOcaml => ⟨some 3, none⟩
  | .uvWriteOcaml => ⟨some 2, none⟩
  | .requestOn => ⟨some 2, none⟩
  | .request => ⟨some 4, none⟩
  | .camlHttpParserVersion => ⟨some 1, some 1⟩
  | .camlHttpParserInit => ⟨some 1, some 1⟩
  | .camlHttpParserFree => ⟨some 1, none⟩
  | .camlHttpShouldKeepAlive => ⟨some 1, some 1⟩
  | .camlHttpMethodStr => ⟨some 1, some 1⟩
  | .camlHttpErrnoCode => ⟨some 1, some 1⟩
  | .camlHttpErrnoName => ⟨some 1, some 1⟩
  | .camlHttpErrnoDescription => ⟨some 1, some 1⟩
  | .camlHttpParserPause => ⟨some 2, none⟩
  | .camlHttpBodyIsFinal => ⟨some 1, some 1⟩
  | .camlHttpStatusCode => ⟨some 1, some 1⟩
  | .camlHttpMethodCode => ⟨some 1, some 1⟩
  | .camlHttpIsUpgrade => ⟨some 1, some 1⟩
  | .camlHttpParserParseUrl => ⟨some 2, some 2⟩

/-- The macros at the head of a function. -/
def Func.macros : Func → Macros
  | .external f => f.macros
  | .uvRunOcaml => ⟨some 1, none⟩
  | .runUvLoop => ⟨some 0, none⟩
  | .camlHttpParserExecute _ => ⟨some 3, none⟩
  | .clientReadCb _ => ⟨some 0, some 1⟩
  | .connectionCb | .readCb _ | .clientConnectCb | .writeCb | .shutdownCb | .closeCb
  | .timeoutFiredCb => ⟨none, none⟩
  | .callback cb => if cb.isData then ⟨none, some 2⟩ else ⟨none, none⟩

/-- The blocks that a macro pushes: one for all its variables, if it has any. -/
def blocksOf (n : Option ℕ) : ℕ := if n.getD 0 = 0 then 0 else 1

/-- The blocks that a function pushes. -/
def Func.blocks (f : Func) : ℕ := blocksOf f.macros.param + blocksOf f.macros.locals

/-- A stub that runs no OCaml code. -/
def Func.isExternal : Func → Bool
  | .external _ => true
  | _ => false

/-- A function that waits in `uv_run`. -/
def Func.isLoop : Func → Bool
  | .uvRunOcaml | .runUvLoop => true
  | _ => false

/-- A function that waits in `http_parser_execute`. -/
def Func.isExecute : Func → Bool
  | .camlHttpParserExecute _ => true
  | _ => false

/-! ## The machine -/

/-- The active frames and `caml_local_roots`. -/
abbrev State := ShadowStack Func

/-- A call, a return, or a callback of libuv. -/
inductive Event where
  | call (f : External)
  | externalReturns
  | uvRun
  | runLoop
  | loopReturns
  | execute
  | parser (cb : Callback)
  | executeReturns
  | connection (status : ℤ)
  | read (nread : Int64)
  | clientRead (nread : Int64)
  | connect (status : ℤ)
  | write (status : ℤ)
  | shutdown (status : ℤ)
  | close
  | timeout
  | ocamlReturns

/-- OCaml code runs: the main program, or what a callback has called.  The string of
`read_cb` is never made when `nread` is an error. -/
def runsOcaml : Option Func → Bool
  | none => true
  | some (.readCb nread) => decide (0 ≤ nread)
  | some (.clientReadCb _) | some .connectionCb | some .clientConnectCb => true
  | some (.callback _) => true
  | some _ => false

/-- Who may make a call or return. -/
def enabled (m : State) : Event → Bool
  | .call _ | .uvRun | .runLoop | .execute => runsOcaml m.top
  | .externalReturns => m.top.any Func.isExternal
  | .parser _ | .executeReturns => m.top.any Func.isExecute
  | .connection _ | .read _ | .clientRead _ | .connect _ | .write _ | .shutdown _ | .close
  | .timeout | .loopReturns => m.top.any Func.isLoop
  | .ocamlReturns => m.top.isSome && runsOcaml m.top

namespace State

variable (m : State)

/-- A call of a C function, as far as its macros. -/
def enter (f : Func) : State := ShadowStack.enter m f f.blocks

/-- `CAMLreturn`. -/
def camlReturn : State := ShadowStack.restore m

/-- A plain `return`. -/
def plainReturn : State := ShadowStack.leave m

/-- `connection_cb`, up to the OCaml code that it runs. -/
def connectionCb : State := m.enter .connectionCb

/-- `read_cb`, up to the string or the OCaml code that it runs. -/
def readCb (nread : Int64) : State :=
  let m := m.enter (.readCb nread)
  if nread = 0 then m.plainReturn else m

/-- `client_read_cb`, up to the OCaml code that it runs. -/
def clientReadCb (nread : Int64) : State :=
  let m := m.enter (.clientReadCb nread)
  if nread = 0 then m.plainReturn else m

/-- `client_connect_cb`, up to the OCaml code that it runs. -/
def clientConnectCb (status : ℤ) : State :=
  let m := m.enter .clientConnectCb
  if status ≠ 0 then m else m.plainReturn

/-- `write_cb`. -/
def writeCb : State := (m.enter .writeCb).plainReturn

/-- `shutdown_cb`. -/
def shutdownCb : State := (m.enter .shutdownCb).plainReturn

/-- `close_cb`. -/
def closeCb : State := (m.enter .closeCb).plainReturn

/-- `timeout_fired_cb`. -/
def timeoutFiredCb : State := (m.enter .timeoutFiredCb).plainReturn

/-- `on_url_cb` and the others, up to the OCaml code that they run. -/
def callback (cb : Callback) : State :=
  match ShadowStack.top m with
  | some (.camlHttpParserExecute made) =>
    State.enter (ShadowStack.rename m (.camlHttpParserExecute (made ++ [cb]))) (.callback cb)
  | _ => m

/-- The end of a callback, when the OCaml code that it has run returns. -/
def ocamlReturns : State :=
  match ShadowStack.top m with
  | some (.clientReadCb nread) => if nread < 0 then m.plainReturn else m.camlReturn
  | _ => m.plainReturn

end State

/-- What an event does. -/
def exec (m : State) : Event → State
  | .call f => m.enter (.external f)
  | .externalReturns => m.camlReturn
  | .uvRun => m.enter .uvRunOcaml
  | .runLoop => m.enter .runUvLoop
  | .loopReturns => m.camlReturn
  | .execute => m.enter (.camlHttpParserExecute [])
  | .parser cb => m.callback cb
  | .executeReturns => m.camlReturn
  | .connection _ => m.connectionCb
  | .read nread => m.readCb nread
  | .clientRead nread => m.clientReadCb nread
  | .connect status => m.clientConnectCb status
  | .write _ => m.writeCb
  | .shutdown _ => m.shutdownCb
  | .close => m.closeCb
  | .timeout => m.timeoutFiredCb
  | .ocamlReturns => m.ocamlReturns

/-- The program. -/
def program : Machine State Event := ⟨enabled, exec⟩

/-- The start of the program. -/
def init : State := ShadowStack.empty

end LocalRoots
