/-
# The life of handles, requests and buffers

`libuv_c.c` as far as it allocates, reads and releases memory of its own and
registers roots with the OCaml runtime, together with what libuv is documented to
do with a handle and a request.  The results of libuv are given with the events.
An event is one callback of libuv or one call from OCaml code; what a callback runs
in OCaml follows as events of its own.
-/
import Mathlib.Data.Finset.Basic
import UvHttp.Machine
import UvHttp.Pool

namespace Lifecycle

/-! ## Objects -/

/-- The `data` field of a handle: what `malloc` left there, or an OCaml callback. -/
inductive Data where
  | junk (isNull : Bool)
  | callback
  deriving DecidableEq

/-- `if (cb)`. -/
def Data.nonNull : Data → Bool
  | .junk isNull => !isNull
  | .callback => true

/-- What a handle was made for; `uv_run_ocaml` makes one that nothing uses. -/
inductive Role where
  | server
  | connection
  | client
  | unused
  deriving DecidableEq

/-- `uv_tcp_t`: the `data` field, and what libuv keeps about the stream. -/
structure Tcp where
  role : Role
  data : Data
  listening : Bool
  connected : Bool
  writable : Bool
  shut : Bool
  closing : Bool
  deriving DecidableEq

/-- `write_req_t`. -/
structure WriteReq where
  buf : ℕ
  deriving DecidableEq

/-- `client_connect_req_t`; libuv fills in the handle. -/
structure ClientConnectReq where
  handle : ℕ
  buf : ℕ
  deriving DecidableEq

/-- `uv_shutdown_t`; libuv fills in the handle. -/
structure ShutdownReq where
  handle : ℕ
  deriving DecidableEq

/-- A callback that libuv still has to run: with the request, and for a shutdown
also the stream it belongs to. -/
inductive Pending where
  | write (w : ℕ)
  | connect (c : ℕ)
  | shutdown (s h : ℕ)
  | close (h : ℕ)
  deriving DecidableEq

/-- An address registered as a global root: the `data` field of a handle, or the
parameter `cb` in one frame of `request`. -/
inductive Root where
  | data (h : ℕ)
  | param (frame : ℕ)
  deriving DecidableEq

/-- The memory of the stubs, the callbacks libuv owes, the handles whose accept or
connect failed, the roots, the addresses removed from the roots without being
there, and the calls of `request` so far, all of which have returned. -/
structure State where
  handles : Pool Tcp
  writes : Pool WriteReq
  connects : Pool ClientConnectReq
  shutdowns : Pool ShutdownReq
  bufs : Pool Unit
  pending : List Pending
  failed : List ℕ
  roots : Finset Root
  unregistered : List Root
  frames : ℕ

/-- The start of the program. -/
def State.init : State where
  handles := .empty
  writes := .empty
  connects := .empty
  shutdowns := .empty
  bufs := .empty
  pending := []
  failed := []
  roots := ∅
  unregistered := []
  frames := 0

namespace State

variable (m : State)

/-- The contents of a handle. -/
def tcp (h : ℕ) : Option Tcp := m.handles.blocks[h]?

/-! ## libuv and the OCaml runtime -/

/-- `malloc` of a `uv_tcp_t` and `uv_tcp_init`, which leaves `data` alone. -/
def uvTcpInit (role : Role) (isNull : Bool) : State :=
  { m with handles := m.handles.alloc ⟨role, .junk isNull, false, false, false, false, false⟩ }

/-- A read of the handle. -/
def touchHandle (h : ℕ) : State := { m with handles := m.handles.touch h }

/-- A write into the handle. -/
def setHandle (h : ℕ) (f : Tcp → Tcp) : State := { m with handles := m.handles.modify h f }

/-- `uv_write`: with result `0` the callback will be run. -/
def uvWrite (w h : ℕ) (r : ℤ) : State :=
  let m := m.touchHandle h
  if r = 0 then { m with pending := m.pending ++ [.write w] } else m

/-- `uv_shutdown`: libuv refuses a stream that was not opened for writing, by `uv_accept` or
`uv_tcp_connect`, and one that is shut down or closing; of the others the result tells. -/
def uvShutdown (s h : ℕ) (r : ℤ) : State :=
  let m := m.touchHandle h
  if (m.tcp h).any (fun t => t.writable && !t.shut && !t.closing) ∧ r = 0 then
    let m := m.setHandle h fun t => { t with shut := true }
    { m with pending := m.pending ++ [.shutdown s h] }
  else m

/-- `uv_close`. -/
def uvClose (h : ℕ) : State :=
  let m := m.setHandle h fun t => { t with closing := true }
  { m with pending := m.pending ++ [.close h] }

/-- `caml_register_global_root`. -/
def camlRegisterGlobalRoot (a : Root) : State := { m with roots := insert a m.roots }

/-- `caml_remove_global_root`. -/
def camlRemoveGlobalRoot (a : Root) : State :=
  if a ∈ m.roots then { m with roots := m.roots.erase a }
  else { m with unregistered := m.unregistered ++ [a] }

/-! ## Stubs -/

/-- `close_cb`. -/
def closeCb (h : ℕ) : State :=
  let m := m.touchHandle h
  let m := if (m.tcp h).any fun t => t.data.nonNull then m.camlRemoveGlobalRoot (.data h) else m
  { m with handles := m.handles.release h }

/-- `shutdown_cb`. -/
def shutdownCb (s : ℕ) : State :=
  match m.shutdowns.blocks[s]? with
  | none => m
  | some req =>
    let m := { m with shutdowns := m.shutdowns.touch s }
    let m := m.uvClose req.handle
    { m with shutdowns := m.shutdowns.release s }

/-- `write_cb`. -/
def writeCb (w : ℕ) : State :=
  match m.writes.blocks[w]? with
  | none => m
  | some req =>
    let m := { m with writes := m.writes.touch w }
    let m := { m with bufs := m.bufs.release req.buf }
    { m with writes := m.writes.release w }

/-- `uv_shutdown_ocaml`. -/
def uvShutdownOcaml (h : ℕ) (r : ℤ) : State :=
  let s := m.shutdowns.fresh
  let m := { m with shutdowns := m.shutdowns.alloc ⟨h⟩ }
  m.uvShutdown s h r

/-- `uv_write_ocaml`. -/
def uvWriteOcaml (h : ℕ) (r : ℤ) : State :=
  let buf := m.bufs.fresh
  let m := { m with bufs := m.bufs.alloc () }
  let w := m.writes.fresh
  let m := { m with writes := m.writes.alloc ⟨buf⟩ }
  m.uvWrite w h r

/-- `request_on`. -/
def requestOn (h : ℕ) : State :=
  let m := m.setHandle h fun t => { t with data := .callback }
  m.camlRegisterGlobalRoot (.data h)

/-- `uv_listen_ocaml`. -/
def uvListenOcaml (h : ℕ) : State :=
  let m := m.setHandle h fun t => { t with data := .callback }
  let m := m.camlRegisterGlobalRoot (.data h)
  m.setHandle h fun t => { t with listening := true }

/-- `uv_run_ocaml`: it makes a handle that is never initialised. -/
def uvRunOcaml (isNull : Bool) : State :=
  { m with handles := m.handles.alloc ⟨.unused, .junk isNull, false, false, false, false, false⟩ }

/-- `connection_cb` and the callback of `createServer` it runs. -/
def connectionCb (server : ℕ) (isNull : Bool) (accept shutdown : ℤ) : State :=
  let m := m.touchHandle server
  let client := m.handles.fresh
  let m := m.uvTcpInit .connection isNull
  -- `uv_accept`
  let m := m.touchHandle server
  if accept = 0 then
    let m := m.setHandle client fun t => { t with connected := true, writable := true }
    let m := m.requestOn client
    -- `uv_read_start`
    m.touchHandle client
  else
    let m := { m with failed := m.failed ++ [client] }
    m.uvShutdownOcaml client shutdown

/-- `read_cb` and `client_read_cb` read the `data` field. -/
def readCb (h : ℕ) : State := m.touchHandle h

/-- `request`: what is registered is the address of its parameter. -/
def request (isNull : Bool) (r : ℤ) : State :=
  let frame := m.frames
  let m := { m with frames := frame + 1 }
  let tcp := m.handles.fresh
  let m := m.uvTcpInit .client isNull
  let m := m.camlRegisterGlobalRoot (.param frame)
  let m := m.setHandle tcp fun t => { t with data := .callback }
  let buf := m.bufs.fresh
  let m := { m with bufs := m.bufs.alloc () }
  let c := m.connects.fresh
  let m := { m with connects := m.connects.alloc ⟨tcp, buf⟩ }
  -- `uv_tcp_connect` opens the stream before it connects; where it cannot, nothing is
  -- asked of the handle any more
  let m := m.setHandle tcp fun t => { t with writable := true }
  if r = 0 then { m with pending := m.pending ++ [.connect c] }
  else { m with failed := m.failed ++ [tcp] }

/-- `client_connect_cb`. -/
def clientConnectCb (c : ℕ) (status write shutdown : ℤ) : State :=
  match m.connects.blocks[c]? with
  | none => m
  | some req =>
    if status ≠ 0 then
      let m := { m with failed := m.failed ++ [req.handle] }
      let m := { m with connects := m.connects.release c }
      let s := m.shutdowns.fresh
      let m := { m with shutdowns := m.shutdowns.alloc ⟨req.handle⟩ }
      -- `req->handle`, twice, after `free(connect_req)`
      let m := { m with connects := m.connects.touch c }
      let m := m.uvShutdown s req.handle shutdown
      let m := { m with connects := m.connects.touch c }
      m.touchHandle req.handle
    else
      let m := m.setHandle req.handle fun t => { t with connected := true }
      let m := { m with connects := m.connects.touch c }
      -- `uv_read_start`
      let m := m.touchHandle req.handle
      let w := m.writes.fresh
      let m := { m with writes := m.writes.alloc ⟨req.buf⟩ }
      let m := m.uvWrite w req.handle write
      { m with connects := m.connects.release c }

end State

/-! ## Events -/

/-- One callback of libuv, or one call from OCaml code, with the results of the
libuv functions it calls. -/
inductive Event where
  | createServer (isNull : Bool)
  | listen (server : ℕ)
  | run (isNull : Bool)
  | connection (server : ℕ) (isNull : Bool) (accept shutdown : ℤ)
  | requestOn (h : ℕ)
  | write (h : ℕ) (r : ℤ)
  | shutdown (h : ℕ) (r : ℤ)
  | read (h : ℕ)
  | request (isNull : Bool) (r : ℤ)
  | connectDone (c : ℕ) (status write shutdown : ℤ)
  | writeDone (w : ℕ) (status : ℤ)
  | shutdownDone (s h : ℕ) (status : ℤ)
  | closed (h : ℕ)
  deriving DecidableEq

/-- OCaml code holds a response with this handle. -/
def State.held (m : State) (h : ℕ) : Bool :=
  (m.tcp h).any fun t => t.role = .connection && t.connected

/-- What may happen: OCaml code uses the handles it holds, also when the connection
is over; libuv runs the callbacks it owes, and reads only from open streams. -/
def enabled (m : State) : Event → Bool
  | .createServer _ => true
  | .listen server => (m.tcp server).any fun t => t.role = .server
  | .run _ => true
  | .connection server _ _ _ => (m.tcp server).any fun t => t.listening
  | .requestOn h => m.held h
  | .write h _ => m.held h
  | .shutdown h _ => m.held h
  | .read h => (m.tcp h).any fun t => t.connected && !t.closing
  | .request _ _ => true
  | .connectDone c _ _ _ => .connect c ∈ m.pending
  | .writeDone w _ => .write w ∈ m.pending
  | .shutdownDone s h _ => .shutdown s h ∈ m.pending
  | .closed h => .close h ∈ m.pending

/-- A callback is run once: it is no longer owed. -/
def State.taken (m : State) (p : Pending) : State := { m with pending := m.pending.erase p }

/-- What an event does. -/
def exec (m : State) : Event → State
  | .createServer isNull => m.uvTcpInit .server isNull
  | .listen server => m.uvListenOcaml server
  | .run isNull => m.uvRunOcaml isNull
  | .connection server isNull accept shutdown => m.connectionCb server isNull accept shutdown
  | .requestOn h => m.requestOn h
  | .write h r => m.uvWriteOcaml h r
  | .shutdown h r => m.uvShutdownOcaml h r
  | .read h => m.readCb h
  | .request isNull r => m.request isNull r
  | .connectDone c status write shutdown =>
    (m.taken (.connect c)).clientConnectCb c status write shutdown
  | .writeDone w _ => (m.taken (.write w)).writeCb w
  | .shutdownDone s h _ => (m.taken (.shutdown s h)).shutdownCb s
  | .closed h => (m.taken (.close h)).closeCb h

/-- The stubs and libuv as one machine. -/
def stubs : Machine State Event := ⟨enabled, exec⟩

/-! ## Handles, in every run -/

/-- The handle that a shutdown or close callback is owed on. -/
def Pending.endOf : Pending → Option ℕ
  | .shutdown _ h => some h
  | .close h => some h
  | _ => none

/-- A handle that is closing was shut down, one that was shut down or is connected was
opened, and that one has its callback; only servers listen. -/
structure Tcp.Ok (t : Tcp) : Prop where
  server_of_listening : t.listening = true → t.role = .server
  shut_of_closing : t.closing = true → t.shut = true
  writable_of_shut : t.shut = true → t.writable = true
  writable_of_connected : t.connected = true → t.writable = true
  callback_of_writable : t.writable = true → t.data = .callback

/-- A connected handle has its callback. -/
theorem Tcp.Ok.callback_of_connected {t : Tcp} (ht : t.Ok) (hconn : t.connected = true) :
    t.data = .callback := ht.callback_of_writable (ht.writable_of_connected hconn)

/-- What happens to the contents of a handle: nothing is taken back. -/
structure Tcp.Later (t u : Tcp) : Prop where
  role : u.role = t.role
  writable : t.writable = true → u.writable = true
  shut : t.shut = true → u.shut = true
  closing : t.closing = true → u.closing = true

/-- What holds of the handles whatever the results of libuv are, and whatever OCaml
code does with the handles it holds: the way of a handle from its shutdown through
its close to its release is taken once. -/
structure HandlesOk (m : State) : Prop where
  nodup : (m.handles.released ++ m.pending.filterMap Pending.endOf).Nodup
  shut : ∀ h ∈ m.handles.released ++ m.pending.filterMap Pending.endOf,
    ∃ t, m.tcp h = some t ∧ t.shut = true
  closing : ∀ h, h ∈ m.handles.released ∨ .close h ∈ m.pending →
    ∃ t, m.tcp h = some t ∧ t.closing = true
  request : ∀ s h, .shutdown s h ∈ m.pending → m.shutdowns.blocks[s]? = some ⟨h⟩
  contents : m.handles.All Tcp.Ok
  client : ∀ (c : ℕ) (q : ClientConnectReq), m.connects.blocks[c]? = some q →
    ∃ t, m.tcp q.handle = some t ∧ t.role = .client ∧ t.writable = true

/-- There are no handles yet. -/
theorem handlesOk_init : HandlesOk State.init := by
  refine ⟨List.nodup_nil, ?_, ?_, ?_, ?_, ?_⟩
  · intro h hh
    cases hh
  · rintro h (hh | hh) <;> cases hh
  · intro s h hh
    cases hh
  · intro h t ht
    cases ht
  · intro c q hq
    cases hq

/-- `close_cb` reads and releases the handle; of the rest only the roots change. -/
theorem exists_closeCb_eq (m : State) (h : ℕ) : ∃ roots unregistered, m.closeCb h =
    { m with
      handles := (m.handles.touch h).release h
      roots := roots
      unregistered := unregistered } := by
  unfold State.closeCb State.camlRemoveGlobalRoot
  by_cases hcb : ((m.touchHandle h).tcp h).any fun t => t.data.nonNull
  · by_cases hroot : .data h ∈ (m.touchHandle h).roots
    · exact ⟨m.roots.erase (.data h), m.unregistered, by simp only [if_pos hcb, if_pos hroot]; rfl⟩
    · exact ⟨m.roots, m.unregistered ++ [.data h], by simp only [if_pos hcb, if_neg hroot]; rfl⟩
  · exact ⟨m.roots, m.unregistered, by simp only [if_neg hcb]; rfl⟩

/-- A write to a handle changes no other. -/
theorem tcp_setHandle (m : State) (h h' : ℕ) (f : Tcp → Tcp) :
    (m.setHandle h f).tcp h' = if h = h' then (m.tcp h').map f else m.tcp h' :=
  Pool.getElem?_modify f

/-- A callback that is no business of `f`. -/
theorem filterMap_concat_of_none {f : Pending → Option ℕ} (l : List Pending) {p : Pending}
    (hp : f p = none) : (l ++ [p]).filterMap f = l.filterMap f := by
  rw [List.filterMap_append, List.filterMap_cons_none hp, List.filterMap_nil, List.append_nil]

/-- `uv_shutdown` in one equation. -/
theorem uvShutdown_eq (m : State) (s h : ℕ) (r : ℤ) : m.uvShutdown s h r =
    if (m.tcp h).any (fun t => t.writable && !t.shut && !t.closing) ∧ r = 0 then
      { (m.touchHandle h).setHandle h fun t => { t with shut := true } with
        pending := m.pending ++ [.shutdown s h] }
    else m.touchHandle h := rfl

section Handles

variable {m : State}

/-- The roots, the buffers and the other requests do not matter. -/
theorem HandlesOk.congr {m' : State} (hm : HandlesOk m)
    (hblocks : m'.handles.blocks = m.handles.blocks)
    (hreleased : m'.handles.released = m.handles.released) (hpending : m'.pending = m.pending)
    (hshutdowns : m'.shutdowns.blocks = m.shutdowns.blocks)
    (hconnects : m'.connects.blocks = m.connects.blocks) : HandlesOk m' := by
  have htcp : m'.tcp = m.tcp := funext fun h => by rw [State.tcp, State.tcp, hblocks]
  constructor
  · rw [hreleased, hpending]
    exact hm.nodup
  · rw [hreleased, hpending, htcp]
    exact hm.shut
  · rw [hreleased, hpending, htcp]
    exact hm.closing
  · rw [hpending, hshutdowns]
    exact hm.request
  · intro h t ht
    rw [hblocks] at ht
    exact hm.contents h t ht
  · rw [hconnects, htcp]
    exact hm.client

/-- A look at a handle. -/
theorem HandlesOk.touchHandle (hm : HandlesOk m) (i : ℕ) : HandlesOk (m.touchHandle i) :=
  hm.congr rfl rfl rfl rfl rfl

/-- A new handle. -/
theorem HandlesOk.allocHandle (hm : HandlesOk m) {t : Tcp} (ht : t.Ok) :
    HandlesOk { m with handles := m.handles.alloc t } := by
  have hold : ∀ h u, m.tcp h = some u → (m.handles.alloc t).blocks[h]? = some u := by
    intro h u hu
    have hlt : h < m.handles.blocks.length := (List.getElem?_eq_some_iff.mp hu).1
    rw [Pool.getElem?_alloc_of_lt t hlt]
    exact hu
  refine ⟨hm.nodup, fun h hh => ?_, fun h hh => ?_, hm.request, hm.contents.alloc ht,
    fun c q hq => ?_⟩
  · obtain ⟨u, hu, hshut⟩ := hm.shut h hh
    exact ⟨u, hold h u hu, hshut⟩
  · obtain ⟨u, hu, hclosing⟩ := hm.closing h hh
    exact ⟨u, hold h u hu, hclosing⟩
  · obtain ⟨u, hu, hclient⟩ := hm.client c q hq
    exact ⟨u, hold _ u hu, hclient⟩

/-- A write into a handle. -/
theorem HandlesOk.setHandle (hm : HandlesOk m) (i : ℕ) {f : Tcp → Tcp}
    (hok : ∀ t, m.tcp i = some t → (f t).Ok) (hlater : ∀ t : Tcp, t.Later (f t)) :
    HandlesOk (m.setHandle i f) := by
  refine ⟨hm.nodup, fun h hh => ?_, fun h hh => ?_, hm.request, hm.contents.modify hok,
    fun c q hq => ?_⟩
  · obtain ⟨u, hu, hs⟩ := hm.shut h hh
    rw [tcp_setHandle, hu]
    split_ifs
    · exact ⟨f u, rfl, (hlater u).shut hs⟩
    · exact ⟨u, rfl, hs⟩
  · obtain ⟨u, hu, hc⟩ := hm.closing h hh
    rw [tcp_setHandle, hu]
    split_ifs
    · exact ⟨f u, rfl, (hlater u).closing hc⟩
    · exact ⟨u, rfl, hc⟩
  · obtain ⟨u, hu, hrole, hwritable⟩ := hm.client c q hq
    rw [tcp_setHandle, hu]
    split_ifs
    · exact ⟨f u, rfl, (hlater u).role.trans hrole, (hlater u).writable hwritable⟩
    · exact ⟨u, rfl, hrole, hwritable⟩

/-- One more callback is owed, not one that ends a handle. -/
theorem HandlesOk.owe (hm : HandlesOk m) {p : Pending} (hp : p.endOf = none) :
    HandlesOk { m with pending := m.pending ++ [p] } := by
  have hsame := filterMap_concat_of_none m.pending hp
  have hmem : ∀ q, q ∈ m.pending ++ [p] → q.endOf ≠ none → q ∈ m.pending := by
    intro q hq hne
    rcases List.mem_append.mp hq with hq | hq
    · exact hq
    · rw [List.mem_singleton.mp hq] at hne
      exact absurd hp hne
  refine ⟨?_, fun h hh => ?_, fun h hh => ?_, fun s h hh => ?_, hm.contents, hm.client⟩
  · show (m.handles.released ++ (m.pending ++ [p]).filterMap Pending.endOf).Nodup
    rw [hsame]
    exact hm.nodup
  · refine hm.shut h ?_
    rw [← hsame]
    exact hh
  · exact hm.closing h (hh.imp_right fun hc => hmem _ hc (by simp [Pending.endOf]))
  · exact hm.request s h (hmem _ hh (by simp [Pending.endOf]))

/-- A callback is no longer owed. -/
theorem HandlesOk.taken (hm : HandlesOk m) (p : Pending) : HandlesOk (m.taken p) := by
  have hsub : (m.pending.erase p).Sublist m.pending := List.erase_sublist
  have hends := (hsub.filterMap Pending.endOf).append_left m.handles.released
  refine ⟨hm.nodup.sublist hends, fun h hh => hm.shut h (hends.subset hh), fun h hh => ?_,
    fun s h hh => hm.request s h (hsub.subset hh), hm.contents, hm.client⟩
  exact hm.closing h (hh.imp_right fun hc => hsub.subset hc)

/-- A new request for a shutdown. -/
theorem HandlesOk.allocShutdown (hm : HandlesOk m) (q : ShutdownReq) :
    HandlesOk { m with shutdowns := m.shutdowns.alloc q } := by
  refine ⟨hm.nodup, hm.shut, hm.closing, fun s h hh => ?_, hm.contents, hm.client⟩
  have hs := hm.request s h hh
  exact (Pool.getElem?_alloc_of_lt q (List.getElem?_eq_some_iff.mp hs).1).trans hs

/-- A new request for a connection, on a handle of a client. -/
theorem HandlesOk.allocConnect (hm : HandlesOk m) (q : ClientConnectReq)
    (hq : ∃ t, m.tcp q.handle = some t ∧ t.role = .client ∧ t.writable = true) :
    HandlesOk { m with connects := m.connects.alloc q } := by
  refine ⟨hm.nodup, hm.shut, hm.closing, hm.request, hm.contents, fun c q' hq' => ?_⟩
  by_cases hnew : c = m.connects.fresh
  · subst hnew
    obtain rfl : q = q' := Option.some.inj ((Pool.getElem?_alloc_fresh q).symm.trans hq')
    exact hq
  · exact hm.client c q' ((Pool.getElem?_alloc_of_ne q hnew).symm.trans hq')

/-- The end of a handle is owed that was shut down just now. -/
theorem HandlesOk.oweShutdown (hm : HandlesOk m) {s h : ℕ}
    (hnew : h ∉ m.handles.released ++ m.pending.filterMap Pending.endOf)
    (hshut : ∃ t, m.tcp h = some t ∧ t.shut = true) (hs : m.shutdowns.blocks[s]? = some ⟨h⟩) :
    HandlesOk { m with pending := m.pending ++ [.shutdown s h] } := by
  have hends : m.handles.released ++ (m.pending ++ [Pending.shutdown s h]).filterMap Pending.endOf
      = (m.handles.released ++ m.pending.filterMap Pending.endOf) ++ [h] := by
    rw [List.filterMap_append, List.append_assoc]
    rfl
  refine ⟨?_, fun h' hh => ?_, fun h' hh => hm.closing h' (hh.imp_right fun hc => ?_),
    fun s' h' hh => ?_, hm.contents, hm.client⟩
  · show (m.handles.released ++ (m.pending ++ [Pending.shutdown s h]).filterMap Pending.endOf).Nodup
    rw [hends]
    exact hm.nodup.append (List.nodup_singleton h) (List.disjoint_singleton.mpr hnew)
  · rw [hends, List.mem_append, List.mem_singleton] at hh
    rcases hh with hh | rfl
    · exact hm.shut h' hh
    · exact hshut
  · rcases List.mem_append.mp hc with hc | hc
    · exact hc
    · cases List.mem_singleton.mp hc
  · rcases List.mem_append.mp hh with hh | hh
    · exact hm.request s' h' hh
    · cases List.mem_singleton.mp hh
      exact hs

/-- `uv_shutdown`, with a request that holds the handle. -/
theorem HandlesOk.uvShutdown (hm : HandlesOk m) {s h : ℕ} (r : ℤ)
    (hs : m.shutdowns.blocks[s]? = some ⟨h⟩) : HandlesOk (m.uvShutdown s h r) := by
  rw [uvShutdown_eq]
  split_ifs with hok
  swap
  · exact hm.touchHandle h
  obtain ⟨t, ht, hflags⟩ := (Option.any_eq_true _ _).mp hok.1
  simp only [Bool.and_eq_true, Bool.not_eq_true'] at hflags
  obtain ⟨⟨hopen, hshut⟩, -⟩ := hflags
  -- the handle was not shut down, so no end of it is owed yet
  have hnew : h ∉ m.handles.released ++ m.pending.filterMap Pending.endOf := fun hmem => by
    obtain ⟨u, hu, hushut⟩ := hm.shut h hmem
    obtain rfl : t = u := Option.some.inj (ht.symm.trans hu)
    rw [hshut] at hushut
    cases hushut
  have hset : HandlesOk ((m.touchHandle h).setHandle h fun t => { t with shut := true }) := by
    refine (hm.touchHandle h).setHandle h (fun u hu => ?_)
      fun _ => ⟨rfl, fun hd => hd, fun _ => rfl, fun hc => hc⟩
    obtain rfl : t = u := Option.some.inj (ht.symm.trans hu)
    have hok := hm.contents h t ht
    exact ⟨hok.server_of_listening, fun _ => rfl, fun _ => hopen, hok.writable_of_connected,
      hok.callback_of_writable⟩
  have hshutTcp : ((m.touchHandle h).setHandle h fun t => { t with shut := true }).tcp h
      = some { t with shut := true } := by
    rw [tcp_setHandle, if_pos rfl]
    exact congrArg (Option.map _) ht
  exact hset.oweShutdown hnew ⟨_, hshutTcp, rfl⟩ hs

/-- The close of a handle is owed instead of its shutdown. -/
theorem HandlesOk.oweClose (hm : HandlesOk m) {s h : ℕ} (hp : .shutdown s h ∈ m.pending)
    (hclosing : ∃ t, m.tcp h = some t ∧ t.closing = true) :
    HandlesOk { m with pending := m.pending.erase (.shutdown s h) ++ [.close h] } := by
  have hperm : (m.pending.filterMap Pending.endOf).Perm
      ((m.pending.erase (.shutdown s h) ++ [Pending.close h]).filterMap Pending.endOf) := by
    refine ((List.perm_cons_erase hp).filterMap Pending.endOf).trans ?_
    rw [List.filterMap_append]
    exact (List.perm_append_singleton h _).symm
  have hends := hperm.append_left m.handles.released
  have hmem : ∀ p, p ∈ m.pending.erase (.shutdown s h) ++ [.close h] → p ≠ .close h →
      p ∈ m.pending := by
    intro p hp hne
    rcases List.mem_append.mp hp with hp | hp
    · exact List.mem_of_mem_erase hp
    · exact absurd (List.mem_singleton.mp hp) hne
  refine ⟨hends.nodup_iff.mp hm.nodup, fun h' hh => hm.shut h' (hends.mem_iff.mpr hh),
    fun h' hh => ?_, fun s' h' hh => hm.request s' h' (hmem _ hh (by simp)), hm.contents,
    hm.client⟩
  by_cases heq : h' = h
  · rw [heq]
    exact hclosing
  · exact hm.closing h' (hh.imp_right fun hc => hmem _ hc fun h => heq (Pending.close.inj h))

/-- `shutdown_cb`, run for a shutdown that was owed. -/
theorem HandlesOk.shutdownCb (hm : HandlesOk m) {s h : ℕ} (hp : .shutdown s h ∈ m.pending) :
    HandlesOk ((m.taken (.shutdown s h)).shutdownCb s) := by
  have hreq : (m.taken (.shutdown s h)).shutdowns.blocks[s]? = some ⟨h⟩ := hm.request s h hp
  obtain ⟨t, ht, hshut⟩ :=
    hm.shut h (List.mem_append_right _ (List.mem_filterMap.mpr ⟨_, hp, rfl⟩))
  have hset : HandlesOk (m.setHandle h fun t => { t with closing := true }) := by
    refine hm.setHandle h (fun u hu => ?_) fun _ => ⟨rfl, fun hd => hd, fun hs => hs, fun _ => rfl⟩
    obtain rfl : t = u := Option.some.inj (ht.symm.trans hu)
    have hok := hm.contents h t ht
    exact ⟨hok.server_of_listening, fun _ => hshut, hok.writable_of_shut,
      hok.writable_of_connected, hok.callback_of_writable⟩
  have hclose := hset.oweClose hp ⟨{ t with closing := true }, by
    rw [tcp_setHandle, if_pos rfl, ht]; rfl, rfl⟩
  rw [State.shutdownCb, hreq]
  exact hclose.congr rfl rfl rfl rfl rfl

/-- `close_cb`, run for a close that was owed. -/
theorem HandlesOk.closeCb (hm : HandlesOk m) {h : ℕ} (hp : .close h ∈ m.pending) :
    HandlesOk ((m.taken (.close h)).closeCb h) := by
  obtain ⟨t, ht, hclosing⟩ := hm.closing h (.inr hp)
  have hlt : h < m.handles.blocks.length := (List.getElem?_eq_some_iff.mp ht).1
  have hperm : (m.handles.released ++ m.pending.filterMap Pending.endOf).Perm
      ((m.handles.release h).released ++ (m.pending.erase (.close h)).filterMap Pending.endOf) := by
    rw [Pool.released_release hlt, List.append_assoc]
    exact ((List.perm_cons_erase hp).filterMap Pending.endOf).append_left _
  have hrelease : HandlesOk { m with
      pending := m.pending.erase (.close h), handles := m.handles.release h } := by
    refine ⟨hperm.nodup_iff.mp hm.nodup, fun h' hh => hm.shut h' (hperm.mem_iff.mpr hh),
      fun h' hh => ?_, fun s h' hh => hm.request s h' (List.mem_of_mem_erase hh),
      hm.contents, hm.client⟩
    rcases hh with hh | hh
    · have hh' : h' ∈ m.handles.released ++ [h] := by
        rw [← Pool.released_release hlt]
        exact hh
      rcases List.mem_append.mp hh' with hh' | hh'
      · exact hm.closing h' (.inl hh')
      · rw [List.mem_singleton.mp hh']
        exact ⟨t, ht, hclosing⟩
    · exact hm.closing h' (.inr (List.mem_of_mem_erase hh))
  obtain ⟨roots, unregistered, heq⟩ := exists_closeCb_eq (m.taken (.close h)) h
  rw [heq]
  exact hrelease.congr rfl rfl rfl rfl rfl

/-- `request_on`, also when the handle is gone. -/
theorem HandlesOk.requestOn (hm : HandlesOk m) (h : ℕ) : HandlesOk (m.requestOn h) := by
  have hset := hm.setHandle h (f := fun t => { t with data := .callback })
    (fun t ht => ⟨(hm.contents h t ht).server_of_listening, (hm.contents h t ht).shut_of_closing,
      (hm.contents h t ht).writable_of_shut, (hm.contents h t ht).writable_of_connected,
      fun _ => rfl⟩)
    fun _ => ⟨rfl, fun hw => hw, fun hs => hs, fun hc => hc⟩
  exact hset.congr rfl rfl rfl rfl rfl

/-- `uv_shutdown_ocaml`. -/
theorem HandlesOk.uvShutdownOcaml (hm : HandlesOk m) (h : ℕ) (r : ℤ) :
    HandlesOk (m.uvShutdownOcaml h r) :=
  (hm.allocShutdown ⟨h⟩).uvShutdown r (Pool.getElem?_alloc_fresh _)

/-- `uv_write`. -/
theorem HandlesOk.uvWrite (hm : HandlesOk m) (w h : ℕ) (r : ℤ) : HandlesOk (m.uvWrite w h r) := by
  unfold State.uvWrite
  split_ifs
  · exact (hm.touchHandle h).owe (p := .write w) rfl
  · exact hm.touchHandle h

/-- A handle that was not shut down has not been released. -/
theorem HandlesOk.notMem_released (hm : HandlesOk m) {h : ℕ} {t : Tcp} (ht : m.tcp h = some t)
    (hshut : t.shut = false) : h ∉ m.handles.released := fun hmem => by
  obtain ⟨u, hu, hushut⟩ := hm.shut h (List.mem_append_left _ hmem)
  obtain rfl : t = u := Option.some.inj (ht.symm.trans hu)
  rw [hshut] at hushut
  cases hushut

/-- Where only connections are shut down, the handle of a server or of a client is not. -/
theorem shut_eq_false_of_role {handles : Pool Tcp} {h : ℕ} {t : Tcp}
    (hconn : handles.All fun t => t.shut = true → t.role = .connection)
    (ht : handles.blocks[h]? = some t) (hrole : t.role ≠ .connection) : t.shut = false :=
  Bool.eq_false_iff.mpr fun hshut => hrole (hconn h t ht hshut)

end Handles

/-- A connection that was accepted: the new handle has its callback, and the callback
is registered. -/
theorem connectionCb_of_accepted (m : State) (server : ℕ) (isNull : Bool) (shutdown : ℤ) :
    m.connectionCb server isNull 0 shutdown =
      { m with
        handles := ((m.handles.touch server).touch server).alloc
          ⟨.connection, .callback, false, true, true, false, false⟩
        roots := insert (.data m.handles.fresh) m.roots } := by
  have hhandles : (((((m.handles.touch server).alloc
        ⟨.connection, .junk isNull, false, false, false, false, false⟩).touch server).modify
        m.handles.fresh fun t => { t with connected := true, writable := true }).modify
        m.handles.fresh fun t => { t with data := .callback }).touch m.handles.fresh
      = ((m.handles.touch server).touch server).alloc
        ⟨.connection, .callback, false, true, true, false, false⟩ := by
    have hfresh : m.handles.fresh = ((m.handles.touch server).touch server).fresh := rfl
    rw [Pool.touch_alloc, hfresh, Pool.modify_alloc_fresh, Pool.modify_alloc_fresh]
    exact Pool.touch_of_notMem
      (Pool.fresh_notMem_released (p := (m.handles.touch server).touch server))
  rw [← hhandles]
  rfl

/-- `request`: of the roots, it is the parameter that is added. -/
theorem request_eq (m : State) (isNull : Bool) (r : ℤ) :
    m.request isNull r =
      { m with
        frames := m.frames + 1
        handles := m.handles.alloc ⟨.client, .callback, false, false, true, false, false⟩
        roots := insert (.param m.frames) m.roots
        bufs := m.bufs.alloc ()
        connects := m.connects.alloc ⟨m.handles.fresh, m.bufs.fresh⟩
        pending := if r = 0 then m.pending ++ [.connect m.connects.fresh] else m.pending
        failed := if r = 0 then m.failed else m.failed ++ [m.handles.fresh] } := by
  have hhandles : ((m.handles.alloc
          ⟨.client, .junk isNull, false, false, false, false, false⟩).modify m.handles.fresh
        (fun t => { t with data := .callback })).modify m.handles.fresh
        (fun t => { t with writable := true })
      = m.handles.alloc ⟨.client, .callback, false, false, true, false, false⟩ := by
    rw [Pool.modify_alloc_fresh, Pool.modify_alloc_fresh]
  rw [← hhandles]
  unfold State.request
  by_cases hr : r = 0
  · simp only [if_pos hr]
    rfl
  · simp only [if_neg hr]
    rfl

/-- `uv_shutdown` has nothing to do with connect requests. -/
theorem connects_uvShutdown (m : State) (s h : ℕ) (r : ℤ) :
    (m.uvShutdown s h r).connects = m.connects := by
  rw [uvShutdown_eq]
  split_ifs <;> rfl

/-- Nor has `uv_write`. -/
theorem connects_uvWrite (m : State) (w h : ℕ) (r : ℤ) :
    (m.uvWrite w h r).connects = m.connects := by
  unfold State.uvWrite
  split_ifs <;> rfl

section Connects

variable (m : State) {c : ℕ} {req : ClientConnectReq}

/-- `client_connect_cb` up to `uv_shutdown`, when the connection was not made. -/
def State.connectFailed (c : ℕ) (req : ClientConnectReq) : State :=
  { m with
    failed := m.failed ++ [req.handle]
    connects := (m.connects.release c).touch c
    shutdowns := m.shutdowns.alloc ⟨req.handle⟩ }

/-- `client_connect_cb` up to `uv_write`, when it was made. -/
def State.connectMade (c : ℕ) (req : ClientConnectReq) : State :=
  { m with
    handles := (m.handles.modify req.handle fun t => { t with connected := true }).touch req.handle
    connects := m.connects.touch c
    writes := m.writes.alloc ⟨req.buf⟩ }

variable {m}

/-- `client_connect_cb` without its request. -/
theorem clientConnectCb_of_none (hreq : m.connects.blocks[c]? = none)
    (status write shutdown : ℤ) : m.clientConnectCb c status write shutdown = m := by
  rw [State.clientConnectCb, hreq]

/-- `client_connect_cb`, when the connection was not made. -/
theorem clientConnectCb_of_failed (hreq : m.connects.blocks[c]? = some req) {status : ℤ}
    (hstatus : status ≠ 0) (write shutdown : ℤ) :
    m.clientConnectCb c status write shutdown =
      State.touchHandle
        { (m.connectFailed c req).uvShutdown m.shutdowns.fresh req.handle shutdown with
          connects := ((m.connects.release c).touch c).touch c } req.handle := by
  let m₁ : State := (m.connectFailed c req).uvShutdown m.shutdowns.fresh req.handle shutdown
  have hconnects : m₁.connects = (m.connects.release c).touch c := connects_uvShutdown _ _ _ _
  rw [State.clientConnectCb, hreq, ← hconnects]
  show (if status ≠ 0 then
    State.touchHandle { m₁ with connects := m₁.connects.touch c } req.handle else _) = _
  rw [if_pos hstatus]

/-- `client_connect_cb`, when it was made. -/
theorem clientConnectCb_of_made (hreq : m.connects.blocks[c]? = some req) (write shutdown : ℤ) :
    m.clientConnectCb c 0 write shutdown =
      { (m.connectMade c req).uvWrite m.writes.fresh req.handle write with
        connects := (m.connects.touch c).release c } := by
  let m₁ : State := (m.connectMade c req).uvWrite m.writes.fresh req.handle write
  have hconnects : m₁.connects = m.connects.touch c := connects_uvWrite _ _ _ _
  rw [State.clientConnectCb, hreq, ← hconnects]
  show (if (0 : ℤ) ≠ 0 then _ else { m₁ with connects := m₁.connects.release c }) = _
  rw [if_neg (not_not.mpr rfl)]

end Connects

section Stubs

variable {m : State}

/-- A handle as it is allocated. -/
theorem ok_junk (role : Role) (isNull : Bool) :
    (⟨role, .junk isNull, false, false, false, false, false⟩ : Tcp).Ok :=
  ⟨nofun, nofun, nofun, nofun, nofun⟩

/-- `uv_listen_ocaml` on the handle of a server. -/
theorem HandlesOk.uvListenOcaml (hm : HandlesOk m) {server : ℕ}
    (hserver : ∃ u, m.tcp server = some u ∧ u.role = .server) :
    HandlesOk (m.uvListenOcaml server) := by
  obtain ⟨u, hu, hrole⟩ := hserver
  refine (hm.requestOn server).setHandle server (fun t ht => ?_)
    fun _ => ⟨rfl, fun hd => hd, fun hs => hs, fun hc => hc⟩
  have hok := (hm.requestOn server).contents server t ht
  have htcp : (m.requestOn server).tcp server = some { u with data := .callback } := by
    rw [State.requestOn]
    exact (tcp_setHandle m server server _).trans (by rw [if_pos rfl, hu]; rfl)
  obtain rfl : _ = t := Option.some.inj (htcp.symm.trans ht)
  exact ⟨fun _ => hrole, hok.shut_of_closing, hok.writable_of_shut, hok.writable_of_connected,
    hok.callback_of_writable⟩

/-- `connection_cb`. -/
theorem HandlesOk.connectionCb (hm : HandlesOk m) (server : ℕ) (isNull : Bool)
    (accept shutdown : ℤ) : HandlesOk (m.connectionCb server isNull accept shutdown) := by
  by_cases haccept : accept = 0
  · subst haccept
    rw [connectionCb_of_accepted]
    exact (((hm.touchHandle server).touchHandle server).allocHandle
      (t := ⟨.connection, .callback, false, true, true, false, false⟩)
      ⟨nofun, nofun, nofun, fun _ => rfl, fun _ => rfl⟩).congr rfl rfl rfl rfl rfl
  · rw [State.connectionCb, if_neg haccept]
    refine HandlesOk.uvShutdownOcaml ?_ _ shutdown
    exact (((hm.touchHandle server).allocHandle (ok_junk .connection isNull)).touchHandle
      server).congr rfl rfl rfl rfl rfl

/-- `uv_write_ocaml`. -/
theorem HandlesOk.uvWriteOcaml (hm : HandlesOk m) (h : ℕ) (r : ℤ) :
    HandlesOk (m.uvWriteOcaml h r) := by
  have halloc : HandlesOk { m with
      bufs := m.bufs.alloc (), writes := m.writes.alloc ⟨m.bufs.fresh⟩ } :=
    hm.congr rfl rfl rfl rfl rfl
  exact halloc.uvWrite m.writes.fresh h r

/-- `write_cb`. -/
theorem HandlesOk.writeCb (hm : HandlesOk m) (w : ℕ) : HandlesOk (m.writeCb w) := by
  unfold State.writeCb
  cases m.writes.blocks[w]? with
  | none => exact hm
  | some req => exact hm.congr rfl rfl rfl rfl rfl

/-- `request`. -/
theorem HandlesOk.requested (hm : HandlesOk m) (isNull : Bool) (r : ℤ) :
    HandlesOk (m.request isNull r) := by
  rw [request_eq]
  have hnew := hm.allocHandle (t := ⟨.client, .callback, false, false, true, false, false⟩)
    ⟨nofun, nofun, nofun, nofun, fun _ => rfl⟩
  have hconnect := hnew.allocConnect ⟨m.handles.fresh, m.bufs.fresh⟩
    ⟨_, Pool.getElem?_alloc_fresh _, rfl, rfl⟩
  split_ifs
  · exact (hconnect.owe (p := .connect m.connects.fresh) rfl).congr rfl rfl rfl rfl rfl
  · exact hconnect.congr rfl rfl rfl rfl rfl

/-- `client_connect_cb`, after an error and after a connection. -/
theorem HandlesOk.clientConnectCb (hm : HandlesOk m) (c : ℕ) (status write shutdown : ℤ) :
    HandlesOk (m.clientConnectCb c status write shutdown) := by
  cases hreq : m.connects.blocks[c]? with
  | none =>
    rw [clientConnectCb_of_none hreq]
    exact hm
  | some req =>
    by_cases hstatus : status = 0
    · rw [hstatus, clientConnectCb_of_made hreq]
      obtain ⟨t, ht, -, hwritable⟩ := hm.client c req hreq
      have hconnected := hm.setHandle req.handle (f := fun t => { t with connected := true })
        (fun u hu => by
          obtain rfl : t = u := Option.some.inj (ht.symm.trans hu)
          have hok := hm.contents req.handle t ht
          exact ⟨hok.server_of_listening, hok.shut_of_closing, hok.writable_of_shut,
            fun _ => hwritable, hok.callback_of_writable⟩)
        fun _ => ⟨rfl, fun hw => hw, fun hs => hs, fun hc => hc⟩
      have hmade : HandlesOk (m.connectMade c req) := hconnected.congr rfl rfl rfl rfl rfl
      have hwrite := hmade.uvWrite m.writes.fresh req.handle write
      exact hwrite.congr rfl rfl rfl rfl (by rw [connects_uvWrite]; rfl)
    · rw [clientConnectCb_of_failed hreq hstatus]
      have hfailed : HandlesOk (m.connectFailed c req) :=
        (hm.allocShutdown ⟨req.handle⟩).congr rfl rfl rfl rfl rfl
      have hshutdown := hfailed.uvShutdown (s := m.shutdowns.fresh) shutdown
        (Pool.getElem?_alloc_fresh _)
      have hconnects : (State.uvShutdown (m.connectFailed c req) m.shutdowns.fresh req.handle
          shutdown).connects.blocks = m.connects.blocks := by
        rw [connects_uvShutdown]
        rfl
      exact (hshutdown.touchHandle req.handle).congr rfl rfl rfl rfl hconnects.symm

end Stubs

/-- **The step**: every event keeps the handles in order, whatever libuv answers. -/
theorem handlesOk_exec (m : State) (e : Event) (hm : HandlesOk m) (he : enabled m e = true) :
    HandlesOk (exec m e) := by
  cases e with
  | createServer isNull => exact hm.allocHandle (ok_junk .server isNull)
  | run isNull => exact hm.allocHandle (ok_junk .unused isNull)
  | listen server =>
    obtain ⟨u, hu, hrole⟩ := (Option.any_eq_true _ _).mp he
    exact hm.uvListenOcaml ⟨u, hu, of_decide_eq_true hrole⟩
  | connection server isNull accept shutdown => exact hm.connectionCb server isNull accept shutdown
  | requestOn h => exact hm.requestOn h
  | write h r => exact hm.uvWriteOcaml h r
  | shutdown h r => exact hm.uvShutdownOcaml h r
  | read h => exact hm.touchHandle h
  | request isNull r => exact hm.requested isNull r
  | connectDone c status write shutdown =>
    exact (hm.taken (.connect c)).clientConnectCb c status write shutdown
  | writeDone w status => exact (hm.taken (.write w)).writeCb w
  | shutdownDone s h status => exact hm.shutdownCb (of_decide_eq_true he)
  | closed h => exact hm.closeCb (of_decide_eq_true he)

/-- **The run**: the handles are in order in every state. -/
theorem handlesOk_after {es : List Event} (hes : stubs.Possible State.init es) :
    HandlesOk (stubs.after State.init es) :=
  Machine.invariant_of_possible (M := stubs) handlesOk_exec handlesOk_init hes

/-! ## Shut handles -/

/-- Every handle that is shut was shut before. -/
def NoNewShut (p q : Pool Tcp) : Prop :=
  ∀ (h : ℕ) (t : Tcp), q.blocks[h]? = some t → t.shut = true →
    ∃ u, p.blocks[h]? = some u ∧ u.shut = true

section NoNewShut

variable {p q r : Pool Tcp}

/-- Two steps one after the other. -/
theorem NoNewShut.trans (hpq : NoNewShut p q) (hqr : NoNewShut q r) : NoNewShut p r := by
  intro h t ht hshut
  obtain ⟨u, hu, hushut⟩ := hqr h t ht hshut
  exact hpq h u hu hushut

/-- The same blocks, also after a read or a release. -/
theorem NoNewShut.of_blocks_eq (hblocks : q.blocks = p.blocks) : NoNewShut p q := by
  intro h t ht hshut
  exact ⟨t, hblocks ▸ ht, hshut⟩

/-- A new handle that is not shut down. -/
theorem NoNewShut.alloc (p : Pool Tcp) {t : Tcp} (hnew : t.shut = false) :
    NoNewShut p (p.alloc t) := by
  intro h u hu hshut
  by_cases hh : h = p.fresh
  · rw [hh, Pool.getElem?_alloc_fresh] at hu
    obtain rfl := Option.some.inj hu
    rw [hnew] at hshut
    cases hshut
  · exact ⟨u, (Pool.getElem?_alloc_of_ne t hh).symm.trans hu, hshut⟩

/-- A write to a handle that leaves the flag alone. -/
theorem NoNewShut.modify (p : Pool Tcp) (i : ℕ) {f : Tcp → Tcp} (hf : ∀ t, (f t).shut = t.shut) :
    NoNewShut p (p.modify i f) := by
  intro h u hu hshut
  rw [Pool.getElem?_modify] at hu
  split_ifs at hu
  · obtain ⟨t, ht, rfl⟩ := Option.map_eq_some_iff.mp hu
    exact ⟨t, ht, (hf t).symm.trans hshut⟩
  · exact ⟨u, hu, hshut⟩

end NoNewShut

end Lifecycle
