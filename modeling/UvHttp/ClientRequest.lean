/-
# Requests of the client

`request` and the callbacks it registers, against everything libuv may answer.  The
callback of a request takes two arguments, an error and a string.  The read
callback gives it one, which only builds a partial application, and where a
connection fails it gets the unit value for a string.  The timer of a request lives in
the frame of `request`, which returns before the loop runs.
-/
import UvHttp.Stubs

open StubTrace

/-! ## What libuv answers -/

/-- The answers of libuv during one `request`. -/
structure Outcomes where
  /-- `uv_ip4_addr` on the host, if it is an address. -/
  ip4Addr : Option OString
  /-- The result of `uv_getaddrinfo`. -/
  getaddrinfo : ℤ
  /-- What the `addrinfo` of the resolver's request points to after that. -/
  addrinfo : Option OString
  found : getaddrinfo = 0 → addrinfo ≠ none
  /-- The result of `uv_tcp_connect`. -/
  tcpConnect : ℤ
  /-- The frame that `request` has left still holds its timer whenever the loop reads it. -/
  timerKept : Bool
  /-- The status given to `client_connect_cb`. -/
  status : ℤ
  /-- The freed connect request still holds its handle. -/
  handleKept : Bool
  /-- The reads before the last one, which is the end of the stream or an error. -/
  reads : List ReadEvent
  reads_nonneg : ∀ e ∈ reads, 0 ≤ e.nread
  last : ReadEvent
  last_neg : last.nread < 0

namespace Outcomes

/-- Neither an address nor a name that is found. -/
def ResolutionFailed (o : Outcomes) : Prop := o.ip4Addr = none ∧ o.getaddrinfo ≠ 0

def ConnectFailed (o : Outcomes) : Prop := o.tcpConnect ≠ 0 ∨ o.status ≠ 0

def ReadFailed (o : Outcomes) : Prop := o.last.nread ≠ uvEof

def Failed (o : Outcomes) : Prop := o.ResolutionFailed ∨ o.ConnectFailed ∨ o.ReadFailed

/-- What the server sent, read by read. -/
def fragments (o : Outcomes) : List OString :=
  (o.reads.filter fun e => 0 < e.nread).map ReadEvent.bytes

end Outcomes

/-! ## The code -/

/-- The address that `request` connects to.  `CHECK` prints the error of
`uv_getaddrinfo` and goes on. -/
def resolve (o : Outcomes) : Stub OString :=
  match o.ip4Addr with
  | some dest => pure dest
  | none =>
    -- `getaddrinfo_req.addrinfo->ai_addr`, whatever the result was
    match o.addrinfo with
    | some ip => pure ip
    | none => throw (.fault .nullDereference)

/-- `request`.  The timer that it starts is a variable of its frame; the loop keeps the
address. -/
def request (o : Outcomes) : Stub Unit := do
  let dest ← resolve o
  callsRef.update (· ++ [.uvTcpConnect dest])

/-- `client_connect_cb`. -/
def clientConnectCb (cb : ℕ) (o : Outcomes) (str : OString) : Stub Unit := do
  if o.status ≠ 0 then
    -- the request is freed before its handle is read
    if o.handleKept then
      callsRef.update (· ++ [.uvShutdown])
      camlCallback2 cb (.int o.status) .unit
    else throw (.fault .useAfterFree)
  else
    callsRef.update (· ++ [.uvReadStart])
    callsRef.update (· ++ [.uvWrite str])

/-- The first thing that `uv_run` does: the timers that were started are read. -/
def uvRunTimers (o : Outcomes) : Stub Unit :=
  if o.timerKept then pure () else throw (.fault .useAfterReturn)

/-- The callbacks that the outcomes bring about: that of the connection when libuv took it
on, and those of the reads when it was made. -/
def callbacks (cb : ℕ) (o : Outcomes) (str : OString) : Stub Unit := do
  if o.tcpConnect = 0 then
    clientConnectCb cb o str
    if o.status = 0 then
      (o.reads ++ [o.last]).forM (clientReadCb cb)

/-- A request, and the run of the loop after it. -/
def exchange (cb : ℕ) (o : Outcomes) (str : OString) : Stub Unit := do
  request o
  uvRunTimers o
  callbacks cb o str

/-- What can be seen of an exchange with a callback of two arguments. -/
def exchanged (o : Outcomes) (str : OString) : StubTrace :=
  (exchange 2 o str StubTrace.empty).store

/-! ## Delivery -/

/-- The callback is run with error `0` on every fragment, in order; it is run with
another error and a string exactly when something failed; and there is no attempt
to connect after a failed resolution. -/
structure ResponseDelivered (o : Outcomes) (t : StubTrace) : Prop where
  fragments : ¬ o.ResolutionFailed → ¬ o.ConnectFailed →
    t.bodies.filter (fun args => args.head? = some (.int 0))
      = o.fragments.map fun s => [.int 0, .string s]
  errors : (∃ n s, n ≠ 0 ∧ [.int n, .string s] ∈ t.bodies) ↔ o.Failed
  noConnect : o.ResolutionFailed → ∀ dest, .uvTcpConnect dest ∉ t.calls

/-- Every body was run with an error that is not `0`, and with the unit value. -/
def OnlyUnits (t : StubTrace) : Prop :=
  ∀ args ∈ t.bodies, ∃ n, n ≠ 0 ∧ args = [.int n, .unit]

section Units

/-- Calls into libuv run no body. -/
theorem keeps_calls (cs : List ClientCall) :
    Keeps OnlyUnits (callsRef.update (· ++ cs) : Stub Unit) :=
  Keeps.update fun _ ht => ht

/-- One argument does not run a body that takes two. -/
theorem keeps_camlCallback (arg : Value) : Keeps OnlyUnits (camlCallback 2 arg) := by
  intro t ht
  have hrun : camlCallback 2 arg t = _ := apply_of_length_lt (by simp)
  rw [hrun]
  exact ht

/-- With an error for its first argument the body is run, on the unit value. -/
theorem keeps_camlCallback2 {n : ℤ} (hn : n ≠ 0) :
    Keeps OnlyUnits (camlCallback2 2 (.int n) .unit) := by
  intro t ht
  have hrun : camlCallback2 2 (.int n) .unit t = _ := apply_of_length_eq rfl
  rw [hrun]
  intro args hargs
  rcases List.mem_append.mp hargs with hargs | hargs
  · exact ht args hargs
  · exact ⟨n, hn, List.mem_singleton.mp hargs⟩

/-- A string that is allocated runs no body. -/
theorem keeps_alloc (len : UInt64) (p : OString) :
    Keeps OnlyUnits (camlAllocInitializedString len p) := by
  refine Keeps.bind (Keeps.update fun _ ht => ht) fun _ => ?_
  split
  · exact Keeps.pure _
  · split <;> exact Keeps.throw _

/-- No read runs the body. -/
theorem keeps_clientReadCb (e : ReadEvent) : Keeps OnlyUnits (clientReadCb 2 e) := by
  unfold clientReadCb
  split
  · exact keeps_camlCallback _
  · split
    · exact Keeps.pure _
    · exact Keeps.bind (keeps_alloc _ _) fun _ => keeps_camlCallback _

/-- `request` runs no body. -/
theorem keeps_request (o : Outcomes) : Keeps OnlyUnits (request o) := by
  refine Keeps.bind ?_ fun dest => keeps_calls _
  unfold resolve
  split
  · exact Keeps.pure _
  · split
    · exact Keeps.pure _
    · exact Keeps.throw _

/-- The timers run no body. -/
theorem keeps_uvRunTimers (o : Outcomes) : Keeps OnlyUnits (uvRunTimers o) := by
  unfold uvRunTimers
  split
  · exact Keeps.pure _
  · exact Keeps.throw _

/-- A connection that fails runs it with the unit value. -/
theorem keeps_clientConnectCb (o : Outcomes) (str : OString) :
    Keeps OnlyUnits (clientConnectCb 2 o str) := by
  unfold clientConnectCb
  split
  · rename_i hstatus
    split
    · exact Keeps.bind (keeps_calls _) fun _ => keeps_camlCallback2 hstatus
    · exact Keeps.throw _
  · exact Keeps.bind (keeps_calls _) fun _ => keeps_calls _

/-- **The callback never gets a string**, whatever libuv answers. -/
theorem keeps_exchange (o : Outcomes) (str : OString) :
    Keeps OnlyUnits (exchange 2 o str) := by
  refine Keeps.bind (keeps_request o) fun _ => Keeps.bind (keeps_uvRunTimers o) fun _ => ?_
  unfold callbacks
  split
  · refine Keeps.bind (keeps_clientConnectCb o str) fun _ => ?_
    split
    · exact Keeps.forM keeps_clientReadCb _
    · exact Keeps.pure _
  · exact Keeps.pure _

/-- All that the body is ever run on. -/
theorem onlyUnits_exchanged (o : Outcomes) (str : OString) : OnlyUnits (exchanged o str) :=
  keeps_exchange o str StubTrace.empty fun _ h => nomatch h

end Units

/-- There is no run with error `0`. -/
theorem OnlyUnits.filter_eq_nil {t : StubTrace} (ht : OnlyUnits t) :
    t.bodies.filter (fun args => args.head? = some (.int 0)) = [] := by
  rw [List.filter_eq_nil_iff]
  intro args hargs
  obtain ⟨n, hn, rfl⟩ := ht args hargs
  simpa using hn

/-- There is no run with a string. -/
theorem OnlyUnits.no_string {t : StubTrace} (ht : OnlyUnits t) :
    ¬ ∃ n s, n ≠ 0 ∧ [.int n, .string s] ∈ t.bodies := by
  rintro ⟨n, s, -, hmem⟩
  obtain ⟨m, -, heq⟩ := ht _ hmem
  cases heq

/-- **A response is delivered exactly when there is nothing to deliver**: nothing
failed and no read brought a byte. -/
theorem responseDelivered_iff (o : Outcomes) (str : OString) :
    ResponseDelivered o (exchanged o str) ↔ ¬ o.Failed ∧ ∀ e ∈ o.reads, ¬ 0 < e.nread := by
  have hunits := onlyUnits_exchanged o str
  constructor
  · intro h
    -- an error has to bring a string, and a fragment an error `0`: neither happens
    have hfailed : ¬ o.Failed := fun hf => hunits.no_string (h.errors.mpr hf)
    refine ⟨hfailed, fun e he hpos => ?_⟩
    have hfragments := h.fragments (fun hr => hfailed (.inl hr))
      fun hc => hfailed (.inr (.inl hc))
    rw [hunits.filter_eq_nil] at hfragments
    have hnil : o.fragments = [] := List.map_eq_nil_iff.mp hfragments.symm
    rw [Outcomes.fragments, List.map_eq_nil_iff, List.filter_eq_nil_iff] at hnil
    exact hnil e he (by simpa using hpos)
  · rintro ⟨hfailed, hreads⟩
    refine ⟨fun _ _ => ?_, ⟨fun h => absurd h hunits.no_string, fun h => absurd h hfailed⟩,
      fun hr => absurd (.inl hr) hfailed⟩
    have hnil : o.fragments = [] := by
      rw [Outcomes.fragments, List.map_eq_nil_iff, List.filter_eq_nil_iff]
      intro e he
      simpa using hreads e he
    rw [hunits.filter_eq_nil, hnil]
    rfl

/-- The server sends two bytes and closes. -/
def answered : Outcomes where
  ip4Addr := some (lit "127.0.0.1")
  getaddrinfo := 0
  addrinfo := some (lit "127.0.0.1")
  found := nofun
  tcpConnect := 0
  timerKept := true
  status := 0
  handleKept := true
  reads := [⟨2, lit "hi", by decide⟩]
  reads_nonneg := by decide
  last := peerCloses
  last_neg := by decide

/-- Nobody listens: `ECONNREFUSED`. -/
def connectionRefused : Outcomes := { answered with status := -111 }

/-- The name is not known: `EAI_NONAME`, and no address. -/
def unknownHost : Outcomes :=
  { answered with ip4Addr := none, getaddrinfo := -3008, addrinfo := none, found := by decide }

/-- The answer is lost, the refusal comes with the unit value, and the unknown host
ends in a null pointer. -/
theorem not_responseDelivered_answered :
    ¬ ResponseDelivered answered (exchanged answered (lit "GET / HTTP/1.1\r\n\r\n")) ∧
      ¬ ResponseDelivered connectionRefused (exchanged connectionRefused []) ∧
      ¬ ResponseDelivered unknownHost (exchanged unknownHost []) := by
  refine ⟨fun h => ?_, fun h => ?_, fun h => ?_⟩
  · have hfragments := h.fragments (by simp [Outcomes.ResolutionFailed, answered])
      (by simp [Outcomes.ConnectFailed, answered])
    rw [(onlyUnits_exchanged _ _).filter_eq_nil] at hfragments
    exact absurd hfragments (by decide)
  · exact (onlyUnits_exchanged _ _).no_string
      (h.errors.mpr (.inr (.inl (.inr (by decide)))))
  · exact (onlyUnits_exchanged _ _).no_string (h.errors.mpr (.inl ⟨rfl, by decide⟩))
