/-
# The example client

What a request of the client does is determined by what libuv answers: the calls it
makes, the arguments its callback is applied to, those the body of the callback is run on,
and the faults.  `ExampleClient.re` prints what its callback is run on, and so, as long as
the loop finds the timer where the frame of `request` was, the failure of an attempt to
connect, and no response.
-/
import UvHttp.ClientRequest
import UvHttp.ServerRead

open StubTrace

/-! ## The program -/

/-- The callback of `ExampleClient.re`: the line it prints.  A success is printed with its
data, which has to be a string; there is no line where it is not. -/
def exampleClient : List Value → Option OString
  | [.int error, data] =>
    if error ≠ 0 then some (lit "Error: " ++ stringOfInt error)
    else match data with
      | .string s => some (lit "Success: " ++ s)
      | .int _ => none
  | _ => none

/-- The request of `ExampleClient.re`. -/
def exampleRequest : OString := lit "GET / HTTP/1.1\r\nHost: localhost:8080\r\n\r\n"

/-- What `ExampleClient.re` prints. -/
def printed (o : Outcomes) : List (Option OString) :=
  (exchanged o exampleRequest).bodies.map exampleClient

namespace Outcomes

/-- The address that `request` connects to, if there is one. -/
def destination (o : Outcomes) : Option OString := o.ip4Addr.or o.addrinfo

end Outcomes

/-! ## Reads of the client -/

section Reads

variable {t : StubTrace}

/-- A read that is no error is added to the partial applications, if it brought a byte. -/
theorem exists_clientReadCb {e : ReadEvent} (hn : 0 ≤ e.nread) (t : StubTrace) :
    ∃ t', clientReadCb 2 e t = .ok () t' ∧ t'.calls = t.calls ∧ t'.bodies = t.bodies ∧
      t'.applied = t.applied ++ e.due.map fun s => [.string s] := by
  have hneg : ¬ e.nread < 0 := Int64.not_lt.mpr hn
  rw [clientReadCb_of_nonneg hn, ReadEvent.due, if_neg hneg]
  by_cases hzero : e.nread = 0
  · rw [if_pos hzero]
    exact ⟨t, readCb_of_zero hzero, rfl, rfl, (List.append_nil _).symm⟩
  · have hpos : 0 < e.nread := Int64.lt_of_le_of_ne hn (Ne.symm hzero)
    rw [if_neg hzero]
    exact ⟨_, (readCb_of_pos hpos).trans (apply_of_length_lt (by simp)), rfl, rfl, rfl⟩

/-- The end of the stream, or an error: an empty string. -/
theorem clientReadCb_of_neg {e : ReadEvent} (hn : e.nread < 0) (t : StubTrace) :
    clientReadCb 2 e t = .ok () { t with applied := t.applied ++ [[.string []]] } := by
  rw [clientReadCb, if_pos hn]
  exact apply_of_length_lt (by simp)

/-- **All reads of a client.** -/
theorem exists_forM_clientReadCb {es : List ReadEvent} (hes : ∀ e ∈ es, 0 ≤ e.nread)
    (t : StubTrace) :
    ∃ t', List.forM es (clientReadCb 2) t = .ok () t' ∧ t'.calls = t.calls ∧
      t'.bodies = t.bodies ∧ t'.applied = t.applied ++ (due es).map fun s => [.string s] := by
  induction es generalizing t with
  | nil => exact ⟨t, rfl, rfl, rfl, (List.append_nil _).symm⟩
  | cons e es ih =>
    obtain ⟨t₁, hrun₁, hcalls₁, hbodies₁, happlied₁⟩ :=
      exists_clientReadCb (hes e List.mem_cons_self) t
    obtain ⟨t₂, hrun₂, hcalls₂, hbodies₂, happlied₂⟩ :=
      ih (fun e' he' => hes e' (List.mem_cons_of_mem e he')) t₁
    refine ⟨t₂, (forM_cons_ok hrun₁).trans hrun₂, hcalls₂.trans hcalls₁,
      hbodies₂.trans hbodies₁, ?_⟩
    rw [happlied₂, happlied₁, List.append_assoc, ← List.map_append]
    rfl

/-- What is due for reads without an error are their fragments. -/
theorem due_of_nonneg {es : List ReadEvent} (hes : ∀ e ∈ es, 0 ≤ e.nread) :
    due es = (es.filter fun e => 0 < e.nread).map ReadEvent.bytes := by
  induction es with
  | nil => rfl
  | cons e es ih =>
    have hn := hes e List.mem_cons_self
    have hneg : ¬ e.nread < 0 := Int64.not_lt.mpr hn
    have hrest := ih fun e' he' => hes e' (List.mem_cons_of_mem e he')
    rw [due] at hrest ⊢
    rw [List.flatMap_cons, hrest, ReadEvent.due, if_neg hneg]
    by_cases hzero : e.nread = 0
    · have hpos : ¬ 0 < e.nread := by
        rw [hzero]
        decide
      rw [if_pos hzero, List.filter_cons_of_neg (by simpa using hpos), List.nil_append]
    · have hpos : 0 < e.nread := Int64.lt_of_le_of_ne hn (Ne.symm hzero)
      rw [if_neg hzero, List.filter_cons_of_pos (by simpa using hpos)]
      rfl

end Reads

/-! ## The whole exchange -/

/-- What libuv was asked to do, and what the callback was applied to and run on. -/
structure StubTrace.Shows (t : StubTrace) (calls : List ClientCall)
    (applied bodies : List (List Value)) : Prop where
  calls : t.calls = calls
  applied : t.applied = applied
  bodies : t.bodies = bodies

section Exchange

variable (o : Outcomes) (str : OString)

/-- An address, or a null pointer is followed. -/
theorem request_apply :
    request o StubTrace.empty = match o.destination with
      | none => .error (.fault .nullDereference) StubTrace.empty
      | some dest => .ok () { StubTrace.empty with calls := [.uvTcpConnect dest] } := by
  rw [request, resolve, Outcomes.destination]
  cases o.ip4Addr with
  | some dest => rfl
  | none =>
    rw [Option.none_or]
    cases o.addrinfo <;> rfl

/-- The timer is read after the return of `request`. -/
theorem exchange_apply {dest : OString} (hdest : o.destination = some dest) :
    exchange 2 o str StubTrace.empty =
      if o.timerKept then
        callbacks 2 o str { StubTrace.empty with calls := [.uvTcpConnect dest] }
      else .error (.fault .useAfterReturn)
        { StubTrace.empty with calls := [.uvTcpConnect dest] } := by
  have hrequest := request_apply o
  rw [hdest] at hrequest
  rw [exchange, EStateM.bind_ok hrequest, uvRunTimers]
  cases o.timerKept <;> rfl

/-- **The callbacks of one exchange.**  A refused attempt to connect is the end.  When a
connection fails its request has been freed before its handle is read; if the handle is still
found there, the stream is shut down and the body of the callback is run once, on the status
and the unit value.  When the connection is made the request is written, and every
fragment of the answer, and an empty string at its end, only makes a partial application. -/
theorem callbacks_spec (dest : OString) :
    let asked : StubTrace := { StubTrace.empty with calls := [.uvTcpConnect dest] }
    if o.tcpConnect ≠ 0 then
      ∃ t, callbacks 2 o str asked = .ok () t ∧ t.Shows [.uvTcpConnect dest] [] []
    else if o.status ≠ 0 then
      if o.handleKept then
        ∃ t, callbacks 2 o str asked = .ok () t ∧
          t.Shows [.uvTcpConnect dest, .uvShutdown] [[.int o.status, .unit]]
            [[.int o.status, .unit]]
      else ∃ t, callbacks 2 o str asked = .error (.fault .useAfterFree) t ∧
        t.Shows [.uvTcpConnect dest] [] []
    else
      ∃ t, callbacks 2 o str asked = .ok () t ∧
        t.Shows [.uvTcpConnect dest, .uvReadStart, .uvWrite str]
          ((o.fragments ++ [[]]).map fun s => [.string s]) [] := by
  intro asked
  rw [callbacks]
  by_cases hconnect : o.tcpConnect = 0
  · rw [if_neg (not_not.mpr hconnect), if_pos hconnect, clientConnectCb]
    by_cases hstatus : o.status = 0
    · rw [if_neg (not_not.mpr hstatus), if_neg (not_not.mpr hstatus), if_pos hstatus]
      -- the reads, then the last one
      obtain ⟨t, hrun, hcalls, hbodies, happlied⟩ := exists_forM_clientReadCb o.reads_nonneg
        { StubTrace.empty with calls := [.uvTcpConnect dest, .uvReadStart, .uvWrite str] }
      refine ⟨{ t with applied := t.applied ++ [[.string []]] }, ?_, hcalls, ?_, hbodies⟩
      · show List.forM (o.reads ++ [o.last]) (clientReadCb 2)
          { StubTrace.empty with calls := [.uvTcpConnect dest, .uvReadStart, .uvWrite str] } = _
        rw [EStateM.forM_concat, hrun]
        exact clientReadCb_of_neg o.last_neg t
      · rw [happlied, due_of_nonneg o.reads_nonneg, List.map_append]
        rfl
    · rw [if_pos hstatus, if_pos hstatus, if_neg hstatus]
      by_cases hkept : o.handleKept = true
      · rw [if_pos hkept, if_pos hkept]
        exact ⟨_, rfl, rfl, rfl, rfl⟩
      · rw [if_neg hkept, if_neg hkept]
        exact ⟨_, rfl, rfl, rfl, rfl⟩
  · rw [if_pos hconnect, if_neg hconnect]
    exact ⟨_, rfl, rfl, rfl, rfl⟩

end Exchange

/-- An attempt to connect has failed, and the timer and the handle were found where they had
been. -/
def Outcomes.FailureReported (o : Outcomes) : Prop :=
  o.destination ≠ none ∧ o.timerKept = true ∧ o.tcpConnect = 0 ∧ o.status ≠ 0 ∧
    o.handleKept = true

instance (o : Outcomes) : Decidable o.FailureReported :=
  inferInstanceAs (Decidable (_ ∧ _ ∧ _ ∧ _ ∧ _))

/-- What the example client does with an address, when the timer is found. -/
theorem printed_of_timerKept {o : Outcomes} {dest : OString} (hdest : o.destination = some dest)
    (htimer : o.timerKept = true) :
    printed o
      = (if o.FailureReported then [some (lit "Error: " ++ stringOfInt o.status)] else []) ∧
    ((∃ t, exchange 2 o exampleRequest StubTrace.empty = .ok () t) ↔
      ¬ (o.tcpConnect = 0 ∧ o.status ≠ 0 ∧ o.handleKept = false)) := by
  have hspec := callbacks_spec o exampleRequest dest
  have hsome : o.destination ≠ none := by
    rw [hdest]
    exact Option.some_ne_none dest
  have hreported : o.FailureReported ↔ o.tcpConnect = 0 ∧ o.status ≠ 0 ∧ o.handleKept = true :=
    (and_iff_right hsome).trans (and_iff_right htimer)
  rw [printed, exchanged, exchange_apply o exampleRequest hdest, if_pos htimer]
  dsimp only at hspec
  split_ifs at hspec with hconnect hstatus hkept
  · obtain ⟨t, hrun, -, -, hbodies⟩ := hspec
    rw [hrun, if_neg fun hr => hconnect (hreported.mp hr).1]
    refine ⟨?_, iff_of_true ⟨t, rfl⟩ fun hlost => hconnect hlost.1⟩
    rw [EStateM.Result.store_ok, hbodies, List.map_nil]
  · obtain ⟨t, hrun, -, -, hbodies⟩ := hspec
    rw [hrun, if_pos (hreported.mpr ⟨not_not.mp hconnect, hstatus, hkept⟩)]
    refine ⟨?_, iff_of_true ⟨t, rfl⟩ fun hlost => ?_⟩
    · have hline : exampleClient [.int o.status, .unit]
          = some (lit "Error: " ++ stringOfInt o.status) := if_pos hstatus
      rw [EStateM.Result.store_ok, hbodies, List.map_singleton, hline]
    · exact Bool.noConfusion (hkept.symm.trans hlost.2.2)
  · obtain ⟨t, hrun, -, -, hbodies⟩ := hspec
    have hlost : o.handleKept = false := Bool.eq_false_iff.mpr hkept
    rw [hrun, if_neg fun hr => hkept (hreported.mp hr).2.2]
    refine ⟨?_, iff_of_false ?_ fun h => h ⟨not_not.mp hconnect, hstatus, hlost⟩⟩
    · rw [EStateM.Result.store_error, hbodies, List.map_nil]
    · rintro ⟨t', ht'⟩
      cases ht'
  · obtain ⟨t, hrun, -, -, hbodies⟩ := hspec
    rw [hrun, if_neg fun hr => hstatus (hreported.mp hr).2.1]
    refine ⟨?_, iff_of_true ⟨t, rfl⟩ fun hlost => hstatus hlost.2.1⟩
    rw [EStateM.Result.store_ok, hbodies, List.map_nil]
