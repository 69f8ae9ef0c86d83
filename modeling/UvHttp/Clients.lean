/-
# All clients at once

A server whose clients send unfragmented messages, with the events of all of them in any
order: no callback raises, and at every moment each client has been sent the beginning
of what its own session sends, whatever the others do.
-/
import UvHttp.NonInterference
import UvHttp.Sessions

variable {κ σ : Type}

/-! ## Visits -/

/-- What becomes of a client: it does not come, it is turned away, or it is accepted and
sends messages, none of them fragmented. -/
inductive Visit where
  | absent
  | refused
  | served (ms : List Message)

namespace Visit

/-- The events of a visit. -/
def events (client : ClientT) : Visit → List ServerEvent
  | .absent => []
  | .refused => [.connection client false]
  | .served ms => .connection client true :: (ms.flatMap Message.events).map (.parser client)

/-- The calls on the handle of the client. -/
def calls (now : Tm) (h : Handler κ σ) (own : σ) (client : ClientT) : Visit → List UvCall
  | .served ms => callsOf now (initialRes client) (sessionOps now h client own ms)
  | _ => []

/-- The requests that the handler is given. -/
def requests : Visit → List ReqT
  | .served ms => assembledAll [] ms
  | _ => []

end Visit

/-- Some of the events of every visit have arrived, in their order. -/
def UnderWay (visits : ClientT → Visit) (es : List ServerEvent) : Prop :=
  ∀ c, eventsOf c es <+: (visits c).events c

/-! ## One client -/

/-- Parser events run the connection. -/
theorem alone_parserEvents (now : Tm) (h : Handler κ σ) (own : σ) (client : ClientT) (k : Conn κ σ)
    (es : List Event) :
    alone now h own (some k) (es.map (.parser client)) = match k.run now h es with
      | (k', none) => .ok (some k')
      | (_, some x) => .error x := by
  induction es generalizing k with
  | nil => rfl
  | cons e es ih =>
    rw [List.map_cons, alone, aloneStep, Conn.run]
    cases k.step now h e with
    | error x => rfl
    | ok k' => exact ih k'

/-- The requests of part of a record. -/
theorem requestsSeen_prefix {l l' : List (Entry κ)} (h : l <+: l') :
    requestsSeen l <+: requestsSeen l' := by
  obtain ⟨t, rfl⟩ := h
  rw [requestsSeen_append]
  exact List.prefix_append _ _

/-- Part of a session: nothing raises, and the calls and the requests are part of those of
the session. -/
theorem serve_of_prefix (now : Tm) (h : Handler κ σ) (client : ClientT) (own : σ)
    (ms : List Message) {pre : List Event} (hpre : pre <+: ms.flatMap Message.events) :
    ∃ s : Conn κ σ, (Conn.accept client own).run now h pre = (s, none) ∧
      callsIn s.log <+: callsOf now (initialRes client) (sessionOps now h client own ms) ∧
      requestsSeen s.log <+: assembledAll [] ms := by
  obtain ⟨s', hserve, -, hcalls⟩ := exists_serve_session now h client own ms
  rw [serve_eq_run] at hserve
  have hnone : ((Conn.accept client own).run now h (ms.flatMap Message.events)).2 = none := by
    rw [hserve]
  have hrequests := (exists_run_messages now h [] (accept_seen client own) ms).2
  rw [List.nil_append] at hrequests
  obtain ⟨hpart, hcallsPart⟩ := run_of_prefix now h hpre hnone
  rw [hserve, hcalls] at hcallsPart
  refine ⟨_, Prod.ext rfl hpart, hcallsPart, ?_⟩
  obtain ⟨rest, hrest⟩ := hpre
  rw [← hrequests, ← hrest, run_append]
  rcases hrun : (Conn.accept client own).run now h pre with ⟨s, _ | x⟩
  · exact requestsSeen_prefix (log_prefix_run now h s rest)
  · exact List.prefix_rfl

/-- Part of a visit. -/
theorem alone_of_prefix (now : Tm) (h : Handler κ σ) (own : σ) (client : ClientT) (visit : Visit)
    {pre : List ServerEvent} (hpre : pre <+: visit.events client) :
    ∃ v : Option (Conn κ σ), alone now h own none pre = .ok v ∧
      callsIn ((v.map Conn.log).getD []) <+: visit.calls now h own client ∧
      requestsSeen ((v.map Conn.log).getD []) <+: visit.requests ∧
      (pre = visit.events client →
        callsIn ((v.map Conn.log).getD []) = visit.calls now h own client ∧
        requestsSeen ((v.map Conn.log).getD []) = visit.requests) := by
  cases visit with
  | absent =>
    obtain rfl := List.prefix_nil.mp hpre
    exact ⟨none, rfl, List.nil_prefix, List.nil_prefix, fun _ => ⟨rfl, rfl⟩⟩
  | refused =>
    refine ⟨none, ?_, List.nil_prefix, List.nil_prefix, fun _ => ⟨rfl, rfl⟩⟩
    rcases List.prefix_cons_iff.mp hpre with rfl | ⟨t, rfl, ht⟩
    · rfl
    · obtain rfl := List.prefix_nil.mp ht
      rfl
  | served ms =>
    rcases List.prefix_cons_iff.mp hpre with rfl | ⟨t, rfl, ht⟩
    · exact ⟨none, rfl, List.nil_prefix, List.nil_prefix, nofun⟩
    · obtain ⟨part, hpart, rfl⟩ := List.prefix_map_iff.mp ht
      obtain ⟨s, hrun, hcalls, hrequests⟩ := serve_of_prefix now h client own ms hpart
      refine ⟨some s, ?_, hcalls, hrequests, fun hall => ?_⟩
      · rw [alone, aloneStep]
        show alone now h own (some (Conn.accept client own)) _ = _
        rw [alone_parserEvents, hrun]
      · have hmap := (List.cons.inj hall).2
        have hwhole : part = ms.flatMap Message.events :=
          List.map_injective_iff.mpr (fun a b hab => by injection hab) hmap
        subst hwhole
        obtain ⟨s', hserve, -, hfull⟩ := exists_serve_session now h client own ms
        rw [serve_eq_run, hrun] at hserve
        obtain rfl : s = s' := congrArg Prod.fst hserve
        have hreqs := (exists_run_messages now h [] (accept_seen client own) ms).2
        rw [hrun, List.nil_append] at hreqs
        exact ⟨hfull, hreqs⟩

/-! ## All of them -/

section UnderWay

variable (now : Tm) (h : Handler κ σ) (own : σ) (visits : ClientT → Visit)
  (es : List ServerEvent) (hes : UnderWay visits es)

include hes

/-- No client of a visit raises when it is alone. -/
theorem exists_alone_of_underWay (c : ClientT) :
    ∃ v, alone now h own none (eventsOf c es) = .ok v := by
  obtain ⟨v, hv, -⟩ := alone_of_prefix now h own c (visits c) (hes c)
  exact ⟨v, hv⟩

/-- What one client has been sent, and what was asked in its name. -/
theorem observe_underWay (c : ClientT) :
    (observe (Server.run now h own es).store c).calls <+: (visits c).calls now h own c ∧
      (observe (Server.run now h own es).store c).requests <+: (visits c).requests ∧
      (eventsOf c es = (visits c).events c →
        (observe (Server.run now h own es).store c).calls = (visits c).calls now h own c ∧
        (observe (Server.run now h own es).store c).requests = (visits c).requests) := by
  obtain ⟨v, hv, hcalls, hrequests, hwhole⟩ := alone_of_prefix now h own c (visits c) (hes c)
  rw [observe_run now h own es (exists_alone_of_underWay now h own visits es hes) c hv]
  exact ⟨hcalls, hrequests, hwhole⟩

/-- **Every client gets its own session.**  For every handler, whatever the order in which
the events of the visits arrive and however far they have come, no exception leaves the
loop; each client has been sent the beginning of what its visit alone is sent, and the
handler was given the beginning of its requests; and both are whole when the visit
is. -/
theorem run_underWay :
    (∃ s, Server.run now h own es = .ok () s) ∧
    ∀ c, (observe (Server.run now h own es).store c).calls <+: (visits c).calls now h own c ∧
      (observe (Server.run now h own es).store c).requests <+: (visits c).requests ∧
      (eventsOf c es = (visits c).events c →
        (observe (Server.run now h own es).store c).calls = (visits c).calls now h own c ∧
        (observe (Server.run now h own es).store c).requests = (visits c).requests) := by
  constructor
  · obtain ⟨s, hrun, -⟩ := forM_handle_refines now h own es (Server.fresh_wellFormed own)
      (exists_alone_of_underWay now h own visits es hes)
    exact ⟨s, hrun⟩
  · exact observe_underWay now h own visits es hes

end UnderWay

/-- Two clients with a message each, and one that is turned away. -/
def threeVisits : ClientT → Visit
  | 1 => .served [⟨lit "/a", [(lit "Host", lit "x")], [lit "b"], []⟩]
  | 2 => .served [⟨lit "/b", [], [], []⟩]
  | 3 => .refused
  | _ => .absent

/-- The message of the first client has arrived, that of the second but for its end. -/
def meeting : List ServerEvent :=
  [.connection 1 true, .parser 1 .messageBegin, .connection 2 true, .parser 1 (.url (lit "/a")),
    .parser 2 .messageBegin, .parser 2 (.url (lit "/b")), .parser 1 (.headerField (lit "Host")),
    .connection 3 false, .parser 2 .headersComplete, .parser 1 (.headerValue (lit "x")),
    .parser 1 .headersComplete, .parser 1 (.body (lit "b")), .parser 1 .messageComplete]

theorem underWay_meeting : UnderWay threeVisits meeting := fun c =>
  match c with
  | 0 | 1 | 2 | 3 => by decide
  | n + 4 => by
    have hnone : eventsOf (n + 4) meeting = [] := by
      simp [eventsOf, meeting, ServerEvent.client]
    rw [hnone]
    exact List.nil_prefix

theorem run_underWay_meeting :
    (∃ s, Server.run epoch exampleServer () meeting = .ok () s) ∧
    ∀ c, (observe (Server.run epoch exampleServer () meeting).store c).calls
        <+: (threeVisits c).calls epoch exampleServer () c ∧
      (observe (Server.run epoch exampleServer () meeting).store c).requests
        <+: (threeVisits c).requests ∧
      (eventsOf c meeting = (threeVisits c).events c →
        (observe (Server.run epoch exampleServer () meeting).store c).calls
          = (threeVisits c).calls epoch exampleServer () c ∧
        (observe (Server.run epoch exampleServer () meeting).store c).requests
          = (threeVisits c).requests) :=
  run_underWay epoch exampleServer () threeVisits meeting underWay_meeting
