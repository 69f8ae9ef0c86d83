/-
# Non-interference between connections

The server refines its connections one event at a time, so a run refines the runs
of the connections by themselves: as long as no callback raises.  An exception
leaves the loop and takes every connection with it.
-/
import UvHttp.Server

variable {κ σ : Type}

/-! ## Runs -/

/-- What a list of events of one client means to its connection alone. -/
def alone (now : Tm) (h : Handler κ σ) (own : σ) :
    Option (Conn κ σ) → List ServerEvent → Except Exn (Option (Conn κ σ))
  | v, [] => .ok v
  | v, ev :: es =>
    match aloneStep now h own v ev with
    | .ok v' => alone now h own v' es
    | .error x => .error x

/-- One more event. -/
theorem alone_concat (now : Tm) (h : Handler κ σ) (own : σ) {v v' : Option (Conn κ σ)}
    {es : List ServerEvent} (hes : alone now h own v es = .ok v') (ev : ServerEvent) :
    alone now h own v (es ++ [ev]) = aloneStep now h own v' ev := by
  induction es generalizing v with
  | nil =>
    cases hes
    rw [List.nil_append, alone]
    cases aloneStep now h own v' ev <;> rfl
  | cons e es ih =>
    rw [alone] at hes
    rw [List.cons_append, alone]
    cases hstep : aloneStep now h own v e with
    | error x =>
      rw [hstep] at hes
      cases hes
    | ok v₁ =>
      rw [hstep] at hes
      exact ih hes

/-- The events of one client. -/
def eventsOf (client : ClientT) (es : List ServerEvent) : List ServerEvent :=
  es.filter fun ev => ev.client = client

/-- An event of the client comes first among its events. -/
theorem eventsOf_cons_self (ev : ServerEvent) (es : List ServerEvent) :
    eventsOf ev.client (ev :: es) = ev :: eventsOf ev.client es := by
  simp [eventsOf]

/-- An event of another client is left out. -/
theorem eventsOf_cons_of_ne {client : ClientT} {ev : ServerEvent} (hne : client ≠ ev.client)
    (es : List ServerEvent) : eventsOf client (ev :: es) = eventsOf client es := by
  simp [eventsOf, Ne.symm hne]

/-- The events of a client among its events are all of them. -/
theorem eventsOf_eventsOf (client : ClientT) (es : List ServerEvent) :
    eventsOf client (eventsOf client es) = eventsOf client es := by
  simp [eventsOf]

/-- No event belongs to two clients. -/
theorem eventsOf_eventsOf_of_ne {client client' : ClientT} (hne : client' ≠ client)
    (es : List ServerEvent) : eventsOf client' (eventsOf client es) = [] := by
  rw [eventsOf, eventsOf, List.filter_filter, List.filter_eq_nil_iff]
  intro ev _ hev
  simp only [Bool.and_eq_true, decide_eq_true_eq] at hev
  exact hne (hev.1.symm.trans hev.2)

/-- **A run of the server is the runs of its connections**, when none of these
raises: by the refinement of one event. -/
theorem forM_handle_refines (now : Tm) (h : Handler κ σ) (own : σ) (es : List ServerEvent)
    {s : Server κ σ} (hs : s.WellFormed)
    (halone : ∀ c, ∃ v, alone now h own (s.view c) (eventsOf c es) = .ok v) :
    ∃ s', List.forM es (Server.handle now h own) s = .ok () s' ∧ s'.WellFormed ∧
      (∀ c, alone now h own (s.view c) (eventsOf c es) = .ok (s'.view c)) ∧
      s'.refused = s.refused ++ es.flatMap ServerEvent.refuses := by
  induction es generalizing s with
  | nil => exact ⟨s, rfl, hs, fun _ => rfl, (List.append_nil _).symm⟩
  | cons ev es ih =>
    -- the connection of this event goes one step, the others stay
    obtain ⟨v, hv⟩ := halone ev.client
    rw [eventsOf_cons_self, alone] at hv
    cases hstep : aloneStep now h own (s.view ev.client) ev with
    | error x =>
      rw [hstep] at hv
      cases hv
    | ok v₁ =>
      rw [hstep] at hv
      obtain ⟨s₁, hrun₁, hs₁, hself, hothers, hrefused₁⟩ :=
        Server.handle_refines hs now h own ev hstep
      have hsame : ∀ c, alone now h own (s.view c) (eventsOf c (ev :: es))
          = alone now h own (s₁.view c) (eventsOf c es) := by
        intro c
        by_cases hc : c = ev.client
        · rw [hc, eventsOf_cons_self, alone, hstep, hself]
        · rw [eventsOf_cons_of_ne hc, hothers c hc]
      obtain ⟨s₂, hrun₂, hs₂, hviews, hrefused₂⟩ := ih hs₁ fun c => by
        rw [← hsame]
        exact halone c
      refine ⟨s₂, (EStateM.bind_ok hrun₁).trans hrun₂, hs₂, fun c => ?_, ?_⟩
      · rw [hsame, hviews]
      · rw [hrefused₂, hrefused₁, List.flatMap_cons, List.append_assoc]

/-! ## Runs that do not raise -/

/-- How many names and how many values a connection has seen since it was
accepted. -/
def pieces (es : List ServerEvent) : ℕ × ℕ :=
  es.foldl (fun n ev =>
    match ev with
    | .connection _ true => (0, 0)
    | .parser _ (.headerField _) => (n.1 + 1, n.2)
    | .parser _ (.headerValue _) => (n.1, n.2 + 1)
    | _ => n) (0, 0)

/-- When headers are complete, their connection has seen as many names as values. -/
def HeadersBalancedAt (pre : List ServerEvent) : ServerEvent → Prop
  | .parser client .headersComplete =>
    (pieces (eventsOf client pre)).1 = (pieces (eventsOf client pre)).2
  | _ => True

instance (pre : List ServerEvent) (ev : ServerEvent) : Decidable (HeadersBalancedAt pre ev) := by
  unfold HeadersBalancedAt
  split <;> infer_instance

/-- Every header of every connection comes in one name and one value, or at least
in as many of the one as of the other. -/
def HeadersBalanced (es : List ServerEvent) : Prop := AtEvery HeadersBalancedAt es

instance (es : List ServerEvent) : Decidable (HeadersBalanced es) :=
  inferInstanceAs (Decidable (AtEvery HeadersBalancedAt es))

/-- The lengths of the two lists of a connection. -/
def Conn.Counted (n : ℕ × ℕ) (k : Conn κ σ) : Prop :=
  k.fields.length = n.1 ∧ k.values.length = n.2

/-- The pieces of names and values, with one more event. -/
theorem pieces_concat (es : List ServerEvent) (ev : ServerEvent) :
    pieces (es ++ [ev]) = match ev with
      | .connection _ true => (0, 0)
      | .parser _ (.headerField _) => ((pieces es).1 + 1, (pieces es).2)
      | .parser _ (.headerValue _) => ((pieces es).1, (pieces es).2 + 1)
      | _ => pieces es := by
  rw [pieces, List.foldl_append]
  rfl

/-- One event keeps the count, and raises only where the count is not balanced. -/
theorem exists_aloneStep_ok (now : Tm) (h : Handler κ σ) (own : σ) {v : Option (Conn κ σ)}
    {es : List ServerEvent} (hv : ∀ k, v = some k → k.Counted (pieces es)) (ev : ServerEvent)
    (hbalanced : ∀ c, ev = .parser c .headersComplete → (pieces es).1 = (pieces es).2) :
    ∃ v', aloneStep now h own v ev = .ok v' ∧
      ∀ k, v' = some k → k.Counted (pieces (es ++ [ev])) := by
  rw [pieces_concat]
  rcases ev with ⟨c, _ | _⟩ | ⟨c, e⟩
  · exact ⟨v, rfl, hv⟩
  · refine ⟨_, rfl, ?_⟩
    rintro k hk
    cases hk
    exact ⟨rfl, rfl⟩
  · cases v with
    | none => exact ⟨none, rfl, nofun⟩
    | some k =>
      obtain ⟨hfields, hvalues⟩ := hv k rfl
      cases e with
      | headersComplete =>
        -- the one event that can raise
        have hlen : k.fields.length = k.values.length := by
          rw [hfields, hvalues]
          exact hbalanced c rfl
        have hheaders := foldLeft2_of_length_eq (fun (map : StringMap OString) f v =>
          map.insert f v) ∅ k.fields k.values hlen
        rw [← headersOf] at hheaders
        rw [aloneStep, Conn.step, hheaders]
        refine ⟨_, rfl, ?_⟩
        rintro k' hk'
        cases hk'
        exact ⟨hfields, hvalues⟩
      | headerField f =>
        refine ⟨_, rfl, ?_⟩
        rintro k' hk'
        cases hk'
        exact ⟨by rw [List.length_cons, hfields], hvalues⟩
      | headerValue w =>
        refine ⟨_, rfl, ?_⟩
        rintro k' hk'
        cases hk'
        exact ⟨hfields, by rw [List.length_cons, hvalues]⟩
      | _ =>
        refine ⟨_, rfl, ?_⟩
        rintro k' hk'
        cases hk'
        exact ⟨hfields, hvalues⟩

/-- The events of one connection do not raise when they are balanced. -/
theorem exists_alone_ok (now : Tm) (h : Handler κ σ) (own : σ) {es : List ServerEvent}
    (hes : AtEvery (fun pre ev => ∀ c, ev = .parser c .headersComplete →
      (pieces pre).1 = (pieces pre).2) es) :
    ∃ v, alone now h own none es = .ok v ∧ ∀ k, v = some k → k.Counted (pieces es) := by
  induction es using List.reverseRecOn with
  | nil => exact ⟨none, rfl, nofun⟩
  | append_singleton es ev ih =>
    obtain ⟨hpre, hev⟩ := (atEvery_concat_iff _ _ _).mp hes
    obtain ⟨v, hv, hcounted⟩ := ih hpre
    obtain ⟨v', hv', hcounted'⟩ := exists_aloneStep_ok now h own hcounted ev hev
    exact ⟨v', (alone_concat now h own hv ev).trans hv', hcounted'⟩

/-- With balanced headers no connection raises when it is alone. -/
theorem exists_alone_eventsOf_ok (now : Tm) (h : Handler κ σ) (own : σ) {es : List ServerEvent}
    (hes : HeadersBalanced es) (client : ClientT) :
    ∃ v, alone now h own none (eventsOf client es) = .ok v := by
  have hown : AtEvery (fun pre ev => ∀ c, ev = .parser c .headersComplete →
      (pieces pre).1 = (pieces pre).2) (eventsOf client es) := by
    refine AtEvery.filter (hes.imp ?_)
    rintro pre ev hbalanced hclient c rfl
    obtain rfl : c = client := of_decide_eq_true hclient
    exact hbalanced
  obtain ⟨v, hv, -⟩ := exists_alone_ok now h own hown
  exact ⟨v, hv⟩

/-! ## Non-interference -/

/-- What can be seen of a connection: the calls on its handle, the requests that its
handler was given, and how often its handle was turned away. -/
structure Observation where
  calls : List UvCall
  requests : List ReqT
  refusals : ℕ

/-- What can be seen of a client. -/
def observe (s : Server κ σ) (client : ClientT) : Observation where
  calls := callsIn (Server.logOf client s.log)
  requests := requestsSeen (Server.logOf client s.log)
  refusals := s.refused.count client

/-- Of every client the same can be seen when its events are run alone. -/
def NonInterfering (now : Tm) (h : Handler κ σ) (own : σ) (es : List ServerEvent) : Prop :=
  ∀ c, observe (Server.run now h own es).store c
    = observe (Server.run now h own (eventsOf c es)).store c

/-- A client is turned away by its own events only. -/
theorem count_refuses_eventsOf (client : ClientT) (es : List ServerEvent) :
    ((eventsOf client es).flatMap ServerEvent.refuses).count client
      = (es.flatMap ServerEvent.refuses).count client := by
  induction es with
  | nil => rfl
  | cons ev es ih =>
    by_cases hc : client = ev.client
    · rw [hc, eventsOf_cons_self, List.flatMap_cons, List.flatMap_cons, List.count_append,
        List.count_append, ← hc, ih]
    · have hzero : ev.refuses.count client = 0 := by
        rw [List.count_eq_zero]
        rcases ev with ⟨c, _ | _⟩ | ⟨c, e⟩ <;> simp [ServerEvent.refuses]
        exact hc
      rw [eventsOf_cons_of_ne hc, ih, List.flatMap_cons, List.count_append, hzero, Nat.zero_add]

/-- What can be seen of a client in a run whose connections do not raise. -/
theorem observe_run (now : Tm) (h : Handler κ σ) (own : σ) (es : List ServerEvent)
    (halone : ∀ c, ∃ v, alone now h own none (eventsOf c es) = .ok v) (client : ClientT)
    {v : Option (Conn κ σ)} (hv : alone now h own none (eventsOf client es) = .ok v) :
    observe (Server.run now h own es).store client =
      { calls := callsIn ((v.map Conn.log).getD [])
        requests := requestsSeen ((v.map Conn.log).getD [])
        refusals := ((eventsOf client es).flatMap ServerEvent.refuses).count client } := by
  obtain ⟨s, hrun, hs, hviews, hrefused⟩ :=
    forM_handle_refines now h own es (Server.fresh_wellFormed own) halone
  obtain rfl : v = s.view client := Except.ok.inj (hv.symm.trans (hviews client))
  have hstore : (Server.run now h own es).store = s := by
    rw [Server.run, hrun]
    rfl
  have hcount : s.refused.count client = (es.flatMap ServerEvent.refuses).count client := by
    rw [hrefused]
    rfl
  rw [hstore, observe, Server.log_view hs, hcount, count_refuses_eventsOf]

/-- **Connections do not interfere in runs that do not raise**: at every end of
headers, the connection has seen as many names as values. -/
theorem nonInterfering_of_balanced (now : Tm) (h : Handler κ σ) (own : σ)
    (es : List ServerEvent) (hes : HeadersBalanced es) : NonInterfering now h own es := by
  intro client
  have halone := exists_alone_eventsOf_ok now h own hes
  obtain ⟨v, hv⟩ := halone client
  -- the client's own events do not raise either, and there are no others
  have halone' : ∀ c, ∃ w, alone now h own none (eventsOf c (eventsOf client es)) = .ok w := by
    intro c
    by_cases hc : c = client
    · rw [hc, eventsOf_eventsOf]
      exact ⟨v, hv⟩
    · rw [eventsOf_eventsOf_of_ne hc]
      exact ⟨none, rfl⟩
  have hv' : alone now h own none (eventsOf client (eventsOf client es)) = .ok v := by
    rw [eventsOf_eventsOf]
    exact hv
  rw [observe_run now h own es halone client hv,
    observe_run now h own (eventsOf client es) halone' client hv', eventsOf_eventsOf]

/-- Two requests, piece by piece. -/
def interleaved : List ServerEvent :=
  [.connection 1 true, .connection 2 true, .parser 1 (.url (lit "/a")),
    .parser 2 (.url (lit "/b")), .parser 1 (.headerField (lit "Host")),
    .parser 2 .headersComplete, .parser 1 (.headerValue (lit "x")), .connection 3 false,
    .parser 1 .headersComplete, .parser 2 .messageComplete]

theorem nonInterfering_interleaved : NonInterfering epoch exampleServer () interleaved :=
  nonInterfering_of_balanced epoch exampleServer () interleaved (by decide)

/-- A name that a read has cut in two, and then the request of another client. -/
def cutName : List ServerEvent :=
  [.connection 1 true, .connection 2 true, .parser 1 (.headerField (lit "Ho")),
    .parser 1 (.headerField (lit "st")), .parser 1 (.headerValue (lit "x")),
    .parser 1 .headersComplete, .parser 2 (.url (lit "/")), .parser 2 .headersComplete]

/-- The exception on one connection keeps the other client from being answered. -/
theorem not_nonInterfering_cutName : ¬ NonInterfering epoch exampleServer () cutName := by
  intro h
  have hrequests := congrArg (fun o => o.requests.length) (h 2)
  have htogether : (observe (Server.run epoch exampleServer () cutName).store 2).requests.length
      = 0 := by decide +kernel
  have halone : (observe (Server.run epoch exampleServer () (eventsOf 2 cutName)).store
      2).requests.length = 1 := by decide +kernel
  simp only [htogether, halone] at hrequests
  exact absurd hrequests (by decide)
