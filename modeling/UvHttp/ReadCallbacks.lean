/-
# The read callbacks, model by model

`read_cb` and `client_read_cb` are looked at from several sides: what they do with memory
and with the closure, what the collector may do in between, which roots they leave on the
stack, and whose handle they read.  These are models of one function: they run OCaml code
on the same reads and with the same strings.  And what that code does in the process of
the server, it does to the session of its client.
-/
import UvHttp.ClientRequest
import UvHttp.Clients
import UvHttp.Collection
import UvHttp.LocalRoots
import UvHttp.Ownership
import UvHttp.Process

variable {π κ σ : Type}

/-! ## The strings -/

/-- The stub of a connection, with a closure of the arity that its declaration has. -/
def Collection.Kind.stub : Collection.Kind → ReadEvent → Stub Unit
  | .server => readCb 1
  | .client => clientReadCb 2

/-- Each string as the only argument of an application. -/
def asArgs (strs : List OString) : List (List Value) := strs.map fun s => [.string s]

section Strings

open Collection (Kind stringOf)

/-- **One read**: the closure is applied to the string that the collector's model has for
it, and the stub comes back from all reads but an error of the server. -/
theorem stub_apply (k : Kind) (e : ReadEvent) (t : StubTrace) :
    (k.stub e t).store.applied = t.applied ++ asArgs (stringOf k e).toList ∧
      ((∃ t', k.stub e t = .ok () t') ↔ (k = .server → 0 ≤ e.nread)) := by
  by_cases hneg : e.nread < 0
  · cases k with
    | server =>
      have hrun : Kind.server.stub e t = _ := readCb_of_neg hneg
      rw [hrun, stringOf, if_pos hneg]
      refine ⟨(List.append_nil _).symm, iff_of_false ?_ fun h => absurd (h rfl) ?_⟩
      · rintro ⟨t', ht'⟩
        cases ht'
      · exact Int64.not_le.mpr hneg
    | client =>
      have hrun : Kind.client.stub e t =
          .ok () { t with applied := t.applied ++ [[.string []]] } := by
        rw [Kind.stub, clientReadCb, if_pos hneg]
        exact apply_of_length_lt (by simp)
      rw [hrun, stringOf, if_pos hneg]
      exact ⟨rfl, iff_of_true ⟨_, rfl⟩ fun hk => absurd hk (by decide)⟩
  · have hn : 0 ≤ e.nread := Int64.not_lt.mp hneg
    have hdue : (stringOf k e).toList = e.due := by
      unfold stringOf ReadEvent.due
      rw [if_neg hneg, if_neg hneg]
      split_ifs <;> rfl
    rw [hdue]
    cases k with
    | server =>
      obtain ⟨t', hrun, -, happlied, -⟩ := exists_readCb_of_nonneg hn t
      have hstub : Kind.server.stub e t = .ok () t' := hrun
      rw [hstub]
      exact ⟨happlied, iff_of_true ⟨t', rfl⟩ fun _ => hn⟩
    | client =>
      obtain ⟨t', hrun, -, happlied⟩ := exists_clientReadCb_of_nonneg hn t
      have hstub : Kind.client.stub e t = .ok () t' := hrun
      rw [hstub]
      exact ⟨happlied, iff_of_true ⟨t', rfl⟩ fun hk => absurd hk (by decide)⟩

/-- Reads that the stub comes back from. -/
theorem applied_forM_stub (k : Kind) {es : List ReadEvent}
    (hes : k = .server → ∀ e ∈ es, 0 ≤ e.nread) (t : StubTrace) :
    (List.forM es k.stub t).store.applied = t.applied ++ asArgs (es.filterMap (stringOf k)) := by
  induction es generalizing t with
  | nil => exact (List.append_nil _).symm
  | cons e es ih =>
    obtain ⟨happlied, hreturns⟩ := stub_apply k e t
    obtain ⟨t', hrun⟩ := hreturns.mpr fun hk => hes hk e List.mem_cons_self
    rw [hrun] at happlied
    rw [forM_cons_ok hrun, ih (fun hk e' he' => hes hk e' (List.mem_cons_of_mem _ he')),
      ← EStateM.Result.store_ok () t', happlied, List.append_assoc, List.filterMap_cons]
    cases stringOf k e <;> rfl

/-- **All reads of a connection**: whenever the collector runs, the applications are those of
the stub. -/
theorem applied_forM_stub_reads (k : Kind) (young : Bool) (ss : List Collection.Step)
    (hss : k = .server → ∀ e ∈ Collection.reads ss, 0 ≤ e.nread) :
    (List.forM (Collection.reads ss) k.stub StubTrace.empty).store.applied
      = asArgs ((Collection.run k young ss).applied.map Collection.Application.str) := by
  rw [applied_forM_stub k hss, Collection.strings_run]
  rfl

end Strings

/-! ## The frames and the handles -/

section Frames

open LocalRoots

variable {m : LocalRoots.State} {f : Func} {e : ReadEvent}

/-- OCaml code runs in a frame that was entered and, for an empty read, left again. -/
theorem runsOcaml_enter_iff (he : m.top.any Func.isLoop = true) :
    runsOcaml (if e.nread = 0 then (m.enter f).plainReturn else m.enter f).top = true ↔
      e.nread ≠ 0 ∧ runsOcaml (some f) = true := by
  by_cases hzero : e.nread = 0
  · rw [if_pos hzero]
    refine iff_of_false ?_ fun h => h.1 hzero
    -- the frame of the loop is on top again
    show ¬ runsOcaml m.top = true
    obtain ⟨g, hg, hloop⟩ := (Option.any_eq_true _ _).mp he
    rw [hg]
    cases g <;> first | cases hloop; done | exact Bool.false_ne_true
  · rw [if_neg hzero]
    exact (and_iff_right hzero).symm

theorem stringOf_ne_none_iff (k : Collection.Kind) (e : ReadEvent) :
    Collection.stringOf k e ≠ none ↔ e.nread ≠ 0 ∧ (k = .server → 0 ≤ e.nread) := by
  unfold Collection.stringOf
  by_cases hneg : e.nread < 0
  · have hne : e.nread ≠ 0 := Int64.ne_of_lt hneg
    rw [if_pos hneg]
    cases k with
    | server => exact iff_of_false (fun h => h rfl) fun h => Int64.not_le.mpr hneg (h.2 rfl)
    | client => exact iff_of_true (Option.some_ne_none _) ⟨hne, nofun⟩
  · rw [if_neg hneg]
    by_cases hzero : e.nread = 0
    · rw [if_pos hzero]
      exact iff_of_false (fun h => h rfl) fun h => h.1 hzero
    · rw [if_neg hzero]
      exact iff_of_true (Option.some_ne_none _) ⟨hzero, fun _ => Int64.not_lt.mp hneg⟩

/-- The closure is applied for some of the reads. -/
theorem applied_stub_ne_nil_iff (k : Collection.Kind) (e : ReadEvent) :
    (k.stub e StubTrace.empty).store.applied ≠ [] ↔
      e.nread ≠ 0 ∧ (k = .server → 0 ≤ e.nread) := by
  rw [(stub_apply k e StubTrace.empty).1, ← stringOf_ne_none_iff]
  cases Collection.stringOf k e with
  | none => exact iff_of_false (fun h => h rfl) fun h => h rfl
  | some s => exact iff_of_true (List.cons_ne_nil _ _) (Option.some_ne_none _)

/-- **The stack of the callbacks**: OCaml code runs above `read_cb` and `client_read_cb` just
for the reads that their closure is applied for. -/
theorem runsOcaml_read_iff (he : m.top.any Func.isLoop = true) :
    (runsOcaml (LocalRoots.exec m (.read e.nread)).top = true ↔
      (readCb 1 e StubTrace.empty).store.applied ≠ []) ∧
    (runsOcaml (LocalRoots.exec m (.clientRead e.nread)).top = true ↔
      (clientReadCb 2 e StubTrace.empty).store.applied ≠ []) := by
  constructor
  · refine (runsOcaml_enter_iff he).trans (Iff.trans ?_ (applied_stub_ne_nil_iff .server e).symm)
    exact and_congr_right fun _ => decide_eq_true_iff.trans ⟨fun h _ => h, fun h => h rfl⟩
  · refine (runsOcaml_enter_iff he).trans (Iff.trans ?_ (applied_stub_ne_nil_iff .client e).symm)
    exact and_congr_right fun _ => iff_of_true rfl nofun

end Frames

/-- **The handle of the callbacks**: a stream that is read has not been released, its field
holds the callback, and nothing is written to it. -/
theorem exec_read {es : List Lifecycle.Event}
    (hes : Lifecycle.stubs.Possible Lifecycle.State.init es) {h : ℕ}
    (he : Lifecycle.enabled (Lifecycle.stubs.after Lifecycle.State.init es) (.read h) = true) :
    let m := Lifecycle.stubs.after Lifecycle.State.init es
    Lifecycle.exec m (.read h) = m ∧ ∃ t, m.tcp h = some t ∧ t.data = .callback := by
  intro m
  have hm : Lifecycle.HandlesOk m := Lifecycle.handlesOk_after hes
  obtain ⟨t, ht, hflags⟩ := (Option.any_eq_true _ _).mp he
  rw [Bool.and_eq_true, Bool.not_eq_true'] at hflags
  have hh : h ∉ m.handles.released := by
    intro hmem
    obtain ⟨u, hu, hclosing⟩ := hm.closing h (.inl hmem)
    obtain rfl : t = u := Option.some.inj (ht.symm.trans hu)
    rw [hflags.2] at hclosing
    cases hclosing
  refine ⟨?_, t, ht, (hm.contents h t ht).callback_of_connected hflags.1⟩
  show { m with handles := m.handles.touch h } = m
  rw [Pool.touch_of_notMem hh]

/-! ## The closure -/

/-- The client that an event of the loop is about. -/
def LoopEvent.client : LoopEvent → ClientT
  | .connection c _ | .read c _ => c

/-- The strings that the closure of a client is given. -/
def inputsOf (client : ClientT) (es : List LoopEvent) : List OString :=
  es.filterMap fun
    | .connection _ _ => none
    | .read c e => if c = client ∧ 0 < e.nread then some e.bytes else none

section Closure

variable {now : Tm} {h : Handler κ σ} {own : σ} {p : HttpParser π} {client : ClientT}

/-- One input of a session. -/
theorem forM_onInput_cons {st : π} {k k' : Conn κ σ} {data : OString}
    (hrun : k.run now h (p.execute st data).events = (k', none)) (inputs : List OString) :
    List.forM (data :: inputs) (onInput now h p) ⟨st, k⟩
      = List.forM inputs (onInput now h p) ⟨(p.execute st data).parser, k'⟩ := by
  have hinput : onInput now h p data ⟨st, k⟩ = .ok () ⟨(p.execute st data).parser, k'⟩ := by
    rw [onInput_apply, hrun]
  exact EStateM.bind_ok hinput

/-- Part of a run that raises nothing. -/
theorem run_eq_of_append {k k' : Conn κ σ} {es fs : List Event}
    (hrun : k.run now h (es ++ fs) = (k', none)) :
    ∃ k₁, k.run now h es = (k₁, none) ∧ k₁.run now h fs = (k', none) := by
  rw [run_append] at hrun
  rcases hes : k.run now h es with ⟨k₁, _ | x⟩
  · rw [hes] at hrun
    exact ⟨k₁, rfl, hrun⟩
  · rw [hes] at hrun
    cases (Prod.mk.inj hrun).2

/-- What other clients do does not reach the parser of this one. -/
theorem next_of_ne (f : Feed π) {ev : LoopEvent} (hne : ev.client ≠ client) :
    (f.next p ev).parsers client = f.parsers client ∧
      eventsOf client (f.next p ev).events = eventsOf client f.events := by
  have hother : ∀ evs : List ServerEvent, (∀ e ∈ evs, e.client = ev.client) →
      eventsOf client (f.events ++ evs) = eventsOf client f.events := by
    intro evs hevs
    have hnone : eventsOf client evs = [] := by
      rw [eventsOf, List.filter_eq_nil_iff]
      intro e he
      rw [decide_eq_true_eq, hevs e he]
      exact hne
    rw [eventsOf, List.filter_append]
    show eventsOf client f.events ++ eventsOf client evs = _
    rw [hnone, List.append_nil]
  cases ev with
  | connection c a =>
    refine ⟨?_, hother _ fun e he => by rw [List.mem_singleton.mp he]; rfl⟩
    show (if a then Function.update f.parsers c (some p.init) else f.parsers) client = _
    split_ifs
    · exact Function.update_of_ne (Ne.symm hne) _ _
    · rfl
  | read c e =>
    rw [Feed.next]
    cases f.parsers c with
    | none => exact ⟨rfl, rfl⟩
    | some st =>
      refine ⟨Function.update_of_ne (Ne.symm hne) _ _, hother _ fun e he => ?_⟩
      obtain ⟨_, -, rfl⟩ := List.mem_map.mp he
      rfl

/-- What the parser of a client makes of the reads, the session makes of its inputs. -/
theorem exists_feed_inputs (now : Tm) (h : Handler κ σ) {es : List LoopEvent}
    (hes : ∀ a, .connection client a ∉ es)
    {f : Feed π} {st : π} (hst : f.parsers client = some st) :
    ∃ st' evs, (es.foldl (Feed.next p) f).parsers client = some st' ∧
      eventsOf client (es.foldl (Feed.next p) f).events
        = eventsOf client f.events ++ evs.map (.parser client) ∧
      ∀ k k' : Conn κ σ, k.run now h evs = (k', none) →
        List.forM (inputsOf client es) (onInput now h p) ⟨st, k⟩ = .ok () ⟨st', k'⟩ := by
  induction es generalizing f st with
  | nil =>
    refine ⟨st, [], hst, (List.append_nil _).symm, fun k k' hrun => ?_⟩
    obtain rfl : k = k' := (Prod.mk.inj hrun).1
    rfl
  | cons ev es ih =>
    have hrest : ∀ a, .connection client a ∉ es := fun a hmem => hes a (List.mem_cons_of_mem _ hmem)
    by_cases hev : ev.client = client
    · cases ev with
      | connection c a =>
        obtain rfl : c = client := hev
        exact absurd List.mem_cons_self (hes a)
      | read c e =>
        obtain rfl : c = client := hev
        have hnext : f.next p (.read c e) =
            ⟨Function.update f.parsers c (some (p.take st e).parser),
              f.events ++ (p.take st e).events.map (.parser c)⟩ := by
          rw [Feed.next, hst]
        have hst₁ : (f.next p (.read c e)).parsers c = some (p.take st e).parser := by
          rw [hnext]
          exact Function.update_self _ _ _
        obtain ⟨st', evs, hst', hevents, hinputs⟩ := ih hrest hst₁
        refine ⟨st', (p.take st e).events ++ evs, hst', ?_, fun k k' hrun => ?_⟩
        · have hmine : ∀ l : List Event,
              eventsOf c (l.map (.parser c)) = l.map (ServerEvent.parser c) := fun l =>
            List.filter_eq_self.mpr fun ev hev => by
              obtain ⟨_, -, rfl⟩ := List.mem_map.mp hev
              exact decide_eq_true rfl
          rw [List.foldl_cons, hevents, hnext, eventsOf, List.filter_append]
          show eventsOf c f.events ++ eventsOf c _ ++ _ = _
          rw [hmine, List.append_assoc, List.map_append]
        · obtain ⟨k₁, hrun₁, hrun₂⟩ := run_eq_of_append hrun
          rw [HttpParser.take] at hrun₁ hinputs
          by_cases hpos : 0 < e.nread
          · have hcons : inputsOf c (.read c e :: es) = e.bytes :: inputsOf c es :=
              List.filterMap_cons_some (if_pos ⟨rfl, hpos⟩)
            rw [if_pos hpos] at hrun₁ hinputs
            rw [hcons, forM_onInput_cons hrun₁]
            exact hinputs k₁ k' hrun₂
          · have hcons : inputsOf c (.read c e :: es) = inputsOf c es :=
              List.filterMap_cons_none (if_neg fun hboth => hpos hboth.2)
            rw [if_neg hpos] at hrun₁ hinputs
            obtain rfl : k = k₁ := (Prod.mk.inj hrun₁).1
            rw [hcons]
            exact hinputs k k' hrun₂
    · obtain ⟨hparsers, hsame⟩ := next_of_ne (p := p) f hev
      obtain ⟨st', evs, hst', hevents, hinputs⟩ := ih hrest (hparsers.trans hst)
      have hcons : inputsOf client (ev :: es) = inputsOf client es := by
        refine List.filterMap_cons_none ?_
        cases ev with
        | connection c a => rfl
        | read c e => exact if_neg fun hboth => hev hboth.1
      refine ⟨st', evs, hst', ?_, ?_⟩
      · rw [List.foldl_cons, hevents, hsame]
      · rw [hcons]
        exact hinputs

/-- A client that has not come has no parser. -/
theorem feed_of_not_connected {es : List LoopEvent} (hes : ∀ a, .connection client a ∉ es) :
    (feed p es).parsers client = none ∧ eventsOf client (feed p es).events = [] := by
  induction es using List.reverseRecOn with
  | nil => exact ⟨rfl, rfl⟩
  | append_singleton es ev ih =>
    obtain ⟨hparsers, hevents⟩ := ih fun a hmem => hes a (List.mem_append_left _ hmem)
    rw [feed_concat]
    by_cases hev : ev.client = client
    · cases ev with
      | connection c a =>
        obtain rfl : c = client := hev
        exact absurd (List.mem_append_right _ List.mem_cons_self) (hes a)
      | read c e =>
        obtain rfl : c = client := hev
        rw [Feed.next, hparsers]
        exact ⟨hparsers, hevents⟩
    · obtain ⟨hsame, hsameEvents⟩ := next_of_ne (p := p) (feed p es) hev
      exact ⟨hsame.trans hparsers, hsameEvents.trans hevents⟩

/-- **The closure in the process is the closure of a session.**  In every run that comes to its
end, a client that connects once has the parser and the connection that its closure makes of
the strings of its reads, one after the other. -/
theorem exists_session_of_run {pre post : List LoopEvent} {s : Process π κ σ}
    (hpre : ∀ a, .connection client a ∉ pre) (hpost : ∀ a, .connection client a ∉ post)
    (hrun : Process.run now h own p (pre ++ .connection client true :: post) = .ok () s) :
    ∃ S : Session π κ σ, onInputs now h p client own (inputsOf client post) = .ok () S ∧
      s.parsers client = some S.parser ∧ s.server.view client = some S.conn := by
  have hs := inStep_of_run now h own hrun
  have hkeeps := ((atEvery_goesOn_iff p _).mp (goesOn_of_run now h own hrun)).2
  obtain ⟨server, hserver, hstands⟩ := exists_standing_run now h own hkeeps
  obtain rfl : server = s.server := by
    rw [hs.server] at hserver
    cases hserver
    rfl
  -- the parser is new when the client connects
  obtain ⟨-, hnone⟩ := feed_of_not_connected (p := p) hpre
  let f := (feed p pre).next p (.connection client true)
  have hst : f.parsers client = some p.init := Function.update_self _ _ _
  have hfeed : feed p (pre ++ .connection client true :: post) = post.foldl (Feed.next p) f := by
    rw [feed, List.foldl_append]
    rfl
  have hf : eventsOf client f.events = [.connection client true] := by
    show eventsOf client ((feed p pre).events ++ [.connection client true]) = _
    rw [eventsOf, List.filter_append]
    show eventsOf client (feed p pre).events ++ eventsOf client [.connection client true] = _
    rw [hnone]
    exact eventsOf_cons_self (.connection client true) []
  obtain ⟨st', evs, hst', hevents, hinputs⟩ := exists_feed_inputs now h hpost hst
  have halone := hstands.alone client
  rw [serverEvents, hfeed, hevents, hf, List.singleton_append, alone, aloneStep] at halone
  change alone now h own (some (Conn.accept client own)) _ = _ at halone
  rw [alone_parserEvents] at halone
  rcases hconn : (Conn.accept client own).run now h evs with ⟨k', _ | x⟩
  · rw [hconn] at halone
    refine ⟨⟨st', k'⟩, hinputs _ _ hconn, ?_, (Except.ok.inj halone).symm⟩
    rw [hs.parsers, hfeed]
    exact hst'
  · rw [hconn] at halone
    cases halone

end Closure
