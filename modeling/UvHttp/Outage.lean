/-
# When the loop stops

The one exception that a callback of the parser raises is that of `List.fold_left2`, when
the headers of some connection are complete with more names than values or fewer.  It
leaves the loop, so every connection stops there: each client has been served as if it
had been alone with the events that it had had so far, and nothing comes after.
-/
import UvHttp.NonInterference

variable {κ σ : Type}

/-! ## The event that stops the loop -/

/-- The headers of a connection that was accepted are complete, and their names and values
do not match up. -/
def StopsLoop (pre : List ServerEvent) : ServerEvent → Prop
  | .parser client .headersComplete =>
    .connection client true ∈ pre ∧
      (pieces (eventsOf client pre)).1 ≠ (pieces (eventsOf client pre)).2
  | _ => False

/-- No event of the run stops the loop. -/
def KeepsRunning (es : List ServerEvent) : Prop := AtEvery (fun pre ev => ¬ StopsLoop pre ev) es

theorem eventsOf_concat (client : ClientT) (es : List ServerEvent) (ev : ServerEvent) :
    eventsOf client (es ++ [ev])
      = if ev.client = client then eventsOf client es ++ [ev] else eventsOf client es := by
  rw [eventsOf, List.filter_append, List.filter_singleton]
  by_cases h : ev.client = client
  · simp [h, eventsOf]
  · simp [h, eventsOf]

/-! ## One event -/

/-- After the events: every connection that was accepted has been run by its own events and
has counted its names and values. -/
structure Standing (now : Tm) (h : Handler κ σ) (own : σ) (es : List ServerEvent)
    (s : Server κ σ) : Prop where
  wellFormed : s.WellFormed
  alone : ∀ c, alone now h own none (eventsOf c es) = .ok (s.view c)
  counted : ∀ c k, s.view c = some k →
    .connection c true ∈ es ∧ k.Counted (pieces (eventsOf c es))
  accepted : ∀ c, .connection c true ∈ es → s.view c ≠ none

section Step

variable {now : Tm} {h : Handler κ σ} {own : σ} {es : List ServerEvent} {s : Server κ σ}

theorem standing_fresh (now : Tm) (h : Handler κ σ) (own : σ) :
    Standing now h own [] (Server.fresh own) :=
  ⟨Server.fresh_wellFormed own, fun _ => rfl, nofun, nofun⟩

/-- What is seen depends on the connections, and on who was turned away. -/
theorem observe_congr {s' : Server κ σ} (hs : s.WellFormed) (hs' : s'.WellFormed)
    (hviews : ∀ c, s'.view c = s.view c) (hrefused : s'.refused = s.refused) (c : ClientT) :
    observe s' c = observe s c := by
  rw [observe, observe, ← Server.log_view hs', ← Server.log_view hs, hviews, hrefused]

/-- A connection does not disappear. -/
theorem aloneStep_ne_none (k : Conn κ σ) (ev : ServerEvent) :
    aloneStep now h own (some k) ev ≠ .ok none := by
  intro hnone
  rcases ev with ⟨c, _ | _⟩ | ⟨c, e⟩
  · cases hnone
  · cases hnone
  · rw [aloneStep] at hnone
    cases hstep : k.step now h e with
    | error x =>
      rw [hstep] at hnone
      cases hnone
    | ok k' =>
      rw [hstep] at hnone
      cases hnone

/-- The connection of an event goes a step when the event does not stop the loop. -/
theorem Standing.exists_aloneStep (hs : Standing now h own es s) {ev : ServerEvent}
    (hev : ¬ StopsLoop es ev) :
    ∃ v, aloneStep now h own (s.view ev.client) ev = .ok v ∧
      (∀ k, v = some k → .connection ev.client true ∈ es ++ [ev] ∧
        k.Counted (pieces (eventsOf ev.client es ++ [ev]))) ∧
      (.connection ev.client true ∈ es ++ [ev] → v ≠ none) := by
  cases hview : s.view ev.client with
  | none =>
    have hnew : .connection ev.client true ∉ es := fun hmem =>
      hs.accepted ev.client hmem hview
    rcases ev with ⟨c, _ | _⟩ | ⟨c, e⟩
    · refine ⟨none, rfl, fun k hk => absurd hk (Option.some_ne_none k).symm,
        fun hmem => absurd hmem ?_⟩
      simp [ServerEvent.client] at hnew ⊢
      exact hnew
    · refine ⟨_, rfl, ?_, fun _ => Option.some_ne_none _⟩
      intro k hk
      cases hk
      rw [pieces_concat]
      exact ⟨List.mem_append_right _ (List.mem_singleton.mpr rfl), rfl, rfl⟩
    · refine ⟨none, rfl, fun k hk => absurd hk (Option.some_ne_none k).symm,
        fun hmem => absurd hmem ?_⟩
      simp [ServerEvent.client] at hnew ⊢
      exact hnew
  | some k =>
    obtain ⟨hmem, hcounted⟩ := hs.counted ev.client k hview
    have hbalanced : ∀ c, ev = .parser c .headersComplete →
        (pieces (eventsOf ev.client es)).1 = (pieces (eventsOf ev.client es)).2 := by
      rintro c rfl
      by_contra hne
      exact hev ⟨hmem, hne⟩
    obtain ⟨v, hv, hcounted'⟩ := exists_aloneStep_ok now h own
      (fun k' hk' => Option.some.inj hk' ▸ hcounted) ev hbalanced
    refine ⟨v, hv, fun k' hk' => ⟨List.mem_append_left _ hmem, hcounted' k' hk'⟩, ?_⟩
    rintro - rfl
    exact aloneStep_ne_none k ev hv

/-- **An event that does not stop the loop.** -/
theorem Standing.handle_ok (hs : Standing now h own es s) {ev : ServerEvent}
    (hev : ¬ StopsLoop es ev) :
    ∃ s', Server.handle now h own ev s = .ok () s' ∧ Standing now h own (es ++ [ev]) s' := by
  obtain ⟨v, hv, hcounted, haccepted⟩ := hs.exists_aloneStep hev
  obtain ⟨s', hrun, hs', hself, hothers, -⟩ := Server.handle_refines hs.wellFormed now h own ev hv
  have hold : ∀ c, c ≠ ev.client → eventsOf c (es ++ [ev]) = eventsOf c es := fun c hc => by
    rw [eventsOf_concat, if_neg (Ne.symm hc)]
  have hown : eventsOf ev.client (es ++ [ev]) = eventsOf ev.client es ++ [ev] := by
    rw [eventsOf_concat, if_pos rfl]
  have hmem : ∀ c, c ≠ ev.client → (.connection c true ∈ es ++ [ev] ↔ .connection c true ∈ es) := by
    intro c hc
    rw [List.mem_append, List.mem_singleton]
    refine ⟨fun hmem => hmem.resolve_right fun heq => hc ?_, .inl⟩
    rw [← heq]
    rfl
  refine ⟨s', hrun, hs', fun c => ?_, fun c k hk => ?_, fun c hc => ?_⟩
  · by_cases hc : c = ev.client
    · rw [hc, hown, alone_concat now h own (hs.alone ev.client), hself]
      exact hv
    · rw [hold c hc, hothers c hc]
      exact hs.alone c
  · by_cases hc : c = ev.client
    · rw [hc, hself] at hk
      rw [hc, hown]
      exact hcounted k hk
    · rw [hothers c hc] at hk
      rw [hold c hc, hmem c hc]
      exact hs.counted c k hk
  · by_cases hc' : c = ev.client
    · rw [hc', hself]
      exact haccepted (hc' ▸ hc)
    · rw [hothers c hc']
      exact hs.accepted c ((hmem c hc').mp hc)

/-- **An event that stops the loop.**  The exception is that of `fold_left2`, and nothing can
be seen of the event. -/
theorem Standing.handle_error (hs : Standing now h own es s) {ev : ServerEvent}
    (hev : StopsLoop es ev) :
    ∃ s', Server.handle now h own ev s = .error (.invalidArgument "List.fold_left2") s' ∧
      ∀ c, observe s' c = observe s c := by
  rcases ev with ⟨client, b⟩ | ⟨client, e⟩
  · exact hev.elim
  · cases e with
    | headersComplete =>
      obtain ⟨hmem, hne⟩ := hev
      obtain ⟨a, ha⟩ : ∃ a, s.callbacks client = some a := by
        have hview := hs.accepted client hmem
        rw [Server.view] at hview
        cases ha : s.callbacks client with
        | none =>
          rw [ha] at hview
          exact absurd rfl hview
        | some a => exact ⟨a, rfl⟩
      have hview : s.view client = some (s.connAt client a) := by
        rw [Server.view, ha]
        rfl
      obtain ⟨-, hfields, hvalues⟩ := hs.counted client _ hview
      have hraise : (s.connAt client a).step now h .headersComplete
          = .error (.invalidArgument "List.fold_left2") := by
        have hlengths : (s.connAt client a).fields.length ≠ (s.connAt client a).values.length := by
          rw [hfields, hvalues]
          exact hne
        rw [Conn.step, headersOf, foldLeft2_of_length_ne _ _ _ _ hlengths]
      have hrun := Server.handle_parserEvent hs.wellFormed now h own ha .headersComplete
      rw [hraise] at hrun
      obtain ⟨s', herror, htracks⟩ := hrun
      refine ⟨s', herror, observe_congr hs.wellFormed htracks.wellFormed (fun c => ?_)
        htracks.refused⟩
      by_cases hc : c = client
      · rw [hc, hview, Server.view, htracks.callbacks, ha, Option.map_some, htracks.mine]
      · exact htracks.others c hc
    | _ => exact hev.elim

end Step

/-! ## The run -/

theorem exists_standing_run (now : Tm) (h : Handler κ σ) (own : σ) {es : List ServerEvent}
    (hes : KeepsRunning es) :
    ∃ s, Server.run now h own es = .ok () s ∧ Standing now h own es s := by
  induction es using List.reverseRecOn with
  | nil => exact ⟨_, rfl, standing_fresh now h own⟩
  | append_singleton es ev ih =>
    obtain ⟨hpre, hev⟩ := (atEvery_concat_iff _ _ _).mp hes
    obtain ⟨s, hrun, hs⟩ := ih hpre
    obtain ⟨s', hstep, hs'⟩ := hs.handle_ok hev
    refine ⟨s', ?_, hs'⟩
    rw [Server.run] at hrun ⊢
    rw [EStateM.forM_concat, hrun]
    exact hstep

/-- A client of a run that keeps going, and the same client alone. -/
theorem observe_eq_alone (now : Tm) (h : Handler κ σ) (own : σ) {es : List ServerEvent}
    (hes : KeepsRunning es) (client : ClientT) :
    observe (Server.run now h own es).store client
      = observe (Server.run now h own (eventsOf client es)).store client := by
  obtain ⟨s, -, hs⟩ := exists_standing_run now h own hes
  have halone : ∀ c, ∃ v, alone now h own none (eventsOf c es) = .ok v := fun c => ⟨_, hs.alone c⟩
  have halone' : ∀ c, ∃ v, alone now h own none (eventsOf c (eventsOf client es)) = .ok v := by
    intro c
    by_cases hc : c = client
    · rw [hc, eventsOf_eventsOf]
      exact halone client
    · rw [eventsOf_eventsOf_of_ne hc]
      exact ⟨none, rfl⟩
  have hself : alone now h own none (eventsOf client (eventsOf client es))
      = .ok (s.view client) := by
    rw [eventsOf_eventsOf]
    exact hs.alone client
  rw [observe_run now h own es halone client (hs.alone client),
    observe_run now h own (eventsOf client es) halone' client hself, eventsOf_eventsOf]

/-- The first event that stops the loop is the last one. -/
theorem exists_stopped_run (now : Tm) (h : Handler κ σ) (own : σ) {pre : List ServerEvent}
    {ev : ServerEvent} (hpre : KeepsRunning pre) (hev : StopsLoop pre ev)
    (post : List ServerEvent) :
    ∃ s, Server.run now h own (pre ++ ev :: post) = .error (.invalidArgument "List.fold_left2") s ∧
      ∀ c, observe s c = observe (Server.run now h own (eventsOf c pre)).store c := by
  obtain ⟨s, hrun, hs⟩ := exists_standing_run now h own hpre
  obtain ⟨s', hstep, hsame⟩ := hs.handle_error hev
  refine ⟨s', ?_, fun c => ?_⟩
  · rw [Server.run] at hrun ⊢
    rw [EStateM.forM_append, hrun]
    exact EStateM.bind_error hstep
  · rw [hsame, ← observe_eq_alone now h own hpre, hrun]
    rfl

/-- A run that returns was not stopped. -/
theorem keepsRunning_of_run {now : Tm} {h : Handler κ σ} {own : σ} {es : List ServerEvent}
    {s : Server κ σ} (hs : Server.run now h own es = .ok () s) : KeepsRunning es := by
  by_contra hes
  obtain ⟨pre, ev, post, rfl, hpre, hev⟩ := exists_first_of_not_atEvery hes
  obtain ⟨s', hs', -⟩ := exists_stopped_run now h own hpre (not_not.mp hev) post
  rw [hs] at hs'
  cases hs'
