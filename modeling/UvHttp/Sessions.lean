/-
# Sessions

What a handler does on one connection, message by message instead of event by event:
its request callback, the `onData` in force for every string of the body, the `onEnd` in
force at the end.  The code, which sees one parser event at a time, does just that for
any sequence of messages that come unfragmented, the URL in one event and each name and
each value in one; and what it has done at any moment is the beginning of what it will
have done.
-/
import UvHttp.OneMessage

variable {κ σ : Type}

/-! ## The big steps -/

namespace Progress

variable (now : Tm) (h : Handler κ σ)

/-- A sequence of messages, after earlier pairs of names and values. -/
def session : List (OString × OString) → Progress κ σ → List Message → Progress κ σ
  | _, p, [] => p
  | history, p, m :: ms =>
    session (history ++ (m.headers ++ m.trailers)) (p.message now h (assembled history m) m.body) ms

end Progress

theorem exists_run_session (now : Tm) (h : Handler κ σ) {s : Conn κ σ}
    {history : List (OString × OString)} {p : Progress κ σ} (hs : s.Stands history p)
    (ms : List Message) :
    ∃ s' : Conn κ σ, s.run now h (ms.flatMap Message.events) = (s', none) ∧
      s'.progress = p.session now h history ms := by
  induction ms generalizing s history p with
  | nil => exact ⟨s, rfl, hs.progress⟩
  | cons m ms ih =>
    obtain ⟨s₁, hrun₁, hs₁⟩ := exists_run_bigStep now h hs m (ms.flatMap Message.events)
    obtain ⟨s₂, hrun₂, hs₂⟩ := ih hs₁
    exact ⟨s₂, hrun₁.trans hrun₂, hs₂⟩

/-- The operations of a session. -/
def sessionOps (now : Tm) (h : Handler κ σ) (client : ClientT) (own : σ) (ms : List Message) :
    List (Op κ) := ((Progress.start client own).session now h [] ms).ops

/-- The connection after a session. -/
theorem exists_serve_session (now : Tm) (h : Handler κ σ) (client : ClientT) (own : σ)
    (ms : List Message) :
    ∃ s : Conn κ σ, serve now h client own (ms.flatMap Message.events) = (s, none) ∧
      s.progress = (Progress.start client own).session now h [] ms ∧
      callsIn s.log = callsOf now (initialRes client) (sessionOps now h client own ms) := by
  obtain ⟨s, hrun, hs⟩ := exists_run_session now h (accept_stands client own) ms
  have hcalls :=
    callsIn_eq_callsOf (serve_recorded now h client own (ms.flatMap Message.events)).log
  have hserve : serve now h client own (ms.flatMap Message.events) = (s, none) := by
    rw [serve_eq_run, hrun]
  rw [hserve] at hcalls
  refine ⟨s, hserve, hs, ?_⟩
  rw [hcalls, sessionOps, ← hs]
  rfl

/-- **The code serves a session message by message.**  For every handler and every
sequence of unfragmented messages no exception is raised, the response and the handler's
state are those of the big steps, and the calls into libuv are those of their
operations. -/
theorem serve_session (now : Tm) (h : Handler κ σ) (client : ClientT) (own : σ)
    (ms : List Message) :
    (serve now h client own (ms.flatMap Message.events)).2 = none ∧
    (serve now h client own (ms.flatMap Message.events)).1.progress
      = (Progress.start client own).session now h [] ms ∧
    callsIn (serve now h client own (ms.flatMap Message.events)).1.log
      = callsOf now (initialRes client) (sessionOps now h client own ms) := by
  obtain ⟨s, hserve, hprogress, hcalls⟩ := exists_serve_session now h client own ms
  rw [hserve]
  exact ⟨rfl, hprogress, hcalls⟩

/-! ## At any moment -/

/-- The record only grows. -/
theorem log_prefix_run (now : Tm) (h : Handler κ σ) (s : Conn κ σ) (es : List Event) :
    s.log <+: (s.run now h es).1.log := by
  refine Conn.run_induction now h (P := fun s' => s.log <+: s'.log) ?_ s List.prefix_rfl es
  intro s₁ e s₂ hs₁ hstep
  rcases Conn.step_cases hstep with ⟨_, _, _, rfl⟩ | ⟨_, -, -, rfl⟩ | ⟨_, -, rfl⟩ | ⟨-, rfl⟩
  · exact hs₁
  · exact hs₁.trans (List.prefix_append _ _)
  · exact hs₁.trans (List.prefix_append _ _)
  · exact hs₁.trans (List.prefix_append _ _)

theorem callsIn_prefix {l l' : List (Entry κ)} (h : l <+: l') : callsIn l <+: callsIn l' := by
  obtain ⟨t, rfl⟩ := h
  rw [callsIn_append]
  exact List.prefix_append _ _

/-- Part of a run that does not raise: it does not raise either, and has made part of the
calls. -/
theorem run_of_prefix (now : Tm) (h : Handler κ σ) {s : Conn κ σ} {pre es : List Event}
    (hpre : pre <+: es) (hnone : (s.run now h es).2 = none) :
    (s.run now h pre).2 = none ∧
      callsIn (s.run now h pre).1.log <+: callsIn (s.run now h es).1.log := by
  obtain ⟨rest, rfl⟩ := hpre
  rw [run_append] at hnone ⊢
  rcases hrun : s.run now h pre with ⟨s', _ | x⟩
  · exact ⟨rfl, callsIn_prefix (log_prefix_run now h s' rest)⟩
  · rw [hrun] at hnone
    cases hnone
