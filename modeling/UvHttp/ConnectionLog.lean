/-
# The record of a connection

One record of a response lives as long as its connection.  So what the callbacks
are given, and the calls they make, is a function of the operations recorded
before: replaying these from the initial response gives the response at every
entry.  The results on single responses are drawn from this one invariant.
-/
import UvHttp.Connection
import UvHttp.History

variable {κ σ : Type}

/-! ## Reading the record -/

/-- The operations in a record. -/
def opsOf (log : List (Entry κ)) : List (Op κ) :=
  log.filterMap fun
    | .did o _ => some o
    | _ => none

/-- The calls in a record. -/
def callsIn (log : List (Entry κ)) : List UvCall :=
  log.flatMap fun
    | .did _ calls => calls
    | _ => []

/-- The requests that the handler was called with. -/
def requestsSeen (log : List (Entry κ)) : List ReqT :=
  log.filterMap fun
    | .request req _ => some req
    | _ => none

/-- The strings that were handed to `onData`. -/
def dataSeen (log : List (Entry κ)) : List OString :=
  log.filterMap fun
    | .data _ body => some body
    | _ => none

/-- The operations of two records. -/
@[simp] theorem opsOf_append (l m : List (Entry κ)) : opsOf (l ++ m) = opsOf l ++ opsOf m :=
  List.filterMap_append

/-- The calls of two records. -/
@[simp] theorem callsIn_append (l m : List (Entry κ)) :
    callsIn (l ++ m) = callsIn l ++ callsIn m := List.flatMap_append

/-- The requests of two records. -/
theorem requestsSeen_append (l m : List (Entry κ)) :
    requestsSeen (l ++ m) = requestsSeen l ++ requestsSeen m := List.filterMap_append

/-- The data of two records. -/
theorem dataSeen_append (l m : List (Entry κ)) :
    dataSeen (l ++ m) = dataSeen l ++ dataSeen m := List.filterMap_append

@[simp] theorem opsOf_did (o : Op κ) (calls : List UvCall) : opsOf [.did o calls] = [o] := rfl

/-- An entry that is an application of a callback. -/
def Entry.isCall : Entry κ → Bool
  | .did _ _ => false
  | _ => true

/-- An application is no operation. -/
theorem opsOf_call {a : Entry κ} (ha : a.isCall = true) : opsOf [a] = [] := by
  cases a <;> first | rfl | cases ha

/-! ## Replaying the operations -/

/-- What an entry says about the response at its time: a callback is given the
record, or taken from it, and an operation makes its calls. -/
def Entry.Fits (now : Tm) (res : ResT κ) : Entry κ → Prop
  | .request _ r => r = res
  | .data cb _ => cb = res.onData
  | .finish cb => cb = res.onEnd
  | .did o calls => calls = (applyOp now res o).2

/-- Every entry fits the response that the operations before it make of the
initial one. -/
def Replays (now : Tm) (client : ClientT) (log : List (Entry κ)) : Prop :=
  AtEvery (fun pre a => a.Fits now (afterOps now (initialRes client) (opsOf pre))) log

/-- The invariant of a connection. -/
structure Conn.Recorded (now : Tm) (client : ClientT) (s : Conn κ σ) : Prop where
  res : s.res = afterOps now (initialRes client) (opsOf s.log)
  log : Replays now client s.log

namespace Conn

variable {now : Tm} {client : ClientT}

/-- The record of a new connection is empty. -/
theorem accept_recorded (own : σ) : (accept client own : Conn κ σ).Recorded now client :=
  ⟨rfl, atEvery_nil _⟩

/-- Operations keep the record in step with the response. -/
theorem didLog_recorded {log : List (Entry κ)} {res : ResT κ}
    (hres : res = afterOps now (initialRes client) (opsOf log)) (hlog : Replays now client log)
    (ops : List (Op κ)) :
    afterOps now res ops
        = afterOps now (initialRes client) (opsOf (log ++ didLog now res ops)) ∧
      Replays now client (log ++ didLog now res ops) := by
  induction ops generalizing log res with
  | nil =>
    rw [didLog, List.append_nil]
    exact ⟨hres, hlog⟩
  | cons o ops ih =>
    have hlog' : Replays now client (log ++ [.did o (applyOp now res o).2]) := by
      refine (atEvery_concat_iff _ _ _).mpr ⟨hlog, ?_⟩
      show (applyOp now res o).2 = _
      rw [hres]
    have hres' : (applyOp now res o).1
        = afterOps now (initialRes client) (opsOf (log ++ [.did o (applyOp now res o).2])) := by
      rw [opsOf_append, opsOf_did, afterOps_append, ← hres]
      rfl
    have := ih hres' hlog'
    rw [List.append_assoc] at this
    exact this

/-- A callback that fits the response, and its operations, keep the invariant. -/
theorem act_recorded {s : Conn κ σ} (hs : s.Recorded now client) {a : Entry κ}
    (hcall : a.isCall = true) (hfits : a.Fits now s.res) (script : List (Op κ) × σ) :
    (s.act now a script).Recorded now client := by
  -- first the entry of the callback, then those of its operations
  have hlog : Replays now client (s.log ++ [a]) := by
    refine (atEvery_concat_iff _ _ _).mpr ⟨hs.log, ?_⟩
    rw [← hs.res]
    exact hfits
  have hres : s.res = afterOps now (initialRes client) (opsOf (s.log ++ [a])) := by
    rw [opsOf_append, opsOf_call hcall, List.append_nil]
    exact hs.res
  obtain ⟨hres', hlog'⟩ := didLog_recorded hres hlog script.1
  rw [List.append_assoc] at hres' hlog'
  exact ⟨hres', hlog'⟩

/-- One step keeps the invariant. -/
theorem step_recorded {h : Handler κ σ} {s s' : Conn κ σ} {e : Event}
    (hs : s.Recorded now client) (hstep : s.step now h e = .ok s') :
    s'.Recorded now client := by
  rcases step_cases hstep with ⟨_, _, _, rfl⟩ | ⟨_, rfl, -, rfl⟩ | ⟨_, rfl, rfl⟩ | ⟨rfl, rfl⟩
  · exact ⟨hs.res, hs.log⟩
  · apply act_recorded hs <;> rfl
  · apply act_recorded hs <;> rfl
  · apply act_recorded hs <;> rfl

/-- So every run does. -/
theorem run_recorded (h : Handler κ σ) {s : Conn κ σ} (hs : s.Recorded now client)
    (es : List Event) : (s.run now h es).1.Recorded now client :=
  run_induction now h (fun _ _ _ => step_recorded) s hs es

end Conn

/-- **The record of a connection replays**, for every handler and all events. -/
theorem serve_recorded (now : Tm) (h : Handler κ σ) (client : ClientT) (own : σ)
    (es : List Event) : (serve now h client own es).1.Recorded now client := by
  rw [serve_eq_run]
  exact Conn.run_recorded h (Conn.accept_recorded own) es

/-- The calls of a record that replays are those of its operations. -/
theorem callsIn_eq_callsOf {now : Tm} {client : ClientT} {log : List (Entry κ)}
    (hlog : Replays now client log) :
    callsIn log = callsOf now (initialRes client) (opsOf log) := by
  induction log using List.reverseRecOn with
  | nil => rfl
  | append_singleton log a ih =>
    obtain ⟨hpre, hfits⟩ := (atEvery_concat_iff _ _ _).mp hlog
    rw [callsIn_append, ih hpre, opsOf_append, callsOf_append]
    cases a with
    | did o calls =>
      have hcalls : calls = (applyOp now _ o).2 := hfits
      rw [hcalls]
      simp [callsIn]
    | request req res => rfl
    | data cb b => rfl
    | finish cb => rfl
