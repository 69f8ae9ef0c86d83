/-
# The response of a later request

`createServer` makes one response record for a connection and gives it to every
call of the handler.  So the record of the `k`-th call is the initial one exactly
when the handler has undone, field by field, whatever it did to it before.
-/
import UvHttp.ConnectionLog
import UvHttp.ResponseFields

variable {κ σ : Type}

/-! ## Restoring a response -/

/-- Field by field, the last value that the operations assign is the initial one, or
they assign none. -/
structure Restores (ops : List (Op κ)) : Prop where
  statusCode : lastValue Op.assignsStatusCode 200 ops = 200
  contentType : lastValue Op.assignsContentType (lit "text/plain") ops = lit "text/plain"
  wroteHeaders : lastValue Op.assignsWroteHeaders false ops = false
  onData : lastValue Op.assignsOnData .noop ops = .noop
  onEnd : lastValue Op.assignsOnEnd .noop ops = .noop
  headers : ∀ k, lastValue (Op.assignsHeader k) (initialRes (κ := κ) 0).headers[k]? ops
    = (initialRes (κ := κ) 0).headers[k]?

/-- Operations that restore every field are those that give the initial response
again. -/
theorem afterOps_eq_initialRes_iff (now : Tm) (client : ClientT) (ops : List (Op κ)) :
    afterOps now (initialRes client) ops = initialRes client ↔ Restores ops := by
  constructor
  · intro h
    constructor
    · exact (statusCode_afterOps now (initialRes client) ops).symm.trans (by rw [h]; rfl)
    · exact (contentType_afterOps now (initialRes client) ops).symm.trans (by rw [h]; rfl)
    · exact (wroteHeaders_afterOps now (initialRes client) ops).symm.trans (by rw [h]; rfl)
    · exact (onData_afterOps now (initialRes client) ops).symm.trans (by rw [h]; rfl)
    · exact (onEnd_afterOps now (initialRes client) ops).symm.trans (by rw [h]; rfl)
    · intro k
      exact (header_afterOps now (initialRes client) ops k).symm.trans (by rw [h]; rfl)
  · intro h
    ext1
    · exact client_afterOps now _ ops
    · exact (statusCode_afterOps now _ ops).trans h.statusCode
    · exact (contentType_afterOps now _ ops).trans h.contentType
    · refine Std.ExtTreeMap.ext_getElem? fun k => ?_
      exact (header_afterOps now _ ops k).trans (h.headers k)
    · exact (wroteHeaders_afterOps now _ ops).trans h.wroteHeaders
    · exact (onData_afterOps now _ ops).trans h.onData
    · exact (onEnd_afterOps now _ ops).trans h.onEnd

/-! ## Isolation of responses -/

/-- The operations since the latest call of the handler with a request. -/
def opsSince (log : List (Entry κ)) : List (Op κ) :=
  log.foldl (fun ops a =>
    match a with
    | .request _ _ => []
    | .did o _ => ops ++ [o]
    | _ => ops) []

theorem opsSince_concat (log : List (Entry κ)) (a : Entry κ) :
    opsSince (log ++ [a]) = match a with
      | .request _ _ => []
      | .did o _ => opsSince log ++ [o]
      | _ => opsSince log := by
  rw [opsSince, List.foldl_append]
  rfl

/-- Every call of the handler gets the initial response; the first write after it
carries the head of a response that has only seen the operations since; and a
closure that gets body data, or is run at the end of a message, was registered
since. -/
structure ResponsesIsolated (now : Tm) (client : ClientT) (log : List (Entry κ)) : Prop where
  fresh : AtEvery (fun _ a => ∀ req res, a = .request req res → res = initialRes client) log
  ownHead : AtEvery (fun pre a => ∀ o calls msg, a = .did o calls → o.message = some msg →
    (∀ o' ∈ opsSince pre, o'.assignsWroteHeaders = none) →
    ∃ rest, written calls = [head now (afterOps now (initialRes client) (opsSince pre)) ++ rest])
    log
  ownCallbacks : AtEvery (fun pre a => ∀ k,
    (∀ b, a = .data (.closure k) b → .on .Data (.closure k) ∈ opsSince pre) ∧
    (a = .finish (.closure k) → .on .End (.closure k) ∈ opsSince pre)) log

/-- At every call of the handler with a request, the operations so far restore the
response. -/
def RestoredAtRequests (log : List (Entry κ)) : Prop :=
  AtEvery (fun pre a => ∀ req res, a = .request req res → Restores (opsOf pre)) log

section Isolation

variable {now : Tm} {client : ClientT} {log : List (Entry κ)}

/-- Where every request finds the response restored, only the operations since the
latest request count. -/
theorem afterOps_opsSince (hlog : RestoredAtRequests log) :
    afterOps now (initialRes client) (opsOf log)
      = afterOps now (initialRes client) (opsSince log) := by
  induction log using List.reverseRecOn with
  | nil => rfl
  | append_singleton log a ih =>
    obtain ⟨hpre, ha⟩ := (atEvery_concat_iff _ _ _).mp hlog
    rw [opsSince_concat, opsOf_append]
    cases a with
    | request req res =>
      -- the count starts again here, and so does the response
      rw [opsOf_call rfl, List.append_nil]
      exact (afterOps_eq_initialRes_iff now client _).mpr (ha req res rfl)
    | data cb b => rw [opsOf_call rfl, List.append_nil, ih hpre]
    | finish cb => rw [opsOf_call rfl, List.append_nil, ih hpre]
    | did o calls => rw [opsOf_did, afterOps_append, ih hpre, afterOps_append]

/-- The two invariants, at one entry. -/
theorem fits_of_restored (hreplays : Replays now client log) (hlog : RestoredAtRequests log) :
    AtEvery (fun pre a => a.Fits now (afterOps now (initialRes client) (opsSince pre))) log := by
  intro pre a post hsplit
  have hpre : RestoredAtRequests pre := AtEvery.of_append (hsplit ▸ hlog)
  rw [← afterOps_opsSince hpre]
  exact hreplays pre a post hsplit

theorem ownHead_of_restored (hreplays : Replays now client log) (hlog : RestoredAtRequests log) :
    AtEvery (fun pre a => ∀ o calls msg, a = .did o calls → o.message = some msg →
      (∀ o' ∈ opsSince pre, o'.assignsWroteHeaders = none) →
      ∃ rest, written calls
        = [head now (afterOps now (initialRes client) (opsSince pre)) ++ rest]) log := by
  refine (fits_of_restored hreplays hlog).imp ?_
  rintro pre a hfits o calls msg rfl hmsg hnone
  set res := afterOps now (initialRes client) (opsSince pre) with hres
  have hcalls : calls = (applyOp now res o).2 := hfits
  have hunwritten : res.wroteHeaders = false := by
    rw [hres, wroteHeaders_afterOps]
    exact lastValue_of_forall_eq_none hnone
  have hhead : headerStr now res = head now res := by
    rw [headerStr, hunwritten]
    rfl
  rw [hcalls, (applyOp_of_message now res hmsg).2, hhead, chunkedMsg]
  by_cases hchunked : isChunked res
  · exact ⟨chunk msg, by rw [if_pos hchunked]⟩
  · exact ⟨msg, by rw [if_neg hchunked]⟩

theorem ownCallbacks_of_restored (hreplays : Replays now client log)
    (hlog : RestoredAtRequests log) :
    AtEvery (fun pre a => ∀ k,
      (∀ b, a = .data (.closure k) b → .on .Data (.closure k) ∈ opsSince pre) ∧
      (a = .finish (.closure k) → .on .End (.closure k) ∈ opsSince pre)) log := by
  refine (fits_of_restored hreplays hlog).imp ?_
  intro pre a hfits k
  constructor
  · rintro b rfl
    have hk : lastValue Op.assignsOnData .noop (opsSince pre) = .closure k :=
      (onData_afterOps now (initialRes client) (opsSince pre)).symm.trans hfits.symm
    obtain ⟨o, ho, hassigns⟩ := exists_assigns_of_lastValue_ne (by rw [hk]; exact nofun)
    rw [hk] at hassigns
    -- only `on` with `Data` assigns the field
    rcases o with _ | _ | _ | ⟨_ | _, cb⟩ | _ | _ | _ | _ <;> cases hassigns
    exact ho
  · rintro rfl
    have hk : lastValue Op.assignsOnEnd .noop (opsSince pre) = .closure k :=
      (onEnd_afterOps now (initialRes client) (opsSince pre)).symm.trans hfits.symm
    obtain ⟨o, ho, hassigns⟩ := exists_assigns_of_lastValue_ne (by rw [hk]; exact nofun)
    rw [hk] at hassigns
    rcases o with _ | _ | _ | ⟨_ | _, cb⟩ | _ | _ | _ | _ <;> cases hassigns
    exact ho

end Isolation

/-- **Responses are isolated exactly when the handler undoes itself**: at every
request of a connection, the operations so far have given every field its initial
value back.  Nothing in `createServer` does that. -/
theorem responsesIsolated_iff (now : Tm) (h : Handler κ σ) (client : ClientT) (own : σ)
    (es : List Event) :
    ResponsesIsolated now client (serve now h client own es).1.log ↔
      RestoredAtRequests (serve now h client own es).1.log := by
  have hreplays := (serve_recorded now h client own es).log
  constructor
  · intro hiso
    refine (hreplays.and hiso.fresh).imp ?_
    rintro pre a ⟨hfits, hfresh⟩ req res rfl
    have hres : res = afterOps now (initialRes client) (opsOf pre) := hfits
    rw [← afterOps_eq_initialRes_iff now client, ← hres]
    exact hfresh req res rfl
  · intro hrestored
    -- the record at a request is the replay of operations that restore it
    refine ⟨?_, ownHead_of_restored hreplays hrestored,
      ownCallbacks_of_restored hreplays hrestored⟩
    refine (hreplays.and hrestored).imp ?_
    rintro pre a ⟨hfits, hrestores⟩ req res rfl
    have hres : res = afterOps now (initialRes client) (opsOf pre) := hfits
    rw [hres, afterOps_eq_initialRes_iff]
    exact hrestores req res rfl

/-- The responses that the handler was called with. -/
def responsesGiven (log : List (Entry κ)) : List (ResT κ) :=
  log.filterMap fun
    | .request _ res => some res
    | _ => none

theorem ResponsesIsolated.eq_initialRes {now : Tm} {client : ClientT} {log : List (Entry κ)}
    (hiso : ResponsesIsolated now client log) {res : ResT κ} (hres : res ∈ responsesGiven log) :
    res = initialRes client := by
  obtain ⟨a, ha, hgiven⟩ := List.mem_filterMap.mp hres
  obtain ⟨pre, post, hsplit⟩ := List.append_of_mem ha
  cases a with
  | request req res' =>
    cases hgiven
    exact hiso.fresh pre _ post hsplit req res rfl
  | _ => cases hgiven

/-- The example server's second request gets a response that has been written to. -/
theorem not_responsesIsolated_twoRequests :
    ¬ ResponsesIsolated epoch 0 (serve epoch exampleServer 0 () twoRequests).1.log := by
  intro hiso
  have hsecond : (responsesGiven (serve epoch exampleServer 0 () twoRequests).1.log).map
      ResT.wroteHeaders = [false, true] := by
    rw [serve_eq_run]
    decide +kernel
  have hfresh : ∀ b ∈ (responsesGiven (serve epoch exampleServer 0 () twoRequests).1.log).map
      ResT.wroteHeaders, b = false := by
    intro b hb
    obtain ⟨res, hres, rfl⟩ := List.mem_map.mp hb
    rw [hiso.eq_initialRes hres]
    rfl
  rw [hsecond] at hfresh
  exact absurd (hfresh true (by simp)) (by decide)
