/-
# The end of a response

`endConnection` writes an empty message and shuts the client down.  Nothing records
that it was called, so the callbacks of a connection can go on writing and can
end the response again.
-/
import UvHttp.ConnectionLog

variable {κ σ : Type}

/-! ## What operations put on the wire -/

/-- The operation ends the response. -/
def Op.isEnd : Op κ → Bool
  | .endConnection => true
  | _ => false

/-- A chunk is not empty. -/
theorem chunk_ne_nil (msg : OString) : chunk msg ≠ [] := by
  intro h
  have := congrArg List.length h
  rw [chunk, List.length_append] at this
  have hcrlf : crlf.length = 2 := rfl
  rw [hcrlf, List.length_nil] at this
  omega

/-- The string of a message is empty for an empty message only, and for that when
it is sent without framing and without the head. -/
theorem chunkedMsg_eq_nil_iff (now : Tm) (res : ResT κ) (msg : OString) :
    chunkedMsg res (headerStr now res) msg = [] ↔
      msg = [] ∧ isChunked res = false ∧ res.wroteHeaders = true := by
  have hhead : head now res ≠ [] := by simp [head]
  unfold chunkedMsg headerStr
  cases isChunked res <;> cases res.wroteHeaders <;> simp [chunk_ne_nil, hhead]

section Calls

variable (now : Tm) {res : ResT κ} {ops : List (Op κ)}

/-- An operation shuts down exactly when it is `endConnection`. -/
theorem count_shutdown_applyOp (res : ResT κ) (o : Op κ) :
    (applyOp now res o).2.count .uvShutdown = if o.isEnd then 1 else 0 := by
  cases o with
  | write msg => rw [applyOp, write_eq]; rfl
  | endConnection => rw [applyOp, endConnection_eq]; rfl
  | _ => rfl

/-- There is a shutdown for every end. -/
theorem count_shutdown_callsOf (res : ResT κ) (ops : List (Op κ)) :
    (callsOf now res ops).count .uvShutdown = ops.countP Op.isEnd := by
  induction ops generalizing res with
  | nil => rfl
  | cons o ops ih =>
    rw [callsOf_cons, List.count_append, count_shutdown_applyOp, ih, List.countP_cons]
    omega

/-- There is a shutdown when there is an end. -/
theorem shutdown_mem_callsOf_iff (res : ResT κ) (ops : List (Op κ)) :
    UvCall.uvShutdown ∈ callsOf now res ops ↔ .endConnection ∈ ops := by
  rw [← List.count_pos_iff, count_shutdown_callsOf, List.countP_pos_iff]
  constructor
  · rintro ⟨o, ho, hend⟩
    cases o with
    | endConnection => exact ho
    | _ => cases hend
  · intro hmem
    exact ⟨_, hmem, rfl⟩

/-- What is called after a shutdown belongs to operations after an `endConnection`. -/
theorem exists_of_callsOf_eq_append {pre post : List UvCall}
    (hcalls : callsOf now res ops = pre ++ .uvShutdown :: post) :
    ∃ before after, ops = before ++ .endConnection :: after ∧
      post = callsOf now (afterOps now res (before ++ [.endConnection])) after := by
  induction ops generalizing res pre with
  | nil =>
    cases pre <;> cases hcalls
  | cons o ops ih =>
    -- either the shutdown is the one of `o`, or it comes later
    have hlater : ∀ pre' : List UvCall, callsOf now (applyOp now res o).1 ops
          = pre' ++ .uvShutdown :: post →
        ∃ before after, o :: ops = before ++ .endConnection :: after ∧
          post = callsOf now (afterOps now res (before ++ [.endConnection])) after := by
      intro pre' hpre'
      obtain ⟨before, after, rfl, hpost⟩ := ih hpre'
      exact ⟨o :: before, after, rfl, hpost⟩
    cases o with
    | endConnection =>
      rw [callsOf_cons, applyOp, endConnection_eq] at hcalls
      rcases pre with _ | ⟨_, _ | ⟨_, pre⟩⟩
      · cases hcalls
      · refine ⟨[], ops, rfl, ?_⟩
        rw [List.nil_append, afterOps_cons, applyOp, endConnection_eq]
        cases hcalls
        rfl
      · refine hlater pre ?_
        rw [applyOp, endConnection_eq]
        injection hcalls with _ hcalls
        injection hcalls
    | write msg =>
      rw [callsOf_cons, applyOp, write_eq] at hcalls
      rcases pre with _ | ⟨_, pre⟩
      · cases hcalls
      · refine hlater pre ?_
        rw [applyOp, write_eq]
        injection hcalls
    | _ => exact hlater pre hcalls

/-- Every string that is written is the string of one operation. -/
theorem exists_of_mem_written_callsOf {s : OString} (hs : s ∈ written (callsOf now res ops)) :
    ∃ before o after msg, ops = before ++ o :: after ∧ o.message = some msg ∧
      s = chunkedMsg (afterOps now res before) (headerStr now (afterOps now res before)) msg := by
  induction ops generalizing res with
  | nil => cases hs
  | cons o ops ih =>
    rw [callsOf_cons, written_append, List.mem_append] at hs
    rcases hs with hs | hs
    · cases hmsg : o.message with
      | none =>
        rw [calls_of_message_eq_none now res hmsg] at hs
        cases hs
      | some msg =>
        rw [(applyOp_of_message now res hmsg).2, List.mem_singleton] at hs
        exact ⟨[], o, ops, msg, rfl, hmsg, hs⟩
    · obtain ⟨before, o', after, msg, rfl, hmsg, hs⟩ := ih hs
      exact ⟨o :: before, o', after, msg, rfl, hmsg, hs⟩

end Calls

/-! ## Zero-size chunks -/

/-- The entry sends an empty message as a chunk. -/
def Entry.terminates : Entry κ → Bool
  | .did o calls => o.message = some [] ∧ ∃ s ∈ written calls, chunk [] <:+ s
  | _ => false

/-- How many zero-size chunks were sent. -/
def terminators (log : List (Entry κ)) : ℕ := log.countP Entry.terminates

/-- How many empty messages meet a response that frames them. -/
def emptyChunks (now : Tm) : ResT κ → List (Op κ) → ℕ
  | _, [] => 0
  | res, o :: ops =>
    (if o.message = some [] ∧ isChunked res then 1 else 0)
      + emptyChunks now (applyOp now res o).1 ops

/-- The empty chunks of two lists of operations. -/
theorem emptyChunks_append (now : Tm) (res : ResT κ) (ops ops' : List (Op κ)) :
    emptyChunks now res (ops ++ ops')
      = emptyChunks now res ops + emptyChunks now (afterOps now res ops) ops' := by
  induction ops generalizing res with
  | nil => simp [emptyChunks]
  | cons o ops ih =>
    rw [List.cons_append, emptyChunks, emptyChunks, ih, afterOps_cons]
    omega

/-- An empty message ends a chunked response. -/
theorem terminates_did_iff (now : Tm) (res : ResT κ) (o : Op κ) :
    (Entry.did o (applyOp now res o).2).terminates = true ↔
      o.message = some [] ∧ isChunked res = true := by
  rw [Entry.terminates, decide_eq_true_iff]
  refine and_congr_right fun hmsg => ?_
  rw [(applyOp_of_message now res hmsg).2, ← chunk_suffix_chunkedMsg_iff now res []]
  simp

/-- The terminators in a record are the empty chunks of its operations. -/
theorem terminators_eq_emptyChunks {now : Tm} {client : ClientT} {log : List (Entry κ)}
    (hlog : Replays now client log) :
    terminators log = emptyChunks now (initialRes client) (opsOf log) := by
  induction log using List.reverseRecOn with
  | nil => rfl
  | append_singleton log a ih =>
    obtain ⟨hpre, hfits⟩ := (atEvery_concat_iff _ _ _).mp hlog
    rw [terminators, List.countP_append, ← terminators, ih hpre, opsOf_append,
      emptyChunks_append]
    cases a with
    | did o calls =>
      have hcalls : calls = (applyOp now _ o).2 := hfits
      rw [hcalls, List.countP_singleton, opsOf_did, emptyChunks, emptyChunks]
      simp only [terminates_did_iff, Nat.add_zero]
    | _ => rfl

/-! ## Ending once -/

/-- The end of a response is final: one shutdown at most, no byte after it, and one
zero-size chunk at most. -/
structure EndIsFinal (log : List (Entry κ)) : Prop where
  shutdown : (callsIn log).count .uvShutdown ≤ 1
  silent : ∀ pre post, callsIn log = pre ++ .uvShutdown :: post → ∀ s ∈ written post, s = []
  terminator : terminators log ≤ 1

/-- The operations end the response once at most; the messages after that are empty
and sent as they are, without framing and without the head; and one empty message
at most is sent while the response is chunked. -/
structure EndedOnce (now : Tm) (res : ResT κ) (ops : List (Op κ)) : Prop where
  once : ops.countP Op.isEnd ≤ 1
  after : AtEvery (fun pre o => .endConnection ∈ pre → ∀ msg, o.message = some msg →
    msg = [] ∧ isChunked (afterOps now res pre) = false ∧
      (afterOps now res pre).wroteHeaders = true) ops
  emptyChunk : emptyChunks now res ops ≤ 1

/-- Behind a shutdown only empty strings are written exactly when the messages after an end are
empty and sent as they are. -/
theorem silent_iff (now : Tm) (res : ResT κ) (ops : List (Op κ)) :
    (∀ pre post, callsOf now res ops = pre ++ .uvShutdown :: post →
        ∀ s ∈ written post, s = []) ↔
      AtEvery (fun pre o => .endConnection ∈ pre → ∀ msg, o.message = some msg →
        msg = [] ∧ isChunked (afterOps now res pre) = false ∧
          (afterOps now res pre).wroteHeaders = true) ops := by
  constructor
  · rintro hsilent pre o post rfl hend msg hmsg
    -- the `endConnection` before `o` has shut down, and the string of `o` comes later
    obtain ⟨cpre, cpost, hsplit⟩ :=
      List.append_of_mem ((shutdown_mem_callsOf_iff now res pre).mpr hend)
    rw [← chunkedMsg_eq_nil_iff now]
    apply hsilent cpre (cpost ++ callsOf now (afterOps now res pre) (o :: post))
    · rw [callsOf_append, hsplit, List.append_assoc, List.cons_append]
    · rw [written_append, callsOf_cons, written_append, (applyOp_of_message now _ hmsg).2]
      simp
  · intro hafter pre post hsplit s hs
    -- a string after a shutdown is that of an operation after an `endConnection`
    obtain ⟨before, after, rfl, rfl⟩ := exists_of_callsOf_eq_append now hsplit
    obtain ⟨mid, o, rest, msg, rfl, hmsg, rfl⟩ := exists_of_mem_written_callsOf now hs
    rw [chunkedMsg_eq_nil_iff, ← afterOps_append]
    exact hafter (before ++ [.endConnection] ++ mid) o rest (by simp) (by simp) msg hmsg

/-- **The end is final exactly when the callbacks end the response once** and are
quiet from then on, for every handler and all events of a connection. -/
theorem endIsFinal_iff (now : Tm) (h : Handler κ σ) (client : ClientT) (own : σ)
    (es : List Event) :
    EndIsFinal (serve now h client own es).1.log ↔
      EndedOnce now (initialRes client) (opsOf (serve now h client own es).1.log) := by
  have hreplays := (serve_recorded now h client own es).log
  have hcalls := callsIn_eq_callsOf hreplays
  constructor
  · rintro ⟨hshutdown, hsilent, hterminator⟩
    refine ⟨?_, ?_, ?_⟩
    · rw [hcalls, count_shutdown_callsOf] at hshutdown
      exact hshutdown
    · rw [hcalls, silent_iff] at hsilent
      exact hsilent
    · rw [terminators_eq_emptyChunks hreplays] at hterminator
      exact hterminator
  · rintro ⟨honce, hafter, hempty⟩
    refine ⟨?_, ?_, ?_⟩
    · rw [hcalls, count_shutdown_callsOf]
      exact honce
    · rw [hcalls, silent_iff]
      exact hafter
    · rw [terminators_eq_emptyChunks hreplays]
      exact hempty

/-- The example server shuts the client of two requests down twice. -/
theorem not_endIsFinal_twoRequests :
    ¬ EndIsFinal (serve epoch exampleServer 0 () twoRequests).1.log := by
  intro hfinal
  have htwice : (callsIn (serve epoch exampleServer 0 () twoRequests).1.log).count .uvShutdown
      = 2 := by
    rw [serve_eq_run]
    decide +kernel
  have := hfinal.shutdown
  omega
