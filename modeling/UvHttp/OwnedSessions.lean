/-
# Memory under the example programs

Whether ownership is in order depends, apart from the answers of libuv, on what OCaml
code does with a connection after it has shut it down.  A session of the static server
or of the example server that consists of one message shuts its connection down last, so
these programs own what they use.
-/
import UvHttp.ExamplePages
import UvHttp.Ownership
import UvHttp.StaticSessions

namespace Lifecycle

/-! ## Calls on a handle -/

/-- What OCaml code does with a handle it holds. -/
inductive HandleCall where
  | requestOn
  | write
  | shutdown
  deriving DecidableEq

/-- The call on a handle that an event is. -/
def callOn (h : ℕ) : Event → Option HandleCall
  | .requestOn h' => if h' = h then some .requestOn else none
  | .write h' _ => if h' = h then some .write else none
  | .shutdown h' _ => if h' = h then some .shutdown else none
  | _ => none

/-- The calls on a handle during a run. -/
def callsOn (h : ℕ) (es : List Event) : List HandleCall := es.filterMap (callOn h)

/-- Nothing is done with the handle after its shutdown. -/
def EndsLast (cs : List HandleCall) : Prop :=
  ∀ pre post, cs = pre ++ .shutdown :: post → post = []

/-- libuv answers with success. -/
def Event.Successful : Event → Prop
  | .connection _ _ accept _ => accept = 0
  | .write _ r => r = 0
  | .shutdown _ r => r = 0
  | .request _ r => r = 0
  | .connectDone _ status r _ => status = 0 ∧ r = 0
  | _ => True

instance : (e : Event) → Decidable e.Successful
  | .connection _ _ accept _ => inferInstanceAs (Decidable (accept = 0))
  | .write _ r => inferInstanceAs (Decidable (r = 0))
  | .shutdown _ r => inferInstanceAs (Decidable (r = 0))
  | .request _ r => inferInstanceAs (Decidable (r = 0))
  | .connectDone _ status r _ => inferInstanceAs (Decidable (status = 0 ∧ r = 0))
  | .createServer _ | .listen _ | .run _ | .requestOn _ | .read _ | .writeDone _ _
  | .shutdownDone _ _ _ | .closed _ => isTrue trivial

/-- Part of the calls. -/
theorem EndsLast.of_prefix {cs ds : List HandleCall} (h : EndsLast ds) (hpre : cs <+: ds) :
    EndsLast cs := by
  obtain ⟨rest, rfl⟩ := hpre
  rintro pre post rfl
  exact (List.append_eq_nil_iff.mp (h pre (post ++ rest) (by simp))).1

/-- The calls on a handle, with one more event. -/
theorem callsOn_concat (h : ℕ) (es : List Event) (e : Event) :
    callsOn h (es ++ [e]) = callsOn h es ++ (callOn h e).toList := by
  rw [callsOn, List.filterMap_append, List.filterMap_cons]
  cases callOn h e <;> rfl

/-- A call comes before the shutdown. -/
theorem EndsLast.shutdown_notMem {h : ℕ} {es : List Event} {e : Event} {c : HandleCall}
    (hends : EndsLast (callsOn h (es ++ [e]))) (hcall : callOn h e = some c) :
    .shutdown ∉ callsOn h es := by
  intro hmem
  obtain ⟨pre, post, hsplit⟩ := List.append_of_mem hmem
  rw [callsOn_concat, hcall, hsplit, List.append_assoc] at hends
  have := hends pre (post ++ [c]) rfl
  simp at this

/-! ## Shut handles -/

/-- Where libuv answers with success, the stubs shut no handle but on a call of OCaml code. -/
theorem noNewShut_exec {m : State} {e : Event} (hsucc : e.Successful)
    (hcall : ∀ h, callOn h e ≠ some .shutdown) : NoNewShut m.handles (exec m e).handles := by
  cases e with
  | shutdown h r => exact absurd (if_pos rfl) (hcall h)
  | createServer isNull => exact NoNewShut.alloc _ rfl
  | run isNull => exact NoNewShut.alloc _ rfl
  | listen server =>
    have hstored : NoNewShut m.handles (m.requestOn server).handles :=
      NoNewShut.modify _ server fun _ => rfl
    exact hstored.trans (NoNewShut.modify _ server fun _ => rfl)
  | connection server isNull accept shutdown =>
    have haccept : accept = 0 := hsucc
    rw [exec, haccept, connectionCb_of_accepted]
    exact NoNewShut.alloc ((m.handles.touch server).touch server) rfl
  | requestOn h => exact NoNewShut.modify _ h fun _ => rfl
  | write h r =>
    have hr : r = 0 := hsucc
    subst hr
    exact NoNewShut.of_blocks_eq rfl
  | read h => exact NoNewShut.of_blocks_eq rfl
  | request isNull r =>
    rw [exec, request_eq]
    exact NoNewShut.alloc _ rfl
  | connectDone c status r shutdown =>
    obtain ⟨hstatus, hr⟩ : status = 0 ∧ r = 0 := hsucc
    subst hstatus hr
    show NoNewShut m.handles ((m.taken (.connect c)).clientConnectCb c 0 0 shutdown).handles
    cases hreq : m.connects.blocks[c]? with
    | none =>
      rw [clientConnectCb_of_none (m := m.taken (.connect c)) hreq]
      exact NoNewShut.of_blocks_eq rfl
    | some req =>
      rw [clientConnectCb_of_made (m := m.taken (.connect c)) hreq]
      have hconnected : NoNewShut m.handles ((m.taken (.connect c)).setHandle req.handle
          fun t => { t with connected := true }).handles := NoNewShut.modify _ _ fun _ => rfl
      exact hconnected.trans (NoNewShut.of_blocks_eq rfl)
  | writeDone w status =>
    show NoNewShut m.handles ((m.taken (.write w)).writeCb w).handles
    unfold State.writeCb
    cases (m.taken (.write w)).writes.blocks[w]? with
    | none => exact NoNewShut.of_blocks_eq rfl
    | some req => exact NoNewShut.of_blocks_eq rfl
  | shutdownDone s h status =>
    show NoNewShut m.handles ((m.taken (.shutdown s h)).shutdownCb s).handles
    unfold State.shutdownCb
    cases (m.taken (.shutdown s h)).shutdowns.blocks[s]? with
    | none => exact NoNewShut.of_blocks_eq rfl
    | some req => exact NoNewShut.modify _ _ fun _ => rfl
  | closed h =>
    obtain ⟨roots, unregistered, heq⟩ := exists_closeCb_eq (m.taken (.close h)) h
    rw [exec, heq]
    exact NoNewShut.of_blocks_eq rfl

/-- Every handle that is shut was shut by OCaml code. -/
def ShutByCall (es : List Event) (m : State) : Prop :=
  ∀ (h : ℕ) (t : Tcp), m.tcp h = some t → t.shut = true → .shutdown ∈ callsOn h es

/-- **The step.** -/
theorem ShutByCall.exec {es : List Event} {m : State} (hm : ShutByCall es m) {e : Event}
    (hsucc : e.Successful) : ShutByCall (es ++ [e]) (exec m e) := by
  intro h t ht hshut
  rw [callsOn_concat]
  by_cases hcall : ∃ h', callOn h' e = some .shutdown
  · obtain ⟨h', hcall⟩ := hcall
    cases e with
    | shutdown h₀ r =>
      by_cases hh : h₀ = h
      · exact List.mem_append_right _ (by simp [callOn, hh])
      · -- another handle keeps its contents
        have hother : m.tcp h = some t := by
          rw [← ht]
          show _ = (m.uvShutdownOcaml h₀ r).tcp h
          rw [State.uvShutdownOcaml, uvShutdown_eq]
          split_ifs
          · exact ((tcp_setHandle _ h₀ h _).trans (if_neg hh)).symm
          · rfl
        exact List.mem_append_left _ (hm h t hother hshut)
    | requestOn h₀ => simp [callOn] at hcall
    | write h₀ r => simp [callOn] at hcall
    | _ => cases hcall
  · obtain ⟨u, hu, hushut⟩ := noNewShut_exec hsucc (fun h' hc => hcall ⟨h', hc⟩) h t ht hshut
    exact List.mem_append_left _ (hm h u hu hushut)

/-- The run. -/
theorem shutByCall_after {es : List Event} (hsucc : ∀ e ∈ es, e.Successful) :
    ShutByCall es (stubs.after State.init es) := by
  induction es using List.reverseRecOn with
  | nil =>
    intro h t ht
    cases ht
  | append_singleton es e ih =>
    rw [Machine.after_concat]
    exact (ih fun e' he' => hsucc e' (List.mem_append_left _ he')).exec
      (hsucc e (List.mem_append_right _ List.mem_cons_self))

/-! ## Runs -/

/-- One step after a run in which nothing was done after a shutdown. -/
theorem succeeds_step {es : List Event} {e : Event} (hes : stubs.Possible State.init es)
    (he : enabled (stubs.after State.init es) e = true) (hsucc : ∀ e' ∈ es ++ [e], e'.Successful)
    (hends : ∀ h, EndsLast (callsOn h (es ++ [e]))) : Succeeds (stubs.after State.init es) e := by
  have hok := handlesOk_after hes
  have hshutBy := shutByCall_after fun e' he' => hsucc e' (List.mem_append_left _ he')
  have hlast := hsucc e (List.mem_append_right _ List.mem_cons_self)
  have hopen : ∀ {h c}, callOn h e = some c → ∀ t, (stubs.after State.init es).tcp h = some t →
      t.shut = false := by
    intro h c hcall t ht
    refine Bool.eq_false_iff.mpr fun hshut => ?_
    exact (hends h).shutdown_notMem hcall (hshutBy h t ht hshut)
  have hkept : ∀ {h c}, callOn h e = some c → h ∉ (stubs.after State.init es).handles.released := by
    intro h c hcall hmem
    obtain ⟨t, ht, hshut⟩ := hok.shut h (List.mem_append_left _ hmem)
    rw [hopen hcall t ht] at hshut
    cases hshut
  cases e with
  | requestOn h => exact hkept (if_pos rfl)
  | write h r => exact ⟨hlast, hkept (if_pos rfl)⟩
  | shutdown h r =>
    obtain ⟨t, ht, -⟩ := (Option.any_eq_true _ _).mp he
    exact ⟨hlast, t, ht, hopen (if_pos rfl) t ht⟩
  | _ => exact hlast

/-- **Ownership from the calls alone.**  In a run in which libuv answers with success and
OCaml code does nothing with a handle after it has shut it down, whatever the order of
the events on all handles, ownership is in order in every state. -/
theorem owned_of_endsLast {es : List Event} (hes : stubs.Possible State.init es)
    (hsucc : ∀ e ∈ es, e.Successful) (hends : ∀ h, EndsLast (callsOn h es)) :
    stubs.EveryState Owned State.init es := by
  refine Machine.everyState_of_along (M := stubs) accounts_exec (fun _ => Accounts.owned)
    accounts_init hes ?_
  induction es using List.reverseRecOn with
  | nil => trivial
  | append_singleton es e ih =>
    obtain ⟨hpre, he⟩ := Machine.along_concat_iff.mp hes
    refine Machine.along_concat_iff.mpr ⟨ih hpre ?_ ?_, succeeds_step hpre he hsucc hends⟩
    · exact fun e' he' => hsucc e' (List.mem_append_left _ he')
    · intro h
      refine EndsLast.of_prefix (hends h) ?_
      rw [callsOn_concat]
      exact List.prefix_append _ _

/-! ## Sessions -/

/-- A call of the response on its handle. -/
def HandleCall.ofUvCall : UvCall → HandleCall
  | .uvWrite _ => .write
  | .uvShutdown => .shutdown

/-- What an operation does with the handle of its response. -/
def handleCalls {κ : Type} : Op κ → List HandleCall
  | .write _ => [.write]
  | .endConnection => [.write, .shutdown]
  | _ => []

/-- The calls of operations, as calls on the handle. -/
theorem map_ofUvCall_callsOf {κ : Type} (now : Tm) (res : ResT κ) (ops : List (Op κ)) :
    (callsOf now res ops).map HandleCall.ofUvCall = ops.flatMap handleCalls := by
  induction ops generalizing res with
  | nil => rfl
  | cons o ops ih =>
    have hone : (applyOp now res o).2.map HandleCall.ofUvCall = handleCalls o := by
      cases o with
      | write msg => rw [applyOp, write_eq]; rfl
      | endConnection => rw [applyOp, endConnection_eq]; rfl
      | _ => rfl
    rw [callsOf_cons, List.map_append, hone, ih, List.flatMap_cons]

/-- Writes and a shutdown. -/
theorem endsLast_concat {cs : List HandleCall} (hcs : .shutdown ∉ cs) :
    EndsLast (cs ++ [.shutdown]) := by
  intro pre post hsplit
  rcases List.append_eq_append_iff.mp hsplit with ⟨t, rfl, ht⟩ | ⟨t, rfl, ht⟩
  · rcases List.singleton_eq_append_iff.mp ht with ⟨-, hpost⟩ | ⟨-, hpost⟩
    · exact (List.cons.inj hpost).2
    · cases hpost
  · cases t with
    | nil => exact (List.cons.inj ht).2
    | cons c t =>
      obtain ⟨rfl, -⟩ := List.cons.inj ht
      exact absurd (List.mem_append_right _ List.mem_cons_self) hcs

/-- **Ownership under a handler.**  Let every session use its connection for the last time
when it ends it.  Then, as long as libuv answers with success, ownership is in order in
every state of every run in which OCaml code makes the calls of the sessions, or the
first of them, on each handle. -/
theorem owned_of_sessions {κ σ : Type} (now : Tm) (handler : Handler κ σ) (own : σ)
    (visits : ClientT → Visit)
    (hends : ∀ c, EndsLast (((visits c).calls now handler own c).map HandleCall.ofUvCall))
    {es : List Event} (hes : stubs.Possible State.init es) (hsucc : ∀ e ∈ es, e.Successful)
    (hcalls : ∀ c, callsOn c es
      <+: ((visits c).calls now handler own c).map HandleCall.ofUvCall) :
    stubs.EveryState Owned State.init es :=
  owned_of_endsLast hes hsucc fun c => EndsLast.of_prefix (hends c) (hcalls c)

/-- A client sends at most one message. -/
def AtMostOneMessage (visits : ClientT → Visit) : Prop :=
  ∀ c, visits c = .absent ∨ visits c = .refused ∨ visits c = .served [] ∨
    ∃ m : Message, visits c = .served [m]

/-- It is enough to look at sessions of one message. -/
theorem AtMostOneMessage.endsLast {κ σ : Type} {now : Tm} {handler : Handler κ σ} {own : σ}
    {visits : ClientT → Visit} (hone : AtMostOneMessage visits)
    (hmessage : ∀ (c : ClientT) (m : Message), visits c = .served [m] →
      EndsLast ((sessionOps now handler c own [m]).flatMap handleCalls)) (c : ClientT) :
    EndsLast (((visits c).calls now handler own c).map HandleCall.ofUvCall) := by
  have hnil : EndsLast [] := fun pre post h => by simp at h
  rcases hone c with h | h | h | ⟨m, h⟩
  · rwa [h]
  · rwa [h]
  · rwa [h]
  · rw [h, Visit.calls, map_ofUvCall_callsOf]
    exact hmessage c m h

/-- **The static server owns what it uses**, as long as no connection sends a second
message, and the URL of none is empty. -/
theorem staticServer_owned (now : Tm) (openIn : OpenIn) (visits : ClientT → Visit)
    (hone : AtMostOneMessage visits) (hurls : ∀ c m, visits c = .served [m] → m.url ≠ [])
    {es : List Event} (hes : stubs.Possible State.init es)
    (hsucc : ∀ e ∈ es, e.Successful)
    (hcalls : ∀ c, callsOn c es <+: ((visits c).calls now (staticHandler openIn) [] c).map
      HandleCall.ofUvCall) :
    stubs.EveryState Owned State.init es := by
  refine owned_of_sessions now (staticHandler openIn) [] visits
    (hone.endsLast fun c m hvisit => ?_) hes hsucc hcalls
  have hops : sessionOps now (staticHandler openIn) c [] [m] = answerOps openIn m.url := by
    have hsession := session_staticHandler now openIn (.start c []) [] [m]
      fun m' hm' => by rw [List.mem_singleton.mp hm']; exact hurls c m hvisit
    rw [sessionOps, hsession]
    simp [Progress.start]
  have hanswer :
      (answerOps openIn m.url).flatMap handleCalls = [.write, .write] ++ [.shutdown] := by
    rw [answerOps]
    rcases openIn (lit "." ++ staticUrl m.url) with _ | ⟨content, _ | _⟩ <;> rfl
  rw [hops, hanswer]
  exact endsLast_concat (by decide)

/-- **So does the example server.** -/
theorem exampleServer_owned (now : Tm) (visits : ClientT → Visit)
    (hone : AtMostOneMessage visits) {es : List Event} (hes : stubs.Possible State.init es)
    (hsucc : ∀ e ∈ es, e.Successful)
    (hcalls : ∀ c, callsOn c es <+: ((visits c).calls now exampleServer () c).map
      HandleCall.ofUvCall) :
    stubs.EveryState Owned State.init es := by
  refine owned_of_sessions now exampleServer () visits (hone.endsLast fun c m _ => ?_) hes hsucc
    hcalls
  have hops : sessionOps now exampleServer c () [m] = pageOps m.request m.body.length := by
    rw [sessionOps, session_exampleServer]
    simp [Progress.start, pageRequests, assembledAll, assembled, Message.request]
  have hend : ([.endConnection] : List (Op ServerCb)).flatMap handleCalls
      = [.write] ++ [.shutdown] := rfl
  rw [hops, pageOps, List.flatMap_append, List.flatMap_append, hend, ← List.append_assoc,
    ← List.append_assoc]
  refine endsLast_concat ?_
  simp [handleCalls, List.mem_flatMap]

/-- One client with one message. -/
def oneVisit : ClientT → Visit
  | 1 => .served [⟨lit "/a", [], [], []⟩]
  | _ => .absent

theorem oneVisit_atMostOneMessage : AtMostOneMessage oneVisit := fun c =>
  match c with
  | 1 => .inr (.inr (.inr ⟨_, rfl⟩))
  | 0 | _ + 2 => .inl rfl

theorem url_oneVisit (c : ClientT) (m : Message) (hvisit : oneVisit c = .served [m]) :
    m.url ≠ [] := by
  match c with
  | 1 =>
    cases hvisit
    decide
  | 0 | _ + 2 => cases hvisit

/-- The static server answers it, and the connection is closed. -/
def servedOnce : List Event :=
  [.createServer true, .listen 0, .connection 0 false 0 0, .read 1, .write 1 0, .write 1 0,
    .shutdown 1 0, .writeDone 1 0, .writeDone 0 0, .shutdownDone 0 1 0, .closed 1]

theorem staticServer_owned_servedOnce : stubs.EveryState Owned State.init servedOnce :=
  staticServer_owned epoch oneFile oneVisit oneVisit_atMostOneMessage url_oneVisit (by decide)
    (by decide)
    fun c => match c with
      | 1 => by
        rw [oneVisit, Visit.calls, map_ofUvCall_callsOf]
        decide +kernel
      | 0 | _ + 2 => by
        have hnone : ∀ c, c ≠ 1 → callsOn c servedOnce = [] := by
          intro c hc
          simp [callsOn, callOn, servedOnce, hc.symm]
        rw [hnone _ (by omega)]
        exact List.nil_prefix

/-- The example server writes its page, and the connection is still open. -/
def answeredOnce : List Event :=
  [.createServer true, .listen 0, .connection 0 false 0 0, .read 1, .write 1 0, .write 1 0,
    .write 1 0, .writeDone 0 0]

theorem exampleServer_owned_answeredOnce : stubs.EveryState Owned State.init answeredOnce :=
  exampleServer_owned epoch oneVisit oneVisit_atMostOneMessage (by decide) (by decide)
    fun c => match c with
      | 1 => by
        rw [oneVisit, Visit.calls, map_ofUvCall_callsOf]
        decide +kernel
      | 0 | _ + 2 => by
        have hnone : ∀ c, c ≠ 1 → callsOn c answeredOnce = [] := by
          intro c hc
          simp [callsOn, callOn, answeredOnce, hc.symm]
        rw [hnone _ (by omega)]
        exact List.nil_prefix

end Lifecycle
