/-
# Cuts

The network cuts what a client sends as it likes, and mixes it with what others send.  A
handler that does with two strings of a body what it does with the two in one has the
same calls made for a client however its bodies were cut and whatever came in between, as
long as the loop goes on.
-/
import UvHttp.ExamplePages
import UvHttp.Process
import UvHttp.StaticSessions

variable {π κ σ : Type}

/-! ## Handlers that do not see the cuts -/

/-- The handler does with two strings of a body what it does with the two in one. -/
def CutFree (now : Tm) (h : Handler κ σ) : Prop :=
  ∀ (p : Progress κ σ) (a b : OString), a ≠ [] → b ≠ [] →
    p.data now h (a ++ b) = (p.data now h a).data now h b

/-- One message in two deliveries: the body is cut into strings in another way. -/
structure Message.Recut (m m' : Message) : Prop where
  url : m'.url = m.url
  headers : m'.headers = m.headers
  trailers : m'.trailers = m.trailers
  body : m'.body.flatten = m.body.flatten
  nonempty : ∀ b ∈ m.body, b ≠ []
  nonempty' : ∀ b ∈ m'.body, b ≠ []

section CutFree

variable {now : Tm} {h : Handler κ σ} (hcut : CutFree now h)

include hcut

/-- The strings of a body are as good as the body in one string. -/
theorem foldl_data_eq (p : Progress κ σ) (bs : List OString) (hbs : ∀ b ∈ bs, b ≠ []) :
    bs.foldl (Progress.data now h) p
      = if bs.flatten = [] then p else p.data now h bs.flatten := by
  induction bs using List.reverseRecOn with
  | nil => rfl
  | append_singleton bs b ih =>
    have hb : b ≠ [] := hbs b (by simp)
    have hpre := ih fun b' hb' => hbs b' (List.mem_append_left _ hb')
    rw [List.foldl_append, hpre, List.flatten_append, List.flatten_singleton,
      if_neg (List.append_ne_nil_of_right_ne_nil _ hb)]
    by_cases hnil : bs.flatten = []
    · rw [if_pos hnil, hnil]
      rfl
    · rw [if_neg hnil, hcut p _ _ hnil hb]
      rfl

/-- A message makes the same progress however its body is cut. -/
theorem message_recut (p : Progress κ σ) (req : ReqT) {m m' : Message} (hm : m.Recut m') :
    p.message now h req m'.body = p.message now h req m.body := by
  rw [Progress.message, Progress.message, foldl_data_eq hcut _ _ hm.nonempty,
    foldl_data_eq hcut _ _ hm.nonempty', hm.body]

/-- **The sessions of two deliveries.** -/
theorem session_recut {ms ms' : List Message} (hms : List.Forall₂ Message.Recut ms ms')
    (history : List (OString × OString)) (p : Progress κ σ) :
    p.session now h history ms' = p.session now h history ms := by
  induction hms generalizing history p with
  | nil => rfl
  | @cons m m' ms ms' hm _ ih =>
    rw [Progress.session, Progress.session, ih, assembled, assembled, hm.url, hm.headers,
      hm.trailers, message_recut hcut _ _ hm]

end CutFree

/-- The requests do not depend on bodies. -/
theorem assembledAll_recut {ms ms' : List Message} (hms : List.Forall₂ Message.Recut ms ms')
    (history : List (OString × OString)) :
    assembledAll history ms' = assembledAll history ms := by
  induction hms generalizing history with
  | nil => rfl
  | @cons m m' ms ms' hm _ ih =>
    rw [assembledAll, assembledAll, ih, assembled, assembled, hm.url, hm.headers, hm.trailers]

/-- A handler without closures does not look at bodies. -/
theorem cutFree_of_noClosures (now : Tm) (h : Handler Empty σ) : CutFree now h := by
  intro p a b _ _
  rw [data_of_noClosures, data_of_noClosures, data_of_noClosures]

/-- The example server writes a word for every string. -/
theorem not_cutFree_exampleServer (now : Tm) : ¬ CutFree now exampleServer := by
  intro hcut
  let p : Progress ServerCb Unit :=
    ⟨{ (initialRes 0 : ResT ServerCb) with
      onData := .closure .testdata
      onEnd := .closure .endConnection }, (), []⟩
  have hp : Registered p := ⟨rfl, rfl⟩
  have hwords : ∀ bs : List OString,
      (bs.foldl (Progress.data now exampleServer) p).ops.length = bs.length := by
    intro bs
    rw [(foldl_data_exampleServer now hp bs).2, List.length_append, List.length_replicate]
    exact Nat.zero_add _
  have hone := hwords [[0] ++ [1]]
  have htwo := hwords [[0], [1]]
  rw [List.foldl_cons, hcut p [0] [1] (by decide) (by decide)] at hone
  rw [List.foldl_cons, List.foldl_cons] at htwo
  exact absurd (hone.symm.trans htwo) (by decide)

/-! ## Reads -/

/-- What a client whose messages have all arrived has been sent, in a run that goes on. -/
theorem observe_served (now : Tm) (h : Handler κ σ) (own : σ) {es : List ServerEvent}
    (hes : KeepsRunning es) {c : ClientT} {ms : List Message}
    (harrived : eventsOf c es = (Visit.served ms).events c) :
    (observe (Server.run now h own es).store c).calls
        = callsOf now (initialRes c) (sessionOps now h c own ms) ∧
      (observe (Server.run now h own es).store c).requests = assembledAll [] ms := by
  obtain ⟨s, -, hs⟩ := exists_standing_run now h own hes
  have hprefix : eventsOf c es <+: (Visit.served ms).events c := by rw [harrived]
  obtain ⟨v, hv, -, -, hwhole⟩ := alone_of_prefix now h own c (.served ms) hprefix
  rw [observe_run now h own es (fun d => ⟨_, hs.alone d⟩) c hv]
  exact hwhole harrived

/-- **Cuts and company do not matter.**  For every parser library, every handler that does not
see the cuts of a body and any two runs that come to their end: a client whose messages
have all arrived in both, with their bodies cut in any two ways and whatever else the loop did,
has been answered by the same calls, and the handler was given the same requests. -/
theorem same_calls_of_recut (now : Tm) (h : Handler κ σ) (own : σ) (hcut : CutFree now h)
    (p : HttpParser π) (es es' : List LoopEvent) (s s' : Process π κ σ)
    (hrun : Process.run now h own p es = .ok () s)
    (hrun' : Process.run now h own p es' = .ok () s') (c : ClientT) (ms ms' : List Message)
    (hms : List.Forall₂ Message.Recut ms ms')
    (harrived : eventsOf c (serverEvents p es) = (Visit.served ms).events c)
    (harrived' : eventsOf c (serverEvents p es') = (Visit.served ms').events c) :
    (observe s'.server c).calls = (observe s.server c).calls ∧
      (observe s'.server c).requests = (observe s.server c).requests := by
  have hkeeps := ((atEvery_goesOn_iff p es).mp (goesOn_of_run now h own hrun)).2
  have hkeeps' := ((atEvery_goesOn_iff p es').mp (goesOn_of_run now h own hrun')).2
  obtain ⟨hcalls, hrequests⟩ := observe_served now h own hkeeps harrived
  obtain ⟨hcalls', hrequests'⟩ := observe_served now h own hkeeps' harrived'
  rw [(inStep_of_run now h own hrun).server] at hcalls hrequests
  rw [(inStep_of_run now h own hrun').server] at hcalls' hrequests'
  constructor
  · exact hcalls'.trans (Eq.trans (by rw [sessionOps, sessionOps, session_recut hcut hms])
      hcalls.symm)
  · exact hrequests'.trans ((assembledAll_recut hms []).trans hrequests.symm)

/-- The head of a request with two bytes of body. -/
def postHead : OString := lit "POST /a HTTP/1.1\r\nContent-Length: 2\r\n\r\n"

/-- Part of a body, of which `due` bytes are to come. -/
def postBody (due : ℕ) (data : OString) (before : List Event) : Execution (Option ℕ) :=
  let bytes := data.take due
  let events := before ++ if bytes = [] then [] else [.body bytes]
  if data.length < due then ⟨some (due - data.length), events, data.length⟩
  else ⟨none, events ++ [.messageComplete], due⟩

/-- A parser that knows that head, when a read begins with it. -/
def postOnly : HttpParser (Option ℕ) where
  init := none
  execute := fun st data =>
    match st with
    | some due => postBody due data []
    | none =>
      if postHead.isPrefixOf data then
        postBody 2 (data.drop postHead.length)
          [.messageBegin, .url (lit "/a"), .headerField (lit "Content-Length"),
            .headerValue (lit "2"), .headersComplete]
      else ⟨none, [], 0⟩
  inError := fun _ => false
  upgrade := fun _ => false

/-- The request in one read. -/
def inOneRead : List LoopEvent :=
  [.connection 1 true, .read 1 ⟨41, postHead ++ lit "hi", by decide⟩]

/-- The request in three reads, with an empty one, while somebody else is turned away. -/
def inThreeReads : List LoopEvent :=
  [.connection 1 true, .read 1 ⟨39, postHead, by decide⟩, .connection 2 false,
    .read 1 ⟨1, lit "h", by decide⟩, .read 1 ⟨0, lit "?", by decide⟩,
    .read 1 ⟨1, lit "i", by decide⟩]

def postMessage (body : List OString) : Message :=
  ⟨lit "/a", [(lit "Content-Length", lit "2")], body, []⟩

def visitsInOneRead : ClientT → Visit
  | 1 => .served [postMessage [lit "hi"]]
  | _ => .absent

def visitsInThreeReads : ClientT → Visit
  | 1 => .served [postMessage [lit "h", lit "i"]]
  | 2 => .refused
  | _ => .absent

theorem events_inOneRead :
    serverEvents postOnly inOneRead = (visitsInOneRead 1).events 1 := by decide +kernel

theorem events_inThreeReads :
    serverEvents postOnly inThreeReads
      = [.connection 1 true, .parser 1 .messageBegin, .parser 1 (.url (lit "/a")),
        .parser 1 (.headerField (lit "Content-Length")), .parser 1 (.headerValue (lit "2")),
        .parser 1 .headersComplete, .connection 2 false, .parser 1 (.body (lit "h")),
        .parser 1 (.body (lit "i")), .parser 1 .messageComplete] := by decide +kernel

theorem underWay_inOneRead : UnderWay visitsInOneRead (serverEvents postOnly inOneRead) := by
  rw [events_inOneRead]
  intro c
  match c with
  | 0 | 1 => decide
  | n + 2 =>
    have hnone : eventsOf (n + 2) ((visitsInOneRead 1).events 1) = [] := by
      simp [eventsOf, visitsInOneRead, Visit.events, ServerEvent.client]
    rw [hnone]
    exact List.nil_prefix

theorem underWay_inThreeReads :
    UnderWay visitsInThreeReads (serverEvents postOnly inThreeReads) := by
  rw [events_inThreeReads]
  intro c
  match c with
  | 0 | 1 | 2 => decide
  | n + 3 =>
    have hnone : ∀ evs : List ServerEvent, (∀ ev ∈ evs, ev.client ≤ 2) →
        eventsOf (n + 3) evs = [] := by
      intro evs hevs
      rw [eventsOf, List.filter_eq_nil_iff]
      intro ev hev
      have hle := hevs ev hev
      rw [decide_eq_true_eq]
      rintro heq
      rw [heq] at hle
      exact absurd hle (Nat.not_le_of_lt (Nat.lt_add_left n (by decide)))
    rw [hnone _ (by decide)]
    exact List.nil_prefix

/-- Without errors no client closes or fails. -/
theorem calm_of_nonneg {es : List LoopEvent}
    (hes : ∀ c e, .read c e ∈ es → 0 ≤ e.nread) : Calm es := by
  rintro pre ev post rfl hfails
  cases ev with
  | connection c a => exact hfails
  | read c e => exact absurd hfails.2 (Int64.not_lt.mpr (hes c e (by simp)))

theorem calm_inThreeReads : Calm inThreeReads := by
  refine calm_of_nonneg fun c e hmem => ?_
  simp only [inThreeReads, List.mem_cons, LoopEvent.read.injEq, reduceCtorEq, false_or, or_false,
    List.not_mem_nil] at hmem
  rcases hmem with ⟨-, rfl⟩ | ⟨-, rfl⟩ | ⟨-, rfl⟩ | ⟨-, rfl⟩ <;> decide

/-- Visits that are under way let the loop go on. -/
theorem exists_run_underWay (now : Tm) (h : Handler κ σ) (own : σ) {p : HttpParser π}
    {visits : ClientT → Visit} {es : List LoopEvent} (hcalm : Calm es)
    (hes : UnderWay visits (serverEvents p es)) :
    ∃ s, Process.run now h own p es = .ok () s := by
  obtain ⟨server, hserver, -⟩ := forM_handle_refines now h own (serverEvents p es)
    (Server.fresh_wellFormed own) (exists_alone_of_underWay now h own visits _ hes)
  obtain ⟨s, hrun, -⟩ := exists_run_inStep now h own
    ((atEvery_goesOn_iff p es).mpr ⟨hcalm, keepsRunning_of_run hserver⟩)
  exact ⟨s, hrun⟩

theorem same_calls_of_recut_post :
    ∃ s s', Process.run epoch (staticHandler oneFile) [] postOnly inOneRead = .ok () s ∧
      Process.run epoch (staticHandler oneFile) [] postOnly inThreeReads = .ok () s' ∧
      (observe s'.server 1).calls = (observe s.server 1).calls ∧
      (observe s'.server 1).requests = (observe s.server 1).requests := by
  obtain ⟨s, hrun⟩ := exists_run_underWay epoch (staticHandler oneFile) [] (p := postOnly)
    (calm_of_nonneg (by simp [inOneRead])) underWay_inOneRead
  obtain ⟨s', hrun'⟩ := exists_run_underWay epoch (staticHandler oneFile) [] (p := postOnly)
    calm_inThreeReads underWay_inThreeReads
  exact ⟨s, s', hrun, hrun', same_calls_of_recut epoch (staticHandler oneFile) []
    (cutFree_of_noClosures _ _) postOnly inOneRead inThreeReads s s' hrun hrun' 1
    [postMessage [lit "hi"]] [postMessage [lit "h", lit "i"]]
    (.cons ⟨rfl, rfl, rfl, rfl, by decide, by decide⟩ .nil) (by decide +kernel)
    (by decide +kernel)⟩
