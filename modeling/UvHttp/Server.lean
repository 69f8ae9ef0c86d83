/-
# A server and its connections

`createServer` on a store of mutable cells.  Every accepted connection allocates
its own cells and registers closures over their addresses; the closures of all
connections run in the one store.  The server refines a family of connections by
themselves: an event of one client does to the cells of that client what
`Conn.step` does, and nothing to the cells of any other.
-/
import UvHttp.ConnectionLog
import UvHttp.ResponseFields

variable {S T κ σ : Type}

/-! ## One code on two stores -/

/-- Corresponding cells in related stores.  The client of a response is not
mutable, so only what an operation makes of a response is ever assigned. -/
structure Cells.Rel (now : Tm) (R : S → T → Prop) (c : Cells S κ σ) (d : Cells T κ σ) :
    Prop where
  url_get : ∀ s t, R s t → c.url.get s = d.url.get t
  url_set : ∀ a s t, R s t → R (c.url.set a s) (d.url.set a t)
  fields_get : ∀ s t, R s t → c.fields.get s = d.fields.get t
  fields_set : ∀ a s t, R s t → R (c.fields.set a s) (d.fields.set a t)
  values_get : ∀ s t, R s t → c.values.get s = d.values.get t
  values_set : ∀ a s t, R s t → R (c.values.set a s) (d.values.set a t)
  own_get : ∀ s t, R s t → c.own.get s = d.own.get t
  own_set : ∀ a s t, R s t → R (c.own.set a s) (d.own.set a t)
  res_get : ∀ s t, R s t → c.res.get s = d.res.get t
  res_op : ∀ o s t, R s t → R (c.res.set (applyOp now (c.res.get s) o).1 s)
    (d.res.set (applyOp now (d.res.get t) o).1 t)
  emit : ∀ a s t, R s t → R (c.emit (c.res.get s).client a s) (d.emit (d.res.get t).client a t)

namespace Cells

variable {now : Tm} {R : S → T → Prop} {c : Cells S κ σ} {d : Cells T κ σ}

/-- An entry of the record. -/
theorem note_sim (hcd : Rel now R c d) (a : Entry κ) : Sim R (c.note a) (d.note a) :=
  fun s t hR => ⟨rfl, hcd.emit a s t hR⟩

/-- One operation on the response. -/
theorem perform_sim (hcd : Rel now R c d) (o : Op κ) :
    Sim R (c.perform now o) (d.perform now o) := by
  intro s t hR
  have hcalls : (applyOp now (c.res.get s) o).2 = (applyOp now (d.res.get t) o).2 := by
    rw [hcd.res_get s t hR]
  have hres := hcd.res_op o s t hR
  have hemit := hcd.emit (.did o (applyOp now (c.res.get s) o).2) _ _ hres
  rw [hcalls] at hemit
  refine ⟨rfl, ?_⟩
  show R (c.emit _ (.did o (applyOp now (c.res.get s) o).2) _) _
  rw [hcalls]
  exact hemit

/-- The operations of a script. -/
theorem runScript_sim (hcd : Rel now R c d) (script : List (Op κ) × σ) :
    Sim R (c.runScript now script) (d.runScript now script) :=
  Sim.bind (Sim.assign _ (hcd.own_set _)) fun _ => Sim.forM (perform_sim hcd) _

/-- The request callback. -/
theorem reqCb_sim (hcd : Rel now R c d) (h : Handler κ σ) (req : ReqT) :
    Sim R (c.reqCb now h req) (d.reqCb now h req) :=
  Sim.bind (Sim.read hcd.res_get) fun _ => Sim.bind (note_sim hcd _) fun _ =>
    Sim.bind (Sim.read hcd.own_get) fun _ => runScript_sim hcd _

/-- A callback that was registered, or none. -/
theorem applyCallback_sim (hcd : Rel now R c d) (run : κ → ResT κ → σ → List (Op κ) × σ)
    (res : ResT κ) (cb : Callback κ) :
    Sim R (c.applyCallback now run res cb) (d.applyCallback now run res cb) := by
  cases cb with
  | noop => exact Sim.pure _
  | closure k => exact Sim.bind (Sim.read hcd.own_get) fun _ => runScript_sim hcd _

/-- The callback for data. -/
theorem onData_sim (hcd : Rel now R c d) (h : Handler κ σ) (body : OString) :
    Sim R (c.onData now h body) (d.onData now h body) :=
  Sim.bind (Sim.read hcd.res_get) fun _ => Sim.bind (note_sim hcd _) fun _ =>
    applyCallback_sim hcd _ _ _

/-- The callback for the end. -/
theorem onEnd_sim (hcd : Rel now R c d) (h : Handler κ σ) :
    Sim R (c.onEnd now h) (d.onEnd now h) :=
  Sim.bind (Sim.read hcd.res_get) fun _ => Sim.bind (note_sim hcd _) fun _ =>
    applyCallback_sim hcd _ _ _

/-- **The settings of `createParser` do the same on related stores**, one case for
each event. -/
theorem fire_sim (hcd : Rel now R c d) (h : Handler κ σ) (e : Event) :
    Sim R (fire (createParser now h c) e) (fire (createParser now h d) e) := by
  cases e with
  | messageBegin => exact Sim.pure _
  | status s => exact Sim.pure _
  | url s => exact Sim.bind (Sim.assign _ (hcd.url_set _)) fun _ => Sim.pure _
  | headerField s =>
    exact Sim.bind (Sim.bind (Sim.read hcd.fields_get) fun _ => Sim.assign _ (hcd.fields_set _))
      fun _ => Sim.pure _
  | headerValue s =>
    exact Sim.bind (Sim.bind (Sim.read hcd.values_get) fun _ => Sim.assign _ (hcd.values_set _))
      fun _ => Sim.pure _
  | headersComplete =>
    refine Sim.bind (Sim.read hcd.url_get) fun url => Sim.bind (Sim.read hcd.fields_get)
      fun fields => Sim.bind (Sim.read hcd.values_get) fun values => ?_
    cases headersOf fields values with
    | error x => exact Sim.throw _
    | ok headers => exact Sim.bind (reqCb_sim hcd h _) fun _ => Sim.pure _
  | body s => exact Sim.bind (onData_sim hcd h s) fun _ => Sim.pure _
  | messageComplete => exact Sim.bind (onEnd_sim hcd h) fun _ => Sim.pure _

end Cells

/-! ## The store of a server -/

/-- The addresses that the closures of one connection capture. -/
structure Addresses where
  url : ℕ
  fields : ℕ
  values : ℕ
  res : ℕ
  own : ℕ

/-- All mutable cells, the closures registered with the handles, and what the
clients have seen, in order. -/
structure Server (κ σ : Type) where
  strings : Heap OString
  lists : Heap (List OString)
  responses : Heap (ResT κ)
  states : Heap σ
  callbacks : ClientT → Option Addresses
  log : List (ClientT × Entry κ)
  refused : List ClientT

/-- An event of the loop: a new connection, which `uv_accept` takes or not, under
the handle that `uv_tcp_init` made for it, or a callback of the parser of a
client. -/
inductive ServerEvent where
  | connection (client : ClientT) (accepted : Bool)
  | parser (client : ClientT) (e : Event)
  deriving DecidableEq

/-- The client that an event is about. -/
def ServerEvent.client : ServerEvent → ClientT
  | .connection client _ => client
  | .parser client _ => client

namespace Server

def stringsRef : Ref (Server κ σ) (Heap OString) := ⟨strings, fun a s => { s with strings := a }⟩

def listsRef : Ref (Server κ σ) (Heap (List OString)) := ⟨lists, fun a s => { s with lists := a }⟩

def responsesRef : Ref (Server κ σ) (Heap (ResT κ)) :=
  ⟨responses, fun a s => { s with responses := a }⟩

def statesRef : Ref (Server κ σ) (Heap σ) := ⟨states, fun a s => { s with states := a }⟩

def callbacksRef : Ref (Server κ σ) (ClientT → Option Addresses) :=
  ⟨callbacks, fun a s => { s with callbacks := a }⟩

def refusedRef : Ref (Server κ σ) (List ClientT) := ⟨refused, fun a s => { s with refused := a }⟩

/-- The cells of one connection. -/
def cells (a : Addresses) : Cells (Server κ σ) κ σ where
  url := stringsRef.comp (Heap.ref a.url)
  fields := listsRef.comp (Heap.ref a.fields)
  values := listsRef.comp (Heap.ref a.values)
  res := responsesRef.comp (Heap.ref a.res)
  own := statesRef.comp (Heap.ref a.own)
  emit := fun client e s => { s with log := s.log ++ [(client, e)] }

/-- The callback of `createServer`. -/
def callback (own : σ) (client : ClientT) (accepted : Bool) : Ocaml (Server κ σ) Unit :=
  if accepted then do
    let res ← responsesRef.allocate (initialRes client)
    let own ← statesRef.allocate own
    -- the references of `createParser`
    let url ← stringsRef.allocate []
    let fields ← listsRef.allocate []
    let values ← listsRef.allocate []
    -- `requestOn`; reading is started, which changes no cell
    callbacksRef.update fun cbs =>
      Function.update cbs client (some { url, fields, values, res, own })
  else
    refusedRef.update (· ++ [client])

/-- What an event makes the server do. -/
def handle (now : Tm) (h : Handler κ σ) (own : σ) : ServerEvent → Ocaml (Server κ σ) Unit
  | .connection client accepted => callback own client accepted
  | .parser client e => do
    match (← callbacksRef.read) client with
    | none => pure ()
    | some a =>
      let _ ← fire (createParser now h (cells a)) e

/-- A server that nothing has happened to. -/
def fresh (own : σ) : Server κ σ where
  strings := Heap.empty []
  lists := Heap.empty []
  responses := Heap.empty (initialRes 0)
  states := Heap.empty own
  callbacks := fun _ => none
  log := []
  refused := []

/-- A run of the loop.  An exception that a callback lets through ends it. -/
def run (now : Tm) (h : Handler κ σ) (own : σ) (es : List ServerEvent) :
    EStateM.Result Exn (Server κ σ) Unit :=
  List.forM es (handle now h own) (fresh own)

/-! ## The connections in a store -/

/-- What the log says about one client. -/
def logOf (client : ClientT) (log : List (ClientT × Entry κ)) : List (Entry κ) :=
  log.filterMap fun p => if p.1 = client then some p.2 else none

/-- A new entry of the client. -/
theorem logOf_concat_self (client : ClientT) (log : List (ClientT × Entry κ)) (a : Entry κ) :
    logOf client (log ++ [(client, a)]) = logOf client log ++ [a] := by
  simp [logOf]

/-- A new entry of somebody else. -/
theorem logOf_concat_of_ne {client client' : ClientT} (hne : client' ≠ client)
    (log : List (ClientT × Entry κ)) (a : Entry κ) :
    logOf client (log ++ [(client', a)]) = logOf client log := by
  simp [logOf, hne]

/-- The connection of a client whose cells are at given addresses. -/
def connAt (s : Server κ σ) (client : ClientT) (a : Addresses) : Conn κ σ where
  url := s.strings.cell a.url
  fields := s.lists.cell a.fields
  values := s.lists.cell a.values
  res := s.responses.cell a.res
  own := s.states.cell a.own
  log := logOf client s.log

/-- The connection of a client, once it was accepted. -/
def view (s : Server κ σ) (client : ClientT) : Option (Conn κ σ) :=
  (s.callbacks client).map (s.connAt client)

end Server

/-- The addresses are in use. -/
structure Addresses.InUse (a : Addresses) (s : Server κ σ) : Prop where
  url : a.url < s.strings.next
  fields : a.fields < s.lists.next
  values : a.values < s.lists.next
  res : a.res < s.responses.next
  own : a.own < s.states.next

/-- No cell is at two of the addresses. -/
structure Addresses.Apart (a b : Addresses) : Prop where
  url : a.url ≠ b.url
  fields : a.fields ≠ b.fields
  fields_values : a.fields ≠ b.values
  values_fields : a.values ≠ b.fields
  values : a.values ≠ b.values
  res : a.res ≠ b.res
  own : a.own ≠ b.own

/-- Being apart is symmetric. -/
theorem Addresses.Apart.symm {a b : Addresses} (h : a.Apart b) : b.Apart a :=
  ⟨h.url.symm, h.fields.symm, h.values_fields.symm, h.fields_values.symm, h.values.symm,
    h.res.symm, h.own.symm⟩

namespace Server

/-- The invariant of the store: closures captured cells that exist, those of two
clients no common one, and the response they share is that of the client. -/
structure WellFormed (s : Server κ σ) : Prop where
  inUse : ∀ c a, s.callbacks c = some a → a.InUse s
  apart : ∀ c c' a b, c ≠ c' → s.callbacks c = some a → s.callbacks c' = some b → a.Apart b
  fields_ne_values : ∀ c a, s.callbacks c = some a → a.fields ≠ a.values
  client : ∀ c a, s.callbacks c = some a → (s.responses.cell a.res).client = c
  quiet : ∀ c, s.callbacks c = none → logOf c s.log = []

/-- A server without connections. -/
theorem fresh_wellFormed (own : σ) : (fresh own : Server κ σ).WellFormed :=
  ⟨nofun, nofun, nofun, nofun, fun _ _ => rfl⟩

/-- Assignments keep the invariant when they leave the clients of responses alone. -/
theorem WellFormed.congr {s s' : Server κ σ} (hs : s.WellFormed)
    (hcallbacks : s'.callbacks = s.callbacks) (hstrings : s'.strings.next = s.strings.next)
    (hlists : s'.lists.next = s.lists.next) (hresponses : s'.responses.next = s.responses.next)
    (hstates : s'.states.next = s.states.next)
    (hclient : ∀ c a, s.callbacks c = some a → (s'.responses.cell a.res).client = c)
    (hquiet : ∀ c, s.callbacks c = none → logOf c s'.log = []) : s'.WellFormed := by
  constructor
  · intro c a ha
    rw [hcallbacks] at ha
    have hin := hs.inUse c a ha
    exact ⟨hstrings ▸ hin.url, hlists ▸ hin.fields, hlists ▸ hin.values, hresponses ▸ hin.res,
      hstates ▸ hin.own⟩
  · rw [hcallbacks]
    exact hs.apart
  · rw [hcallbacks]
    exact hs.fields_ne_values
  · rw [hcallbacks]
    exact hclient
  · rw [hcallbacks]
    exact hquiet

/-- A client's connection is as before when its cells and its part of the log are. -/
theorem view_congr {s s' : Server κ σ} (client : ClientT) (hcallbacks : s'.callbacks = s.callbacks)
    (hconn : ∀ a, s.callbacks client = some a → s'.connAt client a = s.connAt client a) :
    s'.view client = s.view client := by
  rw [view, view, hcallbacks]
  cases ha : s.callbacks client with
  | none => rfl
  | some a => rw [Option.map_some, Option.map_some, hconn a ha]

/-- Between a store that began as `s₀` and one connection: the cells at the given
addresses are those of the connection, and nothing else has changed. -/
structure Tracks (s₀ : Server κ σ) (client : ClientT) (a : Addresses) (s : Server κ σ)
    (k : Conn κ σ) : Prop where
  wellFormed : s.WellFormed
  callbacks : s.callbacks = s₀.callbacks
  refused : s.refused = s₀.refused
  mine : s.connAt client a = k
  others : ∀ client', client' ≠ client → s.view client' = s₀.view client'

/-- What an assignment to cells of one connection has to show. -/
theorem Tracks.assign {s₀ s s' : Server κ σ} {client : ClientT} {a : Addresses} {k k' : Conn κ σ}
    (hs : Tracks s₀ client a s k) (hwf : s'.WellFormed) (hcallbacks : s'.callbacks = s.callbacks)
    (hrefused : s'.refused = s.refused) (hmine : s'.connAt client a = k')
    (hothers : ∀ client' b, client' ≠ client → s.callbacks client' = some b →
      s'.connAt client' b = s.connAt client' b) : Tracks s₀ client a s' k' where
  wellFormed := hwf
  callbacks := hcallbacks.trans hs.callbacks
  refused := hrefused.trans hs.refused
  mine := hmine
  others := fun client' hne =>
    (view_congr client' hcallbacks fun b hb => hothers client' b hne hb).trans
      (hs.others client' hne)

/-- **The closures of a connection act on its cells only.** -/
theorem cells_rel (now : Tm) (s₀ : Server κ σ) {client : ClientT} {a : Addresses}
    (ha : s₀.callbacks client = some a) :
    Cells.Rel now (Tracks s₀ client a) (cells a) Conn.cells := by
  have hmine : ∀ s k, Tracks s₀ client a s k → s.callbacks client = some a := by
    intro s k hs
    rw [hs.callbacks, ha]
  refine
    { url_get := fun s _ hs => hs.mine ▸ rfl
      url_set := fun v s k hs => ?_
      fields_get := fun s _ hs => hs.mine ▸ rfl
      fields_set := fun v s k hs => ?_
      values_get := fun s _ hs => hs.mine ▸ rfl
      values_set := fun v s k hs => ?_
      own_get := fun s _ hs => hs.mine ▸ rfl
      own_set := fun v s k hs => ?_
      res_get := fun s _ hs => hs.mine ▸ rfl
      res_op := fun o s k hs => ?_
      emit := fun e s k hs => ?_ }
  all_goals
    have hwf := hs.wellFormed
    have hcb := hmine s k hs
    obtain rfl := hs.mine
  · refine hs.assign (hwf.congr rfl rfl rfl rfl rfl hwf.client hwf.quiet) rfl rfl ?_ ?_
    · simp [connAt, cells, Ref.comp, Heap.ref, stringsRef, Conn.cells]
    · intro client' b hne hb
      have hapart := hwf.apart client' client b a hne hb hcb
      simp [connAt, cells, Ref.comp, Heap.ref, stringsRef, hapart.url]
  · refine hs.assign (hwf.congr rfl rfl rfl rfl rfl hwf.client hwf.quiet) rfl rfl ?_ ?_
    · have hne := hwf.fields_ne_values client a hcb
      simp [connAt, cells, Ref.comp, Heap.ref, listsRef, Conn.cells, hne.symm]
    · intro client' b hne hb
      have hapart := hwf.apart client' client b a hne hb hcb
      simp [connAt, cells, Ref.comp, Heap.ref, listsRef, hapart.fields, hapart.values_fields]
  · refine hs.assign (hwf.congr rfl rfl rfl rfl rfl hwf.client hwf.quiet) rfl rfl ?_ ?_
    · have hne := hwf.fields_ne_values client a hcb
      simp [connAt, cells, Ref.comp, Heap.ref, listsRef, Conn.cells, hne]
    · intro client' b hne hb
      have hapart := hwf.apart client' client b a hne hb hcb
      simp [connAt, cells, Ref.comp, Heap.ref, listsRef, hapart.values, hapart.fields_values]
  · refine hs.assign (hwf.congr rfl rfl rfl rfl rfl hwf.client hwf.quiet) rfl rfl ?_ ?_
    · simp [connAt, cells, Ref.comp, Heap.ref, statesRef, Conn.cells]
    · intro client' b hne hb
      have hapart := hwf.apart client' client b a hne hb hcb
      simp [connAt, cells, Ref.comp, Heap.ref, statesRef, hapart.own]
  · refine hs.assign (hwf.congr rfl rfl rfl rfl rfl ?_ hwf.quiet) rfl rfl ?_ ?_
    · -- the response keeps its client, and those of other clients are other cells
      intro c b hb
      by_cases hc : c = client
      · obtain rfl : b = a := Option.some.inj (hb.symm.trans (hc ▸ hcb))
        have hclient := hwf.client client b hcb
        simpa [cells, Ref.comp, Heap.ref, responsesRef, client_applyOp, hc] using hclient
      · have hapart := hwf.apart c client b a hc hb hcb
        have hclient := hwf.client c b hb
        simpa [cells, Ref.comp, Heap.ref, responsesRef, hapart.res] using hclient
    · simp [connAt, cells, Ref.comp, Heap.ref, responsesRef, Conn.cells]
    · intro client' b hne hb
      have hapart := hwf.apart client' client b a hne hb hcb
      simp [connAt, cells, Ref.comp, Heap.ref, responsesRef, hapart.res]
  · have hclient : ((cells a).res.get s).client = client := hwf.client client a hcb
    rw [hclient]
    refine hs.assign (hwf.congr rfl rfl rfl rfl rfl hwf.client ?_) rfl rfl ?_ ?_
    · intro c hc
      have hne : client ≠ c := fun h => by rw [← h, hcb] at hc; cases hc
      exact (logOf_concat_of_ne hne s.log e).trans (hwf.quiet c hc)
    · simp [connAt, cells, Conn.cells, logOf_concat_self]
    · intro client' b hne hb
      simp [connAt, cells, logOf_concat_of_ne (Ne.symm hne)]

/-! ## What an event does -/

/-- A parser event runs the closures of its client, which step its connection. -/
theorem handle_parserEvent {s : Server κ σ} (hs : s.WellFormed) (now : Tm) (h : Handler κ σ)
    (own : σ) {client : ClientT} {a : Addresses} (ha : s.callbacks client = some a) (e : Event) :
    match (s.connAt client a).step now h e with
    | .ok k => ∃ s', handle now h own (.parser client e) s = .ok () s' ∧ Tracks s client a s' k
    | .error x => ∃ s', handle now h own (.parser client e) s = .error x s' ∧
        Tracks s client a s' (s.connAt client a) := by
  have hhandle : handle now h own (.parser client e) s
      = (fire (createParser now h (cells a)) e >>= fun _ => pure ()) s := by
    rw [handle, EStateM.bind_ok (Ref.read_apply _ _)]
    show (match s.callbacks client with
      | none => pure ()
      | some a => fire (createParser now h (cells a)) e >>= fun _ => pure ()) s = _
    rw [ha]
  -- the same code on the cells of the client and on a store that is its connection
  have hsim := Cells.fire_sim (cells_rel now s ha) h e s (s.connAt client a)
    ⟨hs, rfl, rfl, rfl, fun _ _ => rfl⟩
  rw [Conn.fire_eq_step] at hsim
  rw [hhandle, EStateM.bind_apply]
  cases hstep : (s.connAt client a).step now h e with
  | ok k =>
    rw [hstep] at hsim
    cases hfire : fire (createParser now h (cells a)) e s with
    | ok n s' =>
      rw [hfire] at hsim
      exact ⟨s', rfl, hsim.2⟩
    | error x s' =>
      rw [hfire] at hsim
      exact hsim.elim
  | error x =>
    rw [hstep] at hsim
    cases hfire : fire (createParser now h (cells a)) e s with
    | ok n s' =>
      rw [hfire] at hsim
      exact hsim.elim
    | error x' s' =>
      rw [hfire] at hsim
      obtain ⟨rfl, htracks⟩ := hsim
      exact ⟨s', rfl, htracks⟩

/-- The addresses of the cells that the next connection gets. -/
def newAddresses (s : Server κ σ) : Addresses where
  url := s.strings.next
  fields := s.lists.next
  values := s.lists.next + 1
  res := s.responses.next
  own := s.states.next

/-- The store after a connection was accepted. -/
def accepted (s : Server κ σ) (own : σ) (client : ClientT) : Server κ σ :=
  { s with
    strings := s.strings.alloc []
    lists := (s.lists.alloc []).alloc []
    responses := s.responses.alloc (initialRes client)
    states := s.states.alloc own
    callbacks := Function.update s.callbacks client (some s.newAddresses) }

/-- What the callback does when the connection is accepted. -/
theorem callback_true (s : Server κ σ) (own : σ) (client : ClientT) :
    callback own client true s = .ok () (s.accepted own client) := rfl

/-- The closures of the new connection are registered, over its addresses. -/
theorem callbacks_accepted (s : Server κ σ) (own : σ) (client c : ClientT) :
    (s.accepted own client).callbacks c
      = if c = client then some s.newAddresses else s.callbacks c :=
  Function.update_apply ..

/-- New addresses are not in use. -/
theorem apart_newAddresses {s : Server κ σ} {a : Addresses} (ha : a.InUse s) :
    a.Apart s.newAddresses where
  url := Nat.ne_of_lt ha.url
  fields := Nat.ne_of_lt ha.fields
  fields_values := Nat.ne_of_lt (Nat.lt_succ_of_lt ha.fields)
  values_fields := Nat.ne_of_lt ha.values
  values := Nat.ne_of_lt (Nat.lt_succ_of_lt ha.values)
  res := Nat.ne_of_lt ha.res
  own := Nat.ne_of_lt ha.own

/-- Allocation keeps addresses in use. -/
theorem inUse_accepted {s : Server κ σ} {a : Addresses} (ha : a.InUse s) (own : σ)
    (client : ClientT) : a.InUse (s.accepted own client) where
  url := Nat.lt_succ_of_lt ha.url
  fields := Nat.lt_succ_of_lt (Nat.lt_succ_of_lt ha.fields)
  values := Nat.lt_succ_of_lt (Nat.lt_succ_of_lt ha.values)
  res := Nat.lt_succ_of_lt ha.res
  own := Nat.lt_succ_of_lt ha.own

/-- The new addresses are in use after that. -/
theorem newAddresses_inUse (s : Server κ σ) (own : σ) (client : ClientT) :
    s.newAddresses.InUse (s.accepted own client) where
  url := Nat.lt_succ_self _
  fields := Nat.lt_succ_of_lt (Nat.lt_succ_self _)
  values := Nat.lt_succ_self _
  res := Nat.lt_succ_self _
  own := Nat.lt_succ_self _

/-- The cells that were in use keep their contents. -/
theorem connAt_accepted_of_inUse {s : Server κ σ} {a : Addresses} (ha : a.InUse s) (own : σ)
    (client c : ClientT) : (s.accepted own client).connAt c a = s.connAt c a := by
  obtain ⟨hurl, hfields, hvalues, hres, hown⟩ := ha
  have hfields' : a.fields < (s.lists.alloc []).next := Nat.lt_succ_of_lt hfields
  have hvalues' : a.values < (s.lists.alloc []).next := Nat.lt_succ_of_lt hvalues
  simp only [connAt, accepted, Heap.alloc_cell_of_lt, hurl, hfields, hfields', hvalues, hvalues',
    hres, hown]

/-- The new cells are those of a connection at its start. -/
theorem connAt_accepted_new (s : Server κ σ) (own : σ) (client : ClientT) :
    (s.accepted own client).connAt client s.newAddresses
      = { Conn.accept client own with log := logOf client s.log } := by
  have hfields : ((s.lists.alloc []).alloc []).cell s.lists.next = [] := by
    rw [Heap.alloc_cell_of_lt _ _ (Nat.lt_succ_self _), Heap.alloc_cell_next]
  have hvalues : ((s.lists.alloc []).alloc []).cell (s.lists.next + 1) = [] :=
    Heap.alloc_cell_next (s.lists.alloc []) []
  simp only [connAt, accepted, newAddresses, Conn.accept, Heap.alloc_cell_next, hfields, hvalues]

/-- The connections of a server stay apart when one more is accepted. -/
theorem accepted_wellFormed {s : Server κ σ} (hs : s.WellFormed) (own : σ) (client : ClientT) :
    (s.accepted own client).WellFormed := by
  constructor
  · intro c a ha
    rw [callbacks_accepted] at ha
    split_ifs at ha with hc
    · cases ha
      exact newAddresses_inUse s own client
    · exact inUse_accepted (hs.inUse c a ha) own client
  · intro c c' a b hne ha hb
    rw [callbacks_accepted] at ha hb
    -- two old clients, or an old one and the new one
    split_ifs at ha hb with hc hc' hc'
    · exact absurd (hc.trans hc'.symm) hne
    · cases ha
      exact (apart_newAddresses (hs.inUse c' b hb)).symm
    · cases hb
      exact apart_newAddresses (hs.inUse c a ha)
    · exact hs.apart c c' a b hne ha hb
  · intro c a ha
    rw [callbacks_accepted] at ha
    split_ifs at ha with hc
    · cases ha
      exact Nat.ne_of_lt (Nat.lt_succ_self _)
    · exact hs.fields_ne_values c a ha
  · intro c a ha
    rw [callbacks_accepted] at ha
    split_ifs at ha with hc
    · cases ha
      simp [accepted, newAddresses, hc, initialRes]
    · have hres := (hs.inUse c a ha).res
      rw [accepted, Heap.alloc_cell_of_lt _ _ hres]
      exact hs.client c a ha
  · intro c hc
    rw [callbacks_accepted] at hc
    split_ifs at hc
    exact hs.quiet c hc

/-- The new connection, by itself. -/
theorem accepted_view_self (s : Server κ σ) (own : σ) (client : ClientT) :
    (s.accepted own client).view client
      = some { Conn.accept client own with log := logOf client s.log } := by
  rw [view, callbacks_accepted, if_pos rfl, Option.map_some, connAt_accepted_new]

/-- The other connections stay as they are. -/
theorem accepted_view_of_ne {s : Server κ σ} (hs : s.WellFormed) (own : σ)
    {client c : ClientT} (hne : c ≠ client) : (s.accepted own client).view c = s.view c := by
  rw [view, view, callbacks_accepted, if_neg hne]
  cases ha : s.callbacks c with
  | none => rfl
  | some a => rw [Option.map_some, Option.map_some, connAt_accepted_of_inUse (hs.inUse c a ha)]

/-- What is in the log of a client is in its connection. -/
theorem log_view {s : Server κ σ} (hs : s.WellFormed) (client : ClientT) :
    ((s.view client).map Conn.log).getD [] = logOf client s.log := by
  rw [view]
  cases ha : s.callbacks client with
  | none => rw [hs.quiet client ha]; rfl
  | some a => rfl

end Server

/-! ## Refinement -/

/-- What an event of a client means to its connection alone.  A handle that is
accepted again begins anew, with its history. -/
def aloneStep (now : Tm) (h : Handler κ σ) (own : σ) (v : Option (Conn κ σ)) :
    ServerEvent → Except Exn (Option (Conn κ σ))
  | .connection client true =>
    .ok (some { Conn.accept client own with log := (v.map Conn.log).getD [] })
  | .connection _ false => .ok v
  | .parser _ e =>
    match v with
    | none => .ok none
    | some k => (k.step now h e).map some

/-- The clients that an event turns away. -/
def ServerEvent.refuses : ServerEvent → List ClientT
  | .connection client false => [client]
  | _ => []

namespace Server

/-- **One event of the server is one event of its client's connection**, and every
other connection stays as it is. -/
theorem handle_refines {s : Server κ σ} (hs : s.WellFormed) (now : Tm) (h : Handler κ σ) (own : σ)
    (ev : ServerEvent) {v : Option (Conn κ σ)}
    (hv : aloneStep now h own (s.view ev.client) ev = .ok v) :
    ∃ s', handle now h own ev s = .ok () s' ∧ s'.WellFormed ∧ s'.view ev.client = v ∧
      (∀ c, c ≠ ev.client → s'.view c = s.view c) ∧ s'.refused = s.refused ++ ev.refuses := by
  cases ev with
  | connection client acc =>
    cases acc with
    | true =>
      refine ⟨s.accepted own client, callback_true s own client,
        accepted_wellFormed hs own client, ?_,
        fun c hne => accepted_view_of_ne hs own hne, (List.append_nil _).symm⟩
      rw [ServerEvent.client, accepted_view_self, ← log_view hs]
      cases hv
      rfl
    | false =>
      cases hv
      exact ⟨{ s with refused := s.refused ++ [client] }, rfl,
        hs.congr rfl rfl rfl rfl rfl hs.client hs.quiet, rfl, fun _ _ => rfl, rfl⟩
  | parser client e =>
    cases ha : s.callbacks client with
    | none =>
      have hview : s.view client = none := by rw [view, ha]; rfl
      rw [ServerEvent.client, hview] at hv
      cases hv
      refine ⟨s, ?_, hs, hview, fun _ _ => rfl, (List.append_nil _).symm⟩
      rw [handle, EStateM.bind_ok (Ref.read_apply _ _)]
      show (match s.callbacks client with
        | none => pure ()
        | some a => fire (createParser now h (cells a)) e >>= fun _ => pure ()) s = _
      rw [ha]
      rfl
    | some a =>
      have hview : s.view client = some (s.connAt client a) := by rw [view, ha]; rfl
      rw [ServerEvent.client, hview] at hv
      have hrun := handle_parserEvent hs now h own ha e
      cases hstep : (s.connAt client a).step now h e with
      | error x =>
        rw [aloneStep, hstep] at hv
        cases hv
      | ok k =>
        rw [aloneStep, hstep] at hv
        cases hv
        rw [hstep] at hrun
        obtain ⟨s', hok, htracks⟩ := hrun
        refine ⟨s', hok, htracks.wellFormed, ?_, htracks.others, ?_⟩
        · rw [ServerEvent.client, view, htracks.callbacks, ha, Option.map_some, htracks.mine]
        · rw [htracks.refused]
          exact (List.append_nil _).symm

end Server
