/-
# The memory of the parsers

`HttpParser.init` allocates a parser outside the OCaml heap, and has it freed by a
finaliser once its OCaml value cannot be reached.  The value is captured by the callback
that `createServer` stores in the `data` field of a connection, so whether it can be
reached depends on the roots, and these on the life of the handles.  The finalisers run
whenever the collector likes.  `HttpParser.free` is called nowhere else, and
`HttpParser.execute` only by that callback, with the parser among its own roots.
-/
import UvHttp.Draining

namespace Lifecycle

/-! ## Parsers and finalisers -/

/-- The stubs, the parsers that were allocated, for every handle the parser that the callback
in its `data` field captures, and the parsers whose finaliser was called. -/
structure Runtime where
  stubs : State
  parsers : Pool Unit
  captured : ℕ → Option ℕ
  finalised : List ℕ

/-- An event of the stubs, or the call of a finaliser. -/
inductive RuntimeEvent where
  | stub (e : Event)
  | finalise (p : ℕ)
  deriving DecidableEq

/-- The parser that is captured at a root. -/
def Root.parser (captured : ℕ → Option ℕ) : Root → Option ℕ
  | .data h => captured h
  | .param _ => none

namespace Runtime

variable (m : Runtime)

def init : Runtime := ⟨State.init, .empty, fun _ => none, []⟩

/-- Some root leads to the parser. -/
def Reachable (p : ℕ) : Prop := ∃ a ∈ m.stubs.roots, a.parser m.captured = some p

instance (p : ℕ) : Decidable (m.Reachable p) :=
  inferInstanceAs (Decidable (∃ a ∈ m.stubs.roots, _))

/-- `Gc.finalise`: called when the parser cannot be reached, and once. -/
def enabled : RuntimeEvent → Bool
  | .stub e => Lifecycle.enabled m.stubs e
  | .finalise p =>
    decide (p < m.parsers.blocks.length ∧ p ∉ m.finalised ∧ ¬ m.Reachable p)

/-- The callback of `createServer`, after `uv_accept`: `caml_http_parser_init`, and the closure
that `requestOn` stores. -/
def accepted (client : ℕ) : Runtime :=
  { m with
    parsers := m.parsers.alloc ()
    captured := Function.update m.captured client (some m.parsers.fresh) }

/-- Another callback is stored. -/
def replaced (h : ℕ) : Runtime := { m with captured := Function.update m.captured h none }

/-- The callback of a connection runs `caml_http_parser_execute`, of which the parser is a
parameter. -/
def execute (h : ℕ) : Runtime :=
  match m.captured h with
  | none => m
  | some p => { m with parsers := m.parsers.touch p }

/-- `caml_http_parser_free`. -/
def free (p : ℕ) : Runtime := { m with parsers := m.parsers.release p }

/-- What an event does. -/
def exec : RuntimeEvent → Runtime
  | .stub e =>
    let next : Runtime := { m with stubs := Lifecycle.exec m.stubs e }
    match e with
    | .connection _ _ accept _ => if accept = 0 then next.accepted m.stubs.handles.fresh else next
    | .requestOn h => next.replaced h
    | .listen server => next.replaced server
    | .read h => next.execute h
    | _ => next
  | .finalise p => { m.free p with finalised := m.finalised ++ [p] }

end Runtime

/-- The stubs and the collector as one machine. -/
def runtime : Machine Runtime RuntimeEvent := ⟨Runtime.enabled, Runtime.exec⟩

/-! ## Handles that stay connected -/

/-- Handles keep their role, and those that are connected stay so. -/
def Stays (p q : Pool Tcp) : Prop :=
  ∀ (h : ℕ) (t : Tcp), p.blocks[h]? = some t →
    ∃ u, q.blocks[h]? = some u ∧ u.role = t.role ∧ (t.connected = true → u.connected = true)

section Stays

variable {p q r : Pool Tcp}

/-- Two steps one after the other. -/
theorem Stays.trans (hpq : Stays p q) (hqr : Stays q r) : Stays p r := by
  intro h t ht
  obtain ⟨u, hu, hrole, hconn⟩ := hpq h t ht
  obtain ⟨v, hv, hrole', hconn'⟩ := hqr h u hu
  exact ⟨v, hv, hrole'.trans hrole, fun hc => hconn' (hconn hc)⟩

/-- A step that does not write to handles. -/
theorem Stays.of_blocks_eq (hblocks : q.blocks = p.blocks) : Stays p q := by
  intro h t ht
  exact ⟨t, hblocks ▸ ht, rfl, id⟩

/-- A new handle. -/
theorem Stays.alloc (p : Pool Tcp) (t : Tcp) : Stays p (p.alloc t) := by
  intro h u hu
  have hlt : h < p.blocks.length := (List.getElem?_eq_some_iff.mp hu).1
  exact ⟨u, (Pool.getElem?_alloc_of_lt t hlt).trans hu, rfl, id⟩

/-- A write into a handle that leaves its role and keeps it connected. -/
theorem Stays.modify (p : Pool Tcp) (i : ℕ) {f : Tcp → Tcp} (hrole : ∀ t, (f t).role = t.role)
    (hconn : ∀ t : Tcp, t.connected = true → (f t).connected = true) : Stays p (p.modify i f) := by
  intro h t ht
  rw [Pool.getElem?_modify, ht]
  split_ifs
  · exact ⟨f t, rfl, hrole t, hconn t⟩
  · exact ⟨t, rfl, rfl, id⟩

end Stays

/-- What leaves the roots and the releases alone, and all handles connected. -/
structure Mild (m m' : State) : Prop where
  stays : Stays m.handles m'.handles
  roots : m'.roots = m.roots
  released : m'.handles.released = m.handles.released

section Mild

variable {m m₁ m₂ : State}

/-- Two steps one after the other. -/
theorem Mild.trans (h₁ : Mild m m₁) (h₂ : Mild m₁ m₂) : Mild m m₂ :=
  ⟨h₁.stays.trans h₂.stays, h₂.roots.trans h₁.roots, h₂.released.trans h₁.released⟩

/-- No handle is changed. -/
theorem Mild.of_blocks_eq {m' : State} (hblocks : m'.handles.blocks = m.handles.blocks)
    (hroots : m'.roots = m.roots) (hreleased : m'.handles.released = m.handles.released) :
    Mild m m' := ⟨.of_blocks_eq hblocks, hroots, hreleased⟩

/-- `uv_shutdown` registers no root. -/
theorem mild_uvShutdown (m : State) (s h : ℕ) (r : ℤ) : Mild m (m.uvShutdown s h r) := by
  rw [uvShutdown_eq]
  split_ifs
  · exact ⟨Stays.modify (m.handles.touch h) h (fun _ => rfl) fun _ hc => hc, rfl, rfl⟩
  · exact .of_blocks_eq rfl rfl rfl

/-- `uv_shutdown_ocaml` registers no root. -/
theorem mild_uvShutdownOcaml (m : State) (h : ℕ) (r : ℤ) : Mild m (m.uvShutdownOcaml h r) := by
  have halloc : Mild m { m with shutdowns := m.shutdowns.alloc ⟨h⟩ } := .of_blocks_eq rfl rfl rfl
  exact halloc.trans (mild_uvShutdown _ m.shutdowns.fresh h r)

/-- `uv_write` registers no root. -/
theorem mild_uvWrite (m : State) (w h : ℕ) (r : ℤ) : Mild m (m.uvWrite w h r) := by
  unfold State.uvWrite
  split_ifs <;> exact .of_blocks_eq rfl rfl rfl

/-- `write_cb` registers no root. -/
theorem mild_writeCb (m : State) (w : ℕ) : Mild m (m.writeCb w) := by
  unfold State.writeCb
  cases m.writes.blocks[w]? <;> exact .of_blocks_eq rfl rfl rfl

/-- `shutdown_cb` registers no root. -/
theorem mild_shutdownCb (m : State) (s : ℕ) : Mild m (m.shutdownCb s) := by
  unfold State.shutdownCb
  cases m.shutdowns.blocks[s]? with
  | none => exact .of_blocks_eq rfl rfl rfl
  | some req => exact ⟨.modify _ _ (fun _ => rfl) fun _ hc => hc, rfl, rfl⟩

/-- `client_connect_cb` registers no root. -/
theorem mild_clientConnectCb (m : State) (c : ℕ) (status write shutdown : ℤ) :
    Mild m (m.clientConnectCb c status write shutdown) := by
  cases hreq : m.connects.blocks[c]? with
  | none =>
    rw [clientConnectCb_of_none hreq]
    exact .of_blocks_eq rfl rfl rfl
  | some req =>
    by_cases hstatus : status = 0
    · rw [hstatus, clientConnectCb_of_made hreq]
      have hmade : Mild m (m.connectMade c req) :=
        ⟨.modify _ _ (fun _ => rfl) fun _ _ => rfl, rfl, rfl⟩
      have hwritten := hmade.trans (mild_uvWrite _ m.writes.fresh req.handle write)
      exact ⟨hwritten.stays, hwritten.roots, hwritten.released⟩
    · rw [clientConnectCb_of_failed hreq hstatus]
      have hshut := mild_uvShutdown (m.connectFailed c req) m.shutdowns.fresh req.handle shutdown
      exact ⟨hshut.stays.trans (.of_blocks_eq rfl), hshut.roots, hshut.released⟩

end Mild

/-! ## Roots of connections -/

/-- The field of the handle is a root until the handle is released. -/
def State.RootedAt (m : State) (h : ℕ) : Prop := .data h ∈ m.roots ↔ h ∉ m.handles.released

section Roots

variable {m : State} {h : ℕ}

/-- `close_cb` takes the callback of a connection off the roots, and releases the handle. -/
theorem roots_closeCb (m : State) {h : ℕ} {t : Tcp} (ht : m.tcp h = some t)
    (hdata : t.data = .callback) :
    .data h ∉ (m.closeCb h).roots ∧ h ∈ (m.closeCb h).handles.released := by
  have hlt : h < m.handles.blocks.length := (List.getElem?_eq_some_iff.mp ht).1
  have hreleased : ∀ p : Pool Tcp, p.blocks.length = m.handles.blocks.length →
      h ∈ (p.release h).released := fun p hp => by
    rw [Pool.released_release (hp ▸ hlt)]
    exact List.mem_append_right _ (List.mem_singleton.mpr rfl)
  have hcb : ((m.touchHandle h).tcp h).any fun t => t.data.nonNull := by
    show (m.tcp h).any _ = true
    rw [ht, Option.any_some, hdata]
    rfl
  unfold State.closeCb State.camlRemoveGlobalRoot
  simp only [if_pos hcb]
  split_ifs with hroot
  · exact ⟨Finset.notMem_erase _ _, hreleased _ rfl⟩
  · exact ⟨hroot, hreleased _ rfl⟩

/-- `close_cb` on another handle. -/
theorem roots_closeCb_of_ne (m : State) {h h' : ℕ} (hne : h' ≠ h) :
    (.data h' ∈ (m.closeCb h).roots ↔ .data h' ∈ m.roots) ∧
      (h' ∈ (m.closeCb h).handles.released ↔ h' ∈ m.handles.released) := by
  have hreleased : ∀ p : Pool Tcp, p.released = m.handles.released →
      (h' ∈ (p.release h).released ↔ h' ∈ m.handles.released) := fun p hp => by
    unfold Pool.release
    split_ifs
    · simp only [List.mem_append, List.mem_singleton, hne, or_false, hp]
    · rw [hp]
  have hroot : Root.data h' ≠ .data h := fun heq => hne (Root.data.inj heq)
  unfold State.closeCb State.camlRemoveGlobalRoot
  dsimp only
  split_ifs
  · exact ⟨Finset.mem_erase.trans (and_iff_right hroot), hreleased _ rfl⟩
  · exact ⟨Iff.rfl, hreleased _ rfl⟩
  · exact ⟨Iff.rfl, hreleased _ rfl⟩

/-- What an event leaves of all handles, and of the root and the release of one. -/
structure RootStep (m m' : State) (h : ℕ) : Prop where
  stays : Stays m.handles m'.handles
  rooted : m.RootedAt h → m'.RootedAt h
  released : h ∈ m.handles.released → h ∈ m'.handles.released

theorem Mild.rootStep {m' : State} (hm : Mild m m') : RootStep m m' h where
  stays := hm.stays
  rooted := fun hrooted => by
    rw [State.RootedAt, hm.roots, hm.released]
    exact hrooted
  released := fun hh => hm.released ▸ hh

/-- Another root. -/
theorem RootStep.of_insert {m' : State} {a : Root} (ha : .data h ≠ a)
    (hroots : m'.roots = insert a m.roots) (hstays : Stays m.handles m'.handles)
    (hreleased : m'.handles.released = m.handles.released) : RootStep m m' h where
  stays := hstays
  rooted := fun hrooted => by
    rw [State.RootedAt, hroots, hreleased, Finset.mem_insert, or_iff_right ha]
    exact hrooted
  released := fun hh => hreleased ▸ hh

/-- **The step**: handles stay connected, and the field of a connection stays a root until the
handle is released, unless OCaml code stores another callback in it. -/
theorem rootStep_exec {e : Event} {t : Tcp} (hok : HandlesOk m) (he : enabled m e = true)
    (ht : m.tcp h = some t) (hrole : t.role = .connection) (hconn : t.connected = true)
    (hother : e ≠ .requestOn h) : RootStep m (exec m e) h := by
  have hlt : h < m.handles.blocks.length := (List.getElem?_eq_some_iff.mp ht).1
  cases e with
  | createServer isNull => exact Mild.rootStep ⟨.alloc _ _, rfl, rfl⟩
  | run isNull => exact Mild.rootStep ⟨.alloc _ _, rfl, rfl⟩
  | listen server =>
    -- the handle of a server is not that of a connection
    have hne : h ≠ server := by
      rintro rfl
      obtain ⟨u, hu, hserver⟩ := (Option.any_eq_true _ _).mp he
      obtain rfl : t = u := Option.some.inj (ht.symm.trans hu)
      rw [hrole] at hserver
      cases hserver
    have hstored : Stays m.handles (m.requestOn server).handles :=
      .modify _ server (fun _ => rfl) fun _ hc => hc
    exact .of_insert (a := .data server) (fun heq => hne (Root.data.inj heq)) rfl
      (hstored.trans (.modify _ server (fun _ => rfl) fun _ hc => hc)) rfl
  | connection server isNull accept shutdown =>
    show RootStep m (m.connectionCb server isNull accept shutdown) h
    by_cases haccept : accept = 0
    · rw [haccept, connectionCb_of_accepted]
      exact .of_insert (a := .data m.handles.fresh)
        (fun heq => Nat.ne_of_lt hlt (Root.data.inj heq)) rfl
        (Stays.alloc ((m.handles.touch server).touch server) _) rfl
    · rw [State.connectionCb, if_neg haccept]
      refine Mild.rootStep (Mild.trans ?_ (mild_uvShutdownOcaml _ _ shutdown))
      exact ⟨Stays.alloc (m.handles.touch server) _, rfl, rfl⟩
  | requestOn h' =>
    have hne : h ≠ h' := fun heq => hother (heq ▸ rfl)
    exact .of_insert (a := .data h') (fun heq => hne (Root.data.inj heq)) rfl
      (.modify _ h' (fun _ => rfl) fun _ hc => hc) rfl
  | write h' r =>
    have hwritten := mild_uvWrite { m with
      bufs := m.bufs.alloc (), writes := m.writes.alloc ⟨m.bufs.fresh⟩ } m.writes.fresh h' r
    exact Mild.rootStep ⟨hwritten.stays, hwritten.roots, hwritten.released⟩
  | shutdown h' r => exact (mild_uvShutdownOcaml m h' r).rootStep
  | read h' => exact Mild.rootStep (.of_blocks_eq rfl rfl rfl)
  | request isNull r =>
    rw [exec, request_eq]
    exact .of_insert (a := .param m.frames) (fun heq => by cases heq) rfl (.alloc _ _) rfl
  | connectDone c status write shutdown =>
    have htaken := mild_clientConnectCb (m.taken (.connect c)) c status write shutdown
    exact Mild.rootStep ⟨htaken.stays, htaken.roots, htaken.released⟩
  | writeDone w status =>
    have htaken := mild_writeCb (m.taken (.write w)) w
    exact Mild.rootStep ⟨htaken.stays, htaken.roots, htaken.released⟩
  | shutdownDone s h' status =>
    have htaken := mild_shutdownCb (m.taken (.shutdown s h')) s
    exact Mild.rootStep ⟨htaken.stays, htaken.roots, htaken.released⟩
  | closed h' =>
    show RootStep m ((m.taken (.close h')).closeCb h') h
    have hstays : Stays m.handles ((m.taken (.close h')).closeCb h').handles := by
      obtain ⟨roots, unregistered, heq⟩ := exists_closeCb_eq (m.taken (.close h')) h'
      rw [heq]
      exact .of_blocks_eq rfl
    by_cases heq : h = h'
    · have hdata := (hok.contents h t ht).callback_of_connected hconn
      have hclosed := roots_closeCb (m.taken (.close h')) (heq ▸ ht) hdata
      rw [← heq] at hclosed hstays ⊢
      exact ⟨hstays, fun _ => iff_of_false hclosed.1 (not_not.mpr hclosed.2), fun _ => hclosed.2⟩
    · obtain ⟨hroots, hreleased⟩ := roots_closeCb_of_ne (m.taken (.close h')) heq
      exact ⟨hstays, fun hm => hroots.trans (hm.trans (not_congr hreleased).symm), hreleased.mpr⟩

end Roots

/-! ## The parsers, in every run -/

/-- The handles are in order; a captured parser is that of one connection, whose field is a
root until the handle is released; and no parser was freed before that. -/
structure ParsersKept (m : Runtime) : Prop where
  handles : HandlesOk m.stubs
  leaves : ShutLeaves m.stubs
  connection : ∀ h p, m.captured h = some p →
    ∃ t, m.stubs.tcp h = some t ∧ t.role = .connection ∧ t.connected = true
  rooted : ∀ h p, m.captured h = some p → m.stubs.RootedAt h
  ended : ∀ h p, m.captured h = some p → p ∈ m.finalised → h ∈ m.stubs.handles.released
  lt : ∀ h p, m.captured h = some p → p < m.parsers.blocks.length
  unique : ∀ h h' p, m.captured h = some p → m.captured h' = some p → h = h'
  released : m.parsers.released = m.finalised
  nodup : m.finalised.Nodup
  clean : m.parsers.dangling = []

/-- Nothing was allocated yet. -/
theorem parsersKept_init : ParsersKept Runtime.init where
  handles := handlesOk_init
  leaves := shutLeaves_init
  connection := nofun
  rooted := nofun
  ended := nofun
  lt := nofun
  unique := nofun
  released := rfl
  nodup := List.nodup_nil
  clean := rfl

section Parsers

variable {m : Runtime}

/-- The stubs go a step; the callbacks stay what they are, or some are replaced. -/
theorem ParsersKept.stub (hm : ParsersKept m) {e : Event} (he : enabled m.stubs e = true)
    {captured : ℕ → Option ℕ} (hcaptured : ∀ h p, captured h = some p →
      m.captured h = some p ∧ e ≠ .requestOn h) :
    ParsersKept { m with stubs := exec m.stubs e, captured := captured } where
  handles := handlesOk_exec m.stubs e hm.handles he
  leaves := shutLeaves_exec hm.leaves hm.handles he
  connection := fun h p hp => by
    obtain ⟨hold, hother⟩ := hcaptured h p hp
    obtain ⟨t, ht, hrole, hconn⟩ := hm.connection h p hold
    obtain ⟨u, hu, hrole', hconn'⟩ :=
      (rootStep_exec hm.handles he ht hrole hconn hother).stays h t ht
    exact ⟨u, hu, hrole'.trans hrole, hconn' hconn⟩
  rooted := fun h p hp => by
    obtain ⟨hold, hother⟩ := hcaptured h p hp
    obtain ⟨t, ht, hrole, hconn⟩ := hm.connection h p hold
    exact (rootStep_exec hm.handles he ht hrole hconn hother).rooted (hm.rooted h p hold)
  ended := fun h p hp hfinal => by
    obtain ⟨hold, hother⟩ := hcaptured h p hp
    obtain ⟨t, ht, hrole, hconn⟩ := hm.connection h p hold
    exact (rootStep_exec hm.handles he ht hrole hconn hother).released (hm.ended h p hold hfinal)
  lt := fun h p hp => hm.lt h p (hcaptured h p hp).1
  unique := fun h h' p hp hp' => hm.unique h h' p (hcaptured h p hp).1 (hcaptured h' p hp').1
  released := hm.released
  nodup := hm.nodup
  clean := hm.clean

/-- An event after which the callbacks are those from before. -/
theorem ParsersKept.keep (hm : ParsersKept m) {e : Event} (he : enabled m.stubs e = true)
    (hother : ∀ h, e ≠ .requestOn h) :
    ParsersKept { m with stubs := exec m.stubs e } :=
  hm.stub he fun h _ hp => ⟨hp, hother h⟩

/-- An event that stores another callback. -/
theorem ParsersKept.replaced (hm : ParsersKept m) {e : Event} (he : enabled m.stubs e = true)
    (h₀ : ℕ) (hother : ∀ h, h ≠ h₀ → e ≠ .requestOn h) :
    ParsersKept (Runtime.replaced { m with stubs := exec m.stubs e } h₀) := by
  refine hm.stub he fun h p hp => ?_
  by_cases heq : h = h₀
  · rw [heq, Function.update_self] at hp
    cases hp
  · rw [Function.update_of_ne heq] at hp
    exact ⟨hp, hother h heq⟩

/-- A connection was accepted: a new handle, whose field is a root, captures a new parser. -/
theorem ParsersKept.accepted {client : ℕ} (hm : ParsersKept m)
    (hnew : m.captured client = none) (htcp : ∃ t, m.stubs.tcp client = some t ∧
      t.role = .connection ∧ t.connected = true)
    (hroot : .data client ∈ m.stubs.roots) (hlive : client ∉ m.stubs.handles.released) :
    ParsersKept (m.accepted client) := by
  have hcases : ∀ h p, (m.accepted client).captured h = some p →
      h = client ∧ p = m.parsers.fresh ∨ h ≠ client ∧ m.captured h = some p := by
    intro h p hp
    have hupdate : Function.update m.captured client (some m.parsers.fresh) h = some p := hp
    by_cases heq : h = client
    · rw [heq, Function.update_self] at hupdate
      exact .inl ⟨heq, (Option.some.inj hupdate).symm⟩
    · rw [Function.update_of_ne heq] at hupdate
      exact .inr ⟨heq, hupdate⟩
  have hfresh : ∀ h, m.captured h ≠ some m.parsers.fresh := fun h hp =>
    Nat.lt_irrefl _ (hm.lt h _ hp)
  constructor
  · exact hm.handles
  · exact hm.leaves
  · intro h p hp
    rcases hcases h p hp with ⟨rfl, -⟩ | ⟨-, hp⟩
    · exact htcp
    · exact hm.connection h p hp
  · intro h p hp
    rcases hcases h p hp with ⟨rfl, -⟩ | ⟨-, hp⟩
    · exact iff_of_true hroot hlive
    · exact hm.rooted h p hp
  · intro h p hp hfinal
    rcases hcases h p hp with ⟨-, rfl⟩ | ⟨-, hp⟩
    · have hreleased : m.parsers.fresh ∈ m.parsers.released := hm.released ▸ hfinal
      exact absurd hreleased Pool.fresh_notMem_released
    · exact hm.ended h p hp hfinal
  · intro h p hp
    show p < (m.parsers.blocks ++ [()]).length
    rw [List.length_append, List.length_singleton]
    rcases hcases h p hp with ⟨-, rfl⟩ | ⟨-, hp⟩
    · exact Nat.lt_succ_self _
    · exact Nat.lt_succ_of_lt (hm.lt h p hp)
  · intro h h' p hp hp'
    rcases hcases h p hp with ⟨rfl, rfl⟩ | ⟨-, hp⟩
    · rcases hcases h' _ hp' with ⟨rfl, -⟩ | ⟨-, hp'⟩
      · rfl
      · exact absurd hp' (hfresh h')
    · rcases hcases h' p hp' with ⟨-, rfl⟩ | ⟨-, hp'⟩
      · exact absurd hp (hfresh h)
      · exact hm.unique h h' p hp hp'
  · exact hm.released
  · exact hm.nodup
  · exact hm.clean

/-- The connection is read while its handle has not been released, so its parser has not
been freed. -/
theorem ParsersKept.execute {h : ℕ} (hm : ParsersKept m)
    (hread : h ∉ m.stubs.handles.released) : m.execute h = m := by
  unfold Runtime.execute
  cases hp : m.captured h with
  | none => rfl
  | some p =>
    have hlive : p ∉ m.parsers.released := by
      rw [hm.released]
      exact fun hfinal => hread (hm.ended h p hp hfinal)
    exact congrArg (fun q => { m with parsers := q }) (Pool.touch_of_notMem hlive)

/-- A parser is reachable as long as a handle that captures it was not released. -/
theorem ParsersKept.reachable_iff (hm : ParsersKept m) (p : ℕ) :
    m.Reachable p ↔ ∃ h, m.captured h = some p ∧ h ∉ m.stubs.handles.released := by
  constructor
  · rintro ⟨a, ha, hp⟩
    cases a with
    | data h => exact ⟨h, hp, (hm.rooted h p hp).mp ha⟩
    | param n => cases hp
  · rintro ⟨h, hp, hh⟩
    exact ⟨.data h, (hm.rooted h p hp).mpr hh, hp⟩

/-- A parser may be finalised when all handles that capture it were released. -/
theorem ParsersKept.enabled_finalise_iff (hm : ParsersKept m) {p : ℕ} (hp : m.parsers.Live p) :
    m.enabled (.finalise p) = true ↔
      ∀ h, m.captured h = some p → h ∈ m.stubs.handles.released := by
  have hfinal : p ∉ m.finalised := hm.released ▸ hp.2
  rw [Runtime.enabled, decide_eq_true_iff, hm.reachable_iff]
  constructor
  · rintro ⟨-, -, hnot⟩ h hh
    by_contra hreleased
    exact hnot ⟨h, hh, hreleased⟩
  · intro hall
    refine ⟨hp.1, hfinal, ?_⟩
    rintro ⟨h, hh, hreleased⟩
    exact hreleased (hall h hh)

/-- A finaliser that the collector may call. -/
theorem ParsersKept.finalise (hm : ParsersKept m) {p : ℕ}
    (he : m.enabled (.finalise p) = true) : ParsersKept (m.exec (.finalise p)) := by
  obtain ⟨hlt, hfinal, -⟩ := of_decide_eq_true he
  have hlive : m.parsers.Live p := ⟨hlt, hm.released ▸ hfinal⟩
  have hends := (hm.enabled_finalise_iff hlive).mp he
  constructor
  · exact hm.handles
  · exact hm.leaves
  · exact hm.connection
  · exact hm.rooted
  · intro h q hq hmem
    rcases List.mem_append.mp hmem with hold | hnew
    · exact hm.ended h q hq hold
    · rw [List.mem_singleton] at hnew
      exact hends h (hnew ▸ hq)
  · exact hm.lt
  · exact hm.unique
  · show (m.parsers.release p).released = m.finalised ++ [p]
    rw [Pool.released_release hlt, hm.released]
  · exact List.nodup_append.mpr ⟨hm.nodup, List.nodup_singleton p, fun q hq r hr => by
      rintro rfl
      exact hfinal (List.mem_singleton.mp hr ▸ hq)⟩
  · exact hm.clean

/-- **The step.** -/
theorem parsersKept_exec (hm : ParsersKept m) {e : RuntimeEvent} (he : m.enabled e = true) :
    ParsersKept (m.exec e) := by
  cases e with
  | finalise p => exact hm.finalise he
  | stub e =>
    have henabled : enabled m.stubs e = true := he
    cases e with
    | listen server => exact hm.replaced henabled server fun _ _ => nofun
    | requestOn h =>
      exact hm.replaced henabled h fun h' hne heq => hne (Event.requestOn.inj heq).symm
    | read h =>
      have hnext := hm.keep henabled fun _ => nofun
      have hread : h ∉ m.stubs.handles.released := by
        intro hh
        obtain ⟨t, ht, hopen⟩ := (Option.any_eq_true _ _).mp henabled
        obtain ⟨u, hu, hclosing⟩ := hm.handles.closing h (.inl hh)
        obtain rfl : t = u := Option.some.inj (ht.symm.trans hu)
        rw [hclosing, Bool.not_true, Bool.and_false] at hopen
        cases hopen
      have hexec : m.exec (.stub (.read h)) = { m with stubs := exec m.stubs (.read h) } :=
        hnext.execute hread
      rw [hexec]
      exact hnext
    | connection server isNull accept shutdown =>
      have hnext := hm.keep henabled fun _ => nofun
      by_cases haccept : accept = 0
      · have hnone : m.captured m.stubs.handles.fresh = none := by
          refine Option.eq_none_iff_forall_ne_some.mpr fun p hp => ?_
          obtain ⟨t, ht, -⟩ := hm.connection _ p hp
          exact Nat.lt_irrefl _ (List.getElem?_eq_some_iff.mp ht).1
        have hstubs : exec m.stubs (.connection server isNull accept shutdown)
            = _ := haccept ▸ connectionCb_of_accepted m.stubs server isNull shutdown
        have hexec : m.exec (.stub (.connection server isNull accept shutdown))
            = Runtime.accepted
              { m with stubs := exec m.stubs (.connection server isNull accept shutdown) }
              m.stubs.handles.fresh := if_pos haccept
        rw [hexec]
        refine hnext.accepted hnone ?_ ?_ ?_
        · rw [hstubs]
          exact ⟨_, Pool.getElem?_alloc_fresh (p := (m.stubs.handles.touch server).touch server) _,
            rfl, rfl⟩
        · rw [hstubs]
          exact Finset.mem_insert_self _ _
        · rw [hstubs]
          exact Pool.fresh_notMem_released
      · have hexec : m.exec (.stub (.connection server isNull accept shutdown))
            = { m with stubs := exec m.stubs (.connection server isNull accept shutdown) } :=
          if_neg haccept
        rw [hexec]
        exact hnext
    | createServer isNull => exact hm.keep henabled fun _ => nofun
    | run isNull => exact hm.keep henabled fun _ => nofun
    | write h r => exact hm.keep henabled fun _ => nofun
    | shutdown h r => exact hm.keep henabled fun _ => nofun
    | request isNull r => exact hm.keep henabled fun _ => nofun
    | connectDone c status write shutdown => exact hm.keep henabled fun _ => nofun
    | writeDone w status => exact hm.keep henabled fun _ => nofun
    | shutdownDone s h status => exact hm.keep henabled fun _ => nofun
    | closed h => exact hm.keep henabled fun _ => nofun

end Parsers

/-- **The memory of the parsers.**  In every run of the stubs and the collector no parser is
freed twice or used by `execute` after it was freed; the collector may free a parser exactly
when the connection whose callback captures it, if one still does, has been released; and when
no callback is owed these are the connections that were shut down, so that the parser of a
connection that is not shut down is never freed. -/
theorem parsers_kept {es : List RuntimeEvent} (hes : runtime.Possible Runtime.init es) :
    let m := runtime.after Runtime.init es
    m.parsers.Sound ∧
    (∀ p, m.parsers.Live p → (m.enabled (.finalise p) = true ↔
      ∀ h, m.captured h = some p → h ∈ m.stubs.handles.released)) ∧
    (m.stubs.pending = [] → ∀ h p, m.captured h = some p → m.parsers.Live p →
      (m.enabled (.finalise p) = true ↔ ∃ t, m.stubs.tcp h = some t ∧ t.shut = true)) := by
  intro m
  have hm : ParsersKept m := Machine.invariant_of_possible (M := runtime) (I := ParsersKept)
    (fun _ _ hm he => parsersKept_exec hm he) parsersKept_init hes
  refine ⟨⟨hm.released ▸ hm.nodup, hm.clean⟩, fun p => hm.enabled_finalise_iff, ?_⟩
  intro hnone h p hp hlive
  rw [hm.enabled_finalise_iff hlive]
  constructor
  · exact fun hall => hm.handles.shut h (List.mem_append_left _ (hall h hp))
  · rintro ⟨t, ht, hshut⟩ h' hp'
    rw [hm.unique h' h p hp' hp]
    rcases hm.leaves h t ht hshut with hh | ⟨q, hq, -⟩
    · exact hh
    · rw [hnone] at hq
      cases hq

/-- Two connections, the first of which is shut down and its parser freed. -/
def oneFreed : List RuntimeEvent :=
  [.stub (.createServer false), .stub (.listen 0), .stub (.connection 0 true 0 0),
    .stub (.connection 0 true 0 0), .stub (.read 1), .stub (.shutdown 1 0),
    .stub (.shutdownDone 0 1 0), .stub (.closed 1), .finalise 0, .stub (.read 2)]

theorem parsers_kept_oneFreed :
    let m := runtime.after Runtime.init oneFreed
    m.parsers.Sound ∧
    (∀ p, m.parsers.Live p → (m.enabled (.finalise p) = true ↔
      ∀ h, m.captured h = some p → h ∈ m.stubs.handles.released)) ∧
    (m.stubs.pending = [] → ∀ h p, m.captured h = some p → m.parsers.Live p →
      (m.enabled (.finalise p) = true ↔ ∃ t, m.stubs.tcp h = some t ∧ t.shut = true)) :=
  parsers_kept (by decide)

end Lifecycle
