/-
# The handles that stay open

A handle is released by `close_cb`, after a shutdown that libuv took.  OCaml code shuts
down connections only, and `client_connect_cb` asks for the shutdown of a handle whose
connection was not made.  So nothing ends a server, which goes on taking connections, and
nothing ends the handle of a client that was connected.
-/
import UvHttp.NativeParsers

namespace Lifecycle

/-! ## What a step does with the handles -/

/-- What the handle is for that an event makes. -/
def Event.makes : Event → Option Role
  | .createServer _ => some .server
  | .run _ => some .unused
  | .connection _ _ _ _ => some .connection
  | .request _ _ => some .client
  | _ => none

/-- The handle of a client that an event connects. -/
def State.joins (m : State) : Event → Option ℕ
  | .connectDone c status _ _ =>
    if status = 0 then (m.connects.blocks[c]?).map ClientConnectReq.handle else none
  | _ => none

/-- The handle of a client that an event gives up: the connection was not made, and libuv
takes the shutdown. -/
def State.givesUp (m : State) : Event → Option ℕ
  | .connectDone c status _ shutdown =>
    if status ≠ 0 ∧ shutdown = 0 then (m.connects.blocks[c]?).map ClientConnectReq.handle
    else none
  | _ => none

/-- Handles keep their roles, and at most one is new; none stops listening or is no longer shut
down; at most one of those that were there is connected now, and besides connections
at most one is shut down. -/
structure Grows (made : Option Role) (joined ended : Option ℕ) (p q : Pool Tcp) : Prop where
  roles : q.blocks.map Tcp.role = p.blocks.map Tcp.role ++ made.toList
  kept : ∀ (h : ℕ) (t u : Tcp), p.blocks[h]? = some t → q.blocks[h]? = some u →
    (t.listening = true → u.listening = true) ∧ (t.shut = true → u.shut = true)
  connected : ∀ (h : ℕ) (t u : Tcp), p.blocks[h]? = some t → q.blocks[h]? = some u →
    u.connected = true → t.connected = true ∨ joined = some h
  shut : ∀ (h : ℕ) (u : Tcp), q.blocks[h]? = some u → u.shut = true →
    u.role = .connection ∨ ended = some h ∨ ∃ t, p.blocks[h]? = some t ∧ t.shut = true

section Grows

variable {made : Option Role} {joined ended : Option ℕ} {p q r : Pool Tcp}

/-- What was there is still there. -/
theorem Grows.exists_later (hpq : Grows made joined ended p q) {h : ℕ} {t : Tcp}
    (ht : p.blocks[h]? = some t) : ∃ u, q.blocks[h]? = some u ∧ u.role = t.role := by
  have hlt : h < (p.blocks.map Tcp.role).length := by
    rw [List.length_map]
    exact (List.getElem?_eq_some_iff.mp ht).1
  have hrole : (q.blocks.map Tcp.role)[h]? = some t.role := by
    rw [hpq.roles, List.getElem?_append_left hlt, List.getElem?_map, ht]
    rfl
  rw [List.getElem?_map] at hrole
  exact Option.map_eq_some_iff.mp hrole

/-- A handle keeps its role. -/
theorem Grows.role_eq (hpq : Grows made joined ended p q) {h : ℕ} {t u : Tcp}
    (ht : p.blocks[h]? = some t) (hu : q.blocks[h]? = some u) : u.role = t.role := by
  obtain ⟨v, hv, hrole⟩ := hpq.exists_later ht
  obtain rfl : u = v := Option.some.inj (hu.symm.trans hv)
  exact hrole

/-- A step that makes a handle, or none, and one that makes none. -/
theorem Grows.keep (hpq : Grows made joined ended p q) (hqr : Grows none joined ended q r) :
    Grows made joined ended p r where
  roles := by rw [hqr.roles, hpq.roles, Option.toList_none, List.append_nil]
  kept := fun h t u ht hu => by
    obtain ⟨v, hv, -⟩ := hpq.exists_later ht
    obtain ⟨hlistening, hshut⟩ := hpq.kept h t v ht hv
    obtain ⟨hlistening', hshut'⟩ := hqr.kept h v u hv hu
    exact ⟨fun hl => hlistening' (hlistening hl), fun hs => hshut' (hshut hs)⟩
  connected := fun h t u ht hu hconn => by
    obtain ⟨v, hv, -⟩ := hpq.exists_later ht
    rcases hqr.connected h v u hv hu hconn with hconn | hjoined
    · exact hpq.connected h t v ht hv hconn
    · exact .inr hjoined
  shut := fun h u hu hshut => by
    rcases hqr.shut h u hu hshut with hrole | hended | ⟨v, hv, hshut⟩
    · exact .inl hrole
    · exact .inr (.inl hended)
    · rw [hqr.role_eq hv hu]
      exact hpq.shut h v hv hshut

/-- A step that does not write to handles. -/
theorem Grows.of_blocks_eq (hblocks : q.blocks = p.blocks) : Grows none joined ended p q where
  roles := by rw [hblocks, Option.toList_none, List.append_nil]
  kept := fun h t u ht hu => by
    rw [hblocks] at hu
    obtain rfl : t = u := Option.some.inj (ht.symm.trans hu)
    exact ⟨id, id⟩
  connected := fun h t u ht hu hconn => by
    rw [hblocks] at hu
    obtain rfl : t = u := Option.some.inj (ht.symm.trans hu)
    exact .inl hconn
  shut := fun h u hu hshut => .inr (.inr ⟨u, hblocks ▸ hu, hshut⟩)

/-- A new handle. -/
theorem Grows.alloc (t : Tcp) (hblocks : q.blocks = p.blocks ++ [t]) (hnew : t.shut = false) :
    Grows (some t.role) joined ended p q where
  roles := by
    rw [hblocks]
    exact List.map_append
  kept := fun h u v hu hv => by
    have hlt : h < p.blocks.length := (List.getElem?_eq_some_iff.mp hu).1
    rw [hblocks, List.getElem?_append_left hlt] at hv
    obtain rfl : u = v := Option.some.inj (hu.symm.trans hv)
    exact ⟨id, id⟩
  connected := fun h u v hu hv hconn => by
    have hlt : h < p.blocks.length := (List.getElem?_eq_some_iff.mp hu).1
    rw [hblocks, List.getElem?_append_left hlt] at hv
    obtain rfl : u = v := Option.some.inj (hu.symm.trans hv)
    exact .inl hconn
  shut := fun h u hu hshut => by
    rw [hblocks] at hu
    exact .inr (.inr (NoNewShut.alloc p hnew h u hu hshut))

/-- A write into one handle. -/
theorem Grows.modify (i : ℕ) (f : Tcp → Tcp) (hblocks : q.blocks = p.blocks.modify i f)
    (hrole : ∀ t, (f t).role = t.role)
    (hkept : ∀ t : Tcp, (t.listening = true → (f t).listening = true) ∧
      (t.shut = true → (f t).shut = true))
    (hconn : ∀ t : Tcp, (f t).connected = true → t.connected = true ∨ joined = some i)
    (hshut : ∀ t : Tcp, p.blocks[i]? = some t → (f t).shut = true →
      t.role = .connection ∨ ended = some i ∨ t.shut = true) : Grows none joined ended p q := by
  have hget : ∀ h : ℕ, q.blocks[h]? = if i = h then (p.blocks[h]?).map f else p.blocks[h]? := by
    intro h
    rw [hblocks]
    exact Pool.getElem?_modify f
  constructor
  · rw [Option.toList_none, List.append_nil]
    refine List.ext_getElem? fun h => ?_
    rw [List.getElem?_map, List.getElem?_map, hget]
    split_ifs
    · rw [Option.map_map]
      exact congrArg (Option.map · _) (funext hrole)
    · rfl
  · intro h t u ht hu
    rw [hget, ht] at hu
    split_ifs at hu
    · rw [← Option.some.inj hu]
      exact hkept t
    · rw [← Option.some.inj hu]
      exact ⟨id, id⟩
  · intro h t u ht hu hconnected
    rw [hget, ht] at hu
    split_ifs at hu with heq
    · rw [← Option.some.inj hu] at hconnected
      exact heq ▸ hconn t hconnected
    · rw [← Option.some.inj hu] at hconnected
      exact .inl hconnected
  · intro h u hu hshutNow
    rw [hget] at hu
    split_ifs at hu with heq
    · obtain ⟨t, ht, rfl⟩ := Option.map_eq_some_iff.mp hu
      rw [hrole, ← heq]
      exact (hshut t (heq ▸ ht) hshutNow).imp_right fun hs =>
        hs.imp_right fun hs => ⟨t, heq ▸ ht, hs⟩
    · exact .inr (.inr ⟨u, hu, hshutNow⟩)

end Grows

section Steps

variable {m : State} {joined ended : Option ℕ}

/-- `uv_shutdown`, of a connection or of the handle that is given up. -/
theorem grows_uvShutdown (m : State) (s : ℕ) {h : ℕ} {r : ℤ}
    (hshut : r = 0 → ∀ t, m.tcp h = some t → t.role = .connection ∨ ended = some h) :
    Grows none joined ended m.handles (m.uvShutdown s h r).handles := by
  rw [uvShutdown_eq]
  split_ifs with htakes
  · refine Grows.modify h (fun t => { t with shut := true }) rfl (fun _ => rfl)
      (fun _ => ⟨id, fun _ => rfl⟩) (fun _ => .inl) fun t ht _ => ?_
    exact (hshut htakes.2 t ht).imp_right .inl
  · exact .of_blocks_eq rfl

/-- `uv_shutdown_ocaml`, of a connection. -/
theorem grows_uvShutdownOcaml (m : State) {h : ℕ} (r : ℤ)
    (hrole : ∀ t, m.tcp h = some t → t.role = .connection) :
    Grows none joined ended m.handles (m.uvShutdownOcaml h r).handles :=
  grows_uvShutdown { m with shutdowns := m.shutdowns.alloc ⟨h⟩ } m.shutdowns.fresh
    fun _ t ht => .inl (hrole t ht)

/-- `uv_write` does not write to the handle. -/
theorem blocks_uvWrite (m : State) (w h : ℕ) (r : ℤ) :
    (m.uvWrite w h r).handles.blocks = m.handles.blocks := by
  unfold State.uvWrite
  split_ifs <;> rfl

/-- OCaml code only holds connections. -/
theorem role_of_held {h : ℕ} {t : Tcp} (hheld : m.held h = true) (ht : m.tcp h = some t) :
    t.role = .connection := by
  rw [State.held, ht, Option.any_some, Bool.and_eq_true] at hheld
  exact of_decide_eq_true hheld.1

/-- `client_connect_cb`. -/
theorem grows_clientConnectCb (m : State) (c : ℕ) (status write shutdown : ℤ) :
    Grows none (m.joins (.connectDone c status write shutdown))
      (m.givesUp (.connectDone c status write shutdown)) m.handles
      (m.clientConnectCb c status write shutdown).handles := by
  show Grows none (if status = 0 then _ else _) (if status ≠ 0 ∧ shutdown = 0 then _ else _)
    m.handles _
  cases hreq : m.connects.blocks[c]? with
  | none =>
    rw [clientConnectCb_of_none hreq]
    exact .of_blocks_eq rfl
  | some req =>
    by_cases hstatus : status = 0
    · rw [if_pos hstatus, hstatus, clientConnectCb_of_made hreq]
      refine Grows.modify req.handle (fun t => { t with connected := true }) ?_ (fun _ => rfl)
        (fun _ => ⟨id, id⟩) (fun _ _ => .inr rfl) fun _ _ hs => .inr (.inr hs)
      exact blocks_uvWrite (m.connectMade c req) m.writes.fresh req.handle write
    · rw [if_neg hstatus, clientConnectCb_of_failed hreq hstatus]
      have hended : Grows none none (if status ≠ 0 ∧ shutdown = 0 then some req.handle else none)
          m.handles ((m.connectFailed c req).uvShutdown m.shutdowns.fresh req.handle
            shutdown).handles :=
        grows_uvShutdown (m.connectFailed c req) _ fun hr _ _ => .inr (if_pos ⟨hstatus, hr⟩)
      exact hended.keep (.of_blocks_eq rfl)

/-- **The step**, for the handles. -/
theorem grows_exec {e : Event} (he : enabled m e = true) :
    Grows e.makes (m.joins e) (m.givesUp e) m.handles (exec m e).handles := by
  cases e with
  | createServer isNull =>
    exact .alloc ⟨.server, .junk isNull, false, false, false, false, false⟩ rfl rfl
  | run isNull => exact .alloc ⟨.unused, .junk isNull, false, false, false, false, false⟩ rfl rfl
  | listen server =>
    have hstored : Grows none none none m.handles (m.requestOn server).handles :=
      .modify server (fun t => { t with data := .callback }) rfl (fun _ => rfl)
        (fun _ => ⟨id, id⟩) (fun _ => .inl) fun _ _ hs => .inr (.inr hs)
    exact hstored.keep <| .modify server (fun t => { t with listening := true }) rfl
      (fun _ => rfl) (fun _ => ⟨fun _ => rfl, id⟩) (fun _ => .inl) fun _ _ hs => .inr (.inr hs)
  | connection server isNull accept shutdown =>
    show Grows (some .connection) none none m.handles
      (m.connectionCb server isNull accept shutdown).handles
    by_cases haccept : accept = 0
    · rw [haccept, connectionCb_of_accepted]
      exact .alloc ⟨.connection, .callback, false, true, true, false, false⟩ rfl rfl
    · rw [State.connectionCb, if_neg haccept]
      let t : Tcp := ⟨.connection, .junk isNull, false, false, false, false, false⟩
      let m₁ : State := { m with
        handles := ((m.handles.touch server).alloc t).touch server
        failed := m.failed ++ [m.handles.fresh] }
      have hnew : Grows (some .connection) none none m.handles m₁.handles := .alloc t rfl rfl
      refine hnew.keep (grows_uvShutdownOcaml m₁ shutdown fun u hu => ?_)
      have hfresh := Pool.getElem?_alloc_fresh (p := m.handles.touch server) t
      rw [← Option.some.inj (hfresh.symm.trans hu)]
  | requestOn h =>
    exact .modify h (fun t => { t with data := .callback }) rfl (fun _ => rfl)
      (fun _ => ⟨id, id⟩) (fun _ => .inl) fun _ _ hs => .inr (.inr hs)
  | write h r => exact .of_blocks_eq (blocks_uvWrite _ m.writes.fresh h r)
  | shutdown h r => exact grows_uvShutdownOcaml m r fun t ht => role_of_held he ht
  | read h => exact .of_blocks_eq rfl
  | request isNull r =>
    rw [exec, request_eq]
    exact .alloc ⟨.client, .callback, false, false, true, false, false⟩ rfl rfl
  | connectDone c status write shutdown =>
    exact grows_clientConnectCb (m.taken (.connect c)) c status write shutdown
  | writeDone w status =>
    show Grows none none none m.handles ((m.taken (.write w)).writeCb w).handles
    unfold State.writeCb
    cases (m.taken (.write w)).writes.blocks[w]? <;> exact .of_blocks_eq rfl
  | shutdownDone s h status =>
    show Grows none none none m.handles ((m.taken (.shutdown s h)).shutdownCb s).handles
    unfold State.shutdownCb
    cases (m.taken (.shutdown s h)).shutdowns.blocks[s]? with
    | none => exact .of_blocks_eq rfl
    | some req =>
      exact .modify req.handle (fun t => { t with closing := true }) rfl (fun _ => rfl)
        (fun _ => ⟨id, id⟩) (fun _ => .inl) fun _ _ hs => .inr (.inr hs)
  | closed h =>
    obtain ⟨roots, unregistered, heq⟩ := exists_closeCb_eq (m.taken (.close h)) h
    rw [exec, heq]
    exact .of_blocks_eq rfl

end Steps

/-! ## Connect requests -/

section Requests

variable {m : State} {e : Event}

/-- A client is connected, or given up, by the callback of its request. -/
theorem exists_of_joins_or_givesUp {h : ℕ} (hdone : m.joins e = some h ∨ m.givesUp e = some h) :
    ∃ c status write shutdown q, e = .connectDone c status write shutdown ∧
      m.connects.blocks[c]? = some q ∧ q.handle = h := by
  cases e with
  | connectDone c status write shutdown =>
    have hhandle : (m.connects.blocks[c]?).map ClientConnectReq.handle = some h := by
      rcases hdone with hif | hif
      · change (if status = 0 then _ else none) = some h at hif
        split_ifs at hif
        exact hif
      · change (if status ≠ 0 ∧ shutdown = 0 then _ else none) = some h at hif
        split_ifs at hif
        exact hif
    obtain ⟨q, hq, hh⟩ := Option.map_eq_some_iff.mp hhandle
    exact ⟨c, status, write, shutdown, q, rfl, hq, hh⟩
  | _ => rcases hdone with hnone | hnone <;> cases hnone

/-- No event connects a handle and gives one up. -/
theorem not_joins_and_givesUp {h h' : ℕ} (hjoins : m.joins e = some h)
    (hends : m.givesUp e = some h') : False := by
  cases e with
  | connectDone c status write shutdown =>
    change (if status = 0 then _ else none) = some h at hjoins
    change (if status ≠ 0 ∧ shutdown = 0 then _ else none) = some h' at hends
    split_ifs at hjoins hends with hstatus hfailed
    exact hfailed.1 hstatus
  | _ => cases hjoins

/-- `client_connect_cb` releases its request. -/
theorem connects_clientConnectCb (m : State) {c : ℕ} {q : ClientConnectReq}
    (hq : m.connects.blocks[c]? = some q) (status write shutdown : ℤ) :
    (m.clientConnectCb c status write shutdown).connects.blocks = m.connects.blocks ∧
      (m.clientConnectCb c status write shutdown).connects.released
        = m.connects.released ++ [c] := by
  have hlt : c < m.connects.blocks.length := (List.getElem?_eq_some_iff.mp hq).1
  by_cases hstatus : status = 0
  · rw [hstatus, clientConnectCb_of_made hq]
    exact ⟨rfl, Pool.released_release (p := m.connects.touch c) hlt⟩
  · rw [clientConnectCb_of_failed hq hstatus]
    exact ⟨rfl, Pool.released_release (p := m.connects) hlt⟩

/-- Connect requests are made by `request` and released by `client_connect_cb`. -/
theorem connects_exec (hrequest : ∀ isNull r, e ≠ .request isNull r)
    (hdone : ∀ c status write shutdown, e ≠ .connectDone c status write shutdown) :
    (exec m e).connects = m.connects := by
  cases e with
  | request isNull r => exact absurd rfl (hrequest isNull r)
  | connectDone c status write shutdown => exact absurd rfl (hdone c status write shutdown)
  | connection server isNull accept shutdown =>
    show (m.connectionCb server isNull accept shutdown).connects = m.connects
    by_cases haccept : accept = 0
    · rw [haccept, connectionCb_of_accepted]
    · rw [State.connectionCb, if_neg haccept]
      exact connects_uvShutdown _ _ _ shutdown
  | write h r => exact connects_uvWrite _ _ h r
  | shutdown h r => exact connects_uvShutdown _ _ h r
  | writeDone w status =>
    show ((m.taken (.write w)).writeCb w).connects = m.connects
    unfold State.writeCb
    cases (m.taken (.write w)).writes.blocks[w]? <;> rfl
  | shutdownDone s h status =>
    show ((m.taken (.shutdown s h)).shutdownCb s).connects = m.connects
    unfold State.shutdownCb
    cases (m.taken (.shutdown s h)).shutdowns.blocks[s]? <;> rfl
  | closed h =>
    obtain ⟨roots, unregistered, heq⟩ := exists_closeCb_eq (m.taken (.close h)) h
    rw [exec, heq]
    rfl
  | _ => rfl

/-- Without a call of `request` there are no new connect requests; those that were released
stay so, and the one that `client_connect_cb` is run for is released. -/
theorem requests_exec (hrequest : ∀ isNull r, e ≠ .request isNull r) :
    (exec m e).connects.blocks = m.connects.blocks ∧
      ∀ c q, m.connects.blocks[c]? = some q → (c ∈ m.connects.released ∨
        ∃ status write shutdown, e = .connectDone c status write shutdown) →
        c ∈ (exec m e).connects.released := by
  by_cases hdone : ∃ c status write shutdown, e = .connectDone c status write shutdown
  · obtain ⟨c, status, write, shutdown, rfl⟩ := hdone
    show ((m.taken (.connect c)).clientConnectCb c status write shutdown).connects.blocks = _ ∧
      ∀ _ _, _ → _ →
        _ ∈ ((m.taken (.connect c)).clientConnectCb c status write shutdown).connects.released
    cases hq : m.connects.blocks[c]? with
    | none =>
      rw [clientConnectCb_of_none (m := m.taken (.connect c)) hq]
      refine ⟨rfl, fun c' q' hq' hc' => hc'.resolve_right ?_⟩
      rintro ⟨_, _, _, heq⟩
      obtain ⟨rfl, -⟩ := Event.connectDone.inj heq
      rw [hq] at hq'
      cases hq'
    | some q =>
      obtain ⟨hblocks, hreleased⟩ :=
        connects_clientConnectCb (m.taken (.connect c)) hq status write shutdown
      refine ⟨hblocks, fun c' q' _ hc' => ?_⟩
      rw [hreleased]
      rcases hc' with hold | ⟨_, _, _, heq⟩
      · exact List.mem_append_left _ hold
      · obtain ⟨rfl, -⟩ := Event.connectDone.inj heq
        exact List.mem_append_right _ List.mem_cons_self
  · rw [connects_exec hrequest fun c status write shutdown heq =>
      hdone ⟨c, status, write, shutdown, heq⟩]
    refine ⟨rfl, fun c q _ hc => hc.resolve_right ?_⟩
    rintro ⟨status, write, shutdown, heq⟩
    exact hdone ⟨c, status, write, shutdown, heq⟩

/-- Connect requests stay what they are. -/
theorem request_exec {c : ℕ} {q : ClientConnectReq} (hq : m.connects.blocks[c]? = some q) :
    (exec m e).connects.blocks[c]? = some q := by
  by_cases hrequest : ∃ isNull r, e = .request isNull r
  · obtain ⟨isNull, r, rfl⟩ := hrequest
    have hlt : c < m.connects.blocks.length := (List.getElem?_eq_some_iff.mp hq).1
    rw [exec, request_eq]
    exact (Pool.getElem?_alloc_of_lt _ hlt).trans hq
  · rw [(requests_exec fun isNull r heq => hrequest ⟨isNull, r, heq⟩).1]
    exact hq

end Requests

/-! ## Open handles, in every run -/

/-- Only connections and clients are shut down.  A connect request whose handle is connected
or shut down was released, and the handle is not both; no two requests are for one
handle. -/
structure OpenHandles (m : State) : Prop where
  handles : HandlesOk m
  census : ∃ l, Census m l []
  shut : ∀ (h : ℕ) (t : Tcp), m.tcp h = some t → t.shut = true →
    t.role = .connection ∨ t.role = .client
  answered : ∀ (c : ℕ) (q : ClientConnectReq) (t : Tcp), m.connects.blocks[c]? = some q →
    m.tcp q.handle = some t →
    (t.connected = true ∨ t.shut = true → c ∈ m.connects.released) ∧
      ¬ (t.connected = true ∧ t.shut = true)
  distinct : (m.connects.blocks.map ClientConnectReq.handle).Nodup

/-- Nothing was allocated yet. -/
theorem openHandles_init : OpenHandles State.init where
  handles := handlesOk_init
  census := ⟨.none, census_init⟩
  shut := fun h t ht => by cases ht
  answered := fun c q t hq => by cases hq
  distinct := List.nodup_nil

section Runs

variable {m : State} {e : Event}

/-- What a callback is owed for was not released. -/
theorem OpenHandles.owed (hm : OpenHandles m) {c : ℕ} (hc : .connect c ∈ m.pending) :
    c ∉ m.connects.released := by
  obtain ⟨l, hl⟩ := hm.census
  exact hl.connects.notMem_released
    (List.mem_append_left _ (List.mem_filterMap.mpr ⟨_, hc, rfl⟩))

/-- Two connect requests for one handle are the same. -/
theorem OpenHandles.eq_of_handle_eq (hm : OpenHandles m) {c c' : ℕ} {q q' : ClientConnectReq}
    (hq : m.connects.blocks[c]? = some q) (hq' : m.connects.blocks[c']? = some q')
    (heq : q.handle = q'.handle) : c = c' := by
  have hlt : c < (m.connects.blocks.map ClientConnectReq.handle).length := by
    rw [List.length_map]
    exact (List.getElem?_eq_some_iff.mp hq).1
  refine (List.getElem?_inj hlt hm.distinct).mp ?_
  rw [List.getElem?_map, List.getElem?_map, hq, hq', Option.map_some, Option.map_some, heq]

/-- What connects the handle of a request, or gives it up, is the callback of that request. -/
theorem OpenHandles.eq_connectDone (hm : OpenHandles m) {c : ℕ} {q : ClientConnectReq}
    (hq : m.connects.blocks[c]? = some q)
    (hdone : m.joins e = some q.handle ∨ m.givesUp e = some q.handle) :
    ∃ status write shutdown, e = .connectDone c status write shutdown := by
  obtain ⟨c', status, write, shutdown, q', rfl, hq', heq⟩ := exists_of_joins_or_givesUp hdone
  obtain rfl := hm.eq_of_handle_eq hq' hq heq
  exact ⟨status, write, shutdown, rfl⟩

/-- Of the handles of connect requests, one is shut down when it is given up. -/
theorem OpenHandles.shut_exec (hm : OpenHandles m) (he : enabled m e = true) {c : ℕ}
    {q : ClientConnectReq} {t u : Tcp} (hq : m.connects.blocks[c]? = some q)
    (ht : m.tcp q.handle = some t) (hu : (exec m e).tcp q.handle = some u)
    (hshut : u.shut = true) : t.shut = true ∨ m.givesUp e = some q.handle := by
  rcases (grows_exec he).shut q.handle u hu hshut with hrole | hends | ⟨t', ht', htshut⟩
  · obtain ⟨t', ht', hclient, -⟩ := hm.handles.client c q hq
    rw [(grows_exec he).role_eq ht' hu, hclient] at hrole
    cases hrole
  · exact .inr hends
  · obtain rfl : t = t' := Option.some.inj (ht.symm.trans ht')
    exact .inl htshut

/-- A connect request that was there, after the step. -/
theorem OpenHandles.answered_exec (hm : OpenHandles m) (he : enabled m e = true) {c : ℕ}
    {q : ClientConnectReq} {u : Tcp} (hq : m.connects.blocks[c]? = some q)
    (hu : (exec m e).tcp q.handle = some u) :
    (u.connected = true ∨ u.shut = true →
      c ∈ m.connects.released ∨ ∃ status write shutdown, e = .connectDone c status write shutdown) ∧
    ¬ (u.connected = true ∧ u.shut = true) := by
  obtain ⟨t, ht, -⟩ := hm.handles.client c q hq
  obtain ⟨hold, hone⟩ := hm.answered c q t hq ht
  have hjoined : u.connected = true → t.connected = true ∨ m.joins e = some q.handle :=
    (grows_exec he).connected q.handle t u ht hu
  have hended : u.shut = true → t.shut = true ∨ m.givesUp e = some q.handle :=
    hm.shut_exec he hq ht hu
  -- the request whose callback is run is owed it
  have howed : m.joins e = some q.handle ∨ m.givesUp e = some q.handle →
      c ∉ m.connects.released := by
    intro hdone
    obtain ⟨status, write, shutdown, rfl⟩ := hm.eq_connectDone hq hdone
    exact hm.owed (of_decide_eq_true he)
  constructor
  · rintro (hconn | hshut)
    · rcases hjoined hconn with hconn | hjoins
      · exact .inl (hold (.inl hconn))
      · exact .inr (hm.eq_connectDone hq (.inl hjoins))
    · rcases hended hshut with hshut | hends
      · exact .inl (hold (.inr hshut))
      · exact .inr (hm.eq_connectDone hq (.inr hends))
  · rintro ⟨hconn, hshut⟩
    rcases hjoined hconn with hconn | hjoins
    · rcases hended hshut with hshut | hends
      · exact hone ⟨hconn, hshut⟩
      · exact howed (.inr hends) (hold (.inl hconn))
    · rcases hended hshut with hshut | hends
      · exact howed (.inl hjoins) (hold (.inr hshut))
      · exact not_joins_and_givesUp hjoins hends

/-- **The step.** -/
theorem openHandles_exec (hm : OpenHandles m) (he : enabled m e = true) :
    OpenHandles (exec m e) := by
  have hshut : ∀ (h : ℕ) (u : Tcp), (exec m e).tcp h = some u → u.shut = true →
      u.role = .connection ∨ u.role = .client := by
    intro h u hu hshut
    rcases (grows_exec he).shut h u hu hshut with hrole | hends | ⟨t, ht, htshut⟩
    · exact .inl hrole
    · obtain ⟨c, _, _, _, q, -, hq, rfl⟩ := exists_of_joins_or_givesUp (.inr hends)
      obtain ⟨t, ht, hclient, -⟩ := hm.handles.client c q hq
      exact .inr (((grows_exec he).role_eq ht hu).trans hclient)
    · rw [(grows_exec he).role_eq ht hu]
      exact hm.shut h t ht htshut
  have hcensus : ∃ l, Census (exec m e) l [] := by
    obtain ⟨l, hl⟩ := hm.census
    exact ⟨_, census_exec hl hm.handles he⟩
  by_cases hrequest : ∃ isNull r, e = .request isNull r
  · obtain ⟨isNull, r, rfl⟩ := hrequest
    have hexec : exec m (.request isNull r) = _ := request_eq m isNull r
    refine ⟨handlesOk_exec m _ hm.handles he, hcensus, hshut, ?_, ?_⟩
    · intro c q u hq hu
      rw [hexec] at hq
      by_cases hc : c = m.connects.fresh
      · -- the new request, for a handle that is neither connected nor shut down
        rw [hc, Pool.getElem?_alloc_fresh] at hq
        rw [← Option.some.inj hq, hexec] at hu
        have hnew := (Pool.getElem?_alloc_fresh (p := m.handles) _).symm.trans hu
        rw [← Option.some.inj hnew]
        exact ⟨fun hany => (hany.elim Bool.false_ne_true Bool.false_ne_true).elim,
          fun hboth => Bool.false_ne_true hboth.1⟩
      · have hold := (Pool.getElem?_alloc_of_ne _ hc).symm.trans hq
        obtain ⟨hreleased, hone⟩ := hm.answered_exec he hold hu
        refine ⟨fun hany => ?_, hone⟩
        rw [hexec]
        exact (hreleased hany).resolve_right fun ⟨_, _, _, heq⟩ => by cases heq
    · rw [hexec]
      show ((m.connects.blocks ++ [_]).map ClientConnectReq.handle).Nodup
      rw [List.map_append, List.map_singleton]
      refine List.nodup_append.mpr ⟨hm.distinct, List.nodup_singleton _, fun h hh h' hh' => ?_⟩
      rw [List.mem_singleton.mp hh']
      obtain ⟨q, hq, rfl⟩ := List.mem_map.mp hh
      obtain ⟨c, hc⟩ := List.mem_iff_getElem?.mp hq
      obtain ⟨t, ht, -⟩ := hm.handles.client c q hc
      exact Nat.ne_of_lt (List.getElem?_eq_some_iff.mp ht).1
  · have hnone : ∀ isNull r, e ≠ .request isNull r := fun isNull r heq =>
      hrequest ⟨isNull, r, heq⟩
    obtain ⟨hblocks, hreleased⟩ := requests_exec (m := m) hnone
    refine ⟨handlesOk_exec m e hm.handles he, hcensus, hshut, ?_, ?_⟩
    · intro c q u hq hu
      rw [hblocks] at hq
      obtain ⟨hanswered, hone⟩ := hm.answered_exec he hq hu
      exact ⟨fun hany => hreleased c q hq (hanswered hany), hone⟩
    · rw [hblocks]
      exact hm.distinct

/-! ## Servers -/

/-- The server takes connections, and its callback is a root. -/
def State.Listens (m : State) (server : ℕ) : Prop :=
  (∃ t, m.tcp server = some t ∧ t.listening = true) ∧ .data server ∈ m.roots

/-- Only `close_cb` takes the field of a handle off the roots. -/
theorem roots_exec {h : ℕ} (hroot : .data h ∈ m.roots) (hclosed : e ≠ .closed h) :
    .data h ∈ (exec m e).roots := by
  cases e with
  | listen server => exact Finset.mem_insert_of_mem hroot
  | connection server isNull accept shutdown =>
    show _ ∈ (m.connectionCb server isNull accept shutdown).roots
    by_cases haccept : accept = 0
    · rw [haccept, connectionCb_of_accepted]
      exact Finset.mem_insert_of_mem hroot
    · rw [State.connectionCb, if_neg haccept, (mild_uvShutdownOcaml _ _ shutdown).roots]
      exact hroot
  | requestOn h' => exact Finset.mem_insert_of_mem hroot
  | write h' r =>
    rw [exec, State.uvWriteOcaml, (mild_uvWrite _ _ h' r).roots]
    exact hroot
  | shutdown h' r =>
    rw [exec, (mild_uvShutdownOcaml m h' r).roots]
    exact hroot
  | request isNull r =>
    rw [exec, request_eq]
    exact Finset.mem_insert_of_mem hroot
  | connectDone c status write shutdown =>
    rw [exec, (mild_clientConnectCb (m.taken (.connect c)) c status write shutdown).roots]
    exact hroot
  | writeDone w status =>
    rw [exec, (mild_writeCb (m.taken (.write w)) w).roots]
    exact hroot
  | shutdownDone s h' status =>
    rw [exec, (mild_shutdownCb (m.taken (.shutdown s h')) s).roots]
    exact hroot
  | closed h' =>
    have hne : h ≠ h' := fun heq => hclosed (heq ▸ rfl)
    exact (roots_closeCb_of_ne (m.taken (.close h')) hne).1.mpr hroot
  | _ => exact hroot

/-- A handle that is not shut down is not closed or released either. -/
theorem OpenHandles.not_closing (hm : OpenHandles m) {h : ℕ} {t : Tcp} (ht : m.tcp h = some t)
    (hshut : t.shut = false) : t.closing = false ∧ m.handles.Live h := by
  have hnot : ∀ u, m.tcp h = some u → u.shut ≠ true := by
    intro u hu hs
    obtain rfl : t = u := Option.some.inj (ht.symm.trans hu)
    rw [hshut] at hs
    cases hs
  refine ⟨Bool.eq_false_iff.mpr fun hclosing => hnot t ht
    ((hm.handles.contents h t ht).shut_of_closing hclosing),
    (List.getElem?_eq_some_iff.mp ht).1, fun hreleased => ?_⟩
  obtain ⟨u, hu, hushut⟩ := hm.handles.shut h (List.mem_append_left _ hreleased)
  exact hnot u hu hushut

/-- A server goes on listening. -/
theorem OpenHandles.listens_exec (hm : OpenHandles m) (he : enabled m e = true) {server : ℕ}
    (hlistens : m.Listens server) : (exec m e).Listens server := by
  obtain ⟨⟨t, ht, hlistening⟩, hroot⟩ := hlistens
  obtain ⟨u, hu, -⟩ := (grows_exec he).exists_later ht
  refine ⟨⟨u, hu, ((grows_exec he).kept server t u ht hu).1 hlistening⟩, roots_exec hroot ?_⟩
  rintro rfl
  -- the handle of a server is not closed
  have hrole := (hm.handles.contents server t ht).server_of_listening hlistening
  have hshut : t.shut = false := Bool.eq_false_iff.mpr fun hs => by
    rcases hm.shut server t ht hs with hother | hother <;> rw [hrole] at hother <;> cases hother
  obtain ⟨u, hu, hclosing⟩ := hm.handles.closing server (.inr (of_decide_eq_true he))
  obtain rfl : t = u := Option.some.inj (ht.symm.trans hu)
  rw [(hm.not_closing ht hshut).1] at hclosing
  cases hclosing

/-- `uv_listen_ocaml` on the handle of a server. -/
theorem listens_uvListenOcaml {server : ℕ} (he : enabled m (.listen server) = true) :
    (exec m (.listen server)).Listens server := by
  obtain ⟨t, ht, -⟩ := (Option.any_eq_true _ _).mp he
  refine ⟨⟨{ t with data := .callback, listening := true }, ?_, rfl⟩, Finset.mem_insert_self _ _⟩
  show (m.uvListenOcaml server).tcp server = _
  rw [State.uvListenOcaml, tcp_setHandle, if_pos rfl]
  show ((m.requestOn server).tcp server).map _ = _
  rw [State.requestOn]
  show ((m.setHandle server _).tcp server).map _ = _
  rw [tcp_setHandle, if_pos rfl, ht]
  rfl

/-! ## Clients that are given up -/

/-- The handles of clients that are given up in a run. -/
def givenUpIn (m : State) : List Event → List ℕ
  | [] => []
  | e :: es => (m.givesUp e).toList ++ givenUpIn (exec m e) es

/-- One more event. -/
theorem givenUpIn_concat (m : State) (es : List Event) (e : Event) :
    givenUpIn m (es ++ [e]) = givenUpIn m es ++ ((stubs.after m es).givesUp e).toList := by
  induction es generalizing m with
  | nil => exact List.append_nil _
  | cons d es ih =>
    show _ ++ givenUpIn (exec m d) (es ++ [e]) = _
    rw [ih, ← List.append_assoc]
    rfl

/-- The handle that is given up was opened and not shut down, so libuv takes the shutdown. -/
theorem OpenHandles.shut_of_givesUp (hm : OpenHandles m) (he : enabled m e = true) {h : ℕ}
    (hends : m.givesUp e = some h) : ∃ u, (exec m e).tcp h = some u ∧ u.shut = true := by
  obtain ⟨c, status, write, shutdown, q, rfl, hq, rfl⟩ := exists_of_joins_or_givesUp (.inr hends)
  have hfailed : status ≠ 0 ∧ shutdown = 0 := by
    by_contra hnot
    change (if status ≠ 0 ∧ shutdown = 0 then _ else _) = _ at hends
    rw [if_neg hnot] at hends
    cases hends
  obtain ⟨hstatus, rfl⟩ := hfailed
  obtain ⟨t, ht, -, hwritable⟩ := hm.handles.client c q hq
  have hshut : t.shut = false := Bool.eq_false_iff.mpr fun hs =>
    hm.owed (of_decide_eq_true he) ((hm.answered c q t hq ht).1 (.inr hs))
  have htakes : (m.tcp q.handle).any (fun t => t.writable && !t.shut && !t.closing) = true ∧
      (0 : ℤ) = 0 := by
    rw [ht, Option.any_some, hwritable, hshut, (hm.not_closing ht hshut).1]
    exact ⟨rfl, rfl⟩
  let m₁ : State := (m.taken (.connect c)).connectFailed c q
  have hcb : (exec m (.connectDone c status write 0)).tcp q.handle
      = (m₁.uvShutdown m.shutdowns.fresh q.handle 0).tcp q.handle := by
    rw [exec, clientConnectCb_of_failed (m := m.taken (.connect c)) hq hstatus]
    rfl
  refine ⟨{ t with shut := true }, hcb.trans ?_, rfl⟩
  rw [uvShutdown_eq, if_pos (by exact htakes)]
  show ((m₁.touchHandle q.handle).setHandle q.handle _).tcp q.handle = _
  rw [tcp_setHandle, if_pos rfl]
  show (m.tcp q.handle).map _ = _
  rw [ht]
  rfl

end Runs

/-! ## Main result -/

/-- The run. -/
theorem openHandles_after {es : List Event} (hes : stubs.Possible State.init es) :
    OpenHandles (stubs.after State.init es) :=
  Machine.invariant_of_possible (M := stubs) (fun _ _ => openHandles_exec) openHandles_init hes

/-- The handles are those that the events made, in order. -/
theorem roles_after {es : List Event} (hes : stubs.Possible State.init es) :
    (stubs.after State.init es).handles.blocks.map Tcp.role = es.filterMap Event.makes := by
  induction es using List.reverseRecOn with
  | nil => rfl
  | append_singleton es e ih =>
    obtain ⟨hpre, he⟩ := Machine.along_concat_iff.mp hes
    rw [Machine.after_concat, List.filterMap_append, ← ih hpre]
    refine (grows_exec he).roles.trans (congrArg (_ ++ ·) ?_)
    rw [List.filterMap_cons]
    cases e.makes <;> rfl

/-- Once it listened, a server listens. -/
theorem listens_after {es : List Event} (hes : stubs.Possible State.init es) {server : ℕ}
    (hmem : .listen server ∈ es) : (stubs.after State.init es).Listens server := by
  induction es using List.reverseRecOn with
  | nil => cases hmem
  | append_singleton es e ih =>
    obtain ⟨hpre, he⟩ := Machine.along_concat_iff.mp hes
    rw [Machine.after_concat]
    rcases List.mem_append.mp hmem with hold | hnew
    · exact (openHandles_after hpre).listens_exec he (ih hpre hold)
    · obtain rfl := List.mem_singleton.mp hnew
      exact listens_uvListenOcaml he

/-- The handles that were given up are those of connect requests that are shut down. -/
theorem shut_of_mem_givenUpIn {es : List Event} (hes : stubs.Possible State.init es) {h : ℕ}
    (hmem : h ∈ givenUpIn State.init es) :
    let m := stubs.after State.init es
    ∃ (c : ℕ) (q : ClientConnectReq) (t : Tcp), m.connects.blocks[c]? = some q ∧ q.handle = h ∧
      m.tcp h = some t ∧ t.shut = true := by
  induction es using List.reverseRecOn with
  | nil => cases hmem
  | append_singleton es e ih =>
    obtain ⟨hpre, he⟩ := Machine.along_concat_iff.mp hes
    have hm := openHandles_after hpre
    rw [givenUpIn_concat] at hmem
    rw [Machine.after_concat]
    rcases List.mem_append.mp hmem with hold | hnew
    · obtain ⟨c, q, t, hq, hh, ht, hshut⟩ := ih hpre hold
      obtain ⟨u, hu, -⟩ := (grows_exec he).exists_later ht
      exact ⟨c, q, u, request_exec hq, hh, hu, ((grows_exec he).kept h t u ht hu).2 hshut⟩
    · have hends := Option.mem_toList.mp hnew
      obtain ⟨c, _, _, _, q, -, hq, hh⟩ := exists_of_joins_or_givesUp (.inr hends)
      obtain ⟨u, hu, hshut⟩ := hm.shut_of_givesUp he hends
      exact ⟨c, q, u, request_exec hq, hh, hu, hshut⟩

/-- What was shut down is a connection, or was given up. -/
theorem mem_givenUpIn_of_shut {es : List Event} (hes : stubs.Possible State.init es) {h : ℕ}
    {t : Tcp} (ht : (stubs.after State.init es).tcp h = some t) (hrole : t.role ≠ .connection)
    (hshut : t.shut = true) : h ∈ givenUpIn State.init es := by
  induction es using List.reverseRecOn generalizing t with
  | nil => cases ht
  | append_singleton es e ih =>
    obtain ⟨hpre, he⟩ := Machine.along_concat_iff.mp hes
    rw [Machine.after_concat] at ht
    rw [givenUpIn_concat]
    rcases (grows_exec he).shut h t ht hshut with hconn | hends | ⟨t₀, ht₀, hshut₀⟩
    · exact absurd hconn hrole
    · exact List.mem_append_right _ (Option.mem_toList.mpr hends)
    · have hsame := (grows_exec he).role_eq ht₀ ht
      exact List.mem_append_left _ (ih hpre ht₀ (hsame ▸ hrole) hshut₀)

/-- A connection to a server is accepted and closed again.  Of three calls of `request` two fail
to connect, and libuv takes the shutdown of the second; the third connects. -/
def connectionEnded : List Event :=
  [.createServer false, .run false, .listen 0, .connection 0 true 0 0, .request true 0,
    .connectDone 0 (-111) 0 (-107), .request true 0, .connectDone 1 (-111) 0 0, .request true 0,
    .connectDone 2 0 0 0, .shutdown 2 0, .shutdownDone 2 2 0, .closed 2, .shutdownDone 1 4 (-107)]

end Lifecycle
