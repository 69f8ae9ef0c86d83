/-
# Who owns what

Every block the stubs allocate has to be released, once, and not to be touched after
that.  As long as libuv answers every call with success the requests and their
buffers are accounted for: each is owed a callback or has been released.
-/
import UvHttp.Lifecycle

namespace Lifecycle

/-! ## Ownership -/

/-- Every block was released at most once and was not touched after that; and when
libuv owes no callback, every request and every buffer has been released and every
handle whose accept or connect failed has been closed. -/
structure Owned (m : State) : Prop where
  handles : m.handles.Sound
  writes : m.writes.Sound
  connects : m.connects.Sound
  shutdowns : m.shutdowns.Sound
  bufs : m.bufs.Sound
  settled : m.pending = [] →
    (∀ i, ¬ m.writes.Live i) ∧ (∀ i, ¬ m.connects.Live i) ∧ (∀ i, ¬ m.shutdowns.Live i) ∧
      (∀ i, ¬ m.bufs.Live i) ∧ ∀ h ∈ m.failed, ∃ t, m.tcp h = some t ∧ t.closing = true

/-- The step goes well: accept, connect, write and shutdown succeed, a stream is shut
down once, and OCaml code leaves a handle alone that has been released. -/
def Succeeds (m : State) : Event → Prop
  | .connection _ _ accept _ => accept = 0
  | .requestOn h => h ∉ m.handles.released
  | .write h r => r = 0 ∧ h ∉ m.handles.released
  | .shutdown h r => r = 0 ∧ ∃ t, m.tcp h = some t ∧ t.shut = false
  | .request _ r => r = 0
  | .connectDone _ status write _ => status = 0 ∧ write = 0
  | _ => True

/-! ## Accounts -/

/-- The write request that a callback is owed for. -/
def Pending.writeOf : Pending → Option ℕ
  | .write w => some w
  | _ => none

def Pending.connectOf : Pending → Option ℕ
  | .connect c => some c
  | _ => none

def Pending.shutdownOf : Pending → Option ℕ
  | .shutdown s _ => some s
  | _ => none

/-- The buffer that a pending request holds. -/
def bufOf (writes : Pool WriteReq) (connects : Pool ClientConnectReq) : Pending → Option ℕ
  | .write w => (writes.blocks[w]?).map WriteReq.buf
  | .connect c => (connects.blocks[c]?).map ClientConnectReq.buf
  | _ => none

/-- Requests and buffers are accounted for by the callbacks that libuv owes, nothing
was touched after its release, only connections were shut down, and nothing
failed. -/
structure Accounts (m : State) : Prop extends HandlesOk m where
  handlesClean : m.handles.dangling = []
  connection_of_shut : m.handles.All fun t => t.shut = true → t.role = .connection
  writes : m.writes.Accounted (m.pending.filterMap Pending.writeOf)
  writesClean : m.writes.dangling = []
  connects : m.connects.Accounted (m.pending.filterMap Pending.connectOf)
  connectsClean : m.connects.dangling = []
  shutdowns : m.shutdowns.Accounted (m.pending.filterMap Pending.shutdownOf)
  shutdownsClean : m.shutdowns.dangling = []
  bufs : m.bufs.Accounted (m.pending.filterMap (bufOf m.writes m.connects))
  bufsClean : m.bufs.dangling = []
  noneFailed : m.failed = []

/-- Nothing was allocated yet. -/
theorem accounts_init : Accounts State.init where
  toHandlesOk := handlesOk_init
  handlesClean := rfl
  connection_of_shut := fun _ _ h => by cases h
  writes := Pool.accounted_empty
  writesClean := rfl
  connects := Pool.accounted_empty
  connectsClean := rfl
  shutdowns := Pool.accounted_empty
  shutdownsClean := rfl
  bufs := Pool.accounted_empty
  bufsClean := rfl
  noneFailed := rfl

/-- Accounts in order are ownership in order. -/
theorem Accounts.owned {m : State} (hm : Accounts m) : Owned m where
  handles := ⟨(List.nodup_append.mp hm.nodup).1, hm.handlesClean⟩
  writes := hm.writes.sound hm.writesClean
  connects := hm.connects.sound hm.connectsClean
  shutdowns := hm.shutdowns.sound hm.shutdownsClean
  bufs := hm.bufs.sound hm.bufsClean
  settled := fun hnone => by
    have hw := hm.writes
    have hc := hm.connects
    have hs := hm.shutdowns
    have hb := hm.bufs
    rw [hnone] at hw hc hs hb
    refine ⟨fun _ => hw.not_live, fun _ => hc.not_live, fun _ => hs.not_live,
      fun _ => hb.not_live, fun h hh => ?_⟩
    rw [hm.noneFailed] at hh
    cases hh

section Steps

variable {m : State}

/-- A touch of a handle that has not been released. -/
theorem Accounts.touchHandle (hm : Accounts m) {h : ℕ} (hh : h ∉ m.handles.released) :
    Accounts (m.touchHandle h) := by
  have hsame : m.touchHandle h = m := by rw [State.touchHandle, Pool.touch_of_notMem hh]
  rw [hsame]
  exact hm

/-- A new handle. -/
theorem Accounts.allocHandle (hm : Accounts m) {t : Tcp} (ht : t.Ok) (hshut : t.shut = false) :
    Accounts { m with handles := m.handles.alloc t } :=
  { hm with
    toHandlesOk := hm.toHandlesOk.allocHandle ht
    connection_of_shut := hm.connection_of_shut.alloc fun h => by rw [hshut] at h; cases h }

/-- A write into a handle that has not been released. -/
theorem Accounts.setHandle (hm : Accounts m) {h : ℕ} (hh : h ∉ m.handles.released) {f : Tcp → Tcp}
    (hok : HandlesOk (m.setHandle h f))
    (hshut : ∀ t, m.tcp h = some t → (f t).shut = true → (f t).role = .connection) :
    Accounts (m.setHandle h f) :=
  { hm with
    toHandlesOk := hok
    handlesClean := (if_neg hh).trans hm.handlesClean
    connection_of_shut := hm.connection_of_shut.modify hshut }

/-- A write request that a callback is owed for was allocated. -/
theorem Accounts.write_lt (hm : Accounts m) {w : ℕ} (hw : .write w ∈ m.pending) :
    w < m.writes.blocks.length := hm.writes.lt_of_mem (List.mem_filterMap.mpr ⟨_, hw, rfl⟩)

/-- A connect request that a callback is owed for was allocated. -/
theorem Accounts.connect_lt (hm : Accounts m) {c : ℕ} (hc : .connect c ∈ m.pending) :
    c < m.connects.blocks.length := hm.connects.lt_of_mem (List.mem_filterMap.mpr ⟨_, hc, rfl⟩)

/-- A new write request leaves the buffers of the pending ones what they are. -/
theorem Accounts.filterMap_bufOf_alloc (hm : Accounts m) (q : WriteReq) {l : List Pending}
    (hl : l ⊆ m.pending) :
    l.filterMap (bufOf (m.writes.alloc q) m.connects)
      = l.filterMap (bufOf m.writes m.connects) := by
  refine List.filterMap_congr fun p hp => ?_
  cases p with
  | write w => rw [bufOf, bufOf, Pool.getElem?_alloc_of_lt q (hm.write_lt (hl hp))]
  | _ => rfl

/-- The buffer of a new write request. -/
theorem bufOf_alloc_write (writes : Pool WriteReq) (connects : Pool ClientConnectReq) (buf : ℕ) :
    bufOf (writes.alloc ⟨buf⟩) connects (.write writes.fresh) = some buf := by
  rw [bufOf, Pool.getElem?_alloc_fresh]
  rfl

/-- A new write request with a buffer of its own, and its callback. -/
theorem Accounts.write (hm : Accounts m) :
    Accounts { m with
      bufs := m.bufs.alloc ()
      writes := m.writes.alloc ⟨m.bufs.fresh⟩
      pending := m.pending ++ [.write m.writes.fresh] } where
  toHandlesOk := (hm.toHandlesOk.owe (p := .write m.writes.fresh) rfl).congr rfl rfl rfl rfl rfl
  handlesClean := hm.handlesClean
  connection_of_shut := hm.connection_of_shut
  writes := by
    rw [List.filterMap_append]
    exact hm.writes.alloc _
  writesClean := hm.writesClean
  connects := by
    rw [filterMap_concat_of_none _ rfl]
    exact hm.connects
  connectsClean := hm.connectsClean
  shutdowns := by
    rw [filterMap_concat_of_none _ rfl]
    exact hm.shutdowns
  shutdownsClean := hm.shutdownsClean
  bufs := by
    rw [List.filterMap_append, hm.filterMap_bufOf_alloc _ (List.Subset.refl _),
      List.filterMap_cons_some (bufOf_alloc_write m.writes m.connects m.bufs.fresh)]
    exact hm.bufs.alloc ()
  bufsClean := hm.bufsClean
  noneFailed := hm.noneFailed

/-- `write_cb`, run for a write that was owed. -/
theorem Accounts.writeCb (hm : Accounts m) {w : ℕ} (hw : .write w ∈ m.pending) :
    Accounts ((m.taken (.write w)).writeCb w) := by
  obtain ⟨req, hreq⟩ : ∃ req, m.writes.blocks[w]? = some req :=
    ⟨_, List.getElem?_eq_getElem (hm.write_lt hw)⟩
  have hperm := List.perm_cons_erase hw
  have hwowed : w ∉ m.writes.released :=
    hm.writes.notMem_released (List.mem_filterMap.mpr ⟨_, hw, rfl⟩)
  have hbuf : bufOf m.writes m.connects (.write w) = some req.buf := by rw [bufOf, hreq]; rfl
  have hbufs := hperm.filterMap (bufOf m.writes m.connects)
  rw [List.filterMap_cons_some hbuf] at hbufs
  have htaken : (m.taken (.write w)).writes.blocks[w]? = some req := hreq
  rw [State.writeCb, htaken]
  exact
    { toHandlesOk := (hm.toHandlesOk.taken (.write w)).congr rfl rfl rfl rfl rfl
      handlesClean := hm.handlesClean
      connection_of_shut := hm.connection_of_shut
      writes := hm.writes.touch.release (hperm.filterMap _)
      writesClean := (if_neg hwowed).trans hm.writesClean
      connects := hm.connects.perm (hperm.filterMap _)
      connectsClean := hm.connectsClean
      shutdowns := hm.shutdowns.perm (hperm.filterMap _)
      shutdownsClean := hm.shutdownsClean
      bufs := hm.bufs.release hbufs
      bufsClean := hm.bufsClean
      noneFailed := hm.noneFailed }

/-- `uv_shutdown` on an open stream that was not shut down, with a new request. -/
theorem Accounts.shutdown (hm : Accounts m) {h : ℕ} {t : Tcp} (ht : m.tcp h = some t)
    (hrole : t.role = .connection) (hwritable : t.writable = true) (hshut : t.shut = false) :
    Accounts (m.uvShutdownOcaml h 0) := by
  have hh := hm.notMem_released ht hshut
  have hclosing : t.closing = false := by
    by_contra hc
    have := (hm.contents h t ht).shut_of_closing (Bool.eq_true_of_not_eq_false hc)
    rw [hshut] at this
    cases this
  have hok := hm.toHandlesOk.uvShutdownOcaml h 0
  have hcond : (m.tcp h).any (fun t => t.writable && !t.shut && !t.closing) = true ∧
      (0 : ℤ) = 0 := by
    refine ⟨(Option.any_eq_true _ _).mpr ⟨t, ht, ?_⟩, rfl⟩
    rw [hwritable, hshut, hclosing]
    rfl
  rw [State.uvShutdownOcaml, uvShutdown_eq] at hok ⊢
  rw [if_pos (by exact hcond)] at hok ⊢
  exact
    { toHandlesOk := hok
      handlesClean := by
        show ((m.handles.touch h).touch h).dangling = []
        rw [Pool.touch_of_notMem hh, Pool.touch_of_notMem hh]
        exact hm.handlesClean
      connection_of_shut := hm.connection_of_shut.modify fun u hu _ => by
        obtain rfl : t = u := Option.some.inj (ht.symm.trans hu)
        exact hrole
      writes := by
        rw [filterMap_concat_of_none _ rfl]
        exact hm.writes
      writesClean := hm.writesClean
      connects := by
        rw [filterMap_concat_of_none _ rfl]
        exact hm.connects
      connectsClean := hm.connectsClean
      shutdowns := by
        rw [List.filterMap_append]
        exact hm.shutdowns.alloc _
      shutdownsClean := hm.shutdownsClean
      bufs := by
        rw [filterMap_concat_of_none _ rfl]
        exact hm.bufs
      bufsClean := hm.bufsClean
      noneFailed := hm.noneFailed }

/-- `shutdown_cb`, run for a shutdown that was owed. -/
theorem Accounts.shutdownCb (hm : Accounts m) {s h : ℕ} (hp : .shutdown s h ∈ m.pending) :
    Accounts ((m.taken (.shutdown s h)).shutdownCb s) := by
  have hok := hm.toHandlesOk.shutdownCb hp
  have hperm := List.perm_cons_erase hp
  have hreq : (m.taken (.shutdown s h)).shutdowns.blocks[s]? = some ⟨h⟩ := hm.request s h hp
  have hsowed : s ∉ m.shutdowns.released :=
    hm.shutdowns.notMem_released (List.mem_filterMap.mpr ⟨_, hp, rfl⟩)
  -- the handle waits for its end, so it has not been released
  have hh : h ∉ m.handles.released := fun hmem =>
    List.disjoint_of_nodup_append hm.nodup hmem (List.mem_filterMap.mpr ⟨_, hp, rfl⟩)
  rw [State.shutdownCb, hreq] at hok ⊢
  exact
    { toHandlesOk := hok
      handlesClean := (if_neg hh).trans hm.handlesClean
      connection_of_shut := hm.connection_of_shut.modify fun u hu => hm.connection_of_shut h u hu
      writes := by
        show m.writes.Accounted ((m.pending.erase _ ++ [_]).filterMap _)
        rw [filterMap_concat_of_none _ rfl]
        exact hm.writes.perm (hperm.filterMap _)
      writesClean := hm.writesClean
      connects := by
        show m.connects.Accounted ((m.pending.erase _ ++ [_]).filterMap _)
        rw [filterMap_concat_of_none _ rfl]
        exact hm.connects.perm (hperm.filterMap _)
      connectsClean := hm.connectsClean
      shutdowns := by
        show ((m.shutdowns.touch s).release s).Accounted ((m.pending.erase _ ++ [_]).filterMap _)
        rw [filterMap_concat_of_none _ rfl]
        exact hm.shutdowns.touch.release (hperm.filterMap _)
      shutdownsClean := (if_neg hsowed).trans hm.shutdownsClean
      bufs := by
        show m.bufs.Accounted ((m.pending.erase _ ++ [_]).filterMap (bufOf m.writes m.connects))
        rw [filterMap_concat_of_none _ rfl]
        exact hm.bufs.perm (hperm.filterMap _)
      bufsClean := hm.bufsClean
      noneFailed := hm.noneFailed }

/-- `close_cb`, run for a close that was owed. -/
theorem Accounts.closeCb (hm : Accounts m) {h : ℕ} (hp : .close h ∈ m.pending) :
    Accounts ((m.taken (.close h)).closeCb h) := by
  have hok := hm.toHandlesOk.closeCb hp
  have hperm := List.perm_cons_erase hp
  have hh : h ∉ m.handles.released := fun hmem =>
    List.disjoint_of_nodup_append hm.nodup hmem (List.mem_filterMap.mpr ⟨_, hp, rfl⟩)
  obtain ⟨roots, unregistered, heq⟩ := exists_closeCb_eq (m.taken (.close h)) h
  rw [heq] at hok ⊢
  exact
    { toHandlesOk := hok
      handlesClean := (if_neg hh).trans hm.handlesClean
      connection_of_shut := hm.connection_of_shut
      writes := hm.writes.perm (hperm.filterMap _)
      writesClean := hm.writesClean
      connects := hm.connects.perm (hperm.filterMap _)
      connectsClean := hm.connectsClean
      shutdowns := hm.shutdowns.perm (hperm.filterMap _)
      shutdownsClean := hm.shutdownsClean
      bufs := hm.bufs.perm (hperm.filterMap _)
      bufsClean := hm.bufsClean
      noneFailed := hm.noneFailed }

/-- A new request for a connection with a buffer of its own, and its callback. -/
theorem Accounts.requested (hm : Accounts m) (isNull : Bool) : Accounts (m.request isNull 0) := by
  have hok := hm.toHandlesOk.requested isNull 0
  rw [request_eq, if_pos rfl, if_pos rfl] at hok ⊢
  exact
    { toHandlesOk := hok
      handlesClean := hm.handlesClean
      connection_of_shut := hm.connection_of_shut.alloc nofun
      writes := by
        rw [filterMap_concat_of_none _ rfl]
        exact hm.writes
      writesClean := hm.writesClean
      connects := by
        rw [List.filterMap_append]
        exact hm.connects.alloc _
      connectsClean := hm.connectsClean
      shutdowns := by
        rw [filterMap_concat_of_none _ rfl]
        exact hm.shutdowns
      shutdownsClean := hm.shutdownsClean
      bufs := by
        have hold : m.pending.filterMap
              (bufOf m.writes (m.connects.alloc ⟨m.handles.fresh, m.bufs.fresh⟩))
            = m.pending.filterMap (bufOf m.writes m.connects) := by
          refine List.filterMap_congr fun p hp => ?_
          cases p with
          | connect c => rw [bufOf, bufOf, Pool.getElem?_alloc_of_lt _ (hm.connect_lt hp)]
          | _ => rfl
        have hnew : bufOf m.writes (m.connects.alloc ⟨m.handles.fresh, m.bufs.fresh⟩)
            (.connect m.connects.fresh) = some m.bufs.fresh := by
          rw [bufOf, Pool.getElem?_alloc_fresh]
          rfl
        rw [List.filterMap_append, hold, List.filterMap_cons_some hnew]
        exact hm.bufs.alloc ()
      bufsClean := hm.bufsClean
      noneFailed := hm.noneFailed }

/-- `client_connect_cb` on a connection that was made: the buffer goes from the connect
request to a write request. -/
theorem Accounts.clientConnectCb (hm : Accounts m) {c : ℕ} (hp : .connect c ∈ m.pending)
    (shutdown : ℤ) : Accounts ((m.taken (.connect c)).clientConnectCb c 0 0 shutdown) := by
  have hok := (hm.toHandlesOk.taken (.connect c)).clientConnectCb c 0 0 shutdown
  obtain ⟨req, hreq⟩ : ∃ req, m.connects.blocks[c]? = some req :=
    ⟨_, List.getElem?_eq_getElem (hm.connect_lt hp)⟩
  obtain ⟨t, ht, hrole, -⟩ := hm.client c req hreq
  have hshut := shut_eq_false_of_role hm.connection_of_shut ht (by rw [hrole]; nofun)
  have hh := hm.notMem_released ht hshut
  have hcowed : c ∉ m.connects.released :=
    hm.connects.notMem_released (List.mem_filterMap.mpr ⟨_, hp, rfl⟩)
  have hperm := List.perm_cons_erase hp
  have hsub : m.pending.erase (.connect c) ⊆ m.pending := List.erase_subset
  -- the buffer that the connect request held is now held by the write request
  have hbuf : bufOf m.writes m.connects (.connect c) = some req.buf := by rw [bufOf, hreq]; rfl
  have hbufs : (m.pending.filterMap (bufOf m.writes m.connects)).Perm
      ((m.pending.erase (.connect c) ++ [Pending.write m.writes.fresh]).filterMap
        (bufOf (m.writes.alloc ⟨req.buf⟩) m.connects)) := by
    have hrest := hperm.filterMap (bufOf m.writes m.connects)
    rw [List.filterMap_cons_some hbuf] at hrest
    rw [List.filterMap_append, hm.filterMap_bufOf_alloc _ hsub,
      List.filterMap_cons_some (bufOf_alloc_write m.writes m.connects req.buf)]
    exact hrest.trans (List.perm_append_singleton req.buf _).symm
  rw [clientConnectCb_of_made (m := m.taken (.connect c)) hreq] at hok ⊢
  exact
    { toHandlesOk := hok
      handlesClean := by
        have htouch : ∀ f, (m.handles.modify req.handle f).touch req.handle
            = m.handles.modify req.handle f := fun f => Pool.touch_of_notMem hh
        show (((m.handles.modify req.handle _).touch req.handle).touch req.handle).dangling = []
        rw [htouch, htouch]
        exact (if_neg hh).trans hm.handlesClean
      connection_of_shut := hm.connection_of_shut.modify fun u hu =>
        hm.connection_of_shut req.handle u hu
      writes := by
        show (m.writes.alloc _).Accounted ((m.pending.erase _ ++ [_]).filterMap _)
        rw [List.filterMap_append]
        exact (hm.writes.perm (hperm.filterMap _)).alloc _
      writesClean := hm.writesClean
      connects := by
        show ((m.connects.touch c).release c).Accounted ((m.pending.erase _ ++ [_]).filterMap _)
        rw [filterMap_concat_of_none _ rfl]
        exact hm.connects.touch.release (hperm.filterMap _)
      connectsClean := (if_neg hcowed).trans hm.connectsClean
      shutdowns := by
        show m.shutdowns.Accounted ((m.pending.erase _ ++ [_]).filterMap _)
        rw [filterMap_concat_of_none _ rfl]
        exact hm.shutdowns.perm (hperm.filterMap _)
      shutdownsClean := hm.shutdownsClean
      bufs := hm.bufs.perm hbufs
      bufsClean := hm.bufsClean
      noneFailed := hm.noneFailed }

/-- A server is never released. -/
theorem Accounts.server_notMem_released (hm : Accounts m) {h : ℕ} {t : Tcp} (ht : m.tcp h = some t)
    (hrole : t.role = .server) : h ∉ m.handles.released :=
  hm.notMem_released ht (shut_eq_false_of_role hm.connection_of_shut ht (by rw [hrole]; nofun))

/-- `request_on` on a handle that has not been released. -/
theorem Accounts.requestOn (hm : Accounts m) {h : ℕ} (hh : h ∉ m.handles.released) :
    Accounts (m.requestOn h) :=
  { hm with
    toHandlesOk := hm.toHandlesOk.requestOn h
    handlesClean := (if_neg hh).trans hm.handlesClean
    connection_of_shut := hm.connection_of_shut.modify fun u hu => hm.connection_of_shut h u hu }

/-- `uv_listen_ocaml` on the handle of a server. -/
theorem Accounts.uvListenOcaml (hm : Accounts m) {server : ℕ} {t : Tcp}
    (ht : m.tcp server = some t) (hrole : t.role = .server) :
    Accounts (m.uvListenOcaml server) := by
  have hserver := hm.server_notMem_released ht hrole
  exact (hm.requestOn hserver).setHandle hserver (hm.toHandlesOk.uvListenOcaml ⟨t, ht, hrole⟩)
    fun u hu => (hm.requestOn hserver).connection_of_shut server u hu

/-- `connection_cb` with a connection that is accepted. -/
theorem Accounts.connectionCb (hm : Accounts m) {server : ℕ} (hserver : server ∉ m.handles.released)
    (isNull : Bool) (shutdown : ℤ) : Accounts (m.connectionCb server isNull 0 shutdown) := by
  have hok := hm.toHandlesOk.connectionCb server isNull 0 shutdown
  have hnew := ((hm.touchHandle hserver).touchHandle hserver).allocHandle
    (t := ⟨.connection, .callback, false, true, true, false, false⟩)
    ⟨nofun, nofun, nofun, fun _ => rfl, fun _ => rfl⟩ rfl
  rw [connectionCb_of_accepted] at hok ⊢
  exact { hnew with toHandlesOk := hok }

/-- `uv_write_ocaml` on a handle that has not been released. -/
theorem Accounts.uvWriteOcaml (hm : Accounts m) {h : ℕ} (hh : h ∉ m.handles.released) :
    Accounts (m.uvWriteOcaml h 0) :=
  { hm.write with
    toHandlesOk := hm.toHandlesOk.uvWriteOcaml h 0
    handlesClean := (if_neg hh).trans hm.handlesClean }

/-- A stream that is read has not been released. -/
theorem Accounts.notMem_released_of_open (hm : Accounts m) {h : ℕ} {t : Tcp}
    (ht : m.tcp h = some t) (hopen : t.closing = false) : h ∉ m.handles.released := by
  intro hmem
  obtain ⟨u, hu, hclosing⟩ := hm.closing h (.inl hmem)
  obtain rfl : t = u := Option.some.inj (ht.symm.trans hu)
  rw [hopen] at hclosing
  cases hclosing

end Steps

/-- **The step**: a step that goes well keeps the accounts in order. -/
theorem accounts_exec (m : State) (e : Event) (hm : Accounts m) (he : enabled m e = true)
    (hsucc : Succeeds m e) : Accounts (exec m e) := by
  cases e with
  | createServer isNull => exact hm.allocHandle (ok_junk .server isNull) rfl
  | run isNull => exact hm.allocHandle (ok_junk .unused isNull) rfl
  | listen server =>
    obtain ⟨t, ht, hrole⟩ := (Option.any_eq_true _ _).mp he
    exact hm.uvListenOcaml ht (of_decide_eq_true hrole)
  | connection server isNull accept shutdown =>
    obtain rfl : accept = 0 := hsucc
    obtain ⟨t, ht, hlistening⟩ := (Option.any_eq_true _ _).mp he
    have hrole := (hm.contents server t ht).server_of_listening hlistening
    exact hm.connectionCb (hm.server_notMem_released ht hrole) isNull shutdown
  | requestOn h => exact hm.requestOn hsucc
  | write h r =>
    obtain ⟨rfl, hh⟩ := hsucc
    exact hm.uvWriteOcaml hh
  | shutdown h r =>
    obtain ⟨rfl, t, ht, hshut⟩ := hsucc
    obtain ⟨u, hu, hflags⟩ := (Option.any_eq_true _ _).mp he
    obtain rfl : t = u := Option.some.inj (ht.symm.trans hu)
    rw [Bool.and_eq_true, decide_eq_true_iff] at hflags
    exact hm.shutdown ht hflags.1 ((hm.contents h t ht).writable_of_connected hflags.2) hshut
  | read h =>
    obtain ⟨t, ht, hflags⟩ := (Option.any_eq_true _ _).mp he
    rw [Bool.and_eq_true, Bool.not_eq_true'] at hflags
    exact hm.touchHandle (hm.notMem_released_of_open ht hflags.2)
  | request isNull r =>
    obtain rfl : r = 0 := hsucc
    exact hm.requested isNull
  | connectDone c status write shutdown =>
    obtain ⟨rfl, rfl⟩ := hsucc
    exact hm.clientConnectCb (of_decide_eq_true he) shutdown
  | writeDone w status => exact hm.writeCb (of_decide_eq_true he)
  | shutdownDone s h status => exact hm.shutdownCb (of_decide_eq_true he)
  | closed h => exact hm.closeCb (of_decide_eq_true he)

/-! ## When something fails -/

/-- Something has gone wrong for good: a request that no callback is owed for is still
there, or a handle or a connect request was touched after its release. -/
inductive Spoilt (m : State) : Prop where
  | write (w : ℕ) (live : m.writes.Live w) (notOwed : .write w ∉ m.pending)
  | connect (c : ℕ) (live : m.connects.Live c) (notOwed : .connect c ∉ m.pending)
  | shutdown (s : ℕ) (live : m.shutdowns.Live s) (notOwed : ∀ h, .shutdown s h ∉ m.pending)
  | handle (dangling : m.handles.dangling ≠ [])
  | connectReq (dangling : m.connects.dangling ≠ [])

/-- When no callback is owed any more, what is spoilt shows. -/
theorem Spoilt.not_owned {m : State} (hm : Spoilt m) (hquiet : m.pending = []) : ¬ Owned m := by
  intro hown
  cases hm with
  | write w live _ => exact (hown.settled hquiet).1 w live
  | connect c live _ => exact (hown.settled hquiet).2.1 c live
  | shutdown s live _ => exact (hown.settled hquiet).2.2.1 s live
  | handle dangling => exact dangling hown.handles.notDangling
  | connectReq dangling => exact dangling hown.connects.notDangling

/-- From the first state to the second nothing that was spoilt is made good. -/
structure Onward (m m' : State) : Prop where
  write : ∀ w, m.writes.Live w → .write w ∉ m.pending →
    m'.writes.Live w ∧ .write w ∉ m'.pending
  connect : ∀ c, m.connects.Live c → .connect c ∉ m.pending →
    m'.connects.Live c ∧ .connect c ∉ m'.pending
  shutdown : ∀ s, m.shutdowns.Live s → (∀ h, .shutdown s h ∉ m.pending) →
    m'.shutdowns.Live s ∧ ∀ h, .shutdown s h ∉ m'.pending
  handle : m.handles.dangling ≠ [] → m'.handles.dangling ≠ []
  connectReq : m.connects.dangling ≠ [] → m'.connects.dangling ≠ []

/-- What is spoilt stays so. -/
theorem Spoilt.onward {m m' : State} (hm : Spoilt m) (h : Onward m m') : Spoilt m' := by
  cases hm with
  | write w live notOwed => exact .write w (h.write w live notOwed).1 (h.write w live notOwed).2
  | connect c live notOwed =>
    exact .connect c (h.connect c live notOwed).1 (h.connect c live notOwed).2
  | shutdown s live notOwed =>
    exact .shutdown s (h.shutdown s live notOwed).1 (h.shutdown s live notOwed).2
  | handle dangling => exact .handle (h.handle dangling)
  | connectReq dangling => exact .connectReq (h.connectReq dangling)

section Onward

variable {m m' m'' : State}

/-- Two steps one after the other. -/
theorem Onward.trans (h : Onward m m') (h' : Onward m' m'') : Onward m m'' where
  write := fun w hl hn => h'.write w (h.write w hl hn).1 (h.write w hl hn).2
  connect := fun c hl hn => h'.connect c (h.connect c hl hn).1 (h.connect c hl hn).2
  shutdown := fun s hl hn => h'.shutdown s (h.shutdown s hl hn).1 (h.shutdown s hl hn).2
  handle := fun hd => h'.handle (h.handle hd)
  connectReq := fun hd => h'.connectReq (h.connectReq hd)

/-- The requests are left alone. -/
theorem Onward.of_requests_eq (hw : m'.writes = m.writes) (hc : m'.connects = m.connects)
    (hs : m'.shutdowns = m.shutdowns) (hp : m'.pending = m.pending)
    (hh : m.handles.dangling ≠ [] → m'.handles.dangling ≠ []) : Onward m m' where
  write := by rw [hw, hp]; exact fun _ hl hn => ⟨hl, hn⟩
  connect := by rw [hc, hp]; exact fun _ hl hn => ⟨hl, hn⟩
  shutdown := by rw [hs, hp]; exact fun _ hl hn => ⟨hl, hn⟩
  handle := hh
  connectReq := by rw [hc]; exact id

/-- A look at a handle. -/
theorem Onward.touchHandle (m : State) (h : ℕ) : Onward m (m.touchHandle h) :=
  .of_requests_eq rfl rfl rfl rfl Pool.dangling_touch_ne_nil

/-- A write to a handle. -/
theorem Onward.setHandle (m : State) (h : ℕ) (f : Tcp → Tcp) : Onward m (m.setHandle h f) :=
  .of_requests_eq rfl rfl rfl rfl Pool.dangling_touch_ne_nil

/-- A callback is no longer owed. -/
theorem Onward.taken (m : State) (p : Pending) : Onward m (m.taken p) where
  write := fun _ hl hn => ⟨hl, fun hmem => hn (List.mem_of_mem_erase hmem)⟩
  connect := fun _ hl hn => ⟨hl, fun hmem => hn (List.mem_of_mem_erase hmem)⟩
  shutdown := fun _ hl hn => ⟨hl, fun h hmem => hn h (List.mem_of_mem_erase hmem)⟩
  handle := id
  connectReq := id

/-- A new write request, with or without a callback. -/
theorem Onward.allocWrite (m : State) (q : WriteReq) {l : List Pending}
    (hl : ∀ p ∈ l, p = .write m.writes.fresh) :
    Onward m { m with writes := m.writes.alloc q, pending := m.pending ++ l } where
  write := fun w hlive hn => ⟨(Pool.live_alloc_iff q).mpr (.inl hlive), fun hmem => by
    rcases List.mem_append.mp hmem with hmem | hmem
    · exact hn hmem
    · exact hlive.ne_fresh (Pending.write.inj (hl _ hmem))⟩
  connect := fun c hlive hn => ⟨hlive, fun hmem => by
    rcases List.mem_append.mp hmem with hmem | hmem
    · exact hn hmem
    · cases hl _ hmem⟩
  shutdown := fun s hlive hn => ⟨hlive, fun h hmem => by
    rcases List.mem_append.mp hmem with hmem | hmem
    · exact hn h hmem
    · cases hl _ hmem⟩
  handle := id
  connectReq := id

/-- A new connect request, with or without a callback. -/
theorem Onward.allocConnect (m : State) (q : ClientConnectReq) {l : List Pending}
    (hl : ∀ p ∈ l, p = .connect m.connects.fresh) :
    Onward m { m with connects := m.connects.alloc q, pending := m.pending ++ l } where
  write := fun w hlive hn => ⟨hlive, fun hmem => by
    rcases List.mem_append.mp hmem with hmem | hmem
    · exact hn hmem
    · cases hl _ hmem⟩
  connect := fun c hlive hn => ⟨(Pool.live_alloc_iff q).mpr (.inl hlive), fun hmem => by
    rcases List.mem_append.mp hmem with hmem | hmem
    · exact hn hmem
    · exact hlive.ne_fresh (Pending.connect.inj (hl _ hmem))⟩
  shutdown := fun s hlive hn => ⟨hlive, fun h hmem => by
    rcases List.mem_append.mp hmem with hmem | hmem
    · exact hn h hmem
    · cases hl _ hmem⟩
  handle := id
  connectReq := id

/-- A new shutdown request, with or without a callback. -/
theorem Onward.allocShutdown (m : State) (q : ShutdownReq) {l : List Pending}
    (hl : ∀ p ∈ l, ∃ h, p = .shutdown m.shutdowns.fresh h) :
    Onward m { m with shutdowns := m.shutdowns.alloc q, pending := m.pending ++ l } where
  write := fun w hlive hn => ⟨hlive, fun hmem => by
    rcases List.mem_append.mp hmem with hmem | hmem
    · exact hn hmem
    · obtain ⟨h, heq⟩ := hl _ hmem
      cases heq⟩
  connect := fun c hlive hn => ⟨hlive, fun hmem => by
    rcases List.mem_append.mp hmem with hmem | hmem
    · exact hn hmem
    · obtain ⟨h, heq⟩ := hl _ hmem
      cases heq⟩
  shutdown := fun s hlive hn => ⟨(Pool.live_alloc_iff q).mpr (.inl hlive), fun h hmem => by
    rcases List.mem_append.mp hmem with hmem | hmem
    · exact hn h hmem
    · obtain ⟨h', heq⟩ := hl _ hmem
      exact hlive.ne_fresh (Pending.shutdown.inj heq).1⟩
  handle := id
  connectReq := id

/-- A shutdown with a new request. -/
theorem Onward.uvShutdownOcaml (m : State) (h : ℕ) (r : ℤ) : Onward m (m.uvShutdownOcaml h r) := by
  rw [State.uvShutdownOcaml, uvShutdown_eq]
  split_ifs
  · have hshut :=
      (Onward.touchHandle m h).trans (Onward.setHandle _ h fun t => { t with shut := true })
    exact hshut.trans (Onward.allocShutdown _ ⟨h⟩ (l := [.shutdown m.shutdowns.fresh h])
      fun p hp => ⟨h, List.mem_singleton.mp hp⟩)
  · have halloc := Onward.allocShutdown (m.touchHandle h) ⟨h⟩ (l := []) nofun
    rw [List.append_nil] at halloc
    exact (Onward.touchHandle m h).trans halloc

/-- A write with a new request. -/
theorem Onward.uvWriteOcaml (m : State) (h : ℕ) (r : ℤ) : Onward m (m.uvWriteOcaml h r) := by
  have hbuf : Onward m { m.touchHandle h with bufs := m.bufs.alloc () } :=
    .of_requests_eq rfl rfl rfl rfl Pool.dangling_touch_ne_nil
  unfold State.uvWriteOcaml State.uvWrite
  split_ifs
  · exact hbuf.trans (Onward.allocWrite _ ⟨m.bufs.fresh⟩ (l := [.write m.writes.fresh])
      fun p hp => List.mem_singleton.mp hp)
  · have halloc := Onward.allocWrite { m.touchHandle h with bufs := m.bufs.alloc () }
      ⟨m.bufs.fresh⟩ (l := []) nofun
    rw [List.append_nil] at halloc
    exact hbuf.trans halloc

/-- The callback of a write is run, and its request is released. -/
theorem Onward.writeCb {w : ℕ} (hp : .write w ∈ m.pending) :
    Onward m ((m.taken (.write w)).writeCb w) := by
  have htaken := Onward.taken m (.write w)
  unfold State.writeCb
  split
  · exact htaken
  · exact { htaken with
      write := fun w' hlive hn => by
        refine ⟨Pool.live_release_iff.mpr ⟨hlive, ?_⟩, (htaken.write w' hlive hn).2⟩
        rintro rfl
        exact hn hp }

/-- The callback of a shutdown is run: its request is released, and a close is owed. -/
theorem Onward.shutdownCb {s h : ℕ} (hp : .shutdown s h ∈ m.pending) :
    Onward m ((m.taken (.shutdown s h)).shutdownCb s) := by
  have htaken := Onward.taken m (.shutdown s h)
  unfold State.shutdownCb
  split
  · exact htaken
  · rename_i req hreq
    have hclose : ∀ p, p ∈ m.pending.erase (.shutdown s h) ++ [.close req.handle] →
        (∀ h', p ≠ .close h') → p ∈ m.pending := by
      intro p hmem hne
      rcases List.mem_append.mp hmem with hmem | hmem
      · exact List.mem_of_mem_erase hmem
      · exact absurd (List.mem_singleton.mp hmem) (hne _)
    exact
      { write := fun w hlive hn => ⟨hlive, fun hmem => hn (hclose _ hmem fun _ => by simp)⟩
        connect := fun c hlive hn => ⟨hlive, fun hmem => hn (hclose _ hmem fun _ => by simp)⟩
        shutdown := fun s' hlive hn => by
          refine ⟨Pool.live_release_iff.mpr ⟨hlive, ?_⟩,
            fun h' hmem => hn h' (hclose _ hmem fun _ => by simp)⟩
          rintro rfl
          exact hn h hp
        handle := Pool.dangling_touch_ne_nil
        connectReq := id }

/-- `close_cb`. -/
theorem Onward.closeCb (m : State) (h : ℕ) : Onward m (m.closeCb h) := by
  obtain ⟨roots, unregistered, heq⟩ := exists_closeCb_eq m h
  rw [heq]
  exact .of_requests_eq rfl rfl rfl rfl Pool.dangling_touch_ne_nil

/-- The callback of a connect is run: of the connect requests only its own changes. -/
theorem Onward.connectDone {c : ℕ} (hp : .connect c ∈ m.pending) {q : Pool ClientConnectReq}
    (hlive : ∀ i, m.connects.Live i → i ≠ c → q.Live i)
    (hd : m.connects.dangling ≠ [] → q.dangling ≠ []) :
    Onward m { m.taken (.connect c) with connects := q } :=
  { Onward.taken m (.connect c) with
    connect := fun i hl hn =>
      ⟨hlive i hl fun h => hn (h ▸ hp), fun hmem => hn (List.mem_of_mem_erase hmem)⟩
    connectReq := hd }

/-- `client_connect_cb`. -/
theorem Onward.clientConnectCb {c : ℕ} (hp : .connect c ∈ m.pending) (status write shutdown : ℤ) :
    Onward m ((m.taken (.connect c)).clientConnectCb c status write shutdown) := by
  cases hreq : m.connects.blocks[c]? with
  | none =>
    rw [clientConnectCb_of_none (m := m.taken (.connect c)) hreq]
    exact Onward.taken m (.connect c)
  | some req =>
    by_cases hstatus : status = 0
    · rw [hstatus, clientConnectCb_of_made (m := m.taken (.connect c)) hreq]
      have hdone := Onward.connectDone hp (q := (m.connects.touch c).release c)
        (fun i hl hne => Pool.live_release_iff.mpr ⟨hl, hne⟩) Pool.dangling_touch_ne_nil
      have hset := (hdone.trans (Onward.setHandle _ req.handle fun t =>
        { t with connected := true })).trans (Onward.touchHandle _ req.handle)
      have htouch := hset.trans (Onward.touchHandle _ req.handle)
      unfold State.uvWrite
      split_ifs
      · exact htouch.trans (Onward.allocWrite _ ⟨req.buf⟩ (l := [.write m.writes.fresh])
          fun p hp => List.mem_singleton.mp hp)
      · have halloc := htouch.trans (Onward.allocWrite _ ⟨req.buf⟩ (l := []) nofun)
        rw [List.append_nil] at halloc
        exact halloc
    · rw [clientConnectCb_of_failed (m := m.taken (.connect c)) hreq hstatus]
      have hdone := Onward.connectDone hp (q := (m.connects.release c).touch c)
        (fun i hl hne => Pool.live_release_iff.mpr ⟨hl, hne⟩)
        (Pool.dangling_touch_ne_nil (p := m.connects.release c))
      have hfailed : Onward m { m.taken (.connect c) with
          connects := (m.connects.release c).touch c, failed := m.failed ++ [req.handle] } :=
        hdone.trans (.of_requests_eq rfl rfl rfl rfl id)
      let m₁ : State := ((m.taken (.connect c)).connectFailed c req).uvShutdown
        m.shutdowns.fresh req.handle shutdown
      have hshutdown : Onward m m₁ := hfailed.trans (Onward.uvShutdownOcaml _ req.handle shutdown)
      have hconnects : m₁.connects = (m.connects.release c).touch c := connects_uvShutdown _ _ _ _
      refine hshutdown.trans (Onward.trans ?_ (Onward.touchHandle _ req.handle))
      refine ⟨fun _ hl hn => ⟨hl, hn⟩, fun i hl hn => ⟨?_, hn⟩, fun _ hl hn => ⟨hl, hn⟩, id,
        fun hd => Pool.dangling_touch_ne_nil ?_⟩
      · rwa [hconnects] at hl
      · rwa [hconnects] at hd

/-- `connection_cb`. -/
theorem Onward.connectionCb (m : State) (server : ℕ) (isNull : Bool) (accept shutdown : ℤ) :
    Onward m (m.connectionCb server isNull accept shutdown) := by
  have htwice : m.handles.dangling ≠ [] → ((m.handles.touch server).touch server).dangling ≠ [] :=
    fun hd =>
      Pool.dangling_touch_ne_nil (p := m.handles.touch server) (Pool.dangling_touch_ne_nil hd)
  by_cases haccept : accept = 0
  · subst haccept
    rw [connectionCb_of_accepted]
    exact .of_requests_eq rfl rfl rfl rfl htwice
  · rw [State.connectionCb, if_neg haccept]
    refine Onward.trans ?_ (Onward.uvShutdownOcaml _ _ shutdown)
    exact .of_requests_eq rfl rfl rfl rfl htwice

/-- `request`. -/
theorem Onward.request (m : State) (isNull : Bool) (r : ℤ) : Onward m (m.request isNull r) := by
  have hnew : Onward m { m with
      frames := m.frames + 1
      handles := m.handles.alloc ⟨.client, .callback, false, false, true, false, false⟩
      roots := insert (.param m.frames) m.roots
      bufs := m.bufs.alloc ()
      failed := if r = 0 then m.failed else m.failed ++ [m.handles.fresh] } :=
    .of_requests_eq rfl rfl rfl rfl id
  have hpending : (if r = 0 then m.pending ++ [Pending.connect m.connects.fresh] else m.pending)
      = m.pending ++ if r = 0 then [.connect m.connects.fresh] else [] := by
    split_ifs
    · rfl
    · rw [List.append_nil]
  rw [request_eq, hpending]
  refine hnew.trans (Onward.allocConnect _ ⟨m.handles.fresh, m.bufs.fresh⟩ fun p hp => ?_)
  split_ifs at hp
  · exact List.mem_singleton.mp hp
  · cases hp

end Onward

/-- Every event leads onward. -/
theorem onward_exec (m : State) (e : Event) (he : enabled m e = true) : Onward m (exec m e) := by
  cases e with
  | createServer isNull => exact .of_requests_eq rfl rfl rfl rfl id
  | run isNull => exact .of_requests_eq rfl rfl rfl rfl id
  | listen server =>
    exact .of_requests_eq rfl rfl rfl rfl fun hd =>
      Pool.dangling_touch_ne_nil (Pool.dangling_touch_ne_nil hd)
  | connection server isNull accept shutdown =>
    exact Onward.connectionCb m server isNull accept shutdown
  | requestOn h => exact .of_requests_eq rfl rfl rfl rfl Pool.dangling_touch_ne_nil
  | write h r => exact Onward.uvWriteOcaml m h r
  | shutdown h r => exact Onward.uvShutdownOcaml m h r
  | read h => exact Onward.touchHandle m h
  | request isNull r => exact Onward.request m isNull r
  | connectDone c status write shutdown =>
    exact Onward.clientConnectCb (of_decide_eq_true he) status write shutdown
  | writeDone w status => exact Onward.writeCb (of_decide_eq_true he)
  | shutdownDone s h status => exact Onward.shutdownCb (of_decide_eq_true he)
  | closed h => exact (Onward.taken m (.close h)).trans (Onward.closeCb _ h)

/-- A shutdown that libuv refuses leaves its request behind. -/
theorem spoilt_uvShutdownOcaml {m : State} (hfresh : ∀ h, .shutdown m.shutdowns.fresh h ∉ m.pending)
    {h : ℕ} {r : ℤ}
    (hrefused : ¬ ((m.tcp h).any (fun t => t.writable && !t.shut && !t.closing) ∧ r = 0)) :
    Spoilt (m.uvShutdownOcaml h r) := by
  rw [State.uvShutdownOcaml, uvShutdown_eq, if_neg (by exact hrefused)]
  exact .shutdown m.shutdowns.fresh ((Pool.live_alloc_iff _).mpr (.inr rfl)) hfresh

/-- A write that libuv refuses leaves its request behind. -/
theorem spoilt_uvWriteOcaml {m : State} (hfresh : .write m.writes.fresh ∉ m.pending) (h : ℕ) {r : ℤ}
    (hr : r ≠ 0) : Spoilt (m.uvWriteOcaml h r) := by
  rw [State.uvWriteOcaml, State.uvWrite, if_neg hr]
  exact .write m.writes.fresh ((Pool.live_alloc_iff _).mpr (.inr rfl)) hfresh

/-- The request of `uv_write` was allocated before. -/
theorem writes_uvWrite (m : State) (w h : ℕ) (r : ℤ) : (m.uvWrite w h r).writes = m.writes := by
  unfold State.uvWrite
  split_ifs <;> rfl

/-- No callback is owed for a write that libuv refuses. -/
theorem pending_uvWrite_of_ne (m : State) (w h : ℕ) {r : ℤ} (hr : r ≠ 0) :
    (m.uvWrite w h r).pending = m.pending := by
  rw [State.uvWrite, if_neg hr]
  rfl

/-- When the connection fails, the connect request is read after its release. -/
theorem spoilt_clientConnectCb {m : State} {c : ℕ} (hlt : c < m.connects.blocks.length)
    {status : ℤ} (hstatus : status ≠ 0) (write shutdown : ℤ) :
    Spoilt (m.clientConnectCb c status write shutdown) := by
  have hreleased : c ∈ (m.connects.release c).released := by
    rw [Pool.released_release hlt]
    exact List.mem_append_right _ List.mem_cons_self
  have hdangling : (((m.connects.release c).touch c).touch c).dangling ≠ [] :=
    Pool.dangling_touch_of_mem hreleased
  rw [clientConnectCb_of_failed (List.getElem?_eq_getElem hlt) hstatus]
  exact .connectReq hdangling

/-- When the write on a new connection is refused, its request is left behind. -/
theorem spoilt_clientConnectCb_write {m : State} {c : ℕ} (hlt : c < m.connects.blocks.length)
    (hfresh : .write m.writes.fresh ∉ m.pending) {write : ℤ} (hr : write ≠ 0) (shutdown : ℤ) :
    Spoilt (m.clientConnectCb c 0 write shutdown) := by
  rw [clientConnectCb_of_made (List.getElem?_eq_getElem hlt)]
  refine .write m.writes.fresh ?_ ?_
  · show (State.uvWrite _ _ _ _).writes.Live _
    rw [writes_uvWrite]
    exact (Pool.live_alloc_iff _).mpr (.inr rfl)
  · show _ ∉ (State.uvWrite _ _ _ _).pending
    rw [pending_uvWrite_of_ne _ _ _ hr]
    exact hfresh

/-- A connection that is not accepted is shut down without having been opened. -/
theorem spoilt_connectionCb {m : State} (hfresh : ∀ h, .shutdown m.shutdowns.fresh h ∉ m.pending)
    (server : ℕ) (isNull : Bool) {accept : ℤ} (haccept : accept ≠ 0) (shutdown : ℤ) :
    Spoilt (m.connectionCb server isNull accept shutdown) := by
  rw [State.connectionCb, if_neg haccept]
  refine spoilt_uvShutdownOcaml (m := { ((m.touchHandle server).uvTcpInit .connection
    isNull).touchHandle server with failed := m.failed ++ [m.handles.fresh] }) hfresh ?_
  have htcp :
      (m.handles.alloc
          ⟨.connection, .junk isNull, false, false, false, false, false⟩).blocks[m.handles.fresh]? =
        some ⟨.connection, .junk isNull, false, false, false, false, false⟩ :=
    Pool.getElem?_alloc_fresh _
  rintro ⟨hopen, -⟩
  obtain ⟨t, ht, hflags⟩ := (Option.any_eq_true _ _).mp hopen
  obtain rfl : _ = t := Option.some.inj (htcp.symm.trans ht)
  simp at hflags

/-- **A step that fails spoils ownership for good.** -/
theorem spoilt_of_not_succeeds (m : State) (e : Event) (hm : Accounts m) (he : enabled m e = true)
    (hfail : ¬ Succeeds m e) : Spoilt (exec m e) := by
  have hshutdown : ∀ h, .shutdown m.shutdowns.fresh h ∉ m.pending := fun h hmem =>
    Nat.lt_irrefl _ (hm.shutdowns.lt_of_mem (List.mem_filterMap.mpr ⟨_, hmem, rfl⟩))
  have hwrite : .write m.writes.fresh ∉ m.pending := fun hmem => Nat.lt_irrefl _ (hm.write_lt hmem)
  cases e with
  | createServer isNull => exact absurd trivial hfail
  | run isNull => exact absurd trivial hfail
  | listen server => exact absurd trivial hfail
  | connection server isNull accept shutdown =>
    exact spoilt_connectionCb hshutdown server isNull hfail shutdown
  | requestOn h => exact .handle (Pool.dangling_touch_of_mem (not_not.mp hfail))
  | write h r =>
    by_cases hr : r = 0
    · have hh : h ∈ m.handles.released := by
        by_contra hh
        exact hfail ⟨hr, hh⟩
      subst hr
      exact .handle (Pool.dangling_touch_of_mem hh)
    · exact spoilt_uvWriteOcaml hwrite h hr
  | shutdown h r =>
    refine spoilt_uvShutdownOcaml hshutdown ?_
    rintro ⟨hopen, rfl⟩
    obtain ⟨t, ht, hflags⟩ := (Option.any_eq_true _ _).mp hopen
    simp only [Bool.and_eq_true, Bool.not_eq_true'] at hflags
    exact hfail ⟨rfl, t, ht, hflags.1.2⟩
  | read h => exact absurd trivial hfail
  | request isNull r =>
    have hr : ¬ r = 0 := hfail
    show Spoilt (m.request isNull r)
    rw [request_eq, if_neg hr]
    exact .connect m.connects.fresh ((Pool.live_alloc_iff _).mpr (.inr rfl)) fun hmem =>
      Nat.lt_irrefl _ (hm.connect_lt hmem)
  | connectDone c status write shutdown =>
    have hlt := hm.connect_lt (of_decide_eq_true he)
    show Spoilt ((m.taken (.connect c)).clientConnectCb c status write shutdown)
    by_cases hstatus : status = 0
    · subst hstatus
      exact spoilt_clientConnectCb_write (m := m.taken (.connect c)) hlt
        (fun hmem => hwrite (List.mem_of_mem_erase hmem)) (fun hr => hfail ⟨rfl, hr⟩) shutdown
    · exact spoilt_clientConnectCb (m := m.taken (.connect c)) hlt hstatus write shutdown
  | writeDone w status => exact absurd trivial hfail
  | shutdownDone s h status => exact absurd trivial hfail
  | closed h => exact absurd trivial hfail

/-- **Ownership is in order exactly when everything succeeds.**  In a run whose every
accept, connect, write and shutdown succeeds, in which no stream is shut down twice
and OCaml code uses no released handle, ownership is in order in every state.  One
step of another kind, and it is not when libuv owes no callback any more. -/
theorem owned_iff_succeeds (es : List Event) (hes : stubs.Possible State.init es) :
    (stubs.Along Succeeds State.init es → stubs.EveryState Owned State.init es) ∧
    ((stubs.after State.init es).pending = [] →
      (stubs.EveryState Owned State.init es ↔ stubs.Along Succeeds State.init es)) := by
  have hgood : stubs.Along Succeeds State.init es → stubs.EveryState Owned State.init es :=
    Machine.everyState_of_along (M := stubs) accounts_exec (fun _ => Accounts.owned)
      accounts_init hes
  refine ⟨hgood, fun hquiet => ⟨fun hown => ?_, hgood⟩⟩
  rcases Machine.along_or_spoilt (M := stubs) accounts_exec spoilt_of_not_succeeds
    (fun m e hm he => hm.onward (onward_exec m e he)) accounts_init hes with hsucc | hspoilt
  · exact hsucc
  · exact absurd (hown es (List.prefix_refl es)) (hspoilt.not_owned hquiet)

instance (m : State) (e : Event) : Decidable (Succeeds m e) :=
  match e with
  | .createServer _ => isTrue trivial
  | .listen _ => isTrue trivial
  | .run _ => isTrue trivial
  | .connection _ _ accept _ => inferInstanceAs (Decidable (accept = 0))
  | .requestOn h => inferInstanceAs (Decidable (h ∉ m.handles.released))
  | .write h r => inferInstanceAs (Decidable (r = 0 ∧ h ∉ m.handles.released))
  | .shutdown h r =>
    decidable_of_iff (r = 0 ∧ (m.tcp h).any (fun t => t.shut = false) = true) (by
      rw [Option.any_eq_true]
      simp [Succeeds])
  | .read _ => isTrue trivial
  | .request _ r => inferInstanceAs (Decidable (r = 0))
  | .connectDone _ status write _ => inferInstanceAs (Decidable (status = 0 ∧ write = 0))
  | .writeDone _ _ => isTrue trivial
  | .shutdownDone _ _ _ => isTrue trivial
  | .closed _ => isTrue trivial

/-- A server that answers one client and closes, next to a client. -/
def servedAndAsked : List Event :=
  [.createServer true, .listen 0, .run false, .connection 0 false 0 0, .request true 0, .read 2,
    .write 2 0, .write 2 0, .shutdown 2 0, .writeDone 1 0, .connectDone 0 0 0 0, .writeDone 0 0,
    .shutdownDone 0 2 0, .closed 2, .writeDone 2 0, .read 3]

/-- Everything goes well in this run. -/
theorem owned_servedAndAsked : stubs.EveryState Owned State.init servedAndAsked :=
  (owned_iff_succeeds servedAndAsked (by decide)).1 (by decide)

/-- The process is out of file descriptors when a client connects: `EMFILE`. -/
def acceptFails : List Event := [.createServer true, .listen 0, .connection 0 true (-24) 0]

/-- Nobody listens, `ECONNREFUSED`, and the stream that is not connected is not shut
down either, `ENOTCONN`. -/
def connectFails : List Event := [.request true 0, .connectDone 0 (-111) 0 (-107)]

/-- A handler writes to its response when the connection has been closed. -/
def responseKept : List Event :=
  [.createServer true, .listen 0, .connection 0 true 0 0, .write 1 0, .shutdown 1 0, .writeDone 0 0,
    .shutdownDone 0 1 0, .closed 1, .write 1 (-9)]

/-- The first run leaves the shutdown request behind, the second reads the connect
request after its release, and the third the handle. -/
theorem not_owned_acceptFails_connectFails_responseKept :
    (stubs.Possible State.init acceptFails ∧ ¬ stubs.EveryState Owned State.init acceptFails) ∧
    (stubs.Possible State.init connectFails ∧ ¬ stubs.EveryState Owned State.init connectFails) ∧
      stubs.Possible State.init responseKept ∧
        ¬ stubs.EveryState Owned State.init responseKept := by
  refine ⟨⟨by decide, fun h => ?_⟩, ⟨by decide, fun h => ?_⟩, by decide, fun h => ?_⟩
  · exact ((h acceptFails (List.prefix_refl _)).settled rfl).2.2.1 0 (by decide)
  · exact absurd (h connectFails (List.prefix_refl _)).connects.notDangling (by decide)
  · exact absurd (h responseKept (List.prefix_refl _)).handles.notDangling (by decide)

end Lifecycle
