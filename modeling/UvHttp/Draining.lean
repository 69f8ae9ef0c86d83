/-
# Draining, and what is lost

Whatever libuv answers, and whatever OCaml code does with the handles it holds: a request
or a buffer is released, or a callback is owed for it, or it was lost in a call that
libuv refused; and when nothing new is begun the callbacks that are owed come to an end,
and every handle that was shut down has been released.
-/
import Mathlib
import UvHttp.Ownership

namespace Lifecycle

/-! ## What is lost -/

/-- The blocks that no callback will release. -/
structure Lost where
  writes : List ℕ
  connects : List ℕ
  shutdowns : List ℕ
  bufs : List ℕ
  deriving DecidableEq

namespace Lost

variable (l : Lost)

def none : Lost := ⟨[], [], [], []⟩

/-- A write request and its buffer. -/
def loseWrite (w buf : ℕ) : Lost := { l with writes := l.writes ++ [w], bufs := l.bufs ++ [buf] }

/-- A connect request and its buffer. -/
def loseConnect (c buf : ℕ) : Lost :=
  { l with connects := l.connects ++ [c], bufs := l.bufs ++ [buf] }

def loseShutdown (s : ℕ) : Lost := { l with shutdowns := l.shutdowns ++ [s] }

def loseBuf (buf : ℕ) : Lost := { l with bufs := l.bufs ++ [buf] }

end Lost

/-- `uv_shutdown` takes the request: the stream was opened, is neither shut down nor closing,
and the answer is success. -/
def State.TakesShutdown (m : State) (h : ℕ) (r : ℤ) : Prop :=
  (m.tcp h).any (fun t => t.writable && !t.shut && !t.closing) ∧ r = 0

instance (m : State) (h : ℕ) (r : ℤ) : Decidable (m.TakesShutdown h r) :=
  inferInstanceAs (Decidable (_ ∧ _))

/-- What is lost after an event, if `l` was lost before: the requests and the buffers of the
calls that libuv refuses, and the buffer of a connection that was not made. -/
def lostBy (m : State) (l : Lost) : Event → Lost
  | .write _ r => if r = 0 then l else l.loseWrite m.writes.fresh m.bufs.fresh
  | .shutdown h r => if m.TakesShutdown h r then l else l.loseShutdown m.shutdowns.fresh
  | .connection _ _ accept _ => if accept = 0 then l else l.loseShutdown m.shutdowns.fresh
  | .request _ r => if r = 0 then l else l.loseConnect m.connects.fresh m.bufs.fresh
  | .connectDone c status write shutdown =>
    match m.connects.blocks[c]? with
    | none => l
    | some req =>
      if status ≠ 0 then
        let l := l.loseBuf req.buf
        if m.TakesShutdown req.handle shutdown then l else l.loseShutdown m.shutdowns.fresh
      else if write = 0 then l
      else l.loseWrite m.writes.fresh req.buf
  | _ => l

/-- What is lost after a run. -/
def lostIn (m : State) (l : Lost) : List Event → Lost
  | [] => l
  | e :: es => lostIn (exec m e) (lostBy m l e) es

/-! ## The census -/

/-- The blocks that callbacks are owed for, or that are lost. -/
def owedOrLost (f : Pending → Option ℕ) (pending : List Pending) (lost : List ℕ) : List ℕ :=
  pending.filterMap f ++ lost

section Owed

variable {f g : Pending → Option ℕ} {pending : List Pending} {lost : List ℕ} {p : Pending}

/-- One more callback is owed, about another kind of block. -/
theorem owedOrLost_concat_of_none (hp : f p = none) :
    (owedOrLost f pending lost).Perm (owedOrLost f (pending ++ [p]) lost) := by
  unfold owedOrLost
  rw [filterMap_concat_of_none _ hp]

/-- One more callback is owed. -/
theorem owedOrLost_concat_perm {i : ℕ} (hp : f p = some i) :
    (owedOrLost f pending lost ++ [i]).Perm (owedOrLost f (pending ++ [p]) lost) := by
  unfold owedOrLost
  rw [List.filterMap_append, List.filterMap_cons_some hp, List.filterMap_nil, List.append_assoc,
    List.append_assoc]
  exact (List.perm_append_comm).append_left _

/-- One more block is lost. -/
theorem owedOrLost_lose (i : ℕ) :
    owedOrLost f pending lost ++ [i] = owedOrLost f pending (lost ++ [i]) :=
  List.append_assoc _ _ _

/-- A callback is run that is about another kind of block. -/
theorem owedOrLost_erase_perm (hmem : p ∈ pending) (hp : f p = none) :
    (owedOrLost f pending lost).Perm (owedOrLost f (pending.erase p) lost) := by
  have hperm := (List.perm_cons_erase hmem).filterMap f
  rw [List.filterMap_cons_none hp] at hperm
  exact hperm.append_right lost

/-- A callback is run, and what it is about is no longer owed. -/
theorem owedOrLost_erase_cons_perm {i : ℕ} (hmem : p ∈ pending) (hp : f p = some i) :
    (owedOrLost f pending lost).Perm (i :: owedOrLost f (pending.erase p) lost) := by
  have hperm := (List.perm_cons_erase hmem).filterMap f
  rw [List.filterMap_cons_some hp] at hperm
  exact hperm.append_right lost

/-- What is owed or lost, by what it is about. -/
theorem owedOrLost_congr (h : ∀ q ∈ pending, f q = g q) :
    owedOrLost f pending lost = owedOrLost g pending lost :=
  congrArg (· ++ lost) (List.filterMap_congr h)

end Owed

/-- Every request and every buffer is released, owed a callback or lost, and only once, but
for the buffers in hand; and none but the connect requests are touched after their
release. -/
structure Census (m : State) (l : Lost) (inHand : List ℕ) : Prop where
  writes : m.writes.Accounted (owedOrLost Pending.writeOf m.pending l.writes)
  writesClean : m.writes.dangling = []
  connects : m.connects.Accounted (owedOrLost Pending.connectOf m.pending l.connects)
  shutdowns : m.shutdowns.Accounted (owedOrLost Pending.shutdownOf m.pending l.shutdowns)
  shutdownsClean : m.shutdowns.dangling = []
  bufs : m.bufs.Accounted (owedOrLost (bufOf m.writes m.connects) m.pending l.bufs ++ inHand)
  bufsClean : m.bufs.dangling = []

/-- Nothing was allocated yet. -/
theorem census_init : Census State.init Lost.none [] where
  writes := Pool.accounted_empty
  writesClean := rfl
  connects := Pool.accounted_empty
  shutdowns := Pool.accounted_empty
  shutdownsClean := rfl
  bufs := Pool.accounted_empty
  bufsClean := rfl

section Steps

variable {m : State} {l : Lost} {inHand : List ℕ}

/-- The handles and the roots do not matter. -/
theorem Census.congr {m' : State} (hm : Census m l inHand) (hpending : m'.pending = m.pending)
    (hwrites : m'.writes = m.writes) (hconnects : m'.connects = m.connects)
    (hshutdowns : m'.shutdowns = m.shutdowns) (hbufs : m'.bufs = m.bufs) : Census m' l inHand where
  writes := by
    rw [hwrites, hpending]
    exact hm.writes
  writesClean := by
    rw [hwrites]
    exact hm.writesClean
  connects := by
    rw [hconnects, hpending]
    exact hm.connects
  shutdowns := by
    rw [hshutdowns, hpending]
    exact hm.shutdowns
  shutdownsClean := by
    rw [hshutdowns]
    exact hm.shutdownsClean
  bufs := by
    rw [hbufs, hwrites, hconnects, hpending]
    exact hm.bufs
  bufsClean := by
    rw [hbufs]
    exact hm.bufsClean

/-- Pending callbacks keep their buffers when a write request is new. -/
theorem Census.bufOf_allocWrite (hm : Census m l inHand) (q : WriteReq) {p : Pending}
    (hp : p ∈ m.pending) :
    bufOf (m.writes.alloc q) m.connects p = bufOf m.writes m.connects p := by
  cases p with
  | write w =>
    have hlt := hm.writes.lt_of_mem (List.mem_append_left _ (List.mem_filterMap.mpr ⟨_, hp, rfl⟩))
    rw [bufOf, bufOf, Pool.getElem?_alloc_of_lt q hlt]
  | _ => rfl

/-- Pending callbacks keep their buffers when a connect request is new. -/
theorem Census.bufOf_allocConnect (hm : Census m l inHand) (q : ClientConnectReq) {p : Pending}
    (hp : p ∈ m.pending) :
    bufOf m.writes (m.connects.alloc q) p = bufOf m.writes m.connects p := by
  cases p with
  | connect c =>
    have hlt := hm.connects.lt_of_mem
      (List.mem_append_left _ (List.mem_filterMap.mpr ⟨_, hp, rfl⟩))
    rw [bufOf, bufOf, Pool.getElem?_alloc_of_lt q hlt]
  | _ => rfl

/-- A new buffer. -/
theorem Census.allocBuf (hm : Census m l []) :
    Census { m with bufs := m.bufs.alloc () } l [m.bufs.fresh] where
  writes := hm.writes
  writesClean := hm.writesClean
  connects := hm.connects
  shutdowns := hm.shutdowns
  shutdownsClean := hm.shutdownsClean
  bufs := by
    have hbufs := hm.bufs.alloc ()
    rw [List.append_nil] at hbufs
    exact hbufs
  bufsClean := hm.bufsClean

/-- The buffer in hand is lost. -/
theorem Census.loseBuf {buf : ℕ} (hm : Census m l [buf]) : Census m (l.loseBuf buf) [] where
  writes := hm.writes
  writesClean := hm.writesClean
  connects := hm.connects
  shutdowns := hm.shutdowns
  shutdownsClean := hm.shutdownsClean
  bufs := by
    have hbufs := hm.bufs
    rw [owedOrLost_lose] at hbufs
    rw [List.append_nil]
    exact hbufs
  bufsClean := hm.bufsClean

/-- `uv_write` with a new request for the buffer in hand: the request and the buffer are
owed to its callback, or lost. -/
theorem Census.uvWrite {buf : ℕ} (hm : Census m l [buf]) (h : ℕ) (r : ℤ) :
    Census (({ m with writes := m.writes.alloc ⟨buf⟩ } : State).uvWrite m.writes.fresh h r)
      (if r = 0 then l else l.loseWrite m.writes.fresh buf) [] := by
  have hwrites := hm.writes.alloc ⟨buf⟩
  have hbufs := hm.bufs
  have hold : owedOrLost (bufOf m.writes m.connects) m.pending l.bufs
      = owedOrLost (bufOf (m.writes.alloc ⟨buf⟩) m.connects) m.pending l.bufs :=
    owedOrLost_congr fun _ hp => (hm.bufOf_allocWrite _ hp).symm
  rw [hold] at hbufs
  unfold State.uvWrite
  by_cases hr : r = 0
  · rw [if_pos hr, if_pos hr]
    exact
      { writes := hwrites.perm (owedOrLost_concat_perm rfl)
        writesClean := hm.writesClean
        connects := hm.connects.perm (owedOrLost_concat_of_none rfl)
        shutdowns := hm.shutdowns.perm (owedOrLost_concat_of_none rfl)
        shutdownsClean := hm.shutdownsClean
        bufs := by
          rw [List.append_nil]
          exact hbufs.perm (owedOrLost_concat_perm (bufOf_alloc_write m.writes m.connects buf))
        bufsClean := hm.bufsClean }
  · rw [owedOrLost_lose] at hwrites hbufs
    rw [if_neg hr, if_neg hr]
    exact
      { writes := hwrites
        writesClean := hm.writesClean
        connects := hm.connects
        shutdowns := hm.shutdowns
        shutdownsClean := hm.shutdownsClean
        bufs := by
          rw [List.append_nil]
          exact hbufs
        bufsClean := hm.bufsClean }

/-- `uv_tcp_connect` with a new request for the buffer in hand. -/
theorem Census.connect {handle buf : ℕ} (hm : Census m l [buf]) (r : ℤ) :
    Census { m with
        connects := m.connects.alloc ⟨handle, buf⟩
        pending := if r = 0 then m.pending ++ [.connect m.connects.fresh] else m.pending }
      (if r = 0 then l else l.loseConnect m.connects.fresh buf) [] := by
  have hconnects := hm.connects.alloc ⟨handle, buf⟩
  have hbufs := hm.bufs
  have hold : owedOrLost (bufOf m.writes m.connects) m.pending l.bufs
      = owedOrLost (bufOf m.writes (m.connects.alloc ⟨handle, buf⟩)) m.pending l.bufs :=
    owedOrLost_congr fun _ hp => (hm.bufOf_allocConnect _ hp).symm
  have hnew : bufOf m.writes (m.connects.alloc ⟨handle, buf⟩) (.connect m.connects.fresh)
      = some buf := by
    rw [bufOf, Pool.getElem?_alloc_fresh]
    rfl
  rw [hold] at hbufs
  by_cases hr : r = 0
  · simp only [if_pos hr]
    exact
      { writes := hm.writes.perm (owedOrLost_concat_of_none rfl)
        writesClean := hm.writesClean
        connects := hconnects.perm (owedOrLost_concat_perm rfl)
        shutdowns := hm.shutdowns.perm (owedOrLost_concat_of_none rfl)
        shutdownsClean := hm.shutdownsClean
        bufs := by
          rw [List.append_nil]
          exact hbufs.perm (owedOrLost_concat_perm hnew)
        bufsClean := hm.bufsClean }
  · rw [owedOrLost_lose] at hconnects hbufs
    simp only [if_neg hr]
    exact
      { writes := hm.writes
        writesClean := hm.writesClean
        connects := hconnects
        shutdowns := hm.shutdowns
        shutdownsClean := hm.shutdownsClean
        bufs := by
          rw [List.append_nil]
          exact hbufs
        bufsClean := hm.bufsClean }

/-- `uv_shutdown` with a new request. -/
theorem Census.uvShutdownOcaml (hm : Census m l inHand) (h : ℕ) (r : ℤ) :
    Census (m.uvShutdownOcaml h r)
      (if m.TakesShutdown h r then l else l.loseShutdown m.shutdowns.fresh) inHand := by
  have hshutdowns := hm.shutdowns.alloc ⟨h⟩
  rw [State.uvShutdownOcaml, uvShutdown_eq]
  by_cases htakes : m.TakesShutdown h r
  · rw [if_pos (by exact htakes), if_pos htakes]
    exact
      { writes := hm.writes.perm (owedOrLost_concat_of_none rfl)
        writesClean := hm.writesClean
        connects := hm.connects.perm (owedOrLost_concat_of_none rfl)
        shutdowns := hshutdowns.perm (owedOrLost_concat_perm rfl)
        shutdownsClean := hm.shutdownsClean
        bufs := hm.bufs.perm ((owedOrLost_concat_of_none rfl).append_right _)
        bufsClean := hm.bufsClean }
  · rw [owedOrLost_lose] at hshutdowns
    rw [if_neg (by exact htakes), if_neg htakes]
    exact
      { writes := hm.writes
        writesClean := hm.writesClean
        connects := hm.connects
        shutdowns := hshutdowns
        shutdownsClean := hm.shutdownsClean
        bufs := hm.bufs
        bufsClean := hm.bufsClean }

/-- `write_cb`, run for a write that was owed. -/
theorem Census.writeCb (hm : Census m l []) {w : ℕ} (hw : .write w ∈ m.pending) :
    Census ((m.taken (.write w)).writeCb w) l [] := by
  have howed : w ∈ owedOrLost Pending.writeOf m.pending l.writes :=
    List.mem_append_left _ (List.mem_filterMap.mpr ⟨_, hw, rfl⟩)
  obtain ⟨req, hreq⟩ : ∃ req, m.writes.blocks[w]? = some req :=
    ⟨_, List.getElem?_eq_getElem (hm.writes.lt_of_mem howed)⟩
  have hbuf : bufOf m.writes m.connects (.write w) = some req.buf := by rw [bufOf, hreq]; rfl
  have htaken : (m.taken (.write w)).writes.blocks[w]? = some req := hreq
  rw [State.writeCb, htaken]
  exact
    { writes := hm.writes.touch.release (owedOrLost_erase_cons_perm hw rfl)
      writesClean := (if_neg (hm.writes.notMem_released howed)).trans hm.writesClean
      connects := hm.connects.perm (owedOrLost_erase_perm hw rfl)
      shutdowns := hm.shutdowns.perm (owedOrLost_erase_perm hw rfl)
      shutdownsClean := hm.shutdownsClean
      bufs := hm.bufs.release ((owedOrLost_erase_cons_perm hw hbuf).append_right [])
      bufsClean := hm.bufsClean }

/-- `shutdown_cb`, run for a shutdown that was owed. -/
theorem Census.shutdownCb (hm : Census m l []) (hok : HandlesOk m) {s h : ℕ}
    (hp : .shutdown s h ∈ m.pending) : Census ((m.taken (.shutdown s h)).shutdownCb s) l [] := by
  have howed : s ∈ owedOrLost Pending.shutdownOf m.pending l.shutdowns :=
    List.mem_append_left _ (List.mem_filterMap.mpr ⟨_, hp, rfl⟩)
  have hreq : (m.taken (.shutdown s h)).shutdowns.blocks[s]? = some ⟨h⟩ := hok.request s h hp
  have hclose : ∀ {f : Pending → Option ℕ} {lost : List ℕ}, f (.close h) = none →
      (owedOrLost f (m.pending.erase (.shutdown s h)) lost).Perm
        (owedOrLost f (m.pending.erase (.shutdown s h) ++ [.close h]) lost) :=
    fun hf => owedOrLost_concat_of_none hf
  rw [State.shutdownCb, hreq]
  exact
    { writes := hm.writes.perm ((owedOrLost_erase_perm hp rfl).trans (hclose rfl))
      writesClean := hm.writesClean
      connects := hm.connects.perm ((owedOrLost_erase_perm hp rfl).trans (hclose rfl))
      shutdowns := hm.shutdowns.touch.release
        ((owedOrLost_erase_cons_perm hp rfl).trans ((hclose rfl).cons s))
      shutdownsClean := (if_neg (hm.shutdowns.notMem_released howed)).trans hm.shutdownsClean
      bufs := hm.bufs.perm
        (((owedOrLost_erase_perm hp rfl).trans (hclose rfl)).append_right [])
      bufsClean := hm.bufsClean }

/-- `close_cb`. -/
theorem Census.closeCb (hm : Census m l []) {h : ℕ} (hp : .close h ∈ m.pending) :
    Census ((m.taken (.close h)).closeCb h) l [] := by
  obtain ⟨roots, unregistered, heq⟩ := exists_closeCb_eq (m.taken (.close h)) h
  rw [heq]
  exact
    { writes := hm.writes.perm (owedOrLost_erase_perm hp rfl)
      writesClean := hm.writesClean
      connects := hm.connects.perm (owedOrLost_erase_perm hp rfl)
      shutdowns := hm.shutdowns.perm (owedOrLost_erase_perm hp rfl)
      shutdownsClean := hm.shutdownsClean
      bufs := hm.bufs.perm ((owedOrLost_erase_perm hp rfl).append_right [])
      bufsClean := hm.bufsClean }

/-- A connect callback takes over the buffer of its request, which is released. -/
theorem Census.takeConnect (hm : Census m l []) {c : ℕ} (hp : .connect c ∈ m.pending)
    {req : ClientConnectReq} (hreq : m.connects.blocks[c]? = some req) (p : Pool ClientConnectReq)
    (hblocks : p.blocks = m.connects.blocks)
    (hreleased : p.released = (m.connects.release c).released) :
    Census { m.taken (.connect c) with connects := p } l [req.buf] := by
  have hbuf : bufOf m.writes p (.connect c) = some req.buf := by
    rw [bufOf, hblocks, hreq]
    rfl
  have hsame : bufOf m.writes m.connects = bufOf m.writes p := by
    funext q
    cases q with
    | connect c' => rw [bufOf, bufOf, hblocks]
    | _ => rfl
  have hbufs := hm.bufs
  rw [hsame, List.append_nil] at hbufs
  have hconnects := hm.connects.release (owedOrLost_erase_cons_perm hp rfl)
  exact
    { writes := hm.writes.perm (owedOrLost_erase_perm hp rfl)
      writesClean := hm.writesClean
      connects := by
        unfold Pool.Accounted at hconnects ⊢
        rw [Pool.blocks_release, ← hreleased, ← hblocks] at hconnects
        exact hconnects
      shutdowns := hm.shutdowns.perm (owedOrLost_erase_perm hp rfl)
      shutdownsClean := hm.shutdownsClean
      bufs := hbufs.perm ((owedOrLost_erase_cons_perm hp hbuf).trans
        (List.perm_append_singleton _ _).symm)
      bufsClean := hm.bufsClean }

/-- `client_connect_cb`, run for a connection that was owed. -/
theorem Census.clientConnectCb (hm : Census m l []) {c : ℕ} (hp : .connect c ∈ m.pending)
    (status write shutdown : ℤ) :
    Census ((m.taken (.connect c)).clientConnectCb c status write shutdown)
      (lostBy m l (.connectDone c status write shutdown)) [] := by
  have howed : c ∈ owedOrLost Pending.connectOf m.pending l.connects :=
    List.mem_append_left _ (List.mem_filterMap.mpr ⟨_, hp, rfl⟩)
  obtain ⟨req, hreq⟩ : ∃ req, m.connects.blocks[c]? = some req :=
    ⟨_, List.getElem?_eq_getElem (hm.connects.lt_of_mem howed)⟩
  rw [lostBy, hreq]
  show Census _ (if status ≠ 0 then _ else _) []
  by_cases hstatus : status ≠ 0
  · rw [clientConnectCb_of_failed (m := m.taken (.connect c)) hreq hstatus, if_pos hstatus]
    have hfreed := (hm.takeConnect hp hreq (((m.connects.release c).touch c).touch c) rfl
      rfl).loseBuf
    have hshut := hfreed.uvShutdownOcaml req.handle shutdown
    rw [State.uvShutdownOcaml, uvShutdown_eq] at hshut
    simp only [uvShutdown_eq]
    by_cases htakes : m.TakesShutdown req.handle shutdown
    · rw [if_pos (by exact htakes), if_pos (by exact htakes)] at hshut
      rw [if_pos (by exact htakes), if_pos htakes]
      exact hshut.congr rfl rfl rfl rfl rfl
    · rw [if_neg (by exact htakes), if_neg (by exact htakes)] at hshut
      rw [if_neg (by exact htakes), if_neg htakes]
      exact hshut.congr rfl rfl rfl rfl rfl
  · rw [if_neg hstatus, not_not.mp hstatus,
      clientConnectCb_of_made (m := m.taken (.connect c)) hreq]
    have hfreed := hm.takeConnect hp hreq ((m.connects.touch c).release c) rfl rfl
    have hwrite := hfreed.uvWrite req.handle write
    unfold State.uvWrite at hwrite ⊢
    by_cases hr : write = 0
    · simp only [if_pos hr] at hwrite ⊢
      exact hwrite.congr rfl rfl rfl rfl rfl
    · simp only [if_neg hr] at hwrite ⊢
      exact hwrite.congr rfl rfl rfl rfl rfl

/-- `connection_cb`; the handle of a connection that failed cannot be shut down. -/
theorem Census.connectionCb (hm : Census m l []) (server : ℕ) (isNull : Bool)
    (accept shutdown : ℤ) : Census (m.connectionCb server isNull accept shutdown)
      (lostBy m l (.connection server isNull accept shutdown)) [] := by
  rw [lostBy]
  by_cases haccept : accept = 0
  · rw [if_pos haccept, haccept, connectionCb_of_accepted]
    exact hm.congr rfl rfl rfl rfl rfl
  · rw [if_neg haccept, State.connectionCb, if_neg haccept]
    let m₁ : State := ((m.touchHandle server).uvTcpInit .connection isNull).touchHandle server
    have hnew : m₁.tcp m.handles.fresh =
        some ⟨.connection, .junk isNull, false, false, false, false, false⟩ :=
      Pool.getElem?_alloc_fresh _
    have hfailed : Census { m₁ with failed := m.failed ++ [m.handles.fresh] } l [] :=
      hm.congr rfl rfl rfl rfl rfl
    have hrefused : ¬ State.TakesShutdown { m₁ with failed := m.failed ++ [m.handles.fresh] }
        m.handles.fresh shutdown := by
      rintro ⟨htcp, -⟩
      change (m₁.tcp m.handles.fresh).any _ = true at htcp
      rw [hnew] at htcp
      cases htcp
    have hshut := hfailed.uvShutdownOcaml m.handles.fresh shutdown
    rw [if_neg hrefused] at hshut
    exact hshut

end Steps

/-- **The step**: what every event does to the requests and the buffers. -/
theorem census_exec {m : State} {l : Lost} {e : Event} (hm : Census m l []) (hok : HandlesOk m)
    (he : enabled m e = true) : Census (exec m e) (lostBy m l e) [] := by
  cases e with
  | createServer isNull => exact hm.congr rfl rfl rfl rfl rfl
  | listen server => exact hm.congr rfl rfl rfl rfl rfl
  | run isNull => exact hm.congr rfl rfl rfl rfl rfl
  | connection server isNull accept shutdown => exact hm.connectionCb server isNull accept shutdown
  | requestOn h => exact hm.congr rfl rfl rfl rfl rfl
  | write h r => exact hm.allocBuf.uvWrite h r
  | shutdown h r => exact hm.uvShutdownOcaml h r
  | read h => exact hm.congr rfl rfl rfl rfl rfl
  | request isNull r =>
    rw [exec, request_eq]
    exact (hm.allocBuf.connect r).congr rfl rfl rfl rfl rfl
  | connectDone c status write shutdown =>
    exact hm.clientConnectCb (of_decide_eq_true he) status write shutdown
  | writeDone w status => exact hm.writeCb (of_decide_eq_true he)
  | shutdownDone s h status => exact hm.shutdownCb hok (of_decide_eq_true he)
  | closed h => exact hm.closeCb (of_decide_eq_true he)

/-- **The run.** -/
theorem census_after {m : State} {l : Lost} (hm : Census m l []) (hok : HandlesOk m)
    {es : List Event} (hes : stubs.Possible m es) :
    Census (stubs.after m es) (lostIn m l es) [] := by
  induction es generalizing m l with
  | nil => exact hm
  | cons e es ih =>
    exact ih (census_exec hm hok hes.1) (handlesOk_exec m e hok hes.1) hes.2

/-! ## Handles on their way out -/

/-- The handle is released, or a callback is owed that leads there. -/
def State.OnItsWay (m : State) (h : ℕ) : Prop :=
  h ∈ m.handles.released ∨ ∃ p ∈ m.pending, p.endOf = some h

/-- Every handle that was shut down is on its way out. -/
def ShutLeaves (m : State) : Prop :=
  ∀ h t, m.tcp h = some t → t.shut = true → m.OnItsWay h

section Leaving

variable {m : State}

/-- No handle is shut, and none is forgotten. -/
theorem ShutLeaves.congr {m' : State} (hm : ShutLeaves m) (hshut : NoNewShut m.handles m'.handles)
    (hway : ∀ h, m.OnItsWay h → m'.OnItsWay h) : ShutLeaves m' := by
  intro h t ht hs
  obtain ⟨u, hu, hus⟩ := hshut h t ht hs
  exact hway h (hm h u hu hus)

/-- Where the callbacks that are owed grow in number. -/
theorem State.OnItsWay.mono {m' : State} {h : ℕ} (hh : m.OnItsWay h)
    (hreleased : m.handles.released ⊆ m'.handles.released) (hpending : m.pending ⊆ m'.pending) :
    m'.OnItsWay h := by
  rcases hh with hh | ⟨p, hp, hend⟩
  · exact .inl (hreleased hh)
  · exact .inr ⟨p, hpending hp, hend⟩

/-- A callback is taken that leads somewhere else. -/
theorem State.OnItsWay.taken {m' : State} {h : ℕ} {p : Pending} (hh : m.OnItsWay h)
    (hp : p.endOf ≠ some h) (hreleased : m.handles.released ⊆ m'.handles.released)
    (hpending : m.pending.erase p ⊆ m'.pending) : m'.OnItsWay h := by
  rcases hh with hh | ⟨q, hq, hend⟩
  · exact .inl (hreleased hh)
  · have hne : q ≠ p := fun heq => hp (heq ▸ hend)
    exact .inr ⟨q, hpending ((List.mem_erase_of_ne hne).mpr hq), hend⟩

/-- `uv_shutdown`: a handle that is shut waits for its callback. -/
theorem ShutLeaves.uvShutdown (hm : ShutLeaves m) (s h : ℕ) (r : ℤ) :
    ShutLeaves (m.uvShutdown s h r) := by
  rw [uvShutdown_eq]
  split_ifs
  · intro h' t ht hs
    by_cases hh : h = h'
    · exact .inr ⟨.shutdown s h, List.mem_append_right _ (List.mem_singleton.mpr rfl),
        congrArg some hh⟩
    · have hold : m.tcp h' = some t := by
        rw [← ht]
        exact ((tcp_setHandle m h h' _).trans (if_neg hh)).symm
      exact (hm h' t hold hs).mono (List.Subset.refl _) (List.subset_append_left _ _)
  · exact hm.congr (.of_blocks_eq rfl) fun _ hh => hh

/-- `uv_write`. -/
theorem ShutLeaves.uvWrite (hm : ShutLeaves m) (w h : ℕ) (r : ℤ) :
    ShutLeaves (m.uvWrite w h r) := by
  unfold State.uvWrite
  split_ifs
  · exact hm.congr (.of_blocks_eq rfl) fun _ hh =>
      hh.mono (List.Subset.refl _) (List.subset_append_left _ _)
  · exact hm.congr (.of_blocks_eq rfl) fun _ hh => hh

/-- `shutdown_cb`: the handle waits for its close instead. -/
theorem ShutLeaves.shutdownCb (hm : ShutLeaves m) (hok : HandlesOk m) {s h : ℕ}
    (hp : .shutdown s h ∈ m.pending) : ShutLeaves ((m.taken (.shutdown s h)).shutdownCb s) := by
  have hreq : (m.taken (.shutdown s h)).shutdowns.blocks[s]? = some ⟨h⟩ := hok.request s h hp
  rw [State.shutdownCb, hreq]
  refine hm.congr (NoNewShut.modify _ _ fun _ => rfl) fun h' hh => ?_
  by_cases heq : h = h'
  · exact .inr ⟨.close h, List.mem_append_right _ (List.mem_singleton.mpr rfl), congrArg some heq⟩
  · exact hh.taken (p := .shutdown s h) (fun h => heq (Option.some.inj h)) (List.Subset.refl _)
      (List.subset_append_left _ _)

/-- `close_cb`: the handle is released. -/
theorem ShutLeaves.closeCb (hm : ShutLeaves m) (hok : HandlesOk m) {h : ℕ}
    (hp : .close h ∈ m.pending) : ShutLeaves ((m.taken (.close h)).closeCb h) := by
  obtain ⟨t, ht, -⟩ := hok.closing h (.inr hp)
  have hlt : h < m.handles.blocks.length := (List.getElem?_eq_some_iff.mp ht).1
  have hreleased : ((m.handles.touch h).release h).released = m.handles.released ++ [h] :=
    Pool.released_release hlt
  obtain ⟨roots, unregistered, heq⟩ := exists_closeCb_eq (m.taken (.close h)) h
  rw [heq]
  refine hm.congr (.of_blocks_eq rfl) fun h' hh => ?_
  by_cases hh' : h = h'
  · refine .inl ?_
    show h' ∈ ((m.handles.touch h).release h).released
    rw [hreleased, hh']
    exact List.mem_append_right _ (List.mem_singleton.mpr rfl)
  · refine hh.taken (p := .close h) (fun h => hh' (Option.some.inj h)) ?_ (List.Subset.refl _)
    show m.handles.released ⊆ ((m.handles.touch h).release h).released
    rw [hreleased]
    exact List.subset_append_left _ _

/-- `write_cb`. -/
theorem ShutLeaves.writeCb (hm : ShutLeaves m) (w : ℕ) :
    ShutLeaves ((m.taken (.write w)).writeCb w) := by
  unfold State.writeCb
  have hway : ∀ h, m.OnItsWay h → (m.taken (.write w)).OnItsWay h := fun h hh =>
    hh.taken (p := .write w) (Option.some_ne_none _).symm (List.Subset.refl _) (List.Subset.refl _)
  cases (m.taken (.write w)).writes.blocks[w]? with
  | none => exact hm.congr (.of_blocks_eq rfl) hway
  | some req => exact hm.congr (.of_blocks_eq rfl) hway

/-- `client_connect_cb`. -/
theorem ShutLeaves.clientConnectCb (hm : ShutLeaves m) (c : ℕ) (status write shutdown : ℤ) :
    ShutLeaves (m.clientConnectCb c status write shutdown) := by
  cases hreq : m.connects.blocks[c]? with
  | none =>
    rw [clientConnectCb_of_none hreq]
    exact hm
  | some req =>
    by_cases hstatus : status = 0
    · rw [hstatus, clientConnectCb_of_made hreq]
      have hmade : ShutLeaves (m.connectMade c req) :=
        hm.congr (NoNewShut.modify _ _ fun _ => rfl) fun _ hh => hh
      exact (hmade.uvWrite m.writes.fresh req.handle write).congr (.of_blocks_eq rfl)
        fun _ hh => hh
    · rw [clientConnectCb_of_failed hreq hstatus]
      have hfailed : ShutLeaves (m.connectFailed c req) :=
        hm.congr (.of_blocks_eq rfl) fun _ hh => hh
      exact (hfailed.uvShutdown m.shutdowns.fresh req.handle shutdown).congr (.of_blocks_eq rfl)
        fun _ hh => hh

end Leaving

/-- **The step**: every event keeps the handles that were shut down on their way. -/
theorem shutLeaves_exec {m : State} {e : Event} (hm : ShutLeaves m) (hok : HandlesOk m)
    (he : enabled m e = true) : ShutLeaves (exec m e) := by
  cases e with
  | createServer isNull => exact hm.congr (.alloc _ rfl) fun _ hh => hh
  | run isNull => exact hm.congr (.alloc _ rfl) fun _ hh => hh
  | listen server =>
    have hstored : NoNewShut m.handles (m.requestOn server).handles :=
      NoNewShut.modify _ server fun _ => rfl
    exact hm.congr (hstored.trans (NoNewShut.modify _ server fun _ => rfl)) fun _ hh => hh
  | connection server isNull accept shutdown =>
    show ShutLeaves (m.connectionCb server isNull accept shutdown)
    by_cases haccept : accept = 0
    · rw [haccept, connectionCb_of_accepted]
      exact hm.congr (.alloc ((m.handles.touch server).touch server) rfl) fun _ hh => hh
    · rw [State.connectionCb, if_neg haccept]
      refine ShutLeaves.uvShutdown ?_ _ _ shutdown
      exact hm.congr (.alloc (m.handles.touch server) rfl) fun _ hh => hh
  | requestOn h => exact hm.congr (NoNewShut.modify _ h fun _ => rfl) fun _ hh => hh
  | write h r =>
    have halloc : ShutLeaves { m with
        bufs := m.bufs.alloc (), writes := m.writes.alloc ⟨m.bufs.fresh⟩ } :=
      hm.congr (.of_blocks_eq rfl) fun _ hh => hh
    exact halloc.uvWrite m.writes.fresh h r
  | shutdown h r =>
    have halloc : ShutLeaves { m with shutdowns := m.shutdowns.alloc ⟨h⟩ } :=
      hm.congr (.of_blocks_eq rfl) fun _ hh => hh
    exact halloc.uvShutdown m.shutdowns.fresh h r
  | read h => exact hm.congr (.of_blocks_eq rfl) fun _ hh => hh
  | request isNull r =>
    rw [exec, request_eq]
    refine hm.congr (.alloc _ rfl) fun _ hh => hh.mono (List.Subset.refl _) ?_
    split_ifs
    · exact List.subset_append_left _ _
    · exact List.Subset.refl _
  | connectDone c status write shutdown =>
    have htaken : ShutLeaves (m.taken (.connect c)) := hm.congr (.of_blocks_eq rfl) fun _ hh =>
      hh.taken (p := .connect c) (Option.some_ne_none _).symm (List.Subset.refl _)
        (List.Subset.refl _)
    exact htaken.clientConnectCb c status write shutdown
  | writeDone w status => exact hm.writeCb w
  | shutdownDone s h status => exact hm.shutdownCb hok (of_decide_eq_true he)
  | closed h => exact hm.closeCb hok (of_decide_eq_true he)

/-- There are no handles yet. -/
theorem shutLeaves_init : ShutLeaves State.init := nofun

/-- **The run.** -/
theorem shutLeaves_after {es : List Event} (hes : stubs.Possible State.init es) :
    ShutLeaves (stubs.after State.init es) :=
  (Machine.invariant_of_possible (M := stubs) (I := fun m => HandlesOk m ∧ ShutLeaves m)
    (fun m e hm he => ⟨handlesOk_exec m e hm.1 he, shutLeaves_exec hm.2 hm.1 he⟩)
    ⟨handlesOk_init, shutLeaves_init⟩ hes).2

/-! ## Coming to rest -/

/-- A callback that is owed for something that was begun before. -/
def Event.Completes : Event → Prop
  | .connectDone _ _ _ _ | .writeDone _ _ | .shutdownDone _ _ _ | .closed _ => True
  | _ => False

/-- How many callbacks may still come of one that is owed. -/
def Pending.weight : Pending → ℕ
  | .write _ => 1
  | .connect _ => 3
  | .shutdown _ _ => 2
  | .close _ => 1

/-- How many callbacks may still come. -/
def State.weight (m : State) : ℕ := (m.pending.map Pending.weight).sum

section Weight

variable {m : State} {p q : Pending}

/-- A callback that is run no longer counts. -/
theorem weight_taken (hp : p ∈ m.pending) : m.weight = p.weight + (m.taken p).weight :=
  ((List.perm_cons_erase hp).map Pending.weight).sum_nat

/-- The callback was run, and another one may be owed now. -/
theorem weight_lt {m' : State} (hp : p ∈ m.pending)
    (hpending : m'.pending = m.pending.erase p ∨ m'.pending = m.pending.erase p ++ [q])
    (hq : q.weight < p.weight) : m'.weight < m.weight := by
  rw [weight_taken hp, State.weight, State.weight]
  rcases hpending with hpending | hpending
  · rw [hpending]
    show ((m.pending.erase p).map Pending.weight).sum < _ + ((m.pending.erase p).map _).sum
    omega
  · rw [hpending, List.map_append, List.sum_append]
    show ((m.pending.erase p).map Pending.weight).sum + (q.weight + 0)
      < p.weight + ((m.pending.erase p).map Pending.weight).sum
    omega

/-- `uv_shutdown` owes its callback, or nothing. -/
theorem pending_uvShutdown (m : State) (s h : ℕ) (r : ℤ) :
    (m.uvShutdown s h r).pending = m.pending ∨
      (m.uvShutdown s h r).pending = m.pending ++ [.shutdown s h] := by
  rw [uvShutdown_eq]
  split_ifs
  · exact .inr rfl
  · exact .inl rfl

/-- `uv_write` owes its callback, or nothing. -/
theorem pending_uvWrite (m : State) (w h : ℕ) (r : ℤ) :
    (m.uvWrite w h r).pending = m.pending ∨
      (m.uvWrite w h r).pending = m.pending ++ [.write w] := by
  unfold State.uvWrite
  split_ifs
  · exact .inr rfl
  · exact .inl rfl

/-- **Every such callback leaves less to come.** -/
theorem weight_exec_lt (m : State) (e : Event) (he : e.Completes) (hen : enabled m e = true) :
    (exec m e).weight < m.weight := by
  cases e with
  | connectDone c status write shutdown =>
    have hp : Pending.connect c ∈ m.pending := of_decide_eq_true hen
    show ((m.taken (.connect c)).clientConnectCb c status write shutdown).weight < _
    cases hreq : m.connects.blocks[c]? with
    | none =>
      rw [clientConnectCb_of_none (m := m.taken (.connect c)) hreq]
      exact weight_lt (q := .close 0) hp (.inl rfl) (show 1 < 3 by decide)
    | some req =>
      by_cases hstatus : status = 0
      · rw [hstatus, clientConnectCb_of_made (m := m.taken (.connect c)) hreq]
        exact weight_lt (q := .write m.writes.fresh) hp (pending_uvWrite _ _ _ _)
          (show 1 < 3 by decide)
      · rw [clientConnectCb_of_failed (m := m.taken (.connect c)) hreq hstatus]
        exact weight_lt (q := .shutdown m.shutdowns.fresh req.handle) hp
          (pending_uvShutdown _ _ _ _) (show 2 < 3 by decide)
  | writeDone w status =>
    have hp : Pending.write w ∈ m.pending := of_decide_eq_true hen
    have hpending : ((m.taken (.write w)).writeCb w).pending = m.pending.erase (.write w) := by
      unfold State.writeCb
      cases (m.taken (.write w)).writes.blocks[w]? <;> rfl
    show ((m.taken (.write w)).writeCb w).weight < _
    rw [weight_taken hp, State.weight, hpending]
    exact Nat.lt_add_of_pos_left Nat.one_pos
  | shutdownDone s h status =>
    have hp : Pending.shutdown s h ∈ m.pending := of_decide_eq_true hen
    show ((m.taken (.shutdown s h)).shutdownCb s).weight < _
    unfold State.shutdownCb
    cases (m.taken (.shutdown s h)).shutdowns.blocks[s]? with
    | none => exact weight_lt (q := .close h) hp (.inl rfl) (Nat.lt_succ_self 1)
    | some req => exact weight_lt (q := .close req.handle) hp (.inr rfl) (Nat.lt_succ_self 1)
  | closed h =>
    have hp : Pending.close h ∈ m.pending := of_decide_eq_true hen
    obtain ⟨roots, unregistered, heq⟩ := exists_closeCb_eq (m.taken (.close h)) h
    show ((m.taken (.close h)).closeCb h).weight < _
    rw [heq, weight_taken hp]
    exact Nat.lt_add_of_pos_left Nat.one_pos
  | _ => exact absurd he id

/-- As long as a callback is owed, one can be run. -/
theorem exists_completes (m : State) (hm : m.pending ≠ []) :
    ∃ e : Event, e.Completes ∧ enabled m e = true := by
  obtain ⟨p, rest, hp⟩ := List.exists_cons_of_ne_nil hm
  have hmem : p ∈ m.pending := by rw [hp]; exact List.mem_cons_self
  cases p with
  | write w => exact ⟨.writeDone w 0, trivial, decide_eq_true hmem⟩
  | connect c => exact ⟨.connectDone c 0 0 0, trivial, decide_eq_true hmem⟩
  | shutdown s h => exact ⟨.shutdownDone s h 0, trivial, decide_eq_true hmem⟩
  | close h => exact ⟨.closed h, trivial, decide_eq_true hmem⟩

end Weight

/-! ## Main results -/

/-- A block is owed or lost. -/
theorem mem_owedOrLost_iff {f : Pending → Option ℕ} {pending : List Pending} {lost : List ℕ}
    {i : ℕ} : i ∈ owedOrLost f pending lost ↔ (∃ p ∈ pending, f p = some i) ∨ i ∈ lost := by
  rw [owedOrLost, List.mem_append, List.mem_filterMap]

/-- **What becomes of every block.**  In every run, whatever libuv answers, no handle, request
or buffer is released twice, and the requests for writes and shutdowns and the buffers are
not touched after their release; and those that have not been released are the ones that a
callback is owed for and the ones that were lost in a call that libuv refused, or
with a connection that was not made. -/
theorem released_or_owed_or_lost {es : List Event} (hes : stubs.Possible State.init es) :
    let m := stubs.after State.init es
    let l := lostIn State.init .none es
    (m.handles.released.Nodup ∧ m.writes.Sound ∧ m.connects.released.Nodup ∧ m.shutdowns.Sound ∧
      m.bufs.Sound) ∧
    (∀ i, m.writes.Live i ↔ (∃ p ∈ m.pending, p.writeOf = some i) ∨ i ∈ l.writes) ∧
    (∀ i, m.connects.Live i ↔ (∃ p ∈ m.pending, p.connectOf = some i) ∨ i ∈ l.connects) ∧
    (∀ i, m.shutdowns.Live i ↔ (∃ p ∈ m.pending, p.shutdownOf = some i) ∨ i ∈ l.shutdowns) ∧
    ∀ i, m.bufs.Live i ↔
      (∃ p ∈ m.pending, bufOf m.writes m.connects p = some i) ∨ i ∈ l.bufs := by
  intro m l
  have hm : Census m l [] := census_after census_init handlesOk_init hes
  have hbufs := hm.bufs
  rw [List.append_nil] at hbufs
  refine ⟨⟨?_, hm.writes.sound hm.writesClean, ?_, hm.shutdowns.sound hm.shutdownsClean,
    hbufs.sound hm.bufsClean⟩, fun i => ?_, fun i => ?_, fun i => ?_, fun i => ?_⟩
  · exact (List.nodup_append.mp (handlesOk_after hes).nodup).1
  · exact (List.nodup_append.mp hm.connects.nodup).1
  · rw [hm.writes.live_iff, mem_owedOrLost_iff]
  · rw [hm.connects.live_iff, mem_owedOrLost_iff]
  · rw [hm.shutdowns.live_iff, mem_owedOrLost_iff]
  · rw [hbufs.live_iff, mem_owedOrLost_iff]

/-- A write and a shutdown are refused, and so is a connection that is asked for. -/
def refusals : List Event :=
  [.createServer false, .listen 0, .connection 0 true 0 0, .write 1 (-32), .write 1 0,
    .shutdown 1 (-107), .request true (-111), .shutdown 1 0, .writeDone 1 0, .shutdownDone 1 1 0]

theorem released_or_owed_or_lost_refusals :
    let m := stubs.after State.init refusals
    let l := lostIn State.init .none refusals
    (m.handles.released.Nodup ∧ m.writes.Sound ∧ m.connects.released.Nodup ∧ m.shutdowns.Sound ∧
      m.bufs.Sound) ∧
    (∀ i, m.writes.Live i ↔ (∃ p ∈ m.pending, p.writeOf = some i) ∨ i ∈ l.writes) ∧
    (∀ i, m.connects.Live i ↔ (∃ p ∈ m.pending, p.connectOf = some i) ∨ i ∈ l.connects) ∧
    (∀ i, m.shutdowns.Live i ↔ (∃ p ∈ m.pending, p.shutdownOf = some i) ∨ i ∈ l.shutdowns) ∧
    ∀ i, m.bufs.Live i ↔
      (∃ p ∈ m.pending, bufOf m.writes m.connects p = some i) ∨ i ∈ l.bufs :=
  released_or_owed_or_lost (by decide)

/-- What is left when no callback is owed: the handles that were never shut down, and what
was lost. -/
structure Drained (m : State) (l : Lost) : Prop where
  handles : ∀ h, h ∈ m.handles.released ↔ ∃ t, m.tcp h = some t ∧ t.shut = true
  writes : ∀ i, m.writes.Live i ↔ i ∈ l.writes
  connects : ∀ i, m.connects.Live i ↔ i ∈ l.connects
  shutdowns : ∀ i, m.shutdowns.Live i ↔ i ∈ l.shutdowns
  bufs : ∀ i, m.bufs.Live i ↔ i ∈ l.bufs

/-- **The loop drains.**  From every state that a run reaches, callbacks that are owed can
only be run so often when nothing new is begun, and some run of them leaves none; and in
every state that a run reaches in which no callback is owed, exactly the handles that
were shut down have been released, and of the requests and buffers just the lost ones have
not. -/
theorem drains {es : List Event} (hes : stubs.Possible State.init es) :
    let m := stubs.after State.init es
    (∀ ds, stubs.Possible m ds → (∀ d ∈ ds, d.Completes) → ds.length ≤ m.weight) ∧
    (∃ ds, (∀ d ∈ ds, d.Completes) ∧ stubs.Possible m ds ∧ (stubs.after m ds).pending = []) ∧
    (m.pending = [] → Drained m (lostIn State.init .none es)) := by
  intro m
  refine ⟨fun ds hds hcompletes => ?_, ?_, fun hnone => ?_⟩
  · exact Machine.length_le_of_decreases (M := stubs) weight_exec_lt hds hcompletes
  · exact Machine.exists_run_to_rest (M := stubs) (R := fun m => m.pending = []) weight_exec_lt
      exists_completes m
  · have hm : Census m (lostIn State.init .none es) [] :=
      census_after census_init handlesOk_init hes
    have hok : HandlesOk m := handlesOk_after hes
    have hbufs := hm.bufs
    rw [List.append_nil] at hbufs
    constructor
    · intro h
      constructor
      · exact fun hh => hok.shut h (List.mem_append_left _ hh)
      · rintro ⟨t, ht, hshut⟩
        rcases shutLeaves_after hes h t ht hshut with hh | ⟨p, hp, -⟩
        · exact hh
        · have hp' : p ∈ m.pending := hp
          rw [hnone] at hp'
          cases hp'
    · intro i
      rw [hm.writes.live_iff, hnone]
      rfl
    · intro i
      rw [hm.connects.live_iff, hnone]
      rfl
    · intro i
      rw [hm.shutdowns.live_iff, hnone]
      rfl
    · intro i
      rw [hbufs.live_iff, hnone]
      rfl

theorem drains_refusals :
    let m := stubs.after State.init refusals
    (∀ ds, stubs.Possible m ds → (∀ d ∈ ds, d.Completes) → ds.length ≤ m.weight) ∧
    (∃ ds, (∀ d ∈ ds, d.Completes) ∧ stubs.Possible m ds ∧ (stubs.after m ds).pending = []) ∧
    (m.pending = [] → Drained m (lostIn State.init .none refusals)) :=
  drains (by decide)

end Lifecycle
