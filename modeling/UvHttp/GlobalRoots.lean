/-
# The ledger of global roots

A callback stored in the `data` field of a handle has to be registered with the
OCaml runtime at the address of that field, and taken off before the handle is
released.  `request` registers the address of its parameter instead.
-/
import UvHttp.Lifecycle

namespace Lifecycle

/-! ## The ledger -/

/-- The registered addresses are the `data` fields of the live handles that hold a
callback. -/
def Rooted (handles : Pool Tcp) (roots : Finset Root) : Prop :=
  ∀ a, a ∈ roots ↔
    ∃ h t, a = .data h ∧ handles.Live h ∧ handles.blocks[h]? = some t ∧ t.data = .callback

/-- The ledger is right, and every address that was removed was there. -/
structure RootLedger (m : State) : Prop where
  rooted : Rooted m.handles m.roots
  removed : m.unregistered = []

/-- The step is no call of `request`, and OCaml code sets a listener only on a handle
that has not been released. -/
def RegistersField (m : State) : Event → Prop
  | .request _ _ => False
  | .requestOn h => h ∉ m.handles.released
  | _ => True

instance (m : State) (e : Event) : Decidable (RegistersField m e) := by
  cases e <;> unfold RegistersField <;> infer_instance

/-! ## What keeps it -/

section Rooted

variable {handles : Pool Tcp} {roots : Finset Root}

/-- There are neither handles nor roots. -/
theorem rooted_init : Rooted State.init.handles State.init.roots := by
  intro a
  constructor
  · intro ha
    cases ha
  · rintro ⟨h, t, -, hlive, -⟩
    exact absurd hlive.1 (Nat.not_lt_zero h)

/-- A new handle without a callback. -/
theorem Rooted.alloc (hr : Rooted handles roots) {t : Tcp} (ht : t.data ≠ .callback) :
    Rooted (handles.alloc t) roots := by
  intro a
  rw [hr a]
  constructor
  · rintro ⟨h, u, rfl, hlive, hu, hdata⟩
    exact ⟨h, u, rfl, (Pool.live_alloc_iff t).mpr (.inl hlive),
      (Pool.getElem?_alloc_of_lt t hlive.1).trans hu, hdata⟩
  · rintro ⟨h, u, rfl, hlive, hu, hdata⟩
    rcases (Pool.live_alloc_iff t).mp hlive with hlive | rfl
    · exact ⟨h, u, rfl, hlive, (Pool.getElem?_alloc_of_lt t hlive.1).symm.trans hu, hdata⟩
    · rw [Pool.getElem?_alloc_fresh] at hu
      obtain rfl := Option.some.inj hu
      exact absurd hdata ht

/-- A callback that is stored in a live handle and registered there. -/
theorem Rooted.store (hr : Rooted handles roots) {h : ℕ} (hlive : handles.Live h) :
    Rooted (handles.modify h fun t => { t with data := .callback }) (insert (.data h) roots) := by
  intro a
  rw [Finset.mem_insert, hr a]
  constructor
  · rintro (rfl | ⟨h', u, rfl, hlive', hu, hdata⟩)
    · obtain ⟨u, hu⟩ : ∃ u, handles.blocks[h]? = some u := ⟨_, List.getElem?_eq_getElem hlive.1⟩
      refine ⟨h, { u with data := .callback }, rfl, (Pool.live_modify_iff _).mpr hlive, ?_, rfl⟩
      rw [Pool.getElem?_modify, if_pos rfl, hu]
      rfl
    · by_cases heq : h = h'
      · refine ⟨h', { u with data := .callback }, rfl, (Pool.live_modify_iff _).mpr hlive', ?_, rfl⟩
        rw [Pool.getElem?_modify, if_pos heq, hu]
        rfl
      · refine ⟨h', u, rfl, (Pool.live_modify_iff _).mpr hlive', ?_, hdata⟩
        rw [Pool.getElem?_modify, if_neg heq, hu]
  · rintro ⟨h', u, rfl, hlive', hu, hdata⟩
    by_cases heq : h = h'
    · exact .inl (congrArg Root.data heq.symm)
    · rw [Pool.getElem?_modify, if_neg heq] at hu
      exact .inr ⟨h', u, rfl, (Pool.live_modify_iff _).mp hlive', hu, hdata⟩

/-- A write that leaves the `data` field alone. -/
theorem Rooted.modify (hr : Rooted handles roots) (h : ℕ) {f : Tcp → Tcp}
    (hf : ∀ t, (f t).data = t.data) : Rooted (handles.modify h f) roots := by
  have hdata : ∀ h' : ℕ, (∃ t : Tcp, (handles.modify h f).blocks[h']? = some t ∧
      t.data = .callback) ↔ ∃ t : Tcp, handles.blocks[h']? = some t ∧ t.data = .callback := by
    intro h'
    rw [Pool.getElem?_modify]
    split_ifs
    · cases handles.blocks[h']? with
      | none => simp
      | some t => simp [hf]
    · rfl
  intro a
  rw [hr a]
  constructor
  · rintro ⟨h', t, rfl, hlive, ht⟩
    obtain ⟨u, hu⟩ := (hdata h').mpr ⟨t, ht⟩
    exact ⟨h', u, rfl, (Pool.live_modify_iff f).mpr hlive, hu⟩
  · rintro ⟨h', t, rfl, hlive, ht⟩
    obtain ⟨u, hu⟩ := (hdata h').mp ⟨t, ht⟩
    exact ⟨h', u, rfl, (Pool.live_modify_iff f).mp hlive, hu⟩

/-- A handle that is taken off the ledger and released. -/
theorem Rooted.release (hr : Rooted handles roots) (h : ℕ) :
    Rooted (handles.release h) (roots.erase (.data h)) := by
  intro a
  rw [Finset.mem_erase, hr a]
  constructor
  · rintro ⟨hne, h', t, rfl, hlive, ht⟩
    exact ⟨h', t, rfl, Pool.live_release_iff.mpr ⟨hlive, fun h => hne (congrArg _ h)⟩, ht⟩
  · rintro ⟨h', t, rfl, hlive, ht⟩
    obtain ⟨hlive, hne⟩ := Pool.live_release_iff.mp hlive
    exact ⟨fun h => hne (Root.data.inj h), h', t, rfl, hlive, ht⟩

end Rooted

/-! ## Runs without requests -/

/-- The ledger is right, nobody waits for a connection, and only connections were shut
down. -/
structure Ledgered (m : State) : Prop extends HandlesOk m, RootLedger m where
  connection_of_shut : m.handles.All fun t => t.shut = true → t.role = .connection
  noConnect : ∀ c, .connect c ∉ m.pending

/-- Nothing was registered yet. -/
theorem ledgered_init : Ledgered State.init where
  toHandlesOk := handlesOk_init
  rooted := rooted_init
  removed := rfl
  connection_of_shut := fun _ _ h => by cases h
  noConnect := fun _ h => by cases h

section Steps

variable {m : State}

/-- A look at a handle. -/
theorem Ledgered.touchHandle (hm : Ledgered m) (h : ℕ) : Ledgered (m.touchHandle h) :=
  { hm with toHandlesOk := hm.toHandlesOk.touchHandle h }

/-- A handle whose callback is not set yet. -/
theorem Ledgered.allocHandle (hm : Ledgered m) (role : Role) (isNull : Bool) :
    Ledgered { m with
      handles := m.handles.alloc ⟨role, .junk isNull, false, false, false, false, false⟩ } :=
  { hm with
    toHandlesOk := hm.toHandlesOk.allocHandle (ok_junk role isNull)
    rooted := hm.rooted.alloc nofun
    connection_of_shut := hm.connection_of_shut.alloc nofun }

/-- `uv_shutdown` on a connection, or on a stream that was not opened. -/
theorem Ledgered.uvShutdownOcaml (hm : Ledgered m) {h : ℕ} (r : ℤ)
    (hrole : ∀ t, m.tcp h = some t → t.writable = true → t.role = .connection) :
    Ledgered (m.uvShutdownOcaml h r) := by
  have hok := hm.toHandlesOk.uvShutdownOcaml h r
  rw [State.uvShutdownOcaml, uvShutdown_eq] at hok ⊢
  split_ifs at hok ⊢ with hopen
  · obtain ⟨t, ht, hflags⟩ := (Option.any_eq_true _ _).mp hopen.1
    simp only [Bool.and_eq_true] at hflags
    exact
      { toHandlesOk := hok
        rooted := hm.rooted.modify h fun _ => rfl
        removed := hm.removed
        connection_of_shut := hm.connection_of_shut.modify fun u hu _ =>
          hrole u hu (by
            obtain rfl : t = u := Option.some.inj (ht.symm.trans hu)
            exact hflags.1.1)
        noConnect := fun c hc => by
          rcases List.mem_append.mp hc with hc | hc
          · exact hm.noConnect c hc
          · cases List.mem_singleton.mp hc }
  · exact { hm with toHandlesOk := hok }

/-- `request_on` on a live handle. -/
theorem Ledgered.requestOn (hm : Ledgered m) {h : ℕ} (hlive : m.handles.Live h) :
    Ledgered (m.requestOn h) :=
  { hm with
    toHandlesOk := hm.toHandlesOk.requestOn h
    rooted := hm.rooted.store hlive
    connection_of_shut := hm.connection_of_shut.modify fun u hu => hm.connection_of_shut h u hu }

/-- `close_cb`, run for a close that was owed: the handle has its callback, and the
callback is on the ledger. -/
theorem Ledgered.closeCb (hm : Ledgered m) {h : ℕ} (hp : .close h ∈ m.pending) :
    Ledgered ((m.taken (.close h)).closeCb h) := by
  have hok := hm.toHandlesOk.closeCb hp
  obtain ⟨t, ht, hclosing⟩ := hm.closing h (.inr hp)
  have htok := hm.contents h t ht
  have hdata : t.data = .callback :=
    htok.callback_of_writable (htok.writable_of_shut (htok.shut_of_closing hclosing))
  have hlive : m.handles.Live h := by
    refine ⟨(List.getElem?_eq_some_iff.mp ht).1, fun hmem => ?_⟩
    exact List.disjoint_of_nodup_append hm.nodup hmem (List.mem_filterMap.mpr ⟨_, hp, rfl⟩)
  have hroot : .data h ∈ m.roots := (hm.rooted _).mpr ⟨h, t, rfl, hlive, ht, hdata⟩
  have hclose : (m.taken (.close h)).closeCb h = { m.taken (.close h) with
      handles := (m.handles.touch h).release h
      roots := m.roots.erase (.data h) } := by
    have hcb : ((m.taken (.close h)).touchHandle h).tcp h = some t := ht
    have hnonNull : Data.callback.nonNull = true := rfl
    rw [State.closeCb, hcb, Option.any_some, hdata, if_pos hnonNull, State.camlRemoveGlobalRoot,
      if_pos (by exact hroot)]
    rfl
  rw [hclose] at hok ⊢
  exact
    { toHandlesOk := hok
      rooted := hm.rooted.release h
      removed := hm.removed
      connection_of_shut := hm.connection_of_shut
      noConnect := fun c hc => hm.noConnect c (List.mem_of_mem_erase hc) }

/-- A callback is no longer owed. -/
theorem Ledgered.taken (hm : Ledgered m) (p : Pending) : Ledgered (m.taken p) :=
  { hm with
    toHandlesOk := hm.toHandlesOk.taken p
    noConnect := fun c hc => hm.noConnect c (List.mem_of_mem_erase hc) }

/-- `uv_listen_ocaml` on the handle of a server, which is live because only connections
are shut down. -/
theorem Ledgered.uvListenOcaml (hm : Ledgered m) {server : ℕ} {t : Tcp}
    (ht : m.tcp server = some t) (hrole : t.role = .server) :
    Ledgered (m.uvListenOcaml server) := by
  have hshut := shut_eq_false_of_role hm.connection_of_shut ht (by rw [hrole]; nofun)
  have hlive : m.handles.Live server :=
    ⟨(List.getElem?_eq_some_iff.mp ht).1, hm.toHandlesOk.notMem_released ht hshut⟩
  have hon := hm.requestOn hlive
  exact { hon with
    toHandlesOk := hm.toHandlesOk.uvListenOcaml ⟨t, ht, hrole⟩
    rooted := hon.rooted.modify server fun _ => rfl
    connection_of_shut := hon.connection_of_shut.modify fun u hu =>
      hon.connection_of_shut server u hu }

/-- `connection_cb`: an accepted connection has its callback on the ledger, a refused one
is shut down with the role it was given. -/
theorem Ledgered.connectionCb (hm : Ledgered m) (server : ℕ) (isNull : Bool)
    (accept shutdown : ℤ) : Ledgered (m.connectionCb server isNull accept shutdown) := by
  by_cases haccept : accept = 0
  · subst haccept
    have hok := hm.toHandlesOk.connectionCb server isNull 0 shutdown
    rw [connectionCb_of_accepted] at hok ⊢
    have htouched : Rooted ((m.handles.touch server).touch server) m.roots := hm.rooted
    have hstored := ((htouched.alloc
      (t := ⟨.connection, .junk isNull, false, true, true, false, false⟩) nofun).store
      ((Pool.live_alloc_iff _).mpr (.inr rfl)))
    rw [Pool.modify_alloc_fresh] at hstored
    exact { hm with
      toHandlesOk := hok
      rooted := hstored
      connection_of_shut := hm.connection_of_shut.alloc nofun }
  · have hnew := ((hm.touchHandle server).allocHandle .connection isNull).touchHandle server
    rw [State.connectionCb, if_neg haccept]
    have hfailed : Ledgered { ((m.touchHandle server).uvTcpInit .connection isNull).touchHandle
        server with failed := m.failed ++ [m.handles.fresh] } :=
      { hnew with toHandlesOk := hnew.toHandlesOk.congr rfl rfl rfl rfl rfl }
    refine hfailed.uvShutdownOcaml shutdown fun t ht _ => ?_
    have htcp :
        (m.handles.alloc ⟨.connection, .junk isNull, false, false, false, false,
            false⟩).blocks[m.handles.fresh]? =
          some ⟨.connection, .junk isNull, false, false, false, false, false⟩ :=
      Pool.getElem?_alloc_fresh _
    obtain rfl : _ = t := Option.some.inj (htcp.symm.trans ht)
    rfl

/-- `uv_write_ocaml`. -/
theorem Ledgered.uvWriteOcaml (hm : Ledgered m) (h : ℕ) (r : ℤ) :
    Ledgered (m.uvWriteOcaml h r) := by
  have hok := hm.toHandlesOk.uvWriteOcaml h r
  rw [State.uvWriteOcaml, State.uvWrite] at hok ⊢
  split_ifs at hok ⊢
  · exact { hm with
      toHandlesOk := hok
      noConnect := fun c hc => by
        rcases List.mem_append.mp hc with hc | hc
        · exact hm.noConnect c hc
        · cases List.mem_singleton.mp hc }
  · exact { hm with toHandlesOk := hok }

/-- `write_cb`. -/
theorem Ledgered.writeCb (hm : Ledgered m) (w : ℕ) : Ledgered (m.writeCb w) := by
  have hok := hm.toHandlesOk.writeCb w
  unfold State.writeCb at hok ⊢
  split at hok
  · exact hm
  · exact { hm with toHandlesOk := hok }

/-- `shutdown_cb`, run for a shutdown that was owed. -/
theorem Ledgered.shutdownCb (hm : Ledgered m) {s h : ℕ} (hp : .shutdown s h ∈ m.pending) :
    Ledgered ((m.taken (.shutdown s h)).shutdownCb s) := by
  have hok := hm.toHandlesOk.shutdownCb hp
  have hreq : (m.taken (.shutdown s h)).shutdowns.blocks[s]? = some ⟨h⟩ := hm.request s h hp
  rw [State.shutdownCb, hreq] at hok ⊢
  exact
    { toHandlesOk := hok
      rooted := hm.rooted.modify h fun _ => rfl
      removed := hm.removed
      connection_of_shut := hm.connection_of_shut.modify fun u hu => hm.connection_of_shut h u hu
      noConnect := fun c hc => by
        rcases List.mem_append.mp hc with hc | hc
        · exact hm.noConnect c (List.mem_of_mem_erase hc)
        · cases List.mem_singleton.mp hc }

end Steps

/-- **The step**: without `request` the ledger stays right. -/
theorem ledgered_exec (m : State) (e : Event) (hm : Ledgered m) (he : enabled m e = true)
    (hreg : RegistersField m e) : Ledgered (exec m e) := by
  cases e with
  | createServer isNull => exact hm.allocHandle .server isNull
  | run isNull => exact hm.allocHandle .unused isNull
  | listen server =>
    obtain ⟨t, ht, hrole⟩ := (Option.any_eq_true _ _).mp he
    exact hm.uvListenOcaml ht (of_decide_eq_true hrole)
  | connection server isNull accept shutdown => exact hm.connectionCb server isNull accept shutdown
  | requestOn h =>
    obtain ⟨t, ht, -⟩ := (Option.any_eq_true _ _).mp he
    exact hm.requestOn ⟨(List.getElem?_eq_some_iff.mp ht).1, hreg⟩
  | write h r => exact hm.uvWriteOcaml h r
  | shutdown h r =>
    obtain ⟨t, ht, hheld⟩ := (Option.any_eq_true _ _).mp he
    rw [Bool.and_eq_true, decide_eq_true_iff] at hheld
    refine hm.uvShutdownOcaml r fun u hu _ => ?_
    obtain rfl : t = u := Option.some.inj (ht.symm.trans hu)
    exact hheld.1
  | read h => exact hm.touchHandle h
  | request isNull r => exact hreg.elim
  | connectDone c status write shutdown => exact absurd (of_decide_eq_true he) (hm.noConnect c)
  | writeDone w status => exact (hm.taken (.write w)).writeCb w
  | shutdownDone s h status => exact hm.shutdownCb (of_decide_eq_true he)
  | closed h => exact hm.closeCb (of_decide_eq_true he)

/-- A step of the other kind breaks the ledger at once. -/
theorem not_rootLedger_exec (m : State) (e : Event) (hreg : ¬ RegistersField m e) :
    ¬ RootLedger (exec m e) := by
  intro hledger
  cases e with
  | request isNull r =>
    have hparam : .param m.frames ∈ (exec m (.request isNull r)).roots := by
      show _ ∈ (m.request isNull r).roots
      rw [request_eq]
      exact Finset.mem_insert_self _ _
    obtain ⟨h, t, heq, -⟩ := (hledger.rooted _).mp hparam
    cases heq
  | requestOn h =>
    have hroot : .data h ∈ (exec m (.requestOn h)).roots := Finset.mem_insert_self _ _
    obtain ⟨h', t, heq, hlive, -⟩ := (hledger.rooted _).mp hroot
    obtain rfl := Root.data.inj heq
    exact hlive.2 (not_not.mp hreg)
  | _ => exact hreg trivial

/-- **The ledger is right in every state of exactly those runs that do without
`request`** and set listeners on live handles only. -/
theorem rootLedger_iff (es : List Event) (hes : stubs.Possible State.init es) :
    stubs.EveryState RootLedger State.init es ↔ stubs.Along RegistersField State.init es :=
  Machine.everyState_iff_along (M := stubs) ledgered_exec (fun _ hm => hm.toRootLedger)
    (fun m e _ _ hreg => not_rootLedger_exec m e hreg) ledgered_init hes

/-- A server that listens, serves one client and is refused another. -/
def serverOnly : List Event :=
  [.createServer true, .listen 0, .connection 0 false 0 0, .connection 0 false (-24) 0, .read 1,
    .requestOn 1, .write 1 0, .shutdown 1 0, .writeDone 0 0, .shutdownDone 1 1 0, .closed 1,
    .write 1 (-9)]

theorem rootLedger_serverOnly : stubs.EveryState RootLedger State.init serverOnly :=
  (rootLedger_iff serverOnly (by decide)).mpr (by decide)

/-- One call of `request`: the address of its parameter stays registered when it has
returned, and the handle's own field is not registered. -/
theorem not_rootLedger_request :
    stubs.Possible State.init [.request true 0] ∧
      ¬ stubs.EveryState RootLedger State.init [.request true 0] :=
  ⟨by decide, fun h => not_rootLedger_exec State.init (.request true 0) id
    (h [.request true 0] (List.prefix_refl _))⟩

end Lifecycle
