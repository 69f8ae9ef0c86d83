/-
# Who leaves local roots behind

`client_read_cb` returns without `CAMLreturn` when nothing was read, and the callbacks
of the parser with data always do.  What the parser's callbacks leave is dropped when
`caml_http_parser_execute` returns, but the next callback of the same call runs OCaml
code over it; what `client_read_cb` leaves stays.
-/
import UvHttp.LocalRoots

namespace LocalRoots

/-! ## The property and the condition -/

/-- At every point where OCaml code or an allocation runs, every block on the stack
belongs to an active frame; where the loop is idle, the stack is the one that
`uv_run` was entered with. -/
def Sound (m : State) : Prop :=
  match m.frames with
  | [] => m.Active
  | f :: _ =>
    if f.kind.isLoop then m.blocks = List.replicate f.kind.blocks f.id ++ f.found
    else f.kind.isExecute = false → m.Active

instance (m : State) : Decidable (Sound m) :=
  match m with
  | ⟨[], blocks, fresh⟩ =>
    inferInstanceAs (Decidable (ShadowStack.Active (⟨[], blocks, fresh⟩ : State)))
  | ⟨f :: fs, blocks, fresh⟩ =>
    inferInstanceAs (Decidable (if f.kind.isLoop then
      blocks = List.replicate f.kind.blocks f.id ++ f.found
    else f.kind.isExecute = false →
      ShadowStack.Active (⟨f :: fs, blocks, fresh⟩ : State)))

/-- A function that puts the stack back before it returns, or has nothing to put back:
not `client_read_cb` after an error or the end of the stream. -/
def Func.returnsTidily : Func → Bool
  | .clientReadCb nread => decide (0 ≤ nread)
  | _ => true

/-- No callback with data has been made in this call of `caml_http_parser_execute`. -/
def Func.noDataYet : Func → Bool
  | .camlHttpParserExecute made => !made.any Callback.isData
  | _ => true

/-- The step is not a read of the client that reads nothing, nor the return from one
with an error, nor a callback of the parser after one with data in the same call. -/
def Disciplined (m : State) : Event → Prop
  | .clientRead nread => nread ≠ 0
  | .ocamlReturns => m.top.all Func.returnsTidily = true
  | .parser _ => m.top.all Func.noDataYet = true
  | _ => True

instance (m : State) (e : Event) : Decidable (Disciplined m e) := by
  cases e <;> unfold Disciplined <;> infer_instance

/-! ## What the frames stand on -/

/-- What a function may have been called by. -/
def StandsOn : Func → Option Func → Prop
  | .callback cb, k => ∃ made : List Callback,
      k = some (.camlHttpParserExecute (made ++ [cb])) ∧ made.any Callback.isData = false
  | .external _, k | .uvRunOcaml, k | .runUvLoop, k | .camlHttpParserExecute _, k =>
    runsOcaml k = true
  | _, k => k.any Func.isLoop = true

/-- Every active frame stands on one that may have called it. -/
def Standing : List (Frame Func) → Prop
  | [] => True
  | f :: fs => StandsOn f.kind (fs.head?.map Frame.kind) ∧ Standing fs

/-- The frames are nested.  The blocks are theirs, unless a callback with data has been
made in the call of `caml_http_parser_execute` that runs: then a block of a frame
that is gone is among them. -/
structure Orderly (m : State) : Prop where
  nested : m.Nested Func.blocks
  standing : Standing m.frames
  tidy : m.top.all Func.noDataYet = true → m.Tidy Func.blocks
  littered : m.top.all Func.noDataYet = false → ∃ b ∈ m.blocks, b ∉ m.ids ∧ b < m.fresh

theorem orderly_init : Orderly init where
  nested := ShadowStack.nested_empty
  standing := trivial
  tidy := fun _ => ShadowStack.tidy_empty
  littered := nofun

theorem noDataYet_of_runsOcaml {k : Option Func} (hk : runsOcaml k = true) :
    k.all Func.noDataYet = true := by
  rcases k with _ | f
  · rfl
  · cases f <;> first | rfl | cases hk

theorem noDataYet_of_isLoop {k : Option Func} (hk : k.any Func.isLoop = true) :
    k.all Func.noDataYet = true := by
  rcases k with _ | f
  · rfl
  · cases f <;> first | rfl | cases hk

section Steps

variable {m : State} {f : Func}

/-- What runs below the innermost call is what that one stands on. -/
theorem Orderly.standsOn (hm : Orderly m) (htop : m.top = some f) :
    StandsOn f m.plainReturn.top := by
  obtain ⟨g, hg, rfl⟩ := Option.map_eq_some_iff.mp htop
  obtain ⟨fs, hfs⟩ := List.head?_eq_some_iff.mp hg
  have hstanding := hm.standing
  rw [hfs] at hstanding
  unfold State.plainReturn ShadowStack.leave ShadowStack.top
  rw [hfs]
  exact hstanding.1

theorem standing_tail {fs : List (Frame Func)} (h : Standing fs) : Standing fs.tail := by
  cases fs with
  | nil => trivial
  | cons f fs => exact h.2

/-- A call where no block is left behind. -/
theorem Orderly.enter (hm : Orderly m) (hclean : m.top.all Func.noDataYet = true)
    (hf : f.noDataYet = true) (hon : StandsOn f m.top) : Orderly (m.enter f) where
  nested := hm.nested.enter (hm.tidy hclean) f
  standing := ⟨hon, hm.standing⟩
  tidy := fun _ => (hm.tidy hclean).enter f
  littered := fun h => by
    change Option.all _ (some f) = false at h
    rw [Option.all_some, hf] at h
    cases h

/-- A return that puts back what was found. -/
theorem Orderly.camlReturn (hm : Orderly m) (htop : m.top = some f)
    (hbelow : m.plainReturn.top.all Func.noDataYet = true) : Orderly m.camlReturn where
  nested := hm.nested.restore
  standing := standing_tail hm.standing
  tidy := fun _ => hm.nested.tidy_restore fun hnil => by
    rw [ShadowStack.top, hnil] at htop
    cases htop
  littered := fun h => by
    rw [show m.camlReturn.top = m.plainReturn.top from rfl, hbelow] at h
    cases h

/-- A plain return of a function that has pushed nothing. -/
theorem Orderly.plainReturn (hm : Orderly m) (htop : m.top = some f) (h0 : f.blocks = 0)
    (hf : f.noDataYet = true) (hbelow : m.plainReturn.top.all Func.noDataYet = true) :
    Orderly m.plainReturn where
  nested := hm.nested.leave
  standing := standing_tail hm.standing
  tidy := fun _ => (hm.tidy (by rw [htop]; exact hf)).leave htop h0
  littered := fun h => by
    rw [hbelow] at h
    cases h

/-- A callback of libuv that runs no OCaml code and pushes nothing. -/
theorem Orderly.enter_plainReturn (hm : Orderly m) (hloop : m.top.any Func.isLoop = true)
    (h0 : f.blocks = 0) (hf : f.noDataYet = true) (hon : StandsOn f m.top) :
    Orderly (m.enter f).plainReturn :=
  (hm.enter (noDataYet_of_isLoop hloop) hf hon).plainReturn rfl h0 hf (noDataYet_of_isLoop hloop)

/-- A callback of the parser where no block is left behind. -/
theorem Orderly.callback (hm : Orderly m) {made : List Callback}
    (htop : m.top = some (.camlHttpParserExecute made))
    (hclean : made.any Callback.isData = false) (cb : Callback) : Orderly (m.callback cb) := by
  have hcallback : m.callback cb =
      State.enter (m.rename (.camlHttpParserExecute (made ++ [cb]))) (.callback cb) := by
    rw [State.callback, htop]
  have htidy : m.Tidy Func.blocks := hm.tidy (by
    rw [htop, Option.all_some, Func.noDataYet, hclean]
    rfl)
  have hrename : (m.rename (.camlHttpParserExecute (made ++ [cb]))).Tidy Func.blocks :=
    htidy.rename htop rfl
  obtain ⟨frames, blocks, fresh⟩ := m
  obtain ⟨g, hg, hkind⟩ := Option.map_eq_some_iff.mp htop
  obtain ⟨fs, rfl⟩ := List.head?_eq_some_iff.mp hg
  rw [hcallback]
  exact
    { nested := hm.nested.rename.enter hrename (.callback cb)
      standing := ⟨⟨made, rfl, hclean⟩, by
        have hstands := hm.standing.1
        rw [hkind] at hstands
        exact hstands, hm.standing.2⟩
      tidy := fun _ => hrename.enter (.callback cb)
      littered := fun h => by cases h }

/-- The return of a callback of the parser. -/
theorem Orderly.plainReturn_callback (hm : Orderly m) {cb : Callback}
    (htop : m.top = some (.callback cb)) : Orderly m.plainReturn := by
  obtain ⟨made, hbelow, hclean⟩ := hm.standsOn htop
  have htidy : m.Tidy Func.blocks := hm.tidy (by rw [htop]; rfl)
  have hyet : m.plainReturn.top.all Func.noDataYet = !cb.isData := by
    rw [hbelow, Option.all_some, Func.noDataYet, List.any_append, hclean]
    simp
  refine ⟨hm.nested.leave, standing_tail hm.standing, fun h => ?_, fun h => ?_⟩
  · have hdata : cb.isData = false := by simpa [hyet] using h
    refine htidy.leave htop ?_
    rw [Func.blocks, Func.macros, hdata]
    rfl
  · have hdata : cb.isData = true := by simpa [hyet] using h
    refine hm.nested.exists_stale htidy htop ?_
    rw [Func.blocks, Func.macros, hdata]
    decide

/-- The functions that only OCaml code calls. -/
theorem runsOcaml_of_standsOn {k : Option Func}
    (hf : (f.isExternal || f.isLoop || f.isExecute) = true) (hon : StandsOn f k) :
    runsOcaml k = true := by
  cases f <;> first | exact hon | cases hf

/-- The return of such a function, which puts back what it found. -/
theorem Orderly.camlReturn_toOcaml (hm : Orderly m) {p : Func → Bool} (he : m.top.any p = true)
    (hp : ∀ f, p f = true → (f.isExternal || f.isLoop || f.isExecute) = true) :
    Orderly m.camlReturn := by
  obtain ⟨f, htop, hf⟩ := (Option.any_eq_true _ _).mp he
  exact hm.camlReturn htop
    (noDataYet_of_runsOcaml (runsOcaml_of_standsOn (hp f hf) (hm.standsOn htop)))

/-- A callback of the parser, in a call that has made none with data. -/
theorem Orderly.callback_of_noDataYet (hm : Orderly m) (he : m.top.any Func.isExecute = true)
    (hd : m.top.all Func.noDataYet = true) (cb : Callback) : Orderly (m.callback cb) := by
  obtain ⟨f, htop, hf⟩ := (Option.any_eq_true _ _).mp he
  rw [htop, Option.all_some] at hd
  cases f with
  | camlHttpParserExecute made =>
    exact hm.callback htop (by simpa [Func.noDataYet] using hd) cb
  | _ => cases hf

/-- The end of a callback that has run OCaml code and returns tidily. -/
theorem Orderly.ocamlReturns (hm : Orderly m) (htop : m.top = some f)
    (hruns : runsOcaml (some f) = true) (hd : f.returnsTidily = true) :
    Orderly m.ocamlReturns := by
  rw [State.ocamlReturns, htop]
  cases f with
  | clientReadCb nread =>
    have hnread : ¬ nread < 0 := Int64.not_lt.mpr (of_decide_eq_true hd)
    show Orderly (if nread < 0 then _ else _)
    rw [if_neg hnread]
    exact hm.camlReturn htop (noDataYet_of_isLoop (hm.standsOn htop))
  | callback cb => exact hm.plainReturn_callback htop
  | connectionCb => exact hm.plainReturn htop rfl rfl (noDataYet_of_isLoop (hm.standsOn htop))
  | readCb nread => exact hm.plainReturn htop rfl rfl (noDataYet_of_isLoop (hm.standsOn htop))
  | clientConnectCb => exact hm.plainReturn htop rfl rfl (noDataYet_of_isLoop (hm.standsOn htop))
  | _ => cases hruns

/-- An orderly state is sound. -/
theorem Orderly.sound (hm : Orderly m) : Sound m := by
  obtain ⟨frames, blocks, fresh⟩ := m
  cases frames with
  | nil => exact (hm.tidy rfl).active
  | cons f fs =>
    show if f.kind.isLoop then _ else _
    split_ifs with hloop
    · have htidy := hm.tidy (noDataYet_of_isLoop hloop)
      rw [hm.nested.frames.1]
      exact htidy
    · intro hexecute
      refine (hm.tidy ?_).active
      show f.kind.noDataYet = true
      cases hkind : f.kind <;> first | rfl | rw [hkind] at hexecute; cases hexecute

/-- A `client_read_cb` that just leaves: the loop finds its block on the stack. -/
theorem Orderly.not_sound_plainReturn (hm : Orderly m) {nread : Int64}
    (htop : m.top = some (.clientReadCb nread)) : ¬ Sound m.plainReturn := by
  have hloop : m.plainReturn.top.any Func.isLoop = true := hm.standsOn htop
  have htidy : m.Tidy Func.blocks := hm.tidy (by rw [htop]; rfl)
  obtain ⟨frames, blocks, fresh⟩ := m
  obtain ⟨f, hf, hkind⟩ := Option.map_eq_some_iff.mp htop
  obtain ⟨fs, rfl⟩ := List.head?_eq_some_iff.mp hf
  cases fs with
  | nil => cases hloop
  | cons g fs =>
    intro hsound
    change if g.kind.isLoop then _ else _ at hsound
    rw [if_pos (by exact hloop)] at hsound
    have hfound := hm.nested.frames.2.2.1
    have hlen := congrArg List.length (htidy.symm.trans (hfound ▸ hsound))
    have hsize : f.kind.blocks = 1 := by
      rw [hkind]
      rfl
    simp only [ShadowStack.own, List.length_append, List.length_replicate, hsize] at hlen
    omega

/-- A callback of the parser over a block that was left behind. -/
theorem Orderly.not_sound_callback (hm : Orderly m)
    (hlitter : m.top.all Func.noDataYet = false) (cb : Callback) : ¬ Sound (m.callback cb) := by
  obtain ⟨b, hb, hid, hlt⟩ := hm.littered hlitter
  obtain ⟨f, htop⟩ : ∃ f, m.top = some f := by
    refine Option.ne_none_iff_exists'.mp fun hnone => ?_
    rw [hnone] at hlitter
    cases hlitter
  rw [htop, Option.all_some] at hlitter
  cases f with
  | camlHttpParserExecute made =>
    rw [State.callback, htop]
    intro hsound
    refine ShadowStack.not_active_enter (s := m.rename (.camlHttpParserExecute (made ++ [cb])))
      hb ?_ hlt (.callback cb) (Func.callback cb).blocks (hsound rfl)
    rw [ShadowStack.ids_rename]
    exact hid
  | _ => cases hlitter

end Steps

/-! ## Runs -/

/-- **The step**: what is disciplined keeps the order. -/
theorem orderly_exec (m : State) (e : Event) (hm : Orderly m) (he : enabled m e = true)
    (hd : Disciplined m e) : Orderly (exec m e) := by
  cases e with
  | call f => exact hm.enter (noDataYet_of_runsOcaml he) rfl he
  | uvRun => exact hm.enter (noDataYet_of_runsOcaml he) rfl he
  | runLoop => exact hm.enter (noDataYet_of_runsOcaml he) rfl he
  | execute => exact hm.enter (noDataYet_of_runsOcaml he) rfl he
  | connection status => exact hm.enter (noDataYet_of_isLoop he) rfl he
  | read nread =>
    show Orderly (m.readCb nread)
    unfold State.readCb
    split_ifs with h0
    · exact hm.enter_plainReturn he rfl rfl he
    · exact hm.enter (noDataYet_of_isLoop he) rfl he
  | clientRead nread =>
    show Orderly (m.clientReadCb nread)
    unfold State.clientReadCb
    rw [if_neg (by exact hd)]
    exact hm.enter (noDataYet_of_isLoop he) rfl he
  | connect status =>
    show Orderly (m.clientConnectCb status)
    unfold State.clientConnectCb
    split_ifs with h0
    · exact hm.enter (noDataYet_of_isLoop he) rfl he
    · exact hm.enter_plainReturn he rfl rfl he
  | write status => exact hm.enter_plainReturn he rfl rfl he
  | shutdown status => exact hm.enter_plainReturn he rfl rfl he
  | close => exact hm.enter_plainReturn he rfl rfl he
  | timeout => exact hm.enter_plainReturn he rfl rfl he
  | externalReturns => exact hm.camlReturn_toOcaml he fun f hf => by simp [hf]
  | loopReturns => exact hm.camlReturn_toOcaml he fun f hf => by simp [hf]
  | executeReturns => exact hm.camlReturn_toOcaml he fun f hf => by simp [hf]
  | parser cb => exact hm.callback_of_noDataYet he hd cb
  | ocamlReturns =>
    rw [enabled, Bool.and_eq_true] at he
    obtain ⟨f, htop⟩ := Option.isSome_iff_exists.mp he.1
    have hruns := he.2
    change m.top.all Func.returnsTidily = true at hd
    rw [htop] at hruns hd
    exact hm.ocamlReturns htop hruns hd

/-- A step of the other kind shows at once. -/
theorem not_sound_exec (m : State) (e : Event) (hm : Orderly m) (he : enabled m e = true)
    (hd : ¬ Disciplined m e) : ¬ Sound (exec m e) := by
  cases e with
  | clientRead nread =>
    obtain rfl : nread = 0 := not_not.mp hd
    have hread := hm.enter (f := .clientReadCb 0) (noDataYet_of_isLoop he) rfl he
    exact hread.not_sound_plainReturn rfl
  | parser cb => exact hm.not_sound_callback (Bool.eq_false_iff.mpr hd) cb
  | ocamlReturns =>
    rw [enabled, Bool.and_eq_true] at he
    obtain ⟨f, htop⟩ := Option.isSome_iff_exists.mp he.1
    change ¬ m.top.all Func.returnsTidily = true at hd
    show ¬ Sound m.ocamlReturns
    rw [htop] at hd
    cases f with
    | clientReadCb nread =>
      have hnread : nread < 0 := Int64.not_le.mp fun h => hd (decide_eq_true h)
      have hleave : m.ocamlReturns = m.plainReturn := by
        rw [State.ocamlReturns, htop]
        exact if_pos hnread
      rw [hleave]
      exact hm.not_sound_plainReturn htop
    | _ => exact absurd rfl hd
  | _ => exact absurd trivial hd

/-- **The stack of local roots is in order in every state of exactly the runs whose
steps are disciplined.** -/
theorem sound_iff_disciplined (es : List Event) (hes : program.Possible init es) :
    program.EveryState Sound init es ↔ program.Along Disciplined init es :=
  Machine.everyState_iff_along (M := program) orderly_exec (fun _ hm => hm.sound)
    not_sound_exec orderly_init hes

/-- A request is sent; the loop runs, accepts a connection, reads a part of a request
with a URL at its end, and has its own request answered. -/
def oneUrl : List Event :=
  [.call .request, .externalReturns, .uvRun, .connection 0, .call .uvTcpInitOcaml,
    .externalReturns, .ocamlReturns, .read 16, .execute, .parser .onMessageBegin, .ocamlReturns,
    .parser .onUrl, .call .uvWriteOcaml, .externalReturns, .ocamlReturns, .executeReturns,
    .ocamlReturns, .connect 0, .clientRead 3, .runLoop, .write 0, .loopReturns, .ocamlReturns,
    .close, .loopReturns]

theorem sound_oneUrl : program.EveryState Sound init oneUrl :=
  (sound_iff_disciplined oneUrl (by decide)).mpr (by decide)

/-- A request with a header, which is parsed in one call. -/
def oneHeader : List Event :=
  [.uvRun, .connection 0, .ocamlReturns, .read 24, .execute, .parser .onUrl, .ocamlReturns,
    .parser .onHeaderField]

/-- The client is connected, and the server closes the connection. -/
def closedByServer : List Event :=
  [.call .request, .externalReturns, .runLoop, .connect 0, .clientRead (-4095), .ocamlReturns]

/-- OCaml code runs over the block of a callback that is gone, and the loop is idle
with the block of a `client_read_cb` that is gone. -/
theorem not_sound_oneHeader_closedByServer :
    (program.Possible init oneHeader ∧ ¬ program.EveryState Sound init oneHeader) ∧
    (program.Possible init closedByServer ∧
      ¬ program.EveryState Sound init closedByServer) := by
  have hheader : ¬ Sound (program.after init oneHeader) := by decide
  have hclosed : ¬ Sound (program.after init closedByServer) := by decide
  exact ⟨⟨by decide, fun h => hheader (h _ (List.prefix_refl _))⟩,
    ⟨by decide, fun h => hclosed (h _ (List.prefix_refl _))⟩⟩

end LocalRoots
