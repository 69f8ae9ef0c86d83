/-
# Collections during the calls of the parser library

`caml_http_parser_execute` copies the closures of the settings and the parser into a C
structure, and gives the parser library a pointer into the string; `parse_url` keeps one
into the URL.  None of these copies is a root.  The data callbacks allocate, and all
callbacks run OCaml code; whether the copies still lead to what they were made from
depends on where that was, and on when the minor collector runs.
-/
import UvHttp.History
import UvHttp.LocalRoots
import UvHttp.MovingHeap
import UvHttp.Ocaml

namespace ParserStubs

open LocalRoots (Callback)

/-! ## The arguments -/

/-- The fields of `http_parser_settings`. -/
structure Settings (α : Type) where
  onMessageBegin : α
  onUrl : α
  onStatus : α
  onHeaderField : α
  onHeaderValue : α
  onHeadersComplete : α
  onBody : α
  onMessageComplete : α
  deriving DecidableEq

/-- The field of a callback. -/
def Settings.get {α : Type} (s : Settings α) : Callback → α
  | .onMessageBegin => s.onMessageBegin
  | .onUrl => s.onUrl
  | .onStatus => s.onStatus
  | .onHeaderField => s.onHeaderField
  | .onHeaderValue => s.onHeaderValue
  | .onHeadersComplete => s.onHeadersComplete
  | .onBody => s.onBody
  | .onMessageComplete => s.onMessageComplete

/-- What `caml_http_parser_execute` is called with: the blocks of the parser, of the
closures in the settings and of the string, in a heap that has them, and the bytes of
the string. -/
structure Arguments where
  heap : MovingHeap
  parser : ℕ
  settings : Settings ℕ
  data : ℕ
  input : OString
  parser_lt : parser < heap.count
  settings_lt : ∀ cb, settings.get cb < heap.count
  data_lt : data < heap.count

/-- Part of the string. -/
def Arguments.slice (a : Arguments) (off len : ℕ) : OString := (a.input.drop off).take len

/-! ## The call -/

/-- `caml_http_parser_settings_t`. -/
structure CamlSettings where
  parser : Addr
  closures : Settings Addr

/-- What is found when an address is used: the bytes that the parser library looks at,
and with every application the block of the closure, that of the parser, and the bytes
and the length passed on; none where it is not the block that was meant. -/
inductive Seen where
  | scanned (s : Option OString)
  | applied (closure parser : Option ℕ)
  | applied3 (closure parser : Option ℕ) (data : Option OString) (len : ℤ)
  deriving DecidableEq

/-- The heap, the variables of `caml_http_parser_execute`, and what was found. -/
structure Call where
  heap : MovingHeap
  camlSettings : CamlSettings
  localData : Addr
  seen : List Seen

namespace Call

variable (a : Arguments) (c : Call)

def collectIf (collects : Bool) : Call := { c with heap := c.heap.collectIf collects }

/-- `caml_alloc_string`, which may collect before it allocates. -/
def camlAllocString (collects : Bool) : Call :=
  let c := c.collectIf collects
  { c with heap := c.heap.alloc }

/-- The bytes at a pointer into the string, if the string is still there. -/
def bytesAt (off len : ℕ) : Option OString :=
  if c.heap.find c.localData = some a.data then some (a.slice off len) else none

/-- `caml_callback`; the code that is run may collect. -/
def camlCallback (closure : Addr) (collects : Bool) : Call :=
  let seen := .applied (c.heap.find closure) (c.heap.find c.camlSettings.parser)
  { c with seen := c.seen ++ [seen] }.collectIf collects

/-- `caml_callback3`, with the new string and its length. -/
def camlCallback3 (closure : Addr) (data : Option OString) (len : ℤ) (collects : Bool) : Call :=
  let seen := .applied3 (c.heap.find closure) (c.heap.find c.camlSettings.parser) data len
  { c with seen := c.seen ++ [seen] }.collectIf collects

/-- A callback without data. -/
def plainCb (closure : Settings Addr → Addr) (inCode : Bool) : Call :=
  c.camlCallback (closure c.camlSettings.closures) inCode

/-- A callback with data: a pointer into the string, and a length. -/
def dataCb (closure : Settings Addr → Addr) (off len : ℕ) (atAlloc inCode : Bool) : Call :=
  let c := c.camlAllocString atAlloc
  -- `memcpy` from the pointer that came in
  let data := c.bytesAt a off len
  c.camlCallback3 (closure c.camlSettings.closures) data len inCode

/-- `on_url_cb`. -/
def onUrlCb := c.dataCb a Settings.onUrl

/-- `on_header_field_cb`. -/
def onHeaderFieldCb := c.dataCb a Settings.onHeaderField

/-- `on_header_value_cb`. -/
def onHeaderValueCb := c.dataCb a Settings.onHeaderValue

/-- `on_body_cb`. -/
def onBodyCb := c.dataCb a Settings.onBody

/-- `on_message_begin_cb`. -/
def onMessageBeginCb := c.plainCb Settings.onMessageBegin

/-- `on_status_cb`. -/
def onStatusCb := c.dataCb a Settings.onStatus

/-- `on_headers_complete_cb`. -/
def onHeadersCompleteCb := c.plainCb Settings.onHeadersComplete

/-- `on_message_complete_cb`. -/
def onMessageCompleteCb := c.plainCb Settings.onMessageComplete

end Call

/-! ## What the parser library does -/

/-- The parser library looks at part of its input, or makes a callback; for a data
callback with a part of the input. -/
inductive Token where
  | scan (off len : ℕ)
  | callback (cb : Callback) (off len : ℕ)
  deriving DecidableEq

/-- A step of the library, with the collections at the allocation of a string and in the
code that a closure runs. -/
structure Step where
  token : Token
  atAlloc : Bool
  inCode : Bool
  deriving DecidableEq

/-- What a step does. -/
def exec (a : Arguments) (c : Call) (s : Step) : Call :=
  match s.token with
  | .scan off len => { c with seen := c.seen ++ [.scanned (c.bytesAt a off len)] }
  | .callback cb off len =>
    match cb with
    | .onMessageBegin => c.onMessageBeginCb s.inCode
    | .onUrl => c.onUrlCb a off len s.atAlloc s.inCode
    | .onStatus => c.onStatusCb a off len s.atAlloc s.inCode
    | .onHeaderField => c.onHeaderFieldCb a off len s.atAlloc s.inCode
    | .onHeaderValue => c.onHeaderValueCb a off len s.atAlloc s.inCode
    | .onHeadersComplete => c.onHeadersCompleteCb s.inCode
    | .onBody => c.onBodyCb a off len s.atAlloc s.inCode
    | .onMessageComplete => c.onMessageCompleteCb s.inCode

/-- `caml_http_parser_execute` up to the call of the library: the variables are filled in. -/
def start (a : Arguments) : Call where
  heap := a.heap
  camlSettings :=
    { parser := a.heap.address a.parser
      closures :=
        { onMessageBegin := a.heap.address a.settings.onMessageBegin
          onUrl := a.heap.address a.settings.onUrl
          onStatus := a.heap.address a.settings.onStatus
          onHeaderField := a.heap.address a.settings.onHeaderField
          onHeaderValue := a.heap.address a.settings.onHeaderValue
          onHeadersComplete := a.heap.address a.settings.onHeadersComplete
          onBody := a.heap.address a.settings.onBody
          onMessageComplete := a.heap.address a.settings.onMessageComplete } }
  localData := a.heap.address a.data
  seen := []

/-- `caml_http_parser_execute`, with the steps of the library. -/
def camlHttpParserExecute (a : Arguments) (ss : List Step) : Call := ss.foldl (exec a) (start a)

/-- What should be found. -/
def Token.expected (a : Arguments) : Token → Seen
  | .scan off len => .scanned (some (a.slice off len))
  | .callback cb off len =>
    if cb.isData then
      .applied3 (some (a.settings.get cb)) (some a.parser) (some (a.slice off len)) len
    else .applied (some (a.settings.get cb)) (some a.parser)

/-! ## When the collector does no harm -/

/-- The blocks that a step of the library uses through copies of their addresses. -/
def Token.uses (a : Arguments) : Token → List ℕ
  | .scan _ _ => [a.data]
  | .callback cb _ _ =>
    if cb.isData then [a.settings.get cb, a.parser, a.data] else [a.settings.get cb, a.parser]

/-- A string is allocated before the blocks are used. -/
def Token.allocates : Token → Bool
  | .scan _ _ => false
  | .callback cb _ _ => cb.isData

/-- The collector has an occasion to run. -/
def Token.mayCollect : Token → Bool
  | .scan _ _ => false
  | .callback _ _ _ => true

/-- The collector runs before the blocks are used. -/
def Step.collectsFirst (s : Step) : Bool := s.token.allocates && s.atAlloc

/-- The collector runs. -/
def Step.collects (s : Step) : Bool := s.collectsFirst || s.token.mayCollect && s.inCode

/-- Every block that the step uses was not young any more when the call was made, or the
collector has not run since. -/
def Undisturbed (a : Arguments) (pre : List Step) (s : Step) : Prop :=
  ∀ i ∈ s.token.uses a,
    i < a.heap.promoted ∨ (pre.any Step.collects || s.collectsFirst) = false

/-- Every block that the step uses was not young any more when the call was made, or there
has been no occasion to collect. -/
def Sheltered (a : Arguments) (pre : List Token) (t : Token) : Prop :=
  ∀ i ∈ t.uses a, i < a.heap.promoted ∨ (pre.any Token.mayCollect || t.allocates) = false

/-! ## The copies -/

/-- The variables keep the addresses of the moment of the call. -/
structure Kept (a : Arguments) (moved : Bool) (c : Call) : Prop where
  since : a.heap.Since c.heap moved
  camlSettings : c.camlSettings = (start a).camlSettings
  localData : c.localData = (start a).localData

/-- The block that an address of the moment of the call leads to. -/
def Arguments.found (a : Arguments) (moved : Bool) (i : ℕ) : Option ℕ :=
  if i < a.heap.promoted ∨ moved = false then some i else none

/-- The bytes of the string, while it is where it was. -/
def Arguments.foundBytes (a : Arguments) (moved : Bool) (off len : ℕ) : Option OString :=
  if a.data < a.heap.promoted ∨ moved = false then some (a.slice off len) else none

/-- What is found in a step, by what has happened since the call. -/
def Step.seen (a : Arguments) (moved : Bool) (s : Step) : Seen :=
  match s.token with
  | .scan off len => .scanned (a.foundBytes moved off len)
  | .callback cb off len =>
    if cb.isData then
      .applied3 (a.found (moved || s.atAlloc) (a.settings.get cb))
        (a.found (moved || s.atAlloc) a.parser) (a.foundBytes (moved || s.atAlloc) off len) len
    else .applied (a.found moved (a.settings.get cb)) (a.found moved a.parser)

section Steps

variable {a : Arguments} {moved : Bool} {c : Call}

/-- The copies are made at the call. -/
theorem kept_start (a : Arguments) : Kept a false (start a) := ⟨.refl _, rfl, rfl⟩

/-- A collection leaves the copies where they are. -/
theorem Kept.collectIf (hc : Kept a moved c) (b : Bool) : Kept a (moved || b) (c.collectIf b) :=
  ⟨hc.since.collectIf b, hc.camlSettings, hc.localData⟩

/-- An allocation may collect first. -/
theorem Kept.camlAllocString (hc : Kept a moved c) (b : Bool) :
    Kept a (moved || b) (c.camlAllocString b) :=
  ⟨(hc.since.collectIf b).alloc, hc.camlSettings, hc.localData⟩

/-- What is found is noted. -/
theorem Kept.note (hc : Kept a moved c) (seen : List Seen) : Kept a moved { c with seen := seen } :=
  ⟨hc.since, hc.camlSettings, hc.localData⟩

/-- The library still finds the string, or nothing. -/
theorem Kept.bytesAt (hc : Kept a moved c) (off len : ℕ) :
    c.bytesAt a off len = a.foundBytes moved off len := by
  have hfind : c.heap.find c.localData = a.found moved a.data := by
    rw [hc.localData]
    exact hc.since.find_address a.data_lt
  unfold Call.bytesAt Arguments.foundBytes
  rw [hfind, Arguments.found]
  by_cases h : a.data < a.heap.promoted ∨ moved = false
  · rw [if_pos h, if_pos rfl, if_pos h]
  · rw [if_neg h, if_neg nofun, if_neg h]

/-- The copy of the parser. -/
theorem Kept.find_parser (hc : Kept a moved c) :
    c.heap.find c.camlSettings.parser = a.found moved a.parser := by
  rw [hc.camlSettings]
  exact hc.since.find_address a.parser_lt

/-- The copy of a closure. -/
theorem Kept.find_closure (hc : Kept a moved c) (cb : Callback) :
    c.heap.find (c.camlSettings.closures.get cb) = a.found moved (a.settings.get cb) := by
  rw [hc.camlSettings]
  have hcopy : (start a).camlSettings.closures.get cb = a.heap.address (a.settings.get cb) := by
    cases cb <;> rfl
  rw [hcopy]
  exact hc.since.find_address (a.settings_lt cb)

/-- A callback without data, as a step. -/
theorem Kept.plainCb (hc : Kept a moved c) (cb : Callback) (inCode : Bool) :
    (c.plainCb (Settings.get · cb) inCode).seen
        = c.seen ++ [.applied (a.found moved (a.settings.get cb)) (a.found moved a.parser)] ∧
      Kept a (moved || inCode) (c.plainCb (Settings.get · cb) inCode) := by
  refine ⟨?_, (hc.note _).collectIf inCode⟩
  rw [← hc.find_closure, ← hc.find_parser]
  rfl

/-- A callback with data, as a step. -/
theorem Kept.dataCb (hc : Kept a moved c) (cb : Callback) (off len : ℕ) (atAlloc inCode : Bool) :
    (c.dataCb a (Settings.get · cb) off len atAlloc inCode).seen
        = c.seen ++ [.applied3 (a.found (moved || atAlloc) (a.settings.get cb))
          (a.found (moved || atAlloc) a.parser) (a.foundBytes (moved || atAlloc) off len) len] ∧
      Kept a (moved || atAlloc || inCode)
        (c.dataCb a (Settings.get · cb) off len atAlloc inCode) := by
  have halloc := hc.camlAllocString atAlloc
  refine ⟨?_, (halloc.note _).collectIf inCode⟩
  rw [← halloc.find_closure, ← halloc.find_parser, ← halloc.bytesAt]
  rfl

/-- **What a step finds**, and what it leaves. -/
theorem Kept.exec (hc : Kept a moved c) (s : Step) :
    (exec a c s).seen = c.seen ++ [s.seen a moved] ∧
      Kept a (moved || s.collects) (exec a c s) := by
  obtain ⟨token, atAlloc, inCode⟩ := s
  cases token with
  | scan off len =>
    have hcollects : Step.collects ⟨.scan off len, atAlloc, inCode⟩ = false := rfl
    rw [hcollects, Bool.or_false]
    refine ⟨?_, hc.note _⟩
    show c.seen ++ [.scanned (c.bytesAt a off len)] = _
    rw [hc.bytesAt]
    rfl
  | callback cb off len =>
    have hplain := hc.plainCb cb inCode
    have hdata := hc.dataCb cb off len atAlloc inCode
    rw [Bool.or_assoc] at hdata
    cases cb
    case onMessageBegin | onHeadersComplete | onMessageComplete => exact hplain
    all_goals exact hdata

end Steps

/-! ## One call, and all schedules -/

/-- One more step. -/
theorem camlHttpParserExecute_concat (a : Arguments) (ss : List Step) (s : Step) :
    camlHttpParserExecute a (ss ++ [s]) = exec a (camlHttpParserExecute a ss) s := by
  rw [camlHttpParserExecute, List.foldl_append]
  rfl

/-- The copies, after any steps. -/
theorem kept_camlHttpParserExecute (a : Arguments) (ss : List Step) :
    Kept a (ss.any Step.collects) (camlHttpParserExecute a ss) := by
  induction ss using List.reverseRecOn with
  | nil => exact kept_start a
  | append_singleton ss s ih =>
    rw [camlHttpParserExecute_concat, List.any_append, List.any_cons, List.any_nil, Bool.or_false]
    exact (ih.exec s).2

/-- What is found is the block that was meant. -/
theorem found_eq_iff (a : Arguments) (moved : Bool) (i : ℕ) :
    a.found moved i = some i ↔ i < a.heap.promoted ∨ moved = false := by
  unfold Arguments.found
  split_ifs with h
  · exact ⟨fun _ => h, fun _ => rfl⟩
  · exact ⟨nofun, fun h' => absurd h' h⟩

/-- The bytes are found while the string is where it was. -/
theorem foundBytes_eq_iff (a : Arguments) (moved : Bool) (off len : ℕ) :
    a.foundBytes moved off len = some (a.slice off len) ↔
      a.data < a.heap.promoted ∨ moved = false := by
  unfold Arguments.foundBytes
  split_ifs with h
  · exact ⟨fun _ => h, fun _ => rfl⟩
  · exact ⟨nofun, fun h' => absurd h' h⟩

/-- A step finds what it should exactly when it is undisturbed. -/
theorem seen_eq_expected_iff (a : Arguments) (pre : List Step) (s : Step) :
    s.seen a (pre.any Step.collects) = s.token.expected a ↔ Undisturbed a pre s := by
  obtain ⟨token, atAlloc, inCode⟩ := s
  unfold Undisturbed Step.seen Step.collectsFirst
  cases token with
  | scan off len =>
    simp [Token.expected, Token.uses, Token.allocates, foundBytes_eq_iff]
  | callback cb off len =>
    cases hcb : cb.isData with
    | true =>
      simp [Token.expected, Token.uses, Token.allocates, hcb, foundBytes_eq_iff, found_eq_iff]
    | false =>
      simp [Token.expected, Token.uses, Token.allocates, hcb, found_eq_iff]

/-- The whole call finds what it should exactly when every step is undisturbed. -/
theorem seen_camlHttpParserExecute_iff (a : Arguments) (ss : List Step) :
    (camlHttpParserExecute a ss).seen = ss.map (fun s => s.token.expected a) ↔
      AtEvery (Undisturbed a) ss := by
  induction ss using List.reverseRecOn with
  | nil => exact ⟨fun _ => atEvery_nil _, fun _ => rfl⟩
  | append_singleton ss s ih =>
    have hstep := (kept_camlHttpParserExecute a ss).exec s
    rw [atEvery_concat_iff, ← ih, ← seen_eq_expected_iff, camlHttpParserExecute_concat, hstep.1,
      List.map_append, List.map_cons, List.map_nil]
    constructor
    · intro h
      obtain ⟨hpre, hlast⟩ := List.append_inj' h rfl
      exact ⟨hpre, List.singleton_inj.mp hlast⟩
    · rintro ⟨hpre, hlast⟩
      rw [hpre, hlast]

/-- A collection takes an occasion. -/
theorem collectsFirst_le (s : Step) (h : s.token.allocates = false) : s.collectsFirst = false := by
  rw [Step.collectsFirst, h, Bool.false_and]

/-- Without an occasion there is no collection. -/
theorem any_collects_eq_false {pre : List Step}
    (h : (pre.map Step.token).any Token.mayCollect = false) : pre.any Step.collects = false := by
  rw [List.any_eq_false] at h ⊢
  intro s hs
  have hmay := h s.token (List.mem_map_of_mem hs)
  obtain ⟨token, atAlloc, inCode⟩ := s
  cases token with
  | scan off len => simp [Step.collects, Step.collectsFirst, Token.allocates, Token.mayCollect]
  | callback cb off len => exact absurd rfl hmay

/-- Where every step is sheltered, no schedule disturbs one. -/
theorem atEvery_undisturbed {a : Arguments} {ss : List Step}
    (h : AtEvery (Sheltered a) (ss.map Step.token)) : AtEvery (Undisturbed a) ss := by
  refine AtEvery.imp ?_ ((atEvery_map_iff _ _ _).mp h)
  intro pre s hs i hi
  refine (hs i hi).imp_right fun hnone => ?_
  rw [Bool.or_eq_false_iff] at hnone ⊢
  exact ⟨any_collects_eq_false hnone.1, collectsFirst_le s hnone.2⟩

/-- The schedule in which the collector takes every occasion. -/
def eager (ts : List Token) : List Step := ts.map fun t => ⟨t, true, true⟩

/-- The eager schedule is a schedule for its tokens. -/
@[simp] theorem map_token_eager (ts : List Token) : (eager ts).map Step.token = ts := by
  rw [eager, List.map_map]
  exact List.map_id ts

/-- What the eager schedule does not disturb is sheltered. -/
theorem atEvery_sheltered {a : Arguments} {ts : List Token}
    (h : AtEvery (Undisturbed a) (eager ts)) : AtEvery (Sheltered a) ts := by
  refine AtEvery.imp ?_ ((atEvery_map_iff _ _ _).mp h)
  intro pre t ht i hi
  have hcollects : ∀ t : Token, Step.collects ⟨t, true, true⟩ = t.mayCollect := by
    intro t
    cases t with
    | scan off len => rfl
    | callback cb off len => simp [Step.collects, Token.mayCollect]
  have hany : ((pre.map fun t => (⟨t, true, true⟩ : Step)).any Step.collects)
      = pre.any Token.mayCollect := by
    rw [List.any_map]
    exact congrArg pre.any (funext hcollects)
  have hfirst : Step.collectsFirst ⟨t, true, true⟩ = t.allocates := Bool.and_true _
  have hstep := ht i hi
  rwa [hany, hfirst] at hstep

/-- **The copies outlive no collection.**  In a call of `caml_http_parser_execute` the
library sees the bytes of the string, and each callback runs the closure of its field with
the parser and a copy of its part of the string, exactly when no step uses a block that
was young at the call after a collection.  And this is so for all schedules of the
collector exactly when no step uses such a block after an earlier callback, or after
an allocation of its own. -/
theorem execute_iff (a : Arguments) :
    (∀ ss, (camlHttpParserExecute a ss).seen = ss.map (fun s => s.token.expected a) ↔
      AtEvery (Undisturbed a) ss) ∧
    ∀ ts, (∀ ss, ss.map Step.token = ts →
        (camlHttpParserExecute a ss).seen = ts.map (Token.expected a)) ↔
      AtEvery (Sheltered a) ts := by
  refine ⟨seen_camlHttpParserExecute_iff a, fun ts => ⟨fun h => ?_, ?_⟩⟩
  · have heager := h (eager ts) (map_token_eager ts)
    refine atEvery_sheltered ((seen_camlHttpParserExecute_iff a _).mp ?_)
    rw [heager, eager, List.map_map]
    rfl
  · rintro h ss rfl
    rw [(seen_camlHttpParserExecute_iff a ss).mpr (atEvery_undisturbed h), List.map_map]
    rfl

/-- A request in a young string; the parser and the closures are old. -/
def youngInput : Arguments where
  heap := ⟨3, 2, by decide⟩
  parser := 0
  settings := ⟨1, 1, 1, 1, 1, 1, 1, 1⟩
  data := 2
  input := lit "GET /a HTTP/1.1"
  parser_lt := by decide
  settings_lt := fun cb => by cases cb <;> decide
  data_lt := by decide

/-- The copy for the URL is made from where the string was before the collection. -/
example : (camlHttpParserExecute youngInput
    [⟨.scan 0 4, false, false⟩, ⟨.callback .onUrl 4 2, true, false⟩]).seen
      = [.scanned (some (lit "GET ")), .applied3 (some 1) (some 0) none 2] := by decide

/-! ## Parsing a URL -/

/-- The fields of `http_parser_url`, which are numbered in this order in the library too. -/
inductive UrlPart where
  | schema
  | host
  | port
  | path
  | query
  | fragment
  | userinfo
  deriving DecidableEq

/-- The indices below `UF_MAX`, in order. -/
def UrlPart.all : List UrlPart := [schema, host, port, path, query, fragment, userinfo]

theorem UrlPart.mem_all (k : UrlPart) : k ∈ all := by cases k <;> decide

/-- A field of the block: the immediate that `caml_alloc` puts there, or a string. -/
inductive UrlField where
  | unit
  | string (s : OString)
  deriving DecidableEq

/-- What `http_parser_parse_url` returns and fills in: for each field that is set, where
it starts and how long it is. -/
structure UrlParse where
  rc : ℤ
  field : UrlPart → Option (ℕ × ℕ)

/-- The heap and the block that is filled in, unless that depends on memory that is not
the URL. -/
abbrev UrlState := Option (MovingHeap × (UrlPart → UrlField))

/-- A call: the URL, its block and the heap, the library function, and the collections at
the allocation of the record and of the string for each field. -/
structure UrlCall where
  url : OString
  isConnect : ℤ
  heap : MovingHeap
  block : ℕ
  block_lt : block < heap.count
  parse : OString → ℤ → UrlParse
  atRecord : Bool
  atString : UrlPart → Bool

namespace UrlCall

variable (u : UrlCall)

/-- What the library makes of the URL, of which it sees what comes before a zero byte. -/
def parsed : UrlParse := u.parse (u.url.takeWhile (· ≠ 0)) u.isConnect

/-- A range of the URL. -/
def part (r : ℕ × ℕ) : OString := (u.url.drop r.1).take r.2

/-- The URL is still found where it was when `url_str` was set. -/
def InPlace (heap : MovingHeap) : Prop := heap.find (u.heap.address u.block) = some u.block

instance (heap : MovingHeap) : Decidable (u.InPlace heap) :=
  inferInstanceAs (Decidable (_ = some u.block))

/-- One round of the loop over the fields. -/
def storeField (state : UrlState) (k : UrlPart) : UrlState :=
  match state, u.parsed.field k with
  | none, _ => none
  | some (heap, record), none => some (heap, record)
  | some (heap, record), some r =>
    let heap := (heap.collectIf (u.atString k)).alloc
    -- `memcpy` from `url_str`
    if u.InPlace heap then some (heap, Function.update record k (.string (u.part r))) else none

/-- The loop. -/
def storeFields (heap : MovingHeap) (ks : List UrlPart) : UrlState :=
  ks.foldl u.storeField (some (heap, fun _ => .unit))

/-- `caml_http_parser_parse_url`. -/
def camlHttpParserParseUrl : Option (UrlPart → UrlField) :=
  let heap := (u.heap.collectIf u.atRecord).alloc
  if u.InPlace heap then
    if u.parsed.rc = 0 then (u.storeFields heap UrlPart.all).map Prod.snd
    else some fun _ => .string []
  else none

/-- A field as the library found it. -/
def fieldOf (k : UrlPart) : UrlField :=
  match u.parsed.field k with
  | none => .unit
  | some r => .string (u.part r)

/-- The fields that were found, or empty strings when the URL is not valid. -/
def expected : UrlPart → UrlField := if u.parsed.rc = 0 then u.fieldOf else fun _ => .string []

/-- No collection while the pointer into a young URL is in use, in the rounds for some of
the fields. -/
def UndisturbedIn (ks : List UrlPart) : Prop :=
  u.block < u.heap.promoted ∨
    u.atRecord = false ∧ ∀ k ∈ ks, u.parsed.field k ≠ none → u.atString k = false

/-- No collection while the pointer into a young URL is in use. -/
def Undisturbed : Prop := u.UndisturbedIn (if u.parsed.rc = 0 then UrlPart.all else [])

variable {u} {heap : MovingHeap} {moved : Bool}

/-- The URL is in place when it is old, or nothing has moved. -/
theorem inPlace_iff (hs : u.heap.Since heap moved) :
    u.InPlace heap ↔ u.block < u.heap.promoted ∨ moved = false := by
  unfold InPlace
  rw [hs.find_address u.block_lt]
  split_ifs with h
  · exact ⟨fun _ => h, fun _ => rfl⟩
  · exact ⟨nofun, fun h' => absurd h' h⟩

/-- The heap after the allocation of the record. -/
theorem since_record (u : UrlCall) :
    u.heap.Since (u.heap.collectIf u.atRecord).alloc u.atRecord := by
  have hs := (MovingHeap.Since.refl u.heap).collectIf u.atRecord
  rw [Bool.false_or] at hs
  exact hs.alloc

/-- Where the loop is after some of the fields: it has stored them, or a copy was made of
something else. -/
def Reached (u : UrlCall) (ks : List UrlPart) : UrlState → Prop
  | none => ¬ u.UndisturbedIn ks
  | some (heap, record) => u.UndisturbedIn ks ∧ u.InPlace heap ∧
      (∃ moved, u.heap.Since heap moved) ∧ record = fun k => if k ∈ ks then u.fieldOf k else .unit

/-- One more field. -/
theorem undisturbedIn_concat_iff (ks : List UrlPart) (k : UrlPart) :
    u.UndisturbedIn (ks ++ [k]) ↔ u.UndisturbedIn ks ∧
      (u.block < u.heap.promoted ∨ (u.parsed.field k ≠ none → u.atString k = false)) := by
  unfold UndisturbedIn
  simp only [List.mem_append, List.mem_singleton, or_imp, forall_and, forall_eq]
  tauto

/-- The record with one field more. -/
theorem stored_concat (ks : List UrlPart) (k : UrlPart) :
    Function.update (fun k' => if k' ∈ ks then u.fieldOf k' else .unit) k (u.fieldOf k)
      = fun k' => if k' ∈ ks ++ [k] then u.fieldOf k' else .unit := by
  funext k'
  by_cases h : k' = k
  · rw [h, Function.update_self, if_pos (by simp)]
  · rw [Function.update_of_ne h]
    simp [h]

/-- **One round.** -/
theorem Reached.storeField {ks : List UrlPart} {state : UrlState} (h : u.Reached ks state)
    (k : UrlPart) : u.Reached (ks ++ [k]) (u.storeField state k) := by
  rcases state with _ | ⟨heap, record⟩
  · intro hks
    exact h ((undisturbedIn_concat_iff ks k).mp hks).1
  · obtain ⟨hks, hplace, ⟨moved, hs⟩, rfl⟩ := h
    cases hfield : u.parsed.field k with
    | none =>
      have hunit : u.fieldOf k = .unit := by
        rw [fieldOf, hfield]
      unfold UrlCall.storeField
      rw [hfield]
      refine ⟨(undisturbedIn_concat_iff ks k).mpr ⟨hks, .inr fun hne => absurd hfield hne⟩, hplace,
        ⟨moved, hs⟩, ?_⟩
      rw [← stored_concat, hunit]
      funext k'
      by_cases hk : k' = k
      · rw [hk, Function.update_self]
        split_ifs
        · exact hunit
        · rfl
      · rw [Function.update_of_ne hk]
    | some r =>
      have hstring : u.fieldOf k = .string (u.part r) := by
        rw [fieldOf, hfield]
      have hnext : u.heap.Since (heap.collectIf (u.atString k)).alloc (moved || u.atString k) :=
        (hs.collectIf _).alloc
      have hstays : u.InPlace (heap.collectIf (u.atString k)).alloc ↔
          u.block < u.heap.promoted ∨ u.atString k = false := by
        rw [inPlace_iff hnext, Bool.or_eq_false_iff]
        have hbefore := (inPlace_iff hs).mp hplace
        tauto
      have hconcat : u.UndisturbedIn (ks ++ [k]) ↔
          u.InPlace (heap.collectIf (u.atString k)).alloc := by
        rw [undisturbedIn_concat_iff, hstays, hfield]
        simp [hks]
      unfold UrlCall.storeField
      rw [hfield]
      show u.Reached _ (if _ then _ else _)
      split_ifs with hplace'
      · refine ⟨hconcat.mpr hplace', hplace', ⟨_, hnext⟩, ?_⟩
        rw [← stored_concat, hstring]
      · exact fun hks' => hplace' (hconcat.mp hks')

/-- **The loop.** -/
theorem reached_storeFields {heap : MovingHeap} {moved : Bool} (hs : u.heap.Since heap moved)
    (hplace : u.InPlace heap) (hnil : u.UndisturbedIn []) (ks : List UrlPart) :
    u.Reached ks (u.storeFields heap ks) := by
  induction ks using List.reverseRecOn with
  | nil => exact ⟨hnil, hplace, ⟨moved, hs⟩, rfl⟩
  | append_singleton ks k ih =>
    rw [storeFields, List.foldl_append]
    exact ih.storeField k

/-- Before the first field only the allocation of the record counts. -/
theorem undisturbedIn_nil_iff (u : UrlCall) :
    u.UndisturbedIn [] ↔ u.InPlace (u.heap.collectIf u.atRecord).alloc := by
  rw [inPlace_iff (since_record u)]
  simp [UndisturbedIn]

/-- What does not disturb the fields does not disturb the record. -/
theorem UndisturbedIn.nil {ks : List UrlPart} (h : u.UndisturbedIn ks) : u.UndisturbedIn [] :=
  h.imp_right fun h => ⟨h.1, nofun⟩

/-- The record that is returned. -/
theorem camlHttpParserParseUrl_eq (u : UrlCall) :
    u.Undisturbed ∧ u.camlHttpParserParseUrl = some u.expected ∨
      ¬ u.Undisturbed ∧ u.camlHttpParserParseUrl = none := by
  have hnil := undisturbedIn_nil_iff u
  unfold camlHttpParserParseUrl Undisturbed expected
  by_cases hplace : u.InPlace (u.heap.collectIf u.atRecord).alloc
  · by_cases hrc : u.parsed.rc = 0
    · simp only [if_pos hplace, if_pos hrc]
      have hloop := reached_storeFields (since_record u) hplace (hnil.mpr hplace) UrlPart.all
      cases hstate : u.storeFields (u.heap.collectIf u.atRecord).alloc UrlPart.all with
      | none =>
        rw [hstate] at hloop
        exact .inr ⟨hloop, rfl⟩
      | some p =>
        rw [hstate] at hloop
        obtain ⟨hall, -, -, hrecord⟩ := hloop
        refine .inl ⟨hall, congrArg some (hrecord.trans ?_)⟩
        funext k
        exact if_pos k.mem_all
    · simp only [if_pos hplace, if_neg hrc]
      exact .inl ⟨hnil.mpr hplace, trivial⟩
  · rw [if_neg hplace]
    exact .inr ⟨fun h => hplace (hnil.mp h.nil), rfl⟩

/-- A field that was found is a string, and no other. -/
theorem exists_fieldOf_eq_string_iff (k : UrlPart) :
    (∃ s, u.fieldOf k = .string s) ↔ u.parsed.field k ≠ none := by
  unfold fieldOf
  cases u.parsed.field k <;> simp

/-- **What `parse_url` returns.**  The result is that of the library, for the bytes of the
URL, exactly when no collection moves a young URL before the last field is copied; and it is
a record of seven strings, as its type says, exactly when moreover the library rejects the
URL or finds every one of the seven fields in it. -/
theorem parseUrl_iff (u : UrlCall) :
    (u.camlHttpParserParseUrl = some u.expected ↔ u.Undisturbed) ∧
    ((∃ record, u.camlHttpParserParseUrl = some record ∧ ∀ k, ∃ s, record k = .string s) ↔
      u.Undisturbed ∧ (u.parsed.rc ≠ 0 ∨ ∀ k, u.parsed.field k ≠ none)) := by
  have hstrings : (∀ k, ∃ s, u.expected k = .string s) ↔
      u.parsed.rc ≠ 0 ∨ ∀ k, u.parsed.field k ≠ none := by
    unfold expected
    split_ifs with hrc
    · simp only [exists_fieldOf_eq_string_iff, hrc, ne_eq, not_true, false_or]
    · exact ⟨fun _ => .inl hrc, fun _ _ => ⟨[], rfl⟩⟩
  rw [← hstrings]
  rcases camlHttpParserParseUrl_eq u with ⟨hu, hrecord⟩ | ⟨hu, hrecord⟩
  · simp [hu, hrecord]
  · simp [hu, hrecord]

/-- A young URL in which the library finds a path, with no collection. -/
def pathOnly : UrlCall where
  url := lit "/a"
  isConnect := 0
  heap := ⟨2, 1, by decide⟩
  block := 1
  block_lt := by decide
  parse := fun _ _ => ⟨0, fun k => if k = .path then some (0, 2) else none⟩
  atRecord := false
  atString := fun _ => false

/-- The field of the path is a string, and that of the host is not. -/
example : pathOnly.camlHttpParserParseUrl.map (fun record => (record .path, record .host))
    = some (.string (lit "/a"), .unit) := by decide

end UrlCall

end ParserStubs
