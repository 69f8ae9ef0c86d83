/-
# Collections during the read callbacks

The read callbacks take the closure out of the handle before they allocate the
string for it.  Whether what they pass on is still the closure depends on where it
lives, on when the minor collector runs, and on what was registered as a root:
the `data` field by `request_on`, the parameter of the stub by `request`.
-/
import UvHttp.History
import UvHttp.MovingHeap
import UvHttp.Stubs

namespace Collection

/-! ## Connections -/

/-- The stub that stored the closure: `request_on` or `request`. -/
inductive Kind where
  | server
  | client
  deriving DecidableEq

/-- One call of `caml_callback`: the closure as it was passed, the heap at that
moment, and the string. -/
structure Application where
  passed : Addr
  heap : MovingHeap
  str : OString

/-- The memory location that is registered as a root. -/
inductive Slot where
  | data
  | param
  deriving DecidableEq

/-- One connection: the heap, the `data` field of its handle, the parameter `cb` of
the stub that stored the closure, which of them is a root, and the calls so far. -/
structure Conn where
  heap : MovingHeap
  data : Addr
  param : Addr
  root : Slot
  applied : List Application

/-- The closure that was stored is the first block. -/
def closure : ℕ := 0

/-- The heap when the closure is stored: it was allocated just now, or it has been
moved before. -/
def firstHeap (young : Bool) : MovingHeap :=
  if young then ⟨1, 0, by decide⟩ else ⟨1, 1, Nat.le_refl _⟩

/-- `request_on`: the field is registered. -/
def requestOn (heap : MovingHeap) (cb : Addr) : Conn := ⟨heap, cb, cb, .data, []⟩

/-- `request`: the parameter is registered, and the stub returns. -/
def request (heap : MovingHeap) (cb : Addr) : Conn := ⟨heap, cb, cb, .param, []⟩

/-- A connection whose closure has just been stored. -/
def start (k : Kind) (young : Bool) : Conn :=
  let heap := firstHeap young
  match k with
  | .server => requestOn heap (heap.address closure)
  | .client => request heap (heap.address closure)

namespace Conn

variable (c : Conn)

/-- A minor collection: of the two locations, the one that is a root is updated. -/
def collect : Conn :=
  { c with
    heap := c.heap.collect
    data := if c.root = .data then c.heap.forward c.data else c.data
    param := if c.root = .param then c.heap.forward c.param else c.param }

def collectIf (collects : Bool) : Conn := if collects then c.collect else c

/-- `caml_alloc_string`, which may collect before it allocates. -/
def camlAllocString (collects : Bool) : Conn :=
  let c := c.collectIf collects
  { c with heap := c.heap.alloc }

/-- `caml_callback`; the code that is run may collect. -/
def camlCallback (cb : Addr) (str : OString) (collects : Bool) : Conn :=
  let c := { c with applied := c.applied ++ [(⟨cb, c.heap, str⟩ : Application)] }
  c.collectIf collects

/-- `read_cb`. -/
def readCb (e : ReadEvent) (atAlloc inCode : Bool) : Conn :=
  -- a copy in a C variable that is no root
  let cb := c.data
  if e.nread < 0 then
    -- the error code is no length of a string: the allocation does not come back
    c.collectIf atAlloc
  else if e.nread = 0 then c
  else
    let c := c.camlAllocString atAlloc
    c.camlCallback cb e.bytes inCode

/-- `client_read_cb`; `request` has stored a closure, so `cb` is not null. -/
def clientReadCb (e : ReadEvent) (atAlloc inCode : Bool) : Conn :=
  let cb := c.data
  if e.nread < 0 then
    let c := c.camlAllocString atAlloc
    c.camlCallback cb [] inCode
  else if e.nread = 0 then c
  else
    let c := c.camlAllocString atAlloc
    c.camlCallback cb e.bytes inCode

end Conn

/-! ## Runs -/

/-- A read on the connection, with the collections at the allocation of its string and
in the code that the closure runs; or other OCaml code, with its collection. -/
inductive Step where
  | read (e : ReadEvent) (atAlloc inCode : Bool)
  | code (collects : Bool)

/-- What a step does. -/
def exec (k : Kind) (c : Conn) : Step → Conn
  | .read e atAlloc inCode =>
    match k with
    | .server => c.readCb e atAlloc inCode
    | .client => c.clientReadCb e atAlloc inCode
  | .code collects => c.collectIf collects

/-- A run from the moment the closure is stored. -/
def run (k : Kind) (young : Bool) (ss : List Step) : Conn := ss.foldl (exec k) (start k young)

/-- The reads of a run, without its collections. -/
def reads (ss : List Step) : List ReadEvent :=
  ss.filterMap fun
    | .read e _ _ => some e
    | .code _ => none

/-- The string that the closure is applied to after a read. -/
def stringOf (k : Kind) (e : ReadEvent) : Option OString :=
  if e.nread < 0 then
    match k with
    | .server => none
    | .client => some []
  else if e.nread = 0 then none
  else some e.bytes

/-- What was passed is the closure, at its address of that moment. -/
def Application.Current (a : Application) : Prop := a.passed = a.heap.address closure

/-- What is run: the block found at the address that was passed, with its string. -/
def observed (c : Conn) : List (Option ℕ × OString) :=
  c.applied.map fun a => (a.heap.find a.passed, a.str)

/-- The closure that was stored, run with every string. -/
def expected (k : Kind) (es : List ReadEvent) : List (Option ℕ × OString) :=
  (es.filterMap (stringOf k)).map fun s => (some closure, s)

/-! ## When the collector does no harm -/

/-- A step in which the collector runs. -/
def Step.collects (k : Kind) : Step → Bool
  | .read e atAlloc inCode =>
    if e.nread < 0 then
      match k with
      | .server => atAlloc
      | .client => atAlloc || inCode
    else if e.nread = 0 then false
    else atAlloc || inCode
  | .code collects => collects

/-- The collector does not get between a young closure and its application: on the
server, when it runs at the allocation of the string the closure has been moved
before; on the client, it does not run, and has not run since the closure was
stored. -/
def OutOfTheWay (k : Kind) (moved atAlloc : Bool) : Prop :=
  match k with
  | .server => atAlloc = true → moved = true
  | .client => atAlloc = false ∧ moved = false

/-- The step applies no closure, or the closure was not young when it was stored, or
the collector is out of the way. -/
def Undisturbed (k : Kind) (young : Bool) (pre : List Step) : Step → Prop
  | .read e atAlloc _ =>
    stringOf k e ≠ none → young = true → OutOfTheWay k (pre.any (Step.collects k)) atAlloc
  | .code _ => True

/-! ## Where the closure is -/

/-- The closure is in the heap; it is young as long as it was stored young and has not
been moved; the field follows it on the server and stays behind on the client. -/
structure Stored (k : Kind) (young moved : Bool) (c : Conn) : Prop where
  inHeap : closure < c.heap.count
  promoted : closure < c.heap.promoted ↔ young = false ∨ moved = true
  server : k = .server → c.root = .data ∧ c.data = c.heap.address closure
  client : k = .client → c.root = .param ∧ c.data = (firstHeap young).address closure

/-- Where the closure is when it was just stored. -/
theorem stored_start (k : Kind) (young : Bool) : Stored k young false (start k young) := by
  cases k <;> cases young <;> refine ⟨by decide, by decide, fun h => ?_, fun h => ?_⟩ <;>
    first | cases h; done | exact ⟨rfl, rfl⟩

section Steps

variable {k : Kind} {young moved : Bool} {c : Conn}

/-- A collection moves the closure, and the field with it if that is a root. -/
theorem Stored.collectIf (hc : Stored k young moved c) (b : Bool) :
    Stored k young (moved || b) (c.collectIf b) := by
  cases b with
  | false =>
    rw [Bool.or_false]
    exact hc
  | true =>
    rw [Bool.or_true]
    refine ⟨hc.inHeap, ⟨fun _ => .inr rfl, fun _ => hc.inHeap⟩, fun hk => ?_, fun hk => ?_⟩
    · obtain ⟨hroot, hdata⟩ := hc.server hk
      refine ⟨hroot, ?_⟩
      show (if c.root = .data then c.heap.forward c.data else c.data) = _
      rw [if_pos hroot, hdata]
      exact MovingHeap.forward_address hc.inHeap
    · obtain ⟨hroot, hdata⟩ := hc.client hk
      refine ⟨hroot, ?_⟩
      show (if c.root = .data then c.heap.forward c.data else c.data) = _
      rw [if_neg (by rw [hroot]; decide), hdata]

/-- An allocation may collect first. -/
theorem Stored.camlAllocString (hc : Stored k young moved c) (b : Bool) :
    Stored k young (moved || b) (c.camlAllocString b) := by
  have h := hc.collectIf b
  exact ⟨Nat.lt_succ_of_lt h.inHeap, h.promoted, h.server, h.client⟩

/-- The code of a callback may collect. -/
theorem Stored.camlCallback (hc : Stored k young moved c) (cb : Addr) (str : OString) (b : Bool) :
    Stored k young (moved || b) (c.camlCallback cb str b) :=
  Stored.collectIf (c := { c with applied := c.applied ++ [⟨cb, c.heap, str⟩] })
    ⟨hc.inHeap, hc.promoted, hc.server, hc.client⟩ b

/-- What a step does to the whereabouts of the closure. -/
theorem stored_exec (hc : Stored k young moved c) (s : Step) :
    Stored k young (moved || s.collects k) (exec k c s) := by
  cases s with
  | code b => exact hc.collectIf b
  | read e a b =>
    have hcall : ∀ str, Stored k young (moved || (a || b))
        ((c.camlAllocString a).camlCallback c.data str b) := fun str => by
      rw [← Bool.or_assoc]
      exact (hc.camlAllocString a).camlCallback c.data str b
    cases k with
    | server =>
      show Stored _ _ (_ || if _ then a else _) (c.readCb e a b)
      unfold Conn.readCb
      split_ifs
      · exact hc.collectIf a
      · rw [Bool.or_false]
        exact hc
      · exact hcall e.bytes
    | client =>
      show Stored _ _ (_ || if _ then a || b else _) (c.clientReadCb e a b)
      unfold Conn.clientReadCb
      split_ifs
      · exact hcall []
      · rw [Bool.or_false]
        exact hc
      · exact hcall e.bytes

@[simp] theorem heap_collectIf (b : Bool) : (c.collectIf b).heap = c.heap.collectIf b := by
  cases b <;> rfl

@[simp] theorem applied_collectIf (b : Bool) : (c.collectIf b).applied = c.applied := by
  cases b <;> rfl

/-- The applications that a step makes. -/
def applications (k : Kind) (c : Conn) : Step → List Application
  | .read e atAlloc _ =>
    match stringOf k e with
    | none => []
    | some str => [⟨c.data, (c.heap.collectIf atAlloc).alloc, str⟩]
  | .code _ => []

/-- A step adds its applications. -/
theorem applied_exec (k : Kind) (c : Conn) (s : Step) :
    (exec k c s).applied = c.applied ++ applications k c s := by
  cases s with
  | code b => simp [exec, applications]
  | read e a b =>
    cases k with
    | server =>
      show (c.readCb e a b).applied = _
      unfold Conn.readCb
      split_ifs with hneg hzero
      · simp [applications, stringOf, hneg]
      · simp [applications, stringOf, hzero]
      · simp [applications, stringOf, hneg, hzero, Conn.camlAllocString, Conn.camlCallback]
    | client =>
      show (c.clientReadCb e a b).applied = _
      unfold Conn.clientReadCb
      split_ifs with hneg hzero
      · simp [applications, stringOf, hneg, Conn.camlAllocString, Conn.camlCallback]
      · simp [applications, stringOf, hzero]
      · simp [applications, stringOf, hneg, hzero, Conn.camlAllocString, Conn.camlCallback]

/-- **What is passed is the closure exactly when the collector has not come between.** -/
theorem Stored.current_iff (hc : Stored k young moved c) (a : Bool) (str : OString) :
    (⟨c.data, (c.heap.collectIf a).alloc, str⟩ : Application).Current ↔
      (young = true → OutOfTheWay k moved a) := by
  have hcollect := MovingHeap.lt_promoted_collectIf hc.inHeap a
  unfold Application.Current
  rw [MovingHeap.address_alloc]
  cases k with
  | server =>
    rw [(hc.server rfl).2, MovingHeap.address_eq_address_iff, hcollect, hc.promoted]
    cases young <;> cases a <;> cases moved <;> simp [OutOfTheWay]
  | client =>
    have hfirst : closure < (firstHeap young).promoted ↔ young = false := by
      cases young <;> decide
    rw [(hc.client rfl).2, MovingHeap.address_eq_address_iff, hcollect, hc.promoted, hfirst]
    cases young <;> cases a <;> cases moved <;> simp [OutOfTheWay]

end Steps

/-! ## Runs and schedules -/

/-- One more step. -/
theorem run_concat (k : Kind) (young : Bool) (ss : List Step) (s : Step) :
    run k young (ss ++ [s]) = exec k (run k young ss) s := by
  rw [run, List.foldl_append]
  rfl

/-- Where the closure is after a run. -/
theorem stored_run (k : Kind) (young : Bool) (ss : List Step) :
    Stored k young (ss.any (Step.collects k)) (run k young ss) := by
  induction ss using List.reverseRecOn with
  | nil => exact stored_start k young
  | append_singleton ss s ih =>
    rw [run_concat, List.any_append, List.any_cons, List.any_nil, Bool.or_false]
    exact stored_exec ih s

/-- The applications of one more step. -/
theorem applied_run_concat (k : Kind) (young : Bool) (ss : List Step) (s : Step) :
    (run k young (ss ++ [s])).applied
      = (run k young ss).applied ++ applications k (run k young ss) s := by
  rw [run_concat, applied_exec]

/-- What a step passes is the closure exactly when it is undisturbed. -/
theorem current_applications_iff (k : Kind) (young : Bool) (ss : List Step) (s : Step) :
    (∀ a ∈ applications k (run k young ss) s, a.Current) ↔ Undisturbed k young ss s := by
  cases s with
  | code b => simp [applications, Undisturbed]
  | read e a b =>
    cases hstr : stringOf k e with
    | none => simp [applications, Undisturbed, hstr]
    | some str =>
      have hcurrent := (stored_run k young ss).current_iff a str
      simp [applications, Undisturbed, hstr, hcurrent]

/-- Every application is one of the closure exactly when every step is undisturbed. -/
theorem current_run_iff (k : Kind) (young : Bool) (ss : List Step) :
    (∀ a ∈ (run k young ss).applied, a.Current) ↔ AtEvery (Undisturbed k young) ss := by
  induction ss using List.reverseRecOn with
  | nil =>
    refine ⟨fun _ => atEvery_nil _, fun _ a ha => ?_⟩
    have hnil : (run k young []).applied = [] := by cases k <;> rfl
    rw [hnil] at ha
    cases ha
  | append_singleton ss s ih =>
    rw [applied_run_concat, atEvery_concat_iff, ← ih, ← current_applications_iff]
    simp only [List.mem_append, or_imp, forall_and]

/-- The strings of the applications of a step. -/
theorem strings_applications (k : Kind) (c : Conn) (s : Step) :
    (applications k c s).map Application.str = (reads [s]).filterMap (stringOf k) := by
  cases s with
  | code b => rfl
  | read e a b =>
    show _ = [e].filterMap (stringOf k)
    rw [List.filterMap_cons, applications]
    cases stringOf k e <;> rfl

/-- The strings do not depend on the collector. -/
theorem strings_run (k : Kind) (young : Bool) (ss : List Step) :
    (run k young ss).applied.map Application.str = (reads ss).filterMap (stringOf k) := by
  induction ss using List.reverseRecOn with
  | nil => cases k <;> rfl
  | append_singleton ss s ih =>
    have hreads : reads (ss ++ [s]) = reads ss ++ reads [s] := List.filterMap_append
    rw [applied_run_concat, List.map_append, ih, hreads, List.filterMap_append,
      strings_applications]

/-- The heap of every application holds the closure. -/
theorem inHeap_of_applied (k : Kind) (young : Bool) (ss : List Step) :
    ∀ a ∈ (run k young ss).applied, closure < a.heap.count := by
  induction ss using List.reverseRecOn with
  | nil =>
    intro a ha
    have hnil : (run k young []).applied = [] := by cases k <;> rfl
    rw [hnil] at ha
    cases ha
  | append_singleton ss s ih =>
    intro a ha
    rw [applied_run_concat, List.mem_append] at ha
    rcases ha with ha | ha
    · exact ih a ha
    · have hstored := stored_run k young ss
      cases s with
      | code b => cases ha
      | read e b b' =>
        cases hstr : stringOf k e with
        | none =>
          simp [applications, hstr] at ha
        | some str =>
          simp only [applications, hstr, List.mem_singleton] at ha
          rw [ha]
          exact Nat.lt_succ_of_lt (by
            rw [MovingHeap.count_collectIf]
            exact hstored.inHeap)

/-- **Collections do no harm exactly where they are out of the way.**  Every value
passed is the closure at its current address if and only if every step is
undisturbed; and then, and only then, the closure is run with the string of every
read, as in a run without collections.  So two undisturbed runs over the same reads
run the same closures with the same strings. -/
theorem schedule_independent_iff (k : Kind) (young : Bool) (ss : List Step) :
    ((∀ a ∈ (run k young ss).applied, a.Current) ↔ AtEvery (Undisturbed k young) ss) ∧
    (observed (run k young ss) = expected k (reads ss) ↔ AtEvery (Undisturbed k young) ss) ∧
    ∀ ss', reads ss' = reads ss → AtEvery (Undisturbed k young) ss →
      AtEvery (Undisturbed k young) ss' →
      observed (run k young ss') = observed (run k young ss) := by
  have hobserved : ∀ ss, observed (run k young ss) = expected k (reads ss) ↔
      AtEvery (Undisturbed k young) ss := by
    intro ss
    rw [← current_run_iff, expected, ← strings_run k young ss, List.map_map, observed,
      List.map_inj_left]
    refine forall₂_congr fun a ha => ?_
    rw [Function.comp_apply, Prod.mk.injEq, MovingHeap.find_eq_some_iff]
    exact ⟨fun h => h.1.2, fun h => ⟨⟨inHeap_of_applied k young ss a ha, h⟩, rfl⟩⟩
  refine ⟨current_run_iff k young ss, hobserved ss, fun ss' hreads hss hss' => ?_⟩
  rw [(hobserved ss).mpr hss, (hobserved ss').mpr hss', hreads]

/-- One byte is read. -/
def oneByte : ReadEvent := ⟨1, lit "a", by decide⟩

/-- On the server a collection at the allocation of the first string leaves the C
variable behind; on the client one between `request` and the first read leaves the
field behind.  In both cases the closure is not found where it was, and the same read
runs it when the collector waits. -/
theorem not_schedule_independent :
    (observed (run .server true [.read oneByte false false]) = [(some closure, lit "a")] ∧
      observed (run .server true [.read oneByte true false]) = [(none, lit "a")]) ∧
    (observed (run .client true [.code false, .read oneByte false false])
        = [(some closure, lit "a")] ∧
      observed (run .client true [.code true, .read oneByte false false])
        = [(none, lit "a")]) := by decide

end Collection
