/-
# The fields of a response

What an operation does to each field of a response, and what a list of operations
leaves there: the value of the last assignment.
-/
import UvHttp.ResponseRun

variable {κ : Type}

/-! ## One operation -/

namespace Op

def assignsStatusCode : Op κ → Option ℤ
  | .statusCode n => some n
  | _ => none

def assignsContentType : Op κ → Option OString
  | .contentType s => some s
  | _ => none

/-- A `write` sets the flag, also when it was set. -/
def assignsWroteHeaders : Op κ → Option Bool
  | .write _ | .endConnection => some true
  | .wroteHeaders b => some b
  | _ => none

def assignsOnData : Op κ → Option (Callback κ)
  | .on .Data cb => some cb
  | _ => none

def assignsOnEnd : Op κ → Option (Callback κ)
  | .on .End cb => some cb
  | _ => none

/-- What an operation does to the header map. -/
def editHeaders : Op κ → StringMap OString → StringMap OString
  | .setHeader s v, map => map.insert s v
  | .headers m, _ => m
  | _, map => map

/-- What an operation does to one key of the header map. -/
def assignsHeader (k : OString) : Op κ → Option (Option OString)
  | .setHeader s v => if s = k then some (some v) else none
  | .headers m => some m[k]?
  | _ => none

/-- What an operation leaves under a name is what it assigns there, or what there was. -/
theorem getElem?_editHeaders (k : OString) (o : Op κ) (map : StringMap OString) :
    (o.editHeaders map)[k]? = (o.assignsHeader k).getD map[k]? := by
  cases o with
  | setHeader s v =>
    rw [editHeaders, assignsHeader, StringMap.getElem?_add]
    split_ifs <;> rfl
  | _ => rfl

end Op

/-- **What an operation does to a response**, field by field. -/
theorem applyOp_fst (now : Tm) (res : ResT κ) (o : Op κ) :
    (applyOp now res o).1 =
      { client := res.client
        statusCode := o.assignsStatusCode.getD res.statusCode
        contentType := o.assignsContentType.getD res.contentType
        headers := o.editHeaders res.headers
        wroteHeaders := o.assignsWroteHeaders.getD res.wroteHeaders
        onData := o.assignsOnData.getD res.onData
        onEnd := o.assignsOnEnd.getD res.onEnd } := by
  cases o with
  | write msg => rw [applyOp, write_eq]; rfl
  | endConnection => rw [applyOp, endConnection_eq]; rfl
  | on t cb => cases t <;> rfl
  | _ => rfl

/-- No operation changes the client of a response. -/
theorem client_applyOp (now : Tm) (res : ResT κ) (o : Op κ) :
    (applyOp now res o).1.client = res.client := by
  rw [applyOp_fst]

/-! ## A list of operations -/

/-- The value that the last assignment gives, or the one at the start. -/
def lastValue {α : Type} (assigns : Op κ → Option α) (start : α) (ops : List (Op κ)) : α :=
  ops.foldl (fun a o => (assigns o).getD a) start

section Fields

variable {α : Type} {assigns : Op κ → Option α}

/-- Without an assignment the value is the one at the start. -/
theorem lastValue_of_forall_eq_none {start : α} {ops : List (Op κ)}
    (hnone : ∀ o ∈ ops, assigns o = none) : lastValue assigns start ops = start := by
  induction ops generalizing start with
  | nil => rfl
  | cons o ops ih =>
    rw [lastValue, List.foldl_cons, hnone o List.mem_cons_self]
    exact ih fun o' ho' => hnone o' (List.mem_cons_of_mem _ ho')

/-- A value that was not there at the start was assigned. -/
theorem exists_assigns_of_lastValue_ne {start : α} {ops : List (Op κ)}
    (hne : lastValue assigns start ops ≠ start) :
    ∃ o ∈ ops, assigns o = some (lastValue assigns start ops) := by
  induction ops generalizing start with
  | nil => exact absurd rfl hne
  | cons o ops ih =>
    rw [lastValue, List.foldl_cons] at hne ⊢
    rw [← lastValue] at hne ⊢
    by_cases hrest : lastValue assigns ((assigns o).getD start) ops = (assigns o).getD start
    · refine ⟨o, List.mem_cons_self, ?_⟩
      rw [hrest] at hne ⊢
      cases ho : assigns o with
      | none => exact absurd (by rw [ho]; rfl) hne
      | some a => rfl
    · obtain ⟨o', ho', hassigns⟩ := ih hrest
      exact ⟨o', List.mem_cons_of_mem _ ho', hassigns⟩

/-- A field that every operation assigns, or leaves alone, ends up with the value of
the last assignment. -/
theorem field_afterOps (field : ResT κ → α) (now : Tm)
    (hstep : ∀ r o, field (applyOp now r o).1 = (assigns o).getD (field r)) (res : ResT κ)
    (ops : List (Op κ)) : field (afterOps now res ops) = lastValue assigns (field res) ops := by
  induction ops generalizing res with
  | nil => rfl
  | cons o ops ih =>
    rw [afterOps_cons, ih, hstep]
    rfl

variable (now : Tm) (res : ResT κ) (ops : List (Op κ))

/-- The client stays the one that was accepted. -/
theorem client_afterOps : (afterOps now res ops).client = res.client := by
  induction ops generalizing res with
  | nil => rfl
  | cons o ops ih => rw [afterOps_cons, ih, client_applyOp]

/-- The status code is the last one that was assigned. -/
theorem statusCode_afterOps :
    (afterOps now res ops).statusCode = lastValue Op.assignsStatusCode res.statusCode ops :=
  field_afterOps ResT.statusCode now (fun r o => by rw [applyOp_fst]) res ops

/-- The content type is the last one that was assigned. -/
theorem contentType_afterOps :
    (afterOps now res ops).contentType = lastValue Op.assignsContentType res.contentType ops :=
  field_afterOps ResT.contentType now (fun r o => by rw [applyOp_fst]) res ops

/-- The flag is what was assigned last, by a write, an end or the handler. -/
theorem wroteHeaders_afterOps :
    (afterOps now res ops).wroteHeaders
      = lastValue Op.assignsWroteHeaders res.wroteHeaders ops :=
  field_afterOps ResT.wroteHeaders now (fun r o => by rw [applyOp_fst]) res ops

/-- The callback in force for data is the last one that was registered. -/
theorem onData_afterOps :
    (afterOps now res ops).onData = lastValue Op.assignsOnData res.onData ops :=
  field_afterOps ResT.onData now (fun r o => by rw [applyOp_fst]) res ops

/-- The callback in force for the end is the last one that was registered. -/
theorem onEnd_afterOps :
    (afterOps now res ops).onEnd = lastValue Op.assignsOnEnd res.onEnd ops :=
  field_afterOps ResT.onEnd now (fun r o => by rw [applyOp_fst]) res ops

/-- Under each name of a header is what was assigned there last. -/
theorem header_afterOps (k : OString) :
    (afterOps now res ops).headers[k]? = lastValue (Op.assignsHeader k) res.headers[k]? ops := by
  refine field_afterOps (fun r => r.headers[k]?) now (fun r o => ?_) res ops
  show (applyOp now r o).1.headers[k]? = _
  rw [applyOp_fst]
  exact Op.getElem?_editHeaders k o r.headers

end Fields
