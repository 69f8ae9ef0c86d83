/-
# The C stubs

What the read callbacks of `libuv_c.c` do with memory and with the OCaml closure
they are registered with.  A stub is a program over a record of what can be seen
of it; a fault or an exception ends it, and the process with it.  Sizes are machine
words, and the conversion of a signed result to a size is the one the compiler inserts.
-/
import UvHttp.Ocaml
import UvHttp.RefProgram

/-! ## Stubs and faults -/

/-- An OCaml value as a stub passes it on: an immediate or a string. -/
inductive Value where
  | int (n : ℤ)
  | string (s : OString)
  deriving DecidableEq

/-- `Val_unit`, which is the immediate `0`. -/
def Value.unit : Value := .int 0

/-- Ways in which C code goes wrong. -/
inductive Fault where
  | outOfBounds
  | nullDereference
  | useAfterFree
  | useAfterReturn
  | badApplication
  deriving DecidableEq

/-- A call of a client function into libuv. -/
inductive ClientCall where
  | uvTcpConnect (dest : OString)
  | uvReadStart
  | uvWrite (s : OString)
  | uvShutdown
  deriving DecidableEq

/-- How a stub ends before it returns, and the process with it: by a fault, or with an
exception that goes past it. -/
inductive Stop where
  | fault (f : Fault)
  | raised (x : Exn)
  deriving DecidableEq

/-- What can be seen of the stubs: every copy that is asked for, its length with the size
of its source, the arguments of every application of the closure, those with which
its body was run, and the calls into libuv. -/
structure StubTrace where
  copies : List (ℕ × ℕ)
  applied : List (List Value)
  bodies : List (List Value)
  calls : List ClientCall

namespace StubTrace

/-- Nothing has happened. -/
def empty : StubTrace := ⟨[], [], [], []⟩

def copiesRef : Ref StubTrace (List (ℕ × ℕ)) := ⟨copies, fun a t => { t with copies := a }⟩

def appliedRef : Ref StubTrace (List (List Value)) :=
  ⟨applied, fun a t => { t with applied := a }⟩

def bodiesRef : Ref StubTrace (List (List Value)) := ⟨bodies, fun a t => { t with bodies := a }⟩

def callsRef : Ref StubTrace (List ClientCall) := ⟨calls, fun a t => { t with calls := a }⟩

end StubTrace

open StubTrace

/-- A stub. -/
abbrev Stub := EStateM Stop StubTrace

/-- `Max_wosize`: no block has more words. -/
def maxWosize : ℕ := 2 ^ 54 - 1

/-- `caml_alloc_initialized_string`: a block for `len` bytes and the padding behind them,
and the `len` bytes copied from `p`, whatever the size of what `p` points to. -/
def camlAllocInitializedString (len : UInt64) (p : OString) : Stub OString := do
  copiesRef.update (· ++ [(len.toNat, p.length)])
  -- what is in memory has a block of its size
  if len.toNat ≤ p.length then pure (p.take len.toNat)
  -- the allocation comes first, and its number of words wraps around
  else if maxWosize < ((len + 8) / 8).toNat then throw (.raised .outOfMemory)
  else throw (.fault .outOfBounds)

/-- Application of a closure whose body takes `arity` arguments.  With fewer the
result is a partial application, and no body is run. -/
def apply (arity : ℕ) (args : List Value) : Stub Unit := do
  appliedRef.update (· ++ [args])
  if args.length < arity then pure ()
  -- with more, the result of the body, a unit value, would be applied
  else if args.length = arity then bodiesRef.update (· ++ [args])
  else throw (.fault .badApplication)

/-- `caml_callback`. -/
def camlCallback (arity : ℕ) (arg : Value) : Stub Unit := apply arity [arg]

/-- `caml_callback2`. -/
def camlCallback2 (arity : ℕ) (arg₁ arg₂ : Value) : Stub Unit := apply arity [arg₁, arg₂]

/-! ## Reads -/

/-- One call of a read callback: the result of the read and the bytes of the
buffer, at least as many as were read. -/
structure ReadEvent where
  nread : Int64
  base : OString
  fits : nread.toInt ≤ base.length

/-- `UV_EOF`. -/
def uvEof : Int64 := -4095

/-- The peer closes the connection. -/
def peerCloses : ReadEvent := ⟨uvEof, [], by decide⟩

/-- The string literal `""`, one byte in memory. -/
def emptyLiteral : OString := [0]

/-- `read_cb`. -/
def readCb (cb : ℕ) (e : ReadEvent) : Stub Unit := do
  if e.nread < 0 then
    -- the error code itself is the length
    let str ← camlAllocInitializedString e.nread.toUInt64 emptyLiteral
    camlCallback cb (.string str)
  else if e.nread = 0 then
    pure ()
  else
    let str ← camlAllocInitializedString e.nread.toUInt64 e.base
    camlCallback cb (.string str)

/-- `client_read_cb`. -/
def clientReadCb (cb : ℕ) (e : ReadEvent) : Stub Unit := do
  if e.nread < 0 then
    camlCallback cb (.string [])
  else if e.nread = 0 then
    pure ()
  else
    let str ← camlAllocInitializedString e.nread.toUInt64 e.base
    camlCallback cb (.string str)

namespace ReadEvent

/-- The bytes that were read. -/
def bytes (e : ReadEvent) : OString := e.base.take e.nread.toUInt64.toNat

end ReadEvent

/-! ## Sizes -/

/-- A result that is no error keeps its value as a size. -/
theorem toNat_toUInt64_of_nonneg {n : Int64} (hn : 0 ≤ n) : (n.toUInt64.toNat : ℤ) = n.toInt := by
  have h0 : 0 ≤ n.toInt := by simpa [Int64.le_iff_toInt_le] using hn
  have hlt := n.toUInt64.toNat_lt
  have hcond := BitVec.toInt_eq_toNat_cond n.toBitVec
  rw [Int64.toNat_toBitVec, Int64.toInt_toBitVec] at hcond
  split at hcond <;> omega

/-- An error wraps around. -/
theorem toNat_toUInt64_of_neg {n : Int64} (hn : n < 0) :
    (n.toUInt64.toNat : ℤ) = n.toInt + 2 ^ 64 := by
  have h0 : n.toInt < 0 := by simpa [Int64.lt_iff_toInt_lt] using hn
  have hcond := BitVec.toInt_eq_toNat_cond n.toBitVec
  rw [Int64.toNat_toBitVec, Int64.toInt_toBitVec] at hcond
  split at hcond <;> omega

/-- An error becomes a size that no buffer has. -/
theorem le_toNat_toUInt64_of_neg {n : Int64} (hn : n < 0) : 2 ^ 63 ≤ n.toUInt64.toNat := by
  have hwrap := toNat_toUInt64_of_neg hn
  have := n.le_toInt
  omega

/-- What was read fits the buffer. -/
theorem ReadEvent.toNat_le (e : ReadEvent) (hn : 0 ≤ e.nread) :
    e.nread.toUInt64.toNat ≤ e.base.length := by
  have hfits := e.fits
  have := toNat_toUInt64_of_nonneg hn
  omega

/-! ## What the read callbacks do -/

section Specs

variable {cb : ℕ} {e : ReadEvent} {t : StubTrace}

/-- A copy within bounds. -/
theorem camlAllocInitializedString_of_le {len : UInt64} {p : OString}
    (h : len.toNat ≤ p.length) :
    camlAllocInitializedString len p t = .ok (p.take len.toNat)
      { t with copies := t.copies ++ [(len.toNat, p.length)] } := by
  rw [camlAllocInitializedString, EStateM.bind_ok (Ref.update_apply _ _ _), if_pos h]
  rfl

/-- How an allocation ends that is asked for the bytes of an error code: there are blocks of
that size, of no words, for `-8` to `-1` only. -/
def errorStop (n : Int64) : Stop := if n < -8 then .raised .outOfMemory else .fault .outOfBounds

/-- The words of a block for the bytes of an error code. -/
theorem maxWosize_lt_iff {n : Int64} (hn : n < 0) :
    maxWosize < ((n.toUInt64 + 8) / 8).toNat ↔ n < -8 := by
  have hwrap := toNat_toUInt64_of_neg hn
  have hmin := n.le_toInt
  have h0 : n.toInt < 0 := by simpa [Int64.lt_iff_toInt_lt] using hn
  have hsize : ((n.toUInt64 + 8) / 8).toNat = (n.toUInt64.toNat + 8) % 2 ^ 64 / 8 := by
    rw [UInt64.toNat_div, UInt64.toNat_add]
    rfl
  rw [hsize, maxWosize, Int64.lt_iff_toInt_lt]
  show _ ↔ n.toInt < -8
  omega

/-- A copy of the bytes of an error code. -/
theorem camlAllocInitializedString_of_neg {n : Int64} (hn : n < 0) {p : OString}
    (hp : p.length < n.toUInt64.toNat) :
    camlAllocInitializedString n.toUInt64 p t = .error (errorStop n)
      { t with copies := t.copies ++ [(n.toUInt64.toNat, p.length)] } := by
  rw [camlAllocInitializedString, EStateM.bind_ok (Ref.update_apply _ _ _),
    if_neg (Nat.not_le.mpr hp), errorStop]
  by_cases hwords : n < -8
  · rw [if_pos ((maxWosize_lt_iff hn).mpr hwords), if_pos hwords]
    rfl
  · rw [if_neg fun h => hwords ((maxWosize_lt_iff hn).mp h), if_neg hwords]
    rfl

/-- Enough arguments run the body. -/
theorem apply_of_length_eq {args : List Value} (h : args.length = cb) :
    apply cb args t = .ok ()
      { t with applied := t.applied ++ [args], bodies := t.bodies ++ [args] } := by
  rw [apply, EStateM.bind_ok (Ref.update_apply _ _ _), if_neg (by omega), if_pos h]
  rfl

/-- Fewer do not. -/
theorem apply_of_length_lt {args : List Value} (h : args.length < cb) :
    apply cb args t = .ok () { t with applied := t.applied ++ [args] } := by
  rw [apply, EStateM.bind_ok (Ref.update_apply _ _ _), if_pos h]
  rfl

theorem readCb_of_neg (hn : e.nread < 0) :
    readCb cb e t = .error (errorStop e.nread)
      { t with copies := t.copies ++ [(e.nread.toUInt64.toNat, 1)] } := by
  have hlt : emptyLiteral.length < e.nread.toUInt64.toNat := by
    have := le_toNat_toUInt64_of_neg hn
    have hlen : emptyLiteral.length = 1 := rfl
    omega
  rw [readCb, if_pos hn, EStateM.bind_error (camlAllocInitializedString_of_neg hn hlt)]
  rfl

theorem readCb_of_zero (hn : e.nread = 0) : readCb cb e t = .ok () t := by
  rw [readCb, if_neg (by rw [hn]; decide), if_pos hn]
  rfl

theorem readCb_of_pos (hn : 0 < e.nread) :
    readCb cb e t = camlCallback cb (.string e.bytes)
      { t with copies := t.copies ++ [(e.nread.toUInt64.toNat, e.base.length)] } := by
  have hle := e.toNat_le (Int64.le_of_lt hn)
  have hne : e.nread ≠ 0 := by
    intro h0
    rw [h0] at hn
    exact absurd hn (by decide)
  rw [readCb, if_neg (Int64.not_lt.mpr (Int64.le_of_lt hn)), if_neg hne,
    EStateM.bind_ok (camlAllocInitializedString_of_le hle)]
  rfl

/-- On a result that is no error the two callbacks do the same. -/
theorem clientReadCb_of_nonneg (hn : 0 ≤ e.nread) :
    clientReadCb cb e t = readCb cb e t := by
  rw [clientReadCb, readCb, if_neg (Int64.not_lt.mpr hn), if_neg (Int64.not_lt.mpr hn)]

end Specs
