/-
# Positional numerals over an arbitrary symbol type

Printing a natural number in a fixed base, most significant digit first, and
reading it back.  The digit symbols are a parameter, so that decimal and
hexadecimal text are two instances of one theory.
-/
import Mathlib

/-- A digit alphabet for a base: every digit has a symbol, and the symbol
determines the digit. -/
structure Digits (α : Type*) where
  base : ℕ
  one_lt_base : 1 < base
  sym : ℕ → α
  val : α → Option ℕ
  val_sym : ∀ d, d < base → val (sym d) = some d

namespace Digits

variable {α : Type*} (D : Digits α)

/-! ## Printing -/

/-- The numeral of `n`: no leading zeros, a single zero digit for `0`. -/
def print (n : ℕ) : List α :=
  if n = 0 then [D.sym 0] else (Nat.digits D.base n).reverse.map D.sym

/-- The symbol `c` stands for a digit. -/
def isDigit (c : α) : Bool := (D.val c).isSome

theorem print_zero : D.print 0 = [D.sym 0] := by simp [print]

theorem print_of_pos {n : ℕ} (hn : 0 < n) :
    D.print n = (Nat.digits D.base n).reverse.map D.sym := by
  simp [print, hn.ne']

theorem isDigit_sym {d : ℕ} (hd : d < D.base) : D.isDigit (D.sym d) = true := by
  simp [isDigit, D.val_sym d hd]

theorem print_ne_nil (n : ℕ) : D.print n ≠ [] := by
  unfold print
  split_ifs with hn
  · simp
  · simp [Nat.digits_eq_nil_iff_eq_zero, hn]

/-- A number between two powers of the base has as many digits as the larger one has
zeros. -/
theorem length_print {n k : ℕ} (hle : D.base ^ k ≤ n) (hlt : n < D.base ^ (k + 1)) :
    (D.print n).length = k + 1 := by
  have hbase := D.one_lt_base
  have hpos : 0 < n := lt_of_lt_of_le (Nat.pow_pos (by omega)) hle
  rw [print_of_pos D hpos, List.length_map, List.length_reverse,
    Nat.length_digits D.base n hbase hpos.ne', Nat.log_eq_of_pow_le_of_lt_pow hle hlt]

/-- A numeral consists of digit symbols. -/
theorem isDigit_of_mem_print {n : ℕ} {c : α} (hc : c ∈ D.print n) : D.isDigit c = true := by
  rcases Nat.eq_zero_or_pos n with rfl | hn
  · rw [print_zero, List.mem_singleton] at hc
    rw [hc]
    exact D.isDigit_sym (by have := D.one_lt_base; omega)
  · rw [print_of_pos D hn, List.mem_map] at hc
    obtain ⟨d, hd, rfl⟩ := hc
    exact D.isDigit_sym (Nat.digits_lt_base D.one_lt_base (List.mem_reverse.mp hd))

/-! ## Reading -/

/-- The value of a list of symbols, read from the most significant digit on. -/
def value (cs : List α) : ℕ :=
  cs.foldl (fun acc c => D.base * acc + (D.val c).getD 0) 0

/-- The numeral at the start of the input (at least one digit) and what follows
it. -/
def read (s : List α) : Option (ℕ × List α) :=
  let ds := s.takeWhile D.isDigit
  if ds.isEmpty then none else some (D.value ds, s.dropWhile D.isDigit)

/-- A numeral of exactly `k` digits at the start of the input, and what follows it. -/
def readFixed (k : ℕ) (s : List α) : Option (ℕ × List α) :=
  if (s.take k).length = k ∧ (s.take k).all D.isDigit then some (D.value (s.take k), s.drop k)
  else none

theorem value_map_sym_reverse (ds : List ℕ) (hds : ∀ d ∈ ds, d < D.base) :
    D.value (ds.reverse.map D.sym) = Nat.ofDigits D.base ds := by
  unfold value
  induction ds with
  | nil => simp
  | cons d ds ih =>
    have hd : D.val (D.sym d) = some d := D.val_sym d (hds d List.mem_cons_self)
    rw [List.reverse_cons, List.map_append, List.foldl_append,
      ih (fun e he => hds e (List.mem_cons_of_mem d he)), Nat.ofDigits_cons]
    simp [hd, Nat.add_comm]

/-- Reading a numeral gives back the printed number. -/
theorem value_print (n : ℕ) : D.value (D.print n) = n := by
  rcases Nat.eq_zero_or_pos n with rfl | hn
  · have h0 : D.val (D.sym 0) = some 0 := D.val_sym 0 (by have := D.one_lt_base; omega)
    simp [print_zero, value, h0]
  · rw [print_of_pos D hn, value_map_sym_reverse D _ fun d hd =>
      Nat.digits_lt_base D.one_lt_base hd, Nat.ofDigits_digits]

/-- A numeral followed by something that is not a digit is read back, and
reading stops exactly behind it. -/
theorem read_print_append (n : ℕ) (rest : List α)
    (hrest : ∀ c, rest.head? = some c → D.isDigit c = false) :
    D.read (D.print n ++ rest) = some (n, rest) := by
  have hdig : ∀ c ∈ D.print n, D.isDigit c = true := fun c hc => D.isDigit_of_mem_print hc
  have htake : (D.print n ++ rest).takeWhile D.isDigit = D.print n := by
    rw [List.takeWhile_append_of_pos hdig]
    cases rest with
    | nil => simp
    | cons c cs => simp [hrest c rfl]
  have hdrop : (D.print n ++ rest).dropWhile D.isDigit = rest := by
    rw [List.dropWhile_append_of_pos hdig]
    cases rest with
    | nil => simp
    | cons c cs => simp [hrest c rfl]
  have hne : (D.print n).isEmpty = false := by simp [D.print_ne_nil n]
  simp only [read, htake, hdrop, hne, D.value_print n, Bool.false_eq_true, if_false]

/-- Symbols for as many digits as are asked for are read as their value. -/
theorem readFixed_append {k : ℕ} {ds : List α} (hlen : ds.length = k)
    (hds : ∀ c ∈ ds, D.isDigit c = true) (rest : List α) :
    D.readFixed k (ds ++ rest) = some (D.value ds, rest) := by
  have htake : (ds ++ rest).take k = ds := List.take_left' hlen
  have hdrop : (ds ++ rest).drop k = rest := List.drop_left' hlen
  rw [readFixed, htake, hdrop, if_pos ⟨hlen, List.all_eq_true.mpr hds⟩]

end Digits
