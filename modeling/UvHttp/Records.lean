/-
# Records with terminators

Text made of records that end in a terminator, as a reader takes it apart that does not
mind when the last terminator is missing.  Put together again with separators, the
records give the text back without its last terminator.
-/
import Mathlib.Data.List.Basic
import Mathlib.Tactic.SplitIfs

variable {α : Type} [DecidableEq α] (sep : α)

/-- The records of a text: the pieces between the terminators, and what follows the last
one unless nothing does. -/
def records (xs : List α) : List (List α) :=
  if xs = [] ∨ xs.getLast? = some sep then (xs.splitOn sep).dropLast else xs.splitOn sep

/-- The text without a terminator at its end. -/
def dropFinal (xs : List α) : List α := if xs.getLast? = some sep then xs.dropLast else xs

variable {sep}

@[simp] theorem records_nil : records sep [] = [] := by
  rw [records, if_pos (.inl rfl), List.splitOn_nil]
  rfl

/-- The first record of a text with a terminator. -/
theorem records_append_cons {l : List α} (hl : sep ∉ l) (rest : List α) :
    records sep (l ++ sep :: rest) = l :: records sep rest := by
  have hsplit := List.splitOn_append_cons_self_of_not_mem hl rest
  have hne := List.splitOn_ne_nil sep rest
  have hlast : (l ++ sep :: rest = [] ∨ (l ++ sep :: rest).getLast? = some sep) ↔
      (rest = [] ∨ rest.getLast? = some sep) := by
    cases rest with
    | nil => simp
    | cons x xs => simp [List.getLast?_append]
  unfold records
  rw [hsplit]
  split_ifs with h h' h'
  · rw [List.dropLast_cons_of_ne_nil hne]
  · exact absurd (hlast.mp h) h'
  · exact absurd (hlast.mpr h') h
  · rfl

/-- A text without terminators is one record. -/
theorem records_of_notMem {l : List α} (hl : sep ∉ l) (hne : l ≠ []) : records sep l = [l] := by
  rw [records, if_neg, List.splitOn_eq_singleton hl]
  rintro (h | h)
  · exact hne h
  · exact hl (List.mem_of_getLast? h)

/-- **Joined again**: the records with separators between them are the text without its
final terminator. -/
theorem intercalate_records (xs : List α) :
    [sep].intercalate (records sep xs) = dropFinal sep xs := by
  by_cases hlast : xs.getLast? = some sep
  · obtain ⟨ys, rfl⟩ := List.getLast?_eq_some_iff.mp hlast
    have hsplit := List.splitOn_append_cons_self (a := sep) ys []
    rw [records, if_pos (.inr hlast), dropFinal, if_pos hlast, hsplit, List.splitOn_nil,
      List.dropLast_concat, List.dropLast_concat, List.intercalate_splitOn]
  · rw [dropFinal, if_neg hlast]
    by_cases hnil : xs = []
    · rw [hnil, records_nil, List.intercalate_nil]
    · rw [records, if_neg (not_or.mpr ⟨hnil, hlast⟩), List.intercalate_splitOn]

/-- Nothing is lost exactly when there is no terminator at the end. -/
theorem dropFinal_eq_self_iff (xs : List α) : dropFinal sep xs = xs ↔ xs.getLast? ≠ some sep := by
  unfold dropFinal
  split_ifs with hlast
  · obtain ⟨ys, rfl⟩ := List.getLast?_eq_some_iff.mp hlast
    simp
  · exact iff_of_true rfl hlast
