/-
# OCaml values used by the server

Strings as byte strings, decimal and hexadecimal printing as `string_of_int`
and `Printf` do it, string maps, and the exceptions of the standard library.
-/
import UvHttp.Numeral

/-! ## Strings -/

/-- An OCaml string is a sequence of bytes. -/
abbrev OString := List UInt8

/-- The bytes of an ASCII literal of the source. -/
def lit (s : String) : OString := s.toList.map fun c => UInt8.ofNat c.toNat

/-- Line feed, `"\n"`. -/
def lf : UInt8 := 10

/-- Carriage return, `"\r"`. -/
def cr : UInt8 := 13

/-- `"\r\n"`. -/
def crlf : OString := [cr, lf]

theorem lit_lf : lit "\n" = [lf] := by decide

theorem lit_space : lit " " = [32] := by decide

theorem lit_colon_space : lit ": " = [58, 32] := by decide

/-! ## Numbers as text -/

/-- Decimal digits. -/
def decimal : Digits UInt8 where
  base := 10
  one_lt_base := by decide
  sym := fun d => UInt8.ofNat (48 + d)
  val := fun c => if 48 ≤ c ∧ c ≤ 57 then some (c.toNat - 48) else none
  val_sym := by decide

/-- Hexadecimal digits: printed in upper case as `%X` does, read in either case. -/
def hexadecimal : Digits UInt8 where
  base := 16
  one_lt_base := by decide
  sym := fun d => if d < 10 then UInt8.ofNat (48 + d) else UInt8.ofNat (55 + d)
  val := fun c =>
    if 48 ≤ c ∧ c ≤ 57 then some (c.toNat - 48)
    else if 65 ≤ c ∧ c ≤ 70 then some (c.toNat - 55)
    else if 97 ≤ c ∧ c ≤ 102 then some (c.toNat - 87)
    else none
  val_sym := by decide

/-- `string_of_int`, also `%d`. -/
def stringOfInt : ℤ → OString
  | .ofNat n => decimal.print n
  | .negSucc n => 45 :: decimal.print (n + 1)

/-- `%02d` of a natural number. -/
def twoDigits (n : ℕ) : OString :=
  if n < 10 then 48 :: decimal.print n else decimal.print n

/-- `%X` of a length. -/
def upperHex (n : ℕ) : OString := hexadecimal.print n

/-- A carriage return is no digit. -/
theorem cr_not_hex : hexadecimal.isDigit cr = false := by decide

/-- A line feed is no digit. -/
theorem lf_not_decimal : decimal.isDigit lf = false := by decide

/-- There are only digits in a number. -/
theorem notMem_decimal {c : UInt8} (hc : decimal.isDigit c = false) (n : ℕ) :
    c ∉ decimal.print n := fun h => by
  have := decimal.isDigit_of_mem_print h
  rw [hc] at this
  exact absurd this (by decide)

/-- There are only digits and a sign in an integer. -/
theorem notMem_stringOfInt {c : UInt8} (hc : decimal.isDigit c = false) (hsign : c ≠ 45) (n : ℤ) :
    c ∉ stringOfInt n := by
  cases n with
  | ofNat n => exact notMem_decimal hc n
  | negSucc n =>
    simp only [stringOfInt, List.mem_cons, not_or]
    exact ⟨hsign, notMem_decimal hc (n + 1)⟩

/-- Padding adds digits only. -/
theorem notMem_twoDigits {c : UInt8} (hc : decimal.isDigit c = false) (n : ℕ) :
    c ∉ twoDigits n := by
  have h0 : c ≠ 48 := by
    rintro rfl
    exact absurd hc (by decide)
  unfold twoDigits
  split_ifs with hn
  · simp only [List.mem_cons, not_or]
    exact ⟨h0, notMem_decimal hc n⟩
  · exact notMem_decimal hc n

/-- A printed integer stays on its line. -/
theorem lf_notMem_stringOfInt (n : ℤ) : lf ∉ stringOfInt n :=
  notMem_stringOfInt lf_not_decimal (by decide) n

/-- There is no line feed in a padded number. -/
theorem lf_notMem_twoDigits (n : ℕ) : lf ∉ twoDigits n := notMem_twoDigits lf_not_decimal n

/-! ## String maps -/

/-- `Map.Make(String)`: keys are ordered bytewise. -/
abbrev StringMap (α : Type) := Std.ExtTreeMap OString α

/-- A lookup after `add`: the order of the keys decides their equality. -/
theorem StringMap.getElem?_add {α : Type} (map : StringMap α) (s k : OString) (v : α) :
    (map.insert s v)[k]? = if s = k then some v else map[k]? := by
  rw [Std.ExtTreeMap.getElem?_insert]
  by_cases hs : s = k
  · simp [hs]
  · have hne : compare s k ≠ .eq := fun h => hs (Std.LawfulEqOrd.eq_of_compare h)
    rw [if_neg hne, if_neg hs]

/-- The list of a map has its bindings. -/
theorem StringMap.mem_toList_iff {α : Type} {map : StringMap α} {p : OString × α} :
    p ∈ map.toList ↔ map[p.1]? = some p.2 :=
  Std.ExtTreeMap.mem_toList_iff_getElem?_eq_some

/-- The bindings, last key first. -/
theorem StringMap.mem_reverse_toList_iff {α : Type} {map : StringMap α} {p : OString × α} :
    p ∈ map.toList.reverse ↔ map[p.1]? = some p.2 :=
  List.mem_reverse.trans StringMap.mem_toList_iff

/-- Bindings in the ascending order of their keys. -/
def InKeyOrder {α : Type} (l : List (OString × α)) : Prop :=
  l.Pairwise fun p q => compare p.1 q.1 = .lt

/-- Lists in the order of their keys have no duplicates. -/
theorem InKeyOrder.nodup {α : Type} {l : List (OString × α)} (hl : InKeyOrder l) : l.Nodup :=
  List.Pairwise.imp (fun {p q} hlt heq => by
    rw [heq] at hlt
    simp at hlt) hl

/-- In the order of their keys the same bindings are the same list. -/
theorem InKeyOrder.eq_of_mem_iff {α : Type} {l l' : List (OString × α)} (hl : InKeyOrder l)
    (hl' : InKeyOrder l') (hmem : ∀ p, p ∈ l ↔ p ∈ l') : l = l' := by
  refine ((List.perm_ext_iff_of_nodup hl.nodup hl'.nodup).mpr hmem).eq_of_pairwise
    (fun p q _ _ hpq hqp => ?_) hl hl'
  have := Std.OrientedCmp.gt_of_lt hpq
  rw [hqp] at this
  cases this

/-- A key occurs once. -/
theorem InKeyOrder.ne_of_mem {α : Type} {ps qs : List (OString × α)} {k : OString} {v : α}
    (h : InKeyOrder (ps ++ (k, v) :: qs)) {q : OString × α} (hq : q ∈ ps ++ qs) : q.1 ≠ k := by
  have hirrefl : compare k k ≠ .lt := by simp
  rw [InKeyOrder, List.pairwise_append, List.pairwise_cons] at h
  intro heq
  rcases List.mem_append.mp hq with hq | hq
  · exact hirrefl (heq ▸ h.2.2 q hq (k, v) List.mem_cons_self)
  · exact hirrefl (heq ▸ h.2.1.1 q hq)

/-- Another value under a key leaves the order what it was. -/
theorem InKeyOrder.replace {α : Type} {ps qs : List (OString × α)} {k : OString} {v : α}
    (h : InKeyOrder (ps ++ (k, v) :: qs)) (w : α) : InKeyOrder (ps ++ (k, w) :: qs) := by
  have hmap : (ps ++ (k, w) :: qs).map Prod.fst = (ps ++ (k, v) :: qs).map Prod.fst := by simp
  rw [InKeyOrder, ← List.pairwise_map (f := Prod.fst) (R := fun a b => compare a b = .lt)] at h ⊢
  rw [hmap]
  exact h

/-- The list of a map is in the order of the keys. -/
theorem StringMap.inKeyOrder_toList {α : Type} (map : StringMap α) : InKeyOrder map.toList :=
  Std.ExtTreeMap.ordered_keys_toList

/-- The bindings after `add`. -/
theorem StringMap.mem_toList_add {α : Type} (map : StringMap α) (k : OString) (w : α)
    (p : OString × α) :
    p ∈ (map.insert k w).toList ↔ p = (k, w) ∨ p.1 ≠ k ∧ p ∈ map.toList := by
  rw [StringMap.mem_toList_iff, StringMap.getElem?_add, StringMap.mem_toList_iff]
  split_ifs with hp
  · constructor
    · intro hw
      exact .inl (Prod.ext hp.symm (Option.some.inj hw).symm)
    · rintro (rfl | ⟨hne, -⟩)
      · rfl
      · exact absurd hp.symm hne
  · constructor
    · intro hmem
      exact .inr ⟨Ne.symm hp, hmem⟩
    · rintro (rfl | ⟨-, hmem⟩)
      · exact absurd rfl hp
      · exact hmem

/-- A binding that is replaced keeps its place. -/
theorem StringMap.toList_add {α : Type} {map : StringMap α} {k : OString} {v : α}
    (h : map[k]? = some v) (w : α) :
    ∃ ps qs, map.toList = ps ++ (k, v) :: qs ∧ (map.insert k w).toList = ps ++ (k, w) :: qs ∧
      ∀ q ∈ qs, q.1 ≠ k := by
  obtain ⟨ps, qs, hsplit⟩ :=
    List.append_of_mem (StringMap.mem_toList_iff (p := (k, v)).mpr h)
  have horder := map.inKeyOrder_toList
  rw [hsplit] at horder
  have hmem : ∀ p, p ∈ (map.insert k w).toList ↔ p ∈ ps ++ (k, w) :: qs := by
    intro p
    rw [StringMap.mem_toList_add, hsplit, List.perm_middle.mem_iff, List.perm_middle.mem_iff,
      List.mem_cons, List.mem_cons]
    refine or_congr_right ⟨?_, fun hp => ⟨horder.ne_of_mem hp, .inr hp⟩⟩
    rintro ⟨hne, rfl | hp⟩
    · exact absurd rfl hne
    · exact hp
  exact ⟨ps, qs, hsplit,
    (StringMap.inKeyOrder_toList _).eq_of_mem_iff (horder.replace w) hmem,
    fun q hq => horder.ne_of_mem (List.mem_append_right ps hq)⟩

/-! ## Exceptions and lists -/

/-- The exceptions that the server code and the OCaml runtime raise. -/
inductive Exn where
  | invalidArgument (msg : String)
  | outOfMemory
  deriving DecidableEq, Repr

/-- Code that may raise and that changes a store of type `S`; what it changed
before raising stays changed. -/
abbrev Ocaml (S : Type) := EStateM Exn S

/-- `List.fold_left2`: it raises when one list ends before the other. -/
def foldLeft2 {α β γ : Type} (f : β → α → γ → β) : β → List α → List γ → Except Exn β
  | acc, [], [] => .ok acc
  | acc, a :: as, c :: cs => foldLeft2 f (f acc a c) as cs
  | _, _, _ => .error (.invalidArgument "List.fold_left2")

/-- On lists of equal length `fold_left2` folds over the pairs. -/
theorem foldLeft2_of_length_eq {α β γ : Type} (f : β → α → γ → β) (acc : β) (as : List α)
    (cs : List γ) (h : as.length = cs.length) :
    foldLeft2 f acc as cs = .ok ((as.zip cs).foldl (fun b p => f b p.1 p.2) acc) := by
  induction as generalizing acc cs with
  | nil =>
    cases cs with
    | nil => rfl
    | cons c cs => simp at h
  | cons a as ih =>
    cases cs with
    | nil => simp at h
    | cons c cs => exact ih (f acc a c) cs (by simpa using h)

/-- On lists of different lengths `fold_left2` raises. -/
theorem foldLeft2_of_length_ne {α β γ : Type} (f : β → α → γ → β) (acc : β) (as : List α)
    (cs : List γ) (h : as.length ≠ cs.length) :
    foldLeft2 f acc as cs = .error (.invalidArgument "List.fold_left2") := by
  induction as generalizing acc cs with
  | nil =>
    cases cs with
    | nil => simp at h
    | cons c cs => rfl
  | cons a as ih =>
    cases cs with
    | nil => rfl
    | cons c cs => exact ih (f acc a c) cs (by simpa using h)
