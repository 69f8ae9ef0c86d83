/-
# Values that break out of their line

`write` copies the content type and the values of the header map into the head as
they are.  Two responses that differ in one of them send heads that differ in one
field, as long as neither value has a line feed; a value with a line feed adds a field or
ends the head.
-/
import UvHttp.AnnouncedFraming

variable {κ : Type}

/-! ## Two heads that differ in one value -/

/-- The place of a value in the head: the content type, or the value of a key. -/
inductive Slot where
  | contentType
  | header (k : OString)

namespace Slot

/-- The value that a response has there. -/
def value (res : ResT κ) : Slot → Option OString
  | .contentType => some res.contentType
  | .header k => res.headers[k]?

/-- The response with another value there. -/
def replace (res : ResT κ) (v : OString) : Slot → ResT κ
  | .contentType => { res with contentType := v }
  | .header k => setHeader res k v

/-- The lines of some bindings. -/
def textOf (ps : List (OString × OString)) : OString := ps.flatMap fun p => fieldLine p ++ [lf]

/-- What the head has in front of the header map. -/
def opening (now : Tm) (res : ResT κ) : OString :=
  statusLine res ++ [lf] ++ lit "Content-type: " ++ res.contentType ++ [lf] ++ dateLine now ++ [lf]

/-- The head up to the name of the field, and the separator not included. -/
def upTo (now : Tm) (res : ResT κ) : Slot → OString
  | .contentType => statusLine res ++ [lf] ++ lit "Content-type"
  | .header k =>
    opening now res ++ textOf (res.headers.toList.reverse.takeWhile fun p => p.1 ≠ k) ++ k

/-- The head from the line after the value on, without the empty line. -/
def after (now : Tm) (res : ResT κ) : Slot → OString
  | .contentType => dateLine now ++ [lf] ++ textOf res.headers.toList.reverse
  | .header k => textOf ((res.headers.toList.reverse.dropWhile fun p => p.1 ≠ k).drop 1)

/-- The number of the field: the lines before it, less the status line. -/
def position (now : Tm) (res : ResT κ) (slot : Slot) : ℕ := (slot.upTo now res).count lf - 1

end Slot

/-- From both streams the client reads as many fields, with the same names, and the same
values but for the `i`-th, and the same body. -/
def DifferAtMostIn (i : ℕ) (s s' : OString) : Prop :=
  ∃ fields fields' body, readHead s = some (fields, body) ∧ readHead s' = some (fields', body) ∧
    fields'.length = fields.length ∧ fields'.map Prod.fst = fields.map Prod.fst ∧
    ∀ j, j ≠ i → fields'[j]? = fields[j]?

/-! ## The text around a value -/

namespace Slot

theorem headerLines_eq_textOf (headers : StringMap OString) :
    headerLines headers = textOf headers.toList.reverse ++ [lf] := by
  unfold headerLines textOf
  rw [Std.ExtTreeMap.foldl_eq_foldl_toList]
  induction headers.toList using List.reverseRecOn with
  | nil => rfl
  | append_singleton ps p ih =>
    rw [List.foldl_append, ih, List.reverse_append, List.reverse_singleton, List.flatMap_append,
      List.flatMap_singleton]
    simp [fieldLine]

theorem head_eq (now : Tm) (res : ResT κ) :
    head now res = opening now res ++ textOf res.headers.toList.reverse ++ [lf] := by
  rw [head, headerLines_eq_textOf]
  simp [opening, statusLine, dateLine]

/-- Bindings listed from the last key on, cut at a key that is not among the last ones. -/
theorem cut_at {k v : OString} {ps qs : List (OString × OString)} (hqs : ∀ q ∈ qs, q.1 ≠ k) :
    ((ps ++ (k, v) :: qs).reverse.takeWhile fun p => decide (p.1 ≠ k)) = qs.reverse ∧
      ((ps ++ (k, v) :: qs).reverse.dropWhile fun p => decide (p.1 ≠ k))
        = (k, v) :: ps.reverse := by
  have hrev : (ps ++ (k, v) :: qs).reverse = qs.reverse ++ (k, v) :: ps.reverse := by simp
  have hpos : ∀ q ∈ qs.reverse, decide (q.1 ≠ k) = true := fun q hq =>
    decide_eq_true (hqs q (List.mem_reverse.mp hq))
  constructor
  · rw [hrev, List.takeWhile_append_of_pos hpos, List.takeWhile_cons_of_neg (by simp),
      List.append_nil]
  · rw [hrev, List.dropWhile_append_of_pos hpos, List.dropWhile_cons_of_neg (by simp)]

/-- **The two heads**: the same text before and after the value. -/
theorem head_replace (now : Tm) {res : ResT κ} {slot : Slot} {v : OString}
    (hv : slot.value res = some v) (w : OString) :
    head now res = slot.upTo now res ++ lit ": " ++ v ++ lf :: (slot.after now res ++ [lf]) ∧
      head now (slot.replace res w)
        = slot.upTo now res ++ lit ": " ++ w ++ lf :: (slot.after now res ++ [lf]) := by
  rw [head_eq, head_eq]
  cases slot with
  | contentType =>
    obtain rfl := Option.some.inj hv
    simp [opening, upTo, after, replace, statusLine, contentTypeLine_eq, fieldLine]
  | header k =>
    obtain ⟨ps, qs, hlist, hinsert, hqs⟩ := StringMap.toList_add hv w
    have hopening : opening now (setHeader res k w) = opening now res := rfl
    have hbefore : textOf (qs.reverse ++ (k, v) :: ps.reverse)
        = textOf qs.reverse ++ k ++ lit ": " ++ v ++ lf :: textOf ps.reverse := by
      simp [textOf, fieldLine]
    have hbefore' : textOf (qs.reverse ++ (k, w) :: ps.reverse)
        = textOf qs.reverse ++ k ++ lit ": " ++ w ++ lf :: textOf ps.reverse := by
      simp [textOf, fieldLine]
    rw [replace, hopening, setHeader, hinsert, upTo, after, hlist, (cut_at hqs).1, (cut_at hqs).2]
    simp only [List.reverse_append, List.reverse_cons, List.append_assoc, List.drop_one,
      List.tail_cons, List.nil_append, hbefore, hbefore', List.cons_append, and_self]

/-- The name of the first field comes after the status line. -/
theorem lf_mem_upTo (now : Tm) (res : ResT κ) (slot : Slot) : lf ∈ slot.upTo now res := by
  cases slot <;> simp [upTo, opening]

/-- What comes after the value is read to the end of the head. -/
theorem exists_splitHead_after (now : Tm) (res : ResT κ) (slot : Slot) (body : OString) :
    ∃ p, splitHead (slot.after now res ++ lf :: body) = some p := by
  have htext : ∀ ps, ∃ p, splitHead (textOf ps ++ lf :: body) = some p := by
    intro ps
    induction ps with
    | nil =>
      have hblank : isBlank [] = true := by decide
      rw [textOf, List.flatMap_nil, splitHead_line [] body List.not_mem_nil, if_pos hblank]
      exact ⟨_, rfl⟩
    | cons p ps ih =>
      obtain ⟨q, hq⟩ := ih
      obtain ⟨q', hq', -⟩ := exists_splitHead_append hq (fieldLine p)
      refine ⟨q', ?_⟩
      rw [← hq', textOf, textOf, List.flatMap_cons]
      simp
  cases slot with
  | contentType =>
    obtain ⟨q, hq⟩ := htext res.headers.toList.reverse
    obtain ⟨q', hq', -⟩ := exists_splitHead_append hq (dateLine now)
    refine ⟨q', ?_⟩
    rw [← hq', after]
    simp
  | header k => exact htext _

end Slot

/-! ## Reading the field -/

theorem count_lf_unlines_append {ls : List OString} {l : OString} (hls : ∀ m ∈ ls, lf ∉ m)
    (hl : lf ∉ l) : (unlines ls ++ l).count lf = ls.length := by
  induction ls with
  | nil =>
    rw [unlines_nil, List.nil_append]
    exact List.count_eq_zero.mpr hl
  | cons m ls ih =>
    have hm : m.count lf = 0 := List.count_eq_zero.mpr (hls m List.mem_cons_self)
    have hrest := ih fun m hm => hls m (List.mem_cons_of_mem _ hm)
    rw [unlines_cons, List.append_assoc, List.cons_append, List.count_append, List.count_cons, hm,
      hrest, List.length_cons]
    simp

/-- The field with a value on one line, between the fields before it and those after
it. -/
theorem readHead_of_oneLine {ls : List OString} (hne : ls ≠ []) (hls : ∀ m ∈ ls, lf ∉ m)
    (hblank : ∀ m ∈ ls, isBlank m = false) {name value rest : OString} (hname : lf ∉ name)
    (hvalue : lf ∉ value) {p : List OString × OString} (hp : splitHead rest = some p) :
    readHead (unlines ls ++ name ++ lit ": " ++ value ++ lf :: rest)
      = some (ls.tail.map (fun l => splitField (stripCr l)) ++
          splitField (stripCr (fieldLine (name, value))) :: p.1.map splitField, p.2) := by
  have hline : lf ∉ fieldLine (name, value) := by
    simp only [fieldLine, List.mem_append, not_or]
    exact ⟨⟨hname, by decide⟩, hvalue⟩
  have hlong : isBlank (fieldLine (name, value)) = false := by
    apply isBlank_eq_false
    have : (lit ": ").length = 2 := by decide
    simp only [fieldLine, List.length_append]
    omega
  have hsplit : unlines ls ++ name ++ lit ": " ++ value ++ lf :: rest
      = unlines ls ++ (fieldLine (name, value) ++ lf :: rest) := by simp [fieldLine]
  obtain ⟨l, ls, rfl⟩ := List.exists_cons_of_ne_nil hne
  rw [readHead, hsplit, splitHead_unlines_append hls hblank, splitHead_line _ _ hline,
    if_neg (by rw [hlong]; exact Bool.false_ne_true), hp]
  simp [headFields, Function.comp_def]

/-- Lists that differ in one place. -/
theorem getElem?_append_cons_of_ne {α : Type} (as bs : List α) (x y : α) {j : ℕ}
    (hj : j ≠ as.length) : (as ++ x :: bs)[j]? = (as ++ y :: bs)[j]? := by
  rcases Nat.lt_or_gt_of_ne hj with hlt | hgt
  · rw [List.getElem?_append_left hlt, List.getElem?_append_left hlt]
  · obtain ⟨i, rfl⟩ : ∃ i, j = as.length + (i + 1) := ⟨j - as.length - 1, by omega⟩
    rw [List.getElem?_append_right (Nat.le_add_right _ _),
      List.getElem?_append_right (Nat.le_add_right _ _), Nat.add_sub_cancel_left,
      List.getElem?_cons_succ, List.getElem?_cons_succ]

section Replaced

variable {ls : List OString} (hne : ls ≠ []) (hls : ∀ m ∈ ls, lf ∉ m)
  (hblank : ∀ m ∈ ls, isBlank m = false) {name v w rest : OString} (hname : lf ∉ name)
  (hv : lf ∉ v) {p : List OString × OString} (hp : splitHead rest = some p)

include hne hls hblank hname hv hp

/-- Two values on one line each. -/
theorem differAtMostIn_of_oneLine (hw : lf ∉ w) :
    DifferAtMostIn ls.tail.length (unlines ls ++ name ++ lit ": " ++ v ++ lf :: rest)
      (unlines ls ++ name ++ lit ": " ++ w ++ lf :: rest) := by
  refine ⟨_, _, _, readHead_of_oneLine hne hls hblank hname hv hp,
    readHead_of_oneLine hne hls hblank hname hw hp, ?_, ?_, fun j hj => ?_⟩
  · simp
  · simp [splitField_stripCr_fst]
  · refine getElem?_append_cons_of_ne _ _ _ _ ?_
    rw [List.length_map]
    exact hj

/-- A value with a line feed adds a field or moves the end of the head. -/
theorem not_differAtMostIn_of_lf_mem (hw : lf ∈ w) (i : ℕ) :
    ¬ DifferAtMostIn i (unlines ls ++ name ++ lit ": " ++ v ++ lf :: rest)
      (unlines ls ++ name ++ lit ": " ++ w ++ lf :: rest) := by
  rintro ⟨fields, fields', body, hfields, hfields', hlength, -, -⟩
  obtain ⟨w₀, w₁, rfl, hw₀⟩ := List.eq_append_cons_of_mem hw
  obtain ⟨q, hq, hlonger⟩ := exists_splitHead_append hp w₁
  have hread' := readHead_of_oneLine hne hls hblank hname hw₀ hq
  rw [readHead_of_oneLine hne hls hblank hname hv hp] at hfields
  simp only [List.append_assoc, List.cons_append] at hread' hfields'
  rw [hread'] at hfields'
  obtain ⟨rfl, rfl⟩ := Prod.mk.inj (Option.some.inj hfields)
  obtain ⟨rfl, hbody⟩ := Prod.mk.inj (Option.some.inj hfields')
  simp only [List.length_append, List.length_cons, List.length_map] at hlength
  rcases hlonger with hlonger | hlonger
  · omega
  · rw [hbody] at hlonger
    exact Nat.lt_irrefl _ hlonger

end Replaced

/-- **The two streams**: the rest of the head and the body are common to them. -/
theorem Slot.firstWrite_replace (now : Tm) {res : ResT κ} (hnew : res.wroteHeaders = false)
    {slot : Slot} {v : OString} (hv : slot.value res = some v) (w msg : OString)
    (hframing : isChunked (slot.replace res w) = isChunked res) :
    firstWrite now res msg = slot.upTo now res ++ lit ": " ++ v ++
        lf :: (slot.after now res ++ lf :: if isChunked res then chunk msg else msg) ∧
      firstWrite now (slot.replace res w) msg = slot.upTo now res ++ lit ": " ++ w ++
        lf :: (slot.after now res ++ lf :: if isChunked res then chunk msg else msg) := by
  obtain ⟨hhead, hhead'⟩ := Slot.head_replace now hv w
  have hnew' : (slot.replace res w).wroteHeaders = false := by
    cases slot <;> exact hnew
  constructor
  · rw [firstWrite_eq now hnew, hhead]
    simp
  · rw [firstWrite_eq now hnew', hhead', hframing]
    simp

/-- A head whose values have no line feeds does not end before one of them. -/
theorem splitHead_upTo_of_wellFormed (now : Tm) {res : ResT κ} (hwf : res.WellFormed)
    {slot : Slot} {v : OString} (hv : slot.value res = some v) :
    splitHead (slot.upTo now res) = none := by
  cases hsplit : splitHead (slot.upTo now res) with
  | none => rfl
  | some p =>
    -- the head would end earlier than it does
    have hhead := splitHead_head_append hwf now []
    rw [List.append_nil, (Slot.head_replace now hv v).1, List.append_assoc, List.append_assoc,
      splitHead_append hsplit, Option.some.injEq, Prod.mk.injEq] at hhead
    have hlength := congrArg List.length hhead.2
    simp only [List.length_append, List.length_cons, List.length_nil] at hlength
    omega

/-- **A value may be replaced exactly by values without line feeds.**  The value of a
field is on one line, the head does not end before it, and the replacement leaves the
framing alone: then the client reads the same but for that field if and only if the
new value has no line feed. -/
theorem differAtMostIn_iff (now : Tm) (res : ResT κ) (hnew : res.wroteHeaders = false)
    (slot : Slot) (v w msg : OString) (hv : slot.value res = some v) (hlf : lf ∉ v)
    (hopen : splitHead (slot.upTo now res) = none)
    (hframing : isChunked (slot.replace res w) = isChunked res) :
    DifferAtMostIn (slot.position now res) (firstWrite now res msg)
      (firstWrite now (slot.replace res w) msg) ↔ lf ∉ w := by
  obtain ⟨ls, name, hupTo, hls, hname⟩ := exists_eq_unlines_append (slot.upTo now res)
  rw [hupTo] at hopen
  have hblank := isBlank_eq_false_of_splitHead_eq_none hls hopen
  have hne : ls ≠ [] := by
    rintro rfl
    have := Slot.lf_mem_upTo now res slot
    rw [hupTo] at this
    exact hname this
  have hposition : slot.position now res = ls.tail.length := by
    rw [Slot.position, hupTo, count_lf_unlines_append hls hname, List.length_tail]
  obtain ⟨p, hp⟩ := Slot.exists_splitHead_after now res slot
    (if isChunked res then chunk msg else msg)
  obtain ⟨hwrite, hwrite'⟩ := Slot.firstWrite_replace now hnew hv w msg hframing
  rw [hwrite, hwrite', hposition, hupTo]
  constructor
  · intro hdiffer hw
    exact not_differAtMostIn_of_lf_mem hne hls hblank hname hlf hp hw _ hdiffer
  · exact differAtMostIn_of_oneLine hne hls hblank hname hlf hp

/-- The fresh response, with another value under `Connection`. -/
theorem differAtMostIn_close :
    DifferAtMostIn ((Slot.header (lit "Connection")).position epoch (initialRes 0 : ResT Empty))
      (firstWrite epoch (initialRes 0 : ResT Empty) (lit "hi"))
      (firstWrite epoch (setHeader (initialRes 0 : ResT Empty) (lit "Connection")
        (lit "close: \r")) (lit "hi")) := by
  have hvalue : (Slot.header (lit "Connection")).value (initialRes 0 : ResT Empty)
      = some (lit "keep-alive") := by
    rw [Slot.value, getElem?_initialRes_headers, if_pos rfl]
  exact (differAtMostIn_iff epoch (initialRes 0 : ResT Empty) rfl (.header (lit "Connection"))
    (lit "keep-alive") (lit "close: \r") (lit "hi") hvalue (by decide)
    (splitHead_upTo_of_wellFormed epoch (initialRes_wellFormed 0) hvalue) (by decide)).mpr
    (by decide)

theorem DifferAtMostIn.length_body {i : ℕ} {s s' : OString} (h : DifferAtMostIn i s s') :
    (readHead s').map (fun p => (p.1.length, p.2))
      = (readHead s).map fun p => (p.1.length, p.2) := by
  obtain ⟨fields, fields', body, hs, hs', hlength, -, -⟩ := h
  rw [hs, hs', Option.map_some, Option.map_some, hlength]

/-- A value with a line feed adds a field; a content type with two of them ends the head;
another value under `Transfer-Encoding` changes the framing of the body; and behind a
blank line every change is one of the body. -/
theorem not_differAtMostIn :
    (∀ i, ¬ DifferAtMostIn i (firstWrite epoch (initialRes 0 : ResT Empty) (lit "hi"))
      (firstWrite epoch (setHeader (initialRes 0 : ResT Empty) (lit "Connection")
        (lit "close\nSet-Cookie: id=1")) (lit "hi"))) ∧
    (∀ i, ¬ DifferAtMostIn i (firstWrite epoch (initialRes 0 : ResT Empty) (lit "hi"))
      (firstWrite epoch ({ initialRes 0 with contentType := lit "text/html\n\n<b>" } : ResT Empty)
        (lit "hi"))) ∧
    (∀ i, ¬ DifferAtMostIn i (firstWrite epoch (initialRes 0 : ResT Empty) (lit "hi"))
      (firstWrite epoch (setHeader (initialRes 0 : ResT Empty) transferEncoding
        (lit "identity")) (lit "hi"))) ∧
    (∀ i, ¬ DifferAtMostIn i
      (firstWrite epoch ({ initialRes 0 with contentType := lit "text/html\n\n" } : ResT Empty)
        (lit "hi"))
      (firstWrite epoch (setHeader { initialRes 0 with contentType := lit "text/html\n\n" }
        (lit "Connection") (lit "close") : ResT Empty) (lit "hi"))) := by
  refine ⟨fun i h => ?_, fun i h => ?_, fun i h => ?_, fun i h => ?_⟩ <;>
    exact absurd h.length_body (by decide +kernel)
