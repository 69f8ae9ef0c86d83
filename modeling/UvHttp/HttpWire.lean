/-
# What an HTTP client reads

The receiving side of HTTP/1.1, independent of any server: a head parser that
accepts bare line feeds as line ends, the final transfer coding of a list of
fields, and the chunked decoder of RFC 7230 as a frame format.
-/
import UvHttp.Framing
import UvHttp.Ocaml

/-! ## Lines -/

/-- The line at the start of the input, without its line feed, and the rest. -/
def splitLine (s : OString) : Option (OString × OString) :=
  match s.dropWhile (· ≠ lf) with
  | [] => none
  | _ :: rest => some (s.takeWhile (· ≠ lf), rest)

/-- A carriage return before the line feed is part of the line end. -/
def stripCr (l : OString) : OString := if l.getLast? = some cr then l.dropLast else l

/-- A line is blank when nothing stands before its line end. -/
def isBlank (l : OString) : Bool := stripCr l = []

/-- A line is split off at its line feed. -/
theorem splitLine_append (l rest : OString) (hl : lf ∉ l) :
    splitLine (l ++ lf :: rest) = some (l, rest) := by
  have hne : ∀ c ∈ l, decide (c ≠ lf) = true := by
    intro c hc
    exact decide_eq_true fun h => hl (h ▸ hc)
  unfold splitLine
  rw [List.dropWhile_append_of_pos hne, List.takeWhile_append_of_pos hne]
  simp

/-- Without a line feed there is no line. -/
theorem splitLine_eq_none_iff {s : OString} : splitLine s = none ↔ lf ∉ s := by
  constructor
  · intro hnone hlf
    obtain ⟨l, rest, rfl, hl⟩ := List.eq_append_cons_of_mem hlf
    rw [splitLine_append l rest hl] at hnone
    cases hnone
  · intro hlf
    have hdrop : s.dropWhile (· ≠ lf) = [] := List.dropWhile_eq_nil_iff.mpr fun c hc =>
      decide_eq_true fun h => hlf (h ▸ hc)
    rw [splitLine, hdrop]

/-- A line was taken off: it has no line feed, and one stood behind it. -/
theorem eq_append_of_splitLine {s l rest : OString} (h : splitLine s = some (l, rest)) :
    lf ∉ l ∧ s = l ++ lf :: rest := by
  have hlf : lf ∈ s := by
    by_contra hlf
    rw [splitLine_eq_none_iff.mpr hlf] at h
    cases h
  obtain ⟨l', rest', rfl, hl'⟩ := List.eq_append_cons_of_mem hlf
  rw [splitLine_append l' rest' hl'] at h
  obtain ⟨rfl, rfl⟩ := Prod.mk.inj (Option.some.inj h)
  exact ⟨hl', rfl⟩

/-! ## The head of a message -/

/-- The lines up to the first blank one, and what follows it. -/
def headLines : ℕ → OString → Option (List OString × OString)
  | 0, _ => none
  | fuel + 1, s =>
    match splitLine s with
    | none => none
    | some (l, rest) =>
      if isBlank l then some ([], rest)
      else (headLines fuel rest).map fun p => (stripCr l :: p.1, p.2)

/-- Split a message into the lines of its head and its body. -/
def splitHead (s : OString) : Option (List OString × OString) := headLines (s.length + 1) s

/-- Lines as they stand in a stream, each ended by a line feed. -/
def unlines (ls : List OString) : OString := ls.flatMap (· ++ [lf])

@[simp] theorem unlines_nil : unlines [] = [] := rfl

@[simp] theorem unlines_cons (l : OString) (ls : List OString) :
    unlines (l :: ls) = l ++ lf :: unlines ls := by
  simp [unlines]

@[simp] theorem unlines_append (ls ms : List OString) :
    unlines (ls ++ ms) = unlines ls ++ unlines ms := by
  simp [unlines]

/-- There are at most as many lines as bytes. -/
theorem length_le_length_unlines (ls : List OString) : ls.length ≤ (unlines ls).length := by
  induction ls with
  | nil => simp
  | cons l ls ih =>
    rw [unlines_cons, List.length_append, List.length_cons, List.length_cons]
    omega

/-- Splitting text at its line feeds and ending every piece with one appends a
line feed. -/
theorem unlines_splitOn (s : OString) : unlines (s.splitOn lf) = s ++ [lf] := by
  induction s with
  | nil => rfl
  | cons c s ih =>
    rw [List.splitOn_cons_eq_if_modifyHead]
    by_cases hc : c = lf
    · subst hc
      simp [ih]
    · cases hs : s.splitOn lf with
      | nil => exact absurd hs (List.splitOn_ne_nil lf s)
      | cons l ls =>
        rw [hs, unlines_cons] at ih
        simp [hc, ih]

/-- The pieces between line feeds have none. -/
theorem lf_notMem_of_mem_splitOn {s l : OString} (hl : l ∈ s.splitOn lf) : lf ∉ l := by
  induction s generalizing l with
  | nil =>
    rw [List.splitOn_nil, List.mem_singleton] at hl
    simp [hl]
  | cons c s ih =>
    rw [List.splitOn_cons_eq_if_modifyHead] at hl
    by_cases hc : c = lf
    · simp only [hc, beq_self_eq_true, if_true, List.mem_cons] at hl
      rcases hl with rfl | hl
      · simp
      · exact ih hl
    · cases hs : s.splitOn lf with
      | nil => exact absurd hs (List.splitOn_ne_nil lf s)
      | cons m ms =>
        simp only [hs, List.modifyHead_cons, beq_iff_eq, hc, if_false, List.mem_cons] at hl
        rcases hl with rfl | hl
        · rw [List.mem_cons, not_or]
          exact ⟨fun h => hc h.symm, ih (by simp [hs])⟩
        · exact ih (by simp [hs, hl])

/-- The parser reads one line. -/
theorem headLines_line (fuel : ℕ) (l rest : OString) (hl : lf ∉ l) :
    headLines (fuel + 1) (l ++ lf :: rest)
      = if isBlank l then some ([], rest)
        else (headLines fuel rest).map fun p => (stripCr l :: p.1, p.2) := by
  rw [headLines, splitLine_append l rest hl]

/-- Lines that are not blank are read as lines of the head. -/
theorem headLines_unlines_append (ls : List OString) (hls : ∀ l ∈ ls, lf ∉ l)
    (hblank : ∀ l ∈ ls, isBlank l = false) (fuel : ℕ) (s : OString) :
    headLines (ls.length + fuel) (unlines ls ++ s)
      = (headLines fuel s).map fun p => (ls.map stripCr ++ p.1, p.2) := by
  induction ls with
  | nil => simp
  | cons l ls ih =>
    rw [List.length_cons, show ls.length + 1 + fuel = (ls.length + fuel) + 1 by omega,
      unlines_cons, List.append_assoc, List.cons_append,
      headLines_line _ l _ (hls l List.mem_cons_self),
      ih (fun m hm => hls m (List.mem_cons_of_mem l hm))
        fun m hm => hblank m (List.mem_cons_of_mem l hm), Option.map_map]
    simp only [hblank l List.mem_cons_self, Bool.false_eq_true, if_false]
    congr 1

/-- **The head ends at the first blank line**, and the body is what follows it. -/
theorem splitHead_unlines_blank (ls : List OString) (hls : ∀ l ∈ ls, lf ∉ l)
    (hblank : ∀ l ∈ ls, isBlank l = false) (b : OString) (hb : lf ∉ b) (hbb : isBlank b = true)
    (rest : OString) :
    splitHead (unlines ls ++ (b ++ lf :: rest)) = some (ls.map stripCr, rest) := by
  obtain ⟨k, hk⟩ : ∃ k, (unlines ls ++ (b ++ lf :: rest)).length + 1 = ls.length + (k + 1) := by
    have := length_le_length_unlines ls
    refine ⟨(unlines ls ++ (b ++ lf :: rest)).length - ls.length, ?_⟩
    rw [List.length_append]
    omega
  rw [splitHead, hk, headLines_unlines_append ls hls hblank, headLines_line k b rest hb]
  simp [hbb]

/-- When no line is blank, the head is all of them and the body is what follows
the empty line. -/
theorem splitHead_unlines (ls : List OString) (hls : ∀ l ∈ ls, lf ∉ l)
    (hblank : ∀ l ∈ ls, isBlank l = false) (rest : OString) :
    splitHead (unlines ls ++ lf :: rest) = some (ls.map stripCr, rest) :=
  splitHead_unlines_blank ls hls hblank [] List.not_mem_nil rfl rest

/-- Of lines without line feeds, followed by an empty one, the parser keeps those
before the first blank line. -/
theorem exists_splitHead_unlines (ls : List OString) (hls : ∀ l ∈ ls, lf ∉ l) (rest : OString) :
    ∃ rest', splitHead (unlines ls ++ lf :: rest)
      = some ((ls.takeWhile fun l => !isBlank l).map stripCr, rest') := by
  have htake : ∀ l ∈ ls.takeWhile fun l => !isBlank l, isBlank l = false := by
    intro l hl
    have := List.mem_takeWhile_imp hl
    simpa using this
  have hsub : ∀ l ∈ ls.takeWhile fun l => !isBlank l, lf ∉ l := fun l hl =>
    hls l ((List.takeWhile_sublist _).mem hl)
  have hsplit := List.takeWhile_append_dropWhile (p := fun l => !isBlank l) (l := ls)
  cases hdrop : ls.dropWhile fun l => !isBlank l with
  | nil =>
    -- no line is blank: the head ends at the empty line that was added
    rw [hdrop, List.append_nil] at hsplit
    rw [hsplit] at htake ⊢
    exact ⟨rest, splitHead_unlines ls hls htake rest⟩
  | cons b post =>
    have hb : isBlank b = true := by
      have := List.head?_dropWhile_not (fun l => !isBlank l) ls
      rw [hdrop] at this
      simpa using this
    have hbls : b ∈ ls := by
      rw [← hsplit, hdrop]
      simp
    refine ⟨unlines post ++ lf :: rest, ?_⟩
    conv_lhs => rw [← hsplit, hdrop]
    rw [unlines_append, unlines_cons, List.append_assoc, List.append_assoc, List.cons_append]
    exact splitHead_unlines_blank _ hsub htake b (hls b hbls) hb _

/-! ## Reading on after a line -/

/-- What follows a line is shorter. -/
theorem length_lt_of_splitLine {s l rest : OString} (h : splitLine s = some (l, rest)) :
    rest.length < s.length := by
  rw [(eq_append_of_splitLine h).2, List.length_append, List.length_cons]
  omega

/-- More fuel than bytes is enough. -/
theorem headLines_of_length_lt {fuel : ℕ} {s : OString} (h : s.length < fuel) :
    headLines fuel s = splitHead s := by
  have hstable : ∀ (f g : ℕ) (s : OString), s.length < f → s.length < g →
      headLines f s = headLines g s := by
    intro f
    induction f with
    | zero =>
      intro g s hf
      omega
    | succ f ih =>
      intro g s hf hg
      obtain ⟨g, rfl⟩ : ∃ g', g = g' + 1 := ⟨g - 1, by omega⟩
      rw [headLines, headLines]
      cases hline : splitLine s with
      | none => rfl
      | some p =>
        have hlt := length_lt_of_splitLine (l := p.1) hline
        simp only [ih g p.2 (by omega) (by omega)]
  exact hstable fuel (s.length + 1) s h (Nat.lt_succ_self _)

/-- The parser reads one line and goes on with the rest. -/
theorem splitHead_line (l rest : OString) (hl : lf ∉ l) :
    splitHead (l ++ lf :: rest)
      = if isBlank l then some ([], rest)
        else (splitHead rest).map fun p => (stripCr l :: p.1, p.2) := by
  rw [splitHead, headLines_line _ l rest hl, headLines_of_length_lt]
  rw [List.length_append, List.length_cons]
  omega

/-- The parser reads lines that are not blank and goes on with the rest. -/
theorem splitHead_unlines_append {ls : List OString} (hls : ∀ l ∈ ls, lf ∉ l)
    (hblank : ∀ l ∈ ls, isBlank l = false) (s : OString) :
    splitHead (unlines ls ++ s)
      = (splitHead s).map fun p => (ls.map stripCr ++ p.1, p.2) := by
  have hlen : s.length < (unlines ls ++ s).length + 1 - ls.length := by
    have := length_le_length_unlines ls
    rw [List.length_append]
    omega
  have hfuel : (unlines ls ++ s).length + 1
      = ls.length + ((unlines ls ++ s).length + 1 - ls.length) := by omega
  rw [splitHead, hfuel, headLines_unlines_append ls hls hblank, headLines_of_length_lt hlen]

/-- Every text is some lines and the beginning of another. -/
theorem exists_eq_unlines_append (s : OString) :
    ∃ ls l, s = unlines ls ++ l ∧ (∀ m ∈ ls, lf ∉ m) ∧ lf ∉ l := by
  induction s with
  | nil => exact ⟨[], [], rfl, nofun, nofun⟩
  | cons c s ih =>
    obtain ⟨ls, l, rfl, hls, hl⟩ := ih
    by_cases hc : c = lf
    · subst hc
      refine ⟨[] :: ls, l, rfl, fun m hm => ?_, hl⟩
      rcases List.mem_cons.mp hm with rfl | hm
      · exact List.not_mem_nil
      · exact hls m hm
    · have hne : ∀ m : OString, lf ∉ m → lf ∉ c :: m := fun m hm =>
        List.not_mem_cons_of_ne_of_not_mem (fun h => hc h.symm) hm
      cases ls with
      | nil => exact ⟨[], c :: l, rfl, nofun, hne l hl⟩
      | cons m ls =>
        refine ⟨(c :: m) :: ls, l, ?_, fun m' hm' => ?_, hl⟩
        · rw [unlines_cons, unlines_cons, List.cons_append]
          rfl
        · rcases List.mem_cons.mp hm' with rfl | hm'
          · exact hne m (hls m List.mem_cons_self)
          · exact hls m' (List.mem_cons_of_mem _ hm')

/-- Without a line feed there is no head. -/
theorem splitHead_eq_none_of_lf_notMem {s : OString} (hs : lf ∉ s) : splitHead s = none := by
  rw [splitHead, headLines, splitLine_eq_none_iff.mpr hs]

/-- Lines among which the parser finds no end of a head are not blank. -/
theorem isBlank_eq_false_of_splitHead_eq_none {ls : List OString} {l : OString}
    (hls : ∀ m ∈ ls, lf ∉ m) (hnone : splitHead (unlines ls ++ l) = none) :
    ∀ m ∈ ls, isBlank m = false := by
  induction ls with
  | nil => exact nofun
  | cons m ls ih =>
    rw [unlines_cons, List.append_assoc, List.cons_append,
      splitHead_line m _ (hls m List.mem_cons_self)] at hnone
    split_ifs at hnone with hm
    intro m' hm'
    rcases List.mem_cons.mp hm' with rfl | hm'
    · exact Bool.eq_false_iff.mpr hm
    · exact ih (fun m hm => hls m (List.mem_cons_of_mem _ hm)) (Option.map_eq_none_iff.mp hnone)
        m' hm'

/-- What comes after a head does not change it. -/
theorem splitHead_append {s : OString} {p : List OString × OString} (h : splitHead s = some p)
    (t : OString) : splitHead (s ++ t) = some (p.1, p.2 ++ t) := by
  obtain ⟨ls, l, rfl, hls, hl⟩ := exists_eq_unlines_append s
  induction ls generalizing p with
  | nil =>
    rw [unlines_nil, List.nil_append, splitHead_eq_none_of_lf_notMem hl] at h
    cases h
  | cons m ls ih =>
    have hm := hls m List.mem_cons_self
    rw [unlines_cons, List.append_assoc, List.cons_append, splitHead_line m _ hm] at h
    rw [unlines_cons, List.append_assoc, List.append_assoc, List.cons_append,
      splitHead_line m _ hm]
    split_ifs at h ⊢
    · obtain rfl := Option.some.inj h
      simp
    · obtain ⟨q, hq, rfl⟩ := Option.map_eq_some_iff.mp h
      have := ih hq fun m hm => hls m (List.mem_cons_of_mem _ hm)
      rw [← List.append_assoc, this]
      rfl

/-- What follows a head is shorter. -/
theorem length_lt_of_splitHead {s : OString} {p : List OString × OString}
    (h : splitHead s = some p) : p.2.length < s.length := by
  obtain ⟨ls, l, rfl, hls, hl⟩ := exists_eq_unlines_append s
  induction ls generalizing p with
  | nil =>
    rw [unlines_nil, List.nil_append, splitHead_eq_none_of_lf_notMem hl] at h
    cases h
  | cons m ls ih =>
    rw [unlines_cons, List.append_assoc, List.cons_append,
      splitHead_line m _ (hls m List.mem_cons_self)] at h
    rw [unlines_cons, List.length_append, List.length_append, List.length_cons]
    split_ifs at h
    · obtain rfl := Option.some.inj h
      rw [List.length_append]
      omega
    · obtain ⟨q, hq, rfl⟩ := Option.map_eq_some_iff.mp h
      have := ih hq fun m hm => hls m (List.mem_cons_of_mem _ hm)
      rw [List.length_append] at this
      show q.2.length < _
      omega

/-- **One more line shows**: text with a line end in front of a head adds a line to
it, or ends it earlier. -/
theorem exists_splitHead_append {s : OString} {p : List OString × OString}
    (h : splitHead s = some p) (text : OString) :
    ∃ q, splitHead (text ++ lf :: s) = some q ∧
      (p.1.length < q.1.length ∨ p.2.length < q.2.length) := by
  have hlt := length_lt_of_splitHead h
  obtain ⟨ls, l, rfl, hls, hl⟩ := exists_eq_unlines_append text
  induction ls with
  | nil =>
    rw [unlines_nil, List.nil_append, splitHead_line l s hl]
    split_ifs
    · exact ⟨_, rfl, .inr hlt⟩
    · rw [h]
      exact ⟨_, rfl, .inl (Nat.lt_succ_self _)⟩
  | cons m ls ih =>
    rw [unlines_cons, List.append_assoc, List.append_assoc, List.cons_append,
      splitHead_line m _ (hls m List.mem_cons_self)]
    split_ifs
    · refine ⟨_, rfl, .inr ?_⟩
      simp only [List.length_append, List.length_cons]
      omega
    · obtain ⟨q, hq, hlonger⟩ := ih fun m hm => hls m (List.mem_cons_of_mem _ hm)
      rw [List.append_assoc] at hq
      rw [hq]
      exact ⟨_, rfl, hlonger.imp_left Nat.lt_succ_of_lt⟩

/-! ## Fields and transfer codings -/

/-- Blanks around a field value or a list element. -/
def isBlankChar (c : UInt8) : Bool := c = 32 ∨ c = 9

/-- Remove blanks at both ends. -/
def trim (s : OString) : OString :=
  ((s.dropWhile isBlankChar).reverse.dropWhile isBlankChar).reverse

/-- ASCII lower case, for names that are compared without regard to case. -/
def lower (s : OString) : OString := s.map fun c => if 65 ≤ c ∧ c ≤ 90 then c + 32 else c

/-- A field line, split at its first colon. -/
def splitField (l : OString) : OString × OString :=
  (l.takeWhile (· ≠ 58), trim ((l.dropWhile (· ≠ 58)).drop 1))

/-- The line is a `Transfer-Encoding` field. -/
def isTransferEncoding (f : OString × OString) : Bool := lower f.1 = lit "transfer-encoding"

/-- The codings a field value lists, empty elements left out. -/
def listElements (v : OString) : List OString :=
  ((v.splitOn 44).map trim).filter (· ≠ [])

/-- The transfer codings that the fields list, in order. -/
def transferCodings (fields : List (OString × OString)) : List OString :=
  (fields.filter isTransferEncoding).flatMap fun f => listElements f.2

/-- The fields declare `chunked` as the final transfer coding. -/
def declaresChunked (fields : List (OString × OString)) : Bool :=
  (transferCodings fields).getLast?.map lower = some (lit "chunked")

/-- The fields of a head: all its lines but the first. -/
def headFields (lines : List OString) : List (OString × OString) := lines.tail.map splitField

/-- The fields and the body that a client reads. -/
def readHead (s : OString) : Option (List (OString × OString) × OString) :=
  (splitHead s).map fun p => (headFields p.1, p.2)

/-- A status line: the protocol, a space, three digits, and a space before the reason. -/
def readStatusLine (l : OString) : Option (OString × ℕ) :=
  let rest := (l.dropWhile (· ≠ 32)).drop 1
  if (rest.takeWhile decimal.isDigit).length = 3 then
    match decimal.read rest with
    | some (n, 32 :: _) => some (l.takeWhile (· ≠ 32), n)
    | _ => none
  else none

/-- What a client reads of a response. -/
structure ParsedResponse where
  protocol : OString
  code : ℕ
  fields : List (OString × OString)
  body : OString

/-- The status line, the fields, and what is left. -/
def readResponse (s : OString) : Option ParsedResponse :=
  match splitHead s with
  | some (l :: ls, body) =>
    (readStatusLine l).map fun p => ⟨p.1, p.2, ls.map splitField, body⟩
  | _ => none

/-- The characters of an HTTP token. -/
def isTokenChar (c : UInt8) : Bool :=
  (48 ≤ c ∧ c ≤ 57) ∨ (65 ≤ c ∧ c ≤ 90) ∨ (97 ≤ c ∧ c ≤ 122) ∨ c ∈ lit "!#$%&'*+-.^_`|~"

/-- An HTTP token. -/
def IsToken (s : OString) : Prop := s ≠ [] ∧ s.all isTokenChar = true

/-- A field value on one line, without blanks at its ends. -/
structure IsPlain (v : OString) : Prop where
  cr_notMem : cr ∉ v
  lf_notMem : lf ∉ v
  head : v.head?.any isBlankChar = false
  last : v.getLast?.any isBlankChar = false

/-- The head at the start of a stream declares a chunked body. -/
def announcesChunked (s : OString) : Bool :=
  match splitHead s with
  | none => false
  | some (lines, _) => declaresChunked (headFields lines)

/-- Trimming takes the space in front of a plain value. -/
theorem IsPlain.trim_cons {v : OString} (hv : IsPlain v) : trim (32 :: v) = v := by
  have hfirst : (32 :: v).dropWhile isBlankChar = v := by
    rw [List.dropWhile_cons_of_pos (by decide)]
    cases v with
    | nil => rfl
    | cons c v => exact List.dropWhile_cons_of_neg (Bool.eq_false_iff.mp hv.head)
  have hlast : v.reverse.dropWhile isBlankChar = v.reverse := by
    cases hrev : v.reverse with
    | nil => rfl
    | cons c w =>
      have hc := hv.last
      rw [List.getLast?_eq_head?_reverse, hrev] at hc
      exact List.dropWhile_cons_of_neg (Bool.eq_false_iff.mp hc)
  rw [trim, hfirst, hlast, List.reverse_reverse]

/-- **A field line reads as its name and its value.** -/
theorem splitField_of_plain {k v : OString} (hk : 58 ∉ k) (hv : IsPlain v) :
    splitField (stripCr (k ++ lit ": " ++ v)) = (k, v) := by
  have hstrip : stripCr (k ++ lit ": " ++ v) = k ++ 58 :: 32 :: v := by
    have hline : k ++ lit ": " ++ v = k ++ 58 :: 32 :: v := by
      simp [lit_colon_space]
    rw [hline, stripCr, if_neg]
    intro hlast
    have hmem : cr ∈ 32 :: v := by
      have hne : (58 :: 32 :: v) ≠ [] := List.cons_ne_nil _ _
      rw [List.getLast?_append_of_ne_nil _ hne, List.getLast?_cons_cons] at hlast
      exact List.mem_of_getLast? hlast
    rcases List.mem_cons.mp hmem with h | h
    · exact absurd h (by decide)
    · exact hv.cr_notMem h
  have hcolon : ∀ c ∈ k, decide (c ≠ 58) = true := fun c hc =>
    decide_eq_true fun h => hk (h ▸ hc)
  rw [hstrip, splitField, List.takeWhile_append_of_pos hcolon, List.dropWhile_append_of_pos hcolon,
    List.takeWhile_cons_of_neg (by simp), List.dropWhile_cons_of_neg (by simp), List.append_nil,
    List.drop_one, List.tail_cons, hv.trim_cons]

/-- There are only characters of tokens in a token. -/
theorem IsToken.notMem {k : OString} (hk : IsToken k) {c : UInt8} (hc : isTokenChar c = false) :
    c ∉ k := fun h => by
  rw [List.all_eq_true.mp hk.2 c h] at hc
  cases hc

/-! ## The chunked coding -/

/-- What follows the first `CRLF`. -/
def afterCrlf : OString → Option OString
  | 13 :: 10 :: rest => some rest
  | _ :: rest => afterCrlf rest
  | [] => none

/-- A chunk extension, if any, and the end of the size line. -/
def chunkExt : OString → Option OString
  | 13 :: 10 :: rest => some rest
  | 59 :: rest => afterCrlf rest
  | _ => none

/-- The size line of a chunk. -/
def readChunkSize (s : OString) : Option (ℕ × OString) :=
  match hexadecimal.read s with
  | none => none
  | some (n, rest) => (chunkExt rest).map fun rest' => (n, rest')

/-- Trailer lines up to the empty line. -/
def trailerLines : ℕ → OString → Option OString
  | 0, _ => none
  | _ + 1, 13 :: 10 :: rest => some rest
  | fuel + 1, s =>
    match afterCrlf s with
    | none => none
    | some rest => trailerLines fuel rest

/-- The trailer part after the last chunk. -/
def trailerPart (s : OString) : Option OString := trailerLines (s.length + 1) s

/-- Chunks: a hexadecimal size line, that many bytes, and a line end. -/
def chunkFormat : FrameFormat UInt8 where
  size := fun n => upperHex n ++ crlf
  readSize := readChunkSize
  closing := crlf
  size_ne_nil := fun n => by simp [upperHex, hexadecimal.print_ne_nil]
  readSize_size := fun n rest => by
    have hread : hexadecimal.read (upperHex n ++ (crlf ++ rest)) = some (n, crlf ++ rest) := by
      refine hexadecimal.read_print_append n _ ?_
      intro c hc
      obtain rfl : cr = c := by simpa [crlf] using hc
      exact cr_not_hex
    rw [List.append_assoc, readChunkSize, hread]
    rfl

/-- The chunked decoder of RFC 7230: it stops at the first zero-size chunk and
the trailer behind it, and returns the body and the bytes left over. -/
def decodeChunked (s : OString) : Option (OString × OString) :=
  chunkFormat.decodeAll trailerPart s

/-- The empty trailer is read back. -/
theorem trailerPart_crlf (rest : OString) : trailerPart (chunkFormat.closing ++ rest) = some rest :=
  rfl

/-- **The first empty chunk ends the body.**  What was framed after it is left
over. -/
theorem decodeChunked_of_first_empty (pre post : List OString) (hpre : ∀ m ∈ pre, m ≠ []) :
    decodeChunked (chunkFormat.stream (pre ++ [] :: post))
      = some (pre.flatten, chunkFormat.stream post) :=
  chunkFormat.decodeAll_stream_of_first_empty trailerPart trailerPart_crlf pre post hpre

/-- The decoder takes chunk extensions, trailers and either case of digits. -/
example : decodeChunked (lit "a;x=1\r\n0123456789\r\n0\r\nT: 1\r\n\r\nrest")
    = some (lit "0123456789", lit "rest") := by decide
