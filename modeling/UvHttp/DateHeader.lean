/-
# The Date header

`dateToStr` prints the fields of `gmtime` with `%d` for the day of the month, where
the date format of HTTP has two digits.  A reader of that format gets the clock value
back from the tenth day of a month on; before it, only a reader that takes a day of one
digit does.
-/
import UvHttp.Calendar
import UvHttp.HttpWire
import UvHttp.Response

/-! ## The clock -/

/-- The weekday of a day counted from the epoch, which was a Thursday. -/
def weekdayOf (n : ℤ) : Fin 7 := ⟨((n + 4) % 7).toNat, by omega⟩

/-- `Unix.gmtime`: the fields of a clock value in the calendar. -/
def gmtime (t : ℤ) : Tm :=
  let date := Date.ofDay (t / 86400)
  let s := t % 86400
  { tm_sec := (s % 60).toNat
    tm_min := (s / 60 % 60).toNat
    tm_hour := (s / 3600).toNat
    tm_mday := date.day
    tm_mon := date.month
    tm_year := date.year - 1900
    tm_wday := weekdayOf (t / 86400) }

/-- The year of a clock value. -/
def yearOf (t : ℤ) : ℤ := (gmtime t).tm_year + 1900

/-! ## Reading a date -/

/-- The names of the weekdays. -/
def dayNames : Fin 7 → OString :=
  ![lit "Sun", lit "Mon", lit "Tue", lit "Wed", lit "Thu", lit "Fri", lit "Sat"]

/-- The names of the months. -/
def monthNames : Fin 12 → OString :=
  ![lit "Jan", lit "Feb", lit "Mar", lit "Apr", lit "May", lit "Jun",
    lit "Jul", lit "Aug", lit "Sep", lit "Oct", lit "Nov", lit "Dec"]

/-- A fixed text at the start of the input. -/
def expect (l s : OString) : Option OString :=
  if l.isPrefixOf s then some (s.drop l.length) else none

/-- One of some names at the start of the input. -/
def readName {n : ℕ} (names : Fin n → OString) (s : OString) : Option (Fin n × OString) :=
  ((List.finRange n).find? fun i => (names i).isPrefixOf s).map fun i =>
    (i, s.drop (names i).length)

/-- The clock value of a date and a time of day; the weekday has to be that of the date. -/
def timegm (wday : Fin 7) (day : ℕ) (month : Fin 12) (year : ℤ) (hour min sec : ℕ) :
    Option ℤ :=
  if h : 1 ≤ day ∧ day ≤ daysInMonth year month then
    let date : Date := ⟨year, month, day, h.1, h.2⟩
    if weekdayOf date.number = wday ∧ hour < 24 ∧ min < 60 ∧ sec < 60 then
      some (date.number * 86400 + hour * 3600 + min * 60 + sec)
    else none
  else none

/-- A date, with a reader for the day of the month. -/
def readDateWith (readDay : OString → Option (ℕ × OString)) (s : OString) : Option ℤ := do
  let (wday, s) ← readName dayNames s
  let s ← expect (lit ", ") s
  let (day, s) ← readDay s
  let s ← expect (lit " ") s
  let (month, s) ← readName monthNames s
  let s ← expect (lit " ") s
  let (year, s) ← decimal.readFixed 4 s
  let s ← expect (lit " ") s
  let (hour, s) ← decimal.readFixed 2 s
  let s ← expect (lit ":") s
  let (min, s) ← decimal.readFixed 2 s
  let s ← expect (lit ":") s
  let (sec, s) ← decimal.readFixed 2 s
  let s ← expect (lit " GMT") s
  if s = [] then timegm wday day month year hour min sec else none

/-- `IMF-fixdate` of RFC 7231: two digits for the day. -/
def readFixdate : OString → Option ℤ := readDateWith (decimal.readFixed 2)

/-- The same with any number of digits for the day. -/
def readLoosely : OString → Option ℤ := readDateWith decimal.read

/-- A text that has the length of an `IMF-fixdate` and reads as the clock value. -/
def Conforms (s : OString) (t : ℤ) : Prop := s.length = 29 ∧ readFixdate s = some t

/-! ## What is printed is read -/

/-- A reader that succeeds hands its result to the one after it. -/
theorem bind_of_eq_some {α β : Type} {x : Option α} {a : α} {f : α → Option β} {o : Option β}
    (hx : x = some a) (hf : f a = o) : (x >>= f) = o := by
  rw [hx]
  exact hf

/-- What is expected is taken off. -/
theorem expect_append (l rest : OString) : expect l (l ++ rest) = some rest := by
  have hpre : l.isPrefixOf (l ++ rest) = true := by
    rw [List.isPrefixOf_iff_prefix]
    exact List.prefix_append l rest
  rw [expect, if_pos hpre, List.drop_left]

/-- Names of one length, no two the same, are told apart. -/
theorem readName_append {n k : ℕ} {names : Fin n → OString} (hlen : ∀ i, (names i).length = k)
    (hinj : Function.Injective names) (i : Fin n) (rest : OString) :
    readName names (names i ++ rest) = some (i, rest) := by
  have hpre : ∀ j, (names j).isPrefixOf (names i ++ rest) = true ↔ j = i := by
    intro j
    rw [List.isPrefixOf_iff_prefix]
    constructor
    · intro hj
      have heq := List.prefix_of_prefix_length_le hj (List.prefix_append (names i) rest)
        (by rw [hlen, hlen])
      exact hinj (heq.eq_of_length (by rw [hlen, hlen]))
    · rintro rfl
      exact List.prefix_append _ _
  have hfind : ((List.finRange n).find? fun j => (names j).isPrefixOf (names i ++ rest))
      = some i := by
    cases hfind : (List.finRange n).find? fun j => (names j).isPrefixOf (names i ++ rest) with
    | none =>
      have := List.find?_eq_none.mp hfind i (List.mem_finRange i)
      exact absurd ((hpre i).mpr rfl) this
    | some j =>
      have hj := List.find?_some hfind
      rw [(hpre j).mp hj]
  rw [readName, hfind, Option.map_some, List.drop_left]

/-- From ten on a number below a hundred has two digits. -/
theorem length_print_two {n : ℕ} (hge : 10 ≤ n) (hlt : n < 100) : (decimal.print n).length = 2 :=
  decimal.length_print (k := 1) (show 10 ^ 1 ≤ n by omega) (show n < 10 ^ 2 by omega)

/-- `%02d` of a number below `100`. -/
theorem readFixed_twoDigits {n : ℕ} (hn : n < 100) (rest : OString) :
    decimal.readFixed 2 (twoDigits n ++ rest) = some (n, rest) := by
  unfold twoDigits
  split_ifs with h10
  · have hdigits : ∀ n : Fin 10, (48 :: decimal.print n).length = 2 ∧
        (48 :: decimal.print n).all decimal.isDigit = true ∧
        decimal.value (48 :: decimal.print n) = n := by decide
    obtain ⟨hlen, hall, hvalue⟩ := hdigits ⟨n, h10⟩
    have hread := decimal.readFixed_append hlen (List.all_eq_true.mp hall) rest
    rw [hvalue] at hread
    exact hread
  · rw [decimal.readFixed_append (length_print_two (by omega) hn)
      (fun c hc => decimal.isDigit_of_mem_print hc), decimal.value_print]

/-- A padded number below a hundred has two digits. -/
theorem length_twoDigits {n : ℕ} (hn : n < 100) : (twoDigits n).length = 2 := by
  unfold twoDigits
  split_ifs with h10
  · have hdigits : ∀ n : Fin 10, (48 :: decimal.print n).length = 2 := by decide
    exact hdigits ⟨n, h10⟩
  · exact length_print_two (by omega) hn

/-- Four digits of a year. -/
theorem length_print_year {y : ℕ} (hge : 1000 ≤ y) (hle : y ≤ 9999) :
    (decimal.print y).length = 4 :=
  decimal.length_print (k := 3) (show 10 ^ 3 ≤ y by omega) (show y < 10 ^ 4 by omega)

/-! ## The printed date -/

section Printed

variable {t : ℤ}

/-- Seconds are below sixty. -/
theorem tm_sec_lt (t : ℤ) : (gmtime t).tm_sec < 60 := by
  show (t % 86400 % 60).toNat < 60
  omega

/-- Minutes are below sixty. -/
theorem tm_min_lt (t : ℤ) : (gmtime t).tm_min < 60 := by
  show (t % 86400 / 60 % 60).toNat < 60
  omega

/-- Hours are below twenty-four. -/
theorem tm_hour_lt (t : ℤ) : (gmtime t).tm_hour < 24 := by
  show (t % 86400 / 3600).toNat < 24
  omega

/-- Days of a month end at thirty-one. -/
theorem tm_mday_le (t : ℤ) : (gmtime t).tm_mday ≤ 31 :=
  (Date.ofDay (t / 86400)).day_le.trans (daysInMonth_le _ _)

/-- Different days have different names. -/
theorem dayNames_injective : Function.Injective dayNames := by decide

/-- Different months have different names. -/
theorem monthNames_injective : Function.Injective monthNames := by decide

theorem length_dayNames : ∀ i, (dayNames i).length = 3 := by decide

theorem length_monthNames : ∀ i, (monthNames i).length = 3 := by decide

/-- The printed date, field by field. -/
theorem dateToStr_eq (tm : Tm) :
    dateToStr tm = dayNames tm.tm_wday ++ (lit ", " ++ (stringOfInt tm.tm_mday ++ (lit " " ++
      (monthNames tm.tm_mon ++ (lit " " ++ (stringOfInt (tm.tm_year + 1900) ++ (lit " " ++
      (twoDigits tm.tm_hour ++ (lit ":" ++ (twoDigits tm.tm_min ++ (lit ":" ++
      (twoDigits tm.tm_sec ++ (lit " GMT" ++ []))))))))))))) := by
  simp only [dateToStr, List.append_assoc, List.append_nil]
  rfl

/-- A date with its own weekday and a time of day. -/
theorem timegm_of_date (date : Date) {hour min sec : ℕ} (hhour : hour < 24) (hmin : min < 60)
    (hsec : sec < 60) :
    timegm (weekdayOf date.number) date.day date.month date.year hour min sec
      = some (date.number * 86400 + hour * 3600 + min * 60 + sec) := by
  rw [timegm, dif_pos ⟨date.one_le_day, date.day_le⟩]
  exact if_pos ⟨rfl, hhour, hmin, hsec⟩

/-- The fields of a clock value stand for it. -/
theorem timegm_gmtime (t : ℤ) :
    timegm (gmtime t).tm_wday (gmtime t).tm_mday (gmtime t).tm_mon (yearOf t)
      (gmtime t).tm_hour (gmtime t).tm_min (gmtime t).tm_sec = some t := by
  have hyear : yearOf t = (Date.ofDay (t / 86400)).year := Int.sub_add_cancel _ _
  have hdate := timegm_of_date (Date.ofDay (t / 86400)) (tm_hour_lt t) (tm_min_lt t) (tm_sec_lt t)
  have hclock : t / 86400 * 86400 + ((t % 86400 / 3600).toNat : ℤ) * 3600
      + ((t % 86400 / 60 % 60).toNat : ℤ) * 60 + ((t % 86400 % 60).toNat : ℤ) = t := by omega
  rw [Date.number_ofDay] at hdate
  rw [hyear]
  exact hdate.trans (congrArg some hclock)

/-- **The printed date is read back** by every reader that reads its day. -/
theorem readDateWith_dateToStr (hge : 1970 ≤ yearOf t) (hle : yearOf t ≤ 9999)
    {readDay : OString → Option (ℕ × OString)}
    (hday : ∀ rest, readDay (stringOfInt (gmtime t).tm_mday ++ (lit " " ++ rest))
      = some ((gmtime t).tm_mday, lit " " ++ rest)) :
    readDateWith readDay (dateToStr (gmtime t)) = some t := by
  obtain ⟨y, hy⟩ := Int.eq_ofNat_of_zero_le (show 0 ≤ yearOf t by omega)
  have hyear : stringOfInt ((gmtime t).tm_year + 1900) = decimal.print y := by
    rw [show (gmtime t).tm_year + 1900 = (y : ℤ) from hy]
    rfl
  have hreadYear : ∀ rest, decimal.readFixed 4 (decimal.print y ++ rest) = some (y, rest) := by
    intro rest
    rw [decimal.readFixed_append (length_print_year (by omega) (by omega))
      (fun c hc => decimal.isDigit_of_mem_print hc), decimal.value_print]
  have hhour := tm_hour_lt t
  have hmin := tm_min_lt t
  have hsec := tm_sec_lt t
  have htimegm := timegm_gmtime t
  rw [hy] at htimegm
  rw [dateToStr_eq, hyear]
  refine bind_of_eq_some (readName_append length_dayNames dayNames_injective _ _) ?_
  refine bind_of_eq_some (expect_append _ _) ?_
  refine bind_of_eq_some (hday _) ?_
  refine bind_of_eq_some (expect_append _ _) ?_
  refine bind_of_eq_some (readName_append length_monthNames monthNames_injective _ _) ?_
  refine bind_of_eq_some (expect_append _ _) ?_
  refine bind_of_eq_some (hreadYear _) ?_
  refine bind_of_eq_some (expect_append _ _) ?_
  refine bind_of_eq_some (readFixed_twoDigits (by omega) _) ?_
  refine bind_of_eq_some (expect_append _ _) ?_
  refine bind_of_eq_some (readFixed_twoDigits (by omega) _) ?_
  refine bind_of_eq_some (expect_append _ _) ?_
  refine bind_of_eq_some (readFixed_twoDigits (by omega) _) ?_
  refine bind_of_eq_some (expect_append _ _) ?_
  exact (if_pos rfl).trans htimegm

/-- Two digits of a day are read as such. -/
theorem readFixed_day (hday : 10 ≤ (gmtime t).tm_mday) (rest : OString) :
    decimal.readFixed 2 (stringOfInt (gmtime t).tm_mday ++ (lit " " ++ rest))
      = some ((gmtime t).tm_mday, lit " " ++ rest) := by
  have hle := tm_mday_le t
  have hread := decimal.readFixed_append (length_print_two hday (by omega))
    (fun c hc => decimal.isDigit_of_mem_print hc) (lit " " ++ rest)
  rw [decimal.value_print] at hread
  exact hread

/-- A day of one digit is followed by a space, which is no digit. -/
theorem readFixed_day_eq_none (hday : (gmtime t).tm_mday < 10) (rest : OString) :
    decimal.readFixed 2 (stringOfInt (gmtime t).tm_mday ++ (lit " " ++ rest)) = none := by
  have hone : ∀ n : Fin 10, (decimal.print n).length = 1 := by decide
  have hlen := hone ⟨(gmtime t).tm_mday, hday⟩
  obtain ⟨c, hc⟩ := List.length_eq_one_iff.mp hlen
  have htwo : stringOfInt (gmtime t).tm_mday ++ (lit " " ++ rest) = c :: 32 :: rest := by
    show decimal.print (gmtime t).tm_mday ++ (lit " " ++ rest) = _
    rw [show decimal.print (gmtime t).tm_mday = [c] from hc, lit_space]
    rfl
  have hstop : decimal.isDigit 32 = false := by decide
  rw [htwo, Digits.readFixed, if_neg]
  rintro ⟨-, hall⟩
  simp [hstop] at hall

/-- A day followed by a space is read, with one digit or two. -/
theorem read_day (t : ℤ) (rest : OString) :
    decimal.read (stringOfInt (gmtime t).tm_mday ++ (lit " " ++ rest))
      = some ((gmtime t).tm_mday, lit " " ++ rest) := by
  refine decimal.read_print_append _ _ fun c hc => ?_
  rw [lit_space] at hc
  obtain rfl : 32 = c := Option.some.inj hc
  decide

/-- From the tenth of a month on the date has its full length. -/
theorem length_dateToStr (hge : 1970 ≤ yearOf t) (hle : yearOf t ≤ 9999)
    (hday : 10 ≤ (gmtime t).tm_mday) : (dateToStr (gmtime t)).length = 29 := by
  obtain ⟨y, hy⟩ := Int.eq_ofNat_of_zero_le (show 0 ≤ yearOf t by omega)
  have hyear : (stringOfInt ((gmtime t).tm_year + 1900)).length = 4 := by
    rw [show (gmtime t).tm_year + 1900 = (y : ℤ) from hy]
    exact length_print_year (by omega) (by omega)
  have hmday := tm_mday_le t
  have htwo : (stringOfInt (gmtime t).tm_mday).length = 2 := length_print_two hday (by omega)
  have hhour := length_twoDigits (show (gmtime t).tm_hour < 100 by have := tm_hour_lt t; omega)
  have hmin := length_twoDigits (show (gmtime t).tm_min < 100 by have := tm_min_lt t; omega)
  have hsec := length_twoDigits (show (gmtime t).tm_sec < 100 by have := tm_sec_lt t; omega)
  have hwday : (weekdays (gmtime t).tm_wday).length = 3 := length_dayNames _
  have hmonth : (months (gmtime t).tm_mon).length = 3 := length_monthNames _
  have hcomma : (lit ", ").length = 2 := by decide
  have hspace : (lit " ").length = 1 := by decide
  have hcolon : (lit ":").length = 1 := by decide
  have hgmt : (lit " GMT").length = 4 := by decide
  simp only [dateToStr, List.length_append, hyear, htwo, hhour, hmin, hsec, hwday, hmonth, hcomma,
    hspace, hcolon, hgmt]

/-- Before the tenth of a month a byte is missing. -/
theorem readFixdate_eq_none (hday : (gmtime t).tm_mday < 10) :
    readFixdate (dateToStr (gmtime t)) = none := by
  rw [dateToStr_eq]
  refine bind_of_eq_some (readName_append length_dayNames dayNames_injective _ _) ?_
  refine bind_of_eq_some (expect_append _ _) ?_
  exact congrArg (· >>= _) (readFixed_day_eq_none hday _)

end Printed

/-- **The date conforms exactly from the tenth day of a month on.**  In every year from
1970 to 9999 the printed date has 29 characters and reads as the clock value if and only
if its day of the month has two digits; and different clock values are printed
differently in any case. -/
theorem conforms_iff (t : ℤ) (hge : 1970 ≤ yearOf t) (hle : yearOf t ≤ 9999) :
    (Conforms (dateToStr (gmtime t)) t ↔ 10 ≤ (gmtime t).tm_mday) ∧
    ∀ u, 1970 ≤ yearOf u → yearOf u ≤ 9999 →
      dateToStr (gmtime u) = dateToStr (gmtime t) → u = t := by
  refine ⟨⟨fun hconforms => ?_, fun hday => ?_⟩, fun u hgeu hleu heq => ?_⟩
  · by_contra hday
    rw [Conforms, readFixdate_eq_none (Nat.lt_of_not_le hday)] at hconforms
    cases hconforms.2
  · exact ⟨length_dateToStr hge hle hday, readDateWith_dateToStr hge hle (readFixed_day hday)⟩
  · have hu : readLoosely (dateToStr (gmtime u)) = some u :=
      readDateWith_dateToStr hgeu hleu (read_day u)
    have ht : readLoosely (dateToStr (gmtime t)) = some t :=
      readDateWith_dateToStr hge hle (read_day t)
    rw [heq, ht] at hu
    exact (Option.some.inj hu).symm

/-- Twelve seconds after eight on Thursday, 15 January 1970. -/
theorem conforms_thursday :
    (Conforms (dateToStr (gmtime 1238412)) 1238412 ↔ 10 ≤ (gmtime 1238412).tm_mday) ∧
    ∀ u, 1970 ≤ yearOf u → yearOf u ≤ 9999 →
      dateToStr (gmtime u) = dateToStr (gmtime 1238412) → u = 1238412 :=
  conforms_iff 1238412 (by decide) (by decide)

/-- The first of January 1970 is printed with 28 characters. -/
theorem not_conforms_epoch :
    1970 ≤ yearOf 0 ∧ yearOf 0 ≤ 9999 ∧
      dateToStr (gmtime 0) = lit "Thu, 1 Jan 1970 00:00:00 GMT" ∧
      ¬ Conforms (dateToStr (gmtime 0)) 0 := by
  refine ⟨by decide, by decide, by decide, fun h => ?_⟩
  exact absurd h.1 (by decide)
