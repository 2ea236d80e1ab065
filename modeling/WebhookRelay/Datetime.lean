import Mathlib.Algebra.Group.Nat.Defs
import Mathlib.Order.Lattice
import WebhookRelay.Encoding

/-
  The `datetime` of CPython: the proleptic Gregorian calendar with years 1 to
  9999, microsecond resolution, values naive or aware with a fixed offset.

  A clock reading is its number of microseconds since 0001-01-01T00:00:00
  (`Moment`); the calendar fields are computed from it as `_ord2ymd` and
  `_ymd2ord` do. A `Datetime` carries the proof that its UTC reading is within
  range, so the conversion to UTC is total; `Datetime.make?` is the check that
  otherwise raises OverflowError.

  What is proved:
    1. `ord2ymd_spec`: the calendar conversion loses no day;
    2. `fromisoformat_isoformat`: the ISO text of a UTC datetime parses back to
       it, to the microsecond.
-/
namespace Py

/-- Days from 0001-01-01 to 9999-12-31. -/
def maxDays : Nat := 3652059

def dayMicros : Nat := 86400000000

def maxMicros : Nat := maxDays * dayMicros

/-- A clock reading between `datetime.min` and `datetime.max`. -/
structure Moment where
  micros : Nat
  lt_max : micros < maxMicros
  deriving DecidableEq

theorem Moment.ext_micros {a b : Moment} (h : a.micros = b.micros) : a = b := by
  cases a; cases b; cases h; rfl

instance : LinearOrder Moment :=
  LinearOrder.lift' Moment.micros (fun _ _ h => Moment.ext_micros h)

theorem Moment.lt_def {a b : Moment} : a < b ↔ a.micros < b.micros := Iff.rfl

/-- A `datetime`: its clock reading and, when it is aware, its offset from UTC
in microseconds. Its UTC reading is representable. -/
structure Datetime where
  wall : Moment
  offset : Option Int
  utc_ok : 0 ≤ (wall.micros : Int) - offset.getD 0 ∧ (wall.micros : Int) - offset.getD 0 < maxMicros
  deriving DecidableEq

/-- The UTC reading; a naive value is read as UTC. -/
def Datetime.utc (d : Datetime) : Moment :=
  ⟨((d.wall.micros : Int) - d.offset.getD 0).toNat, by have := d.utc_ok; omega⟩

/-- A value of `datetime.now(timezone.utc)` and of every conversion to UTC. -/
def Datetime.ofUtc (m : Moment) : Datetime :=
  ⟨m, some 0, by have := m.lt_max; simp only [Option.getD_some]; omega⟩

/-- `value.replace(tzinfo=None)` of a UTC reading. -/
def Datetime.naive (m : Moment) : Datetime :=
  ⟨m, none, by have := m.lt_max; simp only [Option.getD_none]; omega⟩

/-- `astimezone(timezone.utc)` of a clock reading with an offset; `none` is
OverflowError. -/
def Datetime.make? (wall : Moment) (offset : Option Int) : Option Datetime :=
  if h : 0 ≤ (wall.micros : Int) - offset.getD 0 ∧ (wall.micros : Int) - offset.getD 0 < maxMicros then
    some ⟨wall, offset, h⟩
  else none

@[simp] theorem Datetime.utc_ofUtc (m : Moment) : (Datetime.ofUtc m).utc = m := by
  apply Moment.ext_micros
  simp [Datetime.utc, Datetime.ofUtc]

@[simp] theorem Datetime.utc_naive (m : Moment) : (Datetime.naive m).utc = m := by
  apply Moment.ext_micros
  simp [Datetime.utc, Datetime.naive]

theorem Datetime.make?_utc (m : Moment) : Datetime.make? m (some 0) = some (.ofUtc m) := by
  have h : 0 ≤ (m.micros : Int) - (some 0).getD 0 ∧ (m.micros : Int) - (some 0).getD 0 < maxMicros :=
    (Datetime.ofUtc m).utc_ok
  rw [Datetime.make?, dif_pos h]
  rfl

/-! ## The calendar -/

def isLeap (y : Nat) : Bool := y % 4 == 0 && (y % 100 != 0 || y % 400 == 0)

/-- Days in the year before a month, in a common year. -/
def daysBeforeMonth (m : Nat) : Nat :=
  [0, 0, 31, 59, 90, 120, 151, 181, 212, 243, 273, 304, 334].getD m 0

def daysInMonth (leap : Bool) (m : Nat) : Nat :=
  if m = 2 ∧ leap then 29 else [0, 31, 28, 31, 30, 31, 30, 31, 31, 30, 31, 30, 31].getD m 0

/-- Month and day of the `n`-th day of a year, counted from 0. -/
def monthDay (leap : Bool) (n : Nat) : Nat × Nat :=
  let month := (n + 50) / 32
  let preceding := daysBeforeMonth month + (if 2 < month ∧ leap then 1 else 0)
  if n < preceding then
    (month - 1, n - (preceding - daysInMonth leap (month - 1)) + 1)
  else (month, n - preceding + 1)

/-- `_ord2ymd`, of days counted from 0001-01-01 as 0. -/
def ord2ymd (n : Nat) : Nat × Nat × Nat :=
  let n400 := n / 146097
  let n := n % 146097
  let n100 := n / 36524
  let n := n % 36524
  let n4 := n / 1461
  let n := n % 1461
  let n1 := n / 365
  let n := n % 365
  let year := n400 * 400 + 1 + n100 * 100 + n4 * 4 + n1
  if n1 = 4 ∨ n100 = 4 then (year - 1, 12, 31)
  else
    let md := monthDay (n1 == 3 && (n4 != 24 || n100 == 3)) n
    (year, md.1, md.2)

def daysBeforeYear (y : Nat) : Nat := (y - 1) * 365 + (y - 1) / 4 - (y - 1) / 100 + (y - 1) / 400

/-- `_ymd2ord`, counted from 0. -/
def ymd2ord (y m d : Nat) : Nat :=
  daysBeforeYear y + daysBeforeMonth m + (if 2 < m ∧ isLeap y then 1 else 0) + d - 1

/-- The dates `datetime()` admits. -/
def ValidDate (y m d : Nat) : Prop :=
  1 ≤ y ∧ y ≤ 9999 ∧ 1 ≤ m ∧ m ≤ 12 ∧ 1 ≤ d ∧ d ≤ daysInMonth (isLeap y) m

instance (y m d : Nat) : Decidable (ValidDate y m d) := inferInstanceAs (Decidable (_ ∧ _))

/-- Month and day of a day of the year are those of a date, and give the day
back. -/
theorem monthDay_spec : ∀ (leap : Bool) (n : Nat), n < (if leap then 366 else 365) →
    1 ≤ (monthDay leap n).1 ∧ (monthDay leap n).1 ≤ 12 ∧ 1 ≤ (monthDay leap n).2 ∧
      (monthDay leap n).2 ≤ daysInMonth leap (monthDay leap n).1 ∧
      daysBeforeMonth (monthDay leap n).1 + (if 2 < (monthDay leap n).1 ∧ leap then 1 else 0) +
        (monthDay leap n).2 - 1 = n := by
  decide +kernel

/-- The last day of a leap year, which the conversion treats apart. -/
theorem ymd2ord_dec31 (y : Nat) (h : isLeap y = true) :
    ymd2ord y 12 31 = daysBeforeYear y + 365 := by
  simp only [ymd2ord, h, daysBeforeMonth]
  simp

/-- The days before a year, by its place in the cycles. -/
theorem daysBeforeYear_eq {y a b c d : Nat} (h : y = 400 * a + 100 * b + 4 * c + d + 1) (hb : b ≤ 3)
    (hc : c ≤ 24) (hd : d ≤ 3) :
    daysBeforeYear y = 146097 * a + (36524 * b + (1461 * c + 365 * d)) := by
  have h0 : y - 1 = 400 * a + 100 * b + 4 * c + d := by omega
  have h4 : (y - 1) / 4 = 100 * a + 25 * b + c := by omega
  have h100 : (y - 1) / 100 = 4 * a + b := by omega
  have h400 : (y - 1) / 400 = a := by omega
  rw [daysBeforeYear, h4, h100, h400, h0]
  omega

/-- Every day is a date, and the date gives the day back. -/
theorem ord2ymd_spec (n : Nat) (hn : n < maxDays) :
    ValidDate (ord2ymd n).1 (ord2ymd n).2.1 (ord2ymd n).2.2 ∧
      ymd2ord (ord2ymd n).1 (ord2ymd n).2.1 (ord2ymd n).2.2 = n := by
  unfold maxDays at hn
  obtain ⟨a, r, rfl, hr⟩ : ∃ a r, n = 146097 * a + r ∧ r < 146097 :=
    ⟨n / 146097, n % 146097, (Nat.div_add_mod _ _).symm, Nat.mod_lt _ (by decide)⟩
  obtain ⟨b, r, rfl, hr'⟩ : ∃ b r', r = 36524 * b + r' ∧ r' < 36524 :=
    ⟨r / 36524, r % 36524, (Nat.div_add_mod _ _).symm, Nat.mod_lt _ (by decide)⟩
  obtain ⟨c, r, rfl, hr''⟩ : ∃ c r', r = 1461 * c + r' ∧ r' < 1461 :=
    ⟨r / 1461, r % 1461, (Nat.div_add_mod _ _).symm, Nat.mod_lt _ (by decide)⟩
  obtain ⟨d, r, rfl, hd⟩ : ∃ d r', r = 365 * d + r' ∧ r' < 365 :=
    ⟨r / 365, r % 365, (Nat.div_add_mod _ _).symm, Nat.mod_lt _ (by decide)⟩
  have e1 : (146097 * a + (36524 * b + (1461 * c + (365 * d + r)))) / 146097 = a := by omega
  have e2 : (146097 * a + (36524 * b + (1461 * c + (365 * d + r)))) % 146097 =
      36524 * b + (1461 * c + (365 * d + r)) := by omega
  have e3 : (36524 * b + (1461 * c + (365 * d + r))) / 36524 = b := by omega
  have e4 : (36524 * b + (1461 * c + (365 * d + r))) % 36524 = 1461 * c + (365 * d + r) := by omega
  have e5 : (1461 * c + (365 * d + r)) / 1461 = c := by omega
  have e6 : (1461 * c + (365 * d + r)) % 1461 = 365 * d + r := by omega
  have e7 : (365 * d + r) / 365 = d := by omega
  have e8 : (365 * d + r) % 365 = r := by omega
  simp only [ord2ymd, e1, e2, e3, e4, e5, e6, e7, e8]
  have hb : b ≤ 4 := by omega
  have hc : c ≤ 24 := by omega
  have hd' : d ≤ 4 := by omega
  split
  · -- the 366th day of a leap year: the fourth of four years, or of four centuries
    next h =>
    obtain ⟨hr0, hy⟩ : r = 0 ∧
        a * 400 + 1 + b * 100 + c * 4 + d - 1 = 4 * (100 * a + 25 * b + c + d / 4) := by
      omega
    have hleap : isLeap (a * 400 + 1 + b * 100 + c * 4 + d - 1) = true := by
      rw [hy]
      simp only [isLeap, Bool.and_eq_true, Bool.or_eq_true, beq_iff_eq, bne_iff_ne]
      rcases h with h | h <;> omega
    have hv : ValidDate (a * 400 + 1 + b * 100 + c * 4 + d - 1) 12 31 := by
      refine ⟨by omega, by omega, by decide, by decide, by decide, ?_⟩
      simp [daysInMonth]
    refine ⟨hv, ?_⟩
    simp only
    rw [ymd2ord_dec31 _ hleap]
    rcases h with rfl | rfl
    · exact Eq.trans (congrArg (· + 365) (daysBeforeYear_eq (a := a) (b := b) (c := c) (d := 3)
        (by omega) (by omega) (by omega) (by omega))) (by omega)
    · exact Eq.trans (congrArg (· + 365) (daysBeforeYear_eq (a := a) (b := 3) (c := 24) (d := 3)
        (by omega) (by omega) (by omega) (by omega))) (by omega)
  · next h =>
    have hleap : (d == 3 && (c != 24 || b == 3)) = isLeap (a * 400 + 1 + b * 100 + c * 4 + d) := by
      rw [Bool.eq_iff_iff]
      simp only [isLeap, Bool.and_eq_true, Bool.or_eq_true, beq_iff_eq, bne_iff_ne]
      omega
    have hyear := daysBeforeYear_eq (y := a * 400 + 1 + b * 100 + c * 4 + d) (a := a) (b := b)
      (c := c) (d := d) (by omega) (by omega) (by omega) (by omega)
    rw [hleap]
    have hle : a * 400 + 1 + b * 100 + c * 4 + d ≤ 9999 := by omega
    have hge : 1 ≤ a * 400 + 1 + b * 100 + c * 4 + d := by omega
    generalize a * 400 + 1 + b * 100 + c * 4 + d = y at hyear hle hge ⊢
    have hr365 : r < (if isLeap y = true then 366 else 365) := by split <;> omega
    obtain ⟨h1, h2, h3, h4, h5⟩ := monthDay_spec (isLeap y) r hr365
    refine ⟨⟨hge, hle, h1, h2, h3, h4⟩, ?_⟩
    simp only [ymd2ord, hyear]
    omega

/-! ## ISO text -/

def digitChar (n : Nat) : Char := Char.ofNat (48 + n % 10)
def pad2 (n : Nat) : List Char := [digitChar (n / 10), digitChar n]
def pad4 (n : Nat) : List Char :=
  [digitChar (n / 1000), digitChar (n / 100), digitChar (n / 10), digitChar n]
def pad6 (n : Nat) : List Char :=
  [digitChar (n / 100000), digitChar (n / 10000), digitChar (n / 1000), digitChar (n / 100),
    digitChar (n / 10), digitChar n]

/-- The fraction of a second, left out when it is zero. -/
def isoFraction (us : Nat) : List Char := if us = 0 then [] else '.' :: pad6 us

def isoDate (day : Nat) : List Char :=
  pad4 (ord2ymd day).1 ++ '-' :: (pad2 (ord2ymd day).2.1 ++ '-' :: pad2 (ord2ymd day).2.2)

/-- `HH:MM:SS[.ffffff]` of a time of day in microseconds. -/
def isoTime (t : Nat) : List Char :=
  pad2 (t / 3600000000) ++ ':' :: (pad2 (t / 60000000 % 60) ++
    ':' :: (pad2 (t / 1000000 % 60) ++ isoFraction (t % 1000000)))

/-- `+HH:MM[:SS[.ffffff]]`, or nothing for a naive value. -/
def isoOffset : Option Int → List Char
  | none => []
  | some off =>
    let t := off.natAbs
    (if off < 0 then '-' else '+') :: (pad2 (t / 3600000000) ++ ':' :: (pad2 (t / 60000000 % 60) ++
      (if t % 60000000 = 0 then [] else ':' :: (pad2 (t / 1000000 % 60) ++ isoFraction (t % 1000000)))))

/-- `datetime.isoformat()`. -/
def Datetime.isoformat (d : Datetime) : List Char :=
  isoDate (d.wall.micros / dayMicros) ++
    'T' :: (isoTime (d.wall.micros % dayMicros) ++ isoOffset d.offset)

/-! ## Parsing

`datetime_fromisoformat` of `_datetimemodule.c` works on the UTF-8 bytes of the
text and the NUL behind them. What it reads at the end of a part is the byte
that ends the part: the sign of an offset, `Z`, or that NUL.
-/

/-- The byte of an ASCII character. -/
def byte (c : Char) : UInt8 := UInt8.ofNat c.toNat

def digit? (b : UInt8) : Option Nat :=
  if 48 ≤ b.toNat ∧ b.toNat ≤ 57 then some (b.toNat - 48) else none

/-- `parse_digits`: exactly `k` digits, their value, and the rest. -/
def takeDigits : (k acc : Nat) → List UInt8 → Option (Nat × List UInt8)
  | 0, acc, s => some (acc, s)
  | _ + 1, _, [] => none
  | k + 1, acc, b :: s =>
    match digit? b with
    | some v => takeDigits k (acc * 10 + v) s
    | none => none

/-- The first day of ISO week 1. -/
def isoWeek1Monday (y : Nat) : Nat :=
  let first := ymd2ord y 1 1
  if 3 < first % 7 then first - first % 7 + 7 else first - first % 7

/-- The day of an ISO year, week and weekday. -/
def isoWeekDay (y w d : Nat) : Option Nat :=
  let firstWeekday := ymd2ord y 1 1 % 7
  let weeks := if firstWeekday = 3 ∨ (firstWeekday = 2 ∧ isLeap y) then 53 else 52
  if 1 ≤ y ∧ 1 ≤ w ∧ w ≤ weeks ∧ 1 ≤ d ∧ d ≤ 7 then
    let n := isoWeek1Monday y + (w - 1) * 7 + (d - 1)
    if n < maxDays then some n else none
  else none

/-- `_find_isoformat_datetime_separator`, where the date ends; `none` is -1, with
which no date parses. -/
def dateLength (s : List UInt8) : Option Nat :=
  if s.length = 7 then some 7
  else if s[4]? = some (byte '-') then
    if s[5]? = some (byte 'W') then
      if s.length < 8 then none
      else if s[8]? = some (byte '-') then
        if s.length = 9 then none
        -- a hyphen, or a number, in the separator's place
        else if ((s[10]?).bind digit?).isSome then some 8
        else some 10
      else some 8
    else some 10
  else if s[4]? = some (byte 'W') then
    let n := 7 + ((s.drop 7).takeWhile (fun b => (digit? b).isSome)).length
    if n < 9 then some n else if n % 2 = 0 then some 7 else some 8
  else some 8

/-- The hyphen between two parts of a date that has hyphens. -/
def skipHyphen (hyphens : Bool) : List UInt8 → Option (List UInt8)
  | [] => if hyphens then none else some []
  | b :: s => if hyphens then if b = byte '-' then some s else none else some (b :: s)

/-- The week and the weekday of a date, which goes to `n` bytes; `read` are those
before the weekday. The weekday may be missing. -/
def parseWeekDate (y n read : Nat) (hyphens : Bool) (s : List UInt8) : Option Nat :=
  match takeDigits 2 0 s with
  | none => none
  | some (w, s) =>
    if read < n then
      match (skipHyphen hyphens s).bind (takeDigits 1 0) with
      | some (d, _) => isoWeekDay y w d
      | none => none
    else isoWeekDay y w 1

/-- `parse_isoformat_date` of a date that goes to `n` bytes, as the number of the
day. -/
def parseDate (n : Nat) (s : List UInt8) : Option Nat :=
  match takeDigits 4 0 s with
  | none => none
  | some (y, s) =>
    let hyphens := s.head? == some (byte '-')
    let s := if hyphens then s.tail else s
    if s.head? = some (byte 'W') then
      parseWeekDate y n (if hyphens then 8 else 7) hyphens s.tail
    else
      match takeDigits 2 0 s with
      | none => none
      | some (m, s) =>
        match (skipHyphen hyphens s).bind (takeDigits 2 0) with
        | some (d, _) =>
          if n = (if hyphens then 10 else 8) ∧ ValidDate y m d then some (ymd2ord y m d) else none
        | none => none

/-- What `parse_hh_mm_ss_ff` leaves after the fields it has read: nothing, and
whether it stopped at something else than NUL, or a fraction of a second. -/
inductive ClockRest where
  | ended (junk : Bool)
  | fraction (s : List UInt8)
  deriving DecidableEq

/-- The loop of `parse_hh_mm_ss_ff` over at most `k` fields of two digits, up to
the byte `stop`. A byte that is last is not looked at further. -/
def clockFields (stop : UInt8) (separator : Bool) : (k : Nat) → List UInt8 → Option (List Nat × ClockRest)
  | 0, s => some ([], .fraction s)
  | k + 1, s =>
    match takeDigits 2 0 s with
    | none => none
    | some (v, []) => some ([v], .ended (stop != 0))
    | some (v, [c]) => some ([v], .ended (c != 0))
    | some (v, c :: s) =>
      if separator ∧ c = byte ':' then (clockFields stop separator k s).map (fun r => (v :: r.1, r.2))
      else if c = byte '.' ∨ c = byte ',' then some ([v], .fraction s)
      else if separator then none
      else (clockFields stop separator k (c :: s)).map (fun r => (v :: r.1, r.2))

/-- A fraction of a second in microseconds, digits after the sixth ignored, and
whether something else than NUL follows. -/
def parseFraction (stop : UInt8) (s : List UInt8) : Option (Nat × Bool) :=
  let k := min 6 s.length
  (takeDigits k 0 s).map (fun r =>
    (r.1 * 10 ^ (6 - k), (r.2.dropWhile (fun b => (digit? b).isSome)).headD stop != 0))

/-- A time of day as it is read: hours, minutes and seconds with any two digits. -/
structure Clock where
  hour : Nat
  minute : Nat
  second : Nat
  microsecond : Nat
  deriving DecidableEq

def Clock.ofFields (fields : List Nat) (us : Nat) : Clock :=
  ⟨fields.getD 0 0, fields.getD 1 0, fields.getD 2 0, us⟩

def Clock.seconds (t : Clock) : Nat := t.hour * 3600 + t.minute * 60 + t.second

/-- `parse_hh_mm_ss_ff` up to the byte `stop`: the time, and whether something
else than NUL follows it. -/
def parseClock (stop : UInt8) (s : List UInt8) : Option (Clock × Bool) :=
  match clockFields stop (s[2]? == some (byte ':')) 3 s with
  | none => none
  | some (fields, .ended junk) => some (.ofFields fields 0, junk)
  | some (fields, .fraction s) => (parseFraction stop s).map (fun r => (.ofFields fields r.1, r.2))

/-- `tzinfo_from_isoformat_results`: the offset in microseconds, strictly between
-24 and 24 hours. One of less than a second is UTC. -/
def zoneOffset (negative : Bool) (t : Clock) : Option Int :=
  if t.seconds = 0 then some 0
  else
    let us := t.seconds * 1000000 + t.microsecond
    if us < dayMicros then some (if negative then -(us : Int) else us) else none

def isZoneMark (b : UInt8) : Bool := b == byte '+' || b == byte '-' || b == byte 'Z'

/-- The offset of a time zone suffix. What follows the time itself is an error
only without a suffix. -/
def parseZone (junk : Bool) : List UInt8 → Option (Option Int)
  | [] => if junk then none else some none
  | mark :: s =>
    if mark = byte 'Z' then if s.headD 0 = 0 then some (some 0) else none
    else
      match parseClock 0 s with
      | some (t, false) => (zoneOffset (mark == byte '-') t).map some
      | _ => none

/-- `parse_isoformat_time`: the time of day in microseconds and the offset. -/
def parseTime (s : List UInt8) : Option (Nat × Option Int) :=
  let zone := s.dropWhile (fun b => !isZoneMark b)
  match parseClock (zone.headD 0) (s.takeWhile (fun b => !isZoneMark b)) with
  | none => none
  | some (t, junk) =>
    match parseZone junk zone with
    | some off =>
      if t.hour < 24 ∧ t.minute < 60 ∧ t.second < 60 then some (t.seconds * 1000000 + t.microsecond, off)
      else none
    | none => none

/-- The bytes of the separator, by its first one. -/
def separatorBytes (b : UInt8) : Nat :=
  if b.toNat < 0x80 then 1 else if b.toNat / 16 = 14 then 3 else if b.toNat / 16 = 15 then 4 else 2

/-- `datetime.fromisoformat`: clock reading and offset; `none` is ValueError. -/
def fromisoformat (s : List UInt8) : Option (Moment × Option Int) :=
  match dateLength s with
  | none => none
  | some n =>
    match parseDate n s with
    | none => none
    | some day =>
      let time := match s.drop n with
        | [] => some (0, none)
        | b :: rest => parseTime ((b :: rest).drop (separatorBytes b))
      match time with
      | some (t, off) =>
        if h : day * dayMicros + t < maxMicros then some (⟨day * dayMicros + t, h⟩, off) else none
      | none => none

/-- `_sanitize_isoformat_str`: a surrogate where a separator may stand becomes
`T`. -/
def sanitizeSeparator (s : Str) : Str :=
  match [7, 8, 10].find? (fun i => (s[i]?).any CodePoint.isSurrogate) with
  | some i => s.set i (.ofChar 'T')
  | none => s

/-- `datetime.fromisoformat` of a `str`. -/
def fromisoformatStr (s : Str) : Option (Moment × Option Int) :=
  match (sanitizeSeparator s).encode with
  | some l => fromisoformat (utf8Encode l)
  | none => none

example : fromisoformatStr (.ofChars "2024-01-01T".toList) = none := by decide
example : fromisoformatStr (.ofChars "2024-01-01T12.5".toList) =
    fromisoformatStr (.ofChars "20240101 12:00:00,5".toList) := by decide

/-! ## The round trip -/

theorem digit?_digitChar (n : Nat) : digit? (byte (digitChar n)) = some (n % 10) := by
  have key : ∀ k, k < 10 → digit? (byte (Char.ofNat (48 + k))) = some k := by decide
  exact key (n % 10) (Nat.mod_lt _ (by decide))

theorem digitByte_ne {b : UInt8} (h : digit? b = none) (n : Nat) : byte (digitChar n) ≠ b := by
  intro heq
  obtain rfl := heq
  rw [digit?_digitChar] at h
  cases h

/-- A printed digit is not part of the punctuation the parser looks for. -/
theorem digitByte_not_zoneMark (n : Nat) : isZoneMark (byte (digitChar n)) = false := by
  simp only [isZoneMark, Bool.or_eq_false_iff, beq_eq_false_iff_ne]
  exact ⟨⟨digitByte_ne (by decide) n, digitByte_ne (by decide) n⟩, digitByte_ne (by decide) n⟩

theorem asciiBytes_cons (c : Char) (l : List Char) : asciiBytes (c :: l) = byte c :: asciiBytes l := rfl

theorem asciiBytes_append (l r : List Char) : asciiBytes (l ++ r) = asciiBytes l ++ asciiBytes r :=
  List.map_append

theorem asciiBytes_nil : asciiBytes [] = [] := rfl

theorem takeDigits_pad2 {n : Nat} (h : n < 100) (s : List UInt8) :
    takeDigits 2 0 (asciiBytes (pad2 n) ++ s) = some (n, s) := by
  simp only [pad2, asciiBytes_cons, asciiBytes_nil, List.cons_append, List.nil_append, takeDigits, digit?_digitChar]
  have hn : (0 * 10 + n / 10 % 10) * 10 + n % 10 = n := by omega
  rw [hn]

theorem takeDigits_pad4 {n : Nat} (h : n < 10000) (s : List UInt8) :
    takeDigits 4 0 (asciiBytes (pad4 n) ++ s) = some (n, s) := by
  simp only [pad4, asciiBytes_cons, asciiBytes_nil, List.cons_append, List.nil_append, takeDigits, digit?_digitChar]
  have hn : (((0 * 10 + n / 1000 % 10) * 10 + n / 100 % 10) * 10 + n / 10 % 10) * 10 + n % 10 = n := by
    omega
  rw [hn]

theorem takeDigits_pad6 {n : Nat} (h : n < 1000000) : takeDigits 6 0 (asciiBytes (pad6 n)) = some (n, []) := by
  simp only [pad6, asciiBytes_cons, asciiBytes_nil, takeDigits, digit?_digitChar]
  have hn : (((((0 * 10 + n / 100000 % 10) * 10 + n / 10000 % 10) * 10 + n / 1000 % 10) * 10 +
      n / 100 % 10) * 10 + n / 10 % 10) * 10 + n % 10 = n := by
    omega
  rw [hn]

theorem skipHyphen_hyphen (s : List UInt8) : skipHyphen true (byte '-' :: s) = some s := by
  rw [skipHyphen, if_pos rfl, if_pos rfl]

/-- A printed date parses, whatever follows it. -/
theorem parseDate_printed {y m d : Nat} (h : ValidDate y m d) (rest : List UInt8) :
    parseDate 10 (asciiBytes (pad4 y ++ '-' :: (pad2 m ++ '-' :: pad2 d)) ++ rest) = some (ymd2ord y m d) := by
  obtain ⟨_, hy, _, hm, _, hd⟩ := id h
  have hd31 : d < 100 := by
    have key : ∀ leap m, m ≤ 12 → daysInMonth leap m < 100 := by decide
    exact Nat.lt_of_le_of_lt hd (key _ m hm)
  -- a week date would have `W` where the month is
  have hweek : ∀ s, (asciiBytes (pad2 m) ++ s).head? ≠ some (byte 'W') := by
    intro s heq
    exact digitByte_ne (by decide) _ (Option.some.inj heq)
  rw [asciiBytes_append, asciiBytes_cons, asciiBytes_append, asciiBytes_cons, List.append_assoc, List.cons_append, List.append_assoc,
    List.cons_append, parseDate, takeDigits_pad4 (by omega)]
  simp only [List.head?_cons, beq_self_eq_true, if_true, List.tail_cons, if_neg (hweek _),
    takeDigits_pad2 (show m < 100 by omega), skipHyphen_hyphen, Option.bind_some, takeDigits_pad2 hd31, h, and_self]

theorem parseDate_isoDate {day : Nat} (h : day < maxDays) (rest : List UInt8) :
    parseDate 10 (asciiBytes (isoDate day) ++ rest) = some day := by
  obtain ⟨hv, hord⟩ := ord2ymd_spec day h
  rw [isoDate, parseDate_printed hv, hord]

theorem parseFraction_printed {us : Nat} (h : us < 1000000) (stop : UInt8) :
    parseFraction stop (asciiBytes (pad6 us)) = some (us, stop != 0) := by
  have hlen : (asciiBytes (pad6 us)).length = 6 := rfl
  rw [parseFraction, hlen]
  simp only [Nat.min_self, takeDigits_pad6 h, Option.map_some, Nat.sub_self, Nat.pow_zero, Nat.mul_one,
    List.dropWhile_nil, List.headD_nil]

/-- What the loop makes of a field and the colon behind it. -/
theorem clockFields_colon {v k : Nat} (h : v < 100) (stop c : UInt8) (s : List UInt8) :
    clockFields stop true (k + 1) (asciiBytes (pad2 v) ++ byte ':' :: c :: s) =
      (clockFields stop true k (c :: s)).map (fun r => (v :: r.1, r.2)) := by
  rw [clockFields, takeDigits_pad2 h]
  simp only [and_self, if_true]

/-- A printed time of day parses up to any byte that ends it. -/
theorem parseClock_printed {h m sec us : Nat} (hh : h < 100) (hm : m < 100) (hs : sec < 100)
    (hu : us < 1000000) (stop : UInt8) :
    parseClock stop (asciiBytes (pad2 h ++ ':' :: (pad2 m ++ ':' :: (pad2 sec ++ isoFraction us)))) =
      some (⟨h, m, sec, us⟩, stop != 0) := by
  have hform : asciiBytes (pad2 h ++ ':' :: (pad2 m ++ ':' :: (pad2 sec ++ isoFraction us))) =
      asciiBytes (pad2 h) ++ byte ':' :: (asciiBytes (pad2 m) ++ byte ':' :: (asciiBytes (pad2 sec) ++ asciiBytes (isoFraction us))) := by
    simp only [asciiBytes_append, asciiBytes_cons]
  have hcolon : ((asciiBytes (pad2 h) ++ byte ':' :: (asciiBytes (pad2 m) ++ byte ':' ::
      (asciiBytes (pad2 sec) ++ asciiBytes (isoFraction us))))[2]? == some (byte ':')) = true := beq_self_eq_true _
  have hlast : clockFields stop true 1 (asciiBytes (pad2 sec) ++ asciiBytes (isoFraction us)) =
      some ([sec], if us = 0 then .ended (stop != 0) else .fraction (asciiBytes (pad6 us))) := by
    rw [clockFields, takeDigits_pad2 hs, isoFraction]
    by_cases h0 : us = 0
    · rw [if_pos h0, if_pos h0, asciiBytes_nil]
    · rw [if_neg h0, if_neg h0]
      rfl
  have hfields : clockFields stop true 3 (asciiBytes (pad2 h) ++ byte ':' :: (asciiBytes (pad2 m) ++ byte ':' ::
      (asciiBytes (pad2 sec) ++ asciiBytes (isoFraction us)))) =
      some ([h, m, sec], if us = 0 then .ended (stop != 0) else .fraction (asciiBytes (pad6 us))) :=
    calc _ = (clockFields stop true 2 (asciiBytes (pad2 m) ++ byte ':' ::
          (asciiBytes (pad2 sec) ++ asciiBytes (isoFraction us)))).map (fun r => (h :: r.1, r.2)) :=
        clockFields_colon hh stop _ _
      _ = ((clockFields stop true 1 (asciiBytes (pad2 sec) ++ asciiBytes (isoFraction us))).map
          (fun r => (m :: r.1, r.2))).map (fun r => (h :: r.1, r.2)) :=
        congrArg (Option.map _) (clockFields_colon hm stop _ _)
      _ = _ := by rw [hlast]; rfl
  rw [hform, parseClock, hcolon, hfields]
  by_cases h0 : us = 0
  · rw [if_pos h0, h0]
    rfl
  · rw [if_neg h0]
    simp only [parseFraction_printed hu, Option.map_some]
    rfl

theorem pad_not_zoneMark (n : Nat) : (∀ b ∈ asciiBytes (pad2 n), isZoneMark b = false) ∧
    ∀ b ∈ asciiBytes (pad6 n), isZoneMark b = false := by
  simp only [pad2, pad6, asciiBytes_cons, asciiBytes_nil, List.forall_mem_cons, digitByte_not_zoneMark,
    List.not_mem_nil, false_imp_iff, implies_true, and_self]

theorem isoTime_not_zoneMark (t : Nat) : ∀ b ∈ asciiBytes (isoTime t), isZoneMark b = false := by
  have hcolon : isZoneMark (byte ':') = false := by decide
  have hfraction : ∀ us, ∀ b ∈ asciiBytes (isoFraction us), isZoneMark b = false := by
    intro us
    rw [isoFraction]
    split
    · exact List.forall_mem_nil _
    · exact List.forall_mem_cons.mpr ⟨by decide, (pad_not_zoneMark us).2⟩
  simp only [isoTime, asciiBytes_append, asciiBytes_cons, List.forall_mem_append, List.forall_mem_cons]
  exact ⟨(pad_not_zoneMark _).1, hcolon, (pad_not_zoneMark _).1, hcolon, (pad_not_zoneMark _).1, hfraction _⟩

theorem parseTime_isoTime {t : Nat} (h : t < dayMicros) :
    parseTime (asciiBytes (isoTime t ++ isoOffset (some 0))) = some (t, some 0) := by
  unfold dayMicros at h
  have hmark : ∀ b ∈ asciiBytes (isoTime t), (!isZoneMark b) = true := by
    intro b hb
    rw [isoTime_not_zoneMark t b hb, Bool.not_false]
  have hclock : ∀ stop, parseClock stop (asciiBytes (isoTime t)) =
      some (⟨t / 3600000000, t / 60000000 % 60, t / 1000000 % 60, t % 1000000⟩, stop != 0) := by
    intro stop
    exact parseClock_printed (by omega) (by omega) (by omega) (by omega) stop
  have hzone : ∀ junk, parseZone junk (asciiBytes (isoOffset (some 0))) = some (some 0) := by decide
  have htake : (asciiBytes (isoOffset (some 0))).takeWhile (fun b => !isZoneMark b) = [] := by decide
  have hdrop : (asciiBytes (isoOffset (some 0))).dropWhile (fun b => !isZoneMark b) = asciiBytes (isoOffset (some 0)) := by
    decide
  rw [asciiBytes_append, parseTime, List.takeWhile_append_of_pos hmark, List.dropWhile_append_of_pos hmark, htake,
    hdrop, List.append_nil]
  simp only [hclock, hzone]
  rw [if_pos ⟨by omega, by omega, by omega⟩]
  have ht : (t / 3600000000 * 3600 + t / 60000000 % 60 * 60 + t / 1000000 % 60) * 1000000 + t % 1000000 = t := by
    omega
  rw [Clock.seconds, ht]

theorem isoDate_length (day : Nat) : (asciiBytes (isoDate day)).length = 10 := rfl

theorem dateLength_printed (day : Nat) {rest : List UInt8} :
    dateLength (asciiBytes (isoDate day) ++ byte 'T' :: rest) = some 10 := by
  have hlen : (asciiBytes (isoDate day) ++ byte 'T' :: rest).length = 11 + rest.length := by
    simp only [List.length_append, isoDate_length, List.length_cons]
    omega
  have h4 : (asciiBytes (isoDate day) ++ byte 'T' :: rest)[4]? = some (byte '-') := rfl
  have h5 : (asciiBytes (isoDate day) ++ byte 'T' :: rest)[5]? ≠ some (byte 'W') := by
    intro h
    exact digitByte_ne (by decide) _ (Option.some.inj h)
  rw [dateLength, hlen, if_neg (by omega), if_pos h4, if_neg h5]

/-- The ISO text of a UTC datetime parses back to it, to the microsecond. -/
theorem fromisoformat_isoformat (m : Moment) :
    fromisoformat (asciiBytes (Datetime.isoformat (.ofUtc m))) = some (m, some 0) := by
  have hm := m.lt_max
  have hdays : m.micros / dayMicros < maxDays :=
    Nat.div_lt_of_lt_mul (by rw [Nat.mul_comm]; exact hm)
  have htime : m.micros % dayMicros < dayMicros := Nat.mod_lt _ (by decide)
  have hwhole : m.micros / dayMicros * dayMicros + m.micros % dayMicros = m.micros :=
    Nat.div_add_mod' _ _
  have hform : asciiBytes (Datetime.isoformat (.ofUtc m)) =
      asciiBytes (isoDate (m.micros / dayMicros)) ++
        byte 'T' :: asciiBytes (isoTime (m.micros % dayMicros) ++ isoOffset (some 0)) := rfl
  have hdrop : (asciiBytes (isoDate (m.micros / dayMicros)) ++
      byte 'T' :: asciiBytes (isoTime (m.micros % dayMicros) ++ isoOffset (some 0))).drop 10 =
        byte 'T' :: asciiBytes (isoTime (m.micros % dayMicros) ++ isoOffset (some 0)) := rfl
  have hsep : ∀ s, (byte 'T' :: s).drop (separatorBytes (byte 'T')) = s := fun _ => rfl
  rw [hform, fromisoformat, dateLength_printed]
  simp only [hdrop, hsep, parseDate_isoDate hdays, parseTime_isoTime htime, hwhole]
  rw [dif_pos hm]

/-! ## ISO text as a `str` -/

theorem sanitizeSeparator_ofChars (l : List Char) : sanitizeSeparator (.ofChars l) = .ofChars l := by
  have hnone : ∀ i : Nat, ((Str.ofChars l)[i]?).any CodePoint.isSurrogate = false := by
    intro i
    rw [Str.ofChars, List.getElem?_map]
    cases l[i]? with
    | none => rfl
    | some c => exact ofChar_not_surrogate c
  have hfind : [7, 8, 10].find? (fun i => ((Str.ofChars l)[i]?).any CodePoint.isSurrogate) = none :=
    List.find?_eq_none.mpr (fun i _ => by rw [hnone i]; exact Bool.false_ne_true)
  rw [sanitizeSeparator, hfind]


theorem pad_ascii (n : Nat) : (∀ c ∈ pad2 n, c.toNat < 0x80) ∧ (∀ c ∈ pad4 n, c.toNat < 0x80) ∧
    ∀ c ∈ pad6 n, c.toNat < 0x80 := by
  have hdigit : ∀ k, (digitChar k).toNat < 0x80 := by
    intro k
    have key : ∀ i < 10, (Char.ofNat (48 + i)).toNat < 0x80 := by decide
    exact key (k % 10) (Nat.mod_lt _ (by decide))
  simp only [pad2, pad4, pad6, List.forall_mem_cons, hdigit, List.not_mem_nil, false_imp_iff, implies_true,
    and_self]

theorem isoformat_ascii (m : Moment) : ∀ c ∈ (Datetime.ofUtc m).isoformat, c.toNat < 0x80 := by
  have hfraction : ∀ us, ∀ c ∈ isoFraction us, c.toNat < 0x80 := by
    intro us
    rw [isoFraction]
    split
    · exact List.forall_mem_nil _
    · exact List.forall_mem_cons.mpr ⟨by decide, (pad_ascii us).2.2⟩
  have hoffset : ∀ c ∈ isoOffset (some 0), c.toNat < 0x80 := by
    rw [show isoOffset (some 0) = ['+', '0', '0', ':', '0', '0'] from rfl]
    simp only [List.forall_mem_cons, List.not_mem_nil, false_imp_iff, implies_true, and_true]
    decide
  have hcolon : ':'.toNat < 0x80 := by decide
  have hhyphen : '-'.toNat < 0x80 := by decide
  simp only [Datetime.isoformat, isoDate, isoTime, List.forall_mem_append, List.forall_mem_cons]
  exact ⟨⟨(pad_ascii _).2.1, hhyphen, (pad_ascii _).1, hhyphen, (pad_ascii _).1⟩, by decide,
    ⟨(pad_ascii _).1, hcolon, (pad_ascii _).1, hcolon, (pad_ascii _).1, hfraction _⟩, hoffset⟩

/-- The ISO text of a UTC datetime, as a `str`. -/
theorem fromisoformatStr_isoformat (m : Moment) :
    fromisoformatStr (.ofChars (Datetime.isoformat (.ofUtc m))) = some (m, some 0) := by
  rw [fromisoformatStr, sanitizeSeparator_ofChars, encode_ofChars]
  simp only [utf8Encode_ascii (isoformat_ascii _), fromisoformat_isoformat]

end Py
