import DatahubEdge.EdgeData

/-!
# The timestamp of a data message

`SendDataMessage` reads the caller's `Time` with `strptime`, sends it through
`mktime` and `gmtime_r`, prints it with `strftime` and appends what follows
the last dot of `Time`.  The C library functions are those of glibc in the C
locale with the time zone UTC.
-/

namespace DatahubEdge.Timestamp

/-- The members of `struct tm` that are read, with `tm_year` counted from the
year 0 and `tm_mon` from 1. -/
structure Tm where
  year : Nat
  mon : Nat
  mday : Nat
  hour : Nat
  min : Nat
  sec : Nat
  deriving DecidableEq

/-! ## `strptime(…, "%Y-%m-%d %H:%M:%S", …)` -/

def isspace (c : UInt8) : Bool := c == 32 || (9 ≤ c && c ≤ 13)

def isdigit (c : UInt8) : Bool := 48 ≤ c && c ≤ 57

def skipSpaces (rp : CString) : CString := rp.dropWhile isspace

/-- At most `n` digits, as long as the value read so far may be extended
without exceeding `hi`. -/
def readDigits (hi : Nat) : Nat → Nat → CString → Nat × CString
  | n + 1, val, c :: rp =>
      if isdigit c && val * 10 ≤ hi then
        readDigits hi n (val * 10 + (c.toNat - 48)) rp
      else (val, c :: rp)
  | _, val, rp => (val, rp)

/-- A number field of at most `n` digits between `lo` and `hi`, with leading
space skipped. -/
def getNumber (lo hi n : Nat) (rp : CString) : Option (Nat × CString) :=
  match skipSpaces rp with
  | [] => none
  | c :: rest =>
      if isdigit c then
        let (val, rp') := readDigits hi n 0 (c :: rest)
        if lo ≤ val ∧ val ≤ hi then some (val, rp') else none
      else none

def matchChar (c : UInt8) : CString → Option CString
  | [] => none
  | c' :: rp => if c' = c then some rp else none

/-- What follows the seconds is not read. -/
def strptime (rp : CString) : Option Tm := do
  let (year, rp) ← getNumber 0 9999 4 rp
  let rp ← matchChar 45 rp
  let (mon, rp) ← getNumber 1 12 2 rp
  let rp ← matchChar 45 rp
  let (mday, rp) ← getNumber 1 31 2 rp
  let (hour, rp) ← getNumber 0 23 2 (skipSpaces rp)
  let rp ← matchChar 58 rp
  let (min, rp) ← getNumber 0 59 2 rp
  let rp ← matchChar 58 rp
  let (sec, _) ← getNumber 0 61 2 rp
  return { year, mon, mday, hour, min, sec }

/-! ## `mktime` followed by `gmtime_r` -/

def isLeap (year : Nat) : Bool :=
  year % 4 == 0 && (year % 100 != 0 || year % 400 == 0)

def daysInMonth (year mon : Nat) : Nat :=
  if mon = 2 then if isLeap year then 29 else 28
  else if mon = 4 ∨ mon = 6 ∨ mon = 9 ∨ mon = 11 then 30
  else 31

/-- Carry out-of-range members into the next one.  On what `strptime` accepts
one carry at each member is enough.  `strptime` leaves `tm_isdst` unset, which
`mktime` reads: with the time zone UTC the two functions are assumed to be the
identity on valid dates all the same. -/
def carry (tm : Tm) : Tm :=
  let min := tm.min + tm.sec / 60
  let hour := tm.hour + min / 60
  let mday := tm.mday + hour / 24
  let past := daysInMonth tm.year tm.mon < mday
  let mon := if past then tm.mon + 1 else tm.mon
  { year := if 12 < mon then tm.year + 1 else tm.year
    mon := if 12 < mon then 1 else mon
    mday := if past then mday - daysInMonth tm.year tm.mon else mday
    hour := hour % 24
    min := min % 60
    sec := tm.sec % 60 }

/-! ## `strftime(…, "%Y-%m-%dT%H:%M:%S", …)` -/

def twoDigits (n : Nat) : CString :=
  if n < 10 then 48 :: printNat n else printNat n

def strftime (tm : Tm) : CString :=
  printNat tm.year ++ 45 :: twoDigits tm.mon ++ 45 :: twoDigits tm.mday ++
    84 :: twoDigits tm.hour ++ 58 :: twoDigits tm.min ++
    58 :: twoDigits tm.sec

/-! ## The `ts` member -/

/-- `strrchr`: the tail from the last occurrence of `c`. -/
def strrchr (c : UInt8) : CString → Option CString
  | [] => none
  | a :: s => (strrchr c s).or (if a = c then some (a :: s) else none)

/-- `TS_BUF_LEN`. -/
def tsBufLen : Nat := 256

/-- The string added under `ts`, none when `strptime` fails.  `now` is what
`_getTime` left in the buffer `ts`.  A NULL argument of `%s` prints as
`(null)`. -/
def tsMember (time : Option CString) (now : CString) :
    Except Fault (Option CString) :=
  match time with
  | none => .ok (some now)
  | some text =>
      let tld := strrchr 46 text
      match strptime text with
      | none => .ok none
      | some ltm =>
          let ts := strftime (carry ltm) ++ tld.getD (cstr "(null)")
          if ts.length < tsBufLen then .ok (some ts)
          else .error .bufferOverflow

/-- The timestamp fails only by writing past the buffer. -/
theorem tsMember_error {time : Option CString} {now : CString} {e : Fault}
    (h : tsMember time now = .error e) : e = .bufferOverflow := by
  unfold tsMember at h
  split at h
  · cases h
  · dsimp only at h
    split at h
    · cases h
    · split at h
      · cases h
      · cases h
        rfl

example :
    tsMember (some (cstr "2020-02-31 23:59:60.5")) [] =
      .ok (some (cstr "2020-03-03T00:00:00.5")) := by decide

end DatahubEdge.Timestamp
