import Proforma.Calendar.Date

/-! Times of day, moments with an offset from universal time, and the values that carry a date. -/
namespace Proforma

/-- A time of day. In a leap second the nanoseconds run on past one second. -/
structure TimeOfDay where
  hour : Nat
  minute : Nat
  second : Nat
  nanosecond : Nat
  deriving DecidableEq, Repr

namespace TimeOfDay

def midnight : TimeOfDay := ⟨0, 0, 0, 0⟩

/-- The time, if a day has it. Second 60 stands for a leap second. -/
def ofFields? (hour minute second nanosecond : Nat) : Option TimeOfDay :=
  if hour < 24 ∧ minute < 60 ∧ nanosecond < 1000000000 then
    if second < 60 then some ⟨hour, minute, second, nanosecond⟩
    else if second = 60 then some ⟨hour, minute, 59, 1000000000 + nanosecond⟩
    else none
  else none

/-- Second as shown on a clock, 60 in a leap second. -/
def shownSecond (t : TimeOfDay) : Nat := t.second + t.nanosecond / 1000000000

/-- Nanoseconds as shown on a clock. -/
def shownNanosecond (t : TimeOfDay) : Nat := t.nanosecond % 1000000000

def secondOfDay (t : TimeOfDay) : Nat := 3600 * t.hour + 60 * t.minute + t.second

def hour12 (t : TimeOfDay) : Nat := if t.hour % 12 = 0 then 12 else t.hour % 12

def isAfternoon (t : TimeOfDay) : Bool := 12 ≤ t.hour

end TimeOfDay

/-- A local date and time, and how many seconds it is ahead of universal time. -/
structure Moment where
  date : Date
  time : TimeOfDay
  offset : Int
  deriving DecidableEq, Repr

/-- What a date pattern can be applied to: a date with as much more as is known. -/
inductive Temporal where
  | date (d : Date)
  | clock (d : Date) (t : TimeOfDay)
  | moment (m : Moment)
  deriving DecidableEq, Repr

namespace Temporal

def day : Temporal → Date
  | date d | clock d _ => d
  | moment m => m.date

def time? : Temporal → Option TimeOfDay
  | date _ => none
  | clock _ t => some t
  | moment m => some m.time

def offset? : Temporal → Option Int
  | moment m => some m.offset
  | _ => none

/-- A bare date means the midnight that begins it. -/
def withTime : Temporal → Temporal
  | date d => clock d .midnight
  | t => t

end Temporal

end Proforma
