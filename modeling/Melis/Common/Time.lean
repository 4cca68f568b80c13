import Melis.Common.F64

/-!
# `Instant` and `Duration`

Both are counted in nanoseconds, an `Instant` from the origin of the monotonic
clock. The code panics where `now + duration` lies beyond `Instant.last`; the model goes
on, and the results to which that matters speak of runs whose deadlines fit.
-/

namespace Melis

/-- `std::time::Instant`, in nanoseconds since the clock's origin. -/
abbrev Instant := ℕ

/-- The last `Instant` there is: its seconds are an `i64`. -/
def Instant.last : Instant := 2 ^ 63 * 10 ^ 9 - 1

/-- `std::time::Duration`, in nanoseconds. -/
abbrev Duration := ℕ

/-- `Duration::from_secs`. -/
def Duration.fromSecs (secs : ℕ) : Duration := secs * 10 ^ 9

/-- `Duration::as_secs`: whole seconds. -/
def Duration.asSecs (d : Duration) : ℕ := d / 10 ^ 9

/-- `Duration::as_secs_f64`. -/
def Duration.asSecsF64 (d : Duration) : F64 := .finite ((d : ℚ) / 10 ^ 9)

/-- `Instant::checked_sub`: `None` before the clock's origin. -/
def Instant.checkedSub (now : Instant) (d : Duration) : Option Instant :=
  if d ≤ now then some (now - d) else none

end Melis
