import Mathlib.Data.Rat.Floor

/-!
# Instants and durations of Go's `time` package

An instant is a number of nanoseconds; a duration is a 64-bit number of nanoseconds, so multiplying seconds into one
wraps around and the difference of two instants saturates.  `Duration.Seconds` is a float64: it is computed here with
the rounding of that format (to nearest, ties to even, 53 significant bits), the exponent range aside, which
durations do not reach.
-/

namespace GoTime

abbrev Time := Int

abbrev Duration := Int

/-- `time.Second`. -/
def second : Duration := 1000000000

/-- `time.Duration(n) * time.Second`. -/
def seconds (n : Int) : Duration := Int.bmod (n * second) (2 ^ 64)

/-- `t.Add(d)`. -/
def add (t : Time) (d : Duration) : Time := t + d

/-- `t.After(u)`. -/
def after (t u : Time) : Bool := decide (u < t)

/-- `t.Sub(u)`. -/
def sub (t u : Time) : Duration := max (-2 ^ 63) (min (2 ^ 63 - 1) (t - u))

/-- The exponent `e` with `2 ^ e ≤ x < 2 ^ (e + 1)`, for positive `x`. -/
def exponent (x : Rat) : Int :=
  let e := (x.num.natAbs.log2 : Int) - (x.den.log2 : Int)
  if (2 : Rat) ^ e ≤ x then e else e - 1

/-- The nearest integer, an even one at a tie. -/
def roundEven (x : Rat) : Int :=
  let f := x.floor
  let r := x - f
  if r < 1 / 2 then f else if 1 / 2 < r then f + 1 else if f % 2 = 0 then f else f + 1

/-- The nearest float64. -/
def float64 (x : Rat) : Rat :=
  if x = 0 then 0
  else
    let ulp := (2 : Rat) ^ (exponent (if x < 0 then -x else x) - 52)
    roundEven (x / ulp) * ulp

/-- `d.Seconds()`: whole seconds and the rest divided by `1e9`, added as float64. -/
def inSeconds (d : Duration) : Rat :=
  float64 (float64 (d.tdiv second) + float64 (float64 (d.tmod second) / 1000000000))

/-- `int64(d.Seconds())`, which truncates toward zero. -/
def wholeSeconds (d : Duration) : Int :=
  if inSeconds d < 0 then (inSeconds d).ceil else (inSeconds d).floor

end GoTime
