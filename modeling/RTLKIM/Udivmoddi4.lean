import RTLKIM.Lib.Loop

/-!
# The division of 64 bits

`__udivmoddi4`: the denominator is moved to the left until its first bit is set, then subtracted where
it fits on its way back.
-/

namespace RTLKIM

/-- The variables of `__udivmoddi4`. -/
structure Udivmoddi4 where
  num : UInt64
  den : UInt64
  quot : UInt64
  qbit : UInt64

namespace Udivmoddi4

/-- A round of the first loop. -/
def justify (s : Udivmoddi4) : Udivmoddi4 :=
  { s with
    den := s.den <<< 1
    qbit := s.qbit <<< 1 }

/-- A round of the second loop. -/
def subtract (s : Udivmoddi4) : Udivmoddi4 :=
  let s := if s.den ≤ s.num then
      { s with
        num := s.num - s.den
        quot := s.quot + s.qbit }
    else s
  { s with
    den := s.den >>> 1
    qbit := s.qbit >>> 1 }

end Udivmoddi4

open Udivmoddi4 in
/-- `__udivmoddi4`, with the quotient and what is in `*rem_p` after it. It is `none` when it divides by
zero, or when a loop does not end in `fuel` tests; `remP` is `none` when `rem_p` is `NULL`. -/
def udivmoddi4 (fuel : ℕ) (num den : UInt64) (remP : Option UInt64) :
    Option (UInt64 × Option UInt64) :=
  let s : Udivmoddi4 := ⟨num, den, 0, 1⟩
  if den = 0 then none
  else
    (whileLoop (fun s => 0 ≤ s.den.toInt64) justify fuel s).bind fun s =>
      (whileLoop (fun s => s.qbit ≠ 0) subtract fuel s).map fun s =>
        (s.quot, remP.map fun _ => s.num)

end RTLKIM
