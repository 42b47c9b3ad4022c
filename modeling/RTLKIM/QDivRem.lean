import RTLKIM.Lib.Loop
import Mathlib.Logic.Function.Basic

/-!
# The division of 64 bits by digits

`__qdivrem` with `__udivdi3` and `__umoddi3`: the long division of `div64.c`, by digits of 16 bits. The
arrays have five digits, of which the first is the leading one; `vspace` and `qspace` start with
whatever is on the stack. An access out of an array has no result.
-/

namespace RTLKIM

/-- An array of digits. -/
abbrev Digits := ℕ → UInt16

namespace Digits

def get (p : Digits) (i : ℕ) : Option UInt16 := if i < 5 then some (p i) else none

def set (p : Digits) (i : ℕ) (d : UInt16) : Option Digits :=
  if i < 5 then some (Function.update p i d) else none

end Digits

namespace QDivRem

/-- `HHALF`. -/
def hhalf (x : UInt32) : UInt32 := x >>> 16

/-- `LHALF`. -/
def lhalf (x : UInt32) : UInt32 := x &&& 0xFFFF

/-- `COMBINE`. -/
def combine (a b : UInt32) : UInt32 := a <<< 16 ||| b

/-- The digits of a number, at the indices 1 to 4 of an array. -/
def split (p : Digits) (x : UInt64) : Digits :=
  let h := (x >>> 32).toUInt32
  let l := x.toUInt32
  Function.update (Function.update (Function.update (Function.update p
    1 (hhalf h).toUInt16) 2 (lhalf h).toUInt16) 3 (hhalf l).toUInt16) 4 (lhalf l).toUInt16

/-- The number of which `tmp.ul` has these digits. -/
def join (d₁ d₂ d₃ d₄ : UInt16) : UInt64 :=
  (combine d₁.toUInt32 d₂.toUInt32).toUInt64 <<< 32 ||| (combine d₃.toUInt32 d₄.toUInt32).toUInt64

/-- The number at the indices 1 to 4 of an array. -/
def joinDigits (p : Digits) : Option UInt64 := do
  let d₁ ← p.get 1
  let d₂ ← p.get 2
  let d₃ ← p.get 3
  let d₄ ← p.get 4
  pure (join d₁ d₂ d₃ d₄)

/-- The loop that goes past the leading zeros of the divisor: the number of its digits, and where `v`
points to. It stops early at one digit, with `v` one before. -/
def skipZeros (v : Digits) : ℕ → ℕ → Option (ℕ × ℕ)
  | 0, _ => none
  | n + 1, p => do
    let d ← v.get (p + 1)
    if d = 0 then
      if n = 1 then pure (1, p) else skipZeros v n (p + 1)
    else pure (n + 1, p)

/-- The same for the dividend, where `m` digits of the quotient after the first are left. -/
def skipDividend (u : Digits) (m p : ℕ) : Option (ℕ × ℕ) := do
  let d ← u.get (p + 1)
  if d = 0 then
    match m with
    | 0 => none
    | m + 1 => skipDividend u m (p + 1)
  else pure (m, p)

/-- The division by one digit; by zero it has no result. -/
def oneDigit (u : Digits) (t : UInt32) (arq : Option UInt64) : Option (UInt64 × Option UInt64) := do
  let u₁ ← u.get 1
  let u₂ ← u.get 2
  let u₃ ← u.get 3
  let u₄ ← u.get 4
  if t = 0 then none
  let q₁ := (u₁.toUInt32 / t).toUInt16
  let rbj := combine (u₁.toUInt32 % t) u₂.toUInt32
  let q₂ := (rbj / t).toUInt16
  let rbj := combine (rbj % t) u₃.toUInt32
  let q₃ := (rbj / t).toUInt16
  let rbj := combine (rbj % t) u₄.toUInt32
  let q₄ := (rbj / t).toUInt16
  pure (join q₁ q₂ q₃ q₄, arq.map fun _ => (rbj % t).toUInt64)

/-- The loop that zeroes the quotient's digits below `i`. -/
def zeroDigits : ℕ → Digits → Option Digits
  | 0, q => some q
  | i + 1, q => (q.set i 0).bind (zeroDigits i)

/-- `shl`, on the digits from `p` on. -/
def shl (a : Digits) (p len : ℕ) (sh : UInt32) : Option Digits := do
  let a ← (List.range len).foldlM (fun a i => do
    let hi ← a.get (p + i)
    let lo ← a.get (p + (i + 1))
    a.set (p + i) (lhalf (hi.toUInt32 <<< sh) ||| lo.toUInt32 >>> (16 - sh)).toUInt16) a
  let hi ← a.get (p + len)
  a.set (p + len) (lhalf (hi.toUInt32 <<< sh)).toUInt16

/-- The loop of D3, entered at `qhat_too_big` or at its test, of so many rounds at most. -/
def adjust (v₁ v₂ uj₂ : UInt32) : ℕ → Bool → UInt32 → UInt32 → Option UInt32
  | 0, _, _, _ => none
  | fuel + 1, tooBig, qhat, rhat =>
    if tooBig = true ∨ combine rhat uj₂ < v₂ * qhat then
      if 0x10000 ≤ rhat + v₁ then some (qhat - 1)
      else adjust v₁ v₂ uj₂ fuel false (qhat - 1) (rhat + v₁)
    else some qhat

/-- D3: an estimate of a digit of the quotient. -/
def estimate (fuel : ℕ) (v₁ v₂ uj₀ uj₁ uj₂ : UInt32) : Option UInt32 :=
  if uj₀ = v₁ then adjust v₁ v₂ uj₂ fuel true 0x10000 uj₁
  else if v₁ = 0 then none
  else
    let nn := combine uj₀ uj₁
    adjust v₁ v₂ uj₂ fuel false (nn / v₁) (nn % v₁)

/-- The loop of D4, from the digit `i` down, with the borrow that it leaves. `u` and `v` point to
`pu` and `pv`. -/
def mulSub (v : Digits) (pu pv : ℕ) (qhat : UInt32) (j : ℕ) :
    ℕ → Digits → UInt32 → Option (Digits × UInt32)
  | 0, u, t => some (u, t)
  | i + 1, u, t => do
    let d ← u.get (pu + (i + 1 + j))
    let w ← v.get (pv + (i + 1))
    let t := d.toUInt32 - w.toUInt32 * qhat - t
    let u ← u.set (pu + (i + 1 + j)) (lhalf t).toUInt16
    mulSub v pu pv qhat j i u ((0x10000 - hhalf t) &&& 0xFFFF)

/-- The loop of D6, with the carry that it leaves. -/
def addBack (v : Digits) (pu pv j : ℕ) : ℕ → Digits → UInt32 → Option (Digits × UInt32)
  | 0, u, t => some (u, t)
  | i + 1, u, t => do
    let d ← u.get (pu + (i + 1 + j))
    let w ← v.get (pv + (i + 1))
    let t := t + (d.toUInt32 + w.toUInt32)
    let u ← u.set (pu + (i + 1 + j)) (lhalf t).toUInt16
    addBack v pu pv j i u (hhalf t)

/-- D4 to D6: what is left of the dividend and the digit of the quotient, from the estimate. -/
def subtract (v : Digits) (pu pv n : ℕ) (j : ℕ) (qhat : UInt32) (u : Digits) :
    Option (Digits × UInt32) := do
  let (u, t) ← mulSub v pu pv qhat j n u 0
  let d ← u.get (pu + j)
  let t := d.toUInt32 - t
  let u ← u.set (pu + j) (lhalf t).toUInt16
  if hhalf t ≠ 0 then
    let (u, t) ← addBack v pu pv j n u 0
    let d ← u.get (pu + j)
    let u ← u.set (pu + j) (lhalf (d.toUInt32 + t)).toUInt16
    pure (u, qhat - 1)
  else pure (u, qhat)

/-- The loop on `j`, so many rounds of it: one for each digit of the quotient. -/
def digitLoop (fuel : ℕ) (v : Digits) (v₁ v₂ : UInt32) (pu pv pq n : ℕ) :
    ℕ → ℕ → Digits → Digits → Option (Digits × Digits)
  | 0, _, u, q => some (u, q)
  | r + 1, j, u, q => do
    let uj₀ ← u.get (pu + (j + 0))
    let uj₁ ← u.get (pu + (j + 1))
    let uj₂ ← u.get (pu + (j + 2))
    let qhat ← estimate fuel v₁ v₂ uj₀.toUInt32 uj₁.toUInt32 uj₂.toUInt32
    let (u, qhat) ← subtract v pu pv n j qhat u
    let q ← q.set (pq + j) qhat.toUInt16
    digitLoop fuel v v₁ v₂ pu pv pq n r (j + 1) u q

/-- The loop that moves the remainder back, at the digits `m + i` and those before it down to `m + 1`. -/
def shiftBack (pu m : ℕ) (d : UInt32) : ℕ → Digits → Option Digits
  | 0, u => some u
  | i + 1, u => do
    let lo ← u.get (pu + (m + (i + 1)))
    let hi ← u.get (pu + (m + i))
    let u ← u.set (pu + (m + (i + 1)))
      (lo.toUInt32 >>> d ||| lhalf (hi.toUInt32 <<< (16 - d))).toUInt16
    shiftBack pu m d i u

/-- D1: the shift that makes the leading digit at least half the base. -/
def normShift (fuel : ℕ) (v₁ : UInt16) : Option UInt32 :=
  (whileLoop (fun s : UInt32 × UInt32 => s.1 < 0x8000) (fun s => (s.1 <<< 1, s.2 + 1)) fuel
    (v₁.toUInt32, 0)).map Prod.snd

/-- D1: the dividend and the divisor moved to the left. -/
def normalize (u v : Digits) (pu pv m n : ℕ) (d : UInt32) : Option (Digits × Digits) :=
  if 0 < d then do
    let u ← shl u pu (m + n) d
    let v ← shl v (pv + 1) (n - 1) d
    pure (u, v)
  else some (u, v)

/-- What is left of the dividend, moved back. -/
def remainder (u : Digits) (pu m n : ℕ) (d : UInt32) : Option UInt64 := do
  let u ← if d ≠ 0 then (shiftBack pu m d n u).bind fun u => u.set (pu + m) 0 else some u
  joinDigits u

/-- Program D, on a divisor of `n` digits and a quotient of `m + 1`. -/
def programD (fuel : ℕ) (u v q : Digits) (pu pv m n : ℕ) (arq : Option UInt64) :
    Option (UInt64 × Option UInt64) := do
  let q ← zeroDigits (4 - m) q
  let d ← normShift fuel (← v.get (pv + 1))
  let (u, v) ← normalize u v pu pv m n d
  let v₁ ← v.get (pv + 1)
  let v₂ ← v.get (pv + 2)
  let (u, q) ← digitLoop fuel v v₁.toUInt32 v₂.toUInt32 pu pv (4 - m) n (m + 1) 0 u q
  let rem ← if arq.isSome then (remainder u pu m n d).map some else some none
  let quot ← joinDigits q
  pure (quot, rem)

end QDivRem

open QDivRem in
/-- `__qdivrem`, with the quotient and what is in `*arq` after it, which is `none` when `arq` is `NULL`.
It has no result when a loop does not end in `fuel` rounds. -/
def qdivrem (fuel : ℕ) (vspace qspace : Digits) (uq vq : UInt64) (arq : Option UInt64) :
    Option (UInt64 × Option UInt64) :=
  if vq = 0 then some (0, arq.map fun _ => uq)
  else if uq < vq then some (0, arq.map fun _ => uq)
  else do
    let u := split (fun _ => 0) uq
    let v := split vspace vq
    let (n, pv) ← skipZeros v 4 0
    if n = 1 then oneDigit u (← v.get (pv + 2)).toUInt32 arq
    else
      let (m, pu) ← skipDividend u (4 - n) 0
      programD fuel u v qspace pu pv m n arq

/-- `__umoddi3`, where `r` is what is on the stack for it. -/
def umoddi3 (fuel : ℕ) (vspace qspace : Digits) (r a b : UInt64) : Option UInt64 :=
  (qdivrem fuel vspace qspace a b (some r)).map fun p => p.2.getD r

/-- `__udivdi3`. -/
def udivdi3 (fuel : ℕ) (vspace qspace : Digits) (a b : UInt64) : Option UInt64 :=
  (qdivrem fuel vspace qspace a b none).map Prod.fst

end RTLKIM
