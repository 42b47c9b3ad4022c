import RTLKIM.Lib.Occurrence
import RTLKIM.Lib.Word

/-!
# The search for a substring

`memmem` and `strstr` with `memcmp` and `strlen`. A pointer is the list of the bytes from it on, up to
the last one that may be read. A function is `none` when it reads past them.
-/

namespace RTLKIM

/-- `memcmp`. -/
def memcmp : List UInt8 → List UInt8 → ℕ → Option ℤ
  | _, _, 0 => some 0
  | c1 :: s1, c2 :: s2, n + 1 =>
    let d : ℤ := c1.toNat - c2.toNat
    if d ≠ 0 then some d else memcmp s1 s2 n
  | _, _, _ + 1 => none

/-- `strlen`. -/
def strlen : List UInt8 → Option ℕ
  | [] => none
  | c :: s => if c = 0 then some 0 else (strlen s).map (· + 1)

/-- The loop of `memmem` on needles of two bytes and more, for so many tests at most. `x0` and `x1` are
the first bytes of the needle, `k` and `l` the offsets that are skipped. -/
def memmemLoop (haystack : List UInt8) (n : ℕ) (needle : List UInt8) (m : ℕ) (x0 x1 : UInt8)
    (k l : ℕ) : ℕ → ℕ → Option (Option ℕ)
  | 0, _ => none
  | fuel + 1, j =>
    if j ≤ sub32 n m then
      (haystack[add32 j 1]?).bind fun c1 =>
        if x1 ≠ c1 then memmemLoop haystack n needle m x0 x1 k l fuel (add32 j k)
        else
          (memcmp (needle.drop 2) (haystack.drop (j + 2)) (sub32 m 2)).bind fun d =>
            if d = 0 then
              (haystack[j]?).bind fun c0 =>
                if x0 = c0 then some (some j)
                else memmemLoop haystack n needle m x0 x1 k l fuel (add32 j l)
            else memmemLoop haystack n needle m x0 x1 k l fuel (add32 j l)
    else some none

/-- The loop of `memmem` on needles of one byte, with `y` past the start of the haystack. -/
def memmemByte (haystack needle : List UInt8) : ℕ → ℕ → Option (Option ℕ)
  | 0, _ => some none
  | n + 1, y =>
    (haystack[y]?).bind fun c =>
      (needle[0]?).bind fun x =>
        if c = x then some (some y) else memmemByte haystack needle n (y + 1)

/-- `memmem`. What is found is its offset in the haystack. -/
def memmem (haystack : List UInt8) (n : ℕ) (needle : List UInt8) (m : ℕ) : Option (Option ℕ) :=
  if n < m ∨ m = 0 ∨ n = 0 then some none
  else if m ≠ 1 then
    (needle[0]?).bind fun x0 =>
      (needle[1]?).bind fun x1 =>
        if x0 = x1 then memmemLoop haystack n needle m x0 x1 2 1 n 0
        else memmemLoop haystack n needle m x0 x1 1 2 n 0
  else memmemByte haystack needle n 0

/-- `strstr`. -/
def strstr (haystack needle : List UInt8) : Option (Option ℕ) :=
  (strlen haystack).bind fun n => (strlen needle).bind fun m => memmem haystack n needle m

end RTLKIM
