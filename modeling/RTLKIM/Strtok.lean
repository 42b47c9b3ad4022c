import RTLKIM.Memmem

/-!
# Tokens of a string

`__strxspn`, `strspn`, `strcspn`, `strpbrk`, `strsep` and `strtok`. As for the search, a pointer that is
only read from is the list of the bytes from it on. What `strsep` cuts is a block of bytes, with pointers to
it as offsets; `none` is also `NULL`.
-/

namespace RTLKIM

/-- The loop of `__strxspn` that fills `matchmap`. -/
def fillMatchmap : List UInt8 → (UInt8 → UInt8) → Option (UInt8 → UInt8)
  | [], _ => none
  | c :: map, matchmap =>
    if c = 0 then some matchmap else fillMatchmap map (Function.update matchmap c 1)

/-- The loop of `__strxspn` that counts. -/
def spanLength (matchmap : UInt8 → UInt8) (parity : UInt8) : List UInt8 → Option ℕ
  | [] => none
  | c :: s => if matchmap c ^^^ parity = 0 then some 0 else (spanLength matchmap parity s).map (· + 1)

/-- `__strxspn`. -/
def strxspn (s map : List UInt8) (parity : UInt8) : Option ℕ :=
  (fillMatchmap map fun _ => 0).bind fun matchmap =>
    spanLength (Function.update matchmap 0 parity) parity s

/-- `strspn`. -/
def strspn (s accept : List UInt8) : Option ℕ := strxspn s accept 0

/-- `strcspn`. -/
def strcspn (s reject : List UInt8) : Option ℕ := strxspn s reject 1

/-- `strpbrk`; what is found is its offset in `s`. -/
def strpbrk (s accept : List UInt8) : Option (Option ℕ) :=
  (strxspn s accept 1).bind fun ss => (s[ss]?).map fun c => if c ≠ 0 then some ss else none

/-- The block, and what `*stringp` is. -/
structure StrSep where
  block : List UInt8
  stringp : Option ℕ
  deriving DecidableEq

namespace StrSep

/-- `strsep`. -/
def strsep (h : StrSep) (delim : List UInt8) : Option (StrSep × Option ℕ) :=
  match h.stringp with
  | none => some (h, none)
  | some s =>
    (strpbrk (h.block.drop s) delim).map fun
      | some e => (⟨h.block.set (s + e) 0, some (s + e + 1)⟩, some s)
      | none => (⟨h.block, none⟩, some s)

/-- `strtok`, where `stringp` is `holder`. -/
def strtok (h : StrSep) (s : Option ℕ) (delim : List UInt8) : Option (StrSep × Option ℕ) :=
  match s with
  | some _ => strsep { h with stringp := s } delim
  | none => strsep h delim

/-- What `n` calls with `NULL` return. -/
def strtokNulls (delim : List UInt8) : ℕ → StrSep → Option (StrSep × List (Option ℕ))
  | 0, h => some (h, [])
  | n + 1, h => (h.strtok none delim).bind fun (h, p) =>
    (strtokNulls delim n h).map fun (h, ps) => (h, p :: ps)

/-- A call with the string, and `n` with `NULL`. -/
def strtokCalls (h : StrSep) (s : ℕ) (delim : List UInt8) (n : ℕ) : Option (StrSep × List (Option ℕ)) :=
  (h.strtok (some s) delim).bind fun (h, p) => (strtokNulls delim n h).map fun (h, ps) => (h, p :: ps)

/-- The string that a pointer to the block is. -/
def string (h : StrSep) (p : ℕ) : List UInt8 := (h.block.drop p).takeWhile (· ≠ 0)

end StrSep

end RTLKIM
