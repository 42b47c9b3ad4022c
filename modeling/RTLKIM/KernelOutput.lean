import RTLKIM.Lib.Buffer
import RTLKIM.Lib.Word

/-!
# Formatted output

`formater` of `kernel_output.c`, with the conversions of `uitoa.c` and `itoa.c`. What is put on an
output is recorded after its name. The arguments are words of 32 bits, of which a `uint64_t` takes two;
a call has no result if it takes more than there are or writes past a buffer.
-/

namespace RTLKIM

/-! ## Numbers to text -/

/-- `hex_table`. -/
def hexTable : List Char :=
  ['0', '1', '2', '3', '4', '5', '6', '7', '8', '9', 'A', 'B', 'C', 'D', 'E', 'F']

/-- The size of `tmp` in `uitoa`, and that of `tmp_seq` in `formater`. -/
abbrev tmpSize : ℕ := 128

/-- The loop of `uitoa` that fills `tmp`, for so many rounds at most. -/
def fillTmp (base : UInt64) : ℕ → UInt64 → List Char → ℕ → Option (List Char × ℕ)
  | 0, _, _, _ => none
  | rounds + 1, i, tmp, pos =>
    if i = 0 then some (tmp, pos)
    -- a division by zero
    else if base = 0 then none
    else
      (hexTable[(i % base).toNat]?).bind fun c =>
        (store tmp pos c).bind fun tmp => fillTmp base rounds (i / base) tmp (add32 pos 1)

/-- The rounds left of the loop of `uitoa` that fills `buf`. -/
def fillBuf (tmp : List Char) : ℕ → ℕ → ℕ → List Char → Option (List Char × ℕ)
  | 0, _, opos, buf => some (buf, opos)
  | rounds + 1, pos, opos, buf =>
    (tmp[pos]?).bind fun c =>
      (store buf opos c).bind fun buf => fillBuf tmp rounds (sub32 pos 1) (add32 opos 1) buf

/-- `uitoa`. What is in `tmp` before does not matter; it is full after as many rounds as it has
characters. -/
def uitoa (i : UInt64) (buf : List Char) (base : UInt32) : Option (List Char) :=
  if i = 0 ∨ 16 < base then (store buf 0 '0').bind fun buf => store buf 1 nul
  else
    (fillTmp base.toUInt64 (tmpSize + 1) i (List.replicate tmpSize nul) 0).bind fun (tmp, top) =>
      (fillBuf tmp top (sub32 top 1) 0 buf).bind fun (buf, opos) => store buf opos nul

/-- `itoa`. -/
def itoa (i : Int64) (buf : List Char) (base : UInt32) : Option (List Char) :=
  if 16 < base then some buf
  else if base = 10 ∧ i < 0 then
    (store buf 0 '-').bind fun buf =>
      (uitoa (i * -1).toUInt64 (buf.drop 1) base).map fun rest => buf.take 1 ++ rest
  else uitoa i.toUInt64 buf base

def toupper : List Char → List Char
  | [] => []
  | c :: string =>
    if c = nul then c :: string
    else (if 96 < c.toNat ∧ c.toNat < 123 then Char.ofNat (c.toNat - 32) else c) :: toupper string

def tolower : List Char → List Char
  | [] => []
  | c :: string =>
    if c = nul then c :: string
    else (if 64 < c.toNat ∧ c.toNat < 91 then Char.ofNat (c.toNat + 32) else c) :: tolower string

/-! ## Arguments -/

/-- `__builtin_va_arg(args, uint32_t)`, and that of a pointer. -/
def vaArg32 : List UInt32 → Option (UInt32 × List UInt32)
  | arg :: args => some (arg, args)
  | [] => none

/-- `__builtin_va_arg(args, uint64_t)`. -/
def vaArg64 : List UInt32 → Option (UInt64 × List UInt32)
  | low :: high :: args => some (low.toUInt64 ||| high.toUInt64 <<< 32, args)
  | _ => none

/-! ## `formater` -/

/-- The variables of `formater` at a character, and what was output. -/
structure Formater (ω : Type) where
  modifier : Bool
  lengthMod : ℕ
  paddingMod : ℕ
  upperMod : Bool
  padCharMod : Char
  args : List UInt32
  out : List (ω × Char)

namespace Formater

variable {ω : Type}

/-- The variables at the start. -/
def start (args : List UInt32) (out : List (ω × Char)) : Formater ω :=
  ⟨false, 4, 0, false, ' ', args, out⟩

/-- The end of a round, where the modifiers are set again. -/
def reinit (s : Formater ω) : Formater ω := start s.args s.out

def putc (s : Formater ω) (output : ω) (c : Char) : Formater ω :=
  { s with out := s.out ++ [(output, c)] }

def puts (s : Formater ω) (output : ω) (string : List Char) : Formater ω :=
  { s with out := s.out ++ (text string).map fun c => (output, c) }

/-- `PAD_SEQ`, on `padding_mod`. -/
def padSeq (usedOutput : ω) (strSize : ℕ) : ℕ → Formater ω → Formater ω
  | 0, s => s
  | paddingMod + 1, s =>
    if strSize < paddingMod + 1 then
      padSeq usedOutput strSize paddingMod
        { s.putc usedOutput s.padCharMod with paddingMod := paddingMod }
    else s

/-- `GET_SEQ_VAL`; `seq_val` has 32 bits. -/
def getSeqVal (s : Formater ω) : Option (UInt32 × Formater ω) :=
  let lengthMod := if 8 < s.lengthMod then 8 else s.lengthMod
  if lengthMod = 8 then
    (vaArg64 s.args).map fun (arg, args) =>
      (arg.toUInt32, { s with lengthMod := lengthMod, args := args })
  else
    (vaArg32 s.args).map fun (arg, args) =>
      (if lengthMod = 1 then arg &&& 0xFF else if lengthMod = 2 then arg &&& 0xFFFF else arg,
        { s with lengthMod := lengthMod, args := args })

/-- A number is written to `tmp_seq`, padded, and output as it is after a change. -/
def printSeq (usedOutput : ω) (write : UInt32 → List Char → Option (List Char))
    (change : List Char → List Char) (s : Formater ω) : Option (Formater ω) :=
  s.getSeqVal.bind fun (seqVal, s) =>
    (write seqVal (List.replicate tmpSize nul)).map fun tmpSeq =>
      (padSeq usedOutput (text tmpSeq).length s.paddingMod s).puts usedOutput (change tmpSeq)

/-- `case 'd'` and `case 'i'`. -/
def printD (usedOutput : ω) (s : Formater ω) : Option (Formater ω) :=
  s.printSeq usedOutput (fun seqVal tmpSeq => itoa seqVal.toUInt64.toInt64 tmpSeq 10) id

/-- `case 'u'`. -/
def printU (usedOutput : ω) (s : Formater ω) : Option (Formater ω) :=
  s.printSeq usedOutput (fun seqVal tmpSeq => uitoa seqVal.toUInt64 tmpSeq 10) id

/-- `case 'x'`, and `case 'X'` after it has set `upper_mod`. -/
def printX (usedOutput : ω) (s : Formater ω) : Option (Formater ω) :=
  s.printSeq usedOutput (fun seqVal tmpSeq => uitoa seqVal.toUInt64 tmpSeq 16)
    (if s.upperMod then toupper else tolower)

/-- `case 'p'`, and `case 'P'` after it has set `upper_mod`. -/
def printP (usedOutput : ω) (s : Formater ω) : Option (Formater ω) :=
  { s with paddingMod := 2 * 4, padCharMod := '0', lengthMod := 4 }.printX usedOutput

/-- `case 'c'`; `tmp_seq[0]` has 8 bits. -/
def printC (usedOutput : ω) (s : Formater ω) : Option (Formater ω) :=
  (getSeqVal { s with lengthMod := 1 }).map fun (val, s) =>
    s.putc usedOutput (Char.ofNat (val.toNat % 2 ^ 8))

/-- `case '1'` to `case '9'`. -/
def padDigit (s : Formater ω) (digit : ℕ) : Formater ω :=
  { s with paddingMod := (s.paddingMod * 10 + digit) % 2 ^ 8 }

section Run

-- `current_output` and the output of the call; the characters in memory from an address on
variable (currentOutput usedOutput : ω) (stringAt : UInt32 → List Char)

/-- `case 's'`. -/
def printS (s : Formater ω) : Option (Formater ω) :=
  (vaArg32 s.args).map fun (argsValue, args) =>
    { s with args := args }.puts currentOutput (stringAt argsValue)

/-- The `switch` on a character after a `%`. -/
def specify (s : Formater ω) (c : Char) : Option (Formater ω) :=
  match c with
  | 'h' => some { s with lengthMod := s.lengthMod / 2 }
  | 'l' => some { s with lengthMod := s.lengthMod * 2 % 2 ^ 8 }
  | 's' => (s.printS currentOutput stringAt).map reinit
  | 'd' => (s.printD usedOutput).map reinit
  | 'i' => (s.printD usedOutput).map reinit
  | 'u' => (s.printU usedOutput).map reinit
  | 'X' => ({ s with upperMod := true }.printX usedOutput).map reinit
  | 'x' => (s.printX usedOutput).map reinit
  | 'P' => ({ s with upperMod := true }.printP usedOutput).map reinit
  | 'p' => (s.printP usedOutput).map reinit
  | 'c' => (s.printC usedOutput).map reinit
  | '0' =>
    if s.paddingMod = 0 then some { s with padCharMod := '0' }
    else some { s with paddingMod := s.paddingMod * 10 % 2 ^ 8 }
  | '1' => some (s.padDigit 1)
  | '2' => some (s.padDigit 2)
  | '3' => some (s.padDigit 3)
  | '4' => some (s.padDigit 4)
  | '5' => some (s.padDigit 5)
  | '6' => some (s.padDigit 6)
  | '7' => some (s.padDigit 7)
  | '8' => some (s.padDigit 8)
  | '9' => some (s.padDigit 9)
  | _ => some s

/-- A round of the loop of `formater`. -/
def formatChar (s : Formater ω) (c : Char) : Option (Formater ω) :=
  if c = '%' then
    if s.modifier then some ({ s with modifier := false }.putc usedOutput c).reinit
    else some { s with modifier := true }
  else if s.modifier then s.specify currentOutput usedOutput stringAt c
  else some (s.putc usedOutput c).reinit

end Run

end Formater

open Formater in
/-- `formater`, with what it outputs. -/
def formater {ω : Type} (currentOutput usedOutput : ω) (stringAt : UInt32 → List Char)
    (str : List Char) (args : List UInt32) : Option (List (ω × Char)) :=
  ((text str).foldlM (formatChar currentOutput usedOutput stringAt) (start args [])).map (·.out)

/-- `kprint_fmt`. -/
def kprintFmt {ω : Type} (currentOutput : ω) (stringAt : UInt32 → List Char) (str : List Char)
    (args : List UInt32) : Option (List (ω × Char)) :=
  formater currentOutput currentOutput stringAt str args

/-- `kprint_fmt_serial`; `serial` is the output of `serial_put_char` and `serial_put_string`. -/
def kprintFmtSerial {ω : Type} (serial currentOutput : ω) (stringAt : UInt32 → List Char)
    (str : List Char) (args : List UInt32) : Option (List (ω × Char)) :=
  formater currentOutput serial stringAt str args

end RTLKIM
