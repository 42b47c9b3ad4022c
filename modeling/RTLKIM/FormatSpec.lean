import RTLKIM.KernelOutput

/-!
# What a format says

A format with unsigned conversions is a list of items, each with the argument it takes: how it is
written, and what is to be printed for it. Any format is read as a list of directives, each of which
says what is printed for the arguments that it takes.
-/

namespace RTLKIM

/-- The length of an argument: 32 bits, `h` or `hh`. -/
inductive ArgLength
  | word
  | half
  | quarter
  deriving DecidableEq

def ArgLength.format : ArgLength → List Char
  | .word => []
  | .half => ['h']
  | .quarter => ['h', 'h']

/-- The part of an argument that is printed. -/
def ArgLength.value (length : ArgLength) (arg : UInt32) : ℕ :=
  match length with
  | .word => arg.toNat
  | .half => arg.toNat % 2 ^ 16
  | .quarter => arg.toNat % 2 ^ 8

/-- `u`, `x` and `X`. -/
inductive Conversion
  | decimal
  | lowerHex
  | upperHex
  deriving DecidableEq

def Conversion.format : Conversion → Char
  | .decimal => 'u'
  | .lowerHex => 'x'
  | .upperHex => 'X'

/-- A number in the base of the conversion. -/
def Conversion.digits (conversion : Conversion) (n : ℕ) : List Char :=
  match conversion with
  | .decimal => Nat.toDigits 10 n
  | .lowerHex => Nat.toDigits 16 n
  | .upperHex => (Nat.toDigits 16 n).map Char.toUpper

/-- A piece of a format. A width of 0 is none. -/
inductive Item
  | literal (c : {c : Char // c ≠ '%' ∧ c ≠ nul})
  | percent
  | char (arg : UInt32)
  | pointer (upper : Bool) (arg : UInt32)
  | number (zero : Bool) (width : Fin (2 ^ 8)) (length : ArgLength) (conversion : Conversion)
    (arg : UInt32)

namespace Item

def format : Item → List Char
  | literal c => [c]
  | percent => ['%', '%']
  | char _ => ['%', 'c']
  | pointer upper _ => ['%', if upper then 'P' else 'p']
  | number zero width length conversion _ =>
    '%' :: (if zero then ['0'] else []) ++ (if (width : ℕ) = 0 then [] else Nat.toDigits 10 width)
      ++ length.format ++ [conversion.format]

def args : Item → List UInt32
  | literal _ => []
  | percent => []
  | char arg => [arg]
  | pointer _ arg => [arg]
  | number _ _ _ _ arg => [arg]

/-- What is to be printed. -/
def printed : Item → List Char
  | literal c => [c]
  | percent => ['%']
  | char arg => [Char.ofNat (arg.toNat % 2 ^ 8)]
  | pointer upper arg =>
    List.leftpad 8 '0' ((if upper then Conversion.upperHex else .lowerHex).digits arg.toNat)
  | number zero width length conversion arg =>
    List.leftpad width (if zero then '0' else ' ') (conversion.digits (length.value arg))

end Item

/-! ## Signed numbers and numbers of 64 bits -/

/-- A number with its sign. -/
def decimal (n : ℤ) : List Char :=
  if n < 0 then '-' :: Nat.toDigits 10 n.natAbs else Nat.toDigits 10 n.natAbs

/-- `d` and `i` with an `int32_t`, `ld` and `lu` with 64 bits. -/
inductive Wide
  | d (arg : Int32)
  | i (arg : Int32)
  | ld (arg : Int64)
  | lu (arg : UInt64)

namespace Wide

def specifier : Wide → List Char
  | d _ => ['d']
  | i _ => ['i']
  | ld _ => ['l', 'd']
  | lu _ => ['l', 'u']

def format (zero : Bool) (width : Fin (2 ^ 8)) (w : Wide) : List Char :=
  '%' :: (if zero then ['0'] else []) ++ (if (width : ℕ) = 0 then [] else Nat.toDigits 10 width)
    ++ w.specifier

/-- The words that a number of 64 bits is passed in. -/
def words (n : UInt64) : List UInt32 := [n.toUInt32, (n >>> 32).toUInt32]

def args : Wide → List UInt32
  | d arg => [arg.toUInt32]
  | i arg => [arg.toUInt32]
  | ld arg => words arg.toUInt64
  | lu arg => words arg

def value : Wide → ℤ
  | d arg => arg.toInt
  | i arg => arg.toInt
  | ld arg => arg.toInt
  | lu arg => arg.toNat

def printed (zero : Bool) (width : Fin (2 ^ 8)) (w : Wide) : List Char :=
  List.leftpad width (if zero then '0' else ' ') (decimal w.value)

end Wide

/-! ## Any format -/

/-- What a conversion has been given: the size of its argument in bytes, its width and what it is
padded with. -/
structure Flags where
  size : ℕ
  width : ℕ
  pad : Char

namespace Flags

/-- Those of a conversion that has been given none. -/
def unset : Flags := ⟨4, 0, ' '⟩

/-- A character that is not the end of a conversion: a length, the flag `0`, or a digit of the width,
which has 8 bits. -/
def modify (flags : Flags) (c : Char) : Flags :=
  if c = 'h' then { flags with size := flags.size / 2 }
  else if c = 'l' then { flags with size := flags.size * 2 % 2 ^ 8 }
  else if c = '0' ∧ flags.width = 0 then { flags with pad := '0' }
  else if c.isDigit then { flags with width := (flags.width * 10 + (c.toNat - '0'.toNat)) % 2 ^ 8 }
  else flags

/-- What is printed of an argument of at most 32 bits. -/
def narrow (flags : Flags) (arg : UInt32) : ℕ :=
  if flags.size = 1 then arg.toNat % 2 ^ 8
  else if flags.size = 2 then arg.toNat % 2 ^ 16
  else arg.toNat

/-- The number that is printed, and the arguments after it: of 64 bits the low word, and never a
sign. -/
def number (flags : Flags) (args : List UInt32) : Option (ℕ × List UInt32) :=
  if 8 ≤ flags.size then
    match args with
    | low :: _ :: args => some (low.toNat, args)
    | _ => none
  else args.head?.map fun arg => (flags.narrow arg, args.tail)

end Flags

/-- What is to be printed next. -/
inductive Directive
  | literal (c : Char)
  | char
  | string
  | number (flags : Flags) (conversion : Conversion)

namespace Directive

/-- The end of a conversion. -/
def ofChar (flags : Flags) : Char → Option Directive
  | '%' => some (literal '%')
  | 'c' => some char
  | 's' => some string
  | 'd' | 'i' | 'u' => some (number flags .decimal)
  | 'x' => some (number flags .lowerHex)
  | 'X' => some (number flags .upperHex)
  | 'p' => some (number ⟨4, 8, '0'⟩ .lowerHex)
  | 'P' => some (number ⟨4, 8, '0'⟩ .upperHex)
  | _ => none

/-- The directives of a format, from within a conversion or not. -/
def ofFormat : Option Flags → List Char → List Directive
  | _, [] => []
  | none, c :: l => if c = '%' then ofFormat (some .unset) l else literal c :: ofFormat none l
  | some flags, c :: l =>
    match ofChar flags c with
    | some directive => directive :: ofFormat none l
    | none => ofFormat (some (flags.modify c)) l

/-- What is printed for it, and the arguments after it. -/
def printed (stringAt : UInt32 → List Char) (args : List UInt32) :
    Directive → Option (List Char × List UInt32)
  | literal c => some ([c], args)
  | char => args.head?.map fun arg => ([Char.ofNat (arg.toNat % 2 ^ 8)], args.tail)
  | string => args.head?.map fun arg => (text (stringAt arg), args.tail)
  | number flags conversion =>
    (flags.number args).map fun (n, args) =>
      (List.leftpad flags.width flags.pad (conversion.digits n), args)

/-- What is printed for one after another. -/
def prescribed (stringAt : UInt32 → List Char) : List Directive → List UInt32 → Option (List Char)
  | [], _ => some []
  | directive :: directives, args =>
    (directive.printed stringAt args).bind fun (chars, args) =>
      (prescribed stringAt directives args).map fun rest => chars ++ rest

end Directive

/-! ## Outputs -/

/-- What has been output at any point of the format is what the format prescribes up to there, all of
it on the output of the call. -/
def Formater.Routed {ω : Type} (currentOutput usedOutput : ω) (stringAt : UInt32 → List Char)
    (str : List Char) (args : List UInt32) : Prop :=
  ∀ l s, l <+: text str →
    l.foldlM (formatChar currentOutput usedOutput stringAt) (start args []) = some s →
    ∃ chars, Directive.prescribed stringAt (Directive.ofFormat none l) args = some chars
      ∧ s.out = chars.map fun c => (usedOutput, c)

/-- A string with a character in it is printed next. -/
def Formater.PrintsString {ω : Type} (stringAt : UInt32 → List Char) (s : Formater ω) (c : Char) : Prop :=
  s.modifier = true ∧ c = 's' ∧ ∃ arg args, s.args = arg :: args ∧ text (stringAt arg) ≠ []

end RTLKIM
