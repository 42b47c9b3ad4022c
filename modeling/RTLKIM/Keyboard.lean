import Mathlib.Logic.Function.Basic
import RTLKIM.Lib.Run
import RTLKIM.Lib.Word

/-!
# The keyboard

`keyboard.c`: the handler of the interrupt, and the calls that read, where the interrupt may come between any
two statements. `KbdSpec` is what the driver is for: two shift keys, what they make of the other keys, and a
line that is edited while somebody reads.
-/

namespace RTLKIM

abbrev keyBackspace : UInt8 := 8

abbrev keyReturn : UInt8 := 10

abbrev keyLshift : UInt16 := 0x400

abbrev keyRshift : UInt16 := 0x500

abbrev kbdLshift : UInt32 := 1

abbrev kbdRshift : UInt32 := 2

def regularKeys : List UInt16 :=
  [0, 0, 49, 50, 51, 52, 53, 54, 55, 56, 57, 48, 45, 61, 8, 9, 113, 119, 101, 114, 116, 121, 117, 105, 111,
    112, 0, 0, 10, 0, 97, 115, 100, 102, 103, 104, 106, 107, 108, 59, 0, 0, 0x400, 60, 122, 120, 99, 118,
    98, 110, 109, 44, 46, 32, 0x500, 0, 0, 32, 32, 0, 0, 0, 0, 0, 0, 0, 0, 0, 0, 0, 0, 0, 0, 128, 0, 0, 0,
    0, 0, 0, 0, 129, 0]

def shiftedKeys : List UInt16 :=
  [0, 0, 33, 34, 47, 36, 37, 63, 38, 42, 40, 41, 95, 43, 8, 9, 81, 87, 69, 82, 84, 89, 85, 73, 79, 80, 0,
    0, 10, 0, 65, 83, 68, 70, 71, 72, 74, 75, 76, 58, 0, 0, 0x400, 62, 90, 88, 67, 86, 66, 78, 77, 39, 46,
    32, 0x500, 0, 0, 32, 32, 0, 0, 0, 0, 0, 0, 0, 0, 0, 0, 0, 0, 0, 0, 128, 0, 0, 0, 0, 0, 0, 0, 129, 0]

/-- `qwerty_map.regular[keycode]`. Place 128, which is read for a released key 0, is `shifted[0]`. -/
def regularKey (keycode : ℕ) : UInt16 := regularKeys.getD keycode 0

/-- `qwerty_map.shifted[keycode]`. -/
def shiftedKey (keycode : ℕ) : UInt16 := shiftedKeys.getD keycode 0

/-- A key that is no modifier and has a character. -/
def HasCharacter (k : ℕ) : Prop :=
  regularKey k ≠ keyLshift ∧ regularKey k ≠ keyRshift ∧ (regularKey k ≠ 0 ∨ shiftedKey k ≠ 0)

instance : DecidablePred HasCharacter := fun k => by unfold HasCharacter; infer_instance

/-- `kbd_buffer_t`. -/
structure KbdBuffer where
  type : ℕ
  charBuf : ℕ
  readSize : ℕ
  read : ℕ

/-- The data of `keyboard.c`, memory, and what the console was given. -/
structure Keyboard where
  secureInput : Bool
  displayKeyboard : Bool
  keyboardFlags : UInt32
  kbdBuf : KbdBuffer
  mem : ℕ → UInt8
  console : List UInt8

namespace Keyboard

/-- `kbd_buf.char_buf[i] = character`. -/
def store (s : Keyboard) (i : ℕ) (character : UInt8) : Keyboard :=
  { s with mem := Function.update s.mem (add32 s.kbdBuf.charBuf i) character }

/-- `kbd_buf.char_buf[kbd_buf.read++] = character`, when there is room. -/
def append (s : Keyboard) (character : UInt8) : Keyboard :=
  if s.kbdBuf.read < s.kbdBuf.readSize then
    { s.store s.kbdBuf.read character with kbdBuf := { s.kbdBuf with read := s.kbdBuf.read + 1 } }
  else s

def erase (s : Keyboard) : Keyboard :=
  let s := if 0 < s.kbdBuf.read then { s with kbdBuf := { s.kbdBuf with read := s.kbdBuf.read - 1 } } else s
  s.store s.kbdBuf.read 0

def endRead (s : Keyboard) : Keyboard := { s with kbdBuf := { s.kbdBuf with type := 0 } }

/-- What a character does to the buffer of the user. -/
def fillBuffer (s : Keyboard) (character : UInt8) : Keyboard :=
  if s.kbdBuf.type = 1 then
    if character = keyReturn then (s.append character).endRead
    else if character = keyBackspace then s.erase
    else s.append character
  else if s.kbdBuf.type = 2 then (s.append character).endRead
  else s

def display (s : Keyboard) (character : UInt8) : Keyboard :=
  if s.displayKeyboard then
    if s.secureInput ∧ character ≠ keyReturn ∧ character ≠ keyBackspace then
      { s with console := s.console ++ [42] }
    else { s with console := s.console ++ [character] }
  else s

/-- A key that is no modifier. -/
def pressCharacter (s : Keyboard) (keycode : ℕ) : Keyboard :=
  if regularKey keycode ≠ 0 ∨ shiftedKey keycode ≠ 0 then
    let shifted := s.keyboardFlags &&& kbdLshift ||| s.keyboardFlags &&& kbdRshift
    let character := (if shifted ≠ 0 then shiftedKey keycode else regularKey keycode).toUInt8
    (s.fillBuffer character).display character
  else s

/-- `manage_keycode`. -/
def manageKeycode (s : Keyboard) (keycode : ℤ) : Keyboard :=
  if 0 < keycode then
    if regularKey keycode.toNat = keyLshift then { s with keyboardFlags := s.keyboardFlags ||| kbdLshift }
    else if regularKey keycode.toNat = keyRshift then { s with keyboardFlags := s.keyboardFlags ||| kbdRshift }
    else s.pressCharacter keycode.toNat
  else
    let newKeycode := (128 + keycode).toNat
    if regularKey newKeycode = keyLshift then { s with keyboardFlags := s.keyboardFlags &&& ~~~kbdLshift }
    else if regularKey newKeycode = keyRshift then { s with keyboardFlags := s.keyboardFlags &&& ~~~kbdRshift }
    else s

/-- `keyboard_interrupt_handler`, with what the two ports give. -/
def keyboardInterruptHandler (s : Keyboard) (comm data : UInt8) : Keyboard :=
  if comm.toUInt32 &&& 0x100001 = 1 then s.manageKeycode data.toInt8.toInt else s

/-- After `keyboard_init`. -/
def keyboardInit (mem : ℕ → UInt8) : Keyboard := ⟨false, true, 0, ⟨0, 0, 0, 0⟩, mem, []⟩

end Keyboard

/-! ## The calls that read -/

inductive KbdCall
  | read (buffer size : ℕ)
  | secureRead (buffer size : ℕ)
  | getch (character : ℕ)
  deriving DecidableEq

namespace KbdCall

def buffer : KbdCall → ℕ
  | .read buffer _ | .secureRead buffer _ => buffer
  | .getch character => character

def size : KbdCall → ℕ
  | .read _ size | .secureRead _ size => size
  | .getch _ => 1

/-- `type` while the call takes keys. -/
def type : KbdCall → ℕ
  | .read _ _ | .secureRead _ _ => 1
  | .getch _ => 2

/-- The buffer is memory of the caller; only `keyboard_read` and `keyboard_getch` test it. -/
def Ok : KbdCall → Prop
  | .read buffer size => buffer + size ≤ 2 ^ 32
  | .secureRead buffer size => buffer ≠ 0 ∧ size ≠ 0 ∧ buffer + size ≤ 2 ^ 32
  | .getch character => character < 2 ^ 32

instance : DecidablePred Ok := fun c => by cases c <;> unfold Ok <;> infer_instance

end KbdCall

/-- The statement of `keyboard_read`, `keyboard_secure_read` or `keyboard_getch` that is next, by what it
writes; `take` reads `kbd_buf.read`. -/
inductive KbdStage
  | charBuf
  | readSize
  | read
  | type
  | take
  | clearCharBuf
  | clearReadSize
  | clearRead
  | clearType
  | terminate
  deriving DecidableEq

/-- A call on its way, and what it has taken to return. -/
structure KbdReader where
  call : KbdCall
  stage : KbdStage
  result : ℕ
  deriving DecidableEq

/-- The statement after, or the return; `read` is what `take` finds. -/
def KbdReader.next (r : KbdReader) (read : ℕ) : Option KbdReader :=
  match r.stage with
  | .charBuf => some { r with stage := .readSize }
  | .readSize => some { r with stage := .read }
  | .read => some { r with stage := .type }
  | .type =>
    match r.call with
    | .getch _ => some { r with stage := .clearCharBuf }
    | _ => some { r with stage := .take }
  | .take => some { r with stage := .clearCharBuf, result := read }
  | .clearCharBuf => some { r with stage := .clearReadSize }
  | .clearReadSize => some { r with stage := .clearRead }
  | .clearRead => some { r with stage := .clearType }
  | .clearType =>
    match r.call with
    | .secureRead _ _ => some { r with stage := .terminate }
    | _ => none
  | .terminate => none

/-- Where `keyboard_secure_read` ends the string. -/
def KbdReader.stringEnd (r : KbdReader) : ℕ :=
  if r.result < sub32 r.call.size 1 then r.result else sub32 r.call.size 1

/-- The statement. -/
def Keyboard.exec (s : Keyboard) (r : KbdReader) : Keyboard :=
  match r.stage with
  | .charBuf => { s with kbdBuf := { s.kbdBuf with charBuf := r.call.buffer } }
  | .readSize => { s with kbdBuf := { s.kbdBuf with readSize := r.call.size } }
  | .read => { s with kbdBuf := { s.kbdBuf with read := 0 } }
  | .type => { s with kbdBuf := { s.kbdBuf with type := r.call.type } }
  | .take => s
  | .clearCharBuf => { s with kbdBuf := { s.kbdBuf with charBuf := 0 } }
  | .clearReadSize => { s with kbdBuf := { s.kbdBuf with readSize := 0 } }
  | .clearRead => { s with kbdBuf := { s.kbdBuf with read := 0 } }
  | .clearType => { s with kbdBuf := { s.kbdBuf with type := 0 } }
  | .terminate => { s with mem := Function.update s.mem (add32 r.call.buffer r.stringEnd) 0 }

/-- A call that has returned, with memory as it was then. -/
structure KbdReturn where
  call : KbdCall
  result : ℕ
  mem : ℕ → UInt8

inductive KbdEv
  | call (c : KbdCall)
  | run
  | key (comm data : UInt8)
  | secure (on : Bool)
  | display (on : Bool)

structure KbdSystem where
  kbd : Keyboard
  reader : Option KbdReader
  returned : List KbdReturn

namespace KbdSystem

def returns (s : KbdSystem) (c : KbdCall) (result : ℕ) : KbdSystem :=
  { s with reader := none, returned := s.returned ++ [⟨c, result, s.kbd.mem⟩] }

def call (s : KbdSystem) (c : KbdCall) : KbdSystem :=
  if c.buffer = 0 ∨ c.size = 0 then
    match c with
    | .secureRead _ _ => { s with reader := some ⟨c, .terminate, 0⟩ }
    | _ => s.returns c 0
  else { s with reader := some ⟨c, .charBuf, 0⟩ }

def run (s : KbdSystem) (r : KbdReader) : KbdSystem :=
  match r.next s.kbd.kbdBuf.read with
  | some r' => { s with kbd := s.kbd.exec r, reader := some r' }
  | none => returns { s with kbd := s.kbd.exec r } r.call r.result

/-- One call at a time. -/
def step (s : KbdSystem) : KbdEv → Option KbdSystem
  | .call c => if s.reader = none then some (s.call c) else none
  | .run => s.reader.map s.run
  | .key comm data => some { s with kbd := s.kbd.keyboardInterruptHandler comm data }
  | .secure on => some { s with kbd := { s.kbd with secureInput := on } }
  | .display on => some { s with kbd := { s.kbd with displayKeyboard := on } }

/-- A key with a character does not come where the buffer is NULL and keys are still taken. -/
def Ok (s : KbdSystem) : KbdEv → Prop
  | .call c => c.Ok
  | .key comm data => comm.toNat % 2 = 1 ∧ HasCharacter data.toNat →
    s.kbd.kbdBuf.type ≠ 0 → s.kbd.kbdBuf.charBuf ≠ 0
  | _ => True

instance (s : KbdSystem) : DecidablePred s.Ok := fun e => by cases e <;> unfold Ok <;> infer_instance

def boot (mem : ℕ → UInt8) : KbdSystem := ⟨.keyboardInit mem, none, []⟩

end KbdSystem

/-! ## What it is for -/

/-- A line of at most `size` characters, or a `single` one, and whether it is at its end. -/
structure KbdLine where
  size : ℕ
  single : Bool
  text : List UInt8
  closed : Bool

/-- The line after a character. -/
def KbdLine.type (l : KbdLine) (character : UInt8) : KbdLine :=
  if l.closed then l
  else if l.single ∨ character = keyReturn then
    { l with text := (l.text ++ [character]).take l.size, closed := true }
  else if character = keyBackspace then { l with text := l.text.dropLast }
  else { l with text := (l.text ++ [character]).take l.size }

/-- The shift keys that are held, the switches, what was shown, the line that is read, the calls, and what they
returned with the text they read. -/
structure KbdSpec where
  left : Bool
  right : Bool
  secure : Bool
  display : Bool
  console : List UInt8
  line : Option KbdLine
  reader : Option KbdReader
  calls : List KbdCall
  returned : List (KbdCall × ℕ × List UInt8)

namespace KbdSpec

/-- A character, which is shown as a star in secure mode. -/
def typed (a : KbdSpec) (character : UInt8) : KbdSpec :=
  let shown := if a.secure ∧ character ≠ keyReturn ∧ character ≠ keyBackspace then 42 else character
  { a with
    line := a.line.map (KbdLine.type · character)
    console := if a.display then a.console ++ [shown] else a.console }

def press (a : KbdSpec) (k : ℕ) : KbdSpec :=
  if regularKey k = keyLshift then { a with left := true }
  else if regularKey k = keyRshift then { a with right := true }
  else if regularKey k = 0 ∧ shiftedKey k = 0 then a
  else a.typed (if a.left || a.right then shiftedKey k else regularKey k).toUInt8

def release (a : KbdSpec) (k : ℕ) : KbdSpec :=
  if regularKey k = keyLshift then { a with left := false }
  else if regularKey k = keyRshift then { a with right := false }
  else a

/-- The codes from 128 on are those of keys that are released. -/
def key (a : KbdSpec) (comm data : UInt8) : KbdSpec :=
  if comm.toNat % 2 = 1 then if data.toNat < 128 then a.press data.toNat else a.release (data.toNat - 128)
  else a

/-- The line is there from `type` on; `terminate` ends its text. -/
def lineAfter (a : KbdSpec) (r : KbdReader) : Option KbdLine :=
  match r.stage with
  | .type => some ⟨r.call.size, r.call.type = 2, [], false⟩
  | .clearType => a.line.map fun l => { l with closed := true }
  | .terminate => a.line.map fun l =>
    { l with text := if r.stringEnd = l.text.length then l.text ++ [0] else l.text.set r.stringEnd 0 }
  | _ => a.line

/-- The characters of the line. -/
def text (a : KbdSpec) : List UInt8 := (a.line.map KbdLine.text).getD []

def run (a : KbdSpec) (r : KbdReader) : KbdSpec :=
  let line := a.lineAfter r
  match r.next a.text.length with
  | some r' => { a with line := line, reader := some r' }
  | none => { a with
      line := none
      reader := none
      returned := a.returned ++ [(r.call, r.result, (line.map KbdLine.text).getD [])] }

def call (a : KbdSpec) (c : KbdCall) : KbdSpec :=
  if c.buffer = 0 ∨ c.size = 0 then { a with calls := a.calls ++ [c], returned := a.returned ++ [(c, 0, [])] }
  else { a with calls := a.calls ++ [c], reader := some ⟨c, .charBuf, 0⟩ }

def step (a : KbdSpec) : KbdEv → Option KbdSpec
  | .call c => if a.reader = none then some (a.call c) else none
  | .run => a.reader.map a.run
  | .key comm data => some (a.key comm data)
  | .secure on => some { a with secure := on }
  | .display on => some { a with display := on }

def boot : KbdSpec := ⟨false, false, false, true, [], none, none, [], []⟩

end KbdSpec

/-- The bytes of a text are in the buffer of a call. -/
structure Holds (mem : ℕ → UInt8) (c : KbdCall) (text : List UInt8) : Prop where
  length_le : text.length ≤ c.size
  bytes : ∀ i b, text[i]? = some b → mem (c.buffer + i) = b

/-- What a call has returned is the text that was read. -/
def KbdReturn.Delivers (r : KbdReturn) (t : KbdCall × ℕ × List UInt8) : Prop :=
  r.call = t.1 ∧ r.result = t.2.1 ∧ Holds r.mem t.1 t.2.2

/-- `type` for a line. -/
def KbdLine.bufType : Option KbdLine → ℕ
  | none => 0
  | some l => if l.closed then 0 else if l.single then 2 else 1

/-- `keyboard_flags` for the shift keys that are held. -/
def shiftFlags (left right : Bool) : UInt32 := (if left then kbdLshift else 0) ||| if right then kbdRshift else 0

/-- Keys are taken into the buffer of a call. -/
structure Listens (buf : KbdBuffer) (mem : ℕ → UInt8) (c : KbdCall) (l : KbdLine) : Prop where
  charBuf : buf.charBuf = c.buffer
  readSize : buf.readSize = c.size
  read : buf.read = l.text.length
  size : l.size = c.size
  holds : Holds mem c l.text

/-- What the statements of a call have done. -/
def Progress (buf : KbdBuffer) (mem : ℕ → UInt8) (line : Option KbdLine) : Option KbdReader → Prop
  | none => line = none
  | some r =>
    match r.stage with
    | .charBuf => line = none
    | .readSize => line = none ∧ buf.charBuf = r.call.buffer
    | .read => line = none ∧ buf.charBuf = r.call.buffer ∧ buf.readSize = r.call.size
    | .type => line = none ∧ buf.charBuf = r.call.buffer ∧ buf.readSize = r.call.size ∧ buf.read = 0
    | .take | .clearCharBuf => ∃ l, line = some l ∧ Listens buf mem r.call l
    | .clearReadSize | .clearRead | .clearType =>
      ∃ l, line = some l ∧ buf.charBuf = 0 ∧ Holds mem r.call l.text
    | .terminate => ∃ l, line = some l ∧ l.closed ∧ Holds mem r.call l.text

/-- The driver and what it is for. Memory outside the buffers of the calls is as it was. -/
structure KbdRefine (mem₀ : ℕ → UInt8) (s : KbdSystem) (a : KbdSpec) : Prop where
  secure : s.kbd.secureInput = a.secure
  display : s.kbd.displayKeyboard = a.display
  console : s.kbd.console = a.console
  flags : s.kbd.keyboardFlags = shiftFlags a.left a.right
  type : s.kbd.kbdBuf.type = KbdLine.bufType a.line
  reader : s.reader = a.reader
  call : ∀ r, a.reader = some r → r.call.Ok ∧ r.call.buffer ≠ 0 ∧ r.call.size ≠ 0 ∧ r.call ∈ a.calls
  progress : Progress s.kbd.kbdBuf s.kbd.mem a.line a.reader
  returned : List.Forall₂ KbdReturn.Delivers s.returned a.returned
  frame : ∀ x, (∀ c ∈ a.calls, x < c.buffer ∨ c.buffer + c.size ≤ x) → s.kbd.mem x = mem₀ x

end RTLKIM
