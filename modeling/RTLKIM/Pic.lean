import RTLKIM.Interrupts
import Mathlib.Data.List.Basic

/-!
# The interrupt controllers

The two 8259A of a PC, as far as `pic.c` uses them, and `pic.c`. A chip requests an interrupt for its
lowest line that is raised and not masked, when it serves none at or below it; the slave's request is the
line 2 of the master. An acknowledge takes the line into service; without a request the chip gives the
number of its line 7 and serves nothing. `pic_driver` is what the interrupt manager is given.
-/

namespace RTLKIM

/-- `1 << i` in a byte. -/
def bit (i : ℕ) : BitVec 8 := 1#8 <<< i

/-- An 8259A: the lines that are masked, raised and served, the number of its line 0, which
initialization word the data port takes next (0 when it takes the mask), and whether the command port
gives the lines served. -/
structure Chip where
  imr : BitVec 8
  irr : BitVec 8
  isr : BitVec 8
  base : BitVec 8
  icw : ℕ
  readIsr : Bool
  deriving DecidableEq

namespace Chip

/-- The lowest line of a set. -/
def lowest (x : BitVec 8) : Option ℕ := (List.range 8).find? fun i => x.getLsbD i

/-- A write to the command port: an initialization, a read command, or an unspecific end of interrupt. -/
def writeComm (c : Chip) (v : BitVec 8) : Chip :=
  if v &&& 0x10 ≠ 0 then { c with imr := 0, irr := 0, isr := 0, icw := 2, readIsr := false }
  else if v &&& 0x08 ≠ 0 then
    if v &&& 0x03 = 3 then { c with readIsr := true }
    else if v &&& 0x03 = 2 then { c with readIsr := false } else c
  else if v = 0x20 then
    match lowest c.isr with
    | some i => { c with isr := c.isr &&& ~~~bit i }
    | none => c
  else c

def writeData (c : Chip) (v : BitVec 8) : Chip :=
  if c.icw = 2 then { c with base := v &&& 0xF8, icw := 3 }
  else if c.icw = 3 then { c with icw := 4 }
  else if c.icw = 4 then { c with icw := 0 }
  else { c with imr := v }

def readComm (c : Chip) : BitVec 8 := if c.readIsr then c.isr else c.irr

def readData (c : Chip) : BitVec 8 := c.imr

/-- The line a chip requests an interrupt for, when `up` are its lines. -/
def request (c : Chip) (up : BitVec 8) : Option ℕ :=
  (lowest (up &&& ~~~c.imr)).filter fun i => (List.range (i + 1)).all fun j => !c.isr.getLsbD j

/-- The line is served, and is not raised any more. -/
def serve (c : Chip) (i : ℕ) : Chip := { c with isr := c.isr ||| bit i, irr := c.irr &&& ~~~bit i }

end Chip

/-- The master and the slave. -/
structure Pics where
  master : Chip
  slave : Chip
  deriving DecidableEq

/-- `PIC_CASCADING_IRQ`. -/
abbrev picCascadingIrq : ℕ := 2

/-- `PIC_EOI`. -/
abbrev picEoi : BitVec 8 := 0x20

/-- `PIC_READ_ISR`. -/
abbrev picReadIsr : BitVec 8 := 0x0B

/-- `INT_PIC_IRQ_OFFSET`. -/
abbrev intPicIrqOffset : UInt32 := 0x30

/-- `PIC_MAX_IRQ_LINE`. -/
abbrev picMaxIrqLine : UInt32 := 15

namespace Pics

/-- The lines of the master, with the slave's request. -/
def masterUp (p : Pics) : BitVec 8 :=
  p.master.irr ||| if (p.slave.request p.slave.irr).isSome then bit picCascadingIrq else 0

/-- A device raises its line. -/
def raise (p : Pics) (n : ℕ) : Pics :=
  if n < 8 then { p with master := { p.master with irr := p.master.irr ||| bit n } }
  else { p with slave := { p.slave with irr := p.slave.irr ||| bit (n - 8) } }

/-- A device takes its request back. -/
def drop (p : Pics) (n : ℕ) : Pics :=
  if n < 8 then { p with master := { p.master with irr := p.master.irr &&& ~~~bit n } }
  else { p with slave := { p.slave with irr := p.slave.irr &&& ~~~bit (n - 8) } }

/-- The processor acknowledges an interrupt: the number it is given. The slave takes part when the master
takes its request into service; `gone` are the slave's lines that are taken back before that. -/
def acknowledge (p : Pics) (gone : BitVec 8) : Pics × BitVec 8 :=
  match p.master.request p.masterUp with
  | none => (p, p.master.base + 7)
  | some i =>
    let master := p.master.serve i
    if i = picCascadingIrq then
      let slave := { p.slave with irr := p.slave.irr &&& ~~~gone }
      match slave.request slave.irr with
      | none => ({ master, slave }, slave.base + 7)
      | some j => ({ master, slave := slave.serve j }, slave.base + BitVec.ofNat 8 j)
    else ({ p with master }, p.master.base + BitVec.ofNat 8 i)

/-- The bytes of `cpu_outb` to the two ports of a chip, in order. -/
def picInitChip (c : Chip) (base cascade : BitVec 8) : Chip :=
  (((c.writeComm (0x01 ||| 0x10)).writeData base).writeData cascade).writeData 0x01

/-- `pic_init`. -/
def picInit (p : Pics) : Pics :=
  let master := picInitChip p.master 0x30 0x4
  let slave := picInitChip p.slave 0x38 0x2
  let master := master.writeComm picEoi
  let slave := slave.writeComm picEoi
  { master := master.writeData 0xFF, slave := slave.writeData 0xFF }

/-- The new value of a mask. -/
def newMask (mask : BitVec 8) (n : ℕ) (enabled : UInt32) : BitVec 8 :=
  if enabled = 0 then mask ||| bit n else mask &&& ~~~bit n

/-- `pic_set_irq_mask`. -/
def picSetIrqMask (irqNumber enabled : UInt32) (p : Pics) : Pics × IntErr :=
  if picMaxIrqLine < irqNumber then (p, .noSuchIrqLine)
  else if irqNumber < 8 then
    ({ p with master := p.master.writeData (newMask p.master.readData irqNumber.toNat enabled) }, .noErr)
  else
    let cascadingNumber := irqNumber - 8
    let master := p.master.writeData (p.master.readData &&& ~~~bit picCascadingIrq)
    let initMask := newMask p.slave.readData cascadingNumber.toNat enabled
    let slave := p.slave.writeData initMask
    if initMask = 0xFF then
      ({ master := master.writeData (master.readData ||| bit picCascadingIrq), slave }, .noErr)
    else ({ master, slave }, .noErr)

/-- `pic_set_irq_eoi`. -/
def picSetIrqEoi (irqNumber : UInt32) (p : Pics) : Pics × IntErr :=
  if picMaxIrqLine < irqNumber then (p, .noSuchIrqLine)
  else
    let slave := if 7 < irqNumber then p.slave.writeComm picEoi else p.slave
    ({ master := p.master.writeComm picEoi, slave }, .noErr)

/-- `pic_handle_spurious_irq`. -/
def picHandleSpuriousIrq (intNumber : UInt32) (p : Pics) : Pics × InterruptType :=
  let irqNumber := intNumber - intPicIrqOffset
  if picMaxIrqLine < irqNumber then (p, .regular)
  else if 7 < irqNumber then
    if irqNumber ≠ 0x0F then (p, .regular)
    else
      let slave := p.slave.writeComm picReadIsr
      if slave.readComm &&& 0x80 ≠ 0 then ({ p with slave }, .regular)
      else ((picSetIrqEoi 2 { p with slave }).1, .spurious)
  else if irqNumber ≠ 0x07 then (p, .regular)
  else
    let master := p.master.writeComm picReadIsr
    if master.readComm &&& 0x80 ≠ 0 then ({ p with master }, .regular)
    else ({ p with master }, .spurious)

/-- `pic_get_irq_int_line`. -/
def picGetIrqIntLine (irqNumber : UInt32) : Int32 :=
  if picMaxIrqLine < irqNumber then -1 else (irqNumber + intPicIrqOffset).toInt32

/-- `pic_disable`. -/
def picDisable (p : Pics) : Pics :=
  { master := p.master.writeData 0xFF, slave := p.slave.writeData 0xFF }

/-- A line gets through to the processor; the slave's need the line of the cascade. -/
def passes (p : Pics) (n : ℕ) : Bool :=
  if n < 8 then !p.master.imr.getLsbD n
  else !p.slave.imr.getLsbD (n - 8) && !p.master.imr.getLsbD picCascadingIrq

/-- The chips after `pic_init` and calls of `pic_set_irq_mask`, the last call first. -/
def afterMasks (p : Pics) : List (UInt32 × UInt32) → Pics
  | [] => p.picInit
  | c :: calls => (picSetIrqMask c.1 c.2 (p.afterMasks calls)).1

/-- What the last call for a line said. -/
def lastMask (calls : List (UInt32 × UInt32)) (n : ℕ) : Bool :=
  (calls.find? fun c => c.1.toNat = n).any fun c => c.2 ≠ 0

/-- The last call that changes the line of the cascade: for that line, or for one of the slave's. -/
def lastCascade (calls : List (UInt32 × UInt32)) : Option (UInt32 × UInt32) :=
  calls.find? fun c => c.1.toNat = 2 ∨ 8 ≤ c.1.toNat ∧ c.1.toNat < 16

end Pics

/-- `pic_driver`. -/
def picDriver : InterruptDriver Pics where
  setIrqMask := Pics.picSetIrqMask
  setIrqEoi := Pics.picSetIrqEoi
  handleSpurious := Pics.picHandleSpuriousIrq
  getIrqIntLine := Pics.picGetIrqIntLine

end RTLKIM
