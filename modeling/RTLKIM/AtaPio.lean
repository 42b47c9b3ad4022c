import Mathlib.Data.List.Range
import Mathlib.Logic.Function.Basic
import Mathlib.Algebra.Group.Nat.Defs

/-!
# Sectors of an ATA device

`ata_pio_read_sector`, `ata_pio_write_sector` and `ata_pio_flush` on a device whose data port is a FIFO.
A command to read puts the 256 words of a sector in the FIFO of what is to be read; the words that are
written are in another FIFO until there are 256 of them, and then they are the sector. The count of
sectors is 1 in each command, and the error register is not modelled. A function that still waits for
the device when the status bytes that were given are used up has no result.
-/

namespace RTLKIM

abbrev ataPioErrorPortOffset : ℕ := 0x001
abbrev ataPioScPortOffset : ℕ := 0x002
abbrev ataPioLbalowPortOffset : ℕ := 0x003
abbrev ataPioLbamidPortOffset : ℕ := 0x004
abbrev ataPioLbahigPortOffset : ℕ := 0x005
abbrev ataPioDevicePortOffset : ℕ := 0x006
abbrev ataPioCommandPortOffset : ℕ := 0x007

abbrev ataPioReadSectorCommand : UInt8 := 0x20
abbrev ataPioWriteSectorCommand : UInt8 := 0x30
abbrev ataPioFlushSectorCommand : UInt8 := 0xE7

abbrev ataPioFlagBusy : UInt8 := 0x80
abbrev ataPioFlagErr : UInt8 := 0x01

abbrev ataPioSectorSize : ℕ := 512

inductive AtaPioType
  | master
  | slave
  deriving DecidableEq

inductive AtaErr
  | noErr
  | badSectorNumber
  | sizeToHuge
  | deviceNotPresent
  | deviceError
  deriving DecidableEq

/-- The registers and FIFOs of a port, its two drives, the status bytes to come, and how many words
were read and written. -/
structure AtaPort where
  device : UInt8
  lbaLow : UInt8
  lbaMid : UInt8
  lbaHig : UInt8
  sectors : AtaPioType → ℕ → List UInt16
  toHost : List UInt16
  fromHost : List UInt16
  status : List UInt8
  reads : ℕ
  writes : ℕ

/-- A buffer of the caller, and where it was stored to. -/
structure AtaBuffer where
  bytes : ℕ → UInt8
  stores : List ℕ

def AtaBuffer.store (b : AtaBuffer) (i : ℕ) (v : UInt8) : AtaBuffer :=
  ⟨Function.update b.bytes i v, b.stores ++ [i]⟩

namespace AtaPort

/-! ## The device -/

/-- The drive that is selected. -/
def drive (p : AtaPort) : AtaPioType := if p.device &&& 0x10 = 0 then .master else .slave

def lba (p : AtaPort) : ℕ :=
  p.device.toNat % 2 ^ 4 * 2 ^ 24 + p.lbaHig.toNat * 2 ^ 16 + p.lbaMid.toNat * 2 ^ 8 + p.lbaLow.toNat

/-- `cpu_outb` to a register. -/
def outb (p : AtaPort) (value : UInt8) (offset : ℕ) : AtaPort :=
  match offset with
  | 3 => { p with lbaLow := value }
  | 4 => { p with lbaMid := value }
  | 5 => { p with lbaHig := value }
  | 6 => { p with device := value }
  | 7 =>
    if value = ataPioReadSectorCommand then { p with toHost := p.toHost ++ p.sectors p.drive p.lba }
    else p
  | _ => p

/-- `cpu_inw` from the data port. -/
def inw (p : AtaPort) : UInt16 × AtaPort :=
  (p.toHost.headD 0xFFFF, { p with toHost := p.toHost.tail, reads := p.reads + 1 })

/-- `cpu_outw` to the data port. -/
def outw (p : AtaPort) (data : UInt16) : AtaPort :=
  let words := p.fromHost ++ [data]
  if words.length = ataPioSectorSize / 2 then
    { p with
      sectors := Function.update p.sectors p.drive (Function.update (p.sectors p.drive) p.lba words)
      fromHost := []
      writes := p.writes + 1 }
  else { p with fromHost := words, writes := p.writes + 1 }

/-! ## The driver -/

/-- The values of `i` in `for (i = a; i < b; i += 2)`. -/
def evens (a b : ℕ) : List ℕ := (List.range ((b - a + 1) / 2)).map fun k => a + 2 * k

/-- The loop on the status, with the last one read. -/
def waitReady (status : UInt8) : List UInt8 → Option UInt8 × List UInt8
  | [] =>
    if status &&& ataPioFlagBusy = ataPioFlagBusy ∧ status &&& ataPioFlagErr ≠ ataPioFlagErr then
      (none, [])
    else (some status, [])
  | next :: rest =>
    if status &&& ataPioFlagBusy = ataPioFlagBusy ∧ status &&& ataPioFlagErr ≠ ataPioFlagErr then
      waitReady next rest
    else (some status, next :: rest)

/-- What is done after a command, the same to read and to flush. The test of `ata_pio_flush` that the
status is 0 comes a second time, and does nothing then. -/
def waitDevice (p : AtaPort) : AtaPort × Option AtaErr :=
  match p.status with
  | [] => (p, none)
  | status :: rest =>
    if status = 0x00 then ({ p with status := rest }, some .deviceNotPresent)
    else
      let (last, rest) := waitReady status rest
      ({ p with status := rest }, last.map fun status =>
        if status &&& ataPioFlagErr = ataPioFlagErr then .deviceError else .noErr)

/-- The registers for a sector, the same to read and to write. -/
def setSector (p : AtaPort) (type : AtaPioType) (sector : UInt32) : AtaPort :=
  let select : UInt32 := if type = .master then 0xE0 else 0xF0
  let p := p.outb (select ||| (sector &&& 0x0F000000) >>> 24).toUInt8 ataPioDevicePortOffset
  let p := p.outb 0 ataPioErrorPortOffset
  let p := p.outb 1 ataPioScPortOffset
  let p := p.outb (sector &&& 0x000000FF).toUInt8 ataPioLbalowPortOffset
  let p := p.outb ((sector &&& 0x0000FF00) >>> 8).toUInt8 ataPioLbamidPortOffset
  p.outb ((sector &&& 0x00FF0000) >>> 16).toUInt8 ataPioLbahigPortOffset

/-- A word is read into the buffer. -/
def readWord (size : ℕ) (s : AtaPort × AtaBuffer) (i : ℕ) : AtaPort × AtaBuffer :=
  let (data, p) := s.1.inw
  let b := s.2.store i (data &&& 0xFF).toUInt8
  (p, if i + 1 < size then b.store (i + 1) (data >>> (8 : UInt16) &&& 0xFF).toUInt8 else b)

def ataPioReadSector (p : AtaPort) (type : AtaPioType) (sector : UInt32) (buffer : ℕ → UInt8)
    (size : ℕ) : AtaPort × AtaBuffer × Option AtaErr :=
  if sector > 0x0FFFFFFF then (p, ⟨buffer, []⟩, some .badSectorNumber)
  else if size > ataPioSectorSize then (p, ⟨buffer, []⟩, some .sizeToHuge)
  else
    let p := p.setSector type sector
    let p := p.outb ataPioReadSectorCommand ataPioCommandPortOffset
    let (p, err) := p.waitDevice
    if err = some .noErr then
      let (p, b) := (evens 0 size).foldl (readWord size) (p, ⟨buffer, []⟩)
      let p := (evens (size + size % 2) ataPioSectorSize).foldl (fun p _ => p.inw.2) p
      (p, b, err)
    else (p, ⟨buffer, []⟩, err)

def ataPioFlush (p : AtaPort) (type : AtaPioType) : AtaPort × Option AtaErr :=
  let p := p.outb (if type = .master then 0xE0 else 0xF0) ataPioDevicePortOffset
  let p := p.outb ataPioFlushSectorCommand ataPioCommandPortOffset
  p.waitDevice

/-- The word that two bytes of the buffer make. -/
def packWord (buffer : ℕ → UInt8) (size i : ℕ) : UInt16 :=
  let data := (buffer i).toUInt16 &&& 0x00FF
  if i + 1 < size then data ||| (buffer (i + 1)).toUInt16 <<< (8 : UInt16) else data

def ataPioWriteSector (p : AtaPort) (type : AtaPioType) (sector : UInt32) (buffer : ℕ → UInt8)
    (size : ℕ) : AtaPort × Option AtaErr :=
  if sector > 0x0FFFFFFF then (p, some .badSectorNumber)
  else if size > ataPioSectorSize then (p, some .sizeToHuge)
  else
    let p := p.setSector type sector
    let p := p.outb ataPioWriteSectorCommand ataPioCommandPortOffset
    let p := (evens 0 size).foldl (fun p i => p.outw (packWord buffer size i)) p
    let p := (evens (size + size % 2) ataPioSectorSize).foldl (fun p _ => p.outw 0x0000) p
    p.ataPioFlush type

/-! ## A sector that is written and read -/

/-- No word waits in a FIFO. -/
def Drained (p : AtaPort) : Prop := p.toHost = [] ∧ p.fromHost = []

/-- The data, then zeros. -/
def padded (buffer : ℕ → UInt8) (size i : ℕ) : UInt8 := if i < size then buffer i else 0

end AtaPort

end RTLKIM
