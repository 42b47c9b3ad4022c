import RTLKIM.Lib.Stride
import RTLKIM.Lib.Sweep
import RTLKIM.Paging

/-!
# The ACPI tables

The parser of `acpi.c` and the lookups in the MADT. The tables are bytes that the firmware left in
memory, at the addresses they are mapped to one to one; what is read of them is recorded. Paging is on:
a read of a byte whose page is not mapped is a page fault, which nothing handles. Loops are given a
round more than there are addresses, and a call has no result if one of them does not end or if a read
faults.
-/

namespace RTLKIM

/-! ## Constants -/

abbrev maxCpuCount : ℕ := 4
abbrev maxIoApicCount : ℕ := 1

/-- `APIC_TYPE_LOCAL_APIC`, `APIC_TYPE_IO_APIC` and `APIC_TYPE_INTERRUPT_OVERRIDE`. -/
abbrev apicTypeLocalApic : UInt8 := 0
abbrev apicTypeIoApic : UInt8 := 1
abbrev apicTypeInterruptOverride : UInt8 := 2

abbrev acpiRsdtSig : ℕ := 0x54445352
abbrev acpiXsdtSig : ℕ := 0x54445358
abbrev acpiFacpSig : ℕ := 0x50434146
abbrev acpiFacsSig : ℕ := 0x53434146
abbrev acpiApicSig : ℕ := 0x43495041
abbrev acpiDsdtSig : ℕ := 0x54445344

/-- `sizeof(acpi_header_t)`; the FACS and the DSDT are a header. -/
abbrev sizeofAcpiHeader : ℕ := 36
abbrev sizeofAcpiMadt : ℕ := 44
abbrev sizeofAcpiFadt : ℕ := 244

/-- `sizeof(rsdt_descriptor_t)`, and that of `xsdt_descriptor_t`. -/
abbrev sizeofSdtDescriptor : ℕ := 40

/-- A loop on addresses that has not ended after so many rounds does not end. -/
abbrev acpiRounds : ℕ := 2 ^ 32 + 1

/-- The codes that the functions here return. -/
inductive AcpiErr
  | noErr
  | nullPointer
  | checksumFailed
  | paging (err : PagingErr)
  deriving DecidableEq

/-- The data of `acpi.c`, with the state of paging and the ranges of bytes that were read of the
tables. The data that nothing reads is left out. -/
structure Acpi (ρ : Type) where
  pages : ρ
  cpuCount : ℕ
  cpuIds : Fin maxCpuCount → ℕ
  cpuLapic : Fin maxCpuCount → ℕ
  ioApicCount : ℕ
  ioApicTables : Fin maxIoApicCount → ℕ
  madtParseSuccess : Bool
  madt : ℕ
  acpiInitialized : Bool
  reads : List (ℕ × ℕ)

/-! ## Tables in memory -/

section Tables

variable (mem : ℕ → UInt8)

/-- The `uint32_t` at an address. -/
def word (a : ℕ) : ℕ :=
  (mem a).toNat + 2 ^ 8 * (mem (a + 1)).toNat + 2 ^ 16 * (mem (a + 2)).toNat
    + 2 ^ 24 * (mem (a + 3)).toNat

/-- `header.signature`, as it is compared. -/
def signature (table : ℕ) : ℕ := word mem table

/-- `header.length`. -/
def tableLength (table : ℕ) : ℕ := word mem (table + 4)

/-- The end of a table. -/
def tableLimit (table : ℕ) : ℕ := add32 table (tableLength mem table)

/-- `header->type` of an entry of the MADT. -/
def entryType (p : ℕ) : UInt8 := mem p

/-- `header->length` of an entry of the MADT. -/
def entryLength (p : ℕ) : ℕ := (mem (p + 1)).toNat

/-- `madt_entry += header->length`. -/
def nextEntry (p : ℕ) : ℕ := add32 p (entryLength mem p)

/-- `acpi_cpu_id` of a `local_apic_t`. -/
def acpiCpuId (p : ℕ) : ℕ := (mem (p + 2)).toNat

/-- `source` of an `apic_interrupt_override_t`. -/
def overrideSource (p : ℕ) : ℕ := (mem (p + 3)).toNat

/-- `interrupt` of an `apic_interrupt_override_t`. -/
def overrideInterrupt (p : ℕ) : ℕ := word mem (p + 4)

end Tables

section Map

/-- `kernel_mmap_hw` of a page on itself, read-only: its effect and its code, and the bytes whose page is
mapped. It takes no page away, and there is one where its code says so. -/
structure HwPages (ρ : Type) where
  mmapHw : ρ → ℕ → ρ × PagingErr
  mapped : ρ → ℕ → Bool
  keeps : ∀ {r : ρ} {a x : ℕ}, mapped r x → mapped (mmapHw r a).1 x
  maps : ∀ {r : ρ} {a i : ℕ}, a % kernelPageSize = 0 → i < kernelPageSize →
    (mmapHw r a).2 = .pool .noErr ∨ (mmapHw r a).2 = .mappingAlreadyExists →
      mapped (mmapHw r a).1 (a + i)

variable {ρ : Type} (hw : HwPages ρ)

/-- The `n` bytes from `a` on are on pages that are mapped. -/
def HwPages.Covers (pages : ρ) (a n : ℕ) : Prop := ∀ i < n, hw.mapped pages (a + i) = true

instance (pages : ρ) (a n : ℕ) : Decidable (hw.Covers pages a n) :=
  Nat.decidableBallLT n fun i _ => hw.mapped pages (a + i) = true

/-- The loop of `acpi_map_data` at a page. -/
def acpiMapPage (r : ρ × AcpiErr) (addrAlign : ℕ) : Option ((ρ × AcpiErr) × Bool) :=
  let q := hw.mmapHw r.1 addrAlign
  if q.2 ≠ .pool .noErr ∧ q.2 ≠ .mappingAlreadyExists then some ((q.1, .paging q.2), true)
  else some ((q.1, .noErr), false)

/-- `acpi_map_data`. -/
def acpiMapData (pages : ρ) (startAddr size : ℕ) : Option (ρ × AcpiErr) :=
  let addrAlign := startAddr &&& pageAlignMask
  let size := sub32 (add32 size startAddr) addrAlign
  sweep kernelPageSize (acpiMapPage hw) (size + 1) (pages, .noErr) addrAlign size

end Map

namespace Acpi

variable {ρ : Type} (mem : ℕ → UInt8) (hw : HwPages ρ)

/-- `n` bytes from `a` on are read. -/
def touch (s : Acpi ρ) (a n : ℕ) : Option (Acpi ρ) :=
  if hw.Covers s.pages a n then some { s with reads := (a, n) :: s.reads } else none

/-- `acpi_map_data`, on the pages of the state. -/
def mapData (s : Acpi ρ) (startAddr size : ℕ) : Option (Acpi ρ × AcpiErr) :=
  (acpiMapData hw s.pages startAddr size).map fun r => ({ s with pages := r.1 }, r.2)

/-! ## The MADT -/

/-- `for(i = 0; i < header.length; ++i) sum += table[i];`, where `i` has `wi` bits and `sum` has `ws`.
The bits of `sum` are its value. -/
def checksum (wi ws : ℕ) (s : Acpi ρ) (table : ℕ) : Option (Acpi ρ × ℕ) :=
  (s.touch hw (table + 4) 4).bind fun s =>
    stride (fun i => (i + 1) % 2 ^ wi) (tableLength mem table)
      (fun r i => (r.1.touch hw (table + i) 1).map fun s =>
        ((s, (r.2 + (mem (table + i)).toNat) % 2 ^ ws), false))
      acpiRounds (s, 0) 0

/-- The loop of `acpi_parse_apic` at an entry. -/
def parseEntry (s : Acpi ρ) (p : ℕ) : Option (Acpi ρ) :=
  (s.touch hw p 1).bind fun s =>
    (if entryType mem p = apicTypeLocalApic then
      -- `acpi_cpu_id` is read for the table or for the message
      (s.touch hw (p + 2) 1).map fun s =>
        if h : s.cpuCount < maxCpuCount then
          { s with
            cpuLapic := Function.update s.cpuLapic ⟨s.cpuCount, h⟩ p
            cpuIds := Function.update s.cpuIds ⟨s.cpuCount, h⟩ (acpiCpuId mem p)
            cpuCount := s.cpuCount + 1 }
        else s
    else if entryType mem p = apicTypeIoApic then
      if h : s.ioApicCount < maxIoApicCount then
        some { s with
          ioApicTables := Function.update s.ioApicTables ⟨s.ioApicCount, h⟩ p
          ioApicCount := s.ioApicCount + 1 }
      -- `apic_id` is read for the message
      else s.touch hw (p + 2) 1
    else some s).bind fun s => s.touch hw (p + 1) 1

/-- The loop of `acpi_parse_apic` over the entries. -/
def parseEntries (s : Acpi ρ) (entry limit : ℕ) : Option (Acpi ρ) :=
  stride (nextEntry mem) limit (fun s p => (s.parseEntry mem hw p).map fun s => (s, false)) acpiRounds s
    entry

/-- `acpi_parse_apic`. -/
def acpiParseApic (s : Acpi ρ) (madtPtr : ℕ) : Option (Acpi ρ × AcpiErr) :=
  if madtPtr = 0 then some (s, .nullPointer)
  else
    (s.mapData hw madtPtr sizeofAcpiMadt).bind fun (s, err) =>
      if err ≠ .noErr then some (s, err)
      else
        (s.checksum mem hw 32 32 madtPtr).bind fun (s, sum) =>
          if sum % 2 ^ 8 ≠ 0 then some (s, .checksumFailed)
          else
            (s.touch hw madtPtr 4).bind fun s =>
              if signature mem madtPtr ≠ acpiApicSig then some (s, .checksumFailed)
              else
                let madtEntry := add32 madtPtr sizeofAcpiMadt
                let madtLimit := tableLimit mem madtPtr
                (s.mapData hw madtEntry (sub32 madtLimit madtEntry)).bind fun (s, err) =>
                  if err ≠ .noErr then some (s, err)
                  else
                    ({ s with cpuCount := 0, ioApicCount := 0 }.parseEntries mem hw madtEntry
                      madtLimit).map fun s => (s, .noErr)

/-! ## The other tables -/

/-- `acpi_parse_facs`. -/
def acpiParseFacs (s : Acpi ρ) (facsPtr : ℕ) : Option (Acpi ρ × AcpiErr) :=
  if facsPtr = 0 then some (s, .nullPointer)
  else
    (s.mapData hw facsPtr sizeofAcpiHeader).bind fun (s, err) =>
      if err ≠ .noErr then some (s, err)
      else
        (s.touch hw facsPtr 4).map fun s =>
          (s, if signature mem facsPtr ≠ acpiFacsSig then .checksumFailed else .noErr)

/-- The checksum and the signature of a table, as `acpi_parse_dsdt` and `acpi_parse_fadt` test them. -/
def checkTable (s : Acpi ρ) (table sig : ℕ) : Option (Acpi ρ × AcpiErr) :=
  (s.checksum mem hw 32 32 table).bind fun (s, sum) =>
    if sum % 2 ^ 8 ≠ 0 then some (s, .checksumFailed)
    else
      (s.touch hw table 4).map fun s =>
        (s, if signature mem table ≠ sig then .checksumFailed else .noErr)

/-- `acpi_parse_dsdt`. -/
def acpiParseDsdt (s : Acpi ρ) (dsdtPtr : ℕ) : Option (Acpi ρ × AcpiErr) :=
  if dsdtPtr = 0 then some (s, .nullPointer)
  else
    (s.mapData hw dsdtPtr sizeofAcpiHeader).bind fun (s, err) =>
      if err ≠ .noErr then some (s, err)
      else
        (s.touch hw (dsdtPtr + 4) 4).bind fun s =>
          (s.mapData hw dsdtPtr (tableLength mem dsdtPtr)).bind fun (s, err) =>
            if err ≠ .noErr then some (s, err) else s.checkTable mem hw dsdtPtr acpiDsdtSig

/-- `acpi_parse_fadt`; `firmware_control` and `dsdt` are its first two fields. -/
def acpiParseFadt (s : Acpi ρ) (fadtPtr : ℕ) : Option (Acpi ρ × AcpiErr) :=
  if fadtPtr = 0 then some (s, .nullPointer)
  else
    (s.mapData hw fadtPtr sizeofAcpiFadt).bind fun (s, err) =>
      if err ≠ .noErr then some (s, err)
      else
        (s.checkTable mem hw fadtPtr acpiFacpSig).bind fun (s, err) =>
          if err ≠ .noErr then some (s, err)
          else
            (s.touch hw (fadtPtr + 36) 4).bind fun s =>
              (s.acpiParseFacs mem hw (word mem (fadtPtr + 36))).bind fun (s, err) =>
                if err ≠ .noErr then some (s, err)
                else
                  (s.touch hw (fadtPtr + 40) 4).bind fun s =>
                    s.acpiParseDsdt mem hw (word mem (fadtPtr + 40))

/-- `acpi_parse_dt`. -/
def acpiParseDt (s : Acpi ρ) (header : ℕ) : Option (Acpi ρ × AcpiErr) :=
  if header = 0 then some (s, .nullPointer)
  else
    (s.mapData hw header sizeofAcpiHeader).bind fun (s, err) =>
      if err ≠ .noErr then some (s, err)
      else
        (s.touch hw header 4).bind fun s =>
          if signature mem header = acpiFacpSig then s.acpiParseFadt mem hw header
          else if signature mem header = acpiApicSig then
            (s.acpiParseApic mem hw header).map fun (s, err) =>
              if err = .noErr then ({ s with madtParseSuccess := true, madt := header }, err)
              else (s, err)
          else some (s, .noErr)

/-- What a call on an RSDT or an XSDT comes to: it returns before the pointers, or goes over those at
`visited`. -/
inductive SdtRes
  | refused (err : AcpiErr)
  | walked (visited : List ℕ) (err : AcpiErr)
  deriving DecidableEq

/-- `acpi_parse_rsdt` and `acpi_parse_xsdt` up to the loop over the pointers; `i` and `sum` of the
checksum have 8 bits. -/
def testSdt (sig : ℕ) (s : Acpi ρ) (sdtPtr : ℕ) : Option (Acpi ρ × AcpiErr) :=
  if sdtPtr = 0 then some (s, .nullPointer)
  else
    (s.mapData hw sdtPtr sizeofSdtDescriptor).bind fun (s, err) =>
      if err ≠ .noErr then some (s, err)
      else
        (s.checksum mem hw 8 8 sdtPtr).bind fun (s, sum) =>
          if sum % 2 ^ 8 ≠ 0 then some (s, .checksumFailed)
          else
            (s.touch hw sdtPtr 4).bind fun s =>
              if signature mem sdtPtr ≠ sig then some (s, .checksumFailed)
              else
                let rangeBegin := add32 sdtPtr sizeofAcpiHeader
                s.mapData hw rangeBegin (sub32 (tableLimit mem sdtPtr) rangeBegin)

/-- `address = *range_begin; err = acpi_parse_dt(address);`, where a pointer has `size` bytes. -/
def parseDtAt (size : ℕ) (s : Acpi ρ) (p : ℕ) : Option (Acpi ρ × AcpiErr) :=
  (s.touch hw p size).bind fun s => s.acpiParseDt mem hw (word mem p)

/-- The loop over the pointers at a pointer. -/
def parsePointer (size : ℕ) (r : Acpi ρ × List ℕ × AcpiErr) (p : ℕ) :
    Option ((Acpi ρ × List ℕ × AcpiErr) × Bool) :=
  (r.1.parseDtAt mem hw size p).map fun (s, err) =>
    ((s, r.2.1 ++ [p], err), decide (err ≠ .noErr))

/-- `acpi_parse_rsdt` and `acpi_parse_xsdt`, with the signature and the size of a pointer. -/
def acpiParseSdt (sig size : ℕ) (s : Acpi ρ) (sdtPtr : ℕ) : Option (Acpi ρ × SdtRes) :=
  (s.testSdt mem hw sig sdtPtr).bind fun (s, err) =>
    if err ≠ .noErr then some (s, .refused err)
    else
      (stride (fun p => add32 p size) (tableLimit mem sdtPtr) (parsePointer mem hw size) acpiRounds
        (s, [], .noErr) (add32 sdtPtr sizeofAcpiHeader)).map
        fun (s, visited, err) => (s, .walked visited err)

def acpiParseRsdt (s : Acpi ρ) (rsdtPtr : ℕ) : Option (Acpi ρ × SdtRes) :=
  s.acpiParseSdt mem hw acpiRsdtSig 4 rsdtPtr

/-- The pointers of 64 bits are cut to 32. -/
def acpiParseXsdt (s : Acpi ρ) (xsdtPtr : ℕ) : Option (Acpi ρ × SdtRes) :=
  s.acpiParseSdt mem hw acpiXsdtSig 8 xsdtPtr

/-! ## Lookups -/

/-- The loop of `acpi_get_remmaped_irq` at an entry. -/
def remapEntry (irqNumber : UInt32) (r : Acpi ρ × Option Int32) (p : ℕ) :
    Option ((Acpi ρ × Option Int32) × Bool) :=
  (r.1.touch hw p 1).bind fun s =>
    if entryType mem p = apicTypeInterruptOverride then
      (s.touch hw (p + 3) 1).bind fun s =>
        if overrideSource mem p = irqNumber.toNat then
          (s.touch hw (p + 4) 4).map fun s => ((s, some (.ofNat (overrideInterrupt mem p))), true)
        else (s.touch hw (p + 1) 1).map fun s => ((s, none), false)
    else (s.touch hw (p + 1) 1).map fun s => ((s, none), false)

/-- `acpi_get_remmaped_irq`. -/
def acpiGetRemmapedIrq (s : Acpi ρ) (irqNumber : UInt32) : Option (Acpi ρ × Int32) :=
  if s.acpiInitialized = false then some (s, -1)
  else if s.madtParseSuccess = false then some (s, irqNumber.toInt32)
  else
    (s.touch hw (s.madt + 4) 4).bind fun s =>
      (stride (nextEntry mem) (tableLimit mem s.madt) (remapEntry mem hw irqNumber) acpiRounds
        (s, none) (add32 s.madt sizeofAcpiMadt)).map fun r => (r.1, r.2.getD irqNumber.toInt32)

end Acpi

end RTLKIM
