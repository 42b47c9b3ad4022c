import RTLKIM.Acpi

/-!
# What the tables say

The entries of a MADT that tile it, what is to be recorded of them and where interrupts go; the bytes
that a walk may read; the pointers of an RSDT or an XSDT.
-/

namespace RTLKIM

section Tables

variable (mem : ℕ → UInt8)

/-- The sum of the first bytes of a table. -/
def byteSum (table n : ℕ) : ℕ := ((List.range n).map fun i => (mem (table + i)).toNat).sum

/-- The checksum and the signature of a table are right. -/
structure GoodTable (sig table : ℕ) : Prop where
  sum : byteSum mem table (tableLength mem table) % 2 ^ 8 = 0
  signature : signature mem table = sig

/-! ## The MADT -/

/-- The size of the structure of a type of entries, at least the header. -/
def entrySize (type : UInt8) : ℕ :=
  if type = apicTypeLocalApic then 8
  else if type = apicTypeIoApic then 12
  else if type = apicTypeInterruptOverride then 10
  else 2

/-- Entries that have their size follow each other from `p` to exactly the limit. -/
def Tiles (limit : ℕ) : ℕ → List ℕ → Prop
  | p, [] => p = limit
  | p, q :: l => q = p ∧ entrySize (entryType mem p) ≤ entryLength mem p
      ∧ Tiles limit (p + entryLength mem p) l

instance decidableTiles (limit : ℕ) : ∀ p l, Decidable (Tiles mem limit p l)
  | p, [] => inferInstanceAs (Decidable (p = limit))
  | p, _ :: l =>
    have := decidableTiles limit (p + entryLength mem p) l
    inferInstanceAs (Decidable (_ ∧ _ ∧ _))

def IsLapic (p : ℕ) : Prop := entryType mem p = apicTypeLocalApic

def IsIoApic (p : ℕ) : Prop := entryType mem p = apicTypeIoApic

/-- The entry is an override of the interrupt. -/
def Overrides (irq : UInt32) (p : ℕ) : Prop :=
  entryType mem p = apicTypeInterruptOverride ∧ overrideSource mem p = irq.toNat

instance : DecidablePred (IsLapic mem) := fun _ => inferInstanceAs (Decidable (_ = _))

instance : DecidablePred (IsIoApic mem) := fun _ => inferInstanceAs (Decidable (_ = _))

instance (irq : UInt32) : DecidablePred (Overrides mem irq) :=
  fun _ => inferInstanceAs (Decidable (_ ∧ _))

/-- The local APICs that are recorded of the entries. -/
def lapics (l : List ℕ) : List ℕ := (l.filter (IsLapic mem ·)).take maxCpuCount

/-- The IO-APICs that are recorded of the entries. -/
def ioApics (l : List ℕ) : List ℕ := (l.filter (IsIoApic mem ·)).take maxIoApicCount

/-- Where an interrupt goes: the first override of it, or itself. -/
def remapped (l : List ℕ) (irq : UInt32) : Int32 :=
  match l.find? (Overrides mem irq ·) with
  | some p => .ofNat (overrideInterrupt mem p)
  | none => irq.toInt32

/-- The tables record the entries, in order. -/
structure Acpi.Records {ρ : Type} (s : Acpi ρ) (l : List ℕ) : Prop where
  cpuCount : s.cpuCount = (lapics mem l).length
  cpus : ∀ (i : Fin maxCpuCount) (p : ℕ), (lapics mem l)[(i : ℕ)]? = some p →
    s.cpuLapic i = p ∧ s.cpuIds i = acpiCpuId mem p
  ioApicCount : s.ioApicCount = (ioApics mem l).length
  tables : ∀ (i : Fin maxIoApicCount) (p : ℕ), (ioApics mem l)[(i : ℕ)]? = some p →
    s.ioApicTables i = p

/-- What the walks read of the entry `p` after the entries `before` is before the limit, and it tells a
length. -/
structure EntryInside (limit : ℕ) (before : List ℕ) (p : ℕ) : Prop where
  length : entryLength mem p ≠ 0
  header : p + 2 ≤ limit
  lapic : IsLapic mem p → p + 3 ≤ limit
  ioApic : IsIoApic mem p → maxIoApicCount ≤ (before.filter (IsIoApic mem ·)).length → p + 3 ≤ limit
  source : entryType mem p = apicTypeInterruptOverride → p + 4 ≤ limit
  interrupt : ∀ irq, Overrides mem irq p → (∀ q ∈ before, ¬ Overrides mem irq q) → p + 8 ≤ limit

/-- The `k`-th entry of a MADT, by the lengths of those before it. -/
def entryAt (madtPtr k : ℕ) : ℕ := (nextEntry mem)^[k] (add32 madtPtr sizeofAcpiMadt)

/-- The walks come to the `k`-th entry. -/
def EntryVisited (madtPtr k : ℕ) : Prop :=
  Visits (nextEntry mem) (tableLimit mem madtPtr) (add32 madtPtr sizeofAcpiMadt) k

/-! ## The RSDT and the XSDT -/

/-- The positions of the pointers of `size` bytes that are wholly in the table. -/
def wholePointers (table size : ℕ) : List ℕ :=
  (List.range ((tableLength mem table - sizeofAcpiHeader) / size)).map
    fun k => table + sizeofAcpiHeader + k * size

/-- The table ends within a pointer. -/
def CutOff (table size : ℕ) : Prop :=
  sizeofAcpiHeader < tableLength mem table ∧ (tableLength mem table - sizeofAcpiHeader) % size ≠ 0

end Tables

/-- The three calls of `acpi_map_data` on a MADT succeed, from these pages on, and when its header is
mapped all of it is. -/
def MapsMadt {ρ : Type} (mem : ℕ → UInt8) (hw : HwPages ρ) (pages : ρ) (madtPtr : ℕ) : Prop :=
  ∃ p₀ p₁ p₂, acpiMapData hw pages madtPtr sizeofAcpiHeader = some (p₀, .noErr)
    ∧ hw.Covers p₀ madtPtr (tableLength mem madtPtr)
    ∧ acpiMapData hw p₀ madtPtr sizeofAcpiMadt = some (p₁, .noErr)
    ∧ acpiMapData hw p₁ (madtPtr + sizeofAcpiMadt) (tableLength mem madtPtr - sizeofAcpiMadt)
      = some (p₂, .noErr)

namespace Acpi

variable {ρ : Type}

/-- All that was read is before the limit. -/
def Inside (s : Acpi ρ) (limit : ℕ) : Prop := ∀ r ∈ s.reads, r.1 + r.2 ≤ limit

/-- The MADT is there for the lookups: the end of `acpi_parse_dt` and that of `acpi_init`. -/
def installed (s : Acpi ρ) (madtPtr : ℕ) : Acpi ρ :=
  { s with madtParseSuccess := true, madt := madtPtr, acpiInitialized := true }

/-- The tables that the pointers at `l` lead to are parsed in turn without an error. -/
def Parses (mem : ℕ → UInt8) (hw : HwPages ρ) (size : ℕ) : Acpi ρ → List ℕ → Acpi ρ → Prop
  | s, [], s' => s' = s
  | s, p :: l, s' => ∃ s₁, s.parseDtAt mem hw size p = some (s₁, .noErr)
      ∧ Parses mem hw size s₁ l s'

/-- The loop over the pointers at `l` comes to the end of them and no further: without `more` pointers
after them the last one's table is parsed, and with more the parser refuses it. -/
def PointersEnd (mem : ℕ → UInt8) (hw : HwPages ρ) (size : ℕ) (s : Acpi ρ) (l : List ℕ)
    (more : Prop) : Prop :=
  l = [] ∧ ¬ more ∨ ∃ l₁ p s₁ s₂ err, l = l₁ ++ [p] ∧ Parses mem hw size s l₁ s₁
    ∧ s₁.parseDtAt mem hw size p = some (s₂, err)
    ∧ (more → err ≠ .noErr)

/-- The checksum of an RSDT or an XSDT, of which the descriptor is mapped, ends, as its bytes are on pages
that are mapped; the pointers of a good table get mapped, and the loop over them comes to their end and
no further. -/
structure SdtFits (mem : ℕ → UInt8) (hw : HwPages ρ) (sig size : ℕ) (s : Acpi ρ) (sdtPtr : ℕ) : Prop where
  length : tableLength mem sdtPtr < 2 ^ 8
  covers : hw.Covers s.pages sdtPtr (tableLength mem sdtPtr)
  pointers : GoodTable mem sig sdtPtr → ∃ pages,
    acpiMapData hw s.pages (add32 sdtPtr sizeofAcpiHeader)
        (sub32 (tableLimit mem sdtPtr) (add32 sdtPtr sizeofAcpiHeader)) = some (pages, .noErr)
      ∧ PointersEnd mem hw size { s with pages := pages } (wholePointers mem sdtPtr size)
        (CutOff mem sdtPtr size)

/-- A call on an RSDT or an XSDT returns; it goes over the pointers of a good table and of no other, and
over exactly those that are wholly in the table. -/
def SdtRight (mem : ℕ → UInt8) (sig size sdtPtr : ℕ) (r : Option (Acpi ρ × SdtRes)) : Prop :=
  ∃ s' res, r = some (s', res)
    ∧ ((∃ visited err, res = .walked visited err) ↔ GoodTable mem sig sdtPtr)
    ∧ ∀ visited err, res = .walked visited err → visited = wholePointers mem sdtPtr size

end Acpi

end RTLKIM
