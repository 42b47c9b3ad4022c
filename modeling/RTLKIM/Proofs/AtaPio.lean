import Mathlib.Tactic.SplitIfs
import RTLKIM.AtaPio

/-!
# A sector that is written and read again

Both loops of a write send the words of the sector in order, and both loops of a read take as many. The
rounds of the first loop make or take one word for two bytes, and the padding is the words that are
left of the 256.
-/

namespace RTLKIM

namespace AtaPort

/-! ## Words of two bytes -/

theorem evens_length (a b : ℕ) : (evens a b).length = (b - a + 1) / 2 := by
  unfold evens
  rw [List.length_map, List.length_range]

/-- The two loops make 256 rounds. -/
theorem evens_rounds {size : ℕ} (h : size ≤ 512) :
    (evens 0 size).length + (evens (size + size % 2) 512).length = 256 := by
  rw [evens_length, evens_length]
  omega

theorem toNat_packed (lo hi : UInt8) :
    (lo.toUInt16 &&& 0x00FF ||| hi.toUInt16 <<< (8 : UInt16)).toNat = lo.toNat + hi.toNat * 256 := by
  have hlo := lo.toNat_lt
  have hhi := hi.toNat_lt
  have hmask : lo.toNat &&& 255 = lo.toNat := Nat.and_two_pow_sub_one_of_lt_two_pow hlo
  have hshift : hi.toNat <<< 8 % 65536 = hi.toNat <<< 8 := by
    rw [Nat.shiftLeft_eq]
    omega
  have hor : lo.toNat ||| hi.toNat <<< 8 = lo.toNat + hi.toNat * 256 := by
    rw [Nat.or_comm, ← Nat.shiftLeft_add_eq_or_of_lt hlo, Nat.shiftLeft_eq, Nat.add_comm]
  simp [hmask, hshift, hor]

theorem toNat_low (w : UInt16) : (w &&& 0xFF).toUInt8.toNat = w.toNat % 256 := by
  have hmask : w.toNat % 256 &&& 255 = w.toNat % 256 % 256 := Nat.and_two_pow_sub_one_eq_mod _ 8
  simp [hmask]

theorem toNat_high (w : UInt16) : (w >>> (8 : UInt16) &&& 0xFF).toUInt8.toNat = w.toNat / 256 := by
  have hw := w.toNat_lt
  have hshift : w.toNat >>> 8 = w.toNat / 256 := Nat.shiftRight_eq_div_pow _ _
  have hmask : w.toNat / 256 % 256 &&& 255 = w.toNat / 256 % 256 % 256 :=
    Nat.and_two_pow_sub_one_eq_mod _ 8
  simp [hshift, hmask]
  omega

/-- The word that the first loop, or else the padding, makes of the bytes from `2 * k` on. -/
def sectorWord (buffer : ℕ → UInt8) (size k : ℕ) : UInt16 :=
  if 2 * k < size then packWord buffer size (2 * k) else 0

theorem toNat_packWord (buffer : ℕ → UInt8) {size i : ℕ} (h : i < size) :
    (packWord buffer size i).toNat
      = (padded buffer size i).toNat + (padded buffer size (i + 1)).toNat * 256 := by
  unfold padded
  rw [if_pos h]
  by_cases h' : i + 1 < size
  · rw [if_pos h', ← toNat_packed]
    exact congrArg UInt16.toNat (if_pos h')
  · have hmask : (buffer i).toNat &&& 255 = (buffer i).toNat :=
      Nat.and_two_pow_sub_one_of_lt_two_pow (buffer i).toNat_lt
    rw [if_neg h']
    refine (congrArg UInt16.toNat (if_neg h')).trans ?_
    simp [hmask]

theorem toNat_sectorWord (buffer : ℕ → UInt8) (size k : ℕ) : (sectorWord buffer size k).toNat
    = (padded buffer size (2 * k)).toNat + (padded buffer size (2 * k + 1)).toNat * 256 := by
  unfold sectorWord
  by_cases h : 2 * k < size
  · rw [if_pos h]
    exact toNat_packWord buffer h
  · unfold padded
    rw [if_neg h, if_neg h, if_neg (by omega)]
    rfl

/-- What a read takes from a word of the sector. -/
theorem low_sectorWord (buffer : ℕ → UInt8) (size k : ℕ) :
    (sectorWord buffer size k &&& 0xFF).toUInt8 = padded buffer size (2 * k) := by
  refine UInt8.toNat_inj.1 ?_
  have hlo := (padded buffer size (2 * k)).toNat_lt
  rw [toNat_low, toNat_sectorWord]
  omega

theorem high_sectorWord (buffer : ℕ → UInt8) (size k : ℕ) :
    (sectorWord buffer size k >>> (8 : UInt16) &&& 0xFF).toUInt8 = padded buffer size (2 * k + 1) := by
  refine UInt8.toNat_inj.1 ?_
  have hlo := (padded buffer size (2 * k)).toNat_lt
  rw [toNat_high, toNat_sectorWord]
  omega

/-- The words of a sector with the data, then zeros. -/
def sectorWords (buffer : ℕ → UInt8) (size : ℕ) : List UInt16 :=
  (List.range 256).map (sectorWord buffer size)

/-- What the two loops of a write send. -/
theorem sectorWords_eq (buffer : ℕ → UInt8) {size : ℕ} (h : size ≤ 512) : sectorWords buffer size
    = (evens 0 size).map (packWord buffer size) ++ (evens (size + size % 2) 512).map fun _ => 0 := by
  have hsplit : 256 = (size - 0 + 1) / 2 + (512 - (size + size % 2) + 1) / 2 := by omega
  unfold sectorWords evens
  rw [hsplit, List.range_add, List.map_append, List.map_map, List.map_map, List.map_map]
  congr 1
  · refine List.map_congr_left fun k hk => ?_
    have hk := List.mem_range.1 hk
    unfold sectorWord
    rw [if_pos (by omega), Function.comp_apply, Nat.zero_add]
  · refine List.map_congr_left fun k _ => ?_
    unfold sectorWord
    rw [Function.comp_apply, if_neg (by omega)]
    rfl

/-! ## A write -/

section Write

variable (p : AtaPort)

/-- Words that fill the FIFO become the sector. -/
theorem foldl_outw : ∀ (ws : List UInt16) (w : UInt16) (p : AtaPort),
    p.fromHost.length + ws.length + 1 = 256 → (ws ++ [w]).foldl outw p = { p with
      sectors := Function.update p.sectors p.drive
        (Function.update (p.sectors p.drive) p.lba (p.fromHost ++ (ws ++ [w])))
      fromHost := []
      writes := p.writes + (ws.length + 1) }
  | [], w, p, h => by
    have hfull : (p.fromHost ++ [w]).length = ataPioSectorSize / 2 := by
      rw [List.length_append]
      exact h
    exact if_pos hfull
  | v :: ws, w, p, h => by
    rw [List.length_cons] at h
    have hmore : (p.fromHost ++ [v]).length ≠ 256 := by
      rw [List.length_append, List.length_singleton]
      omega
    have hv : p.outw v = { p with fromHost := p.fromHost ++ [v], writes := p.writes + 1 } :=
      if_neg hmore
    rw [List.cons_append, List.foldl_cons, hv, foldl_outw ws w _ ?_]
    · simp only [List.append_assoc, List.singleton_append, List.length_cons, drive, lba]
      rw [Nat.add_right_comm p.writes, Nat.add_assoc p.writes]
    · simp only [List.length_append, List.length_singleton]
      omega

/-! The registers for a sector. -/

theorem toNat_field (n m s k : ℕ) (hm : m >>> s = 2 ^ k - 1) :
    (n &&& m) >>> s = n / 2 ^ s % 2 ^ k := by
  rw [Nat.shiftRight_and_distrib, hm, Nat.and_two_pow_sub_one_eq_mod, Nat.shiftRight_eq_div_pow]

/-- The drive, with four bits of the sector under it. -/
theorem deviceByte (type : AtaPioType) {n : ℕ} (h : n < 16) :
    ((if type = .master then 0xE0 else 0xF0) ||| n) % 256 % 2 ^ 4 = n
      ∧ (((if type = .master then 0xE0 else 0xF0) ||| n) % 256 &&& 0x10 = 0 ↔ type = .master) := by
  revert n
  cases type <;> decide

theorem setSector_eq (type : AtaPioType) (sector : UInt32) : p.setSector type sector = { p with
    device :=
      ((if type = .master then (0xE0 : UInt32) else 0xF0) ||| (sector &&& 0x0F000000) >>> 24).toUInt8
    lbaLow := (sector &&& 0x000000FF).toUInt8
    lbaMid := ((sector &&& 0x0000FF00) >>> 8).toUInt8
    lbaHig := ((sector &&& 0x00FF0000) >>> 16).toUInt8 } := rfl

theorem toNat_device (type : AtaPioType) (sector : UInt32) :
    ((if type = .master then (0xE0 : UInt32) else 0xF0) ||| (sector &&& 0x0F000000) >>> 24).toUInt8.toNat
      = ((if type = .master then 0xE0 else 0xF0) ||| sector.toNat / 2 ^ 24 % 2 ^ 4) % 256 := by
  rw [← toNat_field sector.toNat 0x0F000000 24 4 (by decide), UInt32.toNat_toUInt8, UInt32.toNat_or,
    UInt32.toNat_shiftRight, UInt32.toNat_and]
  cases type <;> rfl

theorem toNat_lbaByte (sector m : UInt32) (s : ℕ) (hs : s < 32)
    (hm : m.toNat >>> s = 2 ^ 8 - 1) :
    ((sector &&& m) >>> UInt32.ofNat s).toUInt8.toNat = sector.toNat / 2 ^ s % 2 ^ 8 := by
  rw [UInt32.toNat_toUInt8, UInt32.toNat_shiftRight, UInt32.toNat_and,
    UInt32.toNat_ofNat_of_lt' (hs.trans (by decide)), Nat.mod_eq_of_lt hs, toNat_field _ _ _ 8 hm,
    Nat.mod_mod]

/-- The registers are those of the sector in 28 bits. -/
theorem lba_setSector (type : AtaPioType) {sector : UInt32} (h : sector ≤ 0x0FFFFFFF) :
    (p.setSector type sector).lba = sector.toNat := by
  have hlt : sector.toNat ≤ 0x0FFFFFFF := h
  have hlow : (sector &&& 0x000000FF).toUInt8.toNat = sector.toNat % 2 ^ 8 := by
    rw [UInt32.toNat_toUInt8, UInt32.toNat_and]
    exact (congrArg (· % 2 ^ 8) (Nat.and_two_pow_sub_one_eq_mod _ 8)).trans (Nat.mod_mod _ _)
  have hmid : ((sector &&& 0x0000FF00) >>> 8).toUInt8.toNat = sector.toNat / 2 ^ 8 % 2 ^ 8 :=
    toNat_lbaByte sector 0x0000FF00 8 (by decide) (by decide)
  have hhig : ((sector &&& 0x00FF0000) >>> 16).toUInt8.toNat = sector.toNat / 2 ^ 16 % 2 ^ 8 :=
    toNat_lbaByte sector 0x00FF0000 16 (by decide) (by decide)
  have htop : sector.toNat / 2 ^ 24 % 2 ^ 4 < 16 := Nat.mod_lt _ (by decide)
  rw [setSector_eq]
  unfold lba
  simp only []
  rw [toNat_device, (deviceByte type htop).1, hlow, hmid, hhig]
  omega

theorem drive_setSector (type : AtaPioType) (sector : UInt32) :
    (p.setSector type sector).drive = type := by
  have htop : sector.toNat / 2 ^ 24 % 2 ^ 4 < 16 := Nat.mod_lt _ (by decide)
  have hdevice : (p.setSector type sector).device &&& 0x10 = 0 ↔ type = .master := by
    rw [setSector_eq, ← UInt8.toNat_inj, UInt8.toNat_and, toNat_device]
    exact (deviceByte type htop).2
  unfold drive
  cases type with
  | master => exact if_pos (hdevice.2 rfl)
  | slave => exact if_neg fun h => by cases hdevice.1 h

/-! Waiting for the device changes the status bytes only. -/

theorem waitDevice_eq : ∃ status, p.waitDevice.1 = { p with status := status } := by
  unfold waitDevice
  split
  · exact ⟨p.status, rfl⟩
  · split_ifs
    · exact ⟨_, rfl⟩
    · exact ⟨_, rfl⟩

/-- A flush moves no word. -/
theorem ataPioFlush_eq (type : AtaPioType) : ∃ status device,
    (p.ataPioFlush type).1 = { p with status := status, device := device } := by
  unfold ataPioFlush
  obtain ⟨status, h⟩ := waitDevice_eq ((p.outb (if type = .master then 0xE0 else 0xF0)
    ataPioDevicePortOffset).outb ataPioFlushSectorCommand ataPioCommandPortOffset)
  refine ⟨status, (if type = .master then 0xE0 else 0xF0), h.trans ?_⟩
  rfl

/-- A write sends the words of the sector, and they are the sector then. -/
theorem ataPioWriteSector_eq (hp : p.fromHost = []) (type : AtaPioType) {sector : UInt32}
    (hs : sector ≤ 0x0FFFFFFF) (buffer : ℕ → UInt8) {size : ℕ} (h : size ≤ 512) :
    ∃ status device, (p.ataPioWriteSector type sector buffer size).1 = { p.setSector type sector with
      sectors := Function.update p.sectors type
        (Function.update (p.sectors type) sector.toNat (sectorWords buffer size))
      writes := p.writes + 256
      status := status
      device := device } := by
  obtain ⟨status, device, hflush⟩ := ataPioFlush_eq
    ((sectorWords buffer size).foldl outw (p.setSector type sector)) type
  have hloops : (evens (size + size % 2) 512).foldl (fun p _ => p.outw 0x0000)
      ((evens 0 size).foldl (fun p i => p.outw (packWord buffer size i)) (p.setSector type sector))
      = (sectorWords buffer size).foldl outw (p.setSector type sector) := by
    rw [sectorWords_eq buffer h, List.foldl_append, List.foldl_map, List.foldl_map]
  have hwrite : (p.ataPioWriteSector type sector buffer size)
      = ((sectorWords buffer size).foldl outw (p.setSector type sector)).ataPioFlush type := by
    rw [← hloops]
    unfold ataPioWriteSector
    rw [if_neg (UInt32.not_lt.2 hs), if_neg (not_lt.2 h)]
    rfl
  have hwords : sectorWords buffer size
      = (List.range 255).map (sectorWord buffer size) ++ [sectorWord buffer size 255] := by
    unfold sectorWords
    rw [List.range_succ, List.map_append]
    rfl
  have hsent := foldl_outw ((List.range 255).map (sectorWord buffer size)) (sectorWord buffer size 255)
    (p.setSector type sector) (by
      rw [setSector_eq]
      simp only [hp, List.length_map, List.length_range, List.length_nil])
  rw [← hwords, lba_setSector p type hs, drive_setSector, List.length_map, List.length_range] at hsent
  refine ⟨status, device, ?_⟩
  rw [hwrite, hflush, hsent]
  simp only [setSector_eq, hp, List.nil_append]

end Write

/-! ## A read -/

section Read

variable (data : ℕ → UInt8) (n : ℕ) (p : AtaPort)

/-- `p` with `k` words of the sector taken. -/
def taken (k : ℕ) : AtaPort :=
  { p with toHost := (sectorWords data n).drop k, reads := p.reads + k }

theorem inw_taken {k : ℕ} (hk : k < 256) :
    (p.taken data n k).inw = (sectorWord data n k, p.taken data n (k + 1)) := by
  unfold taken inw
  simp only []
  rw [List.headD_eq_head?_getD, List.head?_drop, List.tail_drop]
  unfold sectorWords
  rw [List.getElem?_map, List.getElem?_range hk]
  rfl

theorem foldl_inw {k : ℕ} : ∀ l : List ℕ, k + l.length ≤ 256 →
    l.foldl (fun p _ => p.inw.2) (p.taken data n k) = p.taken data n (k + l.length)
  | [], _ => rfl
  | _ :: l, h => by
    rw [List.length_cons] at h
    rw [List.foldl_cons, inw_taken data n p (by omega), List.length_cons]
    have hrest := foldl_inw (k := k + 1) l (by omega)
    rw [Nat.add_right_comm, Nat.add_assoc] at hrest
    exact hrest

/-- The buffer has the first bytes of the sector, and only its own places were stored to. -/
structure Filled (buffer : ℕ → UInt8) (size len : ℕ) (b : AtaBuffer) : Prop where
  bytes : ∀ i, b.bytes i = if i < len then padded data n i else buffer i
  stores : ∀ i ∈ b.stores, i < size

theorem Filled.store {buffer : ℕ → UInt8} {size len : ℕ} {b : AtaBuffer}
    (h : Filled data n buffer size len b) (hlen : len < size) {v : UInt8}
    (hv : v = padded data n len) : Filled data n buffer size (len + 1) (b.store len v) := by
  refine ⟨fun i => ?_, fun i hi => ?_⟩
  · unfold AtaBuffer.store
    simp only []
    by_cases hi : i = len
    · rw [hi, Function.update_self, hv, if_pos (Nat.lt_succ_self len)]
    · rw [Function.update_of_ne hi, h.bytes]
      split_ifs
      · rfl
      · omega
      · omega
      · rfl
  · rcases List.mem_append.1 hi with hi | hi
    · exact h.stores i hi
    · exact List.mem_singleton.1 hi ▸ hlen

/-- A round takes a word, and stores one byte or two. -/
theorem readWord_filled {buffer : ℕ → UInt8} {size k : ℕ} {b : AtaBuffer} (hk : k < 256)
    (hsize : 2 * k < size) (h : Filled data n buffer size (2 * k) b) :
    (readWord size (p.taken data n k, b) (2 * k)).1 = p.taken data n (k + 1)
      ∧ Filled data n buffer size (min (2 * (k + 1)) size)
        (readWord size (p.taken data n k, b) (2 * k)).2 := by
  have hlow := h.store data n hsize (low_sectorWord data n k)
  unfold readWord
  simp only [inw_taken data n p hk]
  refine ⟨trivial, ?_⟩
  by_cases hodd : 2 * k + 1 < size
  · rw [if_pos hodd, Nat.min_eq_left (by omega)]
    exact hlow.store data n hodd (high_sectorWord data n k)
  · have hmin : min (2 * (k + 1)) size = 2 * k + 1 := by omega
    rw [if_neg hodd, hmin]
    exact hlow

theorem foldl_readWord (buffer : ℕ → UInt8) {size : ℕ} (h : size ≤ 512) : ∀ r ≤ (size + 1) / 2,
    ((List.range r).foldl (fun s k => readWord size s (2 * k)) (p.taken data n 0, ⟨buffer, []⟩)).1
        = p.taken data n r
      ∧ Filled data n buffer size (min (2 * r) size)
        ((List.range r).foldl (fun s k => readWord size s (2 * k))
          (p.taken data n 0, ⟨buffer, []⟩)).2
  | 0, _ => by
    refine ⟨rfl, fun i => ?_, fun i hi => absurd hi List.not_mem_nil⟩
    exact (if_neg (by omega)).symm
  | r + 1, hr => by
    obtain ⟨hp, hb⟩ := foldl_readWord buffer h r (by omega)
    rw [Nat.min_eq_left (by omega)] at hb
    rw [List.range_succ, List.foldl_append, List.foldl_cons, List.foldl_nil]
    generalize (List.range r).foldl _ _ = s at hp hb ⊢
    obtain ⟨q, b⟩ := s
    obtain rfl : q = p.taken data n r := hp
    exact readWord_filled data n p (by omega) (by omega) hb

/-- Both loops of a read. -/
theorem readLoops (buffer : ℕ → UInt8) {size : ℕ} (h : size ≤ 512) :
    (evens (size + size % 2) 512).foldl (fun p _ => p.inw.2)
        ((evens 0 size).foldl (readWord size) (p.taken data n 0, ⟨buffer, []⟩)).1
      = p.taken data n 256
      ∧ Filled data n buffer size size
        ((evens 0 size).foldl (readWord size) (p.taken data n 0, ⟨buffer, []⟩)).2 := by
  have hrounds := evens_rounds h
  have hevens : (evens 0 size).foldl (readWord size) (p.taken data n 0, ⟨buffer, []⟩)
      = (List.range ((size + 1) / 2)).foldl (fun s k => readWord size s (2 * k))
        (p.taken data n 0, ⟨buffer, []⟩) := by
    unfold evens
    rw [List.foldl_map]
    simp only [Nat.zero_add, Nat.sub_zero]
  obtain ⟨hwords, hbytes⟩ := foldl_readWord data n p buffer h ((size + 1) / 2) le_rfl
  rw [Nat.min_eq_right (by omega)] at hbytes
  rw [evens_length 0, Nat.sub_zero] at hrounds
  rw [hevens, hwords]
  refine ⟨?_, hbytes⟩
  rw [foldl_inw data n p _ hrounds.le, hrounds]

theorem sectorWords_drop : (sectorWords data n).drop 256 = [] := by
  refine List.drop_eq_nil_of_le (le_of_eq ?_)
  unfold sectorWords
  rw [List.length_map, List.length_range]

/-- The command to read puts the words of the sector in the FIFO. -/
theorem readCommand_taken (hp : p.toHost = []) (type : AtaPioType) {sector : UInt32}
    (hs : sector ≤ 0x0FFFFFFF) (hsector : p.sectors type sector.toNat = sectorWords data n) :
    (p.setSector type sector).outb ataPioReadSectorCommand ataPioCommandPortOffset
      = (p.setSector type sector).taken data n 0 := by
  have hwords : (p.setSector type sector).toHost ++ (p.setSector type sector).sectors
      (p.setSector type sector).drive (p.setSector type sector).lba = sectorWords data n := by
    rw [lba_setSector p type hs, drive_setSector, setSector_eq]
    simp only [hp, List.nil_append]
    exact hsector
  unfold outb taken
  simp only [if_true]
  rw [hwords]
  rfl

/-- A read of a sector that was written, when the device gives no error. -/
theorem ataPioReadSector_filled (hp : p.toHost = []) (type : AtaPioType) {sector : UInt32}
    (hs : sector ≤ 0x0FFFFFFF) (hsector : p.sectors type sector.toNat = sectorWords data n)
    (buffer : ℕ → UInt8) {size : ℕ} (h : size ≤ 512)
    (herr : (p.ataPioReadSector type sector buffer size).2.2 = some .noErr) :
    ∃ status, (p.ataPioReadSector type sector buffer size).1
        = { p.setSector type sector with
            toHost := []
            reads := p.reads + 256
            status := status }
      ∧ Filled data n buffer size size (p.ataPioReadSector type sector buffer size).2.1 := by
  obtain ⟨status, hq⟩ := waitDevice_eq ((p.setSector type sector).taken data n 0)
  have hstart : ((p.setSector type sector).taken data n 0).waitDevice.1
      = { p.setSector type sector with status := status }.taken data n 0 := hq
  unfold ataPioReadSector at herr ⊢
  rw [if_neg (UInt32.not_lt.2 hs), if_neg (not_lt.2 h)] at herr ⊢
  simp only [readCommand_taken data n p hp type hs hsector] at herr ⊢
  generalize ((p.setSector type sector).taken data n 0).waitDevice = wait at herr hstart ⊢
  obtain ⟨q, err⟩ := wait
  obtain rfl : q = _ := hstart
  by_cases hnoErr : err = some .noErr
  · simp only [if_pos hnoErr]
    obtain ⟨hwords, hbytes⟩ := readLoops data n { p.setSector type sector with status := status }
      buffer h
    refine ⟨status, hwords.trans ?_, hbytes⟩
    unfold taken
    simp only [sectorWords_drop]
    rfl
  · simp only [if_neg hnoErr] at herr
    exact absurd herr hnoErr

end Read

/-- What is written to a sector is read back, with zeros after it. -/
theorem sector_roundTrip {p : AtaPort} (hp : p.Drained) (type : AtaPioType) {sector : UInt32}
    (hs : sector ≤ 0x0FFFFFFF) (data buffer : ℕ → UInt8) {n m : ℕ} (hn : n ≤ 512) (hm : m ≤ 512) :
    let w := (p.ataPioWriteSector type sector data n).1
    let r := w.ataPioReadSector type sector buffer m
    (w.writes = p.writes + 256 ∧ w.reads = p.reads ∧ w.Drained)
      ∧ (r.2.2 = some .noErr →
        (r.1.reads = w.reads + 256 ∧ r.1.writes = w.writes ∧ r.1.Drained)
          ∧ (∀ i < m, r.2.1.bytes i = padded data n i) ∧ (∀ i ≥ m, r.2.1.bytes i = buffer i)
          ∧ ∀ i ∈ r.2.1.stores, i < m) := by
  intro w r
  obtain ⟨status, device, hw⟩ := ataPioWriteSector_eq p hp.2 type hs data hn
  have hdrained : w.toHost = [] ∧ w.fromHost = [] := by
    rw [show w = _ from hw]
    exact hp
  have hsector : w.sectors type sector.toNat = sectorWords data n := by
    rw [show w = _ from hw]
    simp only [Function.update_self]
  refine ⟨⟨?_, ?_, hdrained⟩, fun herr => ?_⟩
  · rw [show w = _ from hw]
  · rw [show w = _ from hw]
    rfl
  · obtain ⟨status', hr, hfilled⟩ :=
      ataPioReadSector_filled data n w hdrained.1 type hs hsector buffer hm herr
    refine ⟨⟨?_, ?_, ?_, ?_⟩, fun i hi => ?_, fun i hi => ?_, hfilled.stores⟩
    · rw [hr]
    · rw [hr]
      rfl
    · rw [hr]
    · rw [hr]
      exact hdrained.2
    · exact (hfilled.bytes i).trans (if_pos hi)
    · exact (hfilled.bytes i).trans (if_neg (not_lt.2 hi))

/-- Three bytes, then five are read. -/
theorem sector_roundTrip_three :
    let p : AtaPort := ⟨0, 0, 0, 0, fun _ _ => [], [], [], [0x50, 0x50], 0, 0⟩
    let w := (p.ataPioWriteSector .slave 7 (fun i => UInt8.ofNat (i + 1)) 3).1
    let r := w.ataPioReadSector .slave 7 (fun _ => 0xEE) 5
    w.writes = 256 ∧ r.1.reads = 256 ∧ r.2.1.bytes 2 = 3 ∧ r.2.1.bytes 3 = 0 ∧ r.2.1.bytes 5 = 0xEE := by
  have h := sector_roundTrip (p := ⟨0, 0, 0, 0, fun _ _ => [], [], [], [0x50, 0x50], 0, 0⟩) ⟨rfl, rfl⟩
    .slave (show (7 : UInt32) ≤ 0x0FFFFFFF by decide) (fun i => UInt8.ofNat (i + 1)) (fun _ => 0xEE)
    (n := 3) (m := 5) (by omega) (by omega)
  obtain ⟨⟨hwrites, hreads, -⟩, hread⟩ := h
  obtain ⟨⟨hreads', -, -⟩, hbytes, hrest, -⟩ := hread (by decide +kernel)
  refine ⟨hwrites, hreads'.trans (by rw [hreads]), ?_, ?_, ?_⟩
  · exact hbytes 2 (by omega)
  · exact hbytes 3 (by omega)
  · exact hrest 5 le_rfl

end AtaPort

end RTLKIM
