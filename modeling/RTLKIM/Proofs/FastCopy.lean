import Mathlib.Tactic.SplitIfs
import RTLKIM.FastCopy

/-!
# When the fast copy is the plain copy

Rounds of one size touch the addresses from the pointers on, whatever is there, and copy bytes when
the regions are apart. The copy of the rest takes the whole size again, from where the blocks ended.
-/

namespace RTLKIM

namespace FastCopy

theorem addresses_append (a m n : ℕ) :
    addresses a m ++ addresses (add32 a m) n = addresses a (m + n) := by
  unfold addresses
  rw [List.range_add, List.map_append, List.map_map]
  congr 2
  funext i
  exact add32_add32 a m i

theorem mem_addresses {a n x : ℕ} (h : a + n ≤ 2 ^ 32) : x ∈ addresses a n ↔ a ≤ x ∧ x < a + n := by
  unfold addresses
  rw [List.mem_map]
  constructor
  · rintro ⟨i, hi, rfl⟩
    have hi := List.mem_range.1 hi
    rw [add32_of_lt (by omega)]
    omega
  · rintro ⟨hle, hlt⟩
    refine ⟨x - a, List.mem_range.2 (by omega), ?_⟩
    rw [add32_of_lt (by omega)]
    omega

/-- `n` bytes from `src` on have been read, and as many from `dst` on written. -/
structure Log (dst src n : ℕ) (s : FastCopy) : Prop where
  src_eq : s.src = add32 src n
  dst_eq : s.dst = add32 dst n
  reads : s.reads = addresses src n
  writes : s.writes = addresses dst n

section Log

variable {dst src n : ℕ} {s : FastCopy}

theorem Log.start (mem : ℕ → UInt8) (hd : dst < 2 ^ 32) (hs : src < 2 ^ 32) :
    Log dst src 0 ⟨mem, [], [], src, dst⟩ :=
  ⟨(add32_zero hs).symm, (add32_zero hd).symm, rfl, rfl⟩

theorem Log.moveBytes (h : Log dst src n s) (k : ℕ) : Log dst src (n + k) (s.moveBytes k) where
  src_eq := (congrArg (add32 · k) h.src_eq).trans (add32_add32 src n k)
  dst_eq := (congrArg (add32 · k) h.dst_eq).trans (add32_add32 dst n k)
  reads := by
    rw [← addresses_append, ← h.src_eq, ← h.reads]
    rfl
  writes := by
    rw [← addresses_append, ← h.dst_eq, ← h.writes]
    rfl

theorem Log.iterate (h : Log dst src n s) (k : ℕ) : ∀ m : ℕ,
    Log dst src (n + m * k) ((FastCopy.moveBytes k)^[m] s)
  | 0 => by
    rw [Nat.zero_mul]
    exact h
  | m + 1 => by
    rw [Function.iterate_succ_apply', Nat.succ_mul, ← Nat.add_assoc]
    exact (h.iterate k m).moveBytes k

theorem Log.repMovs (h : Log dst src n s) (size : ℕ) : Log dst src (n + size) (s.repMovs size) := by
  have hsize : n + size = n + size / 4 * 4 + size % 4 * 1 := by omega
  rw [hsize]
  exact (h.iterate 4 _).iterate 1 _

end Log

/-- The bytes touched by the copy with SSE. -/
theorem log_fastMemcpy (mem : ℕ → UInt8) {dst src : ℕ} (hd : dst < 2 ^ 32) (hs : src < 2 ^ 32)
    (size : ℕ) : Log dst src (size / 16 * 16 + if size % 7 ≠ 0 then size else 0)
      (fastMemcpy true mem dst src size) := by
  have hblocks := (Log.start mem hd hs).iterate 16 (size / 16)
  rw [Nat.zero_add] at hblocks
  unfold fastMemcpy
  simp only [if_true]
  split_ifs with h
  · exact hblocks.repMovs size
  · exact hblocks

section Bytes

variable {mem : ℕ → UInt8} {dst src N : ℕ} (ha : Apart dst src N)

theorem copied_zero (mem : ℕ → UInt8) (dst src : ℕ) : copied mem dst src 0 = mem := by
  funext a
  exact if_neg (by omega)

include ha

/-- Bytes are read from the source, where nothing is stored. -/
theorem storeBytes_copied {n k : ℕ} (hn : n + k ≤ N) :
    storeBytes (copied mem dst src n) (add32 src n) (add32 dst n) k = copied mem dst src (n + k) := by
  obtain ⟨-, -, hd, hs, hapart⟩ := ha
  by_cases hk : k = 0
  · subst hk
    funext a
    exact if_neg fun h => Nat.not_lt_zero _ h.2
  · rw [add32_of_lt (by omega), add32_of_lt (by omega)]
    funext a
    unfold storeBytes
    by_cases h : dst + n ≤ a ∧ a < dst + n + k
    · rw [sub32_of_le h.1 (by omega), if_pos ⟨by omega, by omega⟩, add32_of_lt (by omega)]
      unfold copied
      rw [if_neg (by omega), if_pos (by omega)]
      congr 1
      omega
    · rw [if_neg (not_and.2 fun hlt => ?_)]
      · unfold copied
        by_cases hin : dst ≤ a ∧ a < dst + n
        · rw [if_pos hin, if_pos (by omega)]
        · rw [if_neg hin, if_neg (by omega)]
      · by_cases hle : dst + n ≤ a
        · rw [sub32_of_le hle hlt]
          omega
        · exact not_lt.2 (le_sub32 (by omega) (by omega))

theorem copied_moveBytes {n k : ℕ} {s : FastCopy} (hn : n + k ≤ N) (hl : Log dst src n s)
    (hm : s.mem = copied mem dst src n) : (s.moveBytes k).mem = copied mem dst src (n + k) := by
  unfold moveBytes
  simp only []
  rw [hm, hl.src_eq, hl.dst_eq]
  exact storeBytes_copied ha hn

theorem copied_iterate {n : ℕ} (k : ℕ) {s : FastCopy} (hl : Log dst src n s)
    (hm : s.mem = copied mem dst src n) : ∀ m : ℕ, n + m * k ≤ N →
    ((moveBytes k)^[m] s).mem = copied mem dst src (n + m * k)
  | 0, _ => by
    rw [Nat.zero_mul]
    exact hm
  | m + 1, hn => by
    rw [Nat.succ_mul, ← Nat.add_assoc] at hn ⊢
    rw [Function.iterate_succ_apply']
    exact copied_moveBytes ha hn (hl.iterate k m) (copied_iterate k hl hm m (by omega))

theorem copied_repMovs (size : ℕ) {n : ℕ} {s : FastCopy} (hn : n + size ≤ N) (hl : Log dst src n s)
    (hm : s.mem = copied mem dst src n) : (s.repMovs size).mem = copied mem dst src (n + size) := by
  have hsize : n + size = n + size / 4 * 4 + size % 4 * 1 := by omega
  have hwords := copied_iterate ha 4 hl hm (size / 4) (by omega)
  rw [hsize]
  exact copied_iterate ha 1 (hl.iterate 4 _) hwords _ (by omega)

end Bytes

/-- The plain copy. -/
theorem fastMemcpy_plain (mem : ℕ → UInt8) {dst src size : ℕ} (ha : Apart dst src size) :
    (fastMemcpy false mem dst src size).mem = copied mem dst src size := by
  have h := copied_repMovs ha size (by omega) (Log.start mem ha.dst_lt ha.src_lt)
    (copied_zero mem dst src).symm
  rwa [Nat.zero_add] at h

/-- The blocks of the copy with SSE. -/
theorem fastMemcpy_blocks (mem : ℕ → UInt8) {dst src size : ℕ} (ha : Apart dst src size) :
    ((moveBytes 16)^[size / 16] ⟨mem, [], [], src, dst⟩).mem
      = copied mem dst src (size / 16 * 16) := by
  have h := copied_iterate ha 16 (Log.start mem ha.dst_lt ha.src_lt) (copied_zero mem dst src).symm
    (size / 16) (by omega)
  rwa [Nat.zero_add] at h

theorem copied_blocks_iff (mem : ℕ → UInt8) (dst src size : ℕ) :
    copied mem dst src (size / 16 * 16) = copied mem dst src size ↔ TailEqual mem dst src size := by
  unfold copied
  constructor
  · intro h i hi hblocks
    have hat := congrFun h (dst + i)
    rwa [if_neg (by omega), if_pos (by omega), Nat.add_sub_cancel_left] at hat
  · intro h
    funext a
    by_cases hblock : dst ≤ a ∧ a < dst + size / 16 * 16
    · rw [if_pos hblock, if_pos (by omega)]
    · rw [if_neg hblock]
      split_ifs with hsize
      · have htail := h (a - dst) (by omega) (by omega)
        rwa [Nat.add_sub_cancel' hsize.1] at htail
      · rfl

/-- Past the blocks, the copy of the rest goes on to the end of the region and further. -/
theorem writes_past (mem : ℕ → UInt8) {dst src size : ℕ} (ha : Apart dst src size)
    (h7 : size % 7 ≠ 0) (h16 : 16 ≤ size) :
    add32 dst size ∈ (fastMemcpy true mem dst src size).writes := by
  rw [(log_fastMemcpy mem ha.dst_lt ha.src_lt size).writes, if_pos h7]
  exact List.mem_map.2 ⟨size, List.mem_range.2 (by omega), rfl⟩

/-- The end of a region is not in it, though it may be address 0. -/
theorem end_notMem {dst src size : ℕ} (ha : Apart dst src size) :
    ¬ (dst ≤ add32 dst size ∧ add32 dst size < dst + size) := by
  rintro ⟨hle, hlt⟩
  obtain ⟨hsize, -, -, hd, -, -⟩ := ha
  rcases hd.lt_or_eq with hlt' | heq
  · rw [add32_of_lt hlt'] at hlt
    omega
  · rw [add32_of_eq heq] at hle
    omega

/-- Where the fast copy touches what the plain one does, it agrees when its bytes do. -/
theorem agrees_of_log {mem : ℕ → UInt8} {dst src size n : ℕ} (ha : Apart dst src size)
    (hn : n ≤ size) (hl : Log dst src n (fastMemcpy true mem dst src size))
    (hm : (fastMemcpy true mem dst src size).mem = copied mem dst src size) :
    Agrees mem dst src size where
  plain := hm.trans (fastMemcpy_plain mem ha).symm
  bytes := hm
  reads a h := by
    have hsrc := ha.src_le
    rw [hl.reads, mem_addresses (by omega)] at h
    omega
  writes a h := by
    have hdst := ha.dst_le
    rw [hl.writes, mem_addresses (by omega)] at h
    omega

theorem agrees_of_lt (mem : ℕ → UInt8) {dst src size : ℕ} (ha : Apart dst src size)
    (h7 : size % 7 ≠ 0) (h16 : size < 16) : Agrees mem dst src size := by
  have hblocks : size / 16 = 0 := Nat.div_eq_of_lt h16
  have hplain : fastMemcpy true mem dst src size = fastMemcpy false mem dst src size := by
    unfold fastMemcpy
    simp only [if_true, Bool.false_eq_true, if_false]
    rw [if_pos h7, hblocks]
    rfl
  have hl := log_fastMemcpy mem ha.dst_lt ha.src_lt size
  rw [if_pos h7, hblocks, Nat.zero_mul, Nat.zero_add] at hl
  exact agrees_of_log ha le_rfl hl (hplain ▸ fastMemcpy_plain mem ha)

/-- Without a rest to copy only the blocks are. -/
theorem agrees_iff_tail (mem : ℕ → UInt8) {dst src size : ℕ} (ha : Apart dst src size)
    (h7 : size % 7 = 0) : Agrees mem dst src size ↔ TailEqual mem dst src size := by
  have hm : (fastMemcpy true mem dst src size).mem = copied mem dst src (size / 16 * 16) := by
    unfold fastMemcpy
    simp only [if_true]
    rw [if_neg (not_not.2 h7)]
    exact fastMemcpy_blocks mem ha
  have hl := log_fastMemcpy mem ha.dst_lt ha.src_lt size
  rw [if_neg (not_not.2 h7), Nat.add_zero] at hl
  rw [← copied_blocks_iff, ← hm]
  exact ⟨fun h => h.bytes, agrees_of_log ha (Nat.div_mul_le_self size 16) hl⟩

/-- The fast copy is the plain one for a size below 16 that 7 does not divide; for one that 7 divides,
when what is after the blocks is already there. -/
theorem fastMemcpy_agrees_iff (mem : ℕ → UInt8) {dst src size : ℕ} (ha : Apart dst src size) :
    Agrees mem dst src size ↔
      size % 7 ≠ 0 ∧ size < 16 ∨ size % 7 = 0 ∧ TailEqual mem dst src size := by
  by_cases h7 : size % 7 = 0
  · rw [agrees_iff_tail mem ha h7]
    exact ⟨fun h => .inr ⟨h7, h⟩, fun h => h.elim (fun hc => absurd h7 hc.1) And.right⟩
  · constructor
    · intro h
      refine .inl ⟨h7, not_le.1 fun h16 => end_notMem ha (h.writes _ (writes_past mem ha h7 h16))⟩
    · rintro (h | h)
      · exact agrees_of_lt mem ha h7 h.2
      · exact absurd h.1 h7

/-- 112 bytes, all in blocks. -/
theorem fastMemcpy_agrees_blocks : Agrees (fun a => if a < 200 then 0 else 1) 0 200 112 := by
  refine (fastMemcpy_agrees_iff _ ⟨by omega, by omega, by omega, by omega, by omega, ?_⟩).2 ?_
  · exact .inr (by omega)
  · exact .inr ⟨by omega, fun i hi hblocks => by omega⟩

/-- Seven bytes, of which none is copied. -/
theorem not_agrees_seven : Apart 0 7 7 ∧ ¬ Agrees (fun a => if a < 7 then 0 else 1) 0 7 7 := by
  refine ⟨⟨by omega, by omega, by omega, by omega, by omega, .inr (by omega)⟩, fun h => ?_⟩
  exact absurd (congrFun h.bytes 0) (by decide +kernel)

end FastCopy

end RTLKIM
