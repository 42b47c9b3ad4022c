import RTLKIM.Memmove
import RTLKIM.Proofs.FastCopy

/-!
# A copy with overlap takes the bytes as they were

The bytes that have been copied are always a part of the destination with one end fixed, and the next byte
is read outside it: above it when the copy goes up, and the destination is below the source, and below it
when the copy goes down.
-/

namespace RTLKIM

namespace FastCopy

variable {mem : ℕ → UInt8} {dst src n : ℕ} {s : FastCopy}

/-- The bytes from `lo` to `hi` have been copied. -/
structure Moved (mem : ℕ → UInt8) (dst src n lo hi : ℕ) (s : FastCopy) : Prop where
  mem : s.mem = copied mem (dst + lo) (src + lo) (hi - lo)
  reads : ∀ a ∈ s.reads, src ≤ a ∧ a < src + n
  writes : ∀ a ∈ s.writes, dst ≤ a ∧ a < dst + n

/-- Byte `k` is next to those that have been copied, and its source is not among them. -/
theorem update_copied {lo hi lo' hi' k : ℕ} (hle : lo' ≤ k) (hlt : k < hi')
    (hnext : ∀ i, lo ≤ i ∧ i < hi ↔ (lo' ≤ i ∧ i < hi') ∧ i ≠ k)
    (hsrc : ¬(dst + lo ≤ src + k ∧ src + k < dst + hi)) :
    Function.update (copied mem (dst + lo) (src + lo) (hi - lo)) (dst + k)
      (copied mem (dst + lo) (src + lo) (hi - lo) (src + k)) = copied mem (dst + lo') (src + lo') (hi' - lo') := by
  funext a
  unfold copied
  by_cases ha : a = dst + k
  · rw [ha, Function.update_self, if_neg (by omega), if_pos (by omega)]
    congr 1
    omega
  · rw [Function.update_of_ne ha]
    by_cases hin : dst + lo ≤ a ∧ a < dst + lo + (hi - lo)
    · obtain ⟨⟨h1, h2⟩, -⟩ := (hnext (a - dst)).1 ⟨by omega, by omega⟩
      rw [if_pos hin, if_pos (by omega)]
      congr 1
      omega
    · rw [if_neg hin, if_neg fun hin' => ?_]
      obtain ⟨h1, h2⟩ := (hnext (a - dst)).2 ⟨⟨by omega, by omega⟩, by omega⟩
      exact hin ⟨by omega, by omega⟩

theorem Moved.movsb {lo hi lo' hi' k : ℕ} (df : Bool) (h : Moved mem dst src n lo hi s) (hsrc : s.src = src + k)
    (hdst : s.dst = dst + k) (hk : k < n) (hle : lo' ≤ k) (hlt : k < hi')
    (hnext : ∀ i, lo ≤ i ∧ i < hi ↔ (lo' ≤ i ∧ i < hi') ∧ i ≠ k)
    (hout : ¬(dst + lo ≤ src + k ∧ src + k < dst + hi)) : Moved mem dst src n lo' hi' (s.movsb df) := by
  refine ⟨?_, fun a ha => ?_, fun a ha => ?_⟩
  · rw [← update_copied hle hlt hnext hout, ← h.mem, ← hsrc, ← hdst]
    rfl
  · rcases List.mem_append.1 ha with ha | ha
    · exact h.reads a ha
    · rw [List.mem_singleton.1 ha, hsrc]
      omega
  · rcases List.mem_append.1 ha with ha | ha
    · exact h.writes a ha
    · rw [List.mem_singleton.1 ha, hdst]
      omega

theorem movsb_src (df : Bool) (s : FastCopy) : (s.movsb df).src = if df then sub32 s.src 1 else add32 s.src 1 := rfl

theorem movsb_dst (df : Bool) (s : FastCopy) : (s.movsb df).dst = if df then sub32 s.dst 1 else add32 s.dst 1 := rfl

/-- Up, from the first byte. -/
theorem moved_up (mem : ℕ → UInt8) (hlt : dst < src) (hd : dst + n ≤ 2 ^ 32) (hs : src + n ≤ 2 ^ 32)
    (hs0 : src < 2 ^ 32) : ∀ k ≤ n, Moved mem dst src n 0 k ((movsb false)^[k] ⟨mem, [], [], src, dst⟩)
      ∧ ((movsb false)^[k] ⟨mem, [], [], src, dst⟩).src = add32 src k
      ∧ ((movsb false)^[k] ⟨mem, [], [], src, dst⟩).dst = add32 dst k
  | 0, _ => ⟨⟨(copied_zero mem dst src).symm, nofun, nofun⟩, (add32_zero hs0).symm,
    (add32_zero (hlt.trans hs0)).symm⟩
  | k + 1, hk => by
    obtain ⟨hmoved, hsrc, hdst⟩ := moved_up mem hlt hd hs hs0 k (by omega)
    rw [Function.iterate_succ_apply']
    refine ⟨hmoved.movsb false (hsrc.trans (add32_of_lt (by omega))) (hdst.trans (add32_of_lt (by omega)))
      (by omega) (by omega) (by omega) (fun i => by omega) (by omega), ?_, ?_⟩
    · rw [movsb_src, if_neg Bool.false_ne_true, hsrc, add32_add32]
    · rw [movsb_dst, if_neg Bool.false_ne_true, hdst, add32_add32]

/-- Down, from the last. -/
theorem moved_down (mem : ℕ → UInt8) (hle : src ≤ dst) (hd : dst + n ≤ 2 ^ 32) (hs : src + n ≤ 2 ^ 32) :
    ∀ k ≤ n, ∀ s, s = (movsb true)^[k] ⟨mem, [], [], add32 src (sub32 n 1), add32 dst (sub32 n 1)⟩ →
      Moved mem dst src n (n - k) n s ∧ s.src = sub32 (src + (n - k)) 1 ∧ s.dst = sub32 (dst + (n - k)) 1
  | 0, _, s, hrun => by
    rw [Function.iterate_zero_apply] at hrun
    rw [hrun]
    refine ⟨⟨?_, nofun, nofun⟩, ?_, ?_⟩
    · rw [Nat.sub_zero, Nat.sub_self, copied_zero]
    · dsimp only
      unfold add32 sub32
      omega
    · dsimp only
      unfold add32 sub32
      omega
  | k + 1, hk, s, hrun => by
    obtain ⟨hmoved, hsrc, hdst⟩ := moved_down mem hle hd hs k (by omega) _ rfl
    rw [Function.iterate_succ_apply'] at hrun
    rw [hrun]
    refine ⟨hmoved.movsb (k := n - (k + 1)) true ?_ ?_ (by omega) (by omega) (by omega) (fun i => by omega) (by omega),
      ?_, ?_⟩
    · rw [hsrc]
      unfold sub32
      omega
    · rw [hdst]
      unfold sub32
      omega
    · rw [movsb_src, if_pos rfl, hsrc]
      unfold sub32
      omega
    · rw [movsb_dst, if_pos rfl, hdst]
      unfold sub32
      omega

/-- `memmove` copies the bytes as they were at the start, however the regions lie; where they are apart, it
does what `memcpy` does. -/
theorem memmove_moves (mem : ℕ → UInt8) (hd0 : dst < 2 ^ 32) (hs0 : src < 2 ^ 32) (hd : dst + n ≤ 2 ^ 32)
    (hs : src + n ≤ 2 ^ 32) : Moves mem dst src n (memmove mem dst src n)
      ∧ (src + n ≤ dst ∨ dst + n ≤ src → (memmove mem dst src n).mem = (memcpy mem dst src n).mem) := by
  have hmoves : Moves mem dst src n (memmove mem dst src n) := by
    unfold memmove
    split_ifs with hlt
    · obtain ⟨hmem, hreads, hwrites⟩ := (moved_up mem hlt hd hs hs0 n le_rfl).1
      exact ⟨hmem, hreads, hwrites⟩
    · obtain ⟨hmem, hreads, hwrites⟩ := (moved_down mem (not_lt.1 hlt) hd hs n le_rfl _ rfl).1
      rw [Nat.sub_self] at hmem
      exact ⟨hmem, hreads, hwrites⟩
  refine ⟨hmoves, fun hapart => ?_⟩
  by_cases hn : n < 2 ^ 32
  · exact hmoves.mem.trans (fastMemcpy_plain mem ⟨hn, hd0, hs0, hd, hs, hapart⟩).symm
  · omega

/-- Five bytes one up, and five bytes one down. -/
theorem memmove_moves_overlap :
    Moves (fun a => UInt8.ofNat a) 101 100 5 (memmove (fun a => UInt8.ofNat a) 101 100 5)
      ∧ Moves (fun a => UInt8.ofNat a) 100 101 5 (memmove (fun a => UInt8.ofNat a) 100 101 5) :=
  ⟨(memmove_moves _ (by decide) (by decide) (by decide) (by decide)).1,
    (memmove_moves _ (by decide) (by decide) (by decide) (by decide)).1⟩

end FastCopy

end RTLKIM
