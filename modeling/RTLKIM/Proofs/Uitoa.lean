import Mathlib.Data.List.Induction
import Mathlib.Data.Nat.Digits.Defs
import RTLKIM.KernelOutput
import RTLKIM.Lib.Numeral

/-!
# Numbers to text

`uitoa` fills its scratch buffer with the digits from the last to the first and copies them back in
order. They are those of `Nat.toDigits`, of which the letters are upper case.
-/

namespace RTLKIM

/-! ## Digits -/

theorem hexTable_eq : ∀ d < 16, hexTable[d]? = some (Nat.digitChar d).toUpper := by decide

/-- The characters of a number that `uitoa` writes; it goes through none for 0. -/
def hexDigits (b n : ℕ) : List Char := if n = 0 then [] else (Nat.toDigits b n).map Char.toUpper

theorem hexDigits_concat {b n : ℕ} (hb : 1 < b) (hn : n ≠ 0) :
    hexDigits b n = hexDigits b (n / b) ++ [(Nat.digitChar (n % b)).toUpper] := by
  unfold hexDigits
  rw [if_neg hn]
  by_cases hlt : n < b
  · rw [Nat.div_eq_of_lt hlt, if_pos rfl, Nat.mod_eq_of_lt hlt, Nat.toDigits_of_lt_base hlt]
    rfl
  · have hle : b ≤ n := Nat.le_of_not_lt hlt
    have hdiv : n / b ≠ 0 := (Nat.div_pos hle (Nat.lt_of_succ_lt hb)).ne'
    rw [if_neg hdiv, Nat.toDigits_of_base_le hb hle, List.map_append]
    rfl

theorem length_toDigits {b n : ℕ} (hb : 1 < b) (hn : n < 2 ^ 64) : (Nat.toDigits b n).length ≤ 64 :=
  Nat.toDigits_length b n 64 (by decide) (hn.trans_le (Nat.pow_le_pow_left hb 64))

theorem mem_toDigits {b n : ℕ} (hb : 1 < b) {c : Char} (hc : c ∈ Nat.toDigits b n) :
    ∃ d < b, c = Nat.digitChar d := by
  induction n using Nat.strong_induction_on with
  | _ n ih =>
    by_cases hlt : n < b
    · rw [Nat.toDigits_of_lt_base hlt, List.mem_singleton] at hc
      exact ⟨n, hlt, hc⟩
    · have hle : b ≤ n := Nat.le_of_not_lt hlt
      rw [Nat.toDigits_of_base_le hb hle, List.mem_append, List.mem_singleton] at hc
      rcases hc with hc | hc
      · exact ih (n / b) (Nat.div_lt_self (by omega) hb) hc
      · exact ⟨n % b, Nat.mod_lt _ (by omega), hc⟩

theorem nul_notMem_toUpper {b n : ℕ} (hb : 1 < b) (hmax : b ≤ 16) :
    nul ∉ (Nat.toDigits b n).map Char.toUpper := by
  intro h
  obtain ⟨c, hc, hnul⟩ := List.mem_map.1 h
  obtain ⟨d, hd, rfl⟩ := mem_toDigits hb hc
  have hall : ∀ d < 16, (Nat.digitChar d).toUpper ≠ nul := by decide
  exact hall d (hd.trans_le hmax) hnul

/-! ## The loops of `uitoa` -/

theorem fillTmp_digits (base : UInt64) (hb : 1 < base.toNat) (hmax : base.toNat ≤ 16) :
    ∀ (rounds : ℕ) (i : UInt64) (l post : List Char), (hexDigits base.toNat i.toNat).length < rounds →
      (hexDigits base.toNat i.toNat).length ≤ post.length → l.length + post.length < 2 ^ 32 →
      fillTmp base rounds i (l ++ post) l.length
        = some (l ++ (hexDigits base.toNat i.toNat).reverse
            ++ post.drop (hexDigits base.toNat i.toNat).length,
          l.length + (hexDigits base.toNat i.toNat).length)
  | 0, _, _, _, hrounds, _, _ => absurd hrounds (Nat.not_lt_zero _)
  | rounds + 1, i, l, post, hrounds, hpost, hlen => by
    rw [fillTmp]
    by_cases h0 : i = 0
    · subst h0
      simp [hexDigits]
    have hn : i.toNat ≠ 0 := fun h => h0 (UInt64.toNat_inj.1 h)
    have hbase : base ≠ 0 := by
      rintro rfl
      exact absurd hb (by decide)
    have hdigits := hexDigits_concat hb hn
    rw [hdigits, List.length_append, List.length_singleton] at hrounds hpost
    rw [if_neg h0, if_neg hbase, UInt64.toNat_mod,
      hexTable_eq _ ((Nat.mod_lt _ (Nat.lt_of_succ_lt hb)).trans_le hmax), Option.bind_some]
    rcases post with _ | ⟨x, post⟩
    · exact absurd hpost (Nat.not_succ_le_zero _)
    rw [List.length_cons] at hpost hlen
    have hnext := fillTmp_digits base hb hmax rounds (i / base)
      (l ++ [(Nat.digitChar (i.toNat % base.toNat)).toUpper]) post
    rw [UInt64.toNat_div, List.length_append, List.length_singleton, List.append_assoc,
      List.singleton_append] at hnext
    rw [store_next, Option.bind_some, add32_of_lt (by omega),
      hnext (by omega) (by omega) (by omega), hdigits]
    simp [Nat.add_assoc, Nat.add_comm 1]

theorem fillBuf_reverse (l : List Char) : ∀ (rest copied post : List Char), l.length ≤ post.length →
    copied.length + l.length < 2 ^ 32 →
    fillBuf (l ++ rest) l.length (sub32 l.length 1) copied.length (copied ++ post)
      = some (copied ++ l.reverse ++ post.drop l.length, copied.length + l.length) := by
  induction l using List.reverseRecOn with
  | nil =>
    intro rest copied post _ _
    simp [fillBuf]
  | append_singleton l c ih =>
    intro rest copied post hpost hlen
    rw [List.length_append, List.length_singleton] at hpost hlen ⊢
    rcases post with _ | ⟨x, post⟩
    · exact absurd hpost (Nat.not_succ_le_zero _)
    rw [List.length_cons] at hpost
    have hpos : sub32 (l.length + 1) 1 = l.length := sub32_of_le (by omega) (by omega)
    have hread : (l ++ [c] ++ rest)[l.length]? = some c := by simp
    have hnext := ih ([c] ++ rest) (copied ++ [c]) post (by omega)
      (by rw [List.length_append, List.length_singleton]; omega)
    rw [List.length_append, List.length_singleton, ← List.append_assoc, List.append_assoc copied,
      List.singleton_append] at hnext
    rw [fillBuf, hpos, hread, Option.bind_some, store_next, Option.bind_some,
      add32_of_lt (by omega), hnext]
    simp [Nat.add_assoc, Nat.add_comm 1]

/-! ## `uitoa` -/

/-- The digits of a number, then a NUL; what is after them is left as it was. -/
theorem uitoa_eq {base : UInt32} (hb : 1 < base.toNat) (hmax : base.toNat ≤ 16) (i : UInt64)
    {buf : List Char} (hbuf : (Nat.toDigits base.toNat i.toNat).length < buf.length) :
    uitoa i buf base = some ((Nat.toDigits base.toNat i.toNat).map Char.toUpper
      ++ nul :: buf.drop ((Nat.toDigits base.toNat i.toNat).length + 1)) := by
  unfold uitoa
  by_cases h0 : i = 0
  · subst h0
    rw [UInt64.toNat_zero, Nat.toDigits_zero, List.length_singleton] at hbuf
    rw [if_pos (.inl rfl), UInt64.toNat_zero, Nat.toDigits_zero]
    obtain ⟨x, y, rest, rfl⟩ : ∃ x y rest, buf = x :: y :: rest := by
      rcases buf with _ | ⟨x, _ | ⟨y, rest⟩⟩
      · exact absurd hbuf (Nat.not_lt_zero _)
      · exact absurd hbuf (Nat.lt_irrefl 1)
      · exact ⟨x, y, rest, rfl⟩
    have hzero : store (x :: y :: rest) 0 '0' = some ('0' :: y :: rest) := store_next [] x '0' _
    rw [hzero, Option.bind_some]
    exact store_next ['0'] y nul rest
  · have hbase : ¬ 16 < base := fun h => absurd (UInt32.lt_iff_toNat_lt.1 h) (Nat.not_lt.2 hmax)
    have hn : i.toNat ≠ 0 := fun h => h0 (UInt64.toNat_inj.1 h)
    have hdigits : hexDigits base.toNat i.toNat
        = (Nat.toDigits base.toNat i.toNat).map Char.toUpper := if_neg hn
    have hcount := length_toDigits hb i.toNat_lt
    have hsize : (List.replicate tmpSize nul).length = 128 := List.length_replicate
    have htmp := fillTmp_digits base.toUInt64 hb hmax (tmpSize + 1) i []
      (List.replicate tmpSize nul)
    have hlength : (Nat.toDigits base.toNat i.toNat).length = (hexDigits base.toNat i.toNat).length := by
      rw [hdigits, List.length_map]
    rw [hlength] at hcount hbuf ⊢
    rw [← hdigits]
    rw [UInt32.toNat_toUInt64] at htmp
    generalize hexDigits base.toNat i.toNat = digits at hcount hbuf htmp ⊢
    have hbuf' := fillBuf_reverse digits.reverse ((List.replicate tmpSize nul).drop digits.length)
      [] buf
    rw [List.length_reverse, List.reverse_reverse, List.nil_append, List.nil_append,
      List.length_nil, Nat.zero_add] at hbuf'
    rw [List.nil_append, List.nil_append, List.length_nil, Nat.zero_add, Nat.zero_add] at htmp
    have hrounds : digits.length < tmpSize + 1 := Nat.lt_succ_of_le (hcount.trans (by decide))
    rw [if_neg (not_or.2 ⟨h0, hbase⟩), htmp hrounds (by omega) (by omega), Option.bind_some]
    dsimp only
    rw [hbuf' hbuf.le (by omega), Option.bind_some]
    dsimp only
    rw [List.drop_eq_getElem_cons hbuf, store_next]

/-! ## `itoa` -/

theorem Int64.toNat_toUInt64 (n : Int64) : (n.toUInt64.toNat : ℤ) = n.toInt % 2 ^ 64 := by
  have hint : n.toInt = _ := BitVec.toInt_eq_toNat_cond n.toBitVec
  have hnat : n.toUInt64.toNat = n.toBitVec.toNat := rfl
  have hlt := n.toBitVec.isLt
  rw [hint, hnat]
  split_ifs <;> omega

/-- The least number is its own opposite, and as a `uint64_t` that is its absolute value. -/
theorem Int64.toNat_neg {i : Int64} (h : i < 0) : (i * -1).toUInt64.toNat = i.toInt.natAbs := by
  have hneg : i.toInt < 0 := Int64.lt_iff_toInt_lt.1 h
  have hle := i.le_toInt
  have hmul : (i * -1).toInt % 2 ^ 64 = i.toInt * -1 % 2 ^ 64 := by
    rw [Int64.toInt_mul]
    exact Int.bmod_emod
  have hnat := Int64.toNat_toUInt64 (i * -1)
  omega

theorem Int64.toNat_of_nonneg {i : Int64} (h : ¬ i < 0) : i.toUInt64.toNat = i.toInt.natAbs := by
  have hnonneg : ¬ i.toInt < 0 := fun hneg => h (Int64.lt_iff_toInt_lt.2 hneg)
  have hlt := i.toInt_lt
  have hnat := Int64.toNat_toUInt64 i
  omega

theorem itoa_of_nonneg {i : Int64} (h : ¬ i < 0) {buf : List Char}
    (hbuf : (Nat.toDigits 10 i.toInt.natAbs).length < buf.length) :
    itoa i buf 10 = some ((Nat.toDigits 10 i.toInt.natAbs).map Char.toUpper
      ++ nul :: buf.drop ((Nat.toDigits 10 i.toInt.natAbs).length + 1)) := by
  have hten : (10 : UInt32).toNat = 10 := rfl
  rw [← Int64.toNat_of_nonneg h, ← hten] at hbuf ⊢
  unfold itoa
  rw [if_neg (by decide), if_neg fun hneg => h hneg.2]
  exact uitoa_eq (by decide) (by decide) _ hbuf

theorem itoa_of_neg {i : Int64} (h : i < 0) {buf : List Char}
    (hbuf : (Nat.toDigits 10 i.toInt.natAbs).length + 1 < buf.length) :
    itoa i buf 10 = some ('-' :: (Nat.toDigits 10 i.toInt.natAbs).map Char.toUpper
      ++ nul :: buf.drop ((Nat.toDigits 10 i.toInt.natAbs).length + 1 + 1)) := by
  have hten : (10 : UInt32).toNat = 10 := rfl
  rw [← Int64.toNat_neg h, ← hten] at hbuf ⊢
  rcases buf with _ | ⟨x, buf⟩
  · exact absurd hbuf (Nat.not_lt_zero _)
  rw [List.length_cons, Nat.add_lt_add_iff_right] at hbuf
  have hsign : store (x :: buf) 0 '-' = some ('-' :: buf) := store_next [] x '-' buf
  unfold itoa
  rw [if_neg (by decide), if_pos ⟨rfl, h⟩, hsign, Option.bind_some, List.drop_one, List.tail_cons,
    uitoa_eq (by decide) (by decide) _ hbuf, Option.map_some, List.take_succ_cons, List.take_zero,
    List.singleton_append, List.drop_succ_cons, List.cons_append]

/-! ## The result -/

/-- The text in the buffer is a numeral of the number, of 64 digits at most; `itoa` puts a sign before
it just when the number is negative. -/
theorem uitoa_itoa_numeral {base : UInt32} (hb : 2 ≤ base) (hmax : base ≤ 16) (i : UInt64)
    (j : Int64) :
    (∃ s, Numeral base.toNat i.toNat s ∧ nul ∉ s ∧ s.length ≤ 64
        ∧ ∀ buf, s.length < buf.length →
          uitoa i buf base = some (s ++ nul :: buf.drop (s.length + 1)))
      ∧ ∃ s, Numeral 10 j.toInt.natAbs s ∧ nul ∉ s ∧ s.length ≤ 64
        ∧ ∀ buf, (if j < 0 then '-' :: s else s).length < buf.length →
          itoa j buf 10 = some ((if j < 0 then '-' :: s else s)
            ++ nul :: buf.drop ((if j < 0 then '-' :: s else s).length + 1)) := by
  have hb' : 1 < base.toNat := UInt32.le_iff_toNat_le.1 hb
  have hmax' : base.toNat ≤ 16 := UInt32.le_iff_toNat_le.1 hmax
  constructor
  · refine ⟨_, numeral_toDigits hb' hmax' i.toNat, nul_notMem_toUpper hb' hmax', ?_, fun buf hbuf => ?_⟩
    · rw [List.length_map]
      exact length_toDigits hb' i.toNat_lt
    · rw [List.length_map] at hbuf ⊢
      exact uitoa_eq hb' hmax' i hbuf
  · have hlt : j.toInt.natAbs < 2 ^ 64 := by
      have := j.le_toInt
      have := j.toInt_lt
      omega
    refine ⟨_, numeral_toDigits (by decide) (by decide) j.toInt.natAbs,
      nul_notMem_toUpper (by decide) (by decide), ?_, fun buf hbuf => ?_⟩
    · rw [List.length_map]
      exact length_toDigits (by decide) hlt
    · by_cases h : j < 0
      · rw [if_pos h, List.length_cons, List.length_map] at hbuf ⊢
        exact itoa_of_neg h hbuf
      · rw [if_neg h, List.length_map] at hbuf ⊢
        exact itoa_of_nonneg h hbuf

/-- The greatest number in base 16, and the least one. -/
theorem uitoa_itoa_numeral_limits :
    (∃ s, Numeral (16 : UInt32).toNat (0xFFFFFFFFFFFFFFFF : UInt64).toNat s ∧ nul ∉ s ∧ s.length ≤ 64
        ∧ ∀ buf, s.length < buf.length →
          uitoa 0xFFFFFFFFFFFFFFFF buf 16 = some (s ++ nul :: buf.drop (s.length + 1)))
      ∧ ∃ s, Numeral 10 Int64.minValue.toInt.natAbs s ∧ nul ∉ s ∧ s.length ≤ 64
        ∧ ∀ buf, ('-' :: s).length < buf.length →
          itoa Int64.minValue buf 10 = some ('-' :: s ++ nul :: buf.drop (('-' :: s).length + 1)) := by
  have hneg : Int64.minValue < 0 := by decide
  have h := uitoa_itoa_numeral (show (2 : UInt32) ≤ 16 by decide) (by decide) 0xFFFFFFFFFFFFFFFF
    Int64.minValue
  simp only [if_pos hneg] at h
  exact h

end RTLKIM
