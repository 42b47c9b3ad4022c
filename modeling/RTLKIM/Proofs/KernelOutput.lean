import Mathlib.Tactic.IntervalCases
import RTLKIM.FormatSpec
import RTLKIM.Proofs.Uitoa

/-!
# Formatted output

Each item of a format is run from the modifiers of the start and sets them again at its end, so a run
over a format is one over its items.
-/

namespace RTLKIM

/-! ## Upper and lower case -/

section Case

variable {rest : List Char}

theorem toupper_digits : ∀ {l : List Char}, (∀ c ∈ l, ∃ d < 16, c = Nat.digitChar d) →
    toupper (l.map Char.toUpper ++ nul :: rest) = l.map Char.toUpper ++ nul :: rest
  | [], _ => rfl
  | c :: l, h => by
    obtain ⟨d, hd, rfl⟩ := h c List.mem_cons_self
    have hall : ∀ d < 16, (Nat.digitChar d).toUpper ≠ nul
        ∧ ¬ (96 < (Nat.digitChar d).toUpper.toNat ∧ (Nat.digitChar d).toUpper.toNat < 123) := by
      decide
    rw [List.map_cons, List.cons_append, toupper, if_neg (hall d hd).1, if_neg (hall d hd).2,
      toupper_digits fun c hc => h c (List.mem_cons_of_mem _ hc)]

theorem tolower_digits : ∀ {l : List Char}, (∀ c ∈ l, ∃ d < 16, c = Nat.digitChar d) →
    tolower (l.map Char.toUpper ++ nul :: rest) = l ++ nul :: rest
  | [], _ => rfl
  | c :: l, h => by
    obtain ⟨d, hd, rfl⟩ := h c List.mem_cons_self
    have hall : ∀ d < 16, (Nat.digitChar d).toUpper ≠ nul
        ∧ (if 64 < (Nat.digitChar d).toUpper.toNat ∧ (Nat.digitChar d).toUpper.toNat < 91 then
            Char.ofNat ((Nat.digitChar d).toUpper.toNat + 32)
          else (Nat.digitChar d).toUpper) = Nat.digitChar d := by
      decide
    rw [List.map_cons, List.cons_append, tolower, if_neg (hall d hd).1, (hall d hd).2,
      tolower_digits fun c hc => h c (List.mem_cons_of_mem _ hc)]
    rfl

/-- There are no letters among the decimal digits. -/
theorem toUpper_decimal (n : ℕ) : (Nat.toDigits 10 n).map Char.toUpper = Nat.toDigits 10 n := by
  have hall : ∀ d < 10, (Nat.digitChar d).toUpper = Nat.digitChar d := by decide
  conv_rhs => rw [← List.map_id (Nat.toDigits 10 n)]
  refine List.map_congr_left fun c hc => ?_
  obtain ⟨d, hd, rfl⟩ := mem_toDigits (by decide) hc
  exact hall d hd

theorem nul_notMem_toDigits {b n : ℕ} (hb : 1 < b) (hmax : b ≤ 16) : nul ∉ Nat.toDigits b n := by
  intro h
  obtain ⟨d, hd, hnul⟩ := mem_toDigits hb h
  have hall : ∀ d < 16, nul ≠ Nat.digitChar d := by decide
  exact hall d (hd.trans_le hmax) hnul

end Case

/-- `length_mod` after the characters of a length. -/
def ArgLength.lengthMod : ArgLength → ℕ
  | .word => 4
  | .half => 2
  | .quarter => 1

namespace Formater

variable {ω : Type} {currentOutput usedOutput : ω} {stringAt : UInt32 → List Char} {s s₁ : Formater ω}

/-! ## One conversion -/

theorem padSeq_eq (usedOutput : ω) (strSize : ℕ) : ∀ (n : ℕ) (s : Formater ω),
    (padSeq usedOutput strSize n s).args = s.args
      ∧ (padSeq usedOutput strSize n s).out
        = s.out ++ (List.replicate (n - strSize) s.padCharMod).map fun c => (usedOutput, c)
  | 0, s => by simp [padSeq]
  | n + 1, s => by
    rw [padSeq]
    split_ifs with h
    · obtain ⟨hargs, hout⟩ := padSeq_eq usedOutput strSize n
        { s.putc usedOutput s.padCharMod with paddingMod := n }
      have hsub : n + 1 - strSize = n - strSize + 1 := by omega
      refine ⟨hargs, ?_⟩
      rw [hout, hsub, List.replicate_succ, List.map_cons]
      exact List.append_assoc _ _ _
    · rw [Nat.sub_eq_zero_of_le (Nat.le_of_not_lt h)]
      simp

theorem printSeq_eq {write : UInt32 → List Char → Option (List Char)} {change : List Char → List Char}
    {seqVal : UInt32} {tmpSeq : List Char} (hval : s.getSeqVal = some (seqVal, s₁))
    (hwrite : write seqVal (List.replicate tmpSize nul) = some tmpSeq) :
    (s.printSeq usedOutput write change).map reinit = some (start s₁.args (s₁.out
      ++ (List.replicate (s₁.paddingMod - (text tmpSeq).length) s₁.padCharMod
        ++ text (change tmpSeq)).map fun c => (usedOutput, c))) := by
  obtain ⟨hargs, hout⟩ := padSeq_eq usedOutput (text tmpSeq).length s₁.paddingMod s₁
  unfold printSeq
  rw [hval, Option.bind_some]
  dsimp only
  rw [hwrite, Option.map_some, Option.map_some]
  unfold reinit puts
  dsimp only
  rw [hargs, hout, List.map_append, List.append_assoc]

theorem uitoa_seq (v base : UInt32) (hb : 1 < base.toNat) (hmax : base.toNat ≤ 16) :
    ∃ rest, uitoa v.toUInt64 (List.replicate tmpSize nul) base
      = some ((Nat.toDigits base.toNat v.toNat).map Char.toUpper ++ nul :: rest) := by
  refine ⟨_, uitoa_eq hb hmax _ ?_⟩
  rw [List.length_replicate]
  exact (length_toDigits hb v.toUInt64.toNat_lt).trans_lt (by decide)

theorem printU_eq (usedOutput : ω) {seqVal : UInt32} (hval : s.getSeqVal = some (seqVal, s₁)) :
    (s.printU usedOutput).map reinit = some (start s₁.args (s₁.out
      ++ (List.leftpad s₁.paddingMod s₁.padCharMod (Conversion.decimal.digits seqVal.toNat)).map
        fun c => (usedOutput, c))) := by
  obtain ⟨rest, hwrite⟩ := uitoa_seq seqVal 10 (by decide) (by decide)
  have htext := text_append (nul_notMem_toDigits (b := 10) (n := seqVal.toNat) (by decide) (by decide))
    rest
  have hten : (10 : UInt32).toNat = 10 := rfl
  rw [hten, toUpper_decimal] at hwrite
  unfold printU
  rw [printSeq_eq hval hwrite, id, htext]
  rfl

theorem printX_eq (usedOutput : ω) {seqVal : UInt32} (hval : s.getSeqVal = some (seqVal, s₁)) :
    (s.printX usedOutput).map reinit = some (start s₁.args (s₁.out
      ++ (List.leftpad s₁.paddingMod s₁.padCharMod
        ((if s.upperMod then Conversion.upperHex else .lowerHex).digits seqVal.toNat)).map
          fun c => (usedOutput, c))) := by
  obtain ⟨rest, hwrite⟩ := uitoa_seq seqVal 16 (by decide) (by decide)
  have htext := text_append
    (nul_notMem_toUpper (b := 16) (n := seqVal.toNat) (by decide) (by decide)) rest
  have hdigits : ∀ c ∈ Nat.toDigits 16 seqVal.toNat, ∃ d < 16, c = Nat.digitChar d :=
    fun c hc => mem_toDigits (by decide) hc
  have hsixteen : (16 : UInt32).toNat = 16 := rfl
  rw [hsixteen] at hwrite
  unfold printX
  rw [printSeq_eq hval hwrite, htext]
  cases s.upperMod with
  | true =>
    rw [if_pos rfl, if_pos rfl, toupper_digits hdigits, htext]
    rfl
  | false =>
    rw [if_neg Bool.false_ne_true, if_neg Bool.false_ne_true, tolower_digits hdigits,
      text_append (nul_notMem_toDigits (by decide) (by decide)), List.length_map]
    rfl

/-! ## One item -/

variable {arg : UInt32} {args more : List UInt32} {out : List (ω × Char)} {upper : Bool} {pad : Char}

theorem getSeqVal_eq (length : ArgLength) (width : ℕ) (upper : Bool) (pad : Char) (arg : UInt32)
    (more : List UInt32) (out : List (ω × Char)) : ∃ seqVal,
    getSeqVal ⟨true, length.lengthMod, width, upper, pad, arg :: more, out⟩
      = some (seqVal, ⟨true, length.lengthMod, width, upper, pad, more, out⟩)
    ∧ seqVal.toNat = length.value arg := by
  cases length with
  | word => exact ⟨arg, rfl, rfl⟩
  | half => exact ⟨arg &&& 0xFFFF, rfl, (UInt32.toNat_and _ _).trans (Nat.and_two_pow_sub_one_eq_mod _ 16)⟩
  | quarter => exact ⟨arg &&& 0xFF, rfl, (UInt32.toNat_and _ _).trans (Nat.and_two_pow_sub_one_eq_mod _ 8)⟩

/-- A digit of a width, where a 0 is not the first. -/
theorem formatChar_digit {d width : ℕ} (hd : d < 10) (h0 : d ≠ 0 ∨ width ≠ 0) :
    formatChar currentOutput usedOutput stringAt ⟨true, 4, width, upper, pad, args, out⟩
        (Nat.digitChar d)
      = some ⟨true, 4, (width * 10 + d) % 2 ^ 8, upper, pad, args, out⟩ := by
  interval_cases d
  · exact if_neg (h0.resolve_left (not_not_intro rfl))
  all_goals rfl

theorem run_width {width : ℕ} (h0 : width ≠ 0) (hmax : width < 2 ^ 8) :
    (Nat.toDigits 10 width).foldlM (formatChar currentOutput usedOutput stringAt)
        ⟨true, 4, 0, upper, pad, args, out⟩
      = some ⟨true, 4, width, upper, pad, args, out⟩ := by
  induction width using Nat.strong_induction_on with
  | _ width ih =>
    by_cases hlt : width < 10
    · have hdigit : (0 * 10 + width) % 2 ^ 8 = width := by omega
      rw [Nat.toDigits_of_lt_base hlt, List.foldlM_cons, formatChar_digit hlt (.inl h0), hdigit]
      rfl
    · have hdiv : width / 10 ≠ 0 := by omega
      have hdigit : (width / 10 * 10 + width % 10) % 2 ^ 8 = width := by omega
      rw [Nat.toDigits_of_base_le (by decide) (Nat.le_of_not_lt hlt), List.foldlM_append,
        ih (width / 10) (by omega) hdiv (by omega), Option.bind_eq_bind, Option.bind_some,
        List.foldlM_cons, formatChar_digit (Nat.mod_lt _ (by decide)) (.inr hdiv), hdigit]
      rfl

/-- The character of a conversion, after the modifiers. -/
theorem formatChar_conversion (length : ArgLength) (conversion : Conversion) (width : ℕ) :
    formatChar currentOutput usedOutput stringAt
        ⟨true, length.lengthMod, width, false, pad, arg :: more, out⟩ conversion.format
      = some (start more (out ++ (List.leftpad width pad (conversion.digits (length.value arg))).map
        fun c => (usedOutput, c))) := by
  cases conversion with
  | decimal =>
    obtain ⟨seqVal, hval, hvalue⟩ := getSeqVal_eq length width false pad arg more out
    rw [← hvalue]
    exact printU_eq usedOutput hval
  | lowerHex =>
    obtain ⟨seqVal, hval, hvalue⟩ := getSeqVal_eq length width false pad arg more out
    rw [← hvalue]
    exact printX_eq usedOutput hval
  | upperHex =>
    obtain ⟨seqVal, hval, hvalue⟩ := getSeqVal_eq length width true pad arg more out
    rw [← hvalue]
    exact printX_eq usedOutput hval

/-- The characters of a length. -/
theorem run_length (length : ArgLength) (width : ℕ) :
    length.format.foldlM (formatChar currentOutput usedOutput stringAt)
        ⟨true, 4, width, upper, pad, args, out⟩
      = some ⟨true, length.lengthMod, width, upper, pad, args, out⟩ := by
  have hh : ∀ n, formatChar currentOutput usedOutput stringAt ⟨true, n, width, upper, pad, args, out⟩ 'h'
      = some ⟨true, n / 2, width, upper, pad, args, out⟩ := fun _ => rfl
  cases length with
  | word => rfl
  | half =>
    rw [ArgLength.format, List.foldlM_cons, hh]
    rfl
  | quarter =>
    rw [ArgLength.format, List.foldlM_cons, hh, Option.bind_eq_bind, Option.bind_some,
      List.foldlM_cons, hh]
    rfl

/-- The flag and the width of a conversion. -/
theorem run_field (zero : Bool) (width : Fin (2 ^ 8)) :
    ('%' :: (if zero then ['0'] else [])
        ++ (if (width : ℕ) = 0 then [] else Nat.toDigits 10 width)).foldlM
      (formatChar currentOutput usedOutput stringAt) (start args out)
      = some ⟨true, 4, width, false, if zero then '0' else ' ', args, out⟩ := by
  have hzero : (if zero then ['0'] else []).foldlM (formatChar currentOutput usedOutput stringAt)
      ⟨true, 4, 0, false, ' ', args, out⟩
      = some ⟨true, 4, 0, false, if zero then '0' else ' ', args, out⟩ := by
    cases zero with
    | false => rfl
    | true => rfl
  have hwidth : (if (width : ℕ) = 0 then [] else Nat.toDigits 10 width).foldlM
      (formatChar currentOutput usedOutput stringAt)
      ⟨true, 4, 0, false, if zero then '0' else ' ', args, out⟩
      = some ⟨true, 4, width, false, if zero then '0' else ' ', args, out⟩ := by
    by_cases h0 : (width : ℕ) = 0
    · rw [if_pos h0, h0]
      rfl
    · rw [if_neg h0, run_width h0 width.2]
  have hpercent : formatChar currentOutput usedOutput stringAt (start args out) '%'
      = some ⟨true, 4, 0, false, ' ', args, out⟩ := rfl
  rw [List.cons_append, List.foldlM_cons, hpercent, Option.bind_eq_bind, Option.bind_some,
    List.foldlM_append, hzero, Option.bind_eq_bind, Option.bind_some, hwidth]

theorem run_item (item : Item) (more : List UInt32) (out : List (ω × Char)) :
    item.format.foldlM (formatChar currentOutput usedOutput stringAt) (start (item.args ++ more) out)
      = some (start more (out ++ item.printed.map fun c => (usedOutput, c))) := by
  cases item with
  | literal c =>
    have hchar : formatChar currentOutput usedOutput stringAt (start more out) c
        = some (start more (out ++ [(usedOutput, (c : Char))])) := if_neg c.2.1
    rw [Item.format, Item.args, List.nil_append, List.foldlM_cons, hchar]
    rfl
  | percent => rfl
  | char arg =>
    obtain ⟨seqVal, hval, hvalue⟩ := getSeqVal_eq .quarter 0 false ' ' arg more out
    have hprint : (printC usedOutput ⟨true, 4, 0, false, ' ', arg :: more, out⟩).map reinit
        = some (start more (out ++ [(usedOutput, Char.ofNat (arg.toNat % 2 ^ 8))])) := by
      have hmod : seqVal.toNat % 2 ^ 8 = arg.toNat % 2 ^ 8 := by
        rw [hvalue]
        exact Nat.mod_mod _ _
      rw [← hmod]
      exact congrArg (fun o => (Option.map _ o).map reinit) hval
    exact (congrArg (fun o => o >>= some) hprint).trans rfl
  | pointer upper arg =>
    obtain ⟨seqVal, hval, hvalue⟩ := getSeqVal_eq .word 8 upper '0' arg more out
    have hprint := printX_eq usedOutput hval
    rw [hvalue] at hprint
    cases upper with
    | false => exact (congrArg (fun o => o >>= some) hprint).trans rfl
    | true => exact (congrArg (fun o => o >>= some) hprint).trans rfl
  | number zero width length conversion arg =>
    unfold Item.format
    rw [List.foldlM_append, List.foldlM_append, Item.args, List.singleton_append, run_field,
      Option.bind_eq_bind, Option.bind_some, run_length, Option.bind_some, List.foldlM_cons,
      formatChar_conversion]
    rfl

/-! ## A whole format -/

theorem run_items : ∀ (items : List Item) (more : List UInt32) (out : List (ω × Char)),
    (items.flatMap Item.format).foldlM (formatChar currentOutput usedOutput stringAt)
        (start (items.flatMap Item.args ++ more) out)
      = some (start more (out ++ (items.flatMap Item.printed).map fun c => (usedOutput, c)))
  | [], more, out => by
    rw [List.flatMap_nil, List.flatMap_nil, List.flatMap_nil, List.map_nil, List.append_nil]
    rfl
  | item :: items, more, out => by
    rw [List.flatMap_cons, List.flatMap_cons, List.flatMap_cons, List.foldlM_append,
      List.append_assoc, run_item, Option.bind_eq_bind, Option.bind_some,
      run_items items more, List.map_append, List.append_assoc]

theorem nul_notMem_field (zero : Bool) (width : Fin (2 ^ 8)) :
    nul ∉ '%' :: (if zero then ['0'] else [])
      ++ (if (width : ℕ) = 0 then [] else Nat.toDigits 10 width) := by
  have hflag : ∀ zero : Bool, nul ∉ '%' :: (if zero then ['0'] else []) := by decide
  intro h
  rcases List.mem_append.1 h with h | h
  · exact hflag zero h
  · split_ifs at h
    · exact absurd h List.not_mem_nil
    · exact nul_notMem_toDigits (by decide) (by decide) h

theorem nul_notMem_format (items : List Item) : nul ∉ items.flatMap Item.format := by
  intro h
  obtain ⟨item, -, hnul⟩ := List.mem_flatMap.1 h
  cases item with
  | literal c => exact c.2.2 (List.mem_singleton.1 hnul).symm
  | percent => exact absurd hnul (by decide)
  | char arg =>
    have hchar : nul ∉ ['%', 'c'] := by decide
    exact hchar hnul
  | pointer upper arg =>
    have hpointer : ∀ upper : Bool, nul ∉ ['%', if upper then 'P' else 'p'] := by decide
    exact hpointer upper hnul
  | number zero width length conversion arg =>
    unfold Item.format at hnul
    rw [List.mem_append, List.mem_append] at hnul
    rcases hnul with (hnul | hnul) | hnul
    · exact nul_notMem_field zero width hnul
    · cases length with
      | word => exact absurd hnul (by decide)
      | half => exact absurd hnul (by decide)
      | quarter => exact absurd hnul (by decide)
    · cases conversion with
      | decimal => exact absurd hnul (by decide)
      | lowerHex => exact absurd hnul (by decide)
      | upperHex => exact absurd hnul (by decide)

/-- A format is printed as its items are, on the output of the call. What is in memory after the NUL
and on the stack after the arguments does not matter. -/
theorem formater_items (currentOutput usedOutput : ω) (stringAt : UInt32 → List Char)
    (items : List Item) (rest : List Char) (more : List UInt32) :
    formater currentOutput usedOutput stringAt (items.flatMap Item.format ++ nul :: rest)
        (items.flatMap Item.args ++ more)
      = some ((items.flatMap Item.printed).map fun c => (usedOutput, c)) := by
  unfold formater
  rw [text_append (nul_notMem_format items), run_items]
  rfl

example : (Item.number true 5 .half .lowerHex 0x1BEEF).format = ['%', '0', '5', 'h', 'x']
    ∧ (Item.number true 5 .half .lowerHex 0x1BEEF).printed = ['0', 'b', 'e', 'e', 'f'] := by
  decide

end Formater

end RTLKIM
