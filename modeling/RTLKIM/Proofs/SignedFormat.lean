import RTLKIM.Proofs.KernelOutput

/-!
# Signed numbers and numbers of 64 bits

`seq_val` is an unsigned word: a number goes through it without its sign and without its high half. What
is printed is the number if and only if nothing was there to lose.
-/

namespace RTLKIM

/-! ## Padded numbers -/

/-- A padding counts for nothing in a number. -/
theorem ofDigitChars_leftpad {pad : Char} (hpad : pad = '0' ∨ pad = ' ') (width n : ℕ) :
    Nat.ofDigitChars 10 (List.leftpad width pad (Nat.toDigits 10 n)) 0 = n := by
  have hzero : ∀ k, Nat.ofDigitChars 10 (List.replicate k pad) 0 = 0 := by
    intro k
    induction k with
    | zero => rfl
    | succ k ih =>
      rw [List.replicate_succ, Nat.ofDigitChars_cons]
      rcases hpad with rfl | rfl
      · exact ih
      · exact ih
  rw [List.leftpad, Nat.ofDigitChars_append, hzero, Nat.ofDigitChars_ten_toDigits]

theorem minus_notMem_leftpad {pad : Char} (hpad : pad = '0' ∨ pad = ' ') (width n : ℕ) :
    '-' ∉ List.leftpad width pad (Nat.toDigits 10 n) := by
  intro h
  rcases List.mem_append.1 h with h | h
  · obtain rfl := List.eq_of_mem_replicate h
    rcases hpad with hpad | hpad
    · exact absurd hpad (by decide)
    · exact absurd hpad (by decide)
  · obtain ⟨d, hd, hminus⟩ := mem_toDigits (by decide) h
    have hall : ∀ d < 10, '-' ≠ Nat.digitChar d := by decide
    exact hall d hd hminus

/-- A number without a sign is printed as another one only if they are equal. -/
theorem leftpad_eq_decimal_iff {pad : Char} (hpad : pad = '0' ∨ pad = ' ') (width n : ℕ) (z : ℤ) :
    List.leftpad width pad (Nat.toDigits 10 n) = List.leftpad width pad (decimal z) ↔ (n : ℤ) = z := by
  unfold decimal
  split_ifs with hz
  · refine iff_of_false (fun h => ?_) (by omega)
    have hminus : '-' ∈ List.leftpad width pad ('-' :: Nat.toDigits 10 z.natAbs) :=
      List.mem_append_right _ List.mem_cons_self
    rw [← h] at hminus
    exact minus_notMem_leftpad hpad width n hminus
  · constructor
    · intro h
      have hvalue := congrArg (fun l => Nat.ofDigitChars 10 l 0) h
      simp only [ofDigitChars_leftpad hpad] at hvalue
      omega
    · rintro rfl
      rfl

/-! ## Words -/

/-- The low word is what is left of 64 bits. -/
theorem low_word (low high : UInt32) : (low.toUInt64 ||| high.toUInt64 <<< 32).toUInt32 = low := by
  rw [UInt64.toUInt32_or, UInt32.toUInt32_toUInt64]
  apply UInt32.toNat_inj.1
  simp [UInt64.toNat_shiftLeft, Nat.shiftLeft_eq]

theorem Int32.toNat_toUInt32 (n : Int32) : (n.toUInt32.toNat : ℤ) = n.toInt % 2 ^ 32 := by
  have hint : n.toInt = _ := BitVec.toInt_eq_toNat_cond n.toBitVec
  have hnat : n.toUInt32.toNat = n.toBitVec.toNat := rfl
  have hlt := n.toBitVec.isLt
  rw [hint, hnat]
  split_ifs <;> omega

/-- A word is not negative as an `int64_t`. -/
theorem not_toInt64_neg (v : UInt32) : ¬ v.toUInt64.toInt64 < 0 := by
  have hint : v.toUInt64.toInt64.toInt = _ := BitVec.toInt_eq_toNat_cond v.toUInt64.toInt64.toBitVec
  have hnat : v.toUInt64.toInt64.toBitVec.toNat = v.toNat := UInt32.toNat_toUInt64 v
  have hlt := v.toNat_lt
  rw [Int64.lt_iff_toInt_lt, hint, hnat, if_pos (by omega)]
  exact not_lt.2 (Int.natCast_nonneg _)

namespace Formater

variable {ω : Type} {currentOutput usedOutput : ω} {stringAt : UInt32 → List Char} {s s₁ : Formater ω}

/-! ## One conversion -/

/-- `itoa` has no sign to find. -/
theorem printD_eq (usedOutput : ω) (s : Formater ω) : s.printD usedOutput = s.printU usedOutput := by
  have hitoa : ∀ (v : UInt32) (buf : List Char),
      itoa v.toUInt64.toInt64 buf 10 = uitoa v.toUInt64 buf 10 := by
    intro v buf
    unfold itoa
    rw [if_neg (by decide), if_neg fun h => not_toInt64_neg v h.2]
    rfl
  unfold printD printU
  simp only [hitoa]

variable {more : List UInt32} {out : List (ω × Char)} {pad : Char} {width : ℕ}

theorem getSeqVal_words (n : UInt64) (width : ℕ) (pad : Char) (more : List UInt32)
    (out : List (ω × Char)) :
    getSeqVal ⟨true, 8, width, false, pad, Wide.words n ++ more, out⟩
      = some (n.toUInt32, ⟨true, 8, width, false, pad, more, out⟩) :=
  congrArg (fun v => some (v, (⟨true, 8, width, false, pad, more, out⟩ : Formater ω)))
    (low_word n.toUInt32 (n >>> 32).toUInt32)

/-- A word, signed or not, is printed without a sign. -/
theorem run_word (currentOutput usedOutput : ω) (arg : UInt32) {c : Char} (hc : c = 'd' ∨ c = 'i') :
    [c].foldlM (formatChar currentOutput usedOutput stringAt)
        ⟨true, 4, width, false, pad, arg :: more, out⟩
      = some (start more (out ++ (List.leftpad width pad (Nat.toDigits 10 arg.toNat)).map
        fun c => (usedOutput, c))) := by
  have hval : getSeqVal ⟨true, 4, width, false, pad, arg :: more, out⟩
      = some (arg, ⟨true, 4, width, false, pad, more, out⟩) := rfl
  have hprint := printU_eq usedOutput hval
  rw [← printD_eq] at hprint
  rw [List.foldlM_cons]
  rcases hc with rfl | rfl
  · exact (congrArg (fun o => o >>= some) hprint).trans rfl
  · exact (congrArg (fun o => o >>= some) hprint).trans rfl

/-- Of 64 bits the low word is printed, without a sign. -/
theorem run_words (currentOutput usedOutput : ω) (arg : UInt64) {c : Char} (hc : c = 'd' ∨ c = 'u') :
    ['l', c].foldlM (formatChar currentOutput usedOutput stringAt)
        ⟨true, 4, width, false, pad, Wide.words arg ++ more, out⟩
      = some (start more (out ++ (List.leftpad width pad (Nat.toDigits 10 arg.toUInt32.toNat)).map
        fun c => (usedOutput, c))) := by
  have hl : formatChar currentOutput usedOutput stringAt
      ⟨true, 4, width, false, pad, Wide.words arg ++ more, out⟩ 'l'
      = some ⟨true, 8, width, false, pad, Wide.words arg ++ more, out⟩ := rfl
  have hprint := printU_eq usedOutput (getSeqVal_words arg width pad more out)
  rw [List.foldlM_cons, hl, Option.bind_eq_bind, Option.bind_some, List.foldlM_cons]
  rcases hc with rfl | rfl
  · rw [← printD_eq] at hprint
    exact (congrArg (fun o => o >>= some) hprint).trans rfl
  · exact (congrArg (fun o => o >>= some) hprint).trans rfl

/-- What is printed of a number is its low word, without a sign. -/
theorem run_wide (currentOutput usedOutput : ω) (w : Wide) : ∃ n : ℕ, (n : ℤ) = w.value % 2 ^ 32
    ∧ w.specifier.foldlM (formatChar currentOutput usedOutput stringAt)
        ⟨true, 4, width, false, pad, w.args ++ more, out⟩
      = some (start more (out ++ (List.leftpad width pad (Nat.toDigits 10 n)).map
        fun c => (usedOutput, c))) := by
  cases w with
  | d arg => exact ⟨_, Int32.toNat_toUInt32 arg, run_word currentOutput usedOutput _ (.inl rfl)⟩
  | i arg => exact ⟨_, Int32.toNat_toUInt32 arg, run_word currentOutput usedOutput _ (.inr rfl)⟩
  | ld arg =>
    refine ⟨_, ?_, run_words currentOutput usedOutput arg.toUInt64 (.inl rfl)⟩
    have hlong := Int64.toNat_toUInt64 arg
    rw [UInt64.toNat_toUInt32]
    simp only [Wide.value]
    omega
  | lu arg =>
    refine ⟨_, ?_, run_words currentOutput usedOutput arg (.inr rfl)⟩
    rw [UInt64.toNat_toUInt32]
    rfl

/-! ## The result -/

theorem nul_notMem_wide (zero : Bool) (width : Fin (2 ^ 8)) (w : Wide) : nul ∉ w.format zero width := by
  intro h
  rcases List.mem_append.1 h with h | h
  · exact nul_notMem_field zero width h
  · cases w with
    | d arg => exact absurd h (show nul ∉ ['d'] by decide)
    | i arg => exact absurd h (show nul ∉ ['i'] by decide)
    | ld arg => exact absurd h (show nul ∉ ['l', 'd'] by decide)
    | lu arg => exact absurd h (show nul ∉ ['l', 'u'] by decide)

/-- What a format with such a number prints: its low word, without a sign. -/
theorem formater_wide (currentOutput usedOutput : ω) (stringAt : UInt32 → List Char)
    (before after : List Item) (zero : Bool) (width : Fin (2 ^ 8)) (w : Wide) (rest : List Char)
    (more : List UInt32) : ∃ n : ℕ, (n : ℤ) = w.value % 2 ^ 32
    ∧ formater currentOutput usedOutput stringAt
        (before.flatMap Item.format ++ w.format zero width ++ after.flatMap Item.format ++ nul :: rest)
        (before.flatMap Item.args ++ (w.args ++ (after.flatMap Item.args ++ more)))
      = some ((before.flatMap Item.printed
        ++ List.leftpad width (if zero then '0' else ' ') (Nat.toDigits 10 n)
        ++ after.flatMap Item.printed).map fun c => (usedOutput, c)) := by
  obtain ⟨n, hn, hrun⟩ := run_wide currentOutput usedOutput w
  refine ⟨n, hn, ?_⟩
  have hnul : nul ∉ before.flatMap Item.format ++ w.format zero width ++ after.flatMap Item.format := by
    simp only [List.mem_append, not_or]
    exact ⟨⟨nul_notMem_format before, nul_notMem_wide zero width w⟩, nul_notMem_format after⟩
  unfold formater
  rw [text_append hnul, List.foldlM_append, List.foldlM_append, run_items, Option.bind_eq_bind,
    Option.bind_some, Wide.format, List.foldlM_append, run_field, Option.bind_eq_bind, Option.bind_some,
    hrun, Option.bind_some, run_items]
  simp only [List.map_append, Option.map_some, start, List.nil_append, List.append_assoc]

/-- A signed or a long number is printed, at any place of a format, if and only if it is a word without a
sign. -/
theorem formater_wide_iff (currentOutput usedOutput : ω) (stringAt : UInt32 → List Char)
    (before after : List Item) (zero : Bool) (width : Fin (2 ^ 8)) (w : Wide) (rest : List Char)
    (more : List UInt32) :
    formater currentOutput usedOutput stringAt
        (before.flatMap Item.format ++ w.format zero width ++ after.flatMap Item.format ++ nul :: rest)
        (before.flatMap Item.args ++ (w.args ++ (after.flatMap Item.args ++ more)))
      = some ((before.flatMap Item.printed ++ w.printed zero width
        ++ after.flatMap Item.printed).map fun c => (usedOutput, c))
      ↔ 0 ≤ w.value ∧ w.value < 2 ^ 32 := by
  obtain ⟨n, hn, hrun⟩ := formater_wide currentOutput usedOutput stringAt before after zero width w rest
    more
  have hpad : (if zero then '0' else ' ') = '0' ∨ (if zero then '0' else ' ') = ' ' := by
    cases zero with
    | false => exact .inr rfl
    | true => exact .inl rfl
  have hinj : Function.Injective fun c : Char => (usedOutput, c) := fun c c' h => congrArg Prod.snd h
  rw [hrun, Option.some_inj, (List.map_injective_iff.2 hinj).eq_iff, List.append_left_inj,
    List.append_right_inj, Wide.printed, leftpad_eq_decimal_iff hpad]
  omega

/-- `%d` of -1. -/
theorem not_formater_wide :
    formater () () (fun _ => []) ((Wide.d (-1)).format false 0 ++ [nul]) (Wide.d (-1)).args
      ≠ some (((Wide.d (-1)).printed false 0).map fun c => ((), c)) := by
  decide +kernel

end Formater

end RTLKIM
