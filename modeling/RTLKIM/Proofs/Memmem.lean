import RTLKIM.Memmem

/-!
# The search finds the first occurrence

An offset is passed when the needle does not occur there. The byte after it tells whether the needle can
occur at the next one: where the first two bytes of the needle are equal it cannot when the byte is
another one, and where they are not it cannot when the byte is the second.
-/

namespace RTLKIM

/-! ## `memcmp` and `strlen` -/

/-- The result is 0 just when the bytes are equal. -/
theorem memcmp_prefix (rest rest' : List UInt8) : ∀ {x y : List UInt8}, x.length ≤ y.length →
    ∃ d, memcmp (x ++ rest') (y ++ rest) x.length = some d ∧ (d = 0 ↔ x <+: y)
  | [], y, _ => ⟨0, by rw [List.length_nil, memcmp], iff_of_true rfl List.nil_prefix⟩
  | a :: x, [], h => absurd h (Nat.not_succ_le_zero _)
  | a :: x, b :: y, h => by
    rw [List.cons_append, List.cons_append, List.length_cons, memcmp]
    by_cases hab : a = b
    · obtain ⟨d, hd, hx⟩ := memcmp_prefix rest rest' (x := x) (y := y) (Nat.le_of_succ_le_succ h)
      refine ⟨d, ?_, ?_⟩
      · rw [hab, sub_self, if_neg (not_not.2 rfl)]
        exact hd
      · rw [hx, List.cons_prefix_cons, and_iff_right hab]
    · have hne : (a.toNat : ℤ) - b.toNat ≠ 0 := fun h0 =>
        hab (UInt8.toNat_inj.1 (Int.ofNat_inj.1 (sub_eq_zero.1 h0)))
      refine ⟨_, if_pos hne, iff_of_false hne fun hp => ?_⟩
      exact hab (List.cons_prefix_cons.1 hp).1

theorem strlen_eq (rest : List UInt8) : ∀ {y : List UInt8}, 0 ∉ y →
    strlen (y ++ 0 :: rest) = some y.length
  | [], _ => if_pos rfl
  | c :: y, h => by
    obtain ⟨hc, hy⟩ := not_or.1 (mt List.mem_cons.2 h)
    rw [List.cons_append, strlen, if_neg (Ne.symm hc), strlen_eq rest hy, Option.map_some,
      List.length_cons]

/-! ## The loops -/

/-- The offsets that are skipped, by the first bytes of the needle. -/
def Skips (x0 x1 : UInt8) (k l : ℕ) : Prop := x0 = x1 ∧ k = 2 ∧ l = 1 ∨ x0 ≠ x1 ∧ k = 1 ∧ l = 2

variable {y x : List UInt8} {x0 x1 c : UInt8} {j k l : ℕ}

theorem not_occursAt_second (hc : y[j + 1]? = some c) (hne : x1 ≠ c) :
    ¬ OccursAt y (x0 :: x1 :: x) j := by
  rw [occursAt_cons, occursAt_cons, hc]
  rintro ⟨-, heq, -⟩
  exact hne (Option.some_inj.1 heq).symm

theorem not_occursAt_first (hc : y[j]? = some c) (hne : x0 ≠ c) : ¬ OccursAt y (x0 :: x) j := by
  rw [occursAt_cons, hc]
  rintro ⟨heq, -⟩
  exact hne (Option.some_inj.1 heq).symm

/-- The byte after the offset is not the second of the needle. -/
theorem Skips.noneBefore_k (hs : Skips x0 x1 k l) (h : NoneBefore y (x0 :: x1 :: x) j)
    (hc : y[j + 1]? = some c) (hne : x1 ≠ c) : NoneBefore y (x0 :: x1 :: x) (j + k) := by
  have hnext := h.succ (not_occursAt_second hc hne)
  rcases hs with ⟨heq, rfl, -⟩ | ⟨-, rfl, -⟩
  · exact hnext.succ (not_occursAt_first hc (heq ▸ hne))
  · exact hnext

/-- The byte after the offset is the second of the needle. -/
theorem Skips.noneBefore_l (hs : Skips x0 x1 k l) (h : NoneBefore y (x0 :: x1 :: x) j)
    (hc : y[j + 1]? = some x1) (hj : ¬ OccursAt y (x0 :: x1 :: x) j) :
    NoneBefore y (x0 :: x1 :: x) (j + l) := by
  have hnext := h.succ hj
  rcases hs with ⟨-, -, rfl⟩ | ⟨hne, -, rfl⟩
  · exact hnext
  · exact hnext.succ (not_occursAt_first hc hne)

theorem getElem?_mem (rest : List UInt8) (hj : j < y.length) :
    ∃ c, (y ++ rest)[j]? = some c ∧ y[j]? = some c :=
  ⟨y[j], by rw [List.getElem?_append_left hj, List.getElem?_eq_getElem hj],
    List.getElem?_eq_getElem hj⟩

theorem memmemLoop_first (rest rest' : List UInt8) (hy : y.length < 2 ^ 32)
    (hle : (x0 :: x1 :: x).length ≤ y.length) (hs : Skips x0 x1 k l) : ∀ (fuel : ℕ) {j : ℕ},
    NoneBefore y (x0 :: x1 :: x) j → y.length ≤ fuel + j + x.length → 0 < fuel →
    ∃ r, memmemLoop (y ++ rest) y.length (x0 :: x1 :: x ++ rest') (x0 :: x1 :: x).length x0 x1 k l
        fuel j = some r ∧ FirstOccurrence y (x0 :: x1 :: x) r
  | fuel + 1, j, h, hfuel, _ => by
    have hkl : 0 < k ∧ k ≤ 2 ∧ 0 < l ∧ l ≤ 2 := by
      rcases hs with ⟨-, rfl, rfl⟩ | ⟨-, rfl, rfl⟩ <;> decide
    have hlen : (x0 :: x1 :: x).length = x.length + 2 := rfl
    rw [memmemLoop, hlen, sub32_of_le (by omega) hy]
    by_cases hj : j ≤ y.length - (x.length + 2)
    swap
    · exact ⟨none, if_neg hj, h.firstOccurrence_none (List.cons_ne_nil _ _) (by omega)⟩
    obtain ⟨c0, hread0, hc0⟩ := getElem?_mem rest (show j < y.length by omega)
    obtain ⟨c1, hread1, hc1⟩ := getElem?_mem rest (show j + 1 < y.length by omega)
    have hskip (i : ℕ) (hi : 0 < i ∧ i ≤ 2) (hnone : NoneBefore y (x0 :: x1 :: x) (j + i)) :=
      memmemLoop_first rest rest' hy hle hs fuel hnone (by omega) (by omega)
    rw [if_pos hj, add32_of_lt (by omega), hread1, Option.bind_some]
    by_cases hne : x1 ≠ c1
    · rw [if_pos hne, add32_of_lt (by omega)]
      exact hskip k ⟨hkl.1, hkl.2.1⟩ (hs.noneBefore_k h hc1 hne)
    obtain rfl : x1 = c1 := not_not.1 hne
    have hdrop : (y ++ rest).drop (j + 2) = y.drop (j + 2) ++ rest :=
      List.drop_append_of_le_length (by omega)
    obtain ⟨d, hd, hrest⟩ := memcmp_prefix rest rest' (x := x) (y := y.drop (j + 2))
      (by rw [List.length_drop]; omega)
    have hocc : OccursAt y (x0 :: x1 :: x) j ↔ x0 = c0 ∧ d = 0 := by
      rw [occursAt_cons, occursAt_cons, hc0, hc1, hrest, Option.some_inj, and_iff_right rfl, eq_comm]
      rfl
    have htail : (x0 :: x1 :: x ++ rest').drop 2 = x ++ rest' := rfl
    rw [if_neg hne, sub32_of_le (by omega) (by omega), Nat.add_sub_cancel, htail, hdrop, hd,
      Option.bind_some, add32_of_lt (by omega), hread0, Option.bind_some]
    have hmiss (hno : ¬ OccursAt y (x0 :: x1 :: x) j) :=
      hskip l ⟨hkl.2.2.1, hkl.2.2.2⟩ (hs.noneBefore_l h hc1 hno)
    by_cases hd0 : d = 0
    · rw [if_pos hd0]
      by_cases hx0 : x0 = c0
      · exact ⟨some j, if_pos hx0, h.firstOccurrence_some (hocc.2 ⟨hx0, hd0⟩)⟩
      · rw [if_neg hx0]
        exact hmiss fun ho => hx0 (hocc.1 ho).1
    · rw [if_neg hd0]
      exact hmiss fun ho => hd0 (hocc.1 ho).2

theorem memmemByte_first (rest rest' : List UInt8) (x0 : UInt8) : ∀ {n j : ℕ},
    NoneBefore y [x0] j → n + j = y.length →
    ∃ r, memmemByte (y ++ rest) (x0 :: rest') n j = some r ∧ FirstOccurrence y [x0] r
  | 0, j, h, hn => ⟨none, rfl, h.firstOccurrence_none (List.cons_ne_nil _ _) (by
      rw [List.length_singleton]
      omega)⟩
  | n + 1, j, h, hn => by
    obtain ⟨c, hread, hc⟩ := getElem?_mem rest (show j < y.length by omega)
    rw [memmemByte, hread, Option.bind_some, List.getElem?_cons_zero, Option.bind_some]
    by_cases hx : c = x0
    · have hocc : OccursAt y [x0] j := occursAt_cons.2 ⟨hx ▸ hc, List.nil_prefix⟩
      exact ⟨some j, if_pos hx, h.firstOccurrence_some hocc⟩
    · rw [if_neg hx]
      exact memmemByte_first rest rest' x0 (h.succ (not_occursAt_first hc (Ne.symm hx))) (by omega)

/-! ## The result -/

theorem memmem_first (rest rest' : List UInt8) (hy : y.length < 2 ^ 32) (hx : x ≠ []) :
    ∃ r, memmem (y ++ rest) y.length (x ++ rest') x.length = some r ∧ FirstOccurrence y x r := by
  unfold memmem
  by_cases hlt : y.length < x.length
  · exact ⟨none, if_pos (.inl hlt), noneBefore_zero.firstOccurrence_none hx (by omega)⟩
  have hpos : 0 < x.length := List.length_pos_iff.2 hx
  rw [if_neg (by omega)]
  rcases x with _ | ⟨x0, _ | ⟨x1, x⟩⟩
  · exact absurd rfl hx
  · rw [if_neg (not_not.2 List.length_singleton)]
    exact memmemByte_first rest rest' x0 noneBefore_zero rfl
  · have htwo : (x0 :: x1 :: x).length ≠ 1 := Nat.succ_succ_ne_one _
    have hx0 : (x0 :: x1 :: x ++ rest')[0]? = some x0 := rfl
    have hx1 : (x0 :: x1 :: x ++ rest')[1]? = some x1 := rfl
    have hloop {k l : ℕ} (hs : Skips x0 x1 k l) := memmemLoop_first rest rest' hy
      (Nat.le_of_not_lt hlt) hs y.length noneBefore_zero (by omega) (by omega)
    rw [if_pos htwo, hx0, Option.bind_some, hx1, Option.bind_some]
    by_cases heq : x0 = x1
    · rw [if_pos heq]
      exact hloop (.inl ⟨heq, rfl, rfl⟩)
    · rw [if_neg heq]
      exact hloop (.inr ⟨heq, rfl, rfl⟩)

/-- Both find the first occurrence, whatever is in the memory past the haystack and the needle, and also
when nothing past them may be read. -/
theorem memmem_strstr_first {y x : List UInt8} (hy : y.length < 2 ^ 32) (hx : x ≠ []) :
    ∃ r, FirstOccurrence y x r
      ∧ (∀ rest rest', memmem (y ++ rest) y.length (x ++ rest') x.length = some r)
      ∧ (0 ∉ y → 0 ∉ x → ∀ rest rest', strstr (y ++ 0 :: rest) (x ++ 0 :: rest') = some r) := by
  obtain ⟨r, -, hr⟩ := memmem_first [] [] hy hx
  have hmem (rest rest' : List UInt8) :
      memmem (y ++ rest) y.length (x ++ rest') x.length = some r := by
    obtain ⟨r', hr', hfirst⟩ := memmem_first rest rest' hy hx
    rw [hr', hfirst.unique hr]
  refine ⟨r, hr, hmem, fun hy0 hx0 rest rest' => ?_⟩
  unfold strstr
  rw [strlen_eq rest hy0, Option.bind_some, strlen_eq rest' hx0, Option.bind_some]
  exact hmem _ _

/-- The needle twice, after an offset with its first byte only. -/
theorem memmem_strstr_first_twice : ∃ r, FirstOccurrence ([1, 1, 2, 1, 2] : List UInt8) [1, 2] r
    ∧ (∀ rest rest', memmem ([1, 1, 2, 1, 2] ++ rest) 5 ([1, 2] ++ rest') 2 = some r)
    ∧ ∀ rest rest', strstr ([1, 1, 2, 1, 2] ++ 0 :: rest) ([1, 2] ++ 0 :: rest') = some r := by
  obtain ⟨r, hr, hmem, hstr⟩ := memmem_strstr_first (y := [1, 1, 2, 1, 2]) (x := [1, 2]) (by decide)
    (by decide)
  exact ⟨r, hr, hmem, hstr (by decide) (by decide)⟩

end RTLKIM
