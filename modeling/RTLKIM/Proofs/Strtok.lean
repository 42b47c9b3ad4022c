import RTLKIM.Strtok

/-!
# The tokens are the pieces between the delimiters

The spans are counted up to the first byte that stops them, which `strpbrk` is for the delimiters. A call
of `strsep` takes the string up to its first delimiter, so the calls return the pieces one after the
other, the empty ones too.
-/

namespace RTLKIM

theorem fillMatchmap_eq : ∀ {map : List UInt8} (rest : List UInt8) (m : UInt8 → UInt8), (0 : UInt8) ∉ map →
    fillMatchmap (map ++ 0 :: rest) m = some fun c => if c ∈ map then 1 else m c
  | [], rest, m, _ => by simp [fillMatchmap]
  | d :: map, rest, m, h => by
    have hd : d ≠ 0 := fun heq => h (heq ▸ List.mem_cons_self)
    rw [List.cons_append, fillMatchmap, if_neg hd,
      fillMatchmap_eq rest _ fun hmem => h (List.mem_cons_of_mem d hmem)]
    refine congrArg some (funext fun c => ?_)
    by_cases hmem : c ∈ map
    · rw [if_pos hmem, if_pos (List.mem_cons_of_mem d hmem)]
    · by_cases hcd : c = d
      · rw [if_neg hmem, hcd, Function.update_self, if_pos List.mem_cons_self]
      · rw [if_neg hmem, Function.update_of_ne hcd, if_neg (by simp [hcd, hmem])]

/-- The bytes of `l` that the count goes over. -/
theorem spanLength_eq {matchmap : UInt8 → UInt8} {parity : UInt8} {c : UInt8} (rest : List UInt8)
    (hc : matchmap c ^^^ parity = 0) : ∀ {l : List UInt8}, (∀ x ∈ l, matchmap x ^^^ parity ≠ 0) →
    spanLength matchmap parity (l ++ c :: rest) = some l.length
  | [], _ => if_pos hc
  | x :: l, h => by
    rw [List.cons_append, spanLength, if_neg (h x List.mem_cons_self),
      spanLength_eq rest hc fun y hy => h y (List.mem_cons_of_mem x hy)]
    rfl

variable {delim l : List UInt8} {drest : List UInt8}

/-- `strspn` is the length of what the string begins with that is made of bytes of `accept`. -/
theorem strspn_eq {accept arest : List UInt8} (haccept : (0 : UInt8) ∉ accept) {c : UInt8} (rest : List UInt8)
    (hc : c ∉ accept) (hl : ∀ x ∈ l, x ∈ accept) :
    strspn (l ++ c :: rest) (accept ++ 0 :: arest) = some l.length := by
  unfold strspn strxspn
  rw [fillMatchmap_eq arest _ haccept, Option.bind_some]
  refine spanLength_eq rest ?_ fun x hx => ?_
  · by_cases h0 : c = 0
    · rw [h0, Function.update_self]
      rfl
    · rw [Function.update_of_ne h0, if_neg hc]
      rfl
  · have h0 : x ≠ 0 := fun heq => haccept (heq ▸ hl x hx)
    rw [Function.update_of_ne h0, if_pos (hl x hx)]
    decide

/-- `strcspn` is the length of what the string begins with that has no byte of `reject`. -/
theorem strcspn_eq (hdelim : (0 : UInt8) ∉ delim) {c : UInt8} (rest : List UInt8) (hc : c ∈ delim ∨ c = 0)
    (hl : ∀ x ∈ l, x ∉ delim ∧ x ≠ 0) :
    strcspn (l ++ c :: rest) (delim ++ 0 :: drest) = some l.length := by
  unfold strcspn strxspn
  rw [fillMatchmap_eq drest _ hdelim, Option.bind_some]
  refine spanLength_eq rest ?_ fun x hx => ?_
  · by_cases h0 : c = 0
    · rw [h0, Function.update_self]
      rfl
    · rw [Function.update_of_ne h0, if_pos (hc.resolve_right h0)]
      rfl
  · rw [Function.update_of_ne (hl x hx).2, if_neg (hl x hx).1]
    decide

/-- `strpbrk` on a string with no delimiter up to `c`, which is one or ends it. -/
theorem strpbrk_eq (hdelim : (0 : UInt8) ∉ delim) {c : UInt8} (rest : List UInt8) (hc : c ∈ delim ∨ c = 0)
    (hl : ∀ x ∈ l, x ∉ delim ∧ x ≠ 0) :
    strpbrk (l ++ c :: rest) (delim ++ 0 :: drest) = some (if c = 0 then none else some l.length) := by
  have hspan : strxspn (l ++ c :: rest) (delim ++ 0 :: drest) 1 = some l.length :=
    strcspn_eq hdelim rest hc hl
  unfold strpbrk
  rw [hspan, Option.bind_some, List.getElem?_append_right le_rfl, Nat.sub_self, List.getElem?_cons_zero]
  by_cases h0 : c = 0 <;> simp [h0]

namespace StrSep

variable {pre text rest : List UInt8}

theorem string_eq {h : StrSep} {a : List UInt8} (ha : (0 : UInt8) ∉ a) (hblock : h.block = pre ++ a ++ 0 :: rest) :
    h.string pre.length = a := by
  have hne : ∀ x ∈ a, decide (x ≠ 0) = true := fun x hx => by
    have h0 : x ≠ 0 := fun heq => ha (heq ▸ hx)
    simpa using h0
  unfold string
  rw [hblock, List.append_assoc, List.drop_left, List.takeWhile_append_of_pos hne,
    List.takeWhile_cons_of_neg (by simp), List.append_nil]

/-- The last piece. -/
theorem strsep_last (hdelim : (0 : UInt8) ∉ delim) (htext : (0 : UInt8) ∉ text) (hl : ∀ x ∈ text, x ∉ delim) :
    strsep ⟨pre ++ text ++ 0 :: rest, some pre.length⟩ (delim ++ 0 :: drest)
      = some (⟨pre ++ text ++ 0 :: rest, none⟩, some pre.length) := by
  unfold strsep
  dsimp only
  rw [List.append_assoc, List.drop_left,
    strpbrk_eq hdelim rest (.inr rfl) fun x hx => ⟨hl x hx, fun heq => htext (heq ▸ hx)⟩]
  rfl

/-- A piece before a delimiter `d`. -/
theorem strsep_cut (hdelim : (0 : UInt8) ∉ delim) {a : List UInt8} {d : UInt8} (hd : d ∈ delim)
    (ha : ∀ x ∈ a, x ∉ delim ∧ x ≠ 0) :
    strsep ⟨pre ++ (a ++ d :: text) ++ 0 :: rest, some pre.length⟩ (delim ++ 0 :: drest)
      = some (⟨(pre ++ a ++ [0]) ++ text ++ 0 :: rest, some (pre ++ a ++ [0]).length⟩, some pre.length) := by
  have hd0 : d ≠ 0 := fun heq => hdelim (heq ▸ hd)
  unfold strsep
  dsimp only
  rw [List.append_assoc, List.drop_left, List.append_assoc, List.cons_append,
    strpbrk_eq hdelim (text ++ 0 :: rest) (.inl hd) ha, if_neg hd0, Option.map_some]
  have hset : (pre ++ (a ++ d :: (text ++ 0 :: rest))).set (pre.length + a.length) 0
      = pre ++ a ++ [0] ++ text ++ 0 :: rest := by
    rw [← List.append_assoc, List.set_append_right _ _ (by rw [List.length_append]), List.length_append,
      Nat.sub_self, List.set_cons_zero]
    simp
  dsimp only
  rw [hset]
  simp [Nat.add_assoc]

/-- The calls with `NULL` once there is no string left. -/
theorem strtokNulls_none (delim block : List UInt8) : ∀ n,
    strtokNulls delim n ⟨block, none⟩ = some (⟨block, none⟩, List.replicate n none)
  | 0 => rfl
  | n + 1 => by
    have hstep : strtok ⟨block, none⟩ none delim = some (⟨block, none⟩, none) := rfl
    rw [strtokNulls, hstep, Option.bind_some]
    dsimp only
    rw [strtokNulls_none delim block n]
    rfl

/-- What the calls leave, and the strings that they return in the end. -/
structure Tokens (delim pre text rest : List UInt8) (h : StrSep) (ps : List (Option ℕ)) (n : ℕ) : Prop where
  frame : ∃ cut : List UInt8, cut.length = text.length ∧ h.block = pre ++ cut ++ 0 :: rest
  strings : ps.map (Option.map h.string) = (List.range n).map fun i => (text.splitOnP (· ∈ delim))[i]?

theorem strtokNulls_tokens (hdelim : (0 : UInt8) ∉ delim) : ∀ (n : ℕ) (pre text : List UInt8), (0 : UInt8) ∉ text →
    ∃ h ps, strtokNulls (delim ++ 0 :: drest) n ⟨pre ++ text ++ 0 :: rest, some pre.length⟩ = some (h, ps)
      ∧ Tokens delim pre text rest h ps n
  | 0, pre, text, _ => ⟨_, _, rfl, ⟨⟨text, rfl, rfl⟩, rfl⟩⟩
  | n + 1, pre, text, htext => by
    cases hfind : text.find? (· ∈ delim) with
    | none =>
      have hl : ∀ x ∈ text, x ∉ delim := fun x hx => by simpa using List.find?_eq_none.1 hfind x hx
      have hstep : strtok ⟨pre ++ text ++ 0 :: rest, some pre.length⟩ none (delim ++ 0 :: drest) = _ :=
        strsep_last hdelim htext hl
      rw [strtokNulls, hstep, Option.bind_some]
      dsimp only
      rw [strtokNulls_none]
      refine ⟨_, _, rfl, ⟨text, rfl, rfl⟩, ?_⟩
      rw [List.splitOnP_eq_singleton fun x hx => by simpa using hl x hx, List.range_succ_eq_map, List.map_cons,
        List.map_cons, Option.map_some, string_eq htext rfl, List.map_map]
      refine congrArg _ (List.ext_getElem (by simp) fun i hi hi' => ?_)
      simp
    | some d =>
      obtain ⟨hd, a, t, rfl, ha⟩ := List.find?_eq_some_iff_append.1 hfind
      have hd : d ∈ delim := by simpa using hd
      have ha : ∀ x ∈ a, x ∉ delim := fun x hx => by simpa using ha x hx
      have ha0 : (0 : UInt8) ∉ a := fun hx => htext (List.mem_append_left _ hx)
      have ht0 : (0 : UInt8) ∉ t := fun hx => htext (List.mem_append_right a (List.mem_cons_of_mem d hx))
      have hstep : strtok ⟨pre ++ (a ++ d :: t) ++ 0 :: rest, some pre.length⟩ none (delim ++ 0 :: drest) = _ :=
        strsep_cut hdelim hd fun x hx => ⟨ha x hx, fun heq => ha0 (heq ▸ hx)⟩
      obtain ⟨h, ps, hrun, ⟨cut, hlen, hblock⟩, hstrings⟩ :=
        strtokNulls_tokens hdelim n (pre ++ a ++ [0]) t ht0
      rw [strtokNulls, hstep, Option.bind_some]
      dsimp only
      rw [hrun]
      have hfirst : h.string pre.length = a := @string_eq pre (cut ++ 0 :: rest) h a ha0 (by simp [hblock])
      refine ⟨h, some pre.length :: ps, rfl, ⟨a ++ 0 :: cut, by simp [hlen], by simp [hblock]⟩, ?_⟩
      rw [List.splitOnP_append_cons_of_forall_mem (fun x hx => by simpa using ha x hx) d (by simpa using hd),
        List.range_succ_eq_map, List.map_cons, List.map_cons, Option.map_some, hfirst, hstrings, List.map_map]
      rfl

/-- `strtok`, with the string and then `n` times with `NULL`, gives the pieces between the delimiters, and `NULL`
from then on. -/
theorem strtokCalls_tokens {delim text : List UInt8} (drest pre rest : List UInt8) (holder : Option ℕ)
    (hdelim : (0 : UInt8) ∉ delim) (htext : (0 : UInt8) ∉ text) (n : ℕ) :
    ∃ h ps, strtokCalls ⟨pre ++ text ++ 0 :: rest, holder⟩ pre.length (delim ++ 0 :: drest) n = some (h, ps)
      ∧ Tokens delim pre text rest h ps (n + 1) :=
  strtokNulls_tokens hdelim (n + 1) pre text htext

/-- `strtok("a,,b", ",")`, and three calls more. -/
theorem strtokCalls_tokens_empty : ∃ h ps,
    strtokCalls ⟨[97, 44, 44, 98, 0, 120], none⟩ 0 [44, 0] 3 = some (h, ps)
      ∧ Tokens [44] [] [97, 44, 44, 98] [120] h ps 4 :=
  @strtokCalls_tokens [44] [97, 44, 44, 98] [] [] [120] none (by decide) (by decide) 3

end StrSep

end RTLKIM
