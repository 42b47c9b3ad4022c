import RTLKIM.Proofs.SignedFormat

/-!
# Where the characters go

Each character of a format does what the directives say of it, when the outputs are one. The strings
of `%s` are the only characters that are put on the current output.
-/

namespace RTLKIM

open Directive

theorem digit_of_isDigit {c : Char} (h : c.isDigit = true) : ∃ d < 10, c = Nat.digitChar d := by
  rw [Char.isDigit_iff_toNat] at h
  have hle : 48 ≤ c.toNat ∧ c.toNat ≤ 57 := h
  have hc := Char.ofNat_toNat c
  obtain ⟨h48, h57⟩ := hle
  generalize c.toNat = n at hc h48 h57
  subst hc
  refine ⟨n - 48, by omega, ?_⟩
  interval_cases n
  all_goals rfl

namespace Formater

variable {ω : Type} {currentOutput usedOutput : ω} {stringAt : UInt32 → List Char} {s : Formater ω}
  {c : Char} {flags : Flags} {args more : List UInt32} {out : List (ω × Char)} {n : ℕ}

/-! ## Directives -/

/-- The variables within a conversion or out of one. -/
def reading (flags : Option Flags) (args : List UInt32) (out : List (ω × Char)) : Formater ω :=
  match flags with
  | none => start args out
  | some flags => ⟨true, flags.size, flags.width, false, flags.pad, args, out⟩

/-- The length that `GET_SEQ_VAL` goes by. -/
theorem capped_eq (size : ℕ) :
    (if 8 < size then 8 else size) = if 8 ≤ size then 8 else size := by
  split_ifs <;> omega

theorem getSeqVal_none (h : flags.number args = none) (upper : Bool) (out : List (ω × Char)) :
    getSeqVal ⟨true, flags.size, flags.width, upper, flags.pad, args, out⟩ = none := by
  unfold Flags.number at h
  unfold getSeqVal
  simp only [capped_eq]
  split_ifs at h with h8
  · rw [if_pos h8, if_pos rfl]
    rcases args with _ | ⟨low, _ | ⟨high, args⟩⟩
    · rfl
    · rfl
    · cases h
  · rw [if_neg h8, if_neg (by omega)]
    rcases args with _ | ⟨arg, args⟩
    · rfl
    · cases h

theorem getSeqVal_some (h : flags.number args = some (n, more)) (upper : Bool) (out : List (ω × Char)) :
    ∃ seqVal size, getSeqVal ⟨true, flags.size, flags.width, upper, flags.pad, args, out⟩
        = some (seqVal, ⟨true, size, flags.width, upper, flags.pad, more, out⟩)
      ∧ seqVal.toNat = n := by
  unfold Flags.number at h
  unfold getSeqVal
  simp only [capped_eq]
  split_ifs at h with h8
  · rw [if_pos h8, if_pos rfl]
    rcases args with _ | ⟨low, _ | ⟨high, args⟩⟩
    · cases h
    · cases h
    · cases h
      refine ⟨_, _, rfl, ?_⟩
      rw [low_word]
  · rw [if_neg h8, if_neg (by omega)]
    rcases args with _ | ⟨arg, args⟩
    · cases h
    · cases h
      refine ⟨_, _, rfl, ?_⟩
      unfold Flags.narrow
      split_ifs
      · exact (UInt32.toNat_and _ _).trans (Nat.and_two_pow_sub_one_eq_mod _ 8)
      · exact (UInt32.toNat_and _ _).trans (Nat.and_two_pow_sub_one_eq_mod _ 16)
      · rfl

/-- What a directive outputs, and the variables after it. -/
def printing (usedOutput : ω) (stringAt : UInt32 → List Char) (args : List UInt32)
    (out : List (ω × Char)) (directive : Directive) : Option (Formater ω) :=
  (directive.printed stringAt args).map fun r =>
    start r.2 (out ++ r.1.map fun c => (usedOutput, c))

theorem printU_number (usedOutput : ω) (stringAt : UInt32 → List Char) (flags : Flags)
    (args : List UInt32) (out : List (ω × Char)) :
    (printU usedOutput ⟨true, flags.size, flags.width, false, flags.pad, args, out⟩).map reinit
      = printing usedOutput stringAt args out (.number flags .decimal) := by
  simp only [printing, printed]
  rcases h : flags.number args with _ | ⟨n, more⟩
  · unfold printU printSeq
    rw [getSeqVal_none h]
    rfl
  · obtain ⟨seqVal, size, hval, rfl⟩ := getSeqVal_some h false out
    exact printU_eq usedOutput hval

theorem printX_number (usedOutput : ω) (stringAt : UInt32 → List Char) (flags : Flags) (upper : Bool)
    (args : List UInt32) (out : List (ω × Char)) :
    (printX usedOutput ⟨true, flags.size, flags.width, upper, flags.pad, args, out⟩).map reinit
      = printing usedOutput stringAt args out
        (.number flags (if upper then .upperHex else .lowerHex)) := by
  simp only [printing, printed]
  rcases h : flags.number args with _ | ⟨n, more⟩
  · unfold printX printSeq
    rw [getSeqVal_none h]
    rfl
  · obtain ⟨seqVal, size, hval, rfl⟩ := getSeqVal_some h upper out
    exact printX_eq usedOutput hval

theorem printC_char (usedOutput : ω) (stringAt : UInt32 → List Char) (flags : Flags)
    (args : List UInt32) (out : List (ω × Char)) :
    (printC usedOutput ⟨true, flags.size, flags.width, false, flags.pad, args, out⟩).map reinit
      = printing usedOutput stringAt args out .char := by
  rcases args with _ | ⟨arg, args⟩
  · rfl
  · have hbyte : (arg &&& 0xFF).toNat = arg.toNat % 2 ^ 8 :=
      (UInt32.toNat_and _ _).trans (Nat.and_two_pow_sub_one_eq_mod _ 8)
    have hmod : (arg &&& 0xFF).toNat % 2 ^ 8 = arg.toNat % 2 ^ 8 := by
      rw [hbyte, Nat.mod_mod]
    simp only [printing, printed, List.head?_cons, Option.map_some, List.tail_cons]
    rw [← hmod]
    rfl

/-- The end of a conversion. -/
theorem formatChar_ofChar {directive : Directive} (h : ofChar flags c = some directive) :
    formatChar usedOutput usedOutput stringAt (reading (some flags) args out) c
      = printing usedOutput stringAt args out directive := by
  unfold ofChar at h
  split at h
  · cases h
    rfl
  · cases h
    exact printC_char usedOutput stringAt flags args out
  · cases h
    rcases args with _ | ⟨arg, args⟩
    · rfl
    · rfl
  · cases h
    exact (congrArg (Option.map reinit) (printD_eq usedOutput _)).trans
      (printU_number usedOutput stringAt flags args out)
  · cases h
    exact (congrArg (Option.map reinit) (printD_eq usedOutput _)).trans
      (printU_number usedOutput stringAt flags args out)
  · cases h
    exact printU_number usedOutput stringAt flags args out
  · cases h
    exact printX_number usedOutput stringAt flags false args out
  · cases h
    exact printX_number usedOutput stringAt flags true args out
  · cases h
    exact printX_number usedOutput stringAt ⟨4, 8, '0'⟩ false args out
  · cases h
    exact printX_number usedOutput stringAt ⟨4, 8, '0'⟩ true args out
  · cases h

/-- A character within a conversion that is not its end. -/
theorem formatChar_modify (h : ofChar flags c = none) :
    formatChar currentOutput usedOutput stringAt (reading (some flags) args out) c
      = some (reading (some (flags.modify c)) args out) := by
  have hpercent : c ≠ '%' := by
    rintro rfl
    cases h
  have hspecify : specify currentOutput usedOutput stringAt (reading (some flags) args out) c
      = some (reading (some (flags.modify c)) args out) := by
    unfold specify
    split
    · rfl
    · rfl
    -- no end of a conversion
    all_goals try (cases h; done)
    · by_cases hwidth : flags.width = 0
      · have hflag : flags.modify '0' = { flags with pad := '0' } := by
          simp [Flags.modify, hwidth]
        rw [hflag]
        exact if_pos hwidth
      · have hdigit : flags.modify '0' = { flags with width := flags.width * 10 % 2 ^ 8 } := by
          simp [Flags.modify, hwidth]
        rw [hdigit]
        exact if_neg hwidth
    -- the digits from 1 on; then a character that says nothing
    all_goals try rfl
    have hother : flags.modify c = flags := by
      unfold Flags.modify
      rw [if_neg ‹_›, if_neg ‹_›, if_neg fun h => ‹c ≠ '0'› h.1, if_neg]
      intro hdigit
      obtain ⟨d, hd, rfl⟩ := digit_of_isDigit hdigit
      interval_cases d
      all_goals contradiction
    rw [hother]
  unfold formatChar
  rw [if_neg hpercent]
  exact hspecify

/-! ## A whole format -/

/-- A run on one output prints what the directives prescribe. -/
theorem run_prescribed (usedOutput : ω) (stringAt : UInt32 → List Char) :
    ∀ (l : List Char) (flags : Option Flags) (args : List UInt32) (out : List (ω × Char)),
      (l.foldlM (formatChar usedOutput usedOutput stringAt) (reading flags args out)).map (·.out)
        = (prescribed stringAt (ofFormat flags l) args).map fun chars =>
          out ++ chars.map fun c => (usedOutput, c)
  | [], none, args, out => by
    simp [ofFormat, prescribed, reading, start]
  | [], some flags, args, out => by
    simp [ofFormat, prescribed, reading]
  | c :: l, none, args, out => by
    rw [List.foldlM_cons, ofFormat]
    by_cases hc : c = '%'
    · have hstep : formatChar usedOutput usedOutput stringAt (reading none args out) c
          = some (reading (some .unset) args out) := if_pos hc
      rw [if_pos hc, hstep]
      exact run_prescribed usedOutput stringAt l _ args out
    · have hstep : formatChar usedOutput usedOutput stringAt (reading none args out) c
          = some (reading none args (out ++ [(usedOutput, c)])) := if_neg hc
      rw [if_neg hc, hstep, Option.bind_eq_bind, Option.bind_some, run_prescribed usedOutput stringAt l,
        prescribed, printed, Option.bind_some, Option.map_map]
      simp [Function.comp_def]
  | c :: l, some flags, args, out => by
    rw [List.foldlM_cons, ofFormat]
    rcases h : ofChar flags c with _ | directive
    · rw [formatChar_modify h, Option.bind_eq_bind, Option.bind_some]
      exact run_prescribed usedOutput stringAt l _ args out
    · rw [formatChar_ofChar h, prescribed, printing]
      rcases directive.printed stringAt args with _ | ⟨chars, more⟩
      · rfl
      rw [Option.map_some, Option.bind_eq_bind, Option.bind_some, Option.bind_some, Option.map_map]
      refine (run_prescribed usedOutput stringAt l none more _).trans ?_
      simp [Function.comp_def]

/-! ## Strings -/

theorem formatChar_s (currentOutput usedOutput : ω) (hmod : s.modifier = true) :
    formatChar currentOutput usedOutput stringAt s 's'
      = (s.printS currentOutput stringAt).map reinit := by
  unfold formatChar
  rw [hmod]
  rfl

/-- Where no string is printed the current output does not matter. -/
theorem formatChar_quiet (currentOutput usedOutput : ω)
    (h : currentOutput = usedOutput ∨ ¬ s.PrintsString stringAt c) :
    formatChar currentOutput usedOutput stringAt s c
      = formatChar usedOutput usedOutput stringAt s c := by
  rcases h with rfl | h
  · rfl
  by_cases hmod : s.modifier = true
  · by_cases hc : c = 's'
    · subst hc
      rw [formatChar_s _ _ hmod, formatChar_s _ _ hmod]
      unfold printS
      rcases hargs : s.args with _ | ⟨arg, args⟩
      · rfl
      · have hempty : text (stringAt arg) = [] := by
          by_contra hne
          exact h ⟨hmod, rfl, arg, args, hargs, hne⟩
        simp only [vaArg32, Option.map_some, puts, hempty, List.map_nil]
    · have hspecify : s.specify currentOutput usedOutput stringAt c
          = s.specify usedOutput usedOutput stringAt c := by
        unfold specify
        split
        all_goals first | rfl | exact absurd rfl hc
      unfold formatChar
      rw [hspecify]
  · unfold formatChar
    rw [if_neg hmod, if_neg hmod, if_neg hmod]

/-- A string is put on the current output. -/
theorem formatChar_string (currentOutput usedOutput : ω) (h : s.PrintsString stringAt c) :
    ∃ s' ch, formatChar currentOutput usedOutput stringAt s c = some s'
      ∧ (currentOutput, ch) ∈ s'.out := by
  obtain ⟨hmod, rfl, arg, args, hargs, hne⟩ := h
  obtain ⟨ch, l, hl⟩ := List.exists_cons_of_ne_nil hne
  refine ⟨(puts { s with args := args } currentOutput (stringAt arg)).reinit, ch, ?_, ?_⟩
  · rw [formatChar_s _ _ hmod, printS, hargs]
    rfl
  · refine List.mem_append_right _ (List.mem_map.2 ⟨ch, ?_, rfl⟩)
    rw [hl]
    exact List.mem_cons_self

/-! ## The result -/

/-- A run on which no string is printed is one on the output of the call. -/
theorem run_quiet {args : List UInt32} (l : List Char) :
    (∀ l₁ c l₂ s₁, l = l₁ ++ c :: l₂ →
      l₁.foldlM (formatChar currentOutput usedOutput stringAt) (start args []) = some s₁ →
      currentOutput = usedOutput ∨ ¬ s₁.PrintsString stringAt c) →
    l.foldlM (formatChar currentOutput usedOutput stringAt) (start args [])
      = l.foldlM (formatChar usedOutput usedOutput stringAt) (start args []) := by
  induction l using List.reverseRecOn with
  | nil => exact fun _ => rfl
  | append_singleton l c ih =>
    intro hquiet
    rw [List.foldlM_append, List.foldlM_append,
      ← ih fun l₁ d l₂ s₁ hl => hquiet l₁ d (l₂ ++ [c]) s₁ (by rw [hl]; simp)]
    rcases h : l.foldlM (formatChar currentOutput usedOutput stringAt) (start args []) with _ | s
    · rfl
    · rw [Option.bind_eq_bind, Option.bind_some, Option.bind_some, List.foldlM_cons, List.foldlM_cons,
        formatChar_quiet _ _ (hquiet l c [] s rfl h)]
      rfl

/-- What a call outputs is what the format prescribes, all on its own output, if and only if that is the
current one or no string with a character in it comes to be printed. -/
theorem routed_iff (currentOutput usedOutput : ω) (stringAt : UInt32 → List Char) (str : List Char)
    (args : List UInt32) : Routed currentOutput usedOutput stringAt str args
      ↔ currentOutput = usedOutput ∨ ∀ l c l' s, text str = l ++ c :: l' →
        l.foldlM (formatChar currentOutput usedOutput stringAt) (start args []) = some s →
        ¬ s.PrintsString stringAt c := by
  constructor
  · intro h
    refine or_iff_not_imp_left.2 fun hne l c l' s hl hs hprints => ?_
    obtain ⟨s', ch, hstep, hmem⟩ := formatChar_string currentOutput usedOutput hprints
    have hrun : (l ++ [c]).foldlM (formatChar currentOutput usedOutput stringAt) (start args [])
        = some s' := by
      rw [List.foldlM_append, hs, Option.bind_eq_bind, Option.bind_some, List.foldlM_cons, hstep]
      rfl
    obtain ⟨chars, -, hout⟩ := h (l ++ [c]) s' ⟨l', by rw [hl]; simp⟩ hrun
    rw [hout] at hmem
    obtain ⟨e, -, he⟩ := List.mem_map.1 hmem
    exact hne (congrArg Prod.fst he).symm
  · rintro h l s ⟨l', hl⟩ hs
    have hprescribed := run_prescribed usedOutput stringAt l none args []
    have hquiet : _ = l.foldlM (formatChar usedOutput usedOutput stringAt) (start args []) :=
      run_quiet l fun l₁ c l₂ s₁ hl₁ hs₁ =>
        h.imp_right fun h => h l₁ c (l₂ ++ l') s₁ (by rw [← hl, hl₁]; simp) hs₁
    rw [reading, ← hquiet, hs, Option.map_some] at hprescribed
    obtain ⟨chars, hchars, hout⟩ := Option.map_eq_some_iff.1 hprescribed.symm
    exact ⟨chars, hchars, hout.symm⟩

/-- `%s` on the serial port, with the console as the current output. -/
theorem not_routed :
    kprintFmtSerial false true (fun _ => ['a', nul]) ['%', 's', nul] [0] = some [(true, 'a')]
      ∧ ¬ Routed true false (fun _ => ['a', nul]) ['%', 's', nul] [0] := by
  have hrun : ['%', 's'].foldlM (formatChar true false fun _ => ['a', nul]) (start [0] [])
      = some (start [] [(true, 'a')]) := rfl
  refine ⟨rfl, fun h => ?_⟩
  obtain ⟨chars, -, hout⟩ := h ['%', 's'] _ ⟨[], rfl⟩ hrun
  have hmem : (true, 'a') ∈ chars.map fun c => (false, c) := by
    rw [← hout]
    exact List.mem_singleton_self _
  obtain ⟨e, -, he⟩ := List.mem_map.1 hmem
  exact Bool.false_ne_true (congrArg Prod.fst he)

/-- A call on one output outputs what the format prescribes. -/
theorem formater_prescribed (usedOutput : ω) (stringAt : UInt32 → List Char) (str : List Char)
    (args : List UInt32) : formater usedOutput usedOutput stringAt str args
      = (prescribed stringAt (ofFormat none (text str)) args).map fun chars =>
        chars.map fun c => (usedOutput, c) :=
  run_prescribed usedOutput stringAt (text str) none args []

/-- `kprint_fmt` is right on every format, as it passes the current output. -/
theorem kprintFmt_eq (currentOutput : ω) (stringAt : UInt32 → List Char) (str : List Char)
    (args : List UInt32) : kprintFmt currentOutput stringAt str args
      = (prescribed stringAt (ofFormat none (text str)) args).map fun chars =>
        chars.map fun c => (currentOutput, c) :=
  formater_prescribed currentOutput stringAt str args

/-- What is prescribed by the items of a format. -/
theorem prescribed_items (stringAt : UInt32 → List Char) (items : List Item) (more : List UInt32) :
    prescribed stringAt (ofFormat none (items.flatMap Item.format)) (items.flatMap Item.args ++ more)
      = some (items.flatMap Item.printed) := by
  have hitems := formater_items () () stringAt items [] more
  have hinj : Function.Injective fun c : Char => ((), c) := fun c c' h => congrArg Prod.snd h
  rw [formater_prescribed, text_append (nul_notMem_format items)] at hitems
  obtain ⟨chars, hchars, hmap⟩ := Option.map_eq_some_iff.1 hitems
  rw [hchars, List.map_injective_iff.2 hinj hmap]

end Formater

end RTLKIM
