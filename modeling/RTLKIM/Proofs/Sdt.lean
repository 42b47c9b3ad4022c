import RTLKIM.Proofs.Madt

/-!
# The RSDT and the XSDT

The counter of their checksum has 8 bits, so it is below a length of 256 or more for ever, and only the
descriptor is mapped before it; the loop over the pointers goes one further than the last that is wholly
in the table if the table ends within one.
-/

namespace RTLKIM

/-! ## Steps of one size -/

/-- The positions a size apart, as many as begin before the limit. -/
theorem track_steps {limit size : ℕ} (hlimit : limit + size ≤ 2 ^ 32) : ∀ (n p : ℕ),
    limit ≤ p + n * size → (∀ k < n, p + k * size < limit) →
    Track (fun p => add32 p size) limit p ((List.range n).map fun k => p + k * size)
  | 0, p, h, _ => by simpa [Track] using h
  | n + 1, p, h, hlt => by
    have hp : p < limit := by simpa using hlt 0 (Nat.succ_pos n)
    have hadd : add32 p size = p + size := add32_of_lt (by omega)
    have hsucc : ∀ k, p + (k + 1) * size = p + size + k * size := by
      intro k
      rw [Nat.succ_mul]
      omega
    rw [List.range_succ_eq_map, List.map_cons, List.map_map]
    refine ⟨by simp, hp, ?_⟩
    simp only [hadd]
    have htail := track_steps hlimit n (p + size) (by rw [← hsucc]; exact h)
      fun k hk => by rw [← hsucc]; exact hlt (k + 1) (Nat.succ_lt_succ hk)
    convert htail using 2
    funext k
    exact hsucc k

variable {ρ : Type} {mem : ℕ → UInt8} {hw : HwPages ρ} {sig size sdtPtr : ℕ}

/-- The pointer in which the table ends, if there is one. -/
def cutPointer (mem : ℕ → UInt8) (sdtPtr size : ℕ) : List ℕ :=
  let n := (tableLength mem sdtPtr - sizeofAcpiHeader) / size
  if (tableLength mem sdtPtr - sizeofAcpiHeader) % size = 0 then []
  else [sdtPtr + sizeofAcpiHeader + n * size]

/-- What the loop over the pointers goes along. -/
theorem track_pointers (hsize : 0 < size) (hmax : size ≤ 8)
    (hspace : sdtPtr + tableLength mem sdtPtr ≤ pagingRecurPgTable) :
    Track (fun p => add32 p size) (tableLimit mem sdtPtr) (add32 sdtPtr sizeofAcpiHeader)
      (wholePointers mem sdtPtr size ++ cutPointer mem sdtPtr size) := by
  have hspace' : sdtPtr + tableLength mem sdtPtr ≤ 0xFFC00000 := hspace
  have hlimit : tableLimit mem sdtPtr = sdtPtr + tableLength mem sdtPtr := add32_of_lt (by omega)
  have hentry : add32 sdtPtr sizeofAcpiHeader = sdtPtr + sizeofAcpiHeader :=
    add32_of_lt (by simp only [sizeofAcpiHeader]; omega)
  have hdiv := Nat.div_add_mod (tableLength mem sdtPtr - sizeofAcpiHeader) size
  have hmod := Nat.mod_lt (tableLength mem sdtPtr - sizeofAcpiHeader) hsize
  have hmono : ∀ {j k : ℕ}, j ≤ k → j * size ≤ k * size := fun h => Nat.mul_le_mul_right size h
  rw [hentry, hlimit]
  unfold wholePointers cutPointer
  simp only [sizeofAcpiHeader] at hdiv hmod ⊢
  generalize (tableLength mem sdtPtr - 36) / size = n at hdiv ⊢
  rw [Nat.mul_comm] at hdiv
  split_ifs with hrest
  · rw [List.append_nil]
    refine track_steps (by omega) n _ (by omega) fun k hk => ?_
    have hle := hmono hk
    rw [Nat.succ_mul] at hle
    omega
  · have hconcat : (List.range n).map (fun k => sdtPtr + 36 + k * size) ++ [sdtPtr + 36 + n * size]
        = (List.range (n + 1)).map fun k => sdtPtr + 36 + k * size := by
      rw [List.range_succ, List.map_append]
      rfl
    rw [hconcat]
    have hsucc : (n + 1) * size = n * size + size := Nat.succ_mul n size
    refine track_steps (by omega) (n + 1) _ (by omega) fun k hk => ?_
    have hle := hmono (Nat.le_of_lt_succ hk)
    omega

theorem cutPointer_ne_nil : cutPointer mem sdtPtr size ≠ [] ↔ CutOff mem sdtPtr size := by
  unfold cutPointer CutOff
  by_cases hrest : (tableLength mem sdtPtr - sizeofAcpiHeader) % size = 0
  · simp [hrest]
  · have hlt : sizeofAcpiHeader < tableLength mem sdtPtr := by
      by_contra hle
      rw [Nat.sub_eq_zero_of_le (Nat.le_of_not_lt hle), Nat.zero_mod] at hrest
      exact hrest rfl
    simp [hrest, hlt]

namespace Acpi

variable {s s' : Acpi ρ} {l : List ℕ}

/-! ## The loop over the pointers -/

/-- The pointers gone over are added to those before. -/
theorem visited_grows : ∀ (l : List ℕ) {s : Acpi ρ} {visited : List ℕ} {err : AcpiErr}
    {r : Acpi ρ × List ℕ × AcpiErr},
    strideOver (parsePointer mem hw size) (s, visited, err) l = some r →
      ∃ more, r.2.1 = visited ++ more ∧ (l ≠ [] → more ≠ [])
  | [], s, visited, err, r, h => by
    cases h
    exact ⟨[], (List.append_nil _).symm, fun h => absurd rfl h⟩
  | p :: l, s, visited, err, r, h => by
    obtain ⟨⟨⟨s₁, visited₁, err₁⟩, brk⟩, h1, h⟩ := Option.bind_eq_some_iff.1 h
    obtain ⟨⟨s₂, err₂⟩, -, hp⟩ := Option.map_eq_some_iff.1 h1
    cases hp
    dsimp only at h
    split_ifs at h with hbrk
    · cases h
      exact ⟨[p], rfl, fun _ => List.cons_ne_nil _ _⟩
    · obtain ⟨more, hmore, -⟩ := visited_grows l h
      exact ⟨p :: more, by rw [hmore, List.append_assoc]; rfl, fun _ => List.cons_ne_nil _ _⟩

theorem pointersEnd_nil {more : Prop} : PointersEnd mem hw size s [] more ↔ ¬ more := by
  constructor
  · rintro (⟨-, h⟩ | ⟨l₁, p, s₁, s₂, err, hl, -⟩)
    · exact h
    · simp at hl
  · exact fun h => .inl ⟨rfl, h⟩

theorem pointersEnd_cons {p : ℕ} {more : Prop} : PointersEnd mem hw size s (p :: l) more
    ↔ ∃ s₁ err, s.parseDtAt mem hw size p = some (s₁, err)
      ∧ if err = .noErr then PointersEnd mem hw size s₁ l more else l = [] := by
  constructor
  · rintro (⟨h, -⟩ | ⟨l₁, q, s₁, s₂, err, hl, hparses, hlast, hmore⟩)
    · simp at h
    · rcases l₁ with _ | ⟨a, l₁⟩
      · obtain ⟨rfl, rfl⟩ : p = q ∧ l = [] := by simpa using hl
        obtain rfl : s₁ = s := hparses
        refine ⟨s₂, err, hlast, ?_⟩
        split_ifs with herr
        · exact pointersEnd_nil.2 fun h => hmore h herr
        · rfl
      · obtain ⟨rfl, rfl⟩ : p = a ∧ l = l₁ ++ [q] := by simpa using hl
        obtain ⟨t, ht, hparses⟩ := hparses
        refine ⟨t, .noErr, ht, ?_⟩
        rw [if_pos rfl]
        exact .inr ⟨l₁, q, s₁, s₂, err, rfl, hparses, hlast, hmore⟩
  · rintro ⟨s₁, err, hp, h⟩
    split_ifs at h with herr
    · subst herr
      rcases h with ⟨rfl, hmore⟩ | ⟨l₁, q, s₂, s₃, err, rfl, hparses, hlast, hmore⟩
      · exact .inr ⟨[], p, s, s₁, .noErr, rfl, rfl, hp, fun h => absurd h hmore⟩
      · exact .inr ⟨p :: l₁, q, s₂, s₃, err, rfl, ⟨s₁, hp, hparses⟩, hlast, hmore⟩
    · subst h
      exact .inr ⟨[], p, s, s₁, err, rfl, rfl, hp, fun _ => herr⟩

/-- The loop goes over exactly the first ones of the pointers. -/
theorem parse_over : ∀ (l : List ℕ) (s : Acpi ρ) (visited more : List ℕ) (err : AcpiErr),
    (∃ s' err', strideOver (parsePointer mem hw size) (s, visited, err) (l ++ more)
      = some (s', visited ++ l, err')) ↔ PointersEnd mem hw size s l (more ≠ [])
  | [], s, visited, [], err => by
    rw [pointersEnd_nil]
    exact iff_of_true ⟨s, err, by rw [List.append_nil, List.append_nil]; rfl⟩ (by simp)
  | [], s, visited, q :: more, err => by
    rw [pointersEnd_nil]
    refine iff_of_false ?_ (by simp)
    rintro ⟨s', err', h⟩
    obtain ⟨new, hnew, hne⟩ := visited_grows _ h
    rw [List.append_right_inj] at hnew
    exact hne (List.cons_ne_nil _ _) hnew.symm
  | p :: l, s, visited, more, err => by
    have hstep : strideOver (parsePointer mem hw size) (s, visited, err) (p :: l ++ more)
        = (s.parseDtAt mem hw size p).bind fun r =>
          if r.2 ≠ .noErr then some (r.1, visited ++ [p], r.2)
          else strideOver (parsePointer mem hw size) (r.1, visited ++ [p], r.2) (l ++ more) := by
      rw [List.cons_append, strideOver, parsePointer, Option.bind_map]
      congr 1
      funext r
      simp only [Function.comp, decide_eq_true_eq]
    rw [hstep, pointersEnd_cons]
    rcases hdt : s.parseDtAt mem hw size p with _ | ⟨s₁, err₁⟩
    · simp
    rw [Option.bind_some]
    have hcons : visited ++ [p] ++ l = visited ++ p :: l := List.append_assoc _ _ _
    by_cases herr : err₁ = .noErr
    · subst herr
      have hiff := parse_over l s₁ (visited ++ [p]) more .noErr
      rw [hcons] at hiff
      rw [if_neg (not_not_intro rfl), hiff]
      constructor
      · exact fun h => ⟨s₁, .noErr, rfl, by rw [if_pos rfl]; exact h⟩
      · rintro ⟨s₂, err₂, hr, h⟩
        cases hr
        rwa [if_pos rfl] at h
    · rw [if_pos herr]
      constructor
      · rintro ⟨s', err', h⟩
        refine ⟨s₁, err₁, rfl, ?_⟩
        rw [if_neg herr]
        have hvisited : visited ++ [p] = visited ++ p :: l := congrArg (·.2.1) (Option.some.inj h)
        simpa using hvisited.symm
      · rintro ⟨s₂, err₂, hr, h⟩
        cases hr
        rw [if_neg herr] at h
        subst h
        exact ⟨s₁, err₁, rfl⟩

/-! ## What was read does not matter -/

/-- A function of the data does the same whatever was read before. -/
def Blind {α : Type} (f : Acpi ρ → Option (Acpi ρ × α)) : Prop :=
  ∀ s reads r, f s = some r → ∃ reads', f { s with reads := reads } = some ({ r.1 with reads := reads' }, r.2)

section Blind

variable {α β : Type} {f : Acpi ρ → Option (Acpi ρ × α)}

theorem blind_pure (a : α) : Blind fun s : Acpi ρ => some (s, a) := by
  rintro s reads r ⟨⟩
  exact ⟨reads, rfl⟩

theorem Blind.touch (hf : Blind f) (a n : ℕ) : Blind fun s => (s.touch hw a n).bind f := by
  intro s reads r h
  obtain ⟨s₁, h1, h2⟩ := Option.bind_eq_some_iff.1 h
  obtain ⟨hc, rfl⟩ := touch_eq_some h1
  obtain ⟨reads', h2⟩ := hf _ ((a, n) :: reads) r h2
  exact ⟨reads', Option.bind_eq_some_iff.2 ⟨_, touch_eq (s := { s with reads := reads }) hc, h2⟩⟩

theorem Blind.bind {g : Acpi ρ × α → Option (Acpi ρ × β)} (hf : Blind f)
    (hg : ∀ a, Blind fun s => g (s, a)) : Blind fun s => (f s).bind g := by
  intro s reads r h
  obtain ⟨⟨s₁, a⟩, h1, h2⟩ := Option.bind_eq_some_iff.1 h
  obtain ⟨reads₁, h1⟩ := hf s reads _ h1
  obtain ⟨reads₂, h2⟩ := hg a s₁ reads₁ r h2
  exact ⟨reads₂, Option.bind_eq_some_iff.2 ⟨_, h1, h2⟩⟩

theorem Blind.touch_map (a n : ℕ) (b : α) : Blind fun s => (s.touch hw a n).map fun s => (s, b) := by
  simpa only [Option.map_eq_bind, Function.comp_def] using (blind_pure b).touch a n

theorem Blind.ite {g : Acpi ρ → Option (Acpi ρ × α)} {c : Prop} [Decidable c] (hf : Blind f)
    (hg : Blind g) : Blind fun s => if c then f s else g s := by
  split_ifs
  · exact hf
  · exact hg

theorem blind_mapData (a n : ℕ) : Blind fun s : Acpi ρ => s.mapData hw a n := by
  intro s reads r h
  obtain ⟨⟨pages, err⟩, h1, rfl⟩ := Option.map_eq_some_iff.1 h
  exact ⟨reads, Option.map_eq_some_iff.2 ⟨_, h1, rfl⟩⟩

theorem blind_checksum (wi ws table : ℕ) : Blind fun s : Acpi ρ => s.checksum mem hw wi ws table := by
  have hloop : Blind fun s : Acpi ρ => stride (fun i => (i + 1) % 2 ^ wi) (tableLength mem table)
      (sumByte mem hw ws table) acpiRounds (s, 0) 0 := by
    intro s reads r h
    have hrel := stride_rel
      (R := fun r r' : Acpi ρ × ℕ => ∃ reads, r' = ({ r.1 with reads := reads }, r.2))
      (by
        rintro r₁ - i u ⟨reads₁, rfl⟩ h
        obtain ⟨hc, rfl⟩ := sumByte_eq_some h
        refine ⟨_, ?_, (table + i, 1) :: reads₁, rfl⟩
        rw [sumByte, touch_eq (s := { r₁.1 with reads := reads₁ }) hc]
        rfl)
      (t := ({ s with reads := reads }, 0)) ⟨_, rfl⟩ h
    obtain ⟨r', hr', reads', rfl⟩ := hrel
    exact ⟨reads', hr'⟩
  simp only [checksum_eq]
  exact hloop.touch _ _

theorem parseEntry_blind {p : ℕ} (reads : List (ℕ × ℕ)) (h : s.parseEntry mem hw p = some s') :
    ∃ reads', { s with reads := reads }.parseEntry mem hw p = some { s' with reads := reads' } := by
  obtain ⟨s₁, h1, h⟩ := Option.bind_eq_some_iff.1 h
  obtain ⟨hc0, rfl⟩ := touch_eq_some h1
  obtain ⟨s₂, h2, h⟩ := Option.bind_eq_some_iff.1 h
  obtain ⟨hc1, rfl⟩ := touch_eq_some h
  unfold parseEntry
  rw [touch_eq (s := { s with reads := reads }) hc0, Option.bind_some]
  split_ifs at h2 ⊢ with hl hio hmax
  · obtain ⟨s₃, h3, rfl⟩ := Option.map_eq_some_iff.1 h2
    obtain ⟨hc2, rfl⟩ := touch_eq_some h3
    rw [touch_eq (s := { s with reads := (p, 1) :: reads }) hc2, Option.map_some, Option.bind_some]
    dsimp only at hc1 ⊢
    split_ifs at hc1 ⊢
    · exact ⟨_, touch_eq hc1⟩
    · exact ⟨_, touch_eq hc1⟩
  · cases h2
    exact ⟨_, touch_eq hc1⟩
  · obtain ⟨hc2, rfl⟩ := touch_eq_some h2
    rw [touch_eq (s := { s with reads := (p, 1) :: reads }) hc2, Option.bind_some]
    exact ⟨_, touch_eq hc1⟩
  · cases h2
    exact ⟨_, touch_eq hc1⟩

theorem parseEntries_blind {entry limit : ℕ} {s r : Acpi ρ} (reads : List (ℕ × ℕ))
    (h : s.parseEntries mem hw entry limit = some r) : ∃ reads',
    { s with reads := reads }.parseEntries mem hw entry limit = some { r with reads := reads' } := by
  have hrel := stride_rel (R := fun s s' : Acpi ρ => ∃ reads, s' = { s with reads := reads })
    (by
      rintro s₁ - p u ⟨reads₁, rfl⟩ h
      obtain ⟨hbrk, h⟩ := entryRound_eq_some h
      obtain ⟨reads', h'⟩ := parseEntry_blind reads₁ h
      refine ⟨{ u.1 with reads := reads' }, ?_, reads', rfl⟩
      rw [hbrk]
      exact Option.map_eq_some_iff.2 ⟨_, h', rfl⟩)
    (t := { s with reads := reads }) ⟨_, rfl⟩ h
  obtain ⟨r', hr', reads', rfl⟩ := hrel
  exact ⟨reads', hr'⟩

theorem blind_checkTable (table sig : ℕ) : Blind fun s : Acpi ρ => s.checkTable mem hw table sig :=
  (blind_checksum 32 32 table).bind fun _ => (blind_pure _).ite (.touch_map _ _ _)

theorem blind_acpiParseFacs (facsPtr : ℕ) :
    Blind fun s : Acpi ρ => s.acpiParseFacs mem hw facsPtr :=
  (blind_pure _).ite ((blind_mapData _ _).bind fun _ => (blind_pure _).ite (.touch_map _ _ _))

theorem blind_acpiParseDsdt (dsdtPtr : ℕ) :
    Blind fun s : Acpi ρ => s.acpiParseDsdt mem hw dsdtPtr := by
  refine (blind_pure _).ite ((blind_mapData _ _).bind fun err => (blind_pure _).ite (Blind.touch ?_ _ _))
  refine (blind_mapData _ _).bind fun err => (blind_pure _).ite ?_
  exact blind_checkTable _ _

theorem blind_acpiParseFadt (fadtPtr : ℕ) :
    Blind fun s : Acpi ρ => s.acpiParseFadt mem hw fadtPtr := by
  refine (blind_pure _).ite ((blind_mapData _ _).bind fun err => (blind_pure _).ite ?_)
  refine (blind_checkTable _ _).bind fun err => (blind_pure _).ite (Blind.touch ?_ _ _)
  refine (blind_acpiParseFacs _).bind fun err => (blind_pure _).ite (Blind.touch ?_ _ _)
  exact blind_acpiParseDsdt _

theorem blind_acpiParseApic (madtPtr : ℕ) :
    Blind fun s : Acpi ρ => s.acpiParseApic mem hw madtPtr := by
  refine (blind_pure _).ite ((blind_mapData _ _).bind fun err => (blind_pure _).ite ?_)
  refine (blind_checksum 32 32 _).bind fun sum => (blind_pure _).ite (Blind.touch ?_ _ _)
  refine (blind_pure _).ite ((blind_mapData _ _).bind fun err => (blind_pure _).ite ?_)
  intro s reads r h
  obtain ⟨s₁, h1, rfl⟩ := Option.map_eq_some_iff.1 h
  obtain ⟨reads', h1⟩ := parseEntries_blind reads h1
  exact ⟨reads', Option.map_eq_some_iff.2 ⟨_, h1, rfl⟩⟩

theorem blind_acpiParseDt (header : ℕ) : Blind fun s : Acpi ρ => s.acpiParseDt mem hw header := by
  refine (blind_pure _).ite ((blind_mapData _ _).bind fun err => (blind_pure _).ite (Blind.touch ?_ _ _))
  refine (blind_acpiParseFadt _).ite (Blind.ite ?_ (blind_pure _))
  have hdone : ∀ err : AcpiErr, Blind fun s : Acpi ρ => some (if err = .noErr then
      ({ s with madtParseSuccess := true, madt := header }, err) else (s, err)) := by
    intro err
    split_ifs
    · rintro s reads r ⟨⟩
      exact ⟨reads, rfl⟩
    · exact blind_pure _
  simpa only [Option.map_eq_bind] using (blind_acpiParseApic header).bind hdone

theorem blind_parseDtAt (size p : ℕ) : Blind fun s : Acpi ρ => s.parseDtAt mem hw size p :=
  (blind_acpiParseDt _).touch _ _

theorem parses_blind : ∀ (l : List ℕ) {s s' : Acpi ρ}, Parses mem hw size s l s' →
    ∀ reads, ∃ reads',
      Parses mem hw size { s with reads := reads } l { s' with reads := reads' }
  | [], s, s', h, reads => by
    subst h
    exact ⟨reads, rfl⟩
  | p :: l, s, s', h, reads => by
    obtain ⟨s₁, h1, h⟩ := h
    obtain ⟨reads₁, h1⟩ := blind_parseDtAt size p s reads _ h1
    obtain ⟨reads', h⟩ := parses_blind l h reads₁
    exact ⟨reads', _, h1, h⟩

theorem pointersEnd_blind {more : Prop} (reads : List (ℕ × ℕ))
    (h : PointersEnd mem hw size s l more) :
    PointersEnd mem hw size { s with reads := reads } l more := by
  rcases h with h | ⟨l₁, p, s₁, s₂, err, hl, hparses, hlast, hmore⟩
  · exact .inl h
  · obtain ⟨reads₁, hparses⟩ := parses_blind l₁ hparses reads
    obtain ⟨reads₂, hlast⟩ := blind_parseDtAt size p s₁ reads₁ _ hlast
    exact .inr ⟨l₁, p, _, _, err, hl, hparses, hlast, hmore⟩

end Blind

/-! ## Tests -/

variable {pages : ρ}

/-- A pointer to a table that is neither a FADT nor a MADT. -/
theorem parseDtAt_other {p header : ℕ} (hp : hw.Covers s.pages p size) (hword : word mem p = header)
    (h0 : header ≠ 0) (hmap : acpiMapData hw s.pages header sizeofAcpiHeader = some (pages, .noErr))
    (hc : hw.Covers pages header 4) (hfacp : signature mem header ≠ acpiFacpSig)
    (hapic : signature mem header ≠ acpiApicSig) : ∃ s', s.parseDtAt mem hw size p = some (s', .noErr) := by
  unfold parseDtAt acpiParseDt
  rw [touch_eq hp, Option.bind_some, hword, if_neg h0,
    mapData_eq (s := { s with reads := (p, size) :: s.reads }) hmap, Option.bind_some]
  dsimp only
  rw [if_neg (not_not_intro rfl),
    touch_eq (s := { s with pages := pages, reads := (p, size) :: s.reads }) hc, Option.bind_some,
    if_neg hfacp, if_neg hapic]
  exact ⟨_, rfl⟩

/-- A table whose checksum ends is tested as it should be, and its pointers are mapped. -/
theorem testSdt_ends (sig : ℕ) (h0 : sdtPtr ≠ 0)
    (hmap : acpiMapData hw s.pages sdtPtr sizeofSdtDescriptor = some (pages, .noErr))
    (h8 : hw.Covers pages sdtPtr 8) (hlen : tableLength mem sdtPtr < 2 ^ 8)
    (hc : hw.Covers pages sdtPtr (tableLength mem sdtPtr)) : ∃ reads, s.testSdt mem hw sig sdtPtr
      = if byteSum mem sdtPtr (tableLength mem sdtPtr) % 2 ^ 8 = 0 ∧ signature mem sdtPtr = sig then
          { s with pages := pages, reads := reads }.mapData hw (add32 sdtPtr sizeofAcpiHeader)
            (sub32 (tableLimit mem sdtPtr) (add32 sdtPtr sizeofAcpiHeader))
        else some ({ s with pages := pages, reads := reads }, .checksumFailed) := by
  obtain ⟨s₁, sum, hrun, hsum, hcore, -⟩ := checksum_ends (s := { s with pages := pages }) 8 8 (by decide)
    le_rfl hlen (h8.sub (Nat.le_add_right _ _) (by omega)) hc
  have hs₁ := eq_of_core hcore
  have hpages : s₁.pages = pages := congrArg (fun t : Acpi ρ => t.pages) hcore
  have h4 : hw.Covers s₁.pages sdtPtr 4 := hpages ▸ h8.sub le_rfl (by omega)
  unfold testSdt
  rw [if_neg h0, mapData_eq hmap]
  simp only [Option.bind_some, ne_eq, not_true, if_false, hrun, hsum]
  by_cases hzero : byteSum mem sdtPtr (tableLength mem sdtPtr) % 2 ^ 8 = 0
  · refine ⟨(sdtPtr, 4) :: s₁.reads, ?_⟩
    rw [if_neg (not_not_intro hzero), touch_eq h4, Option.bind_some]
    by_cases hsig : signature mem sdtPtr = sig
    · rw [if_neg (not_not_intro hsig), if_pos ⟨hzero, hsig⟩, hs₁]
    · rw [if_pos hsig, if_neg fun h => hsig h.2, hs₁]
  · refine ⟨s₁.reads, ?_⟩
    rw [if_pos hzero, if_neg fun h => hzero h.1, ← hs₁]

/-- Otherwise the call does not return: the checksum of a table of 256 bytes or more does not end, and one
of a table that is not mapped faults. -/
theorem testSdt_never (h0 : sdtPtr ≠ 0)
    (hmap : acpiMapData hw s.pages sdtPtr sizeofSdtDescriptor = some (pages, .noErr))
    (h : tableLength mem sdtPtr < 2 ^ 8 → ¬ hw.Covers pages sdtPtr (tableLength mem sdtPtr)) :
    s.testSdt mem hw sig sdtPtr = none := by
  have hsum : { s with pages := pages }.checksum mem hw 8 8 sdtPtr = none := by
    by_cases hlen : tableLength mem sdtPtr < 2 ^ 8
    · rw [Option.eq_none_iff_forall_ne_some]
      exact fun r hrun => h hlen (covers_of_checksum (by decide) hlen hrun).2
    · exact checksum_never _ (Nat.le_of_not_lt hlen)
  unfold testSdt
  rw [if_neg h0, mapData_eq hmap]
  simp only [Option.bind_some, ne_eq, not_true, if_false, hsum, Option.bind_none]

/-- What a call on a good table whose pointers are mapped comes to. -/
theorem sdtRight_walked {r : Option (Acpi ρ × List ℕ × AcpiErr)} (hg : GoodTable mem sig sdtPtr) :
    SdtRight mem sig size sdtPtr (r.map fun (s, visited, err) => (s, .walked visited err))
      ↔ ∃ s' err, r = some (s', wholePointers mem sdtPtr size, err) := by
  constructor
  · rintro ⟨s', res, h, -, hvisited⟩
    obtain ⟨⟨s₁, visited, err⟩, rfl, hres⟩ := Option.map_eq_some_iff.1 h
    cases hres
    rw [hvisited visited err rfl]
    exact ⟨_, _, rfl⟩
  · rintro ⟨s', err, rfl⟩
    refine ⟨s', _, rfl, iff_of_true ⟨_, _, rfl⟩ hg, fun visited err h => ?_⟩
    cases h
    rfl

/-- A call that returns before the pointers is right on the tables that are not good. -/
theorem sdtRight_refused {err : AcpiErr} :
    SdtRight mem sig size sdtPtr (some (s, .refused err)) ↔ ¬ GoodTable mem sig sdtPtr := by
  constructor
  · rintro ⟨s', res, h, hres, -⟩ hg
    cases h
    obtain ⟨visited, err', h⟩ := hres.2 hg
    cases h
  · intro hg
    refine ⟨s, _, rfl, iff_of_false ?_ hg, ?_⟩
    · rintro ⟨visited, err', h⟩
      cases h
    · intro visited err' h
      cases h

/-- The loop over the pointers, from any reads on. -/
theorem walked_iff (hsize : 0 < size) (hmax : size ≤ 8)
    (hspace : sdtPtr + tableLength mem sdtPtr ≤ pagingRecurPgTable) (reads : List (ℕ × ℕ)) :
    (∃ s' err, stride (fun p => add32 p size) (tableLimit mem sdtPtr) (parsePointer mem hw size)
        acpiRounds ({ s with reads := reads }, [], .noErr) (add32 sdtPtr sizeofAcpiHeader)
      = some (s', wholePointers mem sdtPtr size, err))
    ↔ PointersEnd mem hw size s (wholePointers mem sdtPtr size) (CutOff mem sdtPtr size) := by
  have htrack := track_pointers hsize hmax hspace
  have hrounds : (wholePointers mem sdtPtr size ++ cutPointer mem sdtPtr size).length < acpiRounds := by
    have hwhole : (wholePointers mem sdtPtr size).length ≤ tableLength mem sdtPtr := by
      rw [wholePointers, List.length_map, List.length_range]
      exact (Nat.div_le_self _ _).trans (Nat.sub_le _ _)
    have hcut : (cutPointer mem sdtPtr size).length ≤ 1 := by
      unfold cutPointer
      dsimp only
      split_ifs <;> simp
    have hspace' : sdtPtr + tableLength mem sdtPtr ≤ 0xFFC00000 := hspace
    rw [List.length_append, acpiRounds]
    omega
  have hover : (∃ s' err, strideOver (parsePointer mem hw size) ({ s with reads := reads }, [], .noErr)
        (wholePointers mem sdtPtr size ++ cutPointer mem sdtPtr size)
          = some (s', wholePointers mem sdtPtr size, err))
      ↔ PointersEnd mem hw size { s with reads := reads } (wholePointers mem sdtPtr size)
        (cutPointer mem sdtPtr size ≠ []) := parse_over _ _ [] _ _
  rw [stride_of_track htrack hrounds, hover, propext cutPointer_ne_nil]
  constructor
  · exact fun h => pointersEnd_blind (s := { s with reads := reads }) s.reads h
  · exact fun h => pointersEnd_blind reads h

theorem sdtRight_iff (h0 : sdtPtr ≠ 0) (hsize : 0 < size) (hmax : size ≤ 8)
    (hspace : sdtPtr + 2 ^ 8 ≤ pagingRecurPgTable)
    (hmap : acpiMapData hw s.pages sdtPtr sizeofSdtDescriptor = some (pages, .noErr)) :
    SdtRight mem sig size sdtPtr (s.acpiParseSdt mem hw sig size sdtPtr)
      ↔ { s with pages := pages }.SdtFits mem hw sig size sdtPtr := by
  unfold acpiParseSdt
  by_cases hlen : tableLength mem sdtPtr < 2 ^ 8 ∧ hw.Covers pages sdtPtr (tableLength mem sdtPtr)
  · obtain ⟨hlen, hc⟩ := hlen
    have hdescriptor : hw.Covers pages sdtPtr sizeofSdtDescriptor :=
      acpiMapData_covers ((Nat.add_le_add_left (by decide) _).trans hspace) hmap
    have h8 : hw.Covers pages sdtPtr 8 := hdescriptor.sub le_rfl (Nat.add_le_add_left (by decide) _)
    obtain ⟨reads, htest⟩ := testSdt_ends sig h0 hmap h8 hlen hc
    by_cases hg : GoodTable mem sig sdtPtr
    · rw [htest, if_pos ⟨hg.sum, hg.signature⟩]
      obtain ⟨⟨pages₂, err⟩, hmap₂⟩ := acpiMapData_total hw pages (add32 sdtPtr sizeofAcpiHeader)
        (sub32 (tableLimit mem sdtPtr) (add32 sdtPtr sizeofAcpiHeader))
      rw [mapData_eq hmap₂, Option.bind_some]
      by_cases herr : err = .noErr
      · subst herr
        dsimp only
        rw [if_neg (not_not_intro rfl), sdtRight_walked hg,
          walked_iff (s := { s with pages := pages₂ }) hsize hmax (by omega)]
        constructor
        · exact fun h => ⟨hlen, hc, fun _ => ⟨pages₂, hmap₂, h⟩⟩
        · rintro ⟨-, -, h⟩
          obtain ⟨pages₃, hmap₃, h⟩ := h hg
          rw [hmap₂] at hmap₃
          cases hmap₃
          exact h
      · dsimp only
        rw [if_pos herr, sdtRight_refused]
        refine iff_of_false (not_not_intro hg) fun h => ?_
        obtain ⟨pages₃, hmap₃, -⟩ := h.pointers hg
        rw [hmap₂] at hmap₃
        cases hmap₃
        exact herr rfl
    · have hbad : ¬ (byteSum mem sdtPtr (tableLength mem sdtPtr) % 2 ^ 8 = 0
          ∧ signature mem sdtPtr = sig) := fun h => hg ⟨h.1, h.2⟩
      rw [htest, if_neg hbad, Option.bind_some]
      dsimp only
      rw [if_pos (by decide), sdtRight_refused]
      exact iff_of_true hg ⟨hlen, hc, fun h => absurd h hg⟩
  · rw [testSdt_never h0 hmap fun h hc => hlen ⟨h, hc⟩, Option.bind_none]
    refine iff_of_false ?_ fun h => hlen ⟨h.length, h.covers⟩
    rintro ⟨s', res, h, -⟩
    cases h

/-! ## The results -/

/-- An RSDT at an address, with its length, its checksum and its pointers. -/
def rsdtAt (rsdtPtr : ℕ) (low high checksum : UInt8) (pointers : List UInt8) (a : ℕ) : UInt8 :=
  if a < rsdtPtr then 0
  else ([0x52, 0x53, 0x44, 0x54, low, high, 0, 0, 1, checksum] ++ List.replicate 26 0
    ++ pointers).getD (a - rsdtPtr) 0

/-- `kernel_mmap_hw` that maps the pages it is asked for, of which these are mapped. -/
def onDemand : HwPages (List ℕ) where
  mmapHw pages a :=
    if a ∈ pages then (pages, .mappingAlreadyExists) else (a :: pages, .pool .noErr)
  mapped pages x := x / kernelPageSize * kernelPageSize ∈ pages
  keeps := by
    intro pages a x h
    split_ifs
    · exact h
    · simpa using .inr (by simpa using h)
  maps := by
    intro pages a i ha hi _
    have hpage : (a + i) / kernelPageSize * kernelPageSize = a := by
      simp only [kernelPageSize] at ha hi ⊢
      omega
    rw [hpage]
    split_ifs with h
    · simpa using h
    · simp

/-- The data of `acpi.c` after `acpi_init` has cleared it, with no page mapped. -/
def nothingMapped : Acpi (List ℕ) :=
  ⟨[], 0, fun _ => 0, fun _ => 0, 0, fun _ => 0, false, 0, false, []⟩

/-- The RSDT and the XSDT are tested and gone through as they should be if and only if they fit. -/
theorem sdts_right_iff (h0 : sdtPtr ≠ 0) (hspace : sdtPtr + 2 ^ 8 ≤ pagingRecurPgTable)
    (hmap : acpiMapData hw s.pages sdtPtr sizeofSdtDescriptor = some (pages, .noErr)) :
    (SdtRight mem acpiRsdtSig 4 sdtPtr (s.acpiParseRsdt mem hw sdtPtr)
        ↔ { s with pages := pages }.SdtFits mem hw acpiRsdtSig 4 sdtPtr)
      ∧ (SdtRight mem acpiXsdtSig 8 sdtPtr (s.acpiParseXsdt mem hw sdtPtr)
        ↔ { s with pages := pages }.SdtFits mem hw acpiXsdtSig 8 sdtPtr) :=
  ⟨sdtRight_iff h0 (by decide) (by decide) hspace hmap,
    sdtRight_iff h0 (by decide) (by decide) hspace hmap⟩

/-- One pointer, to a table in which nothing is parsed. -/
theorem sdts_right_one : SdtRight (rsdtAt 0x1000 40 0 138 [0, 0x10, 0, 0]) acpiRsdtSig 4 0x1000
    (nothingMapped.acpiParseRsdt (rsdtAt 0x1000 40 0 138 [0, 0x10, 0, 0]) onDemand 0x1000) := by
  have hmap : acpiMapData onDemand [] 0x1000 sizeofSdtDescriptor = some ([0x1000], .noErr) := by
    decide +kernel
  have hheader : acpiMapData onDemand [0x1000] 0x1000 sizeofAcpiHeader = some ([0x1000], .noErr) := by
    decide +kernel
  refine (sdts_right_iff (by decide) (by decide) hmap).1.2
    ⟨by decide +kernel, by decide +kernel, fun _ => ⟨[0x1000], by decide +kernel, ?_⟩⟩
  have hwhole : wholePointers (rsdtAt 0x1000 40 0 138 [0, 0x10, 0, 0]) 0x1000 4 = [0x1024] := by
    decide +kernel
  obtain ⟨s₁, h1⟩ : ∃ s₁, Acpi.parseDtAt (rsdtAt 0x1000 40 0 138 [0, 0x10, 0, 0]) onDemand 4
      { nothingMapped with pages := [0x1000] } 0x1024 = some (s₁, .noErr) :=
    parseDtAt_other (by decide +kernel) (by decide +kernel) (by decide) hheader (by decide +kernel)
      (by decide +kernel) (by decide +kernel)
  rw [hwhole, pointersEnd_cons]
  refine ⟨s₁, .noErr, h1, ?_⟩
  rw [if_pos rfl]
  refine pointersEnd_nil.2 fun hcut => ?_
  exact hcut.2 (by decide +kernel)

/-- A length of 256: the checksum of `acpi_parse_rsdt` does not end. A length of 44, of which the last four
bytes are on the next page: it faults there. -/
theorem not_sdtRight : (GoodTable (rsdtAt 0x1000 0 1 193 []) acpiRsdtSig 0x1000
      ∧ cleared.acpiParseRsdt (rsdtAt 0x1000 0 1 193 []) allMapped 0x1000 = none
      ∧ ¬ SdtRight (rsdtAt 0x1000 0 1 193 []) acpiRsdtSig 4 0x1000
        (cleared.acpiParseRsdt (rsdtAt 0x1000 0 1 193 []) allMapped 0x1000))
    ∧ GoodTable (rsdtAt 0x1FD8 44 0 150 []) acpiRsdtSig 0x1FD8
      ∧ nothingMapped.acpiParseRsdt (rsdtAt 0x1FD8 44 0 150 []) onDemand 0x1FD8 = none := by
  have hmap : acpiMapData allMapped () 0x1000 sizeofSdtDescriptor = some ((), .noErr) := by
    decide +kernel
  have htest : cleared.testSdt (rsdtAt 0x1000 0 1 193 []) allMapped acpiRsdtSig 0x1000 = none :=
    testSdt_never (by decide) hmap fun h => absurd h (by decide +kernel)
  have hnone : cleared.acpiParseRsdt (rsdtAt 0x1000 0 1 193 []) allMapped 0x1000 = none := by
    unfold acpiParseRsdt acpiParseSdt
    rw [htest, Option.bind_none]
  have hfault : nothingMapped.acpiParseRsdt (rsdtAt 0x1FD8 44 0 150 []) onDemand 0x1FD8 = none := by
    have hpage : acpiMapData onDemand [] 0x1FD8 sizeofSdtDescriptor = some ([0x1000], .noErr) := by
      decide +kernel
    unfold acpiParseRsdt acpiParseSdt
    rw [testSdt_never (by decide) hpage fun _ => by decide +kernel, Option.bind_none]
  refine ⟨⟨⟨by decide +kernel, by decide +kernel⟩, hnone, ?_⟩, ⟨by decide +kernel, by decide +kernel⟩,
    hfault⟩
  rintro ⟨s', res, h, -⟩
  exact Option.some_ne_none _ (h.symm.trans hnone)

end Acpi

end RTLKIM
