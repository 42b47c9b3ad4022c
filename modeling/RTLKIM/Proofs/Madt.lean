import RTLKIM.Proofs.AcpiRead

/-!
# The MADT

The loops over the entries are their rounds along the track of the entries, so what they record and what
they read follow from what they do at one entry; they do not fault as long as they stay in a table that
is mapped.
-/

namespace RTLKIM

variable {ρ : Type} {mem : ℕ → UInt8} {hw : HwPages ρ} {pages pages' : ρ} {a : ℕ}

variable {limit : ℕ}

/-! ## Entries that tile the table -/

theorem Tiles.le : ∀ {l : List ℕ} {p : ℕ}, Tiles mem limit p l → p ≤ limit
  | [], _, h => Nat.le_of_eq h
  | _ :: _, _, h => (Nat.le_add_right _ _).trans h.2.2.le

theorem two_le_entrySize (type : UInt8) : 2 ≤ entrySize type := by
  unfold entrySize
  split_ifs <;> decide

theorem Tiles.track (hlim : limit < 2 ^ 32) : ∀ {l : List ℕ} {p : ℕ}, Tiles mem limit p l →
    Track (nextEntry mem) limit p l ∧ l.length ≤ limit - p
  | [], p, h => ⟨Nat.le_of_eq h.symm, Nat.zero_le _⟩
  | q :: l, p, h => by
    obtain ⟨rfl, hsize, h⟩ := h
    have hle := h.le
    have htwo := two_le_entrySize (entryType mem q)
    have hnext : nextEntry mem q = q + entryLength mem q := add32_of_lt (by omega)
    obtain ⟨h1, h2⟩ := Tiles.track hlim h
    refine ⟨⟨rfl, by omega, ?_⟩, ?_⟩
    · rw [hnext]
      exact h1
    · rw [List.length_cons]
      omega

theorem Tiles.ge : ∀ {l : List ℕ} {p : ℕ}, Tiles mem limit p l → ∀ q ∈ l, p ≤ q
  | [], _, _, _, hq => nomatch hq
  | _ :: l, p, h, q, hq => by
    obtain ⟨rfl, -, h⟩ := h
    rcases List.mem_cons.1 hq with rfl | hq
    · exact le_rfl
    · exact (Nat.le_add_right _ _).trans (h.ge q hq)

/-- What the walks read of entries that have their size is in them. -/
theorem Tiles.inside : ∀ {l : List ℕ} {p : ℕ}, Tiles mem limit p l → ∀ q ∈ l, ∀ before,
    EntryInside mem limit before q
  | [], _, _, _, hq => nomatch hq
  | p :: l, _, h, q, hq => by
    obtain ⟨rfl, hsize, h⟩ := h
    rcases List.mem_cons.1 hq with rfl | hq
    · intro before
      have hle := h.le
      have htwo := two_le_entrySize (entryType mem q)
      have hlapic : IsLapic mem q → entrySize (entryType mem q) = 8 := fun h => congrArg entrySize h
      have hioApic : IsIoApic mem q → entrySize (entryType mem q) = 12 := fun h => congrArg entrySize h
      have hoverride : entryType mem q = apicTypeInterruptOverride →
          entrySize (entryType mem q) = 10 := fun h => congrArg entrySize h
      refine ⟨by omega, by omega, fun h => ?_, fun h _ => ?_, fun h => ?_, fun irq h _ => ?_⟩
      · have := hlapic h
        omega
      · have := hioApic h
        omega
      · have := hoverride h
        omega
      · have := hoverride h.1
        omega
    · exact h.inside q hq

namespace Acpi

variable {s s' : Acpi ρ} {p : ℕ} {l : List ℕ}

/-! ## The entries that are recorded -/

theorem take_concat (F : List ℕ) (p n : ℕ) :
    (F ++ [p]).take n = if F.length < n then F.take n ++ [p] else F.take n := by
  split_ifs with h
  · rw [List.take_of_length_le (by simp; omega), List.take_of_length_le h.le]
  · exact List.take_append_of_le_length (Nat.le_of_not_lt h)

/-- An element more of a table. -/
theorem update_table {α : Type} {k : ℕ} {t : Fin k → α} {g : ℕ → α} {L : List ℕ}
    (h : ∀ (i : Fin k) q, L[(i : ℕ)]? = some q → t i = g q) {c : Fin k} (hc : (c : ℕ) = L.length)
    (i : Fin k) (q : ℕ) (hq : (L ++ [p])[(i : ℕ)]? = some q) : Function.update t c (g p) i = g q := by
  by_cases hi : i = c
  · subst hi
    rw [hc, List.getElem?_concat_length, Option.some_inj] at hq
    rw [Function.update_self, hq]
  · have hne : (i : ℕ) ≠ L.length := fun h => hi (Fin.ext (h.trans hc.symm))
    have hlt : (i : ℕ) < L.length := by
      have := (List.getElem?_eq_some_iff.1 hq).1
      rw [List.length_append, List.length_singleton] at this
      omega
    rw [List.getElem?_append_left hlt] at hq
    rw [Function.update_of_ne hi]
    exact h i q hq

/-- An element more of the first ones that are as `P` says. -/
theorem filter_take_concat (P : ℕ → Prop) [DecidablePred P] (l : List ℕ) (p n : ℕ) :
    ((l ++ [p]).filter (P ·)).take n
      = if P p ∧ ((l.filter (P ·)).take n).length < n then (l.filter (P ·)).take n ++ [p]
        else (l.filter (P ·)).take n := by
  rw [List.filter_append, List.length_take]
  by_cases hp : P p
  · rw [List.filter_cons_of_pos (by simpa using hp), List.filter_nil, take_concat]
    simp only [hp, true_and]
    congr 1
    simp
  · rw [List.filter_cons_of_neg (by simpa using hp), List.filter_nil, List.append_nil,
      if_neg fun h => hp h.1]

theorem lapics_concat : lapics mem (l ++ [p])
    = if IsLapic mem p ∧ (lapics mem l).length < maxCpuCount then lapics mem l ++ [p]
      else lapics mem l := filter_take_concat _ _ _ _

theorem ioApics_concat : ioApics mem (l ++ [p])
    = if IsIoApic mem p ∧ (ioApics mem l).length < maxIoApicCount then ioApics mem l ++ [p]
      else ioApics mem l := filter_take_concat _ _ _ _

theorem not_isIoApic (h : IsLapic mem p) : ¬ IsIoApic mem p := by
  intro h'
  exact absurd (h.symm.trans h') (by decide)

/-- What is recorded of an entry. -/
def Recorded (mem : ℕ → UInt8) (s : Acpi ρ) (p : ℕ) (s' : Acpi ρ) : Prop :=
  (∃ h : s.cpuCount < maxCpuCount, IsLapic mem p ∧ s'.core = { s with
      cpuLapic := Function.update s.cpuLapic ⟨s.cpuCount, h⟩ p
      cpuIds := Function.update s.cpuIds ⟨s.cpuCount, h⟩ (acpiCpuId mem p)
      cpuCount := s.cpuCount + 1 }.core)
    ∨ (∃ h : s.ioApicCount < maxIoApicCount, IsIoApic mem p ∧ s'.core = { s with
      ioApicTables := Function.update s.ioApicTables ⟨s.ioApicCount, h⟩ p
      ioApicCount := s.ioApicCount + 1 }.core)
    ∨ (¬ (IsLapic mem p ∧ s.cpuCount < maxCpuCount)
      ∧ ¬ (IsIoApic mem p ∧ s.ioApicCount < maxIoApicCount) ∧ s'.core = s.core)

/-- What an entry does to the tables. -/
theorem parseEntry_core (h : s.parseEntry mem hw p = some s') : Recorded mem s p s' := by
  obtain ⟨s₁, h1, h⟩ := Option.bind_eq_some_iff.1 h
  obtain ⟨-, rfl⟩ := touch_eq_some h1
  obtain ⟨s₂, h2, h⟩ := Option.bind_eq_some_iff.1 h
  obtain ⟨-, rfl⟩ := touch_eq_some h
  by_cases hl : entryType mem p = apicTypeLocalApic
  · have hl' : IsLapic mem p := hl
    rw [if_pos hl] at h2
    obtain ⟨s₃, h3, rfl⟩ := Option.map_eq_some_iff.1 h2
    obtain ⟨-, rfl⟩ := touch_eq_some h3
    by_cases hmax : s.cpuCount < maxCpuCount
    · refine .inl ⟨hmax, hl, ?_⟩
      rw [dif_pos hmax]
      rfl
    · refine .inr (.inr ⟨fun h => hmax h.2, fun h => not_isIoApic hl' h.1, ?_⟩)
      rw [dif_neg hmax]
      rfl
  · rw [if_neg hl] at h2
    by_cases hio : entryType mem p = apicTypeIoApic
    · rw [if_pos hio] at h2
      by_cases hmax : s.ioApicCount < maxIoApicCount
      · refine .inr (.inl ⟨hmax, hio, ?_⟩)
        rw [dif_pos hmax] at h2
        cases h2
        rfl
      · refine .inr (.inr ⟨fun h => hl h.1, fun h => hmax h.2, ?_⟩)
        rw [dif_neg hmax] at h2
        obtain ⟨-, rfl⟩ := touch_eq_some h2
        rfl
    · refine .inr (.inr ⟨fun h => hl h.1, fun h => hio h.1, ?_⟩)
      rw [if_neg hio] at h2
      cases h2
      rfl

theorem Recorded.pages_eq (h : Recorded mem s p s') : s'.pages = s.pages := by
  have hsame : s'.core.pages = s.pages := by
    rcases h with ⟨_, -, hcore⟩ | ⟨_, -, hcore⟩ | ⟨-, -, hcore⟩
    · rw [hcore]
      rfl
    · rw [hcore]
      rfl
    · rw [hcore]
      rfl
  exact hsame

theorem Records.of_core (h : s.Records mem l) (hc : s'.core = s.core) : s'.Records mem l :=
  ⟨(congrArg Acpi.cpuCount hc).trans h.cpuCount,
    fun i p hp => ⟨(congrFun (congrArg Acpi.cpuLapic hc) i).trans (h.cpus i p hp).1,
      (congrFun (congrArg Acpi.cpuIds hc) i).trans (h.cpus i p hp).2⟩,
    (congrArg Acpi.ioApicCount hc).trans h.ioApicCount,
    fun i p hp => (congrFun (congrArg Acpi.ioApicTables hc) i).trans (h.tables i p hp)⟩

/-- One entry. -/
theorem Records.recorded (h : s.Records mem l) (hp : Recorded mem s p s') :
    s'.Records mem (l ++ [p]) := by
  obtain ⟨hc, hcpus, hio, htables⟩ := h
  rcases hp with ⟨hmax, hp, hcore⟩ | ⟨hmax, hp, hcore⟩ | ⟨hl, hi, hcore⟩
  · have hlapics : lapics mem (l ++ [p]) = lapics mem l ++ [p] := by
      rw [lapics_concat, if_pos ⟨hp, hc ▸ hmax⟩]
    have hioApics : ioApics mem (l ++ [p]) = ioApics mem l := by
      rw [ioApics_concat, if_neg fun h => not_isIoApic hp h.1]
    refine Records.of_core ⟨?_, fun i q hq => ?_, ?_, ?_⟩ hcore
    · rw [hlapics, List.length_append, List.length_singleton, ← hc]
    · rw [hlapics] at hq
      exact ⟨update_table (g := id) (fun i q hq => (hcpus i q hq).1) hc i q hq,
        update_table (fun i q hq => (hcpus i q hq).2) hc i q hq⟩
    · rw [hioApics]
      exact hio
    · rw [hioApics]
      exact htables
  · have hlapics : lapics mem (l ++ [p]) = lapics mem l := by
      rw [lapics_concat, if_neg fun h => not_isIoApic h.1 hp]
    have hioApics : ioApics mem (l ++ [p]) = ioApics mem l ++ [p] := by
      rw [ioApics_concat, if_pos ⟨hp, hio ▸ hmax⟩]
    refine Records.of_core ⟨?_, ?_, ?_, fun i q hq => ?_⟩ hcore
    · rw [hlapics]
      exact hc
    · rw [hlapics]
      exact hcpus
    · rw [hioApics, List.length_append, List.length_singleton, ← hio]
    · rw [hioApics] at hq
      exact update_table (g := id) htables hio i q hq
  · have hlapics : lapics mem (l ++ [p]) = lapics mem l := by
      rw [lapics_concat, if_neg fun h => hl ⟨h.1, hc ▸ h.2⟩]
    have hioApics : ioApics mem (l ++ [p]) = ioApics mem l := by
      rw [ioApics_concat, if_neg fun h => hi ⟨h.1, hio ▸ h.2⟩]
    refine Records.of_core ⟨?_, ?_, ?_, ?_⟩ hcore
    · rw [hlapics]
      exact hc
    · rw [hlapics]
      exact hcpus
    · rw [hioApics]
      exact hio
    · rw [hioApics]
      exact htables

/-- The round of the loop over the entries at one. -/
def entryRound (mem : ℕ → UInt8) (hw : HwPages ρ) (s : Acpi ρ) (p : ℕ) : Option (Acpi ρ × Bool) :=
  (s.parseEntry mem hw p).map fun s => (s, false)

theorem entryRound_eq_some {u : Acpi ρ × Bool} (h : entryRound mem hw s p = some u) :
    u.2 = false ∧ s.parseEntry mem hw p = some u.1 := by
  obtain ⟨s', hs', rfl⟩ := Option.map_eq_some_iff.1 h
  exact ⟨rfl, hs'⟩

theorem parseEntries_eq (s : Acpi ρ) (p limit : ℕ) : s.parseEntries mem hw p limit
    = stride (nextEntry mem) limit (entryRound mem hw) acpiRounds s p := rfl

/-- All entries. -/
theorem Records.over {before : List ℕ} (h : s.Records mem before)
    (hrun : strideOver (entryRound mem hw) s l = some s') : s'.Records mem (before ++ l) :=
  strideOver_rule (I := fun l s => s.Records mem l) (fun _ _ _ h => (entryRound_eq_some h).1)
    (fun _ _ _ _ hs h => hs.recorded (parseEntry_core (entryRound_eq_some h).2)) l before h hrun

theorem records_nil (mem : ℕ → UInt8) (s : Acpi ρ) :
    { s with cpuCount := 0, ioApicCount := 0 }.Records mem [] :=
  ⟨rfl, by simp [lapics], rfl, by simp [ioApics]⟩

/-- Entries that are not gone through in the rounds of the loop never are. -/
theorem parseEntries_never (hp : p < 2 ^ 32) (h : s.parseEntries mem hw p limit = none) (fuel : ℕ) :
    stride (nextEntry mem) limit (entryRound mem hw) fuel s p = none :=
  stride_never (fun _ => false) (fun _ _ _ h => (entryRound_eq_some h).1) (fun _ => add32_lt _ _) hp h
    fuel

/-- An entry without a length is never left. -/
theorem parseEntries_stuck {k : ℕ} (s : Acpi ρ) (hv : Visits (nextEntry mem) limit p k)
    (hk : nextEntry mem ((nextEntry mem)^[k] p) = (nextEntry mem)^[k] p) :
    s.parseEntries mem hw p limit = none := by
  rw [parseEntries_eq]
  exact stride_stuck (fun _ _ _ h => (entryRound_eq_some h).1) hv hk acpiRounds

/-! ## The bytes that are read -/

/-- What `acpi_parse_apic` reads of an entry. -/
structure ParseInside (mem : ℕ → UInt8) (limit : ℕ) (before : List ℕ) (p : ℕ) : Prop where
  header : p + 2 ≤ limit
  lapic : IsLapic mem p → p + 3 ≤ limit
  ioApic : IsIoApic mem p → maxIoApicCount ≤ (before.filter (IsIoApic mem ·)).length → p + 3 ≤ limit

theorem parseEntry_reads (h : s.parseEntry mem hw p = some s') : s'.reads = (p + 1, 1)
    :: ((if IsLapic mem p ∨ IsIoApic mem p ∧ maxIoApicCount ≤ s.ioApicCount then [(p + 2, 1)] else [])
      ++ (p, 1) :: s.reads) := by
  obtain ⟨s₁, h1, h⟩ := Option.bind_eq_some_iff.1 h
  obtain ⟨-, rfl⟩ := touch_eq_some h1
  obtain ⟨s₂, h2, h⟩ := Option.bind_eq_some_iff.1 h
  obtain ⟨-, rfl⟩ := touch_eq_some h
  by_cases hl : entryType mem p = apicTypeLocalApic
  · have hl' : IsLapic mem p := hl
    rw [if_pos (.inl hl')]
    rw [if_pos hl] at h2
    obtain ⟨s₃, h3, rfl⟩ := Option.map_eq_some_iff.1 h2
    obtain ⟨-, rfl⟩ := touch_eq_some h3
    dsimp only
    split_ifs <;> rfl
  · have hl' : ¬ IsLapic mem p := hl
    rw [if_neg hl] at h2
    by_cases hio : entryType mem p = apicTypeIoApic
    · have hio' : IsIoApic mem p := hio
      rw [if_pos hio] at h2
      by_cases hmax : s.ioApicCount < maxIoApicCount
      · rw [if_neg fun h => h.elim hl' fun h => Nat.not_le.2 hmax h.2]
        rw [dif_pos hmax] at h2
        cases h2
        rfl
      · rw [if_pos (.inr ⟨hio', Nat.le_of_not_lt hmax⟩)]
        rw [dif_neg hmax] at h2
        obtain ⟨-, rfl⟩ := touch_eq_some h2
        rfl
    · have hio' : ¬ IsIoApic mem p := hio
      rw [if_neg fun h => h.elim hl' fun h => hio' h.1]
      rw [if_neg hio] at h2
      cases h2
      rfl

theorem full_iff (h : s.Records mem l) : maxIoApicCount ≤ s.ioApicCount
    ↔ maxIoApicCount ≤ (l.filter (IsIoApic mem ·)).length := by
  rw [h.ioApicCount, ioApics, List.length_take]
  omega

theorem parseEntry_inside (hr : s.Records mem l) (h : s.parseEntry mem hw p = some s') :
    s'.Inside limit ↔ s.Inside limit ∧ ParseInside mem limit l p := by
  have hcount := full_iff hr
  unfold Inside
  rw [parseEntry_reads h]
  simp only [List.forall_mem_cons, List.forall_mem_append]
  constructor
  · rintro ⟨h1, h2, h3, h4⟩
    refine ⟨h4, h1, fun hl => ?_, fun hio hfull => ?_⟩
    · rw [if_pos (.inl hl)] at h2
      exact h2 _ (List.mem_singleton_self _)
    · rw [if_pos (.inr ⟨hio, hcount.2 hfull⟩)] at h2
      exact h2 _ (List.mem_singleton_self _)
  · rintro ⟨h4, hheader, hl, hio⟩
    refine ⟨hheader, ?_, by omega, h4⟩
    split_ifs with hread
    · rw [List.forall_mem_singleton]
      rcases hread with hread | ⟨hread, hfull⟩
      · exact hl hread
      · exact hio hread (hcount.1 hfull)
    · exact fun _ hr => nomatch hr

/-- An entry does not fault if what is read of it is in a table that is mapped. -/
theorem parseEntry_runs (hr : s.Records mem l) (hp : ParseInside mem limit l p) (hle : a ≤ p)
    (hc : hw.Covers s.pages a (limit - a)) : ∃ s', s.parseEntry mem hw p = some s' := by
  have hcover : ∀ m, p + m + 1 ≤ limit → hw.Covers s.pages (p + m) 1 := by
    intro m hm
    exact hc.sub (by omega) (by omega)
  have hheader := hp.header
  have h0 : hw.Covers s.pages p 1 := hcover 0 (by omega)
  have h1 := hcover 1 (by omega)
  unfold parseEntry
  rw [touch_eq h0, Option.bind_some]
  by_cases hl : entryType mem p = apicTypeLocalApic
  · have h2 := hcover 2 (hp.lapic hl)
    rw [if_pos hl, touch_eq (s := { s with reads := (p, 1) :: s.reads }) h2, Option.map_some,
      Option.bind_some]
    dsimp only
    split_ifs
    · exact ⟨_, touch_eq h1⟩
    · exact ⟨_, touch_eq h1⟩
  · rw [if_neg hl]
    by_cases hio : entryType mem p = apicTypeIoApic
    · rw [if_pos hio]
      dsimp only
      split_ifs with hmax
      · exact ⟨_, touch_eq h1⟩
      · have h2 := hcover 2 (hp.ioApic hio ((full_iff hr).1 (Nat.le_of_not_lt hmax)))
        rw [touch_eq (s := { s with reads := (p, 1) :: s.reads }) h2, Option.bind_some]
        exact ⟨_, touch_eq h1⟩
    · rw [if_neg hio, Option.bind_some]
      exact ⟨_, touch_eq h1⟩

theorem inside_over : ∀ (l : List ℕ) {before : List ℕ} {s s' : Acpi ρ}, s.Records mem before →
    strideOver (entryRound mem hw) s l = some s' → (s'.Inside limit
      ↔ s.Inside limit ∧ Each l fun l₁ p => ParseInside mem limit (before ++ l₁) p)
  | [], before, s, s', _, h => by
    cases h
    exact (and_iff_left each_nil).symm
  | p :: l, before, s, s', hr, h => by
    obtain ⟨⟨s₁, brk⟩, hu, h⟩ := Option.bind_eq_some_iff.1 h
    obtain ⟨rfl, hentry⟩ := entryRound_eq_some hu
    rw [inside_over l (hr.recorded (parseEntry_core hentry)) h, parseEntry_inside hr hentry, each_cons,
      and_assoc, List.append_nil]
    simp only [List.append_assoc, List.singleton_append]

theorem entries_run (hc : hw.Covers pages a (limit - a)) : ∀ (l : List ℕ) {before : List ℕ} {s : Acpi ρ},
    s.Records mem before → s.pages = pages → (∀ p ∈ l, a ≤ p) →
      (Each l fun l₁ p => ParseInside mem limit (before ++ l₁) p) →
        ∃ s', strideOver (entryRound mem hw) s l = some s'
  | [], _, s, _, _, _, _ => ⟨s, rfl⟩
  | p :: l, before, s, hr, hs, hle, h => by
    obtain ⟨hp, h⟩ := each_cons.1 h
    rw [List.append_nil] at hp
    obtain ⟨hpa, hle⟩ := List.forall_mem_cons.1 hle
    obtain ⟨s₁, h1⟩ := parseEntry_runs hr hp hpa (hs ▸ hc)
    have hrec := parseEntry_core h1
    obtain ⟨s', hs'⟩ := entries_run hc l (hr.recorded hrec) (hrec.pages_eq.trans hs) hle
      (by simpa only [List.append_assoc, List.singleton_append] using h)
    refine ⟨s', ?_⟩
    rw [strideOver, entryRound, h1]
    exact hs'

theorem pages_over (h : strideOver (entryRound mem hw) s l = some s') : s'.pages = s.pages :=
  strideOver_rule (I := fun _ t => t.pages = s.pages) (fun _ _ _ h => (entryRound_eq_some h).1)
    (fun _ _ _ _ hs h => (parseEntry_core (entryRound_eq_some h).2).pages_eq.trans hs) l [] rfl h

/-- What `acpi_get_remmaped_irq` reads of an entry. -/
structure RemapInside (mem : ℕ → UInt8) (irq : UInt32) (limit p : ℕ) : Prop where
  header : p + 1 ≤ limit
  source : entryType mem p = apicTypeInterruptOverride → p + 4 ≤ limit
  interrupt : Overrides mem irq p → p + 8 ≤ limit
  length : ¬ Overrides mem irq p → p + 2 ≤ limit

/-- The loop of `acpi_get_remmaped_irq` at an entry: it breaks at an override. -/
theorem remapEntry_eq_some {irq : UInt32} {v : Option Int32} {u : (Acpi ρ × Option Int32) × Bool}
    (h : remapEntry mem hw irq (s, v) p = some u) :
    u = (if Overrides mem irq p then ((u.1.1, some (.ofNat (overrideInterrupt mem p))), true)
        else ((u.1.1, none), false))
      ∧ u.1.1.pages = s.pages ∧ ∀ limit, u.1.1.Inside limit ↔ s.Inside limit ∧ RemapInside mem irq limit p := by
  obtain ⟨s₁, h1, h⟩ := Option.bind_eq_some_iff.1 h
  obtain ⟨-, rfl⟩ := touch_eq_some h1
  by_cases ht : entryType mem p = apicTypeInterruptOverride
  · rw [if_pos ht] at h
    obtain ⟨s₂, h2, h⟩ := Option.bind_eq_some_iff.1 h
    obtain ⟨-, rfl⟩ := touch_eq_some h2
    by_cases hs : overrideSource mem p = irq.toNat
    · have ho : Overrides mem irq p := ⟨ht, hs⟩
      rw [if_pos hs] at h
      obtain ⟨s₃, h3, rfl⟩ := Option.map_eq_some_iff.1 h
      obtain ⟨-, rfl⟩ := touch_eq_some h3
      refine ⟨by rw [if_pos ho], rfl, fun limit => ?_⟩
      simp only [inside_cons, Nat.add_assoc, Nat.reduceAdd]
      constructor
      · rintro ⟨h1, h2, h3, h4⟩
        exact ⟨h4, h3, fun _ => h2, fun _ => h1, fun h => absurd ho h⟩
      · rintro ⟨h4, h3, h2, h1, -⟩
        exact ⟨h1 ho, h2 ht, h3, h4⟩
    · have ho : ¬ Overrides mem irq p := fun h => hs h.2
      rw [if_neg hs] at h
      obtain ⟨s₃, h3, rfl⟩ := Option.map_eq_some_iff.1 h
      obtain ⟨-, rfl⟩ := touch_eq_some h3
      refine ⟨by rw [if_neg ho], rfl, fun limit => ?_⟩
      simp only [inside_cons, Nat.add_assoc, Nat.reduceAdd]
      constructor
      · rintro ⟨h1, h2, h3, h4⟩
        exact ⟨h4, h3, fun _ => h2, fun h => absurd h ho, fun _ => h1⟩
      · rintro ⟨h4, h3, h2, -, h1⟩
        exact ⟨h1 ho, h2 ht, h3, h4⟩
  · have ho : ¬ Overrides mem irq p := fun h => ht h.1
    rw [if_neg ht] at h
    obtain ⟨s₂, h2, rfl⟩ := Option.map_eq_some_iff.1 h
    obtain ⟨-, rfl⟩ := touch_eq_some h2
    refine ⟨by rw [if_neg ho], rfl, fun limit => ?_⟩
    simp only [inside_cons, Nat.add_assoc, Nat.reduceAdd]
    constructor
    · rintro ⟨h1, h3, h4⟩
      exact ⟨h4, h3, fun h => absurd h ht, fun h => absurd h ho, fun _ => h1⟩
    · rintro ⟨h4, h3, -, -, h1⟩
      exact ⟨h1 ho, h3, h4⟩

/-- The lookup does not fault at an entry if what it reads of it is in a table that is mapped. -/
theorem remapEntry_runs {irq : UInt32} (v : Option Int32) (hp : RemapInside mem irq limit p) (hle : a ≤ p)
    (hc : hw.Covers s.pages a (limit - a)) : ∃ u, remapEntry mem hw irq (s, v) p = some u := by
  have hcover : ∀ m n, p + m + n ≤ limit → hw.Covers s.pages (p + m) n := by
    intro m n hm
    exact hc.sub (by omega) (by omega)
  have hheader := hp.header
  have h0 : hw.Covers s.pages p 1 := hcover 0 1 (by omega)
  unfold remapEntry
  dsimp only
  rw [touch_eq h0, Option.bind_some]
  by_cases ht : entryType mem p = apicTypeInterruptOverride
  · have h3 := hcover 3 1 (hp.source ht)
    rw [if_pos ht, touch_eq (s := { s with reads := (p, 1) :: s.reads }) h3, Option.bind_some]
    by_cases hs : overrideSource mem p = irq.toNat
    · have h4 := hcover 4 4 (hp.interrupt ⟨ht, hs⟩)
      rw [if_pos hs]
      exact ⟨_, Option.map_eq_some_iff.2 ⟨_, touch_eq h4, rfl⟩⟩
    · have h1 := hcover 1 1 (hp.length fun h => hs h.2)
      rw [if_neg hs]
      exact ⟨_, Option.map_eq_some_iff.2 ⟨_, touch_eq h1, rfl⟩⟩
  · have h1 := hcover 1 1 (hp.length fun h => ht h.1)
    rw [if_neg ht]
    exact ⟨_, Option.map_eq_some_iff.2 ⟨_, touch_eq h1, rfl⟩⟩

/-- The lookup along the entries: the first override of the interrupt. -/
theorem remap_over {irq : UInt32} : ∀ (l : List ℕ) {s : Acpi ρ} {r : Acpi ρ × Option Int32},
    strideOver (remapEntry mem hw irq) (s, none) l = some r →
      r.2 = (l.find? (Overrides mem irq ·)).map (fun p => .ofNat (overrideInterrupt mem p))
      ∧ ∀ limit, r.1.Inside limit ↔ s.Inside limit
        ∧ Each l fun l₁ p => (∀ q ∈ l₁, ¬ Overrides mem irq q) → RemapInside mem irq limit p
  | [], s, r, h => by
    cases h
    exact ⟨rfl, fun limit => (and_iff_left each_nil).symm⟩
  | p :: l, s, r, h => by
    obtain ⟨u, hu, h⟩ := Option.bind_eq_some_iff.1 h
    obtain ⟨heq, -, hin⟩ := remapEntry_eq_some hu
    by_cases ho : Overrides mem irq p
    · rw [if_pos ho] at heq
      rw [heq, if_pos rfl] at h
      cases h
      refine ⟨?_, fun limit => ?_⟩
      · rw [List.find?_cons_of_pos (by simpa using ho)]
        rfl
      · rw [hin, each_cons]
        constructor
        · exact fun h => ⟨h.1, fun _ => h.2, fun l₁ q l₂ _ hq => absurd ho (hq p List.mem_cons_self)⟩
        · exact fun h => ⟨h.1, h.2.1 fun q hq => absurd hq List.not_mem_nil⟩
    · rw [if_neg ho] at heq
      rw [heq, if_neg (by simp)] at h
      obtain ⟨hfind, hrest⟩ := remap_over l h
      refine ⟨?_, fun limit => ?_⟩
      · rw [List.find?_cons_of_neg (by simpa using ho)]
        exact hfind
      · rw [hrest, hin, each_cons, and_assoc]
        refine and_congr_right fun _ => and_congr ?_ ?_
        · exact ⟨fun h _ => h, fun h => h fun q hq => absurd hq List.not_mem_nil⟩
        · constructor
          · intro h l₁ q l₂ hl hq
            exact h l₁ q l₂ hl fun x hx => hq x (List.mem_cons_of_mem p hx)
          · intro h l₁ q l₂ hl hq
            exact h l₁ q l₂ hl (List.forall_mem_cons.2 ⟨ho, hq⟩)

theorem remap_runs {irq : UInt32} (hc : hw.Covers pages a (limit - a)) : ∀ (l : List ℕ) {s : Acpi ρ},
    s.pages = pages → (∀ p ∈ l, a ≤ p) →
      (Each l fun l₁ p => (∀ q ∈ l₁, ¬ Overrides mem irq q) → RemapInside mem irq limit p) →
        ∃ r, strideOver (remapEntry mem hw irq) (s, none) l = some r
  | [], s, _, _, _ => ⟨(s, none), rfl⟩
  | p :: l, s, hs, hle, h => by
    obtain ⟨hp, h⟩ := each_cons.1 h
    obtain ⟨hpa, hle⟩ := List.forall_mem_cons.1 hle
    obtain ⟨u, hu⟩ := remapEntry_runs none (hp fun q hq => absurd hq List.not_mem_nil) hpa (hs ▸ hc)
    obtain ⟨heq, hpages, -⟩ := remapEntry_eq_some hu
    rw [strideOver, hu, Option.bind_some]
    by_cases ho : Overrides mem irq p
    · rw [if_pos ho] at heq
      rw [heq]
      exact ⟨_, rfl⟩
    · rw [if_neg ho] at heq
      rw [heq]
      exact remap_runs hc l (hpages.trans hs) hle fun l₁ q l₂ hl hq =>
        h l₁ q l₂ hl (List.forall_mem_cons.2 ⟨ho, hq⟩)

/-- No override is of an interrupt past those of a byte. -/
theorem not_overrides (q : ℕ) : ¬ Overrides mem 256 q := by
  intro h
  have hsource : overrideSource mem q = 256 := h.2
  have hlt : overrideSource mem q < 2 ^ 8 := (mem (q + 3)).toNat_lt
  omega

/-- What both walks read of the entries. -/
theorem each_entryInside : Each l (EntryInside mem limit) ↔ (∀ p ∈ l, entryLength mem p ≠ 0)
    ∧ Each l (ParseInside mem limit)
    ∧ ∀ irq, Each l fun l₁ p => (∀ q ∈ l₁, ¬ Overrides mem irq q) → RemapInside mem irq limit p := by
  constructor
  · intro h
    refine ⟨fun p hp => ?_, fun l₁ p l₂ hl => ?_, fun irq l₁ p l₂ hl hfirst => ?_⟩
    · obtain ⟨l₁, l₂, hl⟩ := List.append_of_mem hp
      exact (h l₁ p l₂ hl).length
    · have hp := h l₁ p l₂ hl
      exact ⟨hp.header, hp.lapic, hp.ioApic⟩
    · have hp := h l₁ p l₂ hl
      have hheader := hp.header
      exact ⟨by omega, hp.source, fun ho => hp.interrupt irq ho hfirst, fun _ => hheader⟩
  · rintro ⟨hlen, hparse, hremap⟩ l₁ p l₂ hl
    have hp := hparse l₁ p l₂ hl
    refine ⟨hlen p (by simp [hl]), hp.header, hp.lapic, hp.ioApic, ?_, fun irq ho hfirst => ?_⟩
    · exact (hremap 256 l₁ p l₂ hl fun q _ => not_overrides q).source
    · exact (hremap irq l₁ p l₂ hl hfirst).interrupt ho

/-! ## `acpi_parse_apic` -/

variable {madtPtr : ℕ}

/-- A MADT that passes the tests and is mapped, up to the entries. -/
theorem acpiParseApic_good (h0 : madtPtr ≠ 0) (hg : GoodTable mem acpiApicSig madtPtr)
    (h1 : acpiMapData hw s.pages madtPtr sizeofAcpiMadt = some (pages, .noErr))
    (hc : hw.Covers pages madtPtr (tableLength mem madtPtr)) (h8 : hw.Covers pages madtPtr 8) :
    ∃ s₁ : Acpi ρ, s₁.pages = pages
      ∧ (∀ limit, s₁.Inside limit ↔ s.Inside limit ∧ madtPtr + 8 ≤ limit
        ∧ ∀ i < tableLength mem madtPtr, madtPtr + i + 1 ≤ limit)
      ∧ s.acpiParseApic mem hw madtPtr
        = (s₁.mapData hw (add32 madtPtr sizeofAcpiMadt)
            (sub32 (tableLimit mem madtPtr) (add32 madtPtr sizeofAcpiMadt))).bind fun (s, err) =>
          if err ≠ .noErr then some (s, err)
          else ({ s with cpuCount := 0, ioApicCount := 0 }.parseEntries mem hw
            (add32 madtPtr sizeofAcpiMadt) (tableLimit mem madtPtr)).map fun s => (s, .noErr) := by
  obtain ⟨s₁, sum, hrun, hsum, hcore, hin⟩ := checksum_ends (s := { s with pages := pages }) 32 32 le_rfl
    (by decide) (tableLength_lt mem madtPtr) (h8.sub (Nat.le_add_right _ _) (by omega)) hc
  have hpages : s₁.pages = pages := congrArg (fun t : Acpi ρ => t.pages) hcore
  have h4 : hw.Covers s₁.pages madtPtr 4 := hpages ▸ h8.sub le_rfl (by omega)
  refine ⟨{ s₁ with reads := (madtPtr, 4) :: s₁.reads }, hpages, fun limit => ?_, ?_⟩
  · rw [inside_cons]
    constructor
    · rintro ⟨-, h⟩
      exact (hin limit).1 h
    · rintro ⟨h2, h3, h4⟩
      exact ⟨by omega, (hin limit).2 ⟨h2, h3, h4⟩⟩
  · unfold acpiParseApic
    rw [if_neg h0, mapData_eq h1]
    simp only [Option.bind_some, ne_eq, not_true, if_false, hrun]
    rw [if_neg (by rw [hsum, hg.sum]; decide), touch_eq h4, Option.bind_some,
      if_neg (by rw [hg.signature]; decide)]

/-- The lookup in the MADT that is installed. -/
theorem acpiGetRemmapedIrq_eq
    (hl : Track (nextEntry mem) (tableLimit mem madtPtr) (add32 madtPtr sizeofAcpiMadt) l)
    (hlen : l.length < acpiRounds) (irq : UInt32) :
    (s.installed madtPtr).acpiGetRemmapedIrq mem hw irq
      = ((s.installed madtPtr).touch hw (madtPtr + 4) 4).bind fun s' =>
        (strideOver (remapEntry mem hw irq) (s', none) l).map fun r => (r.1, r.2.getD irq.toInt32) := by
  have hrun : (s.installed madtPtr).acpiGetRemmapedIrq mem hw irq
      = ((s.installed madtPtr).touch hw (madtPtr + 4) 4).bind fun s' =>
        (stride (nextEntry mem) (tableLimit mem s'.madt) (remapEntry mem hw irq) acpiRounds (s', none)
          (add32 s'.madt sizeofAcpiMadt)).map fun r => (r.1, r.2.getD irq.toInt32) := rfl
  rw [hrun]
  rcases h : (s.installed madtPtr).touch hw (madtPtr + 4) 4 with _ | s'
  · rfl
  · obtain ⟨-, rfl⟩ := touch_eq_some h
    rw [Option.bind_some, Option.bind_some]
    exact congrArg (Option.map _) (stride_of_track hl hlen)

/-- The lookup that returns gives the first override, and what it read. -/
theorem acpiGetRemmapedIrq_eq_some {irq : UInt32} {v : Int32}
    (hl : Track (nextEntry mem) (tableLimit mem madtPtr) (add32 madtPtr sizeofAcpiMadt) l)
    (hlen : l.length < acpiRounds)
    (h : (s.installed madtPtr).acpiGetRemmapedIrq mem hw irq = some (s', v)) :
    v = remapped mem l irq ∧ ∀ limit, s'.Inside limit ↔ s.Inside limit ∧ madtPtr + 8 ≤ limit
      ∧ Each l fun l₁ p => (∀ q ∈ l₁, ¬ Overrides mem irq q) → RemapInside mem irq limit p := by
  rw [acpiGetRemmapedIrq_eq hl hlen] at h
  obtain ⟨s₁, h1, h⟩ := Option.bind_eq_some_iff.1 h
  obtain ⟨-, rfl⟩ := touch_eq_some h1
  obtain ⟨r, hr, h⟩ := Option.map_eq_some_iff.1 h
  obtain ⟨hfind, hin⟩ := remap_over l hr
  cases h
  refine ⟨?_, fun limit => ?_⟩
  · rw [hfind]
    unfold remapped
    rcases l.find? (Overrides mem irq ·) with _ | p <;> rfl
  · have hsame : (s.installed madtPtr).Inside limit ↔ s.Inside limit := Iff.rfl
    rw [hin, inside_cons, Nat.add_assoc, and_assoc]
    tauto

/-- The lookup returns if what it reads is in a table that is mapped. -/
theorem acpiGetRemmapedIrq_runs {irq : UInt32}
    (hl : Track (nextEntry mem) (tableLimit mem madtPtr) (add32 madtPtr sizeofAcpiMadt) l)
    (hlen : l.length < acpiRounds) (h8 : madtPtr + 8 ≤ limit) (hc : hw.Covers s.pages madtPtr (limit - madtPtr))
    (hle : ∀ p ∈ l, madtPtr ≤ p)
    (h : Each l fun l₁ p => (∀ q ∈ l₁, ¬ Overrides mem irq q) → RemapInside mem irq limit p) :
    ∃ s' v, (s.installed madtPtr).acpiGetRemmapedIrq mem hw irq = some (s', v) := by
  have h4 : hw.Covers (s.installed madtPtr).pages (madtPtr + 4) 4 :=
    hc.sub (Nat.le_add_right _ _) (by omega)
  rw [acpiGetRemmapedIrq_eq hl hlen, touch_eq h4, Option.bind_some]
  obtain ⟨r, hr⟩ := remap_runs hc l
    (s := { s.installed madtPtr with reads := (madtPtr + 4, 4) :: (s.installed madtPtr).reads }) rfl hle h
  exact ⟨_, _, Option.map_eq_some_iff.2 ⟨r, hr, rfl⟩⟩

/-! ## The results -/

/-- A MADT at 0x1000, with its checksum and its entries. -/
def madtAt (checksum : UInt8) (entries : List UInt8) (a : ℕ) : UInt8 :=
  if a < 0x1000 then 0
  else ([0x41, 0x50, 0x49, 0x43, UInt8.ofNat (44 + entries.length), 0, 0, 0, 1, checksum]
    ++ List.replicate 34 0 ++ entries).getD (a - 0x1000) 0

/-- A local APIC, an IO-APIC at 0xFEC00000 and the override of interrupt 0 by 2. -/
def lapicEntry : List UInt8 := [0, 8, 0, 0, 1, 0, 0, 0]
def ioApicEntry : List UInt8 := [1, 12, 0, 0, 0, 0, 0xC0, 0xFE, 0, 0, 0, 0]
def overrideEntry : List UInt8 := [2, 10, 0, 0, 2, 0, 0, 0, 0, 0]

/-- `kernel_mmap_hw` where all pages are mapped. -/
def allMapped : HwPages Unit where
  mmapHw pages _ := (pages, .mappingAlreadyExists)
  mapped _ _ := true
  keeps := fun _ => rfl
  maps := fun _ _ _ => rfl

/-- The data of `acpi.c` after `acpi_init` has cleared it. -/
def cleared : Acpi Unit :=
  ⟨(), 0, fun _ => 0, fun _ => 0, 0, fun _ => 0, false, 0, false, []⟩

/-- A MADT whose entries tile it is recorded, and both walks agree on its entries. -/
theorem madt_decoded (h0 : madtPtr ≠ 0) (hfit : madtPtr + tableLength mem madtPtr < 2 ^ 32)
    (hg : GoodTable mem acpiApicSig madtPtr) (hmap : MapsMadt mem hw s.pages madtPtr)
    (ht : Tiles mem (madtPtr + tableLength mem madtPtr) (madtPtr + sizeofAcpiMadt) l) :
    ∃ s', s.acpiParseDt mem hw madtPtr = some (s', .noErr) ∧ s'.Records mem l
      ∧ ∀ irq, ∃ s'', { s' with acpiInitialized := true }.acpiGetRemmapedIrq mem hw irq
        = some (s'', remapped mem l irq) := by
  obtain ⟨p₀, p₁, p₂, hm₀, hc₀, hm₁, hm₂⟩ := hmap
  have hle := ht.le
  have hlen44 : 44 ≤ tableLength mem madtPtr := by
    simp only [sizeofAcpiMadt] at hle
    omega
  have hc₁ := acpiMapData_keeps hm₁ hc₀
  have hc₂ := acpiMapData_keeps hm₂ hc₁
  have hlimit : tableLimit mem madtPtr = madtPtr + tableLength mem madtPtr := add32_of_lt hfit
  have hentry : add32 madtPtr sizeofAcpiMadt = madtPtr + sizeofAcpiMadt := add32_of_lt (by omega)
  have hsize : sub32 (tableLimit mem madtPtr) (add32 madtPtr sizeofAcpiMadt)
      = tableLength mem madtPtr - sizeofAcpiMadt := by
    rw [hlimit, hentry, sub32_of_le hle hfit]
    omega
  obtain ⟨htrack, hlen⟩ := ht.track hfit
  rw [← hlimit, ← hentry] at htrack
  have hrounds : l.length < acpiRounds := by
    simp only [acpiRounds]
    omega
  have hge : ∀ p ∈ l, madtPtr ≤ p := fun p hp => (Nat.le_add_right _ _).trans (ht.ge p hp)
  have hinside : Each l (EntryInside mem (tableLimit mem madtPtr)) := by
    rw [hlimit]
    rintro l₁ p l₂ rfl
    exact ht.inside p (by simp) l₁
  obtain ⟨-, hparseIn, hremapIn⟩ := each_entryInside.1 hinside
  have hcover : ∀ {q : ρ}, hw.Covers q madtPtr (tableLength mem madtPtr) →
      hw.Covers q madtPtr (tableLimit mem madtPtr - madtPtr) := fun h =>
    h.sub le_rfl (by omega)
  obtain ⟨s₁, hpages, -, hrun⟩ := acpiParseApic_good
    (s := { s with pages := p₀, reads := (madtPtr, 4) :: s.reads }) h0 hg hm₁ hc₁
    (hc₁.sub le_rfl (by omega))
  have hm₂' : acpiMapData hw s₁.pages (add32 madtPtr sizeofAcpiMadt)
      (sub32 (tableLimit mem madtPtr) (add32 madtPtr sizeofAcpiMadt)) = some (p₂, .noErr) := by
    rw [hpages, hsize, hentry]
    exact hm₂
  have hnotFacp : signature mem madtPtr ≠ acpiFacpSig := by
    rw [hg.signature]
    decide
  obtain ⟨s₂, hs₂⟩ := entries_run (hcover hc₂) l
    (s := { s₁ with pages := p₂, cpuCount := 0, ioApicCount := 0 })
    (records_nil mem { s₁ with pages := p₂ }) rfl hge hparseIn
  have hparse : { s with pages := p₀, reads := (madtPtr, 4) :: s.reads }.acpiParseApic mem hw madtPtr
      = some (s₂, .noErr) := by
    rw [hrun, mapData_eq hm₂']
    simp only [Option.bind_some, ne_eq, not_true, if_false]
    rw [parseEntries_eq, stride_of_track htrack hrounds, hs₂]
    rfl
  have hrec : s₂.Records mem l := (records_nil mem { s₁ with pages := p₂ }).over hs₂
  have hpages₂ : s₂.pages = p₂ := pages_over hs₂
  refine ⟨{ s₂ with madtParseSuccess := true, madt := madtPtr }, ?_,
    ⟨hrec.cpuCount, hrec.cpus, hrec.ioApicCount, hrec.tables⟩, fun irq => ?_⟩
  · unfold acpiParseDt
    rw [if_neg h0, mapData_eq hm₀]
    simp only [Option.bind_some, ne_eq, not_true, if_false]
    rw [touch_eq (s := { s with pages := p₀ }) (hc₀.sub le_rfl (by omega)), Option.bind_some,
      if_neg hnotFacp, if_pos hg.signature, hparse]
    rfl
  · obtain ⟨s', v, h1⟩ := acpiGetRemmapedIrq_runs (s := s₂) htrack hrounds (by omega)
      (hpages₂ ▸ hcover hc₂) hge (hremapIn irq)
    obtain ⟨rfl, -⟩ := acpiGetRemmapedIrq_eq_some htrack hrounds h1
    exact ⟨s', h1⟩

/-- Three entries. -/
theorem madt_decoded_three :
    let mem := madtAt 182 (lapicEntry ++ ioApicEntry ++ overrideEntry)
    ∃ s', cleared.acpiParseDt mem allMapped 0x1000 = some (s', .noErr)
      ∧ s'.Records mem [0x102C, 0x1034, 0x1040]
      ∧ ∀ irq, ∃ s'', { s' with acpiInitialized := true }.acpiGetRemmapedIrq mem allMapped irq
        = some (s'', remapped mem [0x102C, 0x1034, 0x1040] irq) := by
  refine madt_decoded (by decide) (by decide +kernel) ⟨by decide +kernel, by decide +kernel⟩
    ⟨(), (), (), by decide +kernel, fun _ _ => rfl, by decide +kernel, by decide +kernel⟩ ?_
  decide +kernel

/-- The loop over the entries ends in the table, and so do the lookups after it. -/
def EntriesInside (mem : ℕ → UInt8) (hw : HwPages ρ) (madtPtr : ℕ) (s : Acpi ρ) : Prop :=
  ∃ s', s.parseEntries mem hw (add32 madtPtr sizeofAcpiMadt) (tableLimit mem madtPtr) = some s'
    ∧ s'.Inside (tableLimit mem madtPtr)
    ∧ ∀ irq, ∃ s'' v,
      ({ s' with reads := [] }.installed madtPtr).acpiGetRemmapedIrq mem hw irq = some (s'', v)
        ∧ s''.Inside (tableLimit mem madtPtr)

/-- Loops that end in the table have read only entries that are in it. -/
theorem EntriesInside.entries (hspace : tableLimit mem madtPtr ≤ pagingRecurPgTable)
    (hcount : s.Records mem []) (h : s.EntriesInside mem hw madtPtr) :
    s.Inside (tableLimit mem madtPtr) ∧ madtPtr + 8 ≤ tableLimit mem madtPtr
      ∧ ∀ k, EntryVisited mem madtPtr k → EntryInside mem (tableLimit mem madtPtr)
        ((List.range k).map (entryAt mem madtPtr)) (entryAt mem madtPtr k) := by
  obtain ⟨s', hrun, hin, hlook⟩ := h
  obtain ⟨l, hl, hlen, hr⟩ := track_of_stride (fun _ _ _ h => (entryRound_eq_some h).1) hrun
  have hvisits : ∀ k, EntryVisited mem madtPtr k → entryLength mem (entryAt mem madtPtr k) ≠ 0 := by
    intro k hv h0
    have hlt : entryAt mem madtPtr k < tableLimit mem madtPtr := hv k le_rfl
    have hfix : nextEntry mem (entryAt mem madtPtr k) = entryAt mem madtPtr k := by
      rw [nextEntry_eq (hlt.trans_le hspace), h0, Nat.add_zero]
    exact Option.some_ne_none _ (hrun.symm.trans (parseEntries_stuck s hv hfix))
  have hpos : ∀ p ∈ l, entryLength mem p ≠ 0 := by
    intro p hp
    obtain ⟨l₁, l₂, hsplit⟩ := List.append_of_mem hp
    exact (hl.each_iff (P := fun _ p => entryLength mem p ≠ 0)).2 hvisits l₁ p l₂ hsplit
  obtain ⟨hs, hparse⟩ := (inside_over l hcount hr).1 hin
  have hlook' : ∀ irq, madtPtr + 8 ≤ tableLimit mem madtPtr ∧ Each l fun l₁ p =>
      (∀ q ∈ l₁, ¬ Overrides mem irq q) → RemapInside mem irq (tableLimit mem madtPtr) p := by
    intro irq
    obtain ⟨t, v, h3, h4⟩ := hlook irq
    obtain ⟨-, h2⟩ := acpiGetRemmapedIrq_eq_some hl hlen h3
    exact ((h2 _).1 h4).2
  exact ⟨hs, (hlook' 0).1,
    hl.each_iff.1 (each_entryInside.2 ⟨hpos, hparse, fun irq => (hlook' irq).2⟩)⟩

end Acpi

end RTLKIM
