import RTLKIM.Proofs.Join

/-!
# Who is reclaimed has left its CPU

A thread goes on past its `sched_schedule` in `sched_wait_thread` because its target woke it up, so
the target has exited (`Woken`); a joiner that reclaims a thread does so when the thread runs on no
CPU (`Parked`), if it was not elected, and did not find it a zombie, before.
-/

namespace RTLKIM

namespace JoinView

variable {v v' : JoinView} {l : Label} {t x j : ℕ}

/-- A thread recorded on another that has not yet woken it up joins it; who waits for a thread is
joining, or the thread has exited. -/
structure Woken (v : JoinView) : Prop where
  recorded : ∀ x j, v.slot x = some j → (v.pc x).woke = false → v.Joins j x
  waits : ∀ j x, v.pc j = .waitSched x ∨ v.pc j = .waitResumed x →
    v.state j = .joining ∨ (v.pc x).gone = true
  records : ∀ j x, v.pc j = .waitRecord x → v.state j = .joining

theorem Woken.congr (h : v.Woken) (hp : v'.pc = v.pc) (hst : v'.state = v.state)
    (hsl : v'.slot = v.slot) : v'.Woken := by
  obtain ⟨h1, h2, h3⟩ := h
  simp only [Joins] at h1
  refine ⟨?_, ?_, ?_⟩
  · simp only [Joins]
    rwa [hp, hst, hsl]
  · rwa [hp, hst]
  · rwa [hp, hst]

/-- `t` goes on to `p`. -/
theorem Woken.goto {p : Pc} (h : v.Woken)
    (hg : (v.pc t).gone = true → p.gone = true ∨ ∀ j, (v.pc j).target ≠ some t)
    (hw : (v.pc t).woke = true → p.woke = true ∨ v.slot t = none)
    (hk : ∀ x, v.Joins t x → p = .waitSched x ∨ p = .waitResumed x)
    (hp : ∀ x, p = .waitSched x ∨ p = .waitResumed x →
      v.state t = .joining ∨ v.pc t = .waitSched x ∨ v.pc t = .waitResumed x)
    (hr : ∀ x, p = .waitRecord x → v.state t = .joining) :
    Woken { v with pc := Function.update v.pc t p } := by
  set v' : JoinView := { v with pc := Function.update v.pc t p } with hv'
  have hself : v'.pc t = p := Function.update_self _ _ _
  have hne : ∀ {j}, j ≠ t → v'.pc j = v.pc j := fun hj => Function.update_of_ne hj _ _
  have hwaits : ∀ j x, v.pc j = .waitSched x ∨ v.pc j = .waitResumed x →
      v.state j = .joining ∨ (v'.pc x).gone = true := by
    intro j x hj
    refine (h.waits j x hj).imp_right fun hx => ?_
    by_cases hxt : x = t
    · subst hxt
      rw [hself]
      refine (hg hx).resolve_right fun hn => hn j ?_
      rcases hj with hj | hj <;> rw [hj] <;> rfl
    · rwa [hne hxt]
  refine ⟨fun x j hj hx => ?_, fun j x hj => ?_, fun j x hj => ?_⟩
  · have hx' : (v.pc x).woke = false := by
      by_cases hxt : x = t
      · subst hxt
        rw [hself] at hx
        by_contra hcon
        rcases hw (by simpa using hcon) with h1 | h1
        · rw [h1] at hx
          cases hx
        · have hj' : v.slot x = some j := hj
          rw [h1] at hj'
          cases hj'
      · rwa [hne hxt] at hx
    obtain ⟨h1, h2⟩ := h.recorded x j hj hx'
    refine ⟨h1, ?_⟩
    by_cases hjt : j = t
    · subst hjt
      rw [hself]
      exact hk x ⟨h1, h2⟩
    · rwa [hne hjt]
  · by_cases hjt : j = t
    · subst hjt
      rw [hself] at hj
      rcases hp x hj with h1 | h1
      · exact .inl h1
      · exact hwaits j x h1
    · rw [hne hjt] at hj
      exact hwaits j x hj
  · by_cases hjt : j = t
    · subst hjt
      rw [hself] at hj
      exact hr x hj
    · rw [hne hjt] at hj
      exact h.records j x hj

/-- `t`, which does not join, goes on outside the end of `sched_wait_thread`. -/
theorem Woken.goto_away {p : Pc} (h : v.Woken) (hg : (v.pc t).gone = true → p.gone = true)
    (hw : (v.pc t).woke = true → p.woke = true)
    (hst : v.state t ≠ .joining ∨ (v.pc t).joins = false) (hp : p.joins = false) :
    Woken { v with pc := Function.update v.pc t p } := by
  refine h.goto (fun h1 => .inl (hg h1)) (fun h1 => .inl (hw h1)) (fun x hx => ?_) (fun x hx => ?_)
    fun x hx => ?_
  · rcases hst with h1 | h1
    · exact absurd hx.1 h1
    · rcases hx.2 with h2 | h2 <;> rw [h2] at h1 <;> cases h1
  · rcases hx with rfl | rfl <;> cases hp
  · subst hx
    cases hp

/-- A thread that joins `y` is recorded on it, or none is. -/
theorem Woken.record {y : ℕ} {r : Option ℕ} (h : v.Woken) (hr : ∀ j, r = some j → v.Joins j y) :
    Woken { v with slot := Function.update v.slot y r } where
  recorded x j hj hx := by
    have hj' : Function.update v.slot y r x = some j := hj
    by_cases hxy : x = y
    · subst hxy
      rw [Function.update_self] at hj'
      exact hr j hj'
    · rw [Function.update_of_ne hxy] at hj'
      exact h.recorded x j hj' hx
  waits := h.waits
  records := h.records

/-- States change, and who joins still does. -/
theorem Woken.states {st : ℕ → ThreadState} (h : v.Woken)
    (hst : ∀ j, v.state j = .joining → (v.pc j).joins = true → st j = .joining) :
    Woken { v with state := st } where
  recorded x j hj hx := by
    obtain ⟨h1, h2⟩ := h.recorded x j hj hx
    refine ⟨hst j h1 ?_, h2⟩
    rcases h2 with h2 | h2 <;> rw [h2] <;> rfl
  waits j x hj := by
    refine (h.waits j x hj).imp_left fun h1 => hst j h1 ?_
    have hj' : v.pc j = .waitSched x ∨ v.pc j = .waitResumed x := hj
    rcases hj' with h2 | h2 <;> rw [h2] <;> rfl
  records j x hj := by
    have hj' : v.pc j = .waitRecord x := hj
    exact hst j (h.records j x hj) (by rw [hj']; rfl)

theorem Woken.soft {st : ℕ → ThreadState} (h : v.Woken) (hst : Soft v.state st) :
    Woken { v with state := st } := by
  refine h.states fun j hj _ => ?_
  rcases hst j with h1 | ⟨h1, -⟩
  · rw [h1, hj]
  · simp [hj, ThreadState.plain] at h1

theorem Woken.setState {y : ℕ} {a : ThreadState} (h : v.Woken)
    (hst : v.state y = .joining → (v.pc y).joins = true → a = .joining) :
    Woken { v with state := Function.update v.state y a } := by
  refine h.states fun j hj hp => ?_
  by_cases hjy : j = y
  · subst hjy
    rw [Function.update_self]
    exact hst hj hp
  · rwa [Function.update_of_ne hjy]

/-- The thread that joins `t` is made ready, when `t` has gone on. -/
theorem Woken.wake (h : v.Woken) (hj : v.Joins j t) (hw : (v.pc t).woke = true)
    (hg : (v.pc t).gone = true) : Woken { v with state := Function.update v.state j .ready } := by
  have hx : ∀ x, v.pc j = .waitSched x ∨ v.pc j = .waitResumed x → x = t := by
    intro x hx
    rcases hj.2 with h1 | h1 <;> rw [h1] at hx <;> simp at hx <;> exact hx.symm
  refine ⟨fun x i hi hx' => ?_, fun i x hi => ?_, fun i x hi => ?_⟩
  · have hji := h.recorded x i hi hx'
    have hne : i ≠ j := by
      rintro rfl
      rw [hx x hji.2] at hx'
      rw [show (v.pc t).woke = false from hx'] at hw
      cases hw
    exact ⟨(Function.update_of_ne hne _ _).trans hji.1, hji.2⟩
  · by_cases hij : i = j
    · subst hij
      rw [hx x hi]
      exact .inr hg
    · exact (h.waits i x hi).imp_left (Function.update_of_ne hij _ _).trans
  · have hne : i ≠ j := by
      rintro rfl
      have hi' : v.pc i = .waitRecord x := hi
      rcases hj.2 with h1 | h1 <;> rw [h1] at hi' <;> cases hi'
    exact (Function.update_of_ne hne _ _).trans (h.records i x hi)

theorem Woken.switch {p : Pc} (h : v.Woken) (hl : Leaves (v.pc t) p) :
    Woken { v with pc := Function.update v.pc t p } := by
  have hstay : ∀ {q : Pc}, q = v.pc t → Woken { v with pc := Function.update v.pc t q } := by
    rintro q rfl
    rw [Function.update_eq_self]
    exact h
  generalize hq : v.pc t = q at hl
  cases hl with
  | timer => exact hstay hq.symm
  | sched => exact h.goto_away (by simp [hq, Pc.gone]) (by simp [hq, Pc.woke]) (.inr (by rw [hq]; rfl)) rfl
  | wait y =>
    refine h.goto (by simp [hq, Pc.gone]) (by simp [hq, Pc.woke]) ?_ ?_ (by simp)
    · rintro x ⟨-, h1 | h1⟩ <;> rw [hq] at h1 <;> cases h1
      exact .inr rfl
    · rintro x (h1 | h1) <;> cases h1
      exact .inr (.inl hq)
  | exit => exact h.goto_away (fun _ => rfl) (fun _ => rfl) (.inr (by rw [hq]; rfl)) rfl

theorem Goes.not_joining {c : ℕ} {p : Pc} (hv : v.Coherent) (hc : v.active c = some t)
    (hp : v.Goes t p) : v.state t ≠ .joining := by
  intro hj
  have h := hv.parked t hj
  cases hp with
  | joined y hp =>
    have := hv.busy c t hc (by rw [hp]; rfl) (by rw [hp]; rfl)
    rw [hj] at this
    cases this
  | isDead _ hp | notDead _ hp | isZombie _ hp | notZombie _ hp | cleaned _ hp | isInit hp
  | notInit hp | enter hp | push hp | child hp | childless hp | delete hp | search _ hp
  | wakeNone hp | notJoining _ hp | leave hp =>
    rw [hp] at h
    cases h

theorem Goes.woke {p : Pc} (hp : v.Goes t p) (hw : (v.pc t).woke = true) : p.woke = true := by
  cases hp <;> simp_all [Pc.woke]

theorem Goes.joins {p : Pc} (hp : v.Goes t p) : p.joins = false := by
  cases hp <;> rfl

theorem Woken.move (hv : v.Coherent) (hb : v.Bound) (h : v.Woken) (hm : v.Move l v') :
    v'.Woken := by
  cases hm with
  | call t p st hp hq hst =>
    refine (h.soft hst).goto_away (t := t) (by simp [hp, Pc.gone]) (by simp [hp, Pc.woke])
      (.inr ?_) ?_
    · show (v.pc t).joins = false
      rw [hp]
      rfl
    · cases hq <;> rfl
  | born st act hst =>
    have hfresh : v.pc v.created = .exited := hv.fresh _ le_rfl
    have h₁ := (h.record (y := v.created) (r := none) (by simp)).setState (y := v.created) (a := st)
      fun _ hj => by
        have hj' : (v.pc v.created).joins = true := hj
        rw [hfresh] at hj'
        cases hj'
    refine (h₁.goto (t := v.created) (p := .run) (fun _ => .inr fun j hj => ?_)
      (fun _ => .inr (Function.update_self _ _ _)) (fun x hx => ?_) (by simp) (by simp)).congr rfl rfl rfl
    · exact absurd (hb.target j _ hj) (lt_irrefl _)
    · have hx' : v.pc v.created = .waitSched x ∨ v.pc v.created = .waitResumed x := hx.2
      rw [hfresh] at hx'
      rcases hx' with h2 | h2 <;> cases h2
  | switch l c t p n st hc hl hcr hwho hlab hst hn =>
    exact ((h.switch hl).soft hst).congr rfl rfl rfl
  | goes c t p hc hp =>
    exact h.goto_away (by rw [hp.gone]; exact id) hp.woke (.inl (hp.not_joining hv hc)) hp.joins
  | marks c t y hc hp =>
    have h₁ := h.setState (y := y) (a := .dead) fun hy _ => by
      have := (hv.gone y).1 (hb.marks t y hp)
      simp [hy] at this
    refine (h₁.goto_away (t := t) (p := .waitClean y) ?_ ?_ (.inr ?_) rfl).congr rfl rfl rfl
    · simp [hp, Pc.gone]
    · simp [hp, Pc.woke]
    · show (v.pc t).joins = false
      rw [hp]
      rfl
  | joins c t y hc hp =>
    have h₁ := h.setState (y := t) (a := .joining) fun _ _ => rfl
    refine (h₁.goto (t := t) (p := .waitRecord y) ?_ ?_ (fun x hx => ?_) (by simp) fun _ _ => ?_).congr
      rfl rfl rfl
    · simp [hp, Pc.gone]
    · simp [hp, Pc.woke]
    · have hx' : v.pc t = .waitSched x ∨ v.pc t = .waitResumed x := hx.2
      rw [hp] at hx'
      rcases hx' with h2 | h2 <;> cases h2
    · exact Function.update_self _ _ _
  | records c t y hc hp =>
    have hj := h.records t y hp
    have h₁ := h.goto (t := t) (p := .waitSched y) (by simp [hp, Pc.gone]) (by simp [hp, Pc.woke])
      (fun x hx => ?_) (fun _ _ => .inl hj) (by simp)
    · refine (h₁.record (y := y) (r := some t) fun i hi => ?_).congr rfl rfl rfl
      cases hi
      exact ⟨hj, .inl (Function.update_self _ _ _)⟩
    · have hx' := hx.2
      rw [hp] at hx'
      rcases hx' with h2 | h2 <;> cases h2
  | exits c t hc hp =>
    have h₁ := h.setState (y := t) (a := .zombie) fun _ hj => by
      rw [hp] at hj
      cases hj
    refine (h₁.goto_away (t := t) (p := .exitTestInit) (fun _ => rfl) ?_ (.inr ?_) rfl).congr rfl rfl rfl
    · simp [hp, Pc.woke]
    · show (v.pc t).joins = false
      rw [hp]
      rfl
  | wakes c t i hc hp hi =>
    have h₁ := h.goto_away (t := t) (p := .exitLeave) (fun _ => rfl) (fun _ => rfl)
      (.inr (by rw [hp]; rfl)) rfl
    have hji := h.recorded t i (hv.found t i hp) (by rw [hp]; rfl)
    have hit : i ≠ t := by
      rintro rfl
      have := hji.2
      rw [hp] at this
      rcases this with h2 | h2 <;> cases h2
    have hji₁ : Joins { v with pc := Function.update v.pc t .exitLeave } i t := by
      refine ⟨hji.1, ?_⟩
      show Function.update v.pc t .exitLeave i = _ ∨ Function.update v.pc t .exitLeave i = _
      rw [Function.update_of_ne hit]
      exact hji.2
    refine (h₁.wake hji₁ ?_ ?_).congr rfl rfl rfl
    · show (Function.update v.pc t .exitLeave t).woke = true
      rw [Function.update_self]
      rfl
    · show (Function.update v.pc t .exitLeave t).gone = true
      rw [Function.update_self]
      rfl

/-! ## CPUs -/

/-- Who is about to be marked dead or reclaimed runs nowhere. -/
structure Parked (v : JoinView) : Prop where
  marked : ∀ j x, v.pc j = .waitMarkDead x ∨ v.pc j = .waitClean x →
    (v.pc x).gone = true ∧ ∀ c, v.active c ≠ some x
  resumed : ∀ c j x, v.active c = some j → v.pc j = .waitResumed x → ∀ c', v.active c' ≠ some x

/-- A CPU is given to no thread that has exited. -/
theorem Move.active {c : ℕ} (hv' : v'.Coherent) (hm : v.Move l v') (hg : (v'.pc x).gone = true)
    (hc : v'.active c = some x) : v.active c = some x := by
  cases hm with
  | born st act hst ha hk =>
    refine (ha c x hc).resolve_right ?_
    rintro rfl
    have : (Function.update v.pc v.created .run v.created).gone = true := hg
    rw [Function.update_self] at this
    cases this
  | switch l c₀ t p n st hc₀ hl hcr hwho hlab hst hn =>
    have hc' : Function.update v.active c₀ (some n) c = some x := hc
    by_cases hcc : c = c₀
    · rw [hcc, Function.update_self] at hc'
      obtain rfl : n = x := Option.some_inj.1 hc'
      have hst' : st n = .zombie ∨ st n = .dead := (hv'.gone n).1 hg
      simp [hn] at hst'
    · rwa [Function.update_of_ne hcc] at hc'
  | call | goes | marks | joins | records | exits | wakes => exact hc

/-- The CPU that a thread goes on with past its `sched_schedule`. -/
theorem Move.resumes {c : ℕ} (hv : v.Coherent) (hm : v.Move l v') (hc : v'.active c = some j)
    (hj : v'.pc j = .waitResumed x) : v.active c = some j ∧ v.pc j = .waitResumed x
      ∨ ∃ t, (l = .timer t ∨ l = .stmt t) ∧ v.active c = some t := by
  have hpc : ∀ {t : ℕ} {p : Pc}, Function.update v.pc t p j = .waitResumed x → p ≠ .waitResumed x →
      v.pc j = .waitResumed x ∧ j ≠ t := by
    intro t p h hp
    by_cases hjt : j = t
    · rw [hjt, Function.update_self] at h
      exact absurd h hp
    · rw [Function.update_of_ne hjt] at h
      exact ⟨h, hjt⟩
  cases hm with
  | call t p st hp hq => exact .inl ⟨hc, (hpc hj (by rintro rfl; cases hq)).1⟩
  | born st act hst ha hk =>
    obtain ⟨h1, h2⟩ := hpc hj (by simp)
    exact .inl ⟨(ha c j hc).resolve_right h2, h1⟩
  | switch l c₀ t p n st hc₀ hl hcr hwho hlab hst hn =>
    by_cases hcc : c = c₀
    · subst hcc
      exact .inr ⟨t, hwho, hc₀⟩
    · have hc' : v.active c = some j := (Function.update_of_ne hcc _ _).symm.trans hc
      have hjt : j ≠ t := by
        rintro rfl
        exact hcc (hv.once c c₀ j hc' hc₀)
      exact .inl ⟨hc', (Function.update_of_ne hjt _ _).symm.trans hj⟩
  | goes c t p _ hp => exact .inl ⟨hc, (hpc hj (by rintro rfl; cases hp)).1⟩
  | marks | joins | records | exits | wakes => exact .inl ⟨hc, (hpc hj (by simp)).1⟩

theorem Parked.move (hv : v.Coherent) (hv' : v'.Coherent) (hb : v.Bound) (hw : v'.Woken)
    (h : v.Parked) (hm : v.Move l v')
    (htest : ∀ t x, l = .stmt t → v.pc t = .waitZombie x → v.state x = .zombie →
      ∀ c, v.active c ≠ some x)
    (helect : ∀ c t n x, l = .timer t ∨ l = .stmt t → v.active c = some t → v'.active c = some n →
      v'.pc n = .waitResumed x → ∀ c', c' ≠ c → v.active c' ≠ some x) : v'.Parked := by
  refine ⟨fun j x hj => ?_, fun c j x hc hj c' hc' => ?_⟩
  · obtain ⟨t, p, hpc, htarget, hmark, hclean⟩ := hm.pc
    -- before the move the target was as it has to be, or has just been found so
    have hx : x < v.created ∧ (v.pc x).gone = true ∧ ∀ c, v.active c ≠ some x := by
      have hparked : ∀ i, v.pc i = .waitMarkDead x ∨ v.pc i = .waitClean x →
          x < v.created ∧ (v.pc x).gone = true ∧ ∀ c, v.active c ≠ some x := by
        intro i hi
        refine ⟨hb.target i x ?_, h.marked i x hi⟩
        rcases hi with hi | hi <;> rw [hi] <;> rfl
      rw [hpc] at hj
      by_cases hjt : j = t
      · subst hjt
        rw [Function.update_self] at hj
        rcases hj with rfl | rfl
        · rcases hmark x rfl with h1 | ⟨h1, h2, h3⟩
          · exact hparked j (.inl h1)
          · exact ⟨hb.target j x (by rw [h2]; rfl), (hv.gone x).2 (.inl h3), htest j x h1 h2 h3⟩
        · exact hparked j (hclean x rfl).symm
      · rw [Function.update_of_ne hjt] at hj
        exact hparked j hj
    have hg := hm.gone hx.1 hx.2.1
    exact ⟨hg, fun c hc => hx.2.2 c (hm.active hv' hg hc)⟩
  · -- who goes on past its switch runs, so it is joining no more
    have hg : (v'.pc x).gone = true := by
      have hrun := hv'.busy c j hc (by rw [hj]; rfl) (by rw [hj]; rfl)
      refine (hw.waits j x (.inr hj)).resolve_left fun h1 => ?_
      rw [hrun] at h1
      cases h1
    have hx := hm.active hv' hg hc'
    rcases hm.resumes hv hc hj with ⟨h1, h2⟩ | ⟨t, h1, h2⟩
    · exact h.resumed c j x h1 h2 c' hx
    · by_cases hcc : c' = c
      · subst hcc
        obtain rfl : j = x := Option.some_inj.1 (hc.symm.trans hc')
        rw [hj] at hg
        cases hg
      · exact helect c t j x h1 h2 hc hj c' hcc hx

end JoinView

end RTLKIM
