import RTLKIM.Proofs.SchedSelect

/-!
# The join protocol keeps its joiners

What a view of the scheduler has in every state (`Coherent`, `Bound`), and the invariant of a target
(`Expects`): who has tested it and is to join it is recorded before it looks for its joiner, and who
has joined it is the thread it finds.
-/

namespace RTLKIM

namespace JoinView

variable {v v' : JoinView} {l : Label} {t x j : ℕ}

/-- What `Core` says of a view. -/
structure Coherent (v : JoinView) : Prop where
  gone : ∀ t, (v.pc t).gone = true ↔ v.state t = .zombie ∨ v.state t = .dead
  busy : ∀ c t, v.active c = some t → (v.pc t).yields = false → (v.pc t).gone = false →
    v.state t = .running
  found : ∀ t j, v.pc t = .exitWake (some j) → v.slot t = some j
  fresh : ∀ t, v.created ≤ t → v.pc t = .exited
  parked : ∀ t, v.state t = .joining → (v.pc t).joins = true
  active : ∀ c t, v.active c = some t → t < v.created
  once : ∀ c c' t, v.active c = some t → v.active c' = some t → c = c'
  init : (v.pc v.init).inner = false

/-- The targets of calls are threads, and one that is about to be marked dead is gone. -/
structure Bound (v : JoinView) : Prop where
  target : ∀ t x, (v.pc t).target = some x → x < v.created
  marks : ∀ t x, v.pc t = .waitMarkDead x → (v.pc x).gone = true

theorem Goes.gone {p : Pc} (h : v.Goes t p) : p.gone = (v.pc t).gone := by
  cases h <;> rw [‹v.pc t = _›] <;> rfl

theorem Move.created_le (hm : v.Move l v') : v.created ≤ v'.created := by
  cases hm <;> first | exact le_rfl | exact Nat.le_succ _

theorem Move.init_eq (hm : v.Move l v') : v'.init = v.init := by
  cases hm <;> rfl

/-- A thread that has exited stays so. -/
theorem Move.gone (hm : v.Move l v') (hx : x < v.created) (hg : (v.pc x).gone = true) :
    (v'.pc x).gone = true := by
  have hupd : ∀ {t : ℕ} {p : Pc}, ((v.pc t).gone = true → p.gone = true) →
      (Function.update v.pc t p x).gone = true := by
    intro t p hp
    by_cases hxt : x = t
    · subst hxt
      rw [Function.update_self]
      exact hp hg
    · rwa [Function.update_of_ne hxt]
  cases hm with
  | call t p st hp => exact hupd (by simp [hp, Pc.gone])
  | born =>
    have hne : x ≠ v.created := by omega
    exact (congrArg Pc.gone (Function.update_of_ne hne _ _)).trans hg
  | switch l c t p n st hc hl => exact hupd (by rw [hl.gone]; exact id)
  | goes c t p hc hp => exact hupd (by rw [hp.gone]; exact id)
  | marks c t x hc hp | joins c t x hc hp | records c t x hc hp => exact hupd (by simp [hp, Pc.gone])
  | exits | wakes => exact hupd fun _ => rfl

/-- What is searched has not been, and init, which looks for nobody, is not gone. -/
def Open (v : JoinView) (x : ℕ) : Prop :=
  (v.pc x).searched = false ∧ (x = v.init → (v.pc x).gone = false)

structure Expects (v : JoinView) (x : ℕ) : Prop where
  tested : ∀ j, v.pc j = .waitZombie x → v.state x ≠ .dead
  committed : ∀ j, v.Committed j x → v.Open x
  joined : ∀ j, v.Joins j x → v.slot x = some j ∧ (v.Open x ∨ v.pc x = .exitWake (some j))

theorem Expects.congr (h : v.Expects x) (hp : v'.pc = v.pc) (hst : v'.state = v.state)
    (hsl : v'.slot = v.slot) (hi : v'.init = v.init) : v'.Expects x := by
  obtain ⟨h1, h2, h3⟩ := h
  refine ⟨?_, ?_, ?_⟩
  · rwa [hp, hst]
  · simp only [Committed, Open] at h2 ⊢
    rwa [hp, hi]
  · simp only [Joins, Open] at h3 ⊢
    rwa [hp, hst, hsl, hi]

/-- Nobody waits for `x`. -/
theorem Expects.of_untargeted (h : ∀ j, (v.pc j).target ≠ some x) : v.Expects x where
  tested j hj := absurd (by rw [hj]; rfl) (h j)
  committed j hj := by
    rcases hj with hj | hj <;> exact absurd (by rw [hj]; rfl) (h j)
  joined j hj := by
    rcases hj with ⟨-, hj | hj⟩ <;> exact absurd (by rw [hj]; rfl) (h j)

/-- States change: no thread joins `x` that did not, and `x` dies in the eyes of nobody. -/
theorem Expects.states {st : ℕ → ThreadState} (h : v.Expects x)
    (hj : ∀ j, st j = .joining → v.state j = .joining ∨ ¬ (v.pc j).joins)
    (hd : st x = .dead → v.state x = .dead ∨ ∀ j, v.pc j ≠ .waitZombie x) :
    Expects { v with state := st } x where
  tested j hp hs := by
    rcases hd hs with h1 | h1
    · exact h.tested j hp h1
    · exact h1 j hp
  committed := h.committed
  joined j := by
    rintro ⟨hs, hp⟩
    rcases hj j hs with h1 | h1
    · exact h.joined j ⟨h1, hp⟩
    · have hp' : v.pc j = .waitSched x ∨ v.pc j = .waitResumed x := hp
      rcases hp' with hp' | hp' <;> exact absurd (by rw [hp']; rfl) h1

theorem Expects.setState {y : ℕ} {a : ThreadState} (h : v.Expects x)
    (hj : a = .joining → ¬ (v.pc y).joins)
    (hd : a = .dead → x = y → ∀ j, v.pc j ≠ .waitZombie x) :
    Expects { v with state := Function.update v.state y a } x := by
  refine h.states (fun j hst => ?_) fun hst => ?_
  · by_cases hjy : j = y
    · subst hjy
      rw [Function.update_self] at hst
      exact .inr (hj hst)
    · rw [Function.update_of_ne hjy] at hst
      exact .inl hst
  · by_cases hxy : x = y
    · subst hxy
      rw [Function.update_self] at hst
      exact .inr (hd hst rfl)
    · rw [Function.update_of_ne hxy] at hst
      exact .inl hst

/-- A joiner is recorded: on another thread, or where none was. -/
theorem Expects.record {y : ℕ} {r : Option ℕ} (h : v.Expects x) (hy : x = y → v.slot x = none) :
    Expects { v with slot := Function.update v.slot y r } x where
  tested := h.tested
  committed := h.committed
  joined j hj := by
    obtain ⟨h1, h2⟩ := h.joined j hj
    refine ⟨?_, h2⟩
    by_cases hxy : x = y
    · rw [hy hxy] at h1
      cases h1
    · exact (Function.update_of_ne hxy _ _).trans h1

/-- `t` goes on to `p`. Where `x` itself is past its search, or past its exit if it is init, nobody
is to join it any more but the thread it found. -/
theorem Expects.goto {p : Pc} (h : v.Expects x)
    (hz : p = .waitZombie x → v.pc t = .waitZombie x ∨ v.state x ≠ .dead)
    (hcm : p = .waitJoining x ∨ p = .waitRecord x → v.Committed t x ∨ v.Open x)
    (hjn : p = .waitSched x ∨ p = .waitResumed x → v.state t = .joining →
      v.Joins t x ∨ v.slot x = some t ∧ v.Open x)
    (hop : t = x → v.Open x → (p.searched = false ∧ (x = v.init → p.gone = false))
      ∨ (∀ j, ¬ v.Committed j x) ∧ p.gone = true ∧ ∀ j, v.Joins j x → p = .exitWake (some j))
    (hwk : t = x → ∀ j, v.pc x = .exitWake (some j) → ¬ v.Joins j x) :
    Expects { v with pc := Function.update v.pc t p } x := by
  set v' : JoinView := { v with pc := Function.update v.pc t p } with hv'
  have hself : v'.pc t = p := Function.update_self _ _ _
  have hne : ∀ {j}, j ≠ t → v'.pc j = v.pc j := fun hj => Function.update_of_ne hj _ _
  have hcommits : ∀ j, v'.Committed j x → v.Committed j x ∨ v.Open x ∧ p.gone = false := by
    intro j hj
    unfold Committed at hj
    by_cases h' : j = t
    · subst h'
      rw [hself] at hj
      refine (hcm hj).imp_right fun ho => ⟨ho, ?_⟩
      rcases hj with rfl | rfl <;> rfl
    · rw [hne h'] at hj
      exact .inl hj
  have hjoins : ∀ j, v'.Joins j x →
      v.Joins j x ∨ (v.slot x = some j ∧ v.Open x) ∧ p.gone = false := by
    intro j hj
    unfold Joins at hj
    by_cases h' : j = t
    · subst h'
      rw [hself] at hj
      refine (hjn hj.2 hj.1).imp_right fun ho => ⟨ho, ?_⟩
      rcases hj.2 with rfl | rfl <;> rfl
    · rw [hne h'] at hj
      exact .inl hj
  refine ⟨fun j hj => ?_, fun j hj => ?_, fun j hj => ?_⟩
  · by_cases h' : j = t
    · subst h'
      rw [hself] at hj
      exact (hz hj).elim (h.tested j) id
    · rw [hne h'] at hj
      exact h.tested j hj
  · have ho : v.Open x := (hcommits j hj).elim (h.committed j) And.left
    unfold Open
    by_cases h' : t = x
    · subst h'
      rw [hself]
      rcases hop rfl ho with h1 | ⟨h1, h2, -⟩
      · exact h1
      · rcases hcommits j hj with h3 | ⟨-, h3⟩
        · exact absurd h3 (h1 j)
        · simp [h2] at h3
    · rw [hne (Ne.symm h')]
      exact ho
  · have hj' : v.slot x = some j ∧ (v.Open x ∨ v.pc x = .exitWake (some j)) := by
      rcases hjoins j hj with h1 | ⟨⟨h1, h2⟩, -⟩
      · exact h.joined j h1
      · exact ⟨h1, .inl h2⟩
    refine ⟨hj'.1, ?_⟩
    unfold Open
    by_cases h' : t = x
    · subst h'
      rw [hself]
      rcases hj'.2 with ho | hw
      · rcases hop rfl ho with h1 | ⟨-, h2, h3⟩
        · exact .inl h1
        · rcases hjoins j hj with h4 | ⟨-, h4⟩
          · exact .inr (h3 j h4)
          · simp [h2] at h4
      · rcases hjoins j hj with h4 | ⟨⟨-, h4⟩, -⟩
        · exact absurd h4 (hwk rfl j hw)
        · simp [Open, hw, Pc.searched] at h4
    · rw [hne (Ne.symm h')]
      exact hj'.2

theorem Soft.dead {st st' : ℕ → ThreadState} (h : Soft st st') (hd : st' x = .dead) :
    st x = .dead := by
  rcases h x with h1 | ⟨-, h1⟩
  · rw [← h1, hd]
  · simp [hd, ThreadState.plain] at h1

theorem Soft.joining {st st' : ℕ → ThreadState} (h : Soft st st') (hd : st' x = .joining) :
    st x = .joining := by
  rcases h x with h1 | ⟨-, h1⟩
  · rw [← h1, hd]
  · simp [hd, ThreadState.plain] at h1

theorem Expects.soft {st : ℕ → ThreadState} (h : v.Expects x) (hst : Soft v.state st) :
    Expects { v with state := st } x :=
  h.states (fun _ hj => .inl (hst.joining hj)) fun hd => .inl (hst.dead hd)

/-- `t` goes on outside `sched_wait_thread` and its target does not change. -/
theorem Expects.goto_away {p : Pc} (h : v.Expects x) (hp : p.target = none)
    (hs : t = x → v.Open x → p.searched = false ∧ (x = v.init → p.gone = false))
    (hwk : t = x → ∀ j, v.pc x = .exitWake (some j) → ¬ v.Joins j x) :
    Expects { v with pc := Function.update v.pc t p } x := by
  refine h.goto ?_ ?_ ?_ (fun ht ho => .inl (hs ht ho)) hwk
  · rintro rfl
    cases hp
  · rintro (rfl | rfl) <;> cases hp
  · rintro (rfl | rfl) <;> cases hp

/-- A statement that stores neither a state nor a joiner. -/
theorem Expects.goes {p : Pc} (hv : v.Coherent) (h : v.Expects x) (hp : v.Goes t p)
    (hok : v.pc t = .exitSearch → t = x → ∀ j, ¬ v.Committed j x) :
    Expects { v with pc := Function.update v.pc t p } x := by
  have hnot : ∀ {q : Pc}, v.pc t = q → (∀ j, q ≠ .exitWake (some j)) →
      t = x → ∀ j, v.pc x = .exitWake (some j) → ¬ v.Joins j x := by
    rintro q hq hne rfl j hj
    exact absurd (hq.symm.trans hj) (hne j)
  cases hp with
  | isDead y hp => exact h.goto_away rfl (fun _ _ => ⟨rfl, fun _ => rfl⟩) (hnot hp (by simp))
  | notDead y hp hd =>
    refine h.goto (fun hx => .inr ?_) (by simp) (by simp) (fun _ _ => .inl ⟨rfl, fun _ => rfl⟩)
      (hnot hp (by simp))
    rwa [← Pc.waitZombie.inj hx]
  | isZombie y hp hd =>
    exact h.goto (by simp) (by simp) (by simp) (fun _ _ => .inl ⟨rfl, fun _ => rfl⟩)
      (hnot hp (by simp))
  | notZombie y hp hd =>
    refine h.goto (by simp) (fun hx => .inr ?_) (by simp) (fun _ _ => .inl ⟨rfl, fun _ => rfl⟩)
      (hnot hp (by simp))
    obtain rfl : y = x := by simpa using hx
    -- the target is neither dead nor a zombie, so it has not begun to exit
    have hg : (v.pc y).gone = false := by
      rw [← Bool.not_eq_true, hv.gone]
      exact fun h' => h'.elim hd (h.tested t hp)
    exact ⟨by cases hy : v.pc y <;> simp_all [Pc.gone, Pc.searched], fun _ => hg⟩
  | cleaned y hp => exact h.goto_away rfl (fun _ _ => ⟨rfl, fun _ => rfl⟩) (hnot hp (by simp))
  | joined y hp => exact h.goto_away rfl (fun _ _ => ⟨rfl, fun _ => rfl⟩) (hnot hp (by simp))
  | isInit hp hi =>
    refine h.goto_away rfl (fun ht ho => ?_) (hnot hp (by simp))
    subst ht
    have := ho.2 hi
    simp [hp, Pc.gone] at this
  | notInit hp hi =>
    exact h.goto_away rfl (fun ht _ => ⟨rfl, fun h' => absurd (ht.trans h') hi⟩) (hnot hp (by simp))
  | enter hp | push hp | child hp | childless hp | delete hp =>
    refine h.goto_away rfl (fun ht ho => ⟨rfl, fun h' => ?_⟩) (hnot hp (by simp))
    subst ht
    have := ho.2 h'
    simp [hp, Pc.gone] at this
  | search r hp hr =>
    refine h.goto (by simp) (by simp) (by simp) (fun ht ho => .inr ⟨hok hp ht, rfl, fun j hj => ?_⟩)
      (hnot hp (by simp))
    subst ht
    -- the joiner recorded is joining, so it has not exited and its node still holds it
    have hg : (v.pc j).gone = false := by
      rcases hj.2 with h' | h' <;> rw [h'] <;> rfl
    rw [hr j (h.joined j hj).1 hg]
  | wakeNone hp =>
    refine h.goto_away rfl (fun ht ho => ?_) (hnot hp (by simp))
    subst ht
    simp [Open, hp, Pc.searched] at ho
  | notJoining j hp hj =>
    refine h.goto_away rfl (fun ht ho => ?_) fun ht i hi hji => ?_
    · subst ht
      simp [Open, hp, Pc.searched] at ho
    · subst ht
      rw [hp] at hi
      cases hi
      exact hj hji.1
  | leave hp =>
    refine h.goto_away rfl (fun ht ho => ?_) (hnot hp (by simp))
    subst ht
    simp [Open, hp, Pc.searched] at ho

theorem Expects.switch {p : Pc} (h : v.Expects x) (hl : Leaves (v.pc t) p) :
    Expects { v with pc := Function.update v.pc t p } x := by
  generalize hq : v.pc t = q at hl
  cases hl with
  | timer => rw [← hq, Function.update_eq_self]; exact h
  | sched =>
    refine h.goto_away rfl (fun _ _ => ⟨rfl, fun _ => rfl⟩) fun ht j hj => ?_
    subst ht
    simp [hq] at hj
  | wait y =>
    refine h.goto (by simp) (by simp) (fun hy hs => .inl ⟨hs, ?_⟩)
      (fun _ _ => .inl ⟨rfl, fun _ => rfl⟩) fun ht j hj => ?_
    · left
      rw [hq]
      simpa using hy
    · subst ht
      simp [hq] at hj
  | exit =>
    refine h.goto_away rfl (fun ht ho => ?_) fun ht j hj => ?_
    · subst ht
      simp [Open, hq, Pc.searched] at ho
    · subst ht
      simp [hq] at hj

/-- A move that misses nobody keeps what `x` expects. -/
theorem Expects.move (hv : v.Coherent) (hb : v.Bound) (h : v.Expects x) (hm : v.Move l v')
    (hok : x < v.created → ∀ t, l = .stmt t → v.MeetsJoiners t x) : v'.Expects x := by
  -- a thread that waits for another has been created
  have hlt : ∀ {j}, (v.pc j).target = some x → j < v.created := by
    intro j hj
    by_contra hge
    rw [hv.fresh j (by omega)] at hj
    cases hj
  have hcommit : ∀ {j}, v.Committed j x → j < v.created := by
    rintro j (hj | hj) <;> exact hlt (by rw [hj]; rfl)
  have hjoin : ∀ {j}, v.Joins j x → j < v.created := by
    rintro j ⟨-, hj | hj⟩ <;> exact hlt (by rw [hj]; rfl)
  cases hm with
  | call t p st hp hq hst =>
    refine (h.soft hst).goto (t := t) ?_ ?_ ?_ (fun _ _ => .inl ?_) fun ht j hj => ?_
    · cases hq <;> simp
    · cases hq <;> simp
    · cases hq <;> simp
    · cases hq <;> simp [Pc.searched, Pc.gone]
    · subst ht
      exact absurd (hp.symm.trans hj) (by simp)
  | born st act hst =>
    by_cases hx : x = v.created
    · -- nobody waits for a thread before it is created
      refine .of_untargeted fun j hj => ?_
      have hj' : (Function.update v.pc v.created .run j).target = some x := hj
      by_cases hjc : j = v.created
      · rw [hjc, Function.update_self] at hj'
        cases hj'
      · rw [Function.update_of_ne hjc] at hj'
        have := hb.target j x hj'
        omega
    · have hst' : st ≠ .joining ∧ st ≠ .dead := by
        rcases hst with rfl | rfl <;> simp
      have h₁ := h.setState (y := v.created) (a := st) (fun hj => absurd hj hst'.1)
        fun hd => absurd hd hst'.2
      have h₂ := (h₁.record (y := v.created) (r := none) fun hx' => absurd hx' hx).goto_away
        (t := v.created) (p := .run) rfl (fun hx' => absurd hx'.symm hx) fun hx' => absurd hx'.symm hx
      exact h₂.congr rfl rfl rfl rfl
  | switch l c t p n st hc hl hcr hwho hlab hst hn =>
    exact ((h.switch hl).soft hst).congr rfl rfl rfl rfl
  | goes c t p hc hp =>
    refine h.goes hv hp fun hs ht j hj => ?_
    exact (hok (ht ▸ hv.active c t hc) t rfl).2.2.1 ht hs j (hcommit hj) hj
  | marks c t y hc hp =>
    have h₁ := h.setState (y := y) (a := .dead) (by simp) fun _ hxy j hj => by
      subst hxy
      have htx : (v.pc t).target = some x := by rw [hp]; rfl
      exact (hok (hb.target t x htx) t rfl).2.1 hp j (hlt (by rw [hj]; rfl)) hj
    refine (h₁.goto (t := t) (p := .waitClean y) (by simp) (by simp) (by simp)
      (fun _ _ => .inl ⟨rfl, fun _ => rfl⟩) fun ht j hj => ?_).congr rfl rfl rfl rfl
    subst ht
    exact absurd (hp.symm.trans hj) (by simp)
  | joins c t y hc hp =>
    have h₁ := h.setState (y := t) (a := .joining) (fun _ => by rw [hp]; simp [Pc.joins]) (by simp)
    refine (h₁.goto (t := t) (p := .waitRecord y) (by simp) (fun hy => ?_) (by simp)
      (fun _ _ => .inl ⟨rfl, fun _ => rfl⟩) fun ht j hj => ?_).congr rfl rfl rfl rfl
    · obtain rfl : y = x := by simpa using hy
      exact .inl (.inl hp)
    · subst ht
      exact absurd (hp.symm.trans hj) (by simp)
  | records c t y hc hp =>
    have h₁ := h.record (y := y) (r := some t) fun hxy => by
      subst hxy
      have htx : (v.pc t).target = some x := by rw [hp]; rfl
      exact (hok (hb.target t x htx) t rfl).1 hp
    refine (h₁.goto (t := t) (p := .waitSched y) (by simp) (by simp) (fun hy _ => .inr ?_)
      (fun _ _ => .inl ⟨rfl, fun _ => rfl⟩) fun ht j hj => ?_).congr rfl rfl rfl rfl
    · obtain rfl : y = x := by simpa using hy
      exact ⟨Function.update_self _ _ _, h.committed t (.inr hp)⟩
    · subst ht
      exact absurd (hp.symm.trans hj) (by simp)
  | exits c t hc hp =>
    have h₁ := h.setState (y := t) (a := .zombie) (by simp) (by simp)
    refine (h₁.goto (t := t) (p := .exitTestInit) (by simp) (by simp) (by simp)
      (fun ht ho => ?_) fun ht j hj => ?_).congr rfl rfl rfl rfl
    · by_cases hi : x = v.init
      · have hm := (hok (ht ▸ hv.active c t hc) t rfl).2.2.2 ht hp hi
        refine .inr ⟨fun j hj => (hm j (hcommit hj)).1 hj, rfl, fun j hj => ?_⟩
        have hj' : v.Joins j x := by
          refine ⟨?_, hj.2⟩
          by_cases hjt : j = t
          · have := hj.1
            simp [hjt] at this
          · exact (Function.update_of_ne hjt _ _).symm.trans hj.1
        exact absurd hj' (hm j (hjoin hj')).2
      · exact .inl ⟨rfl, fun h' => absurd h' hi⟩
    · subst ht
      exact absurd (hp.symm.trans hj) (by simp)
  | wakes c t i hc hp hi =>
    have h₁ := h.setState (y := i) (a := .ready) (by simp) (by simp)
    refine (h₁.goto_away (t := t) (p := .exitLeave) rfl (fun ht ho => ?_)
      fun ht j hj hji => ?_).congr rfl rfl rfl rfl
    · subst ht
      have := ho.1
      simp [hp, Pc.searched] at this
    · subst ht
      obtain rfl : i = j := by simpa using hp.symm.trans hj
      have := hji.1
      simp at this

/-- Whom a move takes to which statement. -/
theorem Move.pc (hm : v.Move l v') : ∃ t p, v'.pc = Function.update v.pc t p
    ∧ (∀ x, p.target = some x → (v.pc t).target = some x ∨ x < v.created)
    ∧ (∀ x, p = .waitMarkDead x → v.pc t = .waitMarkDead x
      ∨ l = .stmt t ∧ v.pc t = .waitZombie x ∧ v.state x = .zombie)
    ∧ ∀ x, p = .waitClean x → v.pc t = .waitClean x ∨ v.pc t = .waitMarkDead x := by
  cases hm with
  | call t p st hp hq =>
    refine ⟨t, p, rfl, fun x hx => ?_, fun x hx => ?_, fun x hx => ?_⟩
    · cases hq with
      | waits y hy =>
        cases hx
        exact .inr hy
      | returns | blocks | exits => cases hx
    · subst hx
      cases hq
    · subst hx
      cases hq
  | born => exact ⟨v.created, .run, rfl, by simp [Pc.target], by simp, by simp⟩
  | switch l c t p n st hc hl =>
    refine ⟨t, p, rfl, fun x hx => .inl ?_, fun x hx => .inl ?_, fun x hx => .inl ?_⟩
    · generalize v.pc t = q at hl
      cases hl with
      | timer | wait => exact hx
      | sched | exit => cases hx
    · subst hx
      generalize hq : v.pc t = q at hl
      cases hl
      rfl
    · subst hx
      generalize hq : v.pc t = q at hl
      cases hl
      rfl
  | goes c t p hc hp =>
    refine ⟨t, p, rfl, fun x hx => .inl ?_, fun x hx => .inr ?_, fun x hx => ?_⟩
    · cases hp with
      | notDead y hp | isZombie y hp | notZombie y hp =>
        cases hx
        rw [hp]
        rfl
      | _ => cases hx
    · subst hx
      cases hp with
      | isZombie _ hp h => exact ⟨rfl, hp, h⟩
    · subst hx
      cases hp
  | marks c t y hc hp =>
    refine ⟨t, _, rfl, fun x hx => .inl ?_, by simp, fun x hx => .inr ?_⟩
    · cases hx
      rw [hp]
      rfl
    · cases hx
      exact hp
  | joins c t y hc hp | records c t y hc hp =>
    refine ⟨t, _, rfl, fun x hx => .inl ?_, by simp, by simp⟩
    cases hx
    rw [hp]
    rfl
  | exits c t | wakes c t => exact ⟨t, _, rfl, by simp [Pc.target], by simp, by simp⟩

theorem Bound.move (hv : v.Coherent) (hb : v.Bound) (hm : v.Move l v') : v'.Bound := by
  obtain ⟨t₀, p, hpc, htarget, hmarks, -⟩ := hm.pc
  refine ⟨fun t x ht => lt_of_lt_of_le ?_ hm.created_le, fun t x ht => ?_⟩
  · rw [hpc] at ht
    by_cases h : t = t₀
    · subst h
      rw [Function.update_self] at ht
      exact (htarget x ht).elim (hb.target t x) id
    · rw [Function.update_of_ne h] at ht
      exact hb.target t x ht
  · have hg : x < v.created ∧ (v.pc x).gone = true := by
      rw [hpc] at ht
      by_cases h : t = t₀
      · subst h
        rw [Function.update_self] at ht
        subst ht
        have hlt : x < v.created := (htarget x rfl).elim (hb.target t x) id
        rcases hmarks x rfl with h1 | ⟨-, -, h1⟩
        · exact ⟨hlt, hb.marks t x h1⟩
        · exact ⟨hlt, (hv.gone x).2 (.inl h1)⟩
      · rw [Function.update_of_ne h] at ht
        exact ⟨hb.target t x (by rw [ht]; rfl), hb.marks t x ht⟩
    exact hm.gone hg.1 hg.2

theorem noLostWakeup_of_expects (hv : v.Coherent) (h : ∀ x, v.Expects x) : v.NoLostWakeup := by
  intro j x hj hx
  obtain ⟨h1, h2⟩ := (h x).joined j hj
  have hg : (v.pc x).gone = false := by
    rcases h2 with h2 | h2
    · have := h2.1
      cases hp : v.pc x <;> simp_all [Pc.gone, Pc.exiting, Pc.searched]
    · rw [h2] at hx
      cases hx
  have := (hv.gone x).not.1 (by simp [hg])
  exact ⟨fun hz => this (.inl hz), fun hd => this (.inr hd), h1⟩

end JoinView

end RTLKIM
