import RTLKIM.Proofs.SchedReclaim

/-!
# An exit that is not interrupted completes

The children of a thread are in its own queue or handed over to init (`Family`), what a step does to
these queues is one of `Kin`, and a thread past its store of `THREAD_STATE_ZOMBIE` keeps its CPU
until it has left its critical section.
-/

namespace RTLKIM

open JoinView

/-! ## The CPU of an exiting thread -/

theorem Pc.outside_of_gone {p : Pc} (hg : p.gone = true)
    (hi : ¬ (p.inner = true ∨ p = .exitTestInit)) : p = .exitSched ∨ p = .exited := by
  cases p <;> simp_all [gone, inner]

theorem Pc.outside_of_not_critical {p : Pc} (hc : p.critical = false) (h1 : p ≠ .exitTestInit)
    (h2 : p ≠ .exitEnter) : ¬ (p.inner = true ∨ p = .exitTestInit) := by
  cases p <;> simp_all [critical, inner]

namespace JoinView

variable {v v' : JoinView} {l : Label} {t x : ℕ}

/-- A thread other than init between the store of `THREAD_STATE_ZOMBIE` and the end of its critical
section runs. -/
def Holds (v : JoinView) : Prop :=
  ∀ t, t ≠ v.init → (v.pc t).inner = true ∨ v.pc t = .exitTestInit → ∃ c, v.active c = some t

theorem Holds.move (h : v.Holds) (hm : v.Move l v')
    (hok : ∀ t, l = .timer t → t ≠ v.init → v.pc t ≠ .exitTestInit ∧ v.pc t ≠ .exitEnter) :
    v'.Holds := by
  intro x hi hx
  -- `t` goes on to `p`, and no other CPU than its own is given to another thread
  have hgoto : ∀ {t : ℕ} {p : Pc} {act : ℕ → Option ℕ},
      (p.inner = true ∨ p = .exitTestInit → t ≠ v.init → ∃ c, act c = some t) →
      (∀ c y, y ≠ t → v.active c = some y → act c = some y) →
      x ≠ v.init → (Function.update v.pc t p x).inner = true ∨ Function.update v.pc t p x = .exitTestInit →
      ∃ c, act c = some x := by
    intro t p act hp hact hi hx
    by_cases hxt : x = t
    · subst hxt
      rw [Function.update_self] at hx
      exact hp hx hi
    · rw [Function.update_of_ne hxt] at hx
      obtain ⟨c, hc⟩ := h x hi hx
      exact ⟨c, hact c x hxt hc⟩
  cases hm with
  | call t p st hp hq =>
    refine hgoto (fun hx => ?_) (fun _ _ _ h => h) hi hx
    cases hq <;> simp [Pc.inner] at hx
  | born st act hst ha hk =>
    refine hgoto (fun hx => ?_) (fun c y _ h => hk c y h) hi hx
    simp [Pc.inner] at hx
  | switch l c t p n st hc hl hcr hwho hlab hst hn =>
    refine hgoto (fun hx hi => ?_) (fun c' y hy hc' => ?_) hi hx
    · generalize hq : v.pc t = q at hl
      cases hl with
      | timer =>
        have := hok t (hlab hq.symm) hi
        rw [hq] at this
        exact absurd hx (Pc.outside_of_not_critical hcr this.1 this.2)
      | sched | wait | exit => simp [Pc.inner] at hx
    · refine (Function.update_of_ne ?_ _ _).trans hc'
      rintro rfl
      exact hy (Option.some_inj.1 (hc'.symm.trans hc))
  | goes c t p hc hp => exact hgoto (fun _ _ => ⟨c, hc⟩) (fun _ _ _ h => h) hi hx
  | marks c t y hc | joins c t y hc | records c t y hc | exits c t hc | wakes c t j hc =>
    exact hgoto (fun _ _ => ⟨c, hc⟩) (fun _ _ _ h => h) hi hx

/-- Past the deletion of the children's queue only from it, or as init. -/
theorem Move.deleted (hm : v.Move l v') (hx : (v'.pc x).deleted = true) :
    (v.pc x).deleted = true ∨ x = v.init ∨ v.pc x = .exitDelete := by
  have hgoto : ∀ {t : ℕ} {p : Pc}, (Function.update v.pc t p x).deleted = true →
      (p.deleted = true → (v.pc t).deleted = true ∨ t = v.init ∨ v.pc t = .exitDelete) →
      (v.pc x).deleted = true ∨ x = v.init ∨ v.pc x = .exitDelete := by
    intro t p hx hp
    by_cases hxt : x = t
    · subst hxt
      rw [Function.update_self] at hx
      exact hp hx
    · rw [Function.update_of_ne hxt] at hx
      exact .inl hx
  cases hm with
  | call t p st hp hq =>
    refine hgoto hx fun hd => ?_
    cases hq <;> cases hd
  | born => exact hgoto hx (by simp [Pc.deleted])
  | switch l c t p n st hc hl =>
    refine hgoto hx fun hd => .inl ?_
    rwa [← hl.deleted]
  | goes c t p hc hp =>
    refine hgoto hx fun hd => ?_
    cases hp with
    | isInit hp hi => exact .inr (.inl hi)
    | delete hp => exact .inr (.inr hp)
    | search _ hp | wakeNone hp | notJoining _ hp | leave hp =>
      left
      rw [hp]
      rfl
    | _ => cases hd
  | marks | joins | records | exits => exact hgoto hx (by simp [Pc.deleted])
  | wakes c t j hc hp =>
    refine hgoto hx fun _ => .inl ?_
    rw [hp]
    rfl

/-- Only a thread's own statement takes it past the deletion of its queue. -/
theorem Move.leaves_delete (hv : v.Coherent) (hm : v.Move l v') (hx : v.pc x = .exitDelete)
    (hx' : v'.pc x ≠ .exitDelete) : l = .stmt x := by
  have hgoto : ∀ {t : ℕ} {p : Pc}, Function.update v.pc t p x ≠ .exitDelete → x = t := by
    intro t p h
    by_contra hxt
    rw [Function.update_of_ne hxt] at h
    exact h hx
  cases hm with
  | call t p st hp =>
    obtain rfl := hgoto hx'
    rw [hx] at hp
    cases hp
  | born =>
    have hfresh := hv.fresh _ le_rfl
    rw [← hgoto hx', hx] at hfresh
    cases hfresh
  | switch l c t p n st hc hl =>
    obtain rfl := hgoto hx'
    rw [hx] at hl
    cases hl
    exact absurd (Function.update_self _ _ _) hx'
  | goes c t p =>
    obtain rfl := hgoto hx'
    rfl
  | marks c t y hc hp | joins c t y hc hp | records c t y hc hp | exits c t hc hp
  | wakes c t j hc hp =>
    obtain rfl := hgoto hx'
    rfl

end JoinView

/-! ## Families -/

namespace Sched

variable {s s' : Sched} {t x y c now n : ℕ} {e : SchedEv}

/-- Who has which children, and whose child it is, stays. -/
structure KinSame (s s' : Sched) : Prop where
  children : ∀ y, (s'.thread y).children = (s.thread y).children
  ptid : ∀ y, (s'.thread y).ptid = (s.thread y).ptid
  tid : ∀ y, (s'.thread y).tid = (s.thread y).tid
  creator : s'.creator = s.creator
  freed : s'.freed = s.freed
  created : s'.created = s.created
  init : s'.initThread = s.initThread

/-- The fields that a change to the queue of `t` alone leaves. -/
structure KinFrame (s s' : Sched) (t : ℕ) : Prop where
  children : ∀ y, y ≠ t → (s'.thread y).children = (s.thread y).children
  ptid : ∀ y, (s'.thread y).ptid = (s.thread y).ptid
  tid : ∀ y, (s'.thread y).tid = (s.thread y).tid
  creator : s'.creator = s.creator
  created : s'.created = s.created
  init : s'.initThread = s.initThread

/-- A thread more, whose creator is `p`. -/
structure KinBorn (s s' : Sched) (p : Option ℕ) : Prop where
  children : ∀ y, y ≠ s.created → p ≠ some y → (s'.thread y).children = (s.thread y).children
  pushed : ∀ t, p = some t → (s'.thread t).children = (s.thread t).children.map (s.created :: ·)
  ptid : ∀ y, y ≠ s.created → (s'.thread y).ptid = (s.thread y).ptid
  tid : ∀ y, y ≠ s.created → (s'.thread y).tid = (s.thread y).tid
  creator : ∀ y, y ≠ s.created → s'.creator y = s.creator y
  own : s'.creator s.created = p
  pc : s'.pc s.created = .run
  freed : s'.freed = s.freed
  created : s'.created = s.created + 1
  init : s'.initThread = s.initThread

/-- What a step does to families. -/
inductive Kin (s s' : Sched) : Prop
  | same (h : KinSame s s')
  | born (p : Option ℕ) (hp : ∀ t, p = some t → s.pc t = .run ∧ t < s.created) (h : KinBorn s s' p)
  | clean (t x : ℕ) (l : List ℕ) (hd : (s.pc t).deleted = false)
      (hl : (s.thread t).children = some l) (hl' : (s'.thread t).children = some (l.erase x))
      (hf : s'.freed = Function.update s.freed x true) (h : KinFrame s s' t)
  | adopt (t x : ℕ) (l : List ℕ) (hp : s.pc t = .exitChildren) (h : Adopts s s' t x l)
  | delete (t : ℕ) (hp : s.pc t = .exitDelete) (hl : (s.thread t).children = some [])
      (hl' : (s'.thread t).children = none) (hf : s'.freed = s.freed) (h : KinFrame s s' t)

/-- A thread that has not been reclaimed is among its creator's children, or among init's; and the
queue of a thread past its deletion is gone. -/
structure Family (s : Sched) : Prop where
  made : ∀ y p, s.creator y = some p → y < s.created ∧ p < s.created
  kin : ∀ y p, s.creator y = some p → s.freed y = false → s.HasChild p y
    ∨ s.HasChild s.initThread y ∧ (s.thread y).ptid = (s.thread s.initThread).tid
  emptied : ∀ t, t < s.created → t ≠ s.initThread → (s.pc t).deleted = true →
    (s.thread t).children = none

theorem Family.same (h : s.Family) (hk : KinSame s s')
    (hd : ∀ t, t < s.created → t ≠ s.initThread → (s'.pc t).deleted = true → (s.pc t).deleted = true) :
    s'.Family := by
  refine ⟨fun y p hy => ?_, fun y p hy hf => ?_, fun t hlt hi ht => ?_⟩
  · rw [hk.creator] at hy
    rw [hk.created]
    exact h.made y p hy
  · rw [hk.creator] at hy
    rw [hk.freed] at hf
    unfold HasChild
    rw [hk.init, hk.children, hk.children, hk.ptid, hk.tid]
    exact h.kin y p hy hf
  · rw [hk.created] at hlt
    rw [hk.init] at hi
    rw [hk.children]
    exact h.emptied t hlt hi (hd t hlt hi ht)

theorem Family.born {p : Option ℕ} (h : s.Family) (hcore : s.Core s.activeThread)
    (hp : ∀ t, p = some t → s.pc t = .run ∧ t < s.created) (hk : KinBorn s s' p)
    (hd : ∀ t, t < s.created → t ≠ s.initThread → (s'.pc t).deleted = true → (s.pc t).deleted = true) :
    s'.Family := by
  have hkeep : ∀ {t y}, t < s.created → s.HasChild t y → s'.HasChild t y := by
    rintro t y hlt ⟨l, hl, hy⟩
    by_cases hpt : p = some t
    · refine ⟨s.created :: l, ?_, List.mem_cons_of_mem _ hy⟩
      rw [hk.pushed t hpt, hl]
      rfl
    · exact ⟨l, by rw [hk.children t (by omega) hpt, hl], hy⟩
  refine ⟨fun y q hy => ?_, fun y q hy hf => ?_, fun t hlt hi ht => ?_⟩
  · rw [hk.created]
    by_cases hyn : y = s.created
    · subst hyn
      rw [hk.own] at hy
      have := (hp q hy).2
      omega
    · rw [hk.creator y hyn] at hy
      have := h.made y q hy
      omega
  · rw [hk.init]
    by_cases hyn : y = s.created
    · subst hyn
      rw [hk.own] at hy
      obtain ⟨hrun, hlt⟩ := hp q hy
      obtain ⟨l, hl⟩ := Option.ne_none_iff_exists'.1
        ((hcore.good q).children hlt (by rw [hrun]; rfl))
      refine .inl ⟨s.created :: l, ?_, List.mem_cons_self⟩
      rw [hk.pushed q hy, hl]
      rfl
    · rw [hk.creator y hyn] at hy
      rw [hk.freed] at hf
      rw [hk.ptid y hyn, hk.tid _ (Nat.ne_of_lt hcore.init)]
      exact (h.kin y q hy hf).imp (hkeep (h.made y q hy).2) (And.imp_left (hkeep hcore.init))
  · rw [hk.created] at hlt
    rw [hk.init] at hi
    have htn : t ≠ s.created := by
      rintro rfl
      rw [hk.pc] at ht
      cases ht
    have ht' := hd t (by omega) hi ht
    rw [hk.children t htn]
    · exact h.emptied t (by omega) hi ht'
    · intro hpt
      rw [(hp t hpt).1] at ht'
      cases ht'

theorem Family.clean {l : List ℕ} (h : s.Family) (hd : (s.pc t).deleted = false)
    (hl : (s.thread t).children = some l) (hl' : (s'.thread t).children = some (l.erase x))
    (hf : s'.freed = Function.update s.freed x true) (hk : KinFrame s s' t)
    (hdel : ∀ t, t < s.created → t ≠ s.initThread → (s'.pc t).deleted = true → (s.pc t).deleted = true) :
    s'.Family := by
  have hkeep : ∀ {r y}, y ≠ x → s.HasChild r y → s'.HasChild r y := by
    rintro r y hyx ⟨k, hr, hy⟩
    by_cases hrt : r = t
    · subst hrt
      rw [hl] at hr
      cases hr
      exact ⟨_, hl', (List.mem_erase_of_ne hyx).2 hy⟩
    · exact ⟨k, by rw [hk.children r hrt, hr], hy⟩
  refine ⟨fun y p hy => ?_, fun y p hy hfy => ?_, fun r hlt hi hr => ?_⟩
  · rw [hk.creator] at hy
    rw [hk.created]
    exact h.made y p hy
  · rw [hk.creator] at hy
    rw [hf] at hfy
    have hyx : y ≠ x := by
      rintro rfl
      rw [Function.update_self] at hfy
      cases hfy
    rw [Function.update_of_ne hyx] at hfy
    rw [hk.init, hk.ptid, hk.tid]
    exact (h.kin y p hy hfy).imp (hkeep hyx) (And.imp_left (hkeep hyx))
  · rw [hk.created] at hlt
    rw [hk.init] at hi
    have hr' := hdel r hlt hi hr
    have hrt : r ≠ t := by
      rintro rfl
      rw [hd] at hr'
      cases hr'
    rw [hk.children r hrt]
    exact h.emptied r hlt hi hr'

theorem Family.adopt {l : List ℕ} (h : s.Family) (hi : t ≠ s.initThread)
    (hp : s.pc t = .exitChildren) (ha : Adopts s s' t x l) : s'.Family := by
  obtain ⟨k, hk, hk'⟩ := ha.heir hi
  have hinit : ∀ {y}, s.HasChild s.initThread y → s'.HasChild s.initThread y := by
    rintro y ⟨l', hl', hy⟩
    rw [hk] at hl'
    cases hl'
    exact ⟨_, hk', List.mem_cons_of_mem _ hy⟩
  have hx : s'.HasChild s.initThread x ∧ (s'.thread x).ptid = (s'.thread s.initThread).tid :=
    ⟨⟨_, hk', List.mem_cons_self⟩, by rw [ha.ptid, ha.tid]⟩
  refine ⟨fun y p hy => ?_, fun y p hy hf => ?_, fun r hlt hr hd => ?_⟩
  · rw [ha.creator] at hy
    rw [ha.created]
    exact h.made y p hy
  · rw [ha.creator] at hy
    rw [ha.freed] at hf
    rw [ha.init]
    by_cases hyx : y = x
    · subst hyx
      exact .inr hx
    · rw [ha.ptids y hyx, ha.tid]
      refine (h.kin y p hy hf).imp (fun hc => ?_) (And.imp_left hinit)
      by_cases hpi : p = s.initThread
      · rw [hpi] at hc ⊢
        exact hinit hc
      · obtain ⟨l', hl', hyl⟩ := hc
        by_cases hpt : p = t
        · -- the child handed over was the last
          subst hpt
          rw [ha.from_] at hl'
          cases hl'
          refine ⟨_, ha.left hi, ?_⟩
          have := (perm_cons_dropLast ha.last).mem_iff.1 hyl
          exact (List.mem_cons.1 this).resolve_left hyx
        · exact ⟨l', by rw [ha.others p hpt hpi, hl'], hyl⟩
  · rw [ha.created] at hlt
    rw [ha.init] at hr
    rw [ha.pc] at hd
    have hrt : r ≠ t := by
      rintro rfl
      rw [hp] at hd
      cases hd
    rw [ha.others r hrt hr]
    exact h.emptied r hlt hr hd

theorem Family.delete (h : s.Family) (hi : t ≠ s.initThread)
    (hl : (s.thread t).children = some []) (hl' : (s'.thread t).children = none)
    (hf : s'.freed = s.freed) (hk : KinFrame s s' t)
    (hdel : ∀ r, r ≠ t → r < s.created → r ≠ s.initThread → (s'.pc r).deleted = true →
      (s.pc r).deleted = true) : s'.Family := by
  have hkeep : ∀ {r y}, s.HasChild r y → s'.HasChild r y := by
    rintro r y ⟨k, hr, hy⟩
    have hrt : r ≠ t := by
      rintro rfl
      rw [hl] at hr
      cases hr
      cases hy
    exact ⟨k, by rw [hk.children r hrt, hr], hy⟩
  refine ⟨fun y p hy => ?_, fun y p hy hfy => ?_, fun r hlt hr hd => ?_⟩
  · rw [hk.creator] at hy
    rw [hk.created]
    exact h.made y p hy
  · rw [hk.creator] at hy
    rw [hf] at hfy
    rw [hk.init, hk.ptid, hk.tid]
    exact (h.kin y p hy hfy).imp hkeep (And.imp_left hkeep)
  · by_cases hrt : r = t
    · rw [hrt, hl']
    · rw [hk.created] at hlt
      rw [hk.init] at hr
      rw [hk.children r hrt]
      exact h.emptied r hlt hr (hdel r hrt hlt hr hd)

/-! ## What a step does to them -/

theorem KinSame.of_thread (hth : s'.thread = s.thread) (hc : s'.creator = s.creator)
    (hf : s'.freed = s.freed) (hn : s'.created = s.created) (hi : s'.initThread = s.initThread) :
    KinSame s s' :=
  ⟨by simp [hth], by simp [hth], by simp [hth], hc, hf, hn, hi⟩

/-- A thread changes in other fields. -/
theorem KinSame.of_setThread (f : Thread → Thread)
    (hg : ∀ T, (f T).children = T.children ∧ (f T).ptid = T.ptid ∧ (f T).tid = T.tid)
    (hth : s'.thread = (s.setThread t f).thread) (hc : s'.creator = s.creator)
    (hf : s'.freed = s.freed) (hn : s'.created = s.created) (hi : s'.initThread = s.initThread) :
    KinSame s s' := by
  refine ⟨fun y => ?_, fun y => ?_, fun y => ?_, hc, hf, hn, hi⟩ <;> rw [hth]
  · exact setThread_proj Thread.children (fun T => (hg T).1) y
  · exact setThread_proj Thread.ptid (fun T => (hg T).2.1) y
  · exact setThread_proj Thread.tid (fun T => (hg T).2.2) y

theorem KinFrame.of_setThread (f : Thread → Thread)
    (hg : ∀ T, (f T).ptid = T.ptid ∧ (f T).tid = T.tid)
    (hth : s'.thread = (s.setThread t f).thread) (hc : s'.creator = s.creator)
    (hn : s'.created = s.created) (hi : s'.initThread = s.initThread) : KinFrame s s' t := by
  refine ⟨fun y hy => ?_, fun y => ?_, fun y => ?_, hc, hn, hi⟩ <;> rw [hth]
  · rw [setThread_of_ne hy]
  · exact setThread_proj Thread.ptid (fun T => (hg T).1) y
  · exact setThread_proj Thread.tid (fun T => (hg T).2) y

theorem Switch.kinSame {p : Pc} (h : Switch (s.goto t p) s' c n) : KinSame s s' := by
  have hth : ∀ y, s'.thread y = { s.thread y with state := (s'.thread y).state } := h.shuffle.thread
  refine ⟨fun y => ?_, fun y => ?_, fun y => ?_, h.shuffle.creator, h.shuffle.freed,
    h.shuffle.created, h.shuffle.init⟩ <;> rw [hth]

theorem createKernelThread_kin (hp : s.pc t = .run) (hlt : t < s.created) (k a m : ℕ) :
    Kin s (s.createKernelThread t k a m) := by
  unfold Sched.createKernelThread
  split_ifs
  · exact .same (.of_thread rfl rfl rfl rfl rfl)
  · exact .same (.of_thread rfl rfl rfl rfl rfl)
  · exact .same (.of_thread rfl rfl rfl rfl rfl)
  · exact .same (.of_thread rfl rfl rfl rfl rfl)
  · refine .born (some t) (fun y hy => ?_) ⟨fun y hn hy => ?_, fun y hy => ?_, fun y hn => ?_,
      fun y hn => ?_, fun y hn => Function.update_of_ne hn _ _, Function.update_self _ _ _,
      Function.update_self _ _ _, rfl, rfl, rfl⟩
    · cases hy
      exact ⟨hp, hlt⟩
    all_goals
      set s₁ := s.setThread t fun T => { T with children := T.children.map (s.created :: ·) } with hs₁
    · have hyt : y ≠ t := fun h => hy (by rw [h])
      exact congrArg Thread.children ((Function.update_of_ne hn _ s₁.thread).trans (setThread_of_ne hyt))
    · cases hy
      have hne : t ≠ s.created := Nat.ne_of_lt hlt
      refine (congrArg Thread.children (Function.update_of_ne hne _ s₁.thread)).trans ?_
      rw [hs₁, setThread_self]
    · refine (congrArg Thread.ptid (Function.update_of_ne hn _ s₁.thread)).trans ?_
      exact setThread_proj Thread.ptid (by intro T; rfl) y
    · refine (congrArg Thread.tid (Function.update_of_ne hn _ s₁.thread)).trans ?_
      exact setThread_proj Thread.tid (by intro T; rfl) y

theorem createIdle_kin (hnone : s.creator s.created = none) : Kin s (s.createIdle c) := by
  refine .born none (by simp) ⟨fun y hn _ => ?_, by simp, fun y hn => ?_, fun y hn => ?_,
    fun _ _ => rfl, hnone, Function.update_self _ _ _, rfl, rfl, rfl⟩
  · exact congrArg Thread.children (Function.update_of_ne hn _ s.thread)
  · exact congrArg Thread.ptid (Function.update_of_ne hn _ s.thread)
  · exact congrArg Thread.tid (Function.update_of_ne hn _ s.thread)

theorem Core.perform_kin (h : s.Core s.activeThread) (hc : s.activeThread c = some t)
    (hp : s.pc t = .run) {k : SchedCall} (hr : s.perform c now t k = .ok s') : Kin s s' := by
  cases k with
  | create k a m =>
    cases hr
    exact createKernelThread_kin hp (h.active c t hc).2 k a m
  | sleep ms =>
    cases hr
    exact .same (.of_setThread (t := t) (fun T => { T with
      wakeupTime := (now + ms + 2 ^ 64 - 1000 / kernelMainTimerFreq) % 2 ^ 64
      state := .sleeping }) (fun _ => ⟨rfl, rfl, rfl⟩) rfl rfl rfl rfl rfl)
  | lock type object =>
    cases hr
    exact .same (.of_setThread (t := t) (fun T => { T with state := .waiting, blockType := type })
      (fun _ => ⟨rfl, rfl, rfl⟩) rfl rfl rfl rfl rfl)
  | unlock type object d =>
    simp only [Sched.perform, Sched.unlock] at hr
    split at hr
    · cases hr
      exact .same (.of_thread rfl rfl rfl rfl rfl)
    · split at hr
      · cases hr
      · rename_i x hx
        split_ifs at hr
        all_goals
          cases hr
          exact .same (.of_setThread (t := x) (fun T => { T with state := .ready })
            (fun _ => ⟨rfl, rfl, rfl⟩) rfl rfl rfl rfl rfl)
  | setPriority k =>
    cases hr
    unfold Sched.setPriority
    split_ifs
    · exact .same (.of_thread rfl rfl rfl rfl rfl)
    · exact .same (.of_setThread (t := t) (fun T => { T with priority := k })
        (fun _ => ⟨rfl, rfl, rfl⟩) rfl rfl rfl rfl rfl)
  | setCause cause =>
    cases hr
    exact .same (.of_setThread (t := t) (fun T => { T with returnCause := cause })
      (fun _ => ⟨rfl, rfl, rfl⟩) rfl rfl rfl rfl rfl)
  | schedule =>
    cases hr
    exact .same (.of_thread rfl rfl rfl rfl rfl)
  | wait target =>
    rcases target with _ | x
    · cases hr
      exact .same (.of_thread rfl rfl rfl rfl rfl)
    · cases hr
      exact .same (.of_thread rfl rfl rfl rfl rfl)
  | exit ret =>
    cases hr
    exact .same (.of_setThread (t := t) (fun T => { T with retVal := ret.getD T.retVal })
      (fun _ => ⟨rfl, rfl, rfl⟩) rfl rfl rfl rfl rfl)

/-- Either end of `sched_wait_thread`. -/
theorem cleanJoinedThread_kin {r : CallRet} (hd : (s.pc t).deleted = false)
    (hr : (s.cleanJoinedThread t x).map (fun s' => (s'.returns t r).goto t .run) = .ok s') :
    Kin s s' := by
  unfold Sched.cleanJoinedThread at hr
  rcases hl : (s.thread t).children with _ | l
  · rw [hl] at hr
    cases hr
  · rw [hl] at hr
    cases hr
    refine .clean t x l hd hl ?_ rfl
      (.of_setThread (fun T => { T with children := some (l.erase x) }) (fun _ => ⟨rfl, rfl⟩) rfl rfl rfl
        rfl)
    show (Function.update s.thread t { s.thread t with children := some (l.erase x) } t).children = _
    rw [Function.update_self]

theorem Core.stmt_kin (h : s.Core s.activeThread) (hc : s.activeThread c = some t)
    (hr : s.stmt c now t = .ok s') : Kin s s' := by
  have hselect : ∀ p, Leaves (s.pc t) p → (s.goto t p).selectThread c now = .ok s' → Kin s s' := by
    intro p hl hr
    obtain ⟨s₁, n, h1, -, h2⟩ := h.selectThread now hc hl
    rw [hr] at h1
    cases h1
    exact .same h2.kinSame
  have hstate : ∀ {p : Pc} {y st}, s' = (s.setState y st).goto t p → Kin s s' := by
    rintro p y st rfl
    exact .same (.of_setThread (t := y) (fun T => { T with state := st }) (fun _ => ⟨rfl, rfl, rfl⟩)
      rfl rfl rfl rfl rfl)
  unfold Sched.stmt at hr
  cases hpc : s.pc t with
  | run | exitEnter | exitSearch | exitLeave | exitTestInit | exitPush =>
    rw [hpc] at hr
    cases hr
    exact .same (.of_thread rfl rfl rfl rfl rfl)
  | sched =>
    rw [hpc] at hr hselect
    exact hselect .run .sched hr
  | waitDead x =>
    rw [hpc] at hr
    cases hr
    unfold Sched.waitDead
    split_ifs
    · exact .same (.of_thread rfl rfl rfl rfl rfl)
    · exact .same (.of_thread rfl rfl rfl rfl rfl)
  | waitZombie x =>
    rw [hpc] at hr
    cases hr
    unfold Sched.waitZombie
    split_ifs
    · exact .same (.of_thread rfl rfl rfl rfl rfl)
    · exact .same (.of_thread rfl rfl rfl rfl rfl)
  | waitMarkDead x =>
    rw [hpc] at hr
    cases hr
    exact hstate rfl
  | waitClean x =>
    rw [hpc] at hr
    exact cleanJoinedThread_kin (by rw [hpc]; rfl) hr
  | waitJoining x =>
    rw [hpc] at hr
    cases hr
    exact hstate rfl
  | waitRecord x =>
    rw [hpc] at hr
    cases hr
    exact .same (.of_setThread (t := x) (fun T => { T with joiningThread := some t })
      (fun _ => ⟨rfl, rfl, rfl⟩) rfl rfl rfl rfl rfl)
  | waitSched x =>
    rw [hpc] at hr hselect
    exact hselect (.waitResumed x) (.wait x) hr
  | waitResumed x =>
    rw [hpc] at hr
    exact cleanJoinedThread_kin (by rw [hpc]; rfl) hr
  | exitZombie =>
    rw [hpc] at hr
    cases hr
    exact hstate rfl
  | exitChildren =>
    rw [hpc] at hr
    rcases exitChildren_cases hr with ⟨-, rfl⟩ | ⟨x, l, ha⟩
    · exact .same (.of_thread rfl rfl rfl rfl rfl)
    · exact .adopt t x l hpc ha
  | exitDelete =>
    rw [hpc] at hr
    have hr' : s.exitDelete t = .ok s' := hr
    unfold Sched.exitDelete at hr'
    split_ifs at hr' with hl
    cases hr'
    refine .delete t hpc hl ?_ rfl
      (.of_setThread (fun T => { T with children := none }) (fun _ => ⟨rfl, rfl⟩) rfl rfl rfl rfl)
    show (Function.update s.thread t { s.thread t with children := none } t).children = _
    rw [Function.update_self]
  | exitWake j =>
    rw [hpc] at hr
    rcases j with _ | j
    · cases hr
      exact .same (.of_thread rfl rfl rfl rfl rfl)
    · have hr' : s.exitWake t (some j) = .ok s' := hr
      simp only [Sched.exitWake] at hr'
      split_ifs at hr'
      · rw [(h.good t).found j hpc] at hr'
        cases hr'
        exact .same (.of_setThread (t := j) (fun T => { T with state := .ready })
          (fun _ => ⟨rfl, rfl, rfl⟩) rfl rfl rfl rfl rfl)
      · cases hr'
        exact .same (.of_thread rfl rfl rfl rfl rfl)
  | exitSched =>
    rw [hpc] at hr hselect
    exact hselect .exited .exit hr
  | exited =>
    rw [hpc] at hr
    cases hr

theorem Steady.step_kin (h : s.Steady) (hf : s.Family) (hs : s.step e = some s') : Kin s s' := by
  cases step_spec hs with
  | initAp c _ _ =>
    refine createIdle_kin ?_
    rcases hc : s.creator s.created with _ | p
    · rfl
    · have := (hf.made _ p hc).1
      omega
  | call c now t k _ hc hk hr => exact h.core.perform_kin hc hk.caller.2 hr
  | stmt c now t _ hc _ hr => exact h.core.stmt_kin hc hr
  | timer c now t _ hc _ hr =>
    obtain ⟨s₁, n, h1, -, h3⟩ : ∃ s₁ n, s.selectThread c now = .ok s₁ ∧ s₁.Core s₁.activeThread
        ∧ Switch s s₁ c n := h.core.timer hc
    rw [hr] at h1
    cases h1
    rw [← goto_self (s := s) (t := t)] at h3
    exact .same h3.kinSame

/-- The statement that deletes the queue of `t`'s children. -/
theorem exitDelete_kin (hc : s.activeThread c = some t) (hp : s.pc t = .exitDelete)
    (hs : s.step (.stmt c now) = some s') : (s.thread t).children = some []
      ∧ (s'.thread t).children = none ∧ s'.freed = s.freed ∧ KinFrame s s' t
      ∧ s'.pc = Function.update s.pc t .exitSearch := by
  cases step_spec hs with
  | stmt _ _ t' _ hc' _ hr =>
    rw [hc] at hc'
    cases hc'
    rw [Sched.stmt, hp] at hr
    unfold Sched.exitDelete at hr
    split_ifs at hr with hl
    cases hr
    refine ⟨hl, ?_, rfl, .of_setThread (fun T => { T with children := none }) (fun _ => ⟨rfl, rfl⟩)
      rfl rfl rfl rfl, rfl⟩
    show (Function.update s.thread t { s.thread t with children := none } t).children = _
    rw [Function.update_self]

theorem Family.step (hst : s.Steady) (h : s.Family) (hs : s.step e = some s')
    (hm : Move s.joinView (s.label e) s'.joinView) : s'.Family := by
  by_cases hleaves : ∃ t, s.pc t = .exitDelete ∧ s'.pc t ≠ .exitDelete
  · obtain ⟨t, hp, hp'⟩ := hleaves
    obtain ⟨c, now, rfl, hc⟩ := label_stmt (hm.leaves_delete hst.core.coherent hp hp')
    obtain ⟨hl, hl', hf, hk, hpc⟩ := exitDelete_kin hc hp hs
    have hi : t ≠ s.initThread := by
      intro hi
      have := ((hst.core.good t).init hi).1
      simp [hp, Pc.inner] at this
    refine h.delete hi hl hl' hf hk fun r hr _ _ hd => ?_
    rwa [hpc, Function.update_of_ne hr] at hd
  -- past the deletion of its queue a thread comes only by deleting it
  have hdel : ∀ t, t < s.created → t ≠ s.initThread → (s'.pc t).deleted = true →
      (s.pc t).deleted = true := by
    intro t hlt hi hd
    rcases hm.deleted hd with h1 | h1 | h1
    · exact h1
    · exact absurd h1 hi
    · by_contra hne
      refine hleaves ⟨t, h1, fun h2 => ?_⟩
      rw [h2] at hd
      cases hd
  cases hst.step_kin h hs with
  | same hk => exact h.same hk hdel
  | born p hp hk => exact h.born hst.core hp hk hdel
  | clean t x l hd hl hl' hf hk => exact h.clean hd hl hl' hf hk hdel
  | adopt t x l hp ha =>
    refine h.adopt (fun hi => ?_) hp ha
    have := ((hst.core.good t).init hi).1
    simp [hp, Pc.inner] at this
  | delete t hp hl hl' hf hk =>
    have hi : t ≠ s.initThread := by
      intro hi
      have := ((hst.core.good t).init hi).1
      simp [hp, Pc.inner] at this
    exact h.delete hi hl hl' hf hk fun r _ => hdel r

theorem family_schedInit (n : ℕ) : (schedInit n).Family := by
  have hcr : ∀ y p, (schedInit n).creator y = some p → y = 1 ∧ p = 0 := by
    intro y p hy
    have hy' : Function.update (fun _ => none) 1 (some 0) y = some p := hy
    by_cases h1 : y = 1
    · rw [h1, Function.update_self] at hy'
      exact ⟨h1, (Option.some_inj.1 hy').symm⟩
    · rw [Function.update_of_ne h1] at hy'
      cases hy'
  refine ⟨fun y p hy => ?_, fun y p hy _ => ?_, fun t hlt _ hd => ?_⟩
  · obtain ⟨rfl, rfl⟩ := hcr y p hy
    exact ⟨Nat.lt_succ_self 1, Nat.zero_lt_two⟩
  · obtain ⟨rfl, rfl⟩ := hcr y p hy
    exact .inl ⟨[1], rfl, List.mem_singleton_self 1⟩
  · have hlt' : t < 2 := hlt
    rw [schedInit_pc, if_pos hlt'] at hd
    cases hd

theorem completed_of_invariants (hst : s.Steady) (hf : s.Family) (hh : s.joinView.Holds)
    (hx : ∀ x, x ≠ s.initThread → s.joinView.Expects x) : s.ExitsComplete := by
  intro x hlt hi hz hoff
  have hg := hst.core.gone_iff.2 (.inl hz)
  -- past its critical section
  have hpc : s.pc x = .exitSched ∨ s.pc x = .exited := by
    have hin : ¬ ((s.pc x).inner = true ∨ s.pc x = .exitTestInit) := by
      intro hin
      obtain ⟨c, hc⟩ := hh x hi hin
      exact hoff c hc
    exact Pc.outside_of_gone hg hin
  have hpushed : (s.pc x).pushed = true := by
    rcases hpc with hp | hp <;> rw [hp] <;> rfl
  have hchildren : (s.thread x).children = none := by
    refine hf.emptied x hlt hi ?_
    rcases hpc with hp | hp <;> rw [hp] <;> rfl
  have hclosed : ¬ s.joinView.Open x := by
    intro ho
    have h1 : (s.pc x).searched = false := ho.1
    rcases hpc with hp | hp <;> rw [hp] at h1 <;> cases h1
  refine ⟨(hst.core.good x).zombies hlt hpushed hi, hchildren, fun y hy hfy => ?_, fun j hj ht => ?_⟩
  · refine (hf.kin y x hy hfy).resolve_left ?_
    rintro ⟨l, hl, -⟩
    rw [hchildren] at hl
    cases hl
  · have hjoins := hst.core.coherent.parked j hj
    have hjoins' : (s.pc j).joins = true := hjoins
    cases hp : s.pc j with
    | waitRecord y =>
      rw [hp] at ht
      cases ht
      exact hclosed ((hx x hi).committed j (.inr hp))
    | waitSched y =>
      rw [hp] at ht
      cases ht
      rcases ((hx x hi).joined j ⟨hj, .inl hp⟩).2 with h1 | h1
      · exact hclosed h1
      · have h1' : s.pc x = .exitWake (some j) := h1
        rcases hpc with h2 | h2 <;> rw [h2] at h1' <;> cases h1'
    | waitResumed y =>
      rw [hp] at ht
      cases ht
      rcases ((hx x hi).joined j ⟨hj, .inr hp⟩).2 with h1 | h1
      · exact hclosed h1
      · have h1' : s.pc x = .exitWake (some j) := h1
        rcases hpc with h2 | h2 <;> rw [h2] at h1' <;> cases h1'
    | _ =>
      rw [hp] at hjoins'
      cases hjoins'

/-- In a run whose exits are not interrupted before their critical section and miss no joiner, every
zombie that has left its CPU has completed its exit. -/
theorem run_exitsComplete (h : Reach step ExitsInTime (schedInit n) s) : s.ExitsComplete := by
  have hinv : s.Steady ∧ s.Family ∧ s.joinView.Holds
      ∧ ∀ x, x ≠ s.initThread → s.joinView.Expects x := by
    refine h.invariant (P := fun s => s.Steady ∧ s.Family ∧ s.joinView.Holds
      ∧ ∀ x, x ≠ s.initThread → s.joinView.Expects x)
      ⟨.schedInit n, family_schedInit n, fun t _ ht => ?_, fun x _ => expects_schedInit n x⟩ ?_
    · have hpc : (schedInit n).joinView.pc t = if t < 2 then .run else .exited := schedInit_pc n t
      rw [hpc] at ht
      split_ifs at ht <;> simp [Pc.inner] at ht
    · rintro s e s' ⟨hst, hf, hh, hx⟩ hok hs
      obtain ⟨hst', hm⟩ := hst.step (hst.recordsInTime hx) hs
      have hinit : s'.initThread = s.initThread := hm.init_eq
      refine ⟨hst', hf.step hst hs hm, hh.move hm fun t ht hi => ?_, fun x hi => ?_⟩
      · obtain ⟨c, now, rfl, hc⟩ := label_timer ht
        exact hok t hc hi
      · rw [hinit] at hi
        refine (hx x hi).move hst.core.coherent hst.bound hm fun hlt t ht => ?_
        obtain ⟨c, now, rfl, hc⟩ := label_stmt ht
        exact hok t hc x hlt hi
  exact completed_of_invariants hinv.1 hinv.2.1 hinv.2.2.1 hinv.2.2.2

/-- A thread that created another, which init has joined, exits: init has its child. -/
theorem run_exitsComplete_with_child : ∃ s : Sched, Reach step ExitsInTime (schedInit 2) s
    ∧ s.creator 4 = some 2 ∧ (s.thread 2).state = .zombie ∧ s.ExitsComplete := by
  have hrun : ((runEvents (guarded step ExitsInTime) (schedInit 2)
      [.timer 0 0, .call 0 0 (.create 0 1 6), .initAp 1, .timer 1 0, .call 1 0 (.create 0 1 6),
        .call 0 0 (.wait (some 4)), .stmt 0 0, .stmt 0 0, .stmt 0 0, .stmt 0 0, .stmt 0 0,
        .call 1 0 (.exit none), .stmt 1 0, .stmt 1 0, .stmt 1 0, .stmt 1 0, .stmt 1 0, .stmt 1 0,
        .stmt 1 0, .stmt 1 0, .stmt 1 0, .stmt 1 0, .stmt 1 0]).map
      fun s => (s.creator 4, (s.thread 2).state, s.activeThread 1))
      = some (some 2, .zombie, some 4) := by decide +kernel
  obtain ⟨s, h, hs⟩ := Option.map_eq_some_iff.1 hrun
  simp only [Prod.mk.injEq] at hs
  exact ⟨s, .of_run h, hs.1, hs.2.1, run_exitsComplete (.of_run h)⟩

/-- The timer interrupts an exit past its store: the thread is not elected again, and never linked.
-/
theorem not_exitsComplete_interrupted : ∃ s : Sched, Reach step anyStep (schedInit 2) s
    ∧ ¬ s.ExitsComplete := by
  have hrun : ((runEvents (guarded step JoinsInTime) (schedInit 2)
      [.timer 0 0, .call 0 0 (.create 0 1 6), .initAp 1, .timer 1 0, .call 1 0 (.exit none),
        .stmt 1 0, .timer 1 0]).map
      fun s => decide ((s.thread 2).state = .zombie ∧ s.created = 4 ∧ s.initThread = 1
        ∧ s.freed 2 = false ∧ s.table .zombie = [] ∧ (s.thread 2).cpuAffinity = 1
        ∧ s.activeThread 1 = some 3)) = some true := by decide +kernel
  obtain ⟨s, h, hs⟩ := Option.map_eq_some_iff.1 hrun
  obtain ⟨hz, hcr, hi, hf, hq, ha, h1⟩ := of_decide_eq_true hs
  have hreach : Reach step JoinsInTime (schedInit 2) s := .of_run h
  have hcore := (expects_of_reach hreach).1.core
  refine ⟨s, hreach.mono fun _ _ _ => trivial, fun hc => ?_⟩
  have hoff : ∀ c, s.activeThread c ≠ some 2 := by
    intro c hc
    have := (hcore.active c 2 hc).1
    rw [ha] at this
    rw [← this, h1] at hc
    cases hc
  have := (hc 2 (by rw [hcr]; decide) (by rw [hi]; decide) hz hoff).linked hf
  rw [hq] at this
  cases this

end Sched

end RTLKIM
