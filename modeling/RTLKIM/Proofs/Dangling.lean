import RTLKIM.Proofs.ThreadRefs
import RTLKIM.Lib.Parted

/-!
# Nothing refers to a reclaimed thread

`sched_clean_joined_thread` looks for the thread among the children of the thread that joins it, in
the zombie table and in the global table. A thread that another has for a child stays in that queue,
and one that has not yet pushed its node on the zombie table pushes it later. When neither happens
nothing refers to a thread that has been freed.
-/

namespace RTLKIM

namespace Sched

variable {s s' : Sched} {v : RefView} {pc : ℕ → Pc} {t x : ℕ} {l : List ℕ}

/-- `x` is past its push on the zombie table, and no thread other than `t` has it for a child. -/
def Reclaimable (s : Sched) (t x : ℕ) : Prop :=
  (s.pc x).pushed = true ∧ ∀ p < s.created, p ≠ t → ∀ l ∈ (s.thread p).children, x ∉ l

instance (s : Sched) (t x : ℕ) : Decidable (s.Reclaimable t x) :=
  inferInstanceAs (Decidable (_ ∧ _))

/-- The step, if it reclaims a thread, may do so. -/
def CleansOwn (s : Sched) : InitEv → Prop
  | .sched (.stmt c _) => ∀ t ∈ s.activeThread c, ∀ x < s.created,
      s.pc t = .waitClean x ∨ s.pc t = .waitResumed x → s.Reclaimable t x
  | _ => True

instance (s : Sched) : ∀ e, Decidable (s.CleansOwn e)
  | .sched (.stmt _ _) => inferInstanceAs (Decidable (∀ t ∈ _, _))
  | .sched (.initAp _) | .sched (.call _ _ _) | .sched (.timer _ _) | .pop _ => instDecidableTrue

/-- Every thread has one place in each table and one parent at most, a joiner waits for the thread
that has its node, and what is freed is past its exit and in no table. -/
structure Tidy (v : RefView) (pc : ℕ → Pc) : Prop where
  own : ∀ n x, v.data n = some x → n = x
  fresh : ∀ t, v.created ≤ t → pc t = .exited ∧ v.children t = none
  target : ∀ t x, (pc t).target = some x → x < v.created
  zombies : v.zombie.Nodup ∧ ∀ n ∈ v.zombie, n < v.created ∧ (pc n).pushed = true
  table : v.global.Nodup ∧ ∀ a ∈ v.global, a < v.created
  apart : Parted v.children
  kids : ∀ p l, v.children p = some l → ∀ x ∈ l, x < v.created
  joins : ∀ y j, v.joining y = some j → v.freed y = true ∨ pc j = .waitSched y ∨ pc j = .waitResumed y
  gone : ∀ y, v.freed y = true → y < v.created ∧ (pc y).pushed = true
  unlinked : ∀ y, v.freed y = true → (∀ n ∈ v.zombie, v.data n ≠ some y) ∧ y ∉ v.global
    ∧ ∀ p l, v.children p = some l → y ∉ l

namespace Tidy

theorem noDangling (h : Tidy s.refs s.pc) : s.NoDangling := by
  intro x hx
  obtain ⟨hz, hg, hk⟩ := h.unlinked x hx
  refine ⟨hz, hg, ?_, fun y hy hj => ?_⟩
  · rintro p ⟨l, hl, hxl⟩
    exact hk p l hl hxl
  · have hpush := (h.gone x hx).2
    rcases h.joins y x hj with h1 | h1 | h1
    · rw [show s.refs.freed y = false from hy] at h1
      cases h1
    · rw [h1] at hpush
      cases hpush
    · rw [h1] at hpush
      cases hpush

theorem lt_of_pc (h : Tidy v pc) (hp : pc t ≠ .exited) : t < v.created := by
  by_contra hlt
  exact hp (h.fresh t (Nat.le_of_not_gt hlt)).1

theorem lt_of_children (h : Tidy v pc) (hl : v.children t = some l) : t < v.created := by
  by_contra hlt
  rw [(h.fresh t (Nat.le_of_not_gt hlt)).2] at hl
  cases hl

/-- A thread before its push is no zombie and has not been freed. -/
theorem before_push (h : Tidy v pc) (hp : (pc t).pushed = false) :
    t ∉ v.zombie ∧ v.freed t = false := by
  refine ⟨fun hz => ?_, ?_⟩
  · rw [(h.zombies.2 t hz).2] at hp
    cases hp
  · rcases hf : v.freed t
    · rfl
    · rw [(h.gone t hf).2] at hp
      cases hp

/-- A thread that waits for nobody is the joiner of freed threads only. -/
theorem joins_freed (h : Tidy v pc) (hp : ∀ y, pc t ≠ .waitSched y ∧ pc t ≠ .waitResumed y) {y : ℕ}
    (hj : v.joining y = some t) : v.freed y = true :=
  (h.joins y t hj).resolve_right fun hw => hw.elim (hp y).1 (hp y).2

/-! ## What a step does -/

/-- `t` goes on to `p`. -/
theorem goes (h : Tidy v pc) {p : Pc} (hlive : pc t ≠ .exited)
    (hpush : (pc t).pushed = true → p.pushed = true)
    (htarget : ∀ y, p.target = some y → (pc t).target = some y ∨ y < v.created)
    (hjoins : ∀ y, v.joining y = some t → v.freed y = true ∨ p = .waitSched y ∨ p = .waitResumed y) :
    Tidy v (Function.update pc t p) := by
  have hpush' : ∀ y, (pc y).pushed = true → (Function.update pc t p y).pushed = true := by
    intro y hy
    by_cases hyt : y = t
    · subst hyt
      rw [Function.update_self]
      exact hpush hy
    · rwa [Function.update_of_ne hyt]
  refine ⟨h.own, fun y hy => ⟨?_, (h.fresh y hy).2⟩, fun y x hx => ?_,
    ⟨h.zombies.1, fun n hn => ⟨(h.zombies.2 n hn).1, hpush' n (h.zombies.2 n hn).2⟩⟩, h.table, h.apart,
    h.kids, fun y j hj => ?_, fun y hy => ⟨(h.gone y hy).1, hpush' y (h.gone y hy).2⟩, h.unlinked⟩
  · rw [Function.update_of_ne, (h.fresh y hy).1]
    rintro rfl
    exact hlive (h.fresh y hy).1
  · by_cases hyt : y = t
    · subst hyt
      rw [Function.update_self] at hx
      exact (htarget x hx).elim (h.target y x) id
    · rw [Function.update_of_ne hyt] at hx
      exact h.target y x hx
  · by_cases hjt : j = t
    · subst hjt
      rw [Function.update_self]
      exact hjoins y hj
    · rw [Function.update_of_ne hjt]
      exact h.joins y j hj

/-- Queues of children get shorter or are deleted. -/
theorem sub (h : Tidy v pc) {ch : ℕ → Option (List ℕ)}
    (hch : ∀ q m, ch q = some m → ∃ l, v.children q = some l ∧ m.Sublist l) :
    Tidy { v with children := ch } pc := by
  refine ⟨h.own, fun y hy => ⟨(h.fresh y hy).1, ?_⟩, h.target, h.zombies, h.table,
    h.apart.sub fun q m hm => .inr (hch q m hm), fun q m hm x hx => ?_, h.joins, h.gone, fun y hy => ?_⟩
  · rcases hm : ch y with _ | m
    · exact hm
    · obtain ⟨l, hl, -⟩ := hch y m hm
      rw [(h.fresh y hy).2] at hl
      cases hl
  · obtain ⟨l, hl, hs⟩ := hch q m hm
    exact h.kids q l hl x (hs.subset hx)
  · obtain ⟨h1, h2, h3⟩ := h.unlinked y hy
    refine ⟨h1, h2, fun q m hm hym => ?_⟩
    obtain ⟨l, hl, hs⟩ := hch q m hm
    exact h3 q l hl (hs.subset hym)

/-- The queue of `t` gets shorter or is deleted. -/
theorem subAt (h : Tidy v pc) {o : Option (List ℕ)}
    (ho : ∀ m, o = some m → ∃ l, v.children t = some l ∧ m.Sublist l) :
    Tidy { v with children := Function.update v.children t o } pc := by
  refine h.sub fun q m hm => ?_
  by_cases hq : q = t
  · subst hq
    rw [Function.update_self] at hm
    exact ho m hm
  · rw [Function.update_of_ne hq] at hm
    exact ⟨m, hm, List.Sublist.refl m⟩

/-- A child that is in no queue is put in one. -/
theorem cons (h : Tidy v pc) (hl : v.children t = some l) (hlt : x < v.created)
    (hx : ∀ q m, v.children q = some m → x ∉ m) (hf : v.freed x = false) :
    Tidy { v with children := Function.update v.children t (some (x :: l)) } pc := by
  have hcases : ∀ {q m}, Function.update v.children t (some (x :: l)) q = some m → ∀ y ∈ m,
      y = x ∨ ∃ m', v.children q = some m' ∧ y ∈ m' := by
    intro q m hm y hy
    by_cases hq : q = t
    · subst hq
      rw [Function.update_self, Option.some_inj] at hm
      subst hm
      exact (List.mem_cons.1 hy).imp id fun hy => ⟨l, hl, hy⟩
    · rw [Function.update_of_ne hq] at hm
      exact .inr ⟨m, hm, hy⟩
  refine ⟨h.own, fun y hy => ⟨(h.fresh y hy).1, ?_⟩, h.target, h.zombies, h.table, h.apart.cons hl hx,
    fun q m hm y hy => ?_, h.joins, h.gone, fun y hy => ?_⟩
  · show Function.update v.children t (some (x :: l)) y = none
    rw [Function.update_of_ne, (h.fresh y hy).2]
    rintro rfl
    exact absurd (h.lt_of_children hl) (Nat.not_lt.2 hy)
  · rcases hcases hm y hy with rfl | ⟨m', hm', hy'⟩
    · exact hlt
    · exact h.kids q m' hm' y hy'
  · obtain ⟨h1, h2, h3⟩ := h.unlinked y hy
    refine ⟨h1, h2, fun q m hm hym => ?_⟩
    rcases hcases hm y hym with rfl | ⟨m', hm', hy'⟩
    · rw [show v.freed y = true from hy] at hf
      cases hf
    · exact h3 q m' hm' hy'

/-- The last child of `t` is handed over to init. -/
theorem adopt (h : Tidy v pc) {k : List ℕ} {data : ℕ → Option ℕ} (hl : v.children t = some l)
    (hx : l.getLast? = some x) (hk : Function.update v.children t (some l.dropLast) v.init = some k)
    (hd : ∀ n, data n = v.data n ∨ data n = none ∧ v.data n = some t) :
    Tidy (v.adopt t x l k data) pc := by
  have hxl : x ∈ l := List.mem_of_getLast? hx
  have hf : v.freed x = false := by
    rcases hf : v.freed x
    · rfl
    · exact absurd hxl ((h.unlinked x hf).2.2 t l hl)
  have h₁ : Tidy { v with children := Function.update v.children t (some l.dropLast) } pc := by
    refine h.subAt fun m hm => ⟨l, hl, ?_⟩
    rw [← Option.some_inj.1 hm]
    exact List.dropLast_sublist l
  have h₂ := h₁.cons hk (h.kids t l hl x hxl) (fun q m hm => h.apart.not_mem_dropLast hl hx hm) hf
  have hdata : ∀ {n y}, data n = some y → v.data n = some y := by
    intro n y hy
    rcases hd n with h1 | ⟨h1, -⟩
    · rwa [h1] at hy
    · rw [h1] at hy
      cases hy
  refine ⟨fun n y hy => h.own n y (hdata hy), h₂.fresh, h₂.target, h₂.zombies, h₂.table, h₂.apart,
    h₂.kids, h₂.joins, h₂.gone, fun y hy => ?_⟩
  obtain ⟨h1, h2, h3⟩ := h₂.unlinked y hy
  exact ⟨fun n hn hny => h1 n hn (hdata hny), h2, h3⟩

theorem born_children {i q : ℕ} {m : List ℕ} (hm : (v.born i none).children q = some m) :
    m = [] ∨ v.children q = some m := by
  by_cases hq : q = v.created
  · subst hq
    exact .inl (Option.some_inj.1 (hm.symm.trans (Function.update_self v.created _ _)))
  · exact .inr ((Function.update_of_ne hq _ _).symm.trans hm)

/-- A thread more, that has no parent. -/
theorem more (h : Tidy v pc) (i : ℕ) :
    Tidy (v.born i none) (Function.update pc v.created .run) := by
  have hlt : ∀ {y}, y < v.created → Function.update pc v.created .run y = pc y := fun hy =>
    Function.update_of_ne hy.ne _ _
  have hdata : ∀ {n}, n < v.created → (v.born i none).data n = v.data n := fun hn =>
    Function.update_of_ne hn.ne _ _
  refine ⟨fun n y hy => ?_, fun y hy => ?_, fun y x hx => ?_, ⟨h.zombies.1, fun n hn => ?_⟩,
    ⟨?_, ?_⟩, h.apart.sub fun q m hm => ?_, fun q m hm y hy => ?_, fun y j hj => ?_,
    fun y hy => ?_, fun y hy => ?_⟩
  · by_cases hn : n = v.created
    · subst hn
      exact Option.some_inj.1 ((Function.update_self v.created _ v.data).symm.trans hy)
    · exact h.own n y ((Function.update_of_ne hn _ _).symm.trans hy)
  · have hy' : v.created + 1 ≤ y := hy
    have hne : y ≠ v.created := by omega
    exact ⟨(Function.update_of_ne hne _ _).trans (h.fresh y (by omega)).1,
      (Function.update_of_ne hne _ _).trans (h.fresh y (by omega)).2⟩
  · show x < v.created + 1
    by_cases hyc : y = v.created
    · subst hyc
      rw [Function.update_self] at hx
      cases hx
    · rw [Function.update_of_ne hyc] at hx
      exact Nat.lt_succ_of_lt (h.target y x hx)
  · obtain ⟨h1, h2⟩ := h.zombies.2 n hn
    exact ⟨Nat.lt_succ_of_lt h1, by rwa [hlt h1]⟩
  · exact List.nodup_cons.2 ⟨fun hmem => absurd (h.table.2 _ hmem) (Nat.lt_irrefl _), h.table.1⟩
  · intro a ha
    rcases List.mem_cons.1 ha with rfl | ha
    · exact Nat.lt_succ_self _
    · exact Nat.lt_succ_of_lt (h.table.2 a ha)
  · exact (born_children hm).imp id fun hm => ⟨m, hm, List.Sublist.refl m⟩
  · rcases born_children hm with rfl | hm
    · cases hy
    · exact Nat.lt_succ_of_lt (h.kids q m hm y hy)
  · by_cases hyc : y = v.created
    · subst hyc
      exact absurd ((Function.update_self v.created _ v.joining).symm.trans hj) (by simp)
    · have hj' := (Function.update_of_ne hyc _ _).symm.trans hj
      rcases h.joins y j hj' with h1 | h1
      · exact .inl h1
      · have hjlt : j < v.created := h.lt_of_pc (by rcases h1 with h1 | h1 <;> rw [h1] <;> simp)
        rw [hlt hjlt]
        exact .inr h1
  · obtain ⟨h1, h2⟩ := h.gone y hy
    exact ⟨Nat.lt_succ_of_lt h1, by rwa [hlt h1]⟩
  · obtain ⟨h1, h2, h3⟩ := h.unlinked y hy
    refine ⟨fun n hn => ?_, fun hmem => ?_, fun q m hm hym => ?_⟩
    · rw [hdata (h.zombies.2 n hn).1]
      exact h1 n hn
    · rcases List.mem_cons.1 hmem with rfl | hmem
      · exact absurd (h.gone _ hy).1 (Nat.lt_irrefl _)
      · exact h2 hmem
    · rcases born_children hm with rfl | hm
      · cases hym
      · exact h3 q m hm hym

/-- A thread more. -/
theorem born (h : Tidy v pc) (i : ℕ) (p : Option ℕ) :
    Tidy (v.born i p) (Function.update pc v.created .run) := by
  rcases p with _ | t
  · exact h.more i
  rcases hl : v.children t with _ | l
  · have hself : Function.update v.children t none = v.children := by
      rw [← hl, Function.update_eq_self]
    have heq : v.born i (some t) = v.born i none := by simp [RefView.born, hl, hself]
    rw [heq]
    exact h.more i
  · have hne : t ≠ v.created := (h.lt_of_children hl).ne
    have hl' : (v.born i none).children t = some l := (Function.update_of_ne hne _ _).trans hl
    have hx : ∀ q m, (v.born i none).children q = some m → v.created ∉ m := by
      intro q m hm hmem
      rcases born_children hm with rfl | hm
      · cases hmem
      · exact absurd (h.kids q m hm _ hmem) (Nat.lt_irrefl _)
    have hf : (v.born i none).freed v.created = false := by
      rcases hf : v.freed v.created
      · exact hf
      · exact absurd (h.gone _ hf).1 (Nat.lt_irrefl _)
    have h' := (h.more i).cons hl' (Nat.lt_succ_self _) hx hf
    have heq : v.born i (some t) = { v.born i none with
        children := Function.update (v.born i none).children t (some (v.created :: l)) } := by
      simp [RefView.born, hl, Function.update_comm hne]
    rw [heq]
    exact h'

/-- A joiner is recorded once it is at its `sched_schedule`. -/
theorem record (h : Tidy v pc) (hp : pc t = .waitSched x) :
    Tidy { v with joining := Function.update v.joining x (some t) } pc := by
  refine ⟨h.own, h.fresh, h.target, h.zombies, h.table, h.apart, h.kids, fun y j hj => ?_, h.gone,
    h.unlinked⟩
  by_cases hy : y = x
  · subst hy
    obtain rfl : t = j := Option.some_inj.1 ((Function.update_self y _ v.joining).symm.trans hj)
    exact .inr (.inl hp)
  · exact h.joins y j ((Function.update_of_ne hy _ _).symm.trans hj)

/-- A node is pushed on the zombie table, by a thread that is then past it. -/
theorem push (h : Tidy v pc) (hlt : t < v.created) (hp : (pc t).pushed = true) (hz : t ∉ v.zombie)
    (hf : v.freed t = false) : Tidy { v with zombie := t :: v.zombie } pc := by
  refine ⟨h.own, h.fresh, h.target, ⟨List.nodup_cons.2 ⟨hz, h.zombies.1⟩, fun n hn => ?_⟩, h.table,
    h.apart, h.kids, h.joins, h.gone, fun y hy => ?_⟩
  · rcases List.mem_cons.1 hn with rfl | hn
    · exact ⟨hlt, hp⟩
    · exact h.zombies.2 n hn
  · obtain ⟨h1, h2, h3⟩ := h.unlinked y hy
    refine ⟨fun n hn hd => ?_, h2, h3⟩
    rcases List.mem_cons.1 hn with rfl | hn
    · obtain rfl := h.own n y hd
      rw [show v.freed n = true from hy] at hf
      cases hf
    · exact h1 n hn hd

/-- A thread that is past its push is reclaimed, and no thread but `t` has it for a child. -/
theorem clean (h : Tidy v pc) (hl : v.children t = some l) (hlt : x < v.created)
    (hp : (pc x).pushed = true) (hx : ∀ p m, p ≠ t → v.children p = some m → x ∉ m) :
    Tidy (v.clean t x l) pc := by
  have h₁ : Tidy { v with children := Function.update v.children t (some (l.erase x)) } pc := by
    refine h.subAt fun m hm => ⟨l, hl, ?_⟩
    rw [← Option.some_inj.1 hm]
    exact List.erase_sublist
  have hfreed : ∀ {y}, (v.clean t x l).freed y = true → y = x ∨ v.freed y = true := by
    intro y hy
    by_cases hyx : y = x
    · exact .inl hyx
    · exact .inr ((Function.update_of_ne hyx _ _).symm.trans hy)
  have hz : (v.clean t x l).zombie.Sublist v.zombie := List.eraseP_sublist
  refine ⟨h.own, h₁.fresh, h.target, ⟨h.zombies.1.sublist hz, fun n hn => h.zombies.2 n (hz.subset hn)⟩,
    ⟨h.table.1.erase x, fun a ha => h.table.2 a (List.mem_of_mem_erase ha)⟩, h₁.apart, h₁.kids,
    fun y j hj => ?_, fun y hy => ?_, fun y hy => ?_⟩
  · rcases h.joins y j hj with h1 | h1
    · refine .inl ?_
      show Function.update v.freed x true y = true
      by_cases hyx : y = x
      · rw [hyx, Function.update_self]
      · rwa [Function.update_of_ne hyx]
    · exact .inr h1
  · rcases hfreed hy with rfl | hy
    · exact ⟨hlt, hp⟩
    · exact h.gone y hy
  · rcases hfreed hy with rfl | hy
    · refine ⟨fun n hn hd => ?_, fun hmem => ?_, fun q m hm hmem => ?_⟩
      · -- the node erased is the one that holds `y`, and it was there once
        obtain rfl := h.own n y hd
        obtain ⟨a, l₁, l₂, -, ha, hsplit, herase⟩ := List.exists_of_eraseP
          (p := fun m => decide (v.data m = some n)) (hz.subset hn) (decide_eq_true hd)
        obtain rfl := h.own a n (of_decide_eq_true ha)
        have hnodup := h.zombies.1
        rw [hsplit, List.nodup_middle] at hnodup
        refine (List.nodup_cons.1 hnodup).1 ?_
        rw [← herase]
        exact hn
      · exact (h.table.1.not_mem_erase) hmem
      · by_cases hq : q = t
        · subst hq
          obtain rfl := Option.some_inj.1 ((Function.update_self q _ v.children).symm.trans hm)
          exact (h.apart.nodup q l hl).not_mem_erase hmem
        · exact hx q m hq ((Function.update_of_ne hq _ _).symm.trans hm) hmem
    · obtain ⟨h1, h2, h3⟩ := h₁.unlinked y hy
      exact ⟨fun n hn => h1 n (hz.subset hn), fun hmem => h2 (List.mem_of_mem_erase hmem), h3⟩

theorem step {e : InitEv} (h : Tidy s.refs s.pc) (hok : s.CleansOwn e)
    (hs : s.stepInit e = some s') :
    Tidy s'.refs s'.pc := by
  cases e with
  | pop c =>
    simp only [stepInit] at hs
    split_ifs at hs
    cases hs
    unfold initPop
    rw [refs_setChildren (Option.map List.dropLast)]
    refine h.subAt fun m hm => ?_
    obtain ⟨l, hl, rfl⟩ := Option.map_eq_some_iff.1 hm
    exact ⟨l, hl, List.dropLast_sublist l⟩
  | sched e =>
    cases step_refs hs with
    | same hv hpc =>
      rw [hv, hpc]
      exact h
    | goes t p hg hv hpc =>
      rw [hv, hpc]
      refine h.goes hg.live hg.push (fun y hy => (hg.target y hy).imp_right And.left) fun y hj => ?_
      rcases h.joins y t hj with h1 | h1 | h1
      · exact .inl h1
      · exact .inr (.inr (hg.wait y h1))
      · exact absurd h1 (hg.back y).1
    | spent _ hv hpc =>
      rw [hv, hpc]
      exact ⟨h.own, h.fresh, h.target, h.zombies, h.table, h.apart, h.kids, h.joins, h.gone, h.unlinked⟩
    | idle c _ hv hpc =>
      rw [hv, hpc]
      exact h.born _ none
    | create t _ hv hpc =>
      rw [hv, hpc]
      exact h.born _ (some t)
    | record t x hp hv hpc =>
      rw [hv, hpc]
      have h₁ : Tidy s.refs (Function.update s.pc t (.waitSched x)) :=
        h.goes (by simp [hp]) (by simp [hp, Pc.pushed]) (by simp [hp, Pc.target]) fun y hj =>
          .inl (h.joins_freed (by simp [hp]) hj)
      exact h₁.record (Function.update_self _ _ _)
    | clean c now t x l he hc hp hl hv hpc =>
      subst he
      rw [hv, hpc]
      have hlt : x < s.created := h.target t x (by rcases hp with hp | hp <;> rw [hp] <;> rfl)
      obtain ⟨hpush, hother⟩ := hok t hc x hlt hp
      have h₁ : Tidy (s.refs.clean t x l) s.pc :=
        h.clean hl hlt hpush fun p m hne hm => hother p (h.lt_of_children hm) hne m hm
      refine h₁.goes ?_ ?_ (by simp [Pc.target]) fun y hj => .inl ?_
      · rcases hp with hp | hp <;> rw [hp] <;> simp
      · rcases hp with hp | hp <;> rw [hp] <;> simp [Pc.pushed]
      · show Function.update s.refs.freed x true y = true
        by_cases hyx : y = x
        · rw [hyx, Function.update_self]
        · rw [Function.update_of_ne hyx]
          refine (h.joins y t hj).resolve_right ?_
          rcases hp with hp | hp <;> simp [hp, Ne.symm hyx]
    | push t hp hv hpc =>
      rw [hv, hpc]
      obtain ⟨hz, hf⟩ := h.before_push (t := t) (by rw [hp]; rfl)
      have h₁ : Tidy s.refs (Function.update s.pc t .exitChildren) :=
        h.goes (by simp [hp]) (by simp [Pc.pushed]) (by simp [Pc.target]) fun y hj =>
          .inl (h.joins_freed (by simp [hp]) hj)
      exact h₁.push (h.lt_of_pc (by simp [hp])) (by rw [Function.update_self]; rfl) hz hf
    | adopt t x l k data hp hl hx hk hd hv hpc =>
      rw [hv, hpc]
      exact h.adopt hl hx hk hd
    | delete t hp hv hpc =>
      rw [hv, hpc]
      have h₁ : Tidy { s.refs with children := Function.update s.refs.children t none } s.pc :=
        h.subAt fun m hm => by cases hm
      exact h₁.goes (by simp [hp]) (by simp [Pc.pushed]) (by simp [Pc.target]) fun y hj =>
        .inl (h.joins_freed (by simp [hp]) hj)

end Tidy

theorem schedInit_tidy (n : ℕ) : Tidy (schedInit n).refs (schedInit n).pc := by
  have h₀ : Tidy (blank n).refs (blank n).pc :=
    ⟨by simp [blank, refs], by simp [blank, refs], by simp [blank, Pc.target], by simp [blank, refs],
      by simp [blank, refs], ⟨by simp [blank, refs], by simp [blank, refs]⟩, by simp [blank, refs],
      by simp [blank, refs], by simp [blank, refs], by simp [blank, refs]⟩
  have h₁ : Tidy ((blank n).createIdle 0).refs ((blank n).createIdle 0).pc := by
    rw [show ((blank n).createIdle 0).refs = (blank n).refs.born 0 none from refs_newThread _ rfl rfl]
    exact h₀.born 0 none
  obtain ⟨hv, hpc⟩ := createKernelThread_born (s := (blank n).createIdle 0) (t := 0)
    (k := kernelHighestPriority) (a := 0) (m := 6) (Nat.not_lt_zero _) (by decide) (by decide)
  have h₂ := h₁.born (add32 ((blank n).createIdle 0).lastGivenTid 1) (some 0)
  have hcreated : ((blank n).createIdle 0).refs.created = ((blank n).createIdle 0).created := rfl
  rw [← hv, hcreated, ← hpc] at h₂
  exact ⟨h₂.own, h₂.fresh, h₂.target, h₂.zombies, h₂.table, h₂.apart, h₂.kids, h₂.joins, h₂.gone,
    h₂.unlinked⟩

/-- In a run that reclaims only threads past their push on the zombie table, which no thread but the
one that joins them has for a child, nothing refers to a thread that has been freed. -/
theorem no_dangling_references (n : ℕ) (s : Sched) (h : Reach stepInit CleansOwn (schedInit n) s) :
    s.NoDangling := by
  refine (h.invariant (P := fun s => Tidy s.refs s.pc) (schedInit_tidy n) ?_).noDangling
  intro s e s' hs hok he
  exact hs.step hok he

/-- Init takes thread 2 off its queue, waits for it and reclaims it. -/
theorem no_dangling_references_child : ∃ s : Sched, Reach stepInit CleansOwn (schedInit 1) s
    ∧ s.freed 2 = true ∧ s.NoDangling := by
  have hrun : ((runEvents (guarded stepInit CleansOwn) (schedInit 1)
      ([.timer 0 0, .call 0 0 (.create 0 0 6)].map InitEv.sched ++ [.pop 0]
        ++ ([.call 0 0 (.wait (some 2)), .stmt 0 0, .stmt 0 0, .stmt 0 0, .stmt 0 0, .stmt 0 0,
          .call 0 0 (.exit none), .stmt 0 0, .stmt 0 0, .stmt 0 0, .stmt 0 0, .stmt 0 0, .stmt 0 0,
          .stmt 0 0, .stmt 0 0, .stmt 0 0, .stmt 0 0, .stmt 0 0].map InitEv.sched))).map
      fun s => s.freed 2) = some true := by decide +kernel
  obtain ⟨s, h, hf⟩ := Option.map_eq_some_iff.1 hrun
  exact ⟨s, .of_run h, hf, no_dangling_references 1 s (.of_run h)⟩

/-- Thread 3 joins thread 2, which init created: it is freed and still among init's children. -/
theorem dangling_child_of_init : ∃ s : Sched, Reach stepInit anyStep (schedInit 1) s
    ∧ s.freed 2 = true ∧ s.HasChild 1 2 ∧ ¬ s.NoDangling := by
  have hrun : ((runEvents (guarded stepInit anyStep) (schedInit 1)
      ([.timer 0 0, .call 0 0 (.create 0 0 6), .call 0 0 (.create 0 0 6), .timer 0 0,
        .call 0 0 (.exit none), .stmt 0 0, .stmt 0 0, .stmt 0 0, .stmt 0 0, .stmt 0 0, .stmt 0 0,
        .stmt 0 0, .stmt 0 0, .stmt 0 0, .stmt 0 0, .call 0 0 (.wait (some 2)), .stmt 0 0, .stmt 0 0,
        .stmt 0 0, .stmt 0 0].map InitEv.sched)).map
      fun s => (s.freed 2, (s.thread 1).children)) = some (true, some [3, 2]) := by decide +kernel
  obtain ⟨s, h, hs⟩ := Option.map_eq_some_iff.1 hrun
  simp only [Prod.mk.injEq] at hs
  obtain ⟨hf, hch⟩ := hs
  have hchild : s.HasChild 1 2 := ⟨[3, 2], hch, by simp⟩
  exact ⟨s, .of_run h, hf, hchild, fun hnd => (hnd 2 hf).2.2.1 1 hchild⟩

end Sched

end RTLKIM
