import RTLKIM.ObjectHeap
import RTLKIM.Proofs.Channel
import RTLKIM.Proofs.KHeapRun
import RTLKIM.Proofs.Mutex

/-!
# What the objects leave in the heap

An object owns allocations (`KObject.owned`), which every step keeps on top of those that were live
before its creation. `mutex_destroy` gives its queue back; `sem_destroy` does not, and neither do
the destructions built on it.
-/

namespace RTLKIM

/-! ## Destructions -/

namespace MutexSys

variable {τ : Type} [DecidableEq τ] {tid : τ → Int32} {s s' : MutexSys τ} {t : τ}

theorem init_destroy (h : s.step tid (.destroy t) = some s') : s'.mutex.init = false := by
  simp only [step] at h
  split_ifs at h with ht
  obtain ⟨p, hp, rfl⟩ := Option.map_eq_some_iff.1 h
  obtain ⟨hi, rfl⟩ | ⟨hi, w, hw, rfl⟩ := mutexDestroy_ok hp
  · exact hi
  · rfl

/-- With an empty queue the destruction does not panic. -/
theorem destroy_quiet (tid : τ → Int32) (ht : s.Free t) (hq : s.mutex.waiters.queue = []) :
    ∃ s', s.step tid (.destroy t) = some s' := by
  simp only [step]
  rw [if_pos ht]
  unfold Mutex.mutexDestroy Mutex.unlockAll
  rw [hq]
  split_ifs
  · exact ⟨_, rfl⟩
  · exact ⟨_, rfl⟩

end MutexSys

namespace Sem

variable {τ : Type} [DecidableEq τ] {s : Sem τ}

theorem semDestroy_quiet (hq : s.waiters.queue = []) : ∃ p, s.semDestroy = .ok p := by
  unfold semDestroy unlockAll
  dsimp only
  rw [hq]
  split_ifs
  · exact ⟨_, rfl⟩
  · exact ⟨_, rfl⟩

/-- What a creation that fails makes of its first semaphore is what `sem_destroy` makes of it. -/
theorem semDestroy_semInit (initLevel : Int32) :
    (semInit initLevel : Sem τ).semDestroy = .ok (.noErr, { semInit initLevel with init := false }) :=
  rfl

end Sem

theorem SemSys.destroy_quiet {τ : Type} [DecidableEq τ] {s : SemSys τ} {t : τ} (ht : s.Free t)
    (hq : s.sem.waiters.queue = []) : ∃ s', s.step (.destroy t) = some s' := by
  obtain ⟨p, hp⟩ := Sem.semDestroy_quiet hq
  simp only [step]
  rw [if_pos ht, hp]
  exact ⟨_, rfl⟩

namespace Chan

variable {τ α β : Type} [DecidableEq τ] {B : Store α β} {s s' : Chan τ α β} {e : ChanEv τ α} {t : τ}

theorem init_step (h : s.step B e = some s') (he : ∀ t, e ≠ .destroy t) : s'.init = s.init := by
  have hm := move_step h
  show s'.view.init = s.view.init
  generalize s'.view = v at hm
  cases hm with
  | destroy t h1 => exact absurd h1 (he t)
  | _ => rfl

theorem init_destroy (h : s.step B (.destroy t) = some s') : s'.init = false := by
  simp only [step] at h
  split at h
  · unfold destroy at h
    split_ifs at h with hi
    · cases h
      exact hi
    · rcases hr : s.semRead.semDestroy with _ | r
      · rw [hr] at h
        cases h
      rcases hw : s.semWrite.semDestroy with _ | w
      · rw [hr, hw] at h
        cases h
      rw [hr, hw] at h
      cases h
      rfl
  · cases h

theorem destroy_quiet (ht : s.pc t = .idle) (hr : s.semRead.waiters.queue = [])
    (hw : s.semWrite.waiters.queue = []) : ∃ s', s.step B (.destroy t) = some s' := by
  obtain ⟨r, hr⟩ := Sem.semDestroy_quiet hr
  obtain ⟨w, hw⟩ := Sem.semDestroy_quiet hw
  simp only [step]
  rw [ht]
  unfold destroy
  split_ifs
  · exact ⟨_, rfl⟩
  · rw [hr, hw]
    exact ⟨_, rfl⟩

end Chan

/-! ## What an object owns -/

/-- The queues of the semaphores of a mailbox or a queue; `0` is none. -/
def semsOwned (semRead semWrite : ℕ) : List ℕ :=
  if semWrite = 0 then [semRead] else [semWrite, semRead]

namespace KObject

variable {τ α : Type}

def kind : KObject τ α → ObjectKind
  | .semaphore _ _ => .semaphore
  | .mutex _ _ => .mutex
  | .mailbox _ _ _ => .mailbox
  | .queue _ _ _ _ => .queue

/-- The allocations made for the object and not freed. -/
def owned : KObject τ α → List ℕ
  | .semaphore _ q => [q]
  | .mutex m q => if m.mutex.init = false then [] else [q]
  | .mailbox _ r w => semsOwned r w
  | .queue q r w c => if q.init = false then semsOwned r w else c :: semsOwned r w

/-- The `waiting_threads` made first. -/
def waitQueue : KObject τ α → ℕ
  | .semaphore _ q | .mutex _ q => q
  | .mailbox _ r _ | .queue _ r _ _ => r

theorem waitQueue_mem_owned {o : KObject τ α} (ho : o.kind ≠ .mutex) : o.waitQueue ∈ o.owned := by
  have hmem : ∀ r w, r ∈ semsOwned r w := fun r w => by
    unfold semsOwned
    split_ifs <;> simp
  cases o with
  | semaphore s q => exact List.mem_singleton_self q
  | mutex m q => exact absurd rfl ho
  | mailbox m r w => exact hmem r w
  | queue q r w c =>
    simp only [owned, waitQueue]
    split_ifs
    · exact hmem r w
    · exact List.mem_cons_of_mem _ (hmem r w)

/-- The queue of a mutex is there until its destruction, and nobody waits in it after that. -/
def Sound : KObject τ α → Prop
  | .mutex m q => m.Inv ∧ (m.mutex.init = true → q ≠ 0)
  | _ => True

end KObject

namespace HeapSys

variable {h : HeapSys}

theorem kmalloc_live (size : ℕ) : (h.kmalloc size).1.live
    = if (h.kmalloc size).2 = 0 then h.live else (h.kmalloc size).2 :: h.live := rfl

theorem kernelQueueCreateQueue_live : h.kernelQueueCreateQueue.1.live
    = if h.kernelQueueCreateQueue.2 = 0 then h.live else h.kernelQueueCreateQueue.2 :: h.live := by
  unfold kernelQueueCreateQueue
  dsimp only
  split_ifs with h1 h2
  · rw [kmalloc_live, if_pos h1]
  · exact absurd rfl h2
  · show (h.kmalloc sizeofKernelQueue).1.live = _
    rw [kmalloc_live, if_neg h1]

theorem kernelQueueCreateQueue_snd :
    h.kernelQueueCreateQueue.2 = (h.heap.kmalloc sizeofKernelQueue).2 := by
  unfold kernelQueueCreateQueue
  dsimp only
  split_ifs with h1
  · exact h1.symm
  · rfl

theorem kernelQueueCreateQueue_fresh {lo hi : ℕ} {A : BlockHeap} (I : HeapInv lo hi h A)
    (h0 : h.kernelQueueCreateQueue.2 ≠ 0) : h.kernelQueueCreateQueue.2 ∉ h.live := by
  rw [kernelQueueCreateQueue_snd] at h0 ⊢
  exact I.kmalloc_fresh h0

theorem semQueues_fst : h.semQueues.2.1 = h.kernelQueueCreateQueue.2 := by
  unfold semQueues
  dsimp only
  split_ifs with h1
  · exact h1.symm
  · rfl

theorem semQueues_live (hr : h.semQueues.2.1 ≠ 0) :
    h.semQueues.1.live = semsOwned h.semQueues.2.1 h.semQueues.2.2 ++ h.live := by
  unfold semQueues at hr ⊢
  dsimp only at hr ⊢
  split_ifs at hr ⊢ with h1
  · exact absurd rfl hr
  · dsimp only at hr ⊢
    rw [kernelQueueCreateQueue_live, kernelQueueCreateQueue_live, if_neg h1]
    unfold semsOwned
    split_ifs
    · rfl
    · rfl

end HeapSys

namespace KObject

variable {τ α : Type} {c : InitCall τ α} {h h₁ : HeapSys} {o : KObject τ α}

/-- A successful creation adds what the object owns, first of all a wait queue. -/
theorem init_owned (hi : init c h = (h₁, .ok o)) : h₁.live = o.owned ++ h.live ∧ o.kind = c.kind
    ∧ o.Sound ∧ o.waitQueue = h.kernelQueueCreateQueue.2 ∧ o.waitQueue ≠ 0 := by
  cases c with
  | semInit initLevel =>
    simp only [init] at hi
    split_ifs at hi with h0
    · cases hi
    · cases hi
      exact ⟨by rw [HeapSys.kernelQueueCreateQueue_live, if_neg h0]; rfl, rfl, trivial, rfl, h0⟩
  | mutexInit flags elevation priority =>
    simp only [init] at hi
    rcases hm : Mutex.mutexInit (τ := τ) flags elevation with _ | m
    · rw [hm] at hi
      cases hi
    rw [hm] at hi
    dsimp only at hi
    have hinv : (MutexSys.start m priority).Inv := by
      rw [MutexSys.eq_of_init hm]
      exact ⟨Waiters.served_empty, fun _ => rfl⟩
    have hinit : m.init = true := by rw [MutexSys.eq_of_init hm]
    split_ifs at hi with h0
    · cases hi
    · cases hi
      refine ⟨?_, rfl, ⟨hinv, fun _ => h0⟩, rfl, h0⟩
      rw [HeapSys.kernelQueueCreateQueue_live, if_neg h0]
      show _ = (if m.init = false then [] else [_]) ++ h.live
      rw [if_neg (by rw [hinit]; simp)]
      rfl
  | mailboxInit null =>
    simp only [init] at hi
    split_ifs at hi with h0 h1
    · cases hi
    · cases hi
      exact ⟨HeapSys.semQueues_live h0, rfl, trivial, HeapSys.semQueues_fst, h0⟩
    · cases hi
      exact ⟨HeapSys.semQueues_live h0, rfl, trivial, HeapSys.semQueues_fst, h0⟩
  | queueInit size memory =>
    simp only [init] at hi
    split_ifs at hi with h0 h1 h2
    · cases hi
    · cases hi
      exact ⟨HeapSys.semQueues_live h0, rfl, trivial, HeapSys.semQueues_fst, h0⟩
    · cases hi
    · cases hi
      refine ⟨?_, rfl, trivial, HeapSys.semQueues_fst, h0⟩
      rw [HeapSys.kmalloc_live, if_neg h2, HeapSys.semQueues_live h0]
      rfl

end KObject

/-! ## Runs -/

namespace ObjectSys

variable {τ α : Type} [DecidableEq τ] {tid : τ → Int32} {k k' : ObjectSys τ α} {L : List ℕ}

/-- The live allocations are the object's, with the wait queue `w` that only a mutex frees, and
`L`. -/
structure Owns (kd : ObjectKind) (w : ℕ) (L : List ℕ) (k : ObjectSys τ α) : Prop where
  live : k.heap.live = k.object.owned ++ L
  kind : k.object.kind = kd
  sound : k.object.Sound
  waits : kd ≠ .mutex → k.object.waitQueue = w

theorem mutexFree_owned {h : HeapSys} {m m' : MutexSys τ} {q : ℕ} {e : MutexEv τ}
    (hs : m.step tid e = some m') (hm : (KObject.mutex m q : KObject τ α).Sound)
    (hl : h.live = (KObject.mutex m q : KObject τ α).owned ++ L) :
    (mutexFree h m m' q e).1.live
        = (KObject.mutex m' (mutexFree h m m' q e).2 : KObject τ α).owned ++ L
      ∧ (KObject.mutex m' (mutexFree h m m' q e).2 : KObject τ α).Sound := by
  have hinv : m'.Inv := hm.1.step hs
  by_cases he : ∃ t, e = .destroy t
  · obtain ⟨t, rfl⟩ := he
    have hi' : m'.mutex.init = false := MutexSys.init_destroy hs
    have hq : m'.mutex.waiters.queue = [] := hinv.destroyed hi'
    refine ⟨?_, hinv, fun h1 => absurd (hi'.symm.trans h1) (by simp)⟩
    simp only [mutexFree, KObject.owned] at hl ⊢
    rw [if_pos hi']
    split_ifs at hl ⊢ with hi
    · exact hl
    · have hq0 : q ≠ 0 := hm.2 (by simpa using hi)
      unfold HeapSys.kernelQueueDeleteQueue
      rw [if_neg (by simp [hq0, hq])]
      show h.live.erase q = [] ++ L
      rw [hl]
      exact List.erase_cons_head _ _
  · push Not at he
    have hi : m'.mutex.init = m.mutex.init := MutexSys.init_step hs he
    have hf : mutexFree h m m' q e = (h, q) := by
      cases e with
      | destroy t => exact absurd rfl (he t)
      | _ => rfl
    rw [hf]
    refine ⟨?_, hinv, fun h1 => hm.2 (hi.symm.trans h1)⟩
    simp only [KObject.owned] at hl ⊢
    rw [hi]
    exact hl

theorem queueFree_owned {h : HeapSys} {q q' : Chan τ α (Queue α)} {r w c : ℕ} {e : ChanEv τ α}
    (hs : Queue.step q e = some q') (hl : h.live = (KObject.queue q r w c).owned ++ L) :
    (queueFree h q c e).live = (KObject.queue q' r w c).owned ++ L := by
  by_cases he : ∃ t, e = .destroy t
  · obtain ⟨t, rfl⟩ := he
    have hi' : q'.init = false := Chan.init_destroy hs
    simp only [queueFree, KObject.owned] at hl ⊢
    rw [if_pos hi']
    split_ifs at hl ⊢ with hi
    · exact hl
    · show h.live.erase c = _
      rw [hl]
      exact List.erase_cons_head _ _
  · push Not at he
    have hi : q'.init = q.init := Chan.init_step hs he
    have hf : queueFree h q c e = h := by
      cases e with
      | destroy t => exact absurd rfl (he t)
      | _ => rfl
    rw [hf]
    simp only [KObject.owned] at hl ⊢
    rw [hi]
    exact hl

theorem Owns.step {kd : ObjectKind} {w : ℕ} (h : Owns kd w L k) {e : ObjectEv τ α}
    (hs : k.step tid e = some k') : Owns kd w L k' := by
  obtain ⟨heap, o⟩ := k
  obtain ⟨h1, h2, h3, h4⟩ := h
  dsimp only at h1 h2 h3 h4
  cases e with
  | sem e =>
    simp only [ObjectSys.step] at hs
    split at hs
    · obtain ⟨s', -, rfl⟩ := Option.map_eq_some_iff.1 hs
      exact ⟨h1, h2, trivial, h4⟩
    · cases hs
  | mutex e =>
    simp only [ObjectSys.step] at hs
    split at hs
    · obtain ⟨m', hm, rfl⟩ := Option.map_eq_some_iff.1 hs
      obtain ⟨h5, h6⟩ := mutexFree_owned hm h3 h1
      exact ⟨h5, h2, h6, fun hkd => absurd h2.symm hkd⟩
    · cases hs
  | chan e =>
    simp only [ObjectSys.step] at hs
    split at hs
    · obtain ⟨m', -, rfl⟩ := Option.map_eq_some_iff.1 hs
      exact ⟨h1, h2, trivial, h4⟩
    · obtain ⟨q', hq, rfl⟩ := Option.map_eq_some_iff.1 hs
      exact ⟨queueFree_owned hq h1, h2, trivial, h4⟩
    · cases hs
  | store addr val =>
    simp only [ObjectSys.step] at hs
    obtain ⟨heap', hst, rfl⟩ := Option.map_eq_some_iff.1 hs
    obtain ⟨-, -, rfl⟩ := HeapSys.step_store hst
    exact ⟨h1, h2, h3, h4⟩

omit [DecidableEq τ] in
theorem create_owns {c : InitCall τ α} {h : HeapSys} (hc : create c h = some k) :
    Owns c.kind h.kernelQueueCreateQueue.2 h.live k ∧ h.kernelQueueCreateQueue.2 ≠ 0 := by
  obtain ⟨o, ho, rfl⟩ := Option.map_eq_some_iff.1 hc
  have hi : KObject.init c h = ((KObject.init c h).1, .ok o) := by
    refine Prod.ext rfl ?_
    rcases hx : (KObject.init c h).2 with _ | o'
    · rw [hx] at ho
      cases ho
    · rw [hx] at ho
      cases ho
      rfl
  obtain ⟨h1, h2, h3, h4, h5⟩ := KObject.init_owned hi
  exact ⟨⟨h1, h2, h3, fun _ => h4⟩, h4 ▸ h5⟩

/-- The destruction of an object nobody waits for returns. -/
theorem destroy_quiet (tid : τ → Int32) {t : τ} (hq : k.object.Quiet) (ht : k.object.Idle t) :
    ∃ k', k.step tid (k.object.kind.destroy t) = some k' := by
  obtain ⟨heap, o⟩ := k
  dsimp only at hq ht ⊢
  cases o with
  | semaphore s q =>
    obtain ⟨s', hs⟩ := SemSys.destroy_quiet ht hq
    exact ⟨_, congrArg (Option.map _) hs⟩
  | mutex m q =>
    obtain ⟨m', hm⟩ := MutexSys.destroy_quiet tid ht hq
    exact ⟨_, congrArg (Option.map _) hm⟩
  | mailbox m r w =>
    obtain ⟨m', hm⟩ := Chan.destroy_quiet (B := Mailbox.store) ht hq.1 hq.2
    exact ⟨_, congrArg (Option.map _) hm⟩
  | queue q r w c =>
    obtain ⟨q', hq'⟩ := Chan.destroy_quiet (B := Queue.store) ht hq.1 hq.2
    exact ⟨_, congrArg (Option.map _) hq'⟩

/-- A mutex that is destroyed owns nothing. -/
theorem owned_destroy {t : τ} (hm : k.object.kind = .mutex)
    (hs : k.step tid (k.object.kind.destroy t) = some k') : k'.object.owned = [] := by
  obtain ⟨heap, o⟩ := k
  dsimp only at hm hs
  cases o with
  | mutex m q =>
    obtain ⟨m', hm', rfl⟩ := Option.map_eq_some_iff.1 hs
    exact if_pos (MutexSys.init_destroy hm')
  | semaphore s q | mailbox m r w | queue q r w c => cases hm

/-- After a creation, any steps and a destruction by a thread once nobody waits, what is live is
what was before exactly if the object is a mutex. -/
theorem cycle_live_iff {start stop : ℕ} {mem : Mem} {ops : List HeapOp} {h : HeapSys}
    (hr : KHeap.HeapRoom start stop) (hh : (HeapSys.fresh start stop mem).run ops = some h)
    {c : InitCall τ α} {k₀ : ObjectSys τ α} (hc : create c h = some k₀)
    (hk : Reach (step tid) anyStep k₀ k) (hq : k.object.Quiet) {t : τ} (ht : k.object.Idle t) :
    ∃ k', k.step tid (c.kind.destroy t) = some k'
      ∧ ((∀ p, p ∈ k'.heap.live ↔ p ∈ h.live) ↔ c.kind = .mutex) := by
  obtain ⟨hO₀, h0⟩ := create_owns hc
  have hO := hk.invariant (P := Owns c.kind _ h.live) hO₀ fun _ _ _ hO _ hs => hO.step hs
  obtain ⟨k', hs⟩ := destroy_quiet tid hq ht
  have hO' := hO.step hs
  refine ⟨k', by rw [← hO.kind]; exact hs, fun hall => ?_, fun hm p => ?_⟩
  · by_contra hne
    -- the wait queue is still live, and was not before the creation
    have hmem : k'.object.waitQueue ∈ k'.heap.live := by
      rw [hO'.live]
      exact List.mem_append_left _ (KObject.waitQueue_mem_owned (hO'.kind ▸ hne))
    rw [hO'.waits hne, hall] at hmem
    exact HeapSys.kernelQueueCreateQueue_fresh ((fresh_inv mem hr).run hh) h0 hmem
  · rw [hO'.live, owned_destroy (hO.kind.trans hm) hs]
    rfl

/-- A mutex that is handed over, and destroyed once it is free. -/
theorem cycle_live_iff_mutex : ∃ k₀ k k' : ObjectSys (Fin 2) ℕ,
    create (.mutexInit 0 0xFFFF fun _ => 7) (HeapSys.fresh 4 164 fun _ => 7) = some k₀
      ∧ Reach (step MutexSys.tids) anyStep k₀ k
      ∧ k.step MutexSys.tids (.mutex (.destroy 0)) = some k'
      ∧ ∀ p, p ∈ k'.heap.live ↔ p ∈ (HeapSys.fresh 4 164 fun _ => 7).live := by
  have hrun : ((create (τ := Fin 2) (α := ℕ) (.mutexInit 0 0xFFFF fun _ => 7)
      (HeapSys.fresh 4 164 fun _ => 7)).bind fun k₀ =>
        (runEvents (guarded (step MutexSys.tids) anyStep) k₀ [.mutex (.pend 0), .mutex (.pend 1),
          .mutex (.post 0), .mutex (.unlock 0), .mutex (.retest 1), .mutex (.post 1)]).map fun k =>
          decide (k.object.Quiet ∧ k.object.Idle 0)) = some true := by decide +kernel
  obtain ⟨k₀, hc, hrun⟩ := Option.bind_eq_some_iff.1 hrun
  obtain ⟨k, hk, hd⟩ := Option.map_eq_some_iff.1 hrun
  obtain ⟨hq, ht⟩ := of_decide_eq_true hd
  have hfresh : (HeapSys.fresh 4 164 fun _ => 7).run [] = some _ := rfl
  obtain ⟨k', hs, hiff⟩ := cycle_live_iff (by decide +kernel) hfresh hc (.of_run hk) hq ht
  exact ⟨k₀, k, k', hc, .of_run hk, hs, hiff.2 rfl⟩

/-- A semaphore that is created and destroyed. -/
theorem not_cycle_live_semaphore : ∃ k₀ k' : ObjectSys (Fin 1) ℕ,
    create (.semInit 1) (HeapSys.fresh 4 164 fun _ => 7) = some k₀ ∧ k₀.object.Quiet
      ∧ k₀.step MutexSys.tids (.sem (.destroy 0)) = some k'
      ∧ ¬ ∀ p, p ∈ k'.heap.live ↔ p ∈ (HeapSys.fresh 4 164 fun _ => 7).live := by
  have hrun : ((create (τ := Fin 1) (α := ℕ) (.semInit 1)
      (HeapSys.fresh 4 164 fun _ => 7)).bind fun k₀ =>
        (k₀.step MutexSys.tids (.sem (.destroy 0))).map fun k' =>
          (decide k₀.object.Quiet, k'.heap.live)) = some (true, [36]) := by decide +kernel
  obtain ⟨k₀, hc, hrun⟩ := Option.bind_eq_some_iff.1 hrun
  obtain ⟨k', hs, hd⟩ := Option.map_eq_some_iff.1 hrun
  rw [Prod.mk.injEq] at hd
  refine ⟨k₀, k', hc, of_decide_eq_true hd.1, hs, fun h => ?_⟩
  have h36 := (h 36).1 (by rw [hd.2]; exact List.mem_singleton_self _)
  cases h36

/-! ## Many cycles -/

/-- A creation, steps, and the destruction once nobody waits: the heap before and after. -/
def Cycle (tid : τ → Int32) (c : InitCall τ α) (h h' : HeapSys) : Prop :=
  ∃ k₀ k k' t, create c h = some k₀ ∧ Reach (step tid) anyStep k₀ k ∧ k.object.Quiet
    ∧ k.object.Idle t ∧ k.step tid (c.kind.destroy t) = some k' ∧ k'.heap = h'

inductive Cycles (tid : τ → Int32) : List (InitCall τ α) → HeapSys → HeapSys → Prop
  | nil (h : HeapSys) : Cycles tid [] h h
  | cons {c : InitCall τ α} {cs : List (InitCall τ α)} {h h' h'' : HeapSys}
      (hc : Cycle tid c h h') (hcs : Cycles tid cs h' h'') : Cycles tid (c :: cs) h h''

theorem Cycle.live {c : InitCall τ α} {h h' : HeapSys} (hc : Cycle tid c h h') :
    ∃ l, h'.live = l ++ h.live ∧ (c.kind = .mutex → l = []) ∧ (c.kind ≠ .mutex → 1 ≤ l.length) := by
  obtain ⟨k₀, k, k', t, h1, hk, -, -, hs, rfl⟩ := hc
  have hO := hk.invariant (P := Owns c.kind _ h.live) (create_owns h1).1
    fun _ _ _ hO _ hs => hO.step hs
  have hO' := hO.step hs
  refine ⟨_, hO'.live, fun hm => ?_, fun hm => ?_⟩
  · exact owned_destroy (hO.kind.trans hm) (by rw [hO.kind]; exact hs)
  · exact List.length_pos_of_mem (KObject.waitQueue_mem_owned (hO'.kind ▸ hm))

/-- However many cycles there are, those of mutexes leave nothing and each other one a queue. -/
theorem Cycles.live {cs : List (InitCall τ α)} {h h' : HeapSys} (hcs : Cycles tid cs h h') :
    ∃ l, h'.live = l ++ h.live ∧ (cs.filter (·.kind ≠ .mutex)).length ≤ l.length
      ∧ ((∀ c ∈ cs, c.kind = .mutex) → l = []) := by
  induction hcs with
  | nil h => exact ⟨[], rfl, Nat.zero_le _, fun _ => rfl⟩
  | cons hc _ ih =>
    rename_i c cs h h' h''
    obtain ⟨l, h1, h2, h3⟩ := ih
    obtain ⟨k, h4, h5, h6⟩ := hc.live
    refine ⟨l ++ k, by rw [h1, h4, List.append_assoc], ?_, fun hall => ?_⟩
    · rw [List.filter_cons, List.length_append]
      split_ifs with hm
      · have := h6 (by simpa using hm)
        rw [List.length_cons]
        omega
      · omega
    · rw [List.forall_mem_cons] at hall
      rw [h3 hall.2, h5 hall.1]
      rfl

end ObjectSys

end RTLKIM
