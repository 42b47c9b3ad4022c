import RTLKIM.ThreadCreate
import RTLKIM.Proofs.SchedPlace

/-!
# The creation of a thread, when it fails

The call is one of four: its arguments are refused, one of the first two allocations fails, a later
step fails after `last_given_tid` has been given, or all of them succeed.
-/

namespace RTLKIM

namespace MallocHeap

variable {h : MallocHeap}

theorem kmalloc_snd (size : ℕ) : (h.kmalloc size).2 = h.answers.getD 0 0 := by
  unfold kmalloc
  cases h.answers <;> rfl

theorem kmalloc_answers (size i : ℕ) :
    (h.kmalloc size).1.answers.getD i 0 = h.answers.getD (i + 1) 0 := by
  unfold kmalloc
  cases h.answers <;> rfl

theorem kmalloc_live {size : ℕ} (h0 : h.answers.getD 0 0 ≠ 0) :
    (h.kmalloc size).1.live = ⟨h.answers.getD 0 0, size⟩ :: h.live := by
  rw [← kmalloc_snd size] at h0 ⊢
  exact if_neg h0

theorem kmalloc_live_null {size : ℕ} (h0 : h.answers.getD 0 0 = 0) :
    (h.kmalloc size).1.live = h.live := by
  rw [← kmalloc_snd size] at h0
  exact if_pos h0

theorem mem_kmalloc {b : Block} {size : ℕ} (hb : b ∈ h.live) : b ∈ (h.kmalloc size).1.live := by
  by_cases h0 : h.answers.getD 0 0 = 0
  · rwa [kmalloc_live_null h0]
  · rw [kmalloc_live h0]
    exact List.mem_cons_of_mem _ hb

theorem kfree_live {p : ℕ} (size : ℕ) {l : List Block} (h0 : p ≠ 0) (hl : h.live = ⟨p, size⟩ :: l) :
    (h.kfree p).live = l := by
  unfold kfree
  rw [if_neg h0]
  dsimp only
  rw [hl, List.eraseP_cons_of_pos (by simp)]

end MallocHeap

namespace ThreadSys

open MallocHeap

variable {s : ThreadSys} {t : ℕ} {a : CreateArgs}

/-- What the `i`-th allocation of the call returns. -/
def answer (s : ThreadSys) (i : ℕ) : ℕ := s.heap.answers.getD i 0

theorem create_refused (h : s.Refused a) : (s.schedCreateKernelThread t a).sys = s
    ∧ (s.schedCreateKernelThread t a).err ≠ .noErr := by
  unfold schedCreateKernelThread
  rcases h with h | h
  · rw [if_pos h]
    exact ⟨rfl, by simp⟩
  · split_ifs
    · exact ⟨rfl, by simp⟩
    · exact ⟨rfl, by simp⟩

/-- One of the first two allocations fails: the thread is freed, and a node is not. -/
theorem create_first (hr : ¬ s.Refused a) (h : s.answer 0 = 0 ∨ s.answer 1 = 0) :
    ∃ heap, s.schedCreateKernelThread t a = ⟨{ s with heap := heap }, .malloc, []⟩
      ∧ heap.live = if s.answer 1 = 0 then s.heap.live
        else ⟨s.answer 1, sizeofKernelQueueNode⟩ :: s.heap.live := by
  obtain ⟨h1, h2⟩ := not_or.1 hr
  have h' : s.heap.answers.getD 0 0 = 0 ∨ s.heap.answers.getD (0 + 1) 0 = 0 := h
  unfold schedCreateKernelThread
  rw [if_neg h1, if_neg h2]
  dsimp only
  rw [kmalloc_snd, kmalloc_snd, kmalloc_answers, if_pos h']
  refine ⟨_, rfl, ?_⟩
  change MallocHeap.live (if s.answer 0 ≠ 0 then _ else _) = _
  set h₁ := s.heap.kmalloc sizeofKernelThread with hh₁
  have hnode : h₁.1.answers.getD 0 0 = s.answer 1 := kmalloc_answers _ 0
  by_cases ha : s.answer 0 = 0
  · have hlive : h₁.1.live = s.heap.live := kmalloc_live_null ha
    rw [if_neg (not_not.2 ha), ← hlive]
    split_ifs with hb
    · exact kmalloc_live_null (hnode.trans hb)
    · rw [← hnode] at hb ⊢
      exact kmalloc_live hb
  · have hb : s.answer 1 = 0 := h.resolve_left ha
    rw [if_pos ha, if_pos hb]
    refine kfree_live sizeofKernelThread ha ?_
    rw [kmalloc_live_null (hnode.trans hb)]
    exact kmalloc_live ha

/-- A later step fails. -/
theorem create_taken (hr : ¬ s.Refused a) (h0 : s.answer 0 ≠ 0) (h1 : s.answer 1 ≠ 0)
    (hs : ¬ s.Supplied t) : ∃ heap frame err, err ≠ .noErr
      ∧ ((s.sched.thread t).children ≠ none → err = .malloc)
      ∧ s.schedCreateKernelThread t a = { s.taken heap frame with err := err } := by
  obtain ⟨hr1, hr2⟩ := not_or.1 hr
  have h' : ¬ (s.heap.answers.getD 0 0 = 0 ∨ s.heap.answers.getD (0 + 1) 0 = 0) := not_or.2 ⟨h0, h1⟩
  unfold schedCreateKernelThread
  rw [if_neg hr1, if_neg hr2]
  dsimp only
  simp only [kmalloc_snd, kmalloc_answers, if_neg h']
  split_ifs with h2 h3 h4 h5
  · exact ⟨_, _, .malloc, by simp, fun _ => rfl, rfl⟩
  · exact ⟨_, _, .malloc, by simp, fun _ => rfl, rfl⟩
  · exact ⟨_, _, .malloc, by simp, fun _ => rfl, rfl⟩
  · exact ⟨_, _, .malloc, by simp, fun _ => rfl, rfl⟩
  · rcases hc : (s.sched.thread t).children with _ | l
    · exact ⟨_, _, .nullPointer, by simp, fun h => absurd rfl h, rfl⟩
    · refine absurd ⟨fun i hi => ?_, by rw [hc]; simp⟩ hs
      rcases i with _ | _ | _ | _ | _ | _ | i
      · exact h0
      · exact h1
      · exact h2
      · exact h3
      · exact h4
      · exact h5
      · omega

/-- The block of the stack of the thread created. -/
def stackBlock (s : ThreadSys) (a : CreateArgs) : Block :=
  ⟨s.answer 3, mul32 (stackIndex a.stackSize) sizeofUintptr⟩

/-- Every step succeeds. -/
theorem create_supplied (hr : ¬ s.Refused a) (hs : s.Supplied t) :
    ∃ heap context l, s.schedCreateKernelThread t a
        = ⟨s.enlist t a heap (s.stackBlock a) context l, .noErr,
          (cpuInitThreadContext a.entryPoint (stackIndex a.stackSize) (s.context t).freePageTable
            (s.context t).cr3 (s.answer 3)).2⟩
      ∧ s.stackBlock a ∈ heap.live ∧ (s.sched.thread t).children = some l := by
  obtain ⟨hr1, hr2⟩ := not_or.1 hr
  obtain ⟨ha, hc⟩ := hs
  have h' : ¬ (s.heap.answers.getD 0 0 = 0 ∨ s.heap.answers.getD (0 + 1) 0 = 0) :=
    not_or.2 ⟨ha 0 (by simp), ha 1 (by simp)⟩
  obtain ⟨l, hl⟩ := Option.ne_none_iff_exists'.1 hc
  unfold schedCreateKernelThread
  rw [if_neg hr1, if_neg hr2]
  dsimp only
  simp only [kmalloc_snd, kmalloc_answers, if_neg h', if_neg (ha 2 (by simp)), if_neg (ha 3 (by simp)),
    if_neg (ha 4 (by simp)), if_neg (ha 5 (by simp)), hl]
  refine ⟨_, _, _, rfl, mem_kmalloc (mem_kmalloc ?_), rfl⟩
  rw [kmalloc_live (by simpa only [kmalloc_answers] using ha 3 (by simp))]
  simp only [kmalloc_answers]
  exact List.mem_cons_self

/-- With the heap forgotten it is the creation of the scheduler, where `k` allocations succeed before one
fails. -/
theorem create_sched {k : ℕ} (h2 : k < 2 ↔ s.answer 0 = 0 ∨ s.answer 1 = 0)
    (h6 : k < 6 ↔ ∃ i < 6, s.answer i = 0) (hc : (s.sched.thread t).children ≠ none) :
    (s.schedCreateKernelThread t a).sys.sched.fails t (s.schedCreateKernelThread t a).err
      = s.sched.createKernelThread t a.priority a.cpuAffinity k := by
  by_cases hr : s.Refused a
  · unfold schedCreateKernelThread Sched.createKernelThread
    rcases hr with h | h
    · rw [if_pos h, if_pos h]
    · split_ifs <;> rfl
  obtain ⟨hr1, hr2⟩ := not_or.1 hr
  unfold Sched.createKernelThread
  rw [if_neg hr1, if_neg hr2]
  by_cases h01 : s.answer 0 = 0 ∨ s.answer 1 = 0
  · obtain ⟨heap, hres, -⟩ := create_first (t := t) hr h01
    rw [hres, if_pos (h2.2 h01)]
  rw [if_neg fun h => h01 (h2.1 h)]
  by_cases hs : s.Supplied t
  · obtain ⟨heap, context, l, hres, -, hl⟩ := create_supplied hr hs
    rw [hres, if_neg]
    · have hset : (s.sched.setThread t fun T => { T with
            children := T.children.map (s.sched.created :: ·) })
          = s.sched.setThread t fun T => { T with children := some (s.sched.created :: l) } := by
        unfold Sched.setThread
        dsimp only
        rw [hl]
        rfl
      dsimp only
      rw [hset]
      simp only [Sched.setThread_self]
      rfl
    · intro hk
      obtain ⟨i, hi, h0⟩ := h6.1 hk
      exact hs.1 i hi h0
  · obtain ⟨h0, h1⟩ := not_or.1 h01
    obtain ⟨heap, frame, err, -, herr, hres⟩ := create_taken hr h0 h1 hs
    have hk : k < 6 := by
      by_contra hk
      have hall : ∀ i < 6, s.answer i ≠ 0 := fun i hi h => hk (h6.2 ⟨i, hi, h⟩)
      exact hs ⟨hall, hc⟩
    rw [hres, if_pos hk, herr hc]
    rfl

/-! ## Atomicity -/

/-- A call that fails leaves all as it was just when it fails before `last_given_tid` is given, and not
with a node in hand. -/
theorem create_atomic_iff (s : ThreadSys) (t : ℕ) (a : CreateArgs) :
    s.Atomic t a ↔ s.Refused a ∨ s.heap.answers.getD 1 0 = 0 ∨ s.Supplied t := by
  by_cases hr : s.Refused a
  · refine iff_of_true (fun _ => ?_) (.inl hr)
    rw [(create_refused hr).1]
    exact ⟨.refl _, rfl, rfl, fun _ _ => rfl, rfl, rfl⟩
  by_cases h1 : s.answer 1 = 0
  · obtain ⟨heap, hres, hlive⟩ := create_first (t := t) hr (.inr h1)
    rw [if_pos h1] at hlive
    refine iff_of_true (fun _ => ?_) (.inr (.inl h1))
    rw [hres]
    exact ⟨.of_eq hlive, rfl, rfl, fun _ _ => rfl, rfl, rfl⟩
  by_cases hs : s.Supplied t
  · obtain ⟨heap, context, l, hres, -⟩ := create_supplied hr hs
    refine iff_of_true (fun he => ?_) (.inr (.inr hs))
    rw [hres] at he
    exact absurd rfl he
  refine iff_of_false (fun hat => ?_) (by rintro (h | h | h) <;> contradiction)
  by_cases h0 : s.answer 0 = 0
  · -- the node is leaked
    obtain ⟨heap, hres, hlive⟩ := create_first (t := t) hr (.inl h0)
    rw [if_neg h1] at hlive
    have hk := hat (by rw [hres]; simp)
    rw [hres] at hk
    have hlen := hk.live.length_eq
    dsimp only at hlen
    rw [hlive, List.length_cons] at hlen
    omega
  · -- `last_given_tid` is not taken back
    obtain ⟨heap, frame, err, herr, -, hres⟩ := create_taken hr h0 h1 hs
    have hk := hat (by rw [hres]; exact herr)
    rw [hres] at hk
    have htid : add32 s.sched.lastGivenTid 1 = s.sched.lastGivenTid := hk.lastGivenTid
    unfold add32 at htid
    omega

/-- The stack cannot be allocated. -/
theorem create_not_atomic : ¬ ThreadSys.Atomic ⟨Sched.schedInit 4, ⟨[], [0x100, 0x600, 0x700]⟩,
    fun _ => ⟨0, 0, 0, 0, 0⟩, fun _ => ⟨0, 0⟩⟩ 1 ⟨5, 0x1000, 0, 0⟩ := by
  intro h
  have hk := (h (by decide)).lastGivenTid
  revert hk
  decide +kernel

/-! ## The first frame -/

theorem stackIndex_eq {n : ℕ} (h : n + 3 < 2 ^ 32) : stackIndex n = (n + 3) / 4 := by
  unfold stackIndex KHeap.alignDown
  rw [add32_of_lt (by simpa using h)]
  simp

/-- Past the end of the address space the size wraps to nothing. -/
theorem stackIndex_wrap {n : ℕ} (hn : n < 2 ^ 32) (h : 2 ^ 32 ≤ n + 3) : stackIndex n = 0 := by
  unfold stackIndex KHeap.alignDown add32
  simp only [align, sizeofUintptr]
  omega

theorem stackIndex_lt (n : ℕ) : stackIndex n * sizeofUintptr < 2 ^ 32 := by
  have h := add32_lt n (align - 1)
  unfold stackIndex KHeap.alignDown
  simp only [align, sizeofUintptr] at h ⊢
  omega

/-- The words written are the eighteen before the index. -/
theorem cpuInitThreadContext_words (e i f p st : ℕ) :
    (cpuInitThreadContext e i f p st).2.map Prod.fst = (List.range' 1 18).map (sub32 i) := rfl

/-- The frame is in a block of `i` words when there are eighteen. -/
theorem frame_fits_iff {e i f p st : ℕ} (hi : i * sizeofUintptr < 2 ^ 32) :
    (∀ w ∈ (cpuInitThreadContext e i f p st).2,
        w.1 * sizeofUintptr + sizeofUintptr ≤ i * sizeofUintptr) ↔ 18 ≤ i := by
  have hwords : (∀ w ∈ (cpuInitThreadContext e i f p st).2,
      w.1 * sizeofUintptr + sizeofUintptr ≤ i * sizeofUintptr)
      ↔ ∀ k ∈ List.range' 1 18, sub32 i k * sizeofUintptr + sizeofUintptr ≤ i * sizeofUintptr := by
    rw [← List.forall_mem_map (f := Prod.fst)
      (P := fun k => k * sizeofUintptr + sizeofUintptr ≤ i * sizeofUintptr),
      cpuInitThreadContext_words, List.forall_mem_map]
  rw [hwords]
  constructor
  · intro h
    have h18 := h 18 (by simp [List.mem_range'_1])
    by_contra hlt
    unfold sub32 at h18
    simp only [sizeofUintptr] at hi h18
    omega
  · intro h k hk
    obtain ⟨h1, h2⟩ := List.mem_range'_1.1 hk
    simp only [sizeofUintptr] at hi ⊢
    rw [sub32_of_le (by omega) (by omega)]
    omega

theorem enlist_stack {heap : MallocHeap} {b : Block} {context : CpuContext} {l : List ℕ} :
    (s.enlist t a heap b context l).stack s.sched.created = b := Function.update_self _ _ _

/-- The first frame fits just when the call fails, or the size asked for has room for eighteen words and
does not wrap when it is rounded up. -/
theorem create_stack_fits_iff (s : ThreadSys) (t : ℕ) (stackSize : UInt32)
    (priority cpuAffinity entryPoint : ℕ) :
    s.StackFits t ⟨priority, stackSize.toNat, cpuAffinity, entryPoint⟩
      ↔ s.Refused ⟨priority, stackSize.toNat, cpuAffinity, entryPoint⟩ ∨ ¬ s.Supplied t
        ∨ 69 ≤ stackSize.toNat ∧ stackSize.toNat + 3 < 2 ^ 32 := by
  set a : CreateArgs := ⟨priority, stackSize.toNat, cpuAffinity, entryPoint⟩ with ha
  by_cases hr : s.Refused a
  · obtain ⟨hsys, herr⟩ := create_refused (t := t) hr
    exact iff_of_true (.inl ⟨herr, by rw [hsys]⟩) (.inl hr)
  by_cases hs : s.Supplied t
  swap
  · refine iff_of_true (.inl ?_) (.inr (.inl hs))
    by_cases h01 : s.answer 0 = 0 ∨ s.answer 1 = 0
    · obtain ⟨heap, hres, -⟩ := create_first (t := t) hr h01
      rw [hres]
      exact ⟨by simp, rfl⟩
    · obtain ⟨h0, h1⟩ := not_or.1 h01
      obtain ⟨heap, frame, err, herr, -, hres⟩ := create_taken hr h0 h1 hs
      rw [hres]
      exact ⟨herr, rfl⟩
  obtain ⟨heap, context, l, hres, hmem, -⟩ := create_supplied hr hs
  have hlive : s.stackBlock a ∈ (s.enlist t a heap (s.stackBlock a) context l).heap.live := hmem
  have hsize : (s.stackBlock a).size = stackIndex stackSize.toNat * sizeofUintptr :=
    mul32_of_lt (stackIndex_lt _)
  have hfits : s.StackFits t a ↔ stackSize.toNat ≤ stackIndex stackSize.toNat * sizeofUintptr
      ∧ 18 ≤ stackIndex stackSize.toNat := by
    unfold StackFits FrameFits
    rw [hres]
    dsimp only
    rw [enlist_stack, or_iff_right (by simp), and_iff_right hlive, hsize,
      frame_fits_iff (stackIndex_lt _)]
  rw [hfits, or_iff_right hr, or_iff_right (not_not.2 hs)]
  by_cases hwrap : stackSize.toNat + 3 < 2 ^ 32
  · rw [stackIndex_eq hwrap]
    simp only [sizeofUintptr]
    omega
  · rw [stackIndex_wrap stackSize.toNat_lt (not_lt.1 hwrap)]
    omega

/-- A stack of one word. -/
theorem create_stack_not_fits : ¬ ThreadSys.StackFits ⟨Sched.schedInit 4,
    ⟨[], [0x100, 0x600, 0x700, 0x800, 0x900, 0xA00]⟩, fun _ => ⟨0, 0, 0, 0, 0⟩, fun _ => ⟨0, 0⟩⟩ 1
    ⟨5, 4, 0, 0⟩ := by
  intro h
  rcases h with ⟨h, -⟩ | ⟨-, -, h⟩
  · exact absurd rfl h
  · revert h
    decide +kernel

end ThreadSys

end RTLKIM
