import RTLKIM.ChannelInit
import RTLKIM.Proofs.Channel
import RTLKIM.Proofs.ObjectHeap

/-!
# What a creation leaves

The rollback of the second `sem_init` returns the code of the `sem_destroy` in it, so a creation that
has undone all it did returns `OS_NO_ERR`. The container of a queue is what was asked for it, a product
of 32 bits.
-/

namespace RTLKIM

namespace Sem

variable {τ : Type} {l : Int32} {q : ℕ}

theorem semInitAt_of_ne (hq : q ≠ 0) : semInitAt (τ := τ) l q = (.noErr, semInit l) := by
  unfold semInitAt
  rw [if_neg hq]
  rfl

variable [DecidableEq τ]

/-! ## How many posts a level admits -/

theorem admits_of_level : ∀ (n : ℕ) (s : Sem τ), s.init = true → s.level.toInt = n → s.Admits n
  | 0, s, hi, hl => by
    intro t
    have hlt : s.level < 1 := (Int32.lt_one_iff _).2 (by omega)
    unfold semPend pendTest
    rw [if_neg (by simp [hi]), if_pos ⟨hi, hlt⟩]
  | n + 1, s, hi, hl => by
    intro t
    have hge : ¬ s.level < 1 := (Int32.lt_one_iff _).not.2 (by omega)
    have hpend : s.semPend t
        = (some .noErr, { s with level := s.level - 1, waiters := s.waiters.leave t }) := by
      unfold semPend pendTest
      rw [if_neg (by simp [hi]), if_neg fun h => hge h.2]
      simp only []
      rw [if_neg (by simp [hi])]
    rw [hpend]
    refine ⟨rfl, admits_of_level n _ hi ?_⟩
    have h1 : (s.level - 1).toInt = s.level.toInt - 1 := Int32.toInt_sub_one (by omega)
    simp only []
    omega

/-- Nothing is admitted by a semaphore that is not initialised. -/
theorem not_admits [Nonempty τ] {s : Sem τ} (hi : s.init = false) (n : ℕ) : ¬ s.Admits n := by
  obtain ⟨t⟩ := ‹Nonempty τ›
  have hpend : (s.semPend t).1 = some .semUninitialized := by
    unfold semPend
    rw [if_pos hi]
  intro h
  rcases n with _ | n
  · have := h t
    rw [hpend] at this
    cases this
  · have := (h t).1
    rw [hpend] at this
    cases this

end Sem

/-! ## Mailboxes -/

namespace Mailbox

variable {τ α : Type} [DecidableEq τ] {null : α} {r w : ℕ}

/-- The object after a failure of the first `sem_init`. -/
def unread (null : α) : Chan τ α α :=
  { Chan.zeroed null with semRead := { Sem.semInit 0 with init := false } }

theorem mailboxInitAt_unread : mailboxInitAt (τ := τ) null 0 w = .ok (.malloc, unread null) := rfl

theorem mailboxInitAt_half (hr : r ≠ 0) :
    mailboxInitAt (τ := τ) null r 0 = .ok (.noErr, (mailboxInit null).halfInit) := by
  unfold mailboxInitAt
  rw [Sem.semInitAt_of_ne hr]
  rfl

theorem mailboxInitAt_done (hr : r ≠ 0) (hw : w ≠ 0) :
    mailboxInitAt (τ := τ) null r w = .ok (.noErr, mailboxInit null) := by
  unfold mailboxInitAt
  rw [Sem.semInitAt_of_ne hr, Sem.semInitAt_of_ne hw]
  rfl

/-- The creation on a heap, with what it returns there. -/
theorem init_mailboxInitAt (h : HeapSys) :
    ∃ p, mailboxInitAt (τ := τ) null h.semQueues.2.1 h.semQueues.2.2 = .ok p
      ∧ (KObject.init (.mailboxInit null) h).2 = if p.1 = .noErr then
        .ok (.mailbox p.2 h.semQueues.2.1 h.semQueues.2.2) else .error .malloc := by
  simp only [KObject.init]
  by_cases hr : h.semQueues.2.1 = 0
  · rw [hr]
    exact ⟨_, mailboxInitAt_unread, rfl⟩
  by_cases hw : h.semQueues.2.2 = 0
  · rw [if_neg hr, if_pos hw, hw]
    exact ⟨_, mailboxInitAt_half hr, rfl⟩
  · rw [if_neg hr, if_neg hw]
    exact ⟨_, mailboxInitAt_done hr hw, rfl⟩

end Mailbox

/-! ## Queues -/

namespace Queue

variable {τ α : Type} [DecidableEq τ] {size : UInt32} {memory : ℕ → α} {r w c : ℕ}

/-- The object after a failure, with nothing initialised. -/
def undone (read write : Sem τ) (memory : ℕ → α) : QueueObj τ α :=
  ⟨{ Chan.zeroed ⟨memory, 0, 0, 0, 0, false, false⟩ with
      semRead := { read with init := false }
      semWrite := { write with init := false } }, 0, 0⟩

theorem queueInitAt_unread : queueInitAt (τ := τ) size memory 0 w c
    = .ok (.malloc, undone (.semInit 0) .zeroed memory) := rfl

theorem queueInitAt_half (hr : r ≠ 0) : queueInitAt (τ := τ) size memory r 0 c
    = .ok (.noErr, undone (.semInit 0) (.semInit (.ofNat size.toNat)) memory) := by
  unfold queueInitAt
  rw [Sem.semInitAt_of_ne hr]
  rfl

theorem queueInitAt_noContainer (hr : r ≠ 0) (hw : w ≠ 0) : queueInitAt (τ := τ) size memory r w 0
    = .ok (.malloc, undone (.semInit 0) (.semInit (.ofNat size.toNat)) memory) := by
  unfold queueInitAt
  rw [Sem.semInitAt_of_ne hr, Sem.semInitAt_of_ne hw]
  rfl

theorem queueInitAt_done (hr : r ≠ 0) (hw : w ≠ 0) (hc : c ≠ 0) :
    queueInitAt (τ := τ) size memory r w c
      = .ok (.noErr, ⟨queueInit size.toNat memory, c, mul32 sizeofPtr size.toNat⟩) := by
  unfold queueInitAt
  rw [Sem.semInitAt_of_ne hr, Sem.semInitAt_of_ne hw]
  simp only []
  rw [if_neg hc]
  rfl

/-- The creation on a heap, with what it returns there. -/
theorem init_queueInitAt (h : HeapSys) :
    ∃ p, queueInitAt (τ := τ) size memory h.semQueues.2.1 h.semQueues.2.2
        (h.semQueues.1.kmalloc (mul32 sizeofPtr size.toNat)).2 = .ok p
      ∧ (KObject.init (.queueInit size memory) h).2 = if p.1 = .noErr then
        .ok (.queue p.2.queue h.semQueues.2.1 h.semQueues.2.2 p.2.container) else .error .malloc := by
  simp only [KObject.init]
  by_cases hr : h.semQueues.2.1 = 0
  · rw [hr]
    exact ⟨_, queueInitAt_unread, rfl⟩
  by_cases hw : h.semQueues.2.2 = 0
  · rw [if_neg hr, if_pos hw, hw]
    exact ⟨_, queueInitAt_half hr, rfl⟩
  rw [if_neg hr, if_neg hw]
  by_cases hc : (h.semQueues.1.kmalloc (mul32 sizeofPtr size.toNat)).2 = 0
  · rw [hc]
    exact ⟨_, queueInitAt_noContainer hr hw, rfl⟩
  · rw [if_neg hc]
    exact ⟨_, queueInitAt_done hr hw hc, rfl⟩

/-! ## The container -/

variable [Fintype τ] {n : ℕ} {s : Chan τ α (Queue α)} {e : ChanEv τ α} {i : ℕ}

/-- No thread comes to the data of a queue for no value. -/
theorem usedIndex_zero (h : Reach Queue.step Chan.NoDestroy (queueInit 0 memory) s) :
    usedIndex s e = none := by
  have hB : Chan.Fifo (store (α := α)) 0 fun _ l => l = [] :=
    ⟨fun _ _ _ _ hl => absurd hl (Nat.not_lt_zero _), fun _ _ _ hl => absurd hl (List.cons_ne_nil _ _)⟩
  obtain ⟨l, hl⟩ := Chan.counted_of_reach hB (by decide) (Chan.counted_start rfl (by decide)) h
  obtain rfl : l = [] := hl.rep
  have hpost : count ChanPc.posting s.pc = 0 := by
    have h1 := hl.write
    have h2 := hl.writeNonneg
    have hpc : s.view.pc = s.pc := rfl
    rw [hpc, List.length_nil] at h1
    omega
  have hpend : count ChanPc.pending s.pc = 0 := by
    have h1 := hl.read
    have h2 := hl.readNonneg
    have hpc : s.view.pc = s.pc := rfl
    rw [hpc, List.length_nil] at h1
    omega
  cases e with
  | data t =>
    have h1 := count_update ChanPc.posting s.pc t .idle
    have h2 := count_update ChanPc.pending s.pc t .idle
    rcases hp : s.pc t with _ | v | v | _ | _ <;>
      simp only [hp, ChanPc.posting, ChanPc.pending, Bool.toNat_true, Bool.toNat_false] at h1 h2
    case idle | postPend | pendPend => simp only [usedIndex, hp]
    all_goals omega
  | _ => rfl

/-- An index of the container that is used is below `max_size`. -/
theorem usedIndex_lt (hn : n < 2 ^ 30)
    (h : Reach Queue.step Chan.NoDestroy (queueInit n memory) s) (hi : usedIndex s e = some i) :
    i < s.buf.maxSize ∧ s.buf.maxSize = n := by
  rcases Nat.eq_zero_or_pos n with rfl | hpos
  · rw [usedIndex_zero h] at hi
    cases hi
  · have h0 : Rep n (⟨memory, 0, n, 0, 0, false, false⟩ : Queue α) [] :=
      ⟨rfl, rfl, hpos, by simp, .nil⟩
    obtain ⟨l, hl⟩ := Chan.counted_of_reach (fifo hn) hn (Chan.counted_start h0 hn) h
    have hrep : Rep n s.buf l := hl.rep
    refine ⟨?_, hrep.maxSize⟩
    have htop : s.buf.indexTop < n := by
      rw [hrep.top]
      exact Nat.mod_lt _ hpos
    have hbot := hrep.bot
    rw [hrep.maxSize]
    unfold usedIndex at hi
    split at hi
    · split at hi
      · cases hi
        exact htop
      · split_ifs at hi
        cases hi
        exact hbot
      · cases hi
    · cases hi

end Queue

/-- The container has room for `size` pointers, the write semaphore for as many posts, and no run of
posts and pends goes past `max_size` or out of the block. -/
structure QueueObj.Backed {τ α : Type} [DecidableEq τ] (o : QueueObj τ α) (size : ℕ) : Prop where
  room : sizeofPtr * size ≤ o.bytes
  admits : o.queue.semWrite.Admits size
  inside : ∀ s, Reach Queue.step Chan.NoDestroy o.queue s → ∀ e i, Queue.usedIndex s e = some i →
    i < s.buf.maxSize ∧ sizeofPtr * (i + 1) ≤ o.bytes

namespace Queue

variable {τ α : Type} [DecidableEq τ]

/-- The capacity of a queue is backed as long as the product of `queue_init` does not wrap. -/
theorem backed_iff [Fintype τ] [Nonempty τ] (size : UInt32) (memory : ℕ → α) (r w c : ℕ) :
    (∃ p : ChanInitErr × QueueObj τ α, queueInitAt size memory r w c = .ok p
        ∧ (p.1 = .noErr → p.2.Backed size.toNat))
      ↔ r = 0 ∨ w ≠ 0 ∧ (c = 0 ∨ size.toNat < 2 ^ 30) := by
  have hret : ∀ {err o}, queueInitAt (τ := τ) size memory r w c = .ok (err, o) →
      ((∃ p : ChanInitErr × QueueObj τ α, queueInitAt size memory r w c = .ok p
        ∧ (p.1 = .noErr → p.2.Backed size.toNat)) ↔ (err = .noErr → o.Backed size.toNat)) := by
    intro err o h
    rw [h]
    constructor
    · rintro ⟨p, hp, hb⟩
      cases hp
      exact hb
    · exact fun hb => ⟨_, rfl, hb⟩
  by_cases hr : r = 0
  · subst hr
    rw [hret queueInitAt_unread]
    simp
  by_cases hw : w = 0
  · subst hw
    rw [hret (queueInitAt_half hr)]
    refine iff_of_false (fun hb => ?_) (by simp [hr])
    exact Sem.not_admits rfl _ (hb rfl).admits
  by_cases hc : c = 0
  · subst hc
    rw [hret (queueInitAt_noContainer hr hw)]
    simp [hw]
  rw [hret (queueInitAt_done hr hw hc)]
  have hlt := size.toNat_lt
  simp only [hr, hw, hc, false_or, ne_eq, not_false_eq_true, true_and, forall_const]
  constructor
  · intro hb
    have hroom := hb.room
    have hprod := mul32_lt sizeofPtr size.toNat
    simp only [sizeofPtr] at hroom hprod
    omega
  · intro hmax
    have hbytes : mul32 sizeofPtr size.toNat = 4 * size.toNat := by
      unfold mul32
      exact Nat.mod_eq_of_lt (by simp only [sizeofPtr]; omega)
    refine ⟨hbytes.ge, Sem.admits_of_level _ _ rfl (Int32.toInt_ofNat_of_lt (by omega)), ?_⟩
    intro s hs e i hi
    obtain ⟨h1, h2⟩ := usedIndex_lt hmax hs hi
    refine ⟨h1, ?_⟩
    simp only [hbytes, sizeofPtr]
    omega

/-- A queue of four values. -/
theorem backed_four : ∃ p : ChanInitErr × QueueObj (Fin 1) ℕ,
    queueInitAt 4 (fun _ => 0) 0x1000 0x1020 0x1040 = .ok p ∧ (p.1 = .noErr → p.2.Backed 4) :=
  (backed_iff 4 (fun _ => 0) 0x1000 0x1020 0x1040).2 (.inr ⟨by decide, .inr (by decide)⟩)

/-- With 2^30 values the container is a block of no bytes. -/
theorem not_backed : ∃ p : ChanInitErr × QueueObj (Fin 1) ℕ,
    queueInitAt 0x40000000 (fun _ => 0) 0x1000 0x1020 0x1040 = .ok p ∧ p.1 = .noErr ∧ p.2.bytes = 0
      ∧ ¬ p.2.Backed 0x40000000 := by
  have hbytes : mul32 sizeofPtr (0x40000000 : UInt32).toNat = 0 := by decide +kernel
  refine ⟨_, queueInitAt_done (by decide) (by decide) (by decide), rfl, hbytes, fun hb => ?_⟩
  have hroom := hb.room
  rw [hbytes] at hroom
  exact absurd hroom (by decide)

end Queue

/-! ## What the code says -/

namespace Chan

variable {τ α β : Type}

/-- A call that returns `f`. -/
theorem reports_iff {γ : Type} {f : Except Halt γ} {g : γ → ChanInitErr × Chan τ α β} {x : γ}
    (hf : f = .ok x) :
    (∃ p, f = .ok p ∧ InitReports (g p).1 (g p).2) ↔ InitReports (g x).1 (g x).2 := by
  rw [hf]
  constructor
  · rintro ⟨p, hp, hr⟩
    cases hp
    exact hr
  · exact fun hr => ⟨x, rfl, hr⟩

theorem initReports_of_init {s : Chan τ α β} (h : s.init = true)
    (hr : s.semRead.init = true) (hw : s.semWrite.init = true) : InitReports .noErr s :=
  ⟨iff_of_true rfl ⟨h, hr, hw⟩, fun h => absurd rfl h⟩

theorem initReports_of_malloc {s : Chan τ α β} (hr : s.semRead.init = false)
    (hw : s.semWrite.init = false) : InitReports .malloc s := by
  refine ⟨iff_of_false (by simp) fun h => ?_, fun _ => ⟨hr, hw⟩⟩
  rw [hr] at h
  cases h.2.1

theorem not_initReports {s : Chan τ α β} (h : s.init = false) :
    ¬ InitReports .noErr s := by
  intro hr
  have hi := (hr.done.1 rfl).1
  rw [h] at hi
  cases hi

variable [DecidableEq τ]

/-- The creations report what they did except when the second `sem_init` fails. -/
theorem init_reports_iff (null : α) (size : UInt32) (memory : ℕ → α) (r w c : ℕ) :
    ((∃ p : ChanInitErr × Chan τ α α, Mailbox.mailboxInitAt null r w = .ok p ∧ InitReports p.1 p.2)
        ↔ ¬ (r ≠ 0 ∧ w = 0))
      ∧ ((∃ p : ChanInitErr × QueueObj τ α, Queue.queueInitAt size memory r w c = .ok p
          ∧ InitReports p.1 p.2.queue) ↔ ¬ (r ≠ 0 ∧ w = 0)) := by
  have hmailbox : ∀ {err m}, Mailbox.mailboxInitAt (τ := τ) null r w = .ok (err, m) →
      ((∃ p : ChanInitErr × Chan τ α α, Mailbox.mailboxInitAt null r w = .ok p
        ∧ InitReports p.1 p.2) ↔ InitReports err m) := reports_iff (g := id)
  have hqueue : ∀ {err o}, Queue.queueInitAt (τ := τ) size memory r w c = .ok (err, o) →
      ((∃ p : ChanInitErr × QueueObj τ α, Queue.queueInitAt size memory r w c = .ok p
        ∧ InitReports p.1 p.2.queue) ↔ InitReports err o.queue) :=
    reports_iff (g := fun p : ChanInitErr × QueueObj τ α => (p.1, p.2.queue))
  by_cases hr : r = 0
  · subst hr
    rw [hmailbox Mailbox.mailboxInitAt_unread, hqueue Queue.queueInitAt_unread]
    exact ⟨iff_of_true (initReports_of_malloc rfl rfl) (by simp),
      iff_of_true (initReports_of_malloc rfl rfl) (by simp)⟩
  by_cases hw : w = 0
  · subst hw
    rw [hmailbox (Mailbox.mailboxInitAt_half hr), hqueue (Queue.queueInitAt_half hr)]
    exact ⟨iff_of_false (not_initReports rfl) (by simp [hr]),
      iff_of_false (not_initReports rfl) (by simp [hr])⟩
  rw [hmailbox (Mailbox.mailboxInitAt_done hr hw)]
  refine ⟨iff_of_true (initReports_of_init rfl rfl rfl) (by simp [hw]), ?_⟩
  by_cases hc : c = 0
  · subst hc
    rw [hqueue (Queue.queueInitAt_noContainer hr hw)]
    exact iff_of_true (initReports_of_malloc rfl rfl) (by simp [hw])
  · rw [hqueue (Queue.queueInitAt_done hr hw hc)]
    exact iff_of_true (initReports_of_init rfl rfl rfl) (by simp [hw])

/-- The queue of the second semaphore is not allocated: both creations return `OS_NO_ERR`. -/
theorem init_not_reported :
    (∃ m : Chan (Fin 1) ℕ ℕ, Mailbox.mailboxInitAt 0 0x1000 0 = .ok (.noErr, m)
        ∧ m.init = false ∧ ¬ InitReports .noErr m)
      ∧ ∃ o : QueueObj (Fin 1) ℕ, Queue.queueInitAt 4 (fun _ => 0) 0x1000 0 0x1040 = .ok (.noErr, o)
        ∧ o.queue.init = false ∧ ¬ InitReports .noErr o.queue :=
  ⟨⟨_, Mailbox.mailboxInitAt_half (by decide), rfl, not_initReports rfl⟩,
    ⟨_, Queue.queueInitAt_half (by decide), rfl, not_initReports rfl⟩⟩

end Chan

end RTLKIM
