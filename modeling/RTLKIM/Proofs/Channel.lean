import RTLKIM.Channel
import RTLKIM.Lib.Count
import RTLKIM.Lib.Run
import RTLKIM.Lib.Circle
import RTLKIM.Proofs.Semaphore

/-!
# What queues and mailboxes keep

`Move` lists what a step does, seen from the values and the levels. A token of the write semaphore
is a free slot and one of the read semaphore a value that is stored and not fetched; a thread
between its `sem_pend` and its data holds one. So the store is a list that is put to when it is not
full and got from when it is not empty. Destruction comes last: a post that has its token does not
see it.
-/

namespace RTLKIM

variable {τ α β : Type} [DecidableEq τ]

/-! ## Semaphores inside a call -/

/-- What a section of `sem_pend` returns and does to the level. -/
inductive SemPended (s : Sem τ) : Option SemErr → Sem τ → Prop
  | block (m : Sem τ) (hl : m.level = s.level) (hi : m.init = s.init) : SemPended s none m
  | take (m : Sem τ) (h : s.init = true) (h1 : 1 ≤ s.level.toInt) (hl : m.level = s.level - 1)
      (hi : m.init = s.init) : SemPended s (some .noErr) m
  | fail (m : Sem τ) (h : s.init = false) (hl : m.level = s.level) (hi : m.init = s.init) :
      SemPended s (some .semUninitialized) m

theorem semPended_pendTest (s : Sem τ) (t : τ) :
    SemPended s (s.pendTest t).1 (s.pendTest t).2 := by
  unfold Sem.pendTest
  dsimp only
  split_ifs with h1 h2
  · exact .block _ rfl rfl
  · exact .fail _ h2 rfl rfl
  · have hi : s.init = true := by simpa using h2
    refine .take _ hi ?_ rfl rfl
    have := (Int32.lt_one_iff _).not.1 fun hlt => h1 ⟨hi, hlt⟩
    omega

theorem semPended_pendSection {s m : Sem τ} {t : τ} {r : Option SemErr}
    (h : s.pendSection t = some (r, m)) : SemPended s r m := by
  unfold Sem.pendSection at h
  split at h
  · rw [Option.some_inj] at h
    unfold Sem.semPend at h
    split_ifs at h with hi
    · cases h
      exact .fail _ hi rfl rfl
    · have := semPended_pendTest s t
      rw [h] at this
      exact this
  · rw [Option.some_inj] at h
    have := semPended_pendTest s t
    rw [h] at this
    exact this
  · cases h
  · cases h

/-- `sem_post` does not panic: the thread it pops waits. -/
theorem postUnlock_spec (s : Sem τ) : ∃ m, m.init = s.init
    ∧ (s.init = true → s.postUnlock = .ok (.noErr, m) ∧ m.level = s.level + 1)
    ∧ (s.init = false → s.postUnlock = .ok (.semUninitialized, m) ∧ m.level = s.level) := by
  unfold Sem.postUnlock Sem.semPost
  by_cases hi : s.init = false
  · rw [if_pos hi]
    exact ⟨s, rfl, fun h => absurd (h.symm.trans hi) (by simp), fun _ => ⟨rfl, rfl⟩⟩
  · have hi' : s.init = true := by simpa using hi
    rw [if_neg hi]
    dsimp only
    by_cases hl : 0 < s.level + 1
    · rw [if_pos hl]
      rcases hq : s.waiters.queue.getLast? with _ | x
      · exact ⟨{ s with level := s.level + 1 }, rfl, fun _ => ⟨rfl, rfl⟩, fun h => absurd h hi⟩
      · have hw : (s.waiters.pop x).wakeWaiting x = some ((s.waiters.pop x).wake x) :=
          Waiters.wakeWaiting_popped (Function.update_self _ _ _)
        refine ⟨{ s with level := s.level + 1, waiters := (s.waiters.pop x).wake x }, rfl,
          fun _ => ⟨?_, rfl⟩, fun h => absurd h hi⟩
        dsimp only
        unfold Sem.unlockThread
        dsimp only
        rw [hw]
        rfl
    · rw [if_neg hl]
      exact ⟨{ s with level := s.level + 1 }, rfl, fun _ => ⟨rfl, rfl⟩, fun h => absurd h hi⟩

/-! ## Moves -/

def ChanPc.posting : ChanPc α → Bool
  | .postData _ => true
  | _ => false

def ChanPc.pending : ChanPc α → Bool
  | .pendData => true
  | _ => false

/-- A channel without its waiters and what it returned. -/
structure ChanView (τ α β : Type) where
  init : Bool
  buf : β
  read : Int32
  readInit : Bool
  write : Int32
  writeInit : Bool
  pc : τ → ChanPc α
  stored : List α
  fetched : List α
  returned : List α

omit [DecidableEq τ] in
def Chan.view (s : Chan τ α β) : ChanView τ α β :=
  ⟨s.init, s.buf, s.semRead.level, s.semRead.init, s.semWrite.level, s.semWrite.init, s.pc, s.stored,
    s.fetched, s.returned⟩

namespace Chan

variable {B : Store α β}

/-- What a step does to the view. -/
inductive Move (B : Store α β) (v : ChanView τ α β) (e : ChanEv τ α) : ChanView τ α β → Prop
  | stay (t : τ) (p : ChanPc α) (h1 : (v.pc t).posting = false) (h2 : (v.pc t).pending = false)
      (h3 : p.posting = false) (h4 : p.pending = false) :
      Move B v e { v with pc := Function.update v.pc t p }
  | takeWrite (t : τ) (a : α) (hp : v.pc t = .postPend a) (hi : v.writeInit = true)
      (hl : 1 ≤ v.write.toInt) :
      Move B v e { v with write := v.write - 1, pc := Function.update v.pc t (.postData a) }
  | takeRead (t : τ) (hp : v.pc t = .pendPend) (hi : v.readInit = true) (hl : 1 ≤ v.read.toInt) :
      Move B v e { v with read := v.read - 1, pc := Function.update v.pc t .pendData }
  | store (t : τ) (a : α) (hp : v.pc t = .postData a) :
      Move B v e { v with
        buf := B.put v.buf a
        stored := v.stored ++ [a]
        read := if v.readInit then v.read + 1 else v.read
        pc := Function.update v.pc t .idle }
  | fetch (t : τ) (hp : v.pc t = .pendData) (hi : v.init = true) :
      Move B v e { v with
        buf := (B.get v.buf).2
        fetched := v.fetched ++ [(B.get v.buf).1]
        returned := if v.writeInit then v.returned ++ [(B.get v.buf).1] else v.returned
        write := if v.writeInit then v.write + 1 else v.write
        pc := Function.update v.pc t .idle }
  | reject (t : τ) (hp : v.pc t = .pendData) (hi : v.init = false) :
      Move B v e { v with pc := Function.update v.pc t .idle }
  | destroy (t : τ) (he : e = .destroy t) (hi : v.init = true) (hp : v.pc t = .idle) :
      Move B v e { v with
        init := false
        buf := B.free v.buf
        readInit := false
        writeInit := false
        pc := Function.update v.pc t .idle }

variable {s s' : Chan τ α β} {e : ChanEv τ α} {t : τ}

theorem move_checkInit {p : ChanPc α} (hp : s.pc t = .idle) (h1 : p.posting = false)
    (h2 : p.pending = false) : Move B s.view e (s.checkInit t p).view := by
  have h3 : (s.view.pc t).posting = false := by rw [show s.view.pc t = .idle from hp]; rfl
  have h4 : (s.view.pc t).pending = false := by rw [show s.view.pc t = .idle from hp]; rfl
  unfold checkInit
  split_ifs
  · exact .stay t .idle h3 h4 rfl rfl
  · exact .stay t p h3 h4 h1 h2

theorem semDestroy_ok {m : Sem τ} {p : SemErr × Sem τ} (h : m.semDestroy = .ok p) :
    p.2.init = false ∧ p.2.level = m.level := by
  have h' : m.semDestroy.toOption = some p := by rw [h]; rfl
  obtain ⟨hi, rfl⟩ | ⟨-, w, -, rfl⟩ := SemSys.semDestroy_cases h'
  · exact ⟨hi, rfl⟩
  · exact ⟨rfl, rfl⟩

theorem move_of_view {v v' : ChanView τ α β} (h : Move B v e v') (hv : s'.view = v') :
    Move B v e s'.view := by
  rw [hv]
  exact h

theorem move_write {a : α} (hp : s.pc t = .postPend a) {r : Option SemErr} {m : Sem τ}
    (h : SemPended s.semWrite r m) :
    Move B s.view e ({ s with semWrite := m }.pended t (.postData a) r).view := by
  have hp' : s.view.pc t = .postPend a := hp
  cases h with
  | block m hl hi =>
    refine move_of_view (.stay t (.postPend a) (by rw [hp']; rfl) (by rw [hp']; rfl) rfl rfl) ?_
    rw [← hp', Function.update_eq_self]
    unfold Chan.view pended
    rw [hl, hi]
  | take m h h1 hl hi =>
    refine move_of_view (.takeWrite t a hp' h h1) ?_
    unfold Chan.view pended goto
    rw [hl, hi]
  | fail m h hl hi =>
    refine move_of_view (.stay t .idle (by rw [hp']; rfl) (by rw [hp']; rfl) rfl rfl) ?_
    unfold Chan.view pended returns
    rw [hl, hi]

theorem move_read (hp : s.pc t = .pendPend) {r : Option SemErr} {m : Sem τ}
    (h : SemPended s.semRead r m) :
    Move B s.view e ({ s with semRead := m }.pended t .pendData r).view := by
  have hp' : s.view.pc t = .pendPend := hp
  cases h with
  | block m hl hi =>
    refine move_of_view (.stay t .pendPend (by rw [hp']; rfl) (by rw [hp']; rfl) rfl rfl) ?_
    rw [← hp', Function.update_eq_self]
    unfold Chan.view pended
    rw [hl, hi]
  | take m h h1 hl hi =>
    refine move_of_view (.takeRead t hp' h h1) ?_
    unfold Chan.view pended goto
    rw [hl, hi]
  | fail m h hl hi =>
    refine move_of_view (.stay t .idle (by rw [hp']; rfl) (by rw [hp']; rfl) rfl rfl) ?_
    unfold Chan.view pended returns
    rw [hl, hi]

theorem move_postData {a : α} (hp : s.pc t = .postData a)
    (h : (s.postData B t a).toOption = some s') : Move B s.view e s'.view := by
  refine move_of_view (.store t a hp) ?_
  obtain ⟨m, hi, h1, h2⟩ := postUnlock_spec s.semRead
  unfold postData at h
  dsimp only at h
  unfold Chan.view
  dsimp only
  by_cases hr : s.semRead.init = true
  · rw [(h1 hr).1] at h
    cases h
    rw [if_pos hr, ← (h1 hr).2, ← hi]
    rfl
  · have hr' : s.semRead.init = false := by simpa using hr
    rw [(h2 hr').1] at h
    cases h
    rw [if_neg hr, ← (h2 hr').2, ← hi]
    rfl

theorem move_pendData (hp : s.pc t = .pendData) (h : (s.pendData B t).toOption = some s') :
    Move B s.view e s'.view := by
  unfold pendData at h
  split_ifs at h with hi
  · cases h
    exact .reject t hp hi
  · have hi' : s.init = true := by simpa using hi
    refine move_of_view (.fetch t hp hi') ?_
    obtain ⟨m, hm, h1, h2⟩ := postUnlock_spec s.semWrite
    dsimp only at h
    unfold Chan.view
    dsimp only
    by_cases hw : s.semWrite.init = true
    · rw [(h1 hw).1] at h
      cases h
      rw [if_pos hw, if_pos hw, ← (h1 hw).2, ← hm]
      rfl
    · have hw' : s.semWrite.init = false := by simpa using hw
      rw [(h2 hw').1] at h
      cases h
      rw [if_neg hw, if_neg hw, ← (h2 hw').2, ← hm]
      rfl

theorem move_destroy (hp : s.pc t = .idle) (he : e = .destroy t)
    (h : (s.destroy B t).toOption = some s') : Move B s.view e s'.view := by
  have hp' : s.view.pc t = .idle := hp
  unfold destroy at h
  split_ifs at h with hi
  · cases h
    exact .stay t .idle (by rw [hp']; rfl) (by rw [hp']; rfl) rfl rfl
  · have hi' : s.init = true := by simpa using hi
    refine move_of_view (.destroy t he hi' hp') ?_
    rcases hr : s.semRead.semDestroy with _ | r
    · rw [hr] at h
      cases h
    rcases hw : s.semWrite.semDestroy with _ | w
    · rw [hr, hw] at h
      cases h
    obtain ⟨r1, r2⟩ := semDestroy_ok hr
    obtain ⟨w1, w2⟩ := semDestroy_ok hw
    rw [hr, hw] at h
    cases h
    unfold Chan.view returns
    dsimp only
    rw [r1, r2, w1, w2]

theorem move_step (h : s.step B e = some s') : Move B s.view e s'.view := by
  cases e with
  | post t v =>
    simp only [step] at h
    split at h
    · rename_i hp
      cases h
      exact move_checkInit hp rfl rfl
    · cases h
  | pend t =>
    simp only [step] at h
    split at h
    · rename_i hp
      cases h
      exact move_checkInit hp rfl rfl
    · cases h
  | acquire t =>
    simp only [step] at h
    split at h
    · rename_i a hp
      obtain ⟨⟨r, m⟩, hr, rfl⟩ := Option.map_eq_some_iff.1 h
      exact move_write hp (semPended_pendSection hr)
    · rename_i hp
      obtain ⟨⟨r, m⟩, hr, rfl⟩ := Option.map_eq_some_iff.1 h
      exact move_read hp (semPended_pendSection hr)
    · cases h
  | data t =>
    simp only [step] at h
    split at h
    · rename_i a hp
      exact move_postData hp h
    · rename_i hp
      exact move_pendData hp h
    · cases h
  | destroy t =>
    simp only [step] at h
    split at h
    · rename_i hp
      exact move_destroy hp rfl h
    · cases h

/-! ## First in, first out -/

/-- A store that holds lists of at most `n` values, as `Rep` tells. -/
structure Fifo (B : Store α β) (n : ℕ) (Rep : β → List α → Prop) : Prop where
  put : ∀ b l a, Rep b l → l.length < n → Rep (B.put b a) (l ++ [a])
  get : ∀ b l a, Rep b (a :: l) → (B.get b).1 = a ∧ Rep (B.get b).2 l

/-- The queue or the mailbox is not destroyed. -/
def NoDestroy (_ : Chan τ α β) : ChanEv τ α → Prop
  | .destroy _ => False
  | _ => True

instance (s : Chan τ α β) : ∀ e, Decidable (s.NoDestroy e)
  | .destroy _ => instDecidableFalse
  | .post _ _ | .pend _ | .acquire _ | .data _ => instDecidableTrue

section Counted

variable [Fintype τ]

/-- What is stored and not fetched is in the store. Each value more that it has room for is a token
of the write semaphore or held by a post, and each value in it one of the read semaphore or held by
a pend. -/
structure Counted (n : ℕ) (Rep : β → List α → Prop) (v : ChanView τ α β) (l : List α) : Prop where
  init : v.init = true ∧ v.readInit = true ∧ v.writeInit = true
  rep : Rep v.buf l
  stored : v.stored = v.fetched ++ l
  returned : v.returned = v.fetched
  writeNonneg : 0 ≤ v.write.toInt
  readNonneg : 0 ≤ v.read.toInt
  write : v.write.toInt + count ChanPc.posting v.pc + l.length = n
  read : v.read.toInt + count ChanPc.pending v.pc = l.length

variable {n : ℕ} {Rep : β → List α → Prop} {v v' : ChanView τ α β} {l : List α}

theorem Counted.move (hB : Fifo B n Rep) (hn : n < 2 ^ 30) (h : Counted n Rep v l)
    (he : ∀ t, e ≠ .destroy t) (hm : Move B v e v') : ∃ l', Counted n Rep v' l' := by
  obtain ⟨hi, hrep, hst, hret, hw0, hr0, hw, hr⟩ := h
  -- the threads at the data after a thread goes from one place to another
  have hcount : ∀ {t : τ} {p q : ChanPc α}, v.pc t = p →
      count ChanPc.posting (Function.update v.pc t q) + p.posting.toNat
        = count ChanPc.posting v.pc + q.posting.toNat
      ∧ count ChanPc.pending (Function.update v.pc t q) + p.pending.toNat
        = count ChanPc.pending v.pc + q.pending.toNat := by
    rintro t p q rfl
    exact ⟨count_update _ _ _ _, count_update _ _ _ _⟩
  cases hm with
  | stay t p h1 h2 h3 h4 =>
    obtain ⟨c1, c2⟩ := hcount (t := t) (q := p) rfl
    rw [h1, h3] at c1
    rw [h2, h4] at c2
    refine ⟨l, hi, hrep, hst, hret, hw0, hr0, ?_, ?_⟩ <;> dsimp only <;> omega
  | takeWrite t a hp hi' hl =>
    obtain ⟨c1, c2⟩ := hcount (q := .postData a) hp
    have h1 := Int32.toInt_sub_one hl
    simp only [ChanPc.posting, ChanPc.pending, Bool.toNat_true, Bool.toNat_false] at c1 c2
    refine ⟨l, hi, hrep, hst, hret, ?_, hr0, ?_, ?_⟩ <;> dsimp only <;> omega
  | takeRead t hp hi' hl =>
    obtain ⟨c1, c2⟩ := hcount (q := .pendData) hp
    have h1 := Int32.toInt_sub_one hl
    simp only [ChanPc.posting, ChanPc.pending, Bool.toNat_true, Bool.toNat_false] at c1 c2
    refine ⟨l, hi, hrep, hst, hret, hw0, ?_, ?_, ?_⟩ <;> dsimp only <;> omega
  | store t a hp =>
    obtain ⟨c1, c2⟩ := hcount (q := .idle) hp
    simp only [ChanPc.posting, ChanPc.pending, Bool.toNat_true, Bool.toNat_false] at c1 c2
    have h1 : (v.read + 1).toInt = v.read.toInt + 1 := Int32.toInt_add_one (by omega)
    have hput := hB.put v.buf l a hrep (by omega)
    refine ⟨l ++ [a], hi, hput, ?_, hret, hw0, ?_, ?_, ?_⟩ <;> dsimp only
    · rw [hst, List.append_assoc]
    · rw [if_pos hi.2.1]
      omega
    · rw [List.length_append, List.length_singleton]
      push_cast
      omega
    · rw [if_pos hi.2.1, List.length_append, List.length_singleton]
      push_cast
      omega
  | fetch t hp hi' =>
    obtain ⟨c1, c2⟩ := hcount (q := .idle) hp
    simp only [ChanPc.posting, ChanPc.pending, Bool.toNat_true, Bool.toNat_false] at c1 c2
    have h1 : (v.write + 1).toInt = v.write.toInt + 1 := Int32.toInt_add_one (by omega)
    obtain ⟨a, l', rfl⟩ : ∃ a l', l = a :: l' := by
      rcases l with _ | ⟨a, l'⟩
      · simp only [List.length_nil] at hr
        omega
      · exact ⟨a, l', rfl⟩
    obtain ⟨ha, hget⟩ := hB.get v.buf l' a hrep
    rw [List.length_cons] at hw hr
    refine ⟨l', hi, hget, ?_, ?_, ?_, hr0, ?_, ?_⟩ <;> dsimp only
    · rw [hst, ha, List.append_assoc]
      rfl
    · rw [if_pos hi.2.2, hret]
    · rw [if_pos hi.2.2]
      omega
    · rw [if_pos hi.2.2]
      push_cast at hw
      omega
    · push_cast at hr
      omega
  | reject t hp hi' => exact absurd (hi.1.symm.trans hi') (by simp)
  | destroy t he' => exact absurd he' (he t)

theorem counted_of_reach (hB : Fifo B n Rep) (hn : n < 2 ^ 30) {s₀ : Chan τ α β}
    (h0 : Counted n Rep s₀.view []) (h : Reach (step B) NoDestroy s₀ s) :
    ∃ l, Counted n Rep s.view l := by
  refine h.invariant (P := fun s : Chan τ α β => ∃ l, Counted n Rep s.view l) ⟨[], h0⟩ ?_
  rintro s e s' ⟨l, hl⟩ hok hs
  refine hl.move hB hn (fun t ht => ?_) (move_step hs)
  rw [ht] at hok
  exact hok

omit [DecidableEq τ] in
/-- A channel that is empty, nobody in a call. -/
theorem counted_start {b : β} (hb : Rep b []) (hn : n < 2 ^ 30) :
    Counted n Rep (Chan.view (τ := τ) ⟨true, b, .semInit 0, .semInit (.ofNat n), fun _ => .idle,
      fun _ => none, [], [], []⟩) [] := by
  have h1 : (Int32.ofNat n).toInt = n := Int32.toInt_ofNat_of_lt (by omega)
  have c1 : count (τ := τ) (ChanPc.posting (α := α)) (fun _ => .idle) = 0 :=
    count_eq_zero fun _ => rfl
  have c2 : count (τ := τ) (ChanPc.pending (α := α)) (fun _ => .idle) = 0 :=
    count_eq_zero fun _ => rfl
  refine ⟨⟨rfl, rfl, rfl⟩, hb, rfl, rfl, ?_, ?_, ?_, ?_⟩ <;>
    dsimp only [Chan.view, Sem.semInit]
  · omega
  · decide
  · rw [h1, c1]
    simp
  · rw [c2]
    rfl

end Counted

end Chan

/-! ## Queues -/

namespace Queue

/-- The list is in the container from `index_bot` on. -/
structure Rep (n : ℕ) (q : Queue α) (l : List α) : Prop where
  maxSize : q.maxSize = n
  size : q.size = l.length
  bot : q.indexBot < n
  top : q.indexTop = (q.indexBot + l.length) % n
  slots : Circle n q.container q.indexBot l

variable {n : ℕ} {q : Queue α} {l : List α} {a : α}

theorem Rep.put (hn : n < 2 ^ 30) (h : Rep n q l) (hl : l.length < n) :
    Rep n (q.put a) (l ++ [a]) := by
  have htop : q.indexTop < n := by
    rw [h.top]
    exact Nat.mod_lt _ (by omega)
  have h1 : add32 q.indexTop 1 = q.indexTop + 1 := add32_of_lt (by omega)
  have h2 : add32 q.size 1 = q.size + 1 := add32_of_lt (by rw [h.size]; omega)
  refine ⟨h.maxSize, ?_, h.bot, ?_, ?_⟩
  · show add32 q.size 1 = _
    rw [h2, h.size, List.length_append, List.length_singleton]
  · show add32 q.indexTop 1 % q.maxSize = (q.indexBot + _) % n
    rw [h1, h.maxSize, h.top, Nat.mod_add_mod, List.length_append, List.length_singleton,
      Nat.add_assoc]
  · show Circle n (Function.update q.container q.indexTop a) q.indexBot _
    rw [h.top]
    exact h.slots.push hl

theorem Rep.get (hn : n < 2 ^ 30) (h : Rep n q (a :: l)) : q.get.1 = a ∧ Rep n q.get.2 l := by
  have hle : l.length + 1 ≤ n := h.slots.le
  have hsize : q.size = l.length + 1 := h.size
  have hb := h.bot
  have h1 : add32 q.indexBot 1 % q.maxSize = (q.indexBot + 1) % n := by
    rw [add32_of_lt (by omega), h.maxSize]
  have h2 : sub32 q.size 1 = q.size - 1 := sub32_of_le (by omega) (by omega)
  -- the fields are read off the equation of `get`; the kernel would compare the queues field by field
  unfold Queue.get
  dsimp only
  rw [h1, h2]
  refine ⟨?_, h.maxSize, ?_, ?_, ?_, h.slots.tail⟩
  · have := h.slots.head
    rwa [Nat.mod_eq_of_lt hb] at this
  · show q.size - 1 = _
    rw [hsize, Nat.add_sub_cancel]
  · exact Nat.mod_lt _ (by omega)
  · show q.indexTop = ((q.indexBot + 1) % n + l.length) % n
    rw [h.top, Nat.mod_add_mod, List.length_cons, Nat.add_assoc, Nat.add_comm 1]

theorem fifo (hn : n < 2 ^ 30) : Chan.Fifo (store (α := α)) n (Rep n) :=
  ⟨fun _ _ _ h hl => h.put hn hl, fun _ _ _ h => h.get hn⟩

/-- A bounded queue gives back what it was given, once and in order: nothing that is stored and not
read is overwritten. -/
theorem run_fifo [Fintype τ] (hn : 1 ≤ n) (hn' : n < 2 ^ 30) (container : ℕ → α)
    {s : Chan τ α (Queue α)} (h : Reach Queue.step Chan.NoDestroy (queueInit n container) s) :
    s.fetched <+: s.stored ∧ s.returned = s.fetched
    ∧ (∀ i v, (s.stored.drop s.fetched.length)[i]? = some v →
      s.buf.container ((s.buf.indexBot + i) % n) = v)
    ∧ s.buf.indexTop < n ∧ s.buf.indexBot < n ∧ s.buf.size ≤ n
    ∧ s.buf.size + s.fetched.length = s.stored.length := by
  have h0 : Rep n (⟨container, 0, n, 0, 0, false, false⟩ : Queue α) [] :=
    ⟨rfl, rfl, hn, by simp, .nil⟩
  obtain ⟨l, hl⟩ := Chan.counted_of_reach (fifo hn') hn' (Chan.counted_start h0 hn') h
  have hst : s.stored = s.fetched ++ l := hl.stored
  have hrep : Rep n s.buf l := hl.rep
  refine ⟨⟨l, hst.symm⟩, hl.returned, ?_, ?_, hrep.bot, ?_, ?_⟩
  · rw [hst, List.drop_left]
    exact hrep.slots.slot
  · rw [hrep.top]
    exact Nat.mod_lt _ hn
  · rw [hrep.size]
    exact hrep.slots.le
  · rw [hrep.size, hst, List.length_append, Nat.add_comm]

/-- Two posts whose sections are in the other order than their tokens, and a pend. -/
theorem run_fifo_crossed : ∃ s : Chan (Fin 3) ℕ (Queue ℕ),
    Reach Queue.step Chan.NoDestroy (queueInit 2 fun _ => 0) s
    ∧ s.stored = [8, 7, 9] ∧ s.fetched = [8] ∧ s.fetched <+: s.stored ∧ s.buf.size ≤ 2 := by
  have hrun : ((runEvents (guarded Queue.step Chan.NoDestroy)
      (queueInit 2 (fun _ => 0) : Chan (Fin 3) ℕ (Queue ℕ))
      [.post 0 7, .acquire 0, .post 1 8, .acquire 1, .data 1, .data 0, .post 0 9, .acquire 0, .pend 2,
        .acquire 2, .data 2, .acquire 0, .data 0]).map fun s => (s.stored, s.fetched))
      = some ([8, 7, 9], [8]) := by
    decide +kernel
  obtain ⟨s, h, hs⟩ := Option.map_eq_some_iff.1 hrun
  simp only [Prod.mk.injEq] at hs
  have hf := run_fifo (by decide) (by decide) (fun _ => 0) (.of_run h)
  exact ⟨s, .of_run h, hs.1, hs.2, hf.1, hf.2.2.2.2.2.1⟩

/-! ## Destruction -/

/-- The queue is destroyed while no post is between its token and its data. -/
def DestroysBetween (s : Chan τ α (Queue α)) : ChanEv τ α → Prop
  | .destroy _ => ∀ u, (s.pc u).posting = false
  | _ => True

instance [Fintype τ] (s : Chan τ α (Queue α)) : ∀ e, Decidable (DestroysBetween s e)
  | .destroy _ => inferInstanceAs (Decidable (∀ _, _))
  | .post _ _ | .pend _ | .acquire _ | .data _ => instDecidableTrue

theorem put_freed (q : Queue α) (a : α) : (q.put a).freed = q.freed
    ∧ (q.put a).usedFreed = (q.usedFreed || q.freed) := by
  unfold put
  exact ⟨rfl, rfl⟩

-- `rfl` is not enough for the first part: it compares the queues field by field
theorem get_freed (q : Queue α) : q.get.2.freed = q.freed
    ∧ q.get.2.usedFreed = (q.usedFreed || q.freed) := by
  have hmk : ∀ (c : ℕ → α) (a b d e : ℕ) (f u : Bool), (Queue.mk c a b d e f u).freed = f :=
    fun _ _ _ _ _ _ _ => rfl
  unfold Queue.get
  exact ⟨by rw [hmk], rfl⟩

/-- What is freed is destroyed, and then no post has a token. -/
structure Kept (v : ChanView τ α (Queue α)) : Prop where
  usedFreed : v.buf.usedFreed = false
  freed : v.buf.freed = true → v.init = false
  write : v.init = false → v.writeInit = false
  posting : v.init = false → ∀ u, (v.pc u).posting = false

theorem Kept.move {v v' : ChanView τ α (Queue α)} {e : ChanEv τ α} (h : Kept v)
    (he : ∀ t, e = .destroy t → ∀ u, (v.pc u).posting = false) (hm : Chan.Move store v e v') :
    Kept v' := by
  have hpc : ∀ {t : τ} {p : ChanPc α}, p.posting = false → v.init = false →
      ∀ u, (Function.update v.pc t p u).posting = false := by
    intro t p hp hi u
    by_cases hut : u = t
    · rw [hut, Function.update_self]
      exact hp
    · rw [Function.update_of_ne hut]
      exact h.posting hi u
  have hnotFreed : v.init = true → v.buf.freed = false := by
    intro hi
    rcases hf : v.buf.freed
    · rfl
    · exact absurd (hi.symm.trans (h.freed hf)) (by simp)
  cases hm with
  | stay t p h1 h2 h3 h4 => exact ⟨h.usedFreed, h.freed, h.write, hpc h3⟩
  | takeWrite t a hp hi hl =>
    refine ⟨h.usedFreed, h.freed, h.write, fun hf => ?_⟩
    exact absurd (hi.symm.trans (h.write hf)) (by simp)
  | takeRead t hp hi hl => exact ⟨h.usedFreed, h.freed, h.write, hpc rfl⟩
  | store t a hp =>
    have hi : v.init = true := by
      rcases hi : v.init
      · have := h.posting hi t
        rw [hp] at this
        cases this
      · rfl
    obtain ⟨h1, h2⟩ := put_freed v.buf a
    refine ⟨?_, fun hf => h.freed (h1.symm.trans hf), h.write, hpc rfl⟩
    refine h2.trans ?_
    rw [h.usedFreed, hnotFreed hi]
    rfl
  | fetch t hp hi =>
    obtain ⟨h1, h2⟩ := get_freed v.buf
    refine ⟨?_, fun hf => h.freed (h1.symm.trans hf), h.write, hpc rfl⟩
    refine h2.trans ?_
    rw [h.usedFreed, hnotFreed hi]
    rfl
  | reject t hp hi => exact ⟨h.usedFreed, h.freed, h.write, hpc rfl⟩
  | destroy t he' hi hp =>
    refine ⟨h.usedFreed, fun _ => rfl, fun _ => rfl, fun _ u => ?_⟩
    by_cases hut : u = t
    · show (Function.update v.pc t .idle u).posting = false
      rw [hut, Function.update_self]
      rfl
    · show (Function.update v.pc t .idle u).posting = false
      rw [Function.update_of_ne hut]
      exact he t he' u

/-- The container is not used once it is freed, and a call that comes to its data after the
destruction returns `OS_ERR_QUEUE_NON_INITIALIZED`. -/
def SafeDestroyed (s : Chan τ α (Queue α)) : Prop :=
  s.buf.usedFreed = false ∧ ∀ t, s.init = false → (s.pc t).posting = true ∨ (s.pc t).pending = true →
    ∃ s', Queue.step s (.data t) = some s' ∧ s'.ret t = some ⟨.nonInitialized, none⟩

/-- Along the runs that destroy the queue while no post is between its token and its data, its
container is not used after it is freed. -/
theorem run_safeDestroyed {n : ℕ} (container : ℕ → α) {s : Chan τ α (Queue α)}
    (h : Reach Queue.step DestroysBetween (queueInit n container) s) : SafeDestroyed s := by
  have hk : Kept s.view := by
    refine h.invariant (P := fun s : Chan τ α (Queue α) => Kept s.view)
      ⟨rfl, fun hf => absurd hf (by simp [queueInit, Chan.view]),
        fun hf => absurd hf (by simp [queueInit, Chan.view]), fun _ _ => rfl⟩ ?_
    intro s e s' hk hok hs
    refine hk.move (fun t ht => ?_) (Chan.move_step hs)
    rw [ht] at hok
    exact hok
  refine ⟨hk.usedFreed, fun t hi hp => ?_⟩
  have hpost : (s.pc t).posting = false := hk.posting hi t
  rw [hpost] at hp
  rcases hpc : s.pc t with _ | a | a | _ | _ <;> rw [hpc] at hp <;>
    simp only [ChanPc.pending, Bool.false_eq_true, or_self] at hp
  refine ⟨s.returns t .nonInitialized none, ?_, Function.update_self _ _ _⟩
  unfold Queue.step
  simp only [Chan.step, hpc]
  unfold Chan.pendData
  rw [if_pos hi]
  rfl

/-- A pend has its token when the queue is destroyed. -/
theorem run_safeDestroyed_pend : ∃ s : Chan (Fin 2) ℕ (Queue ℕ),
    Reach Queue.step DestroysBetween (queueInit 1 fun _ => 0) s
    ∧ s.init = false ∧ s.pc 0 = .pendData ∧ SafeDestroyed s := by
  have hrun : ((runEvents (guarded Queue.step DestroysBetween)
      (queueInit 1 (fun _ => 0) : Chan (Fin 2) ℕ (Queue ℕ))
      [.post 1 5, .acquire 1, .data 1, .pend 0, .acquire 0, .destroy 1]).map fun s =>
      (s.init, s.pc 0)) = some (false, .pendData) := by
    decide +kernel
  obtain ⟨s, h, hs⟩ := Option.map_eq_some_iff.1 hrun
  simp only [Prod.mk.injEq] at hs
  exact ⟨s, .of_run h, hs.1, hs.2, run_safeDestroyed (fun _ => 0) (.of_run h)⟩

/-- A post has its token when the queue is destroyed: it writes to the container that is freed. -/
theorem not_safeDestroyed_post : ∃ s : Chan (Fin 2) ℕ (Queue ℕ),
    Reach Queue.step anyStep (queueInit 1 fun _ => 0) s ∧ ¬ SafeDestroyed s := by
  have hrun : ((runEvents (guarded Queue.step anyStep)
      (queueInit 1 (fun _ => 0) : Chan (Fin 2) ℕ (Queue ℕ))
      [.post 0 5, .acquire 0, .destroy 1, .data 0]).map fun s => s.buf.usedFreed) = some true := by
    decide +kernel
  obtain ⟨s, h, hs⟩ := Option.map_eq_some_iff.1 hrun
  exact ⟨s, .of_run h, fun hsafe => absurd (hs.symm.trans hsafe.1) (by simp)⟩

end Queue

/-! ## Mailboxes -/

namespace Mailbox

/-- A mailbox is empty, or holds the value. -/
def Rep (b : α) (l : List α) : Prop := l = [] ∨ l = [b]

theorem fifo : Chan.Fifo (store (α := α)) 1 Rep := by
  refine ⟨fun b l a _ hl => ?_, fun b l a h => ?_⟩
  · obtain rfl : l = [] := List.length_eq_zero_iff.1 (by omega)
    exact .inr rfl
  · obtain ⟨rfl, rfl⟩ : a = b ∧ l = [] := by
      rcases h with h | h
      · cases h
      · simpa using h
    exact ⟨rfl, .inl rfl⟩

/-- A mailbox gives back what it was given, once and in order, and a post that is to store its value
finds all the values before it read. -/
theorem run_delivers [Fintype τ] (value : α) {s : Chan τ α α}
    (h : Reach Mailbox.step Chan.NoDestroy (mailboxInit value) s) :
    s.returned <+: s.stored ∧ ∀ t v, s.pc t = .postData v → s.returned = s.stored := by
  obtain ⟨l, hl⟩ := Chan.counted_of_reach fifo (by decide)
    (Chan.counted_start (n := 1) (.inl rfl) (by decide)) h
  have hst : s.stored = s.fetched ++ l := hl.stored
  have hret : s.returned = s.fetched := hl.returned
  refine ⟨⟨l, by rw [hret, hst]⟩, fun t v hp => ?_⟩
  have hc := count_update ChanPc.posting s.pc t .idle
  rw [hp] at hc
  simp only [ChanPc.posting, Bool.toNat_true, Bool.toNat_false] at hc
  -- the token of the post is the only slot
  have hw := hl.write
  have hw0 := hl.writeNonneg
  have hlen : l.length = 0 := by
    have : s.view.pc = s.pc := rfl
    rw [this] at hw
    omega
  rw [hret, hst, List.length_eq_zero_iff.1 hlen, List.append_nil]

/-- Two posts and two pends that overtake each other before their tokens. -/
theorem run_delivers_two : ∃ s : Chan (Fin 4) ℕ ℕ,
    Reach Mailbox.step Chan.NoDestroy (mailboxInit 0) s
    ∧ s.pc 0 = .postData 5 ∧ s.returned = [6] ∧ s.returned = s.stored := by
  have hrun : ((runEvents (guarded Mailbox.step Chan.NoDestroy)
      (mailboxInit 0 : Chan (Fin 4) ℕ ℕ)
      [.post 0 5, .post 1 6, .pend 2, .pend 3, .acquire 3, .acquire 1, .acquire 0, .data 1, .acquire 2,
        .data 2, .acquire 0]).map fun s => (s.pc 0, s.returned)) = some (.postData 5, [6]) := by
    decide +kernel
  obtain ⟨s, h, hs⟩ := Option.map_eq_some_iff.1 hrun
  simp only [Prod.mk.injEq] at hs
  exact ⟨s, .of_run h, hs.1, hs.2, (run_delivers 0 (.of_run h)).2 0 5 hs.1⟩

end Mailbox

end RTLKIM
