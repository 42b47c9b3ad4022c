import RTLKIM.ContextSwitch
import Mathlib.Data.List.Nodup

/-!
# A thread goes on with the registers it was interrupted with

An interrupt puts a frame below the stack pointer, and a return takes the registers out of the frame that
`esp` of `cpu_state` says. What a thread that does not run goes on with is what is in its frame, and
nobody writes there: the machine is the ideal one, where a switch exchanges registers.
-/

namespace RTLKIM

variable {words : ℕ → ℕ} {l : List (ℕ × ℕ)} {x : ℕ}

theorem writeWords_of_notMem : ∀ {l : List (ℕ × ℕ)} {words : ℕ → ℕ}, (∀ w ∈ l, w.1 ≠ x) →
    writeWords words l x = words x
  | [], _, _ => rfl
  | p :: l, words, h => by
    have hp := h p List.mem_cons_self
    calc writeWords (Function.update words p.1 p.2) l x = Function.update words p.1 p.2 x :=
          writeWords_of_notMem fun w hw => h w (List.mem_cons_of_mem p hw)
      _ = words x := Function.update_of_ne hp.symm _ _

theorem writeWords_congr : ∀ {l : List (ℕ × ℕ)} {words words' : ℕ → ℕ}, words x = words' x →
    writeWords words l x = writeWords words' l x
  | [], _, _, h => h
  | p :: l, words, words', h => by
    have hp : Function.update words p.1 p.2 x = Function.update words' p.1 p.2 x := by
      rw [Function.update_apply, Function.update_apply, h]
    exact writeWords_congr (l := l) hp

theorem writeWords_of_mem {v : ℕ} : ∀ {l : List (ℕ × ℕ)} {words : ℕ → ℕ}, (l.map Prod.fst).Nodup →
    (x, v) ∈ l → writeWords words l x = v
  | [], _, _, h => absurd h List.not_mem_nil
  | p :: l, words, hnd, h => by
    rw [List.map_cons, List.nodup_cons] at hnd
    rcases List.mem_cons.1 h with heq | h
    · subst heq
      calc writeWords (Function.update words x v) l x = Function.update words x v x :=
            writeWords_of_notMem fun w hw hwx => hnd.1 (List.mem_map.2 ⟨w, hw, hwx⟩)
        _ = v := Function.update_self ..
    · exact writeWords_of_mem (l := l) hnd.2 h

/-- The registers in the frame whose `ebp` is at `e`. -/
def restored (words : ℕ → ℕ) (e : ℕ) : Regs where
  ebp := words e
  edi := words (e + 4)
  esi := words (e + 8)
  edx := words (e + 12)
  ecx := words (e + 16)
  ebx := words (e + 20)
  eax := words (e + 24)
  ss := words (e + 28)
  gs := words (e + 32)
  fs := words (e + 36)
  es := words (e + 40)
  ds := words (e + 44)
  eip := words (e + 56)
  cs := words (e + 60)
  eflags := words (e + 64)
  esp := e + 68

theorem restored_congr {words words' : ℕ → ℕ} {e : ℕ}
    (h : ∀ x, e ≤ x → x < e + 68 → words x = words' x) : restored words e = restored words' e := by
  unfold restored
  rw [h e (by omega) (by omega), h (e + 4) (by omega) (by omega), h (e + 8) (by omega) (by omega),
    h (e + 12) (by omega) (by omega), h (e + 16) (by omega) (by omega), h (e + 20) (by omega) (by omega),
    h (e + 24) (by omega) (by omega), h (e + 28) (by omega) (by omega), h (e + 32) (by omega) (by omega),
    h (e + 36) (by omega) (by omega), h (e + 40) (by omega) (by omega), h (e + 44) (by omega) (by omega),
    h (e + 56) (by omega) (by omega), h (e + 60) (by omega) (by omega), h (e + 64) (by omega) (by omega)]

theorem restored_update_eip (words : ℕ → ℕ) (e v : ℕ) :
    restored (Function.update words (e + 56) v) e = { restored words e with eip := v } := by
  simp [restored]

/-- The frame, from `ebp` up. -/
theorem restored_eq {words : ℕ → ℕ} {e : ℕ} {r : Regs} (line c : ℕ) (hesp : e + 68 = r.esp)
    (h : ∀ i v, [r.ebp, r.edi, r.esi, r.edx, r.ecx, r.ebx, r.eax, r.ss, r.gs, r.fs, r.es, r.ds, line, c,
      r.eip, r.cs, r.eflags][i]? = some v → words (e + 4 * i) = v) : restored words e = r :=
  Regs.ext (h 6 _ rfl) (h 5 _ rfl) (h 4 _ rfl) (h 3 _ rfl) (h 2 _ rfl) (h 1 _ rfl) (h 0 _ rfl) hesp
    (h 14 _ rfl) (h 15 _ rfl) (h 16 _ rfl) (h 11 _ rfl) (h 10 _ rfl) (h 9 _ rfl) (h 8 _ rfl) (h 7 _ rfl)

/-! ## The stubs -/

namespace Machine

theorem push_eq (s : Machine) (v : ℕ) (hroom : 4 ≤ s.regs.esp) (h32 : s.regs.esp < 2 ^ 32) :
    s.push v = ⟨{ s.regs with esp := s.regs.esp - 4 }, Function.update s.words (s.regs.esp - 4) v⟩ := by
  unfold push
  rw [sub32_of_le hroom h32]

/-- What `l` leaves when it is pushed. -/
theorem foldl_push : ∀ (l : List ℕ) (r : Regs) (words : ℕ → ℕ), 4 * l.length ≤ r.esp → r.esp < 2 ^ 32 →
    ∃ words', l.foldl push ⟨r, words⟩ = ⟨{ r with esp := r.esp - 4 * l.length }, words'⟩
      ∧ (∀ i v, l[i]? = some v → words' (r.esp - 4 * (i + 1)) = v)
      ∧ ∀ x, x < r.esp - 4 * l.length ∨ r.esp ≤ x → words' x = words x
  | [], r, words, _, _ => ⟨words, rfl, by simp, fun _ _ => rfl⟩
  | v :: l, r, words, hroom, h32 => by
    rw [List.length_cons] at hroom
    obtain ⟨words', h1, h2, h3⟩ := foldl_push l { r with esp := r.esp - 4 }
      (Function.update words (r.esp - 4) v) (by dsimp only; omega) (by dsimp only; omega)
    dsimp only at h1 h2 h3
    refine ⟨words', ?_, fun i v' hv => ?_, fun x hx => ?_⟩
    · rw [List.foldl_cons, push_eq _ _ (by dsimp only; omega) h32, h1, List.length_cons,
        show r.esp - 4 - 4 * l.length = r.esp - 4 * (l.length + 1) by omega]
    · cases i with
      | zero =>
        rw [h3 _ (by omega), Nat.zero_add, Nat.mul_one, Function.update_self]
        exact Option.some_inj.1 hv
      | succ i =>
        have hi : i < l.length := Nat.lt_of_succ_lt_succ (List.getElem?_eq_some_iff.1 hv).1
        rw [show r.esp - 4 * (i + 1 + 1) = r.esp - 4 - 4 * (i + 1) by omega]
        exact h2 i v' hv
    · rw [List.length_cons] at hx
      rw [h3 x (by omega)]
      exact Function.update_of_ne (by omega) _ _

/-- All 17 words that are pushed before `esp`. -/
theorem interruptPushes_eq (r : Regs) {line : ℕ} {code : Option ℕ}
    (h : code.isSome ↔ line ∈ errCodeLines) : ∃ c, interruptPushes r line code
      = [r.eflags, r.cs, r.eip, c, line, r.ds, r.es, r.fs, r.gs, r.ss, r.eax, r.ebx, r.ecx, r.edx, r.esi,
        r.edi, r.ebp] := by
  unfold interruptPushes
  cases code with
  | none =>
    refine ⟨0, ?_⟩
    rw [if_neg fun hl => absurd (h.2 hl) Bool.false_ne_true]
    rfl
  | some c =>
    refine ⟨c, ?_⟩
    rw [if_pos (h.1 rfl)]
    rfl

/-- The frame of `s` is there in `m`, where `l` has been written. -/
structure Entered (s m : Machine) (l : List (ℕ × ℕ)) : Prop where
  esp : m.regs.esp = s.regs.esp - 72
  slot : m.words (s.regs.esp - 72) = s.regs.esp - 68
  frame : restored m.words (s.regs.esp - 68) = s.regs
  other : ∀ x, x < s.regs.esp - 72 ∨ s.regs.esp ≤ x → m.words x = writeWords s.words l x

theorem interruptEntry_entered {s : Machine} {line : ℕ} {code : Option ℕ}
    (hcode : code.isSome ↔ line ∈ errCodeLines) (hroom : 72 ≤ s.regs.esp) (h32 : s.regs.esp < 2 ^ 32) :
    Entered s (s.interruptEntry line code) [] := by
  obtain ⟨c, hc⟩ := interruptPushes_eq s.regs hcode
  unfold interruptEntry
  rw [hc]
  obtain ⟨words, h1, h2, h3⟩ := foldl_push [s.regs.eflags, s.regs.cs, s.regs.eip, c, line, s.regs.ds,
    s.regs.es, s.regs.fs, s.regs.gs, s.regs.ss, s.regs.eax, s.regs.ebx, s.regs.ecx, s.regs.edx,
    s.regs.esi, s.regs.edi, s.regs.ebp] s.regs s.words (by simp only [List.length_cons, List.length_nil]; omega) h32
  change _ = (⟨{ s.regs with esp := s.regs.esp - 68 }, words⟩ : Machine) at h1
  change ∀ x, x < s.regs.esp - 68 ∨ s.regs.esp ≤ x → words x = s.words x at h3
  rw [h1, push_eq _ _ (by dsimp only; omega) (by dsimp only; omega)]
  dsimp only
  rw [show s.regs.esp - 68 - 4 = s.regs.esp - 72 by omega]
  refine ⟨rfl, ?_, ?_, fun x hx => ?_⟩
  · exact Function.update_self ..
  · refine restored_eq line c (by omega) fun i v hv => ?_
    have hi : i < 17 := (List.getElem?_eq_some_iff.1 hv).1
    dsimp only
    rw [Function.update_of_ne (by omega), show s.regs.esp - 68 + 4 * i = s.regs.esp - 4 * (16 - i + 1) by omega]
    refine h2 (16 - i) v ?_
    rw [← hv]
    exact (List.getElem?_reverse hi).symm
  · exact (Function.update_of_ne (by omega) _ _).trans (h3 x (by omega))

/-- What is written elsewhere leaves the frame. -/
theorem Entered.write {s m : Machine} (h : Entered s m []) {l : List (ℕ × ℕ)} (hroom : 72 ≤ s.regs.esp)
    (hl : ∀ w ∈ l, w.1 + 72 < s.regs.esp ∨ s.regs.esp ≤ w.1) : Entered s (m.write l) l := by
  have hin (x : ℕ) (h1 : s.regs.esp - 72 ≤ x) (h2 : x < s.regs.esp) : (m.write l).words x = m.words x :=
    writeWords_of_notMem fun w hw => by
      have := hl w hw
      omega
  refine ⟨h.esp, ?_, ?_, fun x hx => writeWords_congr (h.other x hx)⟩
  · rw [hin _ (by omega) (by omega)]
    exact h.slot
  · exact (restored_congr fun x h1 h2 => hin x (by omega) (by omega)).trans h.frame

/-- A return takes what is in the frame. -/
theorem interruptReturn_eq {m : Machine} {e : ℕ} (he : m.words m.regs.esp = e) (h32 : e + 68 < 2 ^ 32) :
    m.interruptReturn = ⟨restored m.words e, m.words⟩ := by
  unfold interruptReturn pop restored
  simp (disch := omega) only [he, add32_of_lt, Nat.add_assoc, Nat.reduceAdd]

end Machine

/-! ## The two machines -/

variable {τ : Type*}

/-- The stacks that are in use. -/
def ContextCpu.stacks (s : ContextCpu τ) : List (Option τ) := none :: s.threads.map some

/-- What `s` is in the ideal machine. A thread that does not run has its frame in its stack. -/
structure Corresponds (cr3 : ℕ) (s : ContextCpu τ) (a : Contexts τ) : Prop where
  regs : a.regs = s.machine.regs
  words : a.words = s.machine.words
  current : a.current = s.running
  stack : a.stack = s.stack
  active : s.firstSched = true → s.activeThread ∈ s.threads
  pgdir : s.cr3 = cr3
  activePgdir : (s.context s.activeThread).cr3 = cr3
  threadPgdir : ∀ t ∈ s.threads, (s.context t).cr3 = cr3
  fits : ∀ k ∈ s.stacks, (s.stack k).addr + (s.stack k).size < 2 ^ 32
  apart : ∀ k ∈ s.stacks, ∀ k' ∈ s.stacks, k ≠ k' → (s.stack k).addr + (s.stack k).size ≤ (s.stack k').addr
    ∨ (s.stack k').addr + (s.stack k').size ≤ (s.stack k).addr
  frame : ∀ t ∈ s.threads, some t ≠ s.running → (s.stack (some t)).addr ≤ (s.context t).esp
    ∧ (s.context t).esp + 68 ≤ (s.stack (some t)).addr + (s.stack (some t)).size
  saved : ∀ t ∈ s.threads, some t ≠ s.running → a.saved t = restored s.machine.words (s.context t).esp

namespace Corresponds

variable {cr3 : ℕ} {s : ContextCpu τ} {a : Contexts τ}

theorem mem_stacks {t : τ} (ht : t ∈ s.threads) : some t ∈ s.stacks :=
  List.mem_cons_of_mem _ (List.mem_map_of_mem ht)

theorem running_mem (h : Corresponds cr3 s a) : s.running ∈ s.stacks := by
  unfold ContextCpu.running
  split_ifs with hfirst
  · exact mem_stacks (h.active hfirst)
  · exact List.mem_cons_self

/-- The frame of a thread that does not run is not written to. -/
theorem not_written {l : List (ℕ × ℕ)} (hl : ∀ w ∈ l, s.Writable w.1) {t : τ} (ht : t ∈ s.threads)
    (hne : some t ≠ s.running) (h : Corresponds cr3 s a) {x : ℕ} (h1 : (s.context t).esp ≤ x)
    (h2 : x < (s.context t).esp + 68) : ∀ w ∈ l, w.1 ≠ x := by
  intro w hw heq
  have hframe := h.frame t ht hne
  rcases (hl w hw).2 t ht hne with hlt | hle <;> omega

theorem exec (h : Corresponds cr3 s a) {f : Regs → (ℕ → ℕ) → Regs × List (ℕ × ℕ)}
    (hok : s.Ok (.exec f)) : Corresponds cr3
      { s with machine := ⟨(f s.machine.regs s.machine.words).1,
        writeWords s.machine.words (f s.machine.regs s.machine.words).2⟩ }
      { a with regs := (f a.regs a.words).1, words := writeWords a.words (f a.regs a.words).2 } := by
  refine ⟨?_, ?_, h.current, h.stack, h.active, h.pgdir, h.activePgdir, h.threadPgdir, h.fits, h.apart,
    h.frame, fun t ht hne => ?_⟩
  · rw [h.regs, h.words]
  · rw [h.regs, h.words]
  · rw [h.saved t ht hne]
    exact restored_congr fun x h1 h2 => (writeWords_of_notMem (not_written hok ht hne h h1 h2)).symm

/-! ## Interrupts -/

/-- When the handler is called: the frames of all threads that do not run are there, and that of the one
that runs. -/
structure InHandler (cr3 : ℕ) (s : ContextCpu τ) (a : Contexts τ) (l : List (ℕ × ℕ)) (m : Machine) : Prop where
  corresponds : Corresponds cr3 s a
  room : s.HasRoom
  entered : Machine.Entered s.machine m l
  saved : ∀ t ∈ s.threads, some t ≠ s.running → a.saved t = restored m.words (s.context t).esp

theorem enter (h : Corresponds cr3 s a) {line : ℕ} {code : Option ℕ} {l : List (ℕ × ℕ)} {handler : Handler τ}
    (hok : s.Ok (.interrupt line code l handler)) :
    InHandler cr3 s a l ((s.machine.interruptEntry line code).write l) := by
  obtain ⟨hcode, hroom, hl, -⟩ := hok
  have hlow := hroom.2.1
  have hhigh := hroom.2.2
  have h32 := h.fits _ h.running_mem
  have hentered := (Machine.interruptEntry_entered hcode (by omega) (by omega)).write (by omega)
    fun w hw => (hl w hw).2
  refine ⟨h, hroom, hentered, fun t ht hne => ?_⟩
  rw [h.saved t ht hne]
  refine restored_congr fun x h1 h2 => ?_
  have hframe := h.frame t ht hne
  have hapart := h.apart _ (mem_stacks ht) _ h.running_mem hne
  rw [hentered.other x (by omega)]
  exact (writeWords_of_notMem (not_written (fun w hw => (hl w hw).1) ht hne h h1 h2)).symm

namespace InHandler

variable {l : List (ℕ × ℕ)} {m : Machine}

/-- The frame of the code that runs is in its stack, away from those of the others. -/
theorem bounds (h : InHandler cr3 s a l m) : (s.stack s.running).addr + 72 ≤ s.machine.regs.esp
    ∧ s.machine.regs.esp < 2 ^ 32
    ∧ ∀ t ∈ s.threads, some t ≠ s.running → (s.context t).esp + 68 ≤ s.machine.regs.esp - 72
      ∨ s.machine.regs.esp ≤ (s.context t).esp := by
  have hlow := h.room.2.1
  have hhigh := h.room.2.2
  have h32 := h.corresponds.fits _ h.corresponds.running_mem
  refine ⟨hlow, by omega, fun t ht hne => ?_⟩
  have hframe := h.corresponds.frame t ht hne
  have hapart := h.corresponds.apart _ (mem_stacks ht) _ h.corresponds.running_mem hne
  omega

/-- Writes to the frame of the code that runs are not to those of the others. -/
theorem restored_other (h : InHandler cr3 s a l m) {words : ℕ → ℕ}
    (hw : ∀ x, x < s.machine.regs.esp - 72 ∨ s.machine.regs.esp ≤ x → words x = m.words x) {t : τ}
    (ht : t ∈ s.threads) (hne : some t ≠ s.running) : a.saved t = restored words (s.context t).esp := by
  rw [h.saved t ht hne]
  have hbounds := h.bounds.2.2 t ht hne
  exact restored_congr fun x h1 h2 => (hw x (by omega)).symm

/-- What the ideal machine says of the words. -/
theorem words_eq (h : InHandler cr3 s a l m) {words : ℕ → ℕ}
    (hw : ∀ x, x < s.machine.regs.esp - 72 ∨ s.machine.regs.esp ≤ x → words x = m.words x) (x : ℕ)
    (hx : x < (a.stack a.current).addr ∨ a.regs.esp ≤ x) : words x = writeWords a.words l x := by
  have hlow := h.bounds.1
  rw [h.corresponds.stack, h.corresponds.current, h.corresponds.regs] at hx
  rw [h.corresponds.words, hw x (by omega)]
  exact h.entered.other x (by omega)

/-- The code that was interrupted goes on. -/
theorem resume (h : InHandler cr3 s a l m) (regs : Regs) {words : ℕ → ℕ}
    (hw : ∀ x, x < s.machine.regs.esp - 72 ∨ s.machine.regs.esp ≤ x → words x = m.words x) :
    Corresponds cr3 { s with machine := ⟨regs, words⟩ } { a with regs := regs, words := words } :=
  ⟨rfl, rfl, h.corresponds.current, h.corresponds.stack, h.corresponds.active, h.corresponds.pgdir,
    h.corresponds.activePgdir, h.corresponds.threadPgdir, h.corresponds.fits, h.corresponds.apart, h.corresponds.frame,
    fun _ ht hne => h.restored_other hw ht hne⟩

theorem other (h : InHandler cr3 s a l m) : m.interruptReturn = ⟨a.regs, m.words⟩ := by
  obtain ⟨hlow, h32, -⟩ := h.bounds
  have hslot : m.words m.regs.esp = s.machine.regs.esp - 68 := by
    rw [h.entered.esp]
    exact h.entered.slot
  rw [Machine.interruptReturn_eq hslot (by omega), h.entered.frame, h.corresponds.regs]

theorem setNextInstruction (h : InHandler cr3 s a l m) (nextInst : ℕ) :
    (m.write [(add32 m.regs.esp 60, nextInst)]).interruptReturn
      = ⟨{ a.regs with eip := nextInst }, Function.update m.words (s.machine.regs.esp - 12) nextInst⟩ := by
  obtain ⟨hlow, h32, -⟩ := h.bounds
  have haddr : add32 m.regs.esp 60 = s.machine.regs.esp - 12 := by
    rw [h.entered.esp, add32_of_lt (by omega)]
    omega
  rw [haddr]
  have hslot : (m.write [(s.machine.regs.esp - 12, nextInst)]).words m.regs.esp
      = s.machine.regs.esp - 68 := by
    rw [h.entered.esp]
    exact (Function.update_of_ne (by omega) _ _).trans h.entered.slot
  have hregs : restored (Function.update m.words (s.machine.regs.esp - 12) nextInst)
      (s.machine.regs.esp - 68) = { s.machine.regs with eip := nextInst } := by
    rw [show s.machine.regs.esp - 12 = s.machine.regs.esp - 68 + 56 by omega, restored_update_eip,
      h.entered.frame]
  rw [Machine.interruptReturn_eq hslot (by omega), h.corresponds.regs, ← hregs]
  rfl

variable [DecidableEq τ]

/-- After `cpu_save_context` each thread has its frame, also the one that was interrupted. -/
theorem saveContext (h : InHandler cr3 s a l m) (elected : τ) {t : τ} (ht : t ∈ s.threads) {context : τ → CpuContext}
    (hcontext : context = (ContextCpu.cpuSaveContext { s with machine := m } m.regs.esp).context)
    {words : ℕ → ℕ} (hw : ∀ x, x ≠ s.machine.regs.esp - 72 → words x = m.words x) :
    (context t).cr3 = cr3 ∧ (s.stack (some t)).addr ≤ (context t).esp
      ∧ (context t).esp + 68 ≤ (s.stack (some t)).addr + (s.stack (some t)).size
      ∧ (a.switch elected).saved t = restored words (context t).esp := by
  obtain ⟨hlow, h32, -⟩ := h.bounds
  have hcur := h.corresponds.current
  have hother (hne : some t ≠ s.running) := h.restored_other
    (fun x hx => hw x (by omega)) ht hne
  subst hcontext
  unfold ContextCpu.running at hcur hother
  unfold ContextCpu.cpuSaveContext Contexts.switch
  rw [hcur]
  cases hfirst : s.firstSched with
  | false =>
    rw [hfirst] at hother
    have hne : some t ≠ s.running := by
      unfold ContextCpu.running
      rw [hfirst]
      exact fun h => Option.some_ne_none _ h
    obtain ⟨h1, h2⟩ := h.corresponds.frame t ht hne
    exact ⟨h.corresponds.threadPgdir t ht, h1, h2, hother nofun⟩
  | true =>
    have hrun : s.running = some s.activeThread := by
      unfold ContextCpu.running
      rw [hfirst]
      rfl
    by_cases htc : t = s.activeThread
    · have hroom := h.room
      unfold ContextCpu.HasRoom at hroom
      rw [hrun, ← htc] at hroom
      have hslot : m.words m.regs.esp = s.machine.regs.esp - 68 := by
        rw [h.entered.esp]
        exact h.entered.slot
      have hframe : restored words (s.machine.regs.esp - 68) = s.machine.regs :=
        (restored_congr fun x h1 h2 => hw x (by omega)).trans h.entered.frame
      subst htc
      simp only [↓reduceIte, Function.update_self, hslot, hframe]
      exact ⟨h.corresponds.threadPgdir _ ht, by omega, by omega, h.corresponds.regs⟩
    · have hne : some t ≠ s.running := by
        rw [hrun]
        exact fun h => htc (Option.some_inj.1 h)
      obtain ⟨h1, h2⟩ := h.corresponds.frame t ht hne
      rw [hfirst] at hother
      simp only [↓reduceIte, Function.update_of_ne htc]
      exact ⟨h.corresponds.threadPgdir t ht, h1, h2, hother (fun h => htc (Option.some_inj.1 h))⟩

/-- Another thread goes on. The one that was interrupted has its frame for the next time. -/
theorem schedule (h : InHandler cr3 s a l m) {t : τ} (ht : t ∈ s.threads) {s' : ContextCpu τ}
    (hs' : ContextCpu.scheduleInt { s with machine := m } m.regs.esp t = s') :
    ∃ words, (∀ x, x < s.machine.regs.esp - 72 ∨ s.machine.regs.esp ≤ x → words x = m.words x)
      ∧ Corresponds cr3 { s' with machine := s'.machine.interruptReturn }
        { a.switch t with words := words } := by
  obtain ⟨hlow, h32, -⟩ := h.bounds
  set context := (ContextCpu.cpuSaveContext { s with machine := m } m.regs.esp).context with hcontext
  set words := Function.update m.words (s.machine.regs.esp - 72) (context t).esp with hwords
  have hw (x : ℕ) (hx : x ≠ s.machine.regs.esp - 72) : words x = m.words x := Function.update_of_ne hx _ _
  have hsaved (t' : τ) (ht' : t' ∈ s.threads) := h.saveContext t ht' hcontext hw
  obtain ⟨hpgdir, -, htop, hregs⟩ := hsaved t ht
  have h32' := h.corresponds.fits _ (mem_stacks ht)
  have hs : s' = ⟨⟨m.regs, words⟩, cr3, t, true, context, s.threads, s.stack⟩ := by
    rw [← hs', ← hpgdir, hwords, ← h.entered.esp, hcontext]
    unfold ContextCpu.scheduleInt ContextCpu.cpuSaveContext
    cases s.firstSched <;> rfl
  have hret : (Machine.mk m.regs words).interruptReturn = ⟨restored words (context t).esp, words⟩ := by
    refine Machine.interruptReturn_eq ?_ (by omega)
    dsimp only
    rw [h.entered.esp]
    exact Function.update_self ..
  refine ⟨words, fun x hx => hw x (by omega), ?_⟩
  rw [hs]
  dsimp only
  rw [hret]
  refine ⟨?_, rfl, rfl, h.corresponds.stack, fun _ => ht, rfl, hpgdir, fun t' ht' => (hsaved t' ht').1, h.corresponds.fits,
    h.corresponds.apart, fun t' ht' _ => ⟨(hsaved t' ht').2.1, (hsaved t' ht').2.2.1⟩,
    fun t' ht' _ => (hsaved t' ht').2.2.2⟩
  exact hregs

end InHandler

/-! ## Threads -/

/-- The frame that a new thread is given. -/
theorem firstFrame {stack : Block} (hsize : stack.size % 4 = 0) (hroom : 72 ≤ stack.size)
    (h32 : stack.addr + stack.size < 2 ^ 32) {entryPoint freeTablePage : ℕ} (words : ℕ → ℕ)
    {r : CpuContext × List (ℕ × ℕ)}
    (hr : cpuInitThreadContext entryPoint (stack.size / 4) freeTablePage cr3 stack.addr = r)
    {words' : ℕ → ℕ} (hwords : words'
      = writeWords words (r.2.map fun w => (add32 stack.addr (mul32 sizeofUintptr w.1), w.2))) :
    r.1.cr3 = cr3 ∧ r.1.esp + 68 = stack.addr + stack.size
      ∧ (∀ x, x < stack.addr ∨ stack.addr + stack.size ≤ x → words' x = words x)
      ∧ restored words' r.1.esp = Contexts.firstRegs entryPoint stack := by
  have hindex : stack.size / 4 * 4 = stack.size := Nat.div_mul_cancel (Nat.dvd_of_mod_eq_zero hsize)
  have haddr (k : ℕ) (hk : k ≤ 18) : add32 stack.addr (mul32 sizeofUintptr (sub32 (stack.size / 4) k))
      = stack.addr + stack.size - 4 * k := by
    have hmul : 4 * (stack.size / 4 - k) < 2 ^ 32 := by omega
    rw [sub32_of_le (by omega) (by omega), mul32, Nat.mod_eq_of_lt hmul, add32_of_lt (by omega)]
    omega
  have hesp : r.1.esp = stack.addr + stack.size - 4 * 17 := by
    rw [← hr]
    exact haddr 17 (by decide)
  -- from `ebp` up, and below it the word that is not read
  set values : List ℕ := [stack.addr + stack.size - 4 * 1, 0, 0, 0, 0, 0, 0, 0x10, 0x10, 0x10, 0x10, 0x10, 0, 0,
    entryPoint, 0x08, 0x202]
  set frame := values.reverse.zipIdx 1 ++ [(r.1.esp, 18)] with hframe
  have hindices : frame.map Prod.snd = List.range' 1 18 := rfl
  have hwords' : words' = writeWords words
      (frame.map fun w : ℕ × ℕ => (stack.addr + stack.size - 4 * w.2, w.1)) := by
    rw [hwords, hframe, hesp, ← hr]
    unfold cpuInitThreadContext
    simp (disch := decide) only [List.map_cons, List.map_nil, haddr]
    rfl
  refine ⟨by rw [← hr]; rfl, by omega, fun x hx => ?_, ?_⟩
  · rw [hwords']
    refine writeWords_of_notMem fun w hw => ?_
    obtain ⟨w', hw', rfl⟩ := List.mem_map.1 hw
    have hmem : w'.2 ∈ List.range' 1 18 := hindices ▸ List.mem_map_of_mem hw'
    obtain ⟨h1, h2⟩ := List.mem_range'_1.1 hmem
    dsimp only
    omega
  · refine restored_eq 0 0 (by dsimp only [Contexts.firstRegs]; omega) fun i v hv => ?_
    have hi : i < 17 := (List.getElem?_eq_some_iff.1 hv).1
    rw [hwords', hesp]
    refine writeWords_of_mem ?_ (List.mem_map.2 ⟨(v, 17 - i), ?_, ?_⟩)
    · rw [List.map_map, show (Prod.fst ∘ fun w : ℕ × ℕ => (stack.addr + stack.size - 4 * w.2, w.1))
        = (fun k => stack.addr + stack.size - 4 * k) ∘ Prod.snd from rfl, ← List.map_map, hindices]
      refine List.Nodup.map_on (fun k hk k' hk' heq => ?_) List.nodup_range'
      have h1 := List.mem_range'_1.1 hk
      have h2 := List.mem_range'_1.1 hk'
      omega
    · refine List.mem_append_left _ (List.mk_mem_zipIdx_iff_le_and_getElem?_sub.2 ⟨by omega, ?_⟩)
      have hlen : 17 - i - 1 + i + 1 = values.length := show 17 - i - 1 + i + 1 = 17 by omega
      exact (List.getElem?_reverse' hlen).trans hv
    · refine Prod.ext ?_ rfl
      dsimp only
      omega

variable [DecidableEq τ]

theorem createThread (h : Corresponds cr3 s a) {t : τ} {stack : Block} (entryPoint freeTablePage : ℕ)
    (ht : t ∉ s.threads) (hnew : s.NewStack stack) :
    ∃ words, (∀ x, x < stack.addr ∨ stack.addr + stack.size ≤ x → words x = a.words x)
      ∧ Corresponds cr3 (s.createThread t stack entryPoint freeTablePage cr3)
        { a.addThread t stack entryPoint with words := words } := by
  obtain ⟨-, hsize, hroom, h32, hapart⟩ := hnew
  obtain ⟨hpgdir, htop, hout, hregs⟩ := firstFrame hsize hroom h32 s.machine.words
    (r := cpuInitThreadContext entryPoint (stack.size / 4) freeTablePage cr3 stack.addr) rfl rfl
  have hlow : stack.addr
      ≤ (cpuInitThreadContext entryPoint (stack.size / 4) freeTablePage cr3 stack.addr).1.esp := by omega
  have hstacks (k : Option τ) (hk : k ∈ (s.createThread t stack entryPoint freeTablePage cr3).stacks) :
      k = some t ∨ k ≠ some t ∧ k ∈ s.stacks := by
    rcases List.mem_cons.1 hk with rfl | hk
    · exact .inr ⟨nofun, List.mem_cons_self⟩
    · obtain ⟨t', ht', rfl⟩ := List.mem_map.1 hk
      rcases List.mem_cons.1 ht' with rfl | ht'
      · exact .inl rfl
      · exact .inr ⟨fun heq => ht (Option.some_inj.1 heq ▸ ht'), mem_stacks ht'⟩
  have hstack : (s.createThread t stack entryPoint freeTablePage cr3).stack (some t) = stack :=
    Function.update_self ..
  have hother (k : Option τ) (hk : k ≠ some t) :
      (s.createThread t stack entryPoint freeTablePage cr3).stack k = s.stack k := Function.update_of_ne hk _ _
  have hold (t' : τ) (ht' : t' ∈ s.threads) : t' ≠ t := fun heq => ht (heq ▸ ht')
  have hcontext (t' : τ) (ht' : t' ≠ t) : (s.createThread t stack entryPoint freeTablePage cr3).context t'
      = s.context t' := Function.update_of_ne ht' _ _
  refine ⟨_, fun x hx => (hout x hx).trans (congrFun h.words x).symm, h.regs, rfl, h.current, ?_,
    fun hfirst => List.mem_cons_of_mem t (h.active hfirst), h.pgdir, ?_, fun t' ht' => ?_, fun k hk => ?_,
    fun k hk k' hk' hne => ?_, fun t' ht' hne => ?_, fun t' ht' hne => ?_⟩
  · exact congrArg (fun f => Function.update f (some t) stack) h.stack
  · by_cases heq : s.activeThread = t
    · change (Function.update s.context t _ s.activeThread).cr3 = cr3
      rw [heq, Function.update_self]
    · exact (congrArg CpuContext.cr3 (hcontext _ heq)).trans h.activePgdir
  · rcases List.mem_cons.1 ht' with rfl | ht'
    · exact (congrArg CpuContext.cr3 (Function.update_self ..)).trans hpgdir
    · rw [hcontext t' (hold t' ht')]
      exact h.threadPgdir t' ht'
  · rcases hstacks k hk with rfl | ⟨hkt, hk⟩
    · rw [hstack]
      exact h32
    · rw [hother k hkt]
      exact h.fits k hk
  · rcases hstacks k hk with rfl | ⟨hkt, hk⟩ <;> rcases hstacks k' hk' with rfl | ⟨hkt', hk'⟩
    · exact absurd rfl hne
    · rw [hstack, hother k' hkt']
      exact hapart k' hk'
    · rw [hstack, hother k hkt]
      exact (hapart k hk).symm
    · rw [hother k hkt, hother k' hkt']
      exact h.apart k hk k' hk' hne
  · rcases List.mem_cons.1 ht' with rfl | ht'
    · rw [hstack]
      change _ ≤ (Function.update s.context t' _ t').esp ∧ (Function.update s.context t' _ t').esp + 68 ≤ _
      rw [Function.update_self]
      exact ⟨hlow, htop.le⟩
    · rw [hother _ fun heq => hold t' ht' (Option.some_inj.1 heq), hcontext t' (hold t' ht')]
      exact h.frame t' ht' hne
  · rcases List.mem_cons.1 ht' with rfl | ht'
    · change Function.update a.saved t' _ t' = restored _ (Function.update s.context t' _ t').esp
      rw [Function.update_self, Function.update_self]
      exact hregs.symm
    · rw [hcontext t' (hold t' ht')]
      refine ((Function.update_of_ne (hold t' ht') _ _).trans (h.saved t' ht' hne)).trans ?_
      have hframe := h.frame t' ht' hne
      have hdisjoint := hapart _ (mem_stacks ht')
      exact restored_congr fun x h1 h2 => (hout x (by omega)).symm

theorem free (h : Corresponds cr3 s a) {t : τ} (ht : t ≠ s.activeThread) :
    Corresponds cr3 { s with threads := s.threads.erase t } a := by
  have hsub (t' : τ) (h' : t' ∈ s.threads.erase t) : t' ∈ s.threads := List.mem_of_mem_erase h'
  have hstacks (k : Option τ) (hk : k ∈ ContextCpu.stacks { s with threads := s.threads.erase t }) :
      k ∈ s.stacks := by
    rcases List.mem_cons.1 hk with rfl | hk
    · exact List.mem_cons_self
    · obtain ⟨t', ht', rfl⟩ := List.mem_map.1 hk
      exact mem_stacks (hsub t' ht')
  exact ⟨h.regs, h.words, h.current, h.stack,
    fun hfirst => (List.mem_erase_of_ne ht.symm).2 (h.active hfirst), h.pgdir, h.activePgdir,
    fun t' ht' => h.threadPgdir t' (hsub t' ht'), fun k hk => h.fits k (hstacks k hk),
    fun k hk k' hk' => h.apart k (hstacks k hk) k' (hstacks k' hk'),
    fun t' ht' => h.frame t' (hsub t' ht'), fun t' ht' => h.saved t' (hsub t' ht')⟩

/-- A step of the machine is a step of the ideal one. -/
theorem step (h : Corresponds cr3 s a) : ∀ {e : ContextEv τ} {s' : ContextCpu τ}, s.Ok e →
    s.step e = some s' → ∃ a', a.Step e a' ∧ Corresponds cr3 s' a'
  | .exec f, _, hok, rfl => ⟨_, rfl, h.exec hok⟩
  | .interrupt line code l handler, _, hok, rfl => by
    have hin := h.enter hok
    cases handler with
    | schedule t =>
      obtain ⟨words, hw, hc⟩ := hin.schedule hok.2.2.2 rfl
      exact ⟨_, ⟨words, rfl, hin.words_eq hw⟩, hc⟩
    | setNextInstruction nextInst =>
      have hlow := hin.bounds.1
      have hw (x : ℕ) (hx : x < s.machine.regs.esp - 72 ∨ s.machine.regs.esp ≤ x) :
          Function.update ((s.machine.interruptEntry line code).write l).words (s.machine.regs.esp - 12)
            nextInst x = ((s.machine.interruptEntry line code).write l).words x :=
        Function.update_of_ne (by omega) _ _
      have hc := hin.resume { a.regs with eip := nextInst } hw
      rw [← hin.setNextInstruction] at hc
      exact ⟨_, ⟨_, rfl, hin.words_eq hw⟩, hc⟩
    | other =>
      have hc := hin.resume a.regs fun _ _ => rfl
      rw [← hin.other] at hc
      exact ⟨_, ⟨_, rfl, hin.words_eq fun _ _ => rfl⟩, hc⟩
  | .create t stack entryPoint, _, hok, rfl => by
    obtain ⟨words, hw, hc⟩ := h.createThread entryPoint (s.context s.activeThread).freePageTable hok.1 hok.2
    refine ⟨_, ⟨words, rfl, hw⟩, ?_⟩
    rw [h.activePgdir]
    exact hc
  | .free t, _, hok, rfl => ⟨a, rfl, h.free hok⟩

end Corresponds

/-! ## Runs -/

variable [DecidableEq τ]

/-- A thread that is not elected keeps its registers in the ideal machine. -/
theorem Contexts.runs_saved {t : τ} : ∀ {es : List (ContextEv τ)} {a a' : Contexts τ}, Runs Contexts.Step a es a' →
    a.current ≠ some t → (∀ e ∈ es, ¬ e.Concerns t) → a'.saved t = a.saved t ∧ a'.current ≠ some t
  | [], _, _, rfl, hne, _ => ⟨rfl, hne⟩
  | e :: es, a, a', ⟨b, hb, hrun⟩, hne, hes => by
    have he := hes e List.mem_cons_self
    have hstep : b.saved t = a.saved t ∧ b.current ≠ some t := by
      cases e with
      | exec f =>
        subst hb
        exact ⟨rfl, hne⟩
      | interrupt line code l handler =>
        obtain ⟨words, rfl, -⟩ := hb
        cases handler with
        | schedule u =>
          refine ⟨?_, fun heq => he (Option.some_inj.1 heq)⟩
          unfold Contexts.handle Contexts.switch
          cases hcur : a.current with
          | none => rfl
          | some c => exact Function.update_of_ne (fun heq => hne (hcur.trans (congrArg some heq.symm))) _ _
        | setNextInstruction nextInst => exact ⟨rfl, hne⟩
        | other => exact ⟨rfl, hne⟩
      | create u stack entryPoint =>
        obtain ⟨words, rfl, -⟩ := hb
        exact ⟨Function.update_of_ne (fun heq => he heq.symm) _ _, hne⟩
      | free u =>
        subst hb
        exact ⟨rfl, hne⟩
    obtain ⟨h1, h2⟩ := runs_saved hrun hstep.2 fun e' he' => hes e' (List.mem_cons_of_mem e he')
    exact ⟨h1.trans hstep.1, h2⟩

section Runs

variable {machine : Machine} {cr3 : ℕ} {bootStack : Block} {idle : τ}

omit [DecidableEq τ] in
theorem boot_corresponds (hboot : bootStack.addr + bootStack.size < 2 ^ 32) (saved : τ → Regs) :
    Corresponds cr3 (ContextCpu.boot machine cr3 bootStack idle) (Contexts.boot machine bootStack saved) := by
  have honly (k : Option τ) (hk : k ∈ (ContextCpu.boot machine cr3 bootStack idle).stacks) : k = none :=
    List.mem_singleton.1 hk
  refine ⟨rfl, rfl, rfl, rfl, nofun, rfl, rfl, nofun, fun k hk => ?_, fun k hk k' hk' hne => ?_, nofun, nofun⟩
  · rw [honly k hk]
    exact hboot
  · exact absurd ((honly k hk).trans (honly k' hk').symm) hne

/-- A run of the CPU is one of the ideal machine. -/
theorem Corresponds.run {s s' : ContextCpu τ} {a : Contexts τ} (h : Corresponds cr3 s a) {es : List (ContextEv τ)}
    (hrun : runEvents (guarded ContextCpu.step ContextCpu.Ok) s es = some s') :
    ∃ a', Runs Contexts.Step a es a' ∧ Corresponds cr3 s' a' :=
  runs_of_guarded (R := Corresponds cr3) (fun _ _ e _ h hok hs => h.step (e := e) hok hs) h hrun

/-- Every run of the CPU is one of the ideal machine, where each thread has its own registers. -/
theorem contextCpu_run (hboot : bootStack.addr + bootStack.size < 2 ^ 32) {es : List (ContextEv τ)}
    {s : ContextCpu τ} (hrun : runEvents (guarded ContextCpu.step ContextCpu.Ok)
      (ContextCpu.boot machine cr3 bootStack idle) es = some s) (saved : τ → Regs) :
    ∃ a, Runs Contexts.Step (Contexts.boot machine bootStack saved) es a
      ∧ a.regs = s.machine.regs ∧ a.words = s.machine.words ∧ a.current = s.running ∧ s.cr3 = cr3 := by
  obtain ⟨a, ha, h⟩ := (boot_corresponds hboot saved).run hrun
  exact ⟨a, ha, h.regs, h.words, h.current, h.pgdir⟩

/-- The idle thread and another one, which sets `eax` and a word of its stack and is preempted. The idle
thread sets `eax` too, and the other one is elected again. -/
def preempted : List (ContextEv Bool) :=
  [.create false ⟨0x2000, 0x100⟩ 0x500, .create true ⟨0x3000, 0x100⟩ 0x600,
    .interrupt 0x21 none [] (.schedule true),
    .exec fun r _ => ({ r with eax := 7, esp := r.esp - 4 }, [(r.esp - 4, 11)]),
    .interrupt 0x40 none [(0x4000, 1)] (.schedule false),
    .exec fun r _ => ({ r with eax := 9 }, [(0x4000, 2)]),
    .interrupt 0x40 none [(0x2080, 1)] (.schedule true)]

theorem contextCpu_run_preempted : ∃ s a, runEvents (guarded ContextCpu.step ContextCpu.Ok)
      (ContextCpu.boot ⟨Contexts.firstRegs 0x100 ⟨0x1000, 0x100⟩, fun _ => 0⟩ 0x9000 ⟨0x1000, 0x100⟩ false)
      preempted = some s
    ∧ Runs Contexts.Step (Contexts.boot ⟨Contexts.firstRegs 0x100 ⟨0x1000, 0x100⟩, fun _ => 0⟩
      ⟨0x1000, 0x100⟩ fun _ => Contexts.firstRegs 0 ⟨0, 4⟩) preempted a
    ∧ a.regs = s.machine.regs ∧ s.machine.regs.eax = 7 ∧ s.machine.words s.machine.regs.esp = 11 := by
  have h : ((runEvents (guarded ContextCpu.step ContextCpu.Ok) (ContextCpu.boot
      ⟨Contexts.firstRegs 0x100 ⟨0x1000, 0x100⟩, fun _ => 0⟩ 0x9000 ⟨0x1000, 0x100⟩ false) preempted).map
      fun s => (s.machine.regs.eax, s.machine.words s.machine.regs.esp)) = some (7, 11) := by decide +kernel
  obtain ⟨s, hs, heq⟩ := Option.map_eq_some_iff.1 h
  obtain ⟨a, ha, hregs, -⟩ := contextCpu_run (by decide) hs fun _ => Contexts.firstRegs 0 ⟨0, 4⟩
  exact ⟨s, a, hs, ha, hregs, congrArg Prod.fst heq, congrArg Prod.snd heq⟩

/-- A thread that is preempted goes on, when it is elected the next time, with the registers it had. -/
theorem contextCpu_resumes (hboot : bootStack.addr + bootStack.size < 2 ^ 32) {es es' : List (ContextEv τ)}
    {s s' : ContextCpu τ} {t u : τ} (hrun : runEvents (guarded ContextCpu.step ContextCpu.Ok)
      (ContextCpu.boot machine cr3 bootStack idle) es = some s) (ht : s.running = some t) (hu : u ≠ t)
    (hes : ∀ e ∈ es', ¬ e.Concerns t) {line line' : ℕ} {code code' : Option ℕ} {l l' : List (ℕ × ℕ)}
    (hrun' : runEvents (guarded ContextCpu.step ContextCpu.Ok) s
      (.interrupt line code l (.schedule u) :: (es' ++ [.interrupt line' code' l' (.schedule t)])) = some s') :
    s'.machine.regs = s.machine.regs := by
  obtain ⟨a, -, h⟩ := (boot_corresponds hboot fun _ => machine.regs).run hrun
  obtain ⟨a', ⟨b, ⟨words, rfl, -⟩, hb⟩, h'⟩ := h.run hrun'
  obtain ⟨c, hc, d, ⟨words', rfl, -⟩, rfl⟩ := hb.split
  have hcur : a.current = some t := h.current.trans ht
  obtain ⟨hsaved, hne⟩ := Contexts.runs_saved hc (fun heq => hu (Option.some_inj.1 heq)) hes
  have hfirst : (a.switch u).saved t = a.regs := by
    unfold Contexts.switch
    rw [hcur]
    exact Function.update_self ..
  have hlast : (c.switch t).regs = c.saved t := by
    unfold Contexts.switch
    cases hcc : c.current with
    | none => rfl
    | some v => exact Function.update_of_ne (fun heq => hne (hcc.trans (congrArg some heq.symm))) _ _
  calc s'.machine.regs = (c.switch t).regs := h'.regs.symm
    _ = (a.switch u).saved t := hlast.trans hsaved
    _ = s.machine.regs := hfirst.trans h.regs

end Runs

end RTLKIM
