import Mathlib.Logic.Function.Basic

/-!
# The SSE registers across context switches

`cpu_restore_context` and `sse_use_exception_handler` on one CPU. A thread that is switched to finds
CR0.TS set, so its first use of an SSE register raises the exception that the handler serves.
`fxsave` stores the registers in the area of a thread. The registers are named by `ι`.
-/

namespace RTLKIM

/-- The SSE registers, CR0.TS, `sse_save_region` of the CPU, the area in `thread_storage` of each
thread, and the thread that runs. -/
structure SseCpu (τ ι ρ : Type*) where
  regs : ι → ρ
  ts : Bool
  saveRegion : Option τ
  storage : τ → ι → ρ
  current : τ

inductive SseEv (τ ι ρ : Type*)
  | switch (t : τ)
  | write (i : ι) (v : ρ)
  | read (i : ι)

namespace SseCpu

variable {τ ι ρ : Type*} [DecidableEq τ] [DecidableEq ι]

/-- `fxsave` to the area of `t`. -/
def fxsave (s : SseCpu τ ι ρ) (t : τ) : SseCpu τ ι ρ :=
  { s with storage := Function.update s.storage t s.regs }

/-- `sse_use_exception_handler`. -/
def sseUseExceptionHandler (s : SseCpu τ ι ρ) : SseCpu τ ι ρ :=
  let s := { s with ts := false }
  -- the areas of both saves are those of the thread that runs
  let s := if s.saveRegion ≠ none ∧ s.saveRegion ≠ some s.current then s.fxsave s.current else s
  if s.saveRegion ≠ some s.current then { s.fxsave s.current with saveRegion := some s.current }
  else s

/-- `cpu_restore_context` for `t`. -/
def cpuRestoreContext (s : SseCpu τ ι ρ) (t : τ) : SseCpu τ ι ρ :=
  { s with current := t, ts := true }

/-- An SSE instruction, up to what it does to the registers. -/
def useSse (s : SseCpu τ ι ρ) : SseCpu τ ι ρ := if s.ts then s.sseUseExceptionHandler else s

def step (s : SseCpu τ ι ρ) : SseEv τ ι ρ → SseCpu τ ι ρ
  | .switch t => s.cpuRestoreContext t
  | .write i v => { s.useSse with regs := Function.update s.useSse.regs i v }
  | .read _ => s.useSse

def run (s : SseCpu τ ι ρ) (es : List (SseEv τ ι ρ)) : SseCpu τ ι ρ := es.foldl step s

/-- What a read of `i` gives. -/
def observed (s : SseCpu τ ι ρ) (i : ι) : ρ := s.useSse.regs i

end SseCpu

/-! ## What each thread wrote -/

/-- The thread that runs, what was last written to each register, and what each thread last wrote to
it. -/
structure SseHistory (τ ι ρ : Type*) where
  current : τ
  last : ι → Option ρ
  own : τ → ι → Option ρ

namespace SseHistory

variable {τ ι ρ : Type*} [DecidableEq τ] [DecidableEq ι]

def step (h : SseHistory τ ι ρ) : SseEv τ ι ρ → SseHistory τ ι ρ
  | .switch t => { h with current := t }
  | .write i v =>
    { h with
      last := Function.update h.last i (some v)
      own := Function.update h.own h.current (Function.update (h.own h.current) i (some v)) }
  | .read _ => h

/-- The history of a run that starts in `t`. -/
def ofRun (t : τ) (es : List (SseEv τ ι ρ)) : SseHistory τ ι ρ :=
  es.foldl step ⟨t, fun _ => none, fun _ _ => none⟩

end SseHistory

/-- A thread that reads a register it has written observes what it last wrote to it. -/
def SseCpu.Transparent {τ ι ρ : Type*} [DecidableEq τ] [DecidableEq ι] (s : SseCpu τ ι ρ)
    (es : List (SseEv τ ι ρ)) : Prop :=
  ∀ (u : List (SseEv τ ι ρ)) (i : ι) (v : List (SseEv τ ι ρ)), es = u ++ .read i :: v →
    ∀ x, (SseHistory.ofRun s.current u).own (SseHistory.ofRun s.current u).current i = some x →
      (s.run u).observed i = x

end RTLKIM
