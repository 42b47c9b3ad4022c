import RTLKIM.Lib.Word
import RTLKIM.Lib.Run

/-!
# The start of the other CPUs

`cpu_smp_init` on the main CPU, and on each other one the loader `__ap_loader_pm` with
`cpu_ap_core_init` up to the scheduler. The main CPU sends INIT and STARTUP to one CPU after the other;
a CPU that waits for STARTUP starts with it if it comes through, and any other ignores it; INIT makes a
CPU wait for STARTUP whatever it is doing. Each step is one access to what the CPUs share; how long a wait
with the timer is does not matter. All CPUs have a LAPIC of the ACPI tables, so the calls that send do not
fail.
-/

namespace RTLKIM

/-- Where the main CPU is in `cpu_smp_init`, with `i` and `current_cpu_init`. -/
inductive SmpMain
  | head (i : ℕ)
  | init (i current : ℕ)
  | startup (i current : ℕ)
  | check (i current : ℕ)
  | second (i current : ℕ)
  | wait (i current : ℕ)
  | finish
  | all
  | done
  deriving DecidableEq

/-- Where another CPU is, with the index of its stack from when it has one: in the loader, in
`cpu_ap_core_init` before and in the increment of `init_cpu_count`, in the wait for `init_seq_end`, and
past it. -/
inductive SmpAp
  | off
  | waitStartup
  | loader
  | core (stack : ℕ)
  | count (stack initCpuCount : ℕ)
  | spin (stack : ℕ)
  | sched (stack : ℕ)
  deriving DecidableEq

namespace SmpAp

def stack : SmpAp → Option ℕ
  | .core stack | .count stack _ | .spin stack | .sched stack => some stack
  | _ => none

/-- It has had INIT, and is not in `init_cpu_count` yet. -/
def Starting : SmpAp → Prop
  | .waitStartup | .loader | .core _ | .count _ _ => True
  | _ => False

/-- It is in `init_cpu_count`. -/
def Counted : SmpAp → Prop
  | .spin _ | .sched _ => True
  | _ => False

/-- It is in the scheduler. -/
def Scheduled : SmpAp → Prop
  | .sched _ => True
  | _ => False

instance : DecidablePred Starting := fun c => by cases c <;> unfold Starting <;> infer_instance

instance : DecidablePred Counted := fun c => by cases c <;> unfold Counted <;> infer_instance

/-- What STARTUP does. -/
def startup : SmpAp → SmpAp
  | .waitStartup => .loader
  | c => c

end SmpAp

/-- What the CPUs share, and where each of them is. -/
structure SmpBoot where
  initCpuCount : ℕ
  initSeqEnd : Bool
  main : SmpMain
  ap : ℕ → SmpAp

/-- A step of the main CPU, in which a STARTUP that it sends comes through or is lost, or one of another
CPU. -/
inductive SmpEv
  | main
  | lost
  | ap (k : ℕ)
  deriving DecidableEq

namespace SmpBoot

/-- `kinit.S` counts the main CPU. -/
def start : SmpBoot := ⟨1, false, .head 0, fun _ => .off⟩

section Step

variable (cpuCount mainCoreId : ℕ)

/-- `lapic_send_ipi_startup`. -/
def sendStartup (s : SmpBoot) (lost : Bool) (i : ℕ) : SmpBoot :=
  if lost then s else { s with ap := Function.update s.ap i (s.ap i).startup }

/-- `cpu_smp_init`. -/
def stepMain (lost : Bool) (s : SmpBoot) : SmpBoot :=
  match s.main with
  | .head i =>
    if i < cpuCount then
      if i = mainCoreId then { s with main := .head (i + 1) }
      else { s with main := .init i s.initCpuCount }
    else { s with main := .finish }
  | .init i current =>
    { s with ap := Function.update s.ap i .waitStartup, main := .startup i current }
  | .startup i current => { s.sendStartup lost i with main := .check i current }
  | .check i current =>
    if current = s.initCpuCount then { s with main := .second i current }
    else { s with main := .wait i current }
  | .second i current => { s.sendStartup lost i with main := .wait i current }
  | .wait i current =>
    if current = s.initCpuCount then s else { s with main := .head (i + 1) }
  | .finish => { s with initSeqEnd := true, main := .all }
  | .all => if s.initCpuCount < cpuCount then s else { s with main := .done }
  | .done => s

/-- The loader takes the stack that `init_cpu_count` says. -/
def stepAp (s : SmpBoot) (k : ℕ) : SmpBoot :=
  match s.ap k with
  | .loader => { s with ap := Function.update s.ap k (.core s.initCpuCount) }
  | .core stack => { s with ap := Function.update s.ap k (.count stack s.initCpuCount) }
  | .count stack initCpuCount =>
    { s with
      initCpuCount := add32 initCpuCount 1
      ap := Function.update s.ap k (.spin stack) }
  | .spin stack =>
    if s.initSeqEnd then { s with ap := Function.update s.ap k (.sched stack) } else s
  | _ => s

def step (s : SmpBoot) : SmpEv → Option SmpBoot
  | .main => some (s.stepMain cpuCount mainCoreId false)
  | .lost => some (s.stepMain cpuCount mainCoreId true)
  | .ap k => some (s.stepAp k)

/-- What the boot is to keep, with the main CPU on stack 0. -/
structure Safe (s : SmpBoot) : Prop where
  /-- The stacks are those of the main CPU and the others, and no two CPUs have the same. -/
  bound : ∀ k stack, (s.ap k).stack = some stack → 0 < stack ∧ stack < cpuCount
  own : ∀ k k' stack, (s.ap k).stack = some stack → (s.ap k').stack = some stack → k = k'
  /-- INIT goes to no CPU that is on. -/
  reset : ∀ i current, s.main = .init i current → s.ap i = .off
  /-- One CPU starts at a time. -/
  one : ∀ k k', (s.ap k).Starting → (s.ap k').Starting → k = k'
  /-- `init_cpu_count` is right. -/
  counted : s.initCpuCount = 1 + ((List.range cpuCount).filter fun k => (s.ap k).Counted).length
  /-- No CPU is in the scheduler, and the main one not past the loop, before all are there. -/
  scheduled : ∀ k, (s.ap k).Scheduled → ∀ k' < cpuCount, k' ≠ mainCoreId → (s.ap k').Counted
  finished : s.main = .finish ∨ s.main = .all ∨ s.main = .done →
    ∀ k < cpuCount, k ≠ mainCoreId → (s.ap k).Counted

end Step

end SmpBoot

end RTLKIM
