import RTLKIM.SchedulerSpec

/-!
# The list of the threads

`get_threads_info`: a walk along `global_threads_table` that reads the next thread before it tests
whether there is one.
-/

namespace RTLKIM

/-- The fields of `kernel_thread_t` that `get_threads_info` reads besides those of `Thread`. -/
structure ThreadLabel where
  name : String
  startTime : ℕ
  endTime : ℕ

/-- `thread_info_t`. -/
structure ThreadInfo where
  tid : ℕ
  ptid : ℕ
  name : String
  priority : ℕ
  state : ThreadState
  startTime : ℕ
  endTime : ℕ
  deriving DecidableEq

/-- What a call comes to: it returns, with what it stores in `size` and in `threads`, or reads through
`NULL`. -/
inductive InfoRes
  | returns (err : SchedErr) (size : Int32) (filled : List ThreadInfo)
  | nullDeref
  deriving DecidableEq

namespace Sched

variable (s : Sched) (label : ℕ → ThreadLabel) (uptime : ℕ → ℕ)

/-- The entry of a thread; `uptime` are the values of `time_get_current_uptime` in turn. -/
def infoEntry (i t : ℕ) : ThreadInfo :=
  let T := s.thread t
  ⟨T.tid, T.ptid, (label t).name, T.priority, T.state, (label t).startTime,
    if T.state ≠ .zombie then uptime i else (label t).endTime⟩

/-- The loop from the `i`-th entry on; the list is what is left of the table, from `cursor`. -/
def infoLoop (size : Int32) (i : ℕ) (filled : List ThreadInfo) : List ℕ → InfoRes
  | [] => .returns .noErr size filled
  | t :: rest =>
    if (i : ℤ) < size.toInt then
      -- `cursor->data` is read after the cursor has moved
      match rest with
      | [] => .nullDeref
      | _ :: _ => infoLoop size (i + 1) (filled ++ [s.infoEntry label uptime i t]) rest
    else .returns .noErr size filled

/-- `get_threads_info` with a buffer and a size. -/
def getThreadsInfo (size : Int32) : InfoRes :=
  let count := Int32.ofNat s.threadCount
  let size := if count < size then count else size
  match s.globalTable with
  | [] => .nullDeref
  | l => s.infoLoop label uptime size 0 [] l

/-- The call fills the entries of the first threads of the table, as many as there are or are asked
for, and stores how many; `thread_count` is the number of nodes of the table. -/
structure Listed (size : Int32) : Prop where
  count : s.threadCount = s.globalTable.length
  filled : ∃ size' : Int32, size'.toInt = min size.toInt s.threadCount
    ∧ s.getThreadsInfo label uptime size = .returns .noErr size'
      ((s.globalTable.take size'.toInt.toNat).mapIdx (s.infoEntry label uptime))

/-- A thread is reclaimed once at most. -/
def CleansOnce (s : Sched) (e : SchedEv) : Prop := ∀ x, s.Cleans x e → s.freed x = false

end Sched

end RTLKIM
