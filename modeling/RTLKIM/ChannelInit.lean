import RTLKIM.ObjectHeap

/-!
# The creation of mailboxes and queues

`mailbox_init` and `queue_init`, with what every `kmalloc` in them returns: an address, or zero when it
fails. The object starts from zero and is followed to the end of the call, whatever the code returned.
-/

namespace RTLKIM

/-- The codes that the functions here return. -/
inductive ChanInitErr
  | noErr
  | malloc
  | semUninitialized
  deriving DecidableEq

namespace Sem

variable {τ : Type}

/-- After `memset`. -/
def zeroed : Sem τ := ⟨0, false, .empty⟩

/-- `sem_init`; `queue` is what `kernel_queue_create_queue` returns, with `OS_ERR_MALLOC` when it is
`NULL`. -/
def semInitAt (initLevel : Int32) (queue : ℕ) : ChanInitErr × Sem τ :=
  let s := { zeroed with level := initLevel }
  if queue = 0 then (.malloc, s) else (.noErr, { s with init := true })

variable [DecidableEq τ]

/-- `sem_destroy`, with its code among those here. -/
def destroyInit (s : Sem τ) : Except Halt (ChanInitErr × Sem τ) :=
  s.semDestroy.map fun p => (if p.1 = SemErr.noErr then .noErr else .semUninitialized, p.2)

/-- Threads may call `sem_pend` `n` times without blocking, and the next one blocks. -/
def Admits : ℕ → Sem τ → Prop
  | 0, s => ∀ t, (s.semPend t).1 = none
  | n + 1, s => ∀ t, (s.semPend t).1 = some .noErr ∧ (s.semPend t).2.Admits n

end Sem

/-- The object is one whose creation has been through, or of which nothing is left initialised. -/
structure Chan.InitReports {τ α β : Type} (err : ChanInitErr) (s : Chan τ α β) : Prop where
  done : err = .noErr ↔ s.init = true ∧ s.semRead.init = true ∧ s.semWrite.init = true
  undone : err ≠ .noErr → s.semRead.init = false ∧ s.semWrite.init = false

/-- After `memset`, nobody in a call. -/
def Chan.zeroed {τ α β : Type} (buf : β) : Chan τ α β :=
  ⟨false, buf, .zeroed, .zeroed, fun _ => .idle, fun _ => none, [], [], []⟩

/-! ## Mailboxes -/

namespace Mailbox

variable {τ α : Type} [DecidableEq τ]

/-- `mailbox_init`, with the addresses of the queues of the two semaphores. -/
def mailboxInitAt (null : α) (r w : ℕ) : Except Halt (ChanInitErr × Chan τ α α) :=
  let m := Chan.zeroed null
  let (err, read) := Sem.semInitAt (τ := τ) 0 r
  let m := { m with semRead := read }
  if err ≠ .noErr then .ok (err, m)
  else
    let (err, write) := Sem.semInitAt (τ := τ) 1 w
    let m := { m with semWrite := write }
    -- the code of `sem_destroy` takes the place of that of `sem_init`
    if err ≠ .noErr then m.semRead.destroyInit.map fun p => (p.1, { m with semRead := p.2 })
    else .ok (.noErr, { m with init := true })

end Mailbox

/-! ## Queues -/

/-- A queue, with the address of its container and the bytes that were asked for it. -/
structure QueueObj (τ α : Type) where
  queue : Chan τ α (Queue α)
  container : ℕ
  bytes : ℕ

namespace Queue

variable {τ α : Type} [DecidableEq τ]

/-- `queue_init`, with the addresses of the queues of the two semaphores and of the container;
`memory` is what the memory there holds. -/
def queueInitAt (size : UInt32) (memory : ℕ → α) (r w c : ℕ) :
    Except Halt (ChanInitErr × QueueObj τ α) :=
  let q : Chan τ α (Queue α) := Chan.zeroed ⟨memory, 0, 0, 0, 0, false, false⟩
  let (err, read) := Sem.semInitAt (τ := τ) 0 r
  let q := { q with semRead := read }
  if err ≠ .noErr then .ok (err, ⟨q, 0, 0⟩)
  else
    let (err, write) := Sem.semInitAt (τ := τ) (.ofNat size.toNat) w
    let q := { q with semWrite := write }
    if err ≠ .noErr then
      -- the code of `sem_destroy` takes the place of that of `sem_init`
      q.semRead.destroyInit.map fun p => (p.1, ⟨{ q with semRead := p.2 }, 0, 0⟩)
    else if c = 0 then
      q.semRead.destroyInit.bind fun p =>
        let q := { q with semRead := p.2 }
        if p.1 ≠ .noErr then .ok (p.1, ⟨q, 0, 0⟩)
        else q.semWrite.destroyInit.map fun p =>
          (if p.1 ≠ .noErr then p.1 else .malloc, ⟨{ q with semWrite := p.2 }, 0, 0⟩)
    else
      .ok (.noErr, ⟨{ q with init := true, buf := { q.buf with maxSize := size.toNat } }, c,
        mul32 sizeofPtr size.toNat⟩)

/-- The index of the container that the next step reads or writes. -/
def usedIndex (s : Chan τ α (Queue α)) : ChanEv τ α → Option ℕ
  | .data t =>
    match s.pc t with
    | .postData _ => some s.buf.indexTop
    | .pendData => if s.init = false then none else some s.buf.indexBot
    | _ => none
  | _ => none

end Queue

end RTLKIM
