import RTLKIM.Semaphore
import RTLKIM.Lib.Word

/-!
# Queues and mailboxes

`queue.c` and `mailbox.c`. A post and a pend are three phases each: a section on the lock of the
object that tests `init`, a `sem_pend` outside of it, and a section that moves the value and posts
the other semaphore. The two objects differ in where the value goes (`Store`) and in what their
semaphores start from. The sections of the object are one step each, with the `sem_post` or the
`sem_destroy` in them; those of `sem_pend` are steps of their own.
-/

namespace RTLKIM

/-! ## Phases -/

/-- The codes returned: `nonInitialized` is `OS_ERR_QUEUE_NON_INITIALIZED`, or that of mailboxes. -/
inductive ChanErr
  | noErr
  | nonInitialized
  | semUninitialized
  deriving DecidableEq

/-- Where a thread is in a call: before or in its `sem_pend`, or between it and the data. -/
inductive ChanPc (α : Type)
  | idle
  | postPend (v : α)
  | postData (v : α)
  | pendPend
  | pendData
  deriving DecidableEq

/-- What a call returned; the value of a pend that fails is `NULL`. -/
structure ChanRet (α : Type) where
  err : ChanErr
  value : Option α
  deriving DecidableEq

/-- What the sections do with the memory that holds the values. -/
structure Store (α β : Type) where
  put : β → α → β
  get : β → α × β
  free : β → β

/-- A queue or a mailbox and its threads. `stored` and `fetched` list what the posts put in and the
pends got out, `returned` what the pends returned. -/
structure Chan (τ α β : Type) where
  init : Bool
  buf : β
  semRead : Sem τ
  semWrite : Sem τ
  pc : τ → ChanPc α
  ret : τ → Option (ChanRet α)
  stored : List α
  fetched : List α
  returned : List α

inductive ChanEv (τ α : Type)
  | post (t : τ) (v : α)
  | pend (t : τ)
  | acquire (t : τ)
  | data (t : τ)
  | destroy (t : τ)

namespace Sem

variable {τ : Type} [DecidableEq τ]

/-- The next section of a `sem_pend`, if the thread does not wait. -/
def pendSection (s : Sem τ) (t : τ) : Option (Option SemErr × Sem τ) :=
  match s.waiters.phase t with
  | .out => some (s.semPend t)
  | .woken => some (s.pendTest t)
  | .parked | .popped => none

/-- `sem_post` with the unlock after its section. -/
def postUnlock (s : Sem τ) : Except Halt (SemErr × Sem τ) :=
  match s.semPost with
  | (err, none, s) => .ok (err, s)
  | (err, some x, s) => (s.unlockThread x).map fun s => (err, s)

end Sem

namespace Chan

variable {τ α β : Type} [DecidableEq τ]

def returns (s : Chan τ α β) (t : τ) (err : ChanErr) (v : Option α) : Chan τ α β :=
  { s with pc := Function.update s.pc t .idle, ret := Function.update s.ret t (some ⟨err, v⟩) }

def goto (s : Chan τ α β) (t : τ) (p : ChanPc α) : Chan τ α β :=
  { s with pc := Function.update s.pc t p }

/-- The first section of a call, before the phase `p`. -/
def checkInit (s : Chan τ α β) (t : τ) (p : ChanPc α) : Chan τ α β :=
  if s.init = false then s.returns t .nonInitialized none else s.goto t p

/-- After a section of `sem_pend`, before the phase `p`. -/
def pended (s : Chan τ α β) (t : τ) (p : ChanPc α) : Option SemErr → Chan τ α β
  | none => s
  | some .noErr => s.goto t p
  | some _ => s.returns t .nonInitialized none

variable (B : Store α β)

/-- The section of a post that stores the value; `init` is not tested again. -/
def postData (s : Chan τ α β) (t : τ) (v : α) : Except Halt (Chan τ α β) :=
  let s := { s with buf := B.put s.buf v, stored := s.stored ++ [v] }
  s.semRead.postUnlock.map fun p =>
    { s with semRead := p.2 }.returns t (if p.1 ≠ SemErr.noErr then .nonInitialized else .noErr) none

/-- The section of a pend that gets the value. -/
def pendData (s : Chan τ α β) (t : τ) : Except Halt (Chan τ α β) :=
  if s.init = false then .ok (s.returns t .nonInitialized none)
  else
    let v := (B.get s.buf).1
    let s := { s with buf := (B.get s.buf).2, fetched := s.fetched ++ [v] }
    s.semWrite.postUnlock.map fun p =>
      let s := { s with semWrite := p.2 }
      if p.1 ≠ SemErr.noErr then s.returns t .nonInitialized none
      else { s with returned := s.returned ++ [v] }.returns t .noErr (some v)

/-- The destruction, by a thread that is in no other call. -/
def destroy (s : Chan τ α β) (t : τ) : Except Halt (Chan τ α β) :=
  if s.init = false then .ok (s.returns t .nonInitialized none)
  else
    s.semRead.semDestroy.bind fun r => s.semWrite.semDestroy.map fun w =>
      { s with init := false, buf := B.free s.buf, semRead := r.2, semWrite := w.2 }.returns t
        (if r.1 = SemErr.noErr ∧ w.1 = SemErr.noErr then .noErr else .semUninitialized) none

def step (s : Chan τ α β) : ChanEv τ α → Option (Chan τ α β)
  | .post t v =>
    match s.pc t with
    | .idle => some (s.checkInit t (.postPend v))
    | _ => none
  | .pend t =>
    match s.pc t with
    | .idle => some (s.checkInit t .pendPend)
    | _ => none
  | .acquire t =>
    match s.pc t with
    | .postPend v => (s.semWrite.pendSection t).map fun p =>
      { s with semWrite := p.2 }.pended t (.postData v) p.1
    | .pendPend => (s.semRead.pendSection t).map fun p =>
      { s with semRead := p.2 }.pended t .pendData p.1
    | _ => none
  | .data t =>
    match s.pc t with
    | .postData v => (s.postData B t v).toOption
    | .pendData => (s.pendData B t).toOption
    | _ => none
  | .destroy t =>
    match s.pc t with
    | .idle => (s.destroy B t).toOption
    | _ => none

end Chan

/-! ## Queues -/

/-- The fields of `queue_t` for the values. `freed` tells that the container has been freed, and
`usedFreed` that it has been read or written since. -/
structure Queue (α : Type) where
  container : ℕ → α
  size : ℕ
  maxSize : ℕ
  indexTop : ℕ
  indexBot : ℕ
  freed : Bool
  usedFreed : Bool

namespace Queue

variable {α : Type}

/-- The data of `queue_post`. -/
def put (q : Queue α) (element : α) : Queue α :=
  { q with
    container := Function.update q.container q.indexTop element
    indexTop := add32 q.indexTop 1 % q.maxSize
    size := add32 q.size 1
    usedFreed := q.usedFreed || q.freed }

/-- The data of `queue_pend`. -/
def get (q : Queue α) : α × Queue α :=
  (q.container q.indexBot,
    { q with
      indexBot := add32 q.indexBot 1 % q.maxSize
      size := sub32 q.size 1
      usedFreed := q.usedFreed || q.freed })

/-- `kfree` on the container. -/
def free (q : Queue α) : Queue α := { q with freed := true }

def store : Store α (Queue α) := ⟨put, get, free⟩

/-- `queue_init`, when `kmalloc` gave a container. -/
def queueInit {τ : Type} (size : ℕ) (container : ℕ → α) : Chan τ α (Queue α) :=
  ⟨true, ⟨container, 0, size, 0, 0, false, false⟩, .semInit 0, .semInit (.ofNat size), fun _ => .idle,
    fun _ => none, [], [], []⟩

/-- The phases of `queue_post` and `queue_pend`, and `queue_destroy`. -/
def step {τ : Type} [DecidableEq τ] (s : Chan τ α (Queue α)) (e : ChanEv τ α) :
    Option (Chan τ α (Queue α)) := s.step store e

end Queue

/-! ## Mailboxes -/

namespace Mailbox

variable {α : Type}

/-- The value of a mailbox is its field `value`, and stays there when it is read. -/
def store : Store α α := ⟨fun _ element => element, fun value => (value, value), id⟩

/-- `mailbox_init`; `value` is zero. -/
def mailboxInit {τ : Type} (value : α) : Chan τ α α :=
  ⟨true, value, .semInit 0, .semInit 1, fun _ => .idle, fun _ => none, [], [], []⟩

/-- The phases of `mailbox_post` and `mailbox_pend`, and `mailbox_destroy`. -/
def step {τ : Type} [DecidableEq τ] (s : Chan τ α α) (e : ChanEv τ α) : Option (Chan τ α α) :=
  s.step store e

end Mailbox

end RTLKIM
