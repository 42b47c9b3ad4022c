import RTLKIM.MemAlloc

/-!
# `add_free` when the heap is exhausted

`add_free` of `memalloc.c` with the tests it makes of what `kmalloc` returns, which may be `NULL`.
For the first node of a list the test is of `list`, the address of the head, and not of what was
stored there.
-/

namespace RTLKIM

/-- What `add_free` comes to: it returns one of the other codes or `OS_ERR_MALLOC`, or writes through
`NULL`. -/
inductive AddFreeRes
  | returns (P : Pool) (err : PoolErr)
  | errMalloc (P : Pool)
  | nullDeref

namespace Pool

/-- The three later calls of `kmalloc`: `node` is tested, and linked as in `linked`. The `Bool` says
that `kmalloc` was called. -/
def withNode (P : Pool) (node : ℕ) (linked : Pool) : Bool × AddFreeRes :=
  (true, if node = 0 then .errMalloc P else .returns linked .noErr)

/-- An area joined to one there is. -/
def joined (P : Pool) : Bool × AddFreeRes := (false, .returns P .noErr)

/-- `add_free` past its checks, with the address `kmalloc` returns. -/
def linkMalloc (P : Pool) (start size node cursor save : ℕ) : Bool × AddFreeRes :=
  let saveEnd := add32 (P.nodes save).start (P.nodes save).size
  if cursor = 0 then
    if saveEnd ≠ start then
      P.withNode node ((P.newNode node ⟨start, size, 0, save⟩).setNext save node)
    else joined (P.setSize save (add32 (P.nodes save).size size))
  else if cursor = save then
    if add32 start size = (P.nodes cursor).start then
      joined ((P.setSize cursor (add32 (P.nodes cursor).size size)).setStart cursor start)
    else
      P.withNode node
        { (P.newNode node ⟨start, size, cursor, 0⟩).setPrev cursor node with list := node }
  else if saveEnd = start then
    if add32 start size = (P.nodes cursor).start then
      joined (((P.setSize save (add32 (P.nodes save).size (add32 size (P.nodes cursor).size))).setNext
        save (P.nodes cursor).next).kfree cursor)
    else joined (P.setSize save (add32 (P.nodes save).size size))
  else if add32 start size = (P.nodes cursor).start then
    joined ((P.setSize cursor (add32 (P.nodes cursor).size size)).setStart cursor start)
  else
    P.withNode node
      (((P.newNode node ⟨start, size, cursor, save⟩).setNext save node).setPrev cursor node)

/-- `add_free`, with the address its `kmalloc` returns or `NULL`. -/
def addFreeMalloc (P : Pool) (start size node : ℕ) : Option (Bool × AddFreeRes) :=
  if P.list = 0 then
    -- `*list` is what `kmalloc` returned, and `list` is not `NULL`
    some (true, if node = 0 then .nullDeref
      else .returns { P.newNode node ⟨start, size, 0, 0⟩ with list := node } .noErr)
  else
    (P.search start (P.alive.length + 1) P.list P.list).map fun (cursor, save) =>
      if save ≠ cursor ∧ start < add32 (P.nodes save).start (P.nodes save).size then
        (false, .returns P .unauthorizedAction)
      else if save ≠ cursor ∧ cursor ≠ 0 ∧ (P.nodes cursor).start < add32 start size then
        (false, .returns P .unauthorizedAction)
      else P.linkMalloc start size node cursor save

/-- No `NULL` is written through, and if `kmalloc` was called the pool is as it was and
`OS_ERR_MALLOC` is returned. -/
def Safe (P : Pool) (r : Bool × AddFreeRes) : Prop :=
  r.2 ≠ .nullDeref ∧ (r.1 = true → r.2 = .errMalloc P)

/-- The call returns with no heap left, and safely. -/
def SafeExhausted (P : Pool) (start size : ℕ) : Prop :=
  ∃ r, P.addFreeMalloc start size 0 = some r ∧ P.Safe r

end Pool

end RTLKIM
