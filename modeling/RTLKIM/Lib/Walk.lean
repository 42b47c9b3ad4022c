import RTLKIM.Lib.Packed

/-!
# Two levels of page tables in memory

The walk of a 32 bit address. The directory is in the frame `cr3`; an entry of it has the frame of a
table, and an entry of a table the frame of a page, from bit 12 on, bit 0 when it is present, and bit 1
when what is below it can be written.
When the last entry of the directory is for the directory itself, the walk of the last 4 MiB of
addresses ends one level early, and they are a window on the tables.
-/

namespace RTLKIM

/-- The words of each frame, and the frame of the directory. -/
structure Memory where
  word : ℕ → ℕ → ℕ
  cr3 : ℕ

/-- The frame in an entry. -/
def entryFrame (w : ℕ) : ℕ := (w &&& 0xFFFFF000) / 4096

namespace Memory

variable {m : Memory} {f d i w : ℕ}

def setWord (m : Memory) (f i w : ℕ) : Memory :=
  { m with word := Function.update m.word f (Function.update (m.word f) i w) }

/-- The entry of an address in the directory. -/
def dirWord (m : Memory) (d : ℕ) : ℕ := m.word m.cr3 d

/-- The entry of the page that an address is on, if it has one. -/
def walk (m : Memory) (virt : ℕ) : Option ℕ :=
  let dir := m.dirWord (virt / 2 ^ 22)
  if dir &&& 1 = 0 then none
  else
    let page := m.word (entryFrame dir) (virt / 2 ^ 12 % 2 ^ 10)
    if page &&& 1 = 0 then none else some page

/-- The physical address of a virtual one. -/
def translate (m : Memory) (virt : ℕ) : Option ℕ :=
  (m.walk virt).map fun e => entryFrame e * 4096 + virt % 4096

/-- There is a page that can be written: the entries of both levels say so. -/
def writable (m : Memory) (virt : ℕ) : Bool :=
  m.dirWord (virt / 2 ^ 22) &&& 2 ≠ 0 && (m.walk virt).any fun e => e &&& 2 ≠ 0

/-- No entry of the directory takes a permission away. -/
def DirWritable (m : Memory) : Prop := ∀ d < 1024, m.dirWord d &&& 1 ≠ 0 → m.dirWord d &&& 2 ≠ 0

def load (m : Memory) (virt : ℕ) : Option ℕ :=
  (m.walk virt).map fun e => m.word (entryFrame e) (virt % 4096 / 4)

def store (m : Memory) (virt w : ℕ) : Option Memory :=
  (m.walk virt).map fun e => m.setWord (entryFrame e) (virt % 4096 / 4) w

/-- The entry of the page says whether it can be written, where the directory leaves it to it. -/
theorem DirWritable.writable_eq (h : m.DirWritable) {virt : ℕ} (hvirt : virt < 2 ^ 32) :
    m.writable virt = (m.walk virt).any fun e => e &&& 2 ≠ 0 := by
  unfold writable
  by_cases hp : m.dirWord (virt / 2 ^ 22) &&& 1 = 0
  · have hnone : m.walk virt = none := if_pos hp
    rw [hnone, Option.any_none, Bool.and_false]
  · have hw := h (virt / 2 ^ 22) (by omega) hp
    rw [decide_eq_true hw, Bool.true_and]

@[simp] theorem setWord_cr3 : (m.setWord f i w).cr3 = m.cr3 := rfl

@[simp] theorem setWord_self : (m.setWord f i w).word f i = w := by
  simp [setWord]

theorem setWord_of_ne {f' i' : ℕ} (h : f' = f → i' ≠ i) :
    (m.setWord f i w).word f' i' = m.word f' i' := by
  by_cases hf : f' = f
  · subst hf
    simp [setWord, Function.update_of_ne (h rfl)]
  · simp [setWord, Function.update_of_ne hf]

theorem setWord_of_frame_ne {f' : ℕ} (h : f' ≠ f) (i' : ℕ) :
    (m.setWord f i w).word f' i' = m.word f' i' := setWord_of_ne fun e => absurd e h

/-! ## The window -/

/-- The last entry of the directory is for the directory. -/
structure Recursive (m : Memory) : Prop where
  present : m.dirWord 1023 &&& 1 ≠ 0
  frame : entryFrame (m.dirWord 1023) = m.cr3

/-- The address of the word `i` of the table `d`. -/
def window (d i : ℕ) : ℕ := 0xFFC00000 + 4096 * d + 4 * i

theorem window_entries (hd : d < 1024) (hi : i < 1024) :
    window d i / 2 ^ 22 = 1023 ∧ window d i / 2 ^ 12 % 2 ^ 10 = d ∧ window d i % 4096 / 4 = i := by
  unfold window
  omega

/-- The entry of a page of the window is the entry of the table. -/
theorem Recursive.walk (h : m.Recursive) (hd : d < 1024) (hi : i < 1024) :
    m.walk (window d i) = if m.dirWord d &&& 1 = 0 then none else some (m.dirWord d) := by
  obtain ⟨h1, h2, -⟩ := window_entries hd hi
  unfold Memory.walk
  simp only [h1, h2, h.frame, if_neg h.present]
  rfl

theorem Recursive.load (h : m.Recursive) (hd : d < 1024) (hi : i < 1024)
    (hp : m.dirWord d &&& 1 ≠ 0) :
    m.load (window d i) = some (m.word (entryFrame (m.dirWord d)) i) := by
  rw [Memory.load, h.walk hd hi, if_neg hp, Option.map_some, (window_entries hd hi).2.2]

theorem Recursive.store (h : m.Recursive) (hd : d < 1024) (hi : i < 1024)
    (hp : m.dirWord d &&& 1 ≠ 0) :
    m.store (window d i) w = some (m.setWord (entryFrame (m.dirWord d)) i w) := by
  rw [Memory.store, h.walk hd hi, if_neg hp, Option.map_some, (window_entries hd hi).2.2]

/-- The last table of the window is the directory. -/
theorem Recursive.loadDir (h : m.Recursive) (hd : d < 1024) :
    m.load (window 1023 d) = some (m.dirWord d) := by
  rw [h.load (by decide) hd h.present, h.frame]
  rfl

theorem Recursive.storeDir (h : m.Recursive) (hd : d < 1024) :
    m.store (window 1023 d) w = some (m.setWord m.cr3 d w) := by
  rw [h.store (by decide) hd h.present, h.frame]

end Memory

end RTLKIM
