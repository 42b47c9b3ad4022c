import RTLKIM.MallocFail
import RTLKIM.Proofs.MemAllocOps

/-!
# `add_free` when the heap is exhausted

With a node it is the `add_free` of the pool. Without one, a list that has a node is left as it was.
-/

namespace RTLKIM

namespace Pool

variable {P : Pool} {l : List ℕ} {start size node : ℕ}

/-- What the `add_free` that finds a node returns. -/
def AddFreeRes.ofRet (r : Pool × PoolErr) : AddFreeRes := .returns r.1 r.2

theorem linkMalloc_eq (h0 : node ≠ 0) (cursor save : ℕ) :
    (P.linkMalloc start size node cursor save).2
      = .returns (P.link start size node cursor save) .noErr := by
  unfold linkMalloc link withNode joined
  simp only [if_neg h0]
  split_ifs <;> rfl

/-- When `kmalloc` succeeds it is `add_free`. -/
theorem addFreeMalloc_eq (h0 : node ≠ 0) : (P.addFreeMalloc start size node).map Prod.snd
    = (P.addFree start size node).map AddFreeRes.ofRet := by
  unfold addFreeMalloc addFree
  split_ifs with hlist
  · rfl
  · rcases P.search start (P.alive.length + 1) P.list P.list with _ | ⟨cursor, save⟩
    · rfl
    · simp only [Option.map_some]
      split_ifs
      · rfl
      · rfl
      · rw [linkMalloc_eq h0]
        rfl

theorem withNode_safe (Q : Pool) : P.Safe (P.withNode 0 Q) :=
  ⟨by simp [withNode], fun _ => by simp [withNode]⟩

theorem joined_safe (Q : Pool) : P.Safe Q.joined :=
  ⟨by simp [joined], fun h => by cases h⟩

/-- Past the checks the node is tested before anything is written. -/
theorem linkMalloc_safe (start size cursor save : ℕ) :
    P.Safe (P.linkMalloc start size 0 cursor save) := by
  simp only [linkMalloc]
  split_ifs <;> first | exact withNode_safe _ | exact joined_safe _

/-- A failed `kmalloc` is safe just when the list is not empty. -/
theorem addFree_exhausted_iff (L : P.PoolList l) (start size : ℕ) :
    P.SafeExhausted start size ↔ P.list ≠ 0 := by
  constructor
  · rintro ⟨r, hcode, hnull, -⟩ hlist
    rw [addFreeMalloc, if_pos hlist, if_pos rfl] at hcode
    obtain rfl := Option.some_inj.1 hcode
    exact hnull rfl
  · intro hlist
    obtain ⟨⟨cursor, save⟩, hsearch⟩ : ∃ r, P.search start (P.alive.length + 1) P.list P.list
        = some r := by
      obtain ⟨u, v, -, -, -, hsearch⟩ := L.search_eq start
      exact ⟨_, hsearch⟩
    refine ⟨_, by rw [addFreeMalloc, if_neg hlist, hsearch, Option.map_some], ?_⟩
    -- the two checks of the boundaries come before any `kmalloc`
    have hrefused : P.Safe (false, .returns P .unauthorizedAction) :=
      ⟨by simp, fun h => by cases h⟩
    dsimp only
    split_ifs
    · exact hrefused
    · exact hrefused
    · exact linkMalloc_safe start size cursor save

/-- A block after a gap from the only area. -/
theorem addFree_exhausted_gap :
    (Pool.mk (fun _ => ⟨0x1000, 0x1000, 0, 0⟩) [1] 1).SafeExhausted 0x3000 0x1000 := by
  have L : (Pool.mk (fun _ => ⟨0x1000, 0x1000, 0, 0⟩) [1] 1).PoolList [1] :=
    ⟨⟨by simp [DLink, nextOf, prevOf], rfl, by simp, by simp⟩, by simp⟩
  exact (addFree_exhausted_iff L 0x3000 0x1000).2 (by decide)

/-- The first block: `NULL` is stored as the head of the list and written through. -/
theorem addFree_not_exhausted : (Pool.mk (fun _ => ⟨0, 0, 0, 0⟩) [] 0).PoolList []
    ∧ ¬ (Pool.mk (fun _ => ⟨0, 0, 0, 0⟩) [] 0).SafeExhausted 0x1000 0x1000 := by
  refine ⟨⟨⟨by simp [DLink], rfl, by simp, by simp⟩, by simp⟩, ?_⟩
  rintro ⟨r, hcode, hnull, -⟩
  obtain rfl := Option.some_inj.1 hcode
  exact hnull rfl

end Pool

end RTLKIM
