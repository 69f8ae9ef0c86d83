/-
# Blocks with explicit release

Blocks of one kind, allocated one after the other and released by hand.  Nothing
stops a program from touching or releasing a block that is gone: its contents stay
what they were, and the pool keeps a record of what happened.
-/
import Mathlib.Data.List.Basic
import Mathlib.Data.List.Nodup

/-- The blocks allocated so far, which of them were released and in what order, and
which were touched after that. -/
@[ext]
structure Pool (α : Type*) where
  blocks : List α
  released : List ℕ
  dangling : List ℕ
  released_lt : ∀ i ∈ released, i < blocks.length

namespace Pool

variable {α : Type*} (p : Pool α) (i j : ℕ)

/-- No block has been allocated. -/
def empty : Pool α := ⟨[], [], [], by simp⟩

/-- Allocated and not released. -/
def Live : Prop := i < p.blocks.length ∧ i ∉ p.released

instance : Decidable (p.Live i) := inferInstanceAs (Decidable (_ ∧ _))

/-- The next address. -/
def fresh : ℕ := p.blocks.length

/-- A new block, at the next address. -/
def alloc (a : α) : Pool α where
  blocks := p.blocks ++ [a]
  released := p.released
  dangling := p.dangling
  released_lt := fun i hi => by
    have := p.released_lt i hi
    rw [List.length_append]
    omega

/-- A read of a block, recorded when it is gone. -/
def touch : Pool α where
  blocks := p.blocks
  released := p.released
  dangling := if i ∈ p.released then p.dangling ++ [i] else p.dangling
  released_lt := p.released_lt

/-- A write into a block. -/
def modify (f : α → α) : Pool α where
  blocks := p.blocks.modify i f
  released := p.released
  dangling := (p.touch i).dangling
  released_lt := fun j hj => by
    rw [List.length_modify]
    exact p.released_lt j hj

/-- Release of a block; an address that was never allocated is no block. -/
def release : Pool α where
  blocks := p.blocks
  released := if i < p.blocks.length then p.released ++ [i] else p.released
  dangling := p.dangling
  released_lt := fun j hj => by
    split_ifs at hj with hi
    · rcases List.mem_append.mp hj with hj | hj
      · exact p.released_lt j hj
      · rw [List.mem_singleton.mp hj]
        exact hi
    · exact p.released_lt j hj

/-- Every block was released at most once, and none was touched after that. -/
structure Sound : Prop where
  releasedOnce : p.released.Nodup
  notDangling : p.dangling = []

instance : Decidable p.Sound :=
  decidable_of_iff (p.released.Nodup ∧ p.dangling = [])
    ⟨fun h => ⟨h.1, h.2⟩, fun h => ⟨h.1, h.2⟩⟩

/-! ## What the operations leave -/

section Lemmas

variable {p i j}

@[simp] theorem blocks_alloc (a : α) : (p.alloc a).blocks = p.blocks ++ [a] := rfl
@[simp] theorem blocks_touch : (p.touch i).blocks = p.blocks := rfl
@[simp] theorem blocks_modify (f : α → α) : (p.modify i f).blocks = p.blocks.modify i f := rfl
@[simp] theorem blocks_release : (p.release i).blocks = p.blocks := rfl
@[simp] theorem released_alloc (a : α) : (p.alloc a).released = p.released := rfl
@[simp] theorem released_touch : (p.touch i).released = p.released := rfl
@[simp] theorem released_modify (f : α → α) : (p.modify i f).released = p.released := rfl

/-- A block that was allocated is noted as released. -/
theorem released_release (hi : i < p.blocks.length) :
    (p.release i).released = p.released ++ [i] := if_pos hi

@[simp] theorem live_touch_iff : (p.touch j).Live i ↔ p.Live i := Iff.rfl

/-- An assignment does not end a block. -/
@[simp] theorem live_modify_iff (f : α → α) : (p.modify j f).Live i ↔ p.Live i := by
  rw [Live, Live, blocks_modify, List.length_modify, released_modify]

/-- The next block was not released before. -/
theorem fresh_notMem_released : p.fresh ∉ p.released := fun h =>
  absurd (p.released_lt _ h) (Nat.lt_irrefl _)

/-- The new block is live, and the others are what they were. -/
theorem live_alloc_iff (a : α) : (p.alloc a).Live i ↔ p.Live i ∨ i = p.fresh := by
  unfold Live
  rw [blocks_alloc, released_alloc, List.length_append, List.length_singleton]
  constructor
  · rintro ⟨hlt, hmem⟩
    by_cases h : i = p.fresh
    · exact .inr h
    · exact .inl ⟨by unfold fresh at h; omega, hmem⟩
  · rintro (⟨hlt, hmem⟩ | rfl)
    · exact ⟨by omega, hmem⟩
    · exact ⟨by unfold fresh; omega, fresh_notMem_released⟩

/-- Release ends the life of one block. -/
theorem live_release_iff : (p.release j).Live i ↔ p.Live i ∧ i ≠ j := by
  unfold Live
  rw [blocks_release]
  by_cases hj : j < p.blocks.length
  · rw [released_release hj, List.mem_append, List.mem_singleton, not_or, and_assoc]
  · rw [release]
    simp only [if_neg hj]
    constructor
    · rintro ⟨hlt, hmem⟩
      exact ⟨⟨hlt, hmem⟩, fun h => hj (h ▸ hlt)⟩
    · exact And.left

/-- A live block is not the next one. -/
theorem Live.ne_fresh (h : p.Live i) : i ≠ p.fresh := Nat.ne_of_lt h.1

/-- An allocation leaves the blocks alone that are there. -/
theorem getElem?_alloc_of_lt (a : α) (hi : i < p.blocks.length) :
    (p.alloc a).blocks[i]? = p.blocks[i]? := List.getElem?_append_left hi

/-- An allocation leaves all but the new block alone. -/
theorem getElem?_alloc_of_ne (a : α) (hi : i ≠ p.fresh) :
    (p.alloc a).blocks[i]? = p.blocks[i]? := by
  rcases Nat.lt_or_gt_of_ne hi with hlt | hgt
  · exact getElem?_alloc_of_lt a hlt
  · unfold fresh at hgt
    have hlen : (p.alloc a).blocks.length = p.blocks.length + 1 := by simp
    rw [List.getElem?_eq_none (by omega), List.getElem?_eq_none (by omega)]

/-- The new block has what it was allocated with. -/
theorem getElem?_alloc_fresh (a : α) : (p.alloc a).blocks[p.fresh]? = some a := by
  rw [blocks_alloc, fresh, List.getElem?_concat_length]

/-- An allocation does no harm. -/
theorem Sound.alloc (h : p.Sound) (a : α) : (p.alloc a).Sound := ⟨h.1, h.2⟩

/-- Touching a block that was not released. -/
theorem Sound.touch (h : p.Sound) (hi : i ∉ p.released) : (p.touch i).Sound :=
  ⟨h.1, (if_neg hi).trans h.2⟩

/-- An assignment to a block that was not released does no harm. -/
theorem Sound.modify (h : p.Sound) (hi : i ∉ p.released) (f : α → α) : (p.modify i f).Sound :=
  ⟨h.1, (if_neg hi).trans h.2⟩

/-- Releasing a block that was not released. -/
theorem Sound.release (h : p.Sound) (hi : i ∉ p.released) : (p.release i).Sound := by
  refine ⟨?_, h.2⟩
  unfold Pool.release
  split_ifs
  · exact List.Nodup.append h.1 (List.nodup_singleton i)
      (List.disjoint_singleton.mpr hi)
  · exact h.1

/-- Contents written right after the allocation. -/
theorem modify_alloc_fresh (a : α) (f : α → α) :
    (p.alloc a).modify p.fresh f = p.alloc (f a) := by
  have hblocks : (p.blocks ++ [a]).modify p.blocks.length f = p.blocks ++ [f a] := by
    rw [List.modify_eq_take_drop, List.take_left, List.drop_left]
    rfl
  have hdangling : ((p.alloc a).touch p.fresh).dangling = p.dangling :=
    if_neg fresh_notMem_released
  exact Pool.ext hblocks rfl hdangling

/-- What has been recorded stays recorded. -/
theorem dangling_touch_ne_nil (h : p.dangling ≠ []) : (p.touch i).dangling ≠ [] := by
  unfold touch
  split_ifs
  · simp
  · exact h

/-- A touch of a released block is recorded. -/
theorem dangling_touch_of_mem (hi : i ∈ p.released) : (p.touch i).dangling ≠ [] := by
  simp [touch, hi]

/-- A look at a block and an allocation do not interfere. -/
theorem touch_alloc (a : α) : (p.alloc a).touch i = (p.touch i).alloc a := rfl

/-- A look at a block that was not released leaves no trace. -/
theorem touch_of_notMem (hi : i ∉ p.released) : p.touch i = p := Pool.ext rfl rfl (if_neg hi)

/-- A property of the contents of every block, live or released. -/
def All (p : Pool α) (P : α → Prop) : Prop := ∀ (i : ℕ) (a : α), p.blocks[i]? = some a → P a

/-- A property of all blocks, when it holds of the new one. -/
theorem All.alloc {P : α → Prop} (h : p.All P) {a : α} (ha : P a) : (p.alloc a).All P := by
  intro i b hb
  by_cases hi : i = p.fresh
  · rw [hi, getElem?_alloc_fresh] at hb
    rw [← Option.some.inj hb]
    exact ha
  · exact h i b ((getElem?_alloc_of_ne a hi).symm.trans hb)

/-- An assignment changes one block. -/
theorem getElem?_modify (f : α → α) :
    (p.modify i f).blocks[j]? = if i = j then (p.blocks[j]?).map f else p.blocks[j]? := by
  rw [blocks_modify, List.getElem?_modify]
  split_ifs
  · rfl
  · exact congrFun Option.map_id p.blocks[j]?

/-- A property of all blocks, when the assignment keeps it. -/
theorem All.modify {P : α → Prop} (h : p.All P) {f : α → α}
    (hf : ∀ a, p.blocks[i]? = some a → P (f a)) : (p.modify i f).All P := by
  intro j b hb
  rw [getElem?_modify] at hb
  split_ifs at hb with hij
  · obtain ⟨a, ha, rfl⟩ := Option.map_eq_some_iff.mp hb
    exact hf a (hij ▸ ha)
  · exact h j b hb

end Lemmas

/-! ## Accounts -/

/-- Every block is released or owed, and only once: the two lists together are the
blocks allocated so far. -/
def Accounted (owed : List ℕ) : Prop :=
  (p.released ++ owed).Perm (List.range p.blocks.length)

section Accounts

variable {p i} {owed rest : List ℕ}

/-- Without blocks nothing is owed. -/
theorem accounted_empty : (empty : Pool α).Accounted [] := List.Perm.refl []

/-- A new block is owed. -/
theorem Accounted.alloc (h : p.Accounted owed) (a : α) :
    (p.alloc a).Accounted (owed ++ [p.fresh]) := by
  unfold Accounted at h ⊢
  rw [released_alloc, blocks_alloc, List.length_append, List.length_singleton, List.range_succ,
    ← List.append_assoc]
  exact h.append_right _

/-- The order in which blocks are owed does not matter. -/
theorem Accounted.perm (h : p.Accounted owed) (hperm : owed.Perm rest) : p.Accounted rest :=
  (hperm.append_left _).symm.trans h

/-- A look at a block owes nothing. -/
theorem Accounted.touch (h : p.Accounted owed) : (p.touch i).Accounted owed := h

/-- What is owed was allocated. -/
theorem Accounted.lt_of_mem (h : p.Accounted owed) (hi : i ∈ owed) : i < p.blocks.length :=
  List.mem_range.mp (h.subset (List.mem_append_right _ hi))

/-- What was owed is released. -/
theorem Accounted.release (h : p.Accounted owed) (hperm : owed.Perm (i :: rest)) :
    (p.release i).Accounted rest := by
  have hi : i < p.blocks.length := h.lt_of_mem (hperm.mem_iff.mpr List.mem_cons_self)
  unfold Accounted at h ⊢
  rw [released_release hi, blocks_release, List.append_assoc, List.singleton_append]
  exact ((hperm.append_left _).symm).trans h

/-- Nothing is owed twice, or owed and released. -/
theorem Accounted.nodup (h : p.Accounted owed) : (p.released ++ owed).Nodup :=
  h.nodup_iff.mpr List.nodup_range

/-- What is owed has not been released. -/
theorem Accounted.notMem_released (h : p.Accounted owed) (hi : i ∈ owed) : i ∉ p.released :=
  fun hmem => List.disjoint_of_nodup_append h.nodup hmem hi

/-- Accounts in order and no touch after a release: the pool is sound. -/
theorem Accounted.sound (h : p.Accounted owed) (hclean : p.dangling = []) : p.Sound :=
  ⟨(List.nodup_append.mp h.nodup).1, hclean⟩

/-- What is live is what is owed. -/
theorem Accounted.live_iff (h : p.Accounted owed) : p.Live i ↔ i ∈ owed := by
  constructor
  · rintro ⟨hlt, hmem⟩
    have hall := h.mem_iff.mpr (List.mem_range.mpr hlt)
    exact (List.mem_append.mp hall).resolve_left hmem
  · intro hi
    exact ⟨h.lt_of_mem hi, h.notMem_released hi⟩

/-- When nothing is owed, everything has been released. -/
theorem Accounted.not_live (h : p.Accounted []) : ¬ p.Live i := by
  rintro ⟨hlt, hmem⟩
  have := h.mem_iff.mpr (List.mem_range.mpr hlt)
  rw [List.append_nil] at this
  exact hmem this

end Accounts

end Pool
