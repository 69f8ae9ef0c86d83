/-
# A heap with a moving minor collector

Blocks are allocated young.  A minor collection gives every young block a new
address, at which it stays: the compaction of the major heap, which moves old blocks too,
is not modelled.  Whoever kept the old address has nothing: the collector forwards what it
is told about, and nothing else.
-/
import Mathlib.Data.List.Basic

/-- Where the `i`-th block of a heap is: still young, or moved. -/
inductive Addr where
  | minor (i : ℕ)
  | major (i : ℕ)
  deriving DecidableEq

/-- The blocks allocated so far, and how many of them have been moved. -/
structure MovingHeap where
  count : ℕ
  promoted : ℕ
  promoted_le : promoted ≤ count

namespace MovingHeap

variable (h : MovingHeap) (i : ℕ)

/-- A new block, which is young. -/
def alloc : MovingHeap := ⟨h.count + 1, h.promoted, Nat.le_succ_of_le h.promoted_le⟩

/-- A minor collection. -/
def collect : MovingHeap := ⟨h.count, h.count, Nat.le_refl _⟩

/-- A collection that may happen. -/
def collectIf (collects : Bool) : MovingHeap := if collects then h.collect else h

/-- The current address of a block. -/
def address : Addr := if i < h.promoted then .major i else .minor i

/-- The block at an address, if there is one. -/
def find : Addr → Option ℕ
  | .minor i => if h.promoted ≤ i ∧ i < h.count then some i else none
  | .major i => if i < h.promoted then some i else none

/-- What a minor collection makes of an address that it knows of. -/
def forward (a : Addr) : Addr :=
  match h.find a with
  | some i => h.collect.address i
  | none => a

variable {h i}

@[simp] theorem address_alloc : h.alloc.address i = h.address i := rfl

@[simp] theorem count_collectIf (b : Bool) : (h.collectIf b).count = h.count := by
  cases b <;> rfl

/-- At the current address of a block there is that block. -/
theorem find_address (hi : i < h.count) : h.find (h.address i) = some i := by
  unfold address
  split_ifs with hp
  · exact if_pos hp
  · exact if_pos ⟨by omega, hi⟩

/-- And it is nowhere else. -/
theorem find_eq_some_iff {a : Addr} : h.find a = some i ↔ i < h.count ∧ a = h.address i := by
  have hle := h.promoted_le
  constructor
  · intro ha
    cases a with
    | minor j =>
      obtain ⟨hj, hij⟩ := Option.ite_none_right_eq_some.mp ha
      obtain rfl := Option.some.inj hij
      refine ⟨hj.2, ?_⟩
      rw [address, if_neg (by omega)]
    | major j =>
      obtain ⟨hj, hij⟩ := Option.ite_none_right_eq_some.mp ha
      obtain rfl := Option.some.inj hij
      refine ⟨by omega, ?_⟩
      rw [address, if_pos hj]
  · rintro ⟨hi, rfl⟩
    exact find_address hi

/-- The collector keeps up with a block whose address it knows of. -/
theorem forward_address (hi : i < h.count) : h.forward (h.address i) = h.collect.address i := by
  rw [forward, find_address hi]

/-- After a collection that may have happened, a block has been moved when it had
been before, or when the collection happened. -/
theorem lt_promoted_collectIf (hi : i < h.count) (b : Bool) :
    i < (h.collectIf b).promoted ↔ b = true ∨ i < h.promoted := by
  cases b
  · simp [collectIf]
  · simpa [collectIf, collect] using hi

/-- Two heaps have a block at the same address when it was moved in both or in
neither. -/
theorem address_eq_address_iff {h' : MovingHeap} :
    h.address i = h'.address i ↔ (i < h.promoted ↔ i < h'.promoted) := by
  unfold address
  split_ifs with hp hp' hp'
  · simp [hp, hp']
  · simp [hp, hp']
  · simp [hp, hp']
  · simp [hp, hp']

/-! ## Since an earlier moment -/

/-- The heap `h'` comes after `h`, and `moved` says whether a collection lies between. -/
structure Since (h h' : MovingHeap) (moved : Bool) : Prop where
  count_le : h.count ≤ h'.count
  promoted_iff : ∀ i < h.count, i < h'.promoted ↔ i < h.promoted ∨ moved = true

variable {h' : MovingHeap} {moved : Bool}

theorem Since.refl (h : MovingHeap) : h.Since h false :=
  ⟨Nat.le_refl _, fun i _ => by simp⟩

theorem Since.alloc (hs : h.Since h' moved) : h.Since h'.alloc moved :=
  ⟨Nat.le_succ_of_le hs.count_le, hs.promoted_iff⟩

theorem Since.collectIf (hs : h.Since h' moved) (b : Bool) :
    h.Since (h'.collectIf b) (moved || b) where
  count_le := by
    rw [count_collectIf]
    exact hs.count_le
  promoted_iff := fun i hi => by
    rw [lt_promoted_collectIf (Nat.lt_of_lt_of_le hi hs.count_le), hs.promoted_iff i hi,
      Bool.or_eq_true]
    tauto

/-- **An address from then.**  What is found there is the block, if it had been moved
before or no collection lies between, and otherwise nothing. -/
theorem Since.find_address (hs : h.Since h' moved) (hi : i < h.count) :
    h'.find (h.address i) = if i < h.promoted ∨ moved = false then some i else none := by
  have hpromoted := hs.promoted_iff i hi
  have hcount := Nat.lt_of_lt_of_le hi hs.count_le
  unfold address
  by_cases hp : i < h.promoted
  · rw [if_pos hp, if_pos (.inl hp)]
    exact if_pos (hpromoted.mpr (.inl hp))
  · rw [if_neg hp]
    cases moved with
    | false =>
      rw [if_pos (.inr rfl)]
      refine if_pos ⟨Nat.le_of_not_lt fun hlt => ?_, hcount⟩
      rcases hpromoted.mp hlt with hlt | hlt
      · exact hp hlt
      · cases hlt
    | true =>
      rw [if_neg (by simp [hp])]
      exact if_neg fun hle => Nat.not_lt.mpr hle.1 (hpromoted.mpr (.inr rfl))

end MovingHeap
