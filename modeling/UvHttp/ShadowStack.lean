/-
# Shadow stacks

Functions that call each other push blocks onto a stack beside the one of their
frames, and remember what they found there.  On its way out a function puts back what
it found, or it just leaves.  As long as nobody leaves a block behind, the blocks on
the stack are those of the active frames, innermost first.
-/
import Mathlib.Data.List.Basic

/-- An active call: its number, what was called, and the blocks found on entry. -/
structure Frame (κ : Type) where
  id : ℕ
  kind : κ
  found : List ℕ
  deriving DecidableEq

/-- The active calls, innermost first; the blocks, each under the number of the call
that pushed it; and the number of the next call. -/
structure ShadowStack (κ : Type) where
  frames : List (Frame κ)
  blocks : List ℕ
  fresh : ℕ
  deriving DecidableEq

namespace ShadowStack

variable {κ : Type} (s : ShadowStack κ)

/-! ## Calls and returns -/

/-- No call is active. -/
def empty : ShadowStack κ := ⟨[], [], 0⟩

/-- A call that pushes `n` blocks. -/
def enter (k : κ) (n : ℕ) : ShadowStack κ where
  frames := ⟨s.fresh, k, s.blocks⟩ :: s.frames
  blocks := List.replicate n s.fresh ++ s.blocks
  fresh := s.fresh + 1

/-- The innermost call returns and leaves the blocks alone. -/
def leave : ShadowStack κ := { s with frames := s.frames.tail }

/-- The innermost call returns and puts back the blocks it found. -/
def restore : ShadowStack κ :=
  { s with
    frames := s.frames.tail
    blocks := (s.frames.head?.map Frame.found).getD s.blocks }

/-- The innermost call is known under another name. -/
def rename (k : κ) : ShadowStack κ :=
  { s with frames := s.frames.modifyHead fun f => { f with kind := k } }

/-- What runs innermost. -/
def top : Option κ := s.frames.head?.map Frame.kind

/-- The numbers of the active calls. -/
def ids : List ℕ := s.frames.map Frame.id

/-- Every block belongs to an active call. -/
def Active : Prop := ∀ b ∈ s.blocks, b ∈ s.ids

instance : Decidable s.Active := inferInstanceAs (Decidable (∀ b ∈ s.blocks, b ∈ s.ids))

/-! ## Nested calls -/

section Nested

variable (size : κ → ℕ)

/-- The blocks of calls that each push as many as their kind says. -/
def own : List (Frame κ) → List ℕ
  | [] => []
  | f :: fs => List.replicate (size f.kind) f.id ++ own fs

/-- Each call found the blocks of the calls below it, which are older. -/
def NestedFrames : List (Frame κ) → Prop
  | [] => True
  | f :: fs => f.found = own size fs ∧ (∀ g ∈ fs, g.id < f.id) ∧ NestedFrames fs

/-- The calls are nested, and the next number is new. -/
structure Nested : Prop where
  frames : NestedFrames size s.frames
  lt_fresh : ∀ f ∈ s.frames, f.id < s.fresh

/-- The blocks are those of the active calls. -/
def Tidy : Prop := s.blocks = own size s.frames

variable {s size}

theorem mem_ids_of_mem_own {fs : List (Frame κ)} {b : ℕ} (hb : b ∈ own size fs) :
    b ∈ fs.map Frame.id := by
  induction fs with
  | nil => cases hb
  | cons f fs ih =>
    rcases List.mem_append.mp hb with hb | hb
    · rw [List.eq_of_mem_replicate hb]
      exact List.mem_cons_self
    · exact List.mem_cons_of_mem _ (ih hb)

/-- A tidy stack has no block of a call that is over. -/
theorem Tidy.active (h : s.Tidy size) : s.Active := fun b hb => by
  rw [h] at hb
  exact mem_ids_of_mem_own hb

theorem nested_empty : (empty : ShadowStack κ).Nested size := ⟨trivial, nofun⟩

theorem tidy_empty : (empty : ShadowStack κ).Tidy size := rfl

/-- A call from a tidy stack. -/
theorem Nested.enter (h : s.Nested size) (ht : s.Tidy size) (k : κ) :
    (s.enter k (size k)).Nested size where
  frames := ⟨ht, h.lt_fresh, h.frames⟩
  lt_fresh := fun f hf => by
    rcases List.mem_cons.mp hf with rfl | hf
    · exact Nat.lt_succ_self _
    · exact Nat.lt_succ_of_lt (h.lt_fresh f hf)

theorem Tidy.enter (ht : s.Tidy size) (k : κ) : (s.enter k (size k)).Tidy size :=
  congrArg (List.replicate (size k) s.fresh ++ ·) ht

theorem NestedFrames.tail {fs : List (Frame κ)} (h : NestedFrames size fs) :
    NestedFrames size fs.tail := by
  cases fs with
  | nil => trivial
  | cons f fs => exact h.2.2

theorem Nested.leave (h : s.Nested size) : s.leave.Nested size :=
  ⟨h.frames.tail, fun f hf => h.lt_fresh f (List.mem_of_mem_tail hf)⟩

theorem Nested.restore (h : s.Nested size) : s.restore.Nested size :=
  ⟨h.frames.tail, fun f hf => h.lt_fresh f (List.mem_of_mem_tail hf)⟩

/-- What a call puts back is what belongs there, whatever was left behind. -/
theorem Nested.tidy_restore (h : s.Nested size) (hne : s.frames ≠ []) :
    s.restore.Tidy size := by
  obtain ⟨f, fs, hfs⟩ := List.exists_cons_of_ne_nil hne
  have hnested := h.frames
  rw [hfs] at hnested
  unfold Tidy ShadowStack.restore
  rw [hfs]
  exact hnested.1

/-- A call that pushed nothing may just leave. -/
theorem Tidy.leave (ht : s.Tidy size) {k : κ} (hk : s.top = some k) (h0 : size k = 0) :
    s.leave.Tidy size := by
  obtain ⟨f, hf, rfl⟩ := Option.map_eq_some_iff.mp hk
  obtain ⟨fs, hfs⟩ := List.head?_eq_some_iff.mp hf
  unfold Tidy ShadowStack.leave at *
  rw [ht, hfs, own, h0]
  rfl

/-- A call that pushed something and just leaves: a block of it stays behind. -/
theorem Nested.exists_stale (h : s.Nested size) (ht : s.Tidy size) {k : κ}
    (hk : s.top = some k) (h0 : 0 < size k) :
    ∃ b ∈ s.leave.blocks, b ∉ s.leave.ids ∧ b < s.leave.fresh := by
  obtain ⟨f, hf, rfl⟩ := Option.map_eq_some_iff.mp hk
  obtain ⟨fs, hfs⟩ := List.head?_eq_some_iff.mp hf
  have hnested := h.frames
  rw [hfs] at hnested
  refine ⟨f.id, ?_, fun hmem => ?_, ?_⟩
  · show f.id ∈ s.blocks
    rw [ht, hfs, own]
    exact List.mem_append_left _ (List.mem_replicate.mpr ⟨by omega, rfl⟩)
  · rw [ids, ShadowStack.leave, hfs, List.tail_cons, List.mem_map] at hmem
    obtain ⟨g, hg, hid⟩ := hmem
    have hlt := hnested.2.1 g hg
    omega
  · exact h.lt_fresh f (by rw [hfs]; exact List.mem_cons_self)

/-- Once a block is left behind, the next call is made over it. -/
theorem not_active_enter {b : ℕ} (hb : b ∈ s.blocks) (hid : b ∉ s.ids) (hlt : b < s.fresh)
    (k : κ) (n : ℕ) : ¬ (s.enter k n).Active := by
  intro hactive
  have hmem : b ∈ s.fresh :: s.ids := hactive b (List.mem_append_right _ hb)
  rcases List.mem_cons.mp hmem with rfl | hmem
  · exact Nat.lt_irrefl _ hlt
  · exact hid hmem

end Nested

/-! ## Names -/

section Rename

variable {s : ShadowStack κ} {size : κ → ℕ} {k k' : κ}

@[simp] theorem ids_rename : (s.rename k).ids = s.ids := by
  unfold ids rename
  cases s.frames <;> rfl

/-- Calls of the same size may be renamed. -/
theorem Nested.rename (h : s.Nested size) : (s.rename k).Nested size := by
  obtain ⟨frames, blocks, fresh⟩ := s
  cases frames with
  | nil => exact h
  | cons f fs =>
    refine ⟨h.frames, fun g hg => ?_⟩
    rcases List.mem_cons.mp hg with rfl | hg
    · exact h.lt_fresh f List.mem_cons_self
    · exact h.lt_fresh g (List.mem_cons_of_mem _ hg)

theorem Tidy.rename (ht : s.Tidy size) (hk : s.top = some k) (hsize : size k' = size k) :
    (s.rename k').Tidy size := by
  obtain ⟨frames, blocks, fresh⟩ := s
  cases frames with
  | nil => exact ht
  | cons f fs =>
    obtain rfl := Option.some.inj hk
    show blocks = List.replicate (size k') f.id ++ own size fs
    rw [hsize]
    exact ht

end Rename

end ShadowStack
