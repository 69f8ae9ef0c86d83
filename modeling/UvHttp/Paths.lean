/-
# Relative paths

A path is a list of segments, each of which stays, goes to the parent or goes down to
a name; it is resolved one segment after the other, and the root is its own parent.
Whatever the directory it starts from, a path first climbs a number of levels and then
goes down through a list of names.  It stays inside every directory if and only if it
never climbs, and that can be seen from the numbers of parents and names in its initial
parts.
-/
import Mathlib.Data.List.Infix
import Mathlib.Data.Fintype.EquivFin
import Mathlib.Data.Finset.Basic

/-- A segment of a path. -/
inductive Segment (α : Type) where
  | here
  | up
  | name (a : α)
  deriving DecidableEq

variable {α : Type}

/-! ## Walking -/

/-- The directory reached from a directory, given by its names from the root down. -/
def Segment.enter (dir : List α) : Segment α → List α
  | .here => dir
  | .up => dir.dropLast
  | .name a => dir ++ [a]

/-- The directory or file that a path names, seen from a directory. -/
def walk (dir : List α) (p : List (Segment α)) : List α := p.foldl Segment.enter dir

/-! ## Climbing and going down -/

/-- What a path comes to: so many levels up, then down through the names. -/
structure Offset (α : Type) where
  climb : ℕ
  down : List α
  deriving DecidableEq

/-- An offset and one more segment. -/
def Offset.step : Offset α → Segment α → Offset α
  | o, .here => o
  | ⟨climb, []⟩, .up => ⟨climb + 1, []⟩
  | ⟨climb, a :: as⟩, .up => ⟨climb, (a :: as).dropLast⟩
  | ⟨climb, as⟩, .name a => ⟨climb, as ++ [a]⟩

/-- The offset of a path. -/
def offset (p : List (Segment α)) : Offset α := p.foldl Offset.step ⟨0, []⟩

/-- An offset, applied to a directory. -/
def Offset.apply (o : Offset α) (dir : List α) : List α :=
  dir.take (dir.length - o.climb) ++ o.down

theorem Offset.step_here (o : Offset α) : o.step .here = o := by
  cases o
  rfl

theorem Offset.apply_step (o : Offset α) (s : Segment α) (dir : List α) :
    (o.step s).apply dir = s.enter (o.apply dir) := by
  obtain ⟨climb, down⟩ := o
  cases s with
  | here => rw [Offset.step_here, Segment.enter]
  | name a => exact (List.append_assoc _ _ _).symm
  | up =>
    cases down with
    | nil =>
      show dir.take (dir.length - (climb + 1)) ++ [] =
        (dir.take (dir.length - climb) ++ []).dropLast
      rw [List.append_nil, List.append_nil, List.dropLast_eq_take, List.take_take,
        List.length_take]
      congr 1
      omega
    | cons a as =>
      show dir.take (dir.length - climb) ++ (a :: as).dropLast = _
      rw [Segment.enter, Offset.apply, List.dropLast_append_of_ne_nil (List.cons_ne_nil a as)]

/-- **A path does the same to every directory**: it climbs, then it goes down. -/
theorem walk_eq_apply (dir : List α) (p : List (Segment α)) :
    walk dir p = (offset p).apply dir := by
  have hfold : ∀ o : Offset α, p.foldl Segment.enter (o.apply dir) =
      (p.foldl Offset.step o).apply dir := by
    induction p with
    | nil => exact fun _ => rfl
    | cons s p ih => exact fun o => by rw [List.foldl_cons, List.foldl_cons, ← ih, o.apply_step]
  have hstart : (⟨0, []⟩ : Offset α).apply dir = dir := by
    rw [Offset.apply, Nat.sub_zero, List.take_length, List.append_nil]
  rw [walk, offset, ← hfold, hstart]

/-- **Inside one directory**: a path that climbs must come back down through the
names that it left. -/
theorem prefix_walk_iff (dir : List α) (p : List (Segment α)) :
    dir <+: walk dir p ↔
      dir.drop (dir.length - (offset p).climb) <+: (offset p).down := by
  have hsplit := List.take_append_drop (dir.length - (offset p).climb) dir
  rw [walk_eq_apply, Offset.apply]
  nth_rewrite 1 [← hsplit]
  exact List.prefix_append_right_inj _

/-- **Inside every directory**: a path stays there if and only if it does not climb. -/
theorem forall_prefix_walk_iff [Infinite α] (p : List (Segment α)) :
    (∀ dir, dir <+: walk dir p) ↔ (offset p).climb = 0 := by
  classical
  constructor
  · intro hinside
    -- a directory whose name the path does not know cannot be entered again
    obtain ⟨a, ha⟩ := Infinite.exists_notMem_finset (offset p).down.toFinset
    by_contra hclimb
    have hpre := (prefix_walk_iff [a] p).mp (hinside [a])
    rw [List.length_singleton, Nat.sub_eq_zero_of_le (Nat.one_le_iff_ne_zero.mpr hclimb),
      List.drop_zero] at hpre
    exact ha (List.mem_toFinset.mpr (hpre.subset (List.mem_singleton_self a)))
  · intro hclimb dir
    rw [prefix_walk_iff, hclimb, Nat.sub_zero, List.drop_length]
    exact List.nil_prefix

/-! ## Counting parents and names -/

/-- The segment goes to the parent. -/
def Segment.isUp : Segment α → Bool
  | .up => true
  | _ => false

/-- The segment is a name. -/
def Segment.isName : Segment α → Bool
  | .name _ => true
  | _ => false

/-- In every initial part there are at least as many names as parents. -/
def NeverClimbs (p : List (Segment α)) : Prop :=
  ∀ k ≤ p.length, (p.take k).countP Segment.isUp ≤ (p.take k).countP Segment.isName

instance (p : List (Segment α)) : Decidable (NeverClimbs p) :=
  inferInstanceAs (Decidable (∀ k ≤ p.length, _))

theorem offset_append_singleton (p : List (Segment α)) (s : Segment α) :
    offset (p ++ [s]) = (offset p).step s := List.foldl_concat ..

/-- One segment and the difference of the two counts. -/
theorem Offset.balance_step (o : Offset α) (s : Segment α) :
    (o.step s).down.length + s.isUp.toNat + o.climb =
      o.down.length + s.isName.toNat + (o.step s).climb := by
  obtain ⟨climb, down⟩ := o
  cases s with
  | here => rfl
  | name a => simp [Offset.step, Segment.isUp, Segment.isName]
  | up =>
    cases down with
    | nil => simp [Offset.step, Segment.isUp, Segment.isName, Nat.add_comm]
    | cons a as => simp [Offset.step, Segment.isUp, Segment.isName]

/-- The names that are left and the levels climbed have the difference of the counts. -/
theorem balance_offset (p : List (Segment α)) :
    (offset p).down.length + p.countP Segment.isUp =
      p.countP Segment.isName + (offset p).climb := by
  induction p using List.reverseRecOn with
  | nil => rfl
  | append_singleton p s ih =>
    have hstep := (offset p).balance_step s
    rw [offset_append_singleton, List.countP_append, List.countP_append, List.countP_singleton,
      List.countP_singleton]
    cases s <;> simp only [Segment.isUp, Segment.isName, Bool.toNat_true, Bool.toNat_false,
      reduceIte, Bool.false_eq_true] at hstep ⊢ <;> omega

theorem neverClimbs_append_singleton (p : List (Segment α)) (s : Segment α) :
    NeverClimbs (p ++ [s]) ↔ NeverClimbs p ∧
      (p ++ [s]).countP Segment.isUp ≤ (p ++ [s]).countP Segment.isName := by
  constructor
  · intro h
    refine ⟨fun k hk => ?_, ?_⟩
    · have := h k (by rw [List.length_append]; omega)
      rwa [List.take_append_of_le_length hk] at this
    · have := h (p ++ [s]).length (Nat.le_refl _)
      rwa [List.take_length] at this
  · rintro ⟨hp, hall⟩ k hk
    rcases Nat.lt_or_ge p.length k with hlt | hle
    · have hk' : k = (p ++ [s]).length := by
        rw [List.length_append, List.length_singleton] at hk ⊢
        omega
      rwa [hk', List.take_length]
    · rw [List.take_append_of_le_length hle]
      exact hp k hle

/-- A segment makes an offset climb by a level at most, and then nothing is left to go
down to. -/
theorem Offset.climb_step (o : Offset α) (s : Segment α) :
    (o.step s).climb = o.climb ∨ (o.step s).climb = o.climb + 1 ∧ (o.step s).down = [] := by
  obtain ⟨climb, down⟩ := o
  cases s with
  | here => exact .inl rfl
  | name a => exact .inl rfl
  | up =>
    cases down with
    | nil => exact .inr ⟨rfl, rfl⟩
    | cons a as => exact .inl rfl

/-- **Climbing seen from the counts**: a path climbs if and only if some initial part
has more parents than names. -/
theorem climb_eq_zero_iff (p : List (Segment α)) : (offset p).climb = 0 ↔ NeverClimbs p := by
  induction p using List.reverseRecOn with
  | nil =>
    refine iff_of_true rfl fun k _ => ?_
    rw [List.take_nil]
    exact Nat.le_refl _
  | append_singleton p s ih =>
    have hbalance := balance_offset (p ++ [s])
    have hstep := (offset p).climb_step s
    rw [← offset_append_singleton] at hstep
    rw [neverClimbs_append_singleton, ← ih]
    constructor
    · intro h
      have hp : (offset p).climb = 0 := by omega
      exact ⟨hp, by omega⟩
    · rintro ⟨hp, hcount⟩
      rcases hstep with hsame | ⟨hmore, hdown⟩
      · rw [hsame, hp]
      · rw [hdown, List.length_nil] at hbalance
        omega

/-- **Containment**: a path stays inside every directory if and only if no initial part
has more parents than names. -/
theorem stays_inside_iff [Infinite α] (p : List (Segment α)) :
    (∀ dir, dir <+: walk dir p) ↔ NeverClimbs p := by
  rw [forall_prefix_walk_iff, climb_eq_zero_iff]

/-- A last segment that is not a parent changes nothing. -/
theorem neverClimbs_append_iff (p : List (Segment α)) {s : Segment α} (hs : s ≠ .up) :
    NeverClimbs (p ++ [s]) ↔ NeverClimbs p := by
  rw [← climb_eq_zero_iff, ← climb_eq_zero_iff, offset_append_singleton]
  obtain ⟨climb, down⟩ := offset p
  cases s with
  | up => exact absurd rfl hs
  | here => exact Iff.rfl
  | name a => exact Iff.rfl
