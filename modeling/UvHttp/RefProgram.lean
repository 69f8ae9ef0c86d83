/-
# Programs over mutable references

A program that may raise and that reads and assigns mutable cells is an `EStateM`
program over the type `S` of stores; a cell is a `Ref S α`.  Two proof rules for
such programs are developed here, each closed under sequencing:

* `Sim R m n`: run from `R`-related stores, `m` and `n` return the same value (or
  raise the same exception) in `R`-related stores;
* `Keeps P m`: `m` leaves a property of the store as it was, also when it raises.

Neither mentions what the stores are, so a program written once against
references can be compared on two different stores.  A heap, last, is a supply of cells
of one type: an allocation takes the next address, so a new cell is different from every
cell in use.
-/
import Mathlib

/-! ## References -/

/-- A mutable cell of a store. -/
structure Ref (S α : Type*) where
  get : S → α
  set : α → S → S

variable {ε S T α β : Type}

/-- Read a cell. -/
def Ref.read (r : Ref S α) : EStateM ε S α := fun s => .ok (r.get s) s

/-- Assign to a cell. -/
def Ref.assign (r : Ref S α) (a : α) : EStateM ε S Unit := fun s => .ok () (r.set a s)

/-- Change what is in a cell. -/
def Ref.update (r : Ref S α) (f : α → α) : EStateM ε S Unit :=
  fun s => .ok () (r.set (f (r.get s)) s)

/-- Reading leaves the store as it is. -/
@[simp] theorem Ref.read_apply (r : Ref S α) (s : S) :
    (r.read : EStateM ε S α) s = .ok (r.get s) s := rfl

/-- An assignment changes the store by the setter of the cell. -/
@[simp] theorem Ref.assign_apply (r : Ref S α) (a : α) (s : S) :
    (r.assign a : EStateM ε S Unit) s = .ok () (r.set a s) := rfl

/-- An update reads the cell and assigns to it. -/
@[simp] theorem Ref.update_apply (r : Ref S α) (f : α → α) (s : S) :
    (r.update f : EStateM ε S Unit) s = .ok () (r.set (f (r.get s)) s) := rfl

/-! ## Sequencing -/

/-- Returning leaves the store as it is. -/
@[simp] theorem EStateM.pure_apply (a : α) (s : S) :
    (Pure.pure a : EStateM ε S α) s = .ok a s := rfl

/-- A sequence runs its first part, and its second if the first returns. -/
theorem EStateM.bind_apply (m : EStateM ε S α) (f : α → EStateM ε S β) (s : S) :
    (m >>= f) s = match m s with
      | .ok a s' => f a s'
      | .error e s' => .error e s' := rfl

/-- The first part returns. -/
theorem EStateM.bind_ok {m : EStateM ε S α} {f : α → EStateM ε S β} {s s' : S} {a : α}
    (h : m s = .ok a s') : (m >>= f) s = f a s' := by
  rw [EStateM.bind_apply, h]

/-- The first part raises. -/
theorem EStateM.bind_error {m : EStateM ε S α} {f : α → EStateM ε S β} {s s' : S} {e : ε}
    (h : m s = .error e s') : (m >>= f) s = .error e s' := by
  rw [EStateM.bind_apply, h]

/-- A run over one more element. -/
theorem EStateM.forM_concat {ι : Type} (f : ι → EStateM ε S PUnit) (is : List ι) (i : ι) (s : S) :
    List.forM (is ++ [i]) f s = match List.forM is f s with
      | .ok _ s' => f i s'
      | .error x s' => .error x s' := by
  induction is generalizing s with
  | nil =>
    show (f i >>= fun _ => pure PUnit.unit) s = f i s
    rw [EStateM.bind_apply]
    cases f i s <;> rfl
  | cons j is ih =>
    show (f j >>= fun _ => List.forM (is ++ [i]) f) s = _
    rw [EStateM.bind_apply]
    show _ = match (f j >>= fun _ => List.forM is f) s with
      | .ok _ s' => f i s'
      | .error x s' => .error x s'
    rw [EStateM.bind_apply]
    cases f j s with
    | ok _ s' => exact ih s'
    | error x s' => rfl

/-- A run over two lists. -/
theorem EStateM.forM_append {ι : Type} (f : ι → EStateM ε S PUnit) (is js : List ι) (s : S) :
    List.forM (is ++ js) f s = match List.forM is f s with
      | .ok _ s' => List.forM js f s'
      | .error x s' => .error x s' := by
  induction is generalizing s with
  | nil => rfl
  | cons i is ih =>
    show (f i >>= fun _ => List.forM (is ++ js) f) s
      = match (f i >>= fun _ => List.forM is f) s with
      | .ok _ s' => List.forM js f s'
      | .error x s' => .error x s'
    rw [EStateM.bind_apply, EStateM.bind_apply]
    cases f i s with
    | ok _ s' => exact ih s'
    | error x s' => rfl

/-- The store a run ends in, whether it returned or raised. -/
def EStateM.Result.store : EStateM.Result ε S α → S
  | .ok _ s => s
  | .error _ s => s

/-- The store of a run that returned. -/
@[simp] theorem EStateM.Result.store_ok (a : α) (s : S) :
    (EStateM.Result.ok a s : EStateM.Result ε S α).store = s := rfl

/-- The store of a run that raised. -/
@[simp] theorem EStateM.Result.store_error (e : ε) (s : S) :
    (EStateM.Result.error e s : EStateM.Result ε S α).store = s := rfl

/-! ## Simulation -/

/-- Two results agree up to a relation between their stores. -/
def EStateM.Result.Rel (R : S → T → Prop) :
    EStateM.Result ε S α → EStateM.Result ε T α → Prop
  | .ok a s, .ok b t => a = b ∧ R s t
  | .error e s, .error e' t => e = e' ∧ R s t
  | _, _ => False

/-- From related stores, both programs do the same and end in related stores. -/
def Sim (R : S → T → Prop) (m : EStateM ε S α) (n : EStateM ε T α) : Prop :=
  ∀ s t, R s t → (m s).Rel R (n t)

namespace Sim

variable {R : S → T → Prop}

/-- Both return. -/
theorem pure (a : α) : Sim R (Pure.pure a : EStateM ε S α) (Pure.pure a) :=
  fun _ _ hR => ⟨rfl, hR⟩

/-- Both raise. -/
theorem throw (e : ε) : Sim R (MonadExceptOf.throw e : EStateM ε S α) (MonadExceptOf.throw e) :=
  fun _ _ hR => ⟨rfl, hR⟩

/-- Cells with the same contents in related stores. -/
theorem read {r : Ref S α} {q : Ref T α} (h : ∀ s t, R s t → r.get s = q.get t) :
    Sim R (r.read : EStateM ε S α) q.read :=
  fun s t hR => ⟨h s t hR, hR⟩

/-- Cells whose assignment keeps stores related. -/
theorem assign {r : Ref S α} {q : Ref T α} (a : α)
    (h : ∀ s t, R s t → R (r.set a s) (q.set a t)) :
    Sim R (r.assign a : EStateM ε S Unit) (q.assign a) :=
  fun s t hR => ⟨rfl, h s t hR⟩

/-- One part after the other. -/
theorem bind {m : EStateM ε S α} {n : EStateM ε T α} {f : α → EStateM ε S β}
    {g : α → EStateM ε T β} (hmn : Sim R m n) (hfg : ∀ a, Sim R (f a) (g a)) :
    Sim R (m >>= f) (n >>= g) := by
  intro s t hR
  have h := hmn s t hR
  rw [EStateM.bind_apply, EStateM.bind_apply]
  cases hm : m s with
  | ok a s' =>
    cases hn : n t with
    | ok b t' =>
      rw [hm, hn] at h
      obtain ⟨rfl, hR'⟩ := h
      exact hfg a s' t' hR'
    | error e t' => rw [hm, hn] at h; exact h.elim
  | error e s' =>
    cases hn : n t with
    | ok b t' => rw [hm, hn] at h; exact h.elim
    | error e' t' => rw [hm, hn] at h; exact h

/-- A loop, when its body does the same for every element. -/
theorem forM {ι : Type} {f : ι → EStateM ε S PUnit} {g : ι → EStateM ε T PUnit}
    (h : ∀ i, Sim R (f i) (g i)) : ∀ is : List ι, Sim R (is.forM f) (is.forM g)
  | [] => pure _
  | i :: is => bind (h i) fun _ => forM h is

end Sim

/-! ## Preservation -/

/-- `m` keeps a property of the store, whether it returns or raises. -/
def Keeps (P : S → Prop) (m : EStateM ε S α) : Prop := ∀ s, P s → P (m s).store

namespace Keeps

variable {P : S → Prop}

theorem pure (a : α) : Keeps P (Pure.pure a : EStateM ε S α) := fun _ hP => hP

theorem throw (e : ε) : Keeps P (MonadExceptOf.throw e : EStateM ε S α) := fun _ hP => hP

/-- Reading keeps everything. -/
theorem read (r : Ref S α) : Keeps P (r.read : EStateM ε S α) := fun _ hP => hP

/-- An assignment that keeps the property. -/
theorem assign {r : Ref S α} {a : α} (h : ∀ s, P s → P (r.set a s)) :
    Keeps P (r.assign a : EStateM ε S Unit) := fun s hP => h s hP

/-- An update that keeps it. -/
theorem update {r : Ref S α} {f : α → α} (h : ∀ s, P s → P (r.set (f (r.get s)) s)) :
    Keeps P (r.update f : EStateM ε S Unit) := fun s hP => h s hP

/-- One part after the other. -/
theorem bind {m : EStateM ε S α} {f : α → EStateM ε S β} (hm : Keeps P m)
    (hf : ∀ a, Keeps P (f a)) : Keeps P (m >>= f) := by
  intro s hP
  have h := hm s hP
  rw [EStateM.bind_apply]
  cases hms : m s with
  | ok a s' => rw [hms] at h; exact hf a s' h
  | error e s' => rw [hms] at h; exact h

/-- A loop, when its body keeps it for every element. -/
theorem forM {ι : Type} {f : ι → EStateM ε S PUnit} (h : ∀ i, Keeps P (f i)) :
    ∀ is : List ι, Keeps P (is.forM f)
  | [] => pure _
  | i :: is => bind (h i) fun _ => forM h is

end Keeps

/-! ## Heaps of cells -/

/-- A cell inside a part of a larger store. -/
def Ref.comp (outer : Ref S T) (inner : Ref T α) : Ref S α where
  get := fun s => inner.get (outer.get s)
  set := fun a s => outer.set (inner.set a (outer.get s)) s

/-- Cells of one type, and the first address not in use. -/
structure Heap (α : Type) where
  next : ℕ
  cell : ℕ → α

namespace Heap

/-- A heap without cells; what stands at addresses not in use does not matter. -/
def empty (a : α) : Heap α := ⟨0, fun _ => a⟩

/-- A new cell. -/
def alloc (h : Heap α) (a : α) : Heap α := ⟨h.next + 1, Function.update h.cell h.next a⟩

/-- The cell at an address. -/
def ref (i : ℕ) : Ref (Heap α) α where
  get := fun h => h.cell i
  set := fun a h => { h with cell := Function.update h.cell i a }

/-- The new cell has what it was allocated with. -/
@[simp] theorem alloc_cell_next (h : Heap α) (a : α) : (h.alloc a).cell h.next = a :=
  Function.update_self ..

/-- Allocation leaves the cells in use alone. -/
theorem alloc_cell_of_lt (h : Heap α) (a : α) {i : ℕ} (hi : i < h.next) :
    (h.alloc a).cell i = h.cell i := Function.update_of_ne (Nat.ne_of_lt hi) ..

end Heap

/-- Allocate in a heap that is part of a store. -/
def Ref.allocate (r : Ref S (Heap α)) (a : α) : EStateM ε S ℕ :=
  fun s => .ok (r.get s).next (r.set ((r.get s).alloc a) s)
