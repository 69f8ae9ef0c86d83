/-
# Histories

A history is a list that grows at its end.  A property of every entry together
with the entries before it is an invariant of the history: it is kept when an
entry is added that has it.
-/
import Mathlib.Data.List.Induction

variable {α : Type}

/-- Every entry of a history stands in a relation to the entries before it. -/
def AtEvery (P : List α → α → Prop) (l : List α) : Prop :=
  ∀ pre a post, l = pre ++ a :: post → P pre a

theorem atEvery_nil (P : List α → α → Prop) : AtEvery P [] := by
  intro pre a post h
  cases pre <;> cases h

/-- **The step**: one more entry at the end. -/
theorem atEvery_concat_iff (P : List α → α → Prop) (l : List α) (a : α) :
    AtEvery P (l ++ [a]) ↔ AtEvery P l ∧ P l a := by
  constructor
  · intro h
    refine ⟨fun pre b post hsplit => h pre b (post ++ [a]) ?_, h l a [] rfl⟩
    rw [hsplit, List.append_assoc]
    rfl
  · rintro ⟨hl, ha⟩ pre b post hsplit
    -- the entry is the last one, or it stands in `l`
    rcases post.eq_nil_or_concat with rfl | ⟨post, c, rfl⟩
    · obtain ⟨rfl, hab⟩ := List.append_inj' hsplit rfl
      cases hab
      exact ha
    · rw [List.concat_eq_append, ← List.cons_append, ← List.append_assoc] at hsplit
      exact hl pre b post (List.append_inj' hsplit rfl).1

/-- What holds of a history holds of every earlier one. -/
theorem AtEvery.of_append {P : List α → α → Prop} {l m : List α} (h : AtEvery P (l ++ m)) :
    AtEvery P l := fun pre a post hsplit => h pre a (post ++ m) (by rw [hsplit]; simp)

theorem AtEvery.imp {P Q : List α → α → Prop} (hPQ : ∀ pre a, P pre a → Q pre a) {l : List α}
    (h : AtEvery P l) : AtEvery Q l := fun pre a post hsplit => hPQ pre a (h pre a post hsplit)

theorem AtEvery.and {P Q : List α → α → Prop} {l : List α} (hP : AtEvery P l)
    (hQ : AtEvery Q l) : AtEvery (fun pre a => P pre a ∧ Q pre a) l :=
  fun pre a post hsplit => ⟨hP pre a post hsplit, hQ pre a post hsplit⟩

/-- Where a property does not hold of every entry, there is a first entry that it does not
hold of. -/
theorem exists_first_of_not_atEvery {P : List α → α → Prop} {l : List α} (h : ¬ AtEvery P l) :
    ∃ pre a post, l = pre ++ a :: post ∧ AtEvery P pre ∧ ¬ P pre a := by
  induction l using List.reverseRecOn with
  | nil => exact absurd (atEvery_nil P) h
  | append_singleton l a ih =>
    by_cases hl : AtEvery P l
    · refine ⟨l, a, [], rfl, hl, fun ha => h ?_⟩
      exact (atEvery_concat_iff P l a).mpr ⟨hl, ha⟩
    · obtain ⟨pre, b, post, rfl, hpre, hb⟩ := ih hl
      exact ⟨pre, b, post ++ [a], by simp, hpre, hb⟩

/-- A history of images. -/
theorem atEvery_map_iff {β : Type} (f : β → α) (P : List α → α → Prop) (l : List β) :
    AtEvery P (l.map f) ↔ AtEvery (fun pre b => P (pre.map f) (f b)) l := by
  constructor
  · intro h pre b post hsplit
    exact h (pre.map f) (f b) (post.map f) (by rw [hsplit, List.map_append, List.map_cons])
  · intro h pre a post hsplit
    obtain ⟨front, back, rfl, rfl, hback⟩ := List.map_eq_append_iff.mp hsplit
    obtain ⟨b, rest, rfl, rfl, rfl⟩ := List.map_eq_cons_iff.mp hback
    exact h front b rest rfl

/-- Check every entry of a history that continues an earlier one. -/
def checkEvery (P : List α → α → Prop) [∀ pre a, Decidable (P pre a)] :
    List α → List α → Bool
  | _, [] => true
  | pre, a :: l => decide (P pre a) && checkEvery P (pre ++ [a]) l

theorem checkEvery_iff (P : List α → α → Prop) [∀ pre a, Decidable (P pre a)]
    (pre l : List α) :
    checkEvery P pre l = true ↔ AtEvery (fun mid a => P (pre ++ mid) a) l := by
  induction l generalizing pre with
  | nil => exact ⟨fun _ => atEvery_nil _, fun _ => rfl⟩
  | cons a l ih =>
    rw [checkEvery, Bool.and_eq_true, decide_eq_true_iff, ih]
    constructor
    · rintro ⟨ha, hl⟩ mid b post hsplit
      rcases mid with _ | ⟨c, mid⟩
      · obtain ⟨rfl, rfl⟩ := List.cons.inj hsplit
        rw [List.append_nil]
        exact ha
      · obtain ⟨rfl, rfl⟩ := List.cons.inj hsplit
        simpa using hl mid b post rfl
    · intro h
      refine ⟨?_, fun mid b post hsplit => ?_⟩
      · simpa using h [] a l rfl
      · simpa using h (a :: mid) b post (by rw [hsplit]; rfl)

instance (P : List α → α → Prop) [∀ pre a, Decidable (P pre a)] (l : List α) :
    Decidable (AtEvery P l) :=
  decidable_of_iff (checkEvery P [] l = true) (checkEvery_iff P [] l)

/-- What holds at every entry, of the entries before it that are kept by a filter,
holds at every entry of the filtered history. -/
theorem AtEvery.filter {P : List α → α → Prop} {keep : α → Bool} {l : List α}
    (h : AtEvery (fun pre a => keep a = true → P (pre.filter keep) a) l) :
    AtEvery P (l.filter keep) := by
  intro pre a post hsplit
  obtain ⟨front, back, rfl, hfront, hback⟩ := List.filter_eq_append_iff.mp hsplit
  obtain ⟨skipped, rest, rfl, hskipped, hkeep, -⟩ := List.filter_eq_cons_iff.mp hback
  have hpre : (front ++ skipped).filter keep = pre := by
    rw [List.filter_append, hfront, List.filter_eq_nil_iff.mpr hskipped, List.append_nil]
  rw [← hpre]
  exact h (front ++ skipped) a rest (by simp) hkeep
