/-
# Machines with guarded steps

A machine takes events one at a time; an event is possible in some states and not
in others.  Three notions of what holds along a run, and the induction that
connects them: a condition on the steps of a run, an invariant of its states, and
a property of every state it goes through.
-/
import Mathlib.Data.List.Basic

/-- States, events that may be possible in them, and what an event does. -/
structure Machine (σ ε : Type*) where
  enabled : σ → ε → Bool
  exec : σ → ε → σ

namespace Machine

variable {σ ε : Type*} (M : Machine σ ε)

/-- The state after a list of events. -/
def after (s : σ) (es : List ε) : σ := es.foldl M.exec s

@[simp] theorem after_nil (s : σ) : M.after s [] = s := rfl

@[simp] theorem after_cons (s : σ) (e : ε) (es : List ε) :
    M.after s (e :: es) = M.after (M.exec s e) es := rfl

/-- A condition on a step holds at every step of a run. -/
def Along (P : σ → ε → Prop) : σ → List ε → Prop
  | _, [] => True
  | s, e :: es => P s e ∧ Along P (M.exec s e) es

instance (P : σ → ε → Prop) [∀ s e, Decidable (P s e)] (s : σ) (es : List ε) :
    Decidable (M.Along P s es) :=
  match es with
  | [] => isTrue trivial
  | e :: es =>
    have := instDecidableAlong P (M.exec s e) es
    inferInstanceAs (Decidable (P s e ∧ M.Along P (M.exec s e) es))

/-- Every event of the run is possible when its turn comes. -/
def Possible (s : σ) (es : List ε) : Prop := M.Along (fun s e => M.enabled s e = true) s es

instance (s : σ) (es : List ε) : Decidable (M.Possible s es) :=
  inferInstanceAs (Decidable (M.Along _ s es))

/-- Every state that the run goes through has the property, the first and the last
included. -/
def EveryState (Q : σ → Prop) (s : σ) (es : List ε) : Prop :=
  ∀ pre, pre <+: es → Q (M.after s pre)

variable {M}

theorem after_concat (s : σ) (es : List ε) (e : ε) :
    M.after s (es ++ [e]) = M.exec (M.after s es) e := List.foldl_append

theorem along_concat_iff {P : σ → ε → Prop} {s : σ} {es : List ε} {e : ε} :
    M.Along P s (es ++ [e]) ↔ M.Along P s es ∧ P (M.after s es) e := by
  induction es generalizing s with
  | nil => exact ⟨fun h => ⟨trivial, h.1⟩, fun h => ⟨h.2, trivial⟩⟩
  | cons e' es ih =>
    rw [List.cons_append, after_cons]
    show P s e' ∧ M.Along P (M.exec s e') (es ++ [e]) ↔ (P s e' ∧ _) ∧ _
    rw [ih, and_assoc]

theorem everyState_cons_iff {Q : σ → Prop} {s : σ} {e : ε} {es : List ε} :
    M.EveryState Q s (e :: es) ↔ Q s ∧ M.EveryState Q (M.exec s e) es := by
  constructor
  · intro h
    refine ⟨h [] (List.nil_prefix), fun pre hpre => ?_⟩
    exact h (e :: pre) ((List.cons_prefix_cons).mpr ⟨rfl, hpre⟩)
  · rintro ⟨hs, h⟩ pre hpre
    cases pre with
    | nil => exact hs
    | cons e' pre =>
      obtain ⟨rfl, hrest⟩ := List.cons_prefix_cons.mp hpre
      exact h pre hrest

/-- **The induction over runs.**  What every possible step that meets a condition
preserves, a possible run of such steps preserves. -/
theorem invariant {I : σ → Prop} {P : σ → ε → Prop}
    (hstep : ∀ s e, I s → M.enabled s e = true → P s e → I (M.exec s e)) {s : σ} (hs : I s)
    {es : List ε} (hes : M.Possible s es) (hP : M.Along P s es) : I (M.after s es) := by
  induction es generalizing s with
  | nil => exact hs
  | cons e es ih => exact ih (hstep s e hs hes.1 hP.1) hes.2 hP.2

/-- An invariant of all possible steps. -/
theorem invariant_of_possible {I : σ → Prop}
    (hstep : ∀ s e, I s → M.enabled s e = true → I (M.exec s e)) {s : σ} (hs : I s)
    {es : List ε} (hes : M.Possible s es) : I (M.after s es) := by
  induction es generalizing s with
  | nil => exact hs
  | cons e es ih => exact ih (hstep s e hs hes.1) hes.2

theorem Along.of_prefix {P : σ → ε → Prop} {s : σ} {pre es : List ε} (hpre : pre <+: es)
    (h : M.Along P s es) : M.Along P s pre := by
  induction pre generalizing s es with
  | nil => trivial
  | cons e pre ih =>
    obtain ⟨post, rfl⟩ := hpre
    exact ⟨h.1, ih (List.prefix_append pre post) h.2⟩

/-- A run whose steps meet the condition goes through good states only. -/
theorem everyState_of_along {I Q : σ → Prop} {P : σ → ε → Prop}
    (hstep : ∀ s e, I s → M.enabled s e = true → P s e → I (M.exec s e))
    (hIQ : ∀ s, I s → Q s) {s : σ} (hs : I s) {es : List ε} (hes : M.Possible s es)
    (hP : M.Along P s es) : M.EveryState Q s es := fun _ hpre =>
  hIQ _ (invariant hstep hs (hes.of_prefix hpre) (hP.of_prefix hpre))

/-- **When good states mean good steps.**  If a step that fails the condition leads
to a bad state at once, a run goes through good states exactly when all its steps
meet the condition. -/
theorem everyState_iff_along {I Q : σ → Prop} {P : σ → ε → Prop}
    (hstep : ∀ s e, I s → M.enabled s e = true → P s e → I (M.exec s e))
    (hIQ : ∀ s, I s → Q s)
    (hbad : ∀ s e, I s → M.enabled s e = true → ¬ P s e → ¬ Q (M.exec s e))
    {s : σ} (hs : I s) {es : List ε} (hes : M.Possible s es) :
    M.EveryState Q s es ↔ M.Along P s es := by
  refine ⟨fun h => ?_, everyState_of_along hstep hIQ hs hes⟩
  induction es generalizing s with
  | nil => trivial
  | cons e es ih =>
    obtain ⟨-, hrest⟩ := everyState_cons_iff.mp h
    have hP : P s e := by
      by_contra hP
      exact hbad s e hs hes.1 hP (hrest [] List.nil_prefix)
    exact ⟨hP, ih (hstep s e hs hes.1 hP) hes.2 hrest⟩

/-- **When a bad step cannot be made good.**  If a step that fails the condition spoils
the state and spoilt states stay spoilt, the steps of a run all meet the condition
or its last state is spoilt. -/
theorem along_or_spoilt {I B : σ → Prop} {P : σ → ε → Prop}
    (hstep : ∀ s e, I s → M.enabled s e = true → P s e → I (M.exec s e))
    (hspoil : ∀ s e, I s → M.enabled s e = true → ¬ P s e → B (M.exec s e))
    (hstay : ∀ s e, B s → M.enabled s e = true → B (M.exec s e)) {s : σ} (hs : I s)
    {es : List ε} (hes : M.Possible s es) : M.Along P s es ∨ B (M.after s es) := by
  induction es generalizing s with
  | nil => exact .inl trivial
  | cons e es ih =>
    by_cases hP : P s e
    · exact (ih (hstep s e hs hes.1 hP) hes.2).imp_left fun h => ⟨hP, h⟩
    · exact .inr (invariant_of_possible hstay (hspoil s e hs hes.1 hP) hes.2)

/-! ## Rest -/

/-- Events of one kind that use up a measure: of them alone, no run is longer than the
measure says. -/
theorem length_le_of_decreases {K : ε → Prop} {μ : σ → ℕ}
    (hdec : ∀ s e, K e → M.enabled s e = true → μ (M.exec s e) < μ s) {s : σ} {es : List ε}
    (hes : M.Possible s es) (hK : ∀ e ∈ es, K e) : es.length ≤ μ s := by
  induction es generalizing s with
  | nil => exact Nat.zero_le _
  | cons e es ih =>
    have hlt := hdec s e (hK e List.mem_cons_self) hes.1
    have hrest := ih hes.2 fun e' he' => hK e' (List.mem_cons_of_mem _ he')
    rw [List.length_cons]
    omega

/-- **Coming to rest.**  If such an event is possible in every state that is not at rest,
some run of them ends at rest. -/
theorem exists_run_to_rest {K : ε → Prop} {μ : σ → ℕ} {R : σ → Prop}
    (hdec : ∀ s e, K e → M.enabled s e = true → μ (M.exec s e) < μ s)
    (hlive : ∀ s, ¬ R s → ∃ e, K e ∧ M.enabled s e = true) (s : σ) :
    ∃ es, (∀ e ∈ es, K e) ∧ M.Possible s es ∧ R (M.after s es) := by
  induction hn : μ s using Nat.strongRecOn generalizing s with
  | ind n ih =>
    by_cases hs : R s
    · exact ⟨[], nofun, trivial, hs⟩
    · obtain ⟨e, he, hen⟩ := hlive s hs
      have hlt := hdec s e he hen
      rw [hn] at hlt
      obtain ⟨es, hK, hes, hrest⟩ := ih _ hlt (M.exec s e) rfl
      refine ⟨e :: es, fun e' he' => ?_, ⟨hen, hes⟩, hrest⟩
      rcases List.mem_cons.mp he' with rfl | he'
      · exact he
      · exact hK e' he'

end Machine
