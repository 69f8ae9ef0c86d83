/-
# Where the static server looks for files

The paths that the static server opens, resolved against its working directory.  A file
outside is opened for exactly the URLs that have, in some initial part, more parent
segments than names.
-/
import UvHttp.ExampleStatic
import UvHttp.Paths

/-! ## Paths of the file system -/

/-- A name that a directory can hold. -/
def IsFileName (s : OString) : Prop := s ≠ [] ∧ s ≠ lit "." ∧ s ≠ lit ".." ∧ slash ∉ s

instance (s : OString) : Decidable (IsFileName s) :=
  inferInstanceAs (Decidable (_ ∧ _ ∧ _ ∧ _))

/-- The names that directories hold. -/
abbrev FileName := { s : OString // IsFileName s }

/-- There is always another name: rows of the letter `a`. -/
instance : Infinite FileName := by
  have hname : ∀ n : ℕ, IsFileName (List.replicate (n + 1) 97) := fun n => by
    refine ⟨by simp, fun h => ?_, fun h => ?_, fun h => ?_⟩
    · exact absurd (List.eq_of_mem_replicate (h ▸ (by decide : (46 : UInt8) ∈ lit "."))) (by decide)
    · exact absurd (List.eq_of_mem_replicate (h ▸ (by decide : (46 : UInt8) ∈ lit "..")))
        (by decide)
    · exact absurd (List.eq_of_mem_replicate h) (by decide)
  refine Infinite.of_injective (fun n : ℕ => (⟨_, hname n⟩ : FileName)) fun m n h => ?_
  have hlength := congrArg (fun s : FileName => s.val.length) h
  simpa using hlength

/-- What a piece of a path between slashes means; nothing, and a single dot, stay. -/
def segmentOf (s : OString) : Segment FileName :=
  if s = lit ".." then .up else if h : IsFileName s then .name ⟨s, h⟩ else .here

/-- The segments of a path. -/
def segments (path : OString) : List (Segment FileName) := (path.splitOn slash).map segmentOf

/-- What a path names for a process in a working directory. -/
def locate (cwd : List FileName) (path : OString) : List FileName :=
  walk (if path.head? = some slash then [] else cwd) (segments path)

/-- The path names the working directory or something below it. -/
def Inside (cwd : List FileName) (path : OString) : Prop := cwd <+: locate cwd path

instance (cwd : List FileName) (path : OString) : Decidable (Inside cwd path) :=
  inferInstanceAs (Decidable (_ <+: _))

theorem segments_append_slash (p q : OString) :
    segments (p ++ slash :: q) = segments p ++ segments q := by
  rw [segments, List.splitOn_append_cons_self, List.map_append, segments, segments]

/-! ## The opened paths -/

/-- `index.html` after a final slash neither leaves a directory nor comes back. -/
theorem neverClimbs_segments_index {url : OString} (hurl : url ≠ []) :
    NeverClimbs (segments (lit "." ++
        (url ++ if url.getLast hurl = slash then lit "index.html" else []))) ↔
      NeverClimbs (segments (lit "." ++ url)) := by
  split_ifs with hlast
  · have hsplit := List.dropLast_append_getLast hurl
    rw [hlast] at hsplit
    rw [← hsplit, List.append_assoc, ← List.append_assoc (lit "."), ← List.append_assoc (lit ".")]
    show NeverClimbs (segments (_ ++ slash :: lit "index.html")) ↔
      NeverClimbs (segments (_ ++ slash :: []))
    rw [segments_append_slash, segments_append_slash]
    have hindex : segmentOf (lit "index.html") ≠ .up := by decide
    have hempty : segmentOf [] ≠ .up := by decide
    exact (neverClimbs_append_iff _ hindex).trans (neverClimbs_append_iff _ hempty).symm
  · rw [List.append_nil]

/-- A path that starts with a dot is seen from the working directory. -/
theorem locate_dot (cwd : List FileName) (path : OString) :
    locate cwd (lit "." ++ path) = walk cwd (segments (lit "." ++ path)) := rfl

/-- **Which URLs stay inside**: whatever the working directory, no file outside is
opened, if and only if no initial part of the segments of the dotted URL has more
parents than names. -/
theorem opened_inside_iff (openIn : OpenIn) (req : ReqT) :
    (∀ cwd, ∀ path ∈ openedFor openIn req, Inside cwd path) ↔
      NeverClimbs (segments (lit "." ++ req.url)) := by
  by_cases hurl : req.url = []
  · obtain ⟨url, headers⟩ := req
    obtain rfl : url = [] := hurl
    have hdot : NeverClimbs (segments (lit ".")) := by decide
    refine iff_of_true (fun cwd path hpath => ?_) hdot
    rw [openedFor_nil] at hpath
    exact absurd hpath List.not_mem_nil
  · rw [openedFor_of_ne_nil openIn req hurl, ← neverClimbs_segments_index hurl,
      ← stays_inside_iff]
    simp only [List.mem_singleton, forall_eq, Inside, locate_dot]

/-- A URL that climbs once, from a server in a directory below the root, opens a file
beside that directory. -/
theorem not_opened_inside :
    ¬ ∀ (openIn : OpenIn) (req : ReqT), req.url ≠ [] → (∀ c ∈ req.url, 33 ≤ c ∧ c ≤ 126) →
      ∀ cwd, ∀ path ∈ openedFor openIn req, Inside cwd path := by
  intro h
  have hchars : ∀ c ∈ lit "/../x", 33 ≤ c ∧ c ≤ 126 := by decide +kernel
  have hopened : lit "./../x" ∈ openedFor (fun _ => none) ⟨lit "/../x", ∅⟩ := by
    rw [openedFor_of_ne_nil _ _ (by decide), List.mem_singleton]
    decide
  have hinside := h (fun _ => none) ⟨lit "/../x", ∅⟩ (by decide) hchars
    [⟨lit "www", by decide⟩] _ hopened
  exact absurd hinside (by decide)

/-- In one working directory, a path that climbs is inside only when it comes back down
through the names of the directory itself. -/
theorem inside_dot_iff (cwd : List FileName) (path : OString) :
    Inside cwd (lit "." ++ path) ↔
      cwd.drop (cwd.length - (offset (segments (lit "." ++ path))).climb) <+:
        (offset (segments (lit "." ++ path))).down := by
  rw [Inside, locate_dot]
  exact prefix_walk_iff _ _

/-- Dots and parents between names do no harm. -/
example : NeverClimbs (segments (lit "./a/../b//./c/.../..")) := by decide
