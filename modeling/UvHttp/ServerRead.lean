/-
# Reads of the server

`read_cb` is to hand every read to the closure of `requestOn`, and an empty string
when the peer has closed or failed.  For that string it asks for `nread` bytes, a
negative number taken for a size: no string comes of it.
-/
import UvHttp.Stubs

/-- The strings that are due for one read: its bytes, nothing for an empty read, and
one empty string for an error. -/
def ReadEvent.due (e : ReadEvent) : List OString :=
  if e.nread < 0 then [[]] else if e.nread = 0 then [] else [e.bytes]

/-- The strings that are due for a list of reads. -/
def due (es : List ReadEvent) : List OString := es.flatMap ReadEvent.due

/-- What `read_cb` does on a list of reads, with the closure of `requestOn`, which
takes one argument. -/
def serverReads (es : List ReadEvent) : StubTrace :=
  (List.forM es (readCb 1) StubTrace.empty).store

/-- What `client_read_cb` does on the same reads, with the closure of `request`,
which takes two. -/
def clientReads (es : List ReadEvent) : StubTrace :=
  (List.forM es (clientReadCb 2) StubTrace.empty).store

/-- The closure gets the strings that are due, in order; no length that is asked for exceeds
what is to be copied; and the client side builds the same strings. -/
structure ReadsDelivered (es : List ReadEvent) : Prop where
  delivered : (serverReads es).bodies = (due es).map fun s => [.string s]
  bounded : ∀ c ∈ (serverReads es).copies, c.1 ≤ c.2
  sameAsClient : (clientReads es).applied = (serverReads es).applied

section Runs

variable {es : List ReadEvent} {t : StubTrace}

theorem forM_cons_ok {f : ReadEvent → Stub Unit} {e : ReadEvent} {t' : StubTrace}
    (h : f e t = .ok () t') : List.forM (e :: es) f t = List.forM es f t' :=
  EStateM.bind_ok h

/-- The entries of the record for one read of the server. -/
theorem exists_readCb_of_nonneg {e : ReadEvent} (hn : 0 ≤ e.nread) (t : StubTrace) :
    ∃ t', readCb 1 e t = .ok () t' ∧
      t'.bodies = t.bodies ++ e.due.map (fun s => [.string s]) ∧
      t'.applied = t.applied ++ e.due.map (fun s => [.string s]) ∧
      ((∀ c ∈ t.copies, c.1 ≤ c.2) → ∀ c ∈ t'.copies, c.1 ≤ c.2) := by
  have hlt : ¬ e.nread < 0 := Int64.not_lt.mpr hn
  by_cases h0 : e.nread = 0
  · have hdue : e.due = [] := by rw [ReadEvent.due, if_neg hlt, if_pos h0]
    exact ⟨t, readCb_of_zero h0, by simp [hdue], by simp [hdue], fun h => h⟩
  · have hdue : e.due = [e.bytes] := by rw [ReadEvent.due, if_neg hlt, if_neg h0]
    have hpos : 0 < e.nread := Int64.lt_of_le_of_ne hn (Ne.symm h0)
    refine ⟨_, (readCb_of_pos hpos).trans (apply_of_length_eq rfl), ?_, ?_, ?_⟩
    · rw [hdue]
      rfl
    · rw [hdue]
      rfl
    · intro hbounded c hc
      rcases List.mem_append.mp hc with hc | hc
      · exact hbounded c hc
      · rw [List.mem_singleton.mp hc]
        exact e.toNat_le hn

/-- The entries of the record for one read of the client. -/
theorem exists_clientReadCb_of_nonneg {e : ReadEvent} (hn : 0 ≤ e.nread) (t : StubTrace) :
    ∃ t', clientReadCb 2 e t = .ok () t' ∧ t'.bodies = t.bodies ∧
      t'.applied = t.applied ++ e.due.map (fun s => [.string s]) := by
  have hlt : ¬ e.nread < 0 := Int64.not_lt.mpr hn
  rw [clientReadCb_of_nonneg hn]
  by_cases h0 : e.nread = 0
  · have hdue : e.due = [] := by rw [ReadEvent.due, if_neg hlt, if_pos h0]
    exact ⟨t, readCb_of_zero h0, rfl, by simp [hdue]⟩
  · have hdue : e.due = [e.bytes] := by rw [ReadEvent.due, if_neg hlt, if_neg h0]
    have hpos : 0 < e.nread := Int64.lt_of_le_of_ne hn (Ne.symm h0)
    refine ⟨_, (readCb_of_pos hpos).trans (apply_of_length_lt (by simp)), rfl, ?_⟩
    rw [hdue]
    rfl

/-- **Reads without an error are handed over**, and no copy would be out of bounds. -/
theorem serverReads_of_nonneg (hes : ∀ e ∈ es, 0 ≤ e.nread)
    (hbounded : ∀ c ∈ t.copies, c.1 ≤ c.2) :
    (List.forM es (readCb 1) t).store.bodies
        = t.bodies ++ (due es).map (fun s => [.string s]) ∧
      (List.forM es (readCb 1) t).store.applied
        = t.applied ++ (due es).map (fun s => [.string s]) ∧
      ∀ c ∈ (List.forM es (readCb 1) t).store.copies, c.1 ≤ c.2 := by
  induction es generalizing t with
  | nil => exact ⟨by simp [due], by simp [due], hbounded⟩
  | cons e es ih =>
    obtain ⟨t', hrun, hbodies, happlied, hcopies⟩ :=
      exists_readCb_of_nonneg (hes e List.mem_cons_self) t
    obtain ⟨hb, ha, hc⟩ := ih (fun e' he' => hes e' (List.mem_cons_of_mem _ he'))
      (hcopies hbounded)
    rw [forM_cons_ok hrun, hb, ha, hbodies, happlied]
    refine ⟨?_, ?_, hc⟩ <;> simp [due]

/-- On these reads the client side applies its closure to the same strings. -/
theorem clientReads_of_nonneg (hes : ∀ e ∈ es, 0 ≤ e.nread) :
    (List.forM es (clientReadCb 2) t).store.applied
      = t.applied ++ (due es).map (fun s => [.string s]) := by
  induction es generalizing t with
  | nil => simp [due]
  | cons e es ih =>
    obtain ⟨t', hrun, -, happlied⟩ :=
      exists_clientReadCb_of_nonneg (hes e List.mem_cons_self) t
    rw [forM_cons_ok hrun, ih fun e' he' => hes e' (List.mem_cons_of_mem _ he'), happlied]
    simp [due]

/-- An error makes `read_cb` ask for a copy of more than there is. -/
theorem nonneg_of_bounded (hbounded : ∀ c ∈ (List.forM es (readCb 1) t).store.copies, c.1 ≤ c.2) :
    ∀ e ∈ es, 0 ≤ e.nread := by
  induction es generalizing t with
  | nil => exact fun e he => nomatch he
  | cons e es ih =>
    by_cases hn : e.nread < 0
    · -- what ends the run is in the record, and is too long
      have hrun : List.forM (e :: es) (readCb 1) t = .error (errorStop e.nread)
          { t with copies := t.copies ++ [(e.nread.toUInt64.toNat, 1)] } :=
        EStateM.bind_error (readCb_of_neg hn)
      have hle := hbounded (e.nread.toUInt64.toNat, 1) (by rw [hrun]; simp)
      have := le_toNat_toUInt64_of_neg hn
      simp only at hle
      omega
    · have hnonneg : 0 ≤ e.nread := Int64.not_lt.mp hn
      obtain ⟨t', hrun, -⟩ := exists_readCb_of_nonneg hnonneg t
      rw [forM_cons_ok hrun] at hbounded
      rintro e' (_ | ⟨_, he'⟩)
      · exact hnonneg
      · exact ih hbounded e' he'

end Runs

/-- **Reads are delivered exactly when none of them is an error.** -/
theorem readsDelivered_iff (es : List ReadEvent) :
    ReadsDelivered es ↔ ∀ e ∈ es, 0 ≤ e.nread := by
  constructor
  · intro h
    exact nonneg_of_bounded h.bounded
  · intro hes
    obtain ⟨hbodies, happlied, hcopies⟩ :=
      serverReads_of_nonneg (t := StubTrace.empty) hes (fun c hc => nomatch hc)
    exact ⟨hbodies, hcopies, (clientReads_of_nonneg hes).trans happlied.symm⟩

/-- At the end of a file `read_cb` asks for `2 ^ 64 - 4095` bytes out of one, and
`Out_of_memory` is raised. -/
theorem not_readsDelivered_peerCloses : ¬ ReadsDelivered [peerCloses] := by
  intro h
  have hcopied : (serverReads [peerCloses]).copies = [(18446744073709547521, 1)] := by decide
  have := h.bounded (18446744073709547521, 1) (by rw [hcopied]; simp)
  simp only at this
  omega
