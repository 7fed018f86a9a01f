import Mathlib.Data.List.Nodup

/-!
# The last change of each kind

A walk over the versions of an object writes something for the last change of each kind only, when
none of the versions left to do makes a change of that kind. What it writes is then what the latest
version says.
-/

namespace DuckLake

variable {E κ V : Type} {kind : E → Option κ}

/-- One of the versions makes a change of this kind. -/
def Touches (kind : E → Option κ) (versions : List E) (k : κ) : Prop :=
  ∃ v ∈ versions, kind v = some k

theorem not_touches_nil {k : κ} : ¬ Touches kind [] k := by rintro ⟨v, hv, -⟩; cases hv

theorem touches_cons {v : E} {versions : List E} {k : κ} :
    Touches kind (v :: versions) k ↔ kind v = some k ∨ Touches kind versions k := by
  simp [Touches]

theorem touches_cons_of_ne {v : E} {versions : List E} {k : κ} (h : kind v ≠ some k) :
    Touches kind (v :: versions) k ↔ Touches kind versions k := by
  rw [touches_cons, or_iff_right h]

theorem touches_reverse {versions : List E} {k : κ} :
    Touches kind versions.reverse k ↔ Touches kind versions k := by
  simp [Touches]

theorem countP_pos_iff_touches [DecidableEq κ] {versions : List E} {k : κ} :
    0 < versions.countP (fun v => kind v = some k) ↔ Touches kind versions k := by
  simp [List.countP_pos_iff, Touches]

/-- What is written when `rest` is left to do of `all`, where `value` is what the latest version
says. -/
structure Emission (kind : E → Option κ) (value : κ → V → Prop) (all rest : List E)
    (out : List (κ × V)) : Prop where
  value : ∀ e ∈ out, value e.1 e.2
  once : (out.map (·.1)).Nodup
  pending : ∀ k ∈ out.map (·.1), ¬ Touches kind rest k
  emitted : ∀ k, Touches kind all k → ¬ Touches kind rest k → k ∈ out.map (·.1)

namespace Emission

variable {value : κ → V → Prop} {all rest : List E} {out : List (κ × V)} {v : E} {k : κ} {x : V}

/-- The walk starts with the version that was made first. -/
theorem start : Emission kind value all all.reverse [] :=
  ⟨by simp, by simp, by simp, fun _ h h' => absurd (touches_reverse.2 h) h'⟩

theorem skip (h : Emission kind value all (v :: rest) out) (hv : kind v = none) :
    Emission kind value all rest out := by
  have htouches : ∀ k, Touches kind (v :: rest) k ↔ Touches kind rest k := fun k =>
    touches_cons_of_ne (by simp [hv])
  exact ⟨h.value, h.once, fun k hk => (htouches k).not.1 (h.pending k hk),
    fun k hall hrest => h.emitted k hall ((htouches k).not.2 hrest)⟩

/-- A change that is superseded by a later one. -/
theorem superseded (h : Emission kind value all (v :: rest) out) (hv : kind v = some k)
    (hrest : Touches kind rest k) : Emission kind value all rest out := by
  refine ⟨h.value, h.once, fun k' hk' ht => h.pending k' hk' (touches_cons.2 (.inr ht)), ?_⟩
  intro k' hall hk'
  refine h.emitted k' hall fun ht => ?_
  rcases touches_cons.1 ht with heq | ht
  · obtain rfl : k = k' := by simpa using hv.symm.trans heq
    exact hk' hrest
  · exact hk' ht

theorem last (h : Emission kind value all (v :: rest) out) (hv : kind v = some k)
    (hrest : ¬ Touches kind rest k) (hx : value k x) :
    Emission kind value all rest (out ++ [(k, x)]) := by
  have hfresh : k ∉ out.map (·.1) := fun hk => h.pending k hk (touches_cons.2 (.inl hv))
  constructor
  · intro e he
    rcases List.mem_append.1 he with he | he
    · exact h.value e he
    · cases List.mem_singleton.1 he
      exact hx
  · rw [List.map_append, List.nodup_append]
    refine ⟨h.once, by simp, ?_⟩
    rintro a ha b hb rfl
    obtain rfl : a = k := by simpa using hb
    exact hfresh ha
  · intro k' hk' ht
    rw [List.map_append, List.mem_append] at hk'
    rcases hk' with hk' | hk'
    · exact h.pending k' hk' (touches_cons.2 (.inr ht))
    · obtain rfl : k' = k := by simpa using hk'
      exact hrest ht
  · intro k' hall hk'
    rw [List.map_append, List.mem_append]
    by_cases heq : k' = k
    · exact .inr (by simp [heq])
    · refine .inl (h.emitted k' hall fun ht => ?_)
      rcases touches_cons.1 ht with hk | ht
      · exact heq (by simpa using hk.symm.trans hv)
      · exact hk' ht

/-- What no change touches may be written with the rest. -/
theorem extend {extra : List (κ × V)} (h : Emission kind value all rest out)
    (hrest : ∀ k, Touches kind rest k → Touches kind all k)
    (hextra : ∀ e ∈ extra, value e.1 e.2 ∧ ¬ Touches kind all e.1)
    (honce : (extra.map (·.1)).Nodup) (hout : ∀ k ∈ out.map (·.1), Touches kind all k) :
    Emission kind value all rest (out ++ extra) := by
  constructor
  · intro e he
    rcases List.mem_append.1 he with he | he
    · exact h.value e he
    · exact (hextra e he).1
  · rw [List.map_append, List.nodup_append]
    refine ⟨h.once, honce, ?_⟩
    rintro a ha b hb rfl
    obtain ⟨e, he, rfl⟩ := List.mem_map.1 hb
    exact (hextra e he).2 (hout _ ha)
  · intro k hk ht
    rw [List.map_append, List.mem_append] at hk
    rcases hk with hk | hk
    · exact h.pending k hk ht
    · obtain ⟨e, he, rfl⟩ := List.mem_map.1 hk
      exact (hextra e he).2 (hrest _ ht)
  · intro k hall hk
    rw [List.map_append]
    exact List.mem_append_left _ (h.emitted k hall hk)

end Emission

end DuckLake
