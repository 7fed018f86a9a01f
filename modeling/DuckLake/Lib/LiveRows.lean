import DuckLake.Lib.Validity
import Mathlib.Data.List.Nodup

/-!
# Keyed rows of a versioned table

A batch overwrites what its keys name: it ends the live rows with these keys and appends its own
rows. If the keys of a batch are distinct, at most one row is live for each key after it, as before
it.
-/

namespace DuckLake

structure TimedRow (τ : Type) where
  row : τ
  life : Validity ℕ
deriving DecidableEq

namespace TimedRow

variable {τ κ : Type} [DecidableEq κ] {key : τ → κ} {rows : List (TimedRow τ)} {new : List τ}
  {version : ℕ}

def isLive (r : TimedRow τ) : Bool := r.life.endAt.isNone

/-- What is live in the latest version of the table. -/
def live (rows : List (TimedRow τ)) : List τ := (rows.filter isLive).map row

/-- What a version of the table shows. -/
def visible (rows : List (TimedRow τ)) (version : ℕ) : List τ :=
  (rows.filter (·.life.visibleAt version)).map row

/-- Ends the live rows whose keys are in the list. -/
def expire (key : τ → κ) (version : ℕ) (keys : List κ) (rows : List (TimedRow τ)) :
    List (TimedRow τ) :=
  rows.map fun r =>
    if r.isLive = true ∧ key r.row ∈ keys then { r with life.endAt := some version } else r

/-- Ends the live rows that the new ones overwrite, and appends the new ones. -/
def overwrite (key : τ → κ) (version : ℕ) (new : List τ) (rows : List (TimedRow τ)) :
    List (TimedRow τ) :=
  expire key version (new.map key) rows ++ new.map fun row => ⟨row, ⟨version, none⟩⟩

omit [DecidableEq κ] in
@[simp] theorem live_append {rows' : List (TimedRow τ)} :
    live (rows ++ rows') = live rows ++ live rows' := by simp [live]

omit [DecidableEq κ] in
theorem live_cons_of_live {r : TimedRow τ} (h : r.life.endAt = none) :
    live (r :: rows) = r.row :: live rows := by simp [live, isLive, h]

omit [DecidableEq κ] in
theorem live_cons_of_ended {r : TimedRow τ} {e : ℕ} (h : r.life.endAt = some e) :
    live (r :: rows) = live rows := by simp [live, isLive, h]

theorem live_expire {keys : List κ} :
    live (expire key version keys rows) = (live rows).filter (key · ∉ keys) := by
  induction rows with
  | nil => rfl
  | cons r rows ih =>
    rw [expire, List.map_cons]
    cases hend : r.life.endAt with
    | some e =>
      rw [live_cons_of_ended hend, if_neg (by simp [isLive, hend]), live_cons_of_ended hend]
      exact ih
    | none =>
      rw [live_cons_of_live hend]
      by_cases hkey : key r.row ∈ keys
      · rw [if_pos (by simpa [isLive, hend] using hkey), live_cons_of_ended rfl,
          List.filter_cons_of_neg (by simpa using hkey)]
        exact ih
      · rw [if_neg (by simpa [isLive, hend] using hkey), live_cons_of_live hend,
          List.filter_cons_of_pos (by simpa using hkey)]
        exact congrArg (r.row :: ·) ih

@[simp] theorem expire_nil : expire key version [] rows = rows := by
  simp [expire]

omit [DecidableEq κ] in
theorem live_new : live (new.map fun row => (⟨row, ⟨version, none⟩⟩ : TimedRow τ)) = new := by
  induction new with
  | nil => rfl
  | cons t new ih => exact congrArg (t :: ·) ih

theorem live_overwrite : live (overwrite key version new rows) =
    ((live rows).filter (key · ∉ new.map key)) ++ new := by
  rw [overwrite, live_append, live_expire, live_new]

theorem mem_live_overwrite {t : τ} : t ∈ live (overwrite key version new rows) ↔
    (t ∈ live rows ∧ key t ∉ new.map key) ∨ t ∈ new := by
  rw [live_overwrite, List.mem_append, List.mem_filter, decide_eq_true_iff]

theorem pairwise_live_overwrite {R : τ → τ → Prop} (hold : (live rows).Pairwise R)
    (hnew : new.Pairwise R) (hcross : ∀ a ∈ live rows, key a ∉ new.map key → ∀ b ∈ new, R a b) :
    (live (overwrite key version new rows)).Pairwise R := by
  rw [live_overwrite, List.pairwise_append]
  refine ⟨hold.filter _, hnew, fun a ha b hb => ?_⟩
  obtain ⟨ha, hfree⟩ := List.mem_filter.1 ha
  exact hcross a ha (of_decide_eq_true hfree) b hb

/-- At most one live row for each key. -/
def LiveOnce (key : τ → κ) (rows : List (TimedRow τ)) : Prop := ((live rows).map key).Nodup

omit [DecidableEq κ] in
theorem LiveOnce.expire {κ' : Type} [DecidableEq κ'] {key' : τ → κ'} {keys : List κ'}
    (h : LiveOnce key rows) : LiveOnce key (expire key' version keys rows) := by
  rw [LiveOnce, live_expire]
  exact h.sublist ((List.filter_sublist).map key)

theorem LiveOnce.overwrite (h : LiveOnce key rows) (hnew : (new.map key).Nodup) :
    LiveOnce key (overwrite key version new rows) := by
  rw [LiveOnce, live_overwrite, List.map_append, List.nodup_append]
  refine ⟨h.sublist ((List.filter_sublist).map key), hnew, ?_⟩
  rintro _ hold k hk rfl
  obtain ⟨t, ht, heq⟩ := List.mem_map.1 hold
  have hfree := of_decide_eq_true (List.mem_filter.1 ht).2
  exact hfree (heq ▸ hk)

omit [DecidableEq κ] in
theorem LiveOnce.eq (h : LiveOnce key rows) {t t' : τ} (ht : t ∈ live rows) (ht' : t' ∈ live rows)
    (hkey : key t = key t') : t = t' :=
  List.inj_on_of_nodup_map h ht ht' hkey

/-! ## The value under a key -/

variable {V : Type} {value : τ → Option V} {k : κ} {c c₀ : Option V}

/-- The value of the rows with key `k` is `c`; there may be no row if that is NULL. -/
def Tells (key : τ → κ) (value : τ → Option V) (k : κ) (c : Option V) (l : List τ) : Prop :=
  (∀ t ∈ l, key t = k → value t = c) ∧ (c ≠ none → ∃ t ∈ l, key t = k)

/-- A batch that changes the value under `k` from `c₀` to `c`, if they differ. -/
def Updates (key : τ → κ) (value : τ → Option V) (k : κ) (c₀ c : Option V) (new : List τ) : Prop :=
  (∀ t ∈ new, key t = k → value t = c) ∧ ((∃ t ∈ new, key t = k) ∨ c = c₀)

theorem Tells.overwrite (h : Tells key value k c₀ (live rows)) (hnew : Updates key value k c₀ c new) :
    Tells key value k c (live (overwrite key version new rows)) := by
  obtain ⟨hvalue, hexists⟩ := hnew
  constructor
  · intro t ht hk
    rcases mem_live_overwrite.1 ht with ⟨hold, hfree⟩ | hin
    · rcases hexists with ⟨t', ht', hk'⟩ | rfl
      · exact absurd (List.mem_map.2 ⟨t', ht', hk'.trans hk.symm⟩) hfree
      · exact h.1 t hold hk
    · exact hvalue t hin hk
  · intro hc
    rcases hexists with ⟨t, ht, hk⟩ | rfl
    · exact ⟨t, mem_live_overwrite.2 (.inr ht), hk⟩
    · obtain ⟨t, ht, hk⟩ := h.2 hc
      by_cases hfree : key t ∈ new.map key
      · obtain ⟨t', ht', hk'⟩ := List.mem_map.1 hfree
        exact ⟨t', mem_live_overwrite.2 (.inr ht'), hk'.trans hk⟩
      · exact ⟨t, mem_live_overwrite.2 (.inl ⟨ht, hfree⟩), hk⟩

omit [DecidableEq κ] in
/-- Rows with other keys may stand before and after. -/
theorem Updates.between {before after : List τ} (h : Updates key value k c₀ c new)
    (hbefore : ∀ t ∈ before, key t ≠ k) (hafter : ∀ t ∈ after, key t ≠ k) :
    Updates key value k c₀ c (before ++ new ++ after) := by
  refine ⟨fun t ht hk => ?_, ?_⟩
  · rcases List.mem_append.1 ht with ht | ht
    · rcases List.mem_append.1 ht with ht | ht
      · exact absurd hk (hbefore t ht)
      · exact h.1 t ht hk
    · exact absurd hk (hafter t ht)
  · rcases h.2 with ⟨t, ht, hk⟩ | heq
    · exact .inl ⟨t, by simp [ht], hk⟩
    · exact .inr heq

/-! ## What a version shows -/

/-- No row begins or ends after this version. -/
def SettledAt (rows : List (TimedRow τ)) (version : ℕ) : Prop :=
  ∀ r ∈ rows, r.life.beginAt ≤ version ∧ ∀ e ∈ r.life.endAt, e ≤ version

omit [DecidableEq κ] in
theorem visible_eq_live (h : SettledAt rows version) : visible rows version = live rows := by
  refine congrArg (List.map row) (List.filter_congr fun r hr => ?_)
  obtain ⟨hbegin, hend⟩ := h r hr
  cases he : r.life.endAt with
  | none => simp [Validity.visibleAt, isLive, he, hbegin]
  | some e =>
    have hle : e ≤ version := hend e he
    simp [Validity.visibleAt, isLive, he, hle]

omit [DecidableEq κ] in
theorem SettledAt.mono {later : ℕ} (h : SettledAt rows version) (hle : version ≤ later) :
    SettledAt rows later :=
  fun r hr => ⟨Nat.le_trans (h r hr).1 hle, fun e he => Nat.le_trans ((h r hr).2 e he) hle⟩

theorem SettledAt.expire {keys : List κ} (h : SettledAt rows version) :
    SettledAt (expire key version keys rows) version := by
  intro r hr
  obtain ⟨r', hr', rfl⟩ := List.mem_map.1 hr
  split
  · exact ⟨(h r' hr').1, by simp⟩
  · exact h r' hr'

theorem SettledAt.overwrite (h : SettledAt rows version) :
    SettledAt (overwrite key version new rows) version := by
  intro r hr
  rcases List.mem_append.1 hr with hr | hr
  · exact h.expire r hr
  · obtain ⟨t, -, rfl⟩ := List.mem_map.1 hr
    exact ⟨Nat.le_refl _, by simp⟩

end TimedRow

end DuckLake
