import Guardian.Transition.Run
import Guardian.Triage.Record

/-!
# Severity overrides

A reviewer's severity and the severity of a sighting are one field of the row, and a merge writes
it.  `respected_iff_confirms` says when it is kept.
-/

namespace Guardian.Triage

open Python Findings Transition

/-- The fields that belong to reviewers: the status, the number of reopenings, the source and the
reviewer. -/
def Finding.owned (f : Finding) : FindingStatus × ℕ × Str × Option ℕ :=
  (f.status, f.reopenedCount, f.source, f.reviewedBy)

variable (R : Runtime) (digest : Json → Str)

/-- **A rescan respects reviewers**: of the finding that it re-observes it changes no field of
theirs, and not the severity if it has been overridden. -/
def Respects (rows : List Traced) (e : Event) : Prop :=
  ∀ raw ctx pick i t, e = .sighting raw ctx pick → e.found digest rows = some i →
    rows[i]? = some t → ∃ t', (step R digest rows e)[i]? = some t' ∧
      t'.row.owned = t.row.owned ∧
      (t.override ≠ none → t'.row.seen.severity = t.row.seen.severity)

/-- The stored severity is the last override. -/
def Settled (rows : List Traced) : Prop :=
  ∀ t ∈ rows, ∀ s, t.override = some s → t.row.seen.severity = s

/-- The rescan comes to the severity of the override itself. -/
def Confirms (rows : List Traced) (e : Event) : Prop :=
  ∀ raw ctx pick i t s, e = .sighting raw ctx pick → e.found digest rows = some i →
    rows[i]? = some t → t.override = some s → (assess (scoreInputs raw ctx)).severity = s

variable {R digest}

theorem owned_sight (raw : RawFinding) (ctx : Context) (t : Traced) :
    (t.sight digest raw ctx).row.owned = t.row.owned := rfl

theorem settled_decide {body : FindingTriage} {reviewer : ℕ} {t : Traced}
    (ht : ∀ s, t.override = some s → t.row.seen.severity = s) :
    ∀ s, (t.decide R body reviewer).override = some s →
      (t.decide R body reviewer).row.seen.severity = s := by
  unfold Traced.decide triageFinding
  split_ifs
  · exact ht
  · intro s hs
    dsimp only at hs ⊢
    rw [seen_applyTriage]
    dsimp only
    cases hbody : body.severityOverride with
    | none =>
      rw [hbody, Option.none_or] at hs
      exact ht s hs
    | some new =>
      rw [hbody, Option.some_or] at hs
      exact Option.some.inj hs

theorem settled_step {rows : List Traced} {e : Event} (h : Settled rows)
    (he : Confirms digest rows e) : Settled (step R digest rows e) :=
  forall_step h (fun _ _ _ hs => nomatch hs)
    (fun raw ctx pick i t heq hfound ht s hs => he raw ctx pick i t s heq hfound ht hs)
    (fun _ _ _ ht => ht) (fun _ _ _ ht => settled_decide ht)

theorem respects_iff {rows : List Traced} {e : Event} (h : Settled rows) :
    Respects R digest rows e ∧ Settled (step R digest rows e) ↔ Confirms digest rows e := by
  constructor
  · rintro ⟨hrespects, -⟩ raw ctx pick i t s rfl hfound ht hs
    obtain ⟨t', ht', -, hseverity⟩ := hrespects raw ctx pick i t rfl hfound ht
    rw [step, hfound, getElem?_upsert ht, Option.some.injEq] at ht'
    have := hseverity (by rw [hs]; exact Option.some_ne_none s)
    rw [h t (List.mem_of_getElem? ht) s hs, ← ht'] at this
    exact this
  · intro he
    refine ⟨?_, settled_step h he⟩
    rintro raw ctx pick i t rfl hfound ht
    refine ⟨t.sight digest raw ctx, ?_, owned_sight raw ctx t, fun hne => ?_⟩
    · rw [step, hfound]
      exact getElem?_upsert ht
    · obtain ⟨s, hs⟩ := Option.ne_none_iff_exists'.mp hne
      rw [h t (List.mem_of_getElem? ht) s hs]
      exact he raw ctx pick i t s rfl hfound ht hs

/-- **Overrides survive a run** exactly when every rescan confirms those that it meets. -/
theorem respected_iff_confirms (es : List Event) :
    Along (step R digest)
      (fun rows e => Respects R digest rows e ∧ Settled (step R digest rows e)) [] es ↔
      Along (step R digest) (Confirms digest) [] es :=
  along_iff (I := Settled) (fun _ _ => respects_iff) (fun _ _ => settled_step)
    (fun _ ht => absurd ht List.not_mem_nil) es

/-! ### A severity that is lost -/

/-- A reviewer raises the severity between two scans. -/
def overrideEvents : List Event :=
  [.sighting injection (scanOf 1) 0,
    .triage 0 ⟨none, some .critical, "reachable without a login"⟩ 7,
    .sighting injection (scanOf 2) 0]

theorem overrideEvents_not_respected :
    ¬ Along (step Runtime.ascii fun _ => [])
      (fun rows e => Respects Runtime.ascii (fun _ => []) rows e ∧
        Settled (step Runtime.ascii (fun _ => []) rows e)) [] overrideEvents := by
  rintro ⟨-, -, ⟨-, hsettled⟩, -⟩
  have hlast := hsettled _ (List.mem_of_getElem? (i := 0) rfl) .critical rfl
  exact absurd hlast (by decide)

end Guardian.Triage
