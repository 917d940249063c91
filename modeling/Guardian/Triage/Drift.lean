import Guardian.Transition.Run
import Guardian.Triage.Record

/-!
# Signals and scores

The severity and the score of a row are derived from its signals.  A sighting writes all of them;
the matching of a service version writes the signals of a row that is there, and leaves the rest.
`scored_iff_sameScore` says when no score is left behind.
-/

namespace Guardian.Triage

open Python Findings Transition

/-- What an event scores a row with, if it refreshes one. -/
def Event.inputs : Event → Option ScoreInputs
  | .sighting raw ctx _ => some (scoreInputs raw ctx)
  | .serviceMatch raw target _ => some (scoreInputs raw target.context)
  | .triage _ _ _ => none

variable (R : Runtime) (digest : Json → Str)

/-- The place of the row that an event refreshes. -/
def Event.place (rows : List Traced) (e : Event) : ℕ := (e.found digest rows).getD rows.length

/-- **No score is left behind**: a row that has just been refreshed, and that no reviewer has
overridden, carries what `assess` returns for its signals. -/
def ScoreFollows (rows : List Traced) (e : Event) : Prop :=
  ∀ inputs t, e.inputs = some inputs → (step R digest rows e)[e.place digest rows]? = some t →
    t.override = none →
    t.row.seen.severity = (assess { inputs with signals := t.row.seen.signals }).severity ∧
      t.row.seen.riskScore = (assess { inputs with signals := t.row.seen.signals }).score

/-- Two assessments with one severity and one score. -/
def SameRisk (a b : ScoreInputs) : Prop :=
  (assess a).severity = (assess b).severity ∧ (assess a).score = (assess b).score

/-- The match of a row that is there would score as the row was scored last. -/
def SameScore (rows : List Traced) (e : Event) : Prop :=
  ∀ raw target pick i t, e = .serviceMatch raw target pick → e.found digest rows = some i →
    rows[i]? = some t → t.override = none → SameRisk (scoreInputs raw target.context) t.scored

/-- A row that is not overridden carries what it was scored with last. -/
def Traced.Scored (t : Traced) : Prop :=
  t.override = none → t.row.seen.severity = (assess t.scored).severity ∧
    t.row.seen.riskScore = (assess t.scored).score

variable {R digest}

theorem scored_fresh (raw : RawFinding) (ctx : Context) : (fresh digest raw ctx).Scored :=
  fun _ => ⟨rfl, rfl⟩

theorem scored_sight (raw : RawFinding) (ctx : Context) (t : Traced) :
    (t.sight digest raw ctx).Scored := fun _ => ⟨rfl, rfl⟩

theorem scored_decide (body : FindingTriage) (reviewer : ℕ) {t : Traced} (ht : t.Scored) :
    (t.decide R body reviewer).Scored := by
  unfold Traced.decide triageFinding
  split_ifs
  · exact ht
  · intro hnone
    dsimp only at hnone ⊢
    rw [seen_applyTriage]
    rw [Option.or_eq_none_iff] at hnone
    rw [hnone.1]
    exact ht hnone.2

theorem scored_step {rows : List Traced} (e : Event) (h : ∀ t ∈ rows, t.Scored) :
    ∀ t ∈ step R digest rows e, t.Scored :=
  forall_step h scored_fresh (fun raw ctx _ _ t _ _ _ => scored_sight raw ctx t)
    (fun _ _ _ ht => ht) (fun body reviewer _ ht => scored_decide body reviewer ht)

theorem assess_rematch (raw : RawFinding) (target : ServiceTarget) (t : Traced) :
    assess { scoreInputs raw target.context with
      signals := (t.rematch raw target).row.seen.signals } =
      assess (scoreInputs raw target.context) := rfl

theorem follows_sighting {rows : List Traced} {raw : RawFinding} {ctx : Context} {pick : ℕ} :
    ScoreFollows R digest rows (.sighting raw ctx pick) := by
  intro inputs t hinputs ht _
  cases hinputs
  rcases eq_of_getElem?_upsert ht with ⟨-, rfl⟩ | ⟨i, b, -, -, rfl⟩
  · exact ⟨rfl, rfl⟩
  · exact ⟨rfl, rfl⟩

/-- A refresh leaves no score behind when it would score as before. -/
theorem scoreFollows_iff {rows : List Traced} {e : Event} (h : ∀ t ∈ rows, t.Scored) :
    ScoreFollows R digest rows e ↔ SameScore digest rows e := by
  constructor
  · rintro hfollows raw target pick i t rfl hfound ht hnone
    obtain ⟨hseverity, hscore⟩ := h t (List.mem_of_getElem? ht) hnone
    have hrow : (step R digest rows (.serviceMatch raw target pick))[i]? =
        some (t.rematch raw target) := by
      rw [step, hfound]
      exact getElem?_upsert ht
    have hplace : (Event.serviceMatch raw target pick).place digest rows = i := by
      rw [Event.place, hfound]
      rfl
    rw [← hplace] at hrow
    have := hfollows _ _ rfl hrow hnone
    rw [assess_rematch] at this
    exact ⟨this.1.symm.trans hseverity, this.2.symm.trans hscore⟩
  · intro hsame
    cases e with
    | sighting raw ctx pick => exact follows_sighting
    | serviceMatch raw target pick =>
      intro inputs t hinputs ht hnone
      cases hinputs
      rcases eq_of_getElem?_upsert ht with ⟨-, rfl⟩ | ⟨i, b, hfound, hb, rfl⟩
      · exact ⟨rfl, rfl⟩
      · obtain ⟨hseverity, hscore⟩ := h b (List.mem_of_getElem? hb) hnone
        have := hsame raw target pick i b rfl hfound hb hnone
        rw [assess_rematch]
        exact ⟨hseverity.trans this.1.symm, hscore.trans this.2.symm⟩
    | triage place body reviewer => exact fun _ _ hinputs => nomatch hinputs

/-- **Scores follow signals along a run** exactly when every match of a row that is there would score
as before. -/
theorem scored_iff_sameScore (es : List Event) :
    Along (step R digest) (ScoreFollows R digest) [] es ↔
      Along (step R digest) (SameScore digest) [] es :=
  along_iff (I := fun rows => ∀ t ∈ rows, t.Scored) (fun _ _ => scoreFollows_iff)
    (fun _ e h _ => scored_step e h) (fun _ ht => absurd ht List.not_mem_nil) es

/-! ### An exploit that becomes known -/

/-- A service with an advisory, which may be exploited in the wild. -/
def serviceRaw (kev : Bool) : RawFinding where
  engine := "sca"
  title := "nginx 1.0 — CVE-2021-23017"
  category := "vuln-service"
  description := []
  baseSeverity := .medium
  confidence := "medium"
  cweId := none
  owaspRef := none
  cveIds := ["CVE-2021-23017"]
  signals := ⟨some (15 / 2), none, kev, none, false⟩
  location := []
  evidence := []
  references := []

/-- The asset of the service. -/
def serviceTarget (scanId : ℕ) : ServiceTarget where
  tenantId := 1
  customerId := 1
  scanId
  engineRunId := scanId
  assetId := 1
  exposure := none

/-- The advisory enters the catalogue of exploited vulnerabilities between two matches. -/
def serviceEvents : List Event :=
  [.serviceMatch (serviceRaw false) (serviceTarget 1) 0,
    .serviceMatch (serviceRaw true) (serviceTarget 2) 0]

theorem serviceEvents_not_scored :
    ¬ Along (step Runtime.ascii fun _ => []) (ScoreFollows Runtime.ascii fun _ => []) []
      serviceEvents := by
  rintro ⟨-, hfollows, -⟩
  have hlast := hfollows _ _ rfl rfl rfl
  exact absurd hlast.1 (by decide +kernel)

end Guardian.Triage
