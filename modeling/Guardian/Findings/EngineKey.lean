import Guardian.Findings.Gate

/-!
# The engine of a finding

A finding does not store the engine that emitted it.  A reconciliation and a re-test reconstruct the
engine from the rule and the category of the finding.  `attributed_iff` says when they find it.
-/

namespace Guardian.Findings

open Python List

/-! ### Re-testing -/

/-- The scan that `retest_finding` queues. -/
structure Retest where
  retestOf : ℕ
  requestedEngines : List Str

/-- **`retest_finding`.** -/
def retestFinding (f : Finding) : Retest := ⟨f.id, [engineKey f.seen]⟩

/-! ### What the engines emit -/

/-- The sinks of the taint analysis. -/
def taintSinks : List Str :=
  ["taint-code-exec", "taint-shell-command", "taint-subprocess-shell",
    "taint-subprocess-argv", "taint-sql", "taint-deserialization",
    "taint-path", "taint-ssrf", "taint-open-redirect", "taint-ssti",
    "taint-xss", "taint-log-injection", "taint-nosql", "taint-ldap"]

/-- The `_RULES` of the static analysis. -/
def patternRules : List Str :=
  ["py-eval", "py-exec", "py-shell-true", "py-os-system", "py-yaml-load", "py-pickle",
    "py-weak-hash", "py-tls-verify-off", "py-ssl-unverified", "py-sql-fstring", "py-weak-random",
    "py-assert-auth", "py-bind-all", "py-flask-debug", "py-jwt-noverify", "py-tempfile-mktemp",
    "py-xml-entities", "js-eval", "js-function-ctor", "js-child-exec", "js-inner-html",
    "js-danger-html", "js-document-write", "js-tls-off", "js-weak-random", "js-jwt-none",
    "java-runtime-exec", "java-sql-concat", "java-deser", "java-trust-all", "java-weak-crypto",
    "java-xxe", "go-exec-shell", "go-sql-concat", "go-tls-skip", "go-weak-random", "php-exec",
    "php-eval", "php-unserialize", "php-include-var", "rb-eval", "rb-yaml-load", "cs-sql-concat",
    "cs-tls-off"].map String.toList

/-- The `_PATTERNS` of the secrets engine, and the name of its entropy check. -/
def secretPatterns : List Str :=
  ["AWS Access Key ID", "AWS Secret Access Key", "Private Key block",
    "GitHub Token", "Slack Token", "Google API Key",
    "Stripe Secret Key", "JWT", "Generic secret assignment",
    "High-entropy secret"]

/-- The categories of the dependency analysis, each with its rule. -/
def dependencyKinds : List (Str × Str) :=
  [("vuln-dep", []), ("malicious-dep", "malicious-package"),
    ("typosquat-dep", "typosquat")]

/-- The findings of an image archive: category and rule. -/
def imageKinds : List (Str × Str) :=
  [("scan-error", "image-unreadable"),
    ("scan-gap", "image-rpm-not-parsed"),
    ("vuln-dep", "image-vulnerable-package"),
    ("container-misconfig", "image-runs-as-root"),
    ("container-misconfig", "image-secret-in-env"),
    ("container-misconfig", "image-mutable-tag"),
    ("container-misconfig", "image-ssh-exposed"),
    ("container-misconfig", "image-no-healthcheck"),
    ("container-misconfig", "image-remote-script-piped-to-shell"),
    ("container-misconfig", "image-sensitive-file-deleted"),
    ("container-misconfig", "image-sensitive-file"),
    ("container-misconfig", "image-secret-in-layer-deleted"),
    ("container-misconfig", "image-secret-in-layer")]

/-- The controls of `_scan_dockerfile`. -/
def dockerControls : List Str :=
  ["CIS Docker 4.1", "CIS Docker 4.7", "CIS Docker 4.9",
    "CIS Docker 4.10"]

/-- The rules of the infrastructure analysis. -/
def iacRules : List Str :=
  ["iac-open-admin-port", "iac-open-all-ports", "iac-open-ingress",
    "iac-s3-public-acl", "iac-s3-no-encryption", "iac-s3-no-versioning",
    "iac-s3-public-access-block-disabled", "iac-azure-storage-http",
    "iac-azure-storage-public", "iac-gcs-public", "iac-rds-public",
    "iac-rds-unencrypted", "iac-rds-no-backups",
    "iac-rds-no-deletion-protection", "iac-ebs-unencrypted",
    "iac-iam-admin-wildcard", "iac-iam-wildcard-action",
    "iac-iam-public-principal", "iac-hardcoded-credential",
    "iac-provider-static-credentials", "iac-cloudtrail-single-region",
    "iac-cloudtrail-no-validation", "iac-eks-public-api",
    "iac-lambda-env-secret"]

/-- The categories of the other engines and tool providers, by the key of the engine. -/
def otherCategories : List (Str × Str) :=
  [("dast", "injection"), ("dast", "web-misconfig"), ("dast", "scan-coverage"),
    ("api", "api-authorization"), ("api", "api-misconfig"), ("api", "api-inventory"),
    ("api", "scan-coverage"), ("cspm", "cloud-misconfig"), ("k8s", "k8s-misconfig"),
    ("k8s", "scan-coverage"), ("ml_model", "ml-model-malware"), ("cicd", "cicd-injection"),
    ("cicd", "cicd-supply-chain"), ("cicd", "cicd-permissions"), ("ai_discovery", "ai-suspected"),
    ("mobile", "mobile-config"), ("mobile", "mobile-network"), ("mobile", "mobile-permission"),
    ("mobile", "mobile-exposure"), ("mobile", "mobile-deeplink"), ("mobile", "secret"),
    ("mobile", "webview-jsbridge"), ("mobile", "webview-file-access"), ("mobile", "webview-debug"),
    ("mobile", "tls-trust-all"), ("mobile", "weak-crypto"), ("ios", "ios-network"),
    ("ios", "ios-config"), ("ios", "ios-exposure"), ("ios", "ios-privacy"), ("ios", "ios-info"),
    ("ios", "secret"), ("ios", "ios-webview-deprecated"), ("ios", "ios-tls-trust-all"),
    ("ios", "ios-weak-crypto"), ("ios", "ios-keychain"), ("host_posture", "network-router"),
    ("host_posture", "network-service"), ("host_posture", "server-ssh"),
    ("host_posture", "server-hardening"), ("host_posture", "server-os"),
    ("host_posture", "server-service"), ("host_posture", "server-docker"),
    ("web_tls", "misconfig"), ("pcap_meta", "misconfig"), ("dns_posture", "misconfig"),
    ("nmap", "exposure")].map
    fun p => (p.1.toList, p.2.toList)

/-- **A finding that an engine can emit**, by the place in the engines that builds it.  Where an
external tool names the rule, it is any text. -/
inductive Emission
  | taint (sink : Str) (h : sink ∈ taintSinks)
  | pattern (rule : Str) (h : rule ∈ patternRules)
  | semgrep (checkId : Str)
  | secretPattern (name : Str) (h : name ∈ secretPatterns)
  | gitleaks (ruleId : Str)
  | dependency (category rule : Str) (h : (category, rule) ∈ dependencyKinds)
  | image (category rule : Str) (h : (category, rule) ∈ imageKinds)
  | dockerfile (cis : Str) (h : cis ∈ dockerControls)
  | iacRule (rule : Str) (h : rule ∈ iacRules)
  | checkov (checkId : Str)
  | webCheck (template : Str)
  | serviceCve (advisory : Str)
  -- what these engines write into the rule never names them, so it is left open
  | other (engine category : Str) (h : (engine, category) ∈ otherCategories) (rule : Str)

namespace Emission

/-- The key under which the engine runs. -/
def engine : Emission → Str
  | taint .. => "sast"
  | pattern .. => "sast"
  | semgrep _ => "sast"
  | secretPattern .. => "secrets"
  | gitleaks _ => "secrets"
  | dependency .. => "sca"
  | image .. => "container"
  | dockerfile .. => "container"
  | iacRule .. => "iac"
  | checkov _ => "iac"
  | webCheck _ => "web_checks"
  | serviceCve _ => "service_cve"
  | other engine .. => engine

/-- `RawFinding.category`. -/
def category : Emission → Str
  | taint .. => "injection"
  | pattern .. => "insecure-code"
  | semgrep _ => "insecure-code"
  | secretPattern .. => "secret"
  | gitleaks _ => "secret"
  | dependency category .. => category
  | image category .. => category
  | dockerfile .. => "container-misconfig"
  | iacRule .. => "iac-misconfig"
  | checkov _ => "iac-misconfig"
  | webCheck _ => "misconfig"
  | serviceCve _ => "vuln-service"
  | other _ category .. => category

/-- `RawFinding.location["rule"]` as a text. -/
def rule : Emission → Str
  | taint sink _ => sink
  | pattern rule _ => rule
  | semgrep checkId => checkId
  | secretPattern name _ => name
  | gitleaks ruleId => ruleId
  | dependency _ rule _ => rule
  | image _ rule _ => rule
  | dockerfile cis _ => cis
  | iacRule rule _ => rule
  | checkov checkId => checkId
  | webCheck template => "web-check-" ++ template
  | serviceCve advisory => "service-cve-" ++ advisory
  | other _ _ _ rule => rule

/-- **A finding shows an emission**: no engine writes its key into the location. -/
def Shown (e : Emission) (seen : Sighting) : Prop :=
  seen.category = e.category ∧ seen.location = ⟨none, e.rule⟩

/-- **The emissions that are recognised.**  Of the findings that an external tool names, those of
semgrep and gitleaks must not start like a rule of another engine, and those of checkov must start
like a rule of the infrastructure analysis. -/
def Recognised : Emission → Prop
  | semgrep checkId => ∀ p ∈ rulePrefixes, p.2 ≠ "sast" → ¬ p.1 <+: checkId
  | gitleaks ruleId => ∀ p ∈ rulePrefixes, ¬ p.1 <+: ruleId
  | dependency category .. => category = "vuln-dep"
  | dockerfile .. => False
  | checkov checkId => "iac-" <+: checkId
  | other .. => False
  | _ => True

end Emission

/-! ### The property -/

/-- The verdict of the scan resolves the finding. -/
def Resolves (scan : Scan) (t : Table) (f : Finding) : Prop :=
  f.status ≠ .resolved ∧
    (applyVerdict (verdictFor f (reported scan t) scan.runs) f).status = .resolved

/-- **A finding is attributed to an engine**: its engine key is that of the engine, it is marked
resolved only if the engine completed and was not degraded, and a re-test requests the engine. -/
def AttributedTo (engine : Str) (f : Finding) : Prop :=
  engineKey f.seen = engine ∧
    (∀ scan t, Resolves scan t f → scan.runs engine = some ⟨.completed, false⟩) ∧
    (retestFinding f).requestedEngines = [engine]

/-- **An emission is attributed**: every finding that shows it, after any history of the asset, is
attributed to the engine that emitted it. -/
def Attributed (e : Emission) : Prop :=
  ∀ history f, f ∈ (runChanges history ⟨[], [], 0⟩).rows → e.Shown f.seen →
    AttributedTo e.engine f

/-! ### The reconstruction -/

/-- `_engine_key` without the location's engine. -/
def keyOf (category rule : Str) : Str :=
  match rulePrefixes.find? fun p => p.1.isPrefixOf rule with
  | some p => p.2
  | none => categoryEngine category

theorem Emission.Shown.engineKey_eq {e : Emission} {seen : Sighting} (h : e.Shown seen) :
    engineKey seen = keyOf e.category e.rule := by
  obtain ⟨hcategory, hlocation⟩ := h
  unfold engineKey
  rw [hlocation, hcategory]
  rfl

theorem rulePrefixes_facts :
    (∀ p ∈ rulePrefixes, ∀ q ∈ rulePrefixes, p.1.isPrefixOf q.1 = true → p = q) ∧
      (∀ p ∈ rulePrefixes, p.2 ≠ "secrets") ∧
      (∀ p ∈ rulePrefixes, p.2 = "iac" → p.1 = "iac-") ∧
      categoryEngine "iac-misconfig" ≠ "iac" := by
  decide

section KeyOf

variable {category rule : Str} {p : Str × Str}

theorem keyOf_of_isPrefix (hp : p ∈ rulePrefixes) (h : p.1 <+: rule) :
    keyOf category rule = p.2 := by
  unfold keyOf
  rcases hfind : rulePrefixes.find? fun p => p.1.isPrefixOf rule with _ | q
  · have := find?_eq_none.mp hfind p hp
    exact absurd (List.isPrefixOf_iff_prefix.mpr h) this
  · have hq : q ∈ rulePrefixes := mem_of_find?_eq_some hfind
    have hqr : q.1 <+: rule := isPrefixOf_iff_prefix.mp
      (find?_some (p := fun p : Str × Str => p.1.isPrefixOf rule) hfind)
    have heq : q = p := by
      obtain ⟨hincomparable, -⟩ := rulePrefixes_facts
      rcases prefix_or_prefix_of_prefix h hqr with hpq | hqp
      · exact (hincomparable p hp q hq (List.isPrefixOf_iff_prefix.mpr hpq)).symm
      · exact hincomparable q hq p hp (List.isPrefixOf_iff_prefix.mpr hqp)
    rw [hfind, heq]

theorem keyOf_of_not_isPrefix (h : ∀ p ∈ rulePrefixes, ¬ p.1 <+: rule) :
    keyOf category rule = categoryEngine category := by
  unfold keyOf
  rw [find?_eq_none.mpr fun p hp hpr => h p hp (List.isPrefixOf_iff_prefix.mp hpr)]

theorem keyOf_eq_iff {engine : Str} :
    keyOf category rule = engine ↔
      (∃ p ∈ rulePrefixes, p.1 <+: rule ∧ p.2 = engine) ∨
        (∀ p ∈ rulePrefixes, ¬ p.1 <+: rule) ∧ categoryEngine category = engine := by
  by_cases h : ∃ p ∈ rulePrefixes, p.1 <+: rule
  · obtain ⟨p, hp, hpr⟩ := h
    rw [keyOf_of_isPrefix hp hpr]
    constructor
    · intro heq
      exact Or.inl ⟨p, hp, hpr, heq⟩
    · rintro (⟨q, hq, hqr, rfl⟩ | ⟨hnone, -⟩)
      · have hkey : keyOf category rule = p.2 := keyOf_of_isPrefix hp hpr
        rw [← hkey, keyOf_of_isPrefix hq hqr]
      · exact absurd hpr (hnone p hp)
  · push Not at h
    rw [keyOf_of_not_isPrefix h]
    constructor
    · intro heq
      exact Or.inr ⟨h, heq⟩
    · rintro (⟨q, hq, hqr, -⟩ | ⟨-, heq⟩)
      · exact absurd hqr (h q hq)
      · exact heq

end KeyOf

/-! ### The tables -/

/-- **The reconstruction from the tables.**  Where an engine names the rule itself, the
reconstruction is right, save for two of the dependency findings and for the controls of a
Dockerfile.  Neither a prefix nor the category names one of the other engines. -/
theorem keyOf_tables :
    (∀ sink ∈ taintSinks, keyOf "injection" sink = "sast") ∧
      (∀ rule ∈ patternRules, keyOf "insecure-code" rule = "sast") ∧
      (∀ name ∈ secretPatterns, keyOf "secret" name = "secrets") ∧
      (∀ k ∈ dependencyKinds, keyOf k.1 k.2 = "sca" ↔ k.1 = "vuln-dep") ∧
      (∀ k ∈ imageKinds, keyOf k.1 k.2 = "container") ∧
      (∀ cis ∈ dockerControls, keyOf "container-misconfig" cis ≠ "container") ∧
      (∀ rule ∈ iacRules, keyOf "iac-misconfig" rule = "iac") ∧
      ∀ k ∈ otherCategories, (∀ p ∈ rulePrefixes, p.2 ≠ k.1) ∧ categoryEngine k.2 ≠ k.1 := by
  -- The kernel compares lists of characters fast; it is slow at decoding literals.
  simp -index only [taintSinks, patternRules, secretPatterns, dependencyKinds, imageKinds,
    dockerControls, iacRules, otherCategories, keyOf, rulePrefixes, categoryEngine, map_cons, map_nil,
    String.toList_ofList]
  decide

/-- **The reconstruction is right** exactly for the emissions that are recognised. -/
theorem keyOf_eq_engine_iff (e : Emission) : keyOf e.category e.rule = e.engine ↔ e.Recognised := by
  obtain ⟨-, hnosecret, hiaconly, hiaccategory⟩ := rulePrefixes_facts
  obtain ⟨htaint, hpattern, hsecret, hdependency, himage, hdocker, hiac, hother⟩ := keyOf_tables
  rcases e with ⟨sink, h⟩ | ⟨rule, h⟩ | checkId | ⟨name, h⟩ | ruleId | ⟨category, rule, h⟩ |
    ⟨category, rule, h⟩ | ⟨cis, h⟩ | ⟨rule, h⟩ | checkId | template | advisory |
    ⟨engine, category, h, rule⟩
  · exact iff_of_true (htaint sink h) trivial
  · exact iff_of_true (hpattern rule h) trivial
  · show keyOf "insecure-code" checkId = "sast" ↔
      ∀ p ∈ rulePrefixes, p.2 ≠ "sast" → ¬ p.1 <+: checkId
    constructor
    · intro heq p hp hne hpr
      exact hne ((keyOf_of_isPrefix hp hpr).symm.trans heq)
    · intro h
      by_cases hnone : ∀ p ∈ rulePrefixes, ¬ p.1 <+: checkId
      · exact keyOf_of_not_isPrefix hnone
      · push Not at hnone
        obtain ⟨p, hp, hpr⟩ := hnone
        rw [keyOf_of_isPrefix hp hpr]
        by_contra hne
        exact h p hp hne hpr
  · exact iff_of_true (hsecret name h) trivial
  · show keyOf "secret" ruleId = "secrets" ↔ ∀ p ∈ rulePrefixes, ¬ p.1 <+: ruleId
    constructor
    · intro heq p hp hpr
      exact hnosecret p hp ((keyOf_of_isPrefix hp hpr).symm.trans heq)
    · exact fun h => keyOf_of_not_isPrefix h
  · exact hdependency (category, rule) h
  · exact iff_of_true (himage (category, rule) h) trivial
  · exact iff_of_false (hdocker cis h) id
  · exact iff_of_true (hiac rule h) trivial
  · show keyOf "iac-misconfig" checkId = "iac" ↔ "iac-" <+: checkId
    constructor
    · intro heq
      rcases keyOf_eq_iff.mp heq with ⟨p, hp, hpr, hp2⟩ | ⟨-, hcategory⟩
      · rwa [hiaconly p hp hp2] at hpr
      · exact absurd hcategory hiaccategory
    · intro h
      have hmem : ("iac-".toList, "iac".toList) ∈ rulePrefixes := mem_of_getElem? (i := 4) rfl
      exact keyOf_of_isPrefix hmem h
  · have hmem : ("web-check-".toList, "web_checks".toList) ∈ rulePrefixes :=
      mem_of_getElem? (i := 5) rfl
    exact iff_of_true (keyOf_of_isPrefix hmem (prefix_append _ _)) trivial
  · have hmem : ("service-cve-".toList, "service_cve".toList) ∈ rulePrefixes :=
      mem_of_getElem? (i := 6) rfl
    exact iff_of_true (keyOf_of_isPrefix hmem (prefix_append _ _)) trivial
  · refine iff_of_false (fun heq => ?_) id
    obtain ⟨hrules, hcategory⟩ := hother (engine, category) h
    rcases keyOf_eq_iff.mp heq with ⟨p, hp, -, hp2⟩ | ⟨-, hc⟩
    · exact hrules p hp hp2
    · exact hcategory hc

/-! ### What a reconciliation and a re-test conclude -/

theorem engineOutcome_eq_resolved {run : Option EngineRun} :
    engineOutcome run = .resolved ↔ run = some ⟨.completed, false⟩ := by
  constructor
  · intro h
    unfold engineOutcome at h
    split at h
    · cases h
    · rename_i r
      obtain ⟨status, degraded⟩ := r
      split_ifs at h with hfailed hcompleted hdegraded
      have hstatus : status = .completed := not_not.mp hcompleted
      have hclean : degraded = false := Bool.not_eq_true _ ▸ hdegraded
      rw [hstatus, hclean]
  · rintro rfl
    rfl

theorem eq_resolved_of_status {v : Verdict} {f : Finding} (hopen : f.status ≠ .resolved)
    (h : (applyVerdict v f).status = .resolved) : v = .resolved := by
  rcases v with _ | _ | _ | _
  · have hkeep : applyVerdict .stillPresent f = f := if_neg hopen
    rw [hkeep] at h
    exact absurd h hopen
  · rfl
  · exact absurd h hopen
  · exact absurd h hopen

theorem Resolves.run_eq {scan : Scan} {t : Table} {f : Finding} (h : Resolves scan t f) :
    scan.runs (engineKey f.seen) = some ⟨.completed, false⟩ := by
  have hverdict := eq_resolved_of_status h.1 h.2
  unfold verdictFor at hverdict
  split_ifs at hverdict
  exact engineOutcome_eq_resolved.mp hverdict

theorem attributedTo_iff {engine : Str} {f : Finding} :
    AttributedTo engine f ↔ engineKey f.seen = engine := by
  constructor
  · exact fun h => h.1
  · rintro rfl
    exact ⟨rfl, fun _ _ hresolves => hresolves.run_eq, rfl⟩

/-! ### After a history -/

section Histories

variable {P : Str → Sighting → Prop} {t : Table}

theorem forall_persist {scan : Scan} (ht : ∀ f ∈ t.rows, P f.fingerprint f.seen)
    (hscan : ∀ r ∈ scan.reports, P r.1 r.2) :
    ∀ f ∈ (persist scan t).rows, P f.fingerprint f.seen := by
  obtain ⟨id, runs, reports⟩ := scan
  simp only [persist] at hscan ⊢
  induction reports generalizing t with
  | nil => exact ht
  | cons r rs ih =>
    rw [foldl_cons]
    refine ih (fun f hf => ?_) fun r' hr' => hscan r' (mem_cons_of_mem _ hr')
    have hmem : f ∈ rowsOf f.fingerprint (persistOne id t r) := mem_rowsOf.mpr ⟨hf, rfl⟩
    by_cases hF : r.1 = f.fingerprint
    · obtain ⟨g, hrows, -, hseen, -⟩ := rowsOf_persistOne id t r
      rw [← hF, hrows] at hmem
      rcases mem_cons.mp hmem with rfl | htail
      · rw [← hF, hseen]
        exact hscan r mem_cons_self
      · exact ht f (mem_rowsOf.mp (mem_of_mem_tail htail)).1
    · rw [rowsOf_persistOne_of_ne hF] at hmem
      exact ht f (mem_rowsOf.mp hmem).1

theorem forall_change {c : Change} (ht : ∀ f ∈ t.rows, P f.fingerprint f.seen)
    (hc : ∀ scan, c = .persist scan → ∀ r ∈ scan.reports, P r.1 r.2) :
    ∀ f ∈ (c.run t).rows, P f.fingerprint f.seen := by
  rcases c with scan | scan | ⟨id, status⟩
  · exact forall_persist ht (hc scan rfl)
  · intro f hf
    obtain ⟨g, hg, rfl⟩ := mem_map.mp hf
    rw [applyVerdict_fingerprint, applyVerdict_seen]
    exact ht g hg
  · intro f hf
    obtain ⟨g, hg, rfl⟩ := mem_map.mp hf
    split_ifs
    · exact ht g hg
    · exact ht g hg

/-- **The run lemma**: what holds of every report of a history holds of every finding after it. -/
theorem forall_runChanges {history : List Change} (ht : ∀ f ∈ t.rows, P f.fingerprint f.seen)
    (h : ∀ scan, Change.persist scan ∈ history → ∀ r ∈ scan.reports, P r.1 r.2) :
    ∀ f ∈ (runChanges history t).rows, P f.fingerprint f.seen := by
  induction history generalizing t with
  | nil => exact ht
  | cons c rest ih =>
    refine ih (forall_change ht fun scan hc => ?_) fun scan hscan => ?_
    · exact h scan (hc ▸ mem_cons_self)
    · exact h scan (mem_cons_of_mem _ hscan)

end Histories

/-- **After a history of scans that report only emissions that are recognised**, every finding of
the asset is attributed to the engine of an emission that it shows. -/
theorem exists_emission_runChanges {history : List Change}
    (h : ∀ scan, Change.persist scan ∈ history →
      ∀ r ∈ scan.reports, ∃ e : Emission, e.Recognised ∧ e.Shown r.2) :
    ∀ f ∈ (runChanges history ⟨[], [], 0⟩).rows,
      ∃ e : Emission, e.Shown f.seen ∧ AttributedTo e.engine f := by
  intro f hf
  obtain ⟨e, hrec, hshown⟩ := forall_runChanges
    (P := fun _ seen => ∃ e : Emission, e.Recognised ∧ e.Shown seen) (t := ⟨[], [], 0⟩)
    (fun _ hmem => by cases hmem) h f hf
  refine ⟨e, hshown, attributedTo_iff.mpr ?_⟩
  rw [hshown.engineKey_eq]
  exact (keyOf_eq_engine_iff e).mpr hrec

theorem mem_rows_single (seen : Sighting) :
    (⟨0, [], 0, seen, .isOpen, 0⟩ : Finding) ∈
      (runChanges [.persist ⟨0, fun _ => none, [([], seen)]⟩] ⟨[], [], 0⟩).rows :=
  mem_singleton_self _

/-- One scan that reports a finding of checkov. -/
theorem exists_emission_runChanges_checkov :
    ∃ f ∈ (runChanges [.persist ⟨0, fun _ => none,
        [([], ⟨[], "iac-misconfig", [], 0, none, false, ⟨none, "iac-"⟩⟩)]⟩]
          ⟨[], [], 0⟩).rows,
      ∃ e : Emission, e.Shown f.seen ∧ AttributedTo e.engine f := by
  refine ⟨_, mem_rows_single _, exists_emission_runChanges (fun scan hscan r hr => ?_) _
    (mem_rows_single _)⟩
  cases Change.persist.inj (mem_singleton.mp hscan)
  cases mem_singleton.mp hr
  exact ⟨.checkov "iac-", prefix_refl _, rfl, rfl⟩

/-- **Every finding that an engine emits is attributed to the engine** exactly for the emissions
that are recognised. -/
theorem attributed_iff (e : Emission) : Attributed e ↔ e.Recognised := by
  rw [← keyOf_eq_engine_iff]
  constructor
  · intro h
    have hshown : e.Shown ⟨[], e.category, [], 0, none, false, ⟨none, e.rule⟩⟩ := ⟨rfl, rfl⟩
    have hkey := (h _ _ (mem_rows_single _) hshown).1
    rwa [hshown.engineKey_eq] at hkey
  · intro h history f _ hshown
    refine attributedTo_iff.mpr ?_
    rw [hshown.engineKey_eq]
    exact h

/-! ### A finding that is closed without a check -/

/-- A secret that gitleaks found by a rule of the repository's own configuration. -/
def tokenFound : Sighting :=
  ⟨"Hardcoded secret: internal token", "secret", "high", 70, none, false,
    ⟨none, "js-token"⟩⟩

def tokenScan : Scan where
  id := 0
  runs key := if key = "secrets" then some ⟨.completed, false⟩ else none
  reports := [("f", tokenFound)]

def sastScan : Scan where
  id := 1
  runs key := if key = "sast" then some ⟨.completed, false⟩ else none
  reports := []

/-- **A secret that is marked resolved by a scan that did not look for secrets**, since its rule
starts like one of the static analysis; and a finding of the dynamic scan, for which a re-test
requests an engine that does not exist. -/
theorem token_resolved :
    (reconcile sastScan (persist tokenScan ⟨[], [], 0⟩)).rows =
        [⟨0, "f", 0, tokenFound, .resolved, 0⟩] ∧
      sastScan.runs "secrets" = none ∧
      ¬ Attributed (.gitleaks "js-token") ∧
      ¬ Attributed (.other "dast" "injection" (by decide)
        "xss-reflected") := by
  have hkey : ∀ (e : Emission) (seen : Sighting), e.Shown seen → engineKey seen ≠ e.engine →
      ¬ Attributed e := by
    intro e seen hshown hne h
    exact hne (h _ _ (mem_rows_single _) hshown).1
  refine ⟨by decide, by decide, ?_, ?_⟩
  · exact hkey _ tokenFound ⟨rfl, rfl⟩ (by decide)
  · exact hkey _ ⟨[], "injection", [], 0, none, false, ⟨none, "xss-reflected"⟩⟩
      ⟨rfl, rfl⟩ (by decide)

end Guardian.Findings
