import Guardian.Order.Table
import Guardian.Posture.Engines

/-!
# The subjects of posture findings

A scan keeps one row for each fingerprint.  The fingerprint is taken of the engine, the category,
the title, the first of `path`, `endpoint` and `resource`, and the rule or the weakness.  The
subject of a finding is not among them where there is a path, or where it stands under another key.
`told_iff` says when every subject has a row of its own.
-/

namespace Guardian.Posture

open Python Triage Guardian.Order List

/-! ### The rows of a scan -/

variable (digest : Json → Str) (ctx : Context)

/-- The turn of a raw finding in `run_scan`: it is merged into the row that is known, or
inserted. -/
def observe (known : List Finding) (raw : RawFinding) : List Finding :=
  let fresh := toFinding digest raw ctx
  amend Finding.fingerprint fresh.fingerprint
    (fun
      | none => fresh
      | some prior => mergeSighting prior fresh) known

def rowsAfter (known : List Finding) (raws : List RawFinding) : List Finding :=
  raws.foldl (observe digest ctx) known

/-- Where the row of a raw finding is. -/
def rowIndex (rows : List Finding) (raw : RawFinding) : ℕ :=
  rows.findIdx fun row => row.fingerprint = raw.fingerprint digest

/-- What the fingerprint is taken of. -/
def identity (raw : RawFinding) : Json :=
  let get := fun key => (Json.get raw.location key).getD .null
  .dict
    [("engine", .str raw.engine), ("category", .str raw.category),
      ("title", .str raw.title),
      ("path",
        orElse (orElse (get "path") (get "endpoint")) (get "resource")),
      ("rule", orElse (get "rule") ((raw.cweId.map .str).getD .null))]

/-- **The digest has no collision** among the findings of a scan. -/
def NoCollision (raws : List RawFinding) : Prop :=
  ∀ a ∈ raws, ∀ b ∈ raws, a.fingerprint digest = b.fingerprint digest → identity a = identity b

variable {digest ctx}

theorem fingerprint_eq {a b : RawFinding} (h : identity a = identity b) :
    a.fingerprint digest = b.fingerprint digest :=
  congrArg (fun key => (digest key).take 32) h

variable {raw : RawFinding} {known : List Finding}

theorem mem_keys_observe {key : Str} :
    key ∈ (observe digest ctx known raw).map Finding.fingerprint ↔
      key ∈ known.map Finding.fingerprint ∨ key = raw.fingerprint digest := by
  unfold observe
  rw [keys_amend]
  swap
  · intro prior hprior
    cases prior with
    | none => rfl
    | some prior => exact hprior prior rfl
  have hfresh : (toFinding digest raw ctx).fingerprint = raw.fingerprint digest := rfl
  rw [hfresh]
  split_ifs with hmem
  · exact ⟨Or.inl, fun h => h.elim id fun heq => heq ▸ hmem⟩
  · rw [mem_append, mem_singleton]

/-- **Every finding of a scan has a row.** -/
theorem mem_keys_rowsAfter {raws : List RawFinding} {key : Str} :
    key ∈ (rowsAfter digest ctx known raws).map Finding.fingerprint ↔
      key ∈ known.map Finding.fingerprint ∨ ∃ raw ∈ raws, key = raw.fingerprint digest := by
  unfold rowsAfter
  induction raws generalizing known with
  | nil => simp
  | cons raw raws ih =>
    rw [foldl_cons, ih, mem_keys_observe, or_assoc]
    refine or_congr_right ⟨?_, ?_⟩
    · rintro (rfl | ⟨r, hr, rfl⟩)
      · exact ⟨raw, mem_cons_self, rfl⟩
      · exact ⟨r, mem_cons_of_mem _ hr, rfl⟩
    · rintro ⟨r, hr, rfl⟩
      rcases mem_cons.mp hr with rfl | hr
      · exact Or.inl rfl
      · exact Or.inr ⟨r, hr, rfl⟩

theorem fingerprint_rowIndex {raws : List RawFinding} (h : raw ∈ raws) :
    ((rowsAfter digest ctx known raws)[rowIndex digest (rowsAfter digest ctx known raws) raw]?).map
      Finding.fingerprint = some (raw.fingerprint digest) := by
  obtain ⟨row, hrow, hkey⟩ :=
    mem_map.mp (mem_keys_rowsAfter.mpr (Or.inr ⟨raw, h, rfl⟩) :
      raw.fingerprint digest ∈ (rowsAfter digest ctx known raws).map Finding.fingerprint)
  have hlt := findIdx_lt_length_of_exists
    (p := fun row => decide (row.fingerprint = raw.fingerprint digest))
    ⟨row, hrow, by simpa using hkey⟩
  unfold rowIndex
  rw [getElem?_eq_getElem hlt]
  have hfound := findIdx_getElem (w := hlt)
  simpa using hfound

/-- **Two findings of a scan have two rows** exactly if their identities differ. -/
theorem rowIndex_ne_iff {raws : List RawFinding} {a b : RawFinding}
    (hcollision : NoCollision digest raws) (ha : a ∈ raws) (hb : b ∈ raws) :
    rowIndex digest (rowsAfter digest ctx known raws) a ≠
        rowIndex digest (rowsAfter digest ctx known raws) b ↔ identity a ≠ identity b := by
  refine not_congr ⟨fun h => hcollision a ha b hb ?_, fun h => ?_⟩
  · have hrow : ((rowsAfter digest ctx known raws)[
        rowIndex digest (rowsAfter digest ctx known raws) a]?).map Finding.fingerprint =
          some (a.fingerprint digest) := fingerprint_rowIndex ha
    rw [h, fingerprint_rowIndex hb] at hrow
    exact (Option.some.inj hrow).symm
  · unfold rowIndex
    rw [fingerprint_eq h]

/-! ### Subjects -/

/-- The most findings of infrastructure code. -/
def maxFindings : ℕ := 1000

/-- **What an engine is given**: the issues that its rules found in the files, or a report. -/
inductive Source
  | iac (issues : List (IacFinding × Resource))
  | k8s (issues : List (Document × Issue))
  | host (report : Report)

/-- The raw findings of an engine. -/
def Source.raws : Source → List RawFinding
  | .iac issues => (issues.take maxFindings).map fun i => toRaw i.1 i.2
  | .k8s issues => issues.map fun i => k8sFinding i.1 i.2
  | .host report => (hostRun report).toOption.getD []

/-- The keys of a location that name a subject: a resource, a Kubernetes object and what is meant of
it, a host, a port. -/
def subjectKeys : List Str :=
  ["resource", "workload", "subject", "host", "port"].map String.toList

/-- **The subject of a finding.** -/
def subject (raw : RawFinding) : List (Option Json) := subjectKeys.map (Json.get raw.location)

/-- **Each two subjects are told apart.**  In infrastructure code the title, the path (or the
resource, if there is none) or the rule (or the weakness) must differ, as in Kubernetes objects,
where the path is always taken and the category may differ as well; two hosts must not expose one
insecure service.  The ports of a server are told apart by their services. -/
def Source.Told : Source → Prop
  | .iac issues =>
    ∀ i ∈ issues.take maxFindings, ∀ j ∈ issues.take maxFindings, i.1.resource ≠ j.1.resource →
      i.1.title ≠ j.1.title ∨ orText i.1.path i.1.resource ≠ orText j.1.path j.1.resource ∨
        orText i.1.rule i.1.cwe ≠ orText j.1.rule j.1.cwe
  | .k8s issues =>
    ∀ i ∈ issues, ∀ j ∈ issues, i.1.label ≠ j.1.label ∨ i.2.subject ≠ j.2.subject →
      i.2.category ≠ j.2.category ∨ i.2.title ≠ j.2.title ∨ i.1.path ≠ j.1.path ∨
        orText i.2.rule i.2.cwe ≠ orText j.2.rule j.2.cwe
  | .host report =>
    report.authorized = true → report.kind = "network_host" →
      ∀ h ∈ report.hosts, ∀ h' ∈ report.hosts, ∀ p ∈ h.openPorts, ∀ p' ∈ h'.openPorts,
        (exposedService p.port).isSome → p.port = p'.port → h.ip = h'.ip

theorem truthy_str (s : Str) : truthy (.str s) = true ↔ s ≠ [] := by
  cases s <;> simp [truthy]

theorem orElse_str (s t : Str) : orElse (.str s) (.str t) = .str (orText s t) := by
  unfold orElse orText
  by_cases hs : s = []
  · subst hs
    rfl
  · rw [if_pos ((truthy_str s).mpr hs), if_neg hs]

theorem identity_eq_iff {a b : RawFinding} :
    identity a = identity b ↔ a.engine = b.engine ∧ a.category = b.category ∧ a.title = b.title ∧
      orElse (orElse ((Json.get a.location "path").getD .null)
          ((Json.get a.location "endpoint").getD .null))
          ((Json.get a.location "resource").getD .null) =
        orElse (orElse ((Json.get b.location "path").getD .null)
          ((Json.get b.location "endpoint").getD .null))
          ((Json.get b.location "resource").getD .null) ∧
      orElse ((Json.get a.location "rule").getD .null) ((a.cweId.map .str).getD .null) =
        orElse ((Json.get b.location "rule").getD .null)
          ((b.cweId.map .str).getD .null) := by
  simp [identity]

/-! ### Infrastructure code -/

theorem subject_toRaw (i : IacFinding) (r : Resource) :
    subject (toRaw i r) = [some (.str i.resource), none, none, none, none] := rfl

theorem identity_toRaw_iff {i j : IacFinding} {r r' : Resource} :
    identity (toRaw i r) = identity (toRaw j r') ↔ i.title = j.title ∧
      orText i.path i.resource = orText j.path j.resource ∧
      orText i.rule i.cwe = orText j.rule j.cwe := by
  have hplace : ∀ i : IacFinding, orElse (orElse (.str i.path) .null) (.str i.resource) =
      .str (orText i.path i.resource) := by
    intro i
    rw [← orElse_str]
    unfold orElse
    by_cases hpath : truthy (.str i.path) = true
    · rw [if_pos hpath, if_pos hpath]
    · rw [if_neg hpath, if_neg hpath]
      rfl
  rw [identity_eq_iff]
  change _ ∧ _ ∧ _ ∧ orElse (orElse (.str i.path) .null) (.str i.resource) =
    orElse (orElse (.str j.path) .null) (.str j.resource) ∧
    orElse (.str i.rule) (.str i.cwe) = orElse (.str j.rule) (.str j.cwe) ↔ _
  rw [hplace, hplace, orElse_str, orElse_str, Json.str.injEq, Json.str.injEq]
  exact ⟨fun h => h.2.2, fun h => ⟨rfl, rfl, h⟩⟩

/-! ### Kubernetes objects -/

def optText (s : Str) : Json := if s = [] then .null else .str s

theorem optText_inj {s t : Str} : optText s = optText t ↔ s = t := by
  unfold optText
  split_ifs with hs ht ht <;> simp_all

theorem subject_k8sFinding (doc : Document) (issue : Issue) :
    subject (k8sFinding doc issue) =
      [none, some (.str doc.label), some (.str issue.subject), none, none] := rfl

theorem identity_k8sFinding_iff {d d' : Document} {i j : Issue} :
    identity (k8sFinding d i) = identity (k8sFinding d' j) ↔ i.category = j.category ∧
      i.title = j.title ∧ d.path = d'.path ∧ orText i.rule i.cwe = orText j.rule j.cwe := by
  have hplace : ∀ d : Document, orElse (orElse (.str d.path) .null) .null = optText d.path := by
    intro d
    unfold optText orElse
    by_cases hpath : d.path = []
    · rw [hpath]
      rfl
    · rw [if_pos ((truthy_str d.path).mpr hpath), if_pos ((truthy_str d.path).mpr hpath),
        if_neg hpath]
  have hrule : ∀ i : Issue, orElse (.str i.rule)
      (((if i.cwe = [] then none else some i.cwe).map Json.str).getD .null) =
        optText (orText i.rule i.cwe) := by
    intro i
    unfold optText orElse orText
    by_cases hrule : i.rule = []
    · rw [hrule]
      by_cases hcwe : i.cwe = [] <;> simp [hcwe, truthy]
    · rw [if_pos ((truthy_str i.rule).mpr hrule), if_neg hrule, if_neg hrule]
  rw [identity_eq_iff]
  change _ ∧ _ ∧ _ ∧ orElse (orElse (.str d.path) .null) .null =
    orElse (orElse (.str d'.path) .null) .null ∧
    orElse (.str i.rule) (((if i.cwe = [] then none else some i.cwe).map Json.str).getD .null) =
    orElse (.str j.rule) (((if j.cwe = [] then none else some j.cwe).map Json.str).getD .null) ↔ _
  rw [hplace, hplace, hrule, hrule, optText_inj, optText_inj]
  exact ⟨fun h => h.2, fun h => ⟨rfl, h⟩⟩

/-! ### Reports -/

def noSubject : List (Option Json) := [none, none, none, none, none]

theorem mem_of_exposedService {port : ℤ} {service : Str} (h : exposedService port = some service) :
    (port, service) ∈ insecureServices := by
  rw [exposedService, Option.filter_eq_some_iff] at h
  have hlookup := h.1
  revert hlookup
  generalize insecureServices = table
  induction table with
  | nil => exact fun hlookup => by cases hlookup
  | cons entry table ih =>
    obtain ⟨key, value⟩ := entry
    intro hlookup
    by_cases hkey : port = key
    · subst hkey
      simp only [lookup_cons, beq_self_eq_true] at hlookup
      cases hlookup
      exact mem_cons_self
    · have hne : (port == key) = false := by simpa using hkey
      simp only [lookup_cons, hne] at hlookup
      exact mem_cons_of_mem _ (ih hlookup)

theorem services_apart : ∀ x ∈ insecureServices, ∀ y ∈ insecureServices,
    ((lanTitle x.2).take 300 = (lanTitle y.2).take 300 → x.1 = y.1) ∧
      ((listeningTitle x.2).take 300 = (listeningTitle y.2).take 300 → x.1 = y.1) := by
  have hport : ∀ x ∈ insecureServices, ∀ y ∈ insecureServices, x.2 = y.2 → x.1 = y.1 := by
    simp only [insecureServices, forall_mem_cons]
    simp only [String.toList_inj, String.reduceEq, not_mem_nil, IsEmpty.forall_iff,
      implies_true, and_self]
  have hlength : ∀ x ∈ insecureServices,
      (lanTitle x.2).length ≤ 300 ∧ (listeningTitle x.2).length ≤ 300 := by decide
  intro x hx y hy
  rw [take_of_length_le (hlength x hx).1, take_of_length_le (hlength y hy).1,
    take_of_length_le (hlength x hx).2, take_of_length_le (hlength y hy).2]
  exact ⟨fun h => hport x hx y hy (append_cancel_left h),
    fun h => hport x hx y hy (append_cancel_left h)⟩

theorem of_mem_ite {c : Prop} [Decidable c] {title category cwe description : Str}
    {severity : Findings.Severity} {location : Json.Dict}
    (h : raw ∈ if c then [hostFinding title category severity cwe description location] else []) :
    raw.category = category ∧
      subject raw = subject (hostFinding title category severity cwe description location) := by
  by_cases hc : c
  · rw [if_pos hc, mem_singleton] at h
    rw [h]
    exact ⟨rfl, rfl⟩
  · rw [if_neg hc] at h
    cases h

theorem of_mem_networkFindings {report : Report} (h : raw ∈ networkFindings report) :
    (raw.category = "network-router" ∧ subject raw = noSubject) ∨
      ∃ host ∈ report.hosts, ∃ port ∈ host.openPorts, ∃ service,
        exposedService port.port = some service ∧ raw = lanFinding host port.port service := by
  rcases mem_append.mp h with h | h
  · refine Or.inl ?_
    simp only [routerFindings, mem_append] at h
    rcases h with (h | h) | h
    all_goals
      obtain ⟨hcategory, hsubject⟩ := of_mem_ite h
      exact ⟨hcategory, hsubject⟩
  · simp only [mem_flatMap, Option.mem_toList, Option.map_eq_some_iff] at h
    obtain ⟨host, hhost, port, hport, service, hservice, rfl⟩ := h
    exact Or.inr ⟨host, hhost, port, hport, service, hservice, rfl⟩

theorem of_mem_serverFindings {report : Report} (h : raw ∈ serverFindings report) :
    (raw.category ≠ "server-service" ∧ subject raw = noSubject) ∨
      ∃ host, ∃ port ∈ report.server.listening, ∃ service,
        exposedService port.port = some service ∧ raw = listeningFinding host port service := by
  simp only [serverFindings, mem_append] at h
  rcases h with (h | h) | h
  · refine Or.inl ?_
    simp only [settingFindings, mem_append] at h
    rcases h with (((h | h) | h) | h) | h
    all_goals
      obtain ⟨hcategory, hsubject⟩ := of_mem_ite h
      exact ⟨by rw [hcategory]; decide, hsubject⟩
  · simp only [mem_flatMap, Option.mem_toList, Option.map_eq_some_iff] at h
    obtain ⟨port, hport, service, hservice, rfl⟩ := h
    exact Or.inr ⟨_, port, hport, service, hservice, rfl⟩
  · refine Or.inl ?_
    simp only [accountFindings, mem_append] at h
    rcases h with (h | h) | h
    all_goals
      obtain ⟨hcategory, hsubject⟩ := of_mem_ite h
      exact ⟨by rw [hcategory]; decide, hsubject⟩

theorem subject_lanFinding (h : Host) (port : ℤ) (service : Str) :
    subject (lanFinding h port service) =
      [none, none, none, some (.str h.ip), some (jsonInt port)] := rfl

theorem subject_listeningFinding (host : Str) (port : Port) (service : Str) :
    subject (listeningFinding host port service) =
      [none, none, none, none, some (jsonInt port.port)] := rfl

/-- **Services of hosts** have the identity of their port. -/
theorem identity_lanFinding_iff {h h' : Host} {port port' : ℤ} {service service' : Str}
    (hservice : exposedService port = some service)
    (hservice' : exposedService port' = some service') :
    identity (lanFinding h port service) = identity (lanFinding h' port' service') ↔
      port = port' := by
  constructor
  · intro hid
    have htitle : (lanTitle service).take 300 = (lanTitle service').take 300 :=
      (identity_eq_iff.mp hid).2.2.1
    exact (services_apart _ (mem_of_exposedService hservice) _
      (mem_of_exposedService hservice')).1 htitle
  · rintro rfl
    rw [hservice] at hservice'
    cases hservice'
    rfl

/-- The findings of a network are told apart if no two hosts expose one insecure service. -/
theorem network_told_iff (report : Report) :
    (∀ a ∈ networkFindings report, ∀ b ∈ networkFindings report, subject a ≠ subject b →
        identity a ≠ identity b) ↔
      ∀ h ∈ report.hosts, ∀ h' ∈ report.hosts, ∀ p ∈ h.openPorts, ∀ p' ∈ h'.openPorts,
        (exposedService p.port).isSome → p.port = p'.port → h.ip = h'.ip := by
  constructor
  · intro htold h hh h' hh' p hp p' hp' hservice hport
    obtain ⟨service, hservice⟩ := Option.isSome_iff_exists.mp hservice
    have hservice' : exposedService p'.port = some service := hport ▸ hservice
    have hmem : ∀ host ∈ report.hosts, ∀ port ∈ host.openPorts,
        exposedService port.port = some service →
          lanFinding host port.port service ∈ networkFindings report := by
      intro host hhost port hport hs
      refine mem_append_right _ ?_
      simp only [mem_flatMap, Option.mem_toList, Option.map_eq_some_iff]
      exact ⟨host, hhost, port, hport, service, hs, rfl⟩
    by_contra hip
    refine htold _ (hmem h hh p hp hservice) _ (hmem h' hh' p' hp' hservice') (fun hsubject => ?_)
      ((identity_lanFinding_iff hservice hservice').mpr hport)
    rw [subject_lanFinding, subject_lanFinding] at hsubject
    simp only [List.cons.injEq, Option.some.injEq, Json.str.injEq] at hsubject
    exact hip hsubject.2.2.2.1
  · intro htold a ha b hb hsubject hid
    refine hsubject ?_
    have hcategory := (identity_eq_iff.mp hid).2.1
    rcases of_mem_networkFindings ha with ⟨hcat, hsub⟩ | ⟨h, hh, p, hp, service, hs, rfl⟩
    · rcases of_mem_networkFindings hb with ⟨-, hsub'⟩ | ⟨h, hh, p, hp, service, hs, rfl⟩
      · rw [hsub, hsub']
      · have hne : "network-router".toList ≠ "network-service".toList := by decide
        exact absurd (hcat.symm.trans hcategory) hne
    · rcases of_mem_networkFindings hb with ⟨hcat, -⟩ | ⟨h', hh', p', hp', service', hs', rfl⟩
      · have hne : "network-service".toList ≠ "network-router".toList := by decide
        exact absurd (hcategory.trans hcat) hne
      · have hport := (identity_lanFinding_iff hs hs').mp hid
        have hip := htold h hh h' hh' p hp p' hp' (by rw [hs]; rfl) hport
        rw [subject_lanFinding, subject_lanFinding, hport, hip]

/-- **The findings of a server** are told apart. -/
theorem server_told (report : Report) : ∀ a ∈ serverFindings report, ∀ b ∈ serverFindings report,
    subject a ≠ subject b → identity a ≠ identity b := by
  intro a ha b hb hsubject hid
  refine hsubject ?_
  have hcategory := (identity_eq_iff.mp hid).2.1
  rcases of_mem_serverFindings ha with ⟨hcat, hsub⟩ | ⟨host, p, hp, service, hs, rfl⟩
  · rcases of_mem_serverFindings hb with ⟨-, hsub'⟩ | ⟨host, p, hp, service, hs, rfl⟩
    · rw [hsub, hsub']
    · exact absurd hcategory hcat
  · rcases of_mem_serverFindings hb with ⟨hcat, -⟩ | ⟨host', p', hp', service', hs', rfl⟩
    · exact absurd hcategory.symm hcat
    · have htitle : (listeningTitle service).take 300 = (listeningTitle service').take 300 :=
        (identity_eq_iff.mp hid).2.2.1
      have hport := (services_apart _ (mem_of_exposedService hs) _
        (mem_of_exposedService hs')).2 htitle
      dsimp only at hport
      rw [subject_listeningFinding, subject_listeningFinding, hport]

/-! ### Each two subjects -/

theorem identities_told_iff (source : Source) :
    (∀ a ∈ source.raws, ∀ b ∈ source.raws, subject a ≠ subject b → identity a ≠ identity b) ↔
      source.Told := by
  rcases source with issues | issues | report
  · simp only [Source.raws, forall_mem_map, Source.Told, subject_toRaw, ne_eq,
      identity_toRaw_iff, not_and_or, List.cons.injEq, Option.some.injEq, Json.str.injEq,
      and_true]
  · simp only [Source.raws, forall_mem_map, Source.Told, subject_k8sFinding, ne_eq,
      identity_k8sFinding_iff, not_and_or, List.cons.injEq, Option.some.injEq, Json.str.injEq,
      and_true, true_and]
  · unfold Source.raws Source.Told hostRun
    dsimp only
    by_cases hauthorized : report.authorized = true
    swap
    · simp [hauthorized, Except.toOption]
    rw [if_neg (by simp [hauthorized])]
    by_cases hnetwork : report.kind = "network_host"
    · rw [if_pos hnetwork]
      exact (network_told_iff report).trans ⟨fun h _ _ => h, fun h => h hauthorized hnetwork⟩
    rw [if_neg hnetwork]
    refine iff_of_true ?_ fun _ hkind => absurd hkind hnetwork
    split_ifs
    · exact server_told report
    · exact fun a ha => by cases ha

/-- **Each two findings of a scan that name different subjects have two rows** exactly if the source
tells them apart. -/
theorem told_iff {digest : Json → Str} {source : Source}
    (hcollision : NoCollision digest source.raws) (ctx : Context) (known : List Finding) :
    (∀ a ∈ source.raws, ∀ b ∈ source.raws, subject a ≠ subject b →
        rowIndex digest (rowsAfter digest ctx known source.raws) a ≠
          rowIndex digest (rowsAfter digest ctx known source.raws) b) ↔ source.Told := by
  rw [← identities_told_iff]
  refine forall₂_congr fun a ha => forall₂_congr fun b hb => imp_congr_right fun _ => ?_
  exact rowIndex_ne_iff hcollision ha hb

/-! ### A network with telnet -/

def sampleContext : Context :=
  ⟨1, 1, 1, 1, 1, "internal", "high", "medium", "automated"⟩

/-- A report about hosts, of which nothing but their ports is known. -/
def networkReport (hosts : List Host) : Report where
  kind := "network_host"
  authorized := true
  hostname := []
  gateway := "192.168.1.1"
  router := ⟨false, true, false, false⟩
  hosts := hosts
  server := ⟨[], [], [], none, [], [], false, [], false, false, 0⟩

def hostWith (ip : String) (port : ℤ) : Host := ⟨ip.toList, [], [⟨port, []⟩]⟩

/-- The digests of the identities of a telnet and of an ftp service of a host. -/
def serviceDigest : Json → Str
  | .dict entries =>
    match (Json.get entries "title").bind Json.text with
    | some title =>
      if title = lanTitle "telnet" then "56d2b0333785200389d4fd48c31d1d56"
      else if title = lanTitle "ftp" then "0b6459a625b1c951c7e1b12532d9d402"
      else []
    | none => []
  | _ => []

/-- A host with telnet and another one with ftp. -/
def telnetAndFtp : Source :=
  .host (networkReport [hostWith "192.168.1.10" 23, hostWith "192.168.1.11" 21])

theorem raws_telnetAndFtp : telnetAndFtp.raws =
    [lanFinding (hostWith "192.168.1.10" 23) 23 "telnet",
      lanFinding (hostWith "192.168.1.11" 21) 21 "ftp"] := rfl

theorem told_telnetAndFtp : telnetAndFtp.Told ∧
    ∀ a ∈ telnetAndFtp.raws, ∀ b ∈ telnetAndFtp.raws, subject a ≠ subject b →
      rowIndex serviceDigest (rowsAfter serviceDigest sampleContext [] telnetAndFtp.raws) a ≠
        rowIndex serviceDigest (rowsAfter serviceDigest sampleContext [] telnetAndFtp.raws) b := by
  have htold : telnetAndFtp.Told := fun _ _ => by decide
  refine ⟨htold, (told_iff ?_ sampleContext []).mpr htold⟩
  have hapart : (lanFinding (hostWith "192.168.1.10" 23) 23 "telnet").fingerprint
      serviceDigest ≠ (lanFinding (hostWith "192.168.1.11" 21) 21 "ftp").fingerprint
        serviceDigest := by decide
  rw [raws_telnetAndFtp]
  intro a ha b hb hsame
  simp only [mem_cons, not_mem_nil, or_false] at ha hb
  rcases ha with rfl | rfl <;> rcases hb with rfl | rfl
  · rfl
  · exact absurd hsame hapart
  · exact absurd hsame.symm hapart
  · rfl

def telnetTwice : Source :=
  .host (networkReport [hostWith "192.168.1.10" 23, hostWith "192.168.1.11" 23])

/-- **Two hosts that expose the same service** share a row. -/
theorem two_telnet_hosts : ¬ ∀ a ∈ telnetTwice.raws, ∀ b ∈ telnetTwice.raws,
    subject a ≠ subject b →
      rowIndex serviceDigest (rowsAfter serviceDigest sampleContext [] telnetTwice.raws) a ≠
        rowIndex serviceDigest (rowsAfter serviceDigest sampleContext [] telnetTwice.raws) b := by
  intro h
  refine h (lanFinding (hostWith "192.168.1.10" 23) 23 "telnet") mem_cons_self
    (lanFinding (hostWith "192.168.1.11" 23) 23 "telnet")
    (mem_cons_of_mem _ mem_cons_self) (fun hsubject => ?_) ?_
  · rw [subject_lanFinding, subject_lanFinding] at hsubject
    simp [hostWith] at hsubject
  · have hsame : (lanFinding (hostWith "192.168.1.10" 23) 23 "telnet").fingerprint
        serviceDigest = (lanFinding (hostWith "192.168.1.11" 23) 23 "telnet").fingerprint
          serviceDigest :=
      fingerprint_eq ((identity_lanFinding_iff (by decide) (by decide)).mpr rfl)
    unfold rowIndex
    rw [hsame]

end Guardian.Posture
