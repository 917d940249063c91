import Guardian.Dast.Scanner

/-!
# What a scan ensures

A policy says what may be requested, what is known of a response, and which targets are good.  When
it is sound for a scanner, every part of the scan keeps to it.
-/

namespace Guardian.Dast

open Python Transition Authorization
open Scanner (addError reportBudget countResponse record noteForm stopped)

/-! ### One request -/

/-- **A request** adds one fetch to the log, or none, and never raises. -/
theorem send_cases (scanner : Scanner) (url : Str) (headers : Headers) (reason : Reason)
    (s : State) :
    (scanner.send url headers reason s).1 = .ok none ∧
        (scanner.send url headers reason s).2.traffic.wire.log = s.traffic.wire.log ∨
      ∃ start outcome, (scanner.send url headers reason s).1 = .ok (some outcome) ∧
        (scanner.send url headers reason s).2.traffic.wire.log =
          ⟨url, headers, reason, start, outcome⟩ :: s.traffic.wire.log := by
  unfold Scanner.send Scanner.take
  dsimp only
  rcases scanner.limits.take s.traffic.budget (scanner.world.read s.traffic.wire).clock with
    ⟨_ | _, clock, budget⟩
  · exact Or.inl ⟨rfl, rfl⟩
  · exact Or.inr ⟨clock, _, rfl, rfl⟩

/-! ### Policies -/

/-- **A policy**: the contract of the traffic, what may be requested, what is known of a response
without an error, and which targets are good. -/
structure Policy where
  raises : Stop → Prop
  escape : Traffic → Prop
  keep : Traffic → Prop
  allowed : Str → Reason → Prop
  known : Str → Reason → Response → Prop
  good : Target → Prop

namespace Policy

/-- The policy as a contract of the scanner. -/
def contract (p : Policy) : Contract Stop State :=
  ⟨p.raises, fun s => p.escape s.traffic, fun s => p.keep s.traffic⟩

/-- The target is good, and is one that the scanner requests. -/
def Ready (p : Policy) (target : Target) : Prop := p.good target ∧ target.method = "GET"

def pageOf (r : Response) : Page := ⟨r.headers.get "content-type", r.body⟩

/-- The rules of the crawl. -/
def rules (p : Policy) : CrawlRules :=
  ⟨fun url depth => p.allowed url (.crawl depth),
    fun url depth page => ∃ r, p.known url (.crawl depth) r ∧ page = pageOf r, p.good⟩

/-- **The policy is sound**: sending a request that is allowed and in scope keeps to it, what the
scanner requests of a good target and of the site is allowed, and the rules of the crawl are
sound. -/
structure Sound (p : Policy) (scanner : Scanner) (maxPages maxDepth : ℤ) : Prop where
  raises : ∀ e, e ≠ .outOfFuel → p.raises e
  send : ∀ url headers reason,
    Ensures p.contract
      (p.allowed url reason ∧ sameScope scanner.runtime scanner.hosts url = .ok true)
      (scanner.send url headers reason) fun outcome =>
        ∀ r, outcome = some (.response r) → r.error = [] → p.known url reason r
  site : ∀ url, p.allowed url .site
  target : ∀ target, p.Ready target → p.allowed target.url (.check target.fromContent)
  submit : ∀ target param value url, p.Ready target →
    scanner.urlFor target param value = .ok url → p.allowed url (.check target.fromContent)
  crawl : p.rules.Sound scanner.runtime scanner.urls scanner.pages
    (scanner.crawler maxPages maxDepth)

variable {p : Policy} {scanner : Scanner} {maxPages maxDepth : ℤ} {pre : Prop}

section Parts

theorem ensures_update {f : State → State} (hf : ∀ s, (f s).traffic = s.traffic) :
    Ensures p.contract pre (.update f : Scan Unit) fun _ => True :=
  Transition.ensures_update (fun s hs => show p.escape (f s).traffic by rw [hf]; exact hs)
    fun s hs => show p.keep (f s).traffic by rw [hf]; exact hs

theorem ensures_unit {a : Unit} : Ensures p.contract pre (pure a : Scan Unit) fun _ => True :=
  ensures_pure fun _ => trivial

theorem ensures_bool {b : Bool} : Ensures p.contract pre (pure b : Scan Bool) fun _ => True :=
  ensures_pure fun _ => trivial

theorem ensures_addError {error : Str} :
    Ensures p.contract pre (addError error) fun _ => True := ensures_update fun _ => rfl

theorem ensures_reportBudget : Ensures p.contract pre reportBudget fun _ => True :=
  ensures_update fun _ => rfl

theorem ensures_countResponse {r : Response} :
    Ensures p.contract pre (countResponse r) fun _ => True := ensures_update fun _ => rfl

theorem ensures_record {checkId url parameter payload : Str} {verdict : Verdict} {status : ℤ} :
    Ensures p.contract pre (record checkId url parameter payload verdict status) fun _ => True := by
  refine ensures_update fun s => ?_
  by_cases hfired : verdict.fired = false
  · rw [if_pos hfired]
  · rw [if_neg hfired]

theorem ensures_noteForm {param : Param} :
    Ensures p.contract pre (noteForm param) fun _ => True := by
  refine ensures_update fun s => ?_
  by_cases hplace : param.place = .form
  · rw [if_pos hplace]
  · rw [if_neg hplace]

theorem ensures_look {A : Type} {f : State → A} :
    Ensures p.contract pre (.read f : Scan A) fun _ => True := ensures_read fun _ _ _ => trivial

theorem ensures_stopped : Ensures p.contract pre stopped fun _ => True :=
  ensures_look.bind fun _ =>
    ensures_ite (fun _ => ensures_reportBudget.bind fun _ => ensures_bool) fun _ => ensures_bool

variable (h : p.Sound scanner maxPages maxDepth)
include h

theorem ensures_call {A : Type} {x : Except Fault A} :
    Ensures p.contract pre (lift x : Scan A) fun a => x = .ok a :=
  ensures_lift (fun _ => h.raises _ (by simp)) fun _ _ ha => ha

/-- **A request** is sent when it is allowed, and what is known of its response is known. -/
theorem ensures_request (url : Str) (headers : Headers) (reason : Reason) :
    Ensures p.contract (p.allowed url reason) (scanner.request url headers reason) fun res =>
      ∀ r, res = some r → p.known url reason r := by
  have hnone : ∀ {pre}, Ensures p.contract pre (pure none : Scan (Option Response)) fun res =>
      ∀ r, res = some r → p.known url reason r := ensures_pure fun _ _ hr => by cases hr
  refine (ensures_call h).bind fun inScope =>
    ensures_ite (fun _ => ensures_addError.bind fun _ => hnone) fun hscope => ?_
  rw [Bool.not_eq_false] at hscope
  rw [hscope]
  refine (h.send url headers reason).bind fun outcome => ?_
  rcases outcome with _ | (error | _ | r)
  · exact ensures_reportBudget.bind fun _ => hnone
  · exact ensures_addError.bind fun _ => hnone
  · exact ensures_addError.bind fun _ => hnone
  · refine ensures_ite (fun _ => ensures_addError.bind fun _ => hnone) fun herror => ?_
    refine ensures_countResponse.bind fun _ => ensures_pure fun hr r' hr' => ?_
    cases hr'
    exact hr.1.2 r rfl (not_not.mp herror)

theorem ensures_crawlFetch (url : Str) (depth : ℕ) :
    Ensures p.contract (p.allowed url (.crawl depth)) (scanner.crawlFetch url depth)
      (p.rules.known url depth) := by
  refine (ensures_request h url [] (.crawl depth)).bind fun res => ?_
  rcases res with _ | r
  · exact ensures_ofExcept (fun e he => by cases he; exact h.raises _ (by simp)) fun _ _ ha => by
      cases ha
  · exact ensures_pure fun hr => ⟨r, hr.2 r rfl, rfl⟩

theorem ensures_submit (target : Target) (param : Param) (value : Str) :
    Ensures p.contract (p.Ready target) (scanner.submit target param value) fun _ => True := by
  refine (ensures_call h).bind fun url => ?_
  exact (ensures_request h url [] _).weaken
    (fun hready => h.submit target param value url hready.1 hready.2) fun _ _ => trivial

/-- **A check of a parameter** sends requests that are allowed, whatever its probes are. -/
theorem ensures_probeAll {checkId : Str} {target : Target} {param : Param} {note : Scan Unit}
    {evaluate : Probe → Response → Except Fault Verdict}
    (hnote : ∀ pre, Ensures p.contract pre note fun _ => True) (probes : List Probe) :
    Ensures p.contract (p.Ready target)
      (scanner.probeAll checkId target param note evaluate probes) fun _ => True := by
  induction probes with
  | nil => exact ensures_bool
  | cons probe probes ih =>
    refine (ensures_submit h target param probe.payload).bind fun res => ?_
    rcases res with _ | r
    · exact ensures_bool
    refine (hnote _).bind fun _ => (ensures_call h).bind fun verdict => ensures_record.bind fun _ =>
      ensures_ite (fun _ => ensures_bool) fun _ => ?_
    exact ih.mono_pre fun hready => hready.1.1.1.1

theorem ensures_testSql (target : Target) (param : Param) (baseline : Response) :
    Ensures p.contract (p.Ready target) (scanner.testSql target param baseline) fun _ => True := by
  refine (ensures_probeAll h (fun _ => ensures_unit) sqlErrorProbes).bind fun goOn =>
    ensures_ite (fun _ => ensures_unit) fun _ => ?_
  refine ((ensures_submit h target param _).mono_pre fun hready => hready.1).bind
    fun trueResponse => ?_
  refine ((ensures_submit h target param _).mono_pre fun hready => hready.1.1).bind
    fun falseResponse => ?_
  rcases trueResponse with _ | trueResponse
  · exact ensures_unit
  rcases falseResponse with _ | falseResponse
  · exact ensures_unit
  exact (ensures_call h).bind fun verdict => ensures_record

theorem ensures_timeBlindAll (target : Target) (param : Param) (controlMs : ℚ)
    (probes confirmProbes : List Probe) :
    Ensures p.contract (p.Ready target)
      (scanner.timeBlindAll target param controlMs probes confirmProbes) fun _ => True := by
  have hunequal : Ensures p.contract (p.Ready target) (lift (.error .valueError) : Scan Unit)
      fun _ => True := (ensures_call h).weaken (fun hp => hp) fun _ _ => trivial
  induction probes generalizing confirmProbes with
  | nil =>
    rcases confirmProbes with _ | ⟨confirmProbe, confirmProbes⟩
    · exact ensures_unit
    · exact hunequal
  | cons probe probes ih =>
    rcases confirmProbes with _ | ⟨confirmProbe, confirmProbes⟩
    · exact hunequal
    refine (ensures_submit h target param probe.payload).bind fun base => ?_
    rcases base with _ | base
    · exact ensures_unit
    refine ensures_ite (fun _ => (ih confirmProbes).mono_pre fun hready => hready.1) fun _ => ?_
    refine ((ensures_submit h target param confirmProbe.payload).mono_pre
      fun hready => hready.1).bind fun confirm => ?_
    rcases confirm with _ | confirm
    · exact ensures_unit
    refine (ensures_call h).bind fun verdict => ensures_record.bind fun _ =>
      ensures_ite (fun _ => ensures_unit) fun _ => ?_
    exact (ih confirmProbes).mono_pre fun hready => hready.1.1.1.1

theorem ensures_testParameter (target : Target) (param : Param) :
    Ensures p.contract (p.Ready target) (scanner.testParameter target param) fun _ => True := by
  refine (ensures_submit h target param _).bind fun res => ?_
  rcases res with _ | baseline
  · exact ensures_unit
  refine ((ensures_probeAll h (fun _ => ensures_noteForm) _).mono_pre
    fun hready => hready.1).bind fun _ => ?_
  refine ((ensures_testSql h target param baseline).mono_pre fun hready => hready.1.1).bind
    fun _ => ?_
  refine ((ensures_timeBlindAll h target param _ _ _).mono_pre fun hready => hready.1.1.1).bind
    fun _ => ?_
  refine ((ensures_probeAll h (fun _ => ensures_unit) _).mono_pre
    fun hready => hready.1.1.1.1).bind fun _ => ?_
  refine ((ensures_probeAll h (fun _ => ensures_unit) _).mono_pre
    fun hready => hready.1.1.1.1.1).bind fun _ => ?_
  refine ((ensures_probeAll h (fun _ => ensures_unit) _).mono_pre
    fun hready => hready.1.1.1.1.1.1).bind fun _ => ?_
  refine ((ensures_probeAll h (fun _ => ensures_unit) _).mono_pre
    fun hready => hready.1.1.1.1.1.1.1).bind fun _ => ensures_unit

theorem ensures_checkCors (target : Target) :
    Ensures p.contract (p.Ready target) (scanner.checkCors target) fun _ => True := by
  refine (ensures_call h).bind fun key => ensures_look.bind fun seen =>
    ensures_ite (fun _ => ensures_unit) fun _ => ?_
  refine (ensures_update fun _ => by rfl).bind fun _ => ?_
  refine ((ensures_request h target.url _ _).mono_pre
    fun hready => h.target target hready.1.1.1).bind fun res => ?_
  rcases res with _ | r
  · exact ensures_unit
  · exact (ensures_call h).bind fun verdict => ensures_record

theorem ensures_checkCsrf (target : Target) :
    Ensures p.contract pre (scanner.checkCsrf target) fun _ => True := by
  refine (ensures_call h).bind fun key => ensures_look.bind fun seen =>
    ensures_ite (fun _ => ensures_unit) fun _ => ?_
  exact (ensures_update fun _ => by rfl).bind fun _ => ensures_look.bind fun cookies =>
    (ensures_call h).bind fun verdict => ensures_record

theorem ensures_checkSessionUrls (targets : List Target) :
    Ensures p.contract pre (scanner.checkSessionUrls targets) fun _ => True := by
  induction targets generalizing pre with
  | nil => exact ensures_unit
  | cons target targets ih =>
    exact (ensures_call h).bind fun verdict => ensures_record.bind fun _ =>
      ensures_ite (fun _ => ensures_unit) fun _ => ih

theorem ensures_checkExposedPaths (origin : Str) (paths : List Str) :
    Ensures p.contract pre (scanner.checkExposedPaths origin paths) fun _ => True := by
  induction paths generalizing pre with
  | nil => exact ensures_bool
  | cons path paths ih =>
    refine ((ensures_request h _ [] .site).mono_pre fun _ => h.site _).bind fun res => ?_
    rcases res with _ | r
    · exact ensures_stopped.bind fun _ => ensures_ite (fun _ => ensures_bool) fun _ => ih
    · exact (ensures_call h).bind fun verdict => ensures_record.bind fun _ => ih

theorem ensures_checkGraphql (origin : Str) (endpoints : List Str) :
    Ensures p.contract pre (scanner.checkGraphql origin endpoints) fun _ => True := by
  induction endpoints generalizing pre with
  | nil => exact ensures_bool
  | cons endpoint endpoints ih =>
    refine ((ensures_request h _ [] .site).mono_pre fun _ => h.site _).bind fun res => ?_
    rcases res with _ | r
    · exact ensures_stopped.bind fun _ => ensures_ite (fun _ => ensures_bool) fun _ => ih
    · exact (ensures_call h).bind fun verdict => ensures_record.bind fun _ =>
        ensures_ite (fun _ => ensures_bool) fun _ => ih

theorem ensures_checkSiteProbes (seeds : List Str) :
    Ensures p.contract pre (scanner.checkSiteProbes seeds) fun _ => True := by
  rcases seeds with _ | ⟨seed, seeds⟩
  · exact ensures_unit
  refine (ensures_call h).bind fun parsed => ensures_ite (fun _ => ensures_unit) fun _ => ?_
  refine (ensures_checkExposedPaths h _ _).bind fun _ =>
    ensures_ite (fun _ => ensures_unit) fun _ => ?_
  refine (ensures_checkGraphql h _ _).bind fun _ =>
    ensures_ite (fun _ => ensures_unit) fun _ => ?_
  refine ((ensures_request h _ _ .site).mono_pre fun _ => h.site _).bind fun res => ?_
  rcases res with _ | r
  · exact ensures_unit
  · exact (ensures_call h).bind fun verdict => ensures_record

theorem ensures_refetchAll (targets : List Target) (seen : List Str) :
    Ensures p.contract (∀ target ∈ targets, p.good target) (scanner.refetchAll targets seen)
      fun _ => True := by
  induction targets generalizing seen with
  | nil => exact ensures_unit
  | cons target targets ih =>
    have hrest : ∀ {pre : Prop} (seen : List Str), (pre → ∀ t ∈ target :: targets, p.good t) →
        Ensures p.contract pre (scanner.refetchAll targets seen) fun _ => True :=
      fun seen hpre => (ih seen).mono_pre fun hp t ht => hpre hp t (List.mem_cons_of_mem _ ht)
    refine ensures_ite (fun _ => hrest seen fun hgood => hgood) fun hmethod => ?_
    refine (ensures_call h).bind fun key =>
      ensures_ite (fun _ => hrest seen fun hgood => hgood.1) fun _ => ?_
    refine ((ensures_request h target.url [] _).mono_pre fun hgood =>
      h.target target ⟨hgood.1 target List.mem_cons_self, not_not.mp hmethod⟩).bind fun res => ?_
    rcases res with _ | r
    · exact ensures_stopped.bind fun _ => ensures_ite (fun _ => ensures_unit) fun _ =>
        hrest _ fun hgood => hgood.1.1.1
    · exact (ensures_call h).bind fun verdict => ensures_record.bind fun _ =>
        hrest _ fun hgood => hgood.1.1.1.1

theorem ensures_testParams (target : Target) (params : List Param) (seen : List (Str × Str)) :
    Ensures p.contract (p.Ready target) (scanner.testParams target params seen)
      fun _ => True := by
  induction params generalizing seen with
  | nil => exact ensures_pure fun _ => trivial
  | cons param params ih =>
    refine (ensures_call h).bind fun key =>
      ensures_ite (fun _ => (ih seen).mono_pre fun hready => hready.1) fun _ => ?_
    refine (ensures_update fun _ => by rfl).bind fun _ =>
      ((ensures_testParameter h target param).mono_pre fun hready => hready.1.1).bind fun _ => ?_
    exact ensures_stopped.bind fun _ => ensures_ite (fun _ => ensures_pure fun _ => trivial)
      fun _ => (ih _).mono_pre fun hready => hready.1.1.1.1

theorem ensures_testTargets (targets : List Target) (seen : List (Str × Str)) :
    Ensures p.contract (∀ target ∈ targets, p.good target) (scanner.testTargets targets seen)
      fun _ => True := by
  induction targets generalizing seen with
  | nil => exact ensures_bool
  | cons target targets ih =>
    have hrest : ∀ {pre : Prop} (seen : List (Str × Str)),
        (pre → ∀ t ∈ target :: targets, p.good t) →
        Ensures p.contract pre (scanner.testTargets targets seen) fun _ => True :=
      fun seen hpre => (ih seen).mono_pre fun hp t ht => hpre hp t (List.mem_cons_of_mem _ ht)
    refine ensures_ite (fun _ => (ensures_checkCsrf h target).bind fun _ =>
      hrest seen fun hgood => hgood.1) fun hmethod => ?_
    have hready : (∀ t ∈ target :: targets, p.good t) → p.Ready target := fun hgood =>
      ⟨hgood target List.mem_cons_self, not_not.mp hmethod⟩
    refine ((ensures_checkCors h target).mono_pre hready).bind fun _ =>
      ensures_ite (fun _ => hrest seen fun hgood => hgood.1) fun _ => ?_
    refine (ensures_update fun _ => by rfl).bind fun _ =>
      ((ensures_testParams h target _ seen).mono_pre fun hgood => hready hgood.1.1).bind
        fun res => ?_
    rcases res with _ | seen
    · exact ensures_bool
    · exact hrest seen fun hgood => hgood.1.1.1

/-- **What follows the crawl** keeps to the policy when the targets are good. -/
theorem ensures_check (seeds : List Str) (result : CrawlResult) :
    Ensures p.contract (∀ target ∈ result.targets, p.good target) (scanner.check seeds result)
      fun _ => True := by
  refine (ensures_update fun _ => by rfl).bind fun _ =>
    (ensures_checkSessionUrls h result.targets).bind fun _ =>
      (ensures_checkSiteProbes h seeds).bind fun _ => ?_
  refine ((ensures_testTargets h result.targets []).mono_pre fun hgood => hgood.1.1.1).bind
    fun _ => ensures_ite (fun _ => ensures_unit) fun _ => ?_
  refine ensures_look.bind fun _ => ensures_ite (fun _ => ensures_unit) fun _ => ?_
  exact (ensures_refetchAll h result.targets []).mono_pre fun hgood => hgood.1.1.1.1.1

theorem ensures_scan (hout : p.raises .outOfFuel) (fuel : ℕ) (seeds : List Str) :
    Ensures p.contract True (scanner.scan maxPages maxDepth fuel seeds) fun _ => True := by
  have hcrawl := ensures_crawl h.crawl (fun _ => h.raises _ (by simp)) hout (ensures_crawlFetch h)
    fuel seeds
  exact hcrawl.bind fun result => (ensures_check h seeds result).mono_pre fun hgood => hgood.2

theorem run_spec (hout : p.raises .outOfFuel) (hinit : p.keep scanner.init.traffic) (fuel : ℕ)
    (seeds : List Str) :
    p.escape (scanner.run maxPages maxDepth fuel seeds).2.traffic ∨
      p.keep (scanner.run maxPages maxDepth fuel seeds).2.traffic := by
  rcases (ensures_scan h hout fuel seeds).keep trivial scanner.init hinit with hescape | ⟨hkeep, -⟩
  · exact Or.inl hescape
  · exact Or.inr hkeep

end Parts

end Policy

end Guardian.Dast
