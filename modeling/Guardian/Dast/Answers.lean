import Guardian.Dast.Danger
import Guardian.Dast.Limits

/-!
# Pages that end a scan

Which texts of the application a scan can read, and what a text that it cannot read costs.
`scan_returns` says when it reads them all.
-/

namespace Guardian.Dast

open Python Transition Authorization List
open Scanner (addError reportBudget countResponse record noteForm stopped)

variable (R : Runtime) (L : UrlLibrary) (P : PageLibrary)

/-! ### The verdicts -/

/-- `REDIRECT_HOST`. -/
def redirectHost : Str := "guardian-redirect-check.invalid"

/-- `evaluate_redirect`. -/
def evaluateRedirect (status : ℤ) (location : Str) : Except Fault Verdict := do
  if ¬ (300 ≤ status ∧ status < 400) ∨ location = [] then return .no
  else
    let parsed ← urlparse R
      (if "//" <:+: location then location else "//" ++ location)
    if lower R ((parsed.hostname R).getD []) = redirectHost then
      return {
        fired := true
        indicator := "the parameter controlled the redirect target (Location: " ++
          location.take 120 ++ ")"
        excerpt := location.take 200
        confidence := "high" }
    else return .no

/-- `SESSION_URL_PARAMS`. -/
def sessionUrlParams : List Str :=
  ["jsessionid", "phpsessid", "aspsessionid", "asp.net_sessionid",
    "cfid", "cftoken", "sessionid", "session_id",
    "sessiontoken", "session_token", "auth_token", "access_token",
    "sid", "session", "sessid"]

/-- `_LOW_CONFIDENCE_SESSION`. -/
def lowConfidenceSession : List Str :=
  ["sid", "session", "cfid", "cftoken"]

/-- `evaluate_session_in_url`. -/
def evaluateSessionInUrl (url : Str) : Except Fault Verdict := do
  let parsed ← urlparse R url
  let queryNames := (parseQsl L parsed.query).map fun kv => lower R kv.1
  let matrix := lower R parsed.params
  let path := lower R parsed.path
  let named (name : Str) : Bool := decide
    (name ∈ queryNames ∨ name ++ ['='] <:+: matrix ∨ ';' :: name ++ ['='] <:+: path)
  match sessionUrlParams.find? named with
  | none => return .no
  | some name =>
    return {
      fired := true
      indicator := "the URL carries a session identifier (\x60" ++ name ++
        "\x60), which leaks into logs, the Referer header, browser history and shared links"
      excerpt := url.take 200
      confidence := if name ∈ lowConfidenceSession then "medium" else "high" }

/-- The `evaluate_*` functions that parse no URL. -/
structure Judges where
  xss : (marker payload body contentType : Str) → Verdict
  sqlError : (body : Str) → Verdict
  sqlBoolean : (baseline trueBody falseBody : Str) → (trueStatus falseStatus : ℤ) → Verdict
  timeBlind : (seconds : ℕ) → (controlMs baseMs confirmMs : ℚ) → Verdict
  traversal : (body : Str) → Verdict
  ssti : (body : Str) → Verdict
  command : (marker payload body : Str) → Verdict
  cors : Headers → Verdict
  csrf : (method : Str) → (fieldNames cookies : List Str) → Verdict
  exposedPath : (path : Str) → (status : ℤ) → (body : Str) → Verdict
  graphqlIntrospection : (status : ℤ) → (contentType body : Str) → Verdict
  hostHeaderInjection : (status : ℤ) → (location body : Str) → Verdict

/-- The verdicts of the catalogue. -/
def Judges.verdicts (judges : Judges) : Verdicts where
  xss marker payload body contentType := .ok (judges.xss marker payload body contentType)
  sqlError body := .ok (judges.sqlError body)
  sqlBoolean baseline trueBody falseBody trueStatus falseStatus :=
    .ok (judges.sqlBoolean baseline trueBody falseBody trueStatus falseStatus)
  timeBlind seconds controlMs baseMs confirmMs :=
    .ok (judges.timeBlind seconds controlMs baseMs confirmMs)
  traversal body := .ok (judges.traversal body)
  ssti body := .ok (judges.ssti body)
  command marker payload body := .ok (judges.command marker payload body)
  redirect := evaluateRedirect R
  cors headers := .ok (judges.cors headers)
  csrf method fieldNames cookies := .ok (judges.csrf method fieldNames cookies)
  sessionInUrl := evaluateSessionInUrl R L
  exposedPath path status body := .ok (judges.exposedPath path status body)
  graphqlIntrospection status contentType body :=
    .ok (judges.graphqlIntrospection status contentType body)
  hostHeaderInjection status location body :=
    .ok (judges.hostHeaderInjection status location body)

/-! ### Texts that can be read -/

/-- The URL and its canonical form can be read. -/
def Reads (url : Str) : Prop := Returns (urlparse R url) ∧ Returns (normalize R L url)

/-- **The link can be read**: it can be joined and, unless it is too long, normalised, and again if
it is followed. -/
def LinkReads (good : Str → Prop) (hosts : List Str) (base href : Str) : Prop :=
  ∃ link, L.urljoin base href = .ok link ∧ (link.length ≤ maxUrlLength →
    ∃ candidate, normalize R L link = .ok candidate ∧ Returns (urlparse R candidate) ∧
      (Follows R L hosts link candidate → ∃ url, normalize R L candidate = .ok url ∧ good url))

/-- **The action can be read**: it can be joined and normalised. -/
def ActionReads (good : Str → Prop) (hosts : List Str) (base action : Str) : Prop :=
  ∃ joined url, L.urljoin base (if action = [] then base else action) = .ok joined ∧
    normalize R L joined = .ok url ∧ Returns (urlparse R url) ∧
      (sameScope R hosts url = .ok true → good url)

/-- **The page can be read**: each link that is not left out, and each action. -/
def PageReads (good : Str → Prop) (hosts : List Str) (base body : Str) : Prop :=
  (∀ href ∈ (parsePage R P body).links,
    (skippedSchemes.any fun scheme => scheme.isPrefixOf (lower R href)) = false →
      LinkReads R L good hosts base href) ∧
    ∀ form ∈ (parsePage R P body).forms, ActionReads R L good hosts base form.action

/-- The seed can be read. -/
def SeedReads (good : Str → Prop) (hosts : List Str) (seed : Str) : Prop :=
  ∃ normalized, normalize R L seed = .ok normalized ∧ Returns (urlparse R normalized) ∧
    (sameScope R hosts normalized = .ok true →
      ∃ url, normalize R L normalized = .ok url ∧ good url)

variable {R L P} {C : Crawler} {good : Str → Prop} {hosts : List Str}

theorem returns_sameScope (hosts : List Str) {url : Str} (h : Returns (urlparse R url)) :
    Returns (sameScope R hosts url) := by
  obtain ⟨p, hp⟩ := h
  unfold sameScope
  rw [hp, ok_bind]
  split_ifs
  · exact returns_ok _
  · exact returns_ok _

theorem returns_evaluateSessionInUrl {url : Str} (h : Returns (urlparse R url)) :
    Returns (evaluateSessionInUrl R L url) := by
  obtain ⟨p, hp⟩ := h
  unfold evaluateSessionInUrl
  rw [hp, ok_bind]
  dsimp only
  split
  · exact returns_ok _
  · exact returns_ok _

theorem returns_withParam {url : Str} (h : Returns (urlparse R url)) (name value : Str) :
    ∃ u, withParam R L url name value = .ok u ∧ Returns (urlparse R u) := by
  obtain ⟨p, hp⟩ := h
  unfold withParam
  rw [hp, ok_bind]
  exact ⟨_, rfl, returns_urlparse_replace hp _ p.fragment⟩

theorem exists_foldlM {E A B : Type} {f : B → A → Except E B} {Q : B → Prop} {as : List A}
    (hf : ∀ a ∈ as, ∀ b, Q b → ∃ b', f b a = .ok b' ∧ Q b') {b : B} (hb : Q b) :
    ∃ b', as.foldlM f b = .ok b' ∧ Q b' := by
  induction as generalizing b with
  | nil => exact ⟨b, rfl, hb⟩
  | cons a as ih =>
    obtain ⟨c, hc, hQ⟩ := hf a mem_cons_self b hb
    obtain ⟨d, hd, hQ'⟩ := ih (fun a ha => hf a (mem_cons_of_mem _ ha)) hQ
    exact ⟨d, by rw [foldlM_cons, hc, ok_bind]; exact hd, hQ'⟩

theorem exists_mapM_forall {E A B : Type} {f : A → Except E B} {Q : B → Prop} {as : List A}
    (hf : ∀ a ∈ as, ∃ b, f a = .ok b ∧ Q b) : ∃ bs, as.mapM f = .ok bs ∧ ∀ b ∈ bs, Q b := by
  obtain ⟨bs, hbs⟩ := exists_mapM fun a ha => (hf a ha).imp fun b hb => hb.1
  refine ⟨bs, hbs, of_mem_mapM (fun a ha b hb => ?_) hbs⟩
  obtain ⟨b', hb', hQ⟩ := hf a ha
  cases hb.symm.trans hb'
  exact hQ

theorem returns_formUrl {url : Str} (h : Returns (urlparse R url)) (params : List Param)
    (name value : Str) :
    ∃ u, formUrl R L url params name value = .ok u ∧ Returns (urlparse R u) := by
  have hfill : ∃ filled,
      params.foldlM (fun url param => withParam R L url param.name param.sample) url = .ok filled ∧
        Returns (urlparse R filled) :=
    exists_foldlM (fun param _ u hu => returns_withParam hu param.name param.sample) h
  obtain ⟨filled, hfilled, hreads⟩ := hfill
  obtain ⟨u, hu, hagain⟩ := returns_withParam (L := L) hreads name value
  refine ⟨u, ?_, hagain⟩
  unfold formUrl
  rw [hfilled, ok_bind, hu]

/-! ### The crawl -/

variable (R L good) in
/-- What a crawl keeps: each address that it queued is one that it can read as a target, and each
target is good. -/
structure CrawlState.Readable (c : CrawlState) : Prop where
  queue : ∀ q ∈ c.queue, Returns (urlparse R q.1) ∧ ∃ url, normalize R L q.1 = .ok url ∧ good url
  targets : ∀ target ∈ c.result.targets, good target.url

theorem exists_addSeed {seed : Str} (hseed : SeedReads R L good hosts seed) {c : CrawlState}
    (hc : c.Readable R L good) :
    ∃ c', addSeed R L hosts c seed = .ok c' ∧ c'.Readable R L good := by
  obtain ⟨normalized, hnormalized, hparse, hscope⟩ := hseed
  obtain ⟨inScope, hinScope⟩ := returns_sameScope hosts hparse
  unfold addSeed
  rw [hnormalized, ok_bind, hinScope, ok_bind]
  rcases inScope with _ | _
  · exact ⟨_, rfl, hc.queue, hc.targets⟩
  · refine ⟨_, rfl, forall_mem_append.mpr ⟨hc.queue, ?_⟩, hc.targets⟩
    exact forall_mem_singleton.mpr ⟨hparse, hscope hinScope⟩

theorem exists_addForm {form : Target} (hparse : Returns (urlparse R form.url))
    (hgood : sameScope R hosts form.url = .ok true → good form.url) {c : CrawlState}
    (hc : c.Readable R L good) :
    ∃ c', addForm R hosts c form = .ok c' ∧ c'.Readable R L good := by
  obtain ⟨inScope, hinScope⟩ := returns_sameScope hosts hparse
  unfold addForm
  rw [hinScope, ok_bind]
  rcases inScope with _ | _
  · exact ⟨_, rfl, hc.queue, hc.targets⟩
  · refine ⟨_, rfl, hc.queue, forall_mem_append.mpr ⟨hc.targets, ?_⟩⟩
    exact forall_mem_singleton.mpr (hgood hinScope)

theorem exists_addLink {depth : ℕ} {link : Str}
    (hlink : link.length ≤ maxUrlLength → ∃ candidate, normalize R L link = .ok candidate ∧
      Returns (urlparse R candidate) ∧ (Follows R L hosts link candidate →
        ∃ url, normalize R L candidate = .ok url ∧ good url))
    {c : CrawlState} (hc : c.Readable R L good) :
    ∃ c', addLink R L hosts depth c link = .ok c' ∧ c'.Readable R L good := by
  unfold addLink
  by_cases hlen : maxUrlLength < link.length
  · rw [if_pos hlen]
    exact ⟨_, rfl, hc⟩
  rw [if_neg hlen]
  obtain ⟨candidate, hcandidate, hparse, hfollows⟩ := hlink (not_lt.mp hlen)
  rw [hcandidate, ok_bind]
  by_cases hseen : candidate ∈ c.seen
  · simp only [if_pos hseen]
    exact ⟨_, rfl, hc⟩
  simp only [if_neg hseen]
  obtain ⟨inScope, hinScope⟩ := returns_sameScope hosts hparse
  rw [hinScope, ok_bind]
  obtain ⟨p, hp⟩ := hparse
  rcases inScope with _ | _
  · exact ⟨_, rfl, hc.queue, hc.targets⟩
  have hdangerous : isDangerous R candidate =
      .ok (dangerousPath.search p.path || dangerousPath.search p.query) := by
    unfold isDangerous
    rw [hp]
    rfl
  have hstatic : isStatic R candidate =
      .ok (staticSuffixes.any fun suffix => suffix.isSuffixOf (lower R p.path)) := by
    unfold isStatic
    rw [hp]
    rfl
  rcases hd : dangerousPath.search p.path || dangerousPath.search p.query with _ | _
  · rcases hs : staticSuffixes.any fun suffix => suffix.isSuffixOf (lower R p.path) with _ | _
    · rw [hdangerous, hd, hstatic, hs]
      refine ⟨_, rfl, forall_mem_append.mpr ⟨hc.queue, ?_⟩, hc.targets⟩
      refine forall_mem_singleton.mpr ⟨⟨p, hp⟩, hfollows ?_⟩
      exact ⟨not_lt.mp hlen, hcandidate, hinScope, hd ▸ hdangerous, hs ▸ hstatic⟩
    · rw [hdangerous, hd, hstatic, hs]
      exact ⟨_, rfl, hc.queue, hc.targets⟩
  · rw [hdangerous, hd]
    exact ⟨_, rfl, hc.queue, hc.targets⟩

theorem exists_formTarget {base : Str} {form : Form}
    (h : ActionReads R L good hosts base form.action) :
    ∃ target, formTarget R L base form = .ok target ∧ Returns (urlparse R target.url) ∧
      (sameScope R hosts target.url = .ok true → good target.url) := by
  obtain ⟨joined, url, hjoin, hnormalize, hreads⟩ := h
  refine ⟨⟨url, form.method, form.fields.map fun field => ⟨field.1, field.2, .form⟩, true⟩, ?_,
    hreads⟩
  unfold formTarget
  rw [hjoin, ok_bind, hnormalize]
  rfl

theorem exists_extract {base body : Str} (hpage : PageReads R L P good hosts base body) :
    ∃ links forms, extract R L P base body = .ok (links, forms) ∧
      (∀ link ∈ links, link.length ≤ maxUrlLength → ∃ candidate,
        normalize R L link = .ok candidate ∧ Returns (urlparse R candidate) ∧
          (Follows R L hosts link candidate →
            ∃ url, normalize R L candidate = .ok url ∧ good url)) ∧
      ∀ form ∈ forms, Returns (urlparse R form.url) ∧
        (sameScope R hosts form.url = .ok true → good form.url) := by
  have hrefs : ∀ href ∈ (parsePage R P body).links.filter (fun href =>
      !skippedSchemes.any fun scheme => scheme.isPrefixOf (lower R href)),
        LinkReads R L good hosts base href := fun href hhref => by
    obtain ⟨hmem, hkept⟩ := mem_filter.mp hhref
    exact hpage.1 href hmem (Bool.not_eq_true' _ |>.mp hkept)
  obtain ⟨links, hjoined, hlinks⟩ := exists_mapM_forall hrefs
  obtain ⟨forms, hread, hforms⟩ := exists_mapM_forall (f := formTarget R L base) fun form hform =>
    exists_formTarget (hpage.2 form hform)
  refine ⟨links, forms, ?_, hlinks, hforms⟩
  unfold extract
  dsimp only
  rw [hjoined, ok_bind, hread]
  rfl

theorem exists_targetFor {url : Str} {fromContent : Bool}
    (hurl : Returns (urlparse R url) ∧ ∃ u, normalize R L url = .ok u ∧ good u) :
    ∃ target, targetFor R L url fromContent = .ok target ∧ good target.url := by
  obtain ⟨⟨p, hp⟩, u, hu, hgood⟩ := hurl
  refine ⟨⟨u, "GET", (parseQsl L p.query).map fun kv => ⟨kv.1, kv.2, .query⟩,
    fromContent⟩, ?_, hgood⟩
  unfold targetFor
  rw [hp, ok_bind, hu]
  rfl

/-- **A page that can be read** costs nothing. -/
theorem exists_addPage {url : Str} {depth : ℕ} {page : Page}
    (hurl : Returns (urlparse R url) ∧ ∃ u, normalize R L url = .ok u ∧ good u)
    (hpage : C.Parses R depth page → PageReads R L P good C.authorizedHosts url page.body)
    {c : CrawlState} (hc : c.Readable R L good) :
    ∃ c', addPage R L P C url depth page c = .ok c' ∧ c'.Readable R L good := by
  obtain ⟨target, htarget, hgood⟩ := exists_targetFor hurl
  have hadd : CrawlState.Readable R L good
      { c with
        result.pagesFetched := c.result.pagesFetched + 1
        result.targets := c.result.targets ++ [target] } :=
    ⟨hc.queue, forall_mem_append.mpr ⟨hc.targets, forall_mem_singleton.mpr hgood⟩⟩
  unfold addPage
  rw [htarget, ok_bind]
  dsimp only
  by_cases hparses : C.Parses R depth page
  · obtain ⟨links, forms, hextract, hlinks, hforms⟩ := exists_extract (hpage hparses)
    obtain ⟨c₁, hc₁, hread₁⟩ := exists_foldlM (f := addForm R C.authorizedHosts)
      (fun form hform b hb => exists_addForm (hforms form hform).1 (hforms form hform).2 hb) hadd
    obtain ⟨c₂, hc₂, hread₂⟩ := exists_foldlM (f := addLink R L C.authorizedHosts depth)
      (fun link hlink b hb => exists_addLink (hlinks link hlink) hb) hread₁
    refine ⟨c₂, ?_, hread₂⟩
    rw [if_pos hparses, hextract, ok_bind]
    exact bind_eq_ok.mpr ⟨c₁, hc₁, hc₂⟩
  · rw [if_neg hparses]
    exact ⟨_, rfl, hadd⟩

section Crawl

variable {S : Type} {escape : S → Prop} {raises : Stop → Prop} {pre : Prop}
  {fetch : Str → ℕ → Effect Stop S Page}

theorem answers_lift_of {A : Type} {x : Except Fault A} {Q : A → Prop}
    (h : pre → ∃ a, x = .ok a ∧ Q a) : Answers escape raises pre (lift x : Effect Stop S A) Q :=
  answers_ofExcept fun hp => by
    obtain ⟨a, ha, hQ⟩ := h hp
    exact ⟨a, by rw [ha]; rfl, hQ⟩

theorem lift_ok_bind {A B : Type} (a : A) (f : A → Effect Stop S B) :
    (lift (.ok a) >>= f) = f a := rfl

/-- **One round** of a crawl whose pages can be read. -/
theorem answers_crawlRound
    (hfetch : ∀ url depth, Answers escape (fun _ => True) (Returns (urlparse R url))
      (fetch url depth) fun page =>
        C.Parses R depth page → PageReads R L P good C.authorizedHosts url page.body)
    (c : CrawlState) :
    Answers escape raises (c.Readable R L good) (crawlRound R L P C fetch c) fun x =>
      (∀ c', x = .inl c' → c'.Readable R L good) ∧
        ∀ result, x = .inr result → ∀ target ∈ result.targets, good target.url := by
  rcases hqueue : c.queue with _ | ⟨⟨url, depth⟩, queue⟩
  · rw [crawlRound, hqueue]
    refine answers_pure fun hc => ⟨(fun _ hx => by cases hx), fun r hr => ?_⟩
    cases hr
    exact hc.targets
  rw [crawlRound, hqueue]
  refine answers_ite (fun _ => answers_pure fun hc =>
    ⟨(fun _ hx => by cases hx), fun r hr => by cases hr; exact hc.targets⟩) fun hmax => ?_
  have hrest : c.Readable R L good → CrawlState.Readable R L good { c with queue := queue } :=
    fun hc => ⟨fun q hq => hc.queue q (by rw [hqueue]; exact mem_cons_of_mem _ hq), hc.targets⟩
  have hhead : c.Readable R L good →
      Returns (urlparse R url) ∧ ∃ u, normalize R L url = .ok u ∧ good u := fun hc =>
    hc.queue (url, depth) (by rw [hqueue]; exact mem_cons_self)
  have hpage : Answers escape raises (c.Readable R L good) (fetch url depth).attempt fun x =>
      ∀ page, x = .ok page →
        C.Parses R depth page → PageReads R L P good C.authorizedHosts url page.body :=
    (hfetch url depth).attempt.mono_pre fun hc => (hhead hc).1
  refine hpage.bind fun x => ?_
  rcases x with e | page
  · refine answers_pure fun hc => ⟨fun c' hc' => ?_, (fun _ hx => by cases hx)⟩
    cases hc'
    exact ⟨(hrest hc.1).queue, hc.1.targets⟩
  · refine (answers_lift_of fun hc => exists_addPage (hhead hc.1) (hc.2 page rfl)
      (hrest hc.1)).bind fun c' => answers_pure fun hc' =>
        ⟨fun c'' hc'' => by cases hc''; exact hc'.2, (fun _ hx => by cases hx)⟩

/-- **A crawl** of pages that can be read. -/
theorem answers_crawl (hout : raises .outOfFuel)
    (hfetch : ∀ url depth, Answers escape (fun _ => True) (Returns (urlparse R url))
      (fetch url depth) fun page =>
        C.Parses R depth page → PageReads R L P good C.authorizedHosts url page.body)
    {seeds : List Str} (hseeds : ∀ seed ∈ seeds, SeedReads R L good C.authorizedHosts seed)
    (fuel : ℕ) :
    Answers escape raises True (crawl R L P C fetch fuel seeds) fun result =>
      ∀ target ∈ result.targets, good target.url := by
  have hinit : CrawlState.Readable R L good .init :=
    ⟨(fun _ hq => nomatch hq), (fun _ ht => nomatch ht)⟩
  refine (answers_lift_of fun _ => exists_foldlM (f := addSeed R L C.authorizedHosts)
    (fun seed hseed c hc => exists_addSeed (hseeds seed hseed) hc) hinit).bind fun c => ?_
  exact (answers_loop hout (answers_crawlRound hfetch) fuel c).mono_pre fun hc => hc.2

end Crawl

/-! ### The scan -/

section Scan

variable (scanner : Scanner) (maxPages maxDepth : ℤ)

/-- The URL submits the payload of a redirect probe. -/
def SubmitsRedirect (url : Str) : Prop :=
  ∃ target param, ∃ probe ∈ redirectProbes, scanner.urlFor target param probe.payload = .ok url

/-- **The response can be read**: its page, if the crawler parses it, and the place that it
redirects to, if that is what was probed. -/
def ResponseReads (url : Str) (reason : Reason) (r : Response) : Prop :=
  (∀ depth, reason = .crawl depth →
    (scanner.crawler maxPages maxDepth).Parses scanner.runtime depth (Policy.pageOf r) →
      PageReads scanner.runtime scanner.urls scanner.pages (Reads scanner.runtime scanner.urls)
        scanner.hosts url r.body) ∧
    ∀ fromContent, reason = .check fromContent → SubmitsRedirect scanner url →
      Returns (evaluateRedirect scanner.runtime r.status (r.headers.get "location"))

/-- **What is served can be read.** -/
def Served (f : Fetch Reason) : Prop :=
  ∀ r, f.outcome = .response r → r.error = [] →
    ResponseReads scanner maxPages maxDepth f.url f.reason r

/-- A response came back that cannot be read. -/
def Unread (s : State) : Prop := ∃ f ∈ s.traffic.wire.log, ¬ Served scanner maxPages maxDepth f

variable {scanner maxPages maxDepth} {raises : Stop → Prop} {pre : Prop} {judges : Judges}

theorem answers_change {f : State → State} (hf : ∀ s, (f s).traffic = s.traffic) :
    Answers (Unread scanner maxPages maxDepth) raises pre (.update f : Scan Unit) fun _ => True :=
  answers_update fun s hs => by
    unfold Unread
    rw [hf]
    exact hs

theorem answers_unit {a : Unit} :
    Answers (Unread scanner maxPages maxDepth) raises pre (pure a : Scan Unit) fun _ => True :=
  answers_pure fun _ => trivial

theorem answers_bool {b : Bool} :
    Answers (Unread scanner maxPages maxDepth) raises pre (pure b : Scan Bool) fun _ => True :=
  answers_pure fun _ => trivial

theorem answers_call {A : Type} {x : Except Fault A} (h : pre → Returns x) :
    Answers (Unread scanner maxPages maxDepth) raises pre (lift x : Scan A) fun a => x = .ok a :=
  answers_lift_of fun hp => (h hp).imp fun _ ha => ⟨ha, ha⟩

theorem answers_reportBudget :
    Answers (Unread scanner maxPages maxDepth) raises pre reportBudget fun _ => True :=
  answers_change fun _ => rfl

theorem answers_addError {error : Str} :
    Answers (Unread scanner maxPages maxDepth) raises pre (addError error) fun _ => True :=
  answers_change fun _ => rfl

theorem answers_countResponse {r : Response} :
    Answers (Unread scanner maxPages maxDepth) raises pre (countResponse r) fun _ => True :=
  answers_change fun _ => rfl

theorem answers_record {checkId url parameter payload : Str} {verdict : Verdict} {status : ℤ} :
    Answers (Unread scanner maxPages maxDepth) raises pre
      (record checkId url parameter payload verdict status) fun _ => True := by
  refine answers_change fun s => ?_
  by_cases hfired : verdict.fired = false
  · rw [if_pos hfired]
  · rw [if_neg hfired]

theorem answers_noteForm {param : Param} :
    Answers (Unread scanner maxPages maxDepth) raises pre (noteForm param) fun _ => True := by
  refine answers_change fun s => ?_
  by_cases hplace : param.place = .form
  · rw [if_pos hplace]
  · rw [if_neg hplace]

theorem answers_stopped :
    Answers (Unread scanner maxPages maxDepth) raises pre stopped fun _ => True :=
  answers_read.bind fun _ =>
    answers_ite (fun _ => answers_reportBudget.bind fun _ => answers_bool) fun _ => answers_bool

theorem answers_send (url : Str) (headers : Headers) (reason : Reason) :
    Answers (Unread scanner maxPages maxDepth) raises pre (scanner.send url headers reason)
      fun outcome => ∀ r, outcome = some (.response r) → r.error = [] →
        ResponseReads scanner maxPages maxDepth url reason r := by
  refine ⟨?_, fun _ s => ?_⟩
  · rintro s ⟨f, hf, hunread⟩
    rcases send_cases scanner url headers reason s with ⟨-, hlog⟩ | ⟨start, outcome, -, hlog⟩
    · exact ⟨f, by rw [hlog]; exact hf, hunread⟩
    · exact ⟨f, by rw [hlog]; exact mem_cons_of_mem _ hf, hunread⟩
  · rcases send_cases scanner url headers reason s with
      ⟨hret, -⟩ | ⟨start, outcome, hret, hlog⟩
    · exact Or.inr (Or.inl ⟨none, hret, fun r hr => by cases hr⟩)
    by_cases hserved : Served scanner maxPages maxDepth ⟨url, headers, reason, start, outcome⟩
    · refine Or.inr (Or.inl ⟨some outcome, hret, fun r hr herror => ?_⟩)
      cases hr
      exact hserved r rfl herror
    · exact Or.inl ⟨_, by rw [hlog]; exact mem_cons_self, hserved⟩

/-- **A request** to a URL that can be read. -/
theorem answers_request (url : Str) (headers : Headers) (reason : Reason) :
    Answers (Unread scanner maxPages maxDepth) raises (Returns (urlparse scanner.runtime url))
      (scanner.request url headers reason) fun res =>
        ∀ r, res = some r → ResponseReads scanner maxPages maxDepth url reason r := by
  have hnone : ∀ {pre}, Answers (Unread scanner maxPages maxDepth) raises pre
      (pure none : Scan (Option Response)) fun res =>
        ∀ r, res = some r → ResponseReads scanner maxPages maxDepth url reason r :=
    answers_pure fun _ _ hr => by cases hr
  refine (answers_call (returns_sameScope _)).bind fun inScope =>
    answers_ite (fun _ => answers_addError.bind fun _ => hnone) fun _ => ?_
  refine (answers_send url headers reason).bind fun outcome => ?_
  rcases outcome with _ | (error | _ | r)
  · exact answers_reportBudget.bind fun _ => hnone
  · exact answers_addError.bind fun _ => hnone
  · exact answers_addError.bind fun _ => hnone
  · refine answers_ite (fun _ => answers_addError.bind fun _ => hnone) fun herror => ?_
    refine answers_countResponse.bind fun _ => answers_pure fun hr r' hr' => ?_
    cases hr'
    exact hr.1.2 r rfl (not_not.mp herror)

theorem answers_crawlFetch (url : Str) (depth : ℕ) :
    Answers (Unread scanner maxPages maxDepth) (fun _ => True)
      (Returns (urlparse scanner.runtime url)) (scanner.crawlFetch url depth) fun page =>
        (scanner.crawler maxPages maxDepth).Parses scanner.runtime depth page →
          PageReads scanner.runtime scanner.urls scanner.pages
            (Reads scanner.runtime scanner.urls) scanner.hosts url page.body := by
  refine (answers_request url [] (.crawl depth)).bind fun res => ?_
  rcases res with _ | r
  · exact answers_raise trivial
  · exact answers_pure fun hr => (hr.2 r rfl).1 depth rfl

theorem answers_submit (target : Target) (param : Param) (value : Str) :
    Answers (Unread scanner maxPages maxDepth) raises
      (Returns (urlparse scanner.runtime target.url)) (scanner.submit target param value)
      fun res => ∀ r, res = some r → ∃ url, scanner.urlFor target param value = .ok url ∧
        ResponseReads scanner maxPages maxDepth url (.check target.fromContent) r := by
  have hurl : Returns (urlparse scanner.runtime target.url) →
      ∃ url, scanner.urlFor target param value = .ok url ∧
        (scanner.urlFor target param value = .ok url ∧ Returns (urlparse scanner.runtime url)) := by
    intro h
    unfold Scanner.urlFor
    rcases param.place with _ | _
    · exact (returns_withParam h param.name value).imp fun _ hu => ⟨hu.1, hu⟩
    · exact (returns_formUrl h target.params param.name value).imp fun _ hu => ⟨hu.1, hu⟩
  refine (answers_lift_of hurl).bind fun url => ?_
  refine ((answers_request url [] _).mono_pre fun hp => hp.2.2).with_pre.weaken (fun hp => hp)
    fun res hres r hr => ⟨url, hres.1.2.1, hres.2 r hr⟩

/-- **A check of a parameter** answers when its verdicts do. -/
theorem answers_probeAll {checkId : Str} {target : Target} {param : Param} {note : Scan Unit}
    {evaluate : Probe → Response → Except Fault Verdict}
    (hnote : ∀ pre, Answers (Unread scanner maxPages maxDepth) raises pre note fun _ => True)
    {probes : List Probe}
    (heval : ∀ probe ∈ probes, ∀ url r, scanner.urlFor target param probe.payload = .ok url →
      ResponseReads scanner maxPages maxDepth url (.check target.fromContent) r →
        Returns (evaluate probe r)) :
    Answers (Unread scanner maxPages maxDepth) raises
      (Returns (urlparse scanner.runtime target.url))
      (scanner.probeAll checkId target param note evaluate probes) fun _ => True := by
  induction probes with
  | nil => exact answers_bool
  | cons probe probes ih =>
    refine (answers_submit target param probe.payload).bind fun res => ?_
    rcases res with _ | r
    · exact answers_bool
    refine (hnote _).bind fun _ => (answers_call fun hp => ?_).bind fun verdict =>
      answers_record.bind fun _ => answers_ite (fun _ => answers_bool) fun _ => ?_
    · obtain ⟨url, hurl, hreads⟩ := hp.1.2 r rfl
      exact heval probe mem_cons_self url r hurl hreads
    · exact (ih fun q hq => heval q (mem_cons_of_mem _ hq)).mono_pre fun hp => hp.1.1.1.1

variable (hverdicts : scanner.verdicts = judges.verdicts scanner.runtime scanner.urls)
include hverdicts

theorem answers_testSql (target : Target) (param : Param) (baseline : Response) :
    Answers (Unread scanner maxPages maxDepth) raises
      (Returns (urlparse scanner.runtime target.url)) (scanner.testSql target param baseline)
      fun _ => True := by
  unfold Scanner.testSql
  rw [hverdicts]
  refine (answers_probeAll (fun _ => answers_unit) fun _ _ _ _ _ _ => returns_ok _).bind
    fun goOn => answers_ite (fun _ => answers_unit) fun _ => ?_
  refine ((answers_submit target param _).mono_pre fun hp => hp.1).bind fun trueResponse => ?_
  refine ((answers_submit target param _).mono_pre fun hp => hp.1.1).bind fun falseResponse => ?_
  rcases trueResponse with _ | trueResponse
  · exact answers_unit
  rcases falseResponse with _ | falseResponse
  · exact answers_unit
  exact (answers_call fun _ => returns_ok _).bind fun verdict => answers_record

theorem answers_timeBlindAll (target : Target) (param : Param) (controlMs : ℚ)
    (probes confirmProbes : List Probe) (hlen : probes.length = confirmProbes.length) :
    Answers (Unread scanner maxPages maxDepth) raises
      (Returns (urlparse scanner.runtime target.url))
      (scanner.timeBlindAll target param controlMs probes confirmProbes) fun _ => True := by
  induction probes generalizing confirmProbes with
  | nil =>
    rcases confirmProbes with _ | ⟨confirmProbe, confirmProbes⟩
    · exact answers_unit
    · cases hlen
  | cons probe probes ih =>
    rcases confirmProbes with _ | ⟨confirmProbe, confirmProbes⟩
    · cases hlen
    have hrest := ih confirmProbes (Nat.succ.inj hlen)
    unfold Scanner.timeBlindAll
    refine (answers_submit target param probe.payload).bind fun base => ?_
    rcases base with _ | base
    · exact answers_unit
    refine answers_ite (fun _ => hrest.mono_pre fun hp => hp.1) fun _ => ?_
    refine ((answers_submit target param confirmProbe.payload).mono_pre fun hp => hp.1).bind
      fun confirm => ?_
    rcases confirm with _ | confirm
    · exact answers_unit
    refine (answers_call fun _ => by rw [hverdicts]; exact returns_ok _).bind fun verdict =>
      answers_record.bind fun _ => answers_ite (fun _ => answers_unit) fun _ => ?_
    exact hrest.mono_pre fun hp => hp.1.1.1.1

theorem answers_testTimeBlind (target : Target) (param : Param) (baseline : Response) :
    Answers (Unread scanner maxPages maxDepth) raises
      (Returns (urlparse scanner.runtime target.url))
      (scanner.testTimeBlind target param baseline) fun _ => True :=
  answers_timeBlindAll hverdicts target param _ _ _ rfl

theorem answers_testRedirect (target : Target) (param : Param) :
    Answers (Unread scanner maxPages maxDepth) raises
      (Returns (urlparse scanner.runtime target.url)) (scanner.testRedirect target param)
      fun _ => True := by
  unfold Scanner.testRedirect
  rw [hverdicts]
  refine answers_probeAll (fun _ => answers_unit) fun probe hprobe url r hurl hreads => ?_
  exact hreads.2 target.fromContent rfl ⟨target, param, probe, hprobe, hurl⟩

theorem answers_testParameter (target : Target) (param : Param) :
    Answers (Unread scanner maxPages maxDepth) raises
      (Returns (urlparse scanner.runtime target.url)) (scanner.testParameter target param)
      fun _ => True := by
  have htotal : ∀ {checkId note evaluate probes},
      (∀ pre, Answers (Unread scanner maxPages maxDepth) raises pre note fun _ => True) →
      (∀ probe r, Returns (evaluate probe r)) →
      Answers (Unread scanner maxPages maxDepth) raises
        (Returns (urlparse scanner.runtime target.url))
        (scanner.probeAll checkId target param note evaluate probes) fun _ => True :=
    fun hnote heval => answers_probeAll hnote fun probe _ _ r _ _ => heval probe r
  refine (answers_submit target param _).bind fun res => ?_
  rcases res with _ | baseline
  · exact answers_unit
  refine ((htotal (fun _ => answers_noteForm) fun _ _ => by
    rw [hverdicts]; exact returns_ok _).mono_pre fun hp => hp.1).bind fun _ => ?_
  refine ((answers_testSql hverdicts target param baseline).mono_pre fun hp => hp.1.1).bind
    fun _ => ?_
  refine ((answers_testTimeBlind hverdicts target param baseline).mono_pre
    fun hp => hp.1.1.1).bind fun _ => ?_
  refine ((htotal (fun _ => answers_unit) fun _ _ => by
    rw [hverdicts]; exact returns_ok _).mono_pre fun hp => hp.1.1.1.1).bind fun _ => ?_
  refine ((htotal (fun _ => answers_unit) fun _ _ => by
    rw [hverdicts]; exact returns_ok _).mono_pre fun hp => hp.1.1.1.1.1).bind fun _ => ?_
  refine ((htotal (fun _ => answers_unit) fun _ _ => by
    rw [hverdicts]; exact returns_ok _).mono_pre fun hp => hp.1.1.1.1.1.1).bind fun _ => ?_
  exact ((answers_testRedirect hverdicts target param).mono_pre
    fun hp => hp.1.1.1.1.1.1.1).bind fun _ => answers_unit

theorem answers_checkCors (target : Target) :
    Answers (Unread scanner maxPages maxDepth) raises
      (Reads scanner.runtime scanner.urls target.url) (scanner.checkCors target)
      fun _ => True := by
  refine (answers_call fun hp => hp.2).bind fun key => answers_read.bind fun seen =>
    answers_ite (fun _ => answers_unit) fun _ => ?_
  refine (answers_change fun _ => by rfl).bind fun _ => ?_
  refine ((answers_request target.url _ _).mono_pre fun hp => hp.1.1.1.1).bind fun res => ?_
  rcases res with _ | r
  · exact answers_unit
  · exact (answers_call fun _ => by rw [hverdicts]; exact returns_ok _).bind
      fun verdict => answers_record

theorem answers_checkCsrf (target : Target) :
    Answers (Unread scanner maxPages maxDepth) raises
      (Reads scanner.runtime scanner.urls target.url) (scanner.checkCsrf target)
      fun _ => True := by
  refine (answers_call fun hp => hp.2).bind fun key => answers_read.bind fun seen =>
    answers_ite (fun _ => answers_unit) fun _ => ?_
  exact (answers_change fun _ => by rfl).bind fun _ => answers_read.bind fun cookies =>
    (answers_call fun _ => by rw [hverdicts]; exact returns_ok _).bind
      fun verdict => answers_record

theorem answers_checkSessionUrls (targets : List Target) :
    Answers (Unread scanner maxPages maxDepth) raises
      (∀ target ∈ targets, Reads scanner.runtime scanner.urls target.url)
      (scanner.checkSessionUrls targets) fun _ => True := by
  induction targets with
  | nil => exact answers_unit
  | cons target targets ih =>
    refine (answers_call fun hp => ?_).bind fun verdict => answers_record.bind fun _ =>
      answers_ite (fun _ => answers_unit) fun _ => ?_
    · rw [hverdicts]
      exact returns_evaluateSessionInUrl (hp target mem_cons_self).1
    · exact ih.mono_pre fun hp t ht => hp.1.1 t (mem_cons_of_mem _ ht)

theorem answers_checkExposedPaths {origin : Str}
    (hsite : ∀ path, Returns (urlparse scanner.runtime (origin ++ '/' :: path)))
    (paths : List Str) :
    Answers (Unread scanner maxPages maxDepth) raises pre
      (scanner.checkExposedPaths origin paths) fun _ => True := by
  induction paths generalizing pre with
  | nil => exact answers_bool
  | cons path paths ih =>
    refine ((answers_request _ [] .site).mono_pre fun _ => hsite path).bind fun res => ?_
    rcases res with _ | r
    · exact answers_stopped.bind fun _ => answers_ite (fun _ => answers_bool) fun _ => ih
    · exact (answers_call fun _ => by rw [hverdicts]; exact returns_ok _).bind fun verdict =>
        answers_record.bind fun _ => ih

theorem answers_checkGraphql {origin : Str}
    (hsite : ∀ path, Returns (urlparse scanner.runtime (origin ++ '/' :: path)))
    (endpoints : List Str) :
    Answers (Unread scanner maxPages maxDepth) raises pre
      (scanner.checkGraphql origin endpoints) fun _ => True := by
  induction endpoints generalizing pre with
  | nil => exact answers_bool
  | cons endpoint endpoints ih =>
    refine ((answers_request _ [] .site).mono_pre fun _ => ?_).bind fun res => ?_
    · rw [append_assoc, cons_append]
      exact hsite _
    rcases res with _ | r
    · exact answers_stopped.bind fun _ => answers_ite (fun _ => answers_bool) fun _ => ih
    · exact (answers_call fun _ => by rw [hverdicts]; exact returns_ok _).bind fun verdict =>
        answers_record.bind fun _ => answers_ite (fun _ => answers_bool) fun _ => ih

theorem answers_checkSiteProbes {seeds : List Str}
    (hseed : ∀ seed ∈ seeds.head?, Returns (urlparse scanner.runtime seed)) :
    Answers (Unread scanner maxPages maxDepth) raises pre (scanner.checkSiteProbes seeds)
      fun _ => True := by
  rcases seeds with _ | ⟨seed, seeds⟩
  · exact answers_unit
  obtain ⟨p, hparse⟩ := hseed seed rfl
  rw [Scanner.checkSiteProbes, hparse, lift_ok_bind]
  refine answers_ite (fun _ => answers_unit) fun hsite => ?_
  have horigin := returns_urlparse_site hparse fun hscheme => hsite (Or.inl hscheme)
  refine (answers_checkExposedPaths hverdicts horigin _).bind fun _ =>
    answers_ite (fun _ => answers_unit) fun _ => ?_
  refine (answers_checkGraphql hverdicts horigin _).bind fun _ =>
    answers_ite (fun _ => answers_unit) fun _ => ?_
  refine ((answers_request _ _ .site).mono_pre fun _ => horigin []).bind fun res => ?_
  rcases res with _ | r
  · exact answers_unit
  · exact (answers_call fun _ => by rw [hverdicts]; exact returns_ok _).bind
      fun verdict => answers_record

theorem answers_refetchAll (targets : List Target) (seen : List Str) :
    Answers (Unread scanner maxPages maxDepth) raises
      (∀ target ∈ targets, Reads scanner.runtime scanner.urls target.url)
      (scanner.refetchAll targets seen) fun _ => True := by
  induction targets generalizing seen with
  | nil => exact answers_unit
  | cons target targets ih =>
    have hrest : ∀ {pre : Prop} (seen : List Str),
        (pre → ∀ t ∈ target :: targets, Reads scanner.runtime scanner.urls t.url) →
        Answers (Unread scanner maxPages maxDepth) raises pre (scanner.refetchAll targets seen)
          fun _ => True :=
      fun seen hpre => (ih seen).mono_pre fun hp t ht => hpre hp t (mem_cons_of_mem _ ht)
    refine answers_ite (fun _ => hrest seen fun hp => hp) fun _ => ?_
    refine (answers_call fun hp => (hp target mem_cons_self).2).bind fun key =>
      answers_ite (fun _ => hrest seen fun hp => hp.1) fun _ => ?_
    refine ((answers_request target.url [] _).mono_pre fun hp =>
      (hp.1 target mem_cons_self).1).bind fun res => ?_
    rcases res with _ | r
    · exact answers_stopped.bind fun _ => answers_ite (fun _ => answers_unit) fun _ =>
        hrest _ fun hp => hp.1.1.1
    · exact (answers_call fun _ => by rw [hverdicts]; exact returns_ok _).bind fun verdict =>
        answers_record.bind fun _ => hrest _ fun hp => hp.1.1.1.1

theorem answers_testParams (target : Target) (params : List Param) (seen : List (Str × Str)) :
    Answers (Unread scanner maxPages maxDepth) raises
      (Reads scanner.runtime scanner.urls target.url) (scanner.testParams target params seen)
      fun _ => True := by
  induction params generalizing seen with
  | nil => exact answers_pure fun _ => trivial
  | cons param params ih =>
    refine (answers_call fun hp => hp.2).bind fun key =>
      answers_ite (fun _ => (ih seen).mono_pre fun hp => hp.1) fun _ => ?_
    refine (answers_change fun _ => by rfl).bind fun _ =>
      ((answers_testParameter hverdicts target param).mono_pre fun hp => hp.1.1.1).bind
        fun _ => ?_
    exact answers_stopped.bind fun _ => answers_ite (fun _ => answers_pure fun _ => trivial)
      fun _ => (ih _).mono_pre fun hp => hp.1.1.1.1

theorem answers_testTargets (targets : List Target) (seen : List (Str × Str)) :
    Answers (Unread scanner maxPages maxDepth) raises
      (∀ target ∈ targets, Reads scanner.runtime scanner.urls target.url)
      (scanner.testTargets targets seen) fun _ => True := by
  induction targets generalizing seen with
  | nil => exact answers_bool
  | cons target targets ih =>
    have hrest : ∀ {pre : Prop} (seen : List (Str × Str)),
        (pre → ∀ t ∈ target :: targets, Reads scanner.runtime scanner.urls t.url) →
        Answers (Unread scanner maxPages maxDepth) raises pre (scanner.testTargets targets seen)
          fun _ => True :=
      fun seen hpre => (ih seen).mono_pre fun hp t ht => hpre hp t (mem_cons_of_mem _ ht)
    have hhead : (∀ t ∈ target :: targets, Reads scanner.runtime scanner.urls t.url) →
        Reads scanner.runtime scanner.urls target.url := fun hp => hp target mem_cons_self
    refine answers_ite (fun _ => ((answers_checkCsrf hverdicts target).mono_pre hhead).bind
      fun _ => hrest seen fun hp => hp.1) fun _ => ?_
    refine ((answers_checkCors hverdicts target).mono_pre hhead).bind fun _ =>
      answers_ite (fun _ => hrest seen fun hp => hp.1) fun _ => ?_
    refine (answers_change fun _ => by rfl).bind fun _ =>
      ((answers_testParams hverdicts target _ seen).mono_pre fun hp => hhead hp.1.1).bind
        fun res => ?_
    rcases res with _ | seen
    · exact answers_bool
    · exact hrest seen fun hp => hp.1.1.1

/-- **What follows the crawl**, when the targets can be read. -/
theorem answers_check {seeds : List Str}
    (hseed : ∀ seed ∈ seeds.head?, Returns (urlparse scanner.runtime seed))
    (result : CrawlResult) :
    Answers (Unread scanner maxPages maxDepth) raises
      (∀ target ∈ result.targets, Reads scanner.runtime scanner.urls target.url)
      (scanner.check seeds result) fun _ => True := by
  refine (answers_change fun _ => by rfl).bind fun _ =>
    ((answers_checkSessionUrls hverdicts result.targets).mono_pre fun hp => hp.1).bind fun _ =>
      (answers_checkSiteProbes hverdicts hseed).bind fun _ => ?_
  refine ((answers_testTargets hverdicts result.targets []).mono_pre fun hp => hp.1.1.1).bind
    fun _ => answers_ite (fun _ => answers_unit) fun _ => ?_
  refine answers_read.bind fun _ => answers_ite (fun _ => answers_unit) fun _ => ?_
  exact (answers_refetchAll hverdicts result.targets []).mono_pre fun hp => hp.1.1.1.1.1

theorem answers_scan (hout : raises .outOfFuel) {seeds : List Str}
    (hseeds : ∀ seed ∈ seeds, SeedReads scanner.runtime scanner.urls
      (Reads scanner.runtime scanner.urls) scanner.hosts seed)
    (hfirst : ∀ seed ∈ seeds.head?, Returns (urlparse scanner.runtime seed)) (fuel : ℕ) :
    Answers (Unread scanner maxPages maxDepth) raises True
      (scanner.scan maxPages maxDepth fuel seeds) fun _ => True :=
  (answers_crawl hout answers_crawlFetch hseeds fuel).bind fun result =>
    (answers_check hverdicts hfirst result).mono_pre fun hp => hp.2

end Scan

/-! ### What a hostile page costs -/

/-- **A crawl returns** when it can read the pages that it is served. -/
theorem exists_crawl {S : Type} {fetch : Str → ℕ → Effect Stop S Page} {seeds : List Str}
    (hends : ∀ url depth s, (fetch url depth s).1 ≠ .error .outOfFuel)
    (hpages : ∀ url depth s page, (fetch url depth s).1 = .ok page → C.Parses R depth page →
      PageReads R L P good C.authorizedHosts url page.body)
    (hseeds : ∀ seed ∈ seeds, SeedReads R L good C.authorizedHosts seed) (s : S) :
    ∃ n, ∀ k, n ≤ k → Returns (crawl R L P C fetch k seeds s).1 := by
  have hensures : ∀ url depth, Ensures Stop.ends True (fetch url depth) fun _ => True :=
    fun url depth => ⟨fun s e he hout => hends url depth s (hout ▸ he), fun _ hs => hs,
      fun _ _ _ => Or.inr ⟨trivial, fun _ _ => trivial⟩⟩
  obtain ⟨n, hn⟩ := exists_fuel_crawl (R := R) (L := L) (P := P) (C := C) hensures seeds s
  have hfetch : ∀ url depth, Answers (fun _ => False) (fun _ => True) (Returns (urlparse R url))
      (fetch url depth) fun page =>
        C.Parses R depth page → PageReads R L P good C.authorizedHosts url page.body := by
    refine fun url depth => ⟨fun _ hs => hs, fun _ s => Or.inr ?_⟩
    rcases hrun : (fetch url depth s).1 with e | page
    · exact Or.inr ⟨e, rfl, trivial⟩
    · exact Or.inl ⟨page, rfl, hpages url depth s page hrun⟩
  refine ⟨n, fun k hk => ?_⟩
  obtain ⟨hsame, hout⟩ := hn k hk
  have hanswers : Answers (fun _ => False) (Eq .outOfFuel) True (crawl R L P C fetch k seeds)
      fun result => ∀ target ∈ result.targets, good target.url :=
    answers_crawl rfl hfetch hseeds k
  rcases hanswers.answers trivial s with hescape | ⟨result, hresult, -⟩ | ⟨e, he, rfl⟩
  · exact hescape.elim
  · exact ⟨result, hresult⟩
  · rw [hsame] at he
    exact absurd he hout

/-- **The seeds can be read**, and the first one as it was given. -/
structure SeedsRead (scanner : Scanner) (seeds : List Str) : Prop where
  read : ∀ seed ∈ seeds, SeedReads scanner.runtime scanner.urls
    (Reads scanner.runtime scanner.urls) scanner.hosts seed
  first : ∀ seed ∈ seeds.head?, Returns (urlparse scanner.runtime seed)

/-- **A scan returns** when it can read what it is served. -/
theorem exists_run {judges : Judges} {scanner : Scanner} {maxPages maxDepth : ℤ}
    {seeds : List Str} (hverdicts : scanner.verdicts = judges.verdicts scanner.runtime scanner.urls)
    (hseeds : SeedsRead scanner seeds) :
    ∃ n, ∀ k, n ≤ k →
      (∀ f ∈ (scanner.run maxPages maxDepth k seeds).2.traffic.wire.log,
        Served scanner maxPages maxDepth f) →
      Returns (scanner.run maxPages maxDepth k seeds).1 := by
  obtain ⟨n, hn⟩ : ∃ n, ∀ k, n ≤ k →
      scanner.run maxPages maxDepth k seeds = scanner.run maxPages maxDepth n seeds ∧
        (scanner.run maxPages maxDepth n seeds).1 ≠ .error .outOfFuel :=
    exists_fuel_run maxPages maxDepth seeds
  refine ⟨n, fun k hk hserved => ?_⟩
  obtain ⟨hsame, hout⟩ := hn k hk
  have hanswers : Answers (Unread scanner maxPages maxDepth) (Eq .outOfFuel) True
      (scanner.scan maxPages maxDepth k seeds) fun _ => True :=
    answers_scan hverdicts rfl hseeds.read hseeds.first k
  rcases hanswers.answers trivial scanner.init with ⟨f, hf, hunread⟩ | ⟨a, ha, -⟩ | ⟨e, he, rfl⟩
  · exact absurd (hserved f hf) hunread
  · exact ⟨a, ha⟩
  · exact absurd (hsame ▸ he : (scanner.run maxPages maxDepth n seeds).1 = _) hout

/-- **A crawl and a scan return**, whatever the pages say that they can read. -/
theorem scan_returns (R : Runtime) (L : UrlLibrary) (P : PageLibrary) :
    (∀ (C : Crawler) (S : Type) (fetch : Str → ℕ → Effect Stop S Page) (seeds : List Str) (s : S),
      (∀ url depth s, (fetch url depth s).1 ≠ .error .outOfFuel) →
      (∀ url depth s page, (fetch url depth s).1 = .ok page → C.Parses R depth page →
        PageReads R L P (fun _ => True) C.authorizedHosts url page.body) →
      (∀ seed ∈ seeds, SeedReads R L (fun _ => True) C.authorizedHosts seed) →
      ∃ n, ∀ k, n ≤ k → Returns (crawl R L P C fetch k seeds s).1) ∧
    ∀ (judges : Judges) (scanner : Scanner) (maxPages maxDepth : ℤ) (seeds : List Str),
      scanner.runtime = R → scanner.urls = L → scanner.pages = P →
      scanner.verdicts = judges.verdicts R L → SeedsRead scanner seeds →
      ∃ n, ∀ k, n ≤ k →
        (∀ f ∈ (scanner.run maxPages maxDepth k seeds).2.traffic.wire.log,
          Served scanner maxPages maxDepth f) →
        Returns (scanner.run maxPages maxDepth k seeds).1 := by
  refine ⟨fun C S fetch seeds s hends hpages hseeds => exists_crawl hends hpages hseeds s, ?_⟩
  rintro judges scanner maxPages maxDepth seeds rfl rfl rfl hverdicts hseeds
  exact exists_run hverdicts hseeds

/-! ### A page with one link -/

/-- The page with a link to an address. -/
def linkPage (href : Str) : Str := "<a href=" ++ href ++ "></a>"

/-- What `HTMLParser` reads in the page. -/
def linkPages : PageLibrary where
  feed body :=
    if "<a href=" <+: body then
      ⟨[.startTag "a" [("href", some (partition '>' (body.drop 8)).1)],
        .endTag "a"], true⟩
    else ⟨[], true⟩
  upper := List.map Char.toUpper

/-- What `urllib` does on the page, whose link has a scheme and a host. -/
def linkUrls : UrlLibrary where
  unquote := formUrls.unquote
  quotePlus := formUrls.quotePlus
  urljoin _ reference := do return urlunparse (← urlparse .ascii reference)

/-- Nothing fires. -/
def quietJudges : Judges where
  xss _ _ _ _ := .no
  sqlError _ := .no
  sqlBoolean _ _ _ _ _ := .no
  timeBlind _ _ _ _ := .no
  traversal _ := .no
  ssti _ := .no
  command _ _ _ := .no
  cors _ := .no
  csrf _ _ _ := .no
  exposedPath _ _ _ := .no
  graphqlIntrospection _ _ _ := .no
  hostHeaderInjection _ _ _ := .no

/-- A scanner of an application that has one page, with one link. -/
def linkScanner (href : Str) : Scanner :=
  { formScanner [] with
    urls := linkUrls
    pages := linkPages
    verdicts := quietJudges.verdicts .ascii linkUrls
    world := .still fun _ _ _ => .response
      ⟨200, [("content-type", "text/html")], linkPage href, [], 0⟩ }

/-- The seed of a scanner of that application. -/
def linkSeed : Str := "http://h.com/"

theorem seedsRead_link (href : Str) : SeedsRead (linkScanner href) [linkSeed] := by
  have hnormalize : normalize .ascii linkUrls linkSeed = .ok linkSeed := by decide
  have hparse : urlparse .ascii linkSeed =
      .ok ⟨"http", "h.com", "/", [], [], []⟩ := by decide
  refine ⟨forall_mem_singleton.mpr ⟨linkSeed, hnormalize, ⟨_, hparse⟩, fun _ => ?_⟩, ?_⟩
  · exact ⟨linkSeed, hnormalize, ⟨_, hparse⟩, ⟨_, hnormalize⟩⟩
  · rintro seed hseed
    cases hseed
    exact ⟨_, hparse⟩

/-- The policy of the scans of an application that has one answer. -/
def Policy.constant (answer : Outcome) : Policy where
  raises _ := True
  escape _ := False
  keep t := ∀ f ∈ t.wire.log, f.outcome = answer
  allowed _ _ := True
  known _ _ _ := True
  good _ := True

theorem Policy.constant_sound {scanner : Scanner} {answer : Outcome}
    (hworld : ∀ log url headers, scanner.world.respond log url headers = answer)
    (maxPages maxDepth : ℤ) : (Policy.constant answer).Sound scanner maxPages maxDepth where
  raises _ _ := trivial
  send url headers reason := by
    refine ⟨fun _ _ _ => trivial, fun _ hs => hs,
      fun _ s hs => Or.inr ⟨?_, fun _ _ _ _ _ => trivial⟩⟩
    show ∀ f ∈ (scanner.send url headers reason s).2.traffic.wire.log, f.outcome = answer
    unfold Scanner.send Scanner.take
    dsimp only
    rcases scanner.limits.take s.traffic.budget (scanner.world.read s.traffic.wire).clock with
      ⟨_ | _, clock, budget⟩
    · exact hs
    · exact forall_mem_cons.mpr ⟨hworld _ _ _, hs⟩
  site _ := trivial
  target _ _ := trivial
  submit _ _ _ _ _ _ := trivial
  crawl := CrawlRules.sound _ _ _ _ _ (fun _ _ => trivial) fun _ => trivial

theorem pageReads_link {good : Str → Prop} {base : Str}
    (hgood : good "http://h.com/a") :
    PageReads .ascii linkUrls linkPages good ["h.com"] base
      (linkPage "http://h.com/a") := by
  have hpage : (parsePage .ascii linkPages (linkPage "http://h.com/a")).links =
      ["http://h.com/a"] ∧
        (parsePage .ascii linkPages (linkPage "http://h.com/a")).forms.length = 0 := by
    decide
  have hjoin : (urlparse .ascii "http://h.com/a").map urlunparse =
      .ok "http://h.com/a" := by decide
  have hnormalize : normalize .ascii linkUrls "http://h.com/a" =
      .ok "http://h.com/a" := by decide
  have hparse : urlparse .ascii "http://h.com/a" =
      .ok ⟨"http", "h.com", "/a", [], [], []⟩ := by decide
  refine ⟨fun href hhref _ => ?_, fun form hform => ?_⟩
  · rw [hpage.1] at hhref
    rw [mem_singleton.mp hhref]
    refine ⟨"http://h.com/a", ?_, fun _ => ⟨_, hnormalize, ⟨_, hparse⟩,
      fun _ => ⟨_, hnormalize, hgood⟩⟩⟩
    show (do return urlunparse (← urlparse .ascii "http://h.com/a")) = _
    rw [hparse]
    rfl
  · rw [length_eq_zero_iff.mp hpage.2] at hform
    cases hform

/-- The application with a link to another of its pages. -/
theorem scan_returns_link :
    (∃ n, ∀ k, n ≤ k → Returns (crawl .ascii linkUrls linkPages
      ((linkScanner "http://h.com/a").crawler 8 2)
      (fun _ _ => (pure ⟨"text/html", linkPage "http://h.com/a"⟩ :
        Effect Stop Unit Page)) k [linkSeed] ()).1) ∧
    ∃ n, ∀ k, n ≤ k → Returns ((linkScanner "http://h.com/a").run 8 2 k [linkSeed]).1 := by
  have hhosts : (linkScanner "http://h.com/a").hosts = ["h.com"] := by decide
  have hseeds := seedsRead_link "http://h.com/a"
  obtain ⟨hcrawl, hscan⟩ := scan_returns .ascii linkUrls linkPages
  refine ⟨hcrawl _ Unit _ [linkSeed] () (fun _ _ _ h => by cases h) ?_ ?_, ?_⟩
  · intro url depth s page hpage _
    cases hpage
    show PageReads _ _ _ _ (linkScanner _).hosts _ _
    rw [hhosts]
    exact pageReads_link trivial
  · refine forall_mem_singleton.mpr ?_
    obtain ⟨normalized, hnormalized, hparse, hscope⟩ := hseeds.read linkSeed mem_cons_self
    exact ⟨normalized, hnormalized, hparse, fun h => (hscope h).imp fun _ hu => ⟨hu.1, trivial⟩⟩
  · obtain ⟨n, hn⟩ := hscan quietJudges _ 8 2 [linkSeed] rfl rfl rfl rfl hseeds
    refine ⟨n, fun k hk => hn k hk fun f hf r houtcome _ => ?_⟩
    have hsound : (Policy.constant _).Sound (linkScanner "http://h.com/a") 8 2 :=
      Policy.constant_sound (fun _ _ _ => rfl) 8 2
    have hone := Policy.run_spec hsound trivial (fun _ hg => nomatch hg) k [linkSeed]
    cases houtcome.symm.trans (hone.resolve_left (fun h => h.elim) f hf)
    refine ⟨fun depth _ _ => ?_, fun _ _ _ => ⟨.no, ?_⟩⟩
    · rw [hhosts]
      refine pageReads_link ⟨⟨⟨"http", "h.com", "/a", [], [], []⟩, ?_⟩,
        ⟨"http://h.com/a", ?_⟩⟩
      · decide
      · decide
    · rfl

/-- **A link that cannot be read** ends the crawl and the scan, whatever the fuel is. -/
theorem link_ends_scan :
    ¬ ∀ (judges : Judges) (scanner : Scanner) (maxPages maxDepth : ℤ) (seeds : List Str),
      scanner.verdicts = judges.verdicts scanner.runtime scanner.urls → SeedsRead scanner seeds →
      ∃ n, ∀ k, n ≤ k →
        Returns (crawl scanner.runtime scanner.urls scanner.pages
          (scanner.crawler maxPages maxDepth) scanner.crawlFetch k seeds scanner.init).1 ∧
        Returns (scanner.run maxPages maxDepth k seeds).1 := by
  intro h
  obtain ⟨n, hn⟩ := h quietJudges (linkScanner "http://[") 8 2 [linkSeed] rfl
    (seedsRead_link _)
  obtain ⟨result, hresult⟩ := (hn (n + 1) (Nat.le_succ n)).1
  have hnormalize : normalize .ascii linkUrls linkSeed = .ok linkSeed := by decide
  have hscope : sameScope .ascii (linkScanner "http://[").hosts linkSeed = .ok true := by
    decide
  have hseeds : [linkSeed].foldlM (addSeed .ascii linkUrls (linkScanner "http://[").hosts)
      .init = .ok ⟨CrawlState.init.result, [linkSeed], [(linkSeed, 0)]⟩ := by
    simp only [foldlM_cons, foldlM_nil, addSeed, hnormalize, hscope, ok_bind]
    rfl
  have hround : (crawlRound .ascii linkUrls linkPages ((linkScanner "http://[").crawler 8 2)
      (linkScanner "http://[").crawlFetch
      ⟨CrawlState.init.result, [linkSeed], [(linkSeed, 0)]⟩
      (linkScanner "http://[").init).1.toOption.isSome = false := by decide +kernel
  have hcrawl : (crawl .ascii linkUrls linkPages ((linkScanner "http://[").crawler 8 2)
      (linkScanner "http://[").crawlFetch (n + 1) [linkSeed]
      (linkScanner "http://[").init).1 = .ok result := hresult
  rw [crawl, show ((linkScanner "http://[").crawler 8 2).authorizedHosts =
    (linkScanner "http://[").hosts from rfl, hseeds, lift_ok_bind, Effect.loop,
    Effect.bind_apply] at hcrawl
  rcases hrun : crawlRound .ascii linkUrls linkPages
    ((linkScanner "http://[").crawler 8 2) (linkScanner "http://[").crawlFetch
    ⟨CrawlState.init.result, [linkSeed], [(linkSeed, 0)]⟩
    (linkScanner "http://[").init with ⟨e | x, t⟩
  · rw [hrun] at hcrawl
    cases hcrawl
  · rw [hrun] at hround
    cases hround

end Guardian.Dast
