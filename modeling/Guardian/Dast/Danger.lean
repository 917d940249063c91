import Guardian.Dast.Policy

/-!
# Requests that change state

What the content of the pages makes a scan request.  `spares_state` says when it requests nothing
that is dangerous.
-/

namespace Guardian.Dast

open Python Transition List

/-! ### What content asks for -/

/-- The request is sent because of the content of a page. -/
def Reason.FromContent : Reason → Prop
  | .crawl depth => 0 < depth
  | .check fromContent => fromContent = true
  | .site => False

instance (reason : Reason) : Decidable reason.FromContent := by
  cases reason <;> unfold Reason.FromContent <;> infer_instance

/-- **No content makes the scan request a dangerous path**, unless it is that of a seed. -/
def SparesState (scanner : Scanner) (seeds : List Str) (log : List (Fetch Reason)) : Prop :=
  ∀ f ∈ log, f.reason.FromContent → ¬ Harmless scanner.runtime f.url →
    f.url ∈ seeds ∨ ∃ seed ∈ seeds, normalize scanner.runtime scanner.urls seed = .ok f.url

variable (scanner : Scanner)

/-- The form is not submitted, or its address is harmless. -/
def SafeForm (form : Target) : Prop :=
  form.method = "GET" → sameScope scanner.runtime scanner.hosts form.url = .ok true →
    Harmless scanner.runtime form.url

/-- The link is not followed, or the address of its target is harmless: `target_for` takes the
canonical form of an address that is one already, and may get another path. -/
def SafeLink (link : Str) : Prop :=
  ∀ candidate, Follows scanner.runtime scanner.urls scanner.hosts link candidate →
    ∀ target, targetFor scanner.runtime scanner.urls candidate true = .ok target →
      Harmless scanner.runtime target.url

/-- The forms and the links of a page are safe. -/
def SafePage (url body : Str) : Prop :=
  ∀ links forms,
    extract scanner.runtime scanner.urls scanner.pages url body = .ok (links, forms) →
      (∀ form ∈ forms, SafeForm scanner form) ∧ ∀ link ∈ links, SafeLink scanner link

/-- **The page of a fetch is safe**, if it is one that the crawler parses. -/
def SafeFetch (maxPages maxDepth : ℤ) (f : Fetch Reason) : Prop :=
  ∀ depth r, f.reason = .crawl depth → f.outcome = .response r → r.error = [] →
    (scanner.crawler maxPages maxDepth).Parses scanner.runtime depth (Policy.pageOf r) →
      SafePage scanner f.url r.body

/-! ### What the scan does about it -/

/-- The policy that keeps to harmless paths until a page is not safe. -/
def Policy.spares (maxPages maxDepth : ℤ) : Policy where
  raises _ := True
  escape t := ∃ f ∈ t.wire.log, ¬ SafeFetch scanner maxPages maxDepth f
  keep t := ∀ f ∈ t.wire.log, f.reason.FromContent → Harmless scanner.runtime f.url
  allowed url reason := reason.FromContent → Harmless scanner.runtime url
  known url reason r := ∀ depth, reason = .crawl depth →
    (scanner.crawler maxPages maxDepth).Parses scanner.runtime depth (pageOf r) →
      SafePage scanner url r.body
  good target := target.method = "GET" → target.fromContent = true →
    Harmless scanner.runtime target.url

variable {scanner}

theorem harmless_urlFor {target : Target} {param : Param} {value url : Str}
    (h : Harmless scanner.runtime target.url)
    (hurl : scanner.urlFor target param value = .ok url) : Harmless scanner.runtime url := by
  unfold Scanner.urlFor at hurl
  rcases hplace : param.place with _ | _
  · rw [hplace] at hurl
    exact h.withParam hurl
  · rw [hplace] at hurl
    exact h.formUrl hurl

theorem fromContent_targetFor {R : Runtime} {L : UrlLibrary} {url : Str} {fromContent : Bool}
    {target : Target} (h : targetFor R L url fromContent = .ok target) :
    target.fromContent = fromContent := by
  obtain ⟨p, -, h⟩ := bind_eq_ok.mp h
  obtain ⟨u, -, h⟩ := bind_eq_ok.mp h
  cases h
  rfl

theorem Policy.spares_sound (maxPages maxDepth : ℤ) :
    (Policy.spares scanner maxPages maxDepth).Sound scanner maxPages maxDepth where
  raises _ _ := trivial
  send url headers reason := by
    refine ⟨fun _ _ _ => trivial, ?_, fun hpre s hs => ?_⟩
    · rintro s ⟨f, hf, hunsafe⟩
      rcases send_cases scanner url headers reason s with ⟨-, hlog⟩ | ⟨start, outcome, -, hlog⟩
      · exact ⟨f, by rw [hlog]; exact hf, hunsafe⟩
      · exact ⟨f, by rw [hlog]; exact mem_cons_of_mem _ hf, hunsafe⟩
    · rcases send_cases scanner url headers reason s with
        ⟨hret, hlog⟩ | ⟨start, outcome, hret, hlog⟩
      · have hkeep : ∀ f ∈ (scanner.send url headers reason s).2.traffic.wire.log,
            f.reason.FromContent → Harmless scanner.runtime f.url := by
          rw [hlog]
          exact hs
        refine Or.inr ⟨hkeep, fun o ho r hr => ?_⟩
        rw [hret] at ho
        cases ho
        cases hr
      by_cases hsafe : SafeFetch scanner maxPages maxDepth ⟨url, headers, reason, start, outcome⟩
      · have hkeep : ∀ f ∈ (scanner.send url headers reason s).2.traffic.wire.log,
            f.reason.FromContent → Harmless scanner.runtime f.url := by
          rw [hlog]
          exact forall_mem_cons.mpr ⟨hpre.1, hs⟩
        refine Or.inr ⟨hkeep, fun o ho r hr herror depth hreason hparses => ?_⟩
        rw [hret] at ho
        cases ho
        cases hr
        exact hsafe depth r hreason rfl herror hparses
      · exact Or.inl ⟨_, by rw [hlog]; exact mem_cons_self, hsafe⟩
  site _ h := h.elim
  target target h hcontent := h.1 h.2 hcontent
  submit target param value url h hurl hcontent := harmless_urlFor (h.1 h.2 hcontent) hurl
  crawl := by
    refine ⟨fun url => ⟨fun h => absurd h (lt_irrefl 0), fun target htarget _ hcontent => ?_⟩,
      fun url depth page links forms hknown hparses hextract form hform hscope => ?_,
      fun url depth page links forms hknown hparses hextract link hlink candidate hfollows => ?_⟩
    · rw [fromContent_targetFor htarget] at hcontent
      cases hcontent
    · obtain ⟨r, hknown, rfl⟩ := hknown
      have hpage := hknown depth rfl hparses links forms hextract
      exact fun hmethod _ => hpage.1 form hform hmethod hscope
    · obtain ⟨r, hknown, rfl⟩ := hknown
      have hpage := hknown depth rfl hparses links forms hextract
      refine ⟨fun _ => harmless_of_isDangerous hfollows.2.2.2.1, fun target htarget _ _ => ?_⟩
      rw [decide_eq_true (Nat.succ_pos depth)] at htarget
      exact hpage.2 link hlink candidate hfollows target htarget

/-- **While the pages are safe**, no content makes the scan request a dangerous path, by the crawl
or by a check. -/
theorem spares_state (scanner : Scanner) (maxPages maxDepth : ℤ) (fuel : ℕ) (seeds : List Str)
    (hsafe : ∀ f ∈ (scanner.run maxPages maxDepth fuel seeds).2.traffic.wire.log,
      SafeFetch scanner maxPages maxDepth f) :
    SparesState scanner seeds (scanner.run maxPages maxDepth fuel seeds).2.traffic.wire.log := by
  intro f hf hcontent hdangerous
  rcases Policy.run_spec (Policy.spares_sound maxPages maxDepth) trivial (fun _ hg => nomatch hg)
    fuel seeds with ⟨g, hg, hunsafe⟩ | hkeep
  · exact absurd (hsafe g hg) hunsafe
  · exact absurd (hkeep f hf hcontent) hdangerous

/-! ### A page with one form -/

/-- The page with a form that is sent to an address. -/
def formPage (action : Str) : Str := "<form action=" ++ action ++ "></form>"

/-- What `HTMLParser` and `urllib` do on the texts of the page and of the probes. -/
def formPages : PageLibrary where
  feed body :=
    if "<form action=" <+: body then
      ⟨[.startTag "form" [("action", some (partition '>' (body.drop 13)).1)],
        .endTag "form"], true⟩
    else ⟨[], true⟩
  upper := List.map Char.toUpper

/-- As `formPages`. -/
def formUrls : UrlLibrary where
  unquote := id
  quotePlus s := s.flatMap fun c =>
    if c = '\x7b' then "%7B" else if c = '\x7d' then "%7D" else [c]
  urljoin base reference := do
    let p ← urlparse .ascii base
    return p.scheme ++ "://" ++ p.netloc ++ reference

-- the link `/logout #` is followed as `/logout `, which is harmless, and its target is `/logout`
example : isDangerous .ascii "http://h.com/logout " = .ok false ∧
    (targetFor .ascii formUrls "http://h.com/logout " true).map (·.url) =
      .ok "http://h.com/logout" := by decide

def Verdict.no : Verdict := ⟨false, [], [], "medium"⟩

/-- The verdicts on a page that says nothing but its form. -/
def quietVerdicts : Verdicts where
  xss _ _ _ _ := .ok .no
  sqlError _ := .ok .no
  sqlBoolean _ _ _ _ _ := .ok .no
  timeBlind _ _ _ _ := .ok .no
  traversal _ := .ok .no
  ssti _ := .ok .no
  command _ _ _ := .ok .no
  redirect _ _ := .ok .no
  cors _ := .ok .no
  csrf _ _ _ := .ok .no
  sessionInUrl _ := .ok .no
  exposedPath _ _ _ := .ok .no
  graphqlIntrospection _ _ _ := .ok .no
  hostHeaderInjection _ _ _ := .ok .no

/-- The answer of an application that has one page. -/
def formResponse (action : Str) : Response :=
  ⟨200, [("content-type", "text/html")], formPage action, [], 0⟩

/-- A scanner of that application. -/
def formScanner (action : Str) : Scanner where
  runtime := .ascii
  urls := formUrls
  pages := formPages
  verdicts := quietVerdicts
  describe _ := "RuntimeError: request refused or failed"
  marker := "gdn"
  authorizedHosts := ["h.com"]
  limits := ⟨400, 8, 180, 0⟩
  world := .still fun _ _ _ => .response (formResponse action)

/-- The scan of a page with a search form: it is the only page, and it is safe. -/
theorem spares_state_search :
    SparesState (formScanner "/search") ["http://h.com/"]
      ((formScanner "/search").run 1 2 2 ["http://h.com/"]).2.traffic.wire.log := by
  refine spares_state _ _ _ _ _ fun f hf depth r hreason houtcome _ _ links forms hextract => ?_
  have hfetches : ∀ f ∈ ((formScanner "/search").run 1 2 2
      ["http://h.com/"]).2.traffic.wire.log, f.reason = .site ∨ f.reason = .check false ∨
        f.reason = .check true ∨ f = ⟨"http://h.com/", [], .crawl 0, 0,
          .response (formResponse "/search")⟩ := by decide +kernel
  have hpage : extract .ascii formUrls formPages "http://h.com/"
      (formPage "/search") =
        .ok ([], [⟨"http://h.com/search", "GET", [], true⟩]) := by decide
  have hparse : urlparse .ascii "http://h.com/search" =
      .ok ⟨"http", "h.com", "/search", [], [], []⟩ := by decide
  rcases hfetches f hf with hother | hother | hother | rfl
  · exact nomatch hreason.symm.trans hother
  · exact nomatch hreason.symm.trans hother
  · exact nomatch hreason.symm.trans hother
  cases houtcome
  have hlists := Except.ok.inj (hpage.symm.trans hextract)
  cases hlists
  refine ⟨forall_mem_singleton.mpr fun _ _ p hp => ?_, (fun _ hl => nomatch hl)⟩
  cases Except.ok.inj (hparse.symm.trans hp)
  decide

/-- **A form that logs out**: its action is requested for the sake of the CORS check. -/
theorem requests_logout :
    ¬ ∀ (scanner : Scanner) (maxPages maxDepth : ℤ) (fuel : ℕ) (seeds : List Str),
      SparesState scanner seeds (scanner.run maxPages maxDepth fuel seeds).2.traffic.wire.log := by
  intro h
  have hspares := h (formScanner "/logout") 1 2 2 ["http://h.com/"]
  have hlast : ∃ f ∈ ((formScanner "/logout").run 1 2 2
      ["http://h.com/"]).2.traffic.wire.log, f.url = "http://h.com/logout" ∧
        f.reason = .check true := by decide +kernel
  obtain ⟨f, hf, hurl, hreason⟩ := hlast
  have hparse : urlparse .ascii f.url =
      .ok ⟨"http", "h.com", "/logout", [], [], []⟩ := by
    rw [hurl]
    decide
  rcases hspares f hf (by rw [hreason]; rfl) fun hharmless => absurd (hharmless _ hparse)
    (by decide) with hseed | ⟨seed, hseed, hnormalize⟩
  · rw [hurl] at hseed
    revert hseed
    decide
  · rw [mem_singleton.mp hseed, hurl] at hnormalize
    revert hnormalize
    decide

end Guardian.Dast
