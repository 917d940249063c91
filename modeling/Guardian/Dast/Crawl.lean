import Mathlib.Data.Prod.Lex
import Guardian.Dast.Address
import Guardian.Transition.Effect

/-!
# The crawler

What a page says of the application, and the breadth-first crawl over a `fetch` that is not part of
it.
-/

namespace Guardian.Dast

open Python Transition List

/-! ### What a page says -/

/-- What `HTMLParser` calls the handlers for. -/
inductive Event
  | startTag (tag : Str) (attrs : List (Str × Option Str))
  | endTag (tag : Str)

/-- What `HTMLParser` reads in a page.  `complete` is false when the parser raises. -/
structure Markup where
  events : List Event
  complete : Bool

/-- The functions of the interpreter that are taken as they are. -/
structure PageLibrary where
  feed : Str → Markup
  upper : Str → Str

variable (R : Runtime) (L : UrlLibrary) (P : PageLibrary)

/-- `Target`.  `fromContent` tells the targets that a page named from the seeds; the source does
not keep it. -/
structure Target where
  url : Str
  method : Str
  params : List Param
  fromContent : Bool
  deriving DecidableEq

/-- `testable`. -/
def Target.testable (target : Target) : Bool :=
  decide (target.method = "GET") && !target.params.isEmpty

/-- The dictionary of a form. -/
structure Form where
  action : Str
  method : Str
  fields : List (Str × Str)

/-- `_Extractor`. -/
structure Extractor where
  links : List Str
  forms : List Form
  form : Option Form

/-- `attributes.get(key, "")`; the last one of a repeated attribute counts. -/
def attributesGet (attrs : List (Str × Option Str)) (key : Str) : Str :=
  ((attrs.reverse.find? fun kv => lower R kv.1 = key).bind (·.2)).getD []

/-- `handle_starttag`. -/
def Extractor.startTag (e : Extractor) (tag : Str) (attrs : List (Str × Option Str)) : Extractor :=
  let href := attributesGet R attrs "href"
  let method := attributesGet R attrs "method"
  let name := attributesGet R attrs "name"
  if tag = "a" ∧ href ≠ [] then { e with links := e.links ++ [href] }
  else if tag = "form" then
    -- a form that is still open is forgotten
    { e with
      form := some
        { action := attributesGet R attrs "action"
          method := P.upper (if method = [] then "GET".toList else method)
          fields := [] } }
  else if tag ∈ ["input".toList, "textarea".toList, "select".toList] then
    match e.form with
    | none => e
    | some form =>
      if name = [] then e
      else if lower R (attributesGet R attrs "type") ∈
          ["submit".toList, "button".toList, "image".toList, "reset".toList] then e
      else
        let field := (name, attributesGet R attrs "value")
        { e with form := some { form with fields := form.fields ++ [field] } }
  else e

/-- The form that is open is described. -/
def Extractor.closeForm (e : Extractor) : Extractor :=
  { e with forms := e.forms ++ e.form.toList, form := none }

/-- The handlers. -/
def Extractor.handle (e : Extractor) : Event → Extractor
  | .startTag tag attrs => e.startTag R P tag attrs
  | .endTag tag => if tag = "form" then e.closeForm else e

/-- The links and the forms of a page. -/
def parsePage (body : Str) : Extractor :=
  let markup := P.feed body
  let e := markup.events.foldl (Extractor.handle R P) ⟨[], [], none⟩
  if markup.complete then e.closeForm else e

/-- The schemes of links that are left out. -/
def skippedSchemes : List Str :=
  ["javascript:", "mailto:", "tel:", "data:"]

/-- The target of a form. -/
def formTarget (baseUrl : Str) (form : Form) : Except Fault Target := do
  let action ← L.urljoin baseUrl (if form.action = [] then baseUrl else form.action)
  let params := form.fields.map fun field => ⟨field.1, field.2, .form⟩
  return ⟨← normalize R L action, form.method, params, true⟩

/-- **`extract`.** -/
def extract (baseUrl body : Str) : Except Fault (List Str × List Target) := do
  let page := parsePage R P body
  let hrefs := page.links.filter fun href =>
    !skippedSchemes.any fun scheme => scheme.isPrefixOf (lower R href)
  return (← hrefs.mapM (L.urljoin baseUrl), ← page.forms.mapM (formTarget R L baseUrl))

/-- **`target_for`.** -/
def targetFor (url : Str) (fromContent : Bool) : Except Fault Target := do
  let params := (parseQsl L (← urlparse R url).query).map fun kv => ⟨kv.1, kv.2, .query⟩
  return ⟨← normalize R L url, "GET", params, fromContent⟩

/-! ### The crawl -/

/-- What ends a run early: an exception of a pure call, the `RuntimeError` of the fetch that the
scanner hands to the crawler, or the fuel of the model. -/
inductive Stop
  | raised (fault : Fault)
  | requestFailed
  | outOfFuel
  deriving DecidableEq

variable {S : Type}

def lift {A : Type} (x : Except Fault A) : Effect Stop S A := .ofExcept (x.mapError .raised)

/-- What `fetch` returns of a page. -/
structure Page where
  contentType : Str
  body : Str

/-- `MAX_URL_LENGTH`. -/
def maxUrlLength : ℕ := 2000

/-- The parameters of a crawl.  `describe` is the text of an exception. -/
structure Crawler where
  authorizedHosts : List Str
  maxPages : ℤ
  maxDepth : ℤ
  describe : Stop → Str

/-- `CrawlResult`. -/
structure CrawlResult where
  targets : List Target
  outOfScope : List Str
  skippedDangerous : List Str
  pagesFetched : ℕ
  truncated : Bool
  errors : List Str

/-- The variables of a crawl. -/
structure CrawlState where
  result : CrawlResult
  seen : List Str
  queue : List (Str × ℕ)

def CrawlState.init : CrawlState := ⟨⟨[], [], [], 0, false, []⟩, [], []⟩

/-- One round of the loop over the seeds. -/
def addSeed (hosts : List Str) (c : CrawlState) (seed : Str) : Except Fault CrawlState := do
  let normalized ← normalize R L seed
  if !(← sameScope R hosts normalized) then
    return { c with result.outOfScope := c.result.outOfScope ++ [normalized] }
  else return { c with queue := c.queue ++ [(normalized, 0)], seen := normalized :: c.seen }

/-- One round of the loop over the forms of a page. -/
def addForm (hosts : List Str) (c : CrawlState) (form : Target) : Except Fault CrawlState := do
  if !(← sameScope R hosts form.url) then
    return { c with result.outOfScope := c.result.outOfScope ++ [form.url] }
  else return { c with result.targets := c.result.targets ++ [form] }

/-- One round of the loop over the links of a page. -/
def addLink (hosts : List Str) (depth : ℕ) (c : CrawlState) (link : Str) :
    Except Fault CrawlState := do
  if maxUrlLength < link.length then return c
  else
    let candidate ← normalize R L link
    let marked := { c with seen := candidate :: c.seen }
    if candidate ∈ c.seen then return c
    else if !(← sameScope R hosts candidate) then
      return { marked with result.outOfScope := c.result.outOfScope ++ [candidate] }
    else if ← isDangerous R candidate then
      return { marked with result.skippedDangerous := c.result.skippedDangerous ++ [candidate] }
    else if ← isStatic R candidate then return marked
    else return { marked with queue := c.queue ++ [(candidate, depth + 1)] }

/-- The crawler looks for links in the page. -/
def Crawler.Parses (C : Crawler) (depth : ℕ) (page : Page) : Prop :=
  depth < C.maxDepth ∧ "html" <:+: lower R page.contentType

instance (C : Crawler) (depth : ℕ) (page : Page) : Decidable (C.Parses R depth page) := by
  unfold Crawler.Parses
  infer_instance

variable (C : Crawler)

/-- What a page adds to the variables. -/
def addPage (url : Str) (depth : ℕ) (page : Page) (c : CrawlState) : Except Fault CrawlState := do
  let target ← targetFor R L url (decide (0 < depth))
  let c :=
    { c with
      result.pagesFetched := c.result.pagesFetched + 1
      result.targets := c.result.targets ++ [target] }
  if C.Parses R depth page then
    let (links, forms) ← extract R L P url page.body
    let c ← forms.foldlM (addForm R C.authorizedHosts) c
    links.foldlM (addLink R L C.authorizedHosts depth) c
  else return c

/-- One round of the loop over the queue. -/
def crawlRound (fetch : Str → ℕ → Effect Stop S Page) (c : CrawlState) :
    Effect Stop S (CrawlState ⊕ CrawlResult) :=
  match c.queue with
  | [] => return .inr c.result
  | (url, depth) :: queue => do
    if C.maxPages ≤ c.result.pagesFetched then return .inr { c.result with truncated := true }
    else
      let c := { c with queue := queue }
      match ← (fetch url depth).attempt with
      | .error e =>
        let error := url ++ ": " ++ C.describe e
        return .inl { c with result.errors := c.result.errors ++ [error] }
      | .ok page => return .inl (← lift (addPage R L P C url depth page c))

/-- **`crawl`.** -/
def crawl (fetch : Str → ℕ → Effect Stop S Page) (fuel : ℕ) (seeds : List Str) :
    Effect Stop S CrawlResult := do
  let c ← lift (seeds.foldlM (addSeed R L C.authorizedHosts) .init)
  Effect.loop .outOfFuel (crawlRound R L P C fetch) fuel c

/-! ### What a crawl ensures -/

/-- **The rules of a crawl**: what holds of an address when it is fetched, what is known of its
page then, and what holds of the targets. -/
structure CrawlRules where
  fetchable : Str → ℕ → Prop
  known : Str → ℕ → Page → Prop
  good : Target → Prop

/-- The address may be queued: it may be fetched, and its target is good. -/
def CrawlRules.Queued (rules : CrawlRules) (url : Str) (depth : ℕ) : Prop :=
  rules.fetchable url depth ∧
    ∀ target, targetFor R L url (decide (0 < depth)) = .ok target → rules.good target

/-- The link is one that the crawler queues under the address. -/
def Follows (hosts : List Str) (link candidate : Str) : Prop :=
  link.length ≤ maxUrlLength ∧ normalize R L link = .ok candidate ∧
    sameScope R hosts candidate = .ok true ∧ isDangerous R candidate = .ok false ∧
    isStatic R candidate = .ok false

/-- **The rules are sound**: a seed may be queued, and so may the links of a known page, the forms
of which are good targets. -/
structure CrawlRules.Sound (rules : CrawlRules) : Prop where
  seed : ∀ url, rules.Queued R L url 0
  forms : ∀ url depth page links forms, rules.known url depth page → C.Parses R depth page →
    extract R L P url page.body = .ok (links, forms) →
    ∀ form ∈ forms, sameScope R C.authorizedHosts form.url = .ok true → rules.good form
  links : ∀ url depth page links forms, rules.known url depth page → C.Parses R depth page →
    extract R L P url page.body = .ok (links, forms) →
    ∀ link ∈ links, ∀ candidate, Follows R L C.authorizedHosts link candidate →
      rules.Queued R L candidate (depth + 1)

theorem CrawlRules.sound (rules : CrawlRules) (hfetchable : ∀ url depth, rules.fetchable url depth)
    (hgood : ∀ target, rules.good target) : rules.Sound R L P C where
  seed url := ⟨hfetchable url 0, fun target _ => hgood target⟩
  forms _ _ _ _ _ _ _ _ form _ _ := hgood form
  links _ _ _ _ _ _ _ _ _ _ _ _ := ⟨hfetchable _ _, fun target _ => hgood target⟩

/-- The variables of a crawl keep to the rules. -/
structure CrawlRules.Kept (rules : CrawlRules) (c : CrawlState) : Prop where
  queue : ∀ q ∈ c.queue, rules.Queued R L q.1 q.2
  targets : ∀ target ∈ c.result.targets, rules.good target

variable {R L P C} {rules : CrawlRules}

variable {c c' : CrawlState} {hosts : List Str}

theorem kept_addSeed (hsound : rules.Sound R L P C) {seed : Str}
    (hc : rules.Kept R L c) (h : addSeed R L hosts c seed = .ok c') :
    rules.Kept R L c' := by
  obtain ⟨normalized, -, h⟩ := bind_eq_ok.mp h
  obtain ⟨inScope, -, h⟩ := bind_eq_ok.mp h
  by_cases hscope : inScope = true
  · rw [hscope] at h
    cases h
    exact ⟨forall_mem_append.mpr
      ⟨hc.queue, forall_mem_singleton.mpr (hsound.seed normalized)⟩, hc.targets⟩
  · rw [Bool.eq_false_of_not_eq_true hscope] at h
    cases h
    exact ⟨hc.queue, hc.targets⟩

/-- **What a form adds**: one target in scope at most. -/
theorem addForm_cases {form : Target} (h : addForm R hosts c form = .ok c') :
    c'.queue = c.queue ∧ c'.result.pagesFetched = c.result.pagesFetched ∧
      (c'.result.targets = c.result.targets ∨
        sameScope R hosts form.url = .ok true ∧
          c'.result.targets = c.result.targets ++ [form]) := by
  obtain ⟨inScope, hscope, h⟩ := bind_eq_ok.mp h
  rcases inScope with _ | _
  · cases h
    exact ⟨rfl, rfl, Or.inl rfl⟩
  · cases h
    exact ⟨rfl, rfl, Or.inr ⟨hscope, rfl⟩⟩

/-- **What a link adds**: one address that the crawler follows at most. -/
theorem addLink_cases {depth : ℕ} {link : Str} (h : addLink R L hosts depth c link = .ok c') :
    c'.result.targets = c.result.targets ∧
      c'.result.pagesFetched = c.result.pagesFetched ∧
      (c'.queue = c.queue ∨ ∃ candidate, Follows R L hosts link candidate ∧
        c'.queue = c.queue ++ [(candidate, depth + 1)]) := by
  unfold addLink at h
  by_cases hlen : maxUrlLength < link.length
  · rw [if_pos hlen] at h
    cases h
    exact ⟨rfl, rfl, Or.inl rfl⟩
  rw [if_neg hlen] at h
  obtain ⟨candidate, hcandidate, h⟩ := bind_eq_ok.mp h
  by_cases hseen : candidate ∈ c.seen
  · rw [if_pos hseen] at h
    cases h
    exact ⟨rfl, rfl, Or.inl rfl⟩
  rw [if_neg hseen] at h
  obtain ⟨inScope, hscope, h⟩ := bind_eq_ok.mp h
  rcases inScope with _ | _
  · cases h
    exact ⟨rfl, rfl, Or.inl rfl⟩
  obtain ⟨dangerous, hdangerous, h⟩ := bind_eq_ok.mp h
  rcases dangerous with _ | _
  · obtain ⟨static, hstatic, h⟩ := bind_eq_ok.mp h
    rcases static with _ | _
    · cases h
      have hfollows : Follows R L hosts link candidate :=
        ⟨by omega, hcandidate, hscope, hdangerous, hstatic⟩
      exact ⟨rfl, rfl, Or.inr ⟨candidate, hfollows, rfl⟩⟩
    · cases h
      exact ⟨rfl, rfl, Or.inl rfl⟩
  · cases h
    exact ⟨rfl, rfl, Or.inl rfl⟩

theorem kept_addForm {form : Target}
    (hform : sameScope R hosts form.url = .ok true → rules.good form) (hc : rules.Kept R L c)
    (h : addForm R hosts c form = .ok c') : rules.Kept R L c' := by
  obtain ⟨hqueue, -, htargets⟩ := addForm_cases h
  refine ⟨by rw [hqueue]; exact hc.queue, ?_⟩
  rcases htargets with htargets | ⟨hscope, htargets⟩
  · rw [htargets]
    exact hc.targets
  · rw [htargets]
    exact forall_mem_append.mpr
      ⟨hc.targets, forall_mem_singleton.mpr (hform hscope)⟩

theorem kept_addLink {depth : ℕ} {link : Str}
    (hlink : ∀ candidate, Follows R L hosts link candidate →
      rules.Queued R L candidate (depth + 1))
    (hc : rules.Kept R L c) (h : addLink R L hosts depth c link = .ok c') :
    rules.Kept R L c' := by
  obtain ⟨htargets, -, hqueue⟩ := addLink_cases h
  refine ⟨?_, by rw [htargets]; exact hc.targets⟩
  rcases hqueue with hqueue | ⟨candidate, hfollows, hqueue⟩
  · rw [hqueue]
    exact hc.queue
  · rw [hqueue]
    exact forall_mem_append.mpr
      ⟨hc.queue, forall_mem_singleton.mpr (hlink candidate hfollows)⟩

theorem kept_addPage (hsound : rules.Sound R L P C) {url : Str} {depth : ℕ} {page : Page}
    (hqueued : rules.Queued R L url depth)
    (hknown : rules.known url depth page) (hc : rules.Kept R L c)
    (h : addPage R L P C url depth page c = .ok c') : rules.Kept R L c' := by
  obtain ⟨target, htarget, h⟩ := bind_eq_ok.mp h
  have hadd : rules.Kept R L
      { c with
        result.pagesFetched := c.result.pagesFetched + 1
        result.targets := c.result.targets ++ [target] } :=
    ⟨hc.queue, forall_mem_append.mpr
      ⟨hc.targets, forall_mem_singleton.mpr (hqueued.2 target htarget)⟩⟩
  by_cases hparses : C.Parses R depth page
  · rw [if_pos hparses] at h
    obtain ⟨⟨links, forms⟩, hextract, h⟩ := bind_eq_ok.mp h
    obtain ⟨c₂, hforms, hlinks⟩ := bind_eq_ok.mp h
    have hc₂ : rules.Kept R L c₂ :=
      of_foldlM (fun form hform _ _ hb => kept_addForm
        (hsound.forms url depth page links forms hknown hparses hextract form hform) hb)
        hadd hforms
    exact of_foldlM (fun link hlink _ _ hb => kept_addLink
      (hsound.links url depth page links forms hknown hparses hextract link hlink) hb) hc₂ hlinks
  · rw [if_neg hparses] at h
    cases h
    exact hadd

theorem pagesFetched_addPage {url : Str} {depth : ℕ} {page : Page}
    (h : addPage R L P C url depth page c = .ok c') :
    c'.result.pagesFetched = c.result.pagesFetched + 1 := by
  obtain ⟨target, -, h⟩ := bind_eq_ok.mp h
  by_cases hparses : C.Parses R depth page
  · rw [if_pos hparses] at h
    obtain ⟨⟨links, forms⟩, -, h⟩ := bind_eq_ok.mp h
    obtain ⟨c₂, hforms, hlinks⟩ := bind_eq_ok.mp h
    have hc₂ : c₂.result.pagesFetched = c.result.pagesFetched + 1 :=
      of_foldlM (P := fun b => b.result.pagesFetched = c.result.pagesFetched + 1)
        (fun _ _ _ _ hb hstep => (addForm_cases hstep).2.1.trans hb) rfl hforms
    exact of_foldlM (P := fun b => b.result.pagesFetched = c.result.pagesFetched + 1)
      (fun _ _ _ _ hb hstep => (addLink_cases hstep).2.1.trans hb) hc₂ hlinks
  · rw [if_neg hparses] at h
    cases h
    rfl

/-- What a round that goes on makes smaller: the pages to come, then the queue. -/
def CrawlState.measure (C : Crawler) (c : CrawlState) : ℕ ×ₗ ℕ :=
  toLex ((C.maxPages - c.result.pagesFetched).toNat, c.queue.length)

section Contract

variable {K : Contract Stop S} {fetch : Str → ℕ → Effect Stop S Page}

theorem ensures_lift {A : Type} {pre : Prop} {Q : A → Prop} {x : Except Fault A}
    (hraised : ∀ fault, K.raises (.raised fault)) (h : pre → ∀ a, x = .ok a → Q a) :
    Ensures K pre (lift x) Q := by
  refine ensures_ofExcept (fun e he => ?_) fun hp a ha => ?_
  · rcases x with fault | a
    · cases he
      exact hraised fault
    · cases he
  · rcases x with fault | b
    · cases ha
    · cases ha
      exact h hp a rfl

/-- **One round** keeps to the rules, and makes the measure smaller if the crawl goes on. -/
theorem ensures_crawlRound (hsound : rules.Sound R L P C)
    (hraised : ∀ fault, K.raises (.raised fault))
    (hfetch : ∀ url depth, Ensures K (rules.fetchable url depth) (fetch url depth)
      (rules.known url depth)) (c : CrawlState) :
    Ensures K (rules.Kept R L c) (crawlRound R L P C fetch c) fun x =>
      (∀ c', x = .inl c' → rules.Kept R L c' ∧ c'.measure C < c.measure C) ∧
        ∀ result, x = .inr result → ∀ target ∈ result.targets, rules.good target := by
  rcases hqueue : c.queue with _ | ⟨⟨url, depth⟩, queue⟩
  · rw [crawlRound, hqueue]
    refine ensures_pure fun hc => ⟨(fun _ hx => nomatch hx), fun r hr => ?_⟩
    cases hr
    exact hc.targets
  rw [crawlRound, hqueue]
  refine ensures_ite (fun _ => ensures_pure fun hc =>
    ⟨(fun _ hx => nomatch hx), fun r hr => by cases hr; exact hc.targets⟩) fun hmax => ?_
  have hrest : rules.Kept R L c → rules.Kept R L { c with queue := queue } := fun hc =>
    ⟨fun q hq => hc.queue q (by rw [hqueue]; exact mem_cons_of_mem _ hq), hc.targets⟩
  have hhead : rules.Kept R L c → rules.Queued R L url depth := fun hc =>
    hc.queue (url, depth) (by rw [hqueue]; exact mem_cons_self)
  have hpage : Ensures K (rules.Kept R L c) (fetch url depth).attempt fun x =>
      ∀ page, x = .ok page → rules.known url depth page :=
    (hfetch url depth).attempt.mono_pre fun hc => (hhead hc).1
  refine hpage.bind fun x => ?_
  rcases x with e | page
  · refine ensures_pure fun hc => ⟨fun c' hc' => ?_, (fun _ hx => nomatch hx)⟩
    cases hc'
    refine ⟨⟨(hrest hc.1).queue, hc.1.targets⟩, Prod.Lex.toLex_lt_toLex.mpr (Or.inr ⟨rfl, ?_⟩)⟩
    rw [hqueue]
    exact Nat.lt_succ_self _
  · refine (ensures_lift (Q := fun c' => rules.Kept R L c' ∧ c'.measure C < c.measure C) hraised
      fun hc c' hc' => ?_).bind fun c' => ensures_pure fun hc' =>
        ⟨fun c'' hc'' => by cases hc''; exact hc'.2, (fun _ hx => nomatch hx)⟩
    obtain ⟨hkept, hknown⟩ := hc
    refine ⟨kept_addPage hsound (hhead hkept) (hknown page rfl) (hrest hkept) hc',
      Prod.Lex.toLex_lt_toLex.mpr (Or.inl ?_)⟩
    have hcount := pagesFetched_addPage hc'
    simp only at hcount ⊢
    omega

/-- **A crawl** keeps to its rules. -/
theorem ensures_crawl (hsound : rules.Sound R L P C)
    (hraised : ∀ fault, K.raises (.raised fault)) (hout : K.raises .outOfFuel)
    (hfetch : ∀ url depth, Ensures K (rules.fetchable url depth) (fetch url depth)
      (rules.known url depth)) (fuel : ℕ) (seeds : List Str) :
    Ensures K True (crawl R L P C fetch fuel seeds) fun result =>
      ∀ target ∈ result.targets, rules.good target := by
  have hinit : rules.Kept R L .init := ⟨(fun _ hq => nomatch hq), (fun _ ht => nomatch ht)⟩
  refine (ensures_lift (Q := rules.Kept R L) hraised fun _ c hc =>
    of_foldlM (fun _ _ _ _ hb => kept_addSeed hsound hb) hinit hc).bind fun c => ?_
  have hloop := ensures_loop hout (fun c => (ensures_crawlRound hsound hraised hfetch c).weaken
    (fun hc => hc) fun x hx => ⟨fun c' hc' => (hx.1 c' hc').1, hx.2⟩) fuel c
  exact hloop.mono_pre fun hc => hc.2

end Contract

/-! ### A crawl ends -/

def CrawlRules.any : CrawlRules := ⟨fun _ _ => True, fun _ _ _ => True, fun _ => True⟩

/-- The contract of the computations that do not run out of fuel. -/
def Stop.ends : Contract Stop S := ⟨(· ≠ .outOfFuel), fun _ => False, fun _ => True⟩

/-- **A crawl ends** when each of its fetches does: from some fuel on, more fuel changes nothing. -/
theorem exists_fuel_crawl {fetch : Str → ℕ → Effect Stop S Page}
    (hfetch : ∀ url depth, Ensures Stop.ends True (fetch url depth) fun _ => True)
    (seeds : List Str) (s : S) :
    ∃ n, ∀ k, n ≤ k →
      crawl R L P C fetch k seeds s = crawl R L P C fetch n seeds s ∧
        (crawl R L P C fetch n seeds s).1 ≠ .error .outOfFuel := by
  have hround := ensures_crawlRound (K := Stop.ends) (R := R) (L := L) (P := P) (C := C)
    (CrawlRules.any.sound R L P C (fun _ _ => trivial) fun _ => trivial)
    (fun _ he => by cases he) hfetch
  have hkept : ∀ c : CrawlState, CrawlRules.any.Kept R L c := fun c =>
    ⟨fun _ _ => ⟨trivial, fun _ _ => trivial⟩, fun _ _ => trivial⟩
  have hseeds : ∀ k, crawl R L P C fetch k seeds s =
      match seeds.foldlM (addSeed R L C.authorizedHosts) CrawlState.init with
      | .error fault => (.error (.raised fault), s)
      | .ok c => Effect.loop .outOfFuel (crawlRound R L P C fetch) k c s := by
    intro k
    rw [crawl, Effect.bind_apply]
    rcases seeds.foldlM (addSeed R L C.authorizedHosts) CrawlState.init with fault | c <;> rfl
  rcases hc : seeds.foldlM (addSeed R L C.authorizedHosts) CrawlState.init with fault | c
  · refine ⟨0, fun k _ => ?_⟩
    rw [hseeds k, hseeds 0, hc]
    exact ⟨rfl, fun he => by cases he⟩
  · obtain ⟨n, hn⟩ := exists_fuel wellFounded_lt (CrawlState.measure C)
      (fun c s c' s' hrun => by
        rcases (hround c).keep (hkept c) s trivial with hf | ⟨-, hvalue⟩
        · exact hf.elim
        · exact ((hvalue _ (by rw [hrun])).1 c' rfl).2)
      (fun c s he => (hround c).raises s _ he rfl) c s
    refine ⟨n, fun k hk => ?_⟩
    rw [hseeds k, hseeds n, hc]
    exact hn k hk

end Guardian.Dast
