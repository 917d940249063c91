import Guardian.Apisec.Engine
import Guardian.Authorization.Evaluator

/-!
# Where an active run of the API engine sends its requests

The gate clears the asset for the host that it reads in the identifier.  The run sends its requests
to the base URL: the identifier, if it is a full URL, or else the first server of the document.
`confined_iff` says when all of them go to the host that was cleared.
-/

namespace Guardian.Apisec

open Python Transition Authorization Guardian.Order Dast List

variable (R : Runtime)

/-! ### The host of a request -/

/-- **The request goes to the host**, or to a subdomain of it. -/
def GoesTo (host url : Str) : Prop :=
  ∃ p, urlparse R url = .ok p ∧
    Within '.' (hostKey R host) (hostKey R ((p.hostname R).getD []))

/-- The host of a network location. -/
def authorityHost (netloc : Str) : Str :=
  (UrlParts.hostname R ⟨[], netloc, [], [], [], []⟩).getD []

variable {R}

theorem goesTo_iff {host url : Str} :
    GoesTo R host url ↔ ∃ scheme netloc, urlOrigin R url = .ok (scheme, netloc) ∧
      Within '.' (hostKey R host) (hostKey R (authorityHost R netloc)) := by
  constructor
  · rintro ⟨p, hp, hwithin⟩
    exact ⟨p.scheme, p.netloc, map_eq_ok.mpr ⟨p, hp, rfl⟩, hwithin⟩
  · rintro ⟨scheme, netloc, horigin, hwithin⟩
    obtain ⟨p, hp, heq⟩ := map_eq_ok.mp horigin
    cases heq
    exact ⟨p, hp, hwithin⟩

theorem netloc_ne_nil {host netloc : Str} (hhost : hostKey R host ≠ [])
    (h : Within '.' (hostKey R host) (hostKey R (authorityHost R netloc))) : netloc ≠ [] := by
  rintro rfl
  exact hhost (suffix_nil.mp (suffix_of_within h))

theorem slashes_of_origin {url scheme netloc : Str} (h : urlOrigin R url = .ok (scheme, netloc))
    (hne : netloc ≠ []) : "//" <+: (splitScheme R (cleanUrl url)).2 := by
  by_contra hslashes
  rw [urlOrigin_eq, (splitNetloc_of_not_isPrefix hslashes).1] at h
  obtain ⟨netloc', hcheck, heq⟩ := map_eq_ok.mp h
  cases heq
  exact hne (checkNetloc_eq hcheck)

theorem GoesTo.append {host url path : Str} (hhost : hostKey R host ≠ [])
    (h : GoesTo R host url) : GoesTo R host (url ++ '/' :: path) := by
  obtain ⟨scheme, netloc, horigin, hwithin⟩ := goesTo_iff.mp h
  have hslashes := slashes_of_origin horigin (netloc_ne_nil hhost hwithin)
  exact goesTo_iff.mpr ⟨scheme, netloc, (urlOrigin_append hslashes rfl).trans horigin, hwithin⟩

/-! ### The base of the probes -/

theorem isScheme_http : IsScheme R "http" :=
  ⟨by decide, by decide, lower_of_ascii (by decide)⟩

theorem isScheme_https : IsScheme R "https" :=
  ⟨by decide, by decide, lower_of_ascii (by decide)⟩

theorem exists_of_fullUrl {base : Str} (h : ApiEngine.FullUrl base) :
    ∃ scheme w, IsScheme R scheme ∧ base = scheme ++ ':' :: '/' :: '/' :: w := by
  rcases h with ⟨w, rfl⟩ | ⟨w, rfl⟩
  · exact ⟨_, w, isScheme_http, rfl⟩
  · exact ⟨_, w, isScheme_https, rfl⟩

theorem rstripChar_fullUrl {scheme w : Str} :
    rstripChar '/' (scheme ++ ':' :: '/' :: '/' :: w) =
      if rstripChar '/' w = [] then scheme ++ [':']
      else scheme ++ ':' :: '/' :: '/' :: rstripChar '/' w := by
  have happend : scheme ++ ':' :: '/' :: '/' :: w = (scheme ++ [':', '/', '/']) ++ w := by simp
  rw [happend, rstripChar_append]
  split_ifs with hw
  · have hcolon : rstripChar '/' (scheme ++ [':', '/', '/']) = scheme ++ [':'] := by
      rw [rstripChar_append, if_neg (by decide)]
      rfl
    exact hcolon
  · simp

/-- **A probe goes where the base goes**, if its path cannot be read as a network location. -/
theorem goesTo_of_append {host base path : Str} (hfull : ApiEngine.FullUrl base)
    (hhost : hostKey R host ≠ []) (hpath : splitNetloc (('/' :: path).filter (!isUnsafe ·)) = [])
    (h : GoesTo R host (rstripChar '/' base ++ '/' :: path)) :
    GoesTo R host (rstripChar '/' base) := by
  obtain ⟨scheme, w, hscheme, rfl⟩ := exists_of_fullUrl (R := R) hfull
  rw [rstripChar_fullUrl] at h ⊢
  obtain ⟨scheme', netloc, horigin, hwithin⟩ := goesTo_iff.mp h
  by_cases hw : rstripChar '/' w = []
  · rw [if_pos hw, append_assoc] at horigin
    change urlOrigin R (scheme ++ ':' :: '/' :: path) = _ at horigin
    rw [urlOrigin_eq, splitScheme_cleanUrl hscheme, hpath] at horigin
    obtain ⟨netloc', hcheck, heq⟩ := map_eq_ok.mp horigin
    cases heq
    exact absurd (checkNetloc_eq hcheck) (netloc_ne_nil hhost hwithin)
  · rw [if_neg hw] at horigin ⊢
    refine goesTo_iff.mpr ⟨scheme', netloc, ?_, hwithin⟩
    rw [← horigin]
    refine (urlOrigin_append ?_ rfl).symm
    rw [splitScheme_cleanUrl hscheme]
    exact ⟨_, rfl⟩

/-! ### The scope test -/

variable {engine : ApiEngine} {checker : ApiEngine.Checker}

/-- **A URL under a base with a host** has its scheme and its network location. -/
theorem urlOrigin_under {root path : Str} {p : UrlParts} (hp : urlparse R root = .ok p)
    (hhost : lower R ((p.hostname R).getD []) ≠ []) :
    urlOrigin R (root ++ '/' :: path) = .ok (p.scheme, p.netloc) := by
  have hnetloc : p.netloc ≠ [] := by
    intro hnil
    have hnone : p.hostname R = none := by
      unfold UrlParts.hostname
      rw [hnil]
      rfl
    rw [hnone] at hhost
    exact hhost rfl
  have horigin : urlOrigin R root = .ok (p.scheme, p.netloc) := map_eq_ok.mpr ⟨p, hp, rfl⟩
  exact (urlOrigin_append (slashes_of_origin horigin hnetloc) rfl).trans horigin

/-- **The scope test of a URL under the base** is a test of the scheme of the base. -/
theorem inScope_append {root path : Str} {p : UrlParts}
    (hp : urlparse engine.runtime root = .ok p)
    (hhost : checker.host = lower engine.runtime ((p.hostname engine.runtime).getD []))
    (hne : checker.host ≠ []) :
    engine.inScope checker (root ++ '/' :: path) =
      .ok (decide (p.scheme = "http" ∨ p.scheme = "https")) := by
  obtain ⟨q, hq, heq⟩ := map_eq_ok.mp (urlOrigin_under hp (hhost ▸ hne))
  have hhostname : q.hostname engine.runtime = p.hostname engine.runtime := by
    unfold UrlParts.hostname
    rw [show q.netloc = p.netloc from congrArg Prod.snd heq]
  unfold ApiEngine.inScope
  rw [hq]
  show Except.ok _ = _
  rw [hhostname, ← hhost, show q.scheme = p.scheme from congrArg Prod.fst heq,
    decide_eq_true hne, decide_eq_true (within_refl checker.host), Bool.and_true, Bool.and_true]

theorem host_ne_nil_of_inScope {url : Str} (h : engine.inScope checker url = .ok true) :
    checker.host ≠ [] := by
  obtain ⟨q, -, h⟩ := bind_eq_ok.mp h
  have hboth := Bool.and_eq_true_iff.mp (Except.ok.inj h)
  exact of_decide_eq_true (Bool.and_eq_true_iff.mp hboth.1).2

/-! ### What a run ensures -/

section Ensures

variable {reached : List (Fetch Phase) → Prop} {G : Str → Prop} {pre : Prop}

/-- What the scope test lets through under the base is in `G`. -/
def Lets (engine : ApiEngine) (checker : ApiEngine.Checker) (G : Str → Prop) : Prop :=
  ∀ path, engine.inScope checker (rstripChar '/' checker.base ++ '/' :: path) = .ok true →
    G (rstripChar '/' checker.base ++ '/' :: path)

/-- The contract of a run: what has been reached stays reached, and each request is in `G`. -/
def contract (reached : List (Fetch Phase) → Prop) (G : Str → Prop) : Contract Stop ApiState :=
  ⟨fun _ => True, fun s => reached s.wire.log, fun s => ∀ f ∈ s.wire.log, G f.url⟩

theorem ensures_change {f : ApiState → ApiState} (hf : ∀ s, (f s).wire.log = s.wire.log) :
    Ensures (contract reached G) pre (.update f : Run Unit) fun _ => True :=
  ensures_update (fun s hs => show reached (f s).wire.log by rw [hf]; exact hs)
    fun s hs => show ∀ g ∈ (f s).wire.log, G g.url by rw [hf]; exact hs

theorem ensures_done : Ensures (contract reached G) pre (pure () : Run Unit) fun _ => True :=
  ensures_pure fun _ => trivial

theorem ensures_look {A : Type} {f : ApiState → A} :
    Ensures (contract reached G) pre (.read f : Run A) fun _ => True :=
  ensures_read fun _ _ _ => trivial

theorem ensures_readClock :
    Ensures (contract reached G) pre engine.readClock fun _ => True :=
  ⟨fun _ _ _ => trivial, fun _ hs => hs, fun _ _ hs => Or.inr ⟨hs, fun _ _ => trivial⟩⟩

theorem ensures_pureCall {A : Type} {x : Except Fault A} :
    Ensures (contract reached G) pre (lift x : Run A) fun a => x = .ok a :=
  ensures_lift (fun _ => trivial) fun _ _ ha => ha

theorem ensures_spend : Ensures (contract reached G) pre engine.spend fun _ => True := by
  refine ensures_look.bind fun made =>
    ensures_ite (fun _ => ensures_pure fun _ => trivial) fun _ => ?_
  refine ensures_readClock.bind fun now => ensures_look.bind fun start =>
    ensures_ite (fun _ => ensures_pure fun _ => trivial) fun _ => ?_
  exact (ensures_change fun _ => by rfl).bind fun _ => ensures_pure fun _ => trivial

theorem ensures_take {checker : ApiEngine.Checker} :
    Ensures (contract reached G) pre (engine.take checker) fun _ => True := by
  refine ensures_readClock.bind fun now => ensures_look.bind fun taken => ?_
  exact (ensures_change fun _ => by rfl).bind fun _ => ensures_pure fun _ => trivial

variable (hmono : ∀ f log, reached log → reached (f :: log))
include hmono

theorem ensures_fetch {url : Str} {headers : Headers} {phase : Phase} (hG : pre → G url) :
    Ensures (contract reached G) pre (engine.fetch url headers phase) fun _ => True :=
  ⟨fun _ _ _ => trivial, fun s hs => hmono _ s.wire.log hs,
    fun hp _ hs => Or.inr ⟨forall_mem_cons.mpr ⟨hG hp, hs⟩, fun _ _ => trivial⟩⟩

theorem ensures_probe {url : Str} {headers : Headers} (hG : pre → G url) :
    Ensures (contract reached G) pre (engine.probe url headers) fun _ => True := by
  refine (ensures_fetch hmono hG).bind fun outcome => ?_
  rcases outcome with error | _ | r
  · exact ensures_ofExcept (fun _ _ => trivial) fun _ _ _ => trivial
  · exact ensures_done
  · exact ensures_done

/-- **The probes of the word list** are appended to the base. -/
theorem ensures_probeWordlist {root : Str} (hG : pre → ∀ path, G (root ++ '/' :: path))
    (documented paths : List Str) :
    Ensures (contract reached G) pre (engine.probeWordlist root documented paths)
      fun _ => True := by
  induction paths generalizing pre with
  | nil => exact ensures_done
  | cons path paths ih =>
    refine ensures_ite (fun _ => ih hG) fun _ => ensures_spend.bind fun granted =>
      ensures_ite (fun _ => ensures_done) fun _ => ?_
    exact (ensures_probe hmono fun hp => hG hp.1 path).bind fun _ => ih fun hp => hG hp.1.1

omit hmono in
theorem urlOf_eq {server url : Str} {operation : Operation} {values : Values}
    (h : engine.urlOf server operation values = some url) :
    ∃ path, url = rstripChar '/' server ++ '/' :: path := by
  unfold ApiEngine.urlOf buildUrl at h
  obtain ⟨path, -, h⟩ := Option.bind_eq_some_iff.mp h
  dsimp only at h
  split_ifs at h
  · exact ⟨_, (Option.some.inj h).symm⟩
  · refine ⟨path.dropWhile (· == '/') ++ '?' :: urlencode engine.urls (queryOf operation values),
      ?_⟩
    rw [← Option.some.inj h]
    simp

theorem ensures_probeAuth {base : Str} (hG : pre → ∀ path, G (rstripChar '/' base ++ '/' :: path))
    (probed : ℕ) (operations : List Operation) :
    Ensures (contract reached G) pre (engine.probeAuth base probed operations) fun _ => True := by
  induction operations generalizing pre probed with
  | nil => exact ensures_done
  | cons operation operations ih =>
    refine ensures_ite (fun _ => ih hG _) fun _ => ensures_ite (fun _ => ensures_done) fun _ => ?_
    rcases hurl : engine.urlOf base operation (ApiEngine.exampleValues operation) with _ | url
    · exact ih hG _
    · obtain ⟨path, rfl⟩ := urlOf_eq hurl
      refine ensures_spend.bind fun granted => ensures_ite (fun _ => ensures_done) fun _ => ?_
      exact (ensures_probe hmono fun hp => hG hp.1 path).bind fun _ => ih (fun hp => hG hp.1.1) _

theorem ensures_probeCors {base : Str} (hG : pre → ∀ path, G (rstripChar '/' base ++ '/' :: path))
    (seen : List Str) (probed : ℕ) (operations : List Operation) :
    Ensures (contract reached G) pre (engine.probeCors base seen probed operations)
      fun _ => True := by
  induction operations generalizing pre seen probed with
  | nil => exact ensures_done
  | cons operation operations ih =>
    refine ensures_ite (fun _ => ih hG _ _) fun _ => ensures_ite (fun _ => ensures_done) fun _ => ?_
    rcases hurl : engine.urlOf base operation (ApiEngine.exampleValues operation) with _ | url
    · exact ih hG _ _
    · obtain ⟨path, rfl⟩ := urlOf_eq hurl
      refine ensures_ite (fun _ => ih hG _ _) fun _ => ensures_spend.bind fun granted =>
        ensures_ite (fun _ => ensures_done) fun _ => ?_
      exact (ensures_probe hmono fun hp => hG hp.1 path).bind fun _ => ih (fun hp => hG hp.1.1) _ _

/-- **`probe_surface`** sends to texts that are appended to the base. -/
theorem ensures_probeSurface {base : Str}
    (hG : pre → ApiEngine.FullUrl base → ∀ path, G (rstripChar '/' base ++ '/' :: path))
    (spec : Spec) :
    Ensures (contract reached G) pre (engine.probeSurface base spec) fun _ => True := by
  refine ensures_ite (fun _ => ensures_done) fun hfull => ensures_readClock.bind fun now =>
    (ensures_change fun _ => by rfl).bind fun _ => ?_
  rw [not_not] at hfull
  have hroot := fun hp : (pre ∧ True) ∧ True => hG hp.1.1 hfull
  refine (ensures_probeWordlist hmono hroot _ _).bind fun _ => ?_
  refine (ensures_probeAuth hmono (fun hp => hroot hp.1) 0 _).bind fun _ => ?_
  exact ensures_probeCors hmono (fun hp => hroot hp.1.1) [] 0 _

/-! ### What the checks ensure -/

omit hmono in
theorem ensures_addError {error : Str} :
    Ensures (contract reached G) pre (ApiEngine.addError error) fun _ => True :=
  ensures_change fun _ => by rfl

/-- **`_request`** sends to what passes the scope test. -/
theorem ensures_request (hG : pre → Lets engine checker G) {url : Str}
    (hurl : ∃ path, url = rstripChar '/' checker.base ++ '/' :: path) {headers : Headers} :
    Ensures (contract reached G) pre (engine.request checker url headers) fun _ => True := by
  obtain ⟨path, rfl⟩ := hurl
  refine ensures_pureCall.bind fun inScope => ensures_ite (fun _ => ?_) fun hscope => ?_
  · exact ensures_addError.bind fun _ => ensures_pure fun _ => trivial
  rw [Bool.not_eq_false] at hscope
  refine ensures_take.bind fun granted => ensures_ite (fun _ => ?_) fun _ => ?_
  · exact (ensures_change fun _ => by rfl).bind fun _ => ensures_pure fun _ => trivial
  refine (ensures_fetch hmono fun hp => hG hp.1.1 path (hscope ▸ hp.1.2)).bind fun outcome => ?_
  rcases outcome with error | _ | r
  · exact ensures_addError.bind fun _ => ensures_pure fun _ => trivial
  · exact ensures_addError.bind fun _ => ensures_pure fun _ => trivial
  · refine ensures_ite (fun _ => ?_) fun _ => ?_
    · exact ensures_addError.bind fun _ => ensures_pure fun _ => trivial
    · exact (ensures_change fun _ => by rfl).bind fun _ => ensures_pure fun _ => trivial

theorem ensures_checkObjects (hG : pre → Lets engine checker G) (operation : Operation)
    (attacker owner : Principal) (parameters : List Parameter) :
    Ensures (contract reached G) pre
      (engine.checkObjects checker operation attacker owner parameters) fun _ => True := by
  induction parameters generalizing pre with
  | nil => exact ensures_done
  | cons parameter parameters ih =>
    unfold ApiEngine.checkObjects
    rcases owner.objectIds.lookup parameter.name with _ | owned
    · exact ih hG
    dsimp only
    split
    · exact ih hG
    next url hurl =>
    refine (ensures_change fun _ => by rfl).bind fun _ => ?_
    have hanswer := fun hp : pre ∧ True => hG hp.1
    refine (ensures_request hmono hanswer (urlOf_eq hurl)).bind fun answer => ?_
    rcases answer with _ | r
    · exact ih fun hp => hanswer hp.1
    refine ensures_ite (fun _ => ih fun hp => hanswer hp.1) fun _ => ?_
    have howner := fun hp : (pre ∧ True) ∧ True => hanswer hp.1
    refine (ensures_request hmono howner (urlOf_eq hurl)).bind fun _ => ?_
    split
    · exact ih fun hp => howner hp.1
    next controlUrl hcontrol =>
    have hcheck := fun hp : ((pre ∧ True) ∧ True) ∧ True => howner hp.1
    refine (ensures_request hmono hcheck (urlOf_eq hcontrol)).bind fun _ => ?_
    exact ih fun hp => hcheck hp.1

theorem ensures_checkUnauthenticated (hG : pre → Lets engine checker G) (operation : Operation)
    {url : Str} (hurl : ∃ path, url = rstripChar '/' checker.base ++ '/' :: path) :
    Ensures (contract reached G) pre (engine.checkUnauthenticated checker operation url)
      fun _ => True :=
  ensures_ite (fun _ => ensures_done) fun _ =>
    (ensures_request hmono hG hurl).bind fun _ => ensures_done

theorem ensures_checkBola (hG : pre → Lets engine checker G)
    (principals : List Principal) (operation : Operation) :
    Ensures (contract reached G) pre (engine.checkBola checker principals operation)
      fun _ => True := by
  rcases principals with _ | ⟨attacker, _ | ⟨owner, principals⟩⟩
  · exact ensures_done
  · exact ensures_done
  · exact ensures_checkObjects hmono hG operation attacker owner _

theorem ensures_checkBfla (hG : pre → Lets engine checker G) (principals : List Principal)
    (operation : Operation) :
    Ensures (contract reached G) pre (engine.checkBfla checker principals operation)
      fun _ => True := by
  unfold ApiEngine.checkBfla
  refine ensures_ite (fun _ => ensures_done) fun _ => ?_
  split
  · exact ensures_done
  split
  · exact ensures_done
  next url hurl =>
  refine (ensures_request hmono hG (urlOf_eq hurl)).bind fun answer => ?_
  rcases answer with _ | r
  · exact ensures_done
  dsimp only
  split
  · exact ensures_done
  · have hanswer := fun hp : pre ∧ True => hG hp.1
    exact (ensures_request hmono hanswer (urlOf_eq hurl)).bind fun _ => ensures_done

theorem ensures_testOperation (hG : pre → Lets engine checker G) (principals : List Principal)
    (operation : Operation) :
    Ensures (contract reached G) pre (engine.testOperation checker principals operation)
      fun _ => True := by
  unfold ApiEngine.testOperation
  dsimp only
  split
  · exact ensures_done
  next url hurl =>
  refine (ensures_change fun _ => by rfl).bind fun _ => ?_
  have hanswer := fun hp : pre ∧ True => hG hp.1
  refine (ensures_request hmono hanswer (urlOf_eq hurl)).bind fun answer => ?_
  rcases answer with _ | r
  · exact ensures_done
  have hrest := fun hp : (pre ∧ True) ∧ True => hanswer hp.1
  refine (ensures_checkUnauthenticated hmono hrest operation (urlOf_eq hurl)).bind fun _ => ?_
  refine (ensures_checkBola hmono (fun hp => hrest hp.1) principals operation).bind fun _ => ?_
  exact ensures_checkBfla hmono (fun hp => hrest hp.1.1) principals operation

theorem ensures_testOperations (hG : pre → Lets engine checker G)
    (principals : List Principal) (operations : List Operation) :
    Ensures (contract reached G) pre (engine.testOperations checker principals operations)
      fun _ => True := by
  induction operations generalizing pre with
  | nil => exact ensures_done
  | cons operation operations ih =>
    refine (ensures_testOperation hmono hG principals operation).bind fun _ =>
      ensures_look.bind fun stop => ensures_ite (fun _ => ?_) fun _ => ih fun hp => hG hp.1.1
    exact ensures_change fun _ => by rfl

/-- **The scan** sends to what passes the scope test. -/
theorem ensures_scan (hG : pre → Lets engine checker G)
    (principals : List Principal) (spec : Spec) :
    Ensures (contract reached G) pre (engine.scan checker principals spec) fun _ => True := by
  have huntested : ∀ {pre reason},
      Ensures (contract reached G) pre (ApiEngine.addUntested reason) fun _ => True :=
    ensures_change fun _ => by rfl
  refine ensures_ite (fun _ => ensures_addError) fun _ => ?_
  refine ensures_ite (fun _ => huntested.bind fun _ => ?_) fun _ => ?_
  · exact (ensures_testOperations hmono (fun hp => hG hp.1) principals _).bind fun _ =>
      ensures_ite (fun _ => huntested) fun _ => ensures_done
  · exact (ensures_testOperations hmono hG principals _).bind fun _ =>
      ensures_ite (fun _ => huntested) fun _ => ensures_done

/-- The scanner of a run sends to the base. -/
structure CheckerOf (engine : ApiEngine) (root : Str) (checker : ApiEngine.Checker) (p : UrlParts) :
    Prop where
  parse : urlparse engine.runtime root = .ok p
  base : checker.base = root
  host : checker.host = lower engine.runtime ((p.hostname engine.runtime).getD [])

omit hmono in
theorem ensures_newChecker {baseUrl : Str} {spec : Spec} (hbase : baseUrl ≠ []) :
    Ensures (contract reached G) pre (engine.newChecker baseUrl spec) fun checker =>
      ∃ p, CheckerOf engine (rstripChar '/' baseUrl) checker p := by
  unfold ApiEngine.newChecker
  rw [if_neg hbase]
  exact ensures_pureCall.bind fun p => ensures_readClock.bind fun _ =>
    ensures_pure fun hp => ⟨p, hp.1.2, rfl, rfl⟩

/-- **A run** sends to texts that are appended to the base: in the probes if the base is a full URL,
and in the checks if they pass the scope test. -/
theorem ensures_active {identifier : Str} {spec : Spec} {principals : List Principal}
    {base : Str} (hof : ApiEngine.baseOf identifier spec = base)
    (hprobe : ApiEngine.FullUrl base → ∀ path, G (rstripChar '/' base ++ '/' :: path))
    (hcheck : ∀ checker p, CheckerOf engine (rstripChar '/' base) checker p →
      Lets engine checker G) :
    Ensures (contract reached G) True (engine.active identifier principals spec)
      fun _ => True := by
  unfold ApiEngine.active
  rw [hof]
  refine ensures_ite (fun _ => ensures_done) fun hbase => ?_
  refine (ensures_probeSurface hmono (fun _ => hprobe) spec).bind fun _ => ?_
  refine ensures_ite (fun _ => ensures_done) fun _ =>
    (ensures_newChecker hbase).bind fun checker => ?_
  refine ensures_scan hmono (fun hp => ?_) principals spec
  obtain ⟨p, hchecker⟩ := hp.2
  exact hcheck checker p hchecker

end Ensures

/-! ### When requests are sent at all -/

/-- **Requests are sent to the base**: the probes want it to begin with one of two schemes, and the
checks want `urlparse` to read one of them in it, and a host. -/
def Sends (R : Runtime) (base : Str) : Prop :=
  ApiEngine.FullUrl base ∨ ∃ p, urlparse R (rstripChar '/' base) = .ok p ∧
    (p.scheme = "http" ∨ p.scheme = "https") ∧
    lower R ((p.hostname R).getD []) ≠ []

theorem Sends.ne_nil {base : Str} (h : Sends R base) : base ≠ [] := by
  rintro rfl
  rcases h with hfull | ⟨p, hp, hscheme, -⟩
  · revert hfull
    decide
  · cases hp
    revert hscheme
    decide

/-- **A run whose base goes to the host** sends every request to it. -/
theorem run_goesTo {identifier host base : Str} {document : Doc}
    (hhost : hostKey engine.runtime host ≠ [])
    (hsends : Sends engine.runtime base → GoesTo engine.runtime host (rstripChar '/' base))
    (hof : ∀ spec, parse engine.runtime engine.library.repr document = some spec →
      ApiEngine.baseOf identifier spec = base) (principals : List Principal) (now : ℚ) :
    ∀ f ∈ (engine.run identifier document principals now).wire.log,
      GoesTo engine.runtime host f.url := by
  have hinit : ∀ f ∈ (ApiState.init now).wire.log, GoesTo engine.runtime host f.url :=
    fun _ hf => by cases hf
  unfold ApiEngine.run
  split
  · split
    · exact hinit
    next spec hparse =>
    have hactive : Ensures (contract (fun _ => False) (GoesTo engine.runtime host)) True
        (engine.active identifier principals spec) fun _ => True := by
      refine ensures_active (fun _ _ h => h) (hof spec hparse)
        (fun hfull path => (hsends (Or.inl hfull)).append hhost)
        fun checker p hchecker path hscope => ?_
      obtain ⟨hp, hbase, hcheckerhost⟩ := hchecker
      have hne := host_ne_nil_of_inScope hscope
      rw [hbase, rstripChar_rstripChar] at hscope ⊢
      rw [inScope_append hp hcheckerhost hne] at hscope
      have hscheme := of_decide_eq_true (Except.ok.inj hscope)
      rw [hcheckerhost] at hne
      exact (hsends (Or.inr ⟨p, hp, hscheme, hne⟩)).append hhost
    rcases hactive.keep trivial (.init now) hinit with hfalse | ⟨hkeep, -⟩
    · exact hfalse.elim
    · exact hkeep
  · exact hinit

/-! ### A run that sends a request -/

/-- A fetch of the log goes to the URL. -/
def Sent (url : Str) (log : List (Fetch Phase)) : Prop := ∃ f ∈ log, f.url = url

theorem Sent.cons {url : Str} (f : Fetch Phase) (log : List (Fetch Phase)) (h : Sent url log) :
    Sent url (f :: log) := by
  obtain ⟨g, hg, hurl⟩ := h
  exact ⟨g, mem_cons_of_mem _ hg, hurl⟩

theorem sent_fetch {url : Str} {headers : Headers} {phase : Phase} {s : ApiState} :
    Sent url (engine.fetch url headers phase s).2.wire.log :=
  ⟨_, mem_cons_self, rfl⟩

theorem sent_bind {A B : Type} {m : Run A} {f : A → Run B} {url : Str} {s : ApiState}
    (hm : Sent url (m s).2.wire.log)
    (hf : ∀ a, Ensures (contract (Sent url) fun _ => True) True (f a) fun _ => True) :
    Sent url ((m >>= f) s).2.wire.log :=
  escape_bind (C := contract (Sent url) fun _ => True) hm hf

theorem sent_probe {url : Str} {headers : Headers} {s : ApiState} :
    Sent url (engine.probe url headers s).2.wire.log := by
  refine sent_bind sent_fetch fun outcome => ?_
  rcases outcome with error | _ | r
  · exact ensures_ofExcept (fun _ _ => trivial) fun _ _ _ => trivial
  · exact ensures_done
  · exact ensures_done

@[simp] theorem readClock_bind {A : Type} (f : ℚ → Run A) (s : ApiState) :
    (engine.readClock >>= f) s =
      f (engine.world.read s.wire).clock { s with wire := engine.world.read s.wire } := rfl

theorem spend_granted {s : ApiState} (hmade : (s.probes.made : ℤ) < engine.settings.probeRequests)
    (hdeadline : (engine.world.read s.wire).clock - s.probes.start ≤ engine.settings.deadline) :
    (engine.spend s).1 = .ok true := by
  unfold ApiEngine.spend
  rw [Effect.read_bind, if_neg (not_le.mpr hmade), readClock_bind, Effect.read_bind,
    if_neg (not_lt.mpr hdeadline), Effect.update_bind]
  rfl

theorem sent_request {url : Str} {headers : Headers} {s : ApiState} {t : ApiState}
    (hscope : engine.inScope checker url = .ok true)
    (hgranted : engine.take checker s = (.ok true, t)) :
    Sent url (engine.request checker url headers s).2.wire.log := by
  have hlift : (lift (engine.inScope checker url) : Run Bool) s = (.ok true, s) := by
    rw [hscope]
    rfl
  unfold ApiEngine.request
  rw [Effect.bind_ok hlift, if_neg (by decide), Effect.bind_ok hgranted, if_neg (by decide)]
  refine sent_bind sent_fetch fun outcome => ?_
  rcases outcome with error | _ | r
  · exact ensures_addError.bind fun _ => ensures_pure fun _ => trivial
  · exact ensures_addError.bind fun _ => ensures_pure fun _ => trivial
  · refine ensures_ite (fun _ => ?_) fun _ => ?_
    · exact ensures_addError.bind fun _ => ensures_pure fun _ => trivial
    · exact (ensures_change fun _ => by rfl).bind fun _ => ensures_pure fun _ => trivial

/-- An engine whose application does not answer, and for which no time passes. -/
def quietEngine (R : Runtime) : ApiEngine :=
  ⟨R, ⟨id, id, fun _ url => .ok url⟩, ⟨fun _ => [], id, fun _ => false⟩, ⟨1, 1, 0, 1⟩,
    .still fun _ _ _ => .noResponse⟩

/-- `GET /`. -/
def rootOperation : Operation := ⟨"get", "/", [], [], [], [], [], false, []⟩

/-- A document that names a server, and one operation. -/
def rootDocument (server : Str) : Doc :=
  .dict [(.str "servers", .list [.dict [(.str "url", .str server)]]),
    (.str "paths", .dict [(.str "/", .dict [(.str "get", .dict [])])])]

def rootSpec (server : Str) : Spec := ⟨[server], [], [rootOperation], [], []⟩

theorem operationOf_get (repr : Doc → Str) :
    operationOf R repr (.str "/") [] (.dict []) [] (.str "get", .dict []) =
      some (some rootOperation) := by
  unfold operationOf
  dsimp only
  rw [lower_of_ascii (by decide), if_neg (by decide)]
  rfl

theorem serversOf_rootDocument (repr : Doc → Str) {server : Str} (h : server ≠ []) :
    serversOf repr [(.str "servers", .list [.dict [(.str "url", .str server)]]),
      (.str "paths", .dict [(.str "/", .dict [(.str "get", .dict [])])])] =
      some [server] := by
  rcases server with _ | ⟨c, server⟩
  · exact absurd rfl h
  · rfl

theorem parse_rootDocument (repr : Doc → Str) {server : Str} (h : server ≠ []) :
    parse R repr (rootDocument server) = some (rootSpec server) := by
  have hops : operationsOf R repr (.dict []) []
      (.str "/", .dict [(.str "get", .dict [])]) = some [rootOperation] := by
    show (do
      let operations ← [(Doc.str "get", Doc.dict [])].mapM
        (operationOf R repr (.str "/") [] (.dict []) [])
      return operations.reduceOption) = _
    rw [mapM_cons, operationOf_get]
    rfl
  unfold parse rootDocument
  dsimp only
  rw [serversOf_rootDocument repr h]
  show (do
    let operations ← [(Doc.str "/", Doc.dict [(.str "get", .dict [])])].mapM
      (operationsOf R repr (.dict []) [])
    return _) = _
  rw [mapM_cons, hops]
  rfl

def anonymous : Principal := ⟨"anonymous", [], [], false⟩

/-- The run of the quiet engine on that document, for one principal. -/
def quietRun (R : Runtime) (identifier server : Str) : ApiState :=
  (quietEngine R).run identifier (rootDocument server) [anonymous] 0

theorem quietRun_eq {identifier server : Str} (h : server ≠ []) :
    quietRun R identifier server =
      ((quietEngine R).active identifier [anonymous] (rootSpec server) (.init 0)).2 := by
  unfold quietRun ApiEngine.run
  rw [show parse (quietEngine R).runtime (quietEngine R).library.repr (rootDocument server) =
    some (rootSpec server) from parse_rootDocument _ h]
  rfl

/-- **The first probe** is sent to the base. -/
theorem sent_undocumented {base server : Str} {s : ApiState} (hmade : s.probes.made = 0)
    (hstart : s.wire.clock ≤ s.probes.start) :
    Sent (rstripChar '/' base ++ '/' :: "openapi.json")
      ((quietEngine R).undocumented base (rootSpec server) s).2.wire.log := by
  have hdocumented : lower (quietEngine R).runtime (stripChar '/' "openapi.json") ∉
      (rootSpec server).operations.map fun operation =>
        lower (quietEngine R).runtime (stripChar '/' operation.path) := by
    have hpath : lower (quietEngine R).runtime (stripChar '/' "openapi.json") =
        "openapi.json" :=
      lower_of_ascii (s := "openapi.json") (by decide)
    rw [hpath]
    show "openapi.json".toList ∉ [[]]
    decide
  have hgranted : ((quietEngine R).spend s).1 = .ok true := by
    refine spend_granted ?_ ?_
    · rw [hmade]
      exact Int.one_pos
    · show s.wire.clock + 0 - s.probes.start ≤ 1
      linarith
  rcases hrun : (quietEngine R).spend s with ⟨granted, t⟩
  rw [hrun] at hgranted
  cases hgranted
  unfold ApiEngine.undocumented ApiEngine.wordlist ApiEngine.probeWordlist
  rw [if_neg hdocumented, Effect.bind_ok hrun, if_neg (by decide)]
  exact sent_bind sent_probe fun _ => ensures_probeWordlist Sent.cons (fun _ _ => trivial) _ _

theorem sent_probeSurface {base server : Str} {s : ApiState} (h : ApiEngine.FullUrl base) :
    Sent (rstripChar '/' base ++ '/' :: "openapi.json")
      ((quietEngine R).probeSurface base (rootSpec server) s).2.wire.log := by
  unfold ApiEngine.probeSurface
  rw [if_neg (not_not.mpr h), readClock_bind, Effect.update_bind]
  refine sent_bind (sent_undocumented rfl le_rfl) fun _ => ?_
  refine (ensures_probeAuth Sent.cons (fun _ _ => trivial) 0 _).bind fun _ => ?_
  exact ensures_probeCors Sent.cons (fun _ _ => trivial) [] 0 _

theorem urlOf_rootOperation {root : Str} (values : Values) :
    (quietEngine R).urlOf root rootOperation values = some (rstripChar '/' root ++ ['/']) := rfl

/-- **The first check** is sent to the base. -/
theorem sent_testOperation {checker : ApiEngine.Checker} {principals : List Principal}
    {s : ApiState}
    (hscope : (quietEngine R).inScope checker (rstripChar '/' checker.base ++ ['/']) = .ok true)
    (hgranted : ∀ b, ∃ t, (quietEngine R).take checker { s with result := b } = (.ok true, t)) :
    Sent (rstripChar '/' checker.base ++ ['/'])
      ((quietEngine R).testOperation checker principals rootOperation s).2.wire.log := by
  unfold ApiEngine.testOperation
  dsimp only
  rw [urlOf_rootOperation]
  dsimp only
  rw [Effect.update_bind]
  obtain ⟨t, ht⟩ := hgranted _
  refine sent_bind (sent_request hscope ht) fun answer => ?_
  rcases answer with _ | r
  · exact ensures_done
  have hlets : Lets (quietEngine R) checker fun _ => True := fun _ _ => trivial
  refine (ensures_checkUnauthenticated Sent.cons (fun _ => hlets) rootOperation ⟨_, rfl⟩).bind
    fun _ => ?_
  refine (ensures_checkBola Sent.cons (fun _ => hlets) principals rootOperation).bind fun _ => ?_
  exact ensures_checkBfla Sent.cons (fun _ => hlets) principals rootOperation

theorem take_new {checker : ApiEngine.Checker} {s : ApiState}
    (hspent : (s.budget.spent : ℤ) < checker.limits.maxRequests)
    (hdeadline : (engine.world.read s.wire).clock < checker.limits.deadline) :
    ∃ t, engine.take checker s = (.ok true, t) := by
  have htake := take_of_lt hspent hdeadline
  rcases hrun : checker.limits.take s.budget (engine.world.read s.wire).clock with
    ⟨granted, clock, budget⟩
  rw [hrun] at htake
  cases htake
  unfold ApiEngine.take
  rw [readClock_bind, Effect.read_bind]
  dsimp only
  rw [hrun]
  exact ⟨_, rfl⟩

theorem newChecker_apply {base : Str} {spec : Spec} {p : UrlParts} (hbase : base ≠ [])
    (hp : urlparse engine.runtime (rstripChar '/' base) = .ok p) (s : ApiState) :
    ∃ checker, CheckerOf engine (rstripChar '/' base) checker p ∧
      checker.limits = ⟨engine.settings.maxRequests, engine.settings.rate,
        engine.settings.deadline, (engine.world.read s.wire).clock⟩ ∧
      engine.newChecker base spec s =
        (.ok checker, { s with wire := engine.world.read s.wire }) := by
  have hlift : (lift (urlparse engine.runtime (rstripChar '/' base)) : Run UrlParts) s =
      (.ok p, s) := by
    rw [hp]
    rfl
  refine ⟨⟨_, _, _⟩, ⟨hp, rfl, rfl⟩, rfl, ?_⟩
  unfold ApiEngine.newChecker
  rw [if_neg hbase, Effect.bind_ok hlift, readClock_bind]
  rfl

/-- **The checks** send a request to a base that the scope test lets through. -/
theorem sent_scan {root server : Str} {principal : Principal} {p : UrlParts} {s : ApiState}
    (hchecker : CheckerOf (quietEngine R) (rstripChar '/' root) checker p)
    (hscheme : p.scheme = "http" ∨ p.scheme = "https")
    (hhost : lower R ((p.hostname R).getD []) ≠ [])
    (hgranted : ∀ b, ∃ t, (quietEngine R).take checker { s with result := b } = (.ok true, t)) :
    Sent (rstripChar '/' root ++ ['/'])
      ((quietEngine R).scan checker [principal] (rootSpec server) s).2.wire.log := by
  obtain ⟨hparse, hbase, hcheckerhost⟩ := hchecker
  have hne : checker.base ≠ [] := by
    intro hnil
    rw [← hbase, hnil] at hparse
    cases hparse
    exact hhost rfl
  have hroot : rstripChar '/' checker.base = rstripChar '/' root := by
    rw [hbase, rstripChar_rstripChar]
  have hscope : (quietEngine R).inScope checker (rstripChar '/' checker.base ++ ['/']) =
      .ok true := by
    rw [hroot, inScope_append hparse hcheckerhost (hcheckerhost ▸ hhost), decide_eq_true hscheme]
  have hone : [principal].length < 2 := Nat.one_lt_two
  unfold ApiEngine.scan
  rw [if_neg hne, if_pos hone]
  unfold ApiEngine.addUntested
  rw [Effect.update_bind, ← hroot]
  refine sent_bind (sent_bind (sent_testOperation hscope fun b => hgranted b) fun _ => ?_)
    fun _ => ensures_done
  refine ensures_look.bind fun stop => ensures_ite (fun _ => ?_) fun _ => ensures_done
  exact ensures_change fun _ => by rfl

/-- **The quiet engine sends a request** to every base that requests are sent to. -/
theorem exists_sent {identifier server base : Str} (hserver : server ≠ [])
    (hof : ApiEngine.baseOf identifier (rootSpec server) = base) (hsends : Sends R base) :
    ∃ path, splitNetloc (('/' :: path).filter (!isUnsafe ·)) = [] ∧
      Sent (rstripChar '/' base ++ '/' :: path) (quietRun R identifier server).wire.log := by
  have hbase := hsends.ne_nil
  rw [quietRun_eq hserver]
  unfold ApiEngine.active
  rw [hof, if_neg hbase]
  by_cases hfull : ApiEngine.FullUrl base
  · refine ⟨"openapi.json", rfl, sent_bind (sent_probeSurface hfull) fun _ => ?_⟩
    refine ensures_ite (fun _ => ensures_done) fun _ => (ensures_newChecker hbase).bind
      fun checker => ?_
    exact ensures_scan Sent.cons (fun _ _ _ => trivial) _ _
  · obtain ⟨p, hp, hscheme, hhost⟩ := hsends.resolve_left hfull
    refine ⟨[], rfl, ?_⟩
    have hsurface : (quietEngine R).probeSurface base (rootSpec server) = pure () := if_pos hfull
    have hprincipals : [anonymous] ≠ [] := cons_ne_nil _ _
    obtain ⟨checker, hchecker, hlimits, hnew⟩ := @newChecker_apply
      (quietEngine R) base (rootSpec server) p hbase hp (.init 0)
    rw [hsurface, Effect.ret_bind, if_neg hprincipals, Effect.bind_ok hnew]
    refine sent_scan hchecker hscheme hhost fun b => take_new ?_ ?_
    · rw [hlimits]
      exact Int.one_pos
    · rw [hlimits]
      show (0 : ℚ) + 0 + 0 < 0 + 0 + 1
      norm_num

theorem goesTo_base {host base path : Str} (hhost : hostKey R host ≠ []) (hsends : Sends R base)
    (hpath : splitNetloc (('/' :: path).filter (!isUnsafe ·)) = [])
    (h : GoesTo R host (rstripChar '/' base ++ '/' :: path)) :
    GoesTo R host (rstripChar '/' base) := by
  rcases hsends with hfull | ⟨p, hp, -, hne⟩
  · exact goesTo_of_append hfull hhost hpath h
  · obtain ⟨scheme, netloc, horigin, hwithin⟩ := goesTo_iff.mp h
    rw [urlOrigin_under hp hne] at horigin
    cases horigin
    exact goesTo_iff.mpr ⟨p.scheme, p.netloc, map_eq_ok.mpr ⟨p, hp, rfl⟩, hwithin⟩

/-! ### The asset that the gate cleared -/

/-- **The gate cleared the identifier for the host**: an authorization that is not bound to the
asset matches the host that the gate reads in it. -/
def ClearedFor (R : Runtime) (identifier host : Str) : Prop :=
  hostOf R identifier = .ok host ∧ ∃ (a : AuthorizationView) (assetId : Option Id) (now : ℤ),
    ¬ (a.assetId.isSome ∧ a.assetId = assetId) ∧
      authorizes R a assetId identifier true now = .ok true

theorem hostKey_ne_nil_of_cleared {identifier host : Str} (h : ClearedFor R identifier host) :
    hostKey R host ≠ [] := by
  obtain ⟨hhost, a, assetId, now, hasset, hauthorizes⟩ := h
  obtain ⟨-, -, hbound | ⟨host', hhost', hmatch⟩⟩ := authorizes_iff.mp hauthorizes
  · exact absurd hbound hasset
  · rw [hhost] at hhost'
    cases hhost'
    exact (targetMatches_iff.mp hmatch).1

/-- **Every run stays in the zone of the host**, on every document that gives the base, for all
principals, settings and answers. -/
def Confined (R : Runtime) (identifier host base : Str) : Prop :=
  ∀ (engine : ApiEngine) (document : Doc) (principals : List Principal) (now : ℚ),
    engine.runtime = R →
    (∀ spec, parse R engine.library.repr document = some spec →
      ApiEngine.baseOf identifier spec = base) →
    ∀ f ∈ (engine.run identifier document principals now).wire.log, GoesTo R host f.url

/-- **Where the requests of a run go.**  Every run stays in the zone of the cleared host exactly
when its base goes there, or no request is sent to it. -/
theorem confined_iff {identifier host : Str} (hcleared : ClearedFor R identifier host)
    (spec : Spec) :
    Confined R identifier host (ApiEngine.baseOf identifier spec) ↔
      (Sends R (ApiEngine.baseOf identifier spec) →
        GoesTo R host (rstripChar '/' (ApiEngine.baseOf identifier spec))) := by
  have hhost := hostKey_ne_nil_of_cleared hcleared
  constructor
  · intro hconfined hsends
    have hof : ApiEngine.baseOf identifier (rootSpec (ApiEngine.baseOf identifier spec)) =
        ApiEngine.baseOf identifier spec := by
      unfold ApiEngine.baseOf
      split_ifs
      · rfl
      · rfl
    obtain ⟨path, hpath, f, hf, hurl⟩ := exists_sent hsends.ne_nil hof hsends
    refine goesTo_base hhost hsends hpath ?_
    rw [← hurl]
    refine hconfined (quietEngine R) _ [anonymous] 0 rfl (fun spec' hparse => ?_) f hf
    rw [parse_rootDocument _ hsends.ne_nil] at hparse
    cases hparse
    exact hof
  · rintro hsends engine document principals now rfl hof
    exact run_goesTo hhost hsends hof principals now

/-- The authorization for the zone of a domain. -/
def domainView (domain : Str) : AuthorizationView :=
  ⟨1, .activeRecon, none, none, [some (.of "domain" domain)], none, none, none⟩

/-- An asset that is a URL: its document does not count. -/
theorem confined_iff_url :
    Confined .ascii "https://api.example.com" "api.example.com"
        (ApiEngine.baseOf "https://api.example.com" (rootSpec "https://b")) ↔
      (Sends .ascii
          (ApiEngine.baseOf "https://api.example.com" (rootSpec "https://b")) →
        GoesTo .ascii "api.example.com" (rstripChar '/'
          (ApiEngine.baseOf "https://api.example.com" (rootSpec "https://b")))) :=
  confined_iff ⟨by decide, domainView "example.com", none, 0, by decide,
    by decide⟩ _

/-- **A document that names another host**: the gate clears the domain, and the run sends its
requests to the server of the document. -/
theorem sends_elsewhere :
    ClearedFor .ascii "example.com".toList "example.com".toList ∧
      (quietRun .ascii "example.com".toList "https://victim.org".toList).wire.log.map (·.url) =
        ["https://victim.org/".toList, "https://victim.org/openapi.json".toList] ∧
      ¬ GoesTo .ascii "example.com".toList "https://victim.org/openapi.json".toList := by
  refine ⟨⟨by decide, domainView "example.com".toList, none, 0, by decide,
    by decide +kernel⟩, by decide +kernel, ?_⟩
  rintro ⟨p, hp, hwithin⟩
  have hparse : urlparse .ascii "https://victim.org/openapi.json".toList =
      .ok ⟨"https".toList, "victim.org".toList, "/openapi.json".toList, [], [], []⟩ := by
    decide
  rw [hparse] at hp
  cases hp
  revert hwithin
  decide

end Guardian.Apisec
