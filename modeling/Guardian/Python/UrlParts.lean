import Guardian.Python.Text

/-!
# `urllib.parse`

The host of a text, the six parts of a URL, the way back, and the query string.
-/

namespace Guardian.Python

open List
variable (R : Runtime)

/-! ### The network location -/

/-- What `urlsplit` drops in front: the C0 controls and the blank. -/
def isC0OrSpace (c : Char) : Bool := decide (c.toNat ≤ 32)

/-- What `urlsplit` removes everywhere. -/
def isUnsafe (c : Char) : Bool := c == '\t' || c == '\r' || c == '\n'

def isSchemeChar (c : Char) : Bool := c.isAlphanum || c == '+' || c == '-' || c == '.'

/-- The text after the scheme, if it has one. -/
def dropScheme (url : Str) : Str :=
  let (scheme, found, rest) := partition ':' url
  if found && scheme.head?.any Char.isAlpha && scheme.all isSchemeChar then rest else url

/-- The delimiters that end the network location. -/
def isNetlocEnd (c : Char) : Bool := c == '/' || c == '?' || c == '#'

/-- `_splitnetloc`, where the text begins with `//`. -/
def splitNetloc : Str → Str
  | '/' :: '/' :: rest => rest.takeWhile (!isNetlocEnd ·)
  | _ => []

/-- `_checknetloc`: no character may turn into a delimiter under NFKC. -/
def nfkcOk (netloc : Str) : Bool :=
  let n := netloc.filter fun c => !(c == '@' || c == ':' || c == '#' || c == '?')
  decide (∀ c ∈ netloc, IsAscii c) || decide (R.nfkc n = n) ||
    (R.nfkc n).all fun c => !(c == '/' || c == '?' || c == '#' || c == '@' || c == ':')

/-- The checks of `urlsplit` on the network location. -/
def checkNetloc (netloc : Str) : Except Fault Str :=
  if decide ('[' ∈ netloc) != decide (']' ∈ netloc) then .error .valueError
  else if '[' ∈ netloc ∧ R.bracketedOk netloc = false then .error .valueError
  else if nfkcOk R netloc then .ok netloc
  else .error .valueError

/-- `urlsplit(url).netloc`. -/
def netloc (url : Str) : Except Fault Str :=
  checkNetloc R (splitNetloc (dropScheme ((url.dropWhile isC0OrSpace).filter (!isUnsafe ·))))

/-! ### The host -/

/-- The host of a network location as it is written: after the user information, between the
brackets or before the port. -/
def hostinfo (netloc : Str) : Str :=
  let info := (rpartition '@' netloc).2.2
  if '[' ∈ info then (partition ']' (partition '[' info).2.2).1 else (partition ':' info).1

/-- The host in lower case, the zone of an IPv6 address aside. -/
def lowerHost (host : Str) : Str :=
  let (name, found, zone) := partition '%' host
  lower R name ++ if found then '%' :: zone else []

/-- `urlparse(url).hostname`. -/
def urlHostname (url : Str) : Except Fault (Option Str) := do
  let host := hostinfo (← netloc R url)
  return if host = [] then none else some (lowerHost R host)

variable {R}

/-- **A text with the scheme `http`**: the network location is what stands before the first
delimiter. -/
theorem netloc_http (t : Str) :
    netloc R ("http://" ++ t) =
      checkNetloc R ((t.filter (!isUnsafe ·)).takeWhile (!isNetlocEnd ·)) := by
  have hdrop : ("http://" ++ t).dropWhile isC0OrSpace = "http://" ++ t := rfl
  have hfilter : ("http://" ++ t).filter (!isUnsafe ·) =
      "http://" ++ t.filter (!isUnsafe ·) := by
    rw [filter_append]
    rfl
  unfold netloc
  rw [hdrop, hfilter]
  rfl

variable (R)

/-- The functions of `urllib.parse` that are taken as they are: the two that read UTF-8, and the
joining of a reference to a base. -/
structure UrlLibrary where
  unquote : Str → Str
  quotePlus : Str → Str
  urljoin : Str → Str → Except Fault Str

/-! ### The parts -/

/-- `ParseResult`. -/
structure UrlParts where
  scheme : Str
  netloc : Str
  path : Str
  params : Str
  query : Str
  fragment : Str
  deriving DecidableEq

/-- What `urlsplit` does to a text first. -/
def cleanUrl (url : Str) : Str := (url.dropWhile isC0OrSpace).filter (!isUnsafe ·)

/-- The scheme, and the text after it. -/
def splitScheme (url : Str) : Str × Str :=
  let (scheme, found, rest) := partition ':' url
  if found && scheme.head?.any Char.isAlpha && scheme.all isSchemeChar then (lower R scheme, rest)
  else ([], url)

/-- The text after the network location. -/
def dropNetloc : Str → Str
  | '/' :: '/' :: rest => rest.dropWhile (!isNetlocEnd ·)
  | url => url

/-- `uses_params`. -/
def usesParams : List Str :=
  [[], "ftp", "hdl", "prospero", "http", "https",
    "shttp", "rtsp", "rtspu", "sip", "sips", "mms",
    "sftp", "tel"]

/-- `_splitparams`. -/
def splitParams (url : Str) : Str × Str :=
  if '/' ∈ url then
    let (dir, _, last) := rpartition '/' url
    let (segment, _, params) := partition ';' last
    (dir ++ '/' :: segment, params)
  else
    let (segment, _, params) := partition ';' url
    (segment, params)

/-- **`urlparse`.** -/
def urlparse (url : Str) : Except Fault UrlParts := do
  let (scheme, rest) := splitScheme R (cleanUrl url)
  let netloc ← checkNetloc R (splitNetloc rest)
  let (rest, _, fragment) := partition '#' (dropNetloc rest)
  let (rest, _, query) := partition '?' rest
  let (path, params) := if scheme ∈ usesParams then splitParams rest else (rest, [])
  return ⟨scheme, netloc, path, params, query, fragment⟩

/-- `hostname`. -/
def UrlParts.hostname (p : UrlParts) : Option Str :=
  let host := hostinfo p.netloc
  if host = [] then none else some (lowerHost R host)

/-- The text after the host and its colon. -/
def portText (netloc : Str) : Str :=
  let info := (rpartition '@' netloc).2.2
  if '[' ∈ info then (partition ':' (partition ']' (partition '[' info).2.2).2.2).2.2
  else (partition ':' info).2.2

/-- `port`. -/
def UrlParts.port (p : UrlParts) : Except Fault (Option ℕ) := do
  let text := portText p.netloc
  if text = [] then return none
  else if strIsdigit R text = true ∧ ∀ c ∈ text, IsAscii c then
    let port ← int R text
    if port ≤ 65535 then return some port else .error .valueError
  else .error .valueError

/-! ### The way back -/

def joinParams (path params : Str) : Str := if params = [] then path else path ++ ';' :: params

def UrlParts.pathParams (p : UrlParts) : Str := joinParams p.path p.params

/-- The query and the fragment with their delimiters. -/
def UrlParts.tail (p : UrlParts) : Str :=
  (if p.query = [] then [] else '?' :: p.query) ++
    if p.fragment = [] then [] else '#' :: p.fragment

/-- `uses_netloc`. -/
def usesNetloc : List Str :=
  [[], "ftp", "http", "gopher", "nntp", "telnet",
    "imap", "wais", "file", "mms", "https", "shttp",
    "snews", "prospero", "rtsp", "rtspu", "rsync",
    "svn", "svn+ssh", "sftp", "nfs", "git", "git+ssh",
    "ws", "wss", "itms-services"]

/-- What `urlunsplit` writes in front of the path. -/
def UrlParts.authority (p : UrlParts) : Str :=
  if p.netloc ≠ [] then
    "//" ++ p.netloc ++
      if p.pathParams ≠ [] ∧ p.pathParams.head? ≠ some '/' then ['/'] else []
  else if "//" <+: p.pathParams then "//"
  else if p.scheme ≠ [] ∧ p.scheme ∈ usesNetloc ∧
      (p.pathParams = [] ∨ p.pathParams.head? = some '/') then "//"
  else []

/-- **`urlunparse`.** -/
def urlunparse (p : UrlParts) : Str :=
  (if p.scheme = [] then [] else p.scheme ++ [':']) ++ (p.authority ++ p.pathParams) ++ p.tail

/-- `urldefrag(url).url`. -/
def urldefrag (url : Str) : Except Fault Str := do
  if '#' ∈ url then return urlunparse { (← urlparse R url) with fragment := [] }
  else return url

/-! ### The query string -/

/-- `s.replace("+", " ")`. -/
def plusToSpace (s : Str) : Str := s.map fun c => if c = '+' then ' ' else c

/-- `parse_qsl(query, keep_blank_values=True)`. -/
def parseQsl (L : UrlLibrary) (query : Str) : List (Str × Str) :=
  ((query.splitOn '&').filter (· ≠ [])).map fun field =>
    let (name, _, value) := partition '=' field
    (L.unquote (plusToSpace name), L.unquote (plusToSpace value))

/-- `urlencode`. -/
def urlencode (L : UrlLibrary) (params : List (Str × Str)) : Str :=
  ['&'].intercalate (params.map fun kv => L.quotePlus kv.1 ++ '=' :: L.quotePlus kv.2)

/-! ### What the parts look like -/

/-- The text holds no delimiter of the authority or the path, and nothing that is removed. -/
def Bare (s : Str) : Prop := ∀ c ∈ s, isNetlocEnd c = false ∧ isUnsafe c = false

/-- The path does not end, and nothing in it is removed. -/
def PathClean (s : Str) : Prop := ∀ c ∈ s, c ≠ '?' ∧ c ≠ '#' ∧ isUnsafe c = false

/-- The text is a scheme, in lower case. -/
def IsScheme (s : Str) : Prop :=
  s.head?.any Char.isAlpha = true ∧ s.all isSchemeChar = true ∧ lower R s = s

/-- What `urlsplit` makes the path and the parameters of. -/
def splitFor (scheme url : Str) : Str × Str :=
  if scheme ∈ usesParams then splitParams url else (url, [])

/-- **The shape of what `urlparse` returns.** -/
structure UrlParts.Shaped (p : UrlParts) : Prop where
  scheme : p.scheme ≠ [] → IsScheme R p.scheme
  netloc_bare : Bare p.netloc
  path_clean : PathClean p.pathParams
  path_head : p.netloc ≠ [] → p.pathParams = [] ∨ p.pathParams.head? = some '/'
  split : splitFor p.scheme p.pathParams = (p.path, p.params)
  /-- A path that begins the text does not look like a scheme, and does not begin with a blank. -/
  bare_head : p.scheme = [] → p.netloc = [] → ∀ t, (∀ c, t.head? = some c → isSchemeChar c = false ∧
    c ≠ ':') → splitScheme R (p.pathParams ++ t) = ([], p.pathParams ++ t)
  bare_start : p.scheme = [] → p.netloc = [] → ∀ c, p.pathParams.head? = some c →
    isC0OrSpace c = false

/-- What `urlparse` reads: the text after the scheme, and the path that follows the network location
in it. -/
structure UrlParts.ReadIn (p : UrlParts) (url rest : Str) : Prop where
  split : splitScheme R (cleanUrl url) = (p.scheme, rest)
  netloc : p.netloc = splitNetloc rest
  path : splitFor p.scheme p.pathParams = (p.path, p.params)
  body : ∃ x, dropNetloc rest = p.pathParams ++ x
  clean : PathClean p.pathParams
  head : (∀ c, (dropNetloc rest).head? = some c → isNetlocEnd c = true) →
    p.pathParams = [] ∨ p.pathParams.head? = some '/'

variable {R}

variable {s t url : Str} {p : UrlParts}

theorem takeWhile_append_stop {p : Char → Bool}
    (ht : ∀ c, t.head? = some c → p c = false) : (s ++ t).takeWhile p = s.takeWhile p := by
  have hstop : t.takeWhile p = [] := by
    rcases t with _ | ⟨c, t⟩
    · rfl
    · exact takeWhile_cons_of_neg (by simp [ht c rfl])
  rw [takeWhile_append, hstop, append_nil]
  split_ifs with hlen
  · exact (List.takeWhile_prefix p).eq_of_length hlen |>.symm
  · rfl

theorem takeWhile_append_ends {p : Char → Bool} (hs : ∀ c ∈ s, p c = true)
    (ht : ∀ c, t.head? = some c → p c = false) : (s ++ t).takeWhile p = s := by
  rw [takeWhile_append_stop ht]
  exact takeWhile_eq_self_iff.mpr hs

theorem dropWhile_append_ends {p : Char → Bool} (hs : ∀ c ∈ s, p c = true)
    (ht : ∀ c, t.head? = some c → p c = false) : (s ++ t).dropWhile p = t := by
  rw [dropWhile_append_of_pos hs]
  rcases t with _ | ⟨c, t⟩
  · rfl
  · rw [dropWhile_cons_of_neg (by simp [ht c rfl])]

theorem cut_tail (hs : ∀ c ∈ s, c ≠ '?' ∧ c ≠ '#')
    (ht : ∀ c, t.head? = some c → c = '?' ∨ c = '#') :
    (partition '?' (partition '#' (s ++ t)).1).1 = s := by
  show ((s ++ t).takeWhile (· != '#')).takeWhile (· != '?') = s
  have hhash : ∀ c ∈ s, (c != '#') = true := fun c hc => by simpa using (hs c hc).2
  have hquery : ∀ c ∈ s, (c != '?') = true := fun c hc => by simpa using (hs c hc).1
  rw [takeWhile_append_of_pos hhash]
  refine takeWhile_append_ends hquery fun c hc => ?_
  rcases t with _ | ⟨d, t⟩
  · cases hc
  · by_cases hd : d = '#'
    · subst hd
      simp at hc
    · rw [takeWhile_cons_of_pos (by simpa using hd)] at hc
      cases hc
      rcases ht c rfl with rfl | rfl
      · rfl
      · exact absurd rfl hd

/-! ### The scheme -/

theorem splitScheme_of_isScheme {scheme rest : Str} (h : IsScheme R scheme) :
    splitScheme R (scheme ++ ':' :: rest) = (scheme, rest) := by
  obtain ⟨hhead, hall, hlower⟩ := h
  have hcolon : ':' ∉ scheme := by
    intro hmem
    have := all_eq_true.mp hall ':' hmem
    revert this
    decide
  unfold splitScheme
  rw [partition_append hcolon]
  simp only [hhead, hall, Bool.and_self, if_true, hlower]

theorem isAscii_of_isSchemeChar {c : Char} (h : isSchemeChar c = true) : IsAscii c := by
  unfold isSchemeChar at h
  simp only [Bool.or_eq_true, beq_iff_eq] at h
  rcases h with ((h | rfl) | rfl) | rfl
  · unfold Char.isAlphanum Char.isAlpha Char.isUpper Char.isLower Char.isDigit at h
    unfold IsAscii
    simp only [Bool.or_eq_true, Bool.and_eq_true, decide_eq_true_eq] at h
    show c.val.toNat < 128
    rcases h with (⟨-, h⟩ | ⟨-, h⟩) | ⟨-, h⟩
    all_goals exact lt_of_le_of_lt (UInt32.le_iff_toNat_le.mp h) (by decide)
  all_goals decide

theorem lowerFrom_ascii :
    ∀ {before : Str}, (∀ c ∈ s, IsAscii c) → lowerFrom R before s = s.map Char.toLower := by
  induction s with
  | nil => intro _ _; rfl
  | cons c cs ih =>
    intro before h
    have hc : IsAscii c := h c (by simp)
    have hne : c ≠ 'Σ' := by
      rintro rfl
      exact absurd hc (by decide)
    rw [lowerFrom, if_neg hne, R.toLower_ascii c hc, ih fun d hd => h d (by simp [hd])]
    rfl

/-- What `urlsplit` takes for a scheme is one. -/
theorem isScheme_splitScheme (hne : (splitScheme R url).1 ≠ []) :
    IsScheme R (splitScheme R url).1 := by
  unfold splitScheme at hne ⊢
  dsimp only at hne ⊢
  by_cases h : ((partition ':' url).2.1 && (partition ':' url).1.head?.any Char.isAlpha &&
      (partition ':' url).1.all isSchemeChar) = true
  · rw [if_pos h]
    generalize (partition ':' url).1 = scheme at h
    simp only [Bool.and_eq_true] at h
    obtain ⟨⟨-, hhead⟩, hall⟩ := h
    have hascii : ∀ c ∈ scheme, IsAscii c := fun c hc =>
      isAscii_of_isSchemeChar (all_eq_true.mp hall c hc)
    have hmap : lower R scheme = scheme.map Char.toLower := lowerFrom_ascii hascii
    refine ⟨?_, ?_, lower_lower scheme⟩
    · rw [hmap]
      rcases scheme with _ | ⟨c, cs⟩
      · simp at hhead
      · have hc : IsAscii c := hascii c (by simp)
        have := forall_ascii (P := fun c => c.isAlpha = true → c.toLower.isAlpha = true)
          (by decide) hc
        simpa using this (by simpa using hhead)
    · rw [hmap, all_map, all_eq_true]
      intro c hc
      have := forall_ascii (P := fun c => isSchemeChar c = true → isSchemeChar c.toLower = true)
        (by decide) (hascii c hc)
      exact this (all_eq_true.mp hall c hc)
  · rw [if_neg h] at hne
    exact absurd rfl hne

theorem splitScheme_colon {u : Str} (hu : ':' ∉ u) (v : Str) :
    splitScheme R (u ++ ':' :: v) =
      if (u.head?.any Char.isAlpha && u.all isSchemeChar) = true then (lower R u, v)
      else ([], u ++ ':' :: v) := by
  unfold splitScheme
  rw [partition_append hu]
  simp only [Bool.true_and]

/-- A text without a scheme has none when it is cut and goes on with a character that no scheme
has. -/
theorem splitScheme_append {t' : Str} (h : splitScheme R (s ++ t) = ([], s ++ t))
    (ht' : ∀ c, t'.head? = some c → isSchemeChar c = false ∧ c ≠ ':') :
    splitScheme R (s ++ t') = ([], s ++ t') := by
  by_cases hcolon : ':' ∈ s
  · -- the text before the first colon is the same
    obtain ⟨u, v, rfl, hu⟩ := eq_append_cons_of_mem hcolon
    rw [append_assoc, cons_append, splitScheme_colon hu] at h ⊢
    split_ifs at h ⊢ with hvalid
    · -- the rest of the text is shorter
      have := congrArg (fun x => x.2.length) h
      simp at this
      omega
    · rfl
  · -- a colon can only come after a character that no scheme has
    unfold splitScheme
    dsimp only
    rw [if_neg]
    intro hvalid
    simp only [Bool.and_eq_true] at hvalid
    obtain ⟨⟨hfound, -⟩, hall⟩ := hvalid
    rcases t' with _ | ⟨d, w⟩
    · rw [append_nil] at hfound
      exact hcolon (of_decide_eq_true hfound)
    · obtain ⟨hd, hdcolon⟩ := ht' d rfl
      have hmem : d ∈ (partition ':' (s ++ d :: w)).1 := by
        show d ∈ (s ++ d :: w).takeWhile (· != ':')
        rw [takeWhile_append_of_pos, takeWhile_cons_of_pos (by simpa using hdcolon)]
        · simp
        · intro c hc
          rw [bne_iff_ne]
          rintro rfl
          exact hcolon hc
      have := all_eq_true.mp hall d hmem
      rw [hd] at this
      cases this

/-! ### There and back -/

theorem splitNetloc_append {netloc rest : Str} (hnetloc : Bare netloc)
    (hrest : ∀ c, rest.head? = some c → isNetlocEnd c = true) :
    splitNetloc ("//" ++ (netloc ++ rest)) = netloc ∧
      dropNetloc ("//" ++ (netloc ++ rest)) = rest := by
  have hbare : ∀ c ∈ netloc, (!isNetlocEnd c) = true := fun c hc => by simp [(hnetloc c hc).1]
  have hends : ∀ c, rest.head? = some c → (!isNetlocEnd c) = false := fun c hc => by
    simp [hrest c hc]
  exact ⟨takeWhile_append_ends hbare hends, dropWhile_append_ends hbare hends⟩

theorem splitNetloc_of_not_isPrefix (h : ¬ "//" <+: url) :
    splitNetloc url = [] ∧ dropNetloc url = url := by
  have hnot : ∀ r, url ≠ '/' :: '/' :: r := by
    rintro r rfl
    exact h ⟨r, rfl⟩
  constructor
  · unfold splitNetloc
    split
    · next r => exact absurd rfl (hnot r)
    · rfl
  · unfold dropNetloc
    split
    · next r => exact absurd rfl (hnot r)
    · rfl

theorem checkNetloc_eq {netloc netloc' : Str} (h : checkNetloc R netloc = .ok netloc') :
    netloc' = netloc := by
  unfold checkNetloc at h
  split_ifs at h
  cases h
  rfl

/-- The tail of a URL begins a query or a fragment. -/
def IsTail (t : Str) : Prop := ∀ c, t.head? = some c → c = '?' ∨ c = '#'

theorem isTail_tail (p : UrlParts) : IsTail p.tail := by
  intro c hc
  unfold UrlParts.tail at hc
  by_cases hquery : p.query = []
  · rw [if_pos hquery, nil_append] at hc
    split_ifs at hc
    · cases hc
    · exact Or.inr (Option.some_inj.mp hc).symm
  · rw [if_neg hquery] at hc
    exact Or.inl (Option.some_inj.mp hc).symm

theorem IsTail.filter (h : IsTail t) : IsTail (t.filter (!isUnsafe ·)) := by
  intro c hc
  rcases t with _ | ⟨d, t⟩
  · cases hc
  · have hd := h d rfl
    have hsafe : isUnsafe d = false := by
      rcases hd with rfl | rfl
      · rfl
      · rfl
    rw [filter_cons_of_pos (by simp [hsafe])] at hc
    cases hc
    exact hd

theorem IsTail.isNetlocEnd (h : IsTail t) :
    ∀ c, t.head? = some c → isNetlocEnd c = true := by
  intro c hc
  rcases h c hc with rfl | rfl
  · rfl
  · rfl

theorem IsTail.no_scheme (h : IsTail t) :
    ∀ c, t.head? = some c → isSchemeChar c = false ∧ c ≠ ':' := by
  intro c hc
  rcases h c hc with rfl | rfl
  · decide
  · decide

theorem head_append_tail (hs : s = [] ∨ s.head? = some '/') (ht : IsTail t) :
    ∀ c, (s ++ t).head? = some c → isNetlocEnd c = true := by
  intro c hc
  rcases hs with rfl | hs
  · exact ht.isNetlocEnd c hc
  · rw [head?_append, hs] at hc
    cases hc
    rfl

/-- **The network location** is found again behind what `urlunsplit` wrote. -/
theorem splitNetloc_authority (h : p.Shaped R) (ht : IsTail t) :
    splitNetloc (p.authority ++ (p.pathParams ++ t)) = p.netloc ∧
      dropNetloc (p.authority ++ (p.pathParams ++ t)) = p.pathParams ++ t := by
  have hbare : Bare [] := fun c hc => by cases hc
  unfold UrlParts.authority
  split_ifs with hnetloc hslash hstarts huses
  · have := h.path_head hnetloc
    rcases this with hnil | hhead
    · exact absurd hnil hslash.1
    · exact absurd hhead hslash.2
  · have hends := head_append_tail (h.path_head hnetloc) ht
    rw [append_nil, append_assoc]
    exact splitNetloc_append h.netloc_bare hends
  · have hnil : p.netloc = [] := not_not.mp hnetloc
    have hhead : p.pathParams.head? = some '/' := by
      obtain ⟨r, hr⟩ := hstarts
      rw [← hr]
      rfl
    have hends := head_append_tail (Or.inr hhead) ht
    rw [hnil]
    exact splitNetloc_append hbare hends
  · have hnil : p.netloc = [] := not_not.mp hnetloc
    have hends := head_append_tail huses.2.2 ht
    rw [hnil]
    exact splitNetloc_append hbare hends
  · have hnil : p.netloc = [] := not_not.mp hnetloc
    have hnot : ¬ "//" <+: p.pathParams ++ t := by
      intro hpre
      rcases hpp : p.pathParams with _ | ⟨c, w⟩
      · rw [hpp, nil_append] at hpre
        obtain ⟨r, hr⟩ := hpre
        rcases ht '/' (by rw [← hr]; rfl) with h | h
        · cases h
        · cases h
      · rw [hpp] at hpre
        obtain ⟨r, hr⟩ := hpre
        rcases w with _ | ⟨d, w⟩
        · rcases ht '/' (by cases hr; rfl) with h | h
          · cases h
          · cases h
        · cases hr
          exact hstarts (hpp ▸ ⟨w, rfl⟩)
    rw [hnil, nil_append]
    exact splitNetloc_of_not_isPrefix hnot

theorem cleanUrl_append (hs : ∀ c ∈ s, isUnsafe c = false)
    (hhead : ∀ c, (s ++ t).head? = some c → isC0OrSpace c = false) :
    cleanUrl (s ++ t) = s ++ t.filter (!isUnsafe ·) := by
  have hdrop : (s ++ t).dropWhile isC0OrSpace = s ++ t := by
    rcases h : s ++ t with _ | ⟨c, w⟩
    · rfl
    · exact dropWhile_cons_of_neg (by simp [hhead c (by rw [h]; rfl)])
  unfold cleanUrl
  rw [hdrop, filter_append, filter_eq_self.mpr fun c hc => by simp [hs c hc]]

theorem schemeChar_clean {c : Char} (h : isSchemeChar c = true) :
    isUnsafe c = false ∧ isC0OrSpace c = false := by
  have := forall_ascii
    (P := fun c => isSchemeChar c = true → isUnsafe c = false ∧ isC0OrSpace c = false)
    (by decide) (isAscii_of_isSchemeChar h)
  exact this h

theorem splitScheme_of_slash (h : url.head? = some '/') :
    splitScheme R url = ([], url) := by
  rcases url with _ | ⟨c, w⟩
  · cases h
  · cases h
    unfold splitScheme partition
    dsimp only
    rw [takeWhile_cons_of_pos (by decide)]
    rw [if_neg]
    simp only [head?_cons, Option.any_some]
    simp

theorem authority_cases (p : UrlParts) :
    p.authority = [] ∧ p.netloc = [] ∨ p.authority.head? = some '/' := by
  unfold UrlParts.authority
  split_ifs with hnetloc
  · exact Or.inr rfl
  · exact Or.inr rfl
  · exact Or.inr rfl
  · exact Or.inr rfl
  · exact Or.inl ⟨rfl, not_not.mp hnetloc⟩

theorem authority_clean (h : Bare p.netloc) :
    ∀ c ∈ p.authority, isUnsafe c = false := by
  have hslashes : ∀ c ∈ "//".toList, isUnsafe c = false := by decide
  intro c hc
  unfold UrlParts.authority at hc
  split_ifs at hc
  · simp only [mem_append] at hc
    rcases hc with (hc | hc) | hc
    · exact hslashes c hc
    · exact (h c hc).2
    · rw [mem_singleton.mp hc]
      rfl
  · simp only [mem_append] at hc
    rcases hc with (hc | hc) | hc
    · exact hslashes c hc
    · exact (h c hc).2
    · cases hc
  · exact hslashes c hc
  · exact hslashes c hc
  · cases hc

/-- **The scheme** is found again in front of what `urlunsplit` wrote. -/
theorem splitScheme_urlunparse (h : p.Shaped R) :
    splitScheme R (cleanUrl (urlunparse p)) =
      (p.scheme, p.authority ++ (p.pathParams ++ p.tail.filter (!isUnsafe ·))) := by
  have htail := (isTail_tail p).filter
  have hbody : ∀ c ∈ p.authority ++ p.pathParams, isUnsafe c = false := by
    intro c hc
    rcases mem_append.mp hc with hc | hc
    · exact authority_clean h.netloc_bare c hc
    · exact (h.path_clean c hc).2.2
  unfold urlunparse
  by_cases hscheme : p.scheme = []
  · rw [if_pos hscheme, nil_append, cleanUrl_append hbody, hscheme, append_assoc]
    · rcases authority_cases p with ⟨hnil, hnetloc⟩ | hslash
      · rw [hnil, nil_append]
        exact h.bare_head hscheme hnetloc _ htail.no_scheme
      · exact splitScheme_of_slash (by rw [head?_append, hslash]; rfl)
    · intro c hc
      rcases authority_cases p with ⟨hnil, hnetloc⟩ | hslash
      · rw [hnil, nil_append] at hc
        rcases hpath : p.pathParams with _ | ⟨d, w⟩
        · rw [hpath, nil_append] at hc
          rcases isTail_tail p c hc with rfl | rfl
          · rfl
          · rfl
        · rw [hpath] at hc
          exact h.bare_start hscheme hnetloc c (by rw [hpath]; exact hc)
      · rw [append_assoc, head?_append, hslash] at hc
        cases hc
        rfl
  · obtain ⟨hhead, hall, -⟩ := h.scheme hscheme
    have hschemeClean := fun c hc => schemeChar_clean (all_eq_true.mp hall c hc)
    rw [if_neg hscheme, cleanUrl_append]
    · rw [append_assoc, append_assoc, singleton_append, append_assoc]
      exact splitScheme_of_isScheme (h.scheme hscheme)
    · intro c hc
      rcases mem_append.mp hc with hc | hc
      · rcases mem_append.mp hc with hc | hc
        · exact (hschemeClean c hc).1
        · rw [mem_singleton.mp hc]
          rfl
      · exact hbody c hc
    · intro c hc
      obtain ⟨d, w, hd⟩ := exists_cons_of_ne_nil hscheme
      rw [hd] at hc
      cases hc
      exact (hschemeClean c (by rw [hd]; exact mem_cons_self)).2

/-- **There and back**: the parts survive, whatever the query and the fragment are. -/
theorem urlparse_urlunparse {p' : UrlParts} (h : p.Shaped R)
    (hparse : urlparse R (urlunparse p) = .ok p') :
    p'.scheme = p.scheme ∧ p'.netloc = p.netloc ∧ p'.path = p.path ∧ p'.params = p.params := by
  have htail := (isTail_tail p).filter
  obtain ⟨hnetloc, hdrop⟩ := splitNetloc_authority h htail
  have hcut := cut_tail (fun c hc => ⟨(h.path_clean c hc).1, (h.path_clean c hc).2.1⟩) htail
  have hsplit := h.split
  unfold splitFor at hsplit
  unfold urlparse at hparse
  rw [splitScheme_urlunparse h] at hparse
  dsimp only at hparse
  rw [hnetloc, hdrop] at hparse
  obtain ⟨netloc, hcheck, hparse⟩ := bind_eq_ok.mp hparse
  rw [hcut, hsplit] at hparse
  cases hparse
  exact ⟨rfl, checkNetloc_eq hcheck, rfl, rfl⟩

/-! ### The parts of a text -/

theorem partition_absent {c : Char} (h : c ∉ s) : partition c s = (s, false, []) := by
  have hs : s.dropWhile (· != c) = [] := by
    rw [dropWhile_eq_nil_iff]
    intro d hd
    rw [bne_iff_ne]
    rintro rfl
    exact h hd
  have hfst : s.takeWhile (· != c) = s := partition_eq_self h
  unfold partition
  rw [hs, hfst]
  simp only [h, decide_false, tail_nil]

theorem notMem_partition_fst {c : Char} (s : Str) : c ∉ (partition c s).1 := by
  intro h
  have := mem_takeWhile_imp h
  simp at this

theorem partition_params_subset {c : Char} (s : Str) : (partition c s).2.2 ⊆ s :=
  fun _ hc => (dropWhile_sublist _).subset (mem_of_mem_tail hc)

theorem partition_join {segment params : Str} {found : Bool}
    (h : partition ';' s = (segment, found, params)) :
    ∃ found', partition ';' (joinParams segment params) = (segment, found', params) := by
  have hsegment : ';' ∉ segment := by
    have := notMem_partition_fst (c := ';') s
    rwa [h] at this
  unfold joinParams
  split_ifs with hnil
  · exact ⟨_, by rw [partition_absent hsegment, hnil]⟩
  · exact ⟨_, partition_append hsegment params⟩

theorem joinParams_isPrefix {segment params : Str} {found : Bool}
    (h : partition ';' s = (segment, found, params)) :
    s = joinParams segment params ∨ s = joinParams segment params ++ [';'] := by
  by_cases hmem : ';' ∈ s
  · obtain ⟨u, v, rfl, hu⟩ := eq_append_cons_of_mem hmem
    rw [partition_append hu] at h
    cases h
    unfold joinParams
    split_ifs with hnil
    · rw [hnil]
      exact Or.inr rfl
    · exact Or.inl rfl
  · rw [partition_absent hmem] at h
    cases h
    exact Or.inl rfl

/-- **The parameters are split off where they were joined.** -/
theorem splitParams_join {path params : Str} (h : splitParams url = (path, params)) :
    splitParams (joinParams path params) = (path, params) ∧
      (url = joinParams path params ∨ url = joinParams path params ++ [';']) := by
  by_cases hmem : '/' ∈ url
  · obtain ⟨dir, last, rfl, hlast, hpart⟩ := exists_rpartition hmem
    rcases hcut : partition ';' last with ⟨segment, found, rest⟩
    unfold splitParams at h
    rw [if_pos hmem, hpart] at h
    dsimp only at h
    rw [hcut] at h
    cases h
    have hjoin : joinParams (dir ++ '/' :: segment) rest =
        dir ++ '/' :: joinParams segment rest := by
      unfold joinParams
      split_ifs
      · rfl
      · simp
    have hlastSlash : '/' ∉ joinParams segment rest := by
      intro hc
      rcases joinParams_isPrefix hcut with heq | heq
      · exact hlast (heq ▸ hc)
      · exact hlast (heq ▸ mem_append_left _ hc)
    obtain ⟨found', hagain⟩ := partition_join hcut
    constructor
    · unfold splitParams
      rw [hjoin, if_pos (by simp), rpartition_append hlastSlash]
      dsimp only
      rw [hagain]
    · rw [hjoin]
      rcases joinParams_isPrefix hcut with heq | heq
      · exact Or.inl (by rw [← heq])
      · refine Or.inr ?_
        rw [append_assoc, cons_append, ← heq]
  · rcases hcut : partition ';' url with ⟨segment, found, rest⟩
    unfold splitParams at h
    rw [if_neg hmem, hcut] at h
    cases h
    obtain ⟨found', hagain⟩ := partition_join hcut
    have hslash : '/' ∉ joinParams path params := by
      intro hc
      rcases joinParams_isPrefix hcut with heq | heq
      · exact hmem (heq ▸ hc)
      · exact hmem (heq ▸ mem_append_left _ hc)
    refine ⟨?_, joinParams_isPrefix hcut⟩
    unfold splitParams
    rw [if_neg hslash, hagain]

theorem exists_tail (s : Str) :
    ∃ t, s = (partition '?' (partition '#' s).1).1 ++ t ∧ IsTail t := by
  refine ⟨(s.takeWhile (· != '#')).dropWhile (· != '?') ++ s.dropWhile (· != '#'), ?_, ?_⟩
  · show s = (s.takeWhile (· != '#')).takeWhile (· != '?') ++ _
    rw [← append_assoc, takeWhile_append_dropWhile, takeWhile_append_dropWhile]
  · intro c hc
    rw [head?_append] at hc
    have hquery := head?_dropWhile_not (· != '?') (s.takeWhile (· != '#'))
    have hhash := head?_dropWhile_not (· != '#') s
    rcases h1 : ((s.takeWhile (· != '#')).dropWhile (· != '?')).head? with _ | d
    · rw [h1] at hc
      rw [show (s.dropWhile (· != '#')).head? = some c from hc] at hhash
      exact Or.inr (by simpa using hhash)
    · rw [h1] at hc hquery
      cases hc
      exact Or.inl (by simpa using hquery)

theorem cut_clean (hs : ∀ c ∈ s, isUnsafe c = false) :
    PathClean (partition '?' (partition '#' s).1).1 := by
  intro c hc
  have hc' := partition_subset _ _ hc
  refine ⟨?_, ?_, hs c (partition_subset _ _ hc')⟩
  · rintro rfl
    exact notMem_partition_fst _ hc
  · rintro rfl
    exact notMem_partition_fst _ hc'

theorem head_cut (hs : ∀ c, s.head? = some c → isNetlocEnd c = true) :
    (partition '?' (partition '#' s).1).1 = [] ∨
      (partition '?' (partition '#' s).1).1.head? = some '/' := by
  obtain ⟨t, hst, -⟩ := exists_tail s
  generalize hu : (partition '?' (partition '#' s).1).1 = u at *
  rcases u with _ | ⟨c, u⟩
  · exact Or.inl rfl
  · refine Or.inr ?_
    have hend := hs c (by rw [hst]; rfl)
    have hmem : c ∈ (partition '?' (partition '#' s).1).1 := by
      rw [hu]
      exact mem_cons_self
    unfold isNetlocEnd at hend
    simp only [Bool.or_eq_true, beq_iff_eq] at hend
    rcases hend with (rfl | rfl) | rfl
    · rfl
    · exact absurd hmem (notMem_partition_fst _)
    · exact absurd (partition_subset _ _ hmem) (notMem_partition_fst _)

theorem head_cleanUrl : ∀ c, (cleanUrl url).head? = some c →
    isC0OrSpace c = false := by
  intro c hc
  have hhead := head?_dropWhile_not isC0OrSpace url
  unfold cleanUrl at hc
  rcases hdrop : url.dropWhile isC0OrSpace with _ | ⟨d, w⟩
  · rw [hdrop] at hc
    cases hc
  · rw [hdrop] at hc hhead
    have hd : isC0OrSpace d = false := by simpa using hhead
    have hsafe : isUnsafe d = false := by
      by_contra hunsafe
      simp only [isUnsafe, Bool.not_eq_false, Bool.or_eq_true, beq_iff_eq] at hunsafe
      rcases hunsafe with (rfl | rfl) | rfl
      · exact absurd hd (by decide)
      · exact absurd hd (by decide)
      · exact absurd hd (by decide)
    rw [filter_cons_of_pos (by simp [hsafe])] at hc
    cases hc
    exact hd

theorem splitFor_join {scheme path params : Str} (h : splitFor scheme url = (path, params)) :
    splitFor scheme (joinParams path params) = (path, params) ∧
      (url = joinParams path params ∨ url = joinParams path params ++ [';']) := by
  unfold splitFor at h ⊢
  split_ifs at h ⊢
  · exact splitParams_join h
  · cases h
    exact ⟨rfl, Or.inl rfl⟩

theorem dropNetloc_cases (url : Str) :
    splitNetloc url = [] ∧ dropNetloc url = url ∨
      (∀ c, (dropNetloc url).head? = some c → isNetlocEnd c = true) ∧
        (∀ c ∈ splitNetloc url, isNetlocEnd c = false) := by
  by_cases h : "//" <+: url
  · obtain ⟨r, rfl⟩ := h
    refine Or.inr ⟨fun c hc => ?_, fun c hc => ?_⟩
    · have := head?_dropWhile_not (fun c => !isNetlocEnd c) r
      change (r.dropWhile fun c => !isNetlocEnd c).head? = some c at hc
      rw [hc] at this
      simpa using this
    · have := mem_takeWhile_imp (p := fun c => !isNetlocEnd c) (l := r) hc
      simpa using this
  · exact Or.inl (splitNetloc_of_not_isPrefix h)

theorem splitNetloc_subset (url : Str) : splitNetloc url ⊆ url := by
  unfold splitNetloc
  split
  · next r =>
    intro c hc
    exact mem_cons_of_mem _ (mem_cons_of_mem _ ((takeWhile_sublist _).subset hc))
  · exact nil_subset _

theorem dropNetloc_subset (url : Str) : dropNetloc url ⊆ url := by
  unfold dropNetloc
  split
  · next r =>
    intro c hc
    exact mem_cons_of_mem _ (mem_cons_of_mem _ ((dropWhile_sublist _).subset hc))
  · exact List.Subset.refl _

theorem splitScheme_subset (url : Str) : (splitScheme R url).2 ⊆ url := by
  unfold splitScheme
  dsimp only
  split_ifs
  · exact partition_params_subset url
  · exact List.Subset.refl _

theorem splitScheme_nil (h : (splitScheme R url).1 = []) :
    splitScheme R url = ([], url) := by
  unfold splitScheme at h ⊢
  dsimp only at h ⊢
  split_ifs at h ⊢ with hvalid
  · -- a scheme is not empty, in lower case either
    exfalso
    have hne : (partition ':' url).1 ≠ [] := by
      intro hnil
      rw [hnil] at hvalid
      simp at hvalid
    obtain ⟨c, w, hcw⟩ := exists_cons_of_ne_nil hne
    have hc : IsAscii c := by
      simp only [Bool.and_eq_true] at hvalid
      exact isAscii_of_isSchemeChar
        (all_eq_true.mp hvalid.2 c (by rw [hcw]; exact mem_cons_self))
    have hsigma : c ≠ 'Σ' := by
      rintro rfl
      exact absurd hc (by decide)
    rw [hcw] at h
    unfold lower lowerFrom at h
    rw [if_neg hsigma, R.toLower_ascii c hc] at h
    cases h
  · rfl

theorem isUnsafe_rest {scheme rest : Str}
    (h : splitScheme R (cleanUrl url) = (scheme, rest)) : ∀ c ∈ rest, isUnsafe c = false := by
  intro c hc
  have hmem : c ∈ cleanUrl url := splitScheme_subset (R := R) _ (by rw [h]; exact hc)
  simpa using (mem_filter.mp hmem).2

theorem exists_readIn (hparse : urlparse R url = .ok p) :
    ∃ rest, p.ReadIn R url rest := by
  unfold urlparse at hparse
  dsimp only at hparse
  rcases hsplit : splitScheme R (cleanUrl url) with ⟨scheme, rest⟩
  rw [hsplit] at hparse
  obtain ⟨netloc, hcheck, hparse⟩ := bind_eq_ok.mp hparse
  have hrest := isUnsafe_rest hsplit
  have hcutClean := cut_clean fun c hc => hrest c (dropNetloc_subset rest hc)
  have hheadCut := head_cut (s := dropNetloc rest)
  obtain ⟨t, hbody, -⟩ := exists_tail (dropNetloc rest)
  generalize (partition '?' (partition '#' (dropNetloc rest)).1).1 = u at *
  obtain ⟨hs, hn, hsplitFor⟩ :
      p.scheme = scheme ∧ p.netloc = netloc ∧ splitFor scheme u = (p.path, p.params) := by
    cases hparse
    exact ⟨rfl, rfl, rfl⟩
  obtain ⟨hagain, hjoin⟩ := splitFor_join hsplitFor
  obtain ⟨x, hu⟩ : ∃ x, u = p.pathParams ++ x := by
    rcases hjoin with h | h
    · exact ⟨[], h.trans (append_nil _).symm⟩
    · exact ⟨_, h⟩
  refine ⟨rest, hsplit.trans (by rw [hs]), hn.trans (checkNetloc_eq hcheck), hs ▸ hagain,
    ⟨x ++ t, by rw [hbody, hu, append_assoc]⟩, fun c hc => hcutClean c ?_, fun hends => ?_⟩
  · rw [hu]
    exact mem_append_left _ hc
  · rcases hpp : p.pathParams with _ | ⟨c, w⟩
    · exact Or.inl rfl
    · rcases hheadCut hends with h | h
      · rw [hu, hpp] at h
        cases h
      · rw [hu, hpp] at h
        exact Or.inr h

namespace UrlParts.ReadIn

variable {p : UrlParts} {url rest : Str} (h : p.ReadIn R url rest)
include h

theorem netloc_bare : Bare p.netloc := by
  intro c hc
  rw [h.netloc] at hc
  refine ⟨?_, isUnsafe_rest h.split c (splitNetloc_subset rest hc)⟩
  rcases dropNetloc_cases rest with ⟨hnil, -⟩ | ⟨-, hbare⟩
  · rw [hnil] at hc
    cases hc
  · exact hbare c hc

theorem begins (hscheme : p.scheme = []) :
    (p.pathParams = [] ∨ p.pathParams.head? = some '/') ∨
      ∃ x, cleanUrl url = p.pathParams ++ x ∧
        splitScheme R (p.pathParams ++ x) = ([], p.pathParams ++ x) := by
  rcases dropNetloc_cases rest with ⟨-, hwhole⟩ | ⟨hends, -⟩
  · obtain ⟨x, hx⟩ := h.body
    have hnone := splitScheme_nil ((congrArg Prod.fst h.split).trans hscheme)
    have hrest : rest = cleanUrl url := congrArg Prod.snd (h.split.symm.trans hnone)
    rw [← hrest, ← hwhole, hx] at hnone
    exact Or.inr ⟨x, by rw [← hrest, ← hwhole, hx], hnone⟩
  · exact Or.inl (h.head hends)

/-- **What is read in a text** has the shape of a URL. -/
theorem shaped : p.Shaped R := by
  refine ⟨fun hne => ?_, h.netloc_bare, h.clean, fun hne => ?_, h.path, fun h0 _ t ht => ?_,
    fun h0 _ c hc => ?_⟩
  · have hscheme : (splitScheme R (cleanUrl url)).1 = p.scheme := congrArg Prod.fst h.split
    rw [← hscheme] at hne ⊢
    exact isScheme_splitScheme hne
  · rcases dropNetloc_cases rest with ⟨hnil, -⟩ | ⟨hends, -⟩
    · exact absurd (h.netloc.trans hnil) hne
    · exact h.head hends
  · rcases h.begins h0 with (hnil | hhead) | ⟨x, -, hnone⟩
    · rw [hnil]
      exact splitScheme_append (s := []) (t := []) rfl ht
    · exact splitScheme_of_slash (by rw [head?_append, hhead]; rfl)
    · exact splitScheme_append hnone ht
  · rcases h.begins h0 with (hnil | hhead) | ⟨x, hclean, -⟩
    · rw [hnil] at hc
      cases hc
    · rw [hhead] at hc
      cases hc
      rfl
    · have hhead : (cleanUrl url).head? = some c := by
        rw [hclean, head?_append, hc]
        rfl
      exact head_cleanUrl c hhead

end UrlParts.ReadIn

theorem shaped_of_urlparse (hparse : urlparse R url = .ok p) :
    p.Shaped R := by
  obtain ⟨rest, h⟩ := exists_readIn hparse
  exact h.shaped

theorem urlparse_replace {q f : Str} {p' : UrlParts} (hparse : urlparse R url = .ok p)
    (hagain : urlparse R (urlunparse { p with query := q, fragment := f }) = .ok p') :
    p'.scheme = p.scheme ∧ p'.netloc = p.netloc ∧ p'.path = p.path ∧ p'.params = p.params := by
  obtain ⟨h1, h2, h3, h4, h5, h6, h7⟩ := shaped_of_urlparse hparse
  exact urlparse_urlunparse (p := { p with query := q, fragment := f }) ⟨h1, h2, h3, h4, h5, h6, h7⟩
    hagain

/-! ### What stands in front of the path -/

/-- **The scheme and the network location** that `urlparse` reads. -/
def urlOrigin (R : Runtime) (url : Str) : Except Fault (Str × Str) :=
  (fun p => (p.scheme, p.netloc)) <$> urlparse R url

theorem urlOrigin_eq (url : Str) :
    urlOrigin R url = (fun netloc => ((splitScheme R (cleanUrl url)).1, netloc)) <$>
      checkNetloc R (splitNetloc (splitScheme R (cleanUrl url)).2) := by
  unfold urlOrigin urlparse
  dsimp only
  rcases checkNetloc R (splitNetloc (splitScheme R (cleanUrl url)).2) with e | netloc
  · rfl
  · rfl

theorem splitScheme_cleanUrl {scheme : Str} (h : IsScheme R scheme) (rest : Str) :
    splitScheme R (cleanUrl (scheme ++ ':' :: rest)) = (scheme, rest.filter (!isUnsafe ·)) := by
  have hclean : cleanUrl (scheme ++ ':' :: rest) = scheme ++ ':' :: rest.filter (!isUnsafe ·) := by
    refine (cleanUrl_append (fun c hc => ?_) fun c hc => ?_).trans rfl
    · exact (schemeChar_clean (all_eq_true.mp h.2.1 c hc)).1
    · rcases scheme with _ | ⟨d, scheme⟩
      · exact absurd h.1 (by decide)
      · cases hc
        exact (schemeChar_clean (all_eq_true.mp h.2.1 _ mem_cons_self)).2
  rw [hclean, splitScheme_of_isScheme h]

theorem splitScheme_append_of_slashes (h : "//" <+: (splitScheme R s).2)
    (t : Str) : splitScheme R (s ++ t) = ((splitScheme R s).1, (splitScheme R s).2 ++ t) := by
  by_cases hcolon : ':' ∈ s
  · obtain ⟨u, v, rfl, hu⟩ := eq_append_cons_of_mem hcolon
    rw [append_assoc, cons_append, splitScheme_colon hu, splitScheme_colon hu]
    split_ifs
    · rfl
    · simp
  · have hself : splitScheme R s = ([], s) := by
      unfold splitScheme
      rw [partition_absent hcolon]
      rfl
    rw [hself] at h ⊢
    obtain ⟨w, rfl⟩ := h
    exact splitScheme_of_slash rfl

/-- **A path that is appended** changes neither the scheme nor the network location. -/
theorem urlOrigin_append {u : Str} (hu : "//" <+: (splitScheme R (cleanUrl u)).2)
    (ht : t.head? = some '/') : urlOrigin R (u ++ t) = urlOrigin R u := by
  obtain ⟨t, rfl⟩ : ∃ t', t = '/' :: t' := by
    rcases t with _ | ⟨c, t⟩
    · cases ht
    · cases ht
      exact ⟨t, rfl⟩
  have hne : (u.dropWhile isC0OrSpace).isEmpty = false := by
    rcases hdrop : u.dropWhile isC0OrSpace with _ | ⟨c, w⟩
    · unfold cleanUrl at hu
      rw [hdrop] at hu
      exact absurd (prefix_nil.mp hu) (by decide)
    · rfl
  have hclean : cleanUrl (u ++ '/' :: t) = cleanUrl u ++ '/' :: t.filter (!isUnsafe ·) := by
    unfold cleanUrl
    rw [dropWhile_append, hne, if_neg Bool.false_ne_true, filter_append]
    rfl
  rw [urlOrigin_eq, urlOrigin_eq, hclean, splitScheme_append_of_slashes hu]
  obtain ⟨w, hw⟩ := hu
  rw [← hw]
  have hnetloc : splitNetloc ("//" ++ w ++ '/' :: t.filter (!isUnsafe ·)) =
      splitNetloc ("//" ++ w) :=
    takeWhile_append_stop fun c hc => by
      cases hc
      rfl
  rw [hnetloc]

/-! ### URLs that can be read -/

theorem returns_urlparse_iff : Returns (urlparse R url) ↔
    Returns (checkNetloc R (splitNetloc (splitScheme R (cleanUrl url)).2)) := by
  rw [← returns_map_iff (f := fun p : UrlParts => (p.scheme, p.netloc)), ← urlOrigin, urlOrigin_eq,
    returns_map_iff]

theorem returns_checkNetloc (hparse : urlparse R url = .ok p) :
    Returns (checkNetloc R p.netloc) := by
  obtain ⟨rest, h⟩ := exists_readIn hparse
  have hreturns := returns_urlparse_iff.mp ⟨p, hparse⟩
  rwa [h.split, ← h.netloc] at hreturns

theorem returns_urlparse_replace (hparse : urlparse R url = .ok p)
    (q f : Str) : Returns (urlparse R (urlunparse { p with query := q, fragment := f })) := by
  obtain ⟨h1, h2, h3, h4, h5, h6, h7⟩ := shaped_of_urlparse hparse
  have hshaped : UrlParts.Shaped R { p with query := q, fragment := f } :=
    ⟨h1, h2, h3, h4, h5, h6, h7⟩
  rw [returns_urlparse_iff, splitScheme_urlunparse hshaped,
    (splitNetloc_authority hshaped (isTail_tail _).filter).1]
  exact (returns_checkNetloc hparse : Returns (checkNetloc R p.netloc))

/-- **A path of the site** of a URL can be read. -/
theorem returns_urlparse_site (hparse : urlparse R url = .ok p)
    (hscheme : p.scheme ≠ []) (path : Str) :
    Returns (urlparse R (p.scheme ++ "://" ++ p.netloc ++ '/' :: path)) := by
  have hshaped := shaped_of_urlparse hparse
  have hbare : (p.netloc).filter (!isUnsafe ·) = p.netloc :=
    filter_eq_self.mpr fun c hc => by simp [(hshaped.netloc_bare c hc).2]
  have hurl : p.scheme ++ "://" ++ p.netloc ++ '/' :: path =
      p.scheme ++ ':' :: ("//" ++ p.netloc ++ '/' :: path) := by simp
  have hnetloc : splitNetloc ("//" ++ (p.netloc ++ '/' :: path.filter (!isUnsafe ·))) =
      p.netloc := by
    show (p.netloc ++ '/' :: path.filter (!isUnsafe ·)).takeWhile (!isNetlocEnd ·) = p.netloc
    refine takeWhile_append_ends (fun c hc => ?_) fun c hc => ?_
    · simp [(hshaped.netloc_bare c hc).1]
    · cases hc
      rfl
  have hfilter : ("//" ++ p.netloc ++ '/' :: path).filter (!isUnsafe ·) =
      "//" ++ (p.netloc ++ '/' :: path.filter (!isUnsafe ·)) := by
    rw [append_assoc, filter_append, filter_append, hbare]
    rfl
  rw [returns_urlparse_iff, hurl, splitScheme_cleanUrl (hshaped.scheme hscheme), hfilter, hnetloc]
  exact returns_checkNetloc hparse

end Guardian.Python
