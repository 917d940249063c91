import Guardian.Templates.Loader

/-!
# What the loader refuses

A text is accepted, or refused with a reason; any other exception stops the files that come after it
from being read.  The calls that are not guarded raise for some documents.  `loading_settles_iff`
says when none does.
-/

namespace Guardian.Templates

open Python List

/-! ### Calls that settle -/

section Settling
variable {A B : Type}

/-- **The call settles**: it returns, or it rejects the template. -/
def Settles (x : Load A) : Prop := (∃ a, x = .ok a) ∨ ∃ reason, x = .error (.rejected reason)

/-- Each item settles that comes after items which are accepted. -/
def InTurn (accepts settles : A → Prop) (as : List A) : Prop :=
  ∀ before a after, as = before ++ a :: after → (∀ b ∈ before, accepts b) → settles a

theorem settles_ok (a : A) : Settles (.ok a : Load A) := Or.inl ⟨a, rfl⟩

theorem settles_pure (a : A) : Settles (pure a : Load A) := settles_ok a

theorem settles_reject (reason : Str) : Settles (reject reason : Load A) := Or.inr ⟨reason, rfl⟩

theorem not_settles_raised (fault : Fault) : ¬ Settles (.error (.raised fault) : Load A) := by
  rintro (⟨a, h⟩ | ⟨reason, h⟩)
  · cases h
  · cases h

variable {reason : Str} {f : A → Load B}

theorem settles_require {c : Prop} [Decidable c] : Settles (require c reason) := by
  unfold require
  split_ifs
  · exact settles_ok ()
  · exact settles_reject reason

theorem settles_orReject {x : Option A} : Settles (orReject x reason) := by
  rcases x with _ | a
  · exact settles_reject reason
  · exact settles_ok a

theorem settles_named {table : List (Str × A)} {name : Str} :
    Settles (named table name reason) := by
  unfold named
  split
  · exact settles_ok _
  · exact settles_reject reason

theorem named_eq_ok_iff {table : List (Str × A)} {name : Str} {a : A} :
    named table name reason = .ok a ↔ table.lookup name = some a := by
  unfold named
  rcases table.lookup name with _ | b <;> simp [reject]

theorem settles_call_iff {x : Except Fault A} : Settles (call x) ↔ Returns x := by
  rcases x with fault | a
  · exact iff_of_false (not_settles_raised fault) (not_returns_error fault)
  · exact iff_of_true (settles_ok a) (returns_ok a)

theorem settles_bind_iff {x : Load A} :
    Settles (x >>= f) ↔ Settles x ∧ ∀ a, x = .ok a → Settles (f a) := by
  rcases x with (reason | fault) | a
  · exact iff_of_true (settles_reject reason) ⟨settles_reject reason, fun a h => nomatch h⟩
  · exact iff_of_false (not_settles_raised fault) fun h => not_settles_raised fault h.1
  · exact ⟨fun h => ⟨settles_ok a, fun b hb => by cases hb; exact h⟩, fun h => h.2 a rfl⟩

theorem settles_bind_of_settles {x : Load A} (hx : Settles x) :
    Settles (x >>= f) ↔ ∀ a, x = .ok a → Settles (f a) :=
  settles_bind_iff.trans (and_iff_right hx)

theorem settles_require_bind_iff {c : Prop} [Decidable c] {f : Unit → Load B} :
    Settles (require c reason >>= f) ↔ (c → Settles (f ())) := by
  rw [settles_bind_of_settles settles_require]
  exact ⟨fun h hc => h () (require_eq_ok_iff.mpr hc), fun h u hu => h (require_eq_ok_iff.mp hu)⟩

theorem settles_orReject_bind_iff {x : Option A} :
    Settles (orReject x reason >>= f) ↔ ∀ a, x = some a → Settles (f a) := by
  rw [settles_bind_of_settles settles_orReject]
  simp only [orReject_eq_ok_iff]

theorem settles_named_bind_iff {table : List (Str × A)} {name : Str} :
    Settles (named table name reason >>= f) ↔ ∀ a, table.lookup name = some a → Settles (f a) := by
  rw [settles_bind_of_settles settles_named]
  simp only [named_eq_ok_iff]

theorem settles_call_bind_iff {x : Except Fault A} :
    Settles (call x >>= f) ↔ Returns x ∧ ∀ a, x = .ok a → Settles (f a) := by
  rw [settles_bind_iff, settles_call_iff]
  simp only [call_eq_ok_iff]

theorem settles_call_bind_const {x : Except Fault A} {Q : Prop}
    (hf : ∀ a, Settles (f a) ↔ Q) : Settles (call x >>= f) ↔ Returns x ∧ Q := by
  rw [settles_call_bind_iff]
  simp only [hf]
  exact and_congr_right fun ⟨a, ha⟩ => ⟨fun h => h a ha, fun h _ _ => h⟩

/-- A call, and what settles. -/
theorem settles_call_bind {x : Except Fault A} (hf : ∀ a, Settles (f a)) :
    Settles (call x >>= f) ↔ Returns x :=
  (settles_call_bind_const (Q := True) fun a => iff_of_true (hf a) trivial).trans
    (and_iff_left trivial)

/-- **Calls on the items of a list**, one after the other. -/
theorem settles_mapM_iff {as : List A} :
    Settles (as.mapM f) ↔ InTurn (fun a => Returns (f a)) (fun a => Settles (f a)) as := by
  constructor
  · rintro h before a after rfl hbefore
    obtain ⟨bs, hbs⟩ := exists_mapM hbefore
    rw [mapM_append, hbs, ok_bind, mapM_cons, settles_bind_iff, settles_bind_iff] at h
    exact h.1.1
  · intro h
    rcases hrun : as.mapM f with (reason | fault) | bs
    · exact settles_reject reason
    · obtain ⟨before, a, after, has, hbefore, ha⟩ := mapM_eq_error_iff.mp hrun
      have hsettles : Settles (f a) := h before a after has hbefore
      rw [ha] at hsettles
      exact absurd hsettles (not_settles_raised fault)
    · exact settles_ok bs

theorem settles_mapM_bind_iff {C : Type} {g : List B → Load C} {as : List A}
    {Q : Prop} (hg : ∀ bs, Settles (g bs) ↔ Q) :
    Settles (as.mapM f >>= g) ↔ InTurn (fun a => Returns (f a)) (fun a => Settles (f a)) as ∧
      ((∀ a ∈ as, Returns (f a)) → Q) := by
  rw [settles_bind_iff, settles_mapM_iff]
  simp only [hg]
  refine and_congr_right fun _ => ⟨fun h hall => ?_, fun h bs hbs => ?_⟩
  · obtain ⟨bs, hbs⟩ := exists_mapM hall
    exact h bs hbs
  · exact h (returns_mapM_iff.mp ⟨bs, hbs⟩)

theorem inTurn_congr {accepts settles accepts' settles' : A → Prop} {as : List A}
    (ha : ∀ a, accepts a ↔ accepts' a) (hs : ∀ a, settles a ↔ settles' a) :
    InTurn accepts settles as ↔ InTurn accepts' settles' as := by
  unfold InTurn
  simp only [ha, hs]

theorem settles_forM {f : A → Load Unit} (hf : ∀ a, Settles (f a)) (as : List A) :
    Settles (as.forM f) := by
  induction as with
  | nil => exact settles_ok ()
  | cons a as ih => exact (settles_bind_of_settles (hf a)).mpr fun _ _ => ih

theorem forM_eq_ok_iff {f : A → Load Unit} {as : List A} :
    as.forM f = .ok () ↔ ∀ a ∈ as, f a = .ok () := by
  refine ⟨forM_eq_ok, fun h => ?_⟩
  induction as with
  | nil => rfl
  | cons a as ih =>
    exact bind_eq_ok.mpr ⟨(), h a mem_cons_self,
      ih fun b hb => h b (mem_cons_of_mem _ hb)⟩

end Settling

variable (lib : Library)

/-! ### Which documents settle -/

/-- The items of a list have texts. -/
def Written (v : Yaml) : Prop :=
  ∀ items, v = .list items ∨ v = .tuple items → ∀ item ∈ items, Returns (item.text lib.repr)

/-- The interpolations are those that are allowed. -/
def Allowed (term : Str) : Prop :=
  ∀ name ∈ interpolations term, strip lib.runtime name ∈ allowedInterpolations

/-- The pattern is not too long, and compiles. -/
def Compiles (pattern : Str) : Prop :=
  pattern.length ≤ maxRegexLength ∧ lib.compile pattern = .ok ()

/-- The pattern is too long, or compiles, or raises a `re.error`. -/
def PatternSettles (pattern : Str) : Prop :=
  pattern.length ≤ maxRegexLength → ∀ fault, lib.compile pattern ≠ .error (.other fault)

/-- The patterns have texts, each of which settles if those before it compile. -/
def PatternsSettle (v : Yaml) : Prop :=
  Written lib v ∧ ∀ patterns, asTuple lib v = .ok patterns →
    InTurn (Compiles lib) (PatternSettles lib) patterns

/-- The numbers have texts, and what looks like one is one. -/
def NumbersSettle (v : Yaml) : Prop :=
  Written lib v ∧ ∀ texts, asTuple lib v = .ok texts → ∀ s ∈ texts,
    strIsdigit lib.runtime (s.dropWhile (· == '-')) = true → Returns (intOf lib s)

/-- **The matcher settles.** -/
def MatcherSettles (raw : Yaml) : Prop :=
  ∀ d, raw = .dict d →
    (matcherTypes.lookup (lower lib.runtime (textOf (Yaml.get d "type")))).isSome = true →
    (parts.lookup (lower lib.runtime (textIn d "part" "body"))).isSome = true →
      Written lib (Yaml.get d "words") ∧ PatternsSettle lib (Yaml.get d "regex") ∧
        ∀ words patterns, asTuple lib (Yaml.get d "words") = .ok words →
          asTuple lib (Yaml.get d "regex") = .ok patterns → (∀ p ∈ patterns, Compiles lib p) →
          (∀ term ∈ words ++ patterns, Allowed lib term) →
            NumbersSettle lib (Yaml.get d "status") ∧ NumbersSettle lib (Yaml.get d "size")

/-- **The extractor settles.** -/
def ExtractorSettles (raw : Yaml) : Prop :=
  ∀ d, raw = .dict d → ∀ type,
    extractorTypes.lookup (lower lib.runtime (textOf (Yaml.get d "type"))) = some type →
    (parts.lookup (lower lib.runtime (textIn d "part" "body"))).isSome = true →
      PatternsSettle lib (Yaml.get d "regex") ∧
        ∀ patterns, asTuple lib (Yaml.get d "regex") = .ok patterns →
          (∀ p ∈ patterns, Compiles lib p) → Written lib (Yaml.get d "kval") ∧
            ∀ kval, asTuple lib (Yaml.get d "kval") = .ok kval → (type = .regex → patterns ≠ []) →
              (type = .kval → kval ≠ []) → (Yaml.get d "group").truthy = true →
                Returns (lib.int (Yaml.get d "group"))

/-- The header is accepted. -/
def HeaderAccepted (kv : Yaml × Yaml) : Prop :=
  Returns (kv.1.text lib.repr) ∧
    ∃ value, kv.2.text lib.repr = .ok value ∧ Allowed lib value ∧ NoBreak value

/-- **The header settles.** -/
def HeaderSettles (kv : Yaml × Yaml) : Prop :=
  Returns (kv.1.text lib.repr) ∧ Returns (kv.2.text lib.repr) ∧
    ∀ value, kv.2.text lib.repr = .ok value → Allowed lib value → ¬ NoBreak value →
      Returns (lib.repr kv.1)

/-- The keys that are not known can be sorted and written. -/
def KeysSettle (keys : List Str) (d : Yaml.Dict) : Prop :=
  unknownKeys keys d ≠ [] →
    Returns (do lib.repr (.list (← lib.sorted (unknownKeys keys d))))

def requestPlace (index : ℕ) : Str := "request[" ++ digits index ++ "]"

def matcherPlace (index i : ℕ) : Str :=
  requestPlace index ++ ".matchers[" ++ digits i ++ "]"

def extractorPlace (index i : ℕ) : Str :=
  requestPlace index ++ ".extractors[" ++ digits i ++ "]"

/-- The matchers and the extractors of a request settle. -/
def PartsSettle (index : ℕ) (d : Yaml.Dict) (raws : List Yaml) : Prop :=
  InTurn (fun p => Returns (parseMatcher lib (matcherPlace index p.2) p.1))
    (fun p => MatcherSettles lib p.1) raws.zipIdx ∧
  ((∀ p ∈ raws.zipIdx, Returns (parseMatcher lib (matcherPlace index p.2) p.1)) →
    Returns (Yaml.get d "extractors").each ∧
    ∀ items, (Yaml.get d "extractors").each = .ok items →
      InTurn (fun p => Returns (parseExtractor lib (extractorPlace index p.2) p.1))
        (fun p => ExtractorSettles lib p.1) items.zipIdx)

/-- **The request settles.** -/
def RequestSettles (index : ℕ) (raw : Yaml) : Prop :=
  ∀ d, raw = .dict d → KeysSettle lib requestKeys d ∧ (unknownKeys requestKeys d = [] →
    ¬ ((Yaml.get d "redirects").truthy ∨ (Yaml.get d "host-redirects").truthy) →
    lib.upper (textIn d "method" "GET") ∈ allowedMethods →
      Written lib (Yaml.get d "path") ∧ ∀ path, asTuple lib (Yaml.get d "path") = .ok [path] →
        Allowed lib path → (Regex.rematch pathRe (relative path)).isSome = true →
        ¬ ".." <:+: relative path → ∀ entries, headersOf d = some entries →
          InTurn (HeaderAccepted lib) (HeaderSettles lib) entries ∧
            ((∀ kv ∈ entries, HeaderAccepted lib kv) → ∀ raws, matchersOf d = some raws →
              raws.length ≤ maxMatchersPerRequest →
              (conditions.lookup (lower lib.runtime (textIn d "matchers-condition" "and"))).isSome →
                PartsSettle lib index d raws))

/-- The classification can be read. -/
def ClassificationReads (v : Yaml) : Prop :=
  ∀ d, v = .dict d →
    ((Yaml.get d "cvss-score").isNone = false → ∀ fault,
      lib.float (Yaml.get d "cvss-score") = .error fault →
        fault = .typeError ∨ fault = .valueError) ∧
    Written lib (Yaml.get d "cve-id") ∧ Written lib (Yaml.get d "cwe-id")

/-- `doc.get("info") or {}`, if it is a mapping. -/
def infoOf (doc : Yaml.Dict) : Option Yaml.Dict :=
  ((Yaml.get doc "info").orElse (.dict [])).entries?

/-- The requests and the information of a document settle. -/
def BodySettles (info : Yaml.Dict) (raws : List Yaml) : Prop :=
  Written lib (Yaml.get info "tags") ∧
  InTurn (fun p => Returns (parseRequest lib p.2 p.1)) (fun p => RequestSettles lib p.2 p.1)
    raws.zipIdx ∧
  ((∀ p ∈ raws.zipIdx, Returns (parseRequest lib p.2 p.1)) →
    Written lib (Yaml.get info "author") ∧ Written lib (Yaml.get info "reference") ∧
      ClassificationReads lib (Yaml.get info "classification"))

/-- **The document settles.** -/
def DocumentSettles (doc : Yaml.Dict) : Prop :=
  KeysSettle lib topLevelKeys doc ∧ (unknownKeys topLevelKeys doc = [] →
    (Regex.rematch idRe (strip lib.runtime (textOf (Yaml.get doc "id")))).isSome = true →
      ∀ info, infoOf doc = some info → KeysSettle lib infoKeys info ∧
        (unknownKeys infoKeys info = [] →
          (severityByName.lookup (lower lib.runtime (textIn info "severity" "info"))).isSome →
          ∀ raws, requestsOf doc = some raws → raws.length ≤ maxRequestsPerTemplate →
            BodySettles lib info raws))

/-- **The text settles.** -/
def TextSettles (text : Str) : Prop :=
  text.length ≤ maxTemplateBytes → forbiddenIn lib.runtime text = none →
    (∀ fault, lib.safeLoad text ≠ .error (.other fault)) ∧
      ∀ doc, lib.safeLoad text = .ok (.dict doc) → DocumentSettles lib doc

/-! ### The calls of the loader -/

section Calls
variable {lib}

theorem returns_asTuple_iff {v : Yaml} : Returns (asTuple lib v) ↔ Written lib v := by
  unfold Written
  cases v with
  | list items =>
    refine returns_mapM_iff.trans ⟨fun h items' hitems => ?_, fun h => h items (Or.inl rfl)⟩
    rcases hitems with hitems | hitems
    · cases hitems
      exact h
    · cases hitems
  | tuple items =>
    refine returns_mapM_iff.trans ⟨fun h items' hitems => ?_, fun h => h items (Or.inr rfl)⟩
    rcases hitems with hitems | hitems
    · cases hitems
    · cases hitems
      exact h
  | _ =>
    refine iff_of_true (returns_ok _) fun items hitems => ?_
    rcases hitems with hitems | hitems <;> cases hitems

variable {place : Str}

theorem settles_checkInterpolations {value : Str} :
    Settles (checkInterpolations lib place value) :=
  settles_forM (fun _ => settles_require) _

theorem checkInterpolations_eq_ok_iff {value : Str} :
    checkInterpolations lib place value = .ok () ↔ Allowed lib value := by
  unfold checkInterpolations Allowed
  rw [forM_eq_ok_iff]
  exact forall₂_congr fun name _ => require_eq_ok_iff

theorem settles_check_bind_iff {value : Str} {B : Type} {f : Unit → Load B} :
    Settles (checkInterpolations lib place value >>= f) ↔ (Allowed lib value → Settles (f ())) := by
  rw [settles_bind_of_settles settles_checkInterpolations]
  exact ⟨fun h hallowed => h () (checkInterpolations_eq_ok_iff.mpr hallowed),
    fun h _ hok => h (checkInterpolations_eq_ok_iff.mp hok)⟩

theorem settles_checks_bind_iff {terms : List Str} {B : Type} {f : Unit → Load B} :
    Settles (terms.forM (checkInterpolations lib place) >>= f) ↔
      ((∀ term ∈ terms, Allowed lib term) → Settles (f ())) := by
  rw [settles_bind_of_settles (settles_forM (fun _ => settles_checkInterpolations) _)]
  constructor
  · exact fun h hall => h () (forM_eq_ok_iff.mpr fun term hterm =>
      checkInterpolations_eq_ok_iff.mpr (hall term hterm))
  · exact fun h _ hok => h fun term hterm =>
      checkInterpolations_eq_ok_iff.mp (forM_eq_ok_iff.mp hok term hterm)

theorem settles_compile_iff {pattern : Str} :
    Settles (compile lib place pattern) ↔ PatternSettles lib pattern := by
  unfold compile PatternSettles
  rw [settles_require_bind_iff]
  refine imp_congr_right fun _ => ?_
  rcases lib.compile pattern with (error | fault) | ⟨⟩
  · exact iff_of_true (settles_reject _) fun fault h => by cases h
  · exact iff_of_false (not_settles_raised fault) fun h => h fault rfl
  · exact iff_of_true (settles_ok pattern) fun fault h => by cases h

theorem returns_compile_iff {pattern : Str} :
    Returns (compile lib place pattern) ↔ Compiles lib pattern := by
  unfold compile Compiles
  rw [returns_bind_iff_returnsA]
  unfold ReturnsA
  simp only [require_eq_ok_iff]
  refine ⟨fun ⟨u, hlen, h⟩ => ⟨hlen, ?_⟩, fun ⟨hlen, h⟩ => ⟨(), hlen, ?_⟩⟩
  · rcases hcompile : lib.compile pattern with (error | fault) | ⟨⟩
    · rw [hcompile] at h
      exact absurd h (not_returns_error _)
    · rw [hcompile] at h
      exact absurd h (not_returns_error _)
    · rfl
  · rw [h]
    exact returns_ok pattern

theorem settles_patterns_iff {v : Yaml} {B : Type} {f : List Str → Load B} :
    Settles (do f (← (← call (asTuple lib v)).mapM (compile lib place))) ↔
      PatternsSettle lib v ∧ ∀ patterns, asTuple lib v = .ok patterns →
        (∀ p ∈ patterns, Compiles lib p) → Settles (f patterns) := by
  unfold PatternsSettle
  rw [settles_call_bind_iff, returns_asTuple_iff, and_assoc]
  refine and_congr_right fun _ => ?_
  rw [← forall₂_and]
  refine forall₂_congr fun patterns _ => ?_
  rw [settles_bind_iff, settles_mapM_iff,
    inTurn_congr (fun _ => returns_compile_iff) fun _ => settles_compile_iff]
  refine and_congr_right fun _ => ⟨fun h hall => ?_, fun h found hfound => ?_⟩
  · have hcompile : ∀ p ∈ patterns, Returns (compile lib place p) :=
      fun p hp => returns_compile_iff.mpr (hall p hp)
    obtain ⟨found, hfound⟩ := exists_mapM hcompile
    have hsame := h found hfound
    rwa [mapM_compile_eq_ok hfound] at hsame
  · rw [mapM_compile_eq_ok hfound]
    exact h fun p hp => returns_compile_iff.mp (returns_mapM_iff.mp ⟨found, hfound⟩ p hp)

theorem returns_intsOf_iff {v : Yaml} : Returns (intsOf lib v) ↔ NumbersSettle lib v := by
  unfold intsOf NumbersSettle
  rw [returns_bind_iff_returnsA, ← returns_asTuple_iff]
  constructor
  · rintro ⟨texts, htexts, h⟩
    refine ⟨⟨texts, htexts⟩, fun texts' htexts' s hs hdigit => ?_⟩
    cases htexts.symm.trans htexts'
    exact returns_mapM_iff.mp h s (mem_filter.mpr ⟨hs, hdigit⟩)
  · rintro ⟨⟨texts, htexts⟩, h⟩
    refine ⟨texts, htexts, returns_mapM_iff.mpr fun s hs => ?_⟩
    obtain ⟨hmem, hdigit⟩ := mem_filter.mp hs
    exact h texts htexts s hmem hdigit

theorem settles_numbers_iff {v w : Yaml} {B : Type} {f : List ℤ → List ℤ → Load B}
    (hf : ∀ a b, Settles (f a b)) :
    Settles (do f (← call (intsOf lib v)) (← call (intsOf lib w))) ↔
      NumbersSettle lib v ∧ NumbersSettle lib w := by
  rw [← returns_intsOf_iff, ← returns_intsOf_iff]
  refine settles_call_bind_const fun a => ?_
  exact settles_call_bind (hf a)

theorem settles_requireTerms {type : MatcherType} {words regexes : List Str}
    {status sizes : List ℤ} : Settles (requireTerms place type words regexes status sizes) := by
  cases type <;> exact settles_require

theorem settles_parseMatcher_iff {raw : Yaml} :
    Settles (parseMatcher lib place raw) ↔ MatcherSettles lib raw := by
  cases raw with
  | dict d =>
    unfold parseMatcher MatcherSettles
    dsimp only
    rw [settles_named_bind_iff]
    simp only [Yaml.dict.injEq, forall_eq', Option.isSome_iff_exists, forall_exists_index]
    refine forall₂_congr fun type _ => ?_
    rw [settles_named_bind_iff]
    refine forall₂_congr fun part _ => ?_
    rw [settles_call_bind_iff, returns_asTuple_iff]
    simp only [settles_patterns_iff]
    simp only [settles_checks_bind_iff]
    have htail : ∀ {words patterns : List Str} {reason : Str} {f : List ℤ → List ℤ → Condition →
        Matcher} (a b : List ℤ), Settles (do
          requireTerms place type words patterns a b
          let condition ← named conditions (lower lib.runtime (textIn d "condition" "or")) reason
          return f a b condition) := fun a b =>
      (settles_bind_of_settles settles_requireTerms).mpr fun _ _ =>
        settles_named_bind_iff.mpr fun _ _ => settles_ok _
    constructor
    · rintro ⟨hwords, h⟩
      obtain ⟨words, hfound⟩ := returns_asTuple_iff.mpr hwords
      refine ⟨hwords, (h words hfound).1, fun words' patterns hwords' hpatterns hall hallowed => ?_⟩
      exact (settles_numbers_iff htail).mp ((h words' hwords').2 patterns hpatterns hall hallowed)
    · rintro ⟨hwords, hsettle, h⟩
      refine ⟨hwords, fun words hfound => ⟨hsettle, fun patterns hpatterns hall hallowed => ?_⟩⟩
      exact (settles_numbers_iff htail).mpr (h words patterns hfound hpatterns hall hallowed)
  | _ => exact iff_of_true (settles_reject _) fun d h => by cases h

theorem settles_parseExtractor_iff {raw : Yaml} :
    Settles (parseExtractor lib place raw) ↔ ExtractorSettles lib raw := by
  have hgroup : ∀ v : Yaml, Returns (if v.truthy then lib.int v else .ok 0) ↔
      (v.truthy = true → Returns (lib.int v)) := by
    intro v
    split_ifs with h
    · exact ⟨fun hint _ => hint, fun hint => hint h⟩
    · exact iff_of_true (returns_ok 0) fun h' => absurd h' h
  cases raw with
  | dict d =>
    unfold parseExtractor ExtractorSettles
    dsimp only
    rw [settles_named_bind_iff]
    simp only [Yaml.dict.injEq, forall_eq', Option.isSome_iff_exists, forall_exists_index]
    refine forall₂_congr fun type _ => ?_
    rw [settles_named_bind_iff]
    have hlast : ∀ {patterns kval : List Str} {B : Type} {f : ℤ → Load B},
        (∀ group, Settles (f group)) → (Settles (do
          require (type = .regex → patterns ≠ [])
            (place ++ ": regex extractor has no patterns")
          require (type = .kval → kval ≠ []) (place ++ ": kval extractor has no keys")
          f (← call (if (Yaml.get d "group").truthy then lib.int (Yaml.get d "group")
            else .ok 0))) ↔
          ((type = .regex → patterns ≠ []) → (type = .kval → kval ≠ []) →
            (Yaml.get d "group").truthy = true → Returns (lib.int (Yaml.get d "group")))) := by
      intro patterns kval B f hf
      rw [settles_require_bind_iff]
      refine imp_congr_right fun _ => ?_
      rw [settles_require_bind_iff]
      refine imp_congr_right fun _ => ?_
      exact (settles_call_bind hf).trans (hgroup _)
    refine forall₂_congr fun part _ => ?_
    rw [settles_patterns_iff]
    refine and_congr_right fun _ => forall₃_congr fun patterns _ _ => ?_
    rw [settles_call_bind_iff, returns_asTuple_iff]
    exact and_congr_right fun _ => forall₂_congr fun kval _ => hlast fun _ => settles_ok _
  | _ => exact iff_of_true (settles_reject _) fun d h => by cases h

theorem settles_parseHeader_iff {kv : Yaml × Yaml} :
    Settles (parseHeader lib place kv) ↔ HeaderSettles lib kv := by
  unfold parseHeader HeaderSettles
  rw [settles_call_bind_iff]
  simp only [settles_call_bind_iff]
  have hcheck : ∀ key text, (Settles do
      checkInterpolations lib (place ++ ".headers." ++ key) text
      if '\n' ∈ text ∨ '\r' ∈ text then
        reject (place ++ ": header " ++ (← call (lib.repr kv.1)) ++
          " contains a newline")
      else return (key, text)) ↔ (Allowed lib text → ¬ NoBreak text → Returns (lib.repr kv.1)) := by
    intro key text
    rw [settles_bind_of_settles settles_checkInterpolations]
    have hif : Settles (if '\n' ∈ text ∨ '\r' ∈ text then do
          reject (place ++ ": header " ++ (← call (lib.repr kv.1)) ++
            " contains a newline")
        else (return (key, text) : Load (Str × Str))) ↔
          (¬ NoBreak text → Returns (lib.repr kv.1)) := by
      split_ifs with hbreak
      · rw [settles_call_bind fun _ => settles_reject _]
        exact ⟨fun h _ => h, fun h => h fun hno => hbreak.elim hno.1 hno.2⟩
      · exact iff_of_true (settles_ok _) fun h => absurd (not_or.mp hbreak) h
    exact ⟨fun h hallowed => hif.mp (h () (checkInterpolations_eq_ok_iff.mpr hallowed)),
      fun h u hu => hif.mpr (h (checkInterpolations_eq_ok_iff.mp hu))⟩
  simp only [hcheck]
  constructor
  · rintro ⟨⟨value, hvalue⟩, h⟩
    obtain ⟨⟨name, hname⟩, -⟩ := h value hvalue
    exact ⟨⟨name, hname⟩, ⟨value, hvalue⟩, fun value' hvalue' => (h value' hvalue').2 name hname⟩
  · rintro ⟨hname, hvalue, h⟩
    exact ⟨hvalue, fun value hvalue => ⟨hname, fun _ _ => h value hvalue⟩⟩

theorem returns_parseHeader_iff {kv : Yaml × Yaml} :
    Returns (parseHeader lib place kv) ↔ HeaderAccepted lib kv := by
  constructor
  · rintro ⟨header, h⟩
    obtain ⟨hname, hvalue, hbreak, hnames⟩ := parseHeader_eq_ok h
    exact ⟨⟨_, hname⟩, _, hvalue, hnames, hbreak⟩
  · rintro ⟨⟨name, hname⟩, value, hvalue, hnames, hbreak⟩
    refine ⟨(name, value), ?_⟩
    unfold parseHeader
    rw [call_eq_ok_iff.mpr hvalue, ok_bind, call_eq_ok_iff.mpr hname, ok_bind,
      checkInterpolations_eq_ok_iff.mpr hnames, ok_bind, if_neg (not_or.mpr hbreak)]
    rfl

theorem settles_refuseUnknown_bind_iff {keys : List Str} {d : Yaml.Dict} {before after : Str}
    {B : Type} {f : Unit → Load B} : Settles (refuseUnknown lib keys d before after >>= f) ↔
      KeysSettle lib keys d ∧ (unknownKeys keys d = [] → Settles (f ())) := by
  unfold refuseUnknown KeysSettle
  split_ifs with hknown
  · exact ⟨fun h => ⟨fun hne => absurd hknown hne, fun _ => h⟩, fun h => h.2 hknown⟩
  · rw [settles_bind_iff, settles_call_bind fun _ => settles_reject _]
    refine ⟨fun h => ⟨fun _ => h.1, fun h' => absurd h' hknown⟩, fun h => ⟨h.1 hknown, ?_⟩⟩
    intro u hu
    obtain ⟨written, -, hu⟩ := bind_eq_ok.mp hu
    cases hu

theorem settles_parts_iff {index : ℕ} {d : Yaml.Dict} {raws : List Yaml}
    {f : List Matcher → List Extractor → Request} :
    Settles (do
      let matchers ← raws.zipIdx.mapM fun p => parseMatcher lib (matcherPlace index p.2) p.1
      let items ← call (Yaml.get d "extractors").each
      let extractors ← items.zipIdx.mapM fun p =>
        parseExtractor lib (extractorPlace index p.2) p.1
      return f matchers extractors) ↔ PartsSettle lib index d raws := by
  unfold PartsSettle
  have hextractors : ∀ (ms : List Matcher) (items : List Yaml), Settles (do
      let extractors ← items.zipIdx.mapM fun p =>
        parseExtractor lib (extractorPlace index p.2) p.1
      return f ms extractors) ↔
        InTurn (fun p => Returns (parseExtractor lib (extractorPlace index p.2) p.1))
          (fun p => ExtractorSettles lib p.1) items.zipIdx := by
    intro ms items
    rw [settles_mapM_bind_iff (Q := True) fun _ => iff_of_true (settles_pure _) trivial]
    rw [inTurn_congr (fun _ => Iff.rfl) fun _ => settles_parseExtractor_iff]
    exact and_iff_left fun _ => trivial
  rw [settles_mapM_bind_iff fun ms => settles_call_bind_iff.trans
    (and_congr_right fun _ => forall₂_congr fun items _ => hextractors ms items),
    inTurn_congr (fun _ => Iff.rfl) fun _ => settles_parseMatcher_iff]

theorem settles_single_bind_iff {x : Except Fault (List Str)} {reason : List Str → Str} {B : Type}
    {f : Str → Load B} :
    (∀ paths, x = .ok paths → Settles
      (orReject (if paths.length = 1 then paths.head? else none) (reason paths) >>= f)) ↔
      ∀ path, x = .ok [path] → Settles (f path) := by
  have hone : ∀ (paths : List Str) (path : Str),
      (if paths.length = 1 then paths.head? else none) = some path ↔ paths = [path] := by
    intro paths path
    rcases paths with _ | ⟨p, _ | ⟨q, paths⟩⟩ <;> simp
  simp only [settles_orReject_bind_iff, hone]
  exact ⟨fun h path hpath => h _ hpath path rfl, fun h paths hpaths path hpath => by
    subst hpath
    exact h path hpaths⟩

theorem settles_parseRequest_iff {index : ℕ} {raw : Yaml} :
    Settles (parseRequest lib index raw) ↔ RequestSettles lib index raw := by
  cases raw with
  | dict d =>
    unfold parseRequest RequestSettles
    dsimp only
    rw [settles_refuseUnknown_bind_iff]
    simp only [Yaml.dict.injEq, forall_eq']
    refine and_congr_right fun _ => imp_congr_right fun _ => ?_
    rw [settles_require_bind_iff]
    refine imp_congr_right fun _ => ?_
    rw [settles_require_bind_iff]
    refine imp_congr_right fun _ => ?_
    rw [settles_call_bind_iff, returns_asTuple_iff, settles_single_bind_iff]
    refine and_congr_right fun _ => forall₂_congr fun path _ => ?_
    rw [settles_check_bind_iff]
    refine imp_congr_right fun _ => ?_
    rw [settles_require_bind_iff, and_imp]
    refine imp_congr_right fun _ => imp_congr_right fun _ => ?_
    rw [settles_orReject_bind_iff]
    refine forall₂_congr fun entries _ => ?_
    rw [settles_mapM_bind_iff (Q := ∀ raws, matchersOf d = some raws →
      raws.length ≤ maxMatchersPerRequest → ∀ condition, conditions.lookup
        (lower lib.runtime (textIn d "matchers-condition" "and")) = some condition →
          PartsSettle lib index d raws) fun headers => ?_]
    · rw [inTurn_congr (fun _ => returns_parseHeader_iff) fun _ => settles_parseHeader_iff]
      simp only [returns_parseHeader_iff, Option.isSome_iff_exists, forall_exists_index]
    · rw [settles_orReject_bind_iff]
      refine forall₂_congr fun raws _ => ?_
      rw [settles_require_bind_iff, settles_named_bind_iff]
      exact imp_congr_right fun _ => forall₂_congr fun condition _ => settles_parts_iff
  | _ => exact iff_of_true (settles_reject _) fun d h => by cases h

theorem returns_cvssScore_iff {score : Yaml} : Returns (cvssScore lib score) ↔
    (score.isNone = false → ∀ fault, lib.float score = .error fault →
      fault = .typeError ∨ fault = .valueError) := by
  unfold cvssScore
  split_ifs with hnone
  · exact iff_of_true (returns_ok none) fun h => by rw [hnone] at h; cases h
  · simp only [Bool.not_eq_true] at hnone
    rcases hfloat : lib.float score with fault | cvss
    · simp only [hnone, forall_const, Except.error.injEq, forall_eq']
      cases fault with
      | typeError => exact iff_of_true (returns_ok none) (Or.inl rfl)
      | valueError => exact iff_of_true (returns_ok none) (Or.inr rfl)
      | _ => exact iff_of_false (not_returns_error _) fun h => h.elim nofun nofun
    · exact iff_of_true (returns_ok (some cvss)) fun _ fault h => nomatch h

theorem returns_parseClassification_iff {v : Yaml} :
    Returns (parseClassification lib v) ↔ ClassificationReads lib v := by
  unfold ClassificationReads
  cases v with
  | dict d =>
    simp only [Yaml.dict.injEq, forall_eq']
    rw [← returns_cvssScore_iff, ← returns_asTuple_iff, ← returns_asTuple_iff]
    constructor
    · rintro ⟨classification, h⟩
      obtain ⟨cvss, hcvss, h⟩ := bind_eq_ok.mp h
      obtain ⟨cve, hcve, h⟩ := bind_eq_ok.mp h
      obtain ⟨cwe, hcwe, h⟩ := bind_eq_ok.mp h
      exact ⟨⟨cvss, hcvss⟩, ⟨cve, hcve⟩, cwe, hcwe⟩
    · rintro ⟨⟨cvss, hcvss⟩, ⟨cve, hcve⟩, cwe, hcwe⟩
      exact ⟨_, bind_eq_ok.mpr ⟨cvss, hcvss, bind_eq_ok.mpr ⟨cve, hcve,
        bind_eq_ok.mpr ⟨cwe, hcwe, rfl⟩⟩⟩⟩
  | _ => exact iff_of_true (returns_ok _) fun d h => by cases h

theorem settles_readYaml_iff {text source : Str} : Settles (readYaml lib text source) ↔
    ∀ fault, lib.safeLoad text ≠ .error (.other fault) := by
  unfold readYaml
  rcases lib.safeLoad text with (error | fault) | doc
  · exact iff_of_true (settles_reject _) fun fault h => by cases h
  · exact iff_of_false (not_settles_raised fault) fun h => h fault rfl
  · exact iff_of_true (settles_ok doc) fun fault h => by cases h

theorem readYaml_eq_ok_iff {text source : Str} {doc : Yaml} :
    readYaml lib text source = .ok doc ↔ lib.safeLoad text = .ok doc := by
  unfold readYaml reject
  rcases lib.safeLoad text with (error | fault) | found <;> simp

theorem settles_entries_bind_iff {E : Type} {x : Except E Yaml} {reason : Str} {B : Type}
    {f : Yaml.Dict → Load B} :
    (∀ v, x = .ok v → Settles (orReject v.entries? reason >>= f)) ↔
      ∀ d, x = .ok (.dict d) → Settles (f d) := by
  simp only [settles_orReject_bind_iff]
  refine ⟨fun h d hd => h _ hd d rfl, fun h v hv d hd => ?_⟩
  cases v <;> cases hd
  exact h d hv

/-- **A text is accepted or refused** exactly when it settles. -/
theorem settles_loadTemplate_iff {text source : Str} :
    Settles (loadTemplate lib text source) ↔ TextSettles lib text := by
  unfold loadTemplate TextSettles
  rw [settles_require_bind_iff]
  refine imp_congr_right fun _ => ?_
  rcases hfound : forbiddenIn lib.runtime text with _ | ⟨why, found⟩
  · simp only [forall_const]
    rw [settles_bind_iff, settles_readYaml_iff]
    simp only [readYaml_eq_ok_iff]
    rw [settles_entries_bind_iff]
    refine and_congr_right fun _ => forall₂_congr fun doc _ => ?_
    unfold DocumentSettles
    rw [settles_refuseUnknown_bind_iff]
    refine and_congr_right fun _ => imp_congr_right fun _ => ?_
    rw [settles_require_bind_iff]
    refine imp_congr_right fun _ => ?_
    rw [settles_orReject_bind_iff]
    refine forall₂_congr fun info _ => ?_
    rw [settles_refuseUnknown_bind_iff]
    refine and_congr_right fun _ => imp_congr_right fun _ => ?_
    rw [settles_named_bind_iff, Option.isSome_iff_exists, forall_exists_index]
    refine forall₂_congr fun severity _ => ?_
    rw [settles_orReject_bind_iff]
    refine forall₂_congr fun raws _ => ?_
    rw [settles_require_bind_iff]
    refine imp_congr_right fun _ => ?_
    unfold BodySettles
    rw [← returns_asTuple_iff]
    refine settles_call_bind_const fun tags => ?_
    rw [settles_mapM_bind_iff fun requests => settles_call_bind_const fun author =>
      settles_call_bind_const fun reference => settles_call_bind fun _ => settles_pure _,
      inTurn_congr (fun _ => Iff.rfl) fun _ => settles_parseRequest_iff, returns_asTuple_iff,
      returns_asTuple_iff, returns_parseClassification_iff]
  · exact iff_of_true (settles_reject _) fun h => by cases h

end Calls

/-! ### Directories -/

/-- The file can be loaded: its bytes are a text, which settles. -/
def FileSettles (file : File) : Prop :=
  file.content ≠ .error .decode ∧ ∀ text, file.content = .ok text → TextSettles lib text

/-- What becomes of a file: the template of its text, or a refusal under its path. -/
def FileOutcome (file : File) : Template ⊕ Rejection → Prop
  | .inl template =>
    ∃ text, file.content = .ok text ∧ loadTemplate lib text file.name = .ok template
  | .inr rejection => rejection.source = file.path

/-- **Each file is accounted for once**, in order, as an accepted template or as a refusal. -/
def Accounts (files : List File) (accepted : List Template) (rejected : List Rejection) : Prop :=
  ∃ verdicts, List.Forall₂ (FileOutcome lib) files verdicts ∧
    accepted = verdicts.filterMap Sum.getLeft? ∧ rejected = verdicts.filterMap Sum.getRight?

section Directory
variable {lib}

theorem returns_loadFile_iff (l : Loaded) (file : File) :
    Returns (loadFile lib l file) ↔ FileSettles lib file := by
  unfold loadFile FileSettles
  rcases hcontent : file.content with (error | ⟨⟩) | text
  · exact iff_of_true (returns_ok _) ⟨nofun, nofun⟩
  · exact iff_of_false (not_returns_error _) fun h => h.1 rfl
  · simp only [ne_eq, reduceCtorEq, not_false_eq_true, true_and, Except.ok.injEq, forall_eq']
    have hsettles : Settles (loadTemplate lib text file.name) ↔ TextSettles lib text :=
      settles_loadTemplate_iff
    rw [← hsettles]
    rcases loadTemplate lib text file.name with (reason | fault) | template
    · exact iff_of_true (returns_ok _) (settles_reject reason)
    · exact iff_of_false (not_returns_error fault) (not_settles_raised fault)
    · refine iff_of_true ?_ (settles_ok template)
      dsimp only
      split_ifs
      · exact returns_ok _
      · exact returns_ok _

/-- **One file adds its verdict.** -/
theorem loadFile_eq_ok {l l' : Loaded} {file : File} (h : loadFile lib l file = .ok l') :
    ∃ verdict, FileOutcome lib file verdict ∧
      l'.accepted = l.accepted ++ [verdict].filterMap Sum.getLeft? ∧
      l'.rejected = l.rejected ++ [verdict].filterMap Sum.getRight? := by
  have hrefused : ∀ reason, ∃ verdict, FileOutcome lib file verdict ∧
      l.accepted = l.accepted ++ [verdict].filterMap Sum.getLeft? ∧
      l.rejected ++ [⟨file.path, reason⟩] = l.rejected ++ [verdict].filterMap Sum.getRight? :=
    fun reason => ⟨.inr ⟨file.path, reason⟩, rfl, (append_nil _).symm, rfl⟩
  unfold loadFile at h
  rcases hcontent : file.content with (error | ⟨⟩) | text
  · rw [hcontent] at h
    cases h
    exact hrefused _
  · rw [hcontent] at h
    cases h
  · rw [hcontent] at h
    dsimp only at h
    rcases hload : loadTemplate lib text file.name with (reason | fault) | template
    · rw [hload] at h
      cases h
      exact hrefused _
    · rw [hload] at h
      cases h
    · rw [hload] at h
      dsimp only at h
      split_ifs at h
      · cases h
        exact hrefused _
      · cases h
        exact ⟨.inl template, ⟨text, hcontent, hload⟩, rfl, (append_nil _).symm⟩

theorem exists_verdicts {files : List File} : ∀ {l l' : Loaded},
    files.foldlM (loadFile lib) l = .ok l' →
    ∃ verdicts, List.Forall₂ (FileOutcome lib) files verdicts ∧
      l'.accepted = l.accepted ++ verdicts.filterMap Sum.getLeft? ∧
      l'.rejected = l.rejected ++ verdicts.filterMap Sum.getRight? := by
  induction files with
  | nil =>
    intro l l' h
    cases h
    exact ⟨[], .nil, (append_nil _).symm, (append_nil _).symm⟩
  | cons file files ih =>
    intro l l' h
    obtain ⟨m, hfile, hfiles⟩ := bind_eq_ok.mp h
    obtain ⟨verdict, hverdict, haccepted, hrejected⟩ := loadFile_eq_ok hfile
    obtain ⟨verdicts, hverdicts, haccepted', hrejected'⟩ := ih hfiles
    refine ⟨verdict :: verdicts, .cons hverdict hverdicts, ?_, ?_⟩
    · rw [haccepted', haccepted, append_assoc, ← filterMap_append]
      rfl
    · rw [hrejected', hrejected, append_assoc, ← filterMap_append]
      rfl

end Directory

/-- **Which texts and which directories are loaded**: a text is accepted or refused exactly when it
settles, and the files of a directory are accounted for exactly when each of them does. -/
theorem loading_settles_iff :
    (∀ text source, Settles (loadTemplate lib text source) ↔ TextSettles lib text) ∧
    ∀ files, (∃ accepted rejected, loadDirectory lib files = .ok (accepted, rejected) ∧
      Accounts lib files accepted rejected) ↔ ∀ file ∈ files, FileSettles lib file := by
  refine ⟨fun text source => settles_loadTemplate_iff, fun files => ?_⟩
  rw [← returns_foldlM_iff (b := ⟨[], [], []⟩) returns_loadFile_iff]
  constructor
  · rintro ⟨accepted, rejected, h, -⟩
    obtain ⟨l, hl, -⟩ := bind_eq_ok.mp h
    exact ⟨l, hl⟩
  · rintro ⟨l, hl⟩
    obtain ⟨verdicts, hverdicts, haccepted, hrejected⟩ := exists_verdicts hl
    exact ⟨l.accepted, l.rejected, bind_eq_ok.mpr ⟨l, hl, rfl⟩, verdicts, hverdicts,
      haccepted, hrejected⟩

/-! ### A number that escapes -/

/-- The document of a template whose extractors are a number. -/
def numberDocument : Yaml :=
  .dict [(.str "id", .str "abc"), (.str "http", .list [.dict
    ((.str "extractors", .scalar (some "5") true) :: pathRequest "/a")])]

def numberText : Str :=
  pathText "/a" ++ "  extractors: 5\n"

/-- **A number in place of the extractors** is neither accepted nor refused, and its file stops the
directory. -/
theorem number_escapes : ¬ ((∀ (lib : Library) (text source : Str),
      Settles (loadTemplate lib text source)) ∧
    ∀ (lib : Library) (files : List File), ∃ accepted rejected,
      loadDirectory lib files = .ok (accepted, rejected) ∧
        Accounts lib files accepted rejected) := by
  rintro ⟨hsettles, -⟩
  have hraised : (match loadTemplate (plainLibrary numberDocument) numberText "a.yaml" with
      | .error (.raised _) => true
      | _ => false) = true := by decide +kernel
  rcases hsettles (plainLibrary numberDocument) numberText "a.yaml" with
    ⟨template, h⟩ | ⟨reason, h⟩
  · rw [h] at hraised
    cases hraised
  · rw [h] at hraised
    cases hraised

end Guardian.Templates
