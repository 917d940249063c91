import Guardian.Authorization.Host
import Guardian.Python.Regex

/-!
# Ownership of a domain

`normalizeDomain` brings a domain to its canonical form, or refuses it; `ownershipAuthorizes` is the
scope rule of a proof of ownership: a domain covers itself and what lies below it.
-/

namespace Guardian.Authorization

open Python Guardian.Order List

variable (R : Runtime)

/-! ### The canonical form -/

/-- `[a-z0-9-]`. -/
def isLabelChar (c : Char) : Bool := Regex.lowerAZ c || Regex.digit09 c || c == '-'

/-- `(?!-)[a-z0-9-]{1,63}(?<!-)`. -/
def labelRe : Regex :=
  .seq (.notAhead (Regex.exact '-')) (.seq (.cls isLabelChar)
    (.seq (Regex.upTo (.cls isLabelChar) 62) (.notBehind (Regex.exact '-'))))

/-- `_DOMAIN_RE`. -/
def domainRe : Regex :=
  .seq labelRe (.seq (Regex.plus (.seq (.cls (Regex.exact '.')) labelRe)) .eol)

/-- `re.sub(r"^[a-z]+://", "", text)`. -/
def dropUrlScheme (text : Str) : Str :=
  let rest := text.dropWhile Regex.lowerAZ
  if text.takeWhile Regex.lowerAZ ≠ [] ∧ "://" <+: rest then rest.drop 3 else text

/-- The text that `normalize_domain` reads out of a value, before it looks whether this is a
domain. -/
def domainText (value : Str) : Str :=
  let text := dropUrlScheme (lower R (strip R value))
  let text := (partition '?' (partition '/' text).1).1
  let text := (rpartition '@' text).2.2
  rstripChar '.' (partition ':' text).1

/-- `normalize_domain` accepts the text. -/
def IsDomain (text : Str) : Prop :=
  text ≠ [] ∧ text.length ≤ 253 ∧ (Regex.rematch domainRe text).isSome = true

instance (text : Str) : Decidable (IsDomain text) := by
  unfold IsDomain
  infer_instance

/-- `ownership.normalize_domain`; `InvalidDomain` is a `ValueError`. -/
def normalizeDomain (value : Str) : Except Fault Str :=
  if IsDomain (domainText R value) then .ok (domainText R value) else .error .valueError

/-- `ownership.authorizes`. -/
def ownershipAuthorizes (verifiedDomain target : Str) : Bool :=
  match normalizeDomain R verifiedDomain, normalizeDomain R target with
  | .ok verified, .ok candidate => decide (Within '.' verified candidate)
  | _, _ => false

/-- **A stored domain**: the route normalizes what the customer asks for, and the worker's
`create_verification` normalizes it again. -/
def VerifiedDomain (d : Str) : Prop :=
  ∃ s t, normalizeDomain R s = .ok t ∧ normalizeDomain R t = .ok d

/-! ### The characters of a domain -/

def isDomainChar (c : Char) : Bool := isLabelChar c || c == '.'

variable {R}

theorem isAscii_of_isDomainChar {c : Char} (h : isDomainChar c = true) : IsAscii c := by
  simp only [isDomainChar, isLabelChar, Regex.lowerAZ, Regex.digit09, Bool.or_eq_true,
    decide_eq_true_eq, beq_iff_eq] at h
  rcases h with ((h | h) | rfl) | rfl
  · exact Nat.lt_of_le_of_lt (show c.toNat ≤ 'z'.toNat from h.2) (by decide)
  · exact Nat.lt_of_le_of_lt (show c.toNat ≤ '9'.toNat from h.2) (by decide)
  · decide
  · decide

theorem isDomainChar_spec {c : Char} (h : isDomainChar c = true) :
    c.toLower = c ∧ asciiSpace c = false ∧ c ≠ '/' ∧ c ≠ '?' ∧ c ≠ '@' ∧ c ≠ ':' := by
  have hc := isAscii_of_isDomainChar h
  revert h
  exact forall_ascii (P := fun c => isDomainChar c = true →
    c.toLower = c ∧ asciiSpace c = false ∧ c ≠ '/' ∧ c ≠ '?' ∧ c ≠ '@' ∧ c ≠ ':')
    (by decide) hc

theorem onlyChars_labelRe : Regex.OnlyChars (isDomainChar · = true) labelRe := by
  have hcls : Regex.OnlyChars (isDomainChar · = true) (.cls isLabelChar) := by
    intro c hc
    rw [isDomainChar, hc, Bool.true_or]
  exact ⟨trivial, hcls, Regex.onlyChars_upTo hcls 62, trivial⟩

/-- **The characters of an accepted text**: those of a domain, and a newline at its end that `$`
lets through. -/
theorem chars_of_isDomain {text : Str} (h : IsDomain text) :
    ∃ w nl, text = w ++ nl ∧ w ≠ [] ∧ (∀ c ∈ w, isDomainChar c = true) ∧
      (nl = [] ∨ nl = ['\n']) := by
  obtain ⟨u, v, nl, hu, hv, rfl, hnl⟩ := Regex.of_rematch_eol h.2.2
  refine ⟨u ++ v, nl, rfl, ?_, ?_, hnl⟩
  · rcases hu with _ | _ | ⟨_, _ | _ | ⟨h2, _⟩⟩
    obtain ⟨c, -, rfl⟩ := Regex.matches_cls_iff.mp h2
    simp
  · have hdot : Regex.OnlyChars (isDomainChar · = true) (.cls (Regex.exact '.')) := by
      intro c hc
      rw [show c = '.' from by simpa [Regex.exact] using hc]
      rfl
    intro c hc
    rcases mem_append.mp hc with hc | hc
    · exact Regex.of_matches_onlyChars hu onlyChars_labelRe c hc
    · exact Regex.of_matches_onlyChars hv
        ⟨⟨hdot, onlyChars_labelRe⟩, hdot, onlyChars_labelRe⟩ c hc

/-! ### Normalized domains -/

theorem domainText_subset (value : Str) : domainText R value ⊆ lower R (strip R value) := by
  have hscheme : ∀ text : Str, dropUrlScheme text ⊆ text := by
    intro text
    unfold dropUrlScheme
    dsimp only
    split_ifs
    · exact ((drop_sublist _ _).trans (dropWhile_sublist _)).subset
    · exact List.Subset.refl _
  intro c hc
  have hc := partition_subset _ _ (rstripChar_subset _ _ hc)
  exact hscheme _ (partition_subset _ _ (partition_subset _ _ (rpartition_subset _ _ hc)))

theorem hostKey_domainText (value : Str) : hostKey R (domainText R value) = domainText R value := by
  unfold hostKey
  rw [lower_eq_self fun c hc => fixed_of_mem_lower (domainText_subset value hc)]
  unfold domainText
  exact rstripChar_rstripChar _ _

/-- The text read out of a text with the characters of a domain. -/
theorem domainText_of_chars {w nl : Str} (hchars : ∀ c ∈ w, isDomainChar c = true)
    (hnl : nl = [] ∨ nl = ['\n']) : domainText R (w ++ nl) = rstripChar '.' w := by
  have hblank : ∀ c ∈ w, R.isSpace c = false := by
    intro c hc
    rw [R.isSpace_ascii c (isAscii_of_isDomainChar (hchars c hc))]
    exact (isDomainChar_spec (hchars c hc)).2.1
  have hstrip : strip R (w ++ nl) = w := by
    refine strip_append hblank ?_
    rcases hnl with rfl | rfl
    · simp
    · intro c hc
      rw [mem_singleton.mp hc, R.isSpace_ascii _ (by decide)]
      decide
  have hlower : lower R w = w := lower_eq_self fun c hc =>
    fixed_of_ascii (isAscii_of_isDomainChar (hchars c hc)) (isDomainChar_spec (hchars c hc)).1
  have hscheme : dropUrlScheme w = w := by
    unfold dropUrlScheme
    refine if_neg fun h => ?_
    have hslash : '/' ∈ w := (dropWhile_sublist _).subset (h.2.subset (by simp))
    exact absurd (hchars _ hslash) (by decide)
  have hnot : '/' ∉ w ∧ '?' ∉ w ∧ '@' ∉ w ∧ ':' ∉ w := by
    refine ⟨fun h => ?_, fun h => ?_, fun h => ?_, fun h => ?_⟩ <;>
      exact absurd (hchars _ h) (by decide)
  unfold domainText
  simp only [hstrip, hlower, hscheme, partition_eq_self hnot.1, partition_eq_self hnot.2.1,
    rpartition_eq_self hnot.2.2.1, partition_eq_self hnot.2.2.2]

theorem normalizeDomain_ok {value d : Str} (h : normalizeDomain R value = .ok d) :
    domainText R value = d ∧ IsDomain d := by
  unfold normalizeDomain at h
  split_ifs at h with hd
  cases h
  exact ⟨rfl, hd⟩

theorem hostKey_of_normalizeDomain {value d : Str} (h : normalizeDomain R value = .ok d) :
    hostKey R d = d := by
  obtain ⟨rfl, -⟩ := normalizeDomain_ok h
  exact hostKey_domainText value

/-- **A stored domain is its own canonical form**, and has the characters of a domain only. -/
theorem normalizeDomain_fixed {d : Str} (h : VerifiedDomain R d) :
    normalizeDomain R d = .ok d ∧ ∀ c ∈ d, isDomainChar c = true := by
  obtain ⟨s, t, hs, ht⟩ := h
  obtain ⟨-, hdomain⟩ := normalizeDomain_ok hs
  obtain ⟨htext, hd⟩ := normalizeDomain_ok ht
  obtain ⟨w, nl, rfl, hw, hchars, hnl⟩ := chars_of_isDomain hdomain
  rw [domainText_of_chars hchars hnl] at htext
  have hdchars : ∀ c ∈ d, isDomainChar c = true := by
    intro c hc
    rw [← htext] at hc
    exact hchars c (rstripChar_subset _ _ hc)
  have hself : domainText R d = d := by
    have := domainText_of_chars (R := R) hdchars (Or.inl rfl)
    rw [append_nil] at this
    rw [this, ← htext, rstripChar_rstripChar]
  refine ⟨?_, hdchars⟩
  unfold normalizeDomain
  rw [hself, if_pos hd]

/-- **The scope rule** of a stored domain, from the text that is read out of the target. -/
theorem ownershipAuthorizes_iff {d : Str} (h : VerifiedDomain R d) (target : Str) :
    ownershipAuthorizes R d target = true ↔
      IsDomain (domainText R target) ∧ Within '.' d (domainText R target) := by
  unfold ownershipAuthorizes
  rw [(normalizeDomain_fixed h).1]
  unfold normalizeDomain
  by_cases hd : IsDomain (domainText R target)
  · rw [if_pos hd]
    simp [hd]
  · rw [if_neg hd]
    simp [hd]

end Guardian.Authorization
