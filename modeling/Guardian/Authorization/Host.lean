import Guardian.Python.UrlParts
import Guardian.Python.IpAddress
import Guardian.Order.Zone
import Mathlib.Data.Finset.Lattice.Lemmas

/-!
# The host of a target

Three functions of the repository read a host out of a target: `hostOf` (the scan gate, which
parses URLs), `discoveryHostOf` (the discovery gate, which does not) and `egressHosts` (the egress
allow-list of a discovery run, which cuts at the first colon).
-/

namespace Guardian.Authorization

open Python Guardian.Order

variable (R : Runtime)

/-! ### The readings -/

/-- `value.lower().rstrip(".")`, which the scope test compares. -/
def hostKey (value : Str) : Str := rstripChar '.' (lower R value)

/-- The text has a `://`. -/
def IsUrl (text : Str) : Prop := "://" <:+: text

instance (text : Str) : Decidable (IsUrl text) := by
  unfold IsUrl
  infer_instance

/-- A text without the port that ends it. -/
def stripPort (text : Str) : Str :=
  let (host, separator, port) := rpartition ':' text
  if separator && strIsdigit R port then host else text

/-- `authorization.host_of`. -/
def hostOf (identifier : Str) : Except Fault Str := do
  let text := strip R identifier
  if text = [] then return []
  else if IsUrl text then return hostKey R ((← urlHostname R text).getD [])
  else if text.head? = some '[' then return lower R (partition ']' text.tail).1
  else return hostKey R (stripPort R text)

/-- `_host_of` of the discovery gate. -/
def discoveryHostOf (target : Str) : Str :=
  let t := strip R target
  if t.head? = some '[' then (partition ']' t.tail).1 else stripPort R t

/-- `_egress_hosts`. -/
def egressHosts (allowedTargets : List Str) : Finset Str :=
  ((allowedTargets.filter (· ≠ [])).map fun t => (partition ':' t).1).toFinset

/-! ### Keys of hosts -/

variable {R}

theorem lower_rstripChar_lower (c : Char) (s : Str) :
    lower R (rstripChar c (lower R s)) = rstripChar c (lower R s) :=
  lower_eq_self fun _ hd => fixed_of_mem_lower (rstripChar_subset c _ hd)

theorem hostKey_lower (s : Str) : hostKey R (lower R s) = hostKey R s := by
  unfold hostKey
  rw [lower_lower]

@[simp]
theorem hostKey_hostKey (s : Str) : hostKey R (hostKey R s) = hostKey R s := by
  unfold hostKey
  rw [lower_rstripChar_lower, rstripChar_rstripChar]

/-! ### Ports -/

theorem notMem_digits {digits : Str} (h : strIsdigit R digits = true) {c : Char}
    (hascii : IsAscii c) (hc : c.isDigit = false) : c ∉ digits := by
  intro hmem
  unfold strIsdigit at h
  rw [Bool.and_eq_true] at h
  have hdigit := List.all_eq_true.mp h.2 c hmem
  rw [R.isDigit_ascii c hascii, hc] at hdigit
  cases hdigit

@[simp]
theorem stripPort_append {digits : Str} (h : strIsdigit R digits = true) (host : Str) :
    stripPort R (host ++ ':' :: digits) = host := by
  unfold stripPort
  simp only [rpartition_append (notMem_digits h (c := ':') (by decide) (by decide)), h,
    Bool.and_self, if_true]

theorem stripPort_of_not {s t : Str} (ht : ':' ∉ t) (h : strIsdigit R t = false) :
    stripPort R (s ++ ':' :: t) = s ++ ':' :: t := by
  unfold stripPort
  simp only [rpartition_append ht, h, Bool.and_false, Bool.false_eq_true, if_false]

theorem stripPort_of_notMem {s : Str} (h : ':' ∉ s) : stripPort R s = s := by
  have hnone : (rpartition ':' s).2.1 = false := decide_eq_false h
  unfold stripPort
  simp only [hnone, Bool.false_and, Bool.false_eq_true, if_false]

/-- **Without `://` both gates read one host**, its case and a trailing dot aside. -/
theorem hostOf_of_not_url {target : Str} (h : ¬ IsUrl (strip R target)) :
    ∃ host, hostOf R target = .ok host ∧
      hostKey R host = hostKey R (discoveryHostOf R target) := by
  unfold hostOf discoveryHostOf
  by_cases hnil : strip R target = []
  · refine ⟨[], ?_, ?_⟩
    · simp only [hnil]
      rfl
    · rw [hnil]
      rfl
  rw [if_neg hnil, if_neg h]
  by_cases hbracket : (strip R target).head? = some '['
  · simp only [if_pos hbracket]
    exact ⟨_, rfl, hostKey_lower _⟩
  · simp only [if_neg hbracket]
    exact ⟨_, rfl, hostKey_hostKey _⟩

end Guardian.Authorization
