import Guardian.Order.Alignment
import Guardian.Python.Matcher

/-!
# Names that look like popular ones

`nearest_popular` compares the name of a dependency with a list of popular names, by an edit
distance that it computes row by row.  It finds the nearest one by the optimal string alignment
distance (`nearestPopular_spec`).
-/

namespace Guardian.Sca

open Python Guardian.Order List

/-! ### `_damerau_levenshtein` -/

/-- The exception of a read behind the end of a list. -/
inductive IndexError
  | mk
  deriving DecidableEq

/-- `l[i]`. -/
def item {A : Type} (l : List A) (i : ℕ) : Except IndexError A :=
  match l[i]? with
  | some x => .ok x
  | none => .error .mk

/-- One round of the inner loop. -/
def cell (a b : Str) (i : ℕ) (prev2 prev cur : List ℕ) (j : ℕ) : Except IndexError (List ℕ) := do
  let x ← item a (i - 1)
  let y ← item b (j - 1)
  let value := min (min ((← item cur (j - 1)) + 1) ((← item prev j) + 1))
    ((← item prev (j - 1)) + if x = y then 0 else 1)
  if 1 < i ∧ 1 < j then
    if x = (← item b (j - 2)) then
      if (← item a (i - 2)) = y then
        return cur.set j (min value ((← item prev2 (j - 2)) + 1))
  return cur.set j value

/-- One round of the outer loop, with the rows `prev2` and `prev`. -/
def row (a b : Str) (rows : List ℕ × List ℕ) (i : ℕ) : Except IndexError (List ℕ × List ℕ) := do
  let cur ← (range' 1 b.length).foldlM (cell a b i rows.1 rows.2)
    (i :: replicate b.length 0)
  return (rows.2, cur)

/-- **`_damerau_levenshtein`.** -/
def damerauLevenshtein (a b : Str) : Except IndexError ℕ :=
  if a = [] then .ok b.length
  else if b = [] then .ok a.length
  else do
    let rows ← (range' 1 a.length).foldlM (row a b) ([], List.range (b.length + 1))
    item rows.2 b.length

theorem item_eq_ok {A : Type} {l : List A} {i : ℕ} {x : A} : item l i = .ok x ↔ l[i]? = some x := by
  unfold item
  cases l[i]? <;> simp

/-- The row holds the distances of a prefix of `a` to the prefixes of `b` up to a length. -/
def Holds (a b : Str) (i j : ℕ) (cur : List ℕ) : Prop :=
  cur.length = b.length + 1 ∧ ∀ k ≤ j, cur[k]? = some (osa a b i k)

/-- The rows hold the distances of a prefix of `a`, and of the one before it. -/
def HoldRows (a b : Str) (i : ℕ) (rows : List ℕ × List ℕ) : Prop :=
  (0 < i → Holds a b (i - 1) b.length rows.1) ∧ Holds a b i b.length rows.2

theorem item_bind {A B : Type} {l : List A} {i : ℕ} {x : A} (h : l[i]? = some x)
    (f : A → Except IndexError B) : (item l i >>= f) = f x := by
  rw [item_eq_ok.mpr h]
  rfl

/-- **A round of the inner loop** writes the distance. -/
theorem cell_eq {a b : Str} {i j : ℕ} {prev2 prev cur : List ℕ} (hi : i < a.length)
    (hj : j < b.length) (hprev2 : 0 < i → Holds a b (i - 1) b.length prev2)
    (hprev : Holds a b i b.length prev) (hcur : Holds a b (i + 1) j cur) :
    cell a b (i + 1) prev2 prev cur (j + 1) = .ok (cur.set (j + 1) (osa a b (i + 1) (j + 1))) := by
  have hx : a[i]? = some a[i] := getElem?_eq_getElem hi
  have hy : b[j]? = some b[j] := getElem?_eq_getElem hj
  unfold cell
  rw [osa_succ, hx, hy]
  simp only [Nat.add_sub_cancel, Option.some.injEq]
  rw [item_bind hx, item_bind hy, item_bind (hcur.2 j le_rfl), item_bind (hprev.2 (j + 1) hj),
    item_bind (hprev.2 j hj.le)]
  by_cases hlater : 1 < i + 1 ∧ 1 < j + 1
  · have hi0 : 0 < i := Nat.lt_of_succ_lt_succ hlater.1
    have hj0 : 0 < j := Nat.lt_of_succ_lt_succ hlater.2
    have hx' : a[i + 1 - 2]? = some a[i - 1] := getElem?_eq_getElem (by omega)
    have hy' : b[j + 1 - 2]? = some b[j - 1] := getElem?_eq_getElem (by omega)
    have hswap : Swapped a b i j ↔ a[i] = b[j - 1] ∧ a[i - 1] = b[j] := by
      unfold Swapped
      rw [hx, hy, getElem?_eq_getElem (by omega : i - 1 < a.length),
        getElem?_eq_getElem (by omega : j - 1 < b.length)]
      simp only [hi0, hj0, true_and, Option.some.injEq]
    rw [if_pos hlater, item_bind hy', item_bind hx',
      item_bind ((hprev2 hi0).2 (j + 1 - 2) (by omega))]
    by_cases hfirst : a[i] = b[j - 1]
    · by_cases hsecond : a[i - 1] = b[j]
      · rw [if_pos hfirst, if_pos hsecond, if_pos (hswap.mpr ⟨hfirst, hsecond⟩)]
        rfl
      · rw [if_pos hfirst, if_neg hsecond, if_neg fun h => hsecond (hswap.mp h).2]
        rfl
    · rw [if_neg hfirst, if_neg fun h => hfirst (hswap.mp h).1]
      rfl
  · have hswap : ¬ Swapped a b i j := fun h =>
      hlater ⟨Nat.succ_lt_succ h.1, Nat.succ_lt_succ h.2.1⟩
    rw [if_neg hlater, if_neg hswap]
    rfl

/-- **A round of the outer loop** computes a row of distances. -/
theorem row_eq {a b : Str} {i : ℕ} {prev2 prev : List ℕ} (hi : i < a.length)
    (hprev2 : 0 < i → Holds a b (i - 1) b.length prev2) (hprev : Holds a b i b.length prev) :
    ∃ cur, row a b (prev2, prev) (i + 1) = .ok (prev, cur) ∧ Holds a b (i + 1) b.length cur := by
  have hstart : Holds a b (i + 1) 0 ((i + 1) :: replicate b.length 0) := by
    refine ⟨by rw [length_cons, length_replicate], fun k hk => ?_⟩
    rw [Nat.le_zero.mp hk, osa_zero_right]
    rfl
  have hround : ∀ j < b.length, ∀ cur, Holds a b (i + 1) j cur →
      ∃ cur', cell a b (i + 1) prev2 prev cur (j + 1) = .ok cur' ∧
        Holds a b (i + 1) (j + 1) cur' := by
    intro j hj cur hcur
    refine ⟨_, cell_eq hi hj hprev2 hprev hcur, by rw [length_set, hcur.1], fun k hk => ?_⟩
    rw [getElem?_set]
    split_ifs with hkj hlt
    · rw [hkj]
    · have := hcur.1
      omega
    · exact hcur.2 k (by omega)
  obtain ⟨cur, hrun, hcur⟩ := exists_foldlM_range' (Holds a b (i + 1)) hround hstart
  exact ⟨cur, bind_eq_ok.mpr ⟨cur, hrun, rfl⟩, hcur⟩

/-- **The rows compute the optimal string alignment distance.** -/
theorem damerauLevenshtein_eq (a b : Str) :
    damerauLevenshtein a b = .ok (osa a b a.length b.length) := by
  unfold damerauLevenshtein
  split_ifs with ha hb
  · rw [ha, length_nil, osa_zero_left]
  · rw [hb, length_nil, osa_zero_right]
  · have hstart : Holds a b 0 b.length (List.range (b.length + 1)) := by
      refine ⟨length_range, fun k hk => ?_⟩
      rw [getElem?_range (by omega), osa_zero_left]
    have hround : ∀ i < a.length, ∀ rows, HoldRows a b i rows →
        ∃ rows', row a b rows (i + 1) = .ok rows' ∧ HoldRows a b (i + 1) rows' := by
      intro i hi rows hrows
      obtain ⟨cur, hrun, hcur⟩ := row_eq hi hrows.1 hrows.2
      exact ⟨_, hrun, fun _ => hrows.2, hcur⟩
    have hrows : HoldRows a b 0 ([], List.range (b.length + 1)) :=
      ⟨fun h => absurd h (Nat.lt_irrefl 0), hstart⟩
    obtain ⟨rows, hrun, -, hrow⟩ := exists_foldlM_range' (HoldRows a b) hround hrows
    exact bind_eq_ok.mpr ⟨rows, hrun, item_eq_ok.mpr (hrow.2 b.length le_rfl)⟩

/-! ### `nearest_popular` -/

/-- The ecosystems with a list. -/
inductive Registry
  | npm
  | pypi
  deriving DecidableEq

/-- `POPULAR_LIST_VERSION`. -/
def popularListVersion : Str := "2026.09.1"

/-- `_POPULAR_NPM`. -/
def popularNpm : List Str :=
  ["react", "react-dom", "lodash", "axios", "express", "chalk", "commander", "debug", "next",
    "webpack", "typescript", "vue", "moment", "request", "async", "bluebird", "underscore",
    "jquery", "babel-core", "eslint", "prettier", "dotenv", "uuid", "classnames", "redux",
    "rxjs", "socket.io", "mongoose", "jsonwebtoken", "bcrypt", "node-fetch", "cross-env",
    "colors", "yargs", "inquirer", "glob", "semver", "ws", "cheerio", "nodemon", "body-parser",
    "cors", "passport", "winston", "mocha", "jest", "chai", "sinon", "ramda",
    "fastify"].map String.toList

/-- `_POPULAR_PYPI`. -/
def popularPypi : List Str :=
  ["requests", "urllib3", "setuptools", "certifi", "idna", "charset-normalizer", "numpy",
    "pyyaml", "six", "python-dateutil", "cryptography", "boto3", "botocore", "click", "jinja2",
    "flask", "django", "fastapi", "pydantic", "sqlalchemy", "pytest", "pandas", "scipy",
    "pillow", "wheel", "packaging", "attrs", "colorama", "tqdm", "beautifulsoup4", "lxml",
    "aiohttp", "httpx", "starlette", "uvicorn", "celery", "redis", "psycopg2", "pymongo",
    "matplotlib", "scikit-learn", "torch", "tensorflow", "openai", "typing-extensions",
    "markupsafe", "werkzeug", "pyjwt", "cffi", "protobuf", "grpcio"].map String.toList

/-- `_POPULAR`. -/
def popular : Registry → List Str
  | .npm => popularNpm
  | .pypi => popularPypi

/-- `_ECOSYSTEM_ALIAS`. -/
def ecosystemAlias : List (Str × Registry) :=
  [("npm", .npm), ("node", .npm), ("pypi", .pypi), ("python", .pypi)]

/-- `TyposquatMatch`. -/
structure TyposquatMatch where
  popular : Str
  distance : ℕ
  listVersion : Str
  deriving DecidableEq

section Search
variable (R : Runtime)

/-- `_PEP503`. -/
def pep503 : Matcher := Matcher.atLeast 1 (Matcher.oneOf "-_.")

/-- `_canonical`. -/
def canonical (name : Str) (ecosystem : Registry) : Str :=
  let n := lower R (strip R name)
  match ecosystem with
  | .pypi => Matcher.sub pep503 (fun _ _ => ['-']) n
  | .npm => if n.head? = some '@' ∧ '/' ∈ n then (partition '/' n).2.2 else n

/-- `_max_distance`. -/
def maxDistance (popular : Str) : ℕ := if popular.length ≤ 6 then 1 else 2

/-- One round of the search for the name `canon`. -/
def nearer (canon : Str) (eco : Registry) (best : Option TyposquatMatch) (original : Str) :
    Except IndexError (Option TyposquatMatch) := do
  let pcanon := canonical R original eco
  let distance ← damerauLevenshtein canon pcanon
  if 1 ≤ distance ∧ distance ≤ maxDistance pcanon ∧
      best.all (fun found => decide (distance < found.distance)) then
    return some ⟨original, distance, popularListVersion⟩
  else return best

/-- **`nearest_popular`.** -/
def nearestPopular (name ecosystem : Str) : Except IndexError (Option TyposquatMatch) :=
  match ecosystemAlias.lookup (lower R ecosystem) with
  | none => .ok none
  | some eco =>
    let canon := canonical R name eco
    if canon.length < 4 then .ok none
    else if canon ∈ (popular eco).map fun p => canonical R p eco then .ok none
    else (popular eco).foldlM (nearer R canon eco) none

/-! ### What is reported -/

/-- The distance of a popular name. -/
def distanceTo (canon : Str) (eco : Registry) (p : Str) : ℕ :=
  osa canon (canonical R p eco) canon.length (canonical R p eco).length

/-- **A popular name is near**: within the threshold that its own length gives. -/
def Near (canon : Str) (eco : Registry) (p : Str) : Prop :=
  distanceTo R canon eco p ≤ maxDistance (canonical R p eco)

/-- **The first of the near names** that has the least distance. -/
def IsNearest (canon : Str) (eco : Registry) (names : List Str) (m : TyposquatMatch) : Prop :=
  ∃ before p after, names = before ++ p :: after ∧
    m = ⟨p, distanceTo R canon eco p, popularListVersion⟩ ∧ Near R canon eco p ∧
    (∀ q ∈ before, Near R canon eco q → distanceTo R canon eco p < distanceTo R canon eco q) ∧
    ∀ q ∈ after, Near R canon eco q → distanceTo R canon eco p ≤ distanceTo R canon eco q

/-- What the search has found in some names. -/
def Found (canon : Str) (eco : Registry) (names : List Str) : Option TyposquatMatch → Prop
  | none => ∀ q ∈ names, ¬ Near R canon eco q
  | some m => IsNearest R canon eco names m

variable {R} {canon : Str} {eco : Registry}

theorem IsNearest.le {names : List Str} {m : TyposquatMatch} (h : IsNearest R canon eco names m)
    {q : Str} (hq : q ∈ names) (hnear : Near R canon eco q) :
    m.distance ≤ distanceTo R canon eco q := by
  obtain ⟨before, p, after, rfl, rfl, -, hbefore, hafter⟩ := h
  rcases mem_append.mp hq with hq | hq
  · exact (hbefore q hq hnear).le
  · rcases mem_cons.mp hq with rfl | hq
    · exact le_rfl
    · exact hafter q hq hnear

theorem found_nearer {names : List Str} {best : Option TyposquatMatch} {p : Str}
    (h : Found R canon eco names best) (hnear : Near R canon eco p)
    (hless : ∀ m ∈ best, distanceTo R canon eco p < m.distance) :
    IsNearest R canon eco (names ++ [p]) ⟨p, distanceTo R canon eco p, popularListVersion⟩ := by
  refine ⟨names, p, [], rfl, rfl, hnear, fun q hq hqnear => ?_, fun q hq => nomatch hq⟩
  cases best with
  | none => exact absurd hqnear (h q hq)
  | some m => exact (hless m rfl).trans_le (IsNearest.le h hq hqnear)

theorem found_not_nearer {names : List Str} {best : Option TyposquatMatch} {p : Str}
    (h : Found R canon eco names best)
    (hnot : ¬ (Near R canon eco p ∧ ∀ m ∈ best, distanceTo R canon eco p < m.distance)) :
    Found R canon eco (names ++ [p]) best := by
  cases best with
  | none =>
    intro q hq hnear
    rcases mem_append.mp hq with hq | hq
    · exact h q hq hnear
    · obtain rfl := mem_singleton.mp hq
      exact hnot ⟨hnear, fun m hm => nomatch hm⟩
  | some m =>
    obtain ⟨before, p', after, rfl, rfl, hnear', hbefore, hafter⟩ := h
    refine ⟨before, p', after ++ [p], by simp, rfl, hnear', hbefore, fun q hq hnear => ?_⟩
    rcases mem_append.mp hq with hq | hq
    · exact hafter q hq hnear
    · obtain rfl := mem_singleton.mp hq
      refine Nat.le_of_not_lt fun hlt => hnot ⟨hnear, fun m hm => ?_⟩
      cases hm
      exact hlt

/-- **A round of the search**, for a name that is not the own one. -/
theorem exists_nearer {names : List Str} {best : Option TyposquatMatch} {p : Str}
    (hne : canon ≠ canonical R p eco) (h : Found R canon eco names best) :
    ∃ best', nearer R canon eco best p = .ok best' ∧ Found R canon eco (names ++ [p]) best' := by
  have hpos : 1 ≤ distanceTo R canon eco p :=
    Nat.pos_of_ne_zero fun hzero => hne (osa_eq_zero_iff.mp hzero)
  have hall : best.all (fun found => decide (distanceTo R canon eco p < found.distance)) = true ↔
      ∀ m ∈ best, distanceTo R canon eco p < m.distance := by
    cases best <;> simp
  unfold nearer
  dsimp only
  rw [damerauLevenshtein_eq]
  by_cases hbetter : Near R canon eco p ∧ ∀ m ∈ best, distanceTo R canon eco p < m.distance
  · exact ⟨_, if_pos ⟨hpos, hbetter.1, hall.mpr hbetter.2⟩, found_nearer h hbetter.1 hbetter.2⟩
  · refine ⟨_, if_neg fun hif => hbetter ⟨hif.2.1, hall.mp hif.2.2⟩, found_not_nearer h hbetter⟩

theorem exists_found {names : List Str} (hown : canon ∉ names.map fun p => canonical R p eco) :
    ∃ best, names.foldlM (nearer R canon eco) none = .ok best ∧ Found R canon eco names best := by
  induction names using reverseRecOn with
  | nil => exact ⟨none, rfl, fun q hq => nomatch hq⟩
  | append_singleton names p ih =>
    rw [map_append, mem_append, not_or, map_singleton, mem_singleton] at hown
    obtain ⟨best, hbest, hfound⟩ := ih hown.1
    obtain ⟨best', hbest', hfound'⟩ := exists_nearer hown.2 hfound
    refine ⟨best', ?_, hfound'⟩
    rw [foldlM_append, hbest]
    exact bind_eq_ok.mpr ⟨best, rfl, bind_eq_ok.mpr ⟨best', hbest', rfl⟩⟩

/-- **What is reported of a dependency.** -/
theorem nearestPopular_spec (R : Runtime) : (∀ a b : Str,
      damerauLevenshtein a b = .ok (osa a b a.length b.length)) ∧
    ∀ (name ecosystem : Str) (eco : Registry),
      ecosystemAlias.lookup (lower R ecosystem) = some eco →
      ∃ best, nearestPopular R name ecosystem = .ok best ∧
        (best = none ↔ (canonical R name eco).length < 4 ∨
          canonical R name eco ∈ (popular eco).map (fun p => canonical R p eco) ∨
          ∀ p ∈ popular eco, ¬ Near R (canonical R name eco) eco p) ∧
        ∀ m, best = some m → IsNearest R (canonical R name eco) eco (popular eco) m := by
  refine ⟨damerauLevenshtein_eq, fun name ecosystem eco hsupported => ?_⟩
  unfold nearestPopular
  rw [hsupported]
  dsimp only
  by_cases hshort : (canonical R name eco).length < 4
  · exact ⟨none, if_pos hshort, iff_of_true rfl (Or.inl hshort), fun m hm => nomatch hm⟩
  rw [if_neg hshort]
  by_cases hown : canonical R name eco ∈ (popular eco).map fun p => canonical R p eco
  · exact ⟨none, if_pos hown, iff_of_true rfl (Or.inr (Or.inl hown)), fun m hm => nomatch hm⟩
  rw [if_neg hown]
  obtain ⟨best, hbest, hfound⟩ := exists_found hown
  refine ⟨best, hbest, ⟨?_, ?_⟩, fun m hm => ?_⟩
  · rintro rfl
    exact Or.inr (Or.inr hfound)
  · rintro (h | h | h)
    · exact absurd h hshort
    · exact absurd h hown
    · cases best with
      | none => rfl
      | some m =>
        obtain ⟨before, p, after, hnames, -, hnear, -⟩ := hfound
        exact absurd hnear (h p (hnames ▸ mem_append_right _ mem_cons_self))
  · rw [hm] at hfound
    exact hfound

/-- A name with two swapped letters: `requests` is meant. -/
theorem nearestPopular_spec_reqeusts :
    nearestPopular .ascii "reqeusts" "PyPI" =
        .ok (some ⟨"requests", 1, popularListVersion⟩) ∧
      IsNearest .ascii (canonical .ascii "reqeusts" .pypi) .pypi (popular .pypi)
        ⟨"requests", 1, popularListVersion⟩ := by
  have hfound : nearestPopular .ascii "reqeusts" "PyPI" =
      .ok (some ⟨"requests", 1, popularListVersion⟩) := by decide +kernel
  obtain ⟨best, hbest, -, hnearest⟩ := (nearestPopular_spec .ascii).2 "reqeusts"
    "PyPI" .pypi (by decide +kernel)
  exact ⟨hfound, hnearest _ (Except.ok.inj (hbest.symm.trans hfound))⟩

end Search

end Guardian.Sca
