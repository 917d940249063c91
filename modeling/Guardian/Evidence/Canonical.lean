import Guardian.Python.Json

/-!
# What is written down of a piece of evidence

`_canonical` turns a piece of evidence into a dictionary, drops what has a sensitive name, masks what
looks like a credential, and writes the dictionary as JSON.
-/

namespace Guardian.Evidence

open Python

/-! ### What the sources call from elsewhere -/

/-- **The libraries**: SHA-256 in hexadecimal, `json.dumps` with sorted keys, `json.loads`, and the
patterns of the credential scrubber. -/
structure Library where
  runtime : Runtime
  sha256 : Str → Str
  dumps : Json → Str
  loads : Str → Json
  alreadyMasked : Str → Bool
  scrubText : Str → Str × List Str

/-- **What the hash chain rests on**: no two texts with one digest, digests that are written without
an opening brace, with which every dictionary starts, and JSON that is read back as it was
written. -/
structure Library.Sound (L : Library) : Prop where
  injective : Function.Injective L.sha256
  digest_ne_nil : ∀ s, L.sha256 s ≠ []
  brace_notMem : ∀ s, '\x7b' ∉ L.sha256 s
  dumps_dict : ∀ entries, ∃ rest, L.dumps (.dict entries) = '\x7b' :: rest
  dumps_loads : ∀ j, L.dumps (L.loads (L.dumps j)) = L.dumps j

variable (L : Library)

/-! ### Scrubbing -/

/-- `_SENSITIVE_KEYS` of the evidence module. -/
def sensitiveNames : List Str :=
  ["secret", "credential", "password", "passwd", "token",
    "api_key", "apikey", "private_key", "authorization",
    "cookie", "session"]

/-- `_SENSITIVE_KEYS` of the redaction module. -/
def sensitiveKeys : List Str :=
  ["password", "passwd", "pwd", "secret", "api_key",
    "apikey", "token", "access_token", "auth_token",
    "refresh_token", "client_secret", "private_key", "credential",
    "credentials", "authorization", "session_key", "secret_key"]

/-- The name of an entry contains a sensitive word. -/
def sensitiveName (key : Str) : Bool :=
  sensitiveNames.any fun word => word <:+: lower L.runtime key

mutual

/-- `_scrub` of the evidence module. -/
def scrubNames : Json → Json
  | .dict entries => .dict (scrubNamesEntries entries)
  | .list items => .list (scrubNamesItems items)
  | value => value

/-- `_scrub` on the items of a list. -/
def scrubNamesItems : List Json → List Json
  | [] => []
  | item :: items => scrubNames item :: scrubNamesItems items

/-- `_scrub` on the entries of a dictionary. -/
def scrubNamesEntries : List (Str × Json) → List (Str × Json)
  | [] => []
  | (key, value) :: entries =>
    if sensitiveName L key then scrubNamesEntries entries
    else (key, scrubNames value) :: scrubNamesEntries entries

end

/-- `MASK`. -/
def mask : Str := "[redacted]"

mutual

/-- `scrub` of the redaction module: the value, and which patterns fired. -/
def scrub (key : Option Str) : Json → Json × List Str
  | .dict entries =>
    let scrubbed := scrubEntries entries
    (.dict scrubbed.1, scrubbed.2)
  | .list items =>
    let scrubbed := scrubItems key items
    (.list scrubbed.1, scrubbed.2)
  | .str s =>
    match key with
    | some k =>
      if k ∈ sensitiveKeys ∧ s ≠ [] ∧ L.alreadyMasked s = false then
        (.str mask, ["key:" ++ k])
      else (.str (L.scrubText s).1, (L.scrubText s).2)
    | none => (.str (L.scrubText s).1, (L.scrubText s).2)
  | value => (value, [])

/-- `scrub` on the items of a list. -/
def scrubItems (key : Option Str) : List Json → List Json × List Str
  | [] => ([], [])
  | item :: items =>
    let first := scrub key item
    let rest := scrubItems key items
    (first.1 :: rest.1, first.2 ++ rest.2)

/-- `scrub` on the entries of a dictionary. -/
def scrubEntries : List (Str × Json) → List (Str × Json) × List Str
  | [] => ([], [])
  | (key, value) :: entries =>
    let first := scrub (some (lower L.runtime key)) value
    let rest := scrubEntries entries
    ((key, first.1) :: rest.1, first.2 ++ rest.2)

end

/-! ### The canonical text -/

/-- `RawEvidence`. -/
structure RawEvidence where
  tool : Str
  executionId : Str
  target : Str
  kind : Str
  data : Json.Dict
  provenance : Json.Dict
  confidence : ℕ
  occurredAt : Str

/-- `evidence_to_wire`, with the scrubbed data and provenance. -/
def wire (e : RawEvidence) : Json.Dict :=
  [("tool", .str e.tool), ("execution_id", .str e.executionId),
    ("target", .str e.target), ("kind", .str e.kind),
    ("data", scrubNames L (.dict e.data)),
    ("provenance", scrubNames L (.dict e.provenance)),
    ("confidence", .number (Nat.repr e.confidence).toList),
    ("occurred_at", .str e.occurredAt)]

/-- **`_canonical`**: the JSON, and the patterns that fired. -/
def canonical (e : RawEvidence) : Str × List Str :=
  let redacted := scrub L none (.dict (wire L e))
  (L.dumps redacted.1, redacted.2)

theorem canonical_dict (e : RawEvidence) : ∃ entries, (canonical L e).1 = L.dumps (.dict entries) :=
  ⟨(scrubEntries L (wire L e)).1, by rw [canonical, scrub]⟩

end Guardian.Evidence
