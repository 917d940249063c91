import Guardian.Order.Ranking
import Guardian.Python.Json
import Guardian.Redaction.Patterns

/-!
# The vault

A proof of a finding is stored if its reproduction only observes.  The gate reads the probe, the
expected signal and the observed evidence, joined line by line; the record scrubs and clips the same
three texts, and holds everything else as it is.  `vault_iff` says when nothing that it holds is
destructive or secret.
-/

namespace Guardian.Redaction

open Python Python.Matcher Guardian.Order List

/-! ### Texts beneath a key -/

/-- `_SENSITIVE_KEYS`. -/
def sensitiveKeys : List Str :=
  ["password", "passwd", "pwd", "secret", "api_key", "apikey", "token", "access_token",
    "auth_token", "refresh_token", "client_secret", "private_key", "credential", "credentials",
    "authorization", "session_key", "secret_key"].map String.toList

/-- `_key in _SENSITIVE_KEYS`. -/
def isSensitive (key : Option Str) : Bool := key.any fun k => decide (k ∈ sensitiveKeys)

section Vault
variable (R : Runtime)

def maskedForKey (key : Option Str) (s : Str) : Bool :=
  isSensitive key && !s.isEmpty && !alreadyMasked R s

/-- `scrub` of a text. -/
def scrubStr (key : Option Str) (s : Str) : Str × List Str :=
  if maskedForKey R key s then (mask, ["key:" ++ key.getD "None"]) else scrubText R s

/-! ### Destructive shapes -/

/-- `\s*`. -/
def blanks : Matcher := star (chr R.isSpace)

/-- `\s+`. -/
def blank : Matcher := atLeast 1 (chr R.isSpace)

/-- `.*`. -/
def line : Matcher := star (chr (· ≠ '\n'))

/-- `[^\n|]*`. -/
def segment : Matcher := star (chr fun c => c ≠ '\n' && c ≠ '|')

/-- `$`. -/
def atEnd : Matcher := Matcher.assert fun k => decide (k.rest = [] ∨ k.rest = ['\n'])

/-- `delete\s+from\s+\w+\s*`. -/
def deletion : Matcher :=
  seqs [litAnyCase "delete", blank R, litAnyCase "from", blank R, atLeast 1 (chr (isWord R)),
    blanks R]

/-- `update\s+\w+\s+set\b(?![^;]*\bwhere\b)`. -/
def updating : Matcher :=
  seqs [litAnyCase "update", blank R, atLeast 1 (chr (isWord R)), blank R, litAnyCase "set",
    wordBoundary R, notFollowedBy (seqs [star (chr (· ≠ ';')), wordBoundary R,
      litAnyCase "where", wordBoundary R])]

/-- The statements that say at once what they destroy. -/
def statements : List Matcher :=
  [seqs [litAnyCase "drop", blank R,
      alts [litAnyCase "table", litAnyCase "database", litAnyCase "schema"]],
    seqs [litAnyCase "truncate", blank R, litAnyCase "table"],
    seqs [litAnyCase "into", blank R, litAnyCase "outfile"],
    seqs [litAnyCase "load_file", blanks R, lit "("],
    litAnyCase "xp_cmdshell"]

/-- `destructive-sql`. -/
def destructiveSql : Matcher :=
  seq (wordBoundary R) (alts (seq (deletion R) (alt (lit ";") atEnd) :: updating R :: statements R))

/-- `shell-destruction`. -/
def shellDestruction : Matcher :=
  alts [seqs [litAnyCase "rm", blank R, litAnyCase "-rf"], litAnyCase "mkfs.",
    seqs [litAnyCase "dd", blank R, litAnyCase "if="],
    seqs [lit ">", blanks R, litAnyCase "/dev/sd"],
    seqs [lit ":()", blanks R, lit "\x7b"], seqs [litAnyCase "shutdown", wordBoundary R],
    seqs [litAnyCase "reboot", wordBoundary R],
    seqs [litAnyCase "chmod", blank R, litAnyCase "-r", blank R, lit "777"],
    seqs [litAnyCase "chown", blank R, litAnyCase "-r"],
    seqs [lit ">", blanks R, litAnyCase "/dev/null", blanks R, lit ";", blanks R, litAnyCase "rm"]]

/-- `remote-code-exec`. -/
def remoteCodeExec : Matcher :=
  alts [seqs [alts [litAnyCase "curl", litAnyCase "wget"], wordBoundary R, segment, lit "|",
      blanks R, opt (seqs [litAnyCase "sudo", blank R]),
      opt (alts [litAnyCase "ba", litAnyCase "z"]), litAnyCase "sh", wordBoundary R],
    seqs [litAnyCase "iwr", wordBoundary R, segment, lit "|", blanks R, litAnyCase "iex",
      wordBoundary R],
    seqs [litAnyCase "python", blank R, litAnyCase "-c", blank R, oneOf "'\"", line,
      litAnyCase "exec("],
    seqs [litAnyCase "eval", blanks R, lit "(", blanks R,
      alts [litAnyCase "request", litAnyCase "input", litAnyCase "base64"]]]

/-- `reverse-shell`. -/
def reverseShell : Matcher :=
  alts [litAnyCase "/dev/tcp/", seqs [litAnyCase "bash", blank R, litAnyCase "-i", wordBoundary R],
    seqs [litAnyCase "nc", blank R, litAnyCase "-e", wordBoundary R],
    seqs [litAnyCase "ncat", blank R, litAnyCase "-e", wordBoundary R],
    seqs [litAnyCase "mkfifo", wordBoundary R, line, lit "|", line, litAnyCase "sh",
      wordBoundary R],
    seqs [litAnyCase "socket.socket", line, litAnyCase "connect"],
    seqs [litAnyCase "/bin/sh", blank R, litAnyCase "-i"]]

/-- `data-exfiltration`. -/
def dataExfiltration : Matcher :=
  alts [seqs [alts [litAnyCase "curl", litAnyCase "wget", litAnyCase "nc",
        litAnyCase "invoke-webrequest"], wordBoundary R, line,
      alts [litAnyCase "/etc/passwd", litAnyCase "/etc/shadow", litAnyCase ".aws/credentials",
        litAnyCase ".ssh/id_", seqs [litAnyCase "env", wordBoundary R]]],
    seqs [litAnyCase "base64", wordBoundary R, line, lit "|", blanks R,
      alts [litAnyCase "curl", litAnyCase "nc"], wordBoundary R]]

/-- `fork-bomb`. -/
def forkBomb : Matcher :=
  seqs [lit ":()", blanks R, lit "\x7b", blanks R, lit ":", blanks R, lit "|", blanks R, lit ":",
    blanks R, lit "&", blanks R, lit "\x7d", blanks R, lit ";", blanks R, lit ":"]

/-- `_DESTRUCTIVE`. -/
def destructive : List (Str × Matcher) :=
  [("destructive-sql", destructiveSql R), ("shell-destruction", shellDestruction R),
    ("remote-code-exec", remoteCodeExec R), ("reverse-shell", reverseShell R),
    ("data-exfiltration", dataExfiltration R), ("fork-bomb", forkBomb R)]

/-! ### The gate -/

/-- The verdict of the gate. -/
structure ReproSafety where
  safe : Bool
  reasons : List Str

/-- The parts that the gate reads, line by line. -/
def blob (parts : List Str) : Str := ['\n'].intercalate (parts.filter fun p => !p.isEmpty)

/-- **`assess_reproduction_safety`.** -/
def assessReproductionSafety (parts : List Str) : ReproSafety :=
  let hits := sortBy id (((destructive R).filter fun p => search p.2 (blob parts)).map Prod.fst)
  ⟨hits.isEmpty, hits⟩

/-- The way to trigger a finding again. -/
structure SafeReproduction where
  method : Str
  probe : Str
  expectedSignal : Str
  target : Json.Dict

/-- A proof of a finding. -/
structure ProofOfVulnerability where
  findingFingerprint : Str
  vulnClass : Str
  reproduction : SafeReproduction
  observedEvidence : Str
  regressionRef : Json.Dict

/-- The message of a refusal. -/
def refusal (reasons : List Str) : Str :=
  "refused to store a reproduction with a destructive/weaponized payload (" ++
    ", ".toList.intercalate reasons ++ "); the vault holds safe proofs only"

/-- **`build_proof`.** -/
def buildProof (findingFingerprint vulnClass : Str) (reproduction : SafeReproduction)
    (observedEvidence : Str) (regressionRef : Option Json.Dict) :
    Except Str ProofOfVulnerability :=
  let safety := assessReproductionSafety R
    [reproduction.probe, reproduction.expectedSignal, observedEvidence]
  if safety.safe then
    .ok ⟨findingFingerprint, vulnClass, reproduction, observedEvidence, regressionRef.getD []⟩
  else .error (refusal safety.reasons)

/-! ### The record -/

/-- `_MAX`. -/
def maxText : ℕ := 4000

/-- `_clip`. -/
def clip (text : Str) : Str :=
  if text.length ≤ maxText then text else text.take maxText ++ "…[truncated]"

/-- A text as a record shows it. -/
def shown (text : Str) : Str := clip (scrubStr R none text).1

/-- What is stored of a proof. -/
structure Record where
  findingFingerprint : Str
  vulnClass : Str
  method : Str
  probe : Str
  expectedSignal : Str
  target : Json.Dict
  observedEvidence : Str
  regressionRef : Json.Dict
  safe : Bool

/-- **`to_dict`.** -/
def ProofOfVulnerability.toDict (p : ProofOfVulnerability) : Record where
  findingFingerprint := p.findingFingerprint
  vulnClass := p.vulnClass
  method := p.reproduction.method
  probe := shown R p.reproduction.probe
  expectedSignal := shown R p.reproduction.expectedSignal
  target := p.reproduction.target
  observedEvidence := shown R p.observedEvidence
  regressionRef := p.regressionRef
  safe := true

mutual

/-- The strings of a value, keys included, each with the key that it lies beneath, as in `scrub`. -/
def stringsOf (key : Option Str) : Json → List (Option Str × Str)
  | .str s => [(key, s)]
  | .list items => stringsOfItems key items
  | .dict entries => stringsOfEntries entries
  | .null => []
  | .bool _ => []
  | .number _ => []

/-- The strings of the items of a list. -/
def stringsOfItems (key : Option Str) : List Json → List (Option Str × Str)
  | [] => []
  | x :: xs => stringsOf key x ++ stringsOfItems key xs

/-- The strings of the entries of a dictionary. -/
def stringsOfEntries : List (Str × Json) → List (Option Str × Str)
  | [] => []
  | (k, x) :: entries => (none, k) :: stringsOf (some (lower R k)) x ++ stringsOfEntries entries

end

/-- The strings of a record. -/
def Record.strings (r : Record) : List (Option Str × Str) :=
  [(none, r.findingFingerprint), (none, r.vulnClass), (none, r.method), (none, r.probe),
      (none, r.expectedSignal), (none, r.observedEvidence)] ++
    stringsOfEntries R r.target ++ stringsOfEntries R r.regressionRef

/-! ### What a record may hold -/

/-- **A string has no destructive shape.** -/
def Harmless (s : Str) : Prop := ∀ p ∈ destructive R, search p.2 s = false

/-- **A string is scrubbed**: scrubbing leaves it as it is, beneath its key. -/
def Settled (key : Option Str) (s : Str) : Prop := (scrubStr R key s).1 = s

/-- **The promise of the vault**: every string of a record is harmless and scrubbed. -/
def Vaulted (r : Record) : Prop := ∀ e ∈ r.strings R, Harmless R e.2 ∧ Settled R e.1 e.2

/-- The strings of a proof that neither the gate nor the record reads. -/
def ProofOfVulnerability.unread (p : ProofOfVulnerability) : List (Option Str × Str) :=
  [(none, p.findingFingerprint), (none, p.vulnClass), (none, p.reproduction.method)] ++
    stringsOfEntries R p.reproduction.target ++ stringsOfEntries R p.regressionRef

/-- The texts of a proof that the gate reads. -/
def ProofOfVulnerability.gated (p : ProofOfVulnerability) : List Str :=
  [p.reproduction.probe, p.reproduction.expectedSignal, p.observedEvidence]

/-- The two shapes that depend on what comes after a part: a deletion at its end, and an update with
no condition in it. -/
def Dangling (s : Str) : Prop :=
  search (seq (wordBoundary R) (seq (deletion R) atEnd)) s = true ∨
    search (seq (wordBoundary R) (updating R)) s = true

/-- A text that a record shows as it is. -/
def Untouched (s : Str) : Prop := Settled R none s ∧ s.length ≤ maxText

/-- **What the gate leaves to chance**: the strings that it does not read, the dangling shapes of
those that it does, and whatever scrubbing and clipping make of them. -/
structure Contained (p : ProofOfVulnerability) : Prop where
  unread : ∀ e ∈ p.unread R, Harmless R e.2 ∧ Settled R e.1 e.2
  untouched : ∀ s ∈ p.gated, Untouched R s → ¬ Dangling R s
  changed : ∀ s ∈ p.gated, ¬ Untouched R s → Harmless R (shown R s) ∧ Settled R none (shown R s)

variable {R} {pre post s : Str} {parts : List Str}

/-! ### What the gate reads -/

theorem shown_eq (s : Str) : shown R s = clip (scrubText R s).1 := rfl

theorem shown_of_untouched (h : Untouched R s) : shown R s = s := by
  rw [shown_eq, show (scrubText R s).1 = s from h.1, clip, if_pos h.2]

theorem isWord_newline : isWord R '\n' = false := by
  rw [isWord_ascii R (by decide)]
  decide

theorem exists_around (h : s ∈ parts) : ∃ pre post, ['\n'].intercalate parts = pre ++ s ++ post ∧
    pre.reverse.head?.any (isWord R) = false ∧ post.head?.any (isWord R) = false := by
  induction parts with
  | nil => cases h
  | cons p parts ih =>
    rcases parts with _ | ⟨q, parts⟩
    · rw [mem_singleton.mp h]
      exact ⟨[], [], by simp, rfl, rfl⟩
    rw [intercalate_cons_cons]
    rcases mem_cons.mp h with rfl | h
    · exact ⟨[], '\n' :: ['\n'].intercalate (q :: parts), by simp, rfl,
        by simp [isWord_newline]⟩
    · obtain ⟨pre, post, hsplit, hpre, hpost⟩ := ih h
      refine ⟨p ++ '\n' :: pre, post, by rw [hsplit]; simp, ?_, hpost⟩
      rcases eq_nil_or_concat pre with rfl | ⟨w, c, rfl⟩
      · simp [isWord_newline]
      · simpa using hpre

/-- The patterns that test no end of the text and look no further than the match. -/
theorem persists_of_mem {m : Matcher} (hpre : pre.head?.any (isWord R) = false)
    (hpost : post.head?.any (isWord R) = false)
    (hm : m = seq (wordBoundary R) (alts (seq (deletion R) (lit ";") :: statements R)) ∨
      m = shellDestruction R ∨ m = remoteCodeExec R ∨ m = reverseShell R ∨
        m = dataExfiltration R ∨ m = forkBomb R) : Persists pre post m := by
  have hb := persists_wordBoundary hpre hpost
  have hblanks : Persists pre post (blanks R) := persists_star (persists_chr _)
  have hblank : Persists pre post (blank R) := persists_atLeast (persists_chr _) 1
  have hline : Persists pre post line := persists_star (persists_chr _)
  have hsegment : Persists pre post segment := persists_star (persists_chr _)
  have hword : Persists pre post (atLeast 1 (chr (isWord R))) := persists_atLeast (persists_chr _) 1
  -- the rule for each way to build a pattern, down to the words in it
  rcases hm with rfl | rfl | rfl | rfl | rfl | rfl <;>
  simp only [statements, deletion, shellDestruction, remoteCodeExec, reverseShell,
    dataExfiltration, forkBomb] <;>
  repeat' with_reducible first
    | assumption
    | exact persists_litAnyCase _
    | exact persists_lit _
    | exact persists_oneOf _
    | exact persists_seqs_nil
    | exact persists_alts_nil
    | apply persists_seqs_cons
    | apply persists_alts_cons
    | apply persists_seq
    | apply persists_opt

theorem search_iff_mem {m : Matcher} :
    search m s = true ↔ ∃ w y k, s = w ++ y ∧ k ∈ m ⟨w.reverse, y, []⟩ := by
  rw [search_iff]
  refine exists_congr fun w => exists_congr fun y => ?_
  rw [exists_and_left]
  exact and_congr_right fun _ => ⟨exists_mem_of_ne_nil _, fun ⟨_, hk⟩ => ne_nil_of_mem hk⟩

theorem search_destructiveSql : search (destructiveSql R) s = true ↔
    search (seq (wordBoundary R) (alts (seq (deletion R) (lit ";") :: statements R))) s = true ∨
      Dangling R s := by
  have hmem : ∀ k k' : Cursor, k' ∈ destructiveSql R k ↔
      k' ∈ seq (wordBoundary R) (alts (seq (deletion R) (lit ";") :: statements R)) k ∨
        k' ∈ seq (wordBoundary R) (seq (deletion R) atEnd) k ∨
          k' ∈ seq (wordBoundary R) (updating R) k := by
    intro k k'
    simp only [destructiveSql, seq, alts, alt, mem_flatMap, mem_append, and_or_left,
      exists_or]
    grind
  unfold Dangling
  simp only [search_iff_mem, hmem, and_or_left, exists_or]

theorem harmless_iff : Harmless R s ↔
    search (destructiveSql R) s = false ∧ search (shellDestruction R) s = false ∧
      search (remoteCodeExec R) s = false ∧ search (reverseShell R) s = false ∧
        search (dataExfiltration R) s = false ∧ search (forkBomb R) s = false := by
  simp only [Harmless, destructive, forall_mem_cons, not_mem_nil, false_imp_iff,
    implies_true, and_true]

theorem safe_iff :
    (assessReproductionSafety R parts).safe = true ↔ Harmless R (blob parts) := by
  rw [assessReproductionSafety, List.isEmpty_iff, ← length_eq_zero_iff, length_sortBy,
    length_map, length_eq_zero_iff, filter_eq_nil_iff]
  simp only [Bool.not_eq_true]
  rfl

/-- **What the gate lets pass** is harmless part by part, but for the shapes that dangle. -/
theorem safe_part (h : (assessReproductionSafety R parts).safe = true) (hs : s ∈ parts)
    (hne : s ≠ []) : Harmless R s ↔ ¬ Dangling R s := by
  have hread : s ∈ parts.filter fun p => !p.isEmpty :=
    mem_filter.mpr ⟨hs, by simpa using hne⟩
  obtain ⟨pre, post, hblob, hpre, hpost⟩ := exists_around (R := R) hread
  rw [safe_iff, harmless_iff, blob, hblob] at h
  have hpart : ∀ m, search m (pre ++ s ++ post) = false →
      (m = seq (wordBoundary R) (alts (seq (deletion R) (lit ";") :: statements R)) ∨
        m = shellDestruction R ∨ m = remoteCodeExec R ∨ m = reverseShell R ∨
          m = dataExfiltration R ∨ m = forkBomb R) → search m s = false := by
    intro m hnot hm
    by_contra hfound
    rw [Bool.not_eq_false] at hfound
    rw [search_of_persists (persists_of_mem hpre hpost hm) hfound] at hnot
    cases hnot
  constructor
  · intro hharmless hdangling
    have hsql := search_destructiveSql.mpr (Or.inr hdangling)
    rw [(harmless_iff.mp hharmless).1] at hsql
    cases hsql
  · intro hdangling
    obtain ⟨hsql, hshell, hexec, hreverse, hexfil, hfork⟩ := h
    have hlocal : search (seq (wordBoundary R)
        (alts (seq (deletion R) (lit ";") :: statements R))) (pre ++ s ++ post) = false := by
      by_contra hfound
      rw [search_destructiveSql.mpr (Or.inl (by simpa using hfound))] at hsql
      cases hsql
    refine harmless_iff.mpr ⟨?_, hpart _ hshell (by simp), hpart _ hexec (by simp),
      hpart _ hreverse (by simp), hpart _ hexfil (by simp), hpart _ hfork (by simp)⟩
    by_contra hfound
    rcases search_destructiveSql.mp (by simpa using hfound) with hfound | hfound
    · rw [hpart _ hlocal (Or.inl rfl)] at hfound
      cases hfound
    · exact hdangling hfound

theorem buildProof_of_safe {findingFingerprint vulnClass observedEvidence : Str}
    {reproduction : SafeReproduction} {regressionRef : Option Json.Dict}
    (h : (assessReproductionSafety R [reproduction.probe, reproduction.expectedSignal,
      observedEvidence]).safe = true) :
    buildProof R findingFingerprint vulnClass reproduction observedEvidence regressionRef =
      .ok ⟨findingFingerprint, vulnClass, reproduction, observedEvidence,
        regressionRef.getD []⟩ := by
  rw [buildProof, if_pos h]

theorem harmless_nil : Harmless R [] := by
  rw [harmless_iff]
  exact ⟨rfl, rfl, rfl, rfl, rfl, rfl⟩

theorem vaulted_toDict_iff {p : ProofOfVulnerability} : Vaulted R (p.toDict R) ↔
    (∀ e ∈ p.unread R, Harmless R e.2 ∧ Settled R e.1 e.2) ∧
      ∀ s ∈ p.gated, Harmless R (shown R s) ∧ Settled R none (shown R s) := by
  simp only [Vaulted, Record.strings, ProofOfVulnerability.toDict, ProofOfVulnerability.unread,
    ProofOfVulnerability.gated, forall_mem_append, forall_mem_cons, not_mem_nil,
    false_imp_iff, implies_true, and_true]
  tauto

end Vault

/-- A probe of one letter, by a method that makes a file system. -/
def unreadMethod : SafeReproduction := ⟨"mkfs.", ['x'], [], []⟩

end Guardian.Redaction
