import Guardian.Dast.Policy
import Mathlib.Data.List.Chain

/-!
# The limits of a scan

Whatever the application answers, a scan stays in scope, in its budget and under its rate, and ends
(`scan_within_limits`).
-/

namespace Guardian.Dast

open Python Transition

/-- **The limits of the requests**, the last one first. -/
structure Limits (scanner : Scanner) (log : List (Fetch Reason)) : Prop where
  inScope : ∀ f ∈ log, sameScope scanner.runtime scanner.hosts f.url = .ok true
  counted : (log.length : ℤ) ≤ max scanner.limits.maxRequests 0
  spaced : log.IsChain fun later earlier => earlier.start + scanner.limits.interval ≤ later.start
  inTime : ∀ f ∈ log, f.start ≤ scanner.limits.deadline + scanner.limits.interval

/-- What the budget keeps: the limits, and what it remembers of the requests. -/
structure Traffic.Kept (scanner : Scanner) (t : Traffic) : Prop where
  limits : Limits scanner t.wire.log
  spent : t.budget.spent = t.wire.log.length
  last : t.budget.last = t.wire.log.head?.map (·.start)
  past : ∀ last, t.budget.last = some last → last ≤ t.wire.clock

variable {scanner : Scanner}

theorem kept_init (scanner : Scanner) : Traffic.Kept scanner scanner.init.traffic :=
  ⟨⟨(fun _ hf => nomatch hf), le_max_right _ _, .nil, (fun _ hf => nomatch hf)⟩, rfl, rfl,
    (fun _ hl => nomatch hl)⟩

/-! ### One request -/

theorem Limits.cons {f : Fetch Reason} {log : List (Fetch Reason)} (h : Limits scanner log)
    (hscope : sameScope scanner.runtime scanner.hosts f.url = .ok true)
    (hcount : (log.length : ℤ) < scanner.limits.maxRequests)
    (hspaced : ∀ g ∈ log.head?, g.start + scanner.limits.interval ≤ f.start)
    (htime : f.start ≤ scanner.limits.deadline + scanner.limits.interval) :
    Limits scanner (f :: log) := by
  refine ⟨List.forall_mem_cons.mpr ⟨hscope, h.inScope⟩, le_max_of_le_left ?_,
    List.isChain_cons.mpr ⟨hspaced, h.spaced⟩, List.forall_mem_cons.mpr ⟨htime, h.inTime⟩⟩
  rw [List.length_cons]
  omega

/-- **One request** keeps the limits when it is in scope. -/
theorem kept_send {url : Str} (headers : Headers) (reason : Reason)
    (hscope : sameScope scanner.runtime scanner.hosts url = .ok true) {s : State}
    (hs : s.traffic.Kept scanner) :
    ((scanner.send url headers reason s).2.traffic).Kept scanner := by
  have hread := clock_le_read scanner.world s.traffic.wire
  have hpast : ∀ last, s.traffic.budget.last = some last →
      last ≤ (scanner.world.read s.traffic.wire).clock :=
    fun last hlast => (hs.past last hlast).trans hread
  unfold Scanner.send Scanner.take
  dsimp only
  rcases htake : scanner.limits.take s.traffic.budget
    (scanner.world.read s.traffic.wire).clock with ⟨_ | _, clock, budget⟩
  · obtain ⟨hclock, hspent, hlast⟩ := take_refused htake
    refine ⟨hs.limits, hspent.trans hs.spent, hlast.trans hs.last, fun last hl => ?_⟩
    exact (hpast last (hlast ▸ hl)).trans hclock.ge
  · obtain ⟨hcount, hspent, hlast, hspaced, htime⟩ := take_granted htake hpast
    refine ⟨hs.limits.cons hscope (hs.spent ▸ hcount) (fun g hg => hspaced g.start ?_) htime, ?_,
      hlast, fun last hl => ?_⟩
    · rw [hs.last, hg]
      rfl
    · show budget.spent = s.traffic.wire.log.length + 1
      rw [hspent, hs.spent]
    · rw [show budget.last = some last from hl] at hlast
      exact (Option.some.inj hlast).le

/-! ### The whole scan -/

/-- The policy that keeps the limits. -/
def Policy.limits (scanner : Scanner) : Policy where
  raises _ := True
  escape _ := False
  keep t := t.Kept scanner
  allowed _ _ := True
  known _ _ _ := True
  good _ := True

theorem Policy.limits_sound (maxPages maxDepth : ℤ) :
    (Policy.limits scanner).Sound scanner maxPages maxDepth where
  raises _ _ := trivial
  send url headers reason := by
    refine ⟨fun _ _ _ => trivial, fun _ hs => hs, fun hpre s hs => Or.inr ⟨?_, fun _ _ => ?_⟩⟩
    · exact kept_send headers reason hpre.2 hs
    · exact fun _ _ _ => trivial
  site _ := trivial
  target _ _ := trivial
  submit _ _ _ _ _ _ := trivial
  crawl := CrawlRules.sound _ _ _ _ _ (fun _ _ => trivial) fun _ => trivial

/-- The policy of the scans that do not run out of fuel. -/
def Policy.ends : Policy where
  raises e := e ≠ .outOfFuel
  escape _ := False
  keep _ := True
  allowed _ _ := True
  known _ _ _ := True
  good _ := True

theorem Policy.ends_sound (maxPages maxDepth : ℤ) :
    Policy.ends.Sound scanner maxPages maxDepth where
  raises _ he := he
  send url headers reason := by
    refine ⟨fun s e he => ?_, fun _ hs => hs,
      fun _ _ _ => Or.inr ⟨trivial, fun _ _ _ _ _ => trivial⟩⟩
    rcases send_cases scanner url headers reason s with ⟨hret, -⟩ | ⟨_, _, hret, -⟩
    · rw [hret] at he
      cases he
    · rw [hret] at he
      cases he
  site _ := trivial
  target _ _ := trivial
  submit _ _ _ _ _ _ := trivial
  crawl := CrawlRules.sound _ _ _ _ _ (fun _ _ => trivial) fun _ => trivial

/-- **A scan ends**: from some fuel on, more fuel changes nothing. -/
theorem exists_fuel_run (maxPages maxDepth : ℤ) (seeds : List Str) :
    ∃ n, ∀ k, n ≤ k →
      scanner.run maxPages maxDepth k seeds = scanner.run maxPages maxDepth n seeds ∧
        (scanner.run maxPages maxDepth n seeds).1 ≠ .error .outOfFuel := by
  have hsound : Policy.ends.Sound scanner maxPages maxDepth :=
    Policy.ends_sound maxPages maxDepth
  have hfetch : ∀ url depth,
      Ensures Stop.ends True (scanner.crawlFetch url depth) fun _ => True := fun url depth =>
    (Policy.ensures_crawlFetch hsound url depth).weaken (fun _ => trivial) fun _ _ => trivial
  obtain ⟨n, hn⟩ := exists_fuel_crawl hfetch seeds scanner.init
    (R := scanner.runtime) (L := scanner.urls) (P := scanner.pages)
    (C := scanner.crawler maxPages maxDepth)
  refine ⟨n, fun k hk => ⟨Effect.bind_congr _ (hn k hk).1, Effect.bind_ne_error (hn n le_rfl).2 ?_⟩⟩
  exact fun result s he => (Policy.ensures_check hsound seeds result).raises s _ he rfl

/-- **The scan keeps its limits**, whatever the application answers and however time passes: each
request is in scope, there are no more than the budget grants, each one starts an interval after
the one before, none starts later than an interval after the deadline, and the scan ends. -/
theorem scan_within_limits (scanner : Scanner) (maxPages maxDepth : ℤ) (seeds : List Str) :
    (∀ fuel, Limits scanner (scanner.run maxPages maxDepth fuel seeds).2.traffic.wire.log) ∧
      ∃ n, ∀ k, n ≤ k →
        scanner.run maxPages maxDepth k seeds = scanner.run maxPages maxDepth n seeds ∧
          (scanner.run maxPages maxDepth n seeds).1 ≠ .error .outOfFuel := by
  refine ⟨fun fuel => ?_, exists_fuel_run maxPages maxDepth seeds⟩
  rcases Policy.run_spec (Policy.limits_sound maxPages maxDepth) trivial (kept_init scanner) fuel
    seeds with hnever | hkept
  · exact hnever.elim
  · exact hkept.limits

end Guardian.Dast
