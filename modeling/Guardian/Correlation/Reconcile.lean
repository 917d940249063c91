import Guardian.Correlation.Fingerprint
import Guardian.Correlation.Session

/-!
# Reconciled runs

A run writes its groups over the tables one after the other.  Of the writes that hit a row the last
one counts, so that the tables after some groups are those before the run, under a log of writes,
and new rows; what waits to be flushed is told by the groups so far.  `Persisted` says so, and
`correlateTenant_reconciles_iff` which runs leave reconciled tables.
-/

namespace Guardian.Correlation

open Python Findings Guardian.Order List

/-! ### The writes of a run -/

def pointed : List (Group × ℕ) → FindingRow → FindingRow :=
  overlay (fun p f => decide (f.finding.id ∈ p.1.members)) fun p f =>
    { f with correlationId := some p.2 }

def refreshed : List (Group × ℕ) → ℕ × FindingCorrelation → ℕ × FindingCorrelation :=
  overlay (fun p r => decide (r.1 = p.2)) fun p r => (r.1, p.1.refresh r.2)

def relisted : List (Group × ℕ) → FindingCorrelationMember → FindingCorrelationMember :=
  overlay (fun p r => decide (r.correlationId = p.2 ∧ r.findingId ∈ p.1.members)) fun p r =>
    p.1.refreshMember r

section Writes
variable (done : List (Group × ℕ)) (g : Group) (id : ℕ)

theorem pointed_concat (f : FindingRow) :
    pointed (done ++ [(g, id)]) f = g.writePointer id (pointed done f) := by
  refine (overlay_concat ?_ done (g, id) f).trans (if_congr decide_eq_true_iff rfl rfl)
  exact ⟨fun _ _ _ => rfl, fun _ _ _ => rfl⟩

theorem refreshed_concat (r : ℕ × FindingCorrelation) :
    refreshed (done ++ [(g, id)]) r = g.writeRow id (refreshed done r) := by
  refine (overlay_concat ?_ done (g, id) r).trans (if_congr decide_eq_true_iff rfl rfl)
  exact ⟨fun _ _ _ => rfl, fun _ _ _ => rfl⟩

theorem relisted_concat (r : FindingCorrelationMember) :
    relisted (done ++ [(g, id)]) r = g.writeListed id (relisted done r) := by
  refine (overlay_concat ?_ done (g, id) r).trans (if_congr decide_eq_true_iff rfl rfl)
  exact ⟨fun _ _ _ => rfl, fun _ _ _ => rfl⟩

theorem exists_pointed {done : List (Group × ℕ)} {p : Group × ℕ} (hp : p ∈ done) {f : FindingRow}
    (hm : f.finding.id ∈ p.1.members) :
    ∃ v ∈ done, f.finding.id ∈ v.1.members ∧
      pointed done f = { f with correlationId := some v.2 } := by
  obtain ⟨v, hv, hhit, heq⟩ := @exists_overlay _ _
    (fun (p : Group × ℕ) (f : FindingRow) => decide (f.finding.id ∈ p.1.members))
    (fun p f => { f with correlationId := some p.2 }) done p f hp (decide_eq_true hm)
  exact ⟨v, hv, of_decide_eq_true hhit, heq⟩

theorem pointed_of_not_mem {done : List (Group × ℕ)} {f : FindingRow}
    (h : ¬ ∃ p ∈ done, f.finding.id ∈ p.1.members) : pointed done f = f :=
  overlay_of_not_hits fun p hp hhit => h ⟨p, hp, of_decide_eq_true hhit⟩

@[simp] theorem pointed_finding (f : FindingRow) : (pointed done f).finding = f.finding :=
  overlay_keeps FindingRow.finding (by intros; rfl) done f

@[simp] theorem pointed_tenantId (f : FindingRow) : (pointed done f).tenantId = f.tenantId :=
  overlay_keeps FindingRow.tenantId (by intros; rfl) done f

@[simp] theorem refreshed_fst (r : ℕ × FindingCorrelation) : (refreshed done r).1 = r.1 :=
  overlay_keeps Prod.fst (by intros; rfl) done r

@[simp] theorem refreshed_tenantId (r : ℕ × FindingCorrelation) :
    (refreshed done r).2.tenantId = r.2.tenantId :=
  overlay_keeps (fun r => r.2.tenantId) (by intros; rfl) done r

@[simp] theorem refreshed_customerId (r : ℕ × FindingCorrelation) :
    (refreshed done r).2.customerId = r.2.customerId :=
  overlay_keeps (fun r => r.2.customerId) (by intros; rfl) done r

@[simp] theorem refreshed_fingerprint (r : ℕ × FindingCorrelation) :
    (refreshed done r).2.fingerprint = r.2.fingerprint :=
  overlay_keeps (fun r => r.2.fingerprint) (by intros; rfl) done r

@[simp] theorem relisted_key (r : FindingCorrelationMember) : (relisted done r).key = r.key :=
  overlay_keeps FindingCorrelationMember.key (by intros; rfl) done r

@[simp] theorem relisted_correlationId (r : FindingCorrelationMember) :
    (relisted done r).correlationId = r.correlationId :=
  overlay_keeps FindingCorrelationMember.correlationId (by intros; rfl) done r

@[simp] theorem writeRow_fst (r : ℕ × FindingCorrelation) : (g.writeRow id r).1 = r.1 := by
  unfold Group.writeRow
  split_ifs <;> rfl

@[simp] theorem writeRow_tenantId (r : ℕ × FindingCorrelation) :
    (g.writeRow id r).2.tenantId = r.2.tenantId := by
  unfold Group.writeRow
  split_ifs <;> rfl

@[simp] theorem writeRow_customerId (r : ℕ × FindingCorrelation) :
    (g.writeRow id r).2.customerId = r.2.customerId := by
  unfold Group.writeRow
  split_ifs <;> rfl

@[simp] theorem writeRow_fingerprint (r : ℕ × FindingCorrelation) :
    (g.writeRow id r).2.fingerprint = r.2.fingerprint := by
  unfold Group.writeRow
  split_ifs <;> rfl

@[simp] theorem writeListed_key (r : FindingCorrelationMember) :
    (g.writeListed id r).key = r.key := by
  unfold Group.writeListed
  split_ifs <;> rfl

end Writes

/-! ### Members that wait -/

section Waiting
variable {digest : Str → Str} {tenant : Uuid} {db : Database}

theorem Flushed.named {before : List Group} {fingerprint : Str} {m : Uuid}
    (h : Flushed digest tenant db before fingerprint m) : Named digest before fingerprint m := by
  obtain ⟨earlier, k, later, rfl, -, g, hg, hm⟩ := h
  exact ⟨g, mem_append_left _ hg, hm⟩

theorem flushed_concat {before : List Group} {g : Group} {fingerprint : Str} {m : Uuid} :
    Flushed digest tenant db (before ++ [g]) fingerprint m ↔
      Flushed digest tenant db before fingerprint m ∨
        (Opens digest tenant db before g ∧ Named digest before fingerprint m) := by
  constructor
  · rintro ⟨earlier, k, later, heq, hopens, hnamed⟩
    rcases eq_nil_or_concat later with rfl | ⟨later', l, rfl⟩
    · obtain ⟨rfl, hk⟩ := append_inj' heq rfl
      rw [List.cons.injEq] at hk
      exact Or.inr ⟨hk.1 ▸ hopens, hnamed⟩
    · rw [concat_eq_append, ← cons_append, ← append_assoc] at heq
      exact Or.inl ⟨earlier, k, later', (append_inj' heq rfl).1, hopens, hnamed⟩
  · rintro (⟨earlier, k, later, rfl, hopens, hnamed⟩ | ⟨hopens, hnamed⟩)
    · exact ⟨earlier, k, later ++ [g], by simp, hopens, hnamed⟩
    · exact ⟨before, g, [], rfl, hopens, hnamed⟩

theorem Opens.not_named {before : List Group} {g : Group} (h : Opens digest tenant db before g)
    {m : Uuid} : ¬ Named digest before (g.fingerprint digest) m := by
  rintro ⟨k, hk, heq, -⟩
  exact h.2 k hk heq

end Waiting

/-! ### After some groups -/

theorem eq_of_finds {digest : Str → Str} {tenant : Uuid} {g : Group}
    {rows : List (ℕ × FindingCorrelation)}
    (hrows : (rows.map fun r => (r.2.tenantId, r.2.fingerprint)).Nodup)
    {r r' : ℕ × FindingCorrelation} (hr : r ∈ rows) (hr' : r' ∈ rows)
    (h : g.Finds digest tenant r.2) (h' : g.Finds digest tenant r'.2) : r = r' :=
  inj_on_of_nodup_map hrows hr hr' (Prod.ext (h.1.trans h'.1.symm) (h.2.trans h'.2.symm))

variable (digest : Str → Str) (scope : Scope) (db : Database)

/-- **The tables after some groups**: those that have their rows, and those that have listed their
members as well. -/
structure Persisted (entered done : List (Group × ℕ)) (s : Session) : Prop where
  findings : s.db.findings = db.findings.map (pointed done)
  correlations : ∃ new, s.db.correlations = db.correlations.map (refreshed entered) ++ new ∧
    ∀ r ∈ new, r.2.In scope ∧ r.1 ∈ entered.map Prod.snd
  nodup_ids : (s.db.correlations.map Prod.fst).Nodup
  nodup_fingerprints :
    (s.db.correlations.map fun r => (r.2.tenantId, r.2.fingerprint)).Nodup
  lt_nextId : ∀ r ∈ s.db.correlations, r.1 < s.db.nextId
  produced : ∀ p ∈ entered, ∃ r ∈ s.db.correlations, r.1 = p.2 ∧ p.1.Finds digest scope.tenant r.2
  members : ∃ new, s.db.members = db.members.map (relisted done) ++ new ∧
    ∀ r ∈ new ++ s.pending, ∃ g, (g, r.correlationId) ∈ done ∧ r.findingId ∈ g.members
  nodup_keys : (s.db.members.map (·.key)).Nodup
  flushed : ∀ id m, (id, m) ∈ s.db.members.map (·.key) ↔ (id, m) ∈ db.members.map (·.key) ∨
    ∃ g, (g, id) ∈ entered ∧
      Flushed digest scope.tenant db (entered.map Prod.fst) (g.fingerprint digest) m
  waiting : ∀ id m, (id, m) ∈ s.pending.map (·.key) ↔
    (id, m) ∉ s.db.members.map (·.key) ∧ ∃ g, (g, id) ∈ done ∧ m ∈ g.members

variable {digest scope db}

section Facts
variable {entered done : List (Group × ℕ)} {s : Session}
  (h : Persisted digest scope db entered done s)
include h

variable {r : ℕ × FindingCorrelation}

theorem Persisted.eq_of_id {r' : ℕ × FindingCorrelation} (hr : r ∈ s.db.correlations)
    (hr' : r' ∈ s.db.correlations) (hid : r.1 = r'.1) : r = r' :=
  inj_on_of_nodup_map h.nodup_ids hr hr' hid

theorem Persisted.mem_refreshed (hr : r ∈ db.correlations) :
    refreshed entered r ∈ s.db.correlations := by
  obtain ⟨new, hcorrelations, -⟩ := h.correlations
  rw [hcorrelations]
  exact mem_append_left _ (mem_map_of_mem hr)

theorem Persisted.id_eq_iff (hr : r ∈ s.db.correlations) {g : Group}
    (hg : g.Finds digest scope.tenant r.2) {p : Group × ℕ} (hp : p ∈ entered) :
    p.2 = r.1 ↔ p.1.fingerprint digest = g.fingerprint digest := by
  obtain ⟨r', hr', hid, hfinds⟩ := h.produced p hp
  constructor
  · intro heq
    obtain rfl := h.eq_of_id hr' hr (hid.trans heq)
    exact hfinds.2.symm.trans hg.2
  · intro heq
    have hg' : g.Finds digest scope.tenant r'.2 := ⟨hfinds.1, hfinds.2.trans heq⟩
    rw [← hid, eq_of_finds h.nodup_fingerprints hr' hr hg' hg]

theorem Persisted.existing_eq_none_iff {g : Group} :
    g.existing digest scope.tenant s.db = none ↔
      Opens digest scope.tenant db (entered.map Prod.fst) g := by
  rw [Group.existing, Option.map_eq_none_iff, find?_eq_none]
  simp only [decide_eq_true_eq]
  constructor
  · refine fun hnone => ⟨fun r hr hfinds => ?_, fun k hk heq => ?_⟩
    · refine hnone _ (h.mem_refreshed hr) ?_
      simpa only [Group.Finds, refreshed_tenantId, refreshed_fingerprint] using hfinds
    · obtain ⟨p, hp, rfl⟩ := mem_map.mp hk
      obtain ⟨r, hr, -, hfinds⟩ := h.produced p hp
      exact hnone r hr ⟨hfinds.1, hfinds.2.trans heq⟩
  · rintro ⟨hrows, hgroups⟩ r hr hfinds
    obtain ⟨new, hcorrelations, hnew⟩ := h.correlations
    rcases mem_append.mp (hcorrelations ▸ hr) with hold | hold
    · obtain ⟨r', hr', rfl⟩ := mem_map.mp hold
      refine hrows r' hr' ?_
      simpa only [Group.Finds, refreshed_tenantId, refreshed_fingerprint] using hfinds
    · obtain ⟨p, hp, hid⟩ := mem_map.mp (hnew r hold).2
      exact hgroups p.1 (mem_map_of_mem hp) ((h.id_eq_iff hr hfinds hp).mp hid)

theorem Persisted.named_iff (hdone : ∀ p ∈ done, p ∈ entered)
    (hr : r ∈ s.db.correlations) {g : Group} (hg : g.Finds digest scope.tenant r.2) {m : Uuid} :
    (∃ k, (k, r.1) ∈ done ∧ m ∈ k.members) ↔
      Named digest (done.map Prod.fst) (g.fingerprint digest) m := by
  constructor
  · rintro ⟨k, hk, hm⟩
    exact ⟨k, mem_map_of_mem hk, (h.id_eq_iff hr hg (hdone _ hk)).mp rfl, hm⟩
  · rintro ⟨k, hk, heq, hm⟩
    obtain ⟨p, hp, rfl⟩ := mem_map.mp hk
    have hid := (h.id_eq_iff hr hg (hdone _ hp)).mpr heq
    exact ⟨p.1, hid ▸ hp, hm⟩

theorem Persisted.listed_iff (hdb : db.Valid)
    (hr : r ∈ s.db.correlations) {g : Group} (hg : g.Finds digest scope.tenant r.2) {m : Uuid} :
    (r.1, m) ∈ db.members.map (·.key) ↔ ∃ r' ∈ db.correlations,
      g.Finds digest scope.tenant r'.2 ∧ (r'.1, m) ∈ db.members.map (·.key) := by
  constructor
  · intro hm
    obtain ⟨row, hrow, hkey⟩ := mem_map.mp hm
    rw [FindingCorrelationMember.key, Prod.mk.injEq] at hkey
    obtain ⟨r', hr', hid⟩ := mem_map.mp (hdb.known_members row hrow)
    have heq : refreshed entered r' = r :=
      h.eq_of_id (h.mem_refreshed hr') hr ((refreshed_fst _ _).trans (hid.trans hkey.1))
    subst heq
    rw [refreshed_fst] at hm
    exact ⟨r', hr', by simpa only [Group.Finds, refreshed_tenantId, refreshed_fingerprint] using hg,
      hm⟩
  · rintro ⟨r', hr', hfinds, hm⟩
    have hfinds' : g.Finds digest scope.tenant (refreshed entered r').2 := by
      simpa only [Group.Finds, refreshed_tenantId, refreshed_fingerprint] using hfinds
    rw [← eq_of_finds h.nodup_fingerprints (h.mem_refreshed hr') hr hfinds' hg, refreshed_fst]
    exact hm

theorem Persisted.nodup_append_iff :
    ((s.db.members ++ s.pending).map (·.key)).Nodup ↔ (s.pending.map (·.key)).Nodup := by
  rw [map_append, nodup_append', and_iff_right h.nodup_keys]
  refine and_iff_left_of_imp fun _ => ?_
  rintro ⟨i, m⟩ hkey hwaits
  exact ((h.waiting i m).mp hwaits).1 hkey

end Facts

theorem upsert_cases {tenant : Uuid} {g : Group} {s s' : Session} {id : ℕ}
    (h : s.upsert digest tenant g = some (id, s')) :
    (g.existing digest tenant s.db = none ∧ id = s.db.nextId ∧
      ((s.db.members ++ s.pending).map (·.key)).Nodup ∧
      s' = ⟨⟨s.db.findings, s.db.correlations ++ [(id, g.row digest tenant)],
        s.db.members ++ s.pending, id + 1⟩, []⟩) ∨
    (g.existing digest tenant s.db = some id ∧
      s' = ⟨⟨s.db.findings, s.db.correlations.map (g.writeRow id), s.db.members, s.db.nextId⟩,
        s.pending⟩) := by
  unfold Session.upsert at h
  cases hexisting : g.existing digest tenant s.db with
  | none =>
    simp only [hexisting, Session.flush] at h
    split_ifs at h with hnodup
    · simp only [Option.map_some, Option.some.injEq, Prod.mk.injEq] at h
      obtain ⟨rfl, rfl⟩ := h
      exact Or.inl ⟨rfl, rfl, hnodup, rfl⟩
    · cases h
  | some id' =>
    simp only [hexisting, Option.some.injEq, Prod.mk.injEq] at h
    obtain ⟨rfl, rfl⟩ := h
    exact Or.inr ⟨rfl, rfl⟩

theorem exists_of_existing {tenant : Uuid} {g : Group} {db : Database} {id : ℕ}
    (h : g.existing digest tenant db = some id) :
    ∃ r ∈ db.correlations, r.1 = id ∧ g.Finds digest tenant r.2 := by
  obtain ⟨r, hfind, hid⟩ := Option.map_eq_some_iff.mp h
  exact ⟨r, mem_of_find?_eq_some hfind, hid, by simpa using find?_some hfind⟩

section Step
variable {done : List (Group × ℕ)} {s s' : Session} {g : Group} {id : ℕ}

/-- A group that opens a row has one of its own. -/
theorem Persisted.nodup_open (h : Persisted digest scope db done done s)
    (hnone : g.existing digest scope.tenant s.db = none) :
    ((s.db.correlations ++ [(s.db.nextId, g.row digest scope.tenant)]).map Prod.fst).Nodup ∧
      ((s.db.correlations ++ [(s.db.nextId, g.row digest scope.tenant)]).map
        fun r => (r.2.tenantId, r.2.fingerprint)).Nodup := by
  constructor
  · rw [map_append]
    refine h.nodup_ids.append (nodup_singleton _) fun i hi hi' => ?_
    obtain ⟨r, hr, rfl⟩ := mem_map.mp hi
    exact (h.lt_nextId r hr).ne (by simpa using hi')
  · rw [map_append]
    refine h.nodup_fingerprints.append (nodup_singleton _) fun k hk hk' => ?_
    obtain ⟨r, hr, rfl⟩ := mem_map.mp hk
    rw [Group.existing, Option.map_eq_none_iff, find?_eq_none] at hnone
    have hrow : (r.2.tenantId, r.2.fingerprint) = (scope.tenant, g.fingerprint digest) :=
      mem_singleton.mp hk'
    rw [Prod.mk.injEq] at hrow
    exact hnone r hr (decide_eq_true hrow)

/-- A group that opens a row flushes what waited. -/
theorem Persisted.flushed_open (h : Persisted digest scope db done done s)
    (hopens : Opens digest scope.tenant db (done.map Prod.fst) g) (i : ℕ) (m : Uuid) :
    (i, m) ∈ (s.db.members ++ s.pending).map (·.key) ↔ (i, m) ∈ db.members.map (·.key) ∨
      ∃ k, (k, i) ∈ done ++ [(g, s.db.nextId)] ∧ Flushed digest scope.tenant db
        ((done ++ [(g, s.db.nextId)]).map Prod.fst) (k.fingerprint digest) m := by
  rw [map_append, mem_append, h.flushed, h.waiting, h.flushed, map_append, map_singleton]
  simp only [flushed_concat]
  constructor
  · rintro ((hdb | ⟨k, hk, hflushed⟩) | ⟨-, k, hk, hm⟩)
    · exact Or.inl hdb
    · exact Or.inr ⟨k, mem_append_left _ hk, Or.inl hflushed⟩
    · exact Or.inr ⟨k, mem_append_left _ hk, Or.inr ⟨hopens, k, mem_map_of_mem hk, rfl, hm⟩⟩
  · rintro (hdb | ⟨k, hk, hflushed⟩)
    · exact Or.inl (Or.inl hdb)
    · have hnamed : Named digest (done.map Prod.fst) (k.fingerprint digest) m :=
        hflushed.elim Flushed.named And.right
      rcases mem_append.mp hk with hk | hk
      · obtain ⟨r, hr, hid, hfinds⟩ := h.produced _ hk
        obtain ⟨k', hk', heq, hm⟩ := hnamed
        obtain ⟨p, hp, rfl⟩ := mem_map.mp hk'
        have hi : p.2 = i := ((h.id_eq_iff hr hfinds hp).mpr heq).trans hid
        by_cases hmem : (i, m) ∈ s.db.members.map (·.key)
        · exact Or.inl ((h.flushed i m).mp hmem)
        · exact Or.inr ⟨fun hold => hmem ((h.flushed i m).mpr hold), p.1, hi ▸ hp, hm⟩
      · rw [mem_singleton, Prod.mk.injEq] at hk
        exact absurd (hk.1 ▸ hnamed) hopens.not_named

theorem Persisted.open (h : Persisted digest scope db done done s)
    (hcustomer : ∀ c ∈ scope.customer, g.customerId = c)
    (hnone : g.existing digest scope.tenant s.db = none)
    (hnodup : ((s.db.members ++ s.pending).map (·.key)).Nodup) :
    Persisted digest scope db (done ++ [(g, s.db.nextId)]) done
      ⟨⟨s.db.findings, s.db.correlations ++ [(s.db.nextId, g.row digest scope.tenant)],
        s.db.members ++ s.pending, s.db.nextId + 1⟩, []⟩ := by
  obtain ⟨new, hcorrelations, hnew⟩ := h.correlations
  obtain ⟨added, hmembers, hadded⟩ := h.members
  refine ⟨h.findings, ⟨new ++ [(s.db.nextId, g.row digest scope.tenant)], ?_, ?_⟩,
    (h.nodup_open hnone).1, (h.nodup_open hnone).2, ?_, ?_, ⟨added ++ s.pending, ?_, ?_⟩, hnodup,
    h.flushed_open (h.existing_eq_none_iff.mp hnone), fun i m => ?_⟩
  · -- no row from before the run has the new id
    rw [hcorrelations, ← append_assoc]
    refine congrArg (· ++ new ++ _) (map_congr_left fun r hr => ?_)
    rw [refreshed_concat, Group.writeRow, if_neg (h.lt_nextId _ (h.mem_refreshed hr)).ne]
  · intro r hr
    rw [map_append]
    rcases mem_append.mp hr with hr | hr
    · exact ⟨(hnew r hr).1, mem_append_left _ (hnew r hr).2⟩
    · rw [mem_singleton] at hr
      subst hr
      exact ⟨⟨rfl, hcustomer⟩, by simp⟩
  · intro r hr
    rcases mem_append.mp hr with hr | hr
    · exact (h.lt_nextId r hr).trans (Nat.lt_succ_self _)
    · rw [mem_singleton] at hr
      subst hr
      exact Nat.lt_succ_self _
  · intro p hp
    rcases mem_append.mp hp with hp | hp
    · obtain ⟨r, hr, hid, hfinds⟩ := h.produced p hp
      exact ⟨r, mem_append_left _ hr, hid, hfinds⟩
    · rw [mem_singleton] at hp
      subst hp
      exact ⟨_, mem_append_right _ (mem_singleton_self _), rfl, rfl, rfl⟩
  · rw [hmembers, append_assoc]
  · intro r hr
    exact hadded r (by simpa using hr)
  · simp only [map_nil, not_mem_nil, false_iff, map_append, mem_append]
    rintro ⟨hkeys, hnamed⟩
    rw [not_or] at hkeys
    exact hkeys.2 ((h.waiting i m).mpr ⟨hkeys.1, hnamed⟩)

theorem Persisted.refresh (h : Persisted digest scope db done done s)
    (hsome : g.existing digest scope.tenant s.db = some id) :
    Persisted digest scope db (done ++ [(g, id)]) done
      ⟨⟨s.db.findings, s.db.correlations.map (g.writeRow id), s.db.members, s.db.nextId⟩,
        s.pending⟩ := by
  have hopens : ¬ Opens digest scope.tenant db (done.map Prod.fst) g := by
    rw [← h.existing_eq_none_iff, hsome]
    exact Option.some_ne_none _
  obtain ⟨row, hrow, rfl, hfound⟩ := exists_of_existing hsome
  obtain ⟨new, hcorrelations, hnew⟩ := h.correlations
  refine ⟨h.findings, ⟨new.map (g.writeRow row.1), ?_, ?_⟩, ?_, ?_, ?_, ?_, h.members, h.nodup_keys,
    fun i m => ?_, h.waiting⟩
  · rw [hcorrelations, map_append, map_map]
    exact congrArg (· ++ _) (map_congr_left fun r _ => (refreshed_concat done g row.1 r).symm)
  · intro r hr
    obtain ⟨r', hr', rfl⟩ := mem_map.mp hr
    rw [FindingCorrelation.In, writeRow_tenantId, writeRow_customerId, writeRow_fst, map_append]
    exact ⟨(hnew r' hr').1, mem_append_left _ (hnew r' hr').2⟩
  · simpa only [map_map, Function.comp_def, writeRow_fst] using h.nodup_ids
  · simpa only [map_map, Function.comp_def, writeRow_tenantId, writeRow_fingerprint] using
      h.nodup_fingerprints
  · intro r hr
    obtain ⟨r', hr', rfl⟩ := mem_map.mp hr
    rw [writeRow_fst]
    exact h.lt_nextId r' hr'
  · intro p hp
    have hfinds : ∃ r ∈ s.db.correlations, r.1 = p.2 ∧ p.1.Finds digest scope.tenant r.2 := by
      rcases mem_append.mp hp with hp | hp
      · exact h.produced p hp
      · rw [mem_singleton] at hp
        exact hp ▸ ⟨row, hrow, rfl, hfound⟩
    obtain ⟨r, hr, hid, hr'⟩ := hfinds
    refine ⟨_, mem_map_of_mem hr, (writeRow_fst ..).trans hid, ?_⟩
    simpa only [Group.Finds, writeRow_tenantId, writeRow_fingerprint] using hr'
  · -- nothing has been flushed
    rw [h.flushed, map_append, map_singleton]
    simp only [flushed_concat, hopens, false_and, or_false]
    refine or_congr_right ⟨fun ⟨k, hk, hflushed⟩ => ⟨k, mem_append_left _ hk, hflushed⟩, ?_⟩
    rintro ⟨k, hk, hflushed⟩
    rcases mem_append.mp hk with hk | hk
    · exact ⟨k, hk, hflushed⟩
    · rw [mem_singleton, Prod.mk.injEq] at hk
      obtain ⟨rfl, rfl⟩ := hk
      obtain ⟨k', hk', heq, -⟩ := hflushed.named
      obtain ⟨p, hp, rfl⟩ := mem_map.mp hk'
      have hid := (h.id_eq_iff hrow hfound hp).mpr heq
      exact ⟨p.1, hid ▸ hp, heq ▸ hflushed⟩

theorem Persisted.upsert (h : Persisted digest scope db done done s)
    (hcustomer : ∀ c ∈ scope.customer, g.customerId = c)
    (hs : s.upsert digest scope.tenant g = some (id, s')) :
    Persisted digest scope db (done ++ [(g, id)]) done s' := by
  rcases upsert_cases hs with ⟨hnone, rfl, hnodup, rfl⟩ | ⟨hsome, rfl⟩
  · exact h.open hcustomer hnone hnodup
  · exact h.refresh hsome

theorem mem_added {g : Group} {s : Session} {tenant : Uuid} {i : ℕ} {m : Uuid} :
    (i, m) ∈ ((g.members.filter (· ∉ (s.db.members.filter fun r => r.correlationId = id).map
        (·.findingId))).map (g.memberRow tenant id)).map (·.key) ↔
      i = id ∧ m ∈ g.members ∧ (id, m) ∉ s.db.members.map (·.key) := by
  have hlisted : ∀ m, m ∈ (s.db.members.filter fun r => r.correlationId = id).map (·.findingId) ↔
      (id, m) ∈ s.db.members.map (·.key) := by
    intro m
    simp only [mem_map, mem_filter, decide_eq_true_eq, FindingCorrelationMember.key,
      Prod.mk.injEq, and_assoc]
  rw [map_map, mem_map]
  constructor
  · rintro ⟨a, ha, heq⟩
    rw [mem_filter, decide_eq_true_eq, hlisted] at ha
    cases heq
    exact ⟨rfl, ha⟩
  · rintro ⟨rfl, hm, hnew⟩
    refine ⟨m, ?_, rfl⟩
    rw [mem_filter, decide_eq_true_eq, hlisted]
    exact ⟨hm, hnew⟩

theorem Persisted.list (h : Persisted digest scope db (done ++ [(g, id)]) done s) :
    Persisted digest scope db (done ++ [(g, id)]) (done ++ [(g, id)])
      (s.list scope.tenant g id) := by
  obtain ⟨added, hmembers, hadded⟩ := h.members
  have hkeys : ((s.list scope.tenant g id).db.members.map (·.key)) = s.db.members.map (·.key) := by
    rw [Session.list, map_map]
    exact map_congr_left fun r _ => writeListed_key g id r
  refine ⟨?_, h.correlations, h.nodup_ids, h.nodup_fingerprints, h.lt_nextId, h.produced,
    ⟨added.map (g.writeListed id), ?_, fun r hr => ?_⟩, hkeys ▸ h.nodup_keys, fun i m => ?_,
    fun i m => ?_⟩
  · rw [Session.list, h.findings, map_map]
    exact map_congr_left fun f _ => (pointed_concat done g id f).symm
  · rw [Session.list, hmembers, map_append, map_map]
    exact congrArg (· ++ _) (map_congr_left fun r _ => (relisted_concat done g id r).symm)
  · rw [Session.list, ← append_assoc] at hr
    rcases mem_append.mp hr with hr | hr
    · -- a row that was there keeps its key
      have hold : ∃ r' ∈ added ++ s.pending, r.key = r'.key := by
        rcases mem_append.mp hr with hr | hr
        · obtain ⟨r', hr', rfl⟩ := mem_map.mp hr
          exact ⟨r', mem_append_left _ hr', writeListed_key g id r'⟩
        · exact ⟨r, mem_append_right _ hr, rfl⟩
      obtain ⟨r', hr', hkey⟩ := hold
      rw [FindingCorrelationMember.key, FindingCorrelationMember.key, Prod.mk.injEq] at hkey
      obtain ⟨k, hk, hm⟩ := hadded r' hr'
      rw [hkey.1, hkey.2]
      exact ⟨k, mem_append_left _ hk, hm⟩
    · obtain ⟨m, hm, rfl⟩ := mem_map.mp hr
      exact ⟨g, mem_append_right _ (mem_singleton_self _), mem_of_mem_filter hm⟩
  · rw [hkeys]
    exact h.flushed i m
  · rw [hkeys, Session.list, map_append, mem_append, h.waiting, mem_added]
    constructor
    · rintro (⟨hnew, k, hk, hm⟩ | ⟨rfl, hm, hnew⟩)
      · exact ⟨hnew, k, mem_append_left _ hk, hm⟩
      · exact ⟨hnew, g, mem_append_right _ (mem_singleton_self _), hm⟩
    · rintro ⟨hnew, k, hk, hm⟩
      rcases mem_append.mp hk with hk | hk
      · exact Or.inl ⟨hnew, k, hk, hm⟩
      · rw [mem_singleton, Prod.mk.injEq] at hk
        obtain ⟨rfl, rfl⟩ := hk
        exact Or.inr ⟨rfl, hm, hnew⟩

/-- **The keys that wait differ** after a group when they did before, and the group adds none of its
members twice. -/
theorem Persisted.nodup_list_iff (hdb : db.Valid)
    (h : Persisted digest scope db (done ++ [(g, id)]) done s) (hg : g.members.Nodup) :
    ((s.list scope.tenant g id).pending.map (·.key)).Nodup ↔ (s.pending.map (·.key)).Nodup ∧
      AddsOnce digest scope.tenant db (done.map Prod.fst) g := by
  obtain ⟨row, hrow, rfl, hfinds⟩ := h.produced (g, id) (by simp)
  have hnamed : ∀ m, (∃ k, (k, row.1) ∈ done ∧ m ∈ k.members) ↔
      Named digest (done.map Prod.fst) (g.fingerprint digest) m :=
    fun m => h.named_iff (fun _ => mem_append_left _) hrow hfinds
  have hflushed : ∀ m, Named digest (done.map Prod.fst) (g.fingerprint digest) m →
      ((row.1, m) ∈ s.db.members.map (·.key) ↔ (row.1, m) ∈ db.members.map (·.key) ∨
        Flushed digest scope.tenant db (done.map Prod.fst) (g.fingerprint digest) m) := by
    intro m hm
    rw [h.flushed, map_append, map_singleton]
    refine or_congr_right ⟨?_, fun hold =>
      ⟨g, mem_append_right _ (mem_singleton_self _), flushed_concat.mpr (Or.inl hold)⟩⟩
    rintro ⟨k, hk, hold⟩
    rw [(h.id_eq_iff hrow hfinds hk).mp rfl] at hold
    exact (flushed_concat.mp hold).resolve_right fun hopens => hopens.1.not_named hm
  have hadded : (((g.members.filter (· ∉ (s.db.members.filter fun r => r.correlationId = row.1).map
      (·.findingId))).map (g.memberRow scope.tenant row.1)).map (·.key)).Nodup := by
    rw [map_map]
    exact (hg.filter _).map fun a b hab => (Prod.mk.injEq .. ▸ hab : _ ∧ _).2
  rw [Session.list, map_append, nodup_append', and_iff_right hadded]
  refine and_congr_right fun _ => ⟨fun hdisjoint m hm hold => ?_, fun hadds p hp hp' => ?_⟩
  · rw [← h.listed_iff hdb hrow hfinds, ← hflushed m hold]
    by_contra hnew
    exact hdisjoint ((h.waiting row.1 m).mpr ⟨hnew, (hnamed m).mpr hold⟩)
      (mem_added.mpr ⟨rfl, hm, hnew⟩)
  · obtain ⟨i, m⟩ := p
    obtain ⟨rfl, hm, hnew⟩ := mem_added.mp hp'
    have hold := (hnamed m).mp ((h.waiting row.1 m).mp hp).2
    rw [hflushed m hold, h.listed_iff hdb hrow hfinds] at hnew
    exact hnew (hadds m hm hold)

theorem persist_eq_some {tenant : Uuid} (hs : s.persist digest tenant g = some (id, s')) :
    ∃ t, s.upsert digest tenant g = some (id, t) ∧ s' = t.list tenant g id := by
  obtain ⟨⟨i, t⟩, hupsert, heq⟩ := Option.map_eq_some_iff.mp hs
  rw [Prod.mk.injEq] at heq
  obtain ⟨rfl, rfl⟩ := heq
  exact ⟨t, hupsert, rfl⟩

theorem Persisted.persist (h : Persisted digest scope db done done s)
    (hcustomer : ∀ c ∈ scope.customer, g.customerId = c)
    (hs : s.persist digest scope.tenant g = some (id, s')) :
    Persisted digest scope db (done ++ [(g, id)]) (done ++ [(g, id)]) s' := by
  obtain ⟨t, hupsert, rfl⟩ := persist_eq_some hs
  exact (h.upsert hcustomer hupsert).list

theorem Persisted.nodup_persist_iff (hdb : db.Valid) (h : Persisted digest scope db done done s)
    (hcustomer : ∀ c ∈ scope.customer, g.customerId = c) (hg : g.members.Nodup)
    (hs : s.persist digest scope.tenant g = some (id, s')) :
    (s'.pending.map (·.key)).Nodup ↔ (s.pending.map (·.key)).Nodup ∧
      AddsOnce digest scope.tenant db (done.map Prod.fst) g := by
  obtain ⟨t, hupsert, rfl⟩ := persist_eq_some hs
  rw [(h.upsert hcustomer hupsert).nodup_list_iff hdb hg]
  rcases upsert_cases hupsert with ⟨-, -, hnodup, rfl⟩ | ⟨-, rfl⟩
  · exact and_congr_left fun _ => iff_of_true nodup_nil (h.nodup_append_iff.mp hnodup)
  · rfl

theorem Persisted.exists_persist (h : Persisted digest scope db done done s)
    (hnodup : (s.pending.map (·.key)).Nodup) :
    ∃ id s', s.persist digest scope.tenant g = some (id, s') := by
  unfold Session.persist Session.upsert
  cases g.existing digest scope.tenant s.db with
  | none =>
    simp only [Session.flush, if_pos (h.nodup_append_iff.mpr hnodup)]
    exact ⟨_, _, rfl⟩
  | some id => exact ⟨_, _, rfl⟩

end Step

/-! ### A whole run -/

theorem persistAll_cons {tenant : Uuid} {g : Group} {gs : List Group} {s s' : Session}
    {produced : List (Group × ℕ)}
    (hs : s.persistAll digest tenant (g :: gs) = some (produced, s')) :
    ∃ id t rest, s.persist digest tenant g = some (id, t) ∧
      t.persistAll digest tenant gs = some (rest, s') ∧ produced = (g, id) :: rest := by
  unfold Session.persistAll at hs
  cases hpersist : s.persist digest tenant g with
  | none =>
    rw [hpersist] at hs
    cases hs
  | some p =>
    rw [hpersist] at hs
    obtain ⟨⟨rest, t⟩, hrest, heq⟩ := Option.map_eq_some_iff.mp hs
    rw [Prod.mk.injEq] at heq
    obtain ⟨rfl, rfl⟩ := heq
    exact ⟨p.1, p.2, rest, rfl, hrest, rfl⟩

theorem persisted_nil (hdb : db.Valid) : Persisted digest scope db [] [] ⟨db, []⟩ := by
  have hmap : ∀ {E : Type} (f : E → E) (es : List E), (∀ e, f e = e) → es = es.map f := fun f es h =>
    ((map_congr_left fun e _ => h e).trans (map_id es)).symm
  refine ⟨hmap _ _ fun _ => rfl, ⟨[], ?_, by simp⟩, hdb.nodup_ids, hdb.nodup_fingerprints,
    hdb.lt_nextId, by simp, ⟨[], ?_, by simp⟩, hdb.nodup_keys, by simp, by simp⟩
  · rw [append_nil]
    exact hmap _ _ fun _ => rfl
  · rw [append_nil]
    exact hmap _ _ fun _ => rfl

theorem Persisted.persistAll {gs : List Group}
    (hgs : ∀ g ∈ gs, ∀ c ∈ scope.customer, g.customerId = c) {done produced : List (Group × ℕ)}
    {s s' : Session} (h : Persisted digest scope db done done s)
    (hs : s.persistAll digest scope.tenant gs = some (produced, s')) :
    Persisted digest scope db (done ++ produced) (done ++ produced) s' ∧
      produced.map Prod.fst = gs := by
  induction gs generalizing done produced s with
  | nil =>
    cases hs
    rw [append_nil]
    exact ⟨h, rfl⟩
  | cons g gs ih =>
    obtain ⟨id, t, rest, hpersist, hrest, rfl⟩ := persistAll_cons hs
    have hstep := h.persist (hgs g mem_cons_self) hpersist
    obtain ⟨hall, hgroups⟩ := ih (fun k hk => hgs k (mem_cons_of_mem _ hk)) hstep hrest
    rw [append_assoc, singleton_append] at hall
    exact ⟨hall, congrArg (g :: ·) hgroups⟩

/-- **A run comes to its end** exactly when no group adds a member twice. -/
theorem Persisted.persistAll_iff (hdb : db.Valid) {gs : List Group}
    (hgs : ∀ g ∈ gs, (∀ c ∈ scope.customer, g.customerId = c) ∧ g.members.Nodup)
    {done : List (Group × ℕ)} {s : Session} (h : Persisted digest scope db done done s) :
    (∃ produced s', s.persistAll digest scope.tenant gs = some (produced, s') ∧
      (s'.pending.map (·.key)).Nodup) ↔ (s.pending.map (·.key)).Nodup ∧
      ∀ before g after, gs = before ++ g :: after →
        AddsOnce digest scope.tenant db (done.map Prod.fst ++ before) g := by
  induction gs generalizing done s with
  | nil =>
    constructor
    · rintro ⟨produced, s', hs, hnodup⟩
      cases hs
      exact ⟨hnodup, by simp⟩
    · rintro ⟨hnodup, -⟩
      exact ⟨[], s, rfl, hnodup⟩
  | cons g gs ih =>
    obtain ⟨hcustomer, hg⟩ := hgs g mem_cons_self
    have hrest := fun k hk => hgs k (mem_cons_of_mem _ hk)
    constructor
    · rintro ⟨produced, s', hs, hnodup⟩
      obtain ⟨id, t, rest, hpersist, hall, rfl⟩ := persistAll_cons hs
      obtain ⟨ht, hadds⟩ := (ih hrest (h.persist hcustomer hpersist)).mp ⟨rest, s', hall, hnodup⟩
      obtain ⟨hs', hfirst⟩ := (h.nodup_persist_iff hdb hcustomer hg hpersist).mp ht
      refine ⟨hs', fun before k after heq => ?_⟩
      rcases before with _ | ⟨k', before⟩
      · rw [nil_append, List.cons.injEq] at heq
        rw [append_nil]
        exact heq.1 ▸ hfirst
      · rw [cons_append, List.cons.injEq] at heq
        simpa [heq.1] using hadds before k after heq.2
    · rintro ⟨hnodup, hadds⟩
      obtain ⟨id, t, hpersist⟩ := h.exists_persist hnodup
      have hfirst : AddsOnce digest scope.tenant db (done.map Prod.fst) g := by
        simpa using hadds [] g gs rfl
      have ht := (h.nodup_persist_iff hdb hcustomer hg hpersist).mpr ⟨hnodup, hfirst⟩
      obtain ⟨rest, s', hall, hend⟩ := (ih hrest (h.persist hcustomer hpersist)).mpr
        ⟨ht, fun before k after heq => by
          simpa using hadds (g :: before) k after (congrArg (g :: ·) heq)⟩
      exact ⟨(g, id) :: rest, s', by simp [Session.persistAll, hpersist, hall], hend⟩

/-! ### What is committed -/

theorem mem_stale {ids : List ℕ} {i : ℕ} :
    i ∈ db.stale scope ids ↔ i ∉ ids ∧ ∃ r ∈ db.correlations, r.1 = i ∧ r.2.In scope := by
  simp only [Database.stale, mem_map, mem_filter, decide_eq_true_eq]
  constructor
  · rintro ⟨r, ⟨hr, hin, hid⟩, rfl⟩
    exact ⟨hid, r, hr, rfl, hin⟩
  · rintro ⟨hid, r, hr, rfl, hin⟩
    exact ⟨r, ⟨hr, hin, hid⟩, rfl⟩

@[simp] theorem clear_finding (ids : List ℕ) (f : FindingRow) :
    (f.clear scope ids).finding = f.finding := by
  unfold FindingRow.clear
  split_ifs <;> rfl

@[simp] theorem clear_tenantId (ids : List ℕ) (f : FindingRow) :
    (f.clear scope ids).tenantId = f.tenantId := by
  unfold FindingRow.clear
  split_ifs <;> rfl

theorem mem_clear {ids : List ℕ} {f : FindingRow} {id : ℕ} :
    id ∈ (f.clear scope ids).correlationId ↔
      id ∈ f.correlationId ∧ (f.In scope → id ∈ ids) := by
  unfold FindingRow.clear
  split_ifs with h
  · obtain ⟨hin, i, hi, hstale⟩ := h
    refine iff_of_false (by simp) fun ⟨hid, hids⟩ => hstale ?_
    rw [Option.mem_unique hi hid]
    exact hids hin
  · refine (and_iff_left_of_imp fun hid hin => ?_).symm
    by_contra hstale
    exact h ⟨hin, id, hid, hstale⟩

theorem clear_of_not_in {ids : List ℕ} {f : FindingRow} (h : ¬ f.In scope) :
    f.clear scope ids = f := if_neg fun hin => h hin.1

theorem in_clear_pointed (ids : List ℕ) (done : List (Group × ℕ)) (f : FindingRow) :
    ((pointed done f).clear scope ids).In scope ↔ f.In scope := by
  simp only [FindingRow.In, clear_finding, clear_tenantId, pointed_finding, pointed_tenantId]

theorem in_refreshed (done : List (Group × ℕ)) (r : ℕ × FindingCorrelation) :
    (refreshed done r).2.In scope ↔ r.2.In scope := by
  simp only [FindingCorrelation.In, refreshed_tenantId, refreshed_customerId]

/-- **The tables that a run commits.** -/
def Session.committed (scope : Scope) (ids : List ℕ) (s : Session) : Database :=
  { s.db with
    findings := s.db.findings.map (FindingRow.clear scope ids)
    correlations := s.db.correlations.filter fun r => ¬ (r.2.In scope ∧ r.1 ∉ ids)
    members := (s.db.members.filter fun r => r.correlationId ∉ s.db.stale scope ids) ++ s.pending }

/-- No finding points to a correlation that the commit deletes. -/
def Session.Released (scope : Scope) (ids : List ℕ) (s : Session) : Prop :=
  ∀ f ∈ s.db.findings, ∀ id ∈ (f.clear scope ids).correlationId, id ∉ s.db.stale scope ids

theorem Persisted.commit_iff {done : List (Group × ℕ)} {s : Session}
    (h : Persisted digest scope db done done s) {ids : List ℕ} {db' : Database} :
    (∃ s', s.reconcile scope ids = some s' ∧ ∃ s'', s'.flush = some s'' ∧ s''.db = db') ↔
      s.Released scope ids ∧ (s.pending.map (·.key)).Nodup ∧ db' = s.committed scope ids := by
  have hreleased : (∃ f ∈ s.db.findings.map (FindingRow.clear scope ids), ∃ id ∈ f.correlationId,
      id ∈ s.db.stale scope ids) ↔ ¬ s.Released scope ids := by
    rw [Session.Released]
    push Not
    simp only [mem_map, exists_exists_and_eq_and]
  have hnodup : (((s.db.members.filter fun r => r.correlationId ∉ s.db.stale scope ids) ++
      s.pending).map (·.key)).Nodup ↔ (s.pending.map (·.key)).Nodup := by
    refine ⟨fun hall => ?_, fun hpending => ?_⟩
    · rw [map_append] at hall
      exact hall.of_append_right
    · refine (h.nodup_append_iff.mpr hpending).sublist ?_
      exact (filter_sublist.append_right _).map _
  by_cases hr : s.Released scope ids
  · simp only [Session.reconcile, if_neg (hreleased.not.mpr (not_not_intro hr)), Option.some.injEq,
      exists_eq_left', Session.flush, hnodup, hr, true_and]
    split_ifs with hpending
    · simp only [Option.some.injEq, exists_eq_left', hpending, true_and]
      exact eq_comm
    · simp [hpending]
  · simp only [Session.reconcile, if_pos (hreleased.mpr hr)]
    simp [hr]

theorem correlateTenant_eq_some_iff {R : Runtime} {fs : List Finding} (hdb : db.Valid)
    (hgs : ∀ g ∈ correlate R fs, ∀ c ∈ scope.customer, g.customerId = c)
    {produced : List (Group × ℕ)} {db' : Database} :
    correlateTenant scope R digest fs db = some (produced, db') ↔ ∃ s,
      Session.persistAll digest scope.tenant (correlate R fs) ⟨db, []⟩ = some (produced, s) ∧
        s.Released scope (produced.map Prod.snd) ∧ (s.pending.map (·.key)).Nodup ∧
          db' = s.committed scope (produced.map Prod.snd) := by
  unfold correlateTenant
  cases hall : Session.persistAll digest scope.tenant (correlate R fs) ⟨db, []⟩ with
  | none => simp
  | some p =>
    obtain ⟨done, s⟩ := p
    have h := ((persisted_nil hdb).persistAll hgs hall).1
    rw [nil_append] at h
    simp only [Option.bind_eq_some_iff, Option.map_eq_some_iff, Option.some.injEq, Prod.mk.injEq]
    constructor
    · rintro ⟨s', hs', s'', hs'', rfl, rfl⟩
      exact ⟨s, ⟨rfl, rfl⟩, h.commit_iff.mp ⟨s', hs', s'', hs'', rfl⟩⟩
    · rintro ⟨t, ⟨rfl, rfl⟩, hcommit⟩
      obtain ⟨s', hs', s'', hs'', heq⟩ := h.commit_iff.mpr hcommit
      exact ⟨s', hs', s'', hs'', rfl, heq⟩

/-! ### What the groups say -/

section Commit
variable {produced : List (Group × ℕ)} {s : Session}
  (h : Persisted digest scope db produced produced s)
include h

variable {r : ℕ × FindingCorrelation}

theorem Persisted.id_iff_finds (hr : r ∈ db.correlations)
    {p : Group × ℕ} (hp : p ∈ produced) : r.1 = p.2 ↔ p.1.Finds digest scope.tenant r.2 := by
  obtain ⟨r', hr', hid, hfinds⟩ := h.produced p hp
  have hrow := h.mem_refreshed hr
  have hkeeps : p.1.Finds digest scope.tenant (refreshed produced r).2 ↔
      p.1.Finds digest scope.tenant r.2 := by
    simp only [Group.Finds, refreshed_tenantId, refreshed_fingerprint]
  rw [← hkeeps, ← refreshed_fst produced r, ← hid]
  constructor
  · intro heq
    rw [h.eq_of_id hrow hr' heq]
    exact hfinds
  · intro hfinds'
    rw [eq_of_finds h.nodup_fingerprints hrow hr' hfinds' hfinds]

theorem Persisted.mem_ids_iff (hr : r ∈ db.correlations) :
    r.1 ∈ produced.map Prod.snd ↔
      ∃ g ∈ produced.map Prod.fst, g.Finds digest scope.tenant r.2 := by
  simp only [mem_map, exists_exists_and_eq_and]
  constructor
  · rintro ⟨p, hp, hid⟩
    exact ⟨p, hp, (h.id_iff_finds hr hp).mp hid.symm⟩
  · rintro ⟨p, hp, hfinds⟩
    exact ⟨p, hp, ((h.id_iff_finds hr hp).mpr hfinds).symm⟩

theorem Persisted.forall_latest (hr : r ∈ db.correlations) (q : Group → Bool) (P : Group → Prop) :
    (∀ p ∈ latest (fun p : Group × ℕ => decide (r.1 = p.2) && q p.1) produced, P p.1) ↔
      ∀ g ∈ latest (fun g : Group => decide (g.Finds digest scope.tenant r.2) && q g)
        (produced.map Prod.fst), P g := by
  rw [latest_map]
  have hcongr : latest (fun p : Group × ℕ => decide (r.1 = p.2) && q p.1) produced =
      latest ((fun g : Group => decide (g.Finds digest scope.tenant r.2) && q g) ∘ Prod.fst)
        produced :=
    latest_congr fun p hp => by
      simp only [Function.comp_apply, h.id_iff_finds hr hp]
  rw [hcongr]
  simp

theorem Persisted.mem_stale_iff {i : ℕ} :
    i ∈ s.db.stale scope (produced.map Prod.snd) ↔ i ∉ produced.map Prod.snd ∧
      ∃ r ∈ db.correlations, r.1 = i ∧ r.2.In scope := by
  rw [mem_stale]
  refine and_congr_right fun hids => ?_
  constructor
  · rintro ⟨r, hr, rfl, hin⟩
    obtain ⟨new, hcorrelations, hnew⟩ := h.correlations
    rcases mem_append.mp (hcorrelations ▸ hr) with hold | hold
    · obtain ⟨r', hr', rfl⟩ := mem_map.mp hold
      exact ⟨r', hr', (refreshed_fst ..).symm, (in_refreshed ..).mp hin⟩
    · exact absurd (hnew r hold).2 hids
  · rintro ⟨r, hr, rfl, hin⟩
    exact ⟨_, h.mem_refreshed hr, refreshed_fst .., (in_refreshed ..).mpr hin⟩

theorem Persisted.mem_keys {g : Group} {id : ℕ} (hg : (g, id) ∈ produced) {m : Uuid}
    (hm : m ∈ g.members) :
    (id, m) ∈ (s.committed scope (produced.map Prod.snd)).members.map (·.key) := by
  rw [Session.committed, map_append, mem_append]
  by_cases hkey : (id, m) ∈ s.db.members.map (·.key)
  · obtain ⟨r, hr, heq⟩ := mem_map.mp hkey
    refine Or.inl (mem_map.mpr ⟨r, mem_filter.mpr ⟨hr, ?_⟩, heq⟩)
    rw [FindingCorrelationMember.key, Prod.mk.injEq] at heq
    rw [decide_eq_true_eq, heq.1, h.mem_stale_iff]
    exact fun hstale => hstale.1 (mem_map_of_mem hg)
  · exact Or.inr ((h.waiting id m).mpr ⟨hkey, g, hg, hm⟩)

theorem Persisted.correlations_committed
    (hr : r ∈ (s.committed scope (produced.map Prod.snd)).correlations) (hin : r.2.In scope) :
    ∃ g, (g, r.1) ∈ produced ∧ r.2.fingerprint = g.fingerprint digest := by
  rw [Session.committed, mem_filter, decide_eq_true_eq, not_and, not_not] at hr
  obtain ⟨p, hp, hid⟩ := mem_map.mp (hr.2 hin)
  obtain ⟨r', hr', hid', hfinds⟩ := h.produced p hp
  rw [h.eq_of_id hr.1 hr' (hid.symm.trans hid'.symm)]
  exact ⟨p.1, hid' ▸ hp, hfinds.2⟩

/-- **The groups outside the scope** stand as they were exactly when they show what the last groups
say that find them. -/
theorem Persisted.correlations_outside_iff :
    ((s.committed scope (produced.map Prod.snd)).correlations.filter fun r => ¬ r.2.In scope) =
      (db.correlations.filter fun r => ¬ r.2.In scope) ↔
    ∀ r ∈ db.correlations, ¬ r.2.In scope →
      ∀ g ∈ latest (fun g => g.Finds digest scope.tenant r.2) (produced.map Prod.fst),
        g.refresh r.2 = r.2 := by
  obtain ⟨new, hcorrelations, hnew⟩ := h.correlations
  have hfilter : ((s.committed scope (produced.map Prod.snd)).correlations.filter fun r =>
      ¬ r.2.In scope) = (db.correlations.filter fun r => ¬ r.2.In scope).map (refreshed produced) := by
    have hold : (s.db.correlations.filter fun r => ¬ r.2.In scope) =
        (db.correlations.filter fun r => ¬ r.2.In scope).map (refreshed produced) := by
      have hnil : (new.filter fun r => ¬ r.2.In scope) = [] := by
        refine filter_eq_nil_iff.mpr fun r hr => ?_
        simpa using (hnew r hr).1
      rw [hcorrelations, filter_append, hnil, append_nil, filter_map]
      refine congrArg _ (filter_congr fun r _ => ?_)
      simp only [Function.comp_apply, in_refreshed]
    rw [← hold, Session.committed, filter_filter]
    refine filter_congr fun r _ => ?_
    by_cases hin : r.2.In scope <;> simp [hin]
  rw [hfilter, refreshed, map_overlay_eq_self]
  simp only [mem_filter, decide_eq_true_eq, and_imp]
  refine forall₂_congr fun r hr => forall_congr' fun _ => ?_
  have hlatest := h.forall_latest hr (fun _ => true) fun g => (r.1, g.refresh r.2) = r
  simp only [Bool.and_true] at hlatest
  rw [hlatest]
  exact forall₂_congr fun g _ => ⟨congrArg Prod.snd, fun heq => Prod.ext rfl heq⟩

theorem Persisted.filter_committed (hdb : db.Valid)
    (hr : r ∈ db.correlations) (hout : ¬ r.2.In scope) :
    ((s.committed scope (produced.map Prod.snd)).members.filter fun m => m.correlationId = r.1) =
      (s.db.members ++ s.pending).filter fun m => m.correlationId = r.1 := by
  have hstale : r.1 ∉ s.db.stale scope (produced.map Prod.snd) := by
    rw [h.mem_stale_iff]
    rintro ⟨-, r', hr', hid, hin⟩
    rw [inj_on_of_nodup_map hdb.nodup_ids hr' hr hid] at hin
    exact hout hin
  rw [Session.committed, filter_append, filter_append, filter_filter]
  refine congrArg (· ++ _) (filter_congr fun m _ => ?_)
  by_cases hid : m.correlationId = r.1 <;> simp [hid, hstale]

theorem Persisted.relisted_eq_self_iff (hr : r ∈ db.correlations) :
    (db.members.filter fun m => m.correlationId = r.1).map (relisted produced) =
      (db.members.filter fun m => m.correlationId = r.1) ↔
    ∀ row ∈ db.members, row.correlationId = r.1 →
      ∀ g ∈ latest (fun g => g.Finds digest scope.tenant r.2 ∧ row.findingId ∈ g.members)
        (produced.map Prod.fst), g.refreshMember row = row := by
  rw [relisted, map_overlay_eq_self]
  simp only [mem_filter, decide_eq_true_eq, and_imp]
  refine forall₂_congr fun row _ => forall_congr' fun hid => ?_
  have hlatest := h.forall_latest hr (fun g => row.findingId ∈ g.members) fun g =>
    g.refreshMember row = row
  simp only [← Bool.decide_and] at hlatest
  rw [hid]
  exact hlatest

/-- Nothing is added to a group outside the scope exactly when it lists all members already. -/
theorem Persisted.exists_added (hdb : db.Valid) (hnodup : (s.pending.map (·.key)).Nodup)
    (hr : r ∈ db.correlations) (hout : ¬ r.2.In scope) :
    ∃ added, ((s.committed scope (produced.map Prod.snd)).members.filter fun m =>
        m.correlationId = r.1) =
          (db.members.filter fun m => m.correlationId = r.1).map (relisted produced) ++ added ∧
      (added = [] ↔ ∀ m, ∀ g ∈ latest
        (fun g => g.Finds digest scope.tenant r.2 ∧ m ∈ g.members) (produced.map Prod.fst),
        (r.1, m) ∈ db.members.map (·.key)) := by
  obtain ⟨new, hmembers, hnew⟩ := h.members
  have hall : s.db.members ++ s.pending =
      db.members.map (relisted produced) ++ (new ++ s.pending) := by
    rw [hmembers, append_assoc]
  have hkeys := h.nodup_append_iff.mpr hnodup
  rw [hall, map_append, nodup_append'] at hkeys
  have hold : (db.members.map (relisted produced)).filter (fun m => m.correlationId = r.1) =
      (db.members.filter fun m => m.correlationId = r.1).map (relisted produced) := by
    rw [filter_map]
    refine congrArg _ (filter_congr fun m _ => ?_)
    simp only [Function.comp_apply, relisted_correlationId]
  have hfilter := h.filter_committed hdb hr hout
  rw [hall, filter_append, hold] at hfilter
  refine ⟨_, hfilter, fun hnil m g hg => ?_, fun hlisted => ?_⟩
  · rw [hnil, append_nil] at hfilter
    obtain ⟨hmem, hsays⟩ := mem_of_latest hg
    rw [decide_eq_true_eq] at hsays
    obtain ⟨p, hp, rfl⟩ := mem_map.mp hmem
    have hid := (h.id_iff_finds hr hp).mpr hsays.1
    have hp' : (p.1, r.1) ∈ produced := by rwa [hid]
    obtain ⟨row, hrow, hkey⟩ := mem_map.mp (h.mem_keys hp' hsays.2)
    rw [FindingCorrelationMember.key, Prod.mk.injEq] at hkey
    have hmem' : row ∈ (s.committed scope (produced.map Prod.snd)).members.filter fun m =>
        m.correlationId = r.1 := mem_filter.mpr ⟨hrow, decide_eq_true hkey.1⟩
    rw [hfilter] at hmem'
    obtain ⟨row', hrow', rfl⟩ := mem_map.mp hmem'
    refine mem_map.mpr ⟨row', mem_of_mem_filter hrow', ?_⟩
    rw [← relisted_key produced row']
    exact Prod.ext hkey.1 hkey.2
  · -- a row that was added would have the key of one that was there
    refine filter_eq_nil_iff.mpr fun m hm hid => ?_
    rw [decide_eq_true_eq] at hid
    obtain ⟨k, hk, hmem⟩ := hnew m hm
    have hfinds := (h.id_iff_finds hr hk).mp hid.symm
    obtain ⟨g, hg⟩ : ∃ g, g ∈ latest (fun g : Group =>
        decide (g.Finds digest scope.tenant r.2 ∧ m.findingId ∈ g.members))
        (produced.map Prod.fst) :=
      exists_latest (mem_map_of_mem hk) (decide_eq_true ⟨hfinds, hmem⟩)
    obtain ⟨row, hrow, hkey⟩ := mem_map.mp (hlisted m.findingId g hg)
    refine hkeys.2.2 ?_ (mem_map_of_mem hm)
    rw [map_map]
    refine mem_map.mpr ⟨row, hrow, ?_⟩
    rw [Function.comp_apply, relisted_key, hkey, ← hid]
    rfl

/-- **The members of the groups outside the scope** stand as they were exactly when they are listed
already as the last groups list them that find the group. -/
theorem Persisted.members_outside_iff (hdb : db.Valid) (hnodup : (s.pending.map (·.key)).Nodup)
    (hr : r ∈ db.correlations) (hout : ¬ r.2.In scope) :
    ((s.committed scope (produced.map Prod.snd)).members.filter fun m => m.correlationId = r.1) =
      (db.members.filter fun m => m.correlationId = r.1) ↔
    ∀ m, ∀ g ∈ latest (fun g => g.Finds digest scope.tenant r.2 ∧ m ∈ g.members)
        (produced.map Prod.fst),
      ∃ row ∈ db.members, row.key = (r.1, m) ∧ g.refreshMember row = row := by
  obtain ⟨added, hfilter, hadded⟩ := h.exists_added hdb hnodup hr hout
  rw [hfilter]
  constructor
  · intro heq m g hg
    have hlen := congrArg List.length heq
    rw [length_append, length_map] at hlen
    have hnil : added = [] := eq_nil_of_length_eq_zero (by omega)
    rw [hnil, append_nil, h.relisted_eq_self_iff hr] at heq
    obtain ⟨row, hrow, hkey⟩ := mem_map.mp (hadded.mp hnil m g hg)
    refine ⟨row, hrow, hkey, ?_⟩
    rw [FindingCorrelationMember.key, Prod.mk.injEq] at hkey
    exact heq row hrow hkey.1 g (by rw [hkey.2]; exact hg)
  · intro hlisted
    have hnil : added = [] := hadded.mpr fun m g hg => by
      obtain ⟨row, hrow, hkey, -⟩ := hlisted m g hg
      exact mem_map.mpr ⟨row, hrow, hkey⟩
    rw [hnil, append_nil, h.relisted_eq_self_iff hr]
    intro row hrow hid g hg
    obtain ⟨row', hrow', hkey, hsays⟩ := hlisted row.findingId g hg
    have heq : row' = row := inj_on_of_nodup_map hdb.nodup_keys hrow' hrow
      (hkey.trans (Prod.ext hid.symm rfl))
    exact heq ▸ hsays

section Members
variable (hin : ∀ p ∈ produced, ∀ f ∈ db.findings, f.finding.id ∈ p.1.members → f.In scope)
include hin

omit h in
theorem pointed_of_not_in {f : FindingRow} (hf : f ∈ db.findings) (hout : ¬ f.In scope) :
    pointed produced f = f :=
  pointed_of_not_mem fun ⟨p, hp, hm⟩ => hout (hin p hp f hf hm)

theorem Persisted.findings_committed :
    ((s.committed scope (produced.map Prod.snd)).findings.filter fun f => ¬ f.In scope) =
      db.findings.filter fun f => ¬ f.In scope := by
  rw [Session.committed, h.findings, map_map, filter_map]
  have hfilter : (db.findings.filter
      ((fun f => decide (¬ f.In scope)) ∘
        FindingRow.clear scope (produced.map Prod.snd) ∘ pointed produced)) =
      db.findings.filter fun f => ¬ f.In scope := by
    refine filter_congr fun f _ => ?_
    simp only [Function.comp_apply, in_clear_pointed]
  rw [hfilter]
  refine (map_congr_left fun f hf => ?_).trans (map_id _)
  rw [mem_filter, decide_eq_true_eq] at hf
  rw [Function.comp_apply, pointed_of_not_in hin hf.1 hf.2, clear_of_not_in hf.2]
  rfl

/-- **No group is deleted to which a finding points** exactly when none to which a finding outside
the scope points. -/
theorem Persisted.released_iff :
    s.Released scope (produced.map Prod.snd) ↔
      ∀ f ∈ db.findings, ¬ f.In scope → ∀ r ∈ db.correlations, r.1 ∈ f.correlationId →
        r.2.In scope → ∃ g ∈ produced.map Prod.fst, g.Finds digest scope.tenant r.2 := by
  rw [Session.Released, h.findings, forall_mem_map]
  constructor
  · intro hreleased f hf hout r hr hpointer hrin
    rw [← h.mem_ids_iff hr]
    by_contra hids
    refine hreleased f hf r.1 ?_ (h.mem_stale_iff.mpr ⟨hids, r, hr, rfl, hrin⟩)
    rwa [pointed_of_not_in hin hf hout, clear_of_not_in hout]
  · intro hreleased f hf id hid hstale
    obtain ⟨hids, r, hr, rfl, hrin⟩ := h.mem_stale_iff.mp hstale
    rw [mem_clear] at hid
    have hout : ¬ f.In scope := fun hfin =>
      hids (hid.2 (by simpa only [FindingRow.In, pointed_finding, pointed_tenantId] using hfin))
    rw [pointed_of_not_in hin hf hout] at hid
    exact hids ((h.mem_ids_iff hr).mpr (hreleased f hf hout r hr hid.1 hrin))

end Members

/-- **The pointers in scope** are those of the run exactly when the findings that point to a group of
the tenant that is produced again are members of some group. -/
theorem Persisted.pointers_iff (hdb : db.Valid) :
    (∀ f ∈ (s.committed scope (produced.map Prod.snd)).findings, f.In scope →
      ∀ id ∈ f.correlationId, ∃ g, (g, id) ∈ produced ∧ f.finding.id ∈ g.members ∧
        (id, f.finding.id) ∈
          (s.committed scope (produced.map Prod.snd)).members.map (·.key)) ↔
    ∀ f ∈ db.findings, f.In scope → ∀ r ∈ db.correlations, r.1 ∈ f.correlationId →
      (∃ g ∈ produced.map Prod.fst, g.Finds digest scope.tenant r.2) →
        ∃ g ∈ produced.map Prod.fst, f.finding.id ∈ g.members := by
  have hfindings : (s.committed scope (produced.map Prod.snd)).findings =
      db.findings.map fun f => (pointed produced f).clear scope (produced.map Prod.snd) := by
    rw [Session.committed, h.findings, map_map]
    rfl
  rw [hfindings, forall_mem_map]
  refine forall₂_congr fun f hf => ?_
  rw [in_clear_pointed, clear_finding, pointed_finding]
  refine forall_congr' fun hfin => ?_
  constructor
  · intro hpointers r hr hpointer hfound
    by_contra hnone
    -- in no group, the finding keeps a pointer that is not stale
    have hself : pointed produced f = f := pointed_of_not_mem fun ⟨p, hp, hm⟩ =>
      hnone ⟨p.1, mem_map_of_mem hp, hm⟩
    have hkept : r.1 ∈ ((pointed produced f).clear scope (produced.map Prod.snd)).correlationId := by
      rw [hself, mem_clear]
      exact ⟨hpointer, fun _ => (h.mem_ids_iff hr).mpr hfound⟩
    obtain ⟨g, hg, hm, -⟩ := hpointers r.1 hkept
    exact hnone ⟨g, mem_map_of_mem hg, hm⟩
  · intro hgrouped id hid
    rw [mem_clear] at hid
    obtain ⟨hpointer, hids⟩ := hid
    by_cases hgroup : ∃ p ∈ produced, f.finding.id ∈ p.1.members
    · obtain ⟨p, hp, hm⟩ := hgroup
      obtain ⟨v, hv, hm', heq⟩ := exists_pointed hp hm
      rw [heq, Option.mem_some_iff] at hpointer
      subst hpointer
      exact ⟨v.1, hv, hm', h.mem_keys hv hm'⟩
    · rw [pointed_of_not_mem hgroup] at hpointer hids
      obtain ⟨r, hr, rfl⟩ := mem_map.mp (hdb.known_pointers f hf id hpointer)
      obtain ⟨g, hg, hm⟩ := hgrouped r hr hpointer ((h.mem_ids_iff hr).mp (hids hfin))
      obtain ⟨p, hp, rfl⟩ := mem_map.mp hg
      exact absurd ⟨p, hp, hm⟩ hgroup

omit h in
theorem mem_committed_ids {ids : List ℕ} {i : ℕ} (hi : i ∈ s.db.correlations.map Prod.fst)
    (hstale : i ∉ s.db.stale scope ids) :
    i ∈ (s.committed scope ids).correlations.map Prod.fst := by
  obtain ⟨r, hr, rfl⟩ := mem_map.mp hi
  refine mem_map_of_mem (mem_filter.mpr ⟨hr, decide_eq_true fun hdeleted => ?_⟩)
  exact hstale (mem_stale.mpr ⟨hdeleted.2, r, hr, rfl, hdeleted.1⟩)

theorem Persisted.mem_ids_of_produced {g : Group} {id : ℕ} (hg : (g, id) ∈ produced) :
    id ∈ s.db.correlations.map Prod.fst := by
  obtain ⟨r, hr, hid, -⟩ := h.produced _ hg
  exact mem_map.mpr ⟨r, hr, hid⟩

theorem Persisted.mem_ids_of_known {i : ℕ} (hi : i ∈ db.correlations.map Prod.fst) :
    i ∈ s.db.correlations.map Prod.fst := by
  obtain ⟨r, hr, rfl⟩ := mem_map.mp hi
  exact mem_map.mpr ⟨_, h.mem_refreshed hr, refreshed_fst ..⟩

/-- **The constraints hold** of what is committed. -/
theorem Persisted.committed_valid (hdb : db.Valid)
    (hreleased : s.Released scope (produced.map Prod.snd))
    (hnodup : (s.pending.map (·.key)).Nodup) :
    (s.committed scope (produced.map Prod.snd)).Valid := by
  have hproduced : ∀ {g : Group} {id : ℕ}, (g, id) ∈ produced →
      id ∉ s.db.stale scope (produced.map Prod.snd) := fun hg hstale =>
    (h.mem_stale_iff.mp hstale).1 (mem_map_of_mem hg)
  refine ⟨?_, h.nodup_ids.sublist (filter_sublist.map _),
    h.nodup_fingerprints.sublist (filter_sublist.map _),
    (h.nodup_append_iff.mpr hnodup).sublist ((filter_sublist.append_right _).map _),
    fun r hr => ?_, fun f hf id hid => ?_, fun r hr => h.lt_nextId r (mem_of_mem_filter hr)⟩
  · rw [Session.committed, h.findings, map_map, map_map]
    simpa only [Function.comp_def, clear_finding, pointed_finding] using hdb.nodup_findings
  · obtain ⟨new, hmembers, hnew⟩ := h.members
    have hadded : r ∈ new ++ s.pending → r.correlationId ∈
        (s.committed scope (produced.map Prod.snd)).correlations.map Prod.fst := fun hr => by
      obtain ⟨g, hg, -⟩ := hnew r hr
      exact mem_committed_ids (h.mem_ids_of_produced hg) (hproduced hg)
    rcases mem_append.mp hr with hr | hr
    · rw [mem_filter, decide_eq_true_eq] at hr
      rcases mem_append.mp (hmembers ▸ hr.1) with hold | hold
      · obtain ⟨row, hrow, rfl⟩ := mem_map.mp hold
        rw [relisted_correlationId] at hr ⊢
        exact mem_committed_ids (h.mem_ids_of_known (hdb.known_members row hrow)) hr.2
      · exact hadded (mem_append_left _ hold)
    · exact hadded (mem_append_right _ hr)
  · obtain ⟨f', hf', rfl⟩ := mem_map.mp hf
    refine mem_committed_ids ?_ (hreleased f' hf' id hid)
    rw [mem_clear] at hid
    obtain ⟨row, hrow, rfl⟩ := mem_map.mp (h.findings ▸ hf')
    by_cases hgroup : ∃ p ∈ produced, row.finding.id ∈ p.1.members
    · obtain ⟨p, hp, hm⟩ := hgroup
      obtain ⟨v, hv, -, heq⟩ := exists_pointed hp hm
      rw [heq, Option.mem_some_iff] at hid
      exact hid.1 ▸ h.mem_ids_of_produced hv
    · rw [pointed_of_not_mem hgroup] at hid
      exact h.mem_ids_of_known (hdb.known_pointers row hrow id hid.1)

end Commit

/-! ### The groups of a run -/

section Groups
variable {R : Runtime} {fs : List Finding}

theorem Database.Valid.nodup_answer (hdb : db.Valid) (hfs : db.Answers scope fs) :
    (fs.map (·.id)).Nodup := by
  obtain ⟨l, hperm, hsub⟩ := hfs.1
  refine (hperm.map _).nodup_iff.mp ((hsub.map _).nodup ?_)
  rw [Database.eligible, map_map]
  exact (filter_sublist.map _).nodup hdb.nodup_findings

theorem mem_of_answers (hfs : db.Answers scope fs) {f : Finding} (hf : f ∈ fs) :
    ∃ row ∈ db.findings, row.finding = f ∧ row.In scope := by
  obtain ⟨row, hrow, rfl⟩ := mem_map.mp (hfs.1.subset hf)
  rw [mem_filter, decide_eq_true_eq] at hrow
  exact ⟨row, hrow.1, rfl, hrow.2.1⟩

theorem group_of_answers (hdb : db.Valid) (hfs : db.Answers scope fs) {g : Group}
    (hg : g ∈ correlate R fs) :
    (∀ c ∈ scope.customer, g.customerId = c) ∧ g.members.Nodup := by
  obtain ⟨c, hc, rfl⟩ := mem_map.mp hg
  constructor
  · obtain ⟨f, hf, hcustomer⟩ := exists_customer hc
    obtain ⟨row, -, rfl, hin⟩ := mem_of_answers hfs hf
    rw [Cluster.group_customerId, hcustomer]
    exact hin.2
  · rw [Cluster.group_members]
    exact (cluster_sound hc).nodup_kept (hdb.nodup_answer hfs)

theorem in_of_mem_group (hdb : db.Valid) (hfs : db.Answers scope fs) {g : Group}
    (hg : g ∈ correlate R fs) {f : FindingRow} (hf : f ∈ db.findings)
    (hm : f.finding.id ∈ g.members) : f.In scope := by
  obtain ⟨c, hc, rfl⟩ := mem_map.mp hg
  rw [Cluster.group_members] at hm
  obtain ⟨k, hk, hid⟩ := mem_map.mp hm
  have hmem := (cluster_sound hc).members_subset k (Cluster.mem_of_kept hk)
  obtain ⟨row, hrow, rfl, hin⟩ := mem_of_answers hfs hmem
  exact inj_on_of_nodup_map hdb.nodup_findings hrow hf hid ▸ hin

/-- **A run keeps the constraints of the tables.** -/
theorem Database.Valid.correlateTenant (hdb : db.Valid) (hfs : db.Answers scope fs)
    {produced : List (Group × ℕ)} {db' : Database}
    (hrun : Correlation.correlateTenant scope R digest fs db = some (produced, db')) :
    db'.Valid := by
  have hcustomers := fun g (hg : g ∈ correlate R fs) => (group_of_answers hdb hfs hg).1
  obtain ⟨s, hall, hreleased, hnodup, rfl⟩ := (correlateTenant_eq_some_iff hdb hcustomers).mp hrun
  have h := ((persisted_nil hdb).persistAll hcustomers hall).1
  exact h.committed_valid hdb hreleased hnodup

/-- **The runs that leave reconciled tables** are those over reconcilable ones. -/
theorem correlateTenant_reconciles_iff (hdb : db.Valid) (hfs : db.Answers scope fs) :
    (∃ produced db', correlateTenant scope R digest fs db = some (produced, db') ∧
      Reconciled scope digest db db' produced) ↔
      Reconcilable scope digest (correlate R fs) db := by
  have hgs := fun g (hg : g ∈ correlate R fs) => group_of_answers hdb hfs hg
  have hcustomers := fun g (hg : g ∈ correlate R fs) => (hgs g hg).1
  have hnil : Persisted digest scope db [] [] ⟨db, []⟩ := persisted_nil hdb
  have hend := hnil.persistAll_iff hdb hgs
  simp only [map_nil, nodup_nil, true_and, nil_append] at hend
  have hin {produced : List (Group × ℕ)} (hgroups : produced.map Prod.fst = correlate R fs) :
      ∀ p ∈ produced, ∀ f ∈ db.findings, f.finding.id ∈ p.1.members → f.In scope :=
    fun p hp f hf hm => in_of_mem_group hdb hfs (hgroups ▸ mem_map_of_mem hp) hf hm
  constructor
  · rintro ⟨produced, db', hrun, hreconciled⟩
    obtain ⟨s, hall, hreleased, hnodup, rfl⟩ := (correlateTenant_eq_some_iff hdb hcustomers).mp hrun
    obtain ⟨h, hgroups⟩ := hnil.persistAll hcustomers hall
    rw [nil_append] at h
    rw [← hgroups]
    exact ⟨hgroups ▸ hend.mp ⟨produced, s, hall, hnodup⟩, (h.released_iff (hin hgroups)).mp hreleased,
      h.correlations_outside_iff.mp hreconciled.correlations_outside,
      fun r hr hout => (h.members_outside_iff hdb hnodup hr hout).mp
        (hreconciled.members_outside r hr hout),
      (h.pointers_iff hdb).mp hreconciled.pointers⟩
  · intro hreconcilable
    obtain ⟨produced, s, hall, hnodup⟩ := hend.mpr hreconcilable.adds
    obtain ⟨h, hgroups⟩ := hnil.persistAll hcustomers hall
    rw [nil_append] at h
    rw [← hgroups] at hreconcilable
    refine ⟨produced, s.committed scope (produced.map Prod.snd),
      (correlateTenant_eq_some_iff hdb hcustomers).mpr
        ⟨s, hall, (h.released_iff (hin hgroups)).mpr hreconcilable.released, hnodup, rfl⟩, ?_⟩
    exact ⟨(h.pointers_iff hdb).mpr hreconcilable.grouped, fun r => h.correlations_committed,
      h.findings_committed (hin hgroups), h.correlations_outside_iff.mpr hreconcilable.shown,
      fun r hr hout => (h.members_outside_iff hdb hnodup hr hout).mpr
        (hreconcilable.listed r hr hout)⟩

end Groups

def earlierGroup : Group :=
  (cveCluster (default, "CVE-1")
    ((List.range 3).map fun n => componentFinding ["CVE-1"] (n + 1))).group

/-- The tables some time after an earlier run: the third finding has been resolved, and the others
report the CVEs. -/
def laterDatabase (cveIds : List Str) : Database where
  findings :=
    [⟨componentFinding cveIds 1, default, "open", some 0⟩,
      ⟨componentFinding cveIds 2, default, "open", some 0⟩,
      ⟨componentFinding ["CVE-1"] 3, default, "resolved", some 0⟩]
  correlations := [(0, earlierGroup.row sumDigest default)]
  members := earlierGroup.members.map (earlierGroup.memberRow default 0)
  nextId := 1

theorem laterDatabase_valid (cveIds : List Str) : (laterDatabase cveIds).Valid := by
  have hids : (([1, 2, 3] : List ℕ).map Uuid.ofNat).Nodup := by decide
  have hmembers : (laterDatabase cveIds).members.map (·.key) =
      ([1, 2, 3] : List ℕ).map fun n => (0, Uuid.ofNat n) := rfl
  refine ⟨hids, nodup_singleton _, nodup_singleton _, ?_, fun r hr => ?_,
    fun f hf id hid => ?_, fun r hr => ?_⟩
  · rw [hmembers]
    decide
  · obtain ⟨m, -, rfl⟩ := mem_map.mp hr
    exact mem_singleton_self 0
  · simp only [laterDatabase, mem_cons, not_mem_nil, or_false] at hf
    rcases hf with rfl | rfl | rfl <;> cases hid <;> exact mem_singleton_self 0
  · rw [mem_singleton.mp hr]
    exact Nat.zero_lt_one

theorem laterDatabase_answers (cveIds : List Str) :
    (laterDatabase cveIds).Answers ⟨default, none⟩
      [componentFinding cveIds 1, componentFinding cveIds 2] := by
  have heligible : (laterDatabase cveIds).eligible ⟨default, none⟩ =
      [componentFinding cveIds 1, componentFinding cveIds 2] := by
    simp [Database.eligible, laterDatabase, FindingRow.In, Scope.Includes]
  rw [Database.Answers, heligible]
  exact ⟨Subperm.refl _, rfl⟩

theorem valid_correlateTenant_later :
    ∃ produced db', correlateTenant ⟨default, none⟩ Runtime.ascii sumDigest
      [componentFinding ["CVE-1"] 1, componentFinding ["CVE-1"] 2]
      (laterDatabase ["CVE-1"]) = some (produced, db') ∧ db'.Valid := by
  have hsome : (correlateTenant ⟨default, none⟩ Runtime.ascii sumDigest
      [componentFinding ["CVE-1"] 1, componentFinding ["CVE-1"] 2]
      (laterDatabase ["CVE-1"])).isSome = true := by decide +kernel
  obtain ⟨⟨produced, db'⟩, hrun⟩ := Option.isSome_iff_exists.mp hsome
  exact ⟨produced, db', hrun,
    Database.Valid.correlateTenant (laterDatabase_valid _) (laterDatabase_answers _) hrun⟩

theorem laterDatabase_not_reconciled :
    (laterDatabase ["CVE-1", "CVE-2"]).Valid ∧
      (laterDatabase ["CVE-1", "CVE-2"]).Answers ⟨default, none⟩ twoCveFindings ∧
      (∀ f ∈ twoCveFindings, ∀ g ∈ twoCveFindings, f.assetId = g.assetId →
        f.customerId = g.customerId) ∧
      (¬ ∃ produced db', correlateTenant ⟨default, none⟩ Runtime.ascii sumDigest twoCveFindings
          (laterDatabase ["CVE-1", "CVE-2"]) = some (produced, db') ∧
        Reconciled ⟨default, none⟩ sumDigest (laterDatabase ["CVE-1", "CVE-2"]) db'
          produced) ∧
      -- nor are the tables that the failed run leaves as they were
      ¬ Reconciled ⟨default, none⟩ sumDigest (laterDatabase ["CVE-1", "CVE-2"])
        (laterDatabase ["CVE-1", "CVE-2"]) [] := by
  refine ⟨laterDatabase_valid _, laterDatabase_answers _, by decide, ?_, fun h => ?_⟩
  · rintro ⟨produced, db', hrun, -⟩
    -- the second CVE adds the members that the first one has not flushed
    have hnone : (correlateTenant ⟨default, none⟩ Runtime.ascii sumDigest twoCveFindings
        (laterDatabase ["CVE-1", "CVE-2"])).isNone = true := by decide +kernel
    rw [hrun] at hnone
    cases hnone
  · obtain ⟨g, hg, -⟩ := h.correlations _ (mem_singleton_self _) ⟨rfl, by simp⟩
    exact not_mem_nil hg

theorem correlateTenant_reconciles_iff_later :
    (∃ produced db', correlateTenant ⟨default, none⟩ Runtime.ascii sumDigest
        [componentFinding ["CVE-1"] 1, componentFinding ["CVE-1"] 2]
        (laterDatabase ["CVE-1"]) = some (produced, db') ∧
      Reconciled ⟨default, none⟩ sumDigest (laterDatabase ["CVE-1"]) db' produced) ↔
      Reconcilable ⟨default, none⟩ sumDigest (correlate Runtime.ascii
        [componentFinding ["CVE-1"] 1, componentFinding ["CVE-1"] 2])
        (laterDatabase ["CVE-1"]) :=
  correlateTenant_reconciles_iff (laterDatabase_valid _) (laterDatabase_answers _)

end Guardian.Correlation
