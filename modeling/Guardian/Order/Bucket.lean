import Mathlib.Data.List.Induction
import Mathlib.Data.List.Nodup

/-!
# Buckets

Pairs of a key and a value are sorted into one bucket for each key: the buckets stand in the order in
which their keys came first, the values in a bucket in the order in which they came.

* `mem_buckets`: a bucket holds the values of its key, and there is one for every key.
* `valuesOf_flatMap`: the values of a key, if a value may have several keys.
* `unseen_tells_iff`: when the first member of each key tells the values of all.
-/

namespace Guardian.Order

open List
variable {K V : Type*} [DecidableEq K]

/-- Adds a value at the end of the bucket of its key. -/
def addTo (k : K) (v : V) : List (K × List V) → List (K × List V)
  | [] => [(k, [v])]
  | b :: bs => if b.1 = k then (b.1, b.2 ++ [v]) :: bs else b :: addTo k v bs

/-- **The buckets** of a list of pairs. -/
def buckets (ps : List (K × V)) : List (K × List V) := ps.foldl (fun bs p => addTo p.1 p.2 bs) []

/-- The values of a key. -/
def valuesOf (k : K) (ps : List (K × V)) : List V := (ps.filter fun p => p.1 = k).map Prod.snd

theorem mem_valuesOf {k : K} {v : V} {ps : List (K × V)} : v ∈ valuesOf k ps ↔ (k, v) ∈ ps := by
  simp [valuesOf]

theorem key_mem {k : K} {v : V} {ps : List (K × V)} (h : v ∈ valuesOf k ps) :
    k ∈ ps.map Prod.fst := mem_map.mpr ⟨(k, v), mem_valuesOf.mp h, rfl⟩

theorem valuesOf_concat (k : K) (ps : List (K × V)) (p : K × V) :
    valuesOf k (ps ++ [p]) = valuesOf k ps ++ if p.1 = k then [p.2] else [] := by
  rw [valuesOf, filter_append, map_append]
  by_cases h : p.1 = k <;> simp [valuesOf, h]

/-- The keys in the order in which they came first. -/
def firsts (ks : List K) : List K :=
  ks.foldl (fun seen k => if k ∈ seen then seen else seen ++ [k]) []

theorem firsts_concat (ks : List K) (k : K) :
    firsts (ks ++ [k]) = if k ∈ firsts ks then firsts ks else firsts ks ++ [k] := by
  rw [firsts, foldl_append]
  rfl

theorem mem_firsts {ks : List K} {k : K} : k ∈ firsts ks ↔ k ∈ ks := by
  induction ks using reverseRecOn with
  | nil => rfl
  | append_singleton ks l ih =>
    rw [firsts_concat, mem_append, mem_singleton, ← ih]
    split_ifs with hl
    · constructor
      · exact Or.inl
      · rintro (h | rfl)
        · exact h
        · exact hl
    · rw [mem_append, mem_singleton]

theorem nodup_firsts (ks : List K) : (firsts ks).Nodup := by
  induction ks using reverseRecOn with
  | nil => exact nodup_nil
  | append_singleton ks k ih =>
    rw [firsts_concat]
    split_ifs with hk
    · exact ih
    · refine nodup_append.mpr ⟨ih, by simp, ?_⟩
      rintro l hl m hm rfl
      rw [mem_singleton] at hm
      exact hk (hm ▸ hl)

/-- Adding to buckets that are given by their keys. -/
theorem addTo_map (k : K) (v : V) {ks : List K} (hks : ks.Nodup) {f : K → List V}
    (hf : k ∉ ks → f k = []) :
    addTo k v (ks.map fun l => (l, f l)) =
      (if k ∈ ks then ks else ks ++ [k]).map fun l => (l, f l ++ if k = l then [v] else []) := by
  induction ks with
  | nil => simp [addTo, hf]
  | cons l ks ih =>
    rw [nodup_cons] at hks
    rw [map_cons, addTo]
    by_cases hl : l = k
    · subst hl
      rw [if_pos rfl, if_pos (mem_cons_self ..), map_cons, if_pos rfl, List.cons.injEq]
      refine ⟨rfl, map_congr_left fun m hm => ?_⟩
      have hne : ¬ l = m := fun heq => hks.1 (heq ▸ hm)
      rw [if_neg hne, append_nil]
    · have hne : ¬ k = l := fun heq => hl heq.symm
      have hmem : k ∈ l :: ks ↔ k ∈ ks := by simp [hne]
      rw [if_neg hl, ih hks.2 fun hk => hf (hk ∘ hmem.mp)]
      by_cases hk : k ∈ ks
      · rw [if_pos hk, if_pos (hmem.mpr hk), map_cons, if_neg hne, append_nil]
      · rw [if_neg hk, if_neg (hk ∘ hmem.mp), cons_append, map_cons, if_neg hne,
          append_nil]

/-- **The buckets**: one for each key, with the values of the key. -/
theorem buckets_eq (ps : List (K × V)) :
    buckets ps = (firsts (ps.map Prod.fst)).map fun k => (k, valuesOf k ps) := by
  induction ps using reverseRecOn with
  | nil => rfl
  | append_singleton ps p ih =>
    have hstep : buckets (ps ++ [p]) = addTo p.1 p.2 (buckets ps) := by
      rw [buckets, foldl_append]
      rfl
    have hnone : p.1 ∉ firsts (ps.map Prod.fst) → valuesOf p.1 ps = [] := by
      rw [mem_firsts]
      intro h
      exact eq_nil_iff_forall_not_mem.mpr fun v hv => h (key_mem hv)
    rw [hstep, ih, addTo_map p.1 p.2 (nodup_firsts _) hnone, map_append, map_singleton,
      firsts_concat]
    refine map_congr_left fun k _ => ?_
    rw [valuesOf_concat]

theorem mem_buckets {ps : List (K × V)} {k : K} {vs : List V} :
    (k, vs) ∈ buckets ps ↔ vs = valuesOf k ps ∧ vs ≠ [] := by
  rw [buckets_eq, mem_map]
  constructor
  · rintro ⟨l, hl, heq⟩
    rw [Prod.mk.injEq] at heq
    obtain ⟨rfl, rfl⟩ := heq
    rw [mem_firsts, mem_map] at hl
    obtain ⟨p, hp, rfl⟩ := hl
    exact ⟨rfl, ne_nil_of_mem (mem_valuesOf.mpr hp)⟩
  · rintro ⟨rfl, hne⟩
    obtain ⟨v, hv⟩ := exists_mem_of_ne_nil _ hne
    exact ⟨k, mem_firsts.mpr (key_mem hv), rfl⟩

/-- **The values of a key**, if every member of a list stands under some keys. -/
theorem valuesOf_flatMap {keys : V → List K} (hkeys : ∀ v, (keys v).Nodup) (k : K) (vs : List V) :
    valuesOf k (vs.flatMap fun v => (keys v).map fun l => (l, v)) =
      vs.filter fun v => k ∈ keys v := by
  have hsingle : ∀ (v : V) (ls : List K), ls.Nodup →
      valuesOf k (ls.map fun l => (l, v)) = if k ∈ ls then [v] else [] := by
    intro v ls hls
    induction ls with
    | nil => rfl
    | cons l ls ih =>
      rw [nodup_cons] at hls
      have := ih hls.2
      unfold valuesOf at this ⊢
      by_cases hl : l = k
      · subst hl
        rw [if_neg hls.1] at this
        simp [this]
      · have hl' : ¬ k = l := fun heq => hl heq.symm
        simp [hl, hl', this]
  induction vs with
  | nil => rfl
  | cons v vs ih =>
    have hcons : valuesOf k ((v :: vs).flatMap fun v => (keys v).map fun l => (l, v)) =
        valuesOf k ((keys v).map fun l => (l, v)) ++
          valuesOf k (vs.flatMap fun v => (keys v).map fun l => (l, v)) := by
      simp [valuesOf]
    rw [hcons, hsingle v _ (hkeys v), ih, filter_cons]
    by_cases hk : k ∈ keys v <;> simp [hk]

/-- Values of one key fill one bucket. -/
theorem buckets_single (k : K) {vs : List V} (h : vs ≠ []) :
    buckets (vs.map fun v => (k, v)) = [(k, vs)] := by
  have hconcat : ∀ (vs : List V) v, buckets ((vs ++ [v]).map fun v => (k, v)) = [(k, vs ++ [v])] := by
    intro vs
    induction vs using reverseRecOn with
    | nil => exact fun _ => rfl
    | append_singleton vs u ih =>
      intro v
      have hstep : buckets ((vs ++ [u] ++ [v]).map fun v => (k, v)) =
          addTo k v (buckets ((vs ++ [u]).map fun v => (k, v))) := by
        rw [map_append, buckets, foldl_append]
        rfl
      rw [hstep, ih, addTo, if_pos rfl]
  rw [← dropLast_append_getLast h]
  exact hconcat _ _

theorem nodup_keys_buckets (ps : List (K × V)) : ((buckets ps).map Prod.fst).Nodup := by
  rw [buckets_eq, map_map]
  have : (Prod.fst ∘ fun k => (k, valuesOf k ps)) = (id : K → K) := rfl
  rw [this, map_id]
  exact nodup_firsts _

/-! ### The first of each key -/

section First
variable {α V : Type*} (key : α → K)

/-- The members of a list whose keys were not seen before. -/
def unseen (seen : List K) : List α → List α
  | [] => []
  | a :: as => if key a ∈ seen then unseen seen as else a :: unseen (key a :: seen) as

/-- The keys that have been seen after a list. -/
def seenAfter (seen : List K) : List α → List K
  | [] => seen
  | a :: as => seenAfter (if key a ∈ seen then seen else key a :: seen) as

variable {key} {seen : List K} {as : List α} {a b : α}

theorem unseen_append (as bs : List α) :
    unseen key seen (as ++ bs) = unseen key seen as ++ unseen key (seenAfter key seen as) bs := by
  induction as generalizing seen with
  | nil => rfl
  | cons a as ih =>
    rw [cons_append, unseen, unseen, seenAfter]
    split_ifs
    · exact ih
    · rw [ih, cons_append]

theorem of_mem_unseen (h : a ∈ unseen key seen as) : a ∈ as ∧ key a ∉ seen := by
  induction as generalizing seen with
  | nil => cases h
  | cons b as ih =>
    rw [unseen] at h
    split_ifs at h with hb
    · exact ⟨mem_cons_of_mem b (ih h).1, (ih h).2⟩
    · rcases mem_cons.mp h with rfl | h
      · exact ⟨mem_cons_self, hb⟩
      · exact ⟨mem_cons_of_mem b (ih h).1, fun hseen => (ih h).2 (mem_cons_of_mem _ hseen)⟩

/-- One member of each key is kept. -/
theorem eq_of_mem_unseen (ha : a ∈ unseen key seen as) (hb : b ∈ unseen key seen as)
    (hkey : key a = key b) : a = b := by
  induction as generalizing seen with
  | nil => cases ha
  | cons c as ih =>
    rw [unseen] at ha hb
    split_ifs at ha hb with hc
    · exact ih ha hb
    · rcases mem_cons.mp ha with rfl | ha <;> rcases mem_cons.mp hb with rfl | hb
      · rfl
      · exact absurd (hkey ▸ mem_cons_self) (of_mem_unseen hb).2
      · exact absurd (hkey ▸ mem_cons_self) (of_mem_unseen ha).2
      · exact ih ha hb

theorem exists_mem_unseen (ha : a ∈ as) (hseen : key a ∉ seen) :
    ∃ b ∈ unseen key seen as, key b = key a := by
  induction as generalizing seen with
  | nil => cases ha
  | cons c as ih =>
    rw [unseen]
    split_ifs with hc
    · rcases mem_cons.mp ha with rfl | ha
      · exact absurd hc hseen
      · exact ih ha hseen
    · by_cases hac : key a = key c
      · exact ⟨c, mem_cons_self, hac.symm⟩
      · have ha : a ∈ as := (mem_cons.mp ha).resolve_left fun h => hac (h ▸ rfl)
        obtain ⟨b, hb, hkey⟩ := ih ha fun hmem => (mem_cons.mp hmem).elim hac hseen
        exact ⟨b, mem_cons_of_mem c hb, hkey⟩

/-- **What is kept tells all values** exactly if the members of one key have one value. -/
theorem unseen_tells_iff {val : α → V} :
    (∀ a ∈ as, ∃ b ∈ unseen key [] as, key b = key a ∧ val b = val a) ↔
      ∀ a ∈ as, ∀ b ∈ as, key a = key b → val a = val b := by
  constructor
  · intro h a ha b hb hkey
    obtain ⟨a', ha', hka, hva⟩ := h a ha
    obtain ⟨b', hb', hkb, hvb⟩ := h b hb
    rw [← hva, ← hvb, eq_of_mem_unseen ha' hb' (hka.trans (hkey.trans hkb.symm))]
  · intro h a ha
    have hfirst : ∃ b ∈ unseen key [] as, key b = key a := exists_mem_unseen ha (by simp)
    obtain ⟨b, hb, hkey⟩ := hfirst
    exact ⟨b, hb, hkey, h b (of_mem_unseen hb).1 a ha hkey⟩

end First

end Guardian.Order
