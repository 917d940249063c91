import Guardian.Order.Table
import Guardian.Python.Json

/-!
# Objects on the way through JSON

What `json.loads` makes of what `json.dumps` writes.  A tuple comes back as a list, a key that is no
text as a text; other objects are refused.
-/

namespace Guardian.Python

open Guardian.Order List

/-- A key of a dictionary.  `other` is one that `json.dumps` refuses. -/
inductive Key
  | null
  | bool (b : Bool)
  | number (text : Str)
  | str (s : Str)
  | other (text : Str)
  deriving DecidableEq

/-- **An object.**  A number is given by its text; `other` is one that `json.dumps` refuses. -/
inductive Object
  | null
  | bool (b : Bool)
  | number (text : Str)
  | str (s : Str)
  | list (items : List Object)
  | tuple (items : List Object)
  | dict (entries : List (Key × Object))
  | other (text : Str)

namespace Object

abbrev Dict := List (Key × Object)

theorem induct {P : Object → Prop} (null : P .null) (bool : ∀ b, P (.bool b))
    (number : ∀ t, P (.number t)) (str : ∀ s, P (.str s))
    (list : ∀ items : List Object, (∀ x ∈ items, P x) → P (.list items))
    (tuple : ∀ items : List Object, (∀ x ∈ items, P x) → P (.tuple items))
    (dict : ∀ entries : Dict, (∀ e ∈ entries, P e.2) → P (.dict entries))
    (other : ∀ t, P (.other t)) : ∀ x, P x := by
  intro x
  refine Object.rec (motive_1 := P) (motive_2 := fun xs => ∀ x ∈ xs, P x)
    (motive_3 := fun es => ∀ e ∈ es, P e.2) (motive_4 := fun e => P e.2)
    null bool number str list tuple dict other (by simp) ?_ (by simp) ?_ (fun _ _ h => h) x
  · intro y ys hy hys z hz
    rcases mem_cons.mp hz with rfl | hz
    · exact hy
    · exact hys z hz
  · intro d ds hd hds e he
    rcases mem_cons.mp he with rfl | he
    · exact hd
    · exact hds e he

end Object

namespace Object

/-- The object counts as true. -/
def truthy : Object → Bool
  | .null => false
  | .bool b => b
  | .number text => text.any fun c => decide (c ∈ "123456789".toList)
  | .str s => !s.isEmpty
  | .list items => !items.isEmpty
  | .tuple items => !items.isEmpty
  | .dict entries => !entries.isEmpty
  | .other _ => true

/-- `d.get(name)`. -/
def get (d : Dict) (name : String) : Option Object := d.lookup (.str name.toList)

end Object

/-! ### There and back -/

/-- The name that `json.dumps` writes for a key. -/
def Key.name : Key → Option Str
  | .null => some "null"
  | .bool true => some "true"
  | .bool false => some "false"
  | .number t => some t
  | .str s => some s
  | .other _ => none

/-- `d[key] = value` for each entry. -/
def Object.ofEntries (entries : Object.Dict) : Object.Dict :=
  entries.foldl (fun d e => amend Prod.fst e.1 (fun _ => e) d) []

namespace Object

mutual

/-- **`json.dumps`**: the value of the text, with the entries as they are written; nothing, when it
raises a `TypeError`. -/
def dumps : Object → Option Json
  | .null => some .null
  | .bool b => some (.bool b)
  | .number t => some (.number t)
  | .str s => some (.str s)
  | .list items => (dumpsAll items).map .list
  | .tuple items => (dumpsAll items).map .list
  | .dict entries => (dumpsEntries entries).map .dict
  | .other _ => none

/-- The items of a list. -/
def dumpsAll : List Object → Option (List Json)
  | [] => some []
  | x :: xs => (dumps x).bind fun y => (dumpsAll xs).map (y :: ·)

/-- The entries of a dictionary. -/
def dumpsEntries : List (Key × Object) → Option Json.Dict
  | [] => some []
  | (key, x) :: entries =>
    key.name.bind fun name =>
      (dumps x).bind fun y => (dumpsEntries entries).map ((name, y) :: ·)

end

mutual

/-- **`json.loads`**: of two entries with a name the last one counts. -/
def loads : Json → Object
  | .null => .null
  | .bool b => .bool b
  | .number t => .number t
  | .str s => .str s
  | .list items => .list (loadsAll items)
  | .dict entries => .dict (ofEntries (loadsEntries entries))

/-- The items of a list. -/
def loadsAll : List Json → List Object
  | [] => []
  | x :: xs => loads x :: loadsAll xs

/-- The entries of a dictionary, as they are written. -/
def loadsEntries : List (Str × Json) → List (Key × Object)
  | [] => []
  | (name, x) :: entries => (.str name, loads x) :: loadsEntries entries

end

mutual

/-- **The object is a JSON value**: there is no tuple in it, and every key is a text. -/
def portable : Object → Bool
  | .null => true
  | .bool _ => true
  | .number _ => true
  | .str _ => true
  | .list items => portableAll items
  | .tuple _ => false
  | .dict entries => portableEntries entries && decide ((entries.map Prod.fst).Nodup)
  | .other _ => false

/-- The items of a list. -/
def portableAll : List Object → Bool
  | [] => true
  | x :: xs => portable x && portableAll xs

/-- The entries of a dictionary. -/
def portableEntries : List (Key × Object) → Bool
  | [] => true
  | (.str _, x) :: entries => portable x && portableEntries entries
  | _ :: _ => false

end

attribute [local simp] dumps dumpsAll dumpsEntries loads loadsAll loadsEntries portable portableAll
  portableEntries

/-- `json.loads(json.dumps(x))`. -/
def carry (x : Object) : Option Object := x.dumps.map loads

def carryAll (xs : List Object) : Option (List Object) := (dumpsAll xs).map loadsAll

def carryEntries (d : Dict) : Option Dict := (dumpsEntries d).map loadsEntries

@[simp] theorem carry_null : carry .null = some .null := by simp [carry]

@[simp] theorem carry_bool (b : Bool) : carry (.bool b) = some (.bool b) := by simp [carry]

@[simp] theorem carry_number (t : Str) : carry (.number t) = some (.number t) := by simp [carry]

@[simp] theorem carry_str (s : Str) : carry (.str s) = some (.str s) := by simp [carry]

theorem carry_list (xs : List Object) : carry (.list xs) = (carryAll xs).map .list := by
  unfold carry carryAll
  rcases h : dumpsAll xs with _ | ys <;> simp [h]

theorem carry_tuple (xs : List Object) : carry (.tuple xs) = (carryAll xs).map .list := by
  unfold carry carryAll
  rcases h : dumpsAll xs with _ | ys <;> simp [h]

theorem carry_dict (d : Dict) : carry (.dict d) = (carryEntries d).map (.dict ∘ ofEntries) := by
  unfold carry carryEntries
  rcases h : dumpsEntries d with _ | ys <;> simp [h]

theorem carryAll_cons (x : Object) (xs : List Object) :
    carryAll (x :: xs) = (carry x).bind fun y => (carryAll xs).map (y :: ·) := by
  unfold carry carryAll
  rcases hx : dumps x with _ | y
  · simp [hx]
  · rcases hxs : dumpsAll xs with _ | ys <;> simp [hx, hxs]

theorem carryEntries_cons (key : Key) (x : Object) (d : Dict) :
    carryEntries ((key, x) :: d) = key.name.bind fun name =>
      (carry x).bind fun y => (carryEntries d).map ((.str name, y) :: ·) := by
  unfold carry carryEntries
  rcases hkey : key.name with _ | name
  · simp [hkey]
  · rcases hx : dumps x with _ | y
    · simp [hkey, hx]
    · rcases hd : dumpsEntries d with _ | ys <;> simp [hkey, hx, hd]

theorem keys_carryEntries {d d' : Dict} (h : carryEntries d = some d') :
    ∀ e ∈ d', ∃ name, e.1 = .str name := by
  induction d generalizing d' with
  | nil =>
    cases h
    exact fun _ he => nomatch he
  | cons e d ih =>
    obtain ⟨key, x⟩ := e
    rw [carryEntries_cons] at h
    simp only [Option.bind_eq_some_iff, Option.map_eq_some_iff] at h
    obtain ⟨name, -, y, -, d'', hd, rfl⟩ := h
    intro e he
    rcases mem_cons.mp he with rfl | he
    · exact ⟨name, rfl⟩
    · exact ih hd e he

theorem map_fst_carryEntries {d d' : Dict} (hkeys : ∀ e ∈ d, ∃ name, e.1 = .str name)
    (h : carryEntries d = some d') : d'.map Prod.fst = d.map Prod.fst := by
  induction d generalizing d' with
  | nil =>
    cases h
    rfl
  | cons e d ih =>
    obtain ⟨key, x⟩ := e
    obtain ⟨⟨name, hname⟩, htexts⟩ := forall_mem_cons.mp hkeys
    dsimp only at hname
    subst hname
    rw [carryEntries_cons] at h
    simp only [Option.bind_eq_some_iff, Option.map_eq_some_iff] at h
    obtain ⟨name', hname', y, -, d'', hd, rfl⟩ := h
    cases hname'
    rw [map_cons, map_cons, ih htexts hd]

theorem carryAll_eq_some_iff {xs : List Object} :
    carryAll xs = some xs ↔ ∀ x ∈ xs, carry x = some x := by
  induction xs with
  | nil => exact ⟨fun _ _ hx => (nomatch hx), fun _ => rfl⟩
  | cons x xs ih =>
    rw [carryAll_cons, forall_mem_cons, ← ih]
    simp [Option.bind_eq_some_iff]

theorem carryEntries_eq_some_iff {d : Dict} : carryEntries d = some d ↔
    ∀ e ∈ d, (∃ name, e.1 = .str name) ∧ carry e.2 = some e.2 := by
  induction d with
  | nil => exact ⟨fun _ _ he => (nomatch he), fun _ => rfl⟩
  | cons e d ih =>
    obtain ⟨key, x⟩ := e
    rw [carryEntries_cons, forall_mem_cons, ← ih]
    constructor
    · intro h
      simp only [Option.bind_eq_some_iff, Option.map_eq_some_iff, List.cons.injEq,
        Prod.mk.injEq] at h
      obtain ⟨name, -, y, hy, d', hd, ⟨hkey, rfl⟩, rfl⟩ := h
      exact ⟨⟨⟨name, hkey.symm⟩, hy⟩, hd⟩
    · rintro ⟨⟨⟨name, hkey⟩, hx⟩, hd⟩
      dsimp only at hkey hx
      subst hkey
      rw [hx, hd]
      rfl

/-! ### Entries with a name -/

theorem mem_ofEntries {d : Dict} {e : Key × Object} (h : e ∈ ofEntries d) : e ∈ d := by
  have hfold : ∀ (d acc : Dict), e ∈ d.foldl (fun d e => amend Prod.fst e.1 (fun _ => e) d) acc →
      e ∈ acc ∨ e ∈ d := by
    intro d
    induction d with
    | nil => exact fun acc h => Or.inl h
    | cons e' d ih =>
      intro acc h
      rw [foldl_cons] at h
      rcases ih _ h with h | h
      · rcases mem_amend h with h | ⟨_, -, rfl⟩
        · exact Or.inl h
        · exact Or.inr mem_cons_self
      · exact Or.inr (mem_cons_of_mem _ h)
  exact (hfold d [] h).resolve_left not_mem_nil

theorem nodup_ofEntries (d : Dict) : ((ofEntries d).map Prod.fst).Nodup := by
  have hfold : ∀ (d acc : Dict), (acc.map Prod.fst).Nodup →
      ((d.foldl (fun d e => amend Prod.fst e.1 (fun _ => e) d) acc).map Prod.fst).Nodup := by
    intro d
    induction d with
    | nil => exact fun acc h => h
    | cons e d ih => exact fun acc h => ih _ (nodup_amend (fun _ _ => rfl) h)
  exact hfold d [] nodup_nil

theorem ofEntries_of_nodup {d : Dict} (h : (d.map Prod.fst).Nodup) : ofEntries d = d := by
  have hfold : ∀ (d acc : Dict), ((acc ++ d).map Prod.fst).Nodup →
      d.foldl (fun d e => amend Prod.fst e.1 (fun _ => e) d) acc = acc ++ d := by
    intro d
    induction d with
    | nil => exact fun acc _ => (append_nil acc).symm
    | cons e d ih =>
      intro acc h
      have hnot : e.1 ∉ acc.map Prod.fst := by
        rw [map_append, map_cons] at h
        exact fun hmem => disjoint_of_nodup_append h hmem mem_cons_self
      rw [foldl_cons, amend_of_notMem hnot, ih _ (by simpa using h)]
      simp
  exact hfold d [] h

/-! ### What comes back -/

theorem portableAll_iff {xs : List Object} :
    portableAll xs = true ↔ ∀ x ∈ xs, portable x = true := by
  induction xs with
  | nil => simp
  | cons x xs ih => simp [ih]

theorem portableEntries_iff {d : Dict} : portableEntries d = true ↔
    ∀ e ∈ d, (∃ name, e.1 = .str name) ∧ portable e.2 = true := by
  induction d with
  | nil => simp
  | cons e d ih =>
    obtain ⟨key, x⟩ := e
    rw [forall_mem_cons, ← ih]
    cases key <;> simp

/-- **What comes back as it is** are the JSON values. -/
theorem carry_eq_some_iff {x : Object} : carry x = some x ↔ portable x = true := by
  induction x using induct with
  | null => simp
  | bool b => simp
  | number t => simp
  | str s => simp
  | other t => simp [carry]
  | list xs ih =>
    rw [carry_list, portable, portableAll_iff, ← forall₂_congr ih, ← carryAll_eq_some_iff]
    simp
  | tuple xs _ =>
    rw [carry_tuple]
    simp
  | dict d ih =>
    have hentries : portableEntries d = true ↔
        ∀ e ∈ d, (∃ name, e.1 = .str name) ∧ carry e.2 = some e.2 := by
      rw [portableEntries_iff]
      exact forall₂_congr fun e he => and_congr_right fun _ => (ih e he).symm
    rw [carry_dict, portable, Bool.and_eq_true, decide_eq_true_eq, hentries,
      ← carryEntries_eq_some_iff]
    constructor
    · intro h
      obtain ⟨d', hd', heq⟩ := Option.map_eq_some_iff.mp h
      have hd : ofEntries d' = d := Object.dict.inj heq
      have hkeys : ∀ e ∈ d, ∃ name, e.1 = .str name := fun e he =>
        keys_carryEntries hd' e (mem_ofEntries (hd ▸ he))
      have hnodup : (d.map Prod.fst).Nodup := hd ▸ nodup_ofEntries d'
      have hnodup' : (d'.map Prod.fst).Nodup := by
        rw [map_fst_carryEntries hkeys hd']
        exact hnodup
      have hsame : d' = d := (ofEntries_of_nodup hnodup').symm.trans hd
      exact ⟨hsame ▸ hd', hnodup⟩
    · rintro ⟨hd, hnodup⟩
      rw [hd, Option.map_some, Function.comp_apply, ofEntries_of_nodup hnodup]

/-! ### Records -/

/-- A dictionary with texts as keys. -/
def record (fields : List (Str × Object)) : Object :=
  .dict (fields.map fun f => (.str f.1, f.2))

/-- The fields one by one. -/
def carryFields : List (Str × Object) → Option (List (Str × Object))
  | [] => some []
  | (name, x) :: fields => (carry x).bind fun y => (carryFields fields).map ((name, y) :: ·)

theorem map_fst_carryFields {fields fields' : List (Str × Object)}
    (h : carryFields fields = some fields') : fields'.map Prod.fst = fields.map Prod.fst := by
  induction fields generalizing fields' with
  | nil =>
    cases h
    rfl
  | cons f fields ih =>
    simp only [carryFields, Option.bind_eq_some_iff, Option.map_eq_some_iff] at h
    obtain ⟨y, -, fields'', hfields, rfl⟩ := h
    rw [map_cons, map_cons, ih hfields]

theorem carryEntries_fields (fields : List (Str × Object)) :
    carryEntries (fields.map fun f => (.str f.1, f.2)) =
      (carryFields fields).map fun fields => fields.map fun f => (.str f.1, f.2) := by
  induction fields with
  | nil => rfl
  | cons f fields ih =>
    rw [map_cons, carryEntries_cons, carryFields, ih]
    rcases carry f.2 with _ | y
    · rfl
    · rcases carryFields fields with _ | fields' <;> rfl

/-- **A dictionary with different names** comes back field by field. -/
theorem carry_record {fields : List (Str × Object)} (h : (fields.map Prod.fst).Nodup) :
    carry (record fields) = (carryFields fields).map record := by
  rw [record, carry_dict, carryEntries_fields]
  rcases hfields : carryFields fields with _ | fields'
  · rfl
  · have hnodup : ((fields'.map fun f => (Key.str f.1, f.2)).map Prod.fst).Nodup := by
      have hnames : (fields'.map Prod.fst).Nodup := (map_fst_carryFields hfields).symm ▸ h
      have hmap := hnames.map (f := Key.str) fun _ _ heq => Key.str.inj heq
      rwa [map_map] at hmap ⊢
    simp only [Option.map_some, Function.comp_apply, ofEntries_of_nodup hnodup]
    rfl

theorem get_record {fields : List (Str × Object)} (h : (fields.map Prod.fst).Nodup) {i : ℕ}
    {name : String} {x : Object} (hi : fields[i]? = some (name.toList, x)) :
    get (fields.map fun f => (.str f.1, f.2)) name = some x := by
  unfold get
  induction fields generalizing i with
  | nil => cases hi
  | cons f fields ih =>
    rw [map_cons, nodup_cons] at h
    cases i with
    | zero =>
      rw [Option.some.inj hi]
      exact lookup_cons_self
    | succ i =>
      have hmem : (name.toList, x) ∈ fields := mem_of_getElem? hi
      have hne : (Key.str name.toList == Key.str f.1) = false := by
        refine beq_false_of_ne fun heq => h.1 ?_
        rw [← Key.str.inj heq]
        exact mem_map_of_mem hmem
      rw [map_cons, lookup_cons, hne]
      exact ih h.2 hi

theorem exists_dict_of_record {fields : List (Str × Object)} (h : (fields.map Prod.fst).Nodup) :
    ∃ d : Dict, record fields = .dict d ∧ (∀ e ∈ d, ∃ f ∈ fields, e.1 = .str f.1) ∧
      ∀ (i : ℕ) {name : String} {x : Object}, fields[i]? = some (name.toList, x) →
        get d name = some x := by
  refine ⟨_, rfl, ?_, fun i _ _ hi => get_record h hi⟩
  intro e he
  obtain ⟨f, hf, rfl⟩ := mem_map.mp he
  exact ⟨f, hf, rfl⟩

end Object

end Guardian.Python
