import Guardian.Python.Text

/-!
# Values of YAML and JSON

What `yaml.safe_load` and `json.loads` return, and the calls that are made on a value of unknown
type: each of them raises for some types.
-/

namespace Guardian.Python

/-- **A value.**  A number or a date is given by its `str`, which a number of too many digits does
not have, and by its truth. -/
inductive Yaml
  | null
  | bool (b : Bool)
  | scalar (text : Option Str) (truthy : Bool)
  | str (s : Str)
  | bytes (values : List ℕ)
  | list (items : List Yaml)
  | tuple (items : List Yaml)
  | set (items : List Yaml)
  | dict (entries : List (Yaml × Yaml))

namespace Yaml

abbrev Dict := List (Yaml × Yaml)

/-- The truth of a value. -/
def truthy : Yaml → Bool
  | .null => false
  | .bool b => b
  | .scalar _ truthy => truthy
  | .str s => !s.isEmpty
  | .bytes values => !values.isEmpty
  | .list items => !items.isEmpty
  | .tuple items => !items.isEmpty
  | .set items => !items.isEmpty
  | .dict entries => !entries.isEmpty

/-- `a or b`. -/
def orElse (a b : Yaml) : Yaml := if a.truthy then a else b

/-- `v is True`. -/
def isTrue : Yaml → Bool
  | .bool b => b
  | _ => false

/-- `v is False`. -/
def isFalse : Yaml → Bool
  | .bool b => !b
  | _ => false

/-- `v == 0`. -/
def isZero : Yaml → Bool
  | .bool b => !b
  | .scalar _ truthy => !truthy
  | _ => false

/-- `v is None`. -/
def isNone : Yaml → Bool
  | .null => true
  | _ => false

/-- The value is the text. -/
def isText (key : Str) : Yaml → Bool
  | .str s => decide (s = key)
  | _ => false

/-- The value of a key, if there is one. -/
def find (d : Dict) (key : Str) : Option Yaml := (d.find? fun kv => kv.1.isText key).map (·.2)

/-- `d.get(key)`. -/
def get (d : Dict) (key : String) : Yaml := (find d key.toList).getD .null

/-- The dictionary, if the value is one. -/
def entries? : Yaml → Option Dict
  | .dict d => some d
  | _ => none

/-- What has a `get` and `items`. -/
def getOf : Yaml → Except Fault Dict
  | .dict d => .ok d
  | _ => .error .attributeError

/-- What a `for` loop runs over. -/
def iter : Yaml → Except Fault (List Yaml)
  | .str s => .ok (s.map fun c => .str [c])
  | .bytes values => .ok (values.map fun n => .scalar (some (Nat.toDigits 10 n)) (n != 0))
  | .list items => .ok items
  | .tuple items => .ok items
  | .set items => .ok items
  | .dict entries => .ok (entries.map (·.1))
  | _ => .error .typeError

/-- `v or []`, as a loop runs over it. -/
def each (v : Yaml) : Except Fault (List Yaml) := (v.orElse (.list [])).iter

/-- `v or {}`, as a dictionary. -/
def mapping (v : Yaml) : Except Fault Dict := (v.orElse (.dict [])).getOf

mutual

/-- `hash(v)` returns. -/
def hashable : Yaml → Bool
  | .list _ => false
  | .set _ => false
  | .dict _ => false
  | .tuple items => hashableAll items
  | _ => true

/-- The items of a tuple have a hash. -/
def hashableAll : List Yaml → Bool
  | [] => true
  | v :: vs => hashable v && hashableAll vs

end

/-- `v in s` returns for a set `s`: the value is hashed, and a set is made immutable first. -/
def lookable : Yaml → Bool
  | .set _ => true
  | v => v.hashable

/-- `str(v)`; `write` is the `repr` of bytes and of containers. -/
def text (write : Yaml → Except Fault Str) : Yaml → Except Fault Str
  | .null => .ok "None"
  | .bool b => .ok (if b then "True" else "False")
  | .scalar text _ => text.elim (.error .valueError) .ok
  | .str s => .ok s
  | v => write v

/-- `str(v or "")`. -/
def textOr (write : Yaml → Except Fault Str) (v : Yaml) : Except Fault Str :=
  (v.orElse (.str [])).text write

/-- The texts of what a loop over `v or []` runs over. -/
def texts (write : Yaml → Except Fault Str) (v : Yaml) : Except Fault (List Str) := do
  (← v.each).mapM (text write)

variable {write : Yaml → Except Fault Str} {v : Yaml}

theorem get_cons_self (d : Dict) (key : String) (v : Yaml) :
    Yaml.get ((.str key.toList, v) :: d) key = v := by
  simp [Yaml.get, find, isText]

theorem get_cons_of_ne (d : Dict) {key key' : String} (v : Yaml) (h : key' ≠ key) :
    Yaml.get ((.str key'.toList, v) :: d) key = Yaml.get d key := by
  have h' : key'.toList ≠ key.toList := fun he => h (String.toList_inj.mp he)
  simp [Yaml.get, find, isText, h']

theorem getOf_eq_ok_iff {d : Dict} : v.getOf = .ok d ↔ v = .dict d := by
  cases v <;> simp [getOf]

end Yaml

end Guardian.Python
