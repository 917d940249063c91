import Guardian.Python.Text

/-!
# JSON values

What `json.loads` returns.  A number is given by its text; a dictionary lists its entries in the
order in which they were inserted.
-/

namespace Guardian.Python

/-- **A JSON value.** -/
inductive Json
  | null
  | bool (b : Bool)
  | number (text : Str)
  | str (s : Str)
  | list (items : List Json)
  | dict (entries : List (Str × Json))

namespace Json

abbrev Dict := List (Str × Json)

/-- `d.get(key)`. -/
def get (d : Dict) (key : Str) : Option Json := d.lookup key

/-- `d.pop(key)`, as far as `d` is concerned. -/
def pop (d : Dict) (key : Str) : Dict := d.filter fun entry => entry.1 ≠ key

/-- `d[key] = value`: over the value that is there, or at the end. -/
def put (key : Str) (value : Json) : Dict → Dict
  | [] => [(key, value)]
  | (k, v) :: d => if k = key then (k, value) :: d else (k, v) :: put key value d

/-- The value, if it is a text. -/
def text : Json → Option Str
  | .str s => some s
  | _ => none

theorem induct {P : Json → Prop} (null : P .null) (bool : ∀ b, P (.bool b))
    (number : ∀ t, P (.number t)) (str : ∀ s, P (.str s))
    (list : ∀ items : List Json, (∀ x ∈ items, P x) → P (.list items))
    (dict : ∀ entries : Dict, (∀ e ∈ entries, P e.2) → P (.dict entries)) : ∀ x, P x := by
  intro x
  refine Json.rec (motive_1 := P) (motive_2 := fun xs => ∀ x ∈ xs, P x)
    (motive_3 := fun es => ∀ e ∈ es, P e.2) (motive_4 := fun e => P e.2)
    null bool number str list dict (by simp) ?_ (by simp) ?_ (fun _ _ h => h) x
  · intro y ys hy hys z hz
    rcases List.mem_cons.mp hz with rfl | hz
    · exact hy
    · exact hys z hz
  · intro d ds hd hds e he
    rcases List.mem_cons.mp he with rfl | he
    · exact hd
    · exact hds e he

end Json

end Guardian.Python
