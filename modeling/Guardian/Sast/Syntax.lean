import Guardian.Order.Levels
import Guardian.Python.Text

/-!
# The syntax that is analysed

The nodes of a Python file, as the `ast` module gives them.  What the analysis does not look into is
kept as far as `ast.walk` meets it.  A node that only groups others is an `other`.
-/

namespace Guardian.Sast

open Python Guardian.Order List

/-- `ast.Constant`, as far as the sinks look at it. -/
inductive Const
  | str (s : Str)
  | bool (b : Bool)
  | other
  deriving DecidableEq

mutual

/-- `ast.expr`. -/
inductive Expr
  | name (line : ℕ) (id : Str)
  | attribute (line : ℕ) (value : Expr) (attr : Str)
  | subscript (value slice : Expr)
  | call (line : ℕ) (func : Expr) (args : List Expr) (keywords : List Keyword)
  | binOp (left right : Expr)
  | joinedStr (values : List Expr)
  | formattedValue (value : Expr) (formatSpec : List Expr)
  | list (elts : List Expr)
  | tuple (elts : List Expr)
  | set (elts : List Expr)
  | dict (items : List Item)
  | boolOp (values : List Expr)
  | ifExp (test body orelse : Expr)
  | starred (value : Expr)
  | await (value : Expr)
  | unaryOp (operand : Expr)
  | compare (left : Expr) (comparators : List Expr)
  | constant (value : Const)
  | other (children : List Expr)

/-- `ast.keyword`: `**value` has no name. -/
inductive Keyword
  | mk (arg : Option Str) (value : Expr)

/-- A key and its value in an `ast.Dict`, or a dictionary that is merged. -/
inductive Item
  | pair (key value : Expr)
  | spread (value : Expr)

end

/-- `keyword.arg`. -/
def Keyword.arg : Keyword → Option Str
  | .mk arg _ => arg

/-- `keyword.value`. -/
def Keyword.value : Keyword → Expr
  | .mk _ value => value

/-- The value of an item. -/
def Item.value : Item → Expr
  | .pair _ value => value
  | .spread value => value

/-- `ast.Call`. -/
structure Call where
  line : ℕ
  func : Expr
  args : List Expr
  keywords : List Keyword

/-- `[*node.args, *[kw.value for kw in node.keywords]]`. -/
def Call.allArgs (c : Call) : List Expr := c.args ++ c.keywords.map Keyword.value

def Call.expr (c : Call) : Expr := .call c.line c.func c.args c.keywords

/-- `ast.withitem`. -/
structure WithItem where
  contextExpr : Expr
  optionalVars : Option Expr

mutual

/-- `ast.stmt`.  The asynchronous forms are the plain ones. -/
inductive Stmt
  | assign (line : ℕ) (targets : List Expr) (value : Expr)
  | annAssign (line : ℕ) (target annotation : Expr) (value : Option Expr)
  | augAssign (line : ℕ) (target value : Expr)
  | returnStmt (value : Option Expr)
  | forStmt (line : ℕ) (target iter : Expr) (body orelse : List Stmt)
  | withStmt (line : ℕ) (items : List WithItem) (body : List Stmt)
  | ifStmt (test : Expr) (body orelse : List Stmt)
  | whileStmt (test : Expr) (body orelse : List Stmt)
  | tryStmt (body : List Stmt) (handlers : List Handler) (orelse finalbody : List Stmt)
  | functionDef (line : ℕ) (name : Str) (args : List Expr) (names : List Str) (body : List Stmt)
      (decorators returns : List Expr)
  | classDef (bases : List Expr) (body : List Stmt) (decorators : List Expr)
  | raiseStmt (exprs : List Expr)
  | breakStmt
  | continueStmt
  | other (exprs : List Expr) (stmts : List Stmt)

/-- `ast.ExceptHandler`. -/
inductive Handler
  | mk (type : Option Expr) (body : List Stmt)

end

/-- `handler.body`. -/
def Handler.body : Handler → List Stmt
  | .mk _ body => body

/-- `ast.FunctionDef`.  The names are those of the parameters, the starred ones last. -/
structure Function where
  line : ℕ
  name : Str
  names : List Str
  body : List Stmt
  decorators : List Expr

/-! ### `ast.walk` -/

/-- What `ast.walk` is asked for. -/
inductive Found
  | call (c : Call)
  | definition (f : Function)

mutual

/-- The tree of an expression. -/
def Expr.tree : Expr → Order.Tree Found
  | .name .. | .constant _ => .node [] []
  | .attribute _ value _ => .node [] [value.tree]
  | .subscript value slice => .node [] [value.tree, slice.tree]
  | .call line func args keywords => .node [.call ⟨line, func, args, keywords⟩]
      (func.tree :: (Expr.trees args ++ Keyword.trees keywords))
  | .binOp left right => .node [] [left.tree, right.tree]
  | .formattedValue value formatSpec => .node [] (value.tree :: Expr.trees formatSpec)
  | .list elts | .tuple elts | .set elts => .node [] (Expr.trees elts)
  | .dict items => .node [] (Item.keyTrees items ++ Item.valueTrees items)
  | .joinedStr values | .boolOp values => .node [] (Expr.trees values)
  | .ifExp test body orelse => .node [] [test.tree, body.tree, orelse.tree]
  | .starred value | .await value | .unaryOp value => .node [] [value.tree]
  | .compare left comparators => .node [] (left.tree :: Expr.trees comparators)
  | .other children => .node [] (Expr.trees children)

def Expr.trees : List Expr → List (Order.Tree Found)
  | [] => []
  | e :: es => e.tree :: Expr.trees es

def Keyword.tree : Keyword → Order.Tree Found
  | .mk _ value => .node [] [value.tree]

def Keyword.trees : List Keyword → List (Order.Tree Found)
  | [] => []
  | k :: ks => k.tree :: Keyword.trees ks

def Item.keyTree : Item → List (Order.Tree Found)
  | .pair key _ => [key.tree]
  | .spread _ => []

def Item.keyTrees : List Item → List (Order.Tree Found)
  | [] => []
  | i :: is => i.keyTree ++ Item.keyTrees is

def Item.valueTree : Item → Order.Tree Found
  | .pair _ value => value.tree
  | .spread value => value.tree

def Item.valueTrees : List Item → List (Order.Tree Found)
  | [] => []
  | i :: is => i.valueTree :: Item.valueTrees is

end

/-- The tree of a `withitem`. -/
def WithItem.tree (i : WithItem) : Order.Tree Found :=
  .node [] (i.contextExpr.tree :: (i.optionalVars.toList.map Expr.tree))

mutual

/-- The tree of a statement. -/
def Stmt.tree : Stmt → Order.Tree Found
  | .assign _ targets value => .node [] (Expr.trees targets ++ [value.tree])
  | .annAssign _ target annotation value =>
    .node [] (target.tree :: annotation.tree :: value.toList.map Expr.tree)
  | .augAssign _ target value => .node [] [target.tree, value.tree]
  | .returnStmt value => .node [] (value.toList.map Expr.tree)
  | .forStmt _ target iter body orelse =>
    .node [] (target.tree :: iter.tree :: (Stmt.trees body ++ Stmt.trees orelse))
  | .withStmt _ items body => .node [] (items.map WithItem.tree ++ Stmt.trees body)
  | .ifStmt test body orelse | .whileStmt test body orelse =>
    .node [] (test.tree :: (Stmt.trees body ++ Stmt.trees orelse))
  | .tryStmt body handlers orelse finalbody =>
    .node [] (Stmt.trees body ++ (Handler.trees handlers ++
      (Stmt.trees orelse ++ Stmt.trees finalbody)))
  | .functionDef line name args names body decorators returns =>
    .node [.definition ⟨line, name, names, body, decorators⟩]
      (.node [] (Expr.trees args) ::
        (Stmt.trees body ++ (Expr.trees decorators ++ Expr.trees returns)))
  | .classDef bases body decorators =>
    .node [] (Expr.trees bases ++ (Stmt.trees body ++ Expr.trees decorators))
  | .raiseStmt exprs => .node [] (Expr.trees exprs)
  | .breakStmt | .continueStmt => .node [] []
  | .other exprs stmts => .node [] (Expr.trees exprs ++ Stmt.trees stmts)

def Stmt.trees : List Stmt → List (Order.Tree Found)
  | [] => []
  | s :: ss => s.tree :: Stmt.trees ss

def Handler.tree : Handler → Order.Tree Found
  | .mk type body => .node [] (type.toList.map Expr.tree ++ Stmt.trees body)

def Handler.trees : List Handler → List (Order.Tree Found)
  | [] => []
  | h :: hs => h.tree :: Handler.trees hs

end

/-- The call, if it is one. -/
def Found.call? : Found → Option Call
  | .call c => some c
  | .definition _ => none

/-- The definition, if it is one. -/
def Found.definition? : Found → Option Function
  | .call _ => none
  | .definition f => some f

/-- `[node for node in ast.walk(stmt) if isinstance(node, ast.Call)]`. -/
def Stmt.calls (s : Stmt) : List Call := s.tree.walk.filterMap Found.call?

def Expr.calls (e : Expr) : List Call := e.tree.walk.filterMap Found.call?

/-- The calls in the expressions of an item. -/
def WithItem.calls (i : WithItem) : List Call :=
  i.contextExpr.calls ++ i.optionalVars.toList.flatMap Expr.calls

/-- The type that a handler is for. -/
def Handler.type : Handler → Option Expr
  | .mk type _ => type

/-- The calls in the type of a handler. -/
def Handler.calls (h : Handler) : List Call := h.type.toList.flatMap Expr.calls

/-- The statements in the bodies of a statement. -/
def Stmt.nested : Stmt → List Stmt
  | .forStmt _ _ _ body orelse | .ifStmt _ body orelse | .whileStmt _ body orelse => body ++ orelse
  | .withStmt _ _ body => body
  | .tryStmt body handlers orelse finalbody =>
    body ++ (handlers.flatMap Handler.body ++ (orelse ++ finalbody))
  | _ => []

/-- The calls in the expressions of a statement, outside the bodies in it. -/
def Stmt.ownCalls : Stmt → List Call
  | .forStmt _ target iter _ _ => target.calls ++ iter.calls
  | .withStmt _ items _ => items.flatMap WithItem.calls
  | .ifStmt test _ _ | .whileStmt test _ _ => test.calls
  | .tryStmt _ handlers _ _ => handlers.flatMap Handler.calls
  | s => s.calls

/-- The calls in the bodies of a statement. -/
def Stmt.nestedCalls (s : Stmt) : List Call := s.nested.flatMap Stmt.calls

def callsIn (ts : List (Order.Tree Found)) : List Call :=
  ts.flatMap fun t => t.walk.filterMap Found.call?

theorem perm_callsIn (ts : List (Order.Tree Found)) :
    ((Order.Tree.node [] ts).walk.filterMap Found.call?).Perm (callsIn ts) := by
  have h := (walk_perm [] ts).filterMap Found.call?
  rwa [nil_append, filterMap_flatMap] at h

theorem callsIn_append (ts us : List (Order.Tree Found)) :
    callsIn (ts ++ us) = callsIn ts ++ callsIn us :=
  flatMap_append

theorem callsIn_cons (t : Order.Tree Found) (ts : List (Order.Tree Found)) :
    callsIn (t :: ts) = t.walk.filterMap Found.call? ++ callsIn ts := flatMap_cons

theorem callsIn_trees (ss : List Stmt) : callsIn (Stmt.trees ss) = ss.flatMap Stmt.calls := by
  induction ss with
  | nil => rfl
  | cons s ss ih => rw [Stmt.trees, callsIn_cons, ih, flatMap_cons, Stmt.calls]

theorem callsIn_map_tree (es : List Expr) : callsIn (es.map Expr.tree) = es.flatMap Expr.calls := by
  rw [callsIn, flatMap_map]
  rfl

theorem perm_callsIn_items (is : List WithItem) :
    (callsIn (is.map WithItem.tree)).Perm (is.flatMap WithItem.calls) := by
  induction is with
  | nil => exact .nil
  | cons i is ih =>
    rw [map_cons, callsIn_cons, flatMap_cons]
    refine Perm.append ?_ ih
    refine (perm_callsIn _).trans ?_
    rw [callsIn_cons, callsIn_map_tree]
    rfl

theorem perm_callsIn_handlers (hs : List Handler) :
    (callsIn (Handler.trees hs)).Perm
      (hs.flatMap Handler.calls ++ (hs.flatMap Handler.body).flatMap Stmt.calls) := by
  induction hs with
  | nil => exact .nil
  | cons h hs ih =>
    obtain ⟨type, body⟩ := h
    have hhead := perm_callsIn (type.toList.map Expr.tree ++ Stmt.trees body)
    rw [callsIn_append, callsIn_map_tree, callsIn_trees] at hhead
    have hall := hhead.append ih
    rw [Handler.trees, callsIn_cons, Handler.tree]
    refine hall.trans ?_
    rw [flatMap_cons, flatMap_cons, flatMap_append, append_assoc,
      append_assoc]
    refine Perm.append_left _ ?_
    rw [← append_assoc, ← append_assoc]
    exact perm_append_comm.append_right _

/-- **What `ast.walk` meets in a statement**: the calls in its own expressions, and those in its
bodies. -/
theorem calls_perm (s : Stmt) : s.calls.Perm (s.ownCalls ++ s.nestedCalls) := by
  match s with
  | .forStmt _ target iter body orelse =>
    refine (perm_callsIn _).trans ?_
    rw [callsIn_cons, callsIn_cons, callsIn_append, callsIn_trees, callsIn_trees,
      ← append_assoc, Stmt.nestedCalls, Stmt.nested, flatMap_append]
    rfl
  | .withStmt _ items body =>
    refine (perm_callsIn _).trans ?_
    rw [callsIn_append, callsIn_trees]
    exact (perm_callsIn_items items).append_right _
  | .ifStmt test body orelse | .whileStmt test body orelse =>
    refine (perm_callsIn _).trans ?_
    rw [callsIn_cons, callsIn_append, callsIn_trees, callsIn_trees, Stmt.nestedCalls, Stmt.nested,
      flatMap_append]
    rfl
  | .tryStmt body handlers orelse finalbody =>
    refine (perm_callsIn _).trans ?_
    rw [callsIn_append, callsIn_append, callsIn_append, callsIn_trees, callsIn_trees, callsIn_trees,
      Stmt.ownCalls, Stmt.nestedCalls, Stmt.nested, flatMap_append, flatMap_append,
      flatMap_append]
    refine ((perm_callsIn_handlers handlers).append_right _ |>.append_left _).trans ?_
    rw [append_assoc]
    exact perm_append_comm_assoc _ _ _
  | .assign .. | .annAssign .. | .augAssign .. | .returnStmt .. | .functionDef .. | .classDef ..
  | .raiseStmt .. | .breakStmt | .continueStmt | .other .. =>
    simp [Stmt.ownCalls, Stmt.nestedCalls, Stmt.nested]

end Guardian.Sast
