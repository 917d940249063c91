import Mathlib.Data.List.Perm.Basic

/-!
# Trees, level by level

A tree is walked from the root down, one level after the other.

* `walk_perm`: the walk holds the root and the walks of its children.
-/

namespace Guardian.Order

open List
variable {α : Type*}

/-- A tree with a list of labels at every node. -/
inductive Tree (α : Type*)
  | node (labels : List α) (children : List (Tree α))

/-- Two lists of levels, level by level. -/
def mergeLevels : List (List α) → List (List α) → List (List α)
  | [], ms => ms
  | ls, [] => ls
  | l :: ls, m :: ms => (l ++ m) :: mergeLevels ls ms

mutual
/-- The levels of a tree. -/
def Tree.levels : Tree α → List (List α)
  | .node labels children => labels :: Tree.levelsList children
/-- The levels of some trees side by side. -/
def Tree.levelsList : List (Tree α) → List (List α)
  | [] => []
  | t :: ts => mergeLevels t.levels (Tree.levelsList ts)
end

/-- **The walk**, level by level. -/
def Tree.walk (t : Tree α) : List α := t.levels.flatten

theorem flatten_mergeLevels (ls ms : List (List α)) :
    (mergeLevels ls ms).flatten.Perm (ls.flatten ++ ms.flatten) := by
  induction ls, ms using mergeLevels.induct with
  | case1 ms => simp [mergeLevels]
  | case2 ls _ => simp [mergeLevels]
  | case3 l ls m ms ih =>
    simp only [mergeLevels, flatten_cons, append_assoc]
    refine Perm.append_left l ?_
    refine (ih.append_left m).trans ?_
    rw [← append_assoc, ← append_assoc]
    exact perm_append_comm.append_right _

theorem flatten_levelsList (ts : List (Tree α)) :
    (Tree.levelsList ts).flatten.Perm (ts.flatMap Tree.walk) := by
  induction ts with
  | nil => exact .nil
  | cons t ts ih => exact (flatten_mergeLevels _ _).trans (ih.append_left _)

/-- **The walk holds the root and the walks of its children.** -/
theorem walk_perm (labels : List α) (ts : List (Tree α)) :
    (Tree.node labels ts).walk.Perm (labels ++ ts.flatMap Tree.walk) :=
  (flatten_levelsList ts).append_left labels

end Guardian.Order
