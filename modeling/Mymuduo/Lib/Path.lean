import Mathlib.Tactic

namespace Mymuduo.Lib

/-! Paths through a tree of named directories. A place in the tree is the list of the names on
the way to it, the last one first. -/

/-- A segment of a path. -/
inductive Seg (α : Type*) where
  | up
  | down (name : α)
  deriving DecidableEq

variable {α : Type*}

/-- Nothing is above the root. -/
def Seg.move (place : List α) : Seg α → List α
  | .up => place.tail
  | .down name => name :: place

/-- The place that a path leads to. -/
def follow (place : List α) (segs : List (Seg α)) : List α := segs.foldl Seg.move place

theorem follow_append (place : List α) (segs segs' : List (Seg α)) :
    follow place (segs ++ segs') = follow (follow place segs) segs' := List.foldl_append

/-- A path without detours: how far up it goes, and the names it then goes down by, the last
one first. -/
structure Route (α : Type*) where
  climb : Nat
  names : List α
  deriving DecidableEq

namespace Route

def move (r : Route α) : Seg α → Route α
  | .up =>
    match r.names with
    | [] => ⟨r.climb + 1, []⟩
    | _ :: names => ⟨r.climb, names⟩
  | .down name => ⟨r.climb, name :: r.names⟩

def ofSegs (segs : List (Seg α)) : Route α := segs.foldl move ⟨0, []⟩

/-- Where a route leads from a place. -/
def apply (r : Route α) (place : List α) : List α := r.names ++ place.drop r.climb

theorem apply_move (r : Route α) (seg : Seg α) (place : List α) :
    (r.move seg).apply place = seg.move (r.apply place) := by
  cases seg with
  | down name => rfl
  | up =>
    obtain ⟨climb, names⟩ := r
    cases names with
    | nil => simp [move, apply, Seg.move]
    | cons name names => rfl

theorem apply_foldl (segs : List (Seg α)) (r : Route α) (place : List α) :
    (segs.foldl move r).apply place = follow (r.apply place) segs := by
  induction segs generalizing r with
  | nil => rfl
  | cons seg segs ih =>
    rw [List.foldl_cons, ih, apply_move]
    rfl

end Route

theorem follow_eq (place : List α) (segs : List (Seg α)) :
    follow place segs = (Route.ofSegs segs).apply place :=
  (Route.apply_foldl segs ⟨0, []⟩ place).symm

/-- A path ends below the place it starts from exactly if it comes back by the names that it
has climbed over. -/
theorem suffix_follow_iff (place : List α) (segs : List (Seg α)) :
    place <:+ follow place segs ↔
      place.take (Route.ofSegs segs).climb <:+ (Route.ofSegs segs).names := by
  rw [follow_eq]
  obtain ⟨climb, names⟩ := Route.ofSegs segs
  have hback : place.take climb ++ place.drop climb <:+ names ++ place.drop climb ↔
      place.take climb <:+ names := List.suffix_append_self_iff
  rwa [List.take_append_drop] at hback

end Mymuduo.Lib
