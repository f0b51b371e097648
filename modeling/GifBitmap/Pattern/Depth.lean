import GifBitmap.Pattern.Tree

/-!
# How deep a pattern may be nested

Every part that holds others adds one to the depth of those.  A pattern that is nested
too deep is refused at the first part, in the order of writing, that goes beyond the
limit.
-/

namespace GifBitmap
namespace Pattern

def depthLimit : Nat :=
  250

/-- The depth of what a part holds, when the part itself is at some depth. -/
def enter (depth : Nat) (span : Span) : Except Fault Nat :=
  if depth < depthLimit then
    .ok (depth + 1)
  else
    fault (.nestedTooDeep depthLimit) span

mutual

/-- Checks the depth of the members of a set. -/
def Members.checkDepth (depth : Nat) : Members → Except Fault Unit
  | .bracketed span _ members => do
      members.checkDepth (← enter depth span)
  | .several span items => do
      Members.checkDepths (← enter depth span) items
  | .combined span _ left right => do
      let inside ← enter depth span
      left.checkDepth inside
      right.checkDepth inside
  | _ => .ok ()

def Members.checkDepths (depth : Nat) : List Members → Except Fault Unit
  | [] => .ok ()
  | item :: items => do
      item.checkDepth depth
      Members.checkDepths depth items

end

mutual

/-- Checks the depth of a pattern that is itself at some depth. -/
def Tree.checkDepth (depth : Nat) : Tree → Except Fault Unit
  | .set members => members.checkDepth depth
  | .repetition span _ _ body | .group span _ _ body => do
      body.checkDepth (← enter depth span)
  | .alternation span parts | .sequence span parts => do
      Tree.checkDepths (← enter depth span) parts
  | _ => .ok ()

def Tree.checkDepths (depth : Nat) : List Tree → Except Fault Unit
  | [] => .ok ()
  | tree :: trees => do
      tree.checkDepth depth
      Tree.checkDepths depth trees

end

end Pattern
end GifBitmap
