import Mathlib.Data.List.Basic

/-!
# Permission keys and expressions

Keys are dotted texts with an optional wildcard at their end. A backend answers
for single keys; expressions are evaluated over its answers.
-/

namespace Foton

abbrev Text := List Char

inductive PermissionState where
  | allow
  | deny
  deriving DecidableEq

inductive PermissionKeyError where
  | empty
  | emptySegment
  | wildcardNotFinal
  | invalidWildcardSegment
  | invalidSegment
  deriving DecidableEq

def validSegmentChar (c : Char) : Bool := c.isLower || c.isDigit || c = '_' || c = '-'

def validatePermissionSegment (segment : Text) : Except PermissionKeyError Unit :=
  if segment.all validSegmentChar then .ok () else .error .invalidSegment

/-! ## Segments -/

def PermissionSegment.check (text : Text) : Except PermissionKeyError Unit :=
  if text = [] then .error .emptySegment
  else if '*' ∈ text then .error .invalidWildcardSegment
  else validatePermissionSegment text

/-- A segment without a wildcard. -/
structure PermissionSegment where
  text : Text
  valid : PermissionSegment.check text = .ok ()

def PermissionSegment.parse (text : Text) : Except PermissionKeyError PermissionSegment :=
  match h : PermissionSegment.check text with
  | .ok _ => .ok ⟨text, h⟩
  | .error error => .error error

/-! ## Keys -/

def PermissionKey.checkSegments : List Text → Except PermissionKeyError Unit
  | [] => .ok ()
  | segment :: rest =>
    if segment = [] then .error .emptySegment
    else if segment = ['*'] then
      if rest ≠ [] then .error .wildcardNotFinal else checkSegments rest
    else if '*' ∈ segment then .error .invalidWildcardSegment
    else do
      validatePermissionSegment segment
      checkSegments rest

def PermissionKey.check (text : Text) : Except PermissionKeyError Unit :=
  if text = [] then .error .empty else checkSegments (text.splitOn '.')

structure PermissionKey where
  text : Text
  valid : PermissionKey.check text = .ok ()
  deriving DecidableEq

namespace PermissionKey

def parse (text : Text) : Except PermissionKeyError PermissionKey :=
  match h : check text with
  | .ok _ => .ok ⟨text, h⟩
  | .error error => .error error

def child (key : PermissionKey) (segment : PermissionSegment) : Except PermissionKeyError PermissionKey :=
  parse (key.text ++ '.' :: segment.text)

end PermissionKey

/-! ## Expressions -/

inductive PermissionExpr where
  | key (key : PermissionKey)
  | scopedKey (parent key : PermissionKey)
  | all (children : List PermissionExpr)
  | any (children : List PermissionExpr)

namespace PermissionExpr

/-- The `|` of two expressions. -/
def bitOr : PermissionExpr → PermissionExpr → PermissionExpr
  | any left, any right => any (left ++ right)
  | any left, right => any (left ++ [right])
  | left, any right => any (left :: right)
  | left, right => any [left, right]

mutual

def decEq : (a b : PermissionExpr) → Decidable (a = b)
  | key k, key k' => decidable_of_iff (k = k') (by simp)
  | scopedKey p k, scopedKey p' k' => decidable_of_iff (p = p' ∧ k = k') (by simp)
  | all xs, all ys => match decEqList xs ys with
    | isTrue h => isTrue (by rw [h])
    | isFalse h => isFalse (by simpa using h)
  | any xs, any ys => match decEqList xs ys with
    | isTrue h => isTrue (by rw [h])
    | isFalse h => isFalse (by simpa using h)
  | key _, scopedKey _ _ | key _, all _ | key _, any _ | scopedKey _ _, key _ | scopedKey _ _, all _
  | scopedKey _ _, any _ | all _, key _ | all _, scopedKey _ _ | all _, any _ | any _, key _
  | any _, scopedKey _ _ | any _, all _ => isFalse (by simp)

def decEqList : (xs ys : List PermissionExpr) → Decidable (xs = ys)
  | [], [] => isTrue rfl
  | [], _ :: _ | _ :: _, [] => isFalse (by simp)
  | x :: xs, y :: ys => match decEq x y, decEqList xs ys with
    | isTrue h, isTrue h' => isTrue (by rw [h, h'])
    | isFalse h, _ => isFalse (by simp [h])
    | _, isFalse h => isFalse (by simp [h])

end

instance : DecidableEq PermissionExpr := decEq

end PermissionExpr

/-! ## Answers -/

/-- What a permission set answers for single keys in an active context. -/
structure PermissionSet where
  resolveKeyIn : PermissionKey → Option PermissionState
  resolveScopedKeyIn : PermissionKey → PermissionKey → Option PermissionState

namespace PermissionSet

variable (permissions : PermissionSet)

mutual

def resolveIn : PermissionExpr → Option PermissionState
  | .key key => permissions.resolveKeyIn key
  | .scopedKey parent key => permissions.resolveScopedKeyIn parent key
  | .all children => if children.isEmpty then some .allow else resolveAll children false
  | .any children => if children.isEmpty then some .deny else resolveAny children false

def resolveAll : List PermissionExpr → (sawUnset : Bool) → Option PermissionState
  | [], sawUnset => if sawUnset then none else some .allow
  | child :: children, sawUnset => match resolveIn child with
    | some .allow => resolveAll children sawUnset
    | some .deny => some .deny
    | none => resolveAll children true

def resolveAny : List PermissionExpr → (sawUnset : Bool) → Option PermissionState
  | [], sawUnset => if sawUnset then none else some .deny
  | child :: children, sawUnset => match resolveIn child with
    | some .allow => some .allow
    | some .deny => resolveAny children sawUnset
    | none => resolveAny children true

end

theorem resolveAny_of_mem {children : List PermissionExpr} {sawUnset : Bool} {child : PermissionExpr}
    (hmem : child ∈ children) (hallow : permissions.resolveIn child = some .allow) :
    permissions.resolveAny children sawUnset = some .allow := by
  induction children generalizing sawUnset with
  | nil => simp at hmem
  | cons x xs ih =>
    simp only [resolveAny]
    split
    · rfl
    all_goals
      rename_i hx
      apply ih
      rcases List.mem_cons.mp hmem with h | h
      · rw [h, hx] at hallow
        simp at hallow
      · exact h

theorem resolveIn_any_of_mem {children : List PermissionExpr} {child : PermissionExpr} (hmem : child ∈ children)
    (hallow : permissions.resolveIn child = some .allow) :
    permissions.resolveIn (.any children) = some .allow := by
  have hne : children ≠ [] := List.ne_nil_of_mem hmem
  simp [resolveIn, hne, permissions.resolveAny_of_mem hmem hallow]

end PermissionSet

/-- A source of commands, for what permissions depend on. -/
class CommandPermissionSource (S : Type) where
  /-- The permissions of a player; other senders have none. -/
  playerPermissions : S → Option PermissionSet
  /-- What the predicate at an address, allocated by the factory of a command, answers. -/
  answers : Nat → S → Bool

section
variable {S : Type} [CommandPermissionSource S]
open CommandPermissionSource

def permissionState (source : S) (permission : PermissionExpr) : Option PermissionState :=
  match playerPermissions source with
  | none => some .allow
  | some permissions => permissions.resolveIn permission

theorem permissionState_any_of_mem {source : S} {children : List PermissionExpr} {child : PermissionExpr}
    (hmem : child ∈ children) (hallow : permissionState source child = some .allow) :
    permissionState source (.any children) = some .allow := by
  unfold permissionState at *
  split at hallow
  · rfl
  · rename_i permissions _
    exact permissions.resolveIn_any_of_mem hmem hallow

end

end Foton
