import Foton.Identifier
import Mathlib.Order.Lattice

/-!
# Item stacks

A stack overlays the component map of its item with a patch, and carries the
NBT of a plugin beside it.
-/

namespace Foton

/-- A component value; only numbers are read by the stack itself. -/
inductive ComponentData (α : Type) where
  | int (value : Int)
  | other (value : α)

instance {α : Type} [BEq α] : BEq (ComponentData α) where
  beq
    | .int a, .int b => a == b
    | .other a, .other b => a == b
    | _, _ => false

inductive ComponentPatchEntry (α : Type) where
  | set (data : ComponentData α)
  | removed

structure Item (α : Type) where
  key : Identifier
  components : List (Identifier × ComponentData α)

/-- The registered item of an empty stack. -/
def airKey : Identifier := .vanillaStatic "air"

structure ItemStack (α : Type) where
  item : Item α
  count : Int
  patch : List (Identifier × ComponentPatchEntry α)
  opaqueNbt : Option String

namespace ItemStack

variable {α : Type}

def maxStackSizeKey : Identifier := .vanillaStatic "max_stack_size"

def maxDamageKey : Identifier := .vanillaStatic "max_damage"

def damageKey : Identifier := .vanillaStatic "damage"

def unbreakableKey : Identifier := .vanillaStatic "unbreakable"

def empty : ItemStack α := ⟨⟨airKey, []⟩, 0, [], none⟩

def isEmpty (s : ItemStack α) : Bool := s.item.key = airKey || s.count ≤ 0

/-- The key of the item of a stack, that of air where the stack is empty. -/
def itemKey (s : ItemStack α) : Identifier := if s.isEmpty then airKey else s.item.key

/-- The items in a stack; the field itself is `count`. -/
def size (s : ItemStack α) : Int := if s.isEmpty then 0 else s.count

def setCount (s : ItemStack α) (count : Int) : ItemStack α := { s with count := count }

def grow (s : ItemStack α) (amount : Int) : ItemStack α := s.setCount (s.count + amount)

def shrink (s : ItemStack α) (amount : Int) : ItemStack α := s.setCount (s.count - amount)

/-- The split stack and what is left. -/
def split (s : ItemStack α) (amount : Int) : ItemStack α × ItemStack α :=
  let take := min amount s.count
  (s.setCount take, s.shrink take)

/-- The value of a component, looked up in the patch before the item. -/
def getEffectiveValueRaw (s : ItemStack α) (key : Identifier) : Option (ComponentData α) :=
  match s.patch.lookup key with
  | some (.set data) => some data
  | some .removed => none
  | none => s.item.components.lookup key

def has (s : ItemStack α) (key : Identifier) : Bool :=
  match s.patch.lookup key with
  | some (.set _) => true
  | some .removed => false
  | none => (s.item.components.lookup key).isSome

/-- A value of the type `i32`. -/
def getInt (s : ItemStack α) (key : Identifier) : Option Int :=
  match s.getEffectiveValueRaw key with
  | some (.int value) => some value
  | _ => none

def maxStackSize (s : ItemStack α) : Int := (s.getInt maxStackSizeKey).getD 1

def getMaxDamage (s : ItemStack α) : Int := (s.getInt maxDamageKey).getD 0

def getDamageValue (s : ItemStack α) : Int := max 0 (min ((s.getInt damageKey).getD 0) s.getMaxDamage)

def isDamageableItem (s : ItemStack α) : Bool := s.has maxDamageKey && !s.has unbreakableKey && s.has damageKey

def isDamaged (s : ItemStack α) : Bool := s.isDamageableItem && 0 < s.getDamageValue

def isStackable (s : ItemStack α) : Bool := 1 < s.maxStackSize && (!s.isDamageableItem || !s.isDamaged)

def isSameItem (a b : ItemStack α) : Bool := a.itemKey = b.itemKey

/-- The keys that have a value in one stack. -/
def componentKeys (s : ItemStack α) : List Identifier :=
  (s.item.components.map Prod.fst).filter (fun key => !(s.patch.lookup key matches some .removed)) ++
    (s.patch.filter (fun e => e.2 matches .set _)).map Prod.fst

section
variable [BEq α]

def sameValue : Option (ComponentData α) → Option (ComponentData α) → Bool
  | some a, some b => a == b
  | none, none => true
  | _, _ => false

def componentsEqual (a b : ItemStack α) : Bool :=
  (a.componentKeys ++ b.componentKeys).all fun key => sameValue (a.getEffectiveValueRaw key) (b.getEffectiveValueRaw key)

def isSameItemSameComponents (a b : ItemStack α) : Bool :=
  if !isSameItem a b then false
  else if a.isEmpty && b.isEmpty then true
  else a.componentsEqual b

end

end ItemStack

end Foton
