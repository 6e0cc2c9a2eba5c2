/-!
# Registry keys
-/

namespace Foton

structure Identifier where
  nameSpace : String
  path : String
  deriving DecidableEq

instance : ToString Identifier := ⟨fun key => s!"{key.nameSpace}:{key.path}"⟩

def Identifier.vanillaStatic (path : String) : Identifier := ⟨"minecraft", path⟩

end Foton
