/-!
# Flags

The flag words of fields, methods and types.  A flag of several bits is
contained in a word only if all its bits are set.
-/

namespace Assemblage

structure Flags where
  bits : UInt32 := 0
deriving DecidableEq, Inhabited

namespace Flags

def contains (word flag : Flags) : Bool :=
  word.bits &&& flag.bits == flag.bits

def union (left right : Flags) : Flags :=
  ⟨left.bits ||| right.bits⟩

def remove (word flag : Flags) : Flags :=
  ⟨word.bits &&& ~~~flag.bits⟩

instance : OrOp Flags := ⟨union⟩

end Flags

namespace FieldFlag

def isPrivate : Flags := ⟨0x0001⟩
def isPublic : Flags := ⟨0x0006⟩
def isStatic : Flags := ⟨0x0010⟩
def initOnly : Flags := ⟨0x0020⟩
def literal : Flags := ⟨0x0040⟩
def specialName : Flags := ⟨0x0200⟩
def runtimeSpecialName : Flags := ⟨0x0400⟩
def hasDefault : Flags := ⟨0x8000⟩

def byName : List (String × Flags) :=
  [("PRIVATE", isPrivate), ("PUBLIC", isPublic), ("STATIC", isStatic), ("INIT_ONLY", initOnly),
   ("LITERAL", literal), ("SPECIAL_NAME", specialName), ("RT_SPECIAL_NAME", runtimeSpecialName),
   ("HAS_DEFAULT", hasDefault)]

end FieldFlag

namespace MethodFlag

def isPrivate : Flags := ⟨0x0001⟩
def isPublic : Flags := ⟨0x0006⟩
def isStatic : Flags := ⟨0x0010⟩
def isFinal : Flags := ⟨0x0020⟩
def isVirtual : Flags := ⟨0x0040⟩
def hideBySignature : Flags := ⟨0x0080⟩
def isAbstract : Flags := ⟨0x0400⟩
def specialName : Flags := ⟨0x0800⟩
def runtimeSpecialName : Flags := ⟨0x1000⟩
/-- The implementation is a function of a native library. -/
def foreignImport : Flags := ⟨0x2000⟩

def byName : List (String × Flags) :=
  [("PRIVATE", isPrivate), ("PUBLIC", isPublic), ("STATIC", isStatic), ("FINAL", isFinal),
   ("VIRTUAL", isVirtual), ("HIDE_BY_SIG", hideBySignature), ("ABSTRACT", isAbstract),
   ("SPECIAL_NAME", specialName), ("RT_SPECIAL_NAME", runtimeSpecialName),
   ("PINVOKE_IMPL", foreignImport)]

end MethodFlag

namespace ImplementationFlag

def native : Flags := ⟨0x0001⟩
def runtime : Flags := ⟨0x0003⟩
def noInlining : Flags := ⟨0x0008⟩
def synchronized : Flags := ⟨0x0020⟩
def internalCall : Flags := ⟨0x1000⟩

def byName : List (String × Flags) :=
  [("NATIVE", native), ("RUNTIME", runtime), ("NO_INLINING", noInlining),
   ("SYNCHRONIZED", synchronized), ("INTERNAL_CALL", internalCall)]

end ImplementationFlag

namespace TypeFlag

def isPublic : Flags := ⟨0x00000001⟩
def nestedPublic : Flags := ⟨0x00000002⟩
def nestedPrivate : Flags := ⟨0x00000003⟩
def isInterface : Flags := ⟨0x00000020⟩
def isAbstract : Flags := ⟨0x00000080⟩
def isSealed : Flags := ⟨0x00000100⟩
def specialName : Flags := ⟨0x00000400⟩
def serializable : Flags := ⟨0x00002000⟩
def beforeFieldInit : Flags := ⟨0x00100000⟩

def byName : List (String × Flags) :=
  [("PUBLIC", isPublic), ("NESTED_PUBLIC", nestedPublic), ("NESTED_PRIVATE", nestedPrivate),
   ("INTERFACE", isInterface), ("ABSTRACT", isAbstract), ("SEALED", isSealed),
   ("SPECIAL_NAME", specialName), ("SERIALIZABLE", serializable),
   ("BEFORE_FIELD_INIT", beforeFieldInit)]

end TypeFlag

end Assemblage
