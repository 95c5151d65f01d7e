/-
# Version — which distributor this is

A distributor is identified twice: to those who embed it by its version, and to guests by
the implementer register, where an architected distributor gives its designer and revision.
-/
namespace VirtualGic

set_option autoImplicit false

/-- The version, as major, minor and patch number. -/
def version : String := "0.1.0"

namespace Frame

/-- The implementer register: the architecture's owner, revision 0. -/
def implementerValue : BitVec 32 := 0x0000043b

end Frame

end VirtualGic
