import PycListing.Opcode.Legacy
import PycListing.Opcode.Modern

/-! # Opcodes of the alternative implementation

The reference layout of the same version, with instructions above 200 for method calls and for
jumps that only debugging takes.
-/

namespace PycListing.Opcode.Alternative

/-- The additions of every version but 2.6. -/
def methodCalls : List Step :=
  [
    .plain [(202, "CALL_METHOD"), (203, "BUILD_LIST_FROM_ARG")],
    .typed .name [(201, "LOOKUP_METHOD")],
    .typed .relativeJump [(204, "JUMP_IF_NOT_DEBUG")]]

def steps26 : List Step :=
  Legacy.steps26 ++ [
    .plain [(200, "CALL_LIKELY_BUILTIN"), (202, "CALL_METHOD")],
    .typed .name [(201, "LOOKUP_METHOD")]]

def steps27 : List Step :=
  Legacy.steps27 ++ methodCalls

def steps32 : List Step :=
  Modern.steps32 ++ methodCalls

def steps35 : List Step :=
  Modern.steps35 ++ methodCalls

end PycListing.Opcode.Alternative
