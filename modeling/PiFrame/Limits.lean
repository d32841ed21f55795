/-!
# The limits

The bounds of `pflimit.h` that arrays are declared and loops are written with.
-/

namespace Limits

def maxNtpServerCount : Nat := 8
def maxNameLength : Nat := 64
def maxAddrLength : Nat := 64
def maxBasePathLength : Nat := 128
def maxPathLength : Nat := 256
def maxCommandLength : Nat := 512
def maxParamLength : Nat := 512
def maxFileBufferSize : Nat := 8 * 1024

end Limits
