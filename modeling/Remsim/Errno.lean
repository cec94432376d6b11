import Mathlib.Data.Int.Notation

/-! # Error numbers (`errno.h`) -/

namespace Remsim

/-- `EPERM`. -/
def eperm : ℤ := 1

/-- `EIO`. -/
def eio : ℤ := 5

/-- `EBADF`. -/
def ebadf : ℤ := 9

/-- `EINVAL`. -/
def einval : ℤ := 22

/-- `ENOSPC`. -/
def enospc : ℤ := 28

end Remsim
