/-!
# Error numbers

The numbers of `libc/include/errno.h` that the kernel returns, negated, to programs.
-/

namespace LarvaOS

/-- `ENOENT`. -/
def enoent : Int := 2

/-- `EBADF`. -/
def ebadf : Int := 9

/-- `EAGAIN`. -/
def eagain : Int := 11

/-- `ENOMEM`. -/
def enomem : Int := 12

/-- `EINVAL`. -/
def einval : Int := 22

/-- `EMFILE`. -/
def emfile : Int := 24

end LarvaOS
