import Mathlib.Data.Int.Notation
import Mathlib.Data.Nat.Notation

/-! Errors of the 9P server and the errno that `Rlerror` carries for each of them. -/
namespace P9cpu.Ninep

/-- A Linux errno, with `UnknownErrno` as 0. -/
structure Errno where
  code : UInt32
deriving DecidableEq, Repr

namespace Errno

def EPERM : Errno := ⟨1⟩
def ENOENT : Errno := ⟨2⟩
def EINTR : Errno := ⟨4⟩
def EIO : Errno := ⟨5⟩
def EBADF : Errno := ⟨9⟩
def EAGAIN : Errno := ⟨11⟩
def EEXIST : Errno := ⟨17⟩
def ENOTDIR : Errno := ⟨20⟩
def EISDIR : Errno := ⟨21⟩
def EINVAL : Errno := ⟨22⟩
def EPIPE : Errno := ⟨32⟩
def ENOTEMPTY : Errno := ⟨39⟩
def ELOOP : Errno := ⟨40⟩
def EOPNOTSUPP : Errno := ⟨95⟩
def EADDRINUSE : Errno := ⟨98⟩
def EADDRNOTAVAIL : Errno := ⟨99⟩
def ECONNABORTED : Errno := ⟨103⟩
def ECONNRESET : Errno := ⟨104⟩
def ENOTCONN : Errno := ⟨107⟩
def ETIMEDOUT : Errno := ⟨110⟩
def ECONNREFUSED : Errno := ⟨111⟩
def EALREADY : Errno := ⟨114⟩

/-- The Linux table ends at `EHWPOISON` and has no 41 and no 58. -/
def fromI32 (code : ℤ) : Errno :=
  if 1 ≤ code ∧ code ≤ 133 ∧ code ≠ 41 ∧ code ≠ 58 then ⟨UInt32.ofNat code.toNat⟩ else ⟨0⟩

end Errno

/-- The kinds of `std::io::Error` that the server tells apart. -/
inductive ErrorKind
  | notFound | permissionDenied | connectionRefused | connectionReset | connectionAborted
  | notConnected | addrInUse | addrNotAvailable | brokenPipe | alreadyExists | wouldBlock
  | invalidInput | invalidData | timedOut | writeZero | interrupted | unexpectedEof | other
deriving DecidableEq, Repr

/-- An `std::io::Error`: from a system call, or made by a library with a message. -/
inductive IoError
  | os (code : ℤ)
  | custom (kind : ErrorKind) (msg : String)
deriving DecidableEq, Repr

open Errno in
def errnoFromIoError : IoError → Errno
  | .os code => Errno.fromI32 code
  | .custom kind _ =>
    match kind with
    | .notFound => ENOENT
    | .permissionDenied => EPERM
    | .connectionRefused => ECONNREFUSED
    | .connectionReset => ECONNRESET
    | .connectionAborted => ECONNABORTED
    | .notConnected => ENOTCONN
    | .addrInUse => EADDRINUSE
    | .addrNotAvailable => EADDRNOTAVAIL
    | .brokenPipe => EPIPE
    | .alreadyExists => EALREADY
    | .wouldBlock => EAGAIN
    | .invalidInput => EINVAL
    | .invalidData => EINVAL
    | .timedOut => ETIMEDOUT
    | .writeZero => EAGAIN
    | .interrupted => EINTR
    | _ => EIO

inductive Error
  | no (e : Errno)
  | io (e : IoError)
deriving DecidableEq, Repr

def Error.errno : Error → Errno
  | .no e => e
  | .io e => errnoFromIoError e

end P9cpu.Ninep
