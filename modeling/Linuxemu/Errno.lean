import Mathlib.Data.List.Basic

/-! Host error codes and their Linux numbers. -/
namespace Linuxemu

/-- The host `errno` values that `linux_errno_number` names; `other` is any
further one. A success (0) is the absence of a code. -/
inductive Errno where
  | eperm | enoent | esrch | eintr | eio | enxio | e2big | enoexec | ebadf | echild
  | eagain | enomem | eacces | efault | ebusy | eexist | exdev | enodev | enotdir | eisdir
  | einval | enfile | emfile | enotty | efbig | enospc | espipe | erofs | emlink | epipe
  | erange | enametoolong | enosys | enotempty | eloop | enotsock | edestaddrreq | emsgsize
  | eprototype | enoprotoopt | eprotonosupport | esocktnosupport | eopnotsupp
  | epfnosupport | eafnosupport | eaddrinuse | eaddrnotavail | enetdown | enetunreach
  | enetreset | econnaborted | econnreset | enobufs | eisconn | enotconn | eshutdown
  | etoomanyrefs | etimedout | econnrefused | ehostdown | ehostunreach | ealready
  | einprogress
  | other (value : Nat)
  deriving DecidableEq, Repr

def linuxErrnoNumber : Errno → Nat
  | .eperm => 1 | .enoent => 2 | .esrch => 3 | .eintr => 4 | .eio => 5 | .enxio => 6
  | .e2big => 7 | .enoexec => 8 | .ebadf => 9 | .echild => 10 | .eagain => 11 | .enomem => 12
  | .eacces => 13 | .efault => 14 | .ebusy => 16 | .eexist => 17 | .exdev => 18 | .enodev => 19
  | .enotdir => 20 | .eisdir => 21 | .einval => 22 | .enfile => 23 | .emfile => 24
  | .enotty => 25 | .efbig => 27 | .enospc => 28 | .espipe => 29 | .erofs => 30 | .emlink => 31
  | .epipe => 32 | .erange => 34 | .enametoolong => 36 | .enosys => 38 | .enotempty => 39
  | .eloop => 40 | .enotsock => 88 | .edestaddrreq => 89 | .emsgsize => 90 | .eprototype => 91
  | .enoprotoopt => 92 | .eprotonosupport => 93 | .esocktnosupport => 94 | .eopnotsupp => 95
  | .epfnosupport => 96 | .eafnosupport => 97 | .eaddrinuse => 98 | .eaddrnotavail => 99
  | .enetdown => 100 | .enetunreach => 101 | .enetreset => 102 | .econnaborted => 103
  | .econnreset => 104 | .enobufs => 105 | .eisconn => 106 | .enotconn => 107
  | .eshutdown => 108 | .etoomanyrefs => 109 | .etimedout => 110 | .econnrefused => 111
  | .ehostdown => 112 | .ehostunreach => 113 | .ealready => 114 | .einprogress => 115
  | .other _ => 5

theorem linuxErrnoNumber_pos (e : Errno) : 0 < linuxErrnoNumber e := by
  cases e <;> simp [linuxErrnoNumber]

end Linuxemu
