import Mathlib.Algebra.Group.Nat.Defs
import Mathlib.Data.List.Basic

/-!
# Errors (`platform/windows.h`, `platform/types.h`)

What Windows' calls and Winsock's give when they fail, `_sppc_errno_win32` and `_sppc_errno_wsa`.
-/

namespace Sppc.Windows

/-- What `GetLastError` or `WSAGetLastError` gives after a call that failed, which is not 0. -/
structure WinError where
  code : Nat
  failed : code ≠ 0
  deriving DecidableEq, Repr

def SPPC_ENOENT : Nat := 2
def SPPC_EIO : Nat := 5
def SPPC_EBADF : Nat := 9
def SPPC_EAGAIN : Nat := 11
def SPPC_ENOTDIR : Nat := 20
def SPPC_EINVAL : Nat := 22
def SPPC_EPIPE : Nat := 32
def SPPC_EMSGSIZE : Nat := 90
def SPPC_ECONNABORTED : Nat := 103
def SPPC_ECONNRESET : Nat := 104

def WSA_IO_PENDING : WinError := ⟨997, by decide⟩
def WSAEMSGSIZE : WinError := ⟨10040, by decide⟩
def WSAECONNABORTED : WinError := ⟨10053, by decide⟩

/-- The cases of `_sppc_errno_win32`. -/
def win32Errnos : List (Nat × Nat) :=
  -- ERROR_SUCCESS, ERROR_FILE_NOT_FOUND, ERROR_PATH_NOT_FOUND, ERROR_INVALID_DRIVE, ERROR_NO_MORE_FILES,
  -- ERROR_BAD_NETPATH
  [(0, 0), (2, SPPC_ENOENT), (3, SPPC_ENOENT), (15, SPPC_ENOENT), (18, SPPC_ENOENT), (53, SPPC_ENOENT),
  -- ERROR_BAD_NET_NAME, ERROR_BAD_PATHNAME, ERROR_MOD_NOT_FOUND, ERROR_TOO_MANY_OPEN_FILES
    (67, SPPC_ENOENT), (161, SPPC_ENOENT), (126, SPPC_ENOENT), (4, 24),
  -- ERROR_ACCESS_DENIED, ERROR_CURRENT_DIRECTORY, ERROR_NETWORK_ACCESS_DENIED, ERROR_CANNOT_MAKE, ERROR_FAIL_I24
    (5, 13), (16, 13), (65, 13), (82, 13), (83, 13),
  -- ERROR_DRIVE_LOCKED, ERROR_SEEK_ON_DEVICE, ERROR_NOT_LOCKED, ERROR_LOCK_FAILED, ERROR_DELETE_PENDING
    (108, 13), (132, 13), (158, 13), (167, 13), (303, 13),
  -- ERROR_PRIVILEGE_NOT_HELD, ERROR_NOT_OWNER, ERROR_INVALID_HANDLE, ERROR_INVALID_TARGET_HANDLE,
  -- ERROR_DIRECT_ACCESS_HANDLE
    (1314, 1), (288, 1), (6, SPPC_EBADF), (114, SPPC_EBADF), (130, SPPC_EBADF),
  -- ERROR_ARENA_TRASHED, ERROR_NOT_ENOUGH_MEMORY, ERROR_INVALID_BLOCK, ERROR_NOT_ENOUGH_QUOTA, ERROR_OUTOFMEMORY
    (7, 12), (8, 12), (9, 12), (1816, 12), (14, 12),
  -- ERROR_COMMITMENT_LIMIT, ERROR_WORKING_SET_QUOTA, ERROR_BAD_ENVIRONMENT, ERROR_BAD_FORMAT, ERROR_BAD_EXE_FORMAT
    (1455, 12), (1453, 12), (10, 7), (11, 8), (193, 8),
  -- ERROR_INVALID_EXE_SIGNATURE, ERROR_EXE_MACHINE_TYPE_MISMATCH, ERROR_INVALID_FUNCTION, ERROR_INVALID_ACCESS
    (191, 8), (216, 8), (1, SPPC_EINVAL), (12, SPPC_EINVAL),
  -- ERROR_INVALID_DATA, ERROR_INVALID_PARAMETER, ERROR_NEGATIVE_SEEK, ERROR_INVALID_NAME, ERROR_NOT_A_REPARSE_POINT
    (13, SPPC_EINVAL), (87, SPPC_EINVAL), (131, SPPC_EINVAL), (123, SPPC_EINVAL), (4390, SPPC_EINVAL),
  -- ERROR_NOT_SAME_DEVICE, ERROR_WRITE_PROTECT, ERROR_SHARING_VIOLATION, ERROR_LOCK_VIOLATION, ERROR_BUSY,
  -- ERROR_PIPE_BUSY
    (17, 18), (19, 30), (32, 16), (33, 16), (170, 16), (231, 16),
  -- ERROR_HANDLE_DISK_FULL, ERROR_DISK_FULL, ERROR_DISK_QUOTA_EXCEEDED, ERROR_FILE_TOO_LARGE, ERROR_FILE_EXISTS
    (39, 28), (112, 28), (1295, 122), (223, 27), (80, 17),
  -- ERROR_ALREADY_EXISTS, ERROR_BROKEN_PIPE, ERROR_NO_DATA, ERROR_DIR_NOT_EMPTY, ERROR_DIRECTORY
    (183, 17), (109, SPPC_EPIPE), (232, SPPC_EPIPE), (145, 39), (267, SPPC_ENOTDIR),
  -- ERROR_DIRECTORY_NOT_SUPPORTED, ERROR_FILENAME_EXCED_RANGE, ERROR_CANT_RESOLVE_FILENAME, ERROR_STOPPED_ON_SYMLINK
    (336, 21), (206, 36), (1921, 40), (681, 40),
  -- ERROR_TOO_MANY_LINKS, ERROR_INSUFFICIENT_BUFFER, ERROR_DEV_NOT_EXIST, ERROR_BAD_UNIT, ERROR_WAIT_NO_CHILDREN
    (1142, 31), (122, 34), (55, 19), (20, 19), (128, 10),
  -- ERROR_CHILD_NOT_COMPLETE, ERROR_NO_PROC_SLOTS, ERROR_MAX_THRDS_REACHED, ERROR_NESTING_NOT_ALLOWED,
  -- ERROR_POSSIBLE_DEADLOCK
    (129, 10), (89, SPPC_EAGAIN), (164, SPPC_EAGAIN), (215, SPPC_EAGAIN), (1131, 35),
  -- ERROR_TIMEOUT, ERROR_SEM_TIMEOUT, WAIT_TIMEOUT, ERROR_OPERATION_ABORTED, ERROR_NOT_SUPPORTED,
  -- ERROR_CALL_NOT_IMPLEMENTED
    (1460, 110), (121, 110), (258, 110), (995, 125), (50, 95), (120, 38)]

/-- `_sppc_errno_win32`. -/
def sppcErrnoWin32 (err : Nat) : Nat := ((win32Errnos.find? fun p => p.1 = err).map Prod.snd).getD SPPC_EIO

/-- The cases of `_sppc_errno_wsa`. -/
def wsaErrnos : List (Nat × Nat) :=
  -- WSAEINTR, WSAEBADF, WSA_INVALID_HANDLE, WSAEACCES, WSAEFAULT, WSAEINVAL, WSA_INVALID_PARAMETER, WSAEMFILE
  [(10004, 4), (10009, SPPC_EBADF), (6, SPPC_EBADF), (10013, 13), (10014, 14), (10022, SPPC_EINVAL),
    (87, SPPC_EINVAL), (10024, 24),
  -- WSAEWOULDBLOCK, WSAEINPROGRESS, WSAEALREADY, WSAENOTSOCK, WSAEDESTADDRREQ, WSAEMSGSIZE, WSAEPROTOTYPE
    (10035, SPPC_EAGAIN), (10036, 115), (10037, 114), (10038, 88), (10039, 89), (10040, SPPC_EMSGSIZE), (10041, 91),
  -- WSAENOPROTOOPT, WSAEPROTONOSUPPORT, WSAESOCKTNOSUPPORT, WSAEOPNOTSUPP, WSAEPFNOSUPPORT, WSAEAFNOSUPPORT
    (10042, 92), (10043, 93), (10044, 94), (10045, 95), (10046, 96), (10047, 97),
  -- WSAEADDRINUSE, WSAEADDRNOTAVAIL, WSAENETDOWN, WSAENETUNREACH, WSAENETRESET, WSAECONNABORTED, WSAECONNRESET,
  -- WSAEDISCON
    (10048, 98), (10049, 99), (10050, 100), (10051, 101), (10052, 102), (10053, SPPC_ECONNABORTED),
      (10054, SPPC_ECONNRESET),
    (10101, SPPC_ECONNRESET),
  -- WSAENOBUFS, WSAEISCONN, WSAENOTCONN, WSAESHUTDOWN, WSAETOOMANYREFS, WSAETIMEDOUT, WSAECONNREFUSED, WSAELOOP
    (10055, 105), (10056, 106), (10057, 107), (10058, SPPC_EPIPE), (10059, 109), (10060, 110), (10061, 111),
      (10062, 40),
  -- WSAENAMETOOLONG, WSAEHOSTDOWN, WSAEHOSTUNREACH, WSAENOTEMPTY, WSAEPROCLIM, WSAEUSERS, WSAEDQUOT, WSAESTALE,
  -- WSAEREMOTE
    (10063, 36), (10064, 112), (10065, 113), (10066, 39), (10067, SPPC_EAGAIN), (10068, 87), (10069, 122),
      (10070, 116), (10071, 66),
  -- WSA_NOT_ENOUGH_MEMORY, WSA_OPERATION_ABORTED, WSAECANCELLED
    (8, 12), (995, 125), (10103, 125)]

/-- `_sppc_errno_wsa`, of an error. -/
def sppcErrnoWsa (e : WinError) : Nat := ((wsaErrnos.find? fun p => p.1 = e.code).map Prod.snd).getD SPPC_EIO

/-- An error is never taken for success. -/
theorem sppcErrnoWsa_ne_zero (e : WinError) : sppcErrnoWsa e ≠ 0 := by
  have hall : ∀ p ∈ wsaErrnos, p.2 ≠ 0 := by decide
  unfold sppcErrnoWsa
  cases hfind : wsaErrnos.find? fun p => p.1 = e.code with
  | none => decide
  | some p => exact hall p (List.mem_of_find?_eq_some hfind)

end Sppc.Windows
