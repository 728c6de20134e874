import Sppc.Flags
import Sppc.Windows.Errors

/-!
# Sends and receives (`platform/windows.h`)

A transfer on a socket by each of its names: `sppc_read`, `sppc_readv`, `sppc_recv` and `sppc_recvfrom`, and those
that send.
-/

namespace Sppc.Windows

def SPPC_MSG_DONTWAIT : BitVec 32 := 0x40
def SPPC_MSG_NOSIGNAL : BitVec 32 := 0x4000

/-- The description of a socket, made by `_sppc_win_socket_fd` for reading and writing. -/
structure SocketOfd where
  nonblock : Bool
  read : Bool
  write : Bool
  both : read ∧ write
  deriving DecidableEq

/-- What a transfer asks Winsock for. -/
structure Transfer where
  n : Nat
  flags : BitVec 32
  sending : Bool
  deriving DecidableEq, Repr

/-- How Winsock answers: whether the socket goes to the port of the thread; there, an error at the start, and what
`WSAGetOverlappedResult` gives in the end; and what the plain calls give, with an address or without. -/
structure Winsock where
  attached : Bool
  started : Transfer → Option WinError
  overlapped : Transfer → Except WinError Nat
  plain : Transfer → Except WinError Nat
  wsaPoll : Except WinError Nat

/-- `_sppc_win_transfer`. -/
def sppcWinTransfer (w : Winsock) (ofd : SocketOfd) (t : Transfer) (port : Bool) : Except WinError Nat :=
  if port ∧ ¬ofd.nonblock ∧ w.attached then
    match w.started t with
    | none => w.overlapped t
    | some e => if e = WSA_IO_PENDING then w.overlapped t else .error e
  else w.plain t

/-- A count of bytes as an `int`. -/
def intMost (n : Nat) : Nat := if n < 2 ^ 31 - 1 then n else 2 ^ 31 - 1

/-- What a call returns, and its `*out_n`. -/
structure IoReturn where
  err : Nat
  outN : Int
  deriving DecidableEq, Repr

/-- `_sppc_ofd_read` of a socket. -/
def sppcOfdRead (w : Winsock) (ofd : SocketOfd) (n : Nat) : IoReturn :=
  if ¬ofd.read then ⟨SPPC_EBADF, -1⟩
  else
    match sppcWinTransfer w ofd ⟨intMost n, 0, false⟩ true with
    | .error e => ⟨if e = WSAECONNABORTED then SPPC_ECONNRESET else sppcErrnoWsa e, -1⟩
    | .ok got => ⟨0, got⟩

/-- `_sppc_ofd_write` of a socket. -/
def sppcOfdWrite (w : Winsock) (ofd : SocketOfd) (n : Nat) : IoReturn :=
  if ¬ofd.write then ⟨SPPC_EBADF, -1⟩
  else
    match sppcWinTransfer w ofd ⟨intMost n, 0, true⟩ true with
    | .error e => ⟨if e = WSAECONNABORTED then SPPC_EPIPE else sppcErrnoWsa e, -1⟩
    | .ok sent => ⟨0, sent⟩

/-! The calls, where `ofd` is what `_sppc_fd_get` gives. -/

/-- `sppc_read`. -/
def sppcRead (w : Winsock) (ofd : Option SocketOfd) (size count : Nat) : IoReturn :=
  match ofd with
  | none => ⟨SPPC_EBADF, -1⟩
  | some ofd => sppcOfdRead w ofd (size * count % 2 ^ 64)

/-- `sppc_write`. -/
def sppcWrite (w : Winsock) (ofd : Option SocketOfd) (size count : Nat) : IoReturn :=
  match ofd with
  | none => ⟨SPPC_EBADF, -1⟩
  | some ofd => sppcOfdWrite w ofd (size * count % 2 ^ 64)

/-- The loop of `_sppc_win_vector` over the lengths of the buffers, which leaves the last error and the total. -/
def winVectorLoop (move : Nat → Nat → IoReturn) : Nat → List Nat → Int → IoReturn
  | _, [], total => ⟨0, total⟩
  | i, len :: lens, total =>
    let r := move i len
    if r.outN < 0 then ⟨r.err, total⟩
    else if r.outN < len then ⟨r.err, total + r.outN⟩
    else winVectorLoop move (i + 1) lens (total + r.outN)

/-- `_sppc_win_vector`, where `move i` is the transfer of buffer `i`. -/
def sppcWinVector (move : SocketOfd → Nat → Nat → IoReturn) (ofd : Option SocketOfd) (lens : List Nat) : IoReturn :=
  if 1024 < lens.length then ⟨SPPC_EINVAL, -1⟩
  else
    match ofd with
    | none => ⟨SPPC_EBADF, -1⟩
    | some ofd =>
      let r := winVectorLoop (move ofd) 0 lens 0
      if r.err ≠ 0 ∧ r.outN = 0 then ⟨r.err, -1⟩ else ⟨0, r.outN⟩

/-- `sppc_readv`, where `w i` is how Winsock answers for buffer `i`. -/
def sppcReadv (w : Nat → Winsock) (ofd : Option SocketOfd) (lens : List Nat) : IoReturn :=
  sppcWinVector (fun ofd i => sppcOfdRead (w i) ofd) ofd lens

/-- `sppc_writev`. -/
def sppcWritev (w : Nat → Winsock) (ofd : Option SocketOfd) (lens : List Nat) : IoReturn :=
  sppcWinVector (fun ofd i => sppcOfdWrite (w i) ofd) ofd lens

/-- `_sppc_win_transfer_errno`. -/
def sppcWinTransferErrno (e : WinError) (sending : Bool) : Nat :=
  if e = WSAECONNABORTED then (if sending then SPPC_EPIPE else SPPC_ECONNRESET) else sppcErrnoWsa e

/-- `_sppc_win_msg_flags`, with the platform's table of flags. -/
def sppcWinMsgFlags (table : List Pair) (w : Winsock) (flags : BitVec 32) : Except Nat (BitVec 32) :=
  match sppcToOsFlags (flags &&& ~~~(SPPC_MSG_NOSIGNAL ||| SPPC_MSG_DONTWAIT)) table with
  | none => .error SPPC_EINVAL
  | some os =>
    if flags &&& SPPC_MSG_DONTWAIT = 0 then .ok os
    else
      match w.wsaPoll with
      | .error e => .error (sppcErrnoWsa e)
      | .ok n => if n = 0 then .error SPPC_EAGAIN else .ok os

/-- What a send comes to. -/
def sendReturn (res : Except WinError Nat) : IoReturn :=
  match res with
  | .error e => ⟨sppcWinTransferErrno e true, -1⟩
  | .ok sent => ⟨0, sent⟩

/-- What a receive of `want` bytes comes to: a datagram that is longer gives its start. -/
def recvReturn (want : Nat) (res : Except WinError Nat) : IoReturn :=
  match res with
  | .error e => if e = WSAEMSGSIZE then ⟨0, want⟩ else ⟨sppcWinTransferErrno e false, -1⟩
  | .ok got => ⟨0, got⟩

/-- `sppc_send`. -/
def sppcSend (table : List Pair) (w : Winsock) (ofd : Option SocketOfd) (size : Nat) (flags : BitVec 32) : IoReturn :=
  match ofd with
  | none => ⟨SPPC_EBADF, -1⟩
  | some ofd =>
    match sppcWinMsgFlags table w flags with
    | .error e => ⟨e, -1⟩
    | .ok os => sendReturn (sppcWinTransfer w ofd ⟨intMost size, os, true⟩ (flags &&& SPPC_MSG_DONTWAIT = 0))

/-- `sppc_recv`. -/
def sppcRecv (table : List Pair) (w : Winsock) (ofd : Option SocketOfd) (size : Nat) (flags : BitVec 32) : IoReturn :=
  match ofd with
  | none => ⟨SPPC_EBADF, -1⟩
  | some ofd =>
    match sppcWinMsgFlags table w flags with
    | .error e => ⟨e, -1⟩
    | .ok os =>
      recvReturn (intMost size) (sppcWinTransfer w ofd ⟨intMost size, os, false⟩ (flags &&& SPPC_MSG_DONTWAIT = 0))

/-- `sppc_sendto`. -/
def sppcSendto (w : Winsock) (ofd : Option SocketOfd) (size : Nat) : IoReturn :=
  match ofd with
  | none => ⟨SPPC_EBADF, -1⟩
  | some ofd => sendReturn (sppcWinTransfer w ofd ⟨intMost size, 0, true⟩ true)

/-- `sppc_recvfrom`. -/
def sppcRecvfrom (w : Winsock) (ofd : Option SocketOfd) (size : Nat) : IoReturn :=
  match ofd with
  | none => ⟨SPPC_EBADF, -1⟩
  | some ofd => recvReturn (intMost size) (sppcWinTransfer w ofd ⟨intMost size, 0, false⟩ true)

/-! ### One receive by any name -/

/-- The receives of up to `n` bytes agree, and a datagram that is longer gives its start by all of them. -/
structure OneReceive (table : List Pair) (w : Winsock) (ofd : Option SocketOfd) (n : Nat) : Prop where
  read : sppcRead w ofd 1 n = sppcRecv table w ofd n 0
  readv : sppcReadv (fun _ => w) ofd [n] = sppcRecv table w ofd n 0
  recvfrom : sppcRecvfrom w ofd n = sppcRecv table w ofd n 0
  cut : ∀ d, ofd = some d → sppcWinTransfer w d ⟨intMost n, 0, false⟩ true = .error WSAEMSGSIZE →
    sppcRecv table w ofd n 0 = ⟨0, intMost n⟩

/-- The sends of `n` bytes agree. -/
structure OneSend (table : List Pair) (w : Winsock) (ofd : Option SocketOfd) (n : Nat) : Prop where
  write : sppcWrite w ofd 1 n = sppcSend table w ofd n 0
  writev : sppcWritev (fun _ => w) ofd [n] = sppcSend table w ofd n 0
  sendto : sppcSendto w ofd n = sppcSend table w ofd n 0

variable {table : List Pair} {w : Winsock} {ofd : Option SocketOfd} {d : SocketOfd} {n : Nat}

private theorem sppcToOsFlags_zero (table : List Pair) : sppcToOsFlags 0 table = some 0 := by
  have htake : takeFlags Pair.sppc Pair.os table 0 0 = (0, 0) := by
    cases table with
    | nil => rfl
    | cons p table => rw [takeFlags, if_pos rfl]
  rw [sppcToOsFlags, htake]
  rfl

/-- No flags ask for nothing. -/
private theorem sppcWinMsgFlags_zero (table : List Pair) (w : Winsock) : sppcWinMsgFlags table w 0 = .ok 0 := by
  have hflags : (0 : BitVec 32) &&& ~~~(SPPC_MSG_NOSIGNAL ||| SPPC_MSG_DONTWAIT) = 0 := by decide
  have hwait : (0 : BitVec 32) &&& SPPC_MSG_DONTWAIT = 0 := by decide
  rw [sppcWinMsgFlags, hflags, sppcToOsFlags_zero]
  dsimp only
  rw [if_pos hwait]

/-- A transfer that failed with an error, or gave a count. -/
def IoReturn.Proper (r : IoReturn) : Prop := (r.err ≠ 0 ∧ r.outN = -1) ∨ (r.err = 0 ∧ 0 ≤ r.outN)

/-- A vector of one buffer is a transfer of it. -/
private theorem sppcWinVector_one {move : SocketOfd → Nat → Nat → IoReturn} (n : Nat) (h : (move d 0 n).Proper) :
    sppcWinVector move (some d) [n] = move d 0 n := by
  rw [sppcWinVector, if_neg (by rw [List.length_singleton]; omega)]
  dsimp only
  rw [winVectorLoop]
  generalize move d 0 n = r at h
  obtain ⟨err, outN⟩ := r
  dsimp only [IoReturn.Proper] at h ⊢
  rcases h with ⟨herr, rfl⟩ | ⟨rfl, hout⟩
  · rw [if_pos (show (-1 : Int) < 0 by decide), if_pos ⟨herr, rfl⟩]
  · rw [if_neg (show ¬outN < 0 by omega), winVectorLoop, Int.zero_add, ite_self, if_neg fun hboth => hboth.1 rfl]

private theorem sppcWinTransferErrno_ne_zero (e : WinError) (sending : Bool) :
    sppcWinTransferErrno e sending ≠ 0 := by
  unfold sppcWinTransferErrno
  split
  · cases sending <;> decide
  · exact sppcErrnoWsa_ne_zero e

/-! ### Sends -/

/-- A write sends. -/
private theorem sppcOfdWrite_eq (w : Winsock) (d : SocketOfd) (n : Nat) :
    sppcOfdWrite w d n = sendReturn (sppcWinTransfer w d ⟨intMost n, 0, true⟩ true) := by
  rw [sppcOfdWrite, if_neg (not_not.2 d.both.2)]
  cases sppcWinTransfer w d ⟨intMost n, 0, true⟩ true with
  | error e => rfl
  | ok sent => rfl

private theorem sppcSend_zero (table : List Pair) (w : Winsock) (d : SocketOfd) (n : Nat) :
    sppcSend table w (some d) n 0 = sendReturn (sppcWinTransfer w d ⟨intMost n, 0, true⟩ true) := by
  rw [sppcSend]
  rw [sppcWinMsgFlags_zero]
  rfl

private theorem sendReturn_proper (res : Except WinError Nat) : (sendReturn res).Proper := by
  cases res with
  | error e => exact Or.inl ⟨sppcWinTransferErrno_ne_zero e true, rfl⟩
  | ok sent => exact Or.inr ⟨rfl, Int.natCast_nonneg sent⟩

private theorem oneSend (table : List Pair) (w : Winsock) (ofd : Option SocketOfd) (hn : n < 2 ^ 64) :
    OneSend table w ofd n := by
  cases ofd with
  | none => exact ⟨rfl, rfl, rfl⟩
  | some d =>
    refine ⟨?_, ?_, ?_⟩
    · rw [sppcSend_zero, sppcWrite]
      rw [Nat.one_mul, Nat.mod_eq_of_lt hn, sppcOfdWrite_eq]
    · rw [sppcSend_zero, sppcWritev, sppcWinVector_one n]
      · exact sppcOfdWrite_eq w d n
      · rw [sppcOfdWrite_eq]
        exact sendReturn_proper _
    · rw [sppcSend_zero]
      rfl

/-! ### Receives -/

/-- What a read makes of a receive. -/
def readReturn (res : Except WinError Nat) : IoReturn :=
  match res with
  | .error e => ⟨sppcWinTransferErrno e false, -1⟩
  | .ok got => ⟨0, got⟩

private theorem sppcOfdRead_eq (w : Winsock) (d : SocketOfd) (n : Nat) :
    sppcOfdRead w d n = readReturn (sppcWinTransfer w d ⟨intMost n, 0, false⟩ true) := by
  rw [sppcOfdRead, if_neg (not_not.2 d.both.1)]
  cases sppcWinTransfer w d ⟨intMost n, 0, false⟩ true with
  | error e => rfl
  | ok got => rfl

private theorem sppcRecv_zero (table : List Pair) (w : Winsock) (d : SocketOfd) (n : Nat) :
    sppcRecv table w (some d) n 0 = recvReturn (intMost n) (sppcWinTransfer w d ⟨intMost n, 0, false⟩ true) := by
  rw [sppcRecv]
  rw [sppcWinMsgFlags_zero]
  rfl

private theorem readReturn_proper (res : Except WinError Nat) : (readReturn res).Proper := by
  cases res with
  | error e => exact Or.inl ⟨sppcWinTransferErrno_ne_zero e false, rfl⟩
  | ok got => exact Or.inr ⟨rfl, Int.natCast_nonneg got⟩

/-- A read and a receive differ on a datagram that is longer than the buffer, and on nothing else. -/
private theorem readReturn_eq_iff (want : Nat) (res : Except WinError Nat) :
    readReturn res = recvReturn want res ↔ res ≠ .error WSAEMSGSIZE := by
  cases res with
  | ok got => exact iff_of_true rfl fun h => nomatch h
  | error e =>
    rw [readReturn, recvReturn]
    by_cases he : e = WSAEMSGSIZE
    · rw [if_pos he, he]
      refine iff_of_false ?_ fun h => h rfl
      intro h
      have herr : sppcWinTransferErrno WSAEMSGSIZE false = 0 := congrArg IoReturn.err h
      exact sppcWinTransferErrno_ne_zero _ _ herr
    · rw [if_neg he]
      refine iff_of_true rfl ?_
      intro h
      exact he (Except.error.inj h)

/-- The receives agree, and so do the sends, exactly if Winsock has not cut a datagram. -/
theorem oneReceive_iff (table : List Pair) (w : Winsock) (ofd : Option SocketOfd) (hn : n < 2 ^ 64) :
    (OneReceive table w ofd n ∧ OneSend table w ofd n) ↔
      ∀ d, ofd = some d → sppcWinTransfer w d ⟨intMost n, 0, false⟩ true ≠ .error WSAEMSGSIZE := by
  rw [and_iff_left (oneSend table w ofd hn)]
  cases ofd with
  | none => exact iff_of_true ⟨rfl, rfl, rfl, fun d h => nomatch h⟩ fun d h => nomatch h
  | some d =>
    have hread : sppcRead w (some d) 1 n = sppcOfdRead w d n := by
      rw [sppcRead, Nat.one_mul, Nat.mod_eq_of_lt hn]
    constructor
    · intro h d' hd
      cases hd
      have hagree := h.read
      rw [hread, sppcOfdRead_eq, sppcRecv_zero] at hagree
      exact (readReturn_eq_iff _ _).1 hagree
    · intro h
      have hagree := (readReturn_eq_iff (intMost n) _).2 (h d rfl)
      refine ⟨?_, ?_, ?_, ?_⟩
      · rw [hread, sppcOfdRead_eq, sppcRecv_zero]
        exact hagree
      · rw [sppcRecv_zero, sppcReadv, sppcWinVector_one n]
        · rw [sppcOfdRead_eq]
          exact hagree
        · rw [sppcOfdRead_eq]
          exact readReturn_proper _
      · rw [sppcRecv_zero]
        rfl
      · intro d' hd hcut
        exact absurd hcut (h d' hd)

/-- A blocking socket, which is not on the port. -/
def blockingSocket : SocketOfd := ⟨false, true, true, by decide⟩

/-- Winsock's answer to every transfer. -/
def answering (res : Except WinError Nat) : Winsock := ⟨false, fun _ => none, fun _ => res, fun _ => res, .ok 1⟩

/-- A datagram that is longer than the eight bytes asked for gives its start to a receive, and an error to a read. -/
theorem oneReceive_cut :
    sppcRead (answering (.error WSAEMSGSIZE)) (some blockingSocket) 1 8 = ⟨SPPC_EMSGSIZE, -1⟩ ∧
    sppcRecv [] (answering (.error WSAEMSGSIZE)) (some blockingSocket) 8 0 = ⟨0, 8⟩ ∧
    ¬OneReceive [] (answering (.error WSAEMSGSIZE)) (some blockingSocket) 8 := by
  have hread : sppcRead (answering (.error WSAEMSGSIZE)) (some blockingSocket) 1 8 = ⟨SPPC_EMSGSIZE, -1⟩ := by
    decide +kernel
  have hrecv : sppcRecv [] (answering (.error WSAEMSGSIZE)) (some blockingSocket) 8 0 = ⟨0, 8⟩ := by decide +kernel
  refine ⟨hread, hrecv, ?_⟩
  intro h
  have hagree := h.read
  rw [hread, hrecv] at hagree
  exact absurd hagree (by decide)

/-- A connection that was dropped is reset by all names. -/
theorem oneReceive_iff_dropped :
    sppcRecv [] (answering (.error WSAECONNABORTED)) (some blockingSocket) 8 0 = ⟨SPPC_ECONNRESET, -1⟩ ∧
    OneReceive [] (answering (.error WSAECONNABORTED)) (some blockingSocket) 8 := by
  refine ⟨by decide +kernel, ((oneReceive_iff [] _ _ (by decide)).2 ?_).1⟩
  intro d _ h
  have hplain : sppcWinTransfer (answering (.error WSAECONNABORTED)) d ⟨intMost 8, 0, false⟩ true =
      .error WSAECONNABORTED := if_neg fun hport => Bool.false_ne_true hport.2.2
  rw [hplain] at h
  exact absurd (Except.error.inj h) (by decide)

end Sppc.Windows
