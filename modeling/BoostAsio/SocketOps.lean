import BoostAsio.Descriptor
import BoostAsio.Lib.Loops

/-!
# Sending, receiving and polling

The functions of `socket_ops` that transfer data, with the wrappers that carry
an error from `errno` to `ec`. What the kernel answers is a parameter: the
outcome of the n-th system call that a function makes. A call that fails sets
`errno`, which is not 0 then, and one that succeeds does not touch it.

`std::size_t` results are read back as `signed_size_type`, so a result is the
integer that the system call returned. `EWOULDBLOCK` is `EAGAIN`, so the two
error conditions that the code tests are equal; an `ec` is the value of its
`std::error_code`, whose category is the generic one everywhere.
-/

namespace BoostAsio.SocketOps

def interrupted : ErrorCode := 4
def operationWouldBlock : ErrorCode := 11
def resourceUnavailableTryAgain : ErrorCode := 11
def invalidArgument : ErrorCode := 22
def invalidSeek : ErrorCode := 29

abbrev StateType := BitVec 32

def userSetNonBlocking : StateType := 1
def internalNonBlocking : StateType := 2
def nonBlocking : StateType := userSetNonBlocking ||| internalNonBlocking
def enableConnectionAborted : StateType := 4
def userSetLinger : StateType := 8
def streamOriented : StateType := 16

def StateType.has (state flag : StateType) : Bool := state &&& flag != 0

structure Buffer where
  base : Nat
  len : Nat
  deriving DecidableEq, Repr

def invalidSocket : Int := -1

def msgNosignal : BitVec 32 := 0x4000

def pollIn : BitVec 16 := 0x001
def pollPri : BitVec 16 := 0x002
def pollOut : BitVec 16 := 0x004
def pollErr : BitVec 16 := 0x008
def pollHup : BitVec 16 := 0x010

-- ---------------------------------------------------------------------------
-- The kernel
-- ---------------------------------------------------------------------------

inductive SystemCall
  | recvmsg (sockfd : Int) (bufs : List Buffer) (flags : BitVec 32)
  | sendmsg (sockfd : Int) (bufs : List Buffer) (flags : BitVec 32)
  | poll (sockfd : Int) (events : BitVec 16) (timeout : Int)
  | close (sockfd : Int)
  | fcntlGetFlags (sockfd : Int)
  | fcntlSetFlags (sockfd : Int) (flags : BitVec 32)
  | setsockopt (sockfd : Int) (level optname optval : BitVec 32) (optlen : Nat)
  | getsockopt (sockfd : Int) (level optname : BitVec 32) (optlen : Nat)
  deriving DecidableEq, Repr

namespace SystemCall

def isRecvmsg : SystemCall → Bool
  | recvmsg .. => true
  | _ => false

def isSendmsg : SystemCall → Bool
  | sendmsg .. => true
  | _ => false

end SystemCall

/-- A value of `errno` after a failure. -/
abbrev Errno := { e : ErrorCode // e ≠ 0 }

inductive Outcome
  | ok (n : Nat)
  | failed (errno : Errno)
  deriving DecidableEq, Repr

namespace Outcome

def result : Outcome → Int
  | ok n => n
  | failed _ => -1

/-- `errno` after the call, which was 0 before. -/
def errno : Outcome → ErrorCode
  | ok _ => 0
  | failed e => e

def count : Outcome → Nat
  | ok n => n
  | failed _ => 0

def isFailed : Outcome → Bool
  | ok _ => false
  | failed _ => true

end Outcome

abbrev Kernel := Nat → Outcome

/-- What a function of `socket_ops` reads and writes: `errno`, its argument
`ec`, and the system calls that it has made so far, with their outcomes. -/
structure Exchange where
  errno : ErrorCode
  ec : ErrorCode
  calls : List (SystemCall × Outcome) := []
  deriving DecidableEq, Repr

def systemCall (k : Kernel) (call : SystemCall) (x : Exchange) : Int × Exchange :=
  let outcome := k x.calls.length
  let calls := x.calls ++ [(call, outcome)]
  match outcome with
  | .ok n => (n, { x with calls })
  | .failed e => (-1, { x with errno := e, calls })

-- ---------------------------------------------------------------------------
-- The wrappers
-- ---------------------------------------------------------------------------

def clearLastError (x : Exchange) : Exchange := { x with errno := 0 }

def clearCurrentError (flag : Bool) (x : Exchange) : Exchange :=
  if flag then { x with ec := 0 } else x

def errorWrapper (r : Int × Exchange) : Int × Exchange := (r.1, { r.2 with ec := r.2.errno })

/-- `recv` and `send`, which differ in their system call. -/
def transfer (k : Kernel) (call : SystemCall) (x : Exchange) : Int × Exchange :=
  let (result, x) := errorWrapper (systemCall k call (clearLastError x))
  (result, clearCurrentError (result == 0) x)

def recv (k : Kernel) (sockfd : Int) (bufs : List Buffer) (flags : BitVec 32) (x : Exchange) :
    Int × Exchange :=
  transfer k (.recvmsg sockfd bufs flags) x

def send (k : Kernel) (sockfd : Int) (bufs : List Buffer) (flags : BitVec 32) (x : Exchange) :
    Int × Exchange :=
  transfer k (.sendmsg sockfd bufs (flags ||| msgNosignal)) x

/-- `poll_read`, `poll_write` and `poll_error`, which differ in the events they
wait for. -/
def pollFor (events : BitVec 16) (k : Kernel) (sockfd : Int) (state : StateType) (x : Exchange) :
    Int × Exchange :=
  if sockfd = invalidSocket then (-1, { x with ec := badFileDescriptor })
  else
    let timeout := if state.has userSetNonBlocking then 0 else -1
    let (result, x) := errorWrapper (systemCall k (.poll sockfd events timeout) (clearLastError x))
    let x := clearCurrentError true x
    (result,
      if result = 0 ∧ state.has userSetNonBlocking then { x with ec := operationWouldBlock } else x)

/-- The timeout that a caller gives is not used. -/
def pollRead (k : Kernel) (sockfd : Int) (state : StateType) (_msec : Int) (x : Exchange) :
    Int × Exchange :=
  pollFor pollIn k sockfd state x

def pollWrite (k : Kernel) (sockfd : Int) (state : StateType) (_msec : Int) (x : Exchange) :
    Int × Exchange :=
  pollFor pollOut k sockfd state x

def pollError (k : Kernel) (sockfd : Int) (state : StateType) (x : Exchange) : Int × Exchange :=
  pollFor (pollPri ||| pollErr ||| pollHup) k sockfd state x

-- ---------------------------------------------------------------------------
-- The functions that retry
-- ---------------------------------------------------------------------------

/-- A function in its loop, or returned. -/
structure Call (β : Type) extends Exchange where
  returned : Option β := none
  deriving DecidableEq, Repr

/-- `sync_recv` down to its loop -/
def syncRecvStart (sockfd : Int) (state : StateType) (allEmpty : Bool) (x : Exchange) : Call Nat :=
  if sockfd = invalidSocket then ⟨{ x with ec := badFileDescriptor }, some 0⟩
  else if allEmpty && state.has streamOriented then ⟨{ x with ec := 0 }, some 0⟩
  else ⟨x, none⟩

/-- One turn of the loop of `sync_recv`, or `none` where it has returned. -/
def syncRecvTurn (k : Kernel) (sockfd : Int) (state : StateType) (bufs : List Buffer)
    (flags : BitVec 32) (c : Call Nat) : Option (Call Nat) :=
  if c.returned.isSome then none
  else
    let (bytes, x) := recv k sockfd bufs flags c.toExchange
    if 0 < bytes then some ⟨x, some bytes.toNat⟩
    else if state.has streamOriented && bytes = 0 then some ⟨{ x with ec := invalidSeek }, some 0⟩
    else if state.has streamOriented &&
        (x.ec ≠ operationWouldBlock || x.ec ≠ resourceUnavailableTryAgain) then some ⟨x, some 0⟩
    else
      let (ready, x) := pollRead k sockfd 0 (-1) x
      some ⟨x, if ready < 0 then some 0 else none⟩

/-- `sync_send` down to its loop; `all_empty` is not used. -/
def syncSendStart (sockfd : Int) (_allEmpty : Bool) (x : Exchange) : Call Nat :=
  if sockfd = invalidSocket then ⟨{ x with ec := badFileDescriptor }, some 0⟩ else ⟨x, none⟩

def syncSendTurn (k : Kernel) (sockfd : Int) (state : StateType) (bufs : List Buffer)
    (flags : BitVec 32) (c : Call Nat) : Option (Call Nat) :=
  if c.returned.isSome then none
  else
    let (bytes, x) := send k sockfd bufs flags c.toExchange
    if 0 ≤ bytes then some ⟨x, some bytes.toNat⟩
    else if state.has userSetNonBlocking ||
        (x.ec ≠ operationWouldBlock && x.ec ≠ resourceUnavailableTryAgain) then some ⟨x, some 0⟩
    else
      let (ready, x) := pollWrite k sockfd 0 (-1) x
      some ⟨x, if ready < 0 then some 0 else none⟩

/-- `non_blocking_send`, with its argument `bytes_transferred`. -/
structure NonBlockingSend extends Call Bool where
  bytesTransferred : Nat
  deriving DecidableEq, Repr

def nonBlockingSendTurn (k : Kernel) (sockfd : Int) (bufs : List Buffer) (flags : BitVec 32)
    (c : NonBlockingSend) : Option NonBlockingSend :=
  if c.returned.isSome then none
  else
    let (bytes, x) := send k sockfd bufs flags c.toExchange
    if x.ec = interrupted then some { c with toExchange := x }
    else if x.ec = operationWouldBlock || x.ec = resourceUnavailableTryAgain then
      some { c with toExchange := x, returned := some false }
    else
      some ⟨⟨clearCurrentError (0 ≤ bytes) x, some true⟩, if 0 ≤ bytes then bytes.toNat else 0⟩

end BoostAsio.SocketOps
