import Sppc.Queues
import Sppc.Backends

/-!
# Calls through the ring and plain calls

`_gt_try_read` and its siblings stand in for `read`, `write`, `recv` and `send`.  What they deliver is compared with
what the plain call of the same number of bytes could have returned.  The entry's length has 32 bits, so a longer
request is cut to its last 32 bits; and a submission that fails is delivered as the call's own failure.
-/

namespace Sppc

/-! ### Plain calls -/

/-- A call but for its length. -/
inductive RwCall
  | read (fd : Int) (buf : Nat)
  | write (fd : Int) (buf : Nat)
  | recv (fd : Int) (buf flags : Nat)
  | send (fd : Int) (buf flags : Nat)
  deriving DecidableEq, Repr

/-- What a call comes to: the bytes transferred, or the errno. -/
inductive Outcome
  | done (k : Nat)
  | failed (errno : Nat)
  deriving DecidableEq, Repr

/-- A call's result and, where it sets it, errno. -/
abbrev CallResult := Int × Option Int

/-- What the plain call returns. -/
def Outcome.plain : Outcome → CallResult
  | .done k => (k, none)
  | .failed errno => (-1, some errno)

/-- What a ring operation completes with. -/
def Outcome.cqeRes : Outcome → Int
  | .done k => k
  | .failed errno => -errno

/-- The most bytes the system transfers in one call. -/
def maxRwCount : Nat := 0x7ffff000

/-- What the system's plain calls can come to, in the state their descriptor is in.  Requests are cut to
`maxRwCount`, and an errno is positive. -/
structure PlainCalls where
  comesTo : RwCall → Nat → Outcome → Prop
  clamp : ∀ c n o, comesTo c n o ↔ comesTo c (min n maxRwCount) o
  errno_pos : ∀ c n e, comesTo c n (.failed e) → 0 < e

/-- The results a plain call of `n` bytes could return. -/
def PlainCalls.Returns (K : PlainCalls) (c : RwCall) (n : Nat) (r : CallResult) : Prop :=
  ∃ o, K.comesTo c n o ∧ r = o.plain

/-! ### Calls through the ring -/

/-- The `_gt_try_*` call of `n` bytes. -/
def RwCall.ringCall (n : Nat) : RwCall → UringCall
  | .read fd buf => .read fd buf n
  | .write fd buf => .write fd buf n
  | .recv fd buf flags => .recv fd buf n flags
  | .send fd buf flags => .send fd buf n flags

/-- The plain call a ring entry stands for: a read or write at the file's own offset, a receive or send. -/
def UringSqe.rwCall (sqe : UringSqe) : Option RwCall :=
  match sqe.opcode with
  | .read => if sqe.off = 2 ^ 64 - 1 then some (.read sqe.fd sqe.addr) else none
  | .write => if sqe.off = 2 ^ 64 - 1 then some (.write sqe.fd sqe.addr) else none
  | .recv => some (.recv sqe.fd sqe.addr sqe.flags)
  | .send => some (.send sqe.fd sqe.addr sqe.flags)
  | _ => none

/-- The ring's operations complete as the plain calls of their length do. -/
def PlainCalls.Completes (K : PlainCalls) (complete : UringSqe → Int) : Prop :=
  ∀ sqe c, sqe.rwCall = some c → ∃ o, K.comesTo c sqe.len o ∧ complete sqe = o.cqeRes

/-- `_gt_io_finish`: the result, and errno where it is set. -/
def gtIoFinish (r : Int) : CallResult := if r < 0 then (-1, some (-r)) else (r, none)

/-- What a `_gt_try_*` of the task `self` delivers, or `none` where it leaves the call to the plain one: the end of
`_gt_io_wait` is a failed submission, or the completion of the entry that carries the task. -/
def gtTry (req : UringReq) (self : Nat) (io : UringIo) (complete : UringSqe → Int) : Option CallResult :=
  match uringSubmit req self io with
  | .declined => none
  | .refused _ errno => some (gtIoFinish (-errno))
  | .parked io _ => (io.inKernel.find? fun sqe => sqe.userData = some self).map fun sqe => gtIoFinish (complete sqe)

/-- A completion is delivered as the plain call returns. -/
private theorem gtIoFinish_cqeRes {o : Outcome} (h : ∀ e, o = .failed e → 0 < e) : gtIoFinish o.cqeRes = o.plain := by
  cases o with
  | done k =>
    rw [gtIoFinish, if_neg (by simp [Outcome.cqeRes])]
    rfl
  | failed e =>
    have := h e rfl
    rw [gtIoFinish, if_pos (by simp only [Outcome.cqeRes]; omega)]
    simp [Outcome.cqeRes, Outcome.plain]

/-- The entry a call fills in stands for the plain call of its length's last 32 bits. -/
private theorem rwCall_fill (c : RwCall) (n op self : Nat) (sqe : UringSqe)
    (h : sqe = { (c.ringCall n).fill { UringSqe.zero with op := op } with userData := some self }) :
    sqe.rwCall = some c ∧ sqe.len = n % 2 ^ 32 := by
  subst h
  cases c <;> exact ⟨rfl, rfl⟩

/-- A submission that the ring takes: it fails, or the kernel has the entry, behind those it had. -/
private theorem uringSubmit_entry {io : UringIo} {req : UringReq} {t : Nat} (h : RingsOk io)
    (ht : uringSubmit req t io ≠ .declined) :
    match req.enter with
    | some errno => ∃ io', uringSubmit req t io = .refused io' errno
    | none => ∃ io', uringSubmit req t io = .parked io' io.ops ∧ io'.inKernel = io.inKernel ++
        [{ req.call.fill { UringSqe.zero with op := io.ops } with userData := some t }] := by
  obtain ⟨-, ⟨b, hb, hmask, hentries⟩, -, hsub, -⟩ := h
  have hcount : ringCount io.sqTail io.sqHead = 0 := by rw [hsub]; exact RingBuffer.count_self 32 io.sqTail
  have hfree : ¬ringCount io.sqTail io.sqHead ≥ io.sqEntries := by
    rw [hcount, hentries]
    have := Nat.two_pow_pos b
    omega
  have hnext : io.sqTail ≠ incr 32 io.sqTail := by unfold incr; omega
  have hop : (req.call.fill { UringSqe.zero with op := io.ops }).op = io.ops := by cases req.call <;> rfl
  unfold uringSubmit gtSqe at ht ⊢
  rw [if_neg hfree] at ht ⊢
  split at ht
  · exact absurd rfl ht
  · rename_i hdecl
    rw [if_neg hdecl]
    dsimp only
    cases req.enter with
    | some errno => exact ⟨_, rfl⟩
    | none =>
      simp only [Function.update_self, hop]
      refine ⟨_, rfl, ?_⟩
      rw [uringSubmitOne, if_neg (by rw [hsub]; exact hnext)]
      simp only [hsub, Function.update_self]

variable {s : Machine UringIo} {c : RwCall} {n : Nat} {req : UringReq} {complete : UringSqe → Int}

/-- What a call delivers that the ring takes: a failed submission's errno, or the completion of an entry that stands
for the plain call of its length's last 32 bits. -/
private theorem gtTry_eq (h : Reachable s) (hboth : NeverBoth s.rt.log) (hacc : AllAccepted s.rt.log)
    (hc : s.ctl = .code) (hok : s.rt.io.ok = true) (hreq : req.call = c.ringCall n)
    (htakes : uringSubmit req s.rt.current s.rt.io ≠ .declined) : match req.enter with
    | some errno => gtTry req s.rt.current s.rt.io complete = some (gtIoFinish (-errno))
    | none => ∃ sqe, sqe.rwCall = some c ∧ sqe.len = n % 2 ^ 32 ∧
        gtTry req s.rt.current s.rt.io complete = some (gtIoFinish (complete sqe)) := by
  obtain ⟨v, hv⟩ : ∃ v, Live s v := (h.inv hboth hacc).resolve_right fun hx => by rw [hc] at hx; cases hx.1
  obtain ⟨hr, -⟩ := hv.at_code hc
  obtain ⟨hm, hs, -⟩ := hv
  have hrings : RingsOk s.rt.io := hm.counts.io_ok.resolve_left fun hz => by rw [hz] at hok; cases hok
  -- the task that runs has nothing pending
  have hmine : ∀ sqe ∈ s.rt.io.inKernel, sqe.userData ≠ some s.rt.current := by
    intro sqe hsqe hud
    have hmem : sqe.key ∈ uringPending s.rt.io := List.mem_append_left _ (List.mem_map_of_mem hsqe)
    have hp := hm.counts.pending
    rw [hs.taken, List.nil_append] at hp
    have hwait := (hm.ok.waiting_iff sqe.key.1 sqe.key.2).1 (hp.subset hmem)
    rw [show sqe.key.1 = s.rt.current by simp [UringSqe.key, hud], hr.role] at hwait
    cases hwait
  have hentry := uringSubmit_entry hrings htakes
  cases henter : req.enter with
  | some errno =>
    rw [henter] at hentry
    obtain ⟨io', heq⟩ := hentry
    simp only [gtTry, heq]
  | none =>
    rw [henter] at hentry
    obtain ⟨io', heq, hkernel⟩ := hentry
    rw [hreq] at hkernel
    obtain ⟨hcall, hlen⟩ := rwCall_fill c n s.rt.io.ops s.rt.current _ rfl
    refine ⟨_, hcall, hlen, ?_⟩
    have hnone : s.rt.io.inKernel.find? (fun sqe => sqe.userData = some s.rt.current) = none :=
      List.find?_eq_none.2 fun sqe hsqe => by simpa using hmine sqe hsqe
    simp [gtTry, heq, hkernel, List.find?_append, hnone]

/-! ### The comparison -/

/-- Plain calls on a descriptor that never runs out: as much as can be is transferred. -/
def PlainCalls.plenty : PlainCalls where
  comesTo _ n o := o = .done (min n maxRwCount)
  clamp c n o := by rw [Nat.min_assoc, Nat.min_self]
  errno_pos _ _ _ h := nomatch h

private theorem PlainCalls.plenty_completes : plenty.Completes fun sqe => (min sqe.len maxRwCount : Nat) :=
  fun _ _ _ => ⟨_, rfl, rfl⟩

/-- A call that the ring takes delivers what the plain call of the same length could have returned, whatever the plain
calls on its descriptor come to, if and only if its submission is accepted and its length fits the entry, or what is
left of it is still more than one call transfers. -/
theorem try_plain_iff (h : Reachable s) (hboth : NeverBoth s.rt.log) (hacc : AllAccepted s.rt.log)
    (hc : s.ctl = .code) (hok : s.rt.io.ok = true) (hreq : req.call = c.ringCall n)
    (htakes : uringSubmit req s.rt.current s.rt.io ≠ .declined) (herrno : ∀ e, req.enter = some e → 0 < e) :
    (∀ (K : PlainCalls) (complete : UringSqe → Int), K.Completes complete →
      ∃ r, gtTry req s.rt.current s.rt.io complete = some r ∧ K.Returns c n r) ↔
    req.enter = none ∧ (n < 2 ^ 32 ∨ maxRwCount ≤ n % 2 ^ 32) := by
  have heq (complete : UringSqe → Int) := @gtTry_eq s c n req complete h hboth hacc hc hok hreq htakes
  cases henter : req.enter with
  | some errno =>
    have herrno := herrno errno henter
    refine ⟨fun hall => ?_, fun hno => nomatch hno.1⟩
    obtain ⟨r, hr, o, ho, hro⟩ := hall .plenty _ PlainCalls.plenty_completes
    have heq := heq fun sqe => (min sqe.len maxRwCount : Nat)
    rw [henter] at heq
    rw [heq] at hr
    cases ho
    cases hr
    rw [gtIoFinish, if_pos (by omega)] at hro
    cases hro
  | none =>
    simp only [true_and]
    have hcut : n % 2 ^ 32 ≤ n := Nat.mod_le _ _
    constructor
    · intro hall
      obtain ⟨r, hr, o, ho, hro⟩ := hall .plenty _ PlainCalls.plenty_completes
      have heq := heq fun sqe => (min sqe.len maxRwCount : Nat)
      rw [henter] at heq
      obtain ⟨sqe, -, hlen, hres⟩ := heq
      rw [hres, hlen] at hr
      cases ho
      cases hr
      rw [gtIoFinish, if_neg (by omega)] at hro
      simp only [Outcome.plain, Prod.mk.injEq, and_true] at hro
      unfold maxRwCount at hro ⊢
      omega
    · intro hfits K complete hK
      have heq := heq complete
      rw [henter] at heq
      obtain ⟨sqe, hcall, hlen, hres⟩ := heq
      obtain ⟨o, ho, hcomplete⟩ := hK sqe c hcall
      refine ⟨_, hres, o, ?_, ?_⟩
      · rw [hlen, K.clamp] at ho
        rw [K.clamp]
        have hmin : min (n % 2 ^ 32) maxRwCount = min n maxRwCount := by
          unfold maxRwCount at hfits ⊢
          omega
        rwa [hmin] at ho
      · rw [hcomplete]
        exact gtIoFinish_cqeRes fun e he => by subst he; exact K.errno_pos _ _ _ ho

theorem try_plain_iff_read :
    (∀ (K : PlainCalls) (complete : UringSqe → Int), K.Completes complete →
      ∃ r, gtTry ⟨.read 0 512 4096, false, none⟩ 0 (UringIo.setup 3 4 7 9) complete = some r ∧
        K.Returns (.read 0 512) 4096 r) ↔
    (none : Option Int) = none ∧ (4096 < 2 ^ 32 ∨ maxRwCount ≤ 4096 % 2 ^ 32) := by
  have hstarted : IoBackend.Started (UringIo.setup 3 4 7 9) :=
    .inr ⟨3, 4, 7, 9, by decide, by decide, by decide, by decide, rfl⟩
  have hlog : (gtInit (UringIo.setup 3 4 7 9) 4096 false).rt.log = [.started 0, .spawned 0, .alloc 0] := rfl
  exact @try_plain_iff (gtInit (UringIo.setup 3 4 7 9) 4096 false) (.read 0 512) 4096
    ⟨.read 0 512 4096, false, none⟩ ⟨_, 4096, false, hstarted, .refl _⟩ (.of_not_detached fun t => by simp [hlog])
    (fun t => by simp [hlog]) rfl rfl rfl nofun nofun

/-- A read of `2 ^ 32` bytes from a descriptor that has them is delivered as the end of the file. -/
theorem ring_read_cut :
    ¬∀ (s : Machine UringIo) (c : RwCall) (n : Nat) (req : UringReq), Reachable s → s.ctl = .code →
    req.call = c.ringCall n → n < 2 ^ 64 → req.enter = none →
    ∀ (K : PlainCalls) (complete : UringSqe → Int), K.Completes complete →
      ∀ r, gtTry req s.rt.current s.rt.io complete = some r → K.Returns c n r := by
  intro hall
  have hstarted : IoBackend.Started (UringIo.setup 3 4 7 9) :=
    .inr ⟨3, 4, 7, 9, by decide, by decide, by decide, by decide, rfl⟩
  obtain ⟨o, ho, hr⟩ := hall (gtInit (UringIo.setup 3 4 7 9) 4096 false) (.read 0 512) (2 ^ 32)
    ⟨.read 0 512 (2 ^ 32), false, none⟩ ⟨_, 4096, false, hstarted, .refl _⟩ rfl rfl (by decide) rfl .plenty _
    PlainCalls.plenty_completes (0, none) rfl
  cases ho
  simp [Outcome.plain, maxRwCount] at hr

end Sppc
