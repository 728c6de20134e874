import Sppc.Machine

/-!
# The stand-in without a backend (`async/blocking.h`)

Every `_gt_try_*` declines and nothing is ever outstanding.
-/

namespace Sppc

/-- `gt_io` where there is no backend. -/
inductive BlockingIo
  | unused
  deriving DecidableEq, Repr

instance : IoBackend BlockingIo where
  Req := Unit
  Env := Empty
  Started _ := True
  ready _ := false
  submit _ _ _ := .declined
  collect _ io := ([], io)
  kernel e _ := nomatch e
  teardown io := io

end Sppc
