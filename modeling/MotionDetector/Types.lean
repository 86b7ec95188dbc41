import Mathlib.Data.Int.Notation
import Mathlib.Data.Nat.Notation

/-!
# Common types (`utils/types`, `middleware/events`)
-/

namespace MotionDetector

/-- `sys_result_e`; `SYS_COUNT` only counts the others. -/
inductive SysResult where
  | success
  | failure
  | ignore
  deriving DecidableEq, Repr

def SysResult.code : SysResult → ℤ
  | .success => 0
  | .failure => 1
  | .ignore => 2

/-- `IS_ERROR(x)`: only a negative code is a failure. -/
def isError (x : ℤ) : SysResult := if x < 0 then .failure else .success

/- Neither an error number nor a `sys_result_e` is an error to `IS_ERROR`. -/
@[simp] theorem isError_natCast (n : ℕ) : isError n = .success := by
  simp [isError]

@[simp] theorem isError_code (r : SysResult) : isError r.code = .success := by
  cases r <;> rfl

inductive Event where
  | none
  | motionDetected
  | motionLost
  deriving DecidableEq, Repr

end MotionDetector
