import Mathlib

/-! The exceptions a caller of a service can see. -/
namespace AsyncDataHub

inductive PyError
  | httpException (statusCode : ℕ) (detail : String)
  | valueError (message : String)
  | attributeError (message : String)
  | typeError (message : String)
  | notImplementedError (message : String)
  /-- Redis refuses a command. -/
  | responseError (message : String)
  /-- A statement failed in the database driver, or the call was cancelled. -/
  | aborted (message : String)
  deriving DecidableEq

end AsyncDataHub
