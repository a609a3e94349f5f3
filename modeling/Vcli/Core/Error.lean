import Vcli.Core.Basic

/-! The errors of the IPC contract. -/

namespace Vcli

namespace Ipc

inductive ErrorCode
  | invalidProgram
  | unknownProgram
  | badStateTransition
  | permissionDenied
  | captureFailed
  | daemonBusy
  | notResumable
  | resumePreconditionFailed
  | internal
deriving DecidableEq

structure ErrorPayload where
  code : ErrorCode
  message : String
  path : Option String := none
  line : Option Nat := none
  column : Option Nat := none
  spanLen : Option Nat := none
  hint : Option String := none
deriving DecidableEq

end Ipc

end Vcli
