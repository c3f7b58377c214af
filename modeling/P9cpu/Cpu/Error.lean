import P9cpu.Ninep.Error

/-! Errors of the cpu server. -/
namespace P9cpu.Cpu
open Ninep (IoError Errno)

/-- `server::Error`, without the variants that nothing in the server returns. -/
inductive Error
  | spawnFail (e : IoError)
  | sessionNotExist
  | ioErr (e : IoError)
  | duplicateId
  | noReturnCode
  | commandError (e : IoError)
  | openPtyFail (e : Errno)
  | fdCloneFail (e : IoError)
  | bindFail (e : IoError)
  | no9pPort
  | channelClosed
deriving DecidableEq, Repr

/-- The text that a client receives in `Status::internal`, less its io source. -/
def Error.message : Error → String
  | .spawnFail _ => "Failed to spawn"
  | .sessionNotExist => "Session does not exist"
  | .ioErr _ => "IO Error"
  | .duplicateId => "Duplicate session id"
  | .noReturnCode => "Command exited without return code."
  | .commandError _ => "Command error"
  | .openPtyFail _ => "Cannot open pty device"
  | .fdCloneFail _ => "Cannot clone file descriptor"
  | .bindFail _ => "Cannot bind listener"
  | .no9pPort => "9p forward not setup"
  | .channelClosed => "Channel closed"

end P9cpu.Cpu
