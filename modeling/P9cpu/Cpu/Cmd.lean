import Mathlib.Data.Int.Notation
import Mathlib.Data.Nat.Notation

/-! The command a client asks for, and the fstab entry that the server fills in. -/
namespace P9cpu.Cpu

def NINEP_MOUNT : String := "mnt9p"

structure FsTab where
  spec : String
  file : String
  vfstype : String
  mntops : String
  freq : Int32
  passno : Int32
deriving DecidableEq

structure EnvVar where
  key : List UInt8
  val : List UInt8
deriving DecidableEq

structure Cmd where
  program : String
  args : List String
  envs : List EnvVar
  fstab : List FsTab
  ninep : Bool
  tty : Bool
  tmpMnt : String
  uid : UInt32
  gid : UInt32
deriving DecidableEq

/-- The loop in `Server::start`: the first 9p entry for the mount point gets the port. -/
def fillNinep (tmpMnt : String) (ninepPort : UInt16) : List FsTab → List FsTab
  | [] => []
  | tab :: fstab =>
    if tab.vfstype = "9p" ∧ tab.file = tmpMnt ++ "/" ++ NINEP_MOUNT then
      { tab with
        spec := "127.0.0.1"
        mntops := "version=9p2000.L,trans=tcp,port=" ++ toString ninepPort } :: fstab
    else tab :: fillNinep tmpMnt ninepPort fstab

end P9cpu.Cpu
