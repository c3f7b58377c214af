import P9cpu.Core.Incoming
import P9cpu.Cpu.Cmd
import P9cpu.Cpu.Namespace
import P9cpu.Ninep.Path

/-! The launched process: it gets its command over TCP from the server and becomes it. -/
namespace P9cpu.Cpu.Launcher
open Core
open Ninep (Errno IoError PathBuf strBytes)

def LOCAL_ROOT_MOUNT : String := "local"

def isizeMax : ℕ := 2 ^ 63 - 1

/-- The generated code for `cmd::Cmd`: what it encodes it decodes. Vectors and slices have at most
`isize::MAX` bytes. -/
structure Prost where
  DecodeError : Type
  /-- `none` for a message that is too long for a vector -/
  encodeToVec : Cmd → Option (List UInt8)
  decode : List UInt8 → Except DecodeError Cmd
  decode_encodeToVec : ∀ cmd bs, encodeToVec cmd = some bs → decode bs = .ok cmd
  length_of_decode : ∀ bs cmd, decode bs = .ok cmd → bs.length ≤ isizeMax

/-- What `Server::start` sends over its connection before it shuts that down. -/
def Prost.sent (prost : Prost) (cmd : Cmd) : Option (List UInt8) :=
  (prost.encodeToVec cmd).map fun buf => leBytes 8 buf.length ++ buf

structure MsFlags where
  bits : UInt64
deriving DecidableEq

namespace MsFlags

def empty : MsFlags := ⟨0⟩
def MS_BIND : MsFlags := ⟨0x1000⟩
def MS_REC : MsFlags := ⟨0x4000⟩
def MS_PRIVATE : MsFlags := ⟨0x40000⟩

def union (a b : MsFlags) : MsFlags := ⟨a.bits ||| b.bits⟩

end MsFlags

/-- What the process asks the system for, but for the reads of its socket. -/
inductive SysCall
  /-- `unshare(CLONE_NEWNS)` -/
  | unshare
  | connect (port : UInt16)
  | shutdown
  | mount (source : Option String) (target : PathBuf) (fstype : Option String) (flags : MsFlags)
      (data : Option String)
  | createDirAll (path : PathBuf)
  | setVar (key val : List UInt8)
  | setsid
  | setControllingTerminal
  | setgid (gid : UInt32)
  | setuid (uid : UInt32)
  | execvp (filename : List UInt8) (args : List (List UInt8))
deriving DecidableEq

/-- The errors of `nix` are errnos, those of the standard library are not. -/
abbrev SysCall.Error : SysCall → Type
  | .connect _ | .shutdown | .createDirAll _ | .setVar .. => IoError
  | _ => Errno

/-- It touches the mounts, the environment or the identity of the process. -/
def SysCall.Changes : SysCall → Prop
  | .unshare | .connect _ | .shutdown => False
  | _ => True

/-- The system answers a call in view of all the calls before it. -/
abbrev Sys := List SysCall → (c : SysCall) → Except c.Error Unit

/-- `launcher::Error` -/
inductive Error (ε : Type)
  | unshare (flag : String) (err : Errno)
  | mountRoot (e : Errno)
  | mountTmp (e : Errno)
  | mountLocal (e : Errno)
  | createDir (e : IoError)
  | unexpectedBytes
  | shutdownSocket (e : IoError)
  | convertCString (bytes : List UInt8)
  | exec (e : Errno)
  | connectToPort (e : IoError)
  | readUds (e : IoError)
  | protoDecode (e : ε)
  | setSid (e : Errno)
  | setControllingTerminal (e : Errno)
  | setUid (e : Errno)
  | setGid (e : Errno)

inductive Failure (ε : Type)
  | error (e : Error ε)
  | panic

/-- The calls so far are the state. -/
abbrev Launching (ε α : Type) := ExceptT (Failure ε) (StateM (List SysCall)) α

section
variable (sys : Sys) {ε : Type}

/-- A call whose error is returned. -/
def call (c : SysCall) (err : c.Error → Error ε) : Launching ε Unit :=
  ExceptT.mk fun log => (match sys log c with
    | .ok _ => .ok ()
    | .error e => .error (.error (err e)), log ++ [c])

/-- A call whose error is a warning in the log. -/
def warnCall (c : SysCall) : Launching ε Unit := ExceptT.mk fun log => (.ok (), log ++ [c])

/-- A call that panics when it fails. -/
def panicCall (c : SysCall) : Launching ε Unit :=
  ExceptT.mk fun log => (match sys log c with
    | .ok _ => .ok ()
    | .error _ => .error .panic, log ++ [c])

def liftExcept {α : Type} (r : Except (Failure ε) α) : Launching ε α := ExceptT.mk (pure r)

/-- The loop in `parse_fstab_opt`. -/
def parseFstabOpts : List String → MsFlags → List String → MsFlags × List String
  | [], flag, opts => (flag, opts)
  | f :: fs, flag, opts =>
    if f = "defaults" then parseFstabOpts fs flag opts
    else if f = "bind" then parseFstabOpts fs (flag.union .MS_BIND) opts
    else parseFstabOpts fs flag (opts ++ [f])

def parseFstabOpt (opt : String) : MsFlags × String :=
  let (flag, opts) := parseFstabOpts (split opt ',') .empty []
  (flag, ",".intercalate opts)

def getPtr (s : String) : Option String := if s.isEmpty then none else some s

/-- `CString::new` fails on a byte 0. -/
def newCString (s : String) : Launching ε (List UInt8) :=
  if 0 ∈ strBytes s then throw (.error (.convertCString (strBytes s))) else return strBytes s

def mountTab (tab : FsTab) : Launching ε Unit := do
  let (flags, data) := parseFstabOpt tab.mntops
  call sys (.createDirAll (.ofString tab.file)) .createDir
  warnCall (.mount (getPtr tab.spec) (.ofString tab.file) (getPtr tab.vfstype) flags (getPtr data))

/-- `std::env::set_var` panics for a key that is empty or contains `=`, and for a byte 0. -/
def setVar (env : EnvVar) : Launching ε Unit :=
  if env.key = [] ∨ 0x3d ∈ env.key ∨ 0 ∈ env.key ∨ 0 ∈ env.val then throw .panic
  else panicCall sys (.setVar env.key env.val)

/-- The first call of the mount phase. -/
def mountRoot : SysCall := .mount none (.ofString "/") none (.union .MS_REC .MS_PRIVATE) none

/-- `connect`, from the mount phase on. It returns when the command cannot be executed. -/
def mountPhase (cmd : Cmd) : Launching ε Unit := do
  call sys mountRoot .mountRoot
  let tmpMnt := PathBuf.ofString cmd.tmpMnt
  call sys (.createDirAll tmpMnt) .createDir
  call sys (.mount (some "p9cpu") tmpMnt (some "tmpfs") .empty none) .mountTmp
  let localMount := tmpMnt.join LOCAL_ROOT_MOUNT
  call sys (.createDirAll localMount) .createDir
  call sys (.mount (some "/") localMount none .MS_BIND none) .mountLocal
  cmd.fstab.forM (mountTab sys)
  cmd.envs.forM (setVar sys)
  let arg0 ← newCString cmd.program
  let args ← cmd.args.mapM newCString
  if cmd.tty then
    call sys .setsid .setSid
    call sys .setControllingTerminal .setControllingTerminal
  call sys (.setgid cmd.gid) .setGid
  call sys (.setuid cmd.uid) .setUid
  call sys (.execvp arg0 (arg0 :: args)) .exec

/-- What `read_exact` fails with at the end of the stream. -/
def unexpectedEof : IoError := .custom .unexpectedEof "failed to fill whole buffer"

/-- The command that `connect` reads from its socket: its length in eight bytes, the command, and
nothing behind it. -/
def readCmd (prost : Prost) (stream : Incoming IoError) :
    Except (Failure prost.DecodeError) Cmd := do
  let (buf, stream) := stream.readExact unexpectedEof 8
  let length := leVal (← buf.mapError (.error ∘ .readUds))
  -- `vec![0; length]`
  if isizeMax < length then throw .panic
  let (buf, stream) := stream.readExact unexpectedEof length
  let buf ← buf.mapError (.error ∘ .readUds)
  let cmd ← (prost.decode buf).mapError (.error ∘ .protoDecode)
  match (stream.read 1).1 with
  | .ok [] => return cmd
  | _ => throw (.error .unexpectedBytes)

/-- `connect`, up to the shutdown of its socket. -/
def receiveCmd (prost : Prost) (port : UInt16) (stream : Incoming IoError) :
    Launching prost.DecodeError Cmd := do
  call sys .unshare (.unshare "CLONE_NEWNS")
  call sys (.connect port) .connectToPort
  let cmd ← liftExcept (readCmd prost stream)
  call sys .shutdown .shutdownSocket
  return cmd

def connect (prost : Prost) (port : UInt16) (stream : Incoming IoError) :
    Launching prost.DecodeError Unit := do
  mountPhase sys (← receiveCmd sys prost port stream)

end

/-! What the stream has to be. -/

/-- Eight bytes with the length of what follows, which decodes as `cmd`. -/
def Carries (prost : Prost) (bytes : List UInt8) (cmd : Cmd) : Prop :=
  ∃ n bs, n < 2 ^ 64 ∧ bs.length = n ∧ bytes = leBytes 8 n ++ bs ∧ prost.decode bs = .ok cmd

section
variable {prost : Prost} {stream : Incoming IoError} {cmd : Cmd}

theorem carries_of_sent {bytes : List UInt8} (h : prost.sent cmd = some bytes) :
    Carries prost bytes cmd := by
  obtain ⟨bs, hencode, rfl⟩ := Option.map_eq_some_iff.mp h
  have hdecode := prost.decode_encodeToVec cmd bs hencode
  have hlen := prost.length_of_decode bs cmd hdecode
  unfold isizeMax at hlen
  exact ⟨bs.length, bs, by omega, rfl, rfl, hdecode⟩

/-- Where there are enough bytes, they are the whole stream and decode. -/
theorem readCmd_of_le (h : 8 ≤ stream.bytes.length) {n : ℕ}
    (hn : leVal (stream.bytes.take 8) = n) (hmax : n ≤ isizeMax)
    (hbody : n ≤ (stream.bytes.drop 8).length) :
    readCmd prost stream = .ok cmd ↔ prost.decode ((stream.bytes.drop 8).take n) = .ok cmd ∧
      (stream.bytes.drop 8).drop n = [] ∧ stream.error = none := by
  obtain ⟨t, hread, hbytes, herror⟩ := Incoming.readExact_of_le unexpectedEof h
  rw [← hbytes] at hbody ⊢
  obtain ⟨u, hread', hbytes', herror'⟩ := Incoming.readExact_of_le unexpectedEof hbody
  have hend := Incoming.read_eq_ok_nil_iff Nat.one_ne_zero u
  rw [← hbytes', ← herror, ← herror', ← hend]
  have hpanic : ¬ isizeMax < n := Nat.not_lt.mpr hmax
  simp only [readCmd, hread, Except.mapError, bind, Except.bind, hn, hpanic, if_false, hread']
  cases hdecode : prost.decode (t.bytes.take n) with
  | error e => simp
  | ok cmd' =>
    rcases hlast : (u.read 1).1 with e | _ | ⟨b, bs⟩
    · simp
    · simp [pure, Except.pure]
    · simp

/-- A length that is not there, that no vector has or that is more than there is stops the
process. -/
theorem readCmd_of_short (h : stream.bytes.length < 8 ∨ isizeMax < leVal (stream.bytes.take 8) ∨
    (stream.bytes.drop 8).length < leVal (stream.bytes.take 8)) :
    readCmd prost stream ≠ .ok cmd := by
  by_cases h8 : stream.bytes.length < 8
  · obtain ⟨e, t, hread⟩ := Incoming.readExact_of_lt unexpectedEof h8
    simp [readCmd, hread, Except.mapError, bind, Except.bind]
  · obtain ⟨t, hread, hbytes, -⟩ := Incoming.readExact_of_le unexpectedEof (Nat.not_lt.mp h8)
    rw [← hbytes] at h
    by_cases hmax : isizeMax < leVal (stream.bytes.take 8)
    · simp [readCmd, hread, Except.mapError, bind, Except.bind, hmax]
    · have hlt : t.bytes.length < leVal (stream.bytes.take 8) := by
        rcases h with h | h | h
        · exact absurd h h8
        · exact absurd h hmax
        · exact h
      obtain ⟨e, u, hread'⟩ := Incoming.readExact_of_lt unexpectedEof hlt
      simp [readCmd, hread, Except.mapError, bind, Except.bind, hmax, hread']

theorem readCmd_eq_ok_iff : readCmd prost stream = .ok cmd ↔
    stream.error = none ∧ Carries prost stream.bytes cmd := by
  constructor
  · intro hok
    have hshort : ¬ (stream.bytes.length < 8 ∨ isizeMax < leVal (stream.bytes.take 8) ∨
        (stream.bytes.drop 8).length < leVal (stream.bytes.take 8)) :=
      fun h => readCmd_of_short h hok
    simp only [not_or, not_lt] at hshort
    obtain ⟨h8, hmax, hbody⟩ := hshort
    obtain ⟨hdecode, hnil, herror⟩ := (readCmd_of_le h8 rfl hmax hbody).mp hok
    have hall : (stream.bytes.drop 8).take (leVal (stream.bytes.take 8)) =
        stream.bytes.drop 8 := by
      have happend := List.take_append_drop (leVal (stream.bytes.take 8)) (stream.bytes.drop 8)
      rwa [hnil, List.append_nil] at happend
    have hlen8 : (stream.bytes.take 8).length = 8 := List.length_take_of_le h8
    have hlt := leVal_lt (stream.bytes.take 8)
    have hle := leBytes_leVal (stream.bytes.take 8)
    rw [hlen8] at hlt hle
    rw [hall] at hdecode
    refine ⟨herror, leVal (stream.bytes.take 8), stream.bytes.drop 8, hlt, ?_, ?_, hdecode⟩
    · rw [← hall, List.length_take_of_le hbody]
    · rw [hle, List.take_append_drop]
  · rintro ⟨herror, n, bs, hlt, hlen, hbytes, hdecode⟩
    have hhead : stream.bytes.take 8 = leBytes 8 n := by
      rw [hbytes]
      exact List.take_left' (length_leBytes 8 n)
    have hbody : stream.bytes.drop 8 = bs := by
      rw [hbytes]
      exact List.drop_left' (length_leBytes 8 n)
    have h8 : 8 ≤ stream.bytes.length := by
      rw [hbytes, List.length_append, length_leBytes]
      exact Nat.le_add_right 8 _
    have hval : leVal (stream.bytes.take 8) = n := by rw [hhead, leVal_leBytes_of_lt hlt]
    have hmax : n ≤ isizeMax := hlen ▸ prost.length_of_decode bs cmd hdecode
    refine (readCmd_of_le h8 hval hmax (by rw [hbody, hlen])).mpr ⟨?_, ?_, herror⟩
    · rw [hbody, List.take_of_length_le (Nat.le_of_eq hlen)]
      exact hdecode
    · rw [hbody]
      exact List.drop_of_length_le (Nat.le_of_eq hlen)

end

/-! What the process does. -/

/-- How `m` ends after the calls `log`, and the calls made by then. -/
def exec {ε α : Type} (m : Launching ε α) (log : List SysCall) :
    Except (Failure ε) α × List SysCall := m log

section
variable {ε α β : Type} (sys : Sys) {log : List SysCall}

theorem exec_bind (m : Launching ε α) (f : α → Launching ε β) (log : List SysCall) :
    exec (m >>= f) log = match exec m log with
      | (.ok a, log) => exec (f a) log
      | (.error e, log) => (.error e, log) := by
  change (ExceptT.bindCont f (m log).1) (m log).2 = match m log with
    | (.ok a, log) => f a log
    | (.error e, log) => (.error e, log)
  rcases m log with ⟨_ | _, log'⟩ <;> rfl

theorem exec_call_ok {c : SysCall} {err : c.Error → Error ε} (h : sys log c = .ok ())
    (f : Unit → Launching ε α) :
    exec (call sys c err >>= f) log = exec (f ()) (log ++ [c]) := by
  have hcall : exec (call sys c err) log = (.ok (), log ++ [c]) := by
    simp only [exec, call, ExceptT.mk, h]
  rw [exec_bind, hcall]

theorem exec_call_error {c : SysCall} {err : c.Error → Error ε} {e : c.Error}
    (h : sys log c = .error e) (f : Unit → Launching ε α) :
    exec (call sys c err >>= f) log = (.error (.error (err e)), log ++ [c]) := by
  have hcall : exec (call sys c err) log = (.error (.error (err e)), log ++ [c]) := by
    simp only [exec, call, ExceptT.mk, h]
  rw [exec_bind, hcall]

/-- Calls are never taken back. -/
def Grows (m : Launching ε α) : Prop := ∀ log, log <+: (exec m log).2

theorem Grows.bind {m : Launching ε α} {f : α → Launching ε β} (hm : Grows m)
    (hf : ∀ a, Grows (f a)) : Grows (m >>= f) := by
  intro log
  have hfirst := hm log
  rw [exec_bind]
  rcases hm' : exec m log with ⟨e | a, log'⟩ <;> rw [hm'] at hfirst
  · exact hfirst
  · exact hfirst.trans (hf a log')

theorem grows_pure (a : α) : Grows (pure a : Launching ε α) := fun log => List.prefix_refl log

theorem grows_throw (e : Failure ε) : Grows (throw e : Launching ε α) :=
  fun log => List.prefix_refl log

theorem grows_call (c : SysCall) (err : c.Error → Error ε) : Grows (call sys c err) :=
  fun _ => List.prefix_append _ _

theorem grows_forM {f : α → Launching ε Unit} (hf : ∀ a, Grows (f a)) (as : List α) :
    Grows (as.forM f) := by
  induction as with
  | nil => exact grows_pure ()
  | cons a as ih => exact (hf a).bind fun _ => ih

theorem grows_newCString (s : String) : Grows (newCString s : Launching ε _) := by
  unfold newCString
  split_ifs
  · exact grows_throw _
  · exact grows_pure _

theorem grows_mountTab (tab : FsTab) : Grows (mountTab sys tab : Launching ε Unit) :=
  (grows_call sys _ _).bind fun _ _ => List.prefix_append _ _

theorem grows_setVar (env : EnvVar) : Grows (setVar sys env : Launching ε Unit) := by
  unfold setVar
  split_ifs
  · exact grows_throw _
  · exact fun _ => List.prefix_append _ _

theorem grows_mapM {f : α → Launching ε β} (hf : ∀ a, Grows (f a)) (as : List α) :
    Grows (as.mapM f) := by
  rw [← List.mapM'_eq_mapM]
  induction as with
  | nil => exact grows_pure _
  | cons a as ih => exact (hf a).bind fun b => ih.bind fun bs => grows_pure _

theorem prefix_call_bind (c : SysCall) (err : c.Error → Error ε) {f : Unit → Launching ε α}
    (hf : ∀ a, Grows (f a)) (log : List SysCall) :
    log ++ [c] <+: (exec (call sys c err >>= f) log).2 := by
  cases hc : sys log c with
  | error e =>
    rewrite [exec_call_error sys hc]
    exact List.prefix_rfl
  | ok =>
    rw [exec_call_ok sys hc]
    exact hf () _

/-- The mount phase starts with the mount of the root. -/
theorem log_mountPhase (cmd : Cmd) (log : List SysCall) :
    log ++ [mountRoot] <+: (exec (mountPhase sys cmd : Launching ε Unit) log).2 := by
  refine prefix_call_bind sys mountRoot _ (fun _ => ?_) log
  refine (grows_call sys _ _).bind fun _ => (grows_call sys _ _).bind fun _ => ?_
  refine (grows_call sys _ _).bind fun _ => (grows_call sys _ _).bind fun _ => ?_
  refine (grows_forM (grows_mountTab sys) _).bind fun _ => ?_
  refine (grows_forM (grows_setVar sys) _).bind fun _ => ?_
  refine (grows_newCString _).bind fun arg0 => (grows_mapM grows_newCString _).bind fun args => ?_
  have hend : Grows (do
      call sys (.setgid cmd.gid) .setGid
      call sys (.setuid cmd.uid) .setUid
      call sys (.execvp arg0 (arg0 :: args)) .exec : Launching ε Unit) :=
    (grows_call sys _ _).bind fun _ => (grows_call sys _ _).bind fun _ => grows_call sys _ _
  dsimp only
  split_ifs
  · exact (grows_call sys _ _).bind fun _ => (grows_call sys _ _).bind fun _ => hend
  · exact hend

end

/-- The calls of a process that has got its command. -/
def receiving (port : UInt16) : List SysCall := [.unshare, .connect port, .shutdown]

/-- The calls that receive a command succeed. -/
structure Connects (sys : Sys) (port : UInt16) : Prop where
  unshare : sys [] .unshare = .ok ()
  connect : sys [.unshare] (.connect port) = .ok ()
  shutdown : sys [.unshare, .connect port] .shutdown = .ok ()

section
variable {sys : Sys} {prost : Prost} {port : UInt16} {stream : Incoming IoError} {cmd : Cmd}

theorem receiveCmd_ok (hsys : Connects sys port) (hcmd : readCmd prost stream = .ok cmd) :
    exec (receiveCmd sys prost port stream) [] = (.ok cmd, receiving port) := by
  unfold receiveCmd
  rw [exec_call_ok sys hsys.unshare, List.nil_append, exec_call_ok sys hsys.connect, exec_bind,
    hcmd]
  exact exec_call_ok sys hsys.shutdown _

/-- A process that gets no command fails on the way. -/
theorem receiveCmd_error (h : ¬ (Connects sys port ∧ ∃ cmd, readCmd prost stream = .ok cmd)) :
    ∃ e log, exec (receiveCmd sys prost port stream) [] = (.error e, log) ∧
      log <+: receiving port := by
  unfold receiveCmd
  cases hunshare : sys [] .unshare with
  | error e =>
    rw [exec_call_error sys hunshare]
    exact ⟨_, _, rfl, [.connect port, .shutdown], rfl⟩
  | ok =>
    rw [exec_call_ok sys hunshare, List.nil_append]
    cases hconnect : sys [.unshare] (.connect port) with
    | error e =>
      rw [exec_call_error sys hconnect]
      exact ⟨_, _, rfl, [.shutdown], rfl⟩
    | ok =>
      rw [exec_call_ok sys hconnect, exec_bind]
      cases hcmd : readCmd prost stream with
      | error e => exact ⟨_, _, rfl, [.shutdown], rfl⟩
      | ok cmd =>
        cases hshutdown : sys [.unshare, .connect port] .shutdown with
        | error e => exact ⟨_, _, exec_call_error sys hshutdown _, [], rfl⟩
        | ok => exact absurd ⟨⟨hunshare, hconnect, hshutdown⟩, cmd, hcmd⟩ h

theorem not_changes_receiving {c : SysCall} (h : c ∈ receiving port) : ¬ c.Changes := by
  have hcases : c = .unshare ∨ c = .connect port ∨ c = .shutdown := by simpa [receiving] using h
  rcases hcases with rfl | rfl | rfl <;> exact id

end

/-- What the server sends for a command carries it. From a stream that carries a command, in
whichever parts, `connect` goes on with just that one, as far as its calls succeed; from any other
it fails before it has changed a mount, the environment or who it is. -/
theorem connect_handover (sys : Sys) (prost : Prost) (port : UInt16) (stream : Incoming IoError) :
    (∀ cmd, prost.sent cmd = some stream.bytes → Carries prost stream.bytes cmd) ∧
    (∀ cmd, Connects sys port → stream.error = none → Carries prost stream.bytes cmd →
      exec (connect sys prost port stream) [] = exec (mountPhase sys cmd) (receiving port) ∧
      mountRoot ∈ (exec (connect sys prost port stream) []).2) ∧
    (¬ (Connects sys port ∧ stream.error = none ∧ ∃ cmd, Carries prost stream.bytes cmd) →
      (∃ e, (exec (connect sys prost port stream) []).1 = .error e) ∧
      ∀ c ∈ (exec (connect sys prost port stream) []).2, ¬ c.Changes) := by
  refine ⟨fun cmd hsent => carries_of_sent hsent, fun cmd hsys herror hcarries => ?_, fun h => ?_⟩
  · have hconnect : exec (connect sys prost port stream) [] =
        exec (mountPhase sys cmd) (receiving port) := by
      unfold connect
      rw [exec_bind, receiveCmd_ok hsys (readCmd_eq_ok_iff.mpr ⟨herror, hcarries⟩)]
    refine ⟨hconnect, ?_⟩
    rw [hconnect]
    exact (log_mountPhase sys cmd (receiving port)).subset (by simp)
  · obtain ⟨e, log, hexec, hlog⟩ : ∃ e log,
        exec (receiveCmd sys prost port stream) [] = (.error e, log) ∧ log <+: receiving port := by
      refine receiveCmd_error fun hgot => h ?_
      obtain ⟨hsys, cmd, hcmd⟩ := hgot
      obtain ⟨herror, hcarries⟩ := readCmd_eq_ok_iff.mp hcmd
      exact ⟨hsys, herror, cmd, hcarries⟩
    have hconnect : exec (connect sys prost port stream) [] = (.error e, log) := by
      unfold connect
      rw [exec_bind, hexec]
    rw [hconnect]
    exact ⟨⟨e, rfl⟩, fun c hc => not_changes_receiving (hlog.subset hc)⟩

def shortCmd : Cmd where
  program := "a"
  args := []
  envs := []
  fstab := []
  ninep := false
  tty := false
  tmpMnt := "/t"
  uid := 0
  gid := 0

/-- The fields 1 and 7; the others have their default values. -/
def shortBytes : List UInt8 := [0x0a, 1, 0x61, 0x3a, 2, 0x2f, 0x74]

/-- As much of the codec as `shortCmd` needs. -/
def shortProst : Prost where
  DecodeError := Unit
  encodeToVec cmd := if cmd = shortCmd then some shortBytes else none
  decode bs := if bs = shortBytes then .ok shortCmd else .error ()
  decode_encodeToVec cmd bs h := by
    split_ifs at h with hcmd
    cases h
    rw [if_pos rfl, hcmd]
  length_of_decode bs cmd h := by
    split_ifs at h with hbs
    rw [hbs]
    decide

def shortStream : Incoming IoError :=
  .part 7 [0, 0] (.part 0 [0, 0, 0, 0, 0x0a] (.part 1 [0x61, 0x3a, 2, 0x2f, 0x74] .done))

/-- The command comes in three parts. -/
theorem connect_handover_threeParts :
    exec (connect (fun _ _ => .ok ()) shortProst 80 shortStream) [] =
      exec (mountPhase (fun _ _ => .ok ()) shortCmd) (receiving 80) ∧
    mountRoot ∈ (exec (connect (fun _ _ => .ok ()) shortProst 80 shortStream) []).2 :=
  (connect_handover (fun _ _ => .ok ()) shortProst 80 shortStream).2.1 shortCmd ⟨rfl, rfl, rfl⟩ rfl
    ⟨7, shortBytes, by decide, rfl, rfl, rfl⟩

end P9cpu.Cpu.Launcher
