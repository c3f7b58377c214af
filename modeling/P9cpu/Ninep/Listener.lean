import P9cpu.Core.Members
import P9cpu.Ninep.Guards
import P9cpu.Ninep.Intake

/-! The server of a listener: the connections that it accepts share the host and nothing else. -/
namespace P9cpu.Ninep
open Core

/-- A host that others call as well. -/
def SharedHost.among (h : SharedHost) : SharedHost where
  State := h.State
  Event := h.Event ⊕ HostOp
  exec := h.exec
  tick
    | .inl e, s => h.tick e s
    | .inr o, s => (h.exec o s).map Prod.snd

/-- The two halves of an accepted stream, on which nothing was sent yet. -/
structure Accepted (R : AsyncRead IoError) (A : AsyncWrite IoError) where
  readhalf : R.State
  writehalf : A.State
  unread : R.input readhalf = []
  unwritten : A.output writehalf = []

section
variable {h : SharedHost} {R : AsyncRead IoError} {A : AsyncWrite IoError} {realroot : PathBuf}

/-- `dispatch` of an accepted stream. -/
abbrev SharedHost.serve (h : SharedHost) (host : h.State) (io : Accepted R A) :
    Service h.world R A :=
  Service.start .new 0 ⟨fun _ => LockedFid.default, host⟩ io.readhalf io.writehalf

/-- What happens to the host only. -/
def SendLabel.OfHost : SendLabel h.world A → Bool
  | .conn (.world _) => true
  | _ => false

def ServiceLabel.OfHost : ServiceLabel h.world R A → Bool
  | .dispatch l => l.OfHost
  | _ => false

/-- A connection of the server, for which the other connections are callers of its host. -/
def connection (h : SharedHost) (R : AsyncRead IoError) (A : AsyncWrite IoError)
    (realroot : PathBuf) : Solo (Service h.among.world R A) h.State
      (ServiceLabel h.among.world R A) h.Event (Accepted R A) where
  part := {
    get := fun s => s.dispatch.conn.world.host
    put := fun s host => { s with dispatch.conn.world.host := host }
    get_put := fun _ _ => rfl
    put_get := fun _ => rfl
    put_put := fun _ _ _ => rfl }
  step := Service.step (Unpfs realroot)
  fresh io host := h.among.serve host io
  tick := h.tick
  outer := ServiceLabel.OfHost

abbrev Listener (h : SharedHost) (R : AsyncRead IoError) (A : AsyncWrite IoError) : Type :=
  Members (Service h.among.world R A) h.State

abbrev ListenerLabel (h : SharedHost) (R : AsyncRead IoError) (A : AsyncWrite IoError) : Type :=
  Members.Label (ServiceLabel h.among.world R A) h.Event (Accepted R A)

/-- `srv_async_tcp` and `srv_async_unix`, after `bind`: the loop spawns `dispatch` for each stream
and returns when `accept` fails; the connections go on. -/
abbrev srvAsync (realroot : PathBuf) : Listener h R A → ListenerLabel h R A →
    Option (Listener h R A) :=
  Members.step (connection h R A realroot)

/-! The host changes by the calls of a connection. -/

theorem host_of_exec {o : UnpfsOp} {r : UnpfsRes o} {s t : LockedObjs h.State}
    (hexec : h.lockedExec o s = some (r, t)) :
    t.host = s.host ∨ ∃ c a, h.exec c s.host = some (a, t.host) := by
  cases o with
  | host o =>
    obtain ⟨x, hx, hsame⟩ := Option.map_eq_some_iff.mp hexec
    cases hsame
    exact .inr ⟨o, x.1, hx⟩
  | realpathWrite | fileLock =>
    simp only [SharedHost.lockedExec] at hexec
    split_ifs at hexec
    cases hexec
    exact .inl rfl
  | realpathRead | realpathUnread | fileSet | fileUnlock =>
    cases hexec
    exact .inl rfl

theorem host_of_step {fs : Filesystem UnpfsOp UnpfsRes} {s t : Conn h.world} {l : Label h.world}
    (hl : ∀ e, l ≠ .world e) (hstep : step fs s l = some t) :
    t.world.host = s.world.host ∨ ∃ o a, h.exec o s.world.host = some (a, t.world.host) := by
  cases connStep_of_step hstep with
  | spawned | undecodable | hungUp => exact .inl rfl
  | ticked e world hw => exact absurd rfl (hl e)
  | task i msg aux p q l u ht htask =>
    cases htask with
    | routed | refused =>
      left
      dsimp only [Conn.setPhase]
      split_ifs
      · rfl
      · rfl
    | ran newfid o k r world hexec => exact host_of_exec hexec
    | _ => exact .inl rfl

theorem host_of_dispatch {fs : Filesystem UnpfsOp UnpfsRes} {s t : Dispatch h.world A}
    {l : SendLabel h.world A} (hl : l.OfHost = false) (hstep : s.step fs l = some t) :
    t.conn.world.host = s.conn.world.host ∨
      ∃ o a, h.exec o s.conn.world.host = some (a, t.conn.world.host) := by
  obtain heq | ⟨m, hm, hconn⟩ := Dispatch.conn_step_label s l t hstep
  · rw [heq]
    exact .inl rfl
  · apply host_of_step _ hconn
    rintro e rfl
    obtain rfl | ⟨i, hi⟩ := hm
    · cases hl
    · cases hi

theorem host_of_service {fs : Filesystem UnpfsOp UnpfsRes} {s t : Service h.world R A}
    {l : ServiceLabel h.world R A} (hl : l.OfHost = false) (hstep : Service.step fs s l = some t) :
    t.dispatch.conn.world.host = s.dispatch.conn.world.host ∨
      ∃ o a, h.exec o s.dispatch.conn.world.host = some (a, t.dispatch.conn.world.host) := by
  cases Service.steps_of_step hstep with
  | polled | ticked => exact .inl rfl
  | received room bytes framedread dispatch hreading hroom hturn hdispatch =>
    exact host_of_dispatch rfl hdispatch
  | ended room p framedread dispatch hreading hroom hturn hp hdispatch =>
    exact host_of_dispatch rfl hdispatch
  | dispatched l dispatch hloop hdispatch => exact host_of_dispatch hl hdispatch

/-- What the host does by itself and what others have it do, a connection meets at any time. -/
theorem runs_outside (s : Service h.among.world R A) {x y : h.State} {e : h.Event ⊕ HostOp}
    (htick : h.among.tick e x = some y) :
    runs (connection h R A realroot).step ((connection h R A realroot).part.put s x)
        [.dispatch (.conn (.world e))] =
      some ((connection h R A realroot).part.put s y) := by
  have hworld : ∀ objs, h.among.world.tick e ⟨objs, x⟩ = some ⟨objs, y⟩ := by
    intro objs
    exact Option.map_eq_some_iff.mpr ⟨y, htick, rfl⟩
  simp only [connection, runs_cons, Service.step, SendLabel.OfLoop, Dispatch.step, Ninep.step, hworld]
  rfl

theorem connection_open : (connection h R A realroot).Open where
  ticked e x y s htick := by
    refine ⟨[.dispatch (.conn (.world (.inl e)))], ?_, runs_outside s htick⟩
    intro l hl
    obtain rfl := List.mem_singleton.mp hl
    rfl
  acted s l t u hstep hl := by
    obtain hsame | ⟨o, a, hexec⟩ := host_of_service hl hstep
    · refine ⟨[], by simp, ?_⟩
      exact congrArg (fun host => some ((connection h R A realroot).part.put u host)) hsame.symm
    · refine ⟨[.dispatch (.conn (.world (.inr o)))], ?_, runs_outside u ?_⟩
      · intro l hl
        obtain rfl := List.mem_singleton.mp hl
        rfl
      · exact Option.map_eq_some_iff.mpr ⟨_, hexec, rfl⟩

/-! What a connection is served. -/

/-- The connection with the host as it is now. -/
def Listener.conn (s : Listener h R A) (k : ℕ) : Option (Service h.among.world R A) :=
  s.members[k]?.map fun c => { c with dispatch.conn.world.host := s.shared }

/-- The tasks are the requests of the stream, and what leaves on it are replies to them. -/
structure Served (s : Service h.world R A) : Prop where
  intake : s.msgs <+: s.received
  settled : s.Idle → s.msgs = s.received
  stream : A.output s.dispatch.framedwrite.inner ++ s.dispatch.framedwrite.buffer =
    (s.dispatch.conn.written.map fun x => wire x.2).flatMap frame
  once : (s.dispatch.conn.written.map Prod.fst).Nodup
  reply : ∀ x ∈ s.dispatch.conn.written, ∃ request,
    s.received[x.1]? = some request ∧ x.2.tag = request.tag
  released : s.dispatch.conn.unlocked = true → ∀ a,
    (s.dispatch.conn.world.objs a).readers = 0 ∧ (s.dispatch.conn.world.objs a).locked = false

theorem served_run {host : h.State} {io : Accepted R A} {ls : List (ServiceLabel h.world R A)}
    {s : Service h.world R A}
    (hr : runs (Service.step (Unpfs realroot)) (h.serve host io) ls = some s) : Served s := by
  have htakes := Service.takesIn_run io.unread hr
  have honce := Service.sentOnce_run hr
  refine ⟨htakes.msgs_received, htakes.msgs_of_idle, ?_, honce.nodup,
    htakes.request_of_written honce, fun hidle a => ?_⟩
  · have hstream := (Service.framed_run io.unwritten hr).stream
    rw [List.nil_append, Service.frames_eq] at hstream
    exact hstream
  · obtain ⟨ds, hds⟩ := Service.dispatch_run hr
    obtain ⟨cs, hcs⟩ := Dispatch.conn_run hds
    obtain ⟨g, hbalanced⟩ := balanced_run hcs
    exact released_of_balanced hbalanced hidle a

/-- The connections of a server do not mix: each has run as it runs alone, by the steps that it
took, on a host that others call as well. So its tasks are the requests of its own stream, and what
leaves on that stream are replies to them, whatever the other clients send. -/
theorem connections_apart {host : h.State} {ls : List (ListenerLabel h R A)} {s : Listener h R A}
    (hr : runs (srvAsync realroot) (.start host) ls = some s) {k : ℕ}
    {c : Service h.among.world R A} (hc : s.conn k = some c) :
    (∃ io host₀ ms, (Members.joined ls)[k]? = some io ∧
      runs (Service.step (Unpfs realroot)) (h.among.serve host₀ io) ms = some c ∧
      ms.filter (fun m => !m.OfHost) = Members.own k ls) ∧ Served c := by
  obtain ⟨io, host₀, ms, hjoined, hms, hown⟩ := Members.view_run connection_open hr hc
  exact ⟨⟨io, host₀, ms, hjoined, hms, hown⟩, served_run hms⟩

end

/-- A client that sends a request, read in pieces of two bytes. -/
def clientOf (request : Msg) : Accepted twoBytes fiveBytes where
  readhalf := (Service.requestBytes [request], [])
  writehalf := []
  unread := rfl
  unwritten := rfl

/-- The `Tclunk` of one client comes in the midst of the `Tattach` of another, and its task runs
when that has bound the fid. -/
def twoStreams : List (ListenerLabel (sharedDirs [srv]) twoBytes fiveBytes) :=
  [.join (clientOf ⟨1, .tattach 1 NOFID "" "" 0⟩), .join (clientOf ⟨7, .tclunk 1⟩)] ++
    List.replicate 9 (.member 0 (.next 64)) ++ List.replicate 15 (.member 1 (.next 64)) ++
    List.replicate 15 (.member 0 (.next 64)) ++
    [SendLabel.conn (.lookup 0), .conn (.run 0), .conn (.run 0), .conn (.finish 0),
      .conn (.insert 0)].map (fun l => .member 0 (.dispatch l)) ++
    [SendLabel.conn (.lookup 0), .lock 0, .poll, .poll, .poll, .poll, .poll].map
      (fun l => .member 1 (.dispatch l))

def twoStreamsRun : Option (Listener (sharedDirs [srv]) twoBytes fiveBytes) :=
  runs (srvAsync srv) (.start ()) twoStreams

theorem twoStreamsRun_isSome : twoStreamsRun.isSome = true := rfl

theorem connections_apart_twoStreams : ∃ s : Listener (sharedDirs [srv]) twoBytes fiveBytes,
    twoStreamsRun = some s ∧ ∃ c d, s.conn 0 = some c ∧ s.conn 1 = some d ∧ Served d ∧
      (c.dispatch.conn.fids.get 1).isSome = true ∧
      d.dispatch.framedwrite.inner = [11, 0, 0, 0, 7, 7, 0, 9, 0, 0, 0] := by
  have hrun : twoStreamsRun = some (twoStreamsRun.get twoStreamsRun_isSome) :=
    (Option.some_get twoStreamsRun_isSome).symm
  have hserved := (connections_apart (k := 1) hrun rfl).2
  exact ⟨_, hrun, _, _, rfl, rfl, hserved, rfl, rfl⟩

end P9cpu.Ninep
