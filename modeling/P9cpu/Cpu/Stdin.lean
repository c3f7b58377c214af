import P9cpu.Cpu.Client
import P9cpu.Cpu.Sessions

/-! A child reads end of file on its stdin when the server has closed the last write end. -/
namespace P9cpu.Cpu
open Core

variable {I : Type}

/-- The task has the read end of the stdout of a child. -/
def Task.hasStdout (c : ℕ) : Task → Bool
  | .copy t rxOpen => t.child = c && t.out = .stdout && !(Task.copy t rxOpen).finished
  | .forward _ => false

/-- The server has a descriptor open that writes to the stdin of a child: in the `start` call
that made the pipe, in a call that took the pointer of the session, or in the session. With a
pty the read ends of the stdout are duplicates of it. -/
def Server.StdinOpen (s : Server I) (c : ℕ) : Prop :=
  (∃ call ∈ s.calls, call.phase.owns = some c ∨ call.phase.usesStdin = some c) ∨
  (∃ sid, s.sessions sid = some c) ∨
  ∃ child ∈ s.children[c]?, child.tty = true ∧ ∃ task ∈ s.tasks, task.hasStdout c = true

/-- The local stdin of the client has ended and every `stdin` call for its session has returned. -/
structure System.InputOver (s : System I) : Prop where
  ended : ∃ stdin ∈ s.client.stdin, stdin.reader.holdsTx = false
  completed : ∀ call ∈ s.server.calls, call.request = .stdin s.client.sid →
    call.phase.returned = true

theorem usesStdin_of_returned {p : Phase} (h : p.returned = true) : p.usesStdin = none := by
  cases p <;> simp_all [Phase.returned, Phase.usesStdin]

/-- Only the calls and the map have a session's stdin, and after the last call only the map. -/
theorem stdinOpen_iff {s : Server I} {c : ℕ} {child : Child I} {sid : I} (h : Owned s)
    (hchild : s.children[c]? = some child) (htty : child.tty = false) (hsid : s.sidOf c = some sid)
    (hcalls : ∀ call ∈ s.calls, call.request = .stdin sid → call.phase.returned = true) :
    s.StdinOpen c ↔ s.sessions sid = some c := by
  constructor
  · rintro (⟨call, hcall, hown | huse⟩ | ⟨sid', hmap⟩ | ⟨child', hchild', htty', -⟩)
    · obtain ⟨k, hk⟩ := List.mem_iff_getElem?.mp hcall
      have hnone := (h.owned k call c hk hown).2
      simp [hsid] at hnone
    · obtain ⟨k, hk⟩ := List.mem_iff_getElem?.mp hcall
      obtain ⟨sid', hrequest, hsid'⟩ := h.users k call c hk huse
      rw [hsid] at hsid'
      cases hsid'
      have hnone := usesStdin_of_returned (hcalls call hcall hrequest)
      simp [hnone] at huse
    · have hsid' := h.mapped sid' c hmap
      rw [hsid] at hsid'
      cases hsid'
      exact hmap
    · rw [hchild] at hchild'
      cases hchild'
      simp [htty] at htty'
  · intro hmap
    exact .inr (.inl ⟨sid, hmap⟩)

variable [DecidableEq I]

theorem runs_owned {sid : I} {cmd : Cmd} {labels : List (System.Label I)} {s : System I}
    (h : runs System.step (System.new sid cmd) labels = some s) : Owned s.server :=
  System.runs_server owned_step h owned_new

/-- When the input of a client is over, the stdin of its child is closed if and only if the
session has left the map. Until a `wait` on the session returns it is open. -/
theorem stdin_closed_iff {sid : I} {cmd : Cmd} {labels : List (System.Label I)} {s : System I}
    (h : runs System.step (System.new sid cmd) labels = some s) (hover : s.InputOver) {c : ℕ}
    {child : Child I} (hchild : s.server.children[c]? = some child) (htty : child.tty = false)
    (hsid : s.server.sidOf c = some s.client.sid) :
    (¬ s.server.StdinOpen c ↔ s.server.sessions s.client.sid ≠ some c) ∧
    ((∀ call ∈ s.server.calls, call.request = .wait s.client.sid →
      call.phase.returned = false) → s.server.StdinOpen c) := by
  have howned := runs_owned h
  have hopen := stdinOpen_iff howned hchild htty hsid hover.completed
  refine ⟨not_congr hopen, fun hwaits => hopen.mpr ?_⟩
  rcases howned.kept c s.client.sid hsid with hmap | ⟨k, ret, hk⟩
  · exact hmap
  · have hlive := hwaits _ (List.mem_of_getElem? hk) rfl
    simp [Phase.returned] at hlive

def catCmd : Cmd := ⟨"cat", [], [], [], false, false, "/tmp", 0, 0⟩

/-- `start` of a client, and a child that runs its command; the local stdin is empty. -/
def emptyInput : List (System.Label ℕ) :=
  [.main .invoke, .server (.dial 0), .main .reply,
    .main .invoke, .server (.start 1 .takePending), .server (.start 1 .lockSessions),
    .server (.start 1 (.bound 40000)), .server (.start 1 .spawned), .server (.child 0 .unshared),
    .server (.child 0 (.connected 1)), .server (.start 1 (.accepted 0)), .server (.start 1 .sent),
    .server (.start 1 .sent), .server (.start 1 .sent), .main .reply,
    .main .invoke, .server (.output 2 .getSession), .server (.output 2 .getHandles),
    .server (.output 2 .push), .main .reply,
    .main .invoke, .server (.output 3 .getSession), .server (.output 3 .getHandles),
    .server (.output 3 .push), .main .reply,
    .server (.child 0 .received), .server (.child 0 .execed), .feed .eof, .feed .noChunks]

/-- The child is killed, and `wait` returns. -/
def waitedInput : List (System.Label ℕ) :=
  emptyInput ++
    [.server (.child 0 .killed), .server (.child 0 (.closed .stdout)),
      .server (.child 0 (.closed .stderr)), .server (.task 0 .lock), .server (.task 0 .eof),
      .server (.task 1 .lock), .server (.task 1 .eof), .main .wait, .main .invoke,
      .server (.wait 4 .getChild), .server (.wait 4 .lockChild), .server (.wait 4 .reaped),
      .server (.wait 4 .getHandles), .server (.wait 4 .lockHandles), .server (.wait 4 .join),
      .server (.wait 4 .join), .server (.wait 4 .join), .server (.wait 4 .remove)]

theorem stdin_closed_iff_waitedInput :
    ∃ s, runs System.step (System.new 0 catCmd) waitedInput = some s ∧
      (¬ s.server.StdinOpen 0 ↔ s.server.sessions s.client.sid ≠ some 0) ∧
      s.server.sessions s.client.sid = none := by
  have hr : runs System.step (System.new 0 catCmd) waitedInput =
    some ((runs System.step (System.new 0 catCmd) waitedInput).get rfl) := rfl
  have hover : ((runs System.step (System.new 0 catCmd) waitedInput).get rfl).InputOver :=
    ⟨⟨_, rfl, rfl⟩, by decide⟩
  exact ⟨_, hr, (stdin_closed_iff hr hover (c := 0) rfl rfl rfl).1, rfl⟩

/-- The input is over and the child runs, but the map keeps its stdin open. -/
theorem stdin_open_of_emptyInput :
    ¬ ∀ (sid : ℕ) (cmd : Cmd) (labels : List (System.Label ℕ)) (s : System ℕ),
      runs System.step (System.new sid cmd) labels = some s → s.InputOver →
      ∀ (c : ℕ) (child : Child ℕ), s.server.children[c]? = some child → child.tty = false →
        s.server.sidOf c = some s.client.sid → ¬ s.server.StdinOpen c := by
  intro h
  apply h 0 catCmd emptyInput _ rfl ⟨⟨_, rfl, rfl⟩, ?_⟩ 0 _ rfl rfl rfl
  · exact .inr (.inl ⟨0, rfl⟩)
  · decide

end P9cpu.Cpu
