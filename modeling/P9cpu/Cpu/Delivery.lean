import P9cpu.Cpu.Feed

/-! Input that was read to its end comes to the child, unless something fails on the way. -/
namespace P9cpu.Cpu
open Core

variable {I : Type} [DecidableEq I] {s t : System I} {d : Stdin I} {k c : ℕ} {sid : I}
  {chunks : List (List UInt8)}

/-- A clean run ends the stream of the client well, and reads nothing more. -/
def System.Delivers (s : System I) (chunks : List (List UInt8)) : Prop :=
  ∃ labels t, runs System.step s labels = some t ∧ Along System.step System.Clean s labels ∧
    ∃ d, t.client.stdin = some d ∧ d.reader = .done (.ok ()) ∧ d.chunks = chunks

theorem delivers_of_step {label : System.Label I} (hclean : s.Clean label)
    (hstep : s.step label = some t) (h : t.Delivers chunks) : s.Delivers chunks := by
  obtain ⟨labels, u, hr, halong, hdone⟩ := h
  refine ⟨label :: labels, u, runs_cons_eq_some.mpr ⟨t, hstep, hr⟩, ⟨hclean, ?_⟩, hdone⟩
  intro t' ht'
  rw [hstep] at ht'
  cases ht'
  exact halong

theorem delivers_of_feed {e : FeedEvent} (hd : s.client.stdin = some d)
    (hstep : s.stepFeed d e = some t) (he : e ≠ .broken) (h : t.Delivers chunks) :
    s.Delivers chunks := by
  have hclean : s.Clean (.feed e) := by simp [System.Clean, he]
  refine delivers_of_step hclean ?_ h
  simp only [System.step, hd]
  exact hstep

/-- The `stdin` call takes a step that is no item of its stream. -/
theorem delivers_of_stdin {e : StdinEvent} {p : Phase} {server : Server I}
    (hcall : s.server.calls[k]? = some ⟨.stdin sid, p⟩)
    (hstep : s.server.stepStdin k sid p e = some server)
    (hown : s.byClient (.stdin k e) = false)
    (h : System.Delivers { s with server := server } chunks) : s.Delivers chunks := by
  have hclean : s.Clean (.server (.stdin k e)) := by simp [System.Clean]
  refine delivers_of_step hclean ?_ h
  have hserver : s.server.step (.stdin k e) = some server := by
    simpa only [Server.step, hcall] using hstep
  simp [System.step, hown, hserver]

theorem delivers_of_joined (hd : s.client.stdin = some d) (hreader : d.reader = .closing)
    (hrpc : d.rpc = .done (.ok ())) : s.Delivers d.chunks := by
  have hstep : s.stepFeed d .join = some (s.setStdin { d with reader := .done (.ok ()) }) := by
    simp [System.stepFeed, hreader, hrpc]
  refine delivers_of_feed hd hstep (by simp) ?_
  exact ⟨[], _, rfl, trivial, _, rfl, rfl, rfl⟩

theorem delivers_of_answered {front : Option (List UInt8)} {a : Answer} {request : Request I}
    (hd : s.client.stdin = some d) (hreader : d.reader = .closing) (hrpc : d.rpc = .calling)
    (hservice : d.service = some (k, front))
    (hcall : s.server.calls[k]? = some ⟨request, .done (.ok a)⟩) : s.Delivers d.chunks := by
  have hstep : s.stepFeed d .response = some (s.setStdin { d with rpc := .done (.ok ()) }) := by
    simp [System.stepFeed, hrpc, hservice, hcall]
  refine delivers_of_feed hd hstep (by simp) ?_
  exact delivers_of_joined (d := { d with rpc := .done (.ok ()) }) rfl hreader rfl

omit [DecidableEq I] in
theorem calls_setPhase {s : Server I} {request : Request I} {p : Phase} (q : Phase)
    (hcall : s.calls[k]? = some ⟨request, p⟩) :
    (s.setPhase k q).calls[k]? = some ⟨request, q⟩ := by
  rw [calls_moved hcall rfl, if_pos rfl]

/-- The child takes all of an item at once. -/
theorem delivers_of_writing {rest : List UInt8}
    (hcall : s.server.calls[k]? = some ⟨.stdin sid, .writing c rest⟩) (hrest : rest ≠ [])
    (h : ∀ server : Server I, server.calls[k]? = some ⟨.stdin sid, .streaming c⟩ →
      System.Delivers { s with server := server } chunks) : s.Delivers chunks := by
  have hlen : 0 < rest.length := List.length_pos_iff.mpr hrest
  have hstep : s.server.stepStdin k sid (.writing c rest) (.wrote rest.length) =
      some ((s.server.modifyChild c (fun child =>
        { child with stdin := child.stdin ++ rest.take rest.length })).setPhase k
          (.streaming c)) := by
    simp [Server.stepStdin, hlen]
  refine delivers_of_stdin hcall hstep rfl (h _ ?_)
  exact calls_setPhase (s := s.server.modifyChild c _) _ hcall

/-- The `stdin` call takes an item of its stream and writes it. -/
theorem delivers_of_item {d' : Stdin I} {item : List UInt8} (hd : s.client.stdin = some d)
    (hcall : s.server.calls[k]? = some ⟨.stdin sid, .streaming c⟩)
    (hitem : s.stepFeed d .item = s.feedServer k (.item item) d')
    (h : ∀ server : Server I, server.calls[k]? = some ⟨.stdin sid, .streaming c⟩ →
      System.Delivers ({ s with server := server }.setStdin d') chunks) : s.Delivers chunks := by
  have hserver : s.server.step (.stdin k (.item item)) =
      some (s.server.setPhase k (if item = [] then .streaming c else .writing c item)) := by
    simp only [Server.step, hcall, Server.stepStdin]
  have hstep : s.stepFeed d .item = some (System.setStdin ⟨s.server.setPhase k
      (if item = [] then .streaming c else .writing c item), s.client⟩ d') := by
    rw [hitem, System.feedServer, hserver]
    rfl
  refine delivers_of_feed hd hstep (by simp) ?_
  split_ifs with hnil
  · exact h _ (calls_setPhase _ hcall)
  · exact delivers_of_writing (calls_setPhase _ hcall) hnil h

/-- Whatever is queued or on the wire is taken, and then the stream ends. -/
theorem delivers_of_streaming (hd : s.client.stdin = some d) (hreader : d.reader = .closing)
    (hrpc : d.rpc = .calling) (hservice : d.service = some (k, none))
    (hcall : s.server.calls[k]? = some ⟨.stdin sid, .streaming c⟩) : s.Delivers d.chunks := by
  -- a message counts once on the wire and twice in the queue, from where it goes to the wire
  induction hn : 2 * d.queue.length + d.wire.length using Nat.strongRecOn
    generalizing s d with
  | ind n ih =>
    cases hwire : d.wire with
    | cons req wire =>
      have hitem : s.stepFeed d .item = s.feedServer k (.item req.data) { d with wire := wire } := by
        simp [System.stepFeed, hservice, hwire]
      refine delivers_of_item hd hcall hitem fun server hserver => ?_
      have hlt : 2 * d.queue.length + wire.length < n := by
        simp only [hwire, List.length_cons] at hn
        omega
      exact ih _ hlt (d := { d with wire := wire }) rfl hreader hrpc hservice hserver rfl
    | nil =>
      cases hqueue : d.queue with
      | cons buf queue =>
        have hstep : s.stepFeed d .forward = some (s.setStdin
            { d with queue := queue, wire := d.wire ++ [⟨none, buf⟩] }) := by
          simp [System.stepFeed, hrpc, hqueue]
        refine delivers_of_feed hd hstep (by simp) ?_
        have hlt : 2 * queue.length + (d.wire.length + 1) < n := by
          simp only [hqueue, List.length_cons] at hn
          omega
        refine ih _ hlt (d := { d with queue := queue, wire := d.wire ++ [⟨none, buf⟩] }) rfl
          hreader hrpc hservice hcall ?_
        simp
      | nil =>
        have hend : s.stepFeed d .endRequests = some (s.setStdin { d with closed := true }) := by
          simp [System.stepFeed, hrpc, hqueue, hreader, ReaderPhase.holdsTx]
        refine delivers_of_feed hd hend (by simp) ?_
        have hserver : s.server.step (.stdin k .endOfStream) = some (s.server.succeed k .unit) := by
          simp only [Server.step, hcall, Server.stepStdin]
        have hstep : (s.setStdin { d with closed := true }).stepFeed { d with closed := true }
            .endOfStream = some ({ s with server := s.server.succeed k .unit }.setStdin
              { d with closed := true }) := by
          simp only [System.stepFeed, hservice, hwire, if_true, System.feedServer]
          change (s.server.step _).map _ = _
          rw [hserver]
          rfl
        refine delivers_of_feed rfl hstep (by simp) ?_
        exact delivers_of_answered (d := { d with closed := true }) rfl hreader hrpc hservice
          (calls_setPhase _ hcall)

/-- What keeps the stream of the client from its child: the session is not there, or the call
has failed. -/
def Server.Serves (s : Server I) (sid : I) : Phase → Prop
  | .called => ∃ c, s.getSession sid = some (.ok c)
  | .lockingStdin _ | .streaming _ | .writing _ _ | .done (.ok _) => True
  | _ => False

omit [DecidableEq I] in
/-- Only one `stdin` call has ever been made for the session, so its lock is free. -/
theorem stdin_free {s : Server I} (howned : Owned s)
    (hcall : s.calls[k]? = some ⟨.stdin sid, .lockingStdin c⟩)
    (honly : ∀ (i : ℕ) (p : Phase), s.calls[i]? = some ⟨.stdin sid, p⟩ → i = k) :
    s.calls.any (fun call => call.phase.holdsStdin c) = false := by
  obtain ⟨_, hrequest, hsid⟩ := howned.users k _ c hcall rfl
  cases hrequest
  rw [List.any_eq_false]
  rintro ⟨request, p⟩ hmem hholds
  obtain ⟨i, hi⟩ := List.mem_iff_getElem?.mp hmem
  have huses : p.usesStdin = some c := by
    cases p <;> simp_all [Phase.holdsStdin, Phase.usesStdin]
  obtain ⟨sid', hrequest, hsid'⟩ := howned.users i _ c hi huses
  have hrequest : request = .stdin sid' := hrequest
  rw [hsid] at hsid'
  cases hsid'
  subst hrequest
  obtain rfl := honly i p hi
  rw [hcall] at hi
  cases hi
  cases hholds

theorem delivers_of_serves {front : Option (List UInt8)} {p : Phase} (howned : Owned s.server)
    (hd : s.client.stdin = some d) (hreader : d.reader = .closing) (hrpc : d.rpc = .calling)
    (hservice : d.service = some (k, front)) (hcall : s.server.calls[k]? = some ⟨.stdin sid, p⟩)
    (honly : ∀ (i : ℕ) (p : Phase), s.server.calls[i]? = some ⟨.stdin sid, p⟩ → i = k)
    (hwriting : ∀ c, p ≠ .writing c [])
    (hserves : s.server.Serves sid p) : s.Delivers d.chunks := by
  -- the call is `streaming`, and has at most the front of its stream to take
  have hstreaming : ∀ (server : Server I) (c : ℕ),
      server.calls[k]? = some ⟨.stdin sid, .streaming c⟩ →
      System.Delivers { s with server := server } d.chunks := by
    intro server c hserver
    cases front with
    | none => exact delivers_of_streaming hd hreader hrpc hservice hserver
    | some item =>
      have hitem : System.stepFeed { s with server := server } d .item =
          System.feedServer { s with server := server } k (.item item)
            { d with service := some (k, none) } := by
        simp [System.stepFeed, hservice]
      refine delivers_of_item hd hserver hitem fun server' hserver' => ?_
      exact delivers_of_streaming (d := { d with service := some (k, none) }) rfl hreader hrpc rfl
        hserver'
  have hlocking : ∀ (server : Server I) (c : ℕ), Owned server →
      server.calls[k]? = some ⟨.stdin sid, .lockingStdin c⟩ →
      (∀ (i : ℕ) (p : Phase), server.calls[i]? = some ⟨.stdin sid, p⟩ → i = k) →
      System.Delivers { s with server := server } d.chunks := by
    intro server c howned hserver honly
    have hstep : server.stepStdin k sid (.lockingStdin c) .lock =
        some (server.setPhase k (.streaming c)) := by
      simp [Server.stepStdin, stdin_free howned hserver honly]
    refine delivers_of_stdin hserver hstep rfl ?_
    exact hstreaming _ c (calls_setPhase _ hserver)
  cases p with
  | called =>
    obtain ⟨c, hsession⟩ := hserves
    have hstep : s.server.stepStdin k sid .called .getSession =
        some (s.server.setPhase k (.lockingStdin c)) := by
      simp [Server.stepStdin, hsession]
    have hnext : s.server.step (.stdin k .getSession) =
        some (s.server.setPhase k (.lockingStdin c)) := by
      simpa only [Server.step, hcall] using hstep
    refine delivers_of_stdin hcall hstep rfl ?_
    refine hlocking _ c (owned_step _ _ _ howned hnext) (calls_setPhase _ hcall) fun i p hi => ?_
    rcases request_of_step hi hnext with ⟨p', hp'⟩ | hlabel
    · exact honly i p' hp'
    · cases hlabel
  | lockingStdin c => exact hlocking s.server c howned hcall honly
  | streaming c => exact hstreaming s.server c hcall
  | writing c rest =>
    refine delivers_of_writing hcall ?_ fun server hserver => hstreaming server c hserver
    rintro rfl
    exact hwriting c rfl
  | done ret =>
    cases ret with
    | ok a => exact delivers_of_answered hd hreader hrpc hservice hcall
    | error e => cases hserves
  | _ => cases hserves

/-- The request stream is open, and the server takes the first message. -/
theorem delivers_of_unserved {data : List UInt8} {wire : List (StdinRequest I)}
    (howned : Owned s.server)
    (hnone : ∀ (i : ℕ) (p : Phase), s.server.calls[i]? ≠ some ⟨.stdin sid, p⟩)
    (hsession : s.server.Serves sid .called) (hd : s.client.stdin = some d)
    (hreader : d.reader = .closing) (hrpc : d.rpc = .calling) (hservice : d.service = none)
    (hwire : d.wire = ⟨some sid, data⟩ :: wire) : s.Delivers d.chunks := by
  have hserver : s.server.step (.call (.stdin sid)) =
      some { s.server with calls := s.server.calls ++ [⟨.stdin sid, .called⟩] } := rfl
  have hcall : (s.server.calls ++ [⟨.stdin sid, .called⟩])[s.server.calls.length]? =
      some ⟨.stdin sid, .called⟩ := by simp
  have hstep : s.stepFeed d .serve = some (System.setStdin
      ⟨{ s.server with calls := s.server.calls ++ [⟨.stdin sid, .called⟩] }, s.client⟩
      { d with wire := wire, service := some (s.server.calls.length, some data) }) := by
    simp [System.stepFeed, hservice, hwire]
  refine delivers_of_feed hd hstep (by simp) ?_
  refine delivers_of_serves
    (d := { d with wire := wire, service := some (s.server.calls.length, some data) })
    (owned_step _ _ _ howned hserver) rfl hreader hrpc rfl hcall (fun i p hi => ?_) (by simp) ?_
  · by_contra hne
    change (s.server.calls ++ [⟨.stdin sid, .called⟩])[i]? = _ at hi
    rcases getElem?_concat_cases hi with hold | ⟨hlast, -⟩
    · exact hnone i p hold
    · exact hne hlast
  · obtain ⟨c, hc⟩ := hsession
    have hsame : Server.getSession
        { s.server with calls := s.server.calls ++ [⟨.stdin sid, .called⟩] } sid =
          s.server.getSession sid := by
      simp [Server.getSession, Server.unlocked, Phase.holdsSessions]
    exact ⟨c, hsame.trans hc⟩

/-- The phase of the `stdin` call of the client, made or not. -/
def System.servicePhase (s : System I) (d : Stdin I) : Option Phase :=
  match d.service with
  | none => some .called
  | some (k, _) => s.server.calls[k]?.map Call.phase

theorem System.Fed.delivers (h : s.Fed) (hd : s.client.stdin = some d)
    (hreader : d.reader = .closing) (hrpc : ∀ e, d.rpc ≠ .done (.error e))
    (hserves : ∀ p ∈ s.servicePhase d, s.server.Serves s.client.sid p) : s.Delivers d.chunks := by
  obtain ⟨hfeeds, -⟩ := h.after d hd
  obtain ⟨bytes, hgiven, -⟩ := hfeeds.given
  cases hphase : d.rpc with
  | first =>
    obtain ⟨hwire, hservice, -⟩ := hfeeds.first hphase
    rw [hservice] at hgiven
    cases hqueue : d.queue with
    | nil =>
      have hstep : s.stepFeed d .noChunks = some (s.setStdin { d with rpc := .done (.ok ()) }) := by
        simp [System.stepFeed, hphase, hqueue, hreader, ReaderPhase.holdsTx]
      refine delivers_of_feed hd hstep (by simp) ?_
      exact delivers_of_joined (d := { d with rpc := .done (.ok ()) }) rfl hreader rfl
    | cons buf queue =>
      have hstep : s.stepFeed d .first = some (s.setStdin
          { d with rpc := .calling, queue := queue, wire := [⟨some s.client.sid, buf⟩] }) := by
        simp [System.stepFeed, hphase, hqueue]
      refine delivers_of_feed hd hstep (by simp) ?_
      exact delivers_of_unserved
        (d := { d with rpc := .calling, queue := queue, wire := [⟨some s.client.sid, buf⟩] })
        h.owned hgiven.2.2 (hserves _ (by simp [System.servicePhase, hservice])) rfl hreader rfl
        hservice rfl
  | calling =>
    cases hservice : d.service with
    | none =>
      obtain ⟨data, wire, hwire⟩ := hfeeds.unserved hphase hservice
      rw [hservice] at hgiven
      exact delivers_of_unserved h.owned hgiven.2.2
        (hserves _ (by simp [System.servicePhase, hservice])) hd hreader hphase hservice hwire
    | some service =>
      obtain ⟨k, front⟩ := service
      rw [hservice] at hgiven
      obtain ⟨⟨p, hcall, hwrote⟩, honly⟩ := hgiven
      refine delivers_of_serves h.owned hd hreader hphase hservice hcall honly ?_
        (hserves p (by simp [System.servicePhase, hservice, hcall]))
      rintro c rfl
      exact hwrote.1 rfl
  | done ret =>
    cases ret with
    | ok _ => exact delivers_of_joined hd hreader hphase
    | error e => exact absurd hphase (hrpc e)

/-- The stream of a client that has ended well has brought the child all chunks, in their order.
If it has not ended yet then nothing but a failure can keep it from that. -/
theorem stdin_transparent {sid : I} {cmd : Cmd} {labels : List (System.Label I)} {s : System I}
    (h : runs System.step (System.new sid cmd) labels = some s)
    (hclean : Along System.step System.Clean (System.new sid cmd) labels) {d : Stdin I}
    (hd : s.client.stdin = some d) :
    (d.reader = .done (.ok ()) →
      (∃ c, s.server.Got s.client.sid c d.chunks.flatten) ∨
        d.chunks.flatten = [] ∧ s.server.Untouched s.client.sid none) ∧
    (d.reader = .closing → (∀ e, d.rpc ≠ .done (.error e)) →
      (∀ p ∈ s.servicePhase d, s.server.Serves s.client.sid p) → s.Delivers d.chunks) := by
  have hfed : s.Fed := runs_invariant_along fed_step hclean h (fed_new sid cmd)
  refine ⟨fun hreader => ?_, hfed.delivers hd⟩
  obtain ⟨hfeeds, -⟩ := hfed.after d hd
  have hrpc := hfeeds.readerDone hreader
  obtain ⟨bytes, hgiven, hbytes⟩ := hfeeds.given
  have hall : d.chunks.flatten = bytes := by
    rw [← hbytes (by simp [hreader, ReaderPhase.failed]), (hfeeds.over hrpc).2, hreader]
    exact List.append_nil bytes
  rw [hall]
  rcases hfeeds.rpcDone hrpc with ⟨hservice, -⟩ | ⟨k, front, a, hservice, hcall⟩
  · rw [hservice] at hgiven
    exact .inr ⟨hgiven.1, hgiven.2.1⟩
  · rw [hservice] at hgiven
    obtain ⟨⟨p, hcall', hwrote⟩, -⟩ := hgiven
    rw [hcall] at hcall'
    cases hcall'
    exact .inl hwrote

/-- Two chunks for a child that takes them byte by byte. -/
def typedInput : List (System.Label ℕ) :=
  emptyInput.take 27 ++
    [.feed (.read [104, 105]), .feed .sent, .feed (.read [10]), .feed .first, .feed .sent,
      .feed .eof, .feed .serve, .feed .forward, .feed .endRequests,
      .server (.stdin 4 .getSession), .server (.stdin 4 .lock), .feed .item,
      .server (.stdin 4 (.wrote 1)), .server (.stdin 4 (.wrote 1)), .feed .item,
      .server (.stdin 4 (.wrote 1)), .feed .endOfStream, .feed .response, .feed .join]

theorem stdin_transparent_typedInput :
    ∃ s c, runs System.step (System.new 0 catCmd) typedInput = some s ∧
      s.server.Got 0 c [104, 105, 10] := by
  have hr : runs System.step (System.new 0 catCmd) typedInput =
    some ((runs System.step (System.new 0 catCmd) typedInput).get rfl) := rfl
  have hclean : Along System.step System.Clean (System.new 0 catCmd) typedInput := by
    refine Along.imp (fun s l hl => ⟨hl.1, hl.2 s.client.sid⟩) (Along.of_forall
      (D := fun l => l ≠ .feed .broken ∧ ∀ sid, l ≠ .server (.call (.stdin sid))) ?_ _)
    simp [typedInput, emptyInput]
  rcases (stdin_transparent hr hclean (d := (runs System.step (System.new 0 catCmd)
    typedInput).get rfl |>.client.stdin.get rfl) rfl).1 rfl with ⟨c, hc⟩ | ⟨hnil, -⟩
  · exact ⟨_, c, hr, hc⟩
  · cases hnil

end P9cpu.Cpu
