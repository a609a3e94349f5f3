import Vcli.Ipc.Exchange

/-! A call through the socket is a call of the handler: what a client gets over a connection is
what it would get from a handler in its own process. -/

namespace Vcli.Ipc

open Transport Transducer Simulation

/-- A client and the handler it calls, with no connection in between: the frames of a stream are
`ahead` of the client once its task has sent them. -/
inductive Direct (κ : Type)
  | idle
  | refused
  | asked (req : Request)
  | misread (id : RequestId)
  | answered (id : RequestId) (r : Response)
  | following (id : RequestId) (kind : StreamKind) (task : Option κ) (ahead : List StreamFrame)
  | finished (id : RequestId)
  | closed

namespace Direct

variable {ω ι κ : Type} (S : SerdeJson) (ρ : F64 → F64) (H : Handler ω ι κ) (Told : ι → Prop)

/-- What can happen in a direct call. The connection shows in what does not fit into a frame and in
a program that is nested too deeply to be read. -/
inductive Step : Direct κ → Happening ω ι → Direct κ → Prop
  | called {req : Request} (hfits : S.requests.Fits req) (hdepth : req.toValue.depth ≤ 127) :
      Step idle (.called req) (asked (req.heard ρ))
  | misread {req : Request} (hfits : S.requests.Fits req) (hdepth : ¬ req.toValue.depth ≤ 127) :
      Step idle (.called req) (misread req.id)
  | tooLarge {req : Request} (hfits : ¬ S.requests.Fits req) : Step idle (.called req) refused
  | refused (len : Nat) :
      Step refused (.returned (.error (.transport (.frameTooLarge len maxFrameLen)))) closed
  | answered {req : Request} {w : ω} {told : ι} {r : Response} (htold : Told told)
      (hr : H.handle w told req.id req.op = .ok r) : Step (asked req) (.answered w r)
        (answered req.id r)
  | failed {req : Request} {w : ω} (e : IpcError) :
      Step (asked req) (.answered w (.internal req.id e)) (answered req.id (.internal req.id e))
  | rejected {id : RequestId} {w : ω} (fresh : RequestId) (message : String) (hfresh : fresh ≠ id) :
      Step (misread id) (.answered w (.internal fresh (.invalidJson message)))
        (answered id (.internal fresh (.invalidJson message)))
  | returned {id : RequestId} {r : Response} (hfits : S.messages.Fits (.response r))
      (hid : r.id = id) : Step (answered id r) (.returned (.ok r)) idle
  | mismatched {id : RequestId} {r : Response} (hfits : S.messages.Fits (.response r))
      (hid : r.id ≠ id) : Step (answered id r) (.returned (Client.accept id r)) closed
  | unanswered {id : RequestId} {r : Response} (hfits : ¬ S.messages.Fits (.response r)) :
      Step (answered id r) (.returned (.error (.transport (.unexpectedEof 0 4)))) closed
  | subscribed {id : RequestId} {op : RequestOp} (hfits : S.requests.Fits ⟨id, op⟩) :
      Step idle (.subscribed ⟨id, op⟩)
        (following id (streamKind op) (some (H.handleStream id op)) [])
  | tooLong {req : Request} (hfits : ¬ S.requests.Fits req) : Step idle (.subscribed req) refused
  | unfollowed (len : Nat) :
      Step refused (.yielded (.error (.transport (.frameTooLarge len maxFrameLen)))) closed
  | resumed {id : RequestId} {kind : StreamKind} {task task' : κ} {ahead : List StreamFrame}
      {w : ω} {told : ι} (hpoll : H.poll w told task = .resumed task') :
      Step (following id kind (some task) ahead) (.polled w told)
        (following id kind (some task') ahead)
  | sent {id : RequestId} {kind : StreamKind} {task task' : κ} {ahead : List StreamFrame}
      {f : StreamFrame} {w : ω} {told : ι} (hpoll : H.poll w told task = .sending f task') :
      Step (following id kind (some task) ahead) (.polled w told)
        (following id kind (some task') (ahead ++ [f]))
  | ended {id : RequestId} {kind : StreamKind} {task : κ} {ahead : List StreamFrame}
      {w : ω} {told : ι} {result : Except IpcError Unit}
      (hpoll : H.poll w told task = .returned result) :
      Step (following id kind (some task) ahead) (.polled w told) (following id kind none ahead)
  | aborted {id : RequestId} {kind : StreamKind} {task : κ} {ahead : List StreamFrame} :
      Step (following id kind (some task) ahead) .aborted (following id kind none ahead)
  | yielded {id : RequestId} {kind : StreamKind} {task : Option κ} {f : StreamFrame}
      {ahead : List StreamFrame} (hfits : S.messages.Fits (.frame f)) :
      Step (following id kind task (f :: ahead)) (.yielded (.ok (some f)))
        (following id kind task ahead)
  | broken {id : RequestId} {kind : StreamKind} {task : Option κ} {f : StreamFrame}
      {ahead : List StreamFrame} (hfits : ¬ S.messages.Fits (.frame f)) :
      Step (following id kind task (f :: ahead))
        (.yielded (.error (.transport (.unexpectedEof 0 4)))) closed
  | finished {id : RequestId} {kind : StreamKind} :
      Step (following id kind none []) (.yielded (.ok none)) (finished id)
  | done {id : RequestId} : Step (finished id) (.yielded (.ok none)) (finished id)
  | dropped : Step idle .dropped closed

def client : Direct κ → Client
  | idle => .idle
  | asked req => .requested req.id
  | misread id | answered id _ => .requested id
  | following id .. => .streaming id false
  | finished id => .streaming id true
  | refused | closed => .gone

end Direct

section Relation
variable {ω ι κ : Type} (S : SerdeJson) (H : Handler ω ι κ) (Valid : RequestId → κ → Prop)

def Due (id : RequestId) (f : StreamFrame) : Prop := f.Continues id ∧ S.messages.Inverts (.frame f)

inductive Stands : Session κ → Direct κ → Prop
  | idle : Stands ⟨.idle, [], .reading, []⟩ .idle
  | sent {req : Request} {up : List UInt8} (hop : isStreaming req.op = false)
      (hup : Reads S up (.ok req)) : Stands ⟨.requested req.id, up, .reading, []⟩ (.asked req)
  | handling {req : Request} :
      Stands ⟨.requested req.id, [], .handling req.id req.op, []⟩ (.asked req)
  | garbled {id : RequestId} {up : List UInt8} {message : String}
      (hup : Reads S up (.error (.invalidJson message))) :
      Stands ⟨.requested id, up, .reading, []⟩ (.misread id)
  | written {id : RequestId} {r : Response} {server : Phase κ}
      (hinv : S.messages.Inverts (.response r)) (hfits : S.messages.Fits (.response r))
      (hserver : server.AtRest) (hid : r.id = id → server = .reading) :
      Stands ⟨.requested id, [], server, stream S.messages [.response r]⟩ (.answered id r)
  | unwritten {id : RequestId} {r : Response} {result : Except IpcError Unit}
      (hfits : ¬ S.messages.Fits (.response r)) :
      Stands ⟨.requested id, [], .closed result, []⟩ (.answered id r)
  | subscribed {id : RequestId} {op : RequestOp} {up : List UInt8} (hop : isStreaming op = true)
      (hup : Reads S up (.ok ⟨id, op⟩)) : Stands ⟨.streaming id false, up, .reading, []⟩
        (.following id (streamKind op) (some (H.handleStream id op)) [])
  | streaming {id : RequestId} {kind : StreamKind} {task : Option κ} {sent : List StreamFrame}
      {rx : Channel StreamFrame streamCapacity} (hsent : ∀ f ∈ sent, S.messages.Fits (.frame f))
      (hdue : ∀ f ∈ sent ++ rx.queued, Due S id f) (htask : ∀ k ∈ task, Valid id k) :
      Stands ⟨.streaming id false, [], .streaming id kind task rx,
        stream S.messages (sent.map .frame)⟩ (.following id kind task (sent ++ rx.queued))
  | drained {id : RequestId} {kind : StreamKind} {sent : List StreamFrame} {server : Phase κ}
      (hsent : ∀ f ∈ sent, S.messages.Fits (.frame f)) (hdue : ∀ f ∈ sent, Due S id f)
      (hserver : server.AtRest) :
      Stands ⟨.streaming id false, [], server,
        stream S.messages ((sent ++ [StreamFrame.endOfStream id kind]).map .frame)⟩
        (.following id kind none sent)
  | broken {id : RequestId} {kind : StreamKind} {task : Option κ} {sent : List StreamFrame}
      {f : StreamFrame} {rest : List StreamFrame} {result : Except IpcError Unit}
      (hsent : ∀ f ∈ sent, S.messages.Fits (.frame f)) (hdue : ∀ f ∈ sent, Due S id f)
      (hf : ¬ S.messages.Fits (.frame f)) :
      Stands ⟨.streaming id false, [], .closed result, stream S.messages (sent.map .frame)⟩
        (.following id kind task (sent ++ f :: rest))
  | finished {id : RequestId} {server : Phase κ} (hserver : server.AtRest) :
      Stands ⟨.streaming id true, [], server, []⟩ (.finished id)
  | closed {server : Phase κ} {down : List UInt8} (hserver : server.AtRest) :
      Stands ⟨.gone, [], server, down⟩ .closed

end Relation

section Turns
variable {ω ι κ : Type} {S : SerdeJson} {H : Handler ω ι κ} {ρ : F64 → F64} {World : ω → Prop}
  {Told : ι → Prop} {Valid : RequestId → κ → Prop} {w : ω} {s : Session κ} {d : Direct κ}

open Session

def Matched (S : SerdeJson) (ρ : F64 → F64) (H : Handler ω ι κ) (Told : ι → Prop)
    (Valid : RequestId → κ → Prop) (d : Direct κ) (r : Session κ × List (Happening ω ι)) : Prop :=
  ∃ d', Path (Direct.Step S ρ H Told) d r.2 d' ∧ Stands S H Valid r.1 d'

theorem Stands.same (h : Stands S H Valid s d) : Matched S ρ H Told Valid d (s, []) :=
  ⟨d, .nil d, h⟩

theorem Stands.quiet (h : Stands S H Valid s d) {cuts : List Nat} {a : Action ι}
    (hserve : s.serve S H w cuts a = (s, [])) :
    Matched S ρ H Told Valid d (s.serve S H w cuts a) := by
  rw [hserve]
  exact h.same

theorem Stands.next {s' : Session κ} {d' : Direct κ} {e : Happening ω ι}
    (hstep : Direct.Step S ρ H Told d e d') (h : Stands S H Valid s' d') :
    Matched S ρ H Told Valid d (s', [e]) :=
  ⟨d', .single hstep, h⟩

theorem stream_snoc {ms : List Message} {m : Message} (hms : ∀ v ∈ ms, S.messages.Fits v)
    (hm : S.messages.Fits m) :
    stream S.messages ms ++ stream S.messages [m] = stream S.messages (ms ++ [m]) :=
  (stream_append hms (List.forall_mem_singleton.mpr hm)).symm

theorem matched_streaming (law : H.Lawful S World Told Valid) (hw : World w)
    {id : RequestId} {kind : StreamKind} {task : Option κ} {sent : List StreamFrame}
    {rx : Channel StreamFrame streamCapacity} (hsent : ∀ f ∈ sent, S.messages.Fits (.frame f))
    (hdue : ∀ f ∈ sent ++ rx.queued, Due S id f) (htask : ∀ k ∈ task, Valid id k)
    (cuts : List Nat) {a : Action ι} (ha : a.Allowed Told) :
    Matched S ρ H Told Valid (.following id kind task (sent ++ rx.queued))
      (serve S H w ⟨.streaming id false, [], .streaming id kind task rx,
        stream S.messages (sent.map .frame)⟩ cuts a) := by
  let s : Session κ := ⟨.streaming id false, [], .streaming id kind task rx,
    stream S.messages (sent.map .frame)⟩
  have hs : s.server = .streaming id kind task rx := rfl
  have hstands : Stands S H Valid s (.following id kind task (sent ++ rx.queued)) :=
    .streaming hsent hdue htask
  show Matched S ρ H Told Valid _ (serve S H w s cuts a)
  have hframes : ∀ m ∈ sent.map Message.frame, S.messages.Fits m := List.forall_mem_map.mpr hsent
  cases a with
  | read | answer | fail =>
    exact hstands.quiet (serve_streaming_quiet hs cuts (by simp) (by simp) (by simp))
  | abort =>
    cases task with
    | none =>
      exact hstands.quiet (serve_streaming_quiet hs cuts (by simp) (by simp) (by simp))
    | some k =>
      rw [serve_abort hs cuts]
      exact Stands.next .aborted (.streaming hsent hdue (by simp))
  | poll told =>
    cases task with
    | none =>
      exact hstands.quiet (serve_streaming_quiet hs cuts (by simp) (by simp) (by simp))
    | some k =>
      have hk := htask k rfl
      rw [serve_poll hs cuts told]
      cases hpoll : H.poll w told k with
      | pending => exact hstands.same
      | resumed k' =>
        refine Stands.next (.resumed hpoll) (.streaming hsent hdue ?_)
        simpa using law.resumed hw ha hk hpoll
      | returned result => exact Stands.next (.ended hpoll) (.streaming hsent hdue (by simp))
      | sending f k' =>
        obtain ⟨hcontinues, hinv, hk'⟩ := law.sending hw ha hk hpoll
        cases hsend : rx.send? f with
        | none =>
          simp only [hsend]
          exact hstands.same
        | some rx' =>
          have hqueued := Channel.queued_send? hsend
          have hall : ∀ g ∈ sent ++ rx'.queued, Due S id g := by
            rw [hqueued, ← List.append_assoc]
            intro g hg
            rcases List.mem_append.mp hg with hg | hg
            · exact hdue g hg
            · rw [List.mem_singleton.mp hg]
              exact ⟨hcontinues, hinv⟩
          have hnext : Stands S H Valid ⟨.streaming id false, [], .streaming id kind (some k') rx',
              stream S.messages (sent.map .frame)⟩
              (.following id kind (some k') (sent ++ rx'.queued)) :=
            .streaming hsent hall (by simpa using hk')
          rw [hqueued, ← List.append_assoc] at hnext
          simp only [hsend]
          exact Stands.next (.sent hpoll) hnext
  | write =>
    cases hrecv : rx.recv? with
    | some x =>
      obtain ⟨f, rx'⟩ := x
      have hqueued := Channel.queued_recv? hrecv
      have hstep : Connection.step S H w ⟨.cut cuts s.up, ⟨[], none⟩, s.server⟩ (.write : Action ι) =
          Connection.write S ⟨.cut cuts s.up, ⟨[], none⟩, s.server⟩ (.frame f)
            (.streaming id kind task rx') := by
        simp only [Connection.step, hs, hrecv]
      rw [hqueued] at hdue ⊢
      rcases serve_frame hs cuts hstep with ⟨hfits, hserve⟩ | ⟨hfits, e, hserve⟩
      · rw [hserve]
        have hmore : ∀ g ∈ sent ++ [f], S.messages.Fits (.frame g) := by
          simpa [or_imp, forall_and] using ⟨hsent, hfits⟩
        have hnext : Stands S H Valid ⟨.streaming id false, [], .streaming id kind task rx',
            stream S.messages ((sent ++ [f]).map .frame)⟩
            (.following id kind task (sent ++ [f] ++ rx'.queued)) :=
          .streaming hmore (by simpa using hdue) htask
        rw [List.map_append, List.map_singleton, ← stream_snoc hframes hfits,
          List.append_assoc, List.singleton_append] at hnext
        exact hnext.same
      · rw [hserve]
        exact (Stands.broken hsent (fun g hg => hdue g (List.mem_append_left _ hg)) hfits).same
    | none =>
      have hempty := Channel.recv?_eq_none_iff.mp hrecv
      cases task with
      | some k =>
        exact hstands.quiet (serve_streaming_quiet hs cuts (by simp) (by simp) (by simp [hempty]))
      | none =>
        have hstep : Connection.step S H w ⟨.cut cuts s.up, ⟨[], none⟩, s.server⟩ (.write : Action ι) =
            Connection.write S ⟨.cut cuts s.up, ⟨[], none⟩, s.server⟩
              (.frame (.endOfStream id kind)) .reading := by
          simp only [Connection.step, hs, hrecv]
        rw [hempty, List.append_nil] at hdue ⊢
        -- the frame that ends the stream always fits
        rcases serve_frame hs cuts hstep with ⟨hfits, hserve⟩ | ⟨hfits, -⟩
        · have hnext : Stands S H Valid ⟨.streaming id false, [], .reading,
              stream S.messages ((sent ++ [StreamFrame.endOfStream id kind]).map .frame)⟩
              (.following id kind none sent) := .drained hsent hdue trivial
          rw [List.map_append, List.map_singleton, ← stream_snoc hframes hfits] at hnext
          rw [hserve]
          exact hnext.same
        · exact absurd (endOfStream_fits id kind) hfits

theorem matched_rest (hup : s.up = []) (hserver : s.server.AtRest) (cuts : List Nat)
    (a : Action ι) (h : ∀ server : Phase κ, server.AtRest →
      (s.client.hungUp = false → server = s.server) →
      Stands S H Valid { s with server := server } d) :
    Matched S ρ H Told Valid d (s.serve S H w cuts a) := by
  obtain ⟨server, hrest, hsame, hserve⟩ := serve_rest (w := w) hup hserver cuts a
  rw [hserve]
  exact (h server hrest hsame).same

def EndMove.Fresh (s : Session κ) : EndMove ι → Prop
  | .serve _ (.read fresh) => s.client ≠ .requested fresh
  | _ => True

theorem matched_serve (law : H.Lawful S World Told Valid) (hS : S.Sound ρ) (hw : World w)
    (h : Stands S H Valid s d) (cuts : List Nat) {a : Action ι} (ha : a.Allowed Told)
    (hfresh : (EndMove.serve cuts a).Fresh s) :
    Matched S ρ H Told Valid d (s.serve S H w cuts a) := by
  cases h with
  | idle =>
    have hserver : Phase.AtRest (.reading : Phase κ) := trivial
    refine matched_rest rfl hserver cuts a fun server _ hsame => ?_
    rw [hsame rfl]
    exact .idle
  | @sent req up hop hup =>
    have hstands : Stands S H Valid _ _ := .sent hop hup
    by_cases hread : ∃ fresh, a = .read fresh
    · obtain ⟨fresh, rfl⟩ := hread
      rw [serve_request rfl hup]
      simp only [hop, Bool.false_eq_true, if_false]
      exact Stands.same .handling
    · exact hstands.quiet (serve_reading_quiet rfl cuts fun fresh hf => hread ⟨fresh, hf⟩)
  | @handling req =>
    let s : Session κ := ⟨.requested req.id, [], .handling req.id req.op, []⟩
    have hs : s.server = .handling req.id req.op := rfl
    rcases serve_handling (S := S) (H := H) (w := w) hs cuts a with ⟨-, hserve⟩ | ⟨r, hr, hserve⟩
    · exact Stands.handling.quiet hserve
    have hstep : Direct.Step S ρ H Told (.asked req) (.answered w r) (.answered req.id r) := by
      rcases hr with ⟨told, rfl, hr⟩ | ⟨e, rfl⟩
      · exact .answered ha hr
      · exact .failed e
    rcases hserve with ⟨hfits, hserve⟩ | ⟨hfits, e, hserve⟩
    · rw [hserve]
      refine Stands.next hstep (.written ?_ hfits trivial fun _ => rfl)
      rcases hr with ⟨told, rfl, hr⟩ | ⟨e, rfl⟩
      · exact (law.handle hw ha hr).2
      · exact inverts_internal hS req.id e
    · rw [hserve]
      exact Stands.next hstep (.unwritten hfits)
  | @garbled id up message hup =>
    have hstands : Stands S H Valid ⟨.requested id, up, .reading, []⟩ (.misread id) := .garbled hup
    by_cases hread : ∃ fresh, a = .read fresh
    · obtain ⟨fresh, rfl⟩ := hread
      have hne : fresh ≠ id := fun heq => hfresh (congrArg Client.requested heq.symm)
      rcases serve_garbled (s := ⟨.requested id, up, .reading, []⟩) (H := H) (w := w) rfl hup cuts
        fresh with ⟨hserve, hfits⟩ | ⟨hserve, hfits⟩
      · rw [hserve, List.nil_append]
        exact Stands.next (.rejected fresh message hne)
          (.written (inverts_internal hS fresh _) hfits trivial fun heq => absurd heq hne)
      · rw [hserve]
        exact Stands.next (.rejected fresh message hne) (.unwritten hfits)
    · exact hstands.quiet (serve_reading_quiet rfl cuts fun fresh hf => hread ⟨fresh, hf⟩)
  | @written id r server hinv hfits hserver hid =>
    refine matched_rest rfl hserver cuts a fun server' hrest hsame => ?_
    exact .written hinv hfits hrest fun heq => (hsame rfl).trans (hid heq)
  | unwritten hfits => exact (Stands.unwritten hfits).quiet (serve_closed rfl cuts a)
  | @subscribed id op up hop hup =>
    have hstands : Stands S H Valid _ _ := .subscribed hop hup
    by_cases hread : ∃ fresh, a = .read fresh
    · obtain ⟨fresh, rfl⟩ := hread
      rw [serve_request rfl hup]
      simp only [hop, if_true]
      have hnext : Stands S H Valid ⟨.streaming id false, [], .streaming id (streamKind op)
          (some (H.handleStream id op)) .empty, stream S.messages (([] : List StreamFrame).map .frame)⟩
          (.following id (streamKind op) (some (H.handleStream id op))
            ([] ++ Channel.empty.queued)) :=
        .streaming (by simp) (by simp) (by simpa using law.spawned hop)
      exact hnext.same
    · exact hstands.quiet (serve_reading_quiet rfl cuts fun fresh hf => hread ⟨fresh, hf⟩)
  | streaming hsent hdue htask => exact matched_streaming law hw hsent hdue htask cuts ha
  | drained hsent hdue hserver =>
    exact matched_rest rfl hserver cuts a fun server' hrest _ => .drained hsent hdue hrest
  | broken hsent hdue hf => exact (Stands.broken hsent hdue hf).quiet (serve_closed rfl cuts a)
  | finished hserver =>
    exact matched_rest rfl hserver cuts a fun server' hrest _ => .finished hrest
  | closed hserver => exact matched_rest rfl hserver cuts a fun server' hrest _ => .closed hrest

theorem matched_request (hS : S.Sound ρ) {id : RequestId} {op : RequestOp} (hop : op.Fits)
    (hkind : isStreaming op = false) :
    Matched S ρ H Told Valid .idle
      (request S ⟨.idle, [], .reading, []⟩ id op : _ × List (Happening ω ι)) := by
  by_cases hfits : S.requests.Fits ⟨id, op⟩
  · simp only [request, send_ok hfits, List.nil_append]
    by_cases hdepth : (Ipc.Request.toValue ⟨id, op⟩).depth ≤ 127
    · refine Stands.next (.called hfits hdepth) (.sent ?_ (reads_request hS hop hfits hdepth))
      exact (isStreaming_mapPayloads _ op).trans hkind
    · obtain ⟨message, hgarbled⟩ := reads_garbled hS hop hfits hdepth
      exact Stands.next (.misread hfits hdepth) (.garbled hgarbled)
  · obtain ⟨len, hsend⟩ := send_error hfits
    simp only [request, hsend]
    exact ⟨.closed, .cons (.tooLarge hfits) (.single (.refused len)), .closed trivial⟩

theorem matched_requestStream (hS : S.Sound ρ) {id : RequestId} {op : RequestOp}
    (hkind : isStreaming op = true) :
    Matched S ρ H Told Valid .idle
      (requestStream S ⟨.idle, [], .reading, []⟩ id op : _ × List (Happening ω ι)) := by
  have hop : op.Fits := by
    cases op with
    | logs | events | trace => trivial
    | submit | list | status | cancel | start | resume | health | gc | shutdown => cases hkind
  obtain ⟨hheard, hdepth⟩ : Request.heard ρ ⟨id, op⟩ = ⟨id, op⟩ ∧
      (Ipc.Request.toValue ⟨id, op⟩).depth ≤ 127 := Request.heard_of_streaming hkind
  by_cases hfits : S.requests.Fits ⟨id, op⟩
  · simp only [requestStream, send_ok hfits, List.nil_append]
    have hup := reads_request hS hop hfits hdepth
    rw [hheard] at hup
    exact Stands.next (.subscribed hfits) (.subscribed hkind hup)
  · obtain ⟨len, hsend⟩ := send_error hfits
    simp only [requestStream, hsend]
    exact ⟨.closed, .cons (.tooLong hfits) (.single (.unfollowed len)), .closed trivial⟩

theorem readFrame_nothing {T : Type} (C : Codec T) (cuts : List Nat) :
    ∃ r', r'.contents = [] ∧ readFrame C (.cut cuts []) = (.error (.unexpectedEof 0 4), r') :=
  readFrame_end (Arrivals.cut_clean cuts []) (Arrivals.cut_contents cuts [])

theorem response_waits (hdown : s.down = []) (hopen : s.server.isClosed = false) (id : RequestId)
    (cuts : List Nat) (buffered : Nat) :
    (s.response S id cuts buffered : _ × List (Happening ω ι)) = (s, []) := by
  obtain ⟨r', -, hread⟩ := readFrame_nothing S.responses cuts
  rw [response, hdown, hread]
  simp only [Waits, hopen, Bool.not_false, if_true]

theorem nextFrame_waits (hdown : s.down = []) (hopen : s.server.isClosed = false) (id : RequestId)
    (cuts : List Nat) :
    (s.nextFrame S id false cuts : _ × List (Happening ω ι)) = (s, []) := by
  obtain ⟨r', -, hread⟩ := readFrame_nothing S.frames cuts
  rw [nextFrame, hdown, hread]
  simp only [Waits, hopen, Bool.not_false, if_true, Bool.false_eq_true, if_false]

theorem matched_response {id : RequestId} (hclient : s.client = .requested id)
    (h : Stands S H Valid s d) (cuts : List Nat) (buffered : Nat) :
    Matched S ρ H Told Valid d (s.response S id cuts buffered : _ × List (Happening ω ι)) := by
  have hstands := h
  cases h with
  | idle | subscribed | streaming | drained | broken | finished | closed => cases hclient
  | sent hop hup =>
    rw [response_waits rfl rfl]
    exact hstands.same
  | handling =>
    rw [response_waits rfl rfl]
    exact hstands.same
  | garbled hup =>
    rw [response_waits rfl rfl]
    exact hstands.same
  | @written id' r server hinv hfits hserver hid =>
    obtain rfl := Client.requested.inj hclient
    obtain ⟨rest, hrest, hread⟩ := readFrame_down (responses_inverts hinv) rfl hfits
      (List.forall_mem_nil _) (Arrivals.cut_clean cuts _) (Arrivals.cut_contents cuts _)
    have hnothing : rest.contents.drop buffered = [] := by
      rw [hrest]
      simp [stream, writeFrames]
    rw [response, hread]
    by_cases heq : r.id = id'
    · have haccept : Client.accept id' r = .ok r := if_neg (not_not_intro heq)
      simp only [haccept, hnothing, hid heq]
      exact Stands.next (.returned hfits heq) .idle
    · have haccept : ∃ e, Client.accept id' r = .error e := ⟨_, if_pos heq⟩
      obtain ⟨e, haccept⟩ := haccept
      have hstep : Direct.Step S ρ H Told (.answered id' r) (.returned (Client.accept id' r)) .closed :=
        .mismatched hfits heq
      rw [haccept] at hstep
      simp only [haccept, hnothing]
      exact Stands.next hstep (.closed hserver)
  | @unwritten id' r result hfits =>
    obtain ⟨rest, -, hread⟩ := readFrame_nothing S.responses cuts
    simp only [response, hread, Waits, Phase.isClosed, Bool.not_true, Bool.false_eq_true, if_false]
    exact Stands.next (.unanswered hfits) (.closed trivial)

theorem nextFrame_arrived {id : RequestId} {f : StreamFrame} {ms : List Message}
    (hf : Due S id f) (hfits : S.messages.Fits (.frame f)) (hms : ∀ m ∈ ms, S.messages.Fits m)
    (up : List UInt8) (server : Phase κ) (cuts : List Nat) :
    (nextFrame S ⟨.streaming id false, up, server, stream S.messages (.frame f :: ms)⟩ id false cuts :
        _ × List (Happening ω ι)) =
      (⟨.streaming id false, up, server, stream S.messages ms⟩, [.yielded (.ok (some f))]) := by
  obtain ⟨rest, hrest, hread⟩ := readFrame_down (frames_inverts hf.2) rfl hfits hms
    (Arrivals.cut_clean cuts _) (Arrivals.cut_contents cuts _)
  have hnext : Client.nextFrame id f = .ok (some f) := by
    rw [Client.nextFrame, if_neg (not_not_intro hf.1.1), hf.1.2]
    simp
  simp only [nextFrame, Bool.false_eq_true, if_false, hread, hnext, hrest]

theorem matched_nextFrame (hS : S.Sound ρ) {id : RequestId} {done : Bool}
    (hclient : s.client = .streaming id done) (h : Stands S H Valid s d) (cuts : List Nat) :
    Matched S ρ H Told Valid d (s.nextFrame S id done cuts : _ × List (Happening ω ι)) := by
  have hstands := h
  cases h with
  | idle | sent | handling | garbled | written | unwritten | closed => cases hclient
  | subscribed hop hup =>
    obtain ⟨rfl, rfl⟩ := Client.streaming.inj hclient
    rw [nextFrame_waits rfl rfl]
    exact hstands.same
  | @streaming id' kind task sent rx hsent hdue htask =>
    obtain ⟨rfl, rfl⟩ := Client.streaming.inj hclient
    cases sent with
    | nil =>
      rw [nextFrame_waits rfl rfl]
      exact hstands.same
    | cons f sent =>
      obtain ⟨hfits, hrest⟩ := List.forall_mem_cons.mp hsent
      obtain ⟨hf, hlater⟩ := List.forall_mem_cons.mp hdue
      rw [List.map_cons, nextFrame_arrived hf hfits (List.forall_mem_map.mpr hrest)]
      exact Stands.next (.yielded hfits) (.streaming hrest hlater htask)
  | @drained id' kind sent server hsent hdue hserver =>
    obtain ⟨rfl, rfl⟩ := Client.streaming.inj hclient
    have hend := endOfStream_fits (S := S) id' kind
    cases sent with
    | nil =>
      obtain ⟨rest, hrest, hread⟩ := readFrame_down
        (frames_inverts (inverts_endOfStream hS id' kind)) rfl hend (List.forall_mem_nil _)
        (Arrivals.cut_clean cuts _) (Arrivals.cut_contents cuts _)
      have hnext : Client.nextFrame id' (.endOfStream id' kind) = .ok none := by
        simp [Client.nextFrame, StreamFrame.endOfStream]
      simp only [nextFrame, Bool.false_eq_true, if_false, List.nil_append, List.map_cons,
        List.map_nil, hread, hnext, hrest]
      exact Stands.next .finished (.finished hserver)
    | cons f sent =>
      obtain ⟨hfits, hrest⟩ := List.forall_mem_cons.mp hsent
      obtain ⟨hf, hlater⟩ := List.forall_mem_cons.mp hdue
      have hall : ∀ m ∈ (sent ++ [StreamFrame.endOfStream id' kind]).map Message.frame,
          S.messages.Fits m := by
        simpa [or_imp, forall_and] using ⟨hrest, hend⟩
      rw [List.cons_append, List.map_cons, nextFrame_arrived hf hfits hall]
      exact Stands.next (.yielded hfits) (.drained hrest hlater hserver)
  | @broken id' kind task sent f rest result hsent hdue hf =>
    obtain ⟨rfl, rfl⟩ := Client.streaming.inj hclient
    cases sent with
    | nil =>
      obtain ⟨r', -, hread⟩ := readFrame_nothing S.frames cuts
      have hdown : stream S.messages (([] : List StreamFrame).map .frame) = [] := rfl
      simp only [nextFrame, Bool.false_eq_true, if_false, hdown, hread, Waits, Phase.isClosed,
        Bool.not_true]
      exact Stands.next (.broken hf) (.closed trivial)
    | cons g sent =>
      obtain ⟨hfits, hrest⟩ := List.forall_mem_cons.mp hsent
      obtain ⟨hg, hlater⟩ := List.forall_mem_cons.mp hdue
      rw [List.map_cons, nextFrame_arrived hg hfits (List.forall_mem_map.mpr hrest)]
      exact Stands.next (.yielded hfits) (.broken hrest hlater hf)
  | finished hserver =>
    obtain ⟨rfl, rfl⟩ := Client.streaming.inj hclient
    exact Stands.next .done hstands

theorem Phase.AtRest.not_streaming {server : Phase κ} (h : server.AtRest) {id : RequestId}
    {kind : StreamKind} {task : Option κ} {rx : Channel StreamFrame streamCapacity} :
    server ≠ .streaming id kind task rx := by
  rintro rfl
  exact h

theorem Stands.of_streaming (h : Stands S H Valid s d) {id : RequestId} {kind : StreamKind}
    {task : Option κ} {rx : Channel StreamFrame streamCapacity}
    (hs : s.server = .streaming id kind task rx) :
    ∃ sent, d = .following id kind task (sent ++ rx.queued) ∧
      s.down = stream S.messages (sent.map .frame) ∧ ∀ f ∈ sent, S.messages.Fits (.frame f) := by
  cases h with
  | idle | sent | handling | garbled | unwritten | subscribed | broken => cases hs
  | written hinv hfits hserver hid => exact absurd hs hserver.not_streaming
  | drained hsent hdue hserver => exact absurd hs hserver.not_streaming
  | finished hserver => exact absurd hs hserver.not_streaming
  | closed hserver => exact absurd hs hserver.not_streaming
  | @streaming id kind task sent rx hsent hdue htask =>
    obtain ⟨rfl, rfl, rfl, rfl⟩ := Phase.streaming.inj hs
    exact ⟨sent, rfl, rfl, hsent⟩

theorem stream_eq_nil {sent : List StreamFrame} (hsent : ∀ f ∈ sent, S.messages.Fits (.frame f))
    (h : stream S.messages (sent.map .frame) = []) : sent = [] := by
  cases sent with
  | nil => rfl
  | cons f sent =>
    obtain ⟨⟨bytes, hbytes, hlen⟩, hrest⟩ := List.forall_mem_cons.mp hsent
    have hlength := congrArg List.length h
    rw [List.map_cons, stream_cons hbytes hlen (List.forall_mem_map.mpr hrest), List.length_append,
      length_frame, List.length_nil] at hlength
    omega

theorem Stands.client (h : Stands S H Valid s d) : s.client = d.client := by
  cases h <;> rfl

/-- What the program calls: `request` with what is answered once, `request_stream` with the rest. -/
def EndMove.Allowed (Told : ι → Prop) : EndMove ι → Prop
  | .request _ op => op.Fits ∧ isStreaming op = false
  | .requestStream _ op => isStreaming op = true
  | .serve _ a => a.Allowed Told
  | _ => True

theorem step_matched (law : H.Lawful S World Told Valid) (hS : S.Sound ρ) (hw : World w)
    (h : Stands S H Valid s d) {turn : EndMove ι} (hturn : turn.Allowed Told) (hfresh : turn.Fresh s) :
    Matched S ρ H Told Valid d (step S H s (w, turn)) := by
  cases turn with
  | serve cuts a =>
    have hstep : step S H s (w, .serve cuts a) = s.serve S H w cuts a := by
      cases hclient : s.client <;> simp only [step, hclient]
    rw [hstep]
    exact matched_serve law hS hw h cuts hturn hfresh
  | request id op =>
    by_cases hidle : s.client = .idle
    · cases h with
      | idle => exact matched_request hS hturn.1 hturn.2
      | _ => cases hidle
    · have hstep : step S H s (w, .request id op) = (s, []) := by
        cases hclient : s.client with
        | idle => exact absurd hclient hidle
        | requested | streaming | gone => simp only [step, hclient]
      rw [hstep]
      exact h.same
  | requestStream id op =>
    by_cases hidle : s.client = .idle
    · cases h with
      | idle => exact matched_requestStream hS hturn
      | _ => cases hidle
    · have hstep : step S H s (w, .requestStream id op) = (s, []) := by
        cases hclient : s.client with
        | idle => exact absurd hclient hidle
        | requested | streaming | gone => simp only [step, hclient]
      rw [hstep]
      exact h.same
  | drop =>
    by_cases hidle : s.client = .idle
    · cases h with
      | idle => exact Stands.next .dropped (.closed trivial)
      | _ => cases hidle
    · have hstep : step S H s (w, .drop) = (s, []) := by
        cases hclient : s.client with
        | idle => exact absurd hclient hidle
        | requested | streaming | gone => simp only [step, hclient]
      rw [hstep]
      exact h.same
  | response cuts buffered =>
    cases hclient : s.client with
    | requested id =>
      simp only [step, hclient]
      exact matched_response hclient h cuts buffered
    | idle | streaming | gone =>
      simp only [step, hclient]
      exact h.same
  | nextFrame cuts =>
    cases hclient : s.client with
    | streaming id done =>
      simp only [step, hclient]
      exact matched_nextFrame hS hclient h cuts
    | idle | requested | gone =>
      simp only [step, hclient]
      exact h.same

/-- Once the handler has answered, the client can have its result. -/
theorem answered_returns {id : RequestId} {r : Response} (h : Stands S H Valid s (.answered id r)) :
    ∃ result, .returned result ∈ (step S H s (w, .response [] 0)).2 := by
  cases h with
  | @written id r server hinv hfits hserver hid =>
    obtain ⟨rest, -, hread⟩ := readFrame_down (responses_inverts hinv) rfl hfits
      (List.forall_mem_nil _) (Arrivals.cut_clean [] _) (Arrivals.cut_contents [] _)
    simp only [step, response, hread]
    cases Client.accept id r with
    | ok resp => exact ⟨.ok resp, List.mem_singleton_self _⟩
    | error e => exact ⟨.error e, List.mem_singleton_self _⟩
  | unwritten hfits =>
    obtain ⟨rest, -, hread⟩ := readFrame_nothing S.responses []
    simp only [step, response, hread, Waits, Phase.isClosed, Bool.not_true, Bool.false_eq_true,
      if_false]
    exact ⟨_, List.mem_singleton_self _⟩

def RequestId.other (id : RequestId) : RequestId := ⟨~~~ id.uuid⟩

theorem RequestId.other_ne (id : RequestId) : id.other ≠ id := by
  intro heq
  have hbit := congrArg (fun i => i.uuid.getLsbD 0) heq
  simp [other] at hbit

theorem Direct.Step.answered_id {req : Ipc.Request} {r : Response} {d' : Direct κ}
    (h : Direct.Step S ρ H Told (.asked req) (.answered w r) d') : d' = .answered req.id r := by
  cases h <;> rfl

theorem handling_answers (law : H.Lawful S World Told Valid) (hS : S.Sound ρ) (hw : World w)
    {told : ι} (htold : Told told) (req : Ipc.Request) :
    ∃ r, Stands S H Valid (serve S H w ⟨.requested req.id, [], .handling req.id req.op, []⟩ []
      (.answer told)).1 (.answered req.id r) := by
  let s : Session κ := ⟨.requested req.id, [], .handling req.id req.op, []⟩
  have hs : s.server = .handling req.id req.op := rfl
  have hstands : Stands S H Valid s (.asked req) := .handling
  obtain ⟨d', hpath, hnext⟩ := matched_serve law hS hw hstands [] (a := .answer told) htold trivial
  rcases serve_handling (S := S) (H := H) (w := w) hs [] (.answer told) with ⟨hno, -⟩ | ⟨r, -, hserve⟩
  · exact absurd rfl (hno told)
  have hout : (s.serve S H w [] (.answer told)).2 = [.answered w r] := by
    rcases hserve with ⟨-, hserve⟩ | ⟨-, e, hserve⟩ <;> rw [hserve]
  rw [hout] at hpath
  cases hpath with
  | cons first rest =>
    cases rest with
    | nil =>
      rw [first.answered_id] at hnext
      exact ⟨r, hnext⟩

def EndMove.Speaks (told : ι) : EndMove ι → Prop
  | .serve _ (.answer told') => told' = told
  | .serve _ (.fail _) => False
  | _ => True

structure Returns (S : SerdeJson) (H : Handler ω ι κ) (Told : ι → Prop) (told : ι) (w : ω)
    (s : Session κ) (turns : List (EndMove ι)) : Prop where
  speaks : ∀ t ∈ turns, t.Speaks told
  allowed : ∀ x ∈ trail (step S H) s (turns.map (w, ·)), x.2.2.Allowed Told ∧ x.2.2.Fresh x.1
  returned : ∃ result, .returned result ∈ (run (step S H) s (turns.map (w, ·))).2

theorem Returns.cons {told : ι} {turn : EndMove ι} {turns : List (EndMove ι)}
    (hspeaks : turn.Speaks told) (hturn : turn.Allowed Told) (hfresh : turn.Fresh s)
    (h : Returns S H Told told w (step S H s (w, turn)).1 turns) :
    Returns S H Told told w s (turn :: turns) := by
  obtain ⟨hsaid, hall, result, hresult⟩ := h
  refine ⟨List.forall_mem_cons.mpr ⟨hspeaks, hsaid⟩, ?_, result, ?_⟩
  · rw [List.map_cons, trail_cons]
    exact List.forall_mem_cons.mpr ⟨⟨hturn, hfresh⟩, hall⟩
  · rw [List.map_cons, run_cons]
    exact List.mem_append_right _ hresult

theorem answered_response {id : RequestId} {r : Response} {told : ι}
    (h : Stands S H Valid s (.answered id r)) : Returns S H Told told w s [.response [] 0] := by
  obtain ⟨result, hresult⟩ := answered_returns (w := w) h
  refine ⟨List.forall_mem_singleton.mpr trivial, ?_, result, ?_⟩
  · rw [List.map_singleton, trail_cons, trail_nil]
    exact List.forall_mem_singleton.mpr ⟨trivial, trivial⟩
  · rw [List.map_singleton, run_cons]
    exact List.mem_append_left _ hresult

theorem handling_returns (law : H.Lawful S World Told Valid) (hS : S.Sound ρ) (hw : World w)
    {told : ι} (htold : Told told) (req : Ipc.Request) :
    Returns S H Told told w ⟨.requested req.id, [], .handling req.id req.op, []⟩
      [.serve [] (.answer told), .response [] 0] := by
  obtain ⟨r, hr⟩ := handling_answers law hS hw htold req
  exact Returns.cons rfl htold trivial (answered_response hr)

theorem call_returns (law : H.Lawful S World Told Valid) (hS : S.Sound ρ) (hw : World w)
    {told : ι} (htold : Told told) (h : Stands S H Valid s d) {id : RequestId}
    (hclient : s.client = .requested id) :
    ∃ turns : List (EndMove ι), turns.length ≤ 3 ∧ Returns S H Told told w s turns := by
  have hstands := h
  cases h with
  | idle | subscribed | streaming | drained | broken | finished | closed => cases hclient
  | @sent req up hop hup =>
    have hfresh : (EndMove.serve [] (.read req.id.other) : EndMove ι).Fresh
        (⟨.requested req.id, up, .reading, []⟩ : Session κ) := fun heq =>
      req.id.other_ne (Client.requested.inj heq).symm
    refine ⟨[.serve [] (.read req.id.other), .serve [] (.answer told), .response [] 0], by simp,
      .cons trivial trivial hfresh ?_⟩
    have hserve := serve_request (s := ⟨.requested req.id, up, .reading, []⟩) (H := H) (w := w) rfl
      hup [] req.id.other
    simp only [hop, Bool.false_eq_true, if_false] at hserve
    simp only [step, hserve]
    exact handling_returns law hS hw htold req
  | @handling req =>
    exact ⟨[.serve [] (.answer told), .response [] 0], by simp, handling_returns law hS hw htold req⟩
  | @garbled id' up message hup =>
    have hfresh : (EndMove.serve [] (.read id'.other) : EndMove ι).Fresh
        (⟨.requested id', up, .reading, []⟩ : Session κ) := fun heq =>
      id'.other_ne (Client.requested.inj heq).symm
    have hmatched : Matched S ρ H Told Valid (.misread id')
        (serve S H w ⟨.requested id', up, .reading, []⟩ [] (.read id'.other)) :=
      matched_serve law hS hw hstands [] trivial hfresh
    refine ⟨[.serve [] (.read id'.other), .response [] 0], by simp, .cons trivial trivial hfresh ?_⟩
    obtain ⟨d', hpath, hnext⟩ := hmatched
    have hout : ∃ r, (serve S H w (⟨.requested id', up, .reading, []⟩ : Session κ) []
        (.read id'.other)).2 = [.answered w r] := by
      rcases serve_garbled (s := ⟨.requested id', up, .reading, []⟩) (H := H) (w := w) rfl hup []
        id'.other with ⟨hserve, -⟩ | ⟨hserve, -⟩ <;> exact ⟨_, congrArg Prod.snd hserve⟩
    obtain ⟨r, hout⟩ := hout
    rw [hout] at hpath
    have hanswered : ∃ r, d' = .answered id' r := by
      cases hpath with
      | cons first rest =>
        cases rest with
        | nil =>
          cases first with
          | rejected fresh message hne => exact ⟨_, rfl⟩
    obtain ⟨r', rfl⟩ := hanswered
    exact answered_response hnext
  | written hinv hfits hserver hid =>
    exact ⟨[.response [] 0], by simp, answered_response hstands⟩
  | unwritten hfits => exact ⟨[.response [] 0], by simp, answered_response hstands⟩

end Turns

end Vcli.Ipc
