import Vcli.Daemon.Effects
import Vcli.Daemon.Respond

/-! One client of the daemon. Its connection takes its turns between those of the scheduler, of
the pump and of the other clients. -/

namespace Vcli

open Ipc Transducer

namespace Broadcasting

variable {σ τ α : Type} {B : Backends σ τ} {w : Broadcasting σ τ α}

/-- The payloads of all events, stored, on their way and published, are steps. -/
structure OfSteps (w : Broadcasting σ τ α) : Prop where
  stored : ∀ e ∈ w.daemon.store.events, e.event.data.OfSteps
  pending : ∀ ev ∈ w.daemon.events, ev.data.OfSteps
  sent : ∀ ev ∈ w.sent, ev.data.OfSteps

theorem recoveryEvents_ofSteps {nowMs : UnixMs} {recovered : List RecoveredProgram} {ev : Event}
    (h : ev ∈ recoveryEvents nowMs recovered ++ [daemonStarted nowMs]) : ev.data.OfSteps := by
  rcases Daemon.recoveryEvents_data h with ⟨_, hdata⟩ | ⟨_, _, hdata | ⟨_, hdata⟩⟩
  · rw [hdata]
    trivial
  · rw [hdata]
    trivial
  · rw [hdata]
    trivial

theorem start_ofSteps (L : Loader α) (nowMs : UnixMs) (env : Env σ τ) {image : Store α}
    (h : ∀ e ∈ image.events, e.event.data.OfSteps) :
    (start L nowMs env image : Broadcasting σ τ α).OfSteps :=
  ⟨h, fun _ hev => recoveryEvents_ofSteps hev, List.forall_mem_nil _⟩

theorem step_pending (h : w.OfSteps) (i : DaemonInput σ τ α) :
    ∀ ev ∈ (w.daemon.step B i).1.events, ev.data.OfSteps := by
  have heffect := Daemon.step_effect (B := B) (d := w.daemon) i
  generalize (w.daemon.step B i).1 = d' at heffect ⊢
  generalize (w.daemon.step B i).2 = outs at heffect
  cases heffect with
  | restarted L nowMs env => exact fun _ hev => recoveryEvents_ofSteps hev
  | @scheduled j cmds stamps running htakes =>
    intro ev hev
    rcases List.mem_append.mp hev with hev | hev
    · exact h.pending ev hev
    · obtain ⟨m, hm, hobs⟩ := mem_emitAll hev
      exact Scheduler.step_ofSteps j hm hobs
  | pumped hevents =>
    intro ev hev
    exact h.pending ev (hevents ▸ List.mem_cons_of_mem _ hev)
  | stopped | moved | dropped | posted | refused | submitted | resumed | collected =>
    exact h.pending

theorem mem_pumpEvent {s : Store α} {ev : Event} {e : StoredEvent}
    (h : e ∈ (pumpEvent s ev).events) : e ∈ s.events ∨ e.event = ev := by
  unfold pumpEvent at h
  split at h
  · next pid hpid =>
    rw [(persistProgramEvent_log s pid ev).2, Store.appendEvent] at h
    split_ifs at h
    · rcases List.mem_append.mp h with h | h
      · exact .inl h
      · rw [List.mem_singleton.mp h]
        exact .inr rfl
    · exact .inl h
  · exact .inl h

theorem step_stored (h : w.OfSteps) (i : DaemonInput σ τ α) :
    ∀ e ∈ (w.daemon.step B i).1.store.events, e.event.data.OfSteps := by
  cases hpublished : published w.daemon i with
  | nil =>
    obtain ⟨-, keep, hevents⟩ := step_pruned (B := B) i hpublished
    intro e he
    rw [hevents] at he
    exact h.stored e (List.mem_of_mem_filter he)
  | cons ev evs =>
    -- only the pump publishes
    cases i with
    | pump =>
      cases hev : w.daemon.events with
      | nil => simp [published, hev] at hpublished
      | cons ev' rest =>
        intro e he
        rw [Daemon.step, Daemon.pump, hev] at he
        rcases mem_pumpEvent he with he | he
        · exact h.stored e he
        · rw [he]
          exact h.pending ev' (hev ▸ List.mem_cons_self)
    | request | deliver | bootSend | drain | tick | restart => cases hpublished

theorem OfSteps.step (h : w.OfSteps) (i : DaemonInput σ τ α) : (step B w i).1.OfSteps := by
  by_cases hrestart : ∃ L nowMs env, i = .restart L nowMs env
  · obtain ⟨L, nowMs, env, rfl⟩ := hrestart
    exact start_ofSteps L nowMs env h.stored
  · rw [step_eq i fun L nowMs env heq => hrestart ⟨L, nowMs, env, heq⟩]
    refine ⟨step_stored h i, step_pending h i, fun ev hev => ?_⟩
    rcases List.mem_append.mp hev with hev | hev
    · exact h.sent ev hev
    · cases i with
      | pump => exact h.pending ev (List.mem_of_mem_head? (Option.mem_toList.mp hev))
      | request | deliver | bootSend | drain | tick | restart => exact nomatch hev

structure Typed (w : Broadcasting σ τ α) : Prop where
  stored : ∀ e ∈ w.daemon.store.events, e.event.Fits
  sent : ∀ ev ∈ w.sent, ev.Fits

def plain (w : Broadcasting σ τ α) : Bool :=
  let announces (ev : Event) : Bool := decide (0 ≤ ev.at_ ∧ ev.at_ < 2 ^ 63) && match ev.data with
    | .daemonStarted _ | .programSubmitted .. | .programStateChanged .. => true
    | _ => false
  (w.daemon.store.events.all fun e => announces e.event) && w.sent.all announces

theorem typed_of_plain (h : w.plain = true) : w.Typed := by
  have hfits : ∀ ev : Event, (decide (0 ≤ ev.at_ ∧ ev.at_ < 2 ^ 63) && match ev.data with
      | .daemonStarted _ | .programSubmitted .. | .programStateChanged .. => true
      | _ => false) = true → ev.Fits := by
    rintro ⟨at_, data⟩ hev
    rw [Bool.and_eq_true, decide_eq_true_eq] at hev
    obtain ⟨⟨hzero, hbound⟩, hdata⟩ := hev
    refine ⟨⟨le_trans (by decide) hzero, hbound⟩, ?_⟩
    cases data with
    | daemonStarted | programSubmitted | programStateChanged => trivial
    | _ => cases hdata
  rw [plain, Bool.and_eq_true, List.all_eq_true, List.all_eq_true] at h
  exact ⟨fun e he => hfits e.event (h.1 e he), fun ev hev => hfits ev (h.2 ev hev)⟩

end Broadcasting

namespace DaemonHandler

def Shows (id : RequestId) (f : StreamFrame) : Prop :=
  ∃ ev : Event, f = .ofEvent id ev ∧ ev.Fits ∧ ev.data.OfSteps

def Stage.Valid (id : RequestId) : Stage → Prop
  | entered op => isStreaming op = true
  | sending frames => ∀ f ∈ frames, Shows id f
  | following .. => True
  | offering _ _ f => Shows id f

def Task.Valid (id : RequestId) (task : Task) : Prop := task.id = id ∧ task.stage.Valid id

section Law
variable {σ τ α : Type} {S : SerdeJson} {ρ : F64 → F64} (hS : S.Sound ρ) {w : Broadcasting σ τ α}
  {told : Told} {id : RequestId}

theorem Shows.continues {f : StreamFrame} (h : Shows id f) : f.Continues id := by
  obtain ⟨ev, rfl, -⟩ := h
  exact ⟨rfl, rfl⟩

include hS in
theorem Shows.inverts {f : StreamFrame} (h : Shows id f) : S.messages.Inverts (.frame f) := by
  obtain ⟨ev, rfl, hfits, hsteps⟩ := h
  refine Message.inverts hS ⟨fun ev' hev' => ?_, nofun⟩ ⟨fun ev' hev' => ?_, nofun⟩
  · rw [← Option.some.inj hev']
    exact hfits
  · rw [← Option.some.inj hev']
    exact hsteps.readBack

theorem shows_dropped (h : told.Fits) (n : Nat) : Shows id (dropped id told.nowMs n) :=
  ⟨_, rfl, ⟨h.nowMs, h.nowMs⟩, trivial⟩

theorem mem_selectEvents {rows : List EventRow} {since : Int} {limit : Nat} {row : EventRow}
    (h : row ∈ selectEvents rows since limit) : row ∈ rows :=
  List.mem_of_mem_filter ((List.mem_insertionSort _).mp (List.mem_of_mem_take h))

include hS in
theorem shows_history (hsteps : w.OfSteps) (htyped : w.Typed) {filterProgram : Option ProgramId}
    {f : StreamFrame} (hf : f ∈ streamHistory S.readF64 S.parseId id filterProgram
      (w.daemon.store.events.map (StoredEvent.row S.ryu))) : Shows id f := by
  obtain ⟨row, hrow, hsome⟩ := List.mem_filterMap.mp hf
  obtain ⟨e, he, rfl⟩ := List.mem_map.mp (mem_selectEvents hrow)
  have hfits := htyped.stored e he
  have hpayloads := hsteps.stored e he
  split_ifs at hsome
  obtain ⟨ev, hread, rfl⟩ := Option.map_eq_some_iff.mp hsome
  have hsame : e.event.mapPayloads (Json.renumber ρ) = e.event :=
    Event.mapPayloads_eq_iff.mpr fun v hv => (Json.readBack_iff.mp (hpayloads.readBack v hv)).2
  rw [StoredEvent.row, decode_encode hS.printed _ (Event.wellFormed hfits),
    Event.fromValue_render (rendering_renumber ρ) hS.ids hfits, hsame] at hread
  obtain ⟨-, hev⟩ := Option.ite_none_right_eq_some.mp hread
  rw [← Option.some.inj hev]
  exact ⟨e.event, rfl, hfits, hpayloads⟩

include hS in
theorem valid_streamEvents (hsteps : w.OfSteps) (htyped : w.Typed)
    (filterProgram : Option ProgramId) (follow : Bool) :
    Task.Valid id ⟨id, streamEvents S w told id filterProgram follow⟩ := by
  refine ⟨rfl, ?_⟩
  cases follow with
  | true => exact trivial
  | false =>
    show ∀ f ∈ (if told.historyRead then _ else []), Shows id f
    split_ifs
    · exact fun f hf => shows_history hS hsteps htyped hf
    · exact List.forall_mem_nil _

theorem valid_followEvents (hsteps : w.OfSteps) (htyped : w.Typed) (htold : told.Fits)
    {filterProgram : Option ProgramId} {next : Nat} :
    (∀ task, followEvents w told id filterProgram next = .resumed task → Task.Valid id task) ∧
      ∀ f task, followEvents w told id filterProgram next ≠ .sending f task := by
  unfold followEvents
  split
  · next ev next' hrecv =>
    have hmem := Broadcast.mem_of_recv hrecv
    split_ifs
    · refine ⟨fun task htask => ?_, fun f task => by simp⟩
      obtain rfl := Poll.resumed.inj htask
      exact ⟨rfl, ev, rfl, htyped.sent ev hmem, hsteps.sent ev hmem⟩
    · refine ⟨fun task htask => ?_, fun f task => by simp⟩
      obtain rfl := Poll.resumed.inj htask
      exact ⟨rfl, trivial⟩
  · refine ⟨fun task htask => ?_, fun f task => by simp⟩
    obtain rfl := Poll.resumed.inj htask
    exact ⟨rfl, shows_dropped htold _⟩
  · split_ifs
    · exact ⟨fun task htask => by simp at htask, fun f task => by simp⟩
    · exact ⟨fun task htask => by simp at htask, fun f task => by simp⟩

include hS in
theorem valid_resumed {task task' : Task} (hsteps : w.OfSteps) (htyped : w.Typed)
    (htold : told.Fits) (h : Task.Valid id task)
    (hpoll : pollStream S w told task = .resumed task') : Task.Valid id task' := by
  obtain ⟨taskId, stage⟩ := task
  obtain ⟨hid, hstage⟩ := h
  obtain rfl : taskId = id := hid
  cases stage with
  | entered op =>
    cases op with
    | events follow =>
      rw [← Poll.resumed.inj hpoll]
      exact valid_streamEvents hS hsteps htyped none follow
    | logs pid follow =>
      rw [← Poll.resumed.inj hpoll]
      exact valid_streamEvents hS hsteps htyped (some pid) follow
    | trace pid => simp [pollStream] at hpoll
    | submit | list | status | cancel | start | resume | health | gc | shutdown =>
      -- the branch that sends an end of its own is for none of the streams
      exact nomatch hstage
  | sending frames => cases frames <;> simp [pollStream] at hpoll
  | following filterProgram next =>
    simp only [pollStream] at hpoll
    exact (valid_followEvents hsteps htyped htold).1 task' hpoll
  | offering filterProgram next f => simp [pollStream] at hpoll

theorem valid_sending {task task' : Task} {f : StreamFrame} (hsteps : w.OfSteps)
    (htyped : w.Typed) (htold : told.Fits) (h : Task.Valid id task)
    (hpoll : pollStream S w told task = .sending f task') : Shows id f ∧ Task.Valid id task' := by
  obtain ⟨taskId, stage⟩ := task
  obtain ⟨hid, hstage⟩ := h
  obtain rfl : taskId = id := hid
  cases stage with
  | entered op => cases op <;> simp [pollStream] at hpoll
  | sending frames =>
    cases frames with
    | nil => simp [pollStream] at hpoll
    | cons g frames =>
      obtain ⟨hf, hnext⟩ := Poll.sending.inj hpoll
      rw [← hf, ← hnext]
      have hrest : Stage.Valid taskId (.sending frames) := fun f hf =>
        hstage f (List.mem_cons_of_mem g hf)
      exact ⟨hstage g List.mem_cons_self, rfl, hrest⟩
  | following filterProgram next =>
    simp only [pollStream] at hpoll
    exact absurd hpoll ((valid_followEvents hsteps htyped htold).2 f task')
  | offering filterProgram next g =>
    obtain ⟨hf, hnext⟩ := Poll.sending.inj hpoll
    rw [← hf, ← hnext]
    exact ⟨hstage, rfl, trivial⟩

include hS in
/-- The daemon keeps what a handler has to promise. -/
theorem handler_lawful (debug : RequestOp → String) :
    (handler S debug : Handler (Broadcasting σ τ α) Told Task).Lawful S
      (fun w => w.OfSteps ∧ w.Typed) Told.Fits Task.Valid where
  handle := by
    intro w told id op r _ htold hr
    rw [← Except.ok.inj hr]
    exact ⟨rfl, Message.inverts hS (respond_fits htold debug op) (respond_readBack debug op ρ)⟩
  spawned hop := ⟨rfl, hop⟩
  resumed hw htold htask hpoll := valid_resumed hS hw.1 hw.2 htold htask hpoll
  sending := by
    intro w told id task f task' hw htold htask hpoll
    obtain ⟨hf, hnext⟩ := valid_sending hw.1 hw.2 htold htask hpoll
    exact ⟨hf.continues, hf.inverts hS, hnext⟩

end Law

end DaemonHandler

structure Serving (σ τ α : Type) where
  world : Broadcasting σ τ α
  conn : Connection DaemonHandler.Task

namespace Serving

inductive Move (σ τ α : Type)
  | daemon (i : DaemonInput σ τ α)
  | conn (a : Action DaemonHandler.Told)

variable {σ τ α : Type} (B : Backends σ τ) (S : SerdeJson) (debug : RequestOp → String)

/-- The connection is one of a single process: a restart is none of its moves. -/
def step (s : Serving σ τ α) : Move σ τ α → Serving σ τ α × List Message
  | .daemon (.restart ..) => (s, [])
  | .daemon i => ({ s with world := (s.world.step B i).1 }, [])
  | .conn a =>
    let r := s.conn.step S (DaemonHandler.handler S debug) s.world a
    ({ s with conn := r.1 }, r.2)

def Move.Fits : Move σ τ α → Prop
  | daemon _ => True
  | conn a => a.Allowed DaemonHandler.Told.Fits

def quiet : DaemonHandler.Told where
  nowMs := 0
  uptimeMs := 0
  submit _ _ := .error { code := .internal, message := "" }
  listPrograms _ := .ok []
  getProgram _ := .error ""
  sent := false
  resume _ _ := .error ""
  gcAll := .error ""
  historyRead := false
  eventsClosed := true

theorem quiet_fits : quiet.Fits where
  nowMs := ⟨by decide, by decide⟩
  uptimeMs := by decide
  submit := by
    intro program baseDir e he
    rw [← Except.error.inj he]
    exact ⟨nofun, nofun, nofun⟩
  listPrograms := by
    intro filter rows hrows
    rw [← Except.ok.inj hrows]
    exact List.forall_mem_nil _
  getProgram _ _ := nofun
  resumeError _ _ _ := nofun
  resume _ _ _ := nofun
  gcAll _ := nofun

variable {B S debug} {s : Serving σ τ α}

theorem step_conn (a : Action DaemonHandler.Told) :
    step B S debug s (.conn a) =
      (⟨s.world, (s.conn.step S (DaemonHandler.handler S debug) s.world a).1⟩,
        (s.conn.step S (DaemonHandler.handler S debug) s.world a).2) := rfl

theorem run_conn (as : List (Action DaemonHandler.Told)) :
    (run (step B S debug) s (as.map .conn)).1 = ⟨s.world,
      (run (Connection.step S (DaemonHandler.handler S debug) s.world) s.conn as).1⟩ := by
  induction as generalizing s with
  | nil => rfl
  | cons a as ih => rw [List.map_cons, run_cons, step_conn, ih, run_cons]

theorem step_ofSteps (h : s.world.OfSteps) (m : Move σ τ α) :
    (step B S debug s m).1.world.OfSteps := by
  match m with
  | .conn a => exact h
  | .daemon (.restart ..) => exact h
  | .daemon (.request ..) | .daemon (.deliver _) | .daemon .bootSend | .daemon (.drain ..)
  | .daemon (.tick ..) | .daemon .pump => exact h.step _

theorem step_serves {ρ : F64 → F64} (hS : S.Sound ρ) {reqs : List Ipc.Request}
    {out : List Message} (hworld : s.world.OfSteps ∧ s.world.Typed) {m : Move σ τ α}
    (hm : m.Fits) (h : s.conn.Serves S DaemonHandler.Task.Valid reqs out)
    (hfits : ∀ v ∈ (step B S debug s m).2, S.messages.Fits v) :
    (step B S debug s m).1.conn.Serves S DaemonHandler.Task.Valid reqs
      (out ++ (step B S debug s m).2) := by
  match m with
  | .conn a =>
    rw [step_conn] at hfits ⊢
    exact h.step (DaemonHandler.handler_lawful hS debug) hS hworld hm hfits
  | .daemon (.restart ..) => exact h.same
  | .daemon (.request ..) | .daemon (.deliver _) | .daemon .bootSend | .daemon (.drain ..)
  | .daemon (.tick ..) | .daemon .pump => exact h.same

/-- As long as everything fits, the world and the connection keep their invariants. -/
theorem run_serves {ρ : F64 → F64} (hS : S.Sound ρ) {reqs : List Ipc.Request}
    {moves : List (Move σ τ α)} (hmoves : ∀ m ∈ moves, m.Fits)
    (htyped : ∀ x ∈ trail (step B S debug) s moves, x.1.world.Typed) (hsteps : s.world.OfSteps)
    (h : s.conn.Serves S DaemonHandler.Task.Valid reqs [])
    (hfits : ∀ m ∈ (run (step B S debug) s moves).2, S.messages.Fits m) :
    (run (step B S debug) s moves).1.conn.Serves S DaemonHandler.Task.Valid reqs
      (run (step B S debug) s moves).2 := by
  let Holds : Serving σ τ α → List Message → Prop := fun s out =>
    (∀ m ∈ out, S.messages.Fits m) →
      s.world.OfSteps ∧ s.conn.Serves S DaemonHandler.Task.Valid reqs out
  have hstep : ∀ x ∈ trail (step B S debug) s moves, ∀ out, Holds x.1 out →
      Holds (step B S debug x.1 x.2).1 (out ++ (step B S debug x.1 x.2).2) := by
    intro x hx out ih hall
    obtain ⟨hsteps, hserves⟩ := ih fun m hm => hall m (List.mem_append_left _ hm)
    have hnext := hmoves x.2 (mem_of_mem_trail hx)
    have hwritten : ∀ m ∈ (step B S debug x.1 x.2).2, S.messages.Fits m := fun m hm =>
      hall m (List.mem_append_right _ hm)
    exact ⟨step_ofSteps hsteps x.2,
      step_serves hS ⟨hsteps, htyped x hx⟩ hnext hserves hwritten⟩
  have hrun : Holds (run (step B S debug) s moves).1 ([] ++ (run (step B S debug) s moves).2) :=
    run_trail_history hstep fun _ => ⟨hsteps, h⟩
  exact (hrun hfits).2

/-- The answers on a connection, whatever else the daemon does between the turns of the connection
and of its stream tasks. -/
theorem connection_protocol {ρ : F64 → F64} (hS : S.Sound ρ) (L : Loader α) (nowMs : UnixMs)
    (env : Env σ τ) (assets : α) (past : List (DaemonInput σ τ α)) {input : Transport.Arrivals UInt8}
    {reqs : List Ipc.Request}
    (hinput : readFrames S.requests input = (reqs, .unexpectedEof 0 4)) :
    let world := (run (Broadcasting.step B)
      (Broadcasting.start L nowMs env (Store.fresh assets)) past).1
    ∀ moves : List (Move σ τ α), (∀ m ∈ moves, m.Fits) →
      (∀ x ∈ trail (step B S debug) ⟨world, .accept input⟩ moves, x.1.world.Typed) →
      (∀ m ∈ (run (step B S debug) ⟨world, .accept input⟩ moves).2, S.messages.Fits m) →
      let r := run (step B S debug) ⟨world, .accept input⟩ moves
      (∀ a : Transport.Arrivals UInt8, a.Clean → a.contents = r.1.conn.sink.sent →
        readFrames S.messages a = (r.2, .unexpectedEof 0 4)) ∧
      Answering reqs r.2 ∧
      (∀ result, r.1.conn.phase = .closed result → result = .ok () ∧ Answers reqs r.2) ∧
      ∃ more : List (Move σ τ α), (∀ m ∈ more, m.Fits) ∧
        ∃ result, (run (step B S debug) r.1 more).1.conn.phase = .closed result := by
  intro world moves hmoves htyped hfits r
  have hworld : world.OfSteps := by
    refine run_invariant (fun w i _ hw => hw.step i) ?_
    exact Broadcasting.start_ofSteps L nowMs env (List.forall_mem_nil _)
  have hserves := run_serves hS hmoves htyped hworld (Connection.serves_accept hinput) hfits
  refine ⟨fun a hclean hcontents => hserves.readFrames hclean hcontents, hserves.answering,
    fun result hclosed => hserves.answers hclosed, ?_⟩
  obtain ⟨as, has, result, hclosed⟩ := Connection.reaches_closed S
    (DaemonHandler.handler S debug) r.1.world quiet ⟨0#128⟩ quiet_fits r.1.conn
  refine ⟨as.map .conn, List.forall_mem_map.mpr has, result, ?_⟩
  rw [run_conn]
  exact hclosed

def sampleJson : SerdeJson := ⟨printBits, readBits, readId, fun _ => "expected value"⟩

theorem sampleJson_sound : sampleJson.Sound id := ⟨shortest_printBits.printed, readId_toString⟩

def watching : List Ipc.Request := [⟨sampleId, .health⟩, ⟨⟨1#128⟩, .events true⟩]

def watchingInput : Transport.Arrivals UInt8 :=
  [.piece (stream sampleJson.requests watching) (by decide +kernel)]

theorem readFrames_watchingInput :
    readFrames sampleJson.requests watchingInput = (watching, .unexpectedEof 0 4) := by
  apply readFrames_stream
  · intro r hr
    rcases List.mem_cons.mp hr with rfl | hr
    · exact Request.inverts sampleJson_sound trivial nofun
    · rw [List.mem_singleton.mp hr]
      exact Request.inverts sampleJson_sound trivial nofun
  · intro r hr
    rcases List.mem_cons.mp hr with rfl | hr
    · exact ⟨_, rfl, by decide +kernel⟩
    · rw [List.mem_singleton.mp hr]
      exact ⟨_, rfl, by decide +kernel⟩
  · exact List.forall_mem_singleton.mpr ⟨_, _, rfl⟩
  · exact List.append_nil _

def abandoned : List (Move Unit Unit Unit) :=
  [.conn (.read ⟨0#128⟩), .conn (.answer quiet), .conn (.read ⟨0#128⟩), .conn (.poll quiet),
    .daemon .pump, .conn (.poll quiet), .conn (.poll quiet), .conn .abort, .conn .write,
    .conn .write, .conn (.read ⟨0#128⟩)]

def abandonedRun : Serving Unit Unit Unit × List Message :=
  run (step (Backends.constant (.ok ⟨true, none, 0⟩)) sampleJson fun _ => "")
    ⟨.start (Loader.constant (Program.blank "demo")) 0 ⟨(), ()⟩ (.fresh ()), .accept watchingInput⟩
    abandoned

theorem abandoned_fits : ∀ m ∈ abandoned, m.Fits := by
  intro m hm
  simp only [abandoned, List.mem_cons, List.not_mem_nil, or_false] at hm
  rcases hm with rfl | rfl | rfl | rfl | rfl | rfl | rfl | rfl | rfl | rfl | rfl <;>
    first | exact trivial | exact quiet_fits

theorem abandoned_typed : ∀ x ∈ trail
    (step (Backends.constant (.ok ⟨true, none, 0⟩)) sampleJson fun _ => "")
    ⟨.start (Loader.constant (Program.blank "demo")) 0 ⟨(), ()⟩ (.fresh ()), .accept watchingInput⟩
    abandoned, x.1.world.Typed := by
  have hall : (trail (step (Backends.constant (.ok ⟨true, none, 0⟩)) sampleJson fun _ => "")
      ⟨.start (Loader.constant (Program.blank "demo")) 0 ⟨(), ()⟩ (.fresh ()),
        .accept watchingInput⟩ abandoned).all (fun x => x.1.world.plain) = true := by
    decide +kernel
  exact fun x hx => Broadcasting.typed_of_plain (List.all_eq_true.mp hall x hx)

theorem connection_protocol_abandoned :
    abandonedRun.1.conn.phase = .closed (.ok ()) ∧ Answers watching abandonedRun.2 := by
  have hclosed : abandonedRun.1.conn.phase.isClosed = true := by decide +kernel
  obtain ⟨result, hresult⟩ := Phase.isClosed_iff.mp hclosed
  have hfits : abandonedRun.2.all fun m =>
      decide ((m.toValue.encode printBits).length ≤ maxFrameLen) := by decide +kernel
  obtain ⟨-, -, hanswers, -⟩ := connection_protocol sampleJson_sound
    (Loader.constant (Program.blank "demo")) 0 ⟨(), ()⟩ () [] readFrames_watchingInput abandoned
    abandoned_fits abandoned_typed fun m hm =>
      ⟨_, rfl, of_decide_eq_true (List.all_eq_true.mp hfits m hm)⟩
  obtain ⟨rfl, hout⟩ := hanswers result hresult
  exact ⟨hresult, hout⟩

end Serving

end Vcli
