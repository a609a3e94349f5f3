import Vcli.Daemon.Following

/-! What a client that asks for the history gets to see: the rows of one moment, whatever happens
to the store while they are sent. -/

namespace Vcli

open Ipc Transducer Simulation

def Ipc.RequestOp.recalls : RequestOp → Option (Option ProgramId)
  | .events false => some none
  | .logs pid false => some (some pid)
  | _ => none

section Listed
variable {σ τ α : Type} {s s' : Store α}

structure Store.Listed (s : Store α) : Prop where
  positive : ∀ e ∈ s.events, 0 < e.id
  ids : (s.events.map StoredEvent.id).Pairwise (· < ·)
  bound : ∀ e ∈ s.events, e.id < s.nextEventId
  next : 0 < s.nextEventId

theorem Store.Listed.prune (h : s.Listed) (hp : s.Pruned s') : s'.Listed := by
  obtain ⟨hnext, keep, hevents⟩ := hp
  refine ⟨?_, ?_, ?_, ?_⟩
  · rw [hevents]
    exact fun e he => h.positive e (List.mem_of_mem_filter he)
  · rw [hevents]
    exact h.ids.sublist (List.filter_sublist.map _)
  · rw [hevents, hnext]
    exact fun e he => h.bound e (List.mem_of_mem_filter he)
  · rw [hnext]
    exact h.next

theorem Store.Listed.append (h : s.Listed) (pid : ProgramId) (ev : Event) :
    (s.attempt (s.appendEvent pid ev)).Listed := by
  unfold Store.appendEvent
  split_ifs
  · refine ⟨?_, ?_, ?_, Nat.succ_pos _⟩
    · intro e he
      rcases List.mem_append.mp he with he | he
      · exact h.positive e he
      · rw [List.mem_singleton.mp he]
        exact h.next
    · show ((s.events ++ [_]).map StoredEvent.id).Pairwise (· < ·)
      rw [List.map_append, List.pairwise_append]
      refine ⟨h.ids, List.pairwise_singleton _ _, ?_⟩
      intro a ha b hb
      obtain ⟨e, he, rfl⟩ := List.mem_map.mp ha
      rw [List.mem_singleton.mp hb]
      exact h.bound e he
    · intro e he
      rcases List.mem_append.mp he with he | he
      · exact Nat.lt_succ_of_lt (h.bound e he)
      · rw [List.mem_singleton.mp he]
        exact Nat.lt_succ_self _
  · exact h

theorem listed_pumpEvent (h : s.Listed) (ev : Event) : (pumpEvent s ev).Listed := by
  unfold pumpEvent
  split
  · next pid _ =>
    obtain ⟨hnext, hevents⟩ := persistProgramEvent_log s pid ev
    exact (h.append pid ev).prune (Store.pruned_of_same hnext hevents)
  · exact h

theorem Broadcasting.step_listed {B : Backends σ τ} {w : Broadcasting σ τ α}
    (h : w.daemon.store.Listed) (i : DaemonInput σ τ α) : (step B w i).1.daemon.store.Listed := by
  cases i with
  | restart L nowMs env => exact h.prune (Store.pruned_of_same rfl rfl)
  | pump =>
    rw [step_pump, Daemon.pump]
    split
    · exact h
    · exact listed_pumpEvent h _
  | request | deliver | bootSend | drain | tick =>
    rw [step_eq _ (by simp)]
    exact h.prune (step_pruned _ rfl)

end Listed

section History
variable {σ τ α : Type}

def firstTurn (h : List (Happening (Broadcasting σ τ α) DaemonHandler.Told)) :
    Option (Broadcasting σ τ α × DaemonHandler.Told) :=
  h.findSome? fun
    | .polled w told => some (w, told)
    | _ => none

def recalled (S : SerdeJson) (id : RequestId) (filterProgram : Option ProgramId)
    (first : Broadcasting σ τ α × DaemonHandler.Told) : List StreamFrame :=
  if first.2.historyRead then
    DaemonHandler.streamHistory S.readF64 S.parseId id filterProgram
      (first.1.daemon.store.events.map (StoredEvent.row S.ryu))
  else []

def pageOf (filterProgram : Option ProgramId) (stored : List StoredEvent) : List Event :=
  ((stored.take DaemonHandler.historyLimit).filter fun e =>
    filterProgram.all fun p => decide (p = e.programId)).map StoredEvent.event

theorem recalled_eq {S : SerdeJson} {ρ : F64 → F64} (hS : S.Sound ρ) (id : RequestId)
    (filterProgram : Option ProgramId) {w : Broadcasting σ τ α} (hsteps : w.OfSteps)
    (htyped : w.Typed) (hlisted : w.daemon.store.Listed) (told : DaemonHandler.Told) :
    recalled S id filterProgram (w, told) =
      if told.historyRead then
        (pageOf filterProgram w.daemon.store.events).map (.ofEvent id)
      else [] := by
  have hdistinct : (w.daemon.store.events.map StoredEvent.id).Nodup :=
    hlisted.ids.imp fun hlt => Nat.ne_of_lt hlt
  let log : EventLog := ⟨w.daemon.store.events, hlisted.positive, hdistinct, htyped.stored⟩
  have horder : log.inOrder = w.daemon.store.events := by
    have hids := List.pairwise_map.mp hlisted.ids
    exact (hids.imp fun hlt => Nat.le_of_lt hlt).insertionSort_eq
  have hread : ∀ e ∈ log.rows, ∀ v ∈ e.event.data.payloads, v.ReadBack ρ 1 := by
    intro e he v hv
    have hstep : v.ReadBack ρ 2 := (hsteps.stored e he).readBack v hv
    obtain ⟨hdepth, hsame⟩ := Json.readBack_iff.mp hstep
    exact Json.readBack_iff.mpr ⟨by omega, hsame⟩
  have hpage := log.streamHistory_of_readBack hS.printed hS.ids id filterProgram hread
  rw [horder] at hpage
  rw [recalled, hpage, pageOf, List.map_map]
  rfl

def Severed (h : List (Happening (Broadcasting σ τ α) DaemonHandler.Told)) : Prop :=
  .aborted ∈ h ∨ ∃ e, .yielded (.error e) ∈ h

end History

inductive Tells (frames : List StreamFrame) (severed : Prop) (id : RequestId) :
    Direct DaemonHandler.Task → List StreamFrame → Prop
  | sending {kind : StreamKind} {ahead given todo : List StreamFrame}
      (hframes : given ++ ahead ++ todo = frames) :
      Tells frames severed id (.following id kind (some ⟨id, .sending todo⟩) ahead) given
  | left {kind : StreamKind} {ahead given : List StreamFrame} (rest : List StreamFrame)
      (hframes : given ++ ahead ++ rest = frames) (hrest : ¬ severed → rest = []) :
      Tells frames severed id (.following id kind none ahead) given
  | gone {d : Direct DaemonHandler.Task} {given : List StreamFrame} (rest : List StreamFrame)
      (hd : d = .finished id ∨ d = .closed) (hframes : given ++ rest = frames)
      (hrest : ¬ severed → rest = []) : Tells frames severed id d given

section Steps
variable {σ τ α : Type} {S : SerdeJson} {debug : RequestOp → String} {ρ : F64 → F64}
  {id : RequestId} {op : RequestOp} {filterProgram : Option ProgramId} {frames : List StreamFrame}
  {severed severed' : Prop} {d d' : Direct DaemonHandler.Task} {given : List StreamFrame}
  {e : Happening (Broadcasting σ τ α) DaemonHandler.Told}
  {h : List (Happening (Broadcasting σ τ α) DaemonHandler.Told)}

theorem Tells.mono (ht : Tells frames severed id d given) (himp : severed → severed') :
    Tells frames severed' id d given := by
  cases ht with
  | sending hframes => exact .sending hframes
  | left rest hframes hrest => exact .left rest hframes fun hno => hrest fun hs => hno (himp hs)
  | gone rest hd hframes hrest =>
    exact .gone rest hd hframes fun hno => hrest fun hs => hno (himp hs)

theorem Tells.step (ht : Tells frames severed id d given) (hstep : Calling.Directly S ρ debug d e d')
    (hsevered : Severed [e] → severed) : Tells frames severed id d' (given ++ framesOf [e]) := by
  cases ht with
  | @sending kind ahead given todo hframes =>
    cases hstep with
    | @resumed _ _ _ task' _ w told hpoll => cases todo <;> cases hpoll
    | @sent _ _ _ task' _ f w told hpoll =>
      cases todo with
      | nil => cases hpoll
      | cons g todo =>
        obtain ⟨rfl, rfl⟩ := Poll.sending.inj hpoll
        refine .sending ?_
        simpa [framesOf] using hframes
    | ended hpoll =>
      cases todo with
      | nil =>
        refine .left [] ?_ fun _ => rfl
        simpa [framesOf] using hframes
      | cons g todo => cases hpoll
    | aborted =>
      refine .left todo ?_ fun hno => absurd (hsevered (.inl List.mem_cons_self)) hno
      simpa [framesOf] using hframes
    | yielded hfits =>
      refine .sending ?_
      simpa [framesOf] using hframes
    | @broken _ _ _ f ahead hfits =>
      refine .gone (f :: ahead ++ todo) (.inr rfl) ?_ fun hno =>
        absurd (hsevered (.inr ⟨_, List.mem_cons_self⟩)) hno
      simpa [framesOf] using hframes
  | @left kind ahead given rest hframes hrest =>
    cases hstep with
    | yielded hfits =>
      refine .left rest ?_ hrest
      simpa [framesOf] using hframes
    | @broken _ _ _ f ahead hfits =>
      refine .gone (f :: ahead ++ rest) (.inr rfl) ?_ fun hno =>
        absurd (hsevered (.inr ⟨_, List.mem_cons_self⟩)) hno
      simpa [framesOf] using hframes
    | finished =>
      refine .gone rest (.inl rfl) ?_ hrest
      simpa [framesOf] using hframes
  | @gone d given rest hd hframes hrest =>
    rcases hd with rfl | rfl
    · cases hstep with
      | done =>
        refine .gone rest (.inl rfl) ?_ hrest
        simpa [framesOf] using hframes
    · cases hstep

theorem recalls_polled (hop : op.recalls = some filterProgram) (w : Broadcasting σ τ α)
    (told : DaemonHandler.Told) : DaemonHandler.pollStream S w told ⟨id, .entered op⟩ =
      .resumed ⟨id, .sending (recalled S id filterProgram (w, told))⟩ := by
  cases op with
  | events follow =>
    cases follow with
    | true => cases hop
    | false =>
      obtain rfl := Option.some.inj hop
      rfl
  | logs pid follow =>
    cases follow with
    | true => cases hop
    | false =>
      obtain rfl := Option.some.inj hop
      rfl
  | submit | list | status | cancel | start | resume | trace | health | gc | shutdown => cases hop

def Recalls (S : SerdeJson) (id : RequestId) (op : RequestOp) (filterProgram : Option ProgramId)
    (d : Direct DaemonHandler.Task)
    (h : List (Happening (Broadcasting σ τ α) DaemonHandler.Told)) : Prop :=
  match firstTurn h with
  | none => Unsubscribed id op d ∧ framesOf h = []
  | some first => Tells (recalled S id filterProgram first) (Severed h) id d (framesOf h)

theorem firstTurn_quiet (h : ∀ w told, e ≠ .polled w told) : firstTurn [e] = none := by
  cases e with
  | polled w told => exact absurd rfl (h w told)
  | _ => rfl

theorem Unsubscribed.recalls (hop : op.recalls = some filterProgram) (hd : Unsubscribed id op d)
    (severed : Prop) (hstep : Calling.Directly S ρ debug d e d') :
    (∃ w told, e = .polled w told ∧
        Tells (recalled S id filterProgram (w, told)) severed id d' []) ∨
      firstTurn [e] = none ∧ framesOf [e] = [] ∧ Unsubscribed id op d' := by
  rcases hd.enters (recalls_polled hop) hstep with
    ⟨w, told, kind, rfl, rfl⟩ | ⟨hquiet, hframes, hd'⟩
  · exact .inl ⟨w, told, rfl, .sending rfl⟩
  · exact .inr ⟨firstTurn_quiet hquiet, hframes, hd'⟩

theorem Recalls.step (hop : op.recalls = some filterProgram)
    (hinv : Recalls S id op filterProgram d h) (hstep : Calling.Directly S ρ debug d e d') :
    Recalls S id op filterProgram d' (h ++ [e]) := by
  have hsevered : Severed h → Severed (h ++ [e]) := by
    rintro (hab | ⟨x, hx⟩)
    · exact .inl (List.mem_append_left _ hab)
    · exact .inr ⟨x, List.mem_append_left _ hx⟩
  have hone : Severed [e] → Severed (h ++ [e]) := by
    rintro (hab | ⟨x, hx⟩)
    · exact .inl (List.mem_append_right _ hab)
    · exact .inr ⟨x, List.mem_append_right _ hx⟩
  have hfirst : firstTurn (h ++ [e]) = (firstTurn h).or (firstTurn [e]) := by
    simp only [firstTurn, List.findSome?_append]
  unfold Recalls at hinv ⊢
  rw [hfirst, framesOf_snoc]
  cases hturn : firstTurn h with
  | some first =>
    rw [hturn] at hinv
    exact (hinv.mono hsevered).step hstep hone
  | none =>
    rw [hturn] at hinv
    obtain ⟨hbefore, hnone⟩ := hinv
    rcases hbefore.recalls hop (Severed (h ++ [e])) hstep with
      ⟨w, told, rfl, htells⟩ | ⟨hat, hframes, hnext⟩
    · rw [hnone]
      exact htells
    · rw [hat, hnone, hframes]
      exact ⟨hnext, rfl⟩

theorem Recalls.path {es : List (Happening (Broadcasting σ τ α) DaemonHandler.Told)}
    (hop : op.recalls = some filterProgram) (hinv : Recalls S id op filterProgram d h)
    (hpath : Path (Calling.Directly S ρ debug) d es d') :
    Recalls S id op filterProgram d' (h ++ es) :=
  hpath.history h (fun _ _ _ _ hstep hinv => hinv.step hop hstep) hinv

theorem isStreaming_of_recalls (hop : op.recalls = some filterProgram) :
    isStreaming op = true := by
  cases op with
  | events | logs => rfl
  | submit | list | status | cancel | start | resume | trace | health | gc | shutdown => cases hop

end Steps

namespace Calling

variable {σ τ α : Type} {B : Backends σ τ} {S : SerdeJson} {debug : RequestOp → String}
  {s : Calling σ τ α} {ρ : F64 → F64} {id : RequestId} {op : RequestOp}
  {filterProgram : Option ProgramId}

theorem run_recalls (hS : S.Sound ρ) (hop : op.recalls = some filterProgram)
    {out : List (Happening (Broadcasting σ τ α) DaemonHandler.Told)} {moves : List (Move σ τ α)}
    (htyped : ∀ x ∈ trail (step B S debug) s moves, x.1.world.Typed)
    (hmoves : ∀ x ∈ trail (step B S debug) s moves, x.2.Allowed ∧ x.2.Fresh x.1)
    (h : ∃ d, Stands S debug s d ∧ Recalls S id op filterProgram d out) :
    ∃ d, Stands S debug (run (step B S debug) s moves).1 d ∧
      Recalls S id op filterProgram d (out ++ (run (step B S debug) s moves).2) := by
  obtain ⟨d, hstands, hrecalls⟩ := h
  obtain ⟨d', hpath, hstands'⟩ := run_path hS htyped hmoves hstands
  exact ⟨d', hstands', hrecalls.path hop hpath⟩

theorem polled_of_firstTurn {h : List (Happening (Broadcasting σ τ α) DaemonHandler.Told)}
    {w : Broadcasting σ τ α} {told : DaemonHandler.Told} (hturn : firstTurn h = some (w, told)) :
    .polled w told ∈ h := by
  obtain ⟨e, he, hsome⟩ := List.exists_of_findSome?_eq_some hturn
  cases e with
  | polled w' told' =>
    obtain ⟨rfl, rfl⟩ := Prod.mk.inj (Option.some.inj hsome)
    exact he
  | called | answered | returned | subscribed | aborted | yielded | dropped => cases hsome

theorem polled_world {moves : List (Move σ τ α)} {w : Broadcasting σ τ α}
    {told : DaemonHandler.Told} (h : .polled w told ∈ (run (step B S debug) s moves).2) :
    ∃ x ∈ trail (step B S debug) s moves, x.1.world = w := by
  obtain ⟨⟨t, m⟩, hx, hpolled⟩ := mem_run_iff.mp h
  refine ⟨(t, m), hx, ?_⟩
  match m with
  | .turn turn => exact (turn_polled hpolled).2.1.symm
  | .daemon (.restart ..) | .daemon (.request ..) | .daemon (.deliver _) | .daemon .bootSend
  | .daemon (.drain ..) | .daemon (.tick ..) | .daemon .pump => cases hpolled

theorem trail_kept (L : Loader α) (nowMs : UnixMs) (env : Env σ τ) (assets : α)
    (past : List (DaemonInput σ τ α)) (moves : List (Move σ τ α)) :
    ∀ x ∈ trail (step B S debug) (connected B L nowMs env assets past) moves,
      x.1.world.OfSteps ∧ x.1.world.daemon.store.Listed := by
  have hfresh : (Broadcasting.start L nowMs env (Store.fresh assets) :
      Broadcasting σ τ α).daemon.store.Listed :=
    ⟨List.forall_mem_nil _, List.Pairwise.nil, List.forall_mem_nil _, Nat.one_pos⟩
  have hstart : (connected B L nowMs env assets past).world.daemon.store.Listed :=
    run_invariant (I := fun w : Broadcasting σ τ α => w.daemon.store.Listed)
      (fun _ i _ hw => Broadcasting.step_listed hw i) hfresh
  have hsteps : Stands S debug (connected B L nowMs env assets past) .idle :=
    connected_stands L nowMs env assets past
  refine trail_invariant (I := fun s : Calling σ τ α =>
    s.world.OfSteps ∧ s.world.daemon.store.Listed) ⟨hsteps.1, hstart⟩ ?_
  rintro ⟨t, m⟩ _ ⟨hkept, hlisted⟩
  refine ⟨step_ofSteps hkept m, ?_⟩
  match m with
  | .turn turn =>
    rw [turn_world]
    exact hlisted
  | .daemon (.restart ..) => exact hlisted
  | .daemon (.request ..) | .daemon (.deliver _) | .daemon .bootSend | .daemon (.drain ..)
  | .daemon (.tick ..) | .daemon .pump => exact Broadcasting.step_listed hlisted _

/-- A client that asks for the history is given events of the first rows of the log, as the log
is at the moment at which its task takes its first turn, from the first on; a stream that ends with
nothing lost has given it all of these. A history that cannot be read is empty. -/
theorem history_complete (hS : S.Sound ρ) (L : Loader α) (nowMs : UnixMs) (env : Env σ τ)
    (assets : α) (past : List (DaemonInput σ τ α)) (hop : op.recalls = some filterProgram)
    (moves : List (Move σ τ α))
    (htyped : ∀ x ∈ trail (step B S debug) (connected B L nowMs env assets past)
      (.turn (.requestStream id op) :: moves), x.1.world.Typed)
    (hmoves : ∀ x ∈ trail (step B S debug) (connected B L nowMs env assets past)
      (.turn (.requestStream id op) :: moves), x.2.Allowed ∧ x.2.Fresh x.1) :
    let r := run (step B S debug) (connected B L nowMs env assets past)
      (.turn (.requestStream id op) :: moves)
    (firstTurn r.2 = none → framesOf r.2 = []) ∧
      ∀ w told, firstTurn r.2 = some (w, told) →
        let shown := if told.historyRead then
          (pageOf filterProgram w.daemon.store.events).map (StreamFrame.ofEvent id) else []
        (∃ x ∈ trail (step B S debug) (connected B L nowMs env assets past)
          (.turn (.requestStream id op) :: moves), x.1.world = w) ∧
        framesOf r.2 <+: shown ∧
          (r.1.session.client = .streaming id true → ¬ Severed r.2 → framesOf r.2 = shown) := by
  intro r
  let first : Move σ τ α := .turn (.requestStream id op)
  let s := connected B L nowMs env assets past
  have hmore : ∀ x ∈ trail (step B S debug) (step B S debug s first).1 moves,
      x ∈ trail (step B S debug) s (first :: moves) := fun x => List.mem_cons_of_mem _
  have hstart : Stands S debug s .idle := connected_stands L nowMs env assets past
  obtain ⟨d₀, hstands₀, hd₀, hout⟩ := requested (B := B) (S := S) (s := s) id hS
    (isStreaming_of_recalls hop) rfl hstart.1
  have hbefore : Recalls S id op filterProgram d₀ (step B S debug s first).2 := by
    rcases hout with hout | ⟨e, hout⟩
    · rw [hout]
      exact ⟨hd₀, rfl⟩
    · rw [hout]
      exact ⟨hd₀, rfl⟩
  obtain ⟨d, hstands, hrecalls⟩ : ∃ d, Stands S debug r.1 d ∧
      Recalls S id op filterProgram d r.2 :=
    run_recalls hS hop (fun x hx => htyped x (hmore x hx)) (fun x hx => hmoves x (hmore x hx))
      ⟨d₀, hstands₀, hbefore⟩
  unfold Recalls at hrecalls
  refine ⟨fun hnone => ?_, fun w told hturn => ?_⟩
  · rw [hnone] at hrecalls
    exact hrecalls.2
  · obtain ⟨x, hx, rfl⟩ := polled_world (polled_of_firstTurn hturn)
    obtain ⟨hsteps, hlisted⟩ := trail_kept L nowMs env assets past _ x hx
    intro shown
    refine ⟨⟨x, hx, rfl⟩, ?_⟩
    have hshown : recalled S id filterProgram (x.1.world, told) = shown :=
      recalled_eq hS id filterProgram hsteps (htyped x hx) hlisted told
    simp only [hturn, hshown] at hrecalls
    generalize hgiven : framesOf r.2 = given at hrecalls
    have hclient := hstands.2.client
    cases hrecalls with
    | @sending kind ahead given todo hframes =>
      refine ⟨⟨ahead ++ todo, ?_⟩, fun hdone => ?_⟩
      · rw [← List.append_assoc]
        exact hframes
      · cases hclient.symm.trans hdone
    | @left kind ahead given rest hframes hrest =>
      refine ⟨⟨ahead ++ rest, ?_⟩, fun hdone => ?_⟩
      · rw [← List.append_assoc]
        exact hframes
      · cases hclient.symm.trans hdone
    | gone rest hd hframes hrest =>
      refine ⟨⟨rest, hframes⟩, fun _ hkept => ?_⟩
      rw [← hframes, hrest hkept, List.append_nil]

def announced : List (DaemonInput Unit Unit Unit) :=
  let L := Loader.constant (Program.blank "demo")
  [.request L 5 ⟨1#128⟩ (.submit .null none), .deliver 0, .drain 6 fun _ => 7, .pump, .pump, .pump]

def remembering : List (Move Unit Unit Unit) :=
  let told : DaemonHandler.Told := { Serving.quiet with historyRead := true }
  [.turn (.serve [] (.read ⟨0#128⟩)), .turn (.serve [] (.poll told)),
    .turn (.serve [] (.poll told)), .turn (.serve [] .write), .turn (.nextFrame [7])]

abbrev remembered : Calling Unit Unit Unit × List (Happening (Broadcasting Unit Unit Unit)
    DaemonHandler.Told) :=
  run (step (Backends.constant (.ok ⟨true, none, 0⟩)) Serving.sampleJson fun _ => "")
    (connected (Backends.constant (.ok ⟨true, none, 0⟩)) (Loader.constant (Program.blank "demo"))
      0 ⟨(), ()⟩ () announced)
    (.turn (.requestStream ⟨2#128⟩ (.logs ⟨1#128⟩ false)) :: remembering)

theorem remembering_allowed (s : Calling Unit Unit Unit)
    (hclient : s.session.client ≠ .requested ⟨0#128⟩) :
    ∀ m ∈ .turn (.requestStream ⟨2#128⟩ (.logs ⟨1#128⟩ false)) :: remembering,
      m.Talks ∧ m.Allowed ∧ m.Fresh s := by
  have htold : ({ Serving.quiet with historyRead := true } : DaemonHandler.Told).Fits :=
    Serving.quiet_fits.historyRead true
  simp [remembering, Move.Talks, Move.Allowed, Move.Fresh, EndMove.Allowed, EndMove.Fresh,
    Action.Allowed, isStreaming, htold, hclient]

theorem history_complete_remembering :
    ∃ w told, firstTurn remembered.2 = some (w, told) ∧
      (pageOf (some ⟨1#128⟩) w.daemon.store.events).length = 2 ∧
      framesOf remembered.2 <+:
        (pageOf (some ⟨1#128⟩) w.daemon.store.events).map (.ofEvent ⟨2#128⟩) := by
  have hidle : (connected (Backends.constant (.ok ⟨true, none, 0⟩))
      (Loader.constant (Program.blank "demo")) 0 ⟨(), ()⟩ () announced).session.client ≠
        .requested ⟨0#128⟩ := show Client.idle ≠ _ by simp
  have hplain : (connected (Backends.constant (.ok ⟨true, none, 0⟩))
      (Loader.constant (Program.blank "demo")) 0 ⟨(), ()⟩ () announced).world.plain = true := by
    decide +kernel
  have hturn : ((firstTurn remembered.2).any fun x => x.2.historyRead &&
      decide ((pageOf (some ⟨1#128⟩) x.1.daemon.store.events).length = 2)) = true := by
    decide +kernel
  obtain ⟨⟨w, told⟩, hfirst, hboth⟩ := (Option.any_eq_true _ _).mp hturn
  rw [Bool.and_eq_true, decide_eq_true_eq] at hboth
  have htrail : ∀ x ∈ trail
      (step (Backends.constant (.ok ⟨true, none, 0⟩)) Serving.sampleJson fun _ => "")
      (connected (Backends.constant (.ok ⟨true, none, 0⟩)) (Loader.constant (Program.blank "demo"))
        0 ⟨(), ()⟩ () announced)
      (.turn (.requestStream ⟨2#128⟩ (.logs ⟨1#128⟩ false)) :: remembering), _ :=
    talks_trail (fun m hm => (remembering_allowed _ hidle m hm).1) hidle
  obtain ⟨-, hall⟩ := history_complete Serving.sampleJson_sound
    (Loader.constant (Program.blank "demo")) 0 ⟨(), ()⟩ () announced rfl remembering
    (fun x hx => by
      rw [(htrail x hx).1]
      exact Broadcasting.typed_of_plain hplain)
    fun x hx => (remembering_allowed x.1 (htrail x hx).2 x.2 (mem_of_mem_trail hx)).2
  obtain ⟨-, hprefix, -⟩ := hall w told hfirst
  rw [if_pos hboth.1] at hprefix
  exact ⟨w, told, hfirst, hboth.2, hprefix⟩

end Calling

end Vcli
