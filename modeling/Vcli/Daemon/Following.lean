import Vcli.Daemon.Calling

/-! What a client that follows the events gets to see: every event that is published after it has
subscribed, in order and once, but for gaps whose length it is told. -/

namespace Vcli

open Ipc Transducer Simulation Broadcast

inductive Delivery
  | event (ev : Event)
  | gap (n : Nat) (nowMs : UnixMs)

namespace Delivery

def item : Delivery → Item Event
  | event ev => .entry ev
  | gap n _ => .missed n

def frames (id : RequestId) (filterProgram : Option ProgramId) : Delivery → List StreamFrame
  | event ev =>
    if filterProgram.all fun p => decide (ev.data.programIdOf = some p) then [.ofEvent id ev]
    else []
  | gap n nowMs => [DaemonHandler.dropped id nowMs n]

end Delivery

def Ipc.RequestOp.follows : RequestOp → Option (Option ProgramId)
  | .events true => some none
  | .logs pid true => some (some pid)
  | _ => none

section History
variable {σ τ α : Type}

def subscribedAt (h : List (Happening (Broadcasting σ τ α) DaemonHandler.Told)) : Option Nat :=
  h.findSome? fun
    | .polled w _ => some w.sent.length
    | _ => none

def framesOf (h : List (Happening (Broadcasting σ τ α) DaemonHandler.Told)) : List StreamFrame :=
  h.filterMap fun
    | .yielded (.ok (some f)) => some f
    | _ => none

end History

/-- The deliveries stand for the log from one position to another. There are gaps among them only
if the subscriber has been too far behind. -/
structure Delivered (log : List Event) (behind : Prop) (start : Nat) (ds : List Delivery)
    (next : Nat) : Prop where
  covers : Covers log start (ds.map Delivery.item) next
  gaps : ∀ n nowMs, Delivery.gap n nowMs ∈ ds → behind

/-- The frames that the client has been given, and those that are still on their way, stand for
what was published since the subscription. -/
inductive Follows (log : List Event) (behind : Prop) (id : RequestId)
    (filterProgram : Option ProgramId) (start : Nat) :
    Direct DaemonHandler.Task → List StreamFrame → Prop
  | following {kind : StreamKind} {ahead given : List StreamFrame} (ds : List Delivery)
      {next : Nat} (hds : Delivered log behind start ds next)
      (hframes : given ++ ahead = ds.flatMap (Delivery.frames id filterProgram)) :
      Follows log behind id filterProgram start
        (.following id kind (some ⟨id, .following filterProgram next⟩) ahead) given
  | offering {kind : StreamKind} {ahead given : List StreamFrame} (ds : List Delivery)
      {next : Nat} {f : StreamFrame} (hds : Delivered log behind start ds next)
      (hframes : given ++ ahead ++ [f] = ds.flatMap (Delivery.frames id filterProgram)) :
      Follows log behind id filterProgram start
        (.following id kind (some ⟨id, .offering filterProgram next f⟩) ahead) given
  | left {kind : StreamKind} {ahead given : List StreamFrame} (rest : List StreamFrame)
      {ds : List Delivery} {next : Nat} (hds : Delivered log behind start ds next)
      (hframes : given ++ ahead ++ rest = ds.flatMap (Delivery.frames id filterProgram)) :
      Follows log behind id filterProgram start (.following id kind none ahead) given
  | gone {d : Direct DaemonHandler.Task} {given : List StreamFrame} (rest : List StreamFrame)
      {ds : List Delivery} {next : Nat} (hd : d = .finished id ∨ d = .closed)
      (hds : Delivered log behind start ds next)
      (hframes : given ++ rest = ds.flatMap (Delivery.frames id filterProgram)) :
      Follows log behind id filterProgram start d given

def Unsubscribed (id : RequestId) (op : RequestOp) (d : Direct DaemonHandler.Task) : Prop :=
  d = .following id (streamKind op) (some ⟨id, .entered op⟩) [] ∨
    (∃ kind, d = .following id kind none []) ∨ d = .finished id ∨ d = .closed

section Steps
variable {σ τ α : Type} {S : SerdeJson} {debug : RequestOp → String} {ρ : F64 → F64}
  {log log' : List Event} {id : RequestId} {op : RequestOp} {filterProgram : Option ProgramId}
  {start : Nat} {d d' : Direct DaemonHandler.Task} {given : List StreamFrame}
  {w : Broadcasting σ τ α} {told : DaemonHandler.Told} {behind : Prop} {ds : List Delivery}
  {next : Nat}

theorem Delivered.mono (h : Delivered log behind start ds next) (hlog : log <+: log') :
    Delivered log' behind start ds next := ⟨h.covers.mono hlog, h.gaps⟩

theorem Delivered.event (h : Delivered log behind start ds next) {ev : Event}
    (hev : log[next]? = some ev) : Delivered log behind start (ds ++ [.event ev]) (next + 1) := by
  constructor
  · rw [List.map_append]
    exact h.covers.snoc_entry hev
  · intro n nowMs hgap
    exact h.gaps n nowMs (by simpa using hgap)

theorem Delivered.gap (h : Delivered log behind start ds next) {n : Nat} (nowMs : UnixMs)
    (hn : next + n ≤ log.length) (hbehind : behind) :
    Delivered log behind start (ds ++ [.gap n nowMs]) (next + n) := by
  constructor
  · rw [List.map_append]
    exact h.covers.snoc_missed hn
  · exact fun _ _ _ => hbehind

theorem Follows.mono (h : Follows log behind id filterProgram start d given) (hlog : log <+: log') :
    Follows log' behind id filterProgram start d given := by
  cases h with
  | following ds hds hframes => exact .following ds (hds.mono hlog) hframes
  | offering ds hds hframes => exact .offering ds (hds.mono hlog) hframes
  | left rest hds hframes => exact .left rest (hds.mono hlog) hframes
  | gone rest hd hds hframes => exact .gone rest hd (hds.mono hlog) hframes

def Lags (log : List Event) (next : Nat) : Prop :=
  DaemonHandler.broadcastCapacity < log.length - next

theorem Follows.polled {kind : StreamKind} {ahead : List StreamFrame}
    (hds : Delivered w.sent behind start ds next)
    (hframes : given ++ ahead = ds.flatMap (Delivery.frames id filterProgram))
    (hlag : Lags w.sent next → behind) {task : DaemonHandler.Task}
    (hpoll : DaemonHandler.followEvents w told id filterProgram next = .resumed task) :
    Follows w.sent behind id filterProgram start (.following id kind (some task) ahead) given := by
  unfold DaemonHandler.followEvents at hpoll
  cases hrecv : recv DaemonHandler.broadcastCapacity w.sent next with
  | entry ev next' =>
    obtain ⟨hev, rfl⟩ := recv_entry hrecv
    simp only [hrecv] at hpoll
    -- an event that does not concern the subscriber is passed over
    split_ifs at hpoll with hmine
    · obtain rfl := Poll.resumed.inj hpoll
      refine .offering (ds ++ [.event ev]) (hds.event hev) ?_
      rw [hframes, List.flatMap_append]
      simp [Delivery.frames, hmine]
    · obtain rfl := Poll.resumed.inj hpoll
      refine .following (ds ++ [.event ev]) (hds.event hev) ?_
      rw [hframes, List.flatMap_append]
      simp [Delivery.frames, hmine]
  | lagged n next' =>
    obtain ⟨rfl, hle, hbehind⟩ := recv_lagged hrecv
    simp only [hrecv] at hpoll
    obtain rfl := Poll.resumed.inj hpoll
    refine .offering (ds ++ [.gap n told.nowMs]) (hds.gap told.nowMs hle (hlag hbehind)) ?_
    rw [hframes, List.flatMap_append]
    simp [Delivery.frames]
  | empty =>
    simp only [hrecv] at hpoll
    split_ifs at hpoll

theorem poll_following {next : Nat} :
    (DaemonHandler.handler S debug : Handler (Broadcasting σ τ α) _ _).poll w told
      ⟨id, .following filterProgram next⟩ =
        DaemonHandler.followEvents w told id filterProgram next := by
  simp only [DaemonHandler.handler, DaemonHandler.pollStream]

theorem followEvents_ne_sending {next : Nat} {f : StreamFrame} {task : DaemonHandler.Task} :
    DaemonHandler.followEvents w told id filterProgram next ≠ .sending f task := by
  unfold DaemonHandler.followEvents
  split
  · split_ifs <;> simp
  · simp
  · split_ifs <;> simp

structure Followed (log : List Event) (behind : Prop) (id : RequestId) (op : RequestOp)
    (filterProgram : Option ProgramId) (d : Direct DaemonHandler.Task)
    (h : List (Happening (Broadcasting σ τ α) DaemonHandler.Told)) : Prop where
  unsubscribed : subscribedAt h = none → Unsubscribed id op d ∧ framesOf h = []
  subscribed : ∀ start, subscribedAt h = some start →
    start ≤ log.length ∧ Follows log behind id filterProgram start d (framesOf h)

theorem subscribedAt_snoc {h : List (Happening (Broadcasting σ τ α) DaemonHandler.Told)}
    {e : Happening (Broadcasting σ τ α) DaemonHandler.Told} :
    subscribedAt (h ++ [e]) = (subscribedAt h).or (subscribedAt [e]) := by
  simp only [subscribedAt, List.findSome?_append]

theorem framesOf_snoc {h : List (Happening (Broadcasting σ τ α) DaemonHandler.Told)}
    {e : Happening (Broadcasting σ τ α) DaemonHandler.Told} :
    framesOf (h ++ [e]) = framesOf h ++ framesOf [e] := by
  simp only [framesOf, List.filterMap_append]

theorem isStreaming_of_follows (hop : op.follows = some filterProgram) :
    isStreaming op = true := by
  cases op with
  | events | logs => rfl
  | submit | list | status | cancel | start | resume | trace | health | gc | shutdown => cases hop

theorem entered_polled (hop : op.follows = some filterProgram) :
    DaemonHandler.pollStream S w told ⟨id, .entered op⟩ =
      .resumed ⟨id, .following filterProgram w.sent.length⟩ := by
  cases op with
  | events follow =>
    cases follow with
    | false => cases hop
    | true =>
      obtain rfl := Option.some.inj hop
      rfl
  | logs pid follow =>
    cases follow with
    | false => cases hop
    | true =>
      obtain rfl := Option.some.inj hop
      rfl
  | submit | list | status | cancel | start | resume | trace | health | gc | shutdown => cases hop

/-- A task whose first turn is sure to end takes that turn, or nothing has been given yet. -/
theorem Unsubscribed.enters {task : Broadcasting σ τ α → DaemonHandler.Told → DaemonHandler.Task}
    (hentered : ∀ w told,
      DaemonHandler.pollStream S w told ⟨id, .entered op⟩ = .resumed (task w told))
    {e : Happening (Broadcasting σ τ α) DaemonHandler.Told} (h : Unsubscribed id op d)
    (hstep : Calling.Directly S ρ debug d e d') :
    (∃ w told kind, e = .polled w told ∧ d' = .following id kind (some (task w told)) []) ∨
      (∀ w told, e ≠ .polled w told) ∧ framesOf [e] = [] ∧ Unsubscribed id op d' := by
  rcases h with rfl | ⟨kind, rfl⟩ | rfl | rfl
  · cases hstep with
    | @resumed _ _ _ task' _ w told hpoll =>
      obtain rfl := Poll.resumed.inj ((hentered w told).symm.trans hpoll)
      exact .inl ⟨w, told, _, rfl, rfl⟩
    | sent hpoll => cases (hentered _ _).symm.trans hpoll
    | ended hpoll => cases (hentered _ _).symm.trans hpoll
    | aborted => exact .inr ⟨by simp, rfl, .inr (.inl ⟨_, rfl⟩)⟩
  · cases hstep with
    | finished => exact .inr ⟨by simp, rfl, .inr (.inr (.inl rfl))⟩
  · cases hstep with
    | done => exact .inr ⟨by simp, rfl, .inr (.inr (.inl rfl))⟩
  · cases hstep

theorem subscribedAt_quiet {e : Happening (Broadcasting σ τ α) DaemonHandler.Told}
    (h : ∀ w told, e ≠ .polled w told) : subscribedAt [e] = none := by
  cases e with
  | polled w told => exact absurd rfl (h w told)
  | _ => rfl

theorem Unsubscribed.step (behind : Prop) (hop : op.follows = some filterProgram)
    {e : Happening (Broadcasting σ τ α) DaemonHandler.Told} (h : Unsubscribed id op d)
    (hstep : Calling.Directly S ρ debug d e d') :
    (∃ w told, e = .polled w told ∧
        Follows w.sent behind id filterProgram w.sent.length d' []) ∨
      subscribedAt [e] = none ∧ framesOf [e] = [] ∧ Unsubscribed id op d' := by
  rcases h.enters (fun _ _ => entered_polled hop) hstep with
    ⟨w, told, kind, rfl, rfl⟩ | ⟨hquiet, hframes, hd⟩
  · exact .inl ⟨w, told, rfl, .following [] ⟨.nil _, by simp⟩ rfl⟩
  · exact .inr ⟨subscribedAt_quiet hquiet, hframes, hd⟩

theorem Follows.account (h : Follows log behind id filterProgram start d given) :
    ∃ ds next rest, Delivered log behind start ds next ∧
      given ++ rest = ds.flatMap (Delivery.frames id filterProgram) ∧
      ∀ kind n ahead, d = .following id kind (some ⟨id, .following filterProgram n⟩) ahead →
        next = n ∧ rest = ahead := by
  cases h with
  | @following kind ahead given ds next hds hframes =>
    refine ⟨ds, next, ahead, hds, hframes, fun kind' n ahead' heq => ?_⟩
    obtain ⟨-, -, htask, rfl⟩ := Direct.following.inj heq
    simpa using htask
  | @offering kind ahead given ds next f hds hframes =>
    refine ⟨ds, next, ahead ++ [f], hds, by simpa using hframes, fun kind' n ahead' heq => ?_⟩
    simp at heq
  | @left kind ahead given rest ds next hds hframes =>
    refine ⟨ds, next, ahead ++ rest, hds, by simpa using hframes, fun kind' n ahead' heq => ?_⟩
    simp at heq
  | @gone d given rest ds next hd hds hframes =>
    refine ⟨ds, next, rest, hds, hframes, fun kind' n ahead' heq => ?_⟩
    rcases hd with rfl | rfl <;> cases heq

theorem events_of_items {evs : List Event} (hnone : ∀ n nowMs, .gap n nowMs ∉ ds)
    (h : ds.map Delivery.item = evs.map .entry) : ds = evs.map .event := by
  induction ds generalizing evs with
  | nil => simpa using h
  | cons d ds ih =>
    obtain ⟨ev, evs, rfl⟩ : ∃ ev evs', evs = ev :: evs' := by
      cases evs with
      | nil => cases h
      | cons ev evs => exact ⟨ev, evs, rfl⟩
    obtain ⟨hd, hrest⟩ := List.cons.inj h
    rw [List.map_cons, ← ih (fun n t hn => hnone n t (List.mem_cons_of_mem d hn)) hrest]
    cases d with
    | event ev' => rw [Item.entry.inj hd]
    | gap n nowMs => exact absurd List.mem_cons_self (hnone n nowMs)

theorem Delivered.eq_entries (h : Delivered log behind start ds next) (hnone : ¬ behind) :
    ds = ((log.drop start).take (next - start)).map .event := by
  have hgapless : ∀ n nowMs, .gap n nowMs ∉ ds := fun n nowMs hgap => hnone (h.gaps n nowMs hgap)
  apply events_of_items hgapless
  apply h.covers.eq_entries
  intro k hk
  obtain ⟨d, hd, hitem⟩ := List.mem_map.mp hk
  cases d with
  | event ev => cases hitem
  | gap n nowMs => exact hgapless n nowMs hd

def Due (w : Broadcasting σ τ α) (behind : Prop) (id : RequestId)
    (filterProgram : Option ProgramId) (d : Direct DaemonHandler.Task)
    (e : Happening (Broadcasting σ τ α) DaemonHandler.Told) : Prop :=
  ∀ w' told, e = .polled w' told → w' = w ∧ ∀ kind next ahead,
    d = .following id kind (some ⟨id, .following filterProgram next⟩) ahead →
      Lags w.sent next → behind

theorem Follows.step {e : Happening (Broadcasting σ τ α) DaemonHandler.Told}
    (h : Follows w.sent behind id filterProgram start d given)
    (hstep : Calling.Directly S ρ debug d e d') (hdue : Due w behind id filterProgram d e) :
    Follows w.sent behind id filterProgram start d' (given ++ framesOf [e]) := by
  cases h with
  | @following kind ahead given ds next hds hframes =>
    cases hstep with
    | @resumed _ _ _ task' _ w' told hpoll =>
      obtain ⟨rfl, hlag⟩ := hdue w' told rfl
      rw [poll_following] at hpoll
      have hnext : Follows w'.sent behind id filterProgram start
          (.following id kind (some task') ahead) given :=
        Follows.polled hds hframes (hlag kind next ahead rfl) hpoll
      simpa [framesOf] using hnext
    | @sent _ _ _ task' _ f w' told hpoll =>
      rw [poll_following] at hpoll
      exact absurd hpoll followEvents_ne_sending
    | ended hpoll =>
      refine .left [] hds ?_
      simpa [framesOf] using hframes
    | aborted =>
      refine .left [] hds ?_
      simpa [framesOf] using hframes
    | yielded hfits =>
      refine .following ds hds ?_
      simpa [framesOf] using hframes
    | @broken _ _ _ f ahead hfits =>
      refine .gone (f :: ahead) (.inr rfl) hds ?_
      simpa [framesOf] using hframes
  | @offering kind ahead given ds next f hds hframes =>
    cases hstep with
    | @resumed _ _ _ task' _ w' told hpoll => cases hpoll
    | @sent _ _ _ task' _ f' w' told hpoll =>
      obtain ⟨rfl, rfl⟩ := Poll.sending.inj hpoll
      refine .following ds hds ?_
      simpa [framesOf] using hframes
    | ended hpoll => cases hpoll
    | aborted =>
      refine .left [f] hds ?_
      simpa [framesOf] using hframes
    | yielded hfits =>
      refine .offering ds hds ?_
      simpa [framesOf] using hframes
    | @broken _ _ _ g ahead hfits =>
      refine .gone (g :: ahead ++ [f]) (.inr rfl) hds ?_
      simpa [framesOf] using hframes
  | @left kind ahead given rest ds next hds hframes =>
    cases hstep with
    | yielded hfits =>
      refine .left rest hds ?_
      simpa [framesOf] using hframes
    | @broken _ _ _ g ahead hfits =>
      refine .gone (g :: ahead ++ rest) (.inr rfl) hds ?_
      simpa [framesOf] using hframes
    | finished =>
      refine .gone rest (.inl rfl) hds ?_
      simpa [framesOf] using hframes
  | @gone d given rest ds next hd hds hframes =>
    rcases hd with rfl | rfl
    · cases hstep with
      | done =>
        refine .gone rest (.inl rfl) hds ?_
        simpa [framesOf] using hframes
    · cases hstep

variable {h : List (Happening (Broadcasting σ τ α) DaemonHandler.Told)}

theorem Followed.mono (hinv : Followed log behind id op filterProgram d h) (hlog : log <+: log') :
    Followed log' behind id op filterProgram d h := by
  refine ⟨hinv.unsubscribed, fun start hat => ?_⟩
  obtain ⟨hle, hfollows⟩ := hinv.subscribed start hat
  exact ⟨le_trans hle hlog.length_le, hfollows.mono hlog⟩

theorem Followed.step (hop : op.follows = some filterProgram)
    {e : Happening (Broadcasting σ τ α) DaemonHandler.Told}
    (hinv : Followed w.sent behind id op filterProgram d h)
    (hstep : Calling.Directly S ρ debug d e d') (hdue : Due w behind id filterProgram d e) :
    Followed w.sent behind id op filterProgram d' (h ++ [e]) := by
  cases hstart : subscribedAt h with
  | some start =>
    obtain ⟨hle, hfollows⟩ := hinv.subscribed start hstart
    constructor
    · intro hnone
      rw [subscribedAt_snoc, hstart] at hnone
      cases hnone
    · intro start' hat
      rw [subscribedAt_snoc, hstart] at hat
      obtain rfl := Option.some.inj hat
      rw [framesOf_snoc]
      exact ⟨hle, hfollows.step hstep hdue⟩
  | none =>
    obtain ⟨hbefore, hnone⟩ := hinv.unsubscribed hstart
    rcases hbefore.step behind hop hstep with ⟨w', told, rfl, hfollows⟩ | ⟨hat, hframes, hnext⟩
    · obtain ⟨rfl, -⟩ := hdue w' told rfl
      have hturn : subscribedAt (h ++ [.polled w' told]) = some w'.sent.length := by
        rw [subscribedAt_snoc, hstart]
        rfl
      constructor
      · intro hno
        cases hturn.symm.trans hno
      · intro start hat
        obtain rfl := Option.some.inj (hturn.symm.trans hat)
        rw [framesOf_snoc, hnone]
        exact ⟨le_rfl, hfollows⟩
    · have hstill : subscribedAt (h ++ [e]) = none := by
        rw [subscribedAt_snoc, hstart, hat]
        rfl
      constructor
      · intro _
        rw [framesOf_snoc, hnone, hframes]
        exact ⟨hnext, rfl⟩
      · intro start hsome
        cases hstill.symm.trans hsome

theorem Followed.path (hop : op.follows = some filterProgram)
    {es : List (Happening (Broadcasting σ τ α) DaemonHandler.Told)}
    (hinv : Followed w.sent behind id op filterProgram d h)
    (hpath : Path (Calling.Directly S ρ debug) d es d')
    (hdue : ∀ w' told, .polled w' told ∈ es →
      es = [.polled w' told] ∧ Due w behind id filterProgram d (.polled w' told)) :
    Followed w.sent behind id op filterProgram d' (h ++ es) := by
  induction hpath generalizing h with
  | nil d =>
    rw [List.append_nil]
    exact hinv
  | @cons d u v e es first rest ih =>
    have hone : Due w behind id filterProgram d e := by
      rintro w' told rfl
      exact (hdue w' told List.mem_cons_self).2 w' told rfl
    have hmore := ih (hinv.step hop first hone) fun w' told hmem => by
      obtain ⟨hsingle, -⟩ := hdue w' told (List.mem_cons_of_mem _ hmem)
      rw [(List.cons.inj hsingle).2] at hmem
      cases hmem
    rwa [List.append_assoc, List.singleton_append] at hmore

end Steps

namespace Calling

variable {σ τ α : Type} {B : Backends σ τ} {S : SerdeJson} {debug : RequestOp → String}
  {s : Calling σ τ α} {ρ : F64 → F64} {id : RequestId} {op : RequestOp}
  {filterProgram : Option ProgramId} {behind : Prop}

/-- The task of the stream waits for the event at `next`. -/
def Awaits (s : Calling σ τ α) (id : RequestId) (filterProgram : Option ProgramId) (next : Nat)
    (rx : Channel StreamFrame streamCapacity) : Prop :=
  ∃ kind, s.session.server = .streaming id kind (some ⟨id, .following filterProgram next⟩) rx

def Behind (s : Calling σ τ α) (id : RequestId) (filterProgram : Option ProgramId) : Prop :=
  ∃ next rx, s.Awaits id filterProgram next rx ∧ Lags s.world.sent next

theorem step_sent (m : Move σ τ α) : s.world.sent <+: (step B S debug s m).1.world.sent := by
  match m with
  | .turn t => simp only [turn_world, List.prefix_rfl]
  | .daemon (.restart ..) => exact List.prefix_rfl
  | .daemon (.request ..) | .daemon (.deliver _) | .daemon .bootSend | .daemon (.drain ..)
  | .daemon (.tick ..) | .daemon .pump => exact ⟨_, rfl⟩

theorem step_followed (hS : S.Sound ρ) (hop : op.follows = some filterProgram)
    {out : List (Happening (Broadcasting σ τ α) DaemonHandler.Told)} {m : Move σ τ α}
    (htyped : s.world.Typed) (hm : m.Allowed) (hfresh : m.Fresh s)
    (hbehind : s.Behind id filterProgram → behind)
    (h : ∃ d, Stands S debug s d ∧ Followed s.world.sent behind id op filterProgram d out) :
    ∃ d, Stands S debug (step B S debug s m).1 d ∧
      Followed (step B S debug s m).1.world.sent behind id op filterProgram d
        (out ++ (step B S debug s m).2) := by
  obtain ⟨d, hstands, hfollowed⟩ := h
  obtain ⟨d', hpath, hnext⟩ := step_path (B := B) hS htyped hm hfresh hstands
  refine ⟨d', hnext, Followed.mono ?_ (step_sent m)⟩
  apply hfollowed.path hop hpath
  intro w' told hmem
  match m with
  | .turn t =>
    obtain ⟨hsingle, hw', id', kind', task, rx, hserver⟩ := turn_polled hmem
    refine ⟨hsingle, fun w'' told'' heq => ?_⟩
    obtain ⟨rfl, rfl⟩ := Happening.polled.inj heq
    refine ⟨hw', fun kind next ahead hd hlags => ?_⟩
    obtain ⟨sent, hd', -⟩ := hstands.2.of_streaming hserver
    obtain ⟨rfl, rfl, htask, -⟩ := Direct.following.inj (hd.symm.trans hd')
    rw [← htask] at hserver
    exact hbehind ⟨next, rx, ⟨kind, hserver⟩, hlags⟩
  | .daemon (.restart ..) | .daemon (.request ..) | .daemon (.deliver _) | .daemon .bootSend
  | .daemon (.drain ..) | .daemon (.tick ..) | .daemon .pump => cases hmem

theorem run_followed (hS : S.Sound ρ) (hop : op.follows = some filterProgram)
    {out : List (Happening (Broadcasting σ τ α) DaemonHandler.Told)} {moves : List (Move σ τ α)}
    (htyped : ∀ x ∈ trail (step B S debug) s moves, x.1.world.Typed)
    (hmoves : ∀ x ∈ trail (step B S debug) s moves, x.2.Allowed ∧ x.2.Fresh x.1)
    (hbehind : ∀ x ∈ trail (step B S debug) s moves, x.1.Behind id filterProgram → behind)
    (h : ∃ d, Stands S debug s d ∧ Followed s.world.sent behind id op filterProgram d out) :
    ∃ d, Stands S debug (run (step B S debug) s moves).1 d ∧
      Followed (run (step B S debug) s moves).1.world.sent behind id op filterProgram d
        (out ++ (run (step B S debug) s moves).2) :=
  run_trail_history (I := fun s out =>
    ∃ d, Stands S debug s d ∧ Followed s.world.sent behind id op filterProgram d out)
    (fun x hx _ => step_followed hS hop (htyped x hx) (hmoves x hx).1 (hmoves x hx).2
      (hbehind x hx)) h

theorem requested (id : RequestId) (hS : S.Sound ρ) (hop : isStreaming op = true)
    (hidle : s.session = .connect) (hsteps : s.world.OfSteps) :
    let r := step B S debug s (.turn (.requestStream id op))
    ∃ d, Stands S debug r.1 d ∧ Unsubscribed id op d ∧
      (r.2 = [.subscribed ⟨id, op⟩] ∨
        ∃ e, r.2 = [.subscribed ⟨id, op⟩, .yielded (.error e)]) := by
  intro r
  have hmatched : Ipc.Matched S ρ (DaemonHandler.handler S debug : Handler (Broadcasting σ τ α) _ _)
      DaemonHandler.Told.Fits DaemonHandler.Task.Valid .idle
      (s.session.requestStream S id op) := by
    rw [hidle]
    exact matched_requestStream hS hop
  have hstep : r = ({ s with session := (s.session.requestStream S id op :
      _ × List (Happening (Broadcasting σ τ α) DaemonHandler.Told)).1 },
        (s.session.requestStream S id op).2) := by
    simp only [r, step, Waits, Bool.false_eq_true, if_false, Session.step, hidle, Session.connect]
  obtain ⟨d, hpath, hstands⟩ := hmatched
  rw [hstep]
  refine ⟨d, ⟨hsteps, hstands⟩, ?_⟩
  by_cases hfits : S.requests.Fits ⟨id, op⟩
  · have hout : (s.session.requestStream S id op :
        _ × List (Happening (Broadcasting σ τ α) DaemonHandler.Told)).2 =
          [.subscribed ⟨id, op⟩] := by
      simp only [Session.requestStream, send_ok hfits]
    rw [hout] at hpath
    refine ⟨.inl ?_, .inl hout⟩
    cases hpath with
    | cons first rest =>
      cases rest with
      | nil =>
        cases first with
        | subscribed => rfl
        | tooLong hlong => exact absurd hfits hlong
  · obtain ⟨len, hsend⟩ := send_error hfits
    have hout : (s.session.requestStream S id op :
        _ × List (Happening (Broadcasting σ τ α) DaemonHandler.Told)).2 =
          [.subscribed ⟨id, op⟩,
            .yielded (.error (.transport (.frameTooLarge len maxFrameLen)))] := by
      simp only [Session.requestStream, hsend]
    rw [hout] at hpath
    refine ⟨.inr (.inr (.inr ?_)), .inr ⟨_, hout⟩⟩
    cases hpath with
    | cons first rest =>
      cases first with
      | subscribed hsmall => exact absurd hsmall hfits
      | tooLong hlong =>
        cases rest with
        | cons second last =>
          cases second with
          | unfollowed =>
            cases last with
            | nil => rfl

theorem requested_followed (hS : S.Sound ρ) (hop : op.follows = some filterProgram)
    (hidle : s.session = .connect) (hsteps : s.world.OfSteps) :
    ∃ d, Stands S debug (step B S debug s (.turn (.requestStream id op))).1 d ∧
      Followed (step B S debug s (.turn (.requestStream id op))).1.world.sent behind id op
        filterProgram d (step B S debug s (.turn (.requestStream id op))).2 := by
  obtain ⟨d, hstands, hd, hout⟩ := requested (B := B) id hS (isStreaming_of_follows hop) hidle
    hsteps
  refine ⟨d, hstands, ?_⟩
  rcases hout with hout | ⟨e, hout⟩
  · rw [hout]
    exact ⟨fun _ => ⟨hd, rfl⟩, fun _ hat => by cases hat⟩
  · rw [hout]
    exact ⟨fun _ => ⟨hd, rfl⟩, fun _ hat => by cases hat⟩

theorem run_followed_start (id : RequestId) (hS : S.Sound ρ) (L : Loader α) (nowMs : UnixMs)
    (env : Env σ τ) (assets : α) (past : List (DaemonInput σ τ α)) (hop : op.follows = some filterProgram)
    (moves : List (Move σ τ α))
    (htyped : ∀ x ∈ trail (step B S debug) (connected B L nowMs env assets past)
      (.turn (.requestStream id op) :: moves), x.1.world.Typed)
    (hmoves : ∀ x ∈ trail (step B S debug) (connected B L nowMs env assets past)
      (.turn (.requestStream id op) :: moves), x.2.Allowed ∧ x.2.Fresh x.1) :
    let r := run (step B S debug) (connected B L nowMs env assets past)
      (.turn (.requestStream id op) :: moves)
    ∃ d, Stands S debug r.1 d ∧ Followed r.1.world.sent
      (∃ x ∈ trail (step B S debug) (connected B L nowMs env assets past)
        (.turn (.requestStream id op) :: moves), x.1.Behind id filterProgram)
      id op filterProgram d r.2 := by
  intro r
  let first : Move σ τ α := .turn (.requestStream id op)
  let s := connected B L nowMs env assets past
  have hmore : ∀ x ∈ trail (step B S debug) (step B S debug s first).1 moves,
      x ∈ trail (step B S debug) s (first :: moves) := fun x => List.mem_cons_of_mem _
  have hstart : Stands S debug s .idle := connected_stands L nowMs env assets past
  exact run_followed hS hop (fun x hx => htyped x (hmore x hx)) (fun x hx => hmoves x (hmore x hx))
    (fun x hx hx' => ⟨x, hmore x hx, hx'⟩) (requested_followed hS hop rfl hstart.1)

theorem caught_up {d : Direct DaemonHandler.Task} {n next : Nat} {rest : List StreamFrame}
    {rx : Channel StreamFrame streamCapacity} (hstands : Stands S debug s d)
    (hawaits : s.Awaits id filterProgram n rx) (hqueued : rx.queued = [])
    (hdown : s.session.down = [])
    (hcaught : ∀ kind n ahead,
      d = .following id kind (some ⟨id, .following filterProgram n⟩) ahead →
        next = n ∧ rest = ahead) : rest = [] ∧ next = n := by
  obtain ⟨kind, hserver⟩ := hawaits
  obtain ⟨sent, hd, hsent, hfits⟩ := hstands.2.of_streaming hserver
  have hnothing : sent = [] := stream_eq_nil hfits (hsent.symm.trans hdown)
  obtain ⟨rfl, rfl⟩ := hcaught kind n _ hd
  exact ⟨by rw [hnothing, hqueued, List.append_nil], rfl⟩

/-- A client that follows the events gets all that are published once its task has subscribed, in
their order and each at most once, but for gaps whose length it is told; when nothing is on its
way it has got them all. There are gaps only where the task has been too far behind. -/
theorem following_complete (hS : S.Sound ρ) (L : Loader α) (nowMs : UnixMs) (env : Env σ τ)
    (assets : α) (past : List (DaemonInput σ τ α)) (hop : op.follows = some filterProgram)
    (moves : List (Move σ τ α))
    (htyped : ∀ x ∈ trail (step B S debug) (connected B L nowMs env assets past)
      (.turn (.requestStream id op) :: moves), x.1.world.Typed)
    (hmoves : ∀ x ∈ trail (step B S debug) (connected B L nowMs env assets past)
      (.turn (.requestStream id op) :: moves), x.2.Allowed ∧ x.2.Fresh x.1) :
    let r := run (step B S debug) (connected B L nowMs env assets past)
      (.turn (.requestStream id op) :: moves)
    let log := r.1.world.sent
    (subscribedAt r.2 = none → framesOf r.2 = []) ∧
      ∀ start, subscribedAt r.2 = some start → start ≤ log.length ∧
        ∃ (ds : List Delivery) (next : Nat) (rest : List StreamFrame),
          Covers log start (ds.map Delivery.item) next ∧
          framesOf r.2 ++ rest = ds.flatMap (Delivery.frames id filterProgram) ∧
          (∀ n rx, r.1.Awaits id filterProgram n rx → log.length ≤ n → rx.queued = [] →
            r.1.session.down = [] → rest = [] ∧ next = log.length) ∧
          ((∀ x ∈ trail (step B S debug) (connected B L nowMs env assets past)
              (.turn (.requestStream id op) :: moves), ¬ x.1.Behind id filterProgram) →
            ds = ((log.drop start).take (next - start)).map .event) := by
  intro r log
  obtain ⟨d, hstands, hfollowed⟩ := run_followed_start (B := B) (S := S) id hS L nowMs env
    assets past hop moves htyped hmoves
  refine ⟨fun hnone => (hfollowed.unsubscribed hnone).2, fun start hat => ?_⟩
  obtain ⟨hle, hfollows⟩ := hfollowed.subscribed start hat
  obtain ⟨ds, next, rest, hds, hframes, hcaught⟩ := hfollows.account
  refine ⟨hle, ds, next, rest, hds.covers, hframes, ?_, fun hnever => ?_⟩
  · intro n rx hawaits hlast hqueued hdown
    obtain ⟨hrest, rfl⟩ := caught_up hstands hawaits hqueued hdown hcaught
    exact ⟨hrest, le_antisymm (hds.covers.le_length hle) hlast⟩
  · exact hds.eq_entries fun ⟨x, hx, hx'⟩ => hnever x hx hx'

def watching : List (Move Unit Unit Unit) :=
  [.turn (.serve [] (.read ⟨0#128⟩)), .turn (.serve [] (.poll Serving.quiet)), .daemon .pump,
    .turn (.serve [] (.poll Serving.quiet)), .turn (.serve [] (.poll Serving.quiet)),
    .turn (.serve [] .write), .turn (.nextFrame [7])]

theorem watching_allowed (s : Calling Unit Unit Unit)
    (hclient : s.session.client ≠ .requested ⟨0#128⟩) :
    ∀ m ∈ .turn (.requestStream ⟨2#128⟩ (.events true)) :: watching,
      m.Alone ∧ m.Allowed ∧ m.Fresh s := by
  simp [watching, Move.Alone, Move.Allowed, Move.Fresh, EndMove.Allowed, EndMove.Fresh, Action.Allowed,
    isStreaming, Serving.quiet_fits, hclient]

theorem following_complete_watching :
    let r := run (step (Backends.constant (.ok ⟨true, none, 0⟩)) Serving.sampleJson fun _ => "")
      visited (.turn (.requestStream ⟨2#128⟩ (.events true)) :: watching)
    ∃ (ds : List Delivery) (next : Nat) (rest : List StreamFrame),
      Covers r.1.world.sent 0 (ds.map Delivery.item) next ∧
      framesOf r.2 ++ rest = ds.flatMap (Delivery.frames ⟨2#128⟩ none) := by
  intro r
  have hat : subscribedAt r.2 = some 0 := by decide +kernel
  have halone : ∀ m ∈ .turn (.requestStream ⟨2#128⟩ (.events true)) :: watching, m.Alone :=
    fun m hm => (watching_allowed visited (show Client.idle ≠ _ by simp) m hm).1
  have htrail := visited_trail halone
  obtain ⟨-, ds, next, rest, hcovers, hframes, -⟩ := (following_complete Serving.sampleJson_sound
    (Loader.constant (Program.blank "demo")) 0 ⟨(), ()⟩ () [] rfl watching
    (fun x hx => (htrail x hx).1) fun x hx =>
      (watching_allowed x.1 (htrail x hx).2 x.2 (mem_of_mem_trail hx)).2).2 0 hat
  exact ⟨ds, next, rest, hcovers, hframes⟩

end Calling

end Vcli
