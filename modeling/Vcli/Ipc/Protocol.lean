import Vcli.Ipc.Server
import Vcli.Lib.History

/-! What a connection writes is one block of messages for each request, in the order of the
requests. -/

namespace Vcli.Ipc

open Transport Transducer

def StreamFrame.Continues (id : RequestId) (f : StreamFrame) : Prop := f.id = id ∧ f.end_ = false

/-- The messages that answer one request: frames up to a last one if it asks for a stream, a
single response otherwise. -/
def IsBlock (req : Request) (block : List Message) : Prop :=
  if isStreaming req.op then
    ∃ (frames : List StreamFrame) (last : StreamFrame), (∀ f ∈ frames, f.Continues req.id) ∧
      (last.id = req.id ∧ last.end_ = true) ∧ block = (frames ++ [last]).map .frame
  else ∃ r : Response, r.id = req.id ∧ block = [.response r]

def Answers (reqs : List Request) (out : List Message) : Prop :=
  ∃ blocks, List.Forall₂ IsBlock reqs blocks ∧ out = blocks.flatten

def Answering (reqs : List Request) (out : List Message) : Prop :=
  ∃ done left sent part, reqs = done ++ left ∧ Answers done sent ∧ out = sent ++ part ∧
    (part = [] ∨ ∃ req rest more, left = req :: rest ∧ IsBlock req (part ++ more))

theorem answers_nil : Answers [] [] := ⟨[], .nil, rfl⟩

theorem Answers.snoc {reqs : List Request} {out block : List Message} {req : Request}
    (h : Answers reqs out) (hblock : IsBlock req block) :
    Answers (reqs ++ [req]) (out ++ block) := by
  obtain ⟨blocks, hblocks, rfl⟩ := h
  refine ⟨blocks ++ [block], List.rel_append hblocks (.cons hblock .nil), ?_⟩
  rw [List.flatten_append, List.flatten_singleton]

theorem isBlock_response {req : Request} {r : Response} (hop : isStreaming req.op = false)
    (hr : r.id = req.id) : IsBlock req [.response r] := by
  rw [IsBlock, if_neg (by rw [hop]; exact Bool.false_ne_true)]
  exact ⟨r, hr, rfl⟩

theorem isBlock_stream {req : Request} {frames : List StreamFrame} (kind : StreamKind)
    (hop : isStreaming req.op = true) (hframes : ∀ f ∈ frames, f.Continues req.id) :
    IsBlock req (frames.map .frame ++ [.frame (.endOfStream req.id kind)]) := by
  rw [IsBlock, if_pos hop]
  refine ⟨frames, .endOfStream req.id kind, hframes, ⟨rfl, rfl⟩, ?_⟩
  rw [List.map_append, List.map_singleton]

variable {ω ι κ : Type} (S : SerdeJson)

/-- What a handler promises in the worlds of `World`, told what `Told` allows. `Valid` holds of the
stream tasks of a request, from the first to the last turn. -/
structure Handler.Lawful (H : Handler ω ι κ) (World : ω → Prop) (Told : ι → Prop)
    (Valid : RequestId → κ → Prop) : Prop where
  handle : ∀ {w told id op r}, World w → Told told → H.handle w told id op = .ok r →
    r.id = id ∧ S.messages.Inverts (.response r)
  spawned : ∀ {id op}, isStreaming op = true → Valid id (H.handleStream id op)
  resumed : ∀ {w told id task task'}, World w → Told told → Valid id task →
    H.poll w told task = .resumed task' → Valid id task'
  sending : ∀ {w told id task f task'}, World w → Told told → Valid id task →
    H.poll w told task = .sending f task' →
      f.Continues id ∧ S.messages.Inverts (.frame f) ∧ Valid id task'

def Action.Allowed (Told : ι → Prop) : Action ι → Prop
  | answer told | poll told => Told told
  | _ => True

/-- How far the first of the requests that are `left` has got: `part` of its block is written, and
the requests after it are still in the input. -/
def Phase.Awaits (Valid : RequestId → κ → Prop) (input : Arrivals UInt8) (part : List Message)
    (left : List Request) : Phase κ → Prop
  | reading => part = [] ∧ readFrames S.requests input = (left, .unexpectedEof 0 4)
  | handling id op => part = [] ∧ isStreaming op = false ∧
      ∃ rest, left = ⟨id, op⟩ :: rest ∧ readFrames S.requests input = (rest, .unexpectedEof 0 4)
  | streaming id _ task rx => ∃ op rest, ∃ frames : List StreamFrame, isStreaming op = true ∧
      left = ⟨id, op⟩ :: rest ∧ readFrames S.requests input = (rest, .unexpectedEof 0 4) ∧
      part = frames.map .frame ∧ (∀ f ∈ frames, f.Continues id) ∧
      (∀ f ∈ rx.queued, f.Continues id ∧ S.messages.Inverts (.frame f)) ∧
      ∀ k ∈ task, Valid id k
  | closed result => part = [] ∧ left = [] ∧ result = .ok ()

/-- The messages `out` have gone out, and they are the blocks of the first of the requests with a
part of the next one. -/
structure Connection.Serves (Valid : RequestId → κ → Prop) (reqs : List Request)
    (c : Connection κ) (out : List Message) : Prop where
  sink : c.sink = ⟨stream S.messages out, none⟩
  fits : ∀ m ∈ out, S.messages.Fits m
  legible : ∀ m ∈ out, S.messages.Inverts m
  blocks : ∃ done left sent part, reqs = done ++ left ∧ Answers done sent ∧ out = sent ++ part ∧
    c.phase.Awaits S Valid c.input part left

section Own
variable {S} {ρ : F64 → F64} (hS : S.Sound ρ)

include hS

theorem inverts_internal (id : RequestId) (e : IpcError) :
    S.messages.Inverts (.response (.internal id e)) :=
  Message.inverts hS ⟨nofun, nofun, nofun⟩ nofun

theorem inverts_endOfStream (id : RequestId) (kind : StreamKind) :
    S.messages.Inverts (.frame (.endOfStream id kind)) :=
  Message.inverts hS ⟨nofun, nofun⟩ ⟨nofun, nofun⟩

end Own

namespace Connection

variable {S} {H : Handler ω ι κ} {World : ω → Prop} {Told : ι → Prop}
  {Valid : RequestId → κ → Prop} {reqs : List Request} {c : Connection κ} {out : List Message}

theorem serves_accept {input : Arrivals UInt8}
    (hinput : readFrames S.requests input = (reqs, .unexpectedEof 0 4)) :
    (accept input : Connection κ).Serves S Valid reqs [] :=
  ⟨rfl, List.forall_mem_nil _, List.forall_mem_nil _, [], reqs, [], [], rfl, answers_nil, rfl, rfl,
    hinput⟩

@[simp] theorem write_snd (m : Message) (next : Phase κ) : (c.write S m next).2 = [m] := by
  unfold write
  split <;> rfl

theorem Serves.write (h : c.Serves S Valid reqs out) {m : Message} {next : Phase κ}
    (hm : S.messages.Inverts m) (hwritten : ∀ v ∈ (c.write S m next).2, S.messages.Fits v)
    (hblocks : ∃ done left sent part, reqs = done ++ left ∧ Answers done sent ∧
      out ++ [m] = sent ++ part ∧ next.Awaits S Valid c.input part left) :
    (c.write S m next).1.Serves S Valid reqs (out ++ (c.write S m next).2) := by
  have hfits : ∀ v ∈ [m], S.messages.Fits v := by rwa [write_snd] at hwritten
  have hall : ∀ v ∈ out ++ [m], S.messages.Fits v := fun v hv =>
    (List.mem_append.mp hv).elim (h.fits v) (hfits v)
  have hlegible : ∀ v ∈ out ++ [m], S.messages.Inverts v := by
    intro v hv
    rcases List.mem_append.mp hv with hv | hv
    · exact h.legible v hv
    · rwa [List.mem_singleton.mp hv]
  obtain ⟨bytes, hbytes, hlen⟩ := hfits m (List.mem_singleton_self m)
  have hone : stream S.messages [m] = frame bytes := by
    rw [stream_cons hbytes hlen (List.forall_mem_nil _)]
    exact List.append_nil _
  have hwrite : c.write S m next =
      ({ c with sink := ⟨stream S.messages (out ++ [m]), none⟩, phase := next }, [m]) := by
    rw [Connection.write, h.sink, writeFrame_fits hbytes hlen, stream_append h.fits hfits, hone]
  rw [hwrite]
  exact ⟨rfl, hall, hlegible, hblocks⟩

theorem Serves.quiet (h : c.Serves S Valid reqs out) {c' : Connection κ} (hsink : c'.sink = c.sink)
    (hblocks : ∃ done left sent part, reqs = done ++ left ∧ Answers done sent ∧
      out = sent ++ part ∧ c'.phase.Awaits S Valid c'.input part left) :
    c'.Serves S Valid reqs (out ++ []) := by
  rw [List.append_nil]
  exact ⟨hsink.trans h.sink, h.fits, h.legible, hblocks⟩

theorem Serves.same (h : c.Serves S Valid reqs out) : c.Serves S Valid reqs (out ++ []) := by
  rwa [List.append_nil]

theorem Serves.responded (h : c.Serves S Valid reqs out) {id : RequestId} {op : RequestOp}
    (hc : c.phase = .handling id op) {r : Response} (hr : r.id = id)
    (hinv : S.messages.Inverts (.response r))
    (hfits : ∀ m ∈ (c.write S (.response r) .reading).2, S.messages.Fits m) :
    (c.write S (.response r) .reading).1.Serves S Valid reqs
      (out ++ (c.write S (.response r) .reading).2) := by
  obtain ⟨done, left, sent, part, hreqs, hdone, hout, hphase⟩ := h.blocks
  rw [hc] at hphase
  obtain ⟨rfl, hop, rest, rfl, hframes⟩ := hphase
  refine h.write hinv hfits
    ⟨done ++ [⟨id, op⟩], rest, sent ++ [.response r], [], ?_, ?_, ?_, rfl, hframes⟩
  · rw [hreqs, List.append_assoc, List.singleton_append]
  · exact hdone.snoc (isBlock_response hop hr)
  · rw [hout, List.append_nil, List.append_nil]

theorem Serves.fail {ρ : F64 → F64} (hS : S.Sound ρ) (h : c.Serves S Valid reqs out) (w : ω)
    (e : IpcError) (hfits : ∀ m ∈ (c.step S H w (.fail e)).2, S.messages.Fits m) :
    (c.step S H w (.fail e)).1.Serves S Valid reqs (out ++ (c.step S H w (.fail e)).2) := by
  cases hc : c.phase with
  | reading | streaming | closed =>
    simp only [step, hc]
    exact h.same
  | handling id op =>
    simp only [step, hc] at hfits ⊢
    exact h.responded hc rfl (inverts_internal hS id e) hfits

theorem Serves.valid (h : c.Serves S Valid reqs out) {id : RequestId} {kind : StreamKind} {k : κ}
    {rx : Channel StreamFrame streamCapacity} (hc : c.phase = .streaming id kind (some k) rx) :
    Valid id k := by
  obtain ⟨done, left, sent, part, hreqs, hdone, hout, hphase⟩ := h.blocks
  rw [hc] at hphase
  obtain ⟨op, rest, frames, hop, hleft, hframes, hpart, hsent, hqueued, hvalid⟩ := hphase
  exact hvalid k rfl

theorem Serves.streamed (h : c.Serves S Valid reqs out) {id : RequestId} {kind : StreamKind}
    {task task' : Option κ} {rx rx' : Channel StreamFrame streamCapacity}
    (hc : c.phase = .streaming id kind task rx) (htask : ∀ k ∈ task', Valid id k)
    (hrx : ∀ f ∈ rx'.queued, f ∈ rx.queued ∨ f.Continues id ∧ S.messages.Inverts (.frame f)) :
    Serves S Valid reqs { c with phase := .streaming id kind task' rx' } (out ++ []) := by
  obtain ⟨done, left, sent, part, hreqs, hdone, hout, hphase⟩ := h.blocks
  rw [hc] at hphase
  obtain ⟨op, rest, frames, hop, hleft, hframes, hpart, hsent, hqueued, hvalid⟩ := hphase
  refine h.quiet rfl ⟨done, left, sent, part, hreqs, hdone, hout,
    op, rest, frames, hop, hleft, hframes, hpart, hsent, fun f hf => ?_, htask⟩
  rcases hrx f hf with hf | hf
  · exact hqueued f hf
  · exact hf

theorem Serves.abort (h : c.Serves S Valid reqs out) (w : ω) :
    (c.step S H w .abort).1.Serves S Valid reqs (out ++ (c.step S H w .abort).2) := by
  cases hc : c.phase with
  | reading | handling | closed =>
    simp only [step, hc]
    exact h.same
  | streaming id kind task rx =>
    cases task with
    | none =>
      simp only [step, hc]
      exact h.same
    | some k =>
      simp only [step, hc]
      exact h.streamed hc nofun fun f => .inl

theorem Serves.next {ρ : F64 → F64} (hS : S.Sound ρ) (h : c.Serves S Valid reqs out) (w : ω)
    (hfits : ∀ m ∈ (c.step S H w .write).2, S.messages.Fits m) :
    (c.step S H w .write).1.Serves S Valid reqs (out ++ (c.step S H w .write).2) := by
  obtain ⟨done, left, sent, part, hreqs, hdone, hout, hphase⟩ := h.blocks
  cases hc : c.phase with
  | reading | handling | closed =>
    simp only [step, hc]
    exact h.same
  | streaming id kind task rx =>
    rw [hc] at hphase
    obtain ⟨op, rest, frames, hop, hleft, hframes, hpart, hsent, hqueued, hvalid⟩ := hphase
    simp only [step, hc] at hfits ⊢
    -- a frame in the channel is written before the end of the stream is
    cases hrecv : rx.recv? with
    | some x =>
      obtain ⟨f, rx'⟩ := x
      simp only [hrecv] at hfits ⊢
      have hrx := Channel.queued_recv? hrecv
      obtain ⟨hf, hinv⟩ := hqueued f (hrx ▸ List.mem_cons_self)
      refine h.write hinv hfits
        ⟨done, left, sent, part ++ [.frame f], hreqs, hdone, ?_,
          op, rest, frames ++ [f], hop, hleft, hframes, ?_, ?_, ?_, hvalid⟩
      · rw [hout, List.append_assoc]
      · rw [hpart, List.map_append, List.map_singleton]
      · intro g hg
        rcases List.mem_append.mp hg with hg | hg
        · exact hsent g hg
        · rwa [List.mem_singleton.mp hg]
      · intro g hg
        exact hqueued g (hrx ▸ List.mem_cons_of_mem f hg)
    | none =>
      cases task with
      | some k => exact h.same
      | none =>
        simp only [hrecv] at hfits ⊢
        refine h.write (inverts_endOfStream hS id kind) hfits
          ⟨done ++ [⟨id, op⟩], rest, sent ++ (part ++ [.frame (.endOfStream id kind)]), [],
            ?_, ?_, ?_, rfl, hframes⟩
        · rw [hreqs, hleft, List.append_assoc, List.singleton_append]
        · rw [hpart]
          exact hdone.snoc (isBlock_stream kind hop hsent)
        · rw [hout, List.append_nil, List.append_assoc]

section Steps
variable (law : H.Lawful S World Told Valid)

include law

theorem Serves.read (h : c.Serves S Valid reqs out) (w : ω) (fresh : RequestId) :
    (c.step S H w (.read fresh)).1.Serves S Valid reqs
      (out ++ (c.step S H w (.read fresh)).2) := by
  obtain ⟨done, left, sent, part, hreqs, hdone, hout, hphase⟩ := h.blocks
  cases hc : c.phase with
  | handling | streaming | closed =>
    simp only [step, hc]
    exact h.same
  | reading =>
    rw [hc] at hphase
    obtain ⟨rfl, hframes⟩ := hphase
    rcases hread : readFrame S.requests c.input with ⟨e | req, input⟩
    · -- nothing is left but the end
      rw [readFrames_error hread] at hframes
      obtain ⟨rfl, rfl⟩ := Prod.mk.inj hframes
      simp only [step, hc, hread, reject]
      exact h.quiet rfl ⟨done, [], sent, [], hreqs, hdone, hout, rfl, rfl, rfl⟩
    · rw [readFrames_ok hread] at hframes
      obtain ⟨rfl, heof⟩ := Prod.mk.inj hframes
      have hrest : readFrames S.requests input =
          ((readFrames S.requests input).1, .unexpectedEof 0 4) := Prod.ext rfl heof
      simp only [step, hc, hread]
      refine h.quiet rfl ⟨done, _, sent, [], hreqs, hdone, hout, ?_⟩
      cases hop : isStreaming req.op with
      | false =>
        simp only [dispatch, hop, Bool.false_eq_true, if_false]
        exact ⟨rfl, hop, _, rfl, hrest⟩
      | true =>
        simp only [dispatch, hop, if_true]
        refine ⟨req.op, _, [], hop, rfl, hrest, rfl, List.forall_mem_nil _, List.forall_mem_nil _, ?_⟩
        intro k hk
        rw [← Option.some.inj hk]
        exact law.spawned hop

theorem Serves.answer {ρ : F64 → F64} (hS : S.Sound ρ) (h : c.Serves S Valid reqs out) {w : ω}
    {told : ι} (hw : World w) (htold : Told told)
    (hfits : ∀ m ∈ (c.step S H w (.answer told)).2, S.messages.Fits m) :
    (c.step S H w (.answer told)).1.Serves S Valid reqs
      (out ++ (c.step S H w (.answer told)).2) := by
  cases hc : c.phase with
  | reading | streaming | closed =>
    simp only [step, hc]
    exact h.same
  | handling id op =>
    simp only [step, hc] at hfits ⊢
    cases hr : H.handle w told id op with
    | ok r =>
      simp only [hr] at hfits ⊢
      obtain ⟨hid, hinv⟩ := law.handle hw htold hr
      exact h.responded hc hid hinv hfits
    | error e =>
      simp only [hr] at hfits ⊢
      exact h.responded hc rfl (inverts_internal hS id e) hfits

theorem Serves.poll (h : c.Serves S Valid reqs out) {w : ω} {told : ι} (hw : World w)
    (htold : Told told) :
    (c.step S H w (.poll told)).1.Serves S Valid reqs
      (out ++ (c.step S H w (.poll told)).2) := by
  cases hc : c.phase with
  | reading | handling | closed =>
    simp only [step, hc]
    exact h.same
  | streaming id kind task rx =>
    cases task with
    | none =>
      simp only [step, hc]
      exact h.same
    | some k =>
      have hk := h.valid hc
      have hsame : ∀ f ∈ rx.queued,
          f ∈ rx.queued ∨ f.Continues id ∧ S.messages.Inverts (.frame f) := fun f => .inl
      simp only [step, hc]
      cases hpoll : H.poll w told k with
      | pending => exact h.same
      | returned result => exact h.streamed hc nofun hsame
      | resumed k' =>
        refine h.streamed hc (fun x hx => ?_) hsame
        rw [← Option.some.inj hx]
        exact law.resumed hw htold hk hpoll
      -- a full channel keeps the task at its frame, which is sent at a later poll
      | sending f k' =>
        obtain ⟨hf, hinv, hk'⟩ := law.sending hw htold hk hpoll
        cases hsend : rx.send? f with
        | none =>
          simp only [hsend]
          exact h.same
        | some rx' =>
          simp only [hsend]
          refine h.streamed hc (fun x hx => ?_) fun g hg => ?_
          · rwa [← Option.some.inj hx]
          · rw [Channel.queued_send? hsend] at hg
            rcases List.mem_append.mp hg with hg | hg
            · exact .inl hg
            · rw [List.mem_singleton.mp hg]
              exact .inr ⟨hf, hinv⟩

/-- Whoever's turn it is, the messages stay blocks of the requests. -/
theorem Serves.step {ρ : F64 → F64} (hS : S.Sound ρ) (h : c.Serves S Valid reqs out) {w : ω}
    {a : Action ι} (hw : World w) (ha : a.Allowed Told)
    (hfits : ∀ m ∈ (c.step S H w a).2, S.messages.Fits m) :
    (c.step S H w a).1.Serves S Valid reqs (out ++ (c.step S H w a).2) := by
  cases a with
  | read fresh => exact h.read law w fresh
  | answer told => exact h.answer law hS hw ha hfits
  | fail e => exact h.fail hS w e hfits
  | poll told => exact h.poll law hw ha
  | abort => exact h.abort w
  | write => exact h.next hS w hfits

end Steps

theorem Serves.readFrames (h : c.Serves S Valid reqs out) {r : Arrivals UInt8} (hclean : r.Clean)
    (hcontents : r.contents = c.sink.sent) :
    readFrames S.messages r = (out, .unexpectedEof 0 4) := by
  apply readFrames_stream h.legible h.fits hclean
  rw [hcontents, h.sink]

theorem Serves.answering (h : c.Serves S Valid reqs out) : Answering reqs out := by
  obtain ⟨done, left, sent, part, hreqs, hdone, hout, hphase⟩ := h.blocks
  refine ⟨done, left, sent, part, hreqs, hdone, hout, ?_⟩
  cases hc : c.phase with
  | reading | handling | closed =>
    rw [hc] at hphase
    exact .inl hphase.1
  | streaming id kind task rx =>
    rw [hc] at hphase
    obtain ⟨op, rest, frames, hop, hleft, hframes, hpart, hsent, -⟩ := hphase
    refine .inr ⟨⟨id, op⟩, rest, [.frame (.endOfStream id kind)], hleft, ?_⟩
    rw [hpart]
    exact isBlock_stream kind hop hsent

theorem Serves.answers (h : c.Serves S Valid reqs out) {result : Except IpcError Unit}
    (hc : c.phase = .closed result) : result = .ok () ∧ Answers reqs out := by
  obtain ⟨done, left, sent, part, hreqs, hdone, hout, hphase⟩ := h.blocks
  rw [hc] at hphase
  obtain ⟨rfl, rfl, hresult⟩ := hphase
  rw [List.append_nil] at hreqs hout
  rw [hreqs, hout]
  exact ⟨hresult, hdone⟩

section Finish
variable (S H) (w : ω) (told : ι) (fresh : RequestId)

def Idle (c : Connection κ) : Prop := c.phase = .reading ∨ ∃ result, c.phase = .closed result

variable {S} in
theorem write_input (m : Message) (next : Phase κ) : (c.write S m next).1.input = c.input := by
  unfold write
  split <;> rfl

variable {S} in
theorem write_phase (m : Message) (next : Phase κ) :
    (c.write S m next).1.phase = next ∨ ∃ e, (c.write S m next).1.phase = .closed (.error e) := by
  unfold write
  split
  · exact .inl rfl
  · next e sink hwrite => exact .inr ⟨e, rfl⟩

variable {S} in
theorem idle_write (m : Message) : Idle (c.write S m .reading).1 := by
  rcases write_phase (c := c) (S := S) m .reading with h | ⟨e, h⟩
  · exact .inl h
  · exact .inr ⟨_, h⟩

/-- Once its task is gone a stream is written to the end. -/
theorem drains {n : Nat} {id : RequestId} {kind : StreamKind}
    {rx : Channel StreamFrame streamCapacity} (hn : rx.queued.length = n)
    (hc : c.phase = .streaming id kind none rx) :
    ∃ k, Idle (run (step S H w) c (List.replicate k (.write : Action ι))).1 ∧
      (run (step S H w) c (List.replicate k (.write : Action ι))).1.input = c.input := by
  induction n generalizing c rx with
  | zero =>
    have hrecv := Channel.recv?_eq_none_iff.mpr (List.eq_nil_of_length_eq_zero hn)
    refine ⟨1, ?_, ?_⟩
    · simp only [List.replicate_one, run_cons, run_nil, step, hc, hrecv]
      exact idle_write _
    · simp only [List.replicate_one, run_cons, run_nil, step, hc, hrecv]
      exact write_input _ _
  | succ n ih =>
    obtain ⟨f, rest, hqueued⟩ := List.exists_cons_of_length_eq_add_one hn
    obtain ⟨rx', hrecv, hrest⟩ := Channel.exists_recv? hqueued
    have hstep : (step S H w c (.write : Action ι)).1 =
        (c.write S (.frame f) (.streaming id kind none rx')).1 := by
      simp only [step, hc, hrecv]
    have hinput := write_input (c := c) (S := S) (.frame f) (.streaming id kind none rx')
    -- each write sends one frame, unless it fails and closes the connection
    rcases write_phase (c := c) (S := S) (.frame f) (.streaming id kind none rx') with h | ⟨e, h⟩
    · have hlen : rx'.queued.length = n := by
        rw [hqueued, List.length_cons] at hn
        rw [hrest]
        omega
      obtain ⟨k, hidle, hsame⟩ := ih hlen h
      refine ⟨k + 1, ?_, ?_⟩
      · rw [List.replicate_succ, run_cons, hstep]
        exact hidle
      · rw [List.replicate_succ, run_cons, hstep]
        exact hsame.trans hinput
    · refine ⟨1, .inr ⟨.error e, ?_⟩, ?_⟩
      · simp only [List.replicate_one, run_cons, run_nil, hstep, h]
      · simp only [List.replicate_one, run_cons, run_nil, hstep, hinput]

include told in
theorem reaches_idle (hallowed : Told told) (c : Connection κ) :
    ∃ as : List (Action ι), (∀ a ∈ as, a.Allowed Told) ∧ Idle (run (step S H w) c as).1 ∧
      (run (step S H w) c as).1.input = c.input := by
  cases hc : c.phase with
  | reading => exact ⟨[], nofun, .inl hc, rfl⟩
  | closed result => exact ⟨[], nofun, .inr ⟨result, hc⟩, rfl⟩
  | handling id op =>
    refine ⟨[.answer told], List.forall_mem_singleton.mpr hallowed, ?_⟩
    rw [run_cons, run_nil]
    cases hr : H.handle w told id op with
    | ok r =>
      simp only [step, hc, hr]
      exact ⟨idle_write (.response r), write_input (.response r) .reading⟩
    | error e =>
      simp only [step, hc, hr]
      exact ⟨idle_write (.response (.internal id e)),
        write_input (.response (.internal id e)) .reading⟩
  | streaming id kind task rx =>
    have hgone : (step S H w c (.abort : Action ι)).1.phase = .streaming id kind none rx ∧
        (step S H w c (.abort : Action ι)).1.input = c.input := by
      cases task with
      | none => simp only [step, hc, and_self]
      | some k => simp only [step, hc, and_self]
    obtain ⟨n, hidle, hinput⟩ := drains S H w rfl hgone.1
    rw [hgone.2] at hinput
    refine ⟨.abort :: List.replicate n .write, fun a ha => ?_, ?_⟩
    · rcases List.mem_cons.mp ha with rfl | ha
      · trivial
      · rw [List.eq_of_mem_replicate ha]
        trivial
    · rw [run_cons]
      exact ⟨hidle, hinput⟩

variable {S} in
theorem reject_phase (fresh : RequestId) (e : IpcError) :
    ∃ result, (c.reject S fresh e).1.phase = .closed result := by
  unfold reject
  split <;> exact ⟨_, rfl⟩

include fresh in
/-- No connection is ever stuck: it can always be served to the end of its input. -/
theorem reaches_closed (hallowed : Told told) (c : Connection κ) :
    ∃ as : List (Action ι), (∀ a ∈ as, a.Allowed Told) ∧
      ∃ result, (run (step S H w) c as).1.phase = .closed result := by
  induction hn : c.input.contents.length using Nat.strong_induction_on generalizing c with
  | _ n ih =>
    obtain ⟨as, has, hidle, hinput⟩ := reaches_idle S H w told hallowed c
    rcases hidle with hread | hclosed
    · -- the next request, unless it was the last one
      have hnext : ∀ a ∈ as ++ [.read fresh], a.Allowed Told := by
        intro a ha
        rcases List.mem_append.mp ha with ha | ha
        · exact has a ha
        · rw [List.mem_singleton.mp ha]
          trivial
      rcases hframe : readFrame S.requests (run (step S H w) c as).1.input with ⟨e | req, input⟩
      · obtain ⟨result, hresult⟩ :=
          reject_phase (S := S) (c := { (run (step S H w) c as).1 with input := input }) fresh e
        refine ⟨as ++ [.read fresh], hnext, result, ?_⟩
        rw [run_append, run_cons, run_nil]
        simp only [step, hread, hframe]
        exact hresult
      · have hless : input.contents.length < n := by
          have hshrink := readFrame_shrinks S.requests hframe
          rw [hinput, hn] at hshrink
          exact hshrink
        obtain ⟨bs, hbs, result, hresult⟩ := ih input.contents.length hless
          (dispatch H { (run (step S H w) c as).1 with input := input } req) rfl
        refine ⟨(as ++ [.read fresh]) ++ bs, ?_, result, ?_⟩
        · intro a ha
          exact (List.mem_append.mp ha).elim (hnext a) (hbs a)
        · rw [run_append, run_append, run_cons, run_nil]
          simp only [step, hread, hframe]
          exact hresult
    · exact ⟨as, has, hclosed⟩

end Finish

end Connection

end Vcli.Ipc
