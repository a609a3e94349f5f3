import Vcli.Ipc.Client

/-! What one turn of the server does to a session, and what each side reads of the other. -/

namespace Vcli.Ipc

open Transport

section Wire
variable {T : Type} {C : Codec T}

theorem readFrame_frame {r : Arrivals UInt8} (hclean : r.Clean) {bytes rest : List UInt8}
    (hfit : bytes.length ≤ maxFrameLen) (hcontents : r.contents = frame bytes ++ rest) :
    ∃ r', r'.contents = rest ∧ readFrame C r = match C.fromSlice bytes with
      | .error message => (.error (.invalidJson message), r')
      | .ok value => (.ok value, r') := by
  rw [frame, List.append_assoc] at hcontents
  have hlen := BigEndian.length_toBytes 4 bytes.length
  obtain ⟨r₁, hclean₁, hrest₁, hhdr⟩ := Arrivals.fill_whole hclean hcontents hlen
  obtain ⟨r₂, -, hrest₂, hbuf⟩ := Arrivals.fill_whole hclean₁ hrest₁ rfl
  refine ⟨r₂, hrest₂, ?_⟩
  simp only [readFrame, hhdr, ofBytes_header hfit]
  rw [if_neg (by omega)]
  cases hread : C.fromSlice bytes with
  | error message => simp only [hbuf, hread]
  | ok value => simp only [hbuf, hread]

theorem readFrame_end {r : Arrivals UInt8} (hclean : r.Clean) (hcontents : r.contents = []) :
    ∃ r', r'.contents = [] ∧ readFrame C r = (.error (.unexpectedEof 0 4), r') := by
  have hshort : r.contents.length < 4 := by simp [hcontents]
  obtain ⟨r', -, hrest, hfill⟩ := Arrivals.fill_short hclean hshort
  refine ⟨r', hrest, ?_⟩
  simp only [readFrame, hfill, hcontents, List.length_nil]

end Wire

def Request.heard (ρ : F64 → F64) (req : Request) : Request :=
  { req with op := req.op.mapPayloads (Json.renumber ρ) }

@[simp] theorem isStreaming_mapPayloads (T : Json → Json) (op : RequestOp) :
    isStreaming (op.mapPayloads T) = isStreaming op := by
  cases op <;> rfl

theorem Request.heard_of_streaming {ρ : F64 → F64} {req : Request}
    (hop : isStreaming req.op = true) : req.heard ρ = req ∧ req.toValue.depth ≤ 127 := by
  obtain ⟨id, op⟩ := req
  have hnone : op.payloads = [] := by
    cases op with
    | logs | events | trace => rfl
    | submit | list | status | cancel | start | resume | health | gc | shutdown => cases hop
  constructor
  · have hsame : op.mapPayloads (Json.renumber ρ) = op :=
      RequestOp.mapPayloads_eq_iff.mpr (by simp [hnone])
    rw [heard, hsame]
  · apply Request.depth_le.mpr
    simp [hnone]

def Phase.AtRest {κ : Type} : Phase κ → Prop
  | reading | closed _ => True
  | _ => False

def Reads (S : SerdeJson) (up : List UInt8) (result : Except IpcError Request) : Prop :=
  ∀ r : Arrivals UInt8, r.Clean → r.contents = up →
    ∃ r', r'.contents = [] ∧ readFrame S.requests r = (result, r')

section Codecs
variable {S : SerdeJson}

theorem Message.fromValue_response {parseId : String → Option ProgramId} {v : Json} {r : Response}
    (h : fromValue parseId v = some (.response r)) : Response.fromValue parseId v = some r := by
  unfold fromValue at h
  cases hresponse : Response.fromValue parseId v with
  | none => simp [hresponse] at h
  | some r' => simpa [hresponse] using h

theorem Message.fromValue_frame {parseId : String → Option ProgramId} {v : Json} {f : StreamFrame}
    (h : fromValue parseId v = some (.frame f)) : StreamFrame.fromValue parseId v = some f := by
  unfold fromValue at h
  cases hresponse : Response.fromValue parseId v with
  | none => simpa [hresponse] using h
  | some r' => simp [hresponse] at h

theorem Json.decode_mono {α β : Type} {readF64 : List Char → Option F64} {dec : Json → Option α}
    {dec' : Json → Option β} {a : α} {b : β} {bytes : List UInt8}
    (himp : ∀ v, dec v = some a → dec' v = some b)
    (h : Json.decode readF64 dec bytes = some a) : Json.decode readF64 dec' bytes = some b := by
  unfold Json.decode at h ⊢
  obtain ⟨v, hv, hdec⟩ := Option.bind_eq_some_iff.mp h
  split_ifs at hdec with hdepth
  rw [hv, Option.bind_some, if_pos hdepth]
  exact himp v hdec

theorem decode_of_inverts {m : Message} (h : S.messages.Inverts m) :
    Json.decode S.readF64 (Message.fromValue S.parseId) (m.toValue.encode S.ryu) = some m := by
  have hread := h _ rfl
  simp only [SerdeJson.messages, SerdeJson.codec] at hread
  split at hread
  · next m' hdecode => rw [hdecode, Except.ok.inj hread]
  · cases hread

theorem responses_inverts {r : Response} (h : S.messages.Inverts (.response r)) :
    S.responses.Inverts r := by
  intro bytes hbytes
  obtain rfl := Except.ok.inj hbytes
  have hdecode := Json.decode_mono (fun v => Message.fromValue_response (v := v)) (decode_of_inverts h)
  simp only [SerdeJson.responses, SerdeJson.codec]
  simp only [Message.toValue] at hdecode
  simp only [hdecode]

theorem frames_inverts {f : StreamFrame} (h : S.messages.Inverts (.frame f)) :
    S.frames.Inverts f := by
  intro bytes hbytes
  obtain rfl := Except.ok.inj hbytes
  have hdecode := Json.decode_mono (fun v => Message.fromValue_frame (v := v)) (decode_of_inverts h)
  simp only [SerdeJson.frames, SerdeJson.codec]
  simp only [Message.toValue] at hdecode
  simp only [hdecode]

theorem fits_iff {T : Type} {enc : T → Json}
    {dec : (String → Option ProgramId) → Json → Option T} {value : T} :
    (S.codec enc dec).Fits value ↔ ((enc value).encode S.ryu).length ≤ maxFrameLen := by
  constructor
  · rintro ⟨bytes, hbytes, hlen⟩
    rwa [Except.ok.inj hbytes]
  · exact fun hlen => ⟨_, rfl, hlen⟩

theorem send_ok {req : Request} (h : S.requests.Fits req) :
    Client.send S req = .ok (frame (req.toValue.encode S.ryu)) := by
  have hwrite := writeFrame_fits (C := S.requests) rfl (fits_iff.mp h) []
  rw [Client.send, hwrite]
  rfl

theorem send_error {req : Request} (h : ¬ S.requests.Fits req) :
    ∃ len, Client.send S req = .error (.frameTooLarge len maxFrameLen) := by
  have hbig : maxFrameLen < (req.toValue.encode S.ryu).length :=
    Nat.lt_of_not_le fun hlen => h (fits_iff.mpr hlen)
  obtain ⟨len, hwrite⟩ := writeFrame_too_large (C := S.requests) rfl hbig ⟨[], none⟩
  exact ⟨len, by rw [Client.send, hwrite]⟩

section Requests
variable {ρ : F64 → F64} (hS : S.Sound ρ) {req : Request} (hop : req.op.Fits)
  (hfits : S.requests.Fits req)

include hS hop in
theorem requests_decode : S.requests.fromSlice (req.toValue.encode S.ryu) =
    if req.toValue.depth ≤ 127 then .ok (req.heard ρ)
    else .error (S.explain (req.toValue.encode S.ryu)) := by
  have hdecode := decode_encode hS.printed (Request.fromValue S.parseId) (Request.wellFormed hop)
  rw [Request.fromValue_render hS.ids] at hdecode
  simp only [SerdeJson.requests, SerdeJson.codec, hdecode]
  split_ifs <;> rfl

include hS hop hfits

theorem reads_request (hdepth : req.toValue.depth ≤ 127) :
    Reads S (frame (req.toValue.encode S.ryu)) (.ok (req.heard ρ)) := by
  intro r hclean hcontents
  rw [← List.append_nil (frame _)] at hcontents
  obtain ⟨r', hrest, hread⟩ := readFrame_frame (C := S.requests) hclean (fits_iff.mp hfits) hcontents
  rw [requests_decode hS hop, if_pos hdepth] at hread
  exact ⟨r', hrest, hread⟩

theorem reads_garbled (hdepth : ¬ req.toValue.depth ≤ 127) :
    ∃ message, Reads S (frame (req.toValue.encode S.ryu)) (.error (.invalidJson message)) := by
  refine ⟨S.explain (req.toValue.encode S.ryu), fun r hclean hcontents => ?_⟩
  rw [← List.append_nil (frame _)] at hcontents
  obtain ⟨r', hrest, hread⟩ := readFrame_frame (C := S.requests) hclean (fits_iff.mp hfits) hcontents
  rw [requests_decode hS hop, if_neg hdepth] at hread
  exact ⟨r', hrest, hread⟩

end Requests

theorem readFrame_down {T : Type} {C : Codec T} {value : T} {m : Message} {ms : List Message}
    (hinv : C.Inverts value) (henc : C.toVec value = S.messages.toVec m)
    (hm : S.messages.Fits m) (hms : ∀ m ∈ ms, S.messages.Fits m) {r : Arrivals UInt8}
    (hclean : r.Clean) (hcontents : r.contents = stream S.messages (m :: ms)) :
    ∃ r', r'.contents = stream S.messages ms ∧ readFrame C r = (.ok value, r') := by
  obtain ⟨bytes, hbytes, hlen⟩ := hm
  rw [stream_cons hbytes hlen hms] at hcontents
  obtain ⟨r', -, hrest, hread⟩ := readFrame_whole hinv hclean (henc.trans hbytes) hlen hcontents
  exact ⟨r', hrest, hread⟩

theorem length_flatMap_le {α β : Type} {g : α → List β} {k : Nat} (hg : ∀ a, (g a).length ≤ k)
    (l : List α) : (l.flatMap g).length ≤ k * l.length := by
  induction l with
  | nil => simp
  | cons a l ih =>
    have ha := hg a
    rw [List.flatMap_cons, List.length_append, List.length_cons, Nat.mul_succ]
    omega

theorem length_escape_le (c : Char) : (escape c).length ≤ 6 := by
  unfold escape
  split_ifs <;> simp

theorem length_quote_id_le (id : RequestId) : (quote id.toString).length ≤ 218 := by
  have hlen : id.toString.toList.length = 36 := by
    simp [RequestId.toString, ProgramId.toString, ProgramId.hex_length]
  have hescaped := length_flatMap_le length_escape_le id.toString.toList
  simp only [quote, List.length_append, List.length_cons, List.length_nil]
  omega

theorem endOfStream_fits (id : RequestId) (kind : StreamKind) :
    S.messages.Fits (.frame (.endOfStream id kind)) := by
  have hid := length_quote_id_le id
  have htext : ((StreamFrame.endOfStream id kind).toValue.emit S.ryu).length ≤ 300 := by
    cases kind <;>
    · simp [StreamFrame.endOfStream, StreamFrame.toValue, RequestId.toValue, StreamKind.toValue,
        Json.emit, Json.emitEntries, separated, optional, quote, escape] at hid ⊢
      omega
  have hbytes := length_flatMap_le (g := String.utf8EncodeChar) (k := 4)
    (fun c => (String.length_utf8EncodeChar c).trans_le c.utf8Size_le_four)
    ((StreamFrame.endOfStream id kind).toValue.emit S.ryu)
  have hmax : 1200 ≤ maxFrameLen := by decide
  apply fits_iff.mpr
  exact le_trans hbytes (by omega)

end Codecs

namespace Session

variable {ω ι κ : Type} {S : SerdeJson} {H : Handler ω ι κ} {w : ω} {s : Session κ}

theorem write_spec (c : Connection κ) (hc : c.sink = ⟨[], none⟩) (m : Message) (next : Phase κ) :
    S.messages.Fits m ∧ c.write S m next =
        ({ c with sink := ⟨stream S.messages [m], none⟩, phase := next }, [m]) ∨
      ¬ S.messages.Fits m ∧ ∃ e, c.write S m next = ({ c with phase := .closed (.error e) }, [m]) := by
  by_cases hm : S.messages.Fits m
  · obtain ⟨bytes, hbytes, hlen⟩ := hm
    have hone : stream S.messages [m] = frame bytes := by
      rw [stream_cons hbytes hlen (List.forall_mem_nil _)]
      exact List.append_nil _
    refine .inl ⟨⟨bytes, hbytes, hlen⟩, ?_⟩
    rw [Connection.write, hc, writeFrame_fits hbytes hlen, hone, List.nil_append]
  · have hbig : maxFrameLen < (m.toValue.encode S.ryu).length :=
      Nat.lt_of_not_le fun hlen => hm (fits_iff.mpr hlen)
    obtain ⟨len, hwrite⟩ := writeFrame_too_large (C := S.messages) rfl hbig c.sink
    exact .inr ⟨hm, _, by rw [Connection.write, hwrite]⟩

theorem serve_eq {cuts : List Nat} {a : Action ι} {c : Connection κ} {out : List Message}
    (hblocked : s.Blocked S cuts a = false)
    (hstep : Connection.step S H w ⟨.cut cuts s.up, ⟨[], none⟩, s.server⟩ a = (c, out)) :
    s.serve S H w cuts a =
      ({ s with up := c.input.contents, server := c.phase, down := s.down ++ c.sink.sent },
        s.happenings H w a out) := by
  simp only [serve, hblocked, Bool.false_eq_true, if_false, hstep]

theorem serve_quiet {cuts : List Nat} {a : Action ι}
    (hstep : Connection.step S H w ⟨.cut cuts s.up, ⟨[], none⟩, s.server⟩ a =
      (⟨.cut cuts s.up, ⟨[], none⟩, s.server⟩, [])) (hnone : s.happenings H w a [] = []) :
    s.serve S H w cuts a = (s, []) := by
  cases hblocked : s.Blocked S cuts a with
  | true => simp only [serve, hblocked, if_true]
  | false =>
    rw [serve_eq hblocked hstep, hnone, Arrivals.cut_contents, List.append_nil]

theorem happenings_reading (hs : s.server = .reading) (a : Action ι) (out : List Message) :
    s.happenings H w a out = out.filterMap (Happening.ofMessage w) := by
  simp only [happenings, hs]

theorem serve_closed {result : Except IpcError Unit} (hs : s.server = .closed result)
    (cuts : List Nat) (a : Action ι) : s.serve S H w cuts a = (s, []) := by
  apply serve_quiet
  · cases a <;> simp only [Connection.step, hs]
  · simp only [happenings, hs, List.filterMap_nil]

theorem serve_reading_quiet (hs : s.server = .reading) (cuts : List Nat) {a : Action ι}
    (ha : ∀ fresh, a ≠ .read fresh) : s.serve S H w cuts a = (s, []) := by
  apply serve_quiet
  · cases a with
    | read fresh => exact absurd rfl (ha fresh)
    | answer | fail | poll | abort | write => simp only [Connection.step, hs]
  · simp only [happenings_reading hs, List.filterMap_nil]

theorem serve_request (hs : s.server = .reading) {req : Ipc.Request} (hup : Reads S s.up (.ok req))
    (cuts : List Nat) (fresh : RequestId) : s.serve S H w cuts (.read fresh) =
      ({ s with
          up := []
          server :=
            if isStreaming req.op then
              .streaming req.id (streamKind req.op) (some (H.handleStream req.id req.op)) .empty
            else .handling req.id req.op }, []) := by
  obtain ⟨r', hrest, hframe⟩ := hup _ (Arrivals.cut_clean cuts s.up) (Arrivals.cut_contents ..)
  have hblocked : s.Blocked S cuts (.read fresh : Action ι) = false := by
    simp only [Blocked, hs, hframe]
  have hstep : Connection.step S H w ⟨.cut cuts s.up, ⟨[], none⟩, s.server⟩ (.read fresh) =
      (Connection.dispatch H ⟨r', ⟨[], none⟩, s.server⟩ req, []) := by
    simp only [Connection.step, hs, hframe]
  rw [serve_eq hblocked hstep, happenings_reading hs]
  simp only [Connection.dispatch, hrest, List.append_nil, List.filterMap_nil]

theorem serve_garbled (hs : s.server = .reading) {message : String}
    (hup : Reads S s.up (.error (.invalidJson message))) (cuts : List Nat) (fresh : RequestId) :
    let r : Response := .internal fresh (.invalidJson message)
    s.serve S H w cuts (.read fresh) =
        ({ s with up := [], server := .closed (.error (.invalidJson message)),
                  down := s.down ++ stream S.messages [.response r] }, [.answered w r]) ∧
        S.messages.Fits (.response r) ∨
      s.serve S H w cuts (.read fresh) =
        ({ s with up := [], server := .closed (.error (.invalidJson message)) },
          [.answered w r]) ∧ ¬ S.messages.Fits (.response r) := by
  intro r
  obtain ⟨r', hrest, hframe⟩ := hup _ (Arrivals.cut_clean cuts s.up) (Arrivals.cut_contents ..)
  have hblocked : s.Blocked S cuts (.read fresh : Action ι) = false := by
    simp only [Blocked, hs, hframe, Waits]
  have hstep : Connection.step S H w ⟨.cut cuts s.up, ⟨[], none⟩, s.server⟩ (.read fresh) =
      ({ input := r', sink := (writeFrame S.messages ⟨[], none⟩ (.response r)).2,
         phase := .closed (.error (.invalidJson message)) }, [.response r]) := by
    simp only [Connection.step, hs, hframe, Connection.reject, r]
  rw [serve_eq hblocked hstep, happenings_reading hs]
  simp only [hrest, List.filterMap_cons, Happening.ofMessage, List.filterMap_nil]
  by_cases hfits : S.messages.Fits (.response r)
  · obtain ⟨bytes, hbytes, hlen⟩ := hfits
    refine .inl ⟨?_, bytes, hbytes, hlen⟩
    rw [writeFrame_fits hbytes hlen, stream_cons hbytes hlen (List.forall_mem_nil _)]
    simp [stream, writeFrames]
  · have hbig : maxFrameLen < ((Message.response r).toValue.encode S.ryu).length :=
      Nat.lt_of_not_le fun hlen => hfits (fits_iff.mpr hlen)
    obtain ⟨len, hwrite⟩ := writeFrame_too_large (C := S.messages) rfl hbig ⟨[], none⟩
    refine .inr ⟨?_, hfits⟩
    rw [hwrite, List.append_nil]

theorem serve_rest (hup : s.up = []) (hserver : s.server.AtRest) (cuts : List Nat) (a : Action ι) :
    ∃ server : Phase κ, server.AtRest ∧ (s.client.hungUp = false → server = s.server) ∧
      s.serve S H w cuts a = ({ s with server := server }, []) := by
  cases hs : s.server with
  | handling id op => simp [hs, Phase.AtRest] at hserver
  | streaming id kind task rx => simp [hs, Phase.AtRest] at hserver
  | closed result => exact ⟨s.server, hserver, fun _ => hs, serve_closed hs cuts a⟩
  | reading =>
    by_cases hread : ∃ fresh, a = .read fresh
    · obtain ⟨fresh, rfl⟩ := hread
      have hcontents := (Arrivals.cut_contents cuts s.up).trans hup
      obtain ⟨r', hrest, hframe⟩ :=
        readFrame_end (C := S.requests) (Arrivals.cut_clean cuts s.up) hcontents
      cases hhung : s.client.hungUp with
      | false =>
        have hblocked : s.Blocked S cuts (.read fresh : Action ι) = true := by
          simp only [Blocked, hs, hframe, Waits, hhung, Bool.not_false]
        refine ⟨s.server, hserver, fun _ => hs, ?_⟩
        simp only [serve, hblocked, if_true]
      | true =>
        have hblocked : s.Blocked S cuts (.read fresh : Action ι) = false := by
          simp only [Blocked, hs, hframe, Waits, hhung, Bool.not_true]
        have hstep : Connection.step S H w ⟨.cut cuts s.up, ⟨[], none⟩, s.server⟩ (.read fresh) =
            (⟨r', ⟨[], none⟩, .closed (.ok ())⟩, []) := by
          simp only [Connection.step, hs, hframe, Connection.reject]
        refine ⟨.closed (.ok ()), trivial, fun h => absurd h (by simp), ?_⟩
        rw [serve_eq hblocked hstep, happenings_reading hs, List.filterMap_nil, hrest, hup,
          List.append_nil]
    · refine ⟨s.server, hserver, fun _ => hs, ?_⟩
      exact serve_reading_quiet hs cuts fun fresh hfresh => hread ⟨fresh, hfresh⟩

theorem serve_handling {id : RequestId} {op : RequestOp} (hs : s.server = .handling id op)
    (cuts : List Nat) (a : Action ι) :
    (∀ told, a ≠ .answer told) ∧ s.serve S H w cuts a = (s, []) ∨ ∃ r : Response,
      ((∃ told, a = .answer told ∧ H.handle w told id op = .ok r) ∨ ∃ e, r = .internal id e) ∧
      (S.messages.Fits (.response r) ∧ s.serve S H w cuts a =
          ({ s with server := .reading, down := s.down ++ stream S.messages [.response r] },
            [.answered w r]) ∨
        ¬ S.messages.Fits (.response r) ∧ ∃ e, s.serve S H w cuts a =
          ({ s with server := .closed (.error e) }, [.answered w r])) := by
  have hanswers (out : List Message) :
      s.happenings H w a out = out.filterMap (Happening.ofMessage w) := by
    simp only [happenings, hs]
  have hwritten (r : Response) (hblocked : s.Blocked S cuts a = false)
      (hstep : Connection.step S H w ⟨.cut cuts s.up, ⟨[], none⟩, s.server⟩ a =
        Connection.write S ⟨.cut cuts s.up, ⟨[], none⟩, s.server⟩ (.response r) .reading) :
      S.messages.Fits (.response r) ∧ s.serve S H w cuts a =
          ({ s with server := .reading, down := s.down ++ stream S.messages [.response r] },
            [.answered w r]) ∨
        ¬ S.messages.Fits (.response r) ∧ ∃ e, s.serve S H w cuts a =
          ({ s with server := .closed (.error e) }, [.answered w r]) := by
    rcases write_spec (S := S) ⟨.cut cuts s.up, ⟨[], none⟩, s.server⟩ rfl (.response r) .reading with
      ⟨hfits, hwrite⟩ | ⟨hfits, e, hwrite⟩
    · refine .inl ⟨hfits, ?_⟩
      rw [serve_eq hblocked (hstep.trans hwrite), hanswers, Arrivals.cut_contents]
      rfl
    · refine .inr ⟨hfits, e, ?_⟩
      rw [serve_eq hblocked (hstep.trans hwrite), hanswers, Arrivals.cut_contents, List.append_nil]
      rfl
  cases a with
  | read | poll | abort | write =>
    refine .inl ⟨by simp, serve_quiet ?_ ?_⟩
    · simp only [Connection.step, hs]
    · rw [hanswers, List.filterMap_nil]
  | answer told =>
    cases hr : H.handle w told id op with
    | ok r =>
      refine .inr ⟨r, .inl ⟨told, rfl, hr⟩, hwritten r rfl ?_⟩
      simp only [Connection.step, hs, hr]
    | error e =>
      refine .inr ⟨.internal id e, .inr ⟨e, rfl⟩, hwritten _ rfl ?_⟩
      simp only [Connection.step, hs, hr]
  | fail e =>
    refine .inr ⟨.internal id e, .inr ⟨e, rfl⟩, hwritten _ rfl ?_⟩
    simp only [Connection.step, hs]

section Streams
variable {id : RequestId} {kind : StreamKind} {rx : Channel StreamFrame streamCapacity}

theorem serve_poll {task : κ} (hs : s.server = .streaming id kind (some task) rx)
    (cuts : List Nat) (told : ι) :
    s.serve S H w cuts (.poll told) = match H.poll w told task with
      | .pending => (s, [])
      | .resumed task => ({ s with server := .streaming id kind (some task) rx }, [.polled w told])
      | .sending f task =>
        match rx.send? f with
        | some rx => ({ s with server := .streaming id kind (some task) rx }, [.polled w told])
        | none => (s, [])
      | .returned _ => ({ s with server := .streaming id kind none rx }, [.polled w told]) := by
  cases hpoll : H.poll w told task with
  | pending =>
    refine serve_quiet ?_ ?_
    · simp only [Connection.step, hs, hpoll]
    · simp only [happenings, hs, hpoll]
  | resumed task' =>
    have hstep : Connection.step S H w ⟨.cut cuts s.up, ⟨[], none⟩, s.server⟩ (.poll told) =
        (⟨.cut cuts s.up, ⟨[], none⟩, .streaming id kind (some task') rx⟩, []) := by
      simp only [Connection.step, hs, hpoll]
    rw [serve_eq rfl hstep]
    simp only [happenings, hs, hpoll, Arrivals.cut_contents, List.append_nil]
  | returned result =>
    have hstep : Connection.step S H w ⟨.cut cuts s.up, ⟨[], none⟩, s.server⟩ (.poll told) =
        (⟨.cut cuts s.up, ⟨[], none⟩, .streaming id kind none rx⟩, []) := by
      simp only [Connection.step, hs, hpoll]
    rw [serve_eq rfl hstep]
    simp only [happenings, hs, hpoll, Arrivals.cut_contents, List.append_nil]
  | sending f task' =>
    cases hsend : rx.send? f with
    | none =>
      have hfull : ¬ rx.queued.length < streamCapacity := by
        intro hlt
        rw [Channel.send?, dif_pos hlt] at hsend
        cases hsend
      simp only [hsend]
      refine serve_quiet ?_ ?_
      · simp only [Connection.step, hs, hpoll, hsend]
      · simp only [happenings, hs, hpoll, if_neg hfull]
    | some rx' =>
      have hroom : rx.queued.length < streamCapacity := by
        by_contra hfull
        rw [Channel.send?, dif_neg hfull] at hsend
        cases hsend
      have hstep : Connection.step S H w ⟨.cut cuts s.up, ⟨[], none⟩, s.server⟩ (.poll told) =
          (⟨.cut cuts s.up, ⟨[], none⟩, .streaming id kind (some task') rx'⟩, []) := by
        simp only [Connection.step, hs, hpoll, hsend]
      rw [serve_eq rfl hstep]
      simp only [hsend, happenings, hs, hpoll, if_pos hroom, Arrivals.cut_contents, List.append_nil]

theorem serve_abort {task : κ} (hs : s.server = .streaming id kind (some task) rx)
    (cuts : List Nat) : s.serve S H w cuts (.abort : Action ι) =
      ({ s with server := .streaming id kind none rx }, [.aborted]) := by
  have hstep : Connection.step S H w ⟨.cut cuts s.up, ⟨[], none⟩, s.server⟩ (.abort : Action ι) =
      (⟨.cut cuts s.up, ⟨[], none⟩, .streaming id kind none rx⟩, []) := by
    simp only [Connection.step, hs]
  rw [serve_eq rfl hstep]
  simp only [happenings, hs, Arrivals.cut_contents, List.append_nil]

theorem serve_frame {task : Option κ} (hs : s.server = .streaming id kind task rx)
    (cuts : List Nat) {f : StreamFrame} {next : Phase κ}
    (hstep : Connection.step S H w ⟨.cut cuts s.up, ⟨[], none⟩, s.server⟩ (.write : Action ι) =
      Connection.write S ⟨.cut cuts s.up, ⟨[], none⟩, s.server⟩ (.frame f) next) :
    S.messages.Fits (.frame f) ∧ s.serve S H w cuts (.write : Action ι) =
        ({ s with server := next, down := s.down ++ stream S.messages [.frame f] }, []) ∨
      ¬ S.messages.Fits (.frame f) ∧ ∃ e, s.serve S H w cuts (.write : Action ι) =
        ({ s with server := .closed (.error e) }, []) := by
  have hnone : s.happenings H w (.write : Action ι) [.frame f] = [] := by
    cases task <;> simp only [happenings, hs, List.filterMap_cons, List.filterMap_nil,
      Happening.ofMessage]
  rcases write_spec (S := S) ⟨.cut cuts s.up, ⟨[], none⟩, s.server⟩ rfl (.frame f) next with
    ⟨hfits, hwrite⟩ | ⟨hfits, e, hwrite⟩
  · refine .inl ⟨hfits, ?_⟩
    rw [serve_eq rfl (hstep.trans hwrite), hnone, Arrivals.cut_contents]
  · refine .inr ⟨hfits, e, ?_⟩
    rw [serve_eq rfl (hstep.trans hwrite), hnone, Arrivals.cut_contents, List.append_nil]

theorem serve_streaming_quiet {task : Option κ} (hs : s.server = .streaming id kind task rx)
    (cuts : List Nat) {a : Action ι} (hpoll : ∀ told, a = .poll told → task = none)
    (habort : a = .abort → task = none)
    (hwrite : a = .write → rx.queued = [] ∧ task ≠ none) : s.serve S H w cuts a = (s, []) := by
  have hrecv : a = .write → rx.recv? = none := fun ha => Channel.recv?_eq_none_iff.mpr (hwrite ha).1
  apply serve_quiet
  · cases a with
    | read | answer | fail => simp only [Connection.step, hs]
    | poll told => simp only [Connection.step, hs, hpoll told rfl]
    | abort => simp only [Connection.step, hs, habort rfl]
    | write =>
      cases task with
      | none => exact absurd rfl (hwrite rfl).2
      | some task => simp only [Connection.step, hs, hrecv rfl]
  · cases a with
    | read | answer | fail | write => cases task <;> simp only [happenings, hs, List.filterMap_nil]
    | poll told =>
      simp only [happenings, hs, hpoll told rfl, List.filterMap_nil]
    | abort => simp only [happenings, hs, habort rfl, List.filterMap_nil]

end Streams

section Polled
variable {w' : ω} {turn : EndMove ι} {told : ι}

theorem polled_of_happenings {a : Action ι} {out : List Message}
    (h : .polled w' told ∈ s.happenings H w a out) :
    s.happenings H w a out = [.polled w' told] ∧ w' = w ∧
      ∃ id kind task rx, s.server = .streaming id kind (some task) rx := by
  unfold happenings at h ⊢
  split at h
  · next id kind task rx told' hs =>
    simp only [hs]
    cases hpoll : H.poll w told' task with
    | pending => simp [hpoll] at h
    | resumed task' =>
      simp only [hpoll, List.mem_singleton, Happening.polled.injEq] at h
      obtain ⟨rfl, rfl⟩ := h
      exact ⟨rfl, rfl, _, _, _, _, rfl⟩
    | returned result =>
      simp only [hpoll, List.mem_singleton, Happening.polled.injEq] at h
      obtain ⟨rfl, rfl⟩ := h
      exact ⟨rfl, rfl, _, _, _, _, rfl⟩
    | sending f task' =>
      simp only [hpoll] at h ⊢
      split_ifs at h ⊢
      · simp only [List.mem_singleton, Happening.polled.injEq] at h
        obtain ⟨rfl, rfl⟩ := h
        exact ⟨rfl, rfl, _, _, _, _, rfl⟩
      · cases h
  · simp at h
  · obtain ⟨m, -, hm⟩ := List.mem_filterMap.mp h
    cases m <;> simp [Happening.ofMessage] at hm

theorem polled_alone (h : .polled w' told ∈ (s.step S H (w, turn)).2) :
    (s.step S H (w, turn)).2 = [.polled w' told] ∧ w' = w ∧
      ∃ id kind task rx, s.server = .streaming id kind (some task) rx := by
  unfold step at h ⊢
  split at h
  · unfold request at h
    split at h <;> simp at h
  · unfold requestStream at h
    split at h <;> simp at h
  · simp at h
  · unfold response at h
    split at h
    · split_ifs at h <;> simp at h
    · dsimp only at h
      split at h <;> simp at h
  · unfold nextFrame at h
    split_ifs at h
    · simp at h
    · split at h
      · split_ifs at h <;> simp at h
      · dsimp only at h
        split at h <;> simp at h
  · next a b c =>
    unfold serve at h ⊢
    split_ifs at h ⊢ with hblocked
    · cases h
    · exact polled_of_happenings h
  · cases h

end Polled

theorem requested_of_step {turn : EndMove ι} {id : RequestId}
    (h : (s.step S H (w, turn)).1.client = .requested id) :
    s.client = .requested id ∨ ∃ op, turn = .request id op := by
  unfold step at h
  split at h
  · next id' op hclient hturn =>
    unfold request at h
    split at h
    · obtain rfl := Client.requested.inj h
      exact .inr ⟨op, hturn⟩
    · cases h
  · unfold requestStream at h
    split at h <;> cases h
  · cases h
  · next id' cuts buffered hclient hturn =>
    unfold response at h
    split at h
    · split_ifs at h
      exact .inl h
    · dsimp only at h
      split at h <;> cases h
  · next id' done cuts hclient hturn =>
    unfold nextFrame at h
    split_ifs at h
    · exact .inl h
    · split at h
      · split_ifs at h
        exact .inl h
      · dsimp only at h
        split at h
        · cases h
        · exact .inl h
        · cases h
  · unfold serve at h
    split_ifs at h
    · exact .inl h
    · exact .inl h
  · exact .inl h

end Session

end Vcli.Ipc
