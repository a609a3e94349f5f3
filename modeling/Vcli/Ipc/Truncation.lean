import Vcli.Ipc.Frame

/-! Reading back a stream of frames that may have been cut anywhere. -/

namespace Vcli.Ipc

open Transport

variable {T : Type} {C : Codec T}

def Codec.Inverse (C : Codec T) : Prop :=
  ∀ value bytes, C.toVec value = .ok bytes → C.fromSlice bytes = .ok value

def Codec.Inverts (C : Codec T) (value : T) : Prop :=
  ∀ bytes, C.toVec value = .ok bytes → C.fromSlice bytes = .ok value

def Codec.Fits (C : Codec T) (value : T) : Prop :=
  ∃ bytes, C.toVec value = .ok bytes ∧ bytes.length ≤ maxFrameLen

def frame (bytes : List UInt8) : List UInt8 := BigEndian.toBytes 4 bytes.length ++ bytes

def stream (C : Codec T) (values : List T) : List UInt8 :=
  (writeFrames C ⟨[], none⟩ values).2.sent

@[simp] theorem length_frame (bytes : List UInt8) : (frame bytes).length = bytes.length + 4 := by
  rw [frame, List.length_append, BigEndian.length_toBytes, Nat.add_comm]

theorem writeFrame_fits {value : T} {bytes : List UInt8} (h : C.toVec value = .ok bytes)
    (hfit : bytes.length ≤ maxFrameLen) (sent : List UInt8) :
    writeFrame C ⟨sent, none⟩ value = (.ok (), ⟨sent ++ frame bytes, none⟩) := by
  have hmax : maxFrameLen < 2 ^ 32 := by decide
  simp only [writeFrame, h]
  rw [if_neg (by omega), if_neg (by omega)]
  simp only [Sink.writeAll, frame, List.append_assoc]

theorem writeFrame_too_large {value : T} {bytes : List UInt8} (h : C.toVec value = .ok bytes)
    (hbig : maxFrameLen < bytes.length) (w : Sink) :
    ∃ len, writeFrame C w value = (.error (.frameTooLarge len maxFrameLen), w) := by
  simp only [writeFrame, h]
  by_cases hhuge : 2 ^ 32 ≤ bytes.length
  · exact ⟨_, if_pos hhuge⟩
  · rw [if_neg hhuge, if_pos hbig]
    exact ⟨_, rfl⟩

theorem sent_writeFrames {values : List T} (h : ∀ value ∈ values, C.Fits value)
    (sent : List UInt8) :
    (writeFrames C ⟨sent, none⟩ values).2.sent = sent ++ stream C values := by
  induction values generalizing sent with
  | nil => exact (List.append_nil sent).symm
  | cons value values ih =>
    obtain ⟨bytes, hbytes, hfit⟩ := h value (List.mem_cons_self ..)
    have hrest := ih fun v hv => h v (List.mem_cons_of_mem value hv)
    simp only [stream, writeFrames, writeFrame_fits hbytes hfit, List.nil_append]
    rw [hrest, hrest, List.append_assoc]

theorem stream_cons {value : T} {values : List T} {bytes : List UInt8}
    (hbytes : C.toVec value = .ok bytes) (hfit : bytes.length ≤ maxFrameLen)
    (h : ∀ v ∈ values, C.Fits v) : stream C (value :: values) = frame bytes ++ stream C values := by
  simp only [stream, writeFrames, writeFrame_fits hbytes hfit, List.nil_append]
  exact sent_writeFrames h _

theorem stream_append {values values' : List T} (h : ∀ v ∈ values, C.Fits v)
    (h' : ∀ v ∈ values', C.Fits v) :
    stream C (values ++ values') = stream C values ++ stream C values' := by
  induction values with
  | nil => rfl
  | cons value values ih =>
    obtain ⟨bytes, hbytes, hfit⟩ := h value (List.mem_cons_self ..)
    have hrest : ∀ v ∈ values, C.Fits v := fun v hv => h v (List.mem_cons_of_mem value hv)
    have hall : ∀ v ∈ values ++ values', C.Fits v := fun v hv =>
      (List.mem_append.mp hv).elim (hrest v) (h' v)
    rw [List.cons_append, stream_cons hbytes hfit hall, stream_cons hbytes hfit hrest, ih hrest,
      List.append_assoc]

theorem readFrame_too_large {r : Arrivals UInt8} (hclean : r.Clean) {hdr rest : List UInt8}
    (hcontents : r.contents = hdr ++ rest) (hlen : hdr.length = 4)
    (hbig : maxFrameLen < BigEndian.ofBytes hdr) :
    ∃ r', readFrame C r = (.error (.frameTooLarge (BigEndian.ofBytes hdr) maxFrameLen), r') ∧
      r'.contents = rest := by
  obtain ⟨r', -, hrest, hfill⟩ := Arrivals.fill_whole hclean hcontents hlen
  refine ⟨r', ?_, hrest⟩
  simp only [readFrame, hfill, if_pos hbig]

theorem ofBytes_header {bytes : List UInt8} (hfit : bytes.length ≤ maxFrameLen) :
    BigEndian.ofBytes (BigEndian.toBytes 4 bytes.length) = bytes.length :=
  BigEndian.ofBytes_toBytes (Nat.lt_of_le_of_lt hfit (by decide))

theorem readFrame_whole {value : T} (hC : C.Inverts value) {r : Arrivals UInt8} (hclean : r.Clean)
    {bytes rest : List UInt8} (hbytes : C.toVec value = .ok bytes)
    (hfit : bytes.length ≤ maxFrameLen) (hcontents : r.contents = frame bytes ++ rest) :
    ∃ r', r'.Clean ∧ r'.contents = rest ∧ readFrame C r = (.ok value, r') := by
  rw [frame, List.append_assoc] at hcontents
  obtain ⟨r₁, hclean₁, hrest₁, hhdr⟩ :=
    Arrivals.fill_whole hclean hcontents (BigEndian.length_toBytes ..)
  obtain ⟨r₂, hclean₂, hrest₂, hbuf⟩ := Arrivals.fill_whole hclean₁ hrest₁ rfl
  refine ⟨r₂, hclean₂, hrest₂, ?_⟩
  simp only [readFrame, hhdr, ofBytes_header hfit]
  rw [if_neg (by omega), hbuf]
  simp only [hC bytes hbytes]

def cutError (d len : Nat) : IpcError :=
  if d < 4 then .unexpectedEof d 4 else .unexpectedEof (d - 4) len

theorem readFrame_cut {r : Arrivals UInt8} (hclean : r.Clean) {bytes : List UInt8}
    (hfit : bytes.length ≤ maxFrameLen) {d : Nat} (hd : d < (frame bytes).length)
    (hcontents : r.contents = (frame bytes).take d) :
    ∃ r', readFrame C r = (.error (cutError d bytes.length), r') := by
  have hlen : r.contents.length = d := by
    rw [hcontents, List.length_take]
    omega
  rw [length_frame] at hd
  by_cases hhdr : d < 4
  · obtain ⟨r', -, -, hfill⟩ := Arrivals.fill_short hclean (n := 4) (by omega)
    refine ⟨r', ?_⟩
    simp only [readFrame, hfill, hlen, cutError, if_pos hhdr]
  · have hsplit : r.contents =
        BigEndian.toBytes 4 bytes.length ++ bytes.take (d - 4) := by
      rw [hcontents, frame, List.take_append, BigEndian.length_toBytes,
        List.take_of_length_le (by rw [BigEndian.length_toBytes]; omega)]
    obtain ⟨r₁, hclean₁, hrest₁, hfirst⟩ :=
      Arrivals.fill_whole hclean hsplit (BigEndian.length_toBytes ..)
    have hlen₁ : r₁.contents.length = d - 4 := by
      rw [hrest₁, List.length_take]
      omega
    obtain ⟨r₂, -, -, hsecond⟩ := Arrivals.fill_short hclean₁ (n := bytes.length) (by omega)
    refine ⟨r₂, ?_⟩
    simp only [readFrame, hfirst, ofBytes_header hfit]
    rw [if_neg (by omega), hsecond]
    simp only [hlen₁, cutError, if_neg hhdr]

theorem readFrames_error {r r' : Arrivals UInt8} {e : IpcError}
    (h : readFrame C r = (.error e, r')) : readFrames C r = ([], e) := by
  rw [readFrames]
  split
  next e' r'' h' =>
    rw [h'] at h
    rw [Except.error.inj (Prod.mk.inj h).1]
  next value r'' h' =>
    rw [h'] at h
    cases h

theorem readFrames_ok {r r' : Arrivals UInt8} {value : T}
    (h : readFrame C r = (.ok value, r')) :
    readFrames C r = (value :: (readFrames C r').1, (readFrames C r').2) := by
  conv_lhs => rw [readFrames]
  split
  next e' r'' h' =>
    rw [h'] at h
    cases h
  next value' r'' h' =>
    rw [h'] at h
    obtain ⟨hvalue, rfl⟩ := Prod.mk.inj h
    rw [Except.ok.inj hvalue]

theorem readFrames_nil {r : Arrivals UInt8} (hclean : r.Clean) (hcontents : r.contents = []) :
    readFrames C r = ([], .unexpectedEof 0 4) := by
  obtain ⟨r', -, -, hfill⟩ := Arrivals.fill_short hclean (n := 4) (by rw [hcontents]; decide)
  have hread : readFrame C r = (.error (.unexpectedEof 0 4), r') := by
    simp only [readFrame, hfill, hcontents]
    rfl
  exact readFrames_error hread

/-- Where a cut falls: the frames before it, how far it is into the next one, and how long the
payload of that one is. -/
structure CutAt (C : Codec T) (values : List T) (n k d len : Nat) : Prop where
  bound : k ≤ values.length
  position : n = (stream C (values.take k)).length + d
  last : k = values.length → d = 0 ∧ len = 4
  inside : ∀ value, values[k]? = some value → ∃ bytes, C.toVec value = .ok bytes ∧
    bytes.length = len ∧ d < len + 4

/-- Whatever the cut, the complete frames are read, and then the cut is reported. -/
theorem readFrames_take {values : List T} (hC : ∀ v ∈ values, C.Inverts v)
    (h : ∀ v ∈ values, C.Fits v) {n : Nat} (hn : n ≤ (stream C values).length)
    {r : Arrivals UInt8} (hclean : r.Clean) (hcontents : r.contents = (stream C values).take n) :
    ∃ k d len, CutAt C values n k d len ∧
      readFrames C r = (values.take k, cutError d len) := by
  induction values generalizing n r with
  | nil =>
    have hzero : n = 0 := Nat.le_zero.mp hn
    refine ⟨0, 0, 4, ⟨Nat.le_refl 0, hzero, fun _ => ⟨rfl, rfl⟩, nofun⟩, ?_⟩
    exact readFrames_nil hclean (by rw [hcontents]; exact List.take_nil)
  | cons value values ih =>
    obtain ⟨bytes, hbytes, hfit⟩ := h value (List.mem_cons_self ..)
    have hrest : ∀ v ∈ values, C.Fits v := fun v hv => h v (List.mem_cons_of_mem value hv)
    rw [stream_cons hbytes hfit hrest] at hn hcontents
    -- the cut is in the first frame, or behind it and then in the rest
    by_cases hcut : n < (frame bytes).length
    · rw [List.take_append_of_le_length (by omega)] at hcontents
      obtain ⟨r', hread⟩ := readFrame_cut (C := C) hclean hfit hcut hcontents
      refine ⟨0, n, bytes.length, ⟨Nat.zero_le _, ?_, nofun, ?_⟩, readFrames_error hread⟩
      · exact (Nat.zero_add n).symm
      · intro v hv
        obtain rfl := Option.some.inj hv
        exact ⟨bytes, hbytes, rfl, by rwa [length_frame] at hcut⟩
    · rw [List.take_append, List.take_of_length_le (by omega)] at hcontents
      obtain ⟨r', hclean', hcontents', hread⟩ :=
        readFrame_whole (hC value (List.mem_cons_self ..)) hclean hbytes hfit hcontents
      have hCrest : ∀ v ∈ values, C.Inverts v := fun v hv => hC v (List.mem_cons_of_mem value hv)
      obtain ⟨k, d, len, hat, hreads⟩ := ih hCrest hrest (n := n - (frame bytes).length)
        (by rw [List.length_append] at hn; omega) hclean' hcontents'
      refine ⟨k + 1, d, len, ⟨Nat.succ_le_succ hat.bound, ?_, ?_, hat.inside⟩, ?_⟩
      · have hfits : ∀ v ∈ values.take k, C.Fits v := fun v hv => hrest v (List.mem_of_mem_take hv)
        have hposition := hat.position
        rw [List.take_succ_cons, stream_cons hbytes hfit hfits, List.length_append]
        omega
      · exact fun hk => hat.last (Nat.succ.inj hk)
      · rw [readFrames_ok hread, hreads]
        rfl

theorem length_stream_mono {values : List T} (h : ∀ v ∈ values, C.Fits v) {i j : Nat}
    (hij : i ≤ j) : (stream C (values.take i)).length ≤ (stream C (values.take j)).length := by
  induction values generalizing i j with
  | nil => simp
  | cons value values ih =>
    obtain ⟨bytes, hbytes, hfit⟩ := h value (List.mem_cons_self ..)
    have hrest : ∀ v ∈ values, C.Fits v := fun v hv => h v (List.mem_cons_of_mem value hv)
    cases i with
    | zero => exact Nat.zero_le _
    | succ i =>
      obtain ⟨j, rfl⟩ : ∃ j', j = j' + 1 := ⟨j - 1, by omega⟩
      have htake : ∀ m, ∀ v ∈ values.take m, C.Fits v := fun m v hv =>
        hrest v (List.mem_of_mem_take hv)
      have hrec := ih hrest (show i ≤ j by omega)
      rw [List.take_succ_cons, List.take_succ_cons, stream_cons hbytes hfit (htake i),
        stream_cons hbytes hfit (htake j), List.length_append, List.length_append]
      omega

theorem length_stream_succ {values : List T} (h : ∀ v ∈ values, C.Fits v) {j : Nat} {value : T}
    {bytes : List UInt8} (hj : values[j]? = some value) (hbytes : C.toVec value = .ok bytes) :
    (stream C (values.take (j + 1))).length =
      (stream C (values.take j)).length + (bytes.length + 4) := by
  induction values generalizing j with
  | nil => exact nomatch hj
  | cons v values ih =>
    obtain ⟨bytes', hbytes', hfit⟩ := h v (List.mem_cons_self ..)
    have hrest : ∀ v ∈ values, C.Fits v := fun u hu => h u (List.mem_cons_of_mem v hu)
    have htake : ∀ m, ∀ v ∈ values.take m, C.Fits v := fun m v hv =>
      hrest v (List.mem_of_mem_take hv)
    rw [List.take_succ_cons, stream_cons hbytes' hfit (htake j), List.length_append, length_frame]
    cases j with
    | zero =>
      obtain rfl := Option.some.inj hj
      obtain rfl := Except.ok.inj (hbytes.symm.trans hbytes')
      simp [stream, writeFrames]
    | succ j =>
      rw [List.take_succ_cons, stream_cons hbytes' hfit (htake j), List.length_append,
        length_frame, ih hrest hj]
      omega

theorem CutAt.unique {values : List T} (h : ∀ v ∈ values, C.Fits v) {n k d len j : Nat}
    (hat : CutAt C values n k d len) {value : T} {bytes : List UInt8}
    (hj : values[j]? = some value) (hbytes : C.toVec value = .ok bytes)
    (hlow : (stream C (values.take j)).length ≤ n)
    (hhigh : n < (stream C (values.take j)).length + (bytes.length + 4)) : j = k := by
  have hnext := length_stream_succ h hj hbytes
  have hposition := hat.position
  rcases Nat.lt_trichotomy j k with hlt | heq | hgt
  · have hmono := length_stream_mono h (show j + 1 ≤ k by omega)
    omega
  · exact heq
  · have hk : k < values.length := by
      obtain ⟨hj', -⟩ := List.getElem?_eq_some_iff.mp hj
      omega
    obtain ⟨bytes', hbytes', hlen, hinside⟩ := hat.inside values[k] (List.getElem?_eq_getElem hk)
    have hnext' := length_stream_succ h (List.getElem?_eq_getElem hk) hbytes'
    have hmono := length_stream_mono h (show k + 1 ≤ j by omega)
    omega

def AtBoundary (C : Codec T) (values : List T) (n : Nat) : Prop :=
  ∃ j ≤ values.length, n = (stream C (values.take j)).length

def BehindHeaderOfFour (C : Codec T) (values : List T) (n : Nat) : Prop :=
  ∃ (j : Nat) (value : T) (bytes : List UInt8), values[j]? = some value ∧
    C.toVec value = .ok bytes ∧ bytes.length = 4 ∧ n = (stream C (values.take j)).length + 4

theorem CutAt.boundary_iff {values : List T} (h : ∀ v ∈ values, C.Fits v) {n k d len : Nat}
    (hat : CutAt C values n k d len) : AtBoundary C values n ↔ d = 0 := by
  constructor
  · rintro ⟨j, hj, hn⟩
    have hposition := hat.position
    rcases Nat.lt_trichotomy j k with hlt | rfl | hgt
    · have hmono := length_stream_mono h (show j ≤ k by omega)
      omega
    · omega
    · have hk : k < values.length := by omega
      obtain ⟨bytes, hbytes, hlen, hinside⟩ := hat.inside values[k] (List.getElem?_eq_getElem hk)
      have hnext := length_stream_succ h (List.getElem?_eq_getElem hk) hbytes
      have hmono := length_stream_mono h (show k + 1 ≤ j by omega)
      omega
  · intro hd
    exact ⟨k, hat.bound, by rw [hat.position, hd]; rfl⟩

theorem CutAt.behind_iff {values : List T} (h : ∀ v ∈ values, C.Fits v) {n k d len : Nat}
    (hat : CutAt C values n k d len) : BehindHeaderOfFour C values n ↔ d = 4 ∧ len = 4 := by
  have hposition := hat.position
  constructor
  · rintro ⟨j, value, bytes, hj, hbytes, hlen, hn⟩
    obtain rfl := hat.unique h hj hbytes (by omega) (by omega)
    obtain ⟨bytes', hbytes', hlen', -⟩ := hat.inside value hj
    obtain rfl := Except.ok.inj (hbytes.symm.trans hbytes')
    exact ⟨by omega, by omega⟩
  · rintro ⟨rfl, rfl⟩
    have hk : k < values.length := by
      rcases Nat.lt_or_eq_of_le hat.bound with hlt | heq
      · exact hlt
      · exact absurd (hat.last heq).1 (by decide)
    obtain ⟨bytes, hbytes, hlen, -⟩ := hat.inside values[k] (List.getElem?_eq_getElem hk)
    exact ⟨k, _, bytes, List.getElem?_eq_getElem hk, hbytes, hlen, hposition⟩

theorem cutError_eq_close_iff {d len : Nat} :
    cutError d len = .unexpectedEof 0 4 ↔ d = 0 ∨ d = 4 ∧ len = 4 := by
  unfold cutError
  split
  · rw [IpcError.unexpectedEof.injEq]
    omega
  · rw [IpcError.unexpectedEof.injEq]
    omega

/-- The messages whose frames are complete come out, then the end of the stream, told as a clean
close between frames only. -/
def ReadsTo (C : Codec T) (values : List T) (n : Nat) (r : Arrivals UInt8) : Prop :=
  ∃ k got expected, k ≤ values.length ∧
    readFrames C r = (values.take k, .unexpectedEof got expected) ∧
    (stream C (values.take k)).length ≤ n ∧
    (k < values.length → n < (stream C (values.take (k + 1))).length) ∧
    ((got = 0 ∧ expected = 4) ↔ AtBoundary C values n)

theorem readsTo_iff {values : List T} (hC : ∀ v ∈ values, C.Inverts v)
    (h : ∀ v ∈ values, C.Fits v) {n : Nat} (hn : n ≤ (stream C values).length)
    {r : Arrivals UInt8} (hclean : r.Clean) (hcontents : r.contents = (stream C values).take n) :
    ReadsTo C values n r ↔ ¬ BehindHeaderOfFour C values n := by
  obtain ⟨k, d, len, hat, hread⟩ := readFrames_take hC h hn hclean hcontents
  obtain ⟨got, expected, hcut⟩ : ∃ got expected, cutError d len = .unexpectedEof got expected := by
    unfold cutError
    split
    · exact ⟨_, _, rfl⟩
    · exact ⟨_, _, rfl⟩
  have hclose : (got = 0 ∧ expected = 4) ↔ d = 0 ∨ d = 4 ∧ len = 4 := by
    rw [← cutError_eq_close_iff, hcut, IpcError.unexpectedEof.injEq]
  rw [hat.behind_iff h]
  constructor
  · rintro ⟨k', got', expected', -, hread', -, -, hiff⟩ ⟨rfl, rfl⟩
    rw [hread, hcut] at hread'
    obtain ⟨rfl, rfl⟩ := IpcError.unexpectedEof.inj (Prod.mk.inj hread').2
    have hzero := (hat.boundary_iff h).mp (hiff.mp (hclose.mpr (Or.inr ⟨rfl, rfl⟩)))
    exact absurd hzero (by decide)
  · intro hnot
    refine ⟨k, got, expected, hat.bound, by rw [hread, hcut], ?_, fun hk => ?_, ?_⟩
    · rw [hat.position]
      omega
    · obtain ⟨bytes, hbytes, hlen, hinside⟩ := hat.inside values[k] (List.getElem?_eq_getElem hk)
      rw [length_stream_succ h (List.getElem?_eq_getElem hk) hbytes, hat.position]
      omega
    · rw [hclose, hat.boundary_iff h]
      exact ⟨fun hd => hd.resolve_right hnot, Or.inl⟩

theorem readFrames_stream {values : List T} (hC : ∀ v ∈ values, C.Inverts v)
    (h : ∀ v ∈ values, C.Fits v) {r : Arrivals UInt8} (hclean : r.Clean)
    (hcontents : r.contents = stream C values) :
    readFrames C r = (values, .unexpectedEof 0 4) := by
  obtain ⟨k, d, len, hat, hread⟩ := readFrames_take hC h (Nat.le_refl _) hclean
    (by rw [List.take_length, hcontents])
  have hwhole : AtBoundary C values (stream C values).length :=
    ⟨values.length, Nat.le_refl _, by rw [List.take_length]⟩
  have hd := (hat.boundary_iff h).mp hwhole
  have hk : k = values.length := by
    rcases Nat.lt_or_eq_of_le hat.bound with hlt | heq
    · obtain ⟨bytes, hbytes, -⟩ := hat.inside values[k] (List.getElem?_eq_getElem hlt)
      have hnext := length_stream_succ h (List.getElem?_eq_getElem hlt) hbytes
      have hmono := length_stream_mono h (show k + 1 ≤ values.length by omega)
      have hposition := hat.position
      rw [List.take_length] at hmono
      omega
    · exact heq
  rw [hread, hk, List.take_length, cutError_eq_close_iff.mpr (Or.inl hd)]

theorem handleConnection_ok_iff {dispatch : T → Sink → Except IpcError Unit × Sink}
    (hdispatch : ∀ req w, (dispatch req w).1 = .ok ()) {report : IpcError → Sink → Sink} (w : Sink)
    (r : Arrivals UInt8) : (handleConnection C dispatch report w r).1 = .ok () ↔
      (readFrames C r).2 = .unexpectedEof 0 4 := by
  fun_induction handleConnection C dispatch report w r with
  | case1 w r req r' hread e w' hfail =>
    have hok := hdispatch req w
    rw [hfail] at hok
    exact nomatch hok
  | case2 w r req r' hread w' hdone ih => rw [ih, readFrames_ok hread]
  | case3 w r r' hread => simp [readFrames_error hread]
  | case4 w r r' message hread => simp [readFrames_error hread]
  | case5 w r r' len max hread => simp [readFrames_error hread]
  | case6 w r e r' _ hread hclose hjson hlarge =>
    rw [readFrames_error hread]
    refine ⟨nofun, fun he => ?_⟩
    subst he
    exact (hclose hread rfl HEq.rfl).elim

/-- Frames survive every way of cutting the stream into pieces, and a cut is found out unless it
is right behind the header of a payload of four bytes: the loops over the header and over the
payload report the end of the stream alike. -/
theorem frame_codec (hC : C.Inverse) :
    (∀ values : List T, (∀ v ∈ values, C.Fits v) → ∀ r : Arrivals UInt8, r.Clean →
      r.contents = stream C values → readFrames C r = (values, .unexpectedEof 0 4)) ∧
    (∀ values : List T, (∀ v ∈ values, C.Fits v) → ∀ n ≤ (stream C values).length,
      ∀ r : Arrivals UInt8, r.Clean → r.contents = (stream C values).take n →
        (ReadsTo C values n r ↔ ¬ BehindHeaderOfFour C values n)) ∧
    (∀ (w : Sink) (value : T) (bytes : List UInt8), C.toVec value = .ok bytes →
      maxFrameLen < bytes.length →
        ∃ len, writeFrame C w value = (.error (.frameTooLarge len maxFrameLen), w)) ∧
    ∀ (r : Arrivals UInt8) (hdr rest : List UInt8), r.Clean → r.contents = hdr ++ rest →
      hdr.length = 4 → maxFrameLen < BigEndian.ofBytes hdr →
        ∃ r', readFrame C r = (.error (.frameTooLarge (BigEndian.ofBytes hdr) maxFrameLen), r') ∧
          r'.contents = rest :=
  ⟨fun _ h _ hclean hcontents => readFrames_stream (fun v _ => hC v) h hclean hcontents,
    fun _ h _ hn _ hclean hcontents => readsTo_iff (fun v _ => hC v) h hn hclean hcontents,
    fun w _ _ hbytes hbig => writeFrame_too_large hbytes hbig w,
    fun _ _ _ hclean hcontents hlen hbig => readFrame_too_large hclean hcontents hlen hbig⟩

def boolCodec : Codec Bool where
  toVec b := .ok (if b then [116, 114, 117, 101] else [102, 97, 108, 115, 101])
  fromSlice bytes :=
    if bytes = [116, 114, 117, 101] then .ok true
    else if bytes = [102, 97, 108, 115, 101] then .ok false
    else .error "expected value"

theorem boolCodec_inverse : boolCodec.Inverse := by
  intro b bytes h
  rw [← Except.ok.inj h]
  cases b
  · rfl
  · rfl

theorem boolCodec_fits (b : Bool) : boolCodec.Fits b := by
  cases b
  · exact ⟨_, rfl, by decide⟩
  · exact ⟨_, rfl, by decide⟩

def inPieces : Arrivals UInt8 :=
  [.piece [0, 0] nofun, .piece [0, 4, 116] nofun, .piece [114, 117, 101, 0, 0, 0] nofun,
    .piece [5, 102, 97, 108] nofun, .piece [115, 101] nofun]

theorem frame_codec_inPieces :
    readFrames boolCodec inPieces = ([true, false], .unexpectedEof 0 4) := by
  have hclean : inPieces.Clean := by
    simp [inPieces, Arrivals.Clean]
  exact (frame_codec boolCodec_inverse).1 [true, false] (fun v _ => boolCodec_fits v) inPieces
    hclean rfl

def headerOnly : Arrivals UInt8 := [.piece [0, 0, 0, 4] nofun]

/-- The cut is inside the frame, and the server takes it for a clean close. -/
theorem cut_behind_header_closes :
    headerOnly.Clean ∧ headerOnly.contents = (stream boolCodec [true]).take 4 ∧
      boolCodec.Fits true ∧ ¬ ReadsTo boolCodec [true] 4 headerOnly ∧
      (handleConnection boolCodec (fun _ w => (.ok (), w)) (fun _ w => w) ⟨[], none⟩
        headerOnly).1 = .ok () := by
  have hclean : headerOnly.Clean := List.forall_mem_singleton.mpr ⟨_, _, rfl⟩
  have hfits : ∀ v ∈ [true], boolCodec.Fits v := fun v _ => boolCodec_fits v
  have hcontents : headerOnly.contents = (stream boolCodec [true]).take 4 := rfl
  have hbehind : BehindHeaderOfFour boolCodec [true] 4 := ⟨0, true, _, rfl, rfl, rfl, rfl⟩
  refine ⟨hclean, hcontents, boolCodec_fits true, fun hreads => ?_, ?_⟩
  · have hiff := readsTo_iff (fun v _ => boolCodec_inverse v) hfits (n := 4) (by decide) hclean hcontents
    exact hiff.mp hreads hbehind
  · rw [handleConnection_ok_iff fun _ _ => rfl]
    obtain ⟨k, d, len, hat, hread⟩ :=
      readFrames_take (fun v _ => boolCodec_inverse v) hfits (n := 4) (by decide) hclean hcontents
    rw [hread]
    exact cutError_eq_close_iff.mpr (Or.inr ((hat.behind_iff hfits).mp hbehind))

end Vcli.Ipc
