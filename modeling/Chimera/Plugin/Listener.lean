import Chimera.Plugin.Wire
import Mathlib.Data.List.Forall2

/-!
# The loop of a connection

A connection reads one message after the other, and writes the reply to each before it reads the
next one.  A body that is not understood is answered with its error.  The loop does not look at the
flag by which a client says that it expects no reply, so it answers these messages too.
-/

namespace Chimera

open ByteReader

/-! ## Frames -/

/-- What is read off a connection. -/
inductive Frame where
  /-- The peer has closed. -/
  | closed
  /-- The stream cannot be used any more. -/
  | malformed (e : TranslatorError)
  /-- A message, and what follows it. -/
  | message (raw rest : List UInt8)

/-- `read_message`, from a stream that ends when the peer closes. -/
def readMessage (stream : List UInt8) : Frame :=
  if stream.length < headerBytes then .closed
  else
    let length := (readInt32 (stream.take 4)).toInt
    if length < headerBytes ∨ maxMessageBytes < length then
      .malformed (failedToParse ("message length ".toList ++ integerText length ++
        " is out of range".toList))
    else if stream.length < length.toNat then .closed
    else .message (stream.take length.toNat) (stream.drop length.toNat)

/-- `encode_reply`, of a body that is written as these bytes. -/
def encodeReply (req : WireRequest) (requestId : Int32) (body : List UInt8) : List UInt8 :=
  let head := appendInt32 requestId ++ appendInt32 req.header.requestId ++
    if req.legacyQuery = true then
      appendInt32 opReply ++ appendInt32 0 ++ appendInt64 0 ++ appendInt32 0 ++ appendInt32 1
    else appendInt32 opMsg ++ appendInt32 0 ++ [0]
  appendInt32 (Int32.ofNat (4 + (head ++ body).length)) ++ (head ++ body)

/-- The reply of the loop to an error. -/
def translatorErrorReply (e : TranslatorError) : Doc :=
  [("ok".toList, .double (Binary64.ofInt 0)), ("errmsg".toList, .utf8 e.message),
    ("code".toList, .int32 (Int32.ofNat e.code)), ("codeName".toList, .utf8 e.codeName)]

/-! ## The loop -/

section Serve

variable {σ : Type} (newFromData : List UInt8 → Option Doc) (getData : Doc → List UInt8)
  (dispatch : WireRequest → σ → Doc × σ) (connectionId : Int32)

/-- The reply to a message: a round of `Listener::serve`.  There is none where parsing the message
would look outside it, or would not end. -/
def answer (raw : List UInt8) (state : σ) : Option (List UInt8 × σ) :=
  match parseRequest newFromData raw.length raw with
  | .ok request =>
    let (reply, state') := dispatch request state
    some (encodeReply request connectionId (getData reply), state')
  | .error (.thrown e) =>
    let header := headerOf raw
    let request : WireRequest := ⟨header, [], [], header.opCode = opQuery⟩
    some (encodeReply request connectionId (getData (translatorErrorReply e)), state)
  | .error _ => none

/-- `Listener::serve`: the replies that it writes, to a peer that reads them.  The number bounds its
rounds. -/
def Listener.serve : ℕ → List UInt8 → σ → List (List UInt8)
  | 0, _, _ => []
  | rounds + 1, stream, state =>
    match readMessage stream with
    | .message raw rest =>
      match answer newFromData getData dispatch connectionId raw state with
      | some (reply, state') => reply :: Listener.serve rounds rest state'
      | none => []
    | _ => []

end Serve

/-! ## What clients expect -/

/-- The message is as long as it says, and of a length that is allowed. -/
def WellFramed (raw : List UInt8) : Prop :=
  headerBytes ≤ raw.length ∧ raw.length ≤ maxMessageBytes ∧
    (readInt32 (raw.take 4)).toInt = raw.length

/-- The message is an `OP_MSG` that asks for no reply. -/
def setsMoreToCome (raw : List UInt8) : Bool :=
  decide ((headerOf raw).opCode = opMsg) && decide (headerBytes + 4 ≤ raw.length) &&
    moreToCome (readInt32 ((raw.drop headerBytes).take 4))

/-- The replies are one for each message that expects a reply, in order, and each answers its
message. -/
def Disciplined (msgs replies : List (List UInt8)) : Prop :=
  List.Forall₂ (fun raw reply => (headerOf reply).responseTo = (headerOf raw).requestId)
    (msgs.filter fun raw => !setsMoreToCome raw) replies

/-- A number is read as it was appended. -/
lemma readInt32_appendInt32 (v : Int32) : readInt32 (appendInt32 v) = v := by
  have hbits : ∀ u : BitVec 32, (u.setWidth 8).setWidth 32 |||
      ((u >>> 8).setWidth 8).setWidth 32 <<< 8 ||| ((u >>> 16).setWidth 8).setWidth 32 <<< 16 |||
      ((u >>> 24).setWidth 8).setWidth 32 <<< 24 = u := by
    intro u
    ext i hi
    simp only [← BitVec.getLsbD_eq_getElem]
    interval_cases i <;> simp
  exact Int32.toBitVec_inj.1 (hbits v.toUInt32.toBitVec)

/-- A reply names the message it answers. -/
lemma responseTo_encodeReply (req : WireRequest) (requestId : Int32) (body : List UInt8) :
    (headerOf (encodeReply req requestId body)).responseTo = req.header.requestId := by
  have hbytes : ((encodeReply req requestId body).drop 8).take 4 =
      appendInt32 req.header.requestId := by
    unfold encodeReply
    split <;> rfl
  rw [headerOf, hbytes, readInt32_appendInt32]

section Replies

variable {σ : Type} {newFromData : List UInt8 → Option Doc} {getData : Doc → List UInt8}
  {dispatch : WireRequest → σ → Doc × σ} {connectionId : Int32}

/-- A message is read off a stream that begins with it. -/
lemma readMessage_append {raw : List UInt8} (h : WellFramed raw) (rest : List UInt8) :
    readMessage (raw ++ rest) = .message raw rest := by
  obtain ⟨hlow, hhigh, hlength⟩ := h
  have hfour : (raw ++ rest).take 4 = raw.take 4 := by
    rw [List.take_append_of_le_length]
    simp only [headerBytes] at hlow
    omega
  unfold readMessage
  rw [hfour, hlength, List.length_append, if_neg (by omega), if_neg (by omega), Int.toNat_natCast,
    if_neg (by omega), List.take_left, List.drop_left]

/-- Each message is answered, whether or not it is understood. -/
lemma exists_answer (hM : MeasuresDocuments newFromData) {raw : List UInt8}
    (h : headerBytes ≤ raw.length) (state : σ) :
    ∃ reply state', answer newFromData getData dispatch connectionId raw state =
        some (reply, state') ∧ (headerOf reply).responseTo = (headerOf raw).requestId := by
  obtain ⟨hsafe, hheader⟩ := parseRequest_run hM h le_rfl
  unfold answer
  cases hparse : parseRequest newFromData raw.length raw with
  | error stop =>
    obtain ⟨e, rfl⟩ := hsafe stop hparse
    exact ⟨_, _, rfl, responseTo_encodeReply _ _ _⟩
  | ok request =>
    refine ⟨_, _, rfl, ?_⟩
    rw [responseTo_encodeReply, hheader request hparse]

/-- The loop answers every message of a stream, in order. -/
lemma serve_answers (hM : MeasuresDocuments newFromData) {msgs : List (List UInt8)}
    (hmsgs : ∀ raw ∈ msgs, WellFramed raw) {rounds : ℕ} (hrounds : msgs.length < rounds)
    (state : σ) :
    List.Forall₂ (fun raw reply => (headerOf reply).responseTo = (headerOf raw).requestId) msgs
      (Listener.serve newFromData getData dispatch connectionId rounds msgs.flatten state) := by
  induction msgs generalizing rounds state with
  | nil =>
    cases rounds with
    | zero => exact .nil
    | succ rounds => exact .nil
  | cons raw msgs ih =>
    cases rounds with
    | zero => exact absurd hrounds (Nat.not_lt_zero _)
    | succ rounds =>
      obtain ⟨hraw, hrest⟩ := List.forall_mem_cons.1 hmsgs
      obtain ⟨reply, state', hanswer, hresponse⟩ :=
        @exists_answer σ newFromData getData dispatch connectionId hM raw hraw.1 state
      rw [Listener.serve, List.flatten_cons, readMessage_append hraw]
      simp only [hanswer]
      exact .cons hresponse (ih hrest (Nat.lt_of_succ_lt_succ hrounds) state')

/-- **Replies are disciplined exactly when every message expects one.**  On a connection whose
client sends these messages and reads the replies, the loop writes one reply for each message that
expects one, in order, and no other, if and only if no message says that more is to come. -/
theorem disciplined_iff (hM : MeasuresDocuments newFromData) {msgs : List (List UInt8)}
    (hmsgs : ∀ raw ∈ msgs, WellFramed raw) {rounds : ℕ} (hrounds : msgs.length < rounds)
    (state : σ) :
    Disciplined msgs
        (Listener.serve newFromData getData dispatch connectionId rounds msgs.flatten state) ↔
      ∀ raw ∈ msgs, setsMoreToCome raw = false := by
  have hanswers : List.Forall₂ (fun raw reply => (headerOf reply).responseTo =
      (headerOf raw).requestId) msgs
        (Listener.serve newFromData getData dispatch connectionId rounds msgs.flatten state) :=
    serve_answers hM hmsgs hrounds state
  constructor
  · intro hdisciplined raw hraw
    have hlength := hdisciplined.length_eq.trans hanswers.length_eq.symm
    have hall := List.length_filter_eq_length_iff.1 hlength raw hraw
    simpa using hall
  · intro hall
    have hfilter : (msgs.filter fun raw => !setsMoreToCome raw) = msgs :=
      List.filter_eq_self.2 fun raw hraw => by rw [hall raw hraw]; rfl
    rw [Disciplined, hfilter]
    exact hanswers

end Replies

/-- A handshake and a command. -/
theorem disciplined_iff_handshake :
    let msgs : List (List UInt8) := [[44, 0, 0, 0, 7, 0, 0, 0, 0, 0, 0, 0, 212, 7, 0, 0, 0, 0, 0, 0,
        97, 100, 109, 105, 110, 46, 36, 99, 109, 100, 0, 0, 0, 0, 0, 255, 255, 255, 255,
        5, 0, 0, 0, 0],
      [26, 0, 0, 0, 8, 0, 0, 0, 0, 0, 0, 0, 221, 7, 0, 0, 0, 0, 0, 0, 0, 5, 0, 0, 0, 0]]
    Disciplined msgs (Listener.serve emptyDocuments (fun _ => [5, 0, 0, 0, 0])
      (fun _ state => ([], state)) 1 3 msgs.flatten ()) := by
  intro msgs
  refine (disciplined_iff emptyDocuments_measures ?_ (by decide) ()).2 ?_
  · simp only [msgs, List.forall_mem_cons, List.not_mem_nil, false_implies, implies_true, and_true]
    exact ⟨⟨by decide, by decide, by decide⟩, by decide, by decide, by decide⟩
  · decide

/-- A command that says that more is to come, and is answered. -/
theorem moreToCome_answered :
    let raw : List UInt8 := [26, 0, 0, 0, 7, 0, 0, 0, 0, 0, 0, 0, 221, 7, 0, 0, 2, 0, 0, 0,
      0, 5, 0, 0, 0, 0]
    WellFramed raw ∧ setsMoreToCome raw = true ∧
      ¬ Disciplined [raw] (Listener.serve emptyDocuments (fun _ => [5, 0, 0, 0, 0])
        (fun _ state => ([], state)) 1 2 raw ()) := by
  intro raw
  refine ⟨⟨by decide, by decide, by decide⟩, by decide, fun h => ?_⟩
  have hlength := h.length_eq
  revert hlength
  decide

end Chimera
