import Chimera.Foundations.Transfers
import Chimera.Plugin.Listener

/-!
# A connection and its socket

The loop of a connection talks to a socket.  The kernel splits the bytes up as it likes, interrupts
calls, takes a part of what is to be sent, and may fail at any call; another thread may ask the loop
to stop.  Whatever the kernel does, the bytes that the connection sends are those that the loop over
whole messages writes.
-/

namespace Chimera

open Interaction ByteReader

namespace Socket

/-! ## What the kernel answers -/

/-- What `recv` returns when it may return this many bytes. -/
inductive Received (want : ℕ) where
  /-- Some bytes, and at most as many as there is room for. -/
  | data (bytes : List UInt8) (hpos : 0 < bytes.length) (hle : bytes.length ≤ want)
  /-- The peer has closed, or the socket was shut down. -/
  | closed
  /-- A signal came, `EINTR`. -/
  | interrupted
  /-- Any other error. -/
  | failed

/-- What `send` returns for these bytes. -/
inductive Sent (bytes : List UInt8) where
  /-- So many of them were taken. -/
  | count (n : ℕ) (hle : n ≤ bytes.length)
  /-- A signal came, `EINTR`. -/
  | interrupted
  /-- Any other error. -/
  | failed

/-- What a connection asks of its surroundings. -/
inductive Question where
  /-- The flag of the listener, `stopping_`. -/
  | stopping
  /-- `recv`, with room for so many bytes. -/
  | recv (want : ℕ)
  /-- `send`. -/
  | send (bytes : List UInt8)

/-- The answers to a question. -/
@[reducible] def Question.Answer : Question → Type
  | .stopping => Bool
  | .recv want => Received want
  | .send bytes => Sent bytes

/-- A program that uses the socket. -/
abbrev Program (α : Type) := Interaction (Stop TranslatorError) Question Question.Answer α

/-! ## The functions of the wire -/

/-- `read_exact`, when these bytes are in the buffer already.  There are none when the connection
ends first. -/
def readExact : ℕ → ℕ → List UInt8 → Program (Option (List UInt8))
  | 0, _, _ => .fail .unfinished
  | rounds + 1, want, got =>
    if got.length < want then
      .ask (.recv (want - got.length)) fun
        | .data bytes _ _ => readExact rounds want (got ++ bytes)
        | .interrupted => readExact rounds want got
        | .closed | .failed => .done none
    else .done (some got)

/-- `read_message`. -/
def readMessage (rounds : ℕ) : Program (Option (List UInt8)) := do
  match ← readExact rounds headerBytes [] with
  | none => pure none
  | some header =>
    let length := (readInt32 (header.take 4)).toInt
    if length < headerBytes ∨ maxMessageBytes < length then
      .fail (.thrown (failedToParse ("message length ".toList ++ integerText length ++
        " is out of range".toList)))
    else if headerBytes < length then
      match ← readExact rounds (length.toNat - headerBytes) [] with
      | none => pure none
      | some body => pure (some (header ++ body))
    else pure (some header)

/-- `write_all`. -/
def writeAll : ℕ → List UInt8 → Program Bool
  | 0, _ => .fail .unfinished
  | rounds + 1, bytes =>
    if 0 < bytes.length then
      .ask (.send bytes) fun
        | .count n _ => writeAll rounds (bytes.drop n)
        | .interrupted => writeAll rounds bytes
        | .failed => .done false
    else .done true

section Serve

variable {σ : Type} (newFromData : List UInt8 → Option Doc) (getData : Doc → List UInt8)
  (dispatch : WireRequest → σ → Doc × σ) (connectionId : Int32)

/-- `Listener::serve`, call by call. -/
def serve : ℕ → σ → Program Unit
  | 0, _ => .fail .unfinished
  | rounds + 1, state =>
    .ask .stopping fun stopping =>
      if stopping = true then .done ()
      else
        (readMessage rounds).attempt >>= fun
          -- a frame that cannot even be measured
          | .error (.thrown _) => .done ()
          | .error stop => .fail stop
          | .ok none => .done ()
          | .ok (some raw) =>
            match answer newFromData getData dispatch connectionId raw state with
            | none => .fail .outside
            | some (reply, state') =>
              writeAll rounds reply >>= fun alive =>
                if alive = true then serve rounds state' else .done ()

end Serve

/-! ## What a record says -/

/-- The questions asked so far, with the answers. -/
abbrev Traffic := Record Question Question.Answer

/-- The bytes that an answer brings in. -/
def receivedBy : (q : Question) × q.Answer → List UInt8
  | ⟨.recv _, .data bytes _ _⟩ => bytes
  | _ => []

/-- The bytes that the kernel takes by an answer. -/
def sentBy : (q : Question) × q.Answer → List UInt8
  | ⟨.send bytes, .count n _⟩ => bytes.take n
  | _ => []

/-- The answer says that nothing more can be sent. -/
def refuses : (q : Question) × q.Answer → Bool
  | ⟨.send _, .failed⟩ => true
  | _ => false

/-- The answer says that the connection is to end. -/
def ends : (q : Question) × q.Answer → Bool
  | ⟨.stopping, stopping⟩ => stopping
  | ⟨.recv _, .closed⟩ => true
  | ⟨.recv _, .failed⟩ => true
  | ⟨.send _, .failed⟩ => true
  | _ => false

/-- What a connection receives and sends. -/
def port : Port Question Question.Answer UInt8 := ⟨receivedBy, sentBy⟩

/-- All bytes received. -/
abbrev received (g : Traffic) : List UInt8 := port.takes g

/-- All bytes sent. -/
abbrev sent (g : Traffic) : List UInt8 := port.gives g

/-- The connection was told to end. -/
def ended (g : Traffic) : Bool := g.any ends

/-- Sending has failed. -/
def refused (g : Traffic) : Bool := g.any refuses

/-- The bytes that are still to be sent by a question. -/
def Question.pending : Question → List UInt8
  | .send bytes => bytes
  | _ => []

/-- The question asks for something. -/
def Question.Sensible : Question → Prop
  | .stopping => True
  | .recv want => 0 < want
  | .send bytes => 0 < bytes.length

section Traffic

variable {g : Traffic} {q : Question} {r : q.Answer}

/-- What came in is received. -/
lemma received_moves {g' : Traffic} {ins outs : List UInt8} (h : port.Moves g ins outs g') :
    received g' = received g ++ ins := h.takes

/-- What went out is sent. -/
lemma sent_moves {g' : Traffic} {ins outs : List UInt8} (h : port.Moves g ins outs g') :
    sent g' = sent g ++ outs := h.gives

@[simp] lemma ended_keep : ended (keep q r g) = (ended g || ends ⟨q, r⟩) := by
  simp [ended, Interaction.keep]

@[simp] lemma refused_keep : refused (keep q r g) = (refused g || refuses ⟨q, r⟩) := by
  simp [refused, Interaction.keep]

/-- Where nothing told the connection to end, sending has not failed. -/
lemma refused_of_ended (h : ended g = false) : refused g = false := by
  refine List.any_eq_false.2 fun entry hentry hrefuses => ?_
  have hends := List.any_eq_false.1 h entry hentry
  obtain ⟨q, r⟩ := entry
  cases q with
  | stopping => cases hrefuses
  | recv want => cases hrefuses
  | send bytes =>
    cases r with
    | failed => exact hends rfl
    | count n hle => cases hrefuses
    | interrupted => cases hrefuses

end Traffic

/-! ## What the functions of the wire do -/

section Wire

variable {may : Traffic → Question → Prop} {rounds want : ℕ} {got bytes : List UInt8} {g : Traffic}

/-- `read_exact` waits only while bytes are missing. -/
lemma readExact_obeys (hgot : got.length ≤ want) (hended : ended g = false)
    (hmay : ∀ g' bytes n, port.Moves g bytes [] g' → ended g' = false →
      (got ++ bytes).length < want → 0 < n → may g' (.recv n)) :
    (readExact rounds want got).Obeys may keep g (port.ReadEnds (fun g' => ended g' = false)
      (fun g' => ended g' = true ∧ refused g' = false) .unfinished rounds want got g) := by
  refine Port.reads (f := fun rounds => readExact rounds want) (fun _ => rfl)
    (fun rounds got hwhole => ?_)
    (fun rounds before g' Post hshort hmoves hended' hnext hlost => ?_) hended hgot
  · rw [readExact, if_neg (by omega)]
  · rw [readExact, if_pos hshort]
    refine ⟨hmay g' before _ hmoves hended' hshort (by omega), fun r => ?_⟩
    have hmore := Port.Moves.keep (P := port) g' _ r
    have hrefused := refused_of_ended hended'
    cases r with
    | data bytes hpos hle =>
      exact hnext bytes _ hle (by simpa [ends] using hended') (length_keep _ _ _).ge hmore
    | interrupted =>
      have hagain := hnext [] _ (Nat.zero_le _) (by simpa [ends] using hended')
        (length_keep _ _ _).ge hmore
      rwa [List.append_nil] at hagain
    | closed => exact hlost _ ⟨by simp [ends], by simpa [refuses] using hrefused⟩ hmore
    | failed => exact hlost _ ⟨by simp [ends], by simpa [refuses] using hrefused⟩ hmore

/-- `write_all` sends what is left, each time. -/
lemma writeAll_obeys (hended : ended g = false)
    (hmay : ∀ g' before rest, before ++ rest = bytes → 0 < rest.length →
      port.Moves g [] before g' → ended g' = false → may g' (.send rest)) :
    (writeAll rounds bytes).Obeys may keep g (port.WriteEnds (fun g' => ended g' = false)
      (fun g' => ended g' = true ∧ refused g' = true) .unfinished rounds bytes g) := by
  refine Port.writes (f := writeAll) (fun _ => rfl) (fun _ => rfl)
    (fun rounds before rest g' Post hbytes hrest hmoves hended' hnext hlost => ?_) hended
  rw [writeAll, if_pos hrest]
  refine ⟨hmay g' before rest hbytes hrest hmoves hended', fun r => ?_⟩
  have hmore := Port.Moves.keep (P := port) g' _ r
  cases r with
  | count n hle => exact hnext n _ (by simpa [ends] using hended') (length_keep _ _ _).ge hmore
  | interrupted => exact hnext 0 _ (by simpa [ends] using hended') (length_keep _ _ _).ge hmore
  | failed => exact hlost _ ⟨by simp [ends], by simp [refuses]⟩ hmore

/-- How `read_message` ends. -/
def MessageEnds (rounds : ℕ) (g : Traffic) :
    Except (Stop TranslatorError) (Option (List UInt8)) → Traffic → Prop
  | .ok (some raw), g' => ended g' = false ∧ WellFramed raw ∧ port.Moves g raw [] g'
  | .ok none, g' =>
    ended g' = true ∧ refused g' = false ∧
      ∃ bytes, Chimera.readMessage bytes = .closed ∧ port.Moves g bytes [] g'
  | .error (.thrown e), g' =>
    ended g' = false ∧ ∃ bytes, Chimera.readMessage bytes = .malformed e ∧ port.Moves g bytes [] g'
  | .error _, g' => g.length + rounds ≤ g'.length ∧ ∃ bytes, port.Moves g bytes [] g'

/-- A stream that has not the bytes of a header is no message yet. -/
lemma readMessage_short (h : bytes.length < headerBytes) : Chimera.readMessage bytes = .closed := by
  rw [Chimera.readMessage, if_pos h]

/-- The length of the first message of a stream. -/
def lengthOf (bytes : List UInt8) : ℤ := (readInt32 (bytes.take 4)).toInt

/-- The length is in the header. -/
lemma lengthOf_append {header : List UInt8} (h : header.length = headerBytes) (body : List UInt8) :
    lengthOf (header ++ body) = lengthOf header := by
  have hfour : 4 ≤ header.length := by rw [h, headerBytes]; omega
  rw [lengthOf, lengthOf, List.take_append_of_le_length hfour]

/-- Of a length that is allowed, nothing is a message before all of it has come. -/
lemma readMessage_incomplete {header body : List UInt8} (hheader : header.length = headerBytes)
    (hrange : ¬ (lengthOf header < headerBytes ∨ maxMessageBytes < lengthOf header))
    (hshort : body.length < (lengthOf header).toNat - headerBytes) :
    Chimera.readMessage (header ++ body) = .closed := by
  rw [Chimera.readMessage]
  split
  · rfl
  · change (if lengthOf (header ++ body) < headerBytes ∨
      maxMessageBytes < lengthOf (header ++ body) then _ else
        if (header ++ body).length < (lengthOf (header ++ body)).toNat then _ else _) = _
    rw [lengthOf_append hheader, if_neg hrange, if_pos]
    rw [List.length_append, hheader]
    omega

/-- After a header of a length that is allowed, the body is read to its end. -/
lemma readBody_obeys {header : List UInt8} {g' : Traffic} (hheader : header.length = headerBytes)
    (hrange : ¬ (lengthOf header < headerBytes ∨ maxMessageBytes < lengthOf header))
    (hmoves : port.Moves g header [] g') (hended : ended g' = false)
    (hmay : ∀ g' bytes n, port.Moves g bytes [] g' → ended g' = false →
      Chimera.readMessage bytes = .closed → 0 < n → may g' (.recv n)) :
    Obeys may keep (do
      match ← readExact rounds ((lengthOf header).toNat - headerBytes) [] with
      | none => (pure none : Program (Option (List UInt8)))
      | some body => pure (some (header ++ body))) g' (MessageEnds rounds g) := by
  obtain ⟨hlow, hhigh⟩ := not_or.1 hrange
  refine Obeys.bind ((readExact_obeys (Nat.zero_le _) hended
    fun g'' bytes n hmore hended' hshort hn => ?_).weaken fun result g'' hread => ?_)
  · exact hmay g'' (header ++ bytes) n (hmoves.trans hmore) hended'
      (readMessage_incomplete hheader hrange hshort) hn
  cases result with
  | error stop =>
    obtain ⟨rfl, hrounds, bytes, hmore⟩ := hread
    have hlength := hmoves.length
    exact ⟨by omega, header ++ bytes, hmoves.trans hmore⟩
  | ok body? =>
    cases body? with
    | none =>
      obtain ⟨⟨hended', hrefused⟩, bytes, hshort, hmore⟩ := hread
      exact ⟨hended', hrefused, header ++ bytes, readMessage_incomplete hheader hrange hshort,
        hmoves.trans hmore⟩
    | some body =>
      obtain ⟨hended', hbody, bytes, rfl, hmore⟩ := hread
      have hlength : ((header ++ body).length : ℤ) = lengthOf header := by
        rw [List.length_append, hheader, hbody]
        omega
      refine ⟨hended', ⟨?_, by omega, ?_⟩, hmoves.trans hmore⟩
      · rw [List.length_append, hheader]
        omega
      · exact (lengthOf_append hheader body).trans hlength.symm

/-- `read_message` waits only while a message is not complete. -/
lemma readMessage_obeys (hended : ended g = false)
    (hmay : ∀ g' bytes n, port.Moves g bytes [] g' → ended g' = false →
      Chimera.readMessage bytes = .closed → 0 < n → may g' (.recv n)) :
    (readMessage rounds).Obeys may keep g (MessageEnds rounds g) := by
  unfold readMessage
  refine Obeys.bind ((readExact_obeys (Nat.zero_le _) hended
    fun g' bytes n hmoves hended' hshort hn => ?_).weaken fun result g' hread => ?_)
  · exact hmay g' bytes n hmoves hended' (readMessage_short hshort) hn
  cases result with
  | error stop =>
    obtain ⟨rfl, hrounds, bytes, hmoves⟩ := hread
    exact ⟨hrounds, bytes, hmoves⟩
  | ok header? =>
    cases header? with
    | none =>
      obtain ⟨⟨hended', hrefused⟩, bytes, hshort, hmoves⟩ := hread
      exact ⟨hended', hrefused, bytes, readMessage_short hshort, hmoves⟩
    | some header =>
      obtain ⟨hended', hheader, bytes, rfl, hmoves⟩ := hread
      have hnot : ¬ header.length < headerBytes := by omega
      change Obeys may keep (if lengthOf header < headerBytes ∨ maxMessageBytes < lengthOf header
        then _ else _) g' _
      by_cases hrange : lengthOf header < headerBytes ∨ maxMessageBytes < lengthOf header
      · rw [if_pos hrange]
        refine ⟨hended', header, ?_, hmoves⟩
        rw [Chimera.readMessage, if_neg hnot]
        exact if_pos hrange
      · rw [if_neg hrange]
        obtain ⟨hlow, hhigh⟩ := not_or.1 hrange
        split
        · exact readBody_obeys hheader hrange hmoves hended' hmay
        · refine ⟨hended', ⟨hheader.ge, ?_, ?_⟩, hmoves⟩
          · rw [hheader]
            decide
          · rename_i hmore
            change lengthOf header = _
            change ¬ (headerBytes : ℤ) < lengthOf header at hmore
            rw [hheader]
            omega

end Wire

/-! ## The loop over whole messages -/

section Loop

variable {σ : Type} (newFromData : List UInt8 → Option Doc) (getData : Doc → List UInt8)
  (dispatch : WireRequest → σ → Doc × σ) (connectionId : Int32)

/-- What the loop over whole messages writes when it is given these bytes. -/
def replies (state : σ) (stream : List UInt8) : List UInt8 :=
  (Listener.serve newFromData getData dispatch connectionId stream.length stream state).flatten

variable {newFromData getData dispatch connectionId}

/-- A message that is read is a whole one, and the rest of the stream is left. -/
lemma readMessage_eq_message {stream raw rest : List UInt8}
    (h : Chimera.readMessage stream = .message raw rest) :
    stream = raw ++ rest ∧ WellFramed raw := by
  unfold Chimera.readMessage at h
  split at h
  · cases h
  · rename_i hheader
    simp only at h
    split at h
    · cases h
    · rename_i hrange
      split at h
      · cases h
      · rename_i hlength
        obtain ⟨rfl, rfl⟩ := Frame.message.inj h
        refine ⟨(List.take_append_drop _ _).symm, ?_⟩
        have hfour : 4 ≤ (readInt32 (stream.take 4)).toInt.toNat := by
          have hsixteen : headerBytes = 16 := rfl
          omega
        rw [WellFramed, List.length_take_of_le (by omega), List.take_take, min_eq_left hfour]
        omega

/-- The loop does not depend on how many rounds it may make, if they are enough. -/
lemma serve_rounds {n m : ℕ} {stream : List UInt8} {state : σ} (hn : stream.length ≤ n)
    (hm : stream.length ≤ m) :
    Listener.serve newFromData getData dispatch connectionId n stream state =
      Listener.serve newFromData getData dispatch connectionId m stream state := by
  induction n generalizing m stream state with
  | zero =>
    obtain rfl := List.length_eq_zero_iff.1 (Nat.le_zero.1 hn)
    cases m with
    | zero => rfl
    | succ m => rfl
  | succ n ih =>
    cases m with
    | zero =>
      obtain rfl := List.length_eq_zero_iff.1 (Nat.le_zero.1 hm)
      rfl
    | succ m =>
      rw [Listener.serve, Listener.serve]
      cases hread : Chimera.readMessage stream with
      | closed => rfl
      | malformed e => rfl
      | message raw rest =>
        obtain ⟨rfl, hlow, -⟩ := readMessage_eq_message hread
        rw [List.length_append] at hn hm
        simp only [headerBytes] at hlow
        have hn' : rest.length ≤ n := by omega
        have hm' : rest.length ≤ m := by omega
        cases hanswer : answer newFromData getData dispatch connectionId raw state with
        | none => simp only [hanswer]
        | some p =>
          simp only [hanswer]
          rw [ih hn' hm']

/-- A whole message is answered, and then the rest. -/
lemma replies_append {raw reply : List UInt8} {state state' : σ} (hraw : WellFramed raw)
    (hanswer : answer newFromData getData dispatch connectionId raw state = some (reply, state'))
    (more : List UInt8) :
    replies newFromData getData dispatch connectionId state (raw ++ more) =
      reply ++ replies newFromData getData dispatch connectionId state' more := by
  have hlength : (raw ++ more).length = (raw.length - 1 + more.length) + 1 := by
    have hlow := hraw.1
    simp only [headerBytes] at hlow
    rw [List.length_append]
    omega
  rw [replies, hlength, Listener.serve, readMessage_append hraw]
  simp only [hanswer, List.flatten_cons]
  rw [serve_rounds (Nat.le_add_left _ _) le_rfl, replies]

/-- Without a whole message nothing is written. -/
lemma replies_eq_nil {stream : List UInt8} {state : σ}
    (h : ∀ raw rest, Chimera.readMessage stream ≠ .message raw rest) :
    replies newFromData getData dispatch connectionId state stream = [] := by
  rw [replies]
  cases hlength : stream.length with
  | zero => rfl
  | succ n =>
    rw [Listener.serve]
    cases hread : Chimera.readMessage stream with
    | closed => rfl
    | malformed e => rfl
    | message raw rest => exact absurd hread (h raw rest)

variable (newFromData getData dispatch connectionId) in
/-- Everything received was a whole message and is answered: the loop may as well begin here. -/
structure Answered (start state : σ) (g : Traffic) : Prop where
  messages : ∃ msgs : List (List UInt8), (∀ raw ∈ msgs, WellFramed raw) ∧ received g = msgs.flatten
  replies : ∀ more, replies newFromData getData dispatch connectionId start (received g ++ more) =
    sent g ++ replies newFromData getData dispatch connectionId state more
  ended : ended g = false

variable (newFromData getData dispatch connectionId) in
/-- A question may be asked while nothing told the connection to end, and what was sent, with what
is being sent, is the answer to what was received. -/
def May (start : σ) (g : Traffic) (q : Question) : Prop :=
  ended g = false ∧ q.Sensible ∧
    sent g ++ q.pending = replies newFromData getData dispatch connectionId start (received g)

variable (newFromData getData dispatch connectionId) in
/-- How the loop ends: when it was told to, or by a frame that cannot be measured.  It does not run
on without asking. -/
def ServeEnds (start : σ) (total : ℕ) : Except (Stop TranslatorError) Unit → Traffic → Prop
  | .ok _, g =>
    sent g <+: replies newFromData getData dispatch connectionId start (received g) ∧
      (refused g = false →
        sent g = replies newFromData getData dispatch connectionId start (received g)) ∧
      (ended g = false → ∃ (msgs : List (List UInt8)) (rest : List UInt8) (e : TranslatorError),
        (∀ raw ∈ msgs, WellFramed raw) ∧ received g = msgs.flatten ++ rest ∧
          Chimera.readMessage rest = .malformed e)
  | .error _, g =>
    total ≤ g.length ∧
      sent g <+: replies newFromData getData dispatch connectionId start (received g)

variable {start state : σ} {g g' : Traffic} {ins outs : List UInt8}

/-- While a message comes in, what was sent stays the answer to what was received. -/
lemma Answered.replies_received
    (h : Answered newFromData getData dispatch connectionId start state g)
    (hmoves : port.Moves g ins [] g')
    (hread : ∀ raw rest, Chimera.readMessage ins ≠ .message raw rest) :
    sent g' = Socket.replies newFromData getData dispatch connectionId start (received g') := by
  rw [sent_moves hmoves, received_moves hmoves, h.replies, replies_eq_nil hread]

/-- What was sent is the beginning of the answer to whatever comes. -/
lemma Answered.sent_prefix (h : Answered newFromData getData dispatch connectionId start state g)
    (hmoves : port.Moves g ins [] g') :
    sent g' <+: Socket.replies newFromData getData dispatch connectionId start (received g') := by
  rw [sent_moves hmoves, received_moves hmoves, h.replies, List.append_nil]
  exact List.prefix_append _ _

/-- A whole message that is answered. -/
lemma Answered.step {raw reply : List UInt8} {state' : σ} {g'' : Traffic}
    (h : Answered newFromData getData dispatch connectionId start state g) (hraw : WellFramed raw)
    (hanswer : answer newFromData getData dispatch connectionId raw state = some (reply, state'))
    (hread : port.Moves g raw [] g') (hwrite : port.Moves g' [] reply g'')
    (hended : Socket.ended g'' = false) :
    Answered newFromData getData dispatch connectionId start state' g'' where
  messages := by
    obtain ⟨msgs, hmsgs, hreceived⟩ := h.messages
    refine ⟨msgs ++ [raw], ?_, ?_⟩
    · simpa [or_imp, forall_and] using ⟨hmsgs, hraw⟩
    · rw [received_moves hwrite, received_moves hread, hreceived, List.append_nil,
        List.flatten_append, List.flatten_singleton]
  replies more := by
    rw [received_moves hwrite, sent_moves hwrite, received_moves hread, sent_moves hread,
      List.append_nil, List.append_nil, List.append_assoc, h.replies, replies_append hraw hanswer,
      List.append_assoc]
  ended := hended

/-- Nothing is no message. -/
lemma readMessage_nil (raw rest : List UInt8) : Chimera.readMessage [] ≠ .message raw rest := nofun

/-- A reply is sent, and what comes after it goes on as it should. -/
lemma reply_obeys {raw reply : List UInt8} {state' : σ} {rounds total : ℕ} {rest : Program Unit}
    (h : Answered newFromData getData dispatch connectionId start state g) (hraw : WellFramed raw)
    (hanswer : answer newFromData getData dispatch connectionId raw state = some (reply, state'))
    (hread : port.Moves g raw [] g') (hended : Socket.ended g' = false)
    (htotal : total ≤ g'.length + rounds)
    (hrest : ∀ g'', Answered newFromData getData dispatch connectionId start state' g'' →
      total ≤ g''.length + rounds →
      rest.Obeys (May newFromData getData dispatch connectionId start) keep g''
        (ServeEnds newFromData getData dispatch connectionId start total)) :
    (writeAll rounds reply >>= fun alive => if alive = true then rest else .done ()).Obeys
      (May newFromData getData dispatch connectionId start) keep g'
      (ServeEnds newFromData getData dispatch connectionId start total) := by
  -- what the reply is the last part of
  have hall (g'' : Traffic) (before : List UInt8) (hwrite : port.Moves g' [] before g'') :
      sent g'' = sent g ++ before ∧ Socket.replies newFromData getData dispatch connectionId start
        (received g'') = sent g ++ reply := by
    have hraw' := replies_append hraw hanswer []
    rw [replies_eq_nil readMessage_nil, List.append_nil, List.append_nil] at hraw'
    constructor
    · rw [sent_moves hwrite, sent_moves hread, List.append_nil]
    · rw [received_moves hwrite, received_moves hread, List.append_nil, h.replies, hraw']
  refine Obeys.bind ((writeAll_obeys hended
    fun g'' before rest hbytes hrest hwrite hended' => ?_).weaken fun result g'' hwrite => ?_)
  · obtain ⟨hsent, hreplies⟩ := hall g'' before hwrite
    refine ⟨hended', hrest, ?_⟩
    rw [hsent, hreplies, Question.pending, List.append_assoc, hbytes]
  · cases result with
    | error stop =>
      obtain ⟨-, hrounds, before, hprefix, hmore⟩ := hwrite
      obtain ⟨hsent, hreplies⟩ := hall g'' before hmore
      refine ⟨htotal.trans hrounds, ?_⟩
      rw [hsent, hreplies]
      exact (List.prefix_append_right_inj _).2 hprefix
    | ok alive =>
      cases alive with
      | true =>
        obtain ⟨hended', hmore⟩ := hwrite
        have hlength := hmore.length
        exact hrest g'' (h.step hraw hanswer hread hmore hended') (by omega)
      | false =>
        obtain ⟨⟨hended', hrefused⟩, before, hprefix, hmore⟩ := hwrite
        obtain ⟨hsent, hreplies⟩ := hall g'' before hmore
        refine ⟨?_, fun hnot => by simp [hrefused] at hnot, fun hnot => by simp [hended'] at hnot⟩
        rw [hsent, hreplies]
        exact (List.prefix_append_right_inj _).2 hprefix

/-- A connection that has answered everything goes on as it should. -/
lemma serve_obeys (hM : MeasuresDocuments newFromData) {rounds total : ℕ}
    (h : Answered newFromData getData dispatch connectionId start state g)
    (htotal : total ≤ g.length + rounds) :
    (serve newFromData getData dispatch connectionId rounds state).Obeys
      (May newFromData getData dispatch connectionId start) keep g
      (ServeEnds newFromData getData dispatch connectionId start total) := by
  induction rounds generalizing state g with
  | zero => exact ⟨htotal, h.sent_prefix (Port.Moves.refl g)⟩
  | succ rounds ih =>
    refine ⟨⟨h.ended, trivial, ?_⟩, fun stopping => ?_⟩
    · exact (List.append_nil _).trans (h.replies_received (Port.Moves.refl g) readMessage_nil)
    have hmoves := Port.Moves.keep (P := port) g .stopping stopping
    have hlength : (keep .stopping stopping g).length = g.length + 1 := length_keep _ _ _
    cases stopping with
    | true =>
      have hall := h.replies_received hmoves readMessage_nil
      exact ⟨hall.symm ▸ List.prefix_rfl, fun _ => hall, fun hended => by simp [ends] at hended⟩
    | false =>
      have hreceived : received (keep .stopping false g) = received g :=
        (received_moves hmoves).trans (List.append_nil _)
      have hsent : sent (keep .stopping false g) = sent g :=
        (sent_moves hmoves).trans (List.append_nil _)
      have hg : Answered newFromData getData dispatch connectionId start state
          (keep .stopping false g) :=
        ⟨hreceived.symm ▸ h.messages, by rw [hreceived, hsent]; exact h.replies,
          by simpa [ends] using h.ended⟩
      revert hlength hg
      generalize keep Question.stopping false g = g₁
      intro hlength hg
      refine Obeys.bind (Obeys.attempt
        ((readMessage_obeys hg.ended fun g' bytes n hmore hended hclosed hn => ?_).weaken
          fun result g₂ hread => ?_))
      · have hnone : ∀ raw rest, Chimera.readMessage bytes ≠ .message raw rest := by
          rw [hclosed]
          exact nofun
        exact ⟨hended, hn, (List.append_nil _).trans (hg.replies_received hmore hnone)⟩
      cases result with
      | error stop =>
        cases stop with
        | thrown e =>
          obtain ⟨hended, bytes, hmalformed, hmore⟩ := hread
          have hnone : ∀ raw rest, Chimera.readMessage bytes ≠ .message raw rest := by
            rw [hmalformed]
            exact nofun
          have hall := hg.replies_received hmore hnone
          obtain ⟨msgs, hmsgs, hreceived⟩ := hg.messages
          refine ⟨hall.symm ▸ List.prefix_rfl, fun _ => hall, fun _ =>
            ⟨msgs, bytes, e, hmsgs, ?_, hmalformed⟩⟩
          rw [received_moves hmore, hreceived]
        | outside =>
          obtain ⟨hrounds, bytes, hmore⟩ := hread
          exact ⟨by omega, hg.sent_prefix hmore⟩
        | unfinished =>
          obtain ⟨hrounds, bytes, hmore⟩ := hread
          exact ⟨by omega, hg.sent_prefix hmore⟩
      | ok raw? =>
        cases raw? with
        | none =>
          obtain ⟨hended, hrefused, bytes, hclosed, hmore⟩ := hread
          have hnone : ∀ raw rest, Chimera.readMessage bytes ≠ .message raw rest := by
            rw [hclosed]
            exact nofun
          have hall := hg.replies_received hmore hnone
          exact ⟨hall.symm ▸ List.prefix_rfl, fun _ => hall, fun hnot => by simp [hended] at hnot⟩
        | some raw =>
          obtain ⟨hended, hraw, hmore⟩ := hread
          obtain ⟨reply, state', hanswer, -⟩ := @exists_answer σ newFromData getData dispatch
            connectionId hM raw hraw.1 state
          have hlength' := hmore.length
          simp only [hanswer]
          exact reply_obeys hg hraw hanswer hmore hended (by omega) fun g₃ h₃ htotal₃ =>
            ih h₃ htotal₃

/-- Wherever its answers have led it, a connection asks when it may, and ends as it should. -/
lemma obeys_of_follows (hM : MeasuresDocuments newFromData) {rounds : ℕ} {record : Traffic}
    {y : Program Unit}
    (hf : Follows (serve newFromData getData dispatch connectionId rounds state) record y) :
    y.Obeys (May newFromData getData dispatch connectionId state) keep record
      (ServeEnds newFromData getData dispatch connectionId state rounds) := by
  have hstart : Answered newFromData getData dispatch connectionId state state [] :=
    ⟨⟨[], nofun, rfl⟩, fun more => rfl, rfl⟩
  have hobeys := (serve_obeys hM hstart (Nat.le_add_left rounds _)).follows hf
  rwa [List.nil_append] at hobeys

/-- What was sent is the beginning of what the loop over whole messages writes. -/
lemma sent_prefix_replies (hM : MeasuresDocuments newFromData) {rounds : ℕ} {record : Traffic}
    {y : Program Unit}
    (hf : Follows (serve newFromData getData dispatch connectionId rounds state) record y) :
    sent record <+: replies newFromData getData dispatch connectionId state (received record) := by
  have hobeys := obeys_of_follows hM hf
  cases y with
  | done u => exact hobeys.1
  | fail stop => exact hobeys.2
  | ask q next => exact ⟨q.pending, hobeys.1.2.2⟩

/-- **However the bytes are split up, a connection writes what the loop over whole messages
writes.**  What it sends is the beginning of that; whenever it waits for more, or looks at the flag,
it is all of that, and while it sends, the rest of it is being sent.  It asks nothing more once it
was told to end, and else only ends at a frame that cannot be measured. -/
theorem serve_transports (hM : MeasuresDocuments newFromData) {rounds : ℕ} {record : Traffic}
    {y : Program Unit}
    (hf : Follows (serve newFromData getData dispatch connectionId rounds state) record y)
    (hrounds : record.length < rounds) :
    sent record <+: replies newFromData getData dispatch connectionId state (received record) ∧
      (∀ q next, y = .ask q next → ended record = false ∧ sent record ++ q.pending =
        replies newFromData getData dispatch connectionId state (received record)) ∧
      (y = .done () → (refused record = false →
          sent record = replies newFromData getData dispatch connectionId state (received record)) ∧
        (ended record = false → ∃ (msgs : List (List UInt8)) (rest : List UInt8)
          (e : TranslatorError), (∀ raw ∈ msgs, WellFramed raw) ∧
            received record = msgs.flatten ++ rest ∧ Chimera.readMessage rest = .malformed e)) ∧
      ∀ stop, y ≠ .fail stop := by
  refine ⟨sent_prefix_replies hM hf, ?_⟩
  have hobeys := obeys_of_follows hM hf
  cases y with
  | done u =>
    obtain ⟨-, hall, hmalformed⟩ := hobeys
    exact ⟨nofun, fun _ => ⟨hall, hmalformed⟩, nofun⟩
  | fail stop =>
    obtain ⟨htotal, -⟩ := hobeys
    omega
  | ask q next =>
    obtain ⟨⟨hended, -, hall⟩, -⟩ := hobeys
    refine ⟨fun q' next' hask => ?_, nofun, nofun⟩
    obtain ⟨rfl, -⟩ := Interaction.ask.inj hask
    exact ⟨hended, hall⟩

end Loop

/-- A message that comes in three pieces, after a signal, and whose reply goes out in two. -/
theorem serve_transports_pieces :
    ∃ (record : Traffic) (next : Sent [221, 7, 0, 0, 0, 0, 0, 0, 0, 5, 0, 0, 0, 0] → Program Unit),
      Follows (serve emptyDocuments (fun _ => [5, 0, 0, 0, 0]) (fun _ state => ([], state)) 1 40 ())
        record (.ask (.send [221, 7, 0, 0, 0, 0, 0, 0, 0, 5, 0, 0, 0, 0]) next) ∧
      received record = [26, 0, 0, 0, 8, 0, 0, 0, 0, 0, 0, 0, 221, 7, 0, 0, 0, 0, 0, 0, 0,
        5, 0, 0, 0, 0] ∧
      sent record ++ [221, 7, 0, 0, 0, 0, 0, 0, 0, 5, 0, 0, 0, 0] =
        replies emptyDocuments (fun _ => [5, 0, 0, 0, 0]) (fun _ state => ([], state)) 1 ()
          (received record) := by
  have hpieces : ∃ (record : Traffic)
      (next : Sent [221, 7, 0, 0, 0, 0, 0, 0, 0, 5, 0, 0, 0, 0] → Program Unit),
      Follows (serve emptyDocuments (fun _ => [5, 0, 0, 0, 0]) (fun _ state => ([], state)) 1 40 ())
        record (.ask (.send [221, 7, 0, 0, 0, 0, 0, 0, 0, 5, 0, 0, 0, 0]) next) ∧
      record.length = 6 ∧ received record = [26, 0, 0, 0, 8, 0, 0, 0, 0, 0, 0, 0, 221, 7, 0, 0,
        0, 0, 0, 0, 0, 5, 0, 0, 0, 0] := by
    refine ⟨[⟨.stopping, false⟩,
      ⟨.recv 16, .data [26, 0, 0, 0, 8, 0, 0, 0, 0, 0] (by decide) (by decide)⟩,
      ⟨.recv 6, .interrupted⟩, ⟨.recv 6, .data [0, 0, 221, 7, 0, 0] (by decide) (by decide)⟩,
      ⟨.recv 10, .data [0, 0, 0, 0, 0, 5, 0, 0, 0, 0] (by decide) (by decide)⟩,
      ⟨.send [26, 0, 0, 0, 1, 0, 0, 0, 8, 0, 0, 0, 221, 7, 0, 0, 0, 0, 0, 0, 0, 5, 0, 0, 0, 0],
        .count 12 (by decide)⟩], ?_, ?_, rfl, rfl⟩
    rotate_left
    -- the message is measured after its header, and answered after its body
    refine .cons (.cons (.cons (.cons ?_)))
    refine .cons ?_
    refine .cons ?_
    exact .nil _
  obtain ⟨record, next, hf, hlength, hreceived⟩ := hpieces
  have hall := (serve_transports emptyDocuments_measures hf (by omega)).2.1 _ _ rfl
  exact ⟨record, next, hf, hreceived, hall.2⟩

end Socket

end Chimera
