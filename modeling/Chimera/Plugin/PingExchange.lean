import Chimera.Plugin.Replies
import Chimera.Plugin.Transport

/-!
# The probe and the server

The health probe connects, sends one ping, and reads one reply, each call within a deadline.  On the
other end of the line is the loop of a connection.  The probe says that the server is ready only if
the server's handler has said so; and when no call fails and no time runs out, neither end waits for
the other, and the probe reports what the handler says.
-/

namespace Chimera

open Interaction ByteReader

namespace Health

/-! ## Calls -/

/-- What `recv` returns when it may return this many bytes. -/
inductive Received (want : ℕ) where
  /-- Some bytes. -/
  | data (bytes : List UInt8) (hpos : 0 < bytes.length) (hle : bytes.length ≤ want)
  /-- `EINTR`, `EAGAIN` or `EWOULDBLOCK`. -/
  | again
  /-- The peer has closed, or any other error. -/
  | stopped

/-- What `send` returns for these bytes. -/
inductive Sent (bytes : List UInt8) where
  /-- So many of them were taken. -/
  | count (n : ℕ) (hpos : 0 < n) (hle : n ≤ bytes.length)
  /-- `EINTR`, `EAGAIN` or `EWOULDBLOCK`. -/
  | again
  /-- Nothing was taken, or any other error. -/
  | stopped

/-- What the probe asks of its surroundings. -/
inductive Question where
  /-- `wait_socket`: whether the socket is ready before the deadline. -/
  | wait (writing : Bool)
  /-- `send`. -/
  | send (bytes : List UInt8)
  /-- `recv`, with room for so many bytes. -/
  | recv (want : ℕ)

/-- The answers. -/
@[reducible] def Question.Answer : Question → Type
  | .wait _ => Bool
  | .send bytes => Sent bytes
  | .recv want => Received want

/-- A part of the probe.  It fails when its rounds are used up. -/
abbrev Program (α : Type) := Interaction Unit Question Question.Answer α

/-- `transfer`, writing. -/
def transferOut : ℕ → List UInt8 → Program Bool
  | 0, _ => .fail ()
  | rounds + 1, bytes =>
    if 0 < bytes.length then
      .ask (.wait true) fun ready =>
        if ready = true then
          .ask (.send bytes) fun
            | .count n _ _ => transferOut rounds (bytes.drop n)
            | .again => transferOut rounds bytes
            | .stopped => .done false
        else .done false
    else .done true

/-- `transfer`, reading, when these bytes are there already. -/
def transferIn : ℕ → ℕ → List UInt8 → Program (Option (List UInt8))
  | 0, _, _ => .fail ()
  | rounds + 1, length, got =>
    if got.length < length then
      .ask (.wait false) fun ready =>
        if ready = true then
          .ask (.recv (length - got.length)) fun
            | .data bytes _ _ => transferIn rounds length (got ++ bytes)
            | .again => transferIn rounds length got
            | .stopped => .done none
        else .done none
    else .done (some got)

/-- `write_le32`. -/
def writeLe32 (value : UInt32) : List UInt8 :=
  [value.toUInt8, (value >>> 8).toUInt8, (value >>> 16).toUInt8, (value >>> 24).toUInt8]

/-- `request`, for a document of this length: a header, no flags, and the kind of the section. -/
def request (length : ℕ) : List UInt8 :=
  writeLe32 (UInt32.ofNat (21 + length)) ++ writeLe32 requestId ++ [0, 0, 0, 0] ++
    writeLe32 opMsg ++ [0, 0, 0, 0, 0]

/-- The checks on the header of the reply. -/
def headerRefused (header : List UInt8) : Bool :=
  decide (readLe32 header < 26 ∨ maxReply < readLe32 header ∨
    readLe32 (header.drop 8) ≠ requestId ∨ readLe32 (header.drop 12) ≠ opMsg)

/-- The checks on what follows the header. -/
def bodyRefused (body : List UInt8) : Bool :=
  decide (readLe32 body ≠ 0 ∨ body.getD 4 0 ≠ 0 ∨
    (readLe32 (body.drop 5)).toNat ≠ body.length - 5)

/-- `main`, on a connected socket, with the bytes of its ping: whether it returns zero. -/
def exchange (initStatic : List UInt8 → Option Doc) (ping : List UInt8) (rounds : ℕ) :
    Program Bool := do
  if !(← transferOut rounds (request ping.length)) then return false
  if !(← transferOut rounds ping) then return false
  match ← transferIn rounds 16 [] with
  | none => return false
  | some header =>
    if headerRefused header then return false
    match ← transferIn rounds ((readLe32 header).toNat - 16) [] with
    | none => return false
    | some body =>
      if bodyRefused body then return false
      return (initStatic (body.drop 5)).any isSuccessful

/-! ## What a record says -/

/-- The questions of the probe so far, with the answers. -/
abbrev Traffic := Record Question Question.Answer

/-- The bytes that an answer brings in. -/
def receivedBy : (q : Question) × q.Answer → List UInt8
  | ⟨.recv _, .data bytes _ _⟩ => bytes
  | _ => []

/-- The bytes that the kernel takes by an answer. -/
def sentBy : (q : Question) × q.Answer → List UInt8
  | ⟨.send bytes, .count n _ _⟩ => bytes.take n
  | _ => []

/-- The answer says that the time is over, or that the connection is of no use. -/
def breaks : (q : Question) × q.Answer → Bool
  | ⟨.wait _, ready⟩ => !ready
  | ⟨.send _, .stopped⟩ => true
  | ⟨.recv _, .stopped⟩ => true
  | _ => false

/-- What the probe receives and sends. -/
def port : Port Question Question.Answer UInt8 := ⟨receivedBy, sentBy⟩

/-- All bytes received. -/
abbrev received (g : Traffic) : List UInt8 := port.takes g

/-- All bytes sent. -/
abbrev sent (g : Traffic) : List UInt8 := port.gives g

/-- A call has failed, or the time was over. -/
def broken (g : Traffic) : Bool := g.any breaks

/-- What came in is received. -/
lemma received_moves {g g' : Traffic} {ins outs : List UInt8} (h : port.Moves g ins outs g') :
    received g' = received g ++ ins := h.takes

/-- What went out is sent. -/
lemma sent_moves {g g' : Traffic} {ins outs : List UInt8} (h : port.Moves g ins outs g') :
    sent g' = sent g ++ outs := h.gives

@[simp] lemma broken_keep {g : Traffic} {q : Question} {r : q.Answer} :
    broken (keep q r g) = (broken g || breaks ⟨q, r⟩) := by
  simp [broken, Interaction.keep]

/-! ## Transfers -/

section Transfer

variable {may : Traffic → Question → Prop} {rounds length : ℕ} {got bytes : List UInt8}
  {g g' : Traffic}

/-- A transfer that writes asks only while bytes are left. -/
lemma transferOut_obeys (hbroken : broken g = false)
    (hmay : ∀ g' before rest, before ++ rest = bytes → 0 < rest.length →
      port.Moves g [] before g' → broken g' = false →
        may g' (.wait true) ∧ may g' (.send rest)) :
    (transferOut rounds bytes).Obeys may keep g (port.WriteEnds (fun g' => broken g' = false)
      (fun g' => broken g' = true) () rounds bytes g) := by
  refine Port.writes (f := transferOut) (fun _ => rfl) (fun _ => rfl)
    (fun rounds before rest g' Post hbytes hrest hmoves hbroken' hnext hlost => ?_) hbroken
  rw [transferOut, if_pos hrest]
  refine ⟨(hmay g' before rest hbytes hrest hmoves hbroken').1, fun ready => ?_⟩
  have hwait := Port.Moves.keep (P := port) g' (.wait true) ready
  cases ready with
  | false => exact hlost _ (by simp [breaks]) hwait
  | true =>
    have hready : broken (keep (.wait true) true g') = false := by simpa [breaks] using hbroken'
    have hmoved : port.Moves g [] before (keep (.wait true) true g') := by
      have hmoved := hmoves.trans hwait
      rwa [show port.given ⟨.wait true, true⟩ = [] from rfl, List.append_nil] at hmoved
    refine ⟨(hmay _ before rest hbytes hrest hmoved hready).2, fun r => ?_⟩
    have hmore := hwait.trans (Port.Moves.keep (P := port) _ (.send rest) r)
    cases r with
    | count n hpos hle => exact hnext n _ (by simpa [breaks] using hready) (by simp) hmore
    | again => exact hnext 0 _ (by simpa [breaks] using hready) (by simp) hmore
    | stopped => exact hlost _ (by simp [breaks]) hmore

/-- A transfer that reads asks only while bytes are missing. -/
lemma transferIn_obeys (hgot : got.length ≤ length) (hbroken : broken g = false)
    (hmay : ∀ g' bytes n, port.Moves g bytes [] g' → broken g' = false →
      (got ++ bytes).length < length → 0 < n → may g' (.wait false) ∧ may g' (.recv n)) :
    (transferIn rounds length got).Obeys may keep g (port.ReadEnds (fun g' => broken g' = false)
      (fun g' => broken g' = true) () rounds length got g) := by
  refine Port.reads (f := fun rounds => transferIn rounds length) (fun _ => rfl)
    (fun rounds got hwhole => ?_)
    (fun rounds before g' Post hshort hmoves hbroken' hnext hlost => ?_) hbroken hgot
  · rw [transferIn, if_neg (by omega)]
  · rw [transferIn, if_pos hshort]
    have hroom : 0 < length - (got ++ before).length := by omega
    refine ⟨(hmay g' before _ hmoves hbroken' hshort hroom).1, fun ready => ?_⟩
    have hwait := Port.Moves.keep (P := port) g' (.wait false) ready
    cases ready with
    | false => exact hlost _ (by simp [breaks]) hwait
    | true =>
      have hready : broken (keep (.wait false) true g') = false := by
        simpa [breaks] using hbroken'
      have hmoved : port.Moves g before [] (keep (.wait false) true g') := by
        have hmoved := hmoves.trans hwait
        rwa [show port.taken ⟨.wait false, true⟩ = [] from rfl, List.append_nil] at hmoved
      refine ⟨(hmay _ before _ hmoved hready hshort hroom).2, fun r => ?_⟩
      have hmore := hwait.trans (Port.Moves.keep (P := port) _ (.recv _) r)
      cases r with
      | data bytes hpos hle =>
        exact hnext bytes _ hle (by simpa [breaks] using hready) (by simp) hmore
      | again =>
        have hagain := hnext [] _ (Nat.zero_le _) (by simpa [breaks] using hready) (by simp) hmore
        rwa [List.append_nil] at hagain
      | stopped => exact hlost _ (by simp [breaks]) hmore

end Transfer

/-! ## The probe -/

section Exchange

variable {initStatic : List UInt8 → Option Doc} {ping header body more : List UInt8}
  {rounds total : ℕ} {g : Traffic}

/-- The stream is not a whole reply yet, and nothing in it is refused. -/
def Short (stream : List UInt8) : Prop :=
  stream.length < 16 ∨ headerRefused (stream.take 16) = false ∧
    stream.length < (readLe32 (stream.take 16)).toNat

/-- A header that is refused is enough for the probe. -/
lemma succeeds_of_headerRefused (hheader : header.length = 16)
    (hrefused : headerRefused header = true) :
    succeeds initStatic (header ++ more) = false := by
  have htake : (header ++ more).take 16 = header := by rw [← hheader, List.take_left]
  have hlength : ¬ (header ++ more).length < 16 := by
    rw [List.length_append]
    omega
  rw [succeeds, reply]
  dsimp only
  rw [if_neg hlength, htake, if_pos (of_decide_eq_true hrefused)]
  rfl

/-- A header that is not refused and the body it announces are enough for the probe. -/
lemma succeeds_of_body (hheader : header.length = 16) (haccepted : headerRefused header = false)
    (hbody : body.length = (readLe32 header).toNat - 16) :
    succeeds initStatic (header ++ body ++ more) =
      (!bodyRefused body && (initStatic (body.drop 5)).any isSuccessful) := by
  have htake : (header ++ body ++ more).take 16 = header := by
    rw [List.append_assoc, ← hheader, List.take_left]
  have hdrop : (header ++ body ++ more).drop 16 = body ++ more := by
    rw [List.append_assoc, ← hheader, List.drop_left]
  have hlength : (header ++ body ++ more).length = 16 + body.length + more.length := by
    rw [List.length_append, List.length_append, hheader]
  rw [succeeds, reply]
  dsimp only
  rw [if_neg (by omega), htake, if_neg (of_decide_eq_false haccepted), hdrop, ← hbody,
    List.take_left, if_neg (by omega)]
  by_cases hrefused : bodyRefused body = true
  · rw [if_pos (of_decide_eq_true hrefused), hrefused]
    rfl
  · have hfalse : bodyRefused body = false := by simpa using hrefused
    rw [if_neg (of_decide_eq_false hfalse), hfalse]
    rfl

/-- The message of the probe. -/
def message (ping : List UInt8) : List UInt8 := request ping.length ++ ping

/-- When the probe may ask: while its message is not sent, it sends, and then it receives while the
reply is not complete. -/
def May (ping : List UInt8) (g : Traffic) : Question → Prop
  | .wait _ => broken g = false ∧ sent g <+: message ping
  | .send bytes => broken g = false ∧ sent g <+: message ping ∧ 0 < bytes.length
  | .recv want =>
    broken g = false ∧ sent g = message ping ∧ 0 < want ∧ Short (received g)

/-- How the probe ends. -/
def ExchangeEnds (initStatic : List UInt8 → Option Doc) (ping : List UInt8) (total : ℕ) :
    Except Unit Bool → Traffic → Prop
  | .ok result, g =>
    sent g <+: message ping ∧ (broken g = true → result = false) ∧
      (broken g = false → sent g = message ping ∧
        ∀ more, succeeds initStatic (received g ++ more) = result)
  | .error _, g => total ≤ g.length ∧ sent g <+: message ping

/-- With its message sent and the header of the reply read, the probe reads the rest. -/
lemma readBody_obeys (htotal : total ≤ g.length + rounds) (hbroken : broken g = false)
    (hsent : sent g = message ping) (hheader : header.length = 16)
    (haccepted : headerRefused header = false) (hreceived : received g = header) :
    Obeys (May ping) keep (do
      match ← transferIn rounds ((readLe32 header).toNat - 16) [] with
      | none => (return false : Program Bool)
      | some body =>
        if bodyRefused body then return false
        return (initStatic (body.drop 5)).any isSuccessful) g
      (ExchangeEnds initStatic ping total) := by
  have hall {g' : Traffic} {bytes : List UInt8} (hmoves : port.Moves g bytes [] g') :
      received g' = header ++ bytes ∧ sent g' = message ping := by
    rw [received_moves hmoves, sent_moves hmoves, List.append_nil, hreceived]
    exact ⟨rfl, hsent⟩
  refine Obeys.bind ((transferIn_obeys (Nat.zero_le _) hbroken
    fun g' bytes n hmoves hbroken' hshort hn => ?_).weaken fun result g' hread => ?_)
  · obtain ⟨hin, hout⟩ := hall hmoves
    refine ⟨⟨hbroken', hout ▸ List.prefix_rfl⟩, hbroken', hout, hn, ?_⟩
    rw [List.nil_append] at hshort
    rw [hin]
    refine .inr ⟨by rwa [← hheader, List.take_left], ?_⟩
    rw [List.length_append, ← hheader, List.take_left]
    omega
  cases result with
  | error e =>
    obtain ⟨-, hrounds, bytes, hmoves⟩ := hread
    exact ⟨by omega, (hall hmoves).2 ▸ List.prefix_rfl⟩
  | ok body? =>
    cases body? with
    | none =>
      obtain ⟨hbroken', bytes, -, hmoves⟩ := hread
      exact ⟨(hall hmoves).2 ▸ List.prefix_rfl, fun _ => rfl,
        fun hnot => by simp [hbroken'] at hnot⟩
    | some body =>
      obtain ⟨hbroken', hbody, bytes, rfl, hmoves⟩ := hread
      obtain ⟨hin, hout⟩ := hall hmoves
      have hsucceeds (more : List UInt8) : succeeds initStatic (received g' ++ more) =
          (!bodyRefused body && (initStatic (body.drop 5)).any isSuccessful) := by
        rw [hin]
        exact succeeds_of_body hheader haccepted hbody
      cases hrefused : bodyRefused body with
      | true =>
        simp only [hrefused]
        refine ⟨hout ▸ List.prefix_rfl, fun _ => rfl, fun _ => ⟨hout, fun more => ?_⟩⟩
        rw [hsucceeds, hrefused]
        rfl
      | false =>
        simp only [hrefused]
        refine ⟨hout ▸ List.prefix_rfl, fun hnot => by simp [hbroken'] at hnot,
          fun _ => ⟨hout, fun more => ?_⟩⟩
        rw [hsucceeds, hrefused]
        rfl

/-- The probe with its message sent reads the reply. -/
lemma readReply_obeys (htotal : total ≤ g.length + rounds) (hbroken : broken g = false)
    (hsent : sent g = message ping) (hreceived : received g = []) :
    Obeys (May ping) keep (do
      match ← transferIn rounds 16 [] with
      | none => (return false : Program Bool)
      | some header =>
        if headerRefused header then return false
        match ← transferIn rounds ((readLe32 header).toNat - 16) [] with
        | none => return false
        | some body =>
          if bodyRefused body then return false
          return (initStatic (body.drop 5)).any isSuccessful) g
      (ExchangeEnds initStatic ping total) := by
  -- what has come in since, and that nothing more was sent
  have hall {g' : Traffic} {bytes : List UInt8} (hmoves : port.Moves g bytes [] g') :
      received g' = bytes ∧ sent g' = message ping := by
    rw [received_moves hmoves, sent_moves hmoves, List.append_nil, hreceived, List.nil_append]
    exact ⟨rfl, hsent⟩
  refine Obeys.bind ((transferIn_obeys (Nat.zero_le _) hbroken
    fun g' bytes n hmoves hbroken' hshort hn => ?_).weaken fun result g' hread => ?_)
  · obtain ⟨hin, hout⟩ := hall hmoves
    refine ⟨⟨hbroken', hout ▸ List.prefix_rfl⟩, hbroken', hout, hn, ?_⟩
    rw [hin]
    exact .inl hshort
  cases result with
  | error e =>
    obtain ⟨-, hrounds, bytes, hmoves⟩ := hread
    exact ⟨by omega, (hall hmoves).2 ▸ List.prefix_rfl⟩
  | ok header? =>
    cases header? with
    | none =>
      obtain ⟨hbroken', bytes, -, hmoves⟩ := hread
      exact ⟨(hall hmoves).2 ▸ List.prefix_rfl, fun _ => rfl,
        fun hnot => by simp [hbroken'] at hnot⟩
    | some header =>
      obtain ⟨hbroken', hheader, bytes, rfl, hmoves⟩ := hread
      obtain ⟨hin, hout⟩ := hall hmoves
      have hlength := hmoves.length
      cases hrefused : headerRefused header with
      | true =>
        simp only [hrefused]
        refine ⟨hout ▸ List.prefix_rfl, fun _ => rfl, fun _ => ⟨hout, fun more => ?_⟩⟩
        rw [hin]
        exact succeeds_of_headerRefused hheader hrefused
      | false =>
        simp only [hrefused]
        exact readBody_obeys (by omega) hbroken' hout hheader hrefused hin

/-- A part of the message is sent, and what comes after it goes on as it should. -/
lemma sendPart_obeys {before part : List UInt8} (htotal : total ≤ g.length + rounds)
    (hbroken : broken g = false) (hsent : sent g = before) (hpart : before ++ part <+: message ping)
    (hreceived : received g = []) {rest : Program Bool}
    (hrest : ∀ g', total ≤ g'.length + rounds → broken g' = false → sent g' = before ++ part →
      received g' = [] → rest.Obeys (May ping) keep g' (ExchangeEnds initStatic ping total)) :
    Obeys (May ping) keep (do
      if !(← transferOut rounds part) then return false
      rest) g (ExchangeEnds initStatic ping total) := by
  have hbegins {g' : Traffic} {some : List UInt8} (hmoves : port.Moves g [] some g')
      (hsome : some <+: part) : sent g' <+: message ping := by
    rw [sent_moves hmoves, hsent]
    exact ((List.prefix_append_right_inj _).2 hsome).trans hpart
  refine Obeys.bind ((transferOut_obeys hbroken
    fun g' some left hbytes hleft hmoves hbroken' => ?_).weaken fun result g' hwrite => ?_)
  · have hsome := hbegins hmoves ⟨left, hbytes⟩
    exact ⟨⟨hbroken', hsome⟩, hbroken', hsome, hleft⟩
  cases result with
  | error e =>
    obtain ⟨-, hrounds, some, hsome, hmoves⟩ := hwrite
    exact ⟨by omega, hbegins hmoves hsome⟩
  | ok alive =>
    cases alive with
    | false =>
      obtain ⟨hbroken', some, hsome, hmoves⟩ := hwrite
      exact ⟨hbegins hmoves hsome, fun _ => rfl, fun hnot => by simp [hbroken'] at hnot⟩
    | true =>
      obtain ⟨hbroken', hmoves⟩ := hwrite
      have hlength := hmoves.length
      refine hrest g' (by omega) hbroken' ?_ ?_
      · rw [sent_moves hmoves, hsent]
      · rw [received_moves hmoves, hreceived, List.nil_append]

/-- The probe asks when it may, and ends as it should. -/
lemma exchange_obeys :
    (exchange initStatic ping rounds).Obeys (May ping) keep []
      (ExchangeEnds initStatic ping rounds) := by
  refine sendPart_obeys (Nat.le_add_left _ _) rfl rfl (List.prefix_append _ _) rfl
    fun g hg hbroken hsent hreceived => ?_
  exact sendPart_obeys hg hbroken hsent List.prefix_rfl hreceived
    fun g' hg' hbroken' hsent' hreceived' => readReply_obeys hg' hbroken' hsent' hreceived'

end Exchange

/-! ## The message and the reply to it -/

/-- The document of the probe. -/
def pingDocument : Doc := [("ping".toList, .int32 1), ("$db".toList, .utf8 "admin".toList)]

/-- Its bytes. -/
def pingCommand : List UInt8 :=
  [30, 0, 0, 0, 0x10, 112, 105, 110, 103, 0, 1, 0, 0, 0, 0x02, 36, 100, 98, 0, 6, 0, 0, 0,
    97, 100, 109, 105, 110, 0, 0]

/-- The request that the server finds in the message of the probe. -/
def pingRequest : WireRequest :=
  ⟨headerOf (message pingCommand), pingDocument, databaseOfBody pingDocument, false⟩

section Reply

variable {σ : Type} {newFromData : List UInt8 → Option Doc} {getData : Doc → List UInt8}
  {dispatch : WireRequest → σ → Doc × σ} {connectionId : Int32} {state : σ}

variable (dispatch state) in
/-- What the handler of the server replies to the probe. -/
def pingReplied : Doc := (dispatch pingRequest state).1

variable (getData dispatch connectionId state) in
/-- The bytes of that reply. -/
def replyBytes : List UInt8 :=
  encodeReply pingRequest connectionId (getData (pingReplied dispatch state))

/-- The message of the probe is written as a reply would be. -/
lemma message_eq : message pingCommand =
    encodeReply ⟨⟨0, 0, 0, 0⟩, [], [], false⟩ 424242 pingCommand := by
  decide

/-- The message is well framed. -/
lemma wellFramed_message : WellFramed (message pingCommand) := by
  refine ⟨by decide, by decide, by decide⟩

/-- The server understands the message, and answers it. -/
lemma answer_message (hM : MeasuresDocuments newFromData)
    (hping : newFromData pingCommand = some pingDocument) :
    answer newFromData getData dispatch connectionId (message pingCommand) state =
      some (replyBytes getData dispatch connectionId state, (dispatch pingRequest state).2) := by
  have hparse : parseRequest newFromData (message pingCommand).length (message pingCommand) =
      .ok pingRequest := by
    have hparse := @parseRequest_encodeReply newFromData ⟨⟨0, 0, 0, 0⟩, [], [], false⟩ 424242
      pingCommand pingDocument hM rfl hping _ (Nat.le_refl _)
    rwa [← message_eq] at hparse
  rw [answer, hparse]
  rfl

/-- No message is a proper beginning of another one. -/
lemma eq_of_wellFramed {raw whole : List UInt8} (h : raw <+: whole) (hraw : WellFramed raw)
    (hwhole : WellFramed whole) : raw = whole := by
  refine h.eq_of_length ?_
  obtain ⟨hlow, -, hlength⟩ := hraw
  obtain ⟨-, -, hlength'⟩ := hwhole
  obtain ⟨rest, rfl⟩ := h
  have hfour : 4 ≤ raw.length := by
    simp only [headerBytes] at hlow
    omega
  rw [List.take_append_of_le_length hfour, hlength] at hlength'
  exact_mod_cast hlength'

/-- There is no message to answer before the whole of it has come. -/
lemma readMessage_beginning {stream whole : List UInt8} (hwhole : WellFramed whole)
    (h : stream <+: whole) (hne : stream ≠ whole) (raw rest : List UInt8) :
    Chimera.readMessage stream ≠ .message raw rest := by
  intro hread
  obtain ⟨rfl, hraw⟩ := Socket.readMessage_eq_message hread
  obtain rfl := eq_of_wellFramed ((List.prefix_append raw rest).trans h) hraw hwhole
  have hrest : rest = [] := List.append_right_eq_self.1 (h.eq_of_length_le (by simp))
  exact hne (by rw [hrest, List.append_nil])

/-- A frame that cannot be measured does not come in a beginning of a message. -/
lemma readMessage_ne_malformed {msgs : List (List UInt8)} {rest whole : List UInt8}
    (hwhole : WellFramed whole) (hmsgs : ∀ raw ∈ msgs, WellFramed raw)
    (h : msgs.flatten ++ rest <+: whole) (e : TranslatorError) :
    Chimera.readMessage rest ≠ .malformed e := by
  cases msgs with
  | nil =>
    rw [List.flatten_nil, List.nil_append] at h
    obtain ⟨hlow, hhigh, hlength⟩ := hwhole
    unfold Chimera.readMessage
    split
    · intro hmalformed
      cases hmalformed
    · rename_i hheader
      obtain ⟨more, rfl⟩ := h
      have hfour : 4 ≤ rest.length := by
        simp only [headerBytes] at hheader
        omega
      rw [List.take_append_of_le_length hfour] at hlength
      rw [hlength]
      dsimp only
      rw [if_neg (by omega)]
      split
      · intro hmalformed
        cases hmalformed
      · intro hmalformed
        cases hmalformed
  | cons raw msgs =>
    rw [List.flatten_cons, List.append_assoc] at h
    obtain rfl := eq_of_wellFramed ((List.prefix_append raw _).trans h)
      (hmsgs raw (List.mem_cons_self ..)) hwhole
    have hrest := List.append_right_eq_self.1 (h.eq_of_length_le (by simp))
    rw [(List.append_eq_nil_iff.1 hrest).2]
    intro hmalformed
    cases hmalformed

/-- What the loop writes before the message is complete: nothing. -/
lemma replies_beginning {stream : List UInt8} (h : stream <+: message pingCommand)
    (hne : stream ≠ message pingCommand) :
    Socket.replies newFromData getData dispatch connectionId state stream = [] :=
  Socket.replies_eq_nil (readMessage_beginning wellFramed_message h hne)

/-- What the loop writes for the message: the reply. -/
lemma replies_message (hM : MeasuresDocuments newFromData)
    (hping : newFromData pingCommand = some pingDocument) :
    Socket.replies newFromData getData dispatch connectionId state (message pingCommand) =
      replyBytes getData dispatch connectionId state := by
  have hanswer : answer newFromData getData dispatch connectionId (message pingCommand) state =
      some (replyBytes getData dispatch connectionId state, (dispatch pingRequest state).2) :=
    answer_message hM hping
  have happend := Socket.replies_append wellFramed_message hanswer []
  rwa [Socket.replies_eq_nil Socket.readMessage_nil, List.append_nil, List.append_nil] at happend

/-- The length of the reply. -/
lemma length_replyBytes : (replyBytes getData dispatch connectionId state).length =
    21 + (getData (pingReplied dispatch state)).length :=
  length_encodeReply rfl

/-- The first number of the reply is its length. -/
lemma readLe32_replyBytes :
    (readLe32 ((replyBytes getData dispatch connectionId state).take 16)).toNat =
      (21 + (getData (pingReplied dispatch state)).length) % 2 ^ 32 := by
  have hfirst : readLe32 ((replyBytes getData dispatch connectionId state).take 16) =
      (Int32.ofNat (21 + (getData (pingReplied dispatch state)).length)).toUInt32 := by
    rw [replyBytes, encodeReply_opMsg rfl]
    exact readLe32_append _ _
  rw [hfirst]
  rfl

/-- The reply is complete. -/
lemma not_short_replyBytes : ¬ Short (replyBytes getData dispatch connectionId state) := by
  rintro (h | ⟨-, h⟩)
  · rw [length_replyBytes] at h
    omega
  · rw [readLe32_replyBytes, length_replyBytes] at h
    have hle := Nat.mod_le (21 + (getData (pingReplied dispatch state)).length) (2 ^ 32)
    omega

/-- The probe succeeds on the reply when the handler says so, and the reply is not too long. -/
lemma succeeds_replyBytes (hM : MeasuresDocuments newFromData)
    (hread : newFromData (getData (pingReplied dispatch state)) =
      some (pingReplied dispatch state)) :
    succeeds newFromData (replyBytes getData dispatch connectionId state) =
      (isSuccessful (pingReplied dispatch state) &&
        decide ((replyBytes getData dispatch connectionId state).length ≤ 65536)) := by
  by_cases hfits : (replyBytes getData dispatch connectionId state).length ≤ 65536
  · have hid : pingRequest.header.requestId.toUInt32 = requestId := by decide
    rw [decide_eq_true hfits, Bool.and_true, succeeds, replyBytes,
      reply_encodeReply hM rfl hread hfits hid]
    rfl
  · rw [decide_eq_false hfits, Bool.and_false, ← List.take_append_drop 16
      (replyBytes getData dispatch connectionId state)]
    have hlength : (replyBytes getData dispatch connectionId state).length =
        21 + (getData (pingReplied dispatch state)).length := length_replyBytes
    refine succeeds_of_headerRefused (List.length_take_of_le (by omega)) (decide_eq_true ?_)
    -- a document's length fits the field, so the reply's length is read as it is
    obtain ⟨-, hmeasure⟩ := hM _ _ hread
    have hbound := Int32.toInt_lt (readInt32 (getData (pingReplied dispatch state)))
    refine .inr (.inl (UInt32.lt_iff_toNat_lt.2 ?_))
    rw [readLe32_replyBytes, Nat.mod_eq_of_lt (by omega)]
    change 65536 < _
    omega

/-! ## Both ends of the line -/

/-- The two ends of the line, and what is on its way. -/
abbrev PingLine : Type :=
  Peers Unit (Stop TranslatorError) Question Socket.Question Question.Answer Socket.Question.Answer
    Bool Unit UInt8

variable (newFromData getData dispatch connectionId state) in
/-- The runs of the probe and the loop of its connection, each with this many rounds. -/
abbrev PingRun (rounds : ℕ) : Traffic → Socket.Traffic → PingLine → Prop :=
  Peers.Run port Socket.port (exchange newFromData pingCommand rounds)
    (Socket.serve newFromData getData dispatch connectionId rounds state)

variable {rounds : ℕ} {probed : Traffic} {served : Socket.Traffic} {s : PingLine}

/-- Wherever its answers have led it, the probe asks when it may, and ends as it should. -/
lemma PingRun.obeys
    (h : PingRun newFromData getData dispatch connectionId state rounds probed served s) :
    s.first.Obeys (May pingCommand) keep probed (ExchangeEnds newFromData pingCommand rounds) := by
  have hobeys : s.first.Obeys (May pingCommand) keep ([] ++ probed)
      (ExchangeEnds newFromData pingCommand rounds) := exchange_obeys.follows h.follows.1
  rwa [List.nil_append] at hobeys

/-- What the server has received is a beginning of the message. -/
lemma PingRun.received_prefix
    (h : PingRun newFromData getData dispatch connectionId state rounds probed served s) :
    Socket.received served <+: message pingCommand := by
  have hsent : sent probed <+: message pingCommand := by
    have hobeys := h.obeys
    cases hfirst : s.first with
    | done result =>
      rw [hfirst] at hobeys
      exact hobeys.1
    | fail e =>
      rw [hfirst] at hobeys
      exact hobeys.2
    | ask q next =>
      rw [hfirst] at hobeys
      cases q with
      | wait writing => exact hobeys.1.2
      | send bytes => exact hobeys.1.2.1
      | recv want => exact hobeys.1.2.1 ▸ List.prefix_rfl
  have hreceived : Socket.received served <+: sent probed := ⟨s.toSecond, h.conserves.2.symm⟩
  exact hreceived.trans hsent

/-- What the probe has received is a beginning of the reply. -/
lemma PingRun.replied_prefix (hM : MeasuresDocuments newFromData)
    (hping : newFromData pingCommand = some pingDocument)
    (h : PingRun newFromData getData dispatch connectionId state rounds probed served s) :
    received probed <+: replyBytes getData dispatch connectionId state := by
  have hfrom : received probed <+: Socket.sent served := ⟨s.toFirst, h.conserves.1.symm⟩
  have hsent := hfrom.trans (Socket.sent_prefix_replies hM h.follows.2)
  by_cases hall : Socket.received served = message pingCommand
  · rwa [hall, replies_message hM hping] at hsent
  · rw [replies_beginning h.received_prefix hall] at hsent
    rw [List.prefix_nil.1 hsent]
    exact List.nil_prefix

/-- The answer is only that the call is to be made again. -/
def idles : (q : Question) × q.Answer → Bool
  | ⟨.send _, .again⟩ => true
  | ⟨.recv _, .again⟩ => true
  | _ => false

/-- The answer is only that the call is to be made again. -/
def serverIdles : (q : Socket.Question) × q.Answer → Bool
  | ⟨.send _, .interrupted⟩ => true
  | ⟨.recv _, .interrupted⟩ => true
  | _ => false

variable (newFromData getData dispatch connectionId state) in
/-- One of the two ends can go on, with nothing broken by it. -/
def Proceeds (rounds : ℕ) (probed : Traffic) (served : Socket.Traffic) : Prop :=
  (∃ entry s', idles entry = false ∧ breaks entry = false ∧
    PingRun newFromData getData dispatch connectionId state rounds (probed ++ [entry]) served s') ∨
  ∃ entry s', serverIdles entry = false ∧ Socket.ends entry = false ∧
    PingRun newFromData getData dispatch connectionId state rounds probed (served ++ [entry]) s'

variable {x : Program Bool} {y : Socket.Program Unit} {toFirst toSecond : List UInt8}

/-- An answer to the probe. -/
lemma PingRun.probe_step (q : Question) {next : q.Answer → Program Bool} (r : q.Answer)
    (h : PingRun newFromData getData dispatch connectionId state rounds probed served
      ⟨.ask q next, y, port.taken ⟨q, r⟩ ++ toFirst, toSecond⟩) :
    PingRun newFromData getData dispatch connectionId state rounds (probed ++ [⟨q, r⟩]) served
      ⟨next r, y, toFirst, toSecond ++ port.given ⟨q, r⟩⟩ :=
  Peers.Run.first r h

/-- An answer to the server. -/
lemma PingRun.server_step (q : Socket.Question) {next : q.Answer → Socket.Program Unit}
    (r : q.Answer) (h : PingRun newFromData getData dispatch connectionId state rounds probed served
      ⟨x, .ask q next, toFirst, Socket.port.taken ⟨q, r⟩ ++ toSecond⟩) :
    PingRun newFromData getData dispatch connectionId state rounds probed (served ++ [⟨q, r⟩])
      ⟨x, next r, toFirst ++ Socket.port.given ⟨q, r⟩, toSecond⟩ :=
  Peers.Run.second r h

/-- While the probe waits for a reply and nothing is on its way to it, the server can go on. -/
lemma PingRun.server_proceeds (hM : MeasuresDocuments newFromData)
    (hping : newFromData pingCommand = some pingDocument)
    (h : PingRun newFromData getData dispatch connectionId state rounds probed served s)
    (hrounds : served.length < rounds) (hended : Socket.ended served = false)
    (hsent : sent probed = message pingCommand) (hshort : Short (received probed))
    (hnothing : s.toFirst = []) :
    ∃ entry s', serverIdles entry = false ∧ Socket.ends entry = false ∧
      PingRun newFromData getData dispatch connectionId state rounds probed (served ++ [entry])
        s' := by
  have hobeys := Socket.obeys_of_follows hM h.follows.2
  have hbegins := h.received_prefix
  obtain ⟨hback, hforth⟩ := h.conserves
  obtain ⟨x, y, toFirst, toSecond⟩ := s
  cases y with
  | done u =>
    obtain ⟨msgs, rest, e, hmsgs, hreceived, hmalformed⟩ := hobeys.2.2 hended
    rw [hreceived] at hbegins
    exact absurd hmalformed (readMessage_ne_malformed wellFramed_message hmsgs hbegins e)
  | fail stop =>
    have htotal := hobeys.1
    omega
  | ask q next =>
    obtain ⟨⟨-, hsensible, hall⟩, -⟩ := hobeys
    cases q with
    | stopping => exact ⟨_, _, rfl, rfl, PingRun.server_step .stopping false h⟩
    | send bytes =>
      exact ⟨_, _, rfl, rfl,
        PingRun.server_step (.send bytes) (.count bytes.length (Nat.le_refl _)) h⟩
    | recv want =>
      by_cases hempty : toSecond = []
      · -- everything has arrived on both sides, so the probe has the whole reply
        exfalso
        have hreceived : Socket.received served = message pingCommand := by
          rw [← hsent]
          change port.gives probed = Socket.port.takes served ++ toSecond at hforth
          rw [hempty, List.append_nil] at hforth
          exact hforth.symm
        have hreplied : received probed = replyBytes getData dispatch connectionId state := by
          change Socket.port.gives served = port.takes probed ++ toFirst at hback
          change toFirst = [] at hnothing
          rw [hnothing, List.append_nil] at hback
          rw [Socket.Question.pending, List.append_nil, hreceived, replies_message hM hping] at hall
          · exact hback.symm.trans hall
          · intro bytes hbytes
            cases hbytes
        rw [hreplied] at hshort
        exact not_short_replyBytes hshort
      · have hpos : 0 < (toSecond.take want).length := by
          rw [List.length_take]
          have hlength := List.length_pos_iff.2 hempty
          have hwant : 0 < want := hsensible
          omega
        have hle : (toSecond.take want).length ≤ want := List.length_take_le _ _
        have h' : PingRun newFromData getData dispatch connectionId state rounds probed served
            ⟨x, .ask (.recv want) next, toFirst,
              Socket.port.taken ⟨.recv want, .data (toSecond.take want) hpos hle⟩ ++
                toSecond.drop want⟩ := by
          rwa [← List.take_append_drop want toSecond] at h
        exact ⟨_, _, rfl, rfl,
          PingRun.server_step (.recv want) (.data (toSecond.take want) hpos hle) h'⟩

/-- **The probe tells the truth about the server.**  It reports success only on a reply by which the
handler says so; without a failed call or a deadline that passes, its report is what the handler
says.  The two ends never wait for each other: until the probe has ended, one of them can go on. -/
theorem ping_exchange (hM : MeasuresDocuments newFromData)
    (hping : newFromData pingCommand = some pingDocument)
    (hread : newFromData (getData (pingReplied dispatch state)) = some (pingReplied dispatch state))
    (h : PingRun newFromData getData dispatch connectionId state rounds probed served s)
    (hprobed : probed.length < rounds) (hserved : served.length < rounds) :
    (∀ result, s.first = .done result → result = (!broken probed &&
      (isSuccessful (pingReplied dispatch state) &&
        decide ((replyBytes getData dispatch connectionId state).length ≤ 65536)))) ∧
      (broken probed = false → Socket.ended served = false →
        (∃ result, s.first = .done result) ∨
          Proceeds newFromData getData dispatch connectionId state rounds probed served) := by
  have hobeys := h.obeys
  constructor
  · intro result hdone
    rw [hdone] at hobeys
    obtain ⟨-, hbroken, hall⟩ := hobeys
    cases hprobe : broken probed with
    | true => exact hbroken hprobe
    | false =>
      obtain ⟨more, hmore⟩ := h.replied_prefix hM hping
      have hresult := (hall hprobe).2 more
      rw [hmore, succeeds_replyBytes hM hread] at hresult
      exact hresult.symm
  · intro hbroken hended
    obtain ⟨x, y, toFirst, toSecond⟩ := s
    cases x with
    | done result => exact .inl ⟨result, rfl⟩
    | fail e =>
      have htotal := hobeys.1
      omega
    | ask q next =>
      right
      cases q with
      | wait writing => exact .inl ⟨_, _, rfl, rfl, PingRun.probe_step (.wait writing) true h⟩
      | send bytes =>
        have hpos : 0 < bytes.length := hobeys.1.2.2
        exact .inl ⟨_, _, rfl, rfl,
          PingRun.probe_step (.send bytes) (.count bytes.length hpos (Nat.le_refl _)) h⟩
      | recv want =>
        obtain ⟨-, hsent, hwant, hshort⟩ := hobeys.1
        by_cases hempty : toFirst = []
        · exact .inr (h.server_proceeds hM hping hserved hended hsent hshort hempty)
        · have hpos : 0 < (toFirst.take want).length := by
            rw [List.length_take]
            have hlength := List.length_pos_iff.2 hempty
            omega
          have hle : (toFirst.take want).length ≤ want := List.length_take_le _ _
          have h' : PingRun newFromData getData dispatch connectionId state rounds probed served
              ⟨.ask (.recv want) next, y,
                port.taken ⟨.recv want, .data (toFirst.take want) hpos hle⟩ ++ toFirst.drop want,
                toSecond⟩ := by
            rwa [← List.take_append_drop want toFirst] at h
          exact .inl ⟨_, _, rfl, rfl,
            PingRun.probe_step (.recv want) (.data (toFirst.take want) hpos hle) h'⟩

end Reply

/-- A reader of the probe's message and of a reply to it. -/
def probeDocuments (bytes : List UInt8) : Option Doc :=
  if bytes = pingCommand then some pingDocument else pingDocuments bytes

/-- It measures what it reads. -/
lemma probeDocuments_measures : MeasuresDocuments probeDocuments := by
  intro bytes doc h
  unfold probeDocuments pingDocuments at h
  split at h
  · rename_i hbytes
    subst hbytes
    decide
  · split at h
    · rename_i hbytes
      subst hbytes
      decide
    · cases h

/-- The bytes of the reply to the probe. -/
def healthyReply : List UInt8 :=
  [38, 0, 0, 0, 1, 0, 0, 0, 50, 121, 6, 0, 221, 7, 0, 0, 0, 0, 0, 0, 0] ++ pingBytes

/-- A ping that goes out in two pieces, and whose message and reply are read in two. -/
theorem ping_exchange_healthy :
    ∃ (probed : Traffic) (served : Socket.Traffic) (s : PingLine),
      PingRun probeDocuments (fun _ => pingBytes) (fun _ state => (pingReply, state)) 1 () 20 probed
        served s ∧ s.first = .done true ∧ broken probed = false := by
  have hrun : ∃ (probed : Traffic) (served : Socket.Traffic) (s : PingLine),
      PingRun probeDocuments (fun _ => pingBytes) (fun _ state => (pingReply, state)) 1 () 20 probed
        served s ∧ s.first = .done true ∧ probed.length = 8 ∧ served.length = 4 := by
    have h₀ : PingRun probeDocuments (fun _ => pingBytes) (fun _ state => (pingReply, state)) 1 ()
      20 [] [] _ := Peers.Run.start
    have h₁ := PingRun.probe_step (.wait true) true h₀
    have h₂ := PingRun.probe_step (.send (request 30)) (.count 21 (by decide) (by decide)) h₁
    have h₃ := PingRun.probe_step (.wait true) true h₂
    have h₄ := PingRun.probe_step (.send pingCommand) (.count 30 (by decide) (by decide)) h₃
    -- the message is on its way
    have h₅ : PingRun probeDocuments (fun _ => pingBytes) (fun _ state => (pingReply, state)) 1 ()
      20 _ _ ⟨_, _, [], (message pingCommand).take 16 ++ (message pingCommand).drop 16⟩ :=
      PingRun.server_step .stopping false h₄
    have h₆ : PingRun probeDocuments (fun _ => pingBytes) (fun _ state => (pingReply, state)) 1 ()
      20 _ _ ⟨_, _, [], (message pingCommand).drop 16 ++ []⟩ :=
      PingRun.server_step (.recv 16)
        (.data ((message pingCommand).take 16) (by decide) (by decide)) h₅
    have h₇ := PingRun.server_step (.recv 35)
      (.data ((message pingCommand).drop 16) (by decide) (by decide)) h₆
    have h₈ := PingRun.server_step (.send healthyReply) (.count 38 (by decide)) h₇
    -- the reply is on its way
    have h₉ : PingRun probeDocuments (fun _ => pingBytes) (fun _ state => (pingReply, state)) 1 ()
      20 _ _ ⟨_, _, healthyReply.take 16 ++ healthyReply.drop 16, []⟩ :=
      PingRun.probe_step (.wait false) true h₈
    have h₁₀ : PingRun probeDocuments (fun _ => pingBytes) (fun _ state => (pingReply, state)) 1 ()
      20 _ _ ⟨_, _, healthyReply.drop 16 ++ [], []⟩ :=
      PingRun.probe_step (.recv 16) (.data (healthyReply.take 16) (by decide) (by decide)) h₉
    have h₁₁ := PingRun.probe_step (.wait false) true h₁₀
    have h₁₂ := PingRun.probe_step (.recv 22)
      (.data (healthyReply.drop 16) (by decide) (by decide)) h₁₁
    have hsuccess : (some pingReply).any isSuccessful = true := by decide +kernel
    exact ⟨_, _, _, h₁₂, congrArg Interaction.done hsuccess, rfl, rfl⟩
  obtain ⟨probed, served, s, hrun, hdone, hprobed, hserved⟩ := hrun
  have hresult := (ping_exchange probeDocuments_measures rfl rfl hrun (by omega) (by omega)).1 true
    hdone
  refine ⟨probed, served, s, hrun, hdone, ?_⟩
  cases hbroken : broken probed with
  | false => rfl
  | true =>
    rw [hbroken] at hresult
    cases hresult

end Health

end Chimera
