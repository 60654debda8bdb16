import Chimera.Plugin.Listener

/-!
# Replies and their decoders

A reply is written before its length is known, and the length is put in afterwards.  Two decoders
read what was written: the parser of requests, and the probe that tells whether a server is ready,
which looks for the parts of a reply at fixed places.  Both find the document that was encoded.
-/

namespace Chimera

/-! ## The encoder -/

/-- The bytes of `encode_reply`, with a placeholder for the length. -/
def unmeasuredReply (req : WireRequest) (requestId : Int32) (doc : List UInt8) : List UInt8 :=
  appendInt32 0 ++ (appendInt32 requestId ++ appendInt32 req.header.requestId ++
    (if req.legacyQuery = true then
      appendInt32 opReply ++ appendInt32 0 ++ appendInt64 0 ++ appendInt32 0 ++ appendInt32 1
    else appendInt32 opMsg ++ appendInt32 0 ++ [0]) ++ doc)

/-- The end of `encode_reply`: the length takes the place of the first four bytes. -/
def putLength (out : List UInt8) : List UInt8 :=
  let total := Int32.ofNat out.length
  (((out.set 0 total.toUInt32.toUInt8).set 1 (total >>> 8).toUInt32.toUInt8).set 2
    (total >>> 16).toUInt32.toUInt8).set 3 (total >>> 24).toUInt32.toUInt8

/-- The bytes of a number, which the shift of a signed number leaves as they are. -/
lemma appendInt32_eq (v : Int32) : appendInt32 v = [v.toUInt32.toUInt8,
    (v >>> 8).toUInt32.toUInt8, (v >>> 16).toUInt32.toUInt8, (v >>> 24).toUInt32.toUInt8] := by
  have hbyte (count : ℕ) (hcount : count ≤ 24) :
      (v.toBitVec >>> count).setWidth 8 = (v.toBitVec.sshiftRight count).setWidth 8 := by
    ext i hi
    have hlt : count + i < 32 := by omega
    have hin : ¬ 32 ≤ i := by omega
    rw [BitVec.getElem_setWidth, BitVec.getElem_setWidth, BitVec.getLsbD_ushiftRight,
      BitVec.getLsbD_sshiftRight, if_pos hlt, decide_eq_false hin, Bool.not_false, Bool.true_and]
  refine congrArg (v.toUInt32.toUInt8 :: ·) (congrArg₂ List.cons ?_ (congrArg₂ List.cons ?_
    (congrArg₂ List.cons ?_ rfl)))
  · exact UInt8.toBitVec_inj.1 (hbyte 8 (by omega))
  · exact UInt8.toBitVec_inj.1 (hbyte 16 (by omega))
  · exact UInt8.toBitVec_inj.1 (hbyte 24 (by omega))

/-- The length of a reply is put in when it is known. -/
theorem encodeReply_eq_putLength (req : WireRequest) (requestId : Int32) (doc : List UInt8) :
    encodeReply req requestId doc = putLength (unmeasuredReply req requestId doc) := by
  rw [encodeReply]
  generalize hhead : appendInt32 requestId ++ appendInt32 req.header.requestId ++ _ = head
  have hlength : (unmeasuredReply req requestId doc).length = 4 + (head ++ doc).length := by
    rw [← hhead, unmeasuredReply, List.length_append]
    rfl
  rw [putLength, hlength, appendInt32_eq, ← hhead]
  rfl

/-- A reply to an `OP_MSG`. -/
lemma encodeReply_opMsg {req : WireRequest} (hreq : req.legacyQuery = false) (requestId : Int32)
    (doc : List UInt8) : encodeReply req requestId doc =
      appendInt32 (Int32.ofNat (21 + doc.length)) ++ (appendInt32 requestId ++
        (appendInt32 req.header.requestId ++ (appendInt32 opMsg ++
          (appendInt32 0 ++ 0 :: doc)))) := by
  have hlength : 4 + (appendInt32 requestId ++ appendInt32 req.header.requestId ++
      (appendInt32 opMsg ++ appendInt32 0 ++ [0]) ++ doc).length = 21 + doc.length := by
    rw [List.length_append]
    change 4 + (17 + doc.length) = 21 + doc.length
    omega
  rw [encodeReply, if_neg (by rw [hreq]; exact Bool.false_ne_true), hlength]
  rfl

/-! ## The health probe -/

namespace Health

/-- `REQUEST_ID`. -/
def requestId : UInt32 := 424242

/-- `OP_MSG`. -/
def opMsg : UInt32 := 2013

/-- `MAX_REPLY`. -/
def maxReply : UInt32 := 65536

/-- `read_le32`. -/
def readLe32 (p : List UInt8) : UInt32 :=
  (p.getD 0 0).toUInt32 ||| (p.getD 1 0).toUInt32 <<< 8 ||| (p.getD 2 0).toUInt32 <<< 16 |||
    (p.getD 3 0).toUInt32 <<< 24

/-- The reply that `main` takes from a stream which ends when the peer closes: there is none when a
check fails on the header, the flags, the kind of the section or the length of the document. -/
def reply (initStatic : List UInt8 → Option Doc) (stream : List UInt8) : Option Doc :=
  let header := stream.take 16
  let length := readLe32 header
  if stream.length < 16 then none
  else if length < 26 ∨ maxReply < length ∨ readLe32 (header.drop 8) ≠ requestId ∨
      readLe32 (header.drop 12) ≠ opMsg then none
  else
    let bodyLength := length.toNat - 16
    let body := (stream.drop 16).take bodyLength
    if stream.length - 16 < bodyLength then none
    else if readLe32 body ≠ 0 ∨ body.getD 4 0 ≠ 0 ∨
        (readLe32 (body.drop 5)).toNat ≠ bodyLength - 5 then none
    else initStatic (body.drop 5)

/-- The reply says that the ping was successful. -/
def isSuccessful (reply : Doc) : Bool :=
  match findField reply "ok".toList with
  | some v => valueIsNumeric v && decide (valueAsDouble v = .ok (Binary64.ofInt 1))
  | none => false

/-- `main`, from the request on: it returns zero. -/
def succeeds (initStatic : List UInt8 → Option Doc) (stream : List UInt8) : Bool :=
  (reply initStatic stream).any isSuccessful

end Health

/-! ## Numbers -/

/-- A length that fits is read as it was written. -/
lemma toInt_ofNat {n : ℕ} (hn : n < 2 ^ 31) : (Int32.ofNat n).toInt = n :=
  Int32.toInt_ofNat_of_lt hn

/-- A number that is not negative is the same without a sign. -/
lemma toNat_toUInt32 {v : Int32} {n : ℕ} (h : v.toInt = n) (hn : n < 2 ^ 31) :
    v.toUInt32.toNat = n := by
  obtain rfl : v = Int32.ofNat n := Int32.toInt_inj.1 (h.trans (toInt_ofNat hn).symm)
  exact Nat.mod_eq_of_lt (by omega)

/-- The probe reads the bits of the number that the server reads. -/
lemma readLe32_eq (p : List UInt8) : Health.readLe32 p = (readInt32 p).toUInt32 := rfl

/-- It reads no more than four bytes. -/
lemma readLe32_append (v : Int32) (rest : List UInt8) :
    Health.readLe32 (appendInt32 v ++ rest) = v.toUInt32 := by
  have hbytes : Health.readLe32 (appendInt32 v ++ rest) = Health.readLe32 (appendInt32 v) := rfl
  rw [hbytes, readLe32_eq, readInt32_appendInt32]

/-! ## Decoding -/

section Decoding

variable {newFromData : List UInt8 → Option Doc} {req : WireRequest} {requestId : Int32}
  {data : List UInt8} {doc : Doc}

/-- The header of a reply. -/
lemma headerOf_encodeReply (hreq : req.legacyQuery = false) :
    headerOf (encodeReply req requestId data) =
      ⟨Int32.ofNat (21 + data.length), requestId, req.header.requestId, opMsg⟩ := by
  have htake (v : Int32) (rest : List UInt8) : (appendInt32 v ++ rest).take 4 = appendInt32 v := rfl
  have hdrop (v : Int32) (rest : List UInt8) : (appendInt32 v ++ rest).drop 4 = rest := rfl
  have hdrop8 (s : List UInt8) : s.drop 8 = (s.drop 4).drop 4 := by rw [List.drop_drop]
  have hdrop12 (s : List UInt8) : s.drop 12 = ((s.drop 4).drop 4).drop 4 := by
    rw [List.drop_drop, List.drop_drop]
  rw [encodeReply_opMsg hreq, headerOf, hdrop8, hdrop12]
  simp only [htake, hdrop, readInt32_appendInt32]

/-- What follows the header of a reply. -/
lemma drop_encodeReply (hreq : req.legacyQuery = false) :
    (encodeReply req requestId data).drop 16 = appendInt32 0 ++ 0 :: data := by
  rw [encodeReply_opMsg hreq]
  rfl

/-- The length of a reply. -/
lemma length_encodeReply (hreq : req.legacyQuery = false) :
    (encodeReply req requestId data).length = 21 + data.length := by
  rw [encodeReply_opMsg hreq]
  change data.length + 21 = 21 + data.length
  omega

/-- A reply is an `OP_MSG` of one section. -/
lemma isOpMsg_encodeReply (hreq : req.legacyQuery = false) (hdata : newFromData data = some doc) :
    IsOpMsg newFromData (encodeReply req requestId data) [.body doc] := by
  refine ⟨appendInt32 0, [], [0 :: data], ?_, rfl, ?_, ?_, .cons (.body hdata) .nil, rfl⟩
  · rw [headerBytes, drop_encodeReply hreq, List.flatten_singleton, List.append_nil]
  · intro i _ _
    rw [readInt32_appendInt32]
    exact Nat.zero_testBit i
  · rw [readInt32_appendInt32]
    rfl

/-- The parser finds the document in a reply. -/
lemma parseRequest_encodeReply (hM : MeasuresDocuments newFromData)
    (hreq : req.legacyQuery = false) (hdata : newFromData data = some doc) {rounds : ℕ}
    (hrounds : (encodeReply req requestId data).length ≤ rounds) :
    parseRequest newFromData rounds (encodeReply req requestId data) =
      .ok ⟨headerOf (encodeReply req requestId data), doc, databaseOfBody doc, false⟩ := by
  have hlength : (encodeReply req requestId data).length = 21 + data.length :=
    length_encodeReply hreq
  refine (parseRequest_ok_iff hM ?_ ?_ hrounds _).2
    ⟨[.body doc], doc, isOpMsg_encodeReply hreq hdata, rfl, ?_⟩
  · rw [hlength, headerBytes]
    omega
  · rw [headerOf_encodeReply hreq]
  · have hfields : doc ++ [WireSection.body doc].filterMap WireSection.field? = doc :=
      List.append_nil doc
    rw [requestOf, hfields]

/-- The probe finds the document in a reply that is not too long for it. -/
lemma reply_encodeReply (hM : MeasuresDocuments newFromData) (hreq : req.legacyQuery = false)
    (hdata : newFromData data = some doc)
    (hfits : (encodeReply req requestId data).length ≤ 65536)
    (hid : req.header.requestId.toUInt32 = Health.requestId) :
    Health.reply newFromData (encodeReply req requestId data) = some doc := by
  have hlength : (encodeReply req requestId data).length = 21 + data.length :=
    length_encodeReply hreq
  rw [hlength] at hfits
  obtain ⟨hfive, hmeasure⟩ := hM data doc hdata
  have htotal : (Int32.ofNat (21 + data.length)).toUInt32.toNat = 21 + data.length :=
    toNat_toUInt32 (toInt_ofNat (by omega)) (by omega)
  have hdocument : (Health.readLe32 data).toNat = data.length := by
    rw [readLe32_eq]
    exact toNat_toUInt32 hmeasure (by omega)
  have hheader : Health.readLe32 ((encodeReply req requestId data).take 16) =
        (Int32.ofNat (21 + data.length)).toUInt32 ∧
      Health.readLe32 (((encodeReply req requestId data).take 16).drop 8) = Health.requestId ∧
      Health.readLe32 (((encodeReply req requestId data).take 16).drop 12) = Health.opMsg := by
    have hread (v : Int32) : Health.readLe32 (appendInt32 v) = v.toUInt32 := by
      rw [readLe32_eq, readInt32_appendInt32]
    rw [encodeReply_opMsg hreq]
    refine ⟨readLe32_append _ _, ?_, hread opMsg⟩
    rw [← hid]
    exact readLe32_append req.header.requestId (appendInt32 opMsg)
  have hbody : (appendInt32 0 ++ 0 :: data).take (21 + data.length - 16) =
      appendInt32 0 ++ 0 :: data := by
    refine List.take_of_length_le ?_
    change data.length + 5 ≤ _
    omega
  rw [Health.reply]
  dsimp only
  rw [if_neg (by rw [hlength]; omega), hheader.1, hheader.2.1, hheader.2.2, if_neg ?_, htotal,
    drop_encodeReply hreq, hbody, if_neg (by rw [hlength]; omega), if_neg ?_]
  · exact hdata
  · rintro (h | h | h)
    · exact h (readLe32_append 0 _)
    · exact h rfl
    · refine h ?_
      change (Health.readLe32 data).toNat = _
      rw [hdocument]
      omega
  · rintro (h | h | h | h)
    · rw [UInt32.lt_iff_toNat_lt, htotal] at h
      change 21 + data.length < 26 at h
      omega
    · rw [UInt32.lt_iff_toNat_lt, htotal] at h
      change 65536 < 21 + data.length at h
      omega
    · exact h rfl
    · exact h rfl

/-- **Replies decode to what was encoded**: a reply to an `OP_MSG` says its length and the request
that it answers, and the parser finds the document in it; so does the probe, in the reply to its
ping, if it is not too long for it, and succeeds if the document says that the ping did. -/
theorem reply_decodes (hM : MeasuresDocuments newFromData) (hreq : req.legacyQuery = false)
    (requestId : Int32) (hdata : newFromData data = some doc)
    (hfits : (encodeReply req requestId data).length < 2 ^ 31) :
    (headerOf (encodeReply req requestId data)).messageLength.toInt =
        (encodeReply req requestId data).length ∧
      (headerOf (encodeReply req requestId data)).responseTo = req.header.requestId ∧
      (∀ rounds, (encodeReply req requestId data).length ≤ rounds →
        parseRequest newFromData rounds (encodeReply req requestId data) =
          .ok ⟨headerOf (encodeReply req requestId data), doc, databaseOfBody doc, false⟩) ∧
      ((encodeReply req requestId data).length ≤ 65536 →
        req.header.requestId.toUInt32 = Health.requestId →
          Health.reply newFromData (encodeReply req requestId data) = some doc ∧
            (Health.isSuccessful doc = true →
              Health.succeeds newFromData (encodeReply req requestId data) = true)) := by
  refine ⟨?_, responseTo_encodeReply req requestId data,
    fun rounds hrounds => parseRequest_encodeReply hM hreq hdata hrounds, fun hshort hid => ?_⟩
  · have hlength : (encodeReply req requestId data).length = 21 + data.length :=
      length_encodeReply hreq
    rw [hlength] at hfits ⊢
    rw [headerOf_encodeReply hreq]
    exact toInt_ofNat hfits
  · have hreply := reply_encodeReply hM hreq hdata hshort hid
    refine ⟨hreply, fun hsuccess => ?_⟩
    rw [Health.succeeds, hreply]
    exact hsuccess

end Decoding

/-- The bytes of a document that says that a ping was successful. -/
def pingBytes : List UInt8 := [17, 0, 0, 0, 1, 111, 107, 0, 0, 0, 0, 0, 0, 0, 240, 63, 0]

/-- The document. -/
def pingReply : Doc := [("ok".toList, .double ⟨0x3FF0000000000000⟩)]

/-- A reader of that document only. -/
def pingDocuments (bytes : List UInt8) : Option Doc :=
  if bytes = pingBytes then some pingReply else none

/-- The probe succeeds on the server's reply to its ping. -/
theorem reply_decodes_ping :
    Health.succeeds pingDocuments
      ([38, 0, 0, 0, 255, 255, 255, 255, 50, 121, 6, 0, 221, 7, 0, 0, 0, 0, 0, 0, 0] ++
        pingBytes) = true := by
  have hM : MeasuresDocuments pingDocuments := by
    intro bytes doc h
    unfold pingDocuments at h
    split at h
    · next hbytes =>
      subst hbytes
      decide
    · cases h
  have hsuccess : Health.isSuccessful pingReply = true := by decide +kernel
  obtain ⟨-, -, -, hprobe⟩ := @reply_decodes pingDocuments
    ⟨⟨0, 424242, 0, opMsg⟩, [], [], false⟩ pingBytes pingReply hM rfl (-1) (if_pos rfl) (by decide)
  exact (hprobe (by decide) rfl).2 hsuccess

end Chimera
