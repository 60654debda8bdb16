import Chimera.Translator.Pipeline

/-!
# The options of a change stream

The options of a `$changeStream` stage are read in one pass, which carries from field to field where
the stream begins.  What comes out does not depend on the order: every field must be an option that
can be served, and at most one of them says where to begin.
-/

namespace Chimera

/-! ## Fields one by one -/

/-- The field is an option that is served, and says where the stream begins, or says nothing about
that. -/
inductive Serves : Text × Value → Option ChangeStreamStart → Prop where
  | fullDocument {mode : Text} (h : mode ∈ fullDocumentModes) :
    Serves ("fullDocument".toList, .utf8 mode) none
  | beforeChange {mode : Text} (h : mode = "off".toList ∨ mode = "whenAvailable".toList) :
    Serves ("fullDocumentBeforeChange".toList, .utf8 mode) none
  | token {key : Text} {token : Doc} {seq : ℕ}
    (hkey : key = "resumeAfter".toList ∨ key = "startAfter".toList)
    (h : decodeResumeToken token = .ok seq) : Serves (key, .document token) (some (.token seq))
  | operationTime (t i : UInt32) : Serves ("startAtOperationTime".toList, .timestamp t i)
    (some (.operationTime ⟨t.toNat, i.toNat⟩))
  | switch {key : Text}
    (hkey : key = "allChangesForCluster".toList ∨ key = "showExpandedEvents".toList) :
    Serves (key, .bool false) none

/-- The names of the options that say where the stream begins. -/
def originNames : List Text :=
  ["resumeAfter", "startAfter", "startAtOperationTime"].map String.toList

/-- The field says where the stream begins. -/
def isOrigin (field : Text × Value) : Bool := originNames.contains field.1

section Fields

variable {start result : ChangeStreamStart} {field : Text × Value}
  {origin : Option ChangeStreamStart}

/-- An option that is served says where the stream begins if that is what it is for. -/
lemma Serves.isOrigin_eq (h : Serves field origin) : isOrigin field = origin.isSome := by
  cases h with
  | fullDocument _ => rfl
  | beforeChange _ => rfl
  | token hkey _ => rcases hkey with rfl | rfl <;> rfl
  | operationTime t i => rfl
  | switch hkey => rcases hkey with rfl | rfl <;> rfl

/-- No option makes the stream begin anew at the head. -/
lemma Serves.ne_head (h : Serves field (some start)) : start ≠ .head := by
  cases h with
  | token _ _ => exact ChangeStreamStart.noConfusion
  | operationTime t i => exact ChangeStreamStart.noConfusion

/-- The pass goes on behind an option that says nothing about where to begin. -/
lemma Serves.parse_none (h : Serves field none) (rest : Doc) :
    parseChangeStream start (field :: rest) = parseChangeStream start rest := by
  rw [parseChangeStream.eq_def]
  cases h with
  | fullDocument hmode =>
    have hread : ∀ mode ∈ fullDocumentModes, readFullDocument (.utf8 mode) = .ok () :=
      fun mode h => if_pos (List.contains_iff_mem.2 h)
    dsimp only
    rw [if_pos rfl, hread _ hmode]
    rfl
  | beforeChange hmode =>
    have hread : ∀ mode, mode = "off".toList ∨ mode = "whenAvailable".toList →
        readBeforeChange (.utf8 mode) = .ok () := fun mode h => if_pos h
    dsimp only
    rw [if_neg (by decide), if_pos rfl, hread _ hmode]
    rfl
  | switch hkey =>
    dsimp only
    rcases hkey with rfl | rfl
    · rw [if_neg (by decide), if_neg (by decide), if_neg (by decide), if_neg (by decide),
        if_pos (.inl rfl)]
      rfl
    · rw [if_neg (by decide), if_neg (by decide), if_neg (by decide), if_neg (by decide),
        if_pos (.inr rfl)]
      rfl

/-- What the pass makes of an option that says where to begin. -/
lemma Serves.parse_some {start' : ChangeStreamStart} (h : Serves field (some start')) (rest : Doc) :
    parseChangeStream start (field :: rest) =
      (rejectSecondOrigin start field.1 >>= fun _ => parseChangeStream start' rest) := by
  rw [parseChangeStream.eq_def]
  cases h with
  | token hkey hdecode =>
    dsimp only
    rcases hkey with rfl | rfl
    · rw [if_neg (by decide), if_neg (by decide), if_pos (.inl rfl), hdecode]
      rfl
    · rw [if_neg (by decide), if_neg (by decide), if_pos (.inr rfl), hdecode]
      rfl
  | operationTime t i =>
    dsimp only
    rw [if_neg (by decide), if_neg (by decide), if_neg (by decide), if_pos rfl]

/-- What `fullDocument` takes. -/
lemma readFullDocument_ok {value : Value} (h : readFullDocument value = .ok ()) :
    ∃ mode ∈ fullDocumentModes, value = .utf8 mode := by
  cases value with
  | utf8 mode =>
    rw [readFullDocument] at h
    split at h
    · next hmode => exact ⟨mode, List.contains_iff_mem.1 hmode, rfl⟩
    · cases h
  | _ => cases h

/-- What `fullDocumentBeforeChange` takes. -/
lemma readBeforeChange_ok {value : Value} (h : readBeforeChange value = .ok ()) :
    ∃ mode, (mode = "off".toList ∨ mode = "whenAvailable".toList) ∧ value = .utf8 mode := by
  cases value with
  | utf8 mode =>
    rw [readBeforeChange] at h
    split at h
    · next hmode => exact ⟨mode, hmode, rfl⟩
    · split at h <;> cases h
  | _ => cases h

/-- What a switch takes. -/
lemma rejectIfRequested_ok {key : Text} {value : Value} (h : rejectIfRequested key value = .ok ()) :
    value = .bool false := by
  cases value with
  | bool b =>
    cases b with
    | false => rfl
    | true => cases h
  | _ => cases h

/-- A step that is taken before others has succeeded when they have. -/
lemma ok_of_bind {α : Type} {x : Except TranslatorError Unit} {f : Unit → Except TranslatorError α}
    {a : α} (h : (x >>= f) = .ok a) : x = .ok () ∧ f () = .ok a := by
  cases x with
  | error e => cases h
  | ok u => exact ⟨rfl, h⟩

/-- A field that the pass takes is an option that is served. -/
lemma exists_serves {rest : Doc} (h : parseChangeStream start (field :: rest) = .ok result) :
    ∃ origin, Serves field origin := by
  obtain ⟨key, value⟩ := field
  rw [parseChangeStream.eq_def] at h
  dsimp only at h
  by_cases h1 : key = "fullDocument".toList
  · rw [if_pos h1] at h
    obtain ⟨mode, hmode, rfl⟩ := readFullDocument_ok (ok_of_bind h).1
    exact ⟨none, h1 ▸ .fullDocument hmode⟩
  rw [if_neg h1] at h
  by_cases h2 : key = "fullDocumentBeforeChange".toList
  · rw [if_pos h2] at h
    obtain ⟨mode, hmode, rfl⟩ := readBeforeChange_ok (ok_of_bind h).1
    exact ⟨none, h2 ▸ .beforeChange hmode⟩
  rw [if_neg h2] at h
  by_cases h3 : key = "resumeAfter".toList ∨ key = "startAfter".toList
  · rw [if_pos h3] at h
    have hvalue := (ok_of_bind h).2
    cases value with
    | document token =>
      dsimp only at hvalue
      cases hdecode : decodeResumeToken token with
      | error e =>
        rw [hdecode] at hvalue
        cases hvalue
      | ok seq => exact ⟨_, .token h3 hdecode⟩
    | _ => cases hvalue
  rw [if_neg h3] at h
  by_cases h4 : key = "startAtOperationTime".toList
  · rw [if_pos h4] at h
    have hvalue := (ok_of_bind h).2
    cases value with
    | timestamp t i => exact ⟨some (.operationTime ⟨t.toNat, i.toNat⟩), h4 ▸ .operationTime t i⟩
    | _ => cases hvalue
  rw [if_neg h4] at h
  by_cases h5 : key = "allChangesForCluster".toList ∨ key = "showExpandedEvents".toList
  · rw [if_pos h5] at h
    obtain rfl := rejectIfRequested_ok (ok_of_bind h).1
    exact ⟨none, .switch h5⟩
  rw [if_neg h5] at h
  cases h

end Fields

/-! ## The whole pass -/

section Pass

variable {start result : ChangeStreamStart} {options options' : Doc}

/-- Once it is said where to begin, no other option may say so. -/
lemma parse_started_iff (hstart : start ≠ .head) : parseChangeStream start options = .ok result ↔
    (∀ field ∈ options, Serves field none) ∧ result = start := by
  induction options with
  | nil =>
    rw [parseChangeStream, and_iff_right (List.forall_mem_nil _)]
    exact ⟨fun h => (Except.ok.inj h).symm, fun h => congrArg Except.ok h.symm⟩
  | cons field rest ih =>
    rw [List.forall_mem_cons, and_assoc, ← ih]
    constructor
    · intro h
      obtain ⟨origin, hserves⟩ := exists_serves h
      cases origin with
      | none => exact ⟨hserves, hserves.parse_none rest ▸ h⟩
      | some start' =>
        rw [hserves.parse_some, rejectSecondOrigin, if_neg hstart] at h
        cases h
    · rintro ⟨hserves, h⟩
      rwa [hserves.parse_none]

/-- The options are served, and say where the stream begins or, if none does, leave it at the
head. -/
inductive BeginsAt (options : Doc) (result : ChangeStreamStart) : Prop where
  | head (h : ∀ field ∈ options, Serves field none) (hresult : result = .head)
  | origin (before after : Doc) (field : Text × Value) (hsplit : options = before ++ field :: after)
    (h : ∀ other ∈ before ++ after, Serves other none) (hfield : Serves field (some result))

/-- The pass takes the options that are served, with one origin at most. -/
theorem parseChangeStream_iff :
    parseChangeStream .head options = .ok result ↔ BeginsAt options result := by
  induction options with
  | nil =>
    constructor
    · intro h
      exact .head (List.forall_mem_nil _) (Except.ok.inj h).symm
    · intro h
      cases h with
      | head _ hresult => exact congrArg Except.ok hresult.symm
      | origin before after field hsplit _ _ => exact absurd hsplit.symm (by simp)
  | cons field rest ih =>
    constructor
    · intro h
      obtain ⟨origin, hserves⟩ := exists_serves h
      cases origin with
      | none =>
        rw [hserves.parse_none, ih] at h
        cases h with
        | head h hresult => exact .head (List.forall_mem_cons.2 ⟨hserves, h⟩) hresult
        | origin before after other hsplit h hother =>
          exact .origin (field :: before) after other (congrArg (field :: ·) hsplit)
            (List.forall_mem_cons.2 ⟨hserves, h⟩) hother
      | some start =>
        rw [hserves.parse_some, rejectSecondOrigin, if_pos rfl] at h
        obtain ⟨hrest, rfl⟩ := (parse_started_iff hserves.ne_head).1 h
        exact .origin [] rest field rfl hrest hserves
    · intro h
      cases h with
      | head h hresult =>
        obtain ⟨hserves, hrest⟩ := List.forall_mem_cons.1 h
        rw [hserves.parse_none, ih]
        exact .head hrest hresult
      | origin before after other hsplit h hother =>
        cases before with
        | nil =>
          obtain ⟨rfl, rfl⟩ := List.cons.inj hsplit
          rw [hother.parse_some, rejectSecondOrigin, if_pos rfl]
          exact (parse_started_iff hother.ne_head).2 ⟨h, rfl⟩
        | cons first before =>
          obtain ⟨rfl, rfl⟩ := List.cons.inj hsplit
          obtain ⟨hserves, hrest⟩ := List.forall_mem_cons.1 h
          rw [hserves.parse_none, ih]
          exact .origin before after other rfl hrest hother

/-- Options that say nothing about where to begin are no origins. -/
lemma filter_isOrigin_eq_nil (h : ∀ field ∈ options, Serves field none) :
    options.filter isOrigin = [] :=
  List.filter_eq_nil_iff.2 fun field hfield => by
    rw [(h field hfield).isOrigin_eq]
    exact Bool.false_ne_true

/-- The origins of options that the pass takes. -/
lemma BeginsAt.filter (h : BeginsAt options result) :
    options.filter isOrigin = [] ∧ result = .head ∨
      ∃ field, options.filter isOrigin = [field] ∧ Serves field (some result) := by
  cases h with
  | head h hresult => exact .inl ⟨filter_isOrigin_eq_nil h, hresult⟩
  | origin before after field hsplit h hfield =>
    obtain ⟨hbefore, hafter⟩ := List.forall_mem_append.1 h
    refine .inr ⟨field, ?_, hfield⟩
    rw [hsplit, List.filter_append, List.filter_cons_of_pos hfield.isOrigin_eq,
      filter_isOrigin_eq_nil hbefore, filter_isOrigin_eq_nil hafter, List.nil_append]

/-- Options that are served begin somewhere when there is one origin at most. -/
lemma exists_beginsAt (h : ∀ field ∈ options, ∃ origin, Serves field origin)
    (horigins : (options.filter isOrigin).length ≤ 1) : ∃ result, BeginsAt options result := by
  have hnone {field : Text × Value} (hfield : field ∈ options) (horigin : isOrigin field = false) :
      Serves field none := by
    obtain ⟨origin, hserves⟩ := h field hfield
    rw [hserves.isOrigin_eq, Option.isSome_eq_false_iff, Option.isNone_iff_eq_none] at horigin
    exact horigin ▸ hserves
  by_cases hall : ∃ field ∈ options, isOrigin field = true
  · obtain ⟨field, hfield, horigin⟩ := hall
    obtain ⟨origin, hserves⟩ := h field hfield
    rw [hserves.isOrigin_eq] at horigin
    obtain ⟨result, rfl⟩ := Option.isSome_iff_exists.1 horigin
    obtain ⟨before, after, hsplit⟩ := List.append_of_mem hfield
    rw [hsplit, List.filter_append, List.filter_cons_of_pos hserves.isOrigin_eq,
      List.length_append, List.length_cons] at horigins
    have hothers : (before ++ after).filter isOrigin = [] := by
      rw [List.filter_append, ← List.length_eq_zero_iff, List.length_append]
      omega
    refine ⟨result, .origin before after field hsplit (fun other hother => ?_) hserves⟩
    refine hnone ?_ (Bool.not_eq_true _ ▸ List.filter_eq_nil_iff.1 hothers other hother)
    rw [hsplit]
    rcases List.mem_append.1 hother with hother | hother
    · exact List.mem_append_left _ hother
    · exact List.mem_append_right _ (List.mem_cons_of_mem _ hother)
  · exact ⟨.head, .head (fun field hfield => hnone hfield
      (Bool.not_eq_true _ ▸ fun horigin => hall ⟨field, hfield, horigin⟩)) rfl⟩

/-- Where they begin does not depend on the order. -/
lemma BeginsAt.perm (h : BeginsAt options result) (hperm : options.Perm options') :
    BeginsAt options' result := by
  cases h with
  | head h hresult => exact .head (fun field hfield => h field (hperm.mem_iff.2 hfield)) hresult
  | origin before after field hsplit h hfield =>
    have hmem : field ∈ options' := by
      rw [← hperm.mem_iff, hsplit]
      exact List.mem_append_right _ List.mem_cons_self
    obtain ⟨before', after', hsplit'⟩ := List.append_of_mem hmem
    have hothers : (before ++ after).Perm (before' ++ after') := by
      rw [hsplit, hsplit'] at hperm
      exact (List.perm_middle.symm.trans (hperm.trans List.perm_middle)).cons_inv
    exact .origin before' after' field hsplit' (fun other hother => h other
      (hothers.mem_iff.2 hother)) hfield

end Pass

/-- **Order never matters and nothing is dropped**: the options are taken if and only if each is
served and one of them at most says where to begin; this one alone, or the head, is what comes out;
and the same comes out in every order. -/
theorem parse_change_stream_options (options : Doc) :
    ((∃ start, parseChangeStream .head options = .ok start) ↔
      (∀ field ∈ options, ∃ origin, Serves field origin) ∧
        (options.filter isOrigin).length ≤ 1) ∧
    (∀ start, parseChangeStream .head options = .ok start →
      options.filter isOrigin = [] ∧ start = .head ∨
        ∃ field, options.filter isOrigin = [field] ∧ Serves field (some start)) ∧
    ∀ options', options.Perm options' → ∀ start,
      parseChangeStream .head options = .ok start ↔
        parseChangeStream .head options' = .ok start := by
  refine ⟨⟨fun h => ?_, fun h => ?_⟩, fun start h => (parseChangeStream_iff.1 h).filter,
    fun options' hperm start => ?_⟩
  · obtain ⟨start, h⟩ := h
    rw [parseChangeStream_iff] at h
    refine ⟨fun field hfield => ?_, ?_⟩
    · cases h with
      | head h _ => exact ⟨none, h field hfield⟩
      | origin before after other hsplit h hother =>
        rw [hsplit, List.mem_append, List.mem_cons] at hfield
        rcases hfield with hfield | rfl | hfield
        · exact ⟨none, h field (List.mem_append_left _ hfield)⟩
        · exact ⟨_, hother⟩
        · exact ⟨none, h field (List.mem_append_right _ hfield)⟩
    · rcases h.filter with ⟨hfilter, -⟩ | ⟨other, hfilter, -⟩
      · rw [hfilter]
        exact Nat.zero_le 1
      · rw [hfilter]
        exact le_refl 1
  · obtain ⟨start, hstart⟩ := exists_beginsAt h.1 h.2
    exact ⟨start, parseChangeStream_iff.2 hstart⟩
  · rw [parseChangeStream_iff, parseChangeStream_iff]
    exact ⟨fun h => h.perm hperm, fun h => h.perm hperm.symm⟩

/-- A token behind the mode of the documents, or in front of it. -/
theorem parse_change_stream_options_swapped :
    parseChangeStream .head [("fullDocument".toList, .utf8 "updateLookup".toList),
      ("startAfter".toList, .document [("_data".toList, .utf8 "000000000000002a".toList)])] =
        .ok (.token 42) := by
  refine ((parse_change_stream_options _).2.2 [_, _] (.swap _ _ []) _).2 ?_
  decide +kernel

end Chimera
