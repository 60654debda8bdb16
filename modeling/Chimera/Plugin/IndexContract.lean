import Chimera.Foundations.Representatives
import Chimera.Plugin.IndexCreation
import Chimera.Plugin.Reselection

/-!
# What a successful `createIndexes` means

After a reply that reports success, the indexes of the request should be listed as they were asked
for.  The code skips an index whose name is listed, whatever the listed index looks like, and the
names are compared by the collation of the catalog.  Here is the exact condition, on the request
and on the state it finds, under which the command keeps what a client reads into its reply.
-/

namespace Chimera

open Interaction

/-- The index that every collection has. -/
def idIndex : IndexSpec := ⟨"_id_".toList, [(idName, 1)], false⟩

/-- The specifications of a request, as far as they can be read. -/
def requested (entries : List Value) : List IndexSpec :=
  entries.filterMap fun v => (parseIndex v).toOption

/-! ## Names in use -/

namespace SchemaServer

variable (S : SchemaServer) (L : Libbson) (ns : Namespace)

/-- A row of the catalog has the name. -/
def inUse (catalog : List IndexRow) (name : Text) : Bool := catalog.any (S.isEntry ns name)

/-- The catalog takes the names for one. -/
def sameName (x y : IndexSpec) : Bool := decide (S.fold x.name = S.fold y.name)

/-- The specifications whose name is new: no row has it, and none before has it. -/
def fresh (catalog : List IndexRow) (specs : List IndexSpec) : List IndexSpec :=
  Representatives.added S.sameName [] (specs.filter fun spec => !S.inUse ns catalog spec.name)

end SchemaServer

/-- What is read from a row. -/
def IndexRow.decode (L : Libbson) (row : IndexRow) : Except TranslatorError IndexSpec :=
  decodeIndex L (row.name, row.keySpec, row.unique)

/-- A specification after it has been written to the catalog and read. -/
def IndexSpec.stored (L : Libbson) (spec : IndexSpec) : Except TranslatorError IndexSpec := do
  let json ← L.toExtjson spec.keyDocument
  decodeIndex L (spec.name, json, spec.unique)

/-- The row registers the index. -/
structure Registers (L : Libbson) (ns : Namespace) (spec : IndexSpec) (row : IndexRow) : Prop where
  /-- The collection. -/
  ns_eq : row.ns = ns
  /-- The name. -/
  name_eq : row.name = spec.name
  /-- The keys. -/
  keySpec_eq : L.toExtjson spec.keyDocument = .ok row.keySpec
  /-- The uniqueness. -/
  unique_eq : row.unique = spec.unique

/-! ## The loop -/

section Loop

variable {S : SchemaServer} {L : Libbson} {ns : Namespace} {spec : IndexSpec} {row : IndexRow}
  {catalog : List IndexRow} {specs : List IndexSpec} {p p' : IndexState}

/-- The row of an index reads as the index that is stored. -/
lemma Registers.decode (h : Registers L ns spec row) : row.decode L = spec.stored L := by
  rw [IndexRow.decode, IndexSpec.stored, h.keySpec_eq, h.name_eq, h.unique_eq]
  rfl

/-- There is only one such row. -/
lemma Registers.eq {row' : IndexRow} (h : Registers L ns spec row) (h' : Registers L ns spec row') :
    row = row' := by
  have hkeys := Except.ok.inj (h.keySpec_eq.symm.trans h'.keySpec_eq)
  have hns := h.ns_eq.trans h'.ns_eq.symm
  have hname := h.name_eq.trans h'.name_eq.symm
  have hunique := h.unique_eq.trans h'.unique_eq.symm
  cases row
  cases row'
  congr

/-- What a row of the collection is an entry of. -/
lemma isEntry_of_ns (hns : row.ns = ns) (name : Text) :
    S.isEntry ns name row = decide (S.fold row.name = S.fold name) := by
  rw [SchemaServer.isEntry, SchemaServer.about, SchemaServer.within, hns]
  simp

/-- A name is in use when it was, or the new row has it. -/
lemma inUse_append_row (hns : row.ns = ns) (name : Text) :
    S.inUse ns (catalog ++ [row]) name =
      (S.inUse ns catalog name || decide (S.fold row.name = S.fold name)) := by
  rw [SchemaServer.inUse, SchemaServer.inUse, List.any_append, List.any_cons, List.any_nil,
    Bool.or_false, isEntry_of_ns hns]

/-- A specification whose name is in use is not new. -/
lemma fresh_cons_of_inUse (h : S.inUse ns catalog spec.name = true) :
    S.fresh ns catalog (spec :: specs) = S.fresh ns catalog specs := by
  have hspec : ¬ (!S.inUse ns catalog spec.name) = true := by simpa using h
  have hfilter : ((spec :: specs).filter fun spec => !S.inUse ns catalog spec.name) =
      specs.filter fun spec => !S.inUse ns catalog spec.name := List.filter_cons_of_neg hspec
  rw [SchemaServer.fresh, hfilter]
  rfl

/-- A specification whose name is not in use is new, and its row takes the name. -/
lemma fresh_cons_of_not_inUse (h : S.inUse ns catalog spec.name = false)
    (hns : row.ns = ns) (hname : row.name = spec.name) :
    S.fresh ns catalog (spec :: specs) = spec :: S.fresh ns (catalog ++ [row]) specs := by
  have hspec : (!S.inUse ns catalog spec.name) = true := by simpa using h
  have hfilter : ((spec :: specs).filter fun spec => !S.inUse ns catalog spec.name) =
      spec :: specs.filter fun spec => !S.inUse ns catalog spec.name :=
    List.filter_cons_of_pos hspec
  have hnil : ¬ ∃ x ∈ ([] : List IndexSpec), S.sameName x spec = true := by simp
  rw [SchemaServer.fresh, hfilter, Representatives.added_cons_of_not_found hnil,
    List.nil_append, ← List.append_nil [spec], Representatives.added_append_eq_filter,
    List.filter_filter, SchemaServer.fresh]
  refine congrArg (fun l => spec :: Representatives.added S.sameName [] l)
    (List.filter_congr fun other _ => ?_)
  rw [inUse_append_row hns, hname, List.any_cons, List.any_nil, Bool.or_false, Bool.not_or,
    Bool.and_comm, SchemaServer.sameName]

/-- A specification whose name is not in use is new. -/
lemma exists_fresh_cons (specs : List IndexSpec)
    (h : S.inUse ns catalog spec.name = false) :
    ∃ rest, S.fresh ns catalog (spec :: specs) = spec :: rest := by
  have hrow : (IndexRow.mk ns spec.name .null false).ns = ns := rfl
  exact ⟨_, fresh_cons_of_not_inUse h hrow rfl⟩

/-- A row whose name is new is added to the others. -/
lemma put_of_not_inUse (h : S.inUse ns catalog row.name = false) (hns : row.ns = ns) :
    S.put row catalog = catalog ++ [row] := by
  have hfilter : (catalog.filter fun other => !S.isEntry row.ns row.name other) = catalog := by
    refine List.filter_eq_self.2 fun other hother => ?_
    have := List.any_eq_false.1 h other hother
    rw [hns]
    simpa using this
  rw [SchemaServer.put, hfilter]

/-- The index cannot be added: a key is not a path, or the server refuses the index. -/
def SchemaServer.hinders (S : SchemaServer) (ns : Namespace) (indexes : List IndexSpec)
    (spec : IndexSpec) : Bool :=
  !spec.paths.toBool || S.blocks ns indexes spec

/-- The entry can be read, and the specification is checked. -/
def Valid (v : Value) : Prop := ∃ spec, parseIndex v = .ok spec ∧ spec.check = .ok ()

/-- The entry is passed over: its name is in use. -/
def SchemaServer.Skips (S : SchemaServer) (ns : Namespace) (catalog : List IndexRow) (v : Value) :
    Prop :=
  ∃ spec, parseIndex v = .ok spec ∧ spec.check = .ok () ∧ S.inUse ns catalog spec.name = true

/-- The entry is refused: it is not valid, or it is new and cannot be added. -/
def SchemaServer.Refuses (S : SchemaServer) (ns : Namespace) (p : IndexState) (v : Value) : Prop :=
  ∀ spec, parseIndex v = .ok spec → spec.check = .ok () →
    S.inUse ns p.catalog spec.name = false ∧ S.hinders ns p.indexes spec = true

/-- The entry is a new index, and it can be added. -/
structure SchemaServer.Adds (S : SchemaServer) (ns : Namespace) (p : IndexState) (v : Value)
    (spec : IndexSpec) : Prop where
  /-- The entry can be read. -/
  parse : parseIndex v = .ok spec
  /-- The specification is checked. -/
  check : spec.check = .ok ()
  /-- The name is new. -/
  free : S.inUse ns p.catalog spec.name = false
  /-- The index can be added. -/
  unhindered : S.hinders ns p.indexes spec = false

/-- **One entry.**  It is passed over, or it is refused, or an index is added; then the index is
registered, unless its keys cannot be written. -/
lemma createOne_cases (S : SchemaServer) (L : Libbson) (ns : Namespace) (v : Value)
    (p : IndexState) :
    (S.Skips ns p.catalog v ∧ S.createOne L ns v p = (.ok (), p)) ∨
    (S.Refuses ns p v ∧ ∃ e, S.createOne L ns v p = (.error e, p)) ∨
    ∃ spec, S.Adds ns p v spec ∧
      ((∃ e, L.toExtjson spec.keyDocument = .error e ∧
          S.createOne L ns v p = (.error e, { p with indexes := p.indexes ++ [spec] })) ∨
        ∃ row, Registers L ns spec row ∧
          S.createOne L ns v p = (.ok (), ⟨p.indexes ++ [spec], p.catalog ++ [row]⟩)) := by
  rw [SchemaServer.createOne]
  cases hparse : parseIndex v with
  | error e =>
    refine .inr (.inl ⟨fun spec hspec => ?_, e, rfl⟩)
    rw [hparse] at hspec
    cases hspec
  | ok spec =>
    dsimp only
    rw [SchemaServer.createSpec]
    cases hcheck : spec.check with
    | error e =>
      refine .inr (.inl ⟨fun spec' hspec hcheck' => ?_, e, rfl⟩)
      obtain rfl := Except.ok.inj (hparse.symm.trans hspec)
      rw [hcheck] at hcheck'
      cases hcheck'
    | ok _ =>
      dsimp only
      cases huse : S.inUse ns p.catalog spec.name with
      | true =>
        have hany : p.catalog.any (S.isEntry ns spec.name) = true := huse
        rw [if_pos hany]
        exact .inl ⟨⟨spec, hparse, hcheck, huse⟩, rfl⟩
      | false =>
        have hany : ¬ p.catalog.any (S.isEntry ns spec.name) = true :=
          fun hany => absurd (huse.symm.trans hany) (by simp)
        rw [if_neg hany]
        have hrefused (h : S.hinders ns p.indexes spec = true) : S.Refuses ns p v := by
          intro spec' hspec _
          obtain rfl := Except.ok.inj (hparse.symm.trans hspec)
          exact ⟨huse, h⟩
        cases hpaths : spec.paths with
        | error e =>
          have hhinders : S.hinders ns p.indexes spec = true := by
            rw [SchemaServer.hinders, hpaths]
            rfl
          exact .inr (.inl ⟨hrefused hhinders, e, rfl⟩)
        | ok paths =>
          have hhinders : S.hinders ns p.indexes spec = S.blocks ns p.indexes spec := by
            rw [SchemaServer.hinders, hpaths]
            rfl
          dsimp only
          cases hblocks : S.blocks ns p.indexes spec with
          | true => exact .inr (.inl ⟨hrefused (hhinders.trans hblocks), _, rfl⟩)
          | false =>
            refine .inr (.inr ⟨spec, ⟨hparse, hcheck, huse, hhinders.trans hblocks⟩, ?_⟩)
            cases hjson : L.toExtjson spec.keyDocument with
            | error e => exact .inl ⟨e, rfl, rfl⟩
            | ok json =>
              have hput : S.put ⟨ns, spec.name, json, spec.unique⟩ p.catalog =
                  p.catalog ++ [⟨ns, spec.name, json, spec.unique⟩] := put_of_not_inUse huse rfl
              exact .inr ⟨_, ⟨rfl, rfl, hjson, rfl⟩, by rw [← hput]; rfl⟩

/-- The first of the specifications can be read, and so on. -/
lemma requested_cons {v : Value} {rest : List Value} (h : parseIndex v = .ok spec) :
    requested (v :: rest) = spec :: requested rest := by
  rw [requested, List.filterMap_cons, h]
  rfl

/-- Each of the new indexes can be added after those before it. -/
def SchemaServer.Unhindered (S : SchemaServer) (ns : Namespace) (indexes new : List IndexSpec) :
    Prop :=
  ∀ front spec back, new = front ++ spec :: back → S.hinders ns (indexes ++ front) spec = false

/-- The first can be added, and the others after it. -/
lemma unhindered_cons_iff {indexes : List IndexSpec} :
    S.Unhindered ns indexes (spec :: specs) ↔
      S.hinders ns indexes spec = false ∧ S.Unhindered ns (indexes ++ [spec]) specs := by
  constructor
  · intro h
    refine ⟨?_, fun front other back heq => ?_⟩
    · simpa using h [] spec specs rfl
    · rw [List.append_assoc]
      exact h (spec :: front) other back (by rw [heq]; rfl)
  · rintro ⟨hfirst, hrest⟩ front other back heq
    cases front with
    | nil =>
      obtain ⟨rfl, -⟩ := List.cons.inj heq
      simpa using hfirst
    | cons first front =>
      obtain ⟨rfl, htail⟩ := List.cons.inj heq
      have := hrest front other back htail
      rwa [List.append_assoc] at this

/-- **The loop, where it succeeds.**  Every entry is valid, none of the new indexes is blocked by
those before it, and the new indexes are added and registered in their order. -/
lemma createAll_eq_ok_iff {entries : List Value} :
    S.createAll L ns entries p = (.ok (), p') ↔
      (∀ v ∈ entries, Valid v) ∧
      S.Unhindered ns p.indexes (S.fresh ns p.catalog (requested entries)) ∧
      ∃ rows, List.Forall₂ (Registers L ns) (S.fresh ns p.catalog (requested entries)) rows ∧
        p' = ⟨p.indexes ++ S.fresh ns p.catalog (requested entries), p.catalog ++ rows⟩ := by
  induction entries generalizing p with
  | nil =>
    have hfresh : S.fresh ns p.catalog (requested []) = [] := rfl
    rw [hfresh, SchemaServer.createAll]
    constructor
    · intro h
      obtain rfl := (Prod.ext_iff.1 h).2
      refine ⟨fun v hv => (by cases hv), fun front spec back h => ?_, [], .nil, ?_⟩
      · exact absurd (congrArg List.length h) (by simp)
      · rw [List.append_nil, List.append_nil]
    · rintro ⟨-, -, rows, hrows, rfl⟩
      cases hrows
      rw [List.append_nil, List.append_nil]
  | cons v rest ih =>
    rw [SchemaServer.createAll, List.forall_mem_cons]
    obtain ⟨⟨spec, hparse, hcheck, huse⟩, hone⟩ | ⟨hrefuses, e, hone⟩ |
      ⟨spec, hadds, ⟨e, hjson, hone⟩ | ⟨row, hrow, hone⟩⟩ := createOne_cases S L ns v p
    · rw [hone, requested_cons hparse, fresh_cons_of_inUse huse]
      dsimp only
      rw [ih]
      exact and_congr_left fun _ => (and_iff_right ⟨spec, hparse, hcheck⟩).symm
    · rw [hone]
      refine iff_of_false (by simp) ?_
      rintro ⟨⟨⟨spec, hparse, hcheck⟩, -⟩, hunhindered, -⟩
      obtain ⟨hfree, hhinders⟩ := hrefuses spec hparse hcheck
      obtain ⟨others, hfresh⟩ := exists_fresh_cons (requested rest) hfree
      rw [requested_cons hparse, hfresh, unhindered_cons_iff, hhinders] at hunhindered
      exact absurd hunhindered.1 (by simp)
    · rw [hone]
      refine iff_of_false (by simp) ?_
      rintro ⟨-, -, rows, hrows, -⟩
      obtain ⟨others, hfresh⟩ := exists_fresh_cons (requested rest) hadds.free
      rw [requested_cons hadds.parse, hfresh] at hrows
      cases hrows with
      | cons hrow _ =>
        have hkeys := hrow.keySpec_eq
        rw [hjson] at hkeys
        cases hkeys
    · have hvalid : Valid v := ⟨spec, hadds.parse, hadds.check⟩
      rw [hone, requested_cons hadds.parse,
        fresh_cons_of_not_inUse hadds.free hrow.ns_eq hrow.name_eq]
      dsimp only
      rw [ih, unhindered_cons_iff, and_iff_right hadds.unhindered, and_iff_right hvalid]
      refine and_congr_right fun _ => and_congr_right fun _ => ?_
      constructor
      · rintro ⟨rows, hrows, rfl⟩
        exact ⟨_ :: rows, .cons hrow hrows, by simp⟩
      · rintro ⟨rows, hrows, rfl⟩
        cases hrows with
        | cons hfirst hrest =>
          obtain rfl := hrow.eq hfirst
          exact ⟨_, hrest, by simp⟩

/-- The loop leaves everything as it is, or it adds an index. -/
lemma createAll_changes (S : SchemaServer) (L : Libbson) (ns : Namespace) (entries : List Value)
    (p : IndexState) :
    (S.createAll L ns entries p).2 = p ∨
      p.indexes.length < (S.createAll L ns entries p).2.indexes.length := by
  induction entries generalizing p with
  | nil => exact .inl rfl
  | cons v rest ih =>
    rw [SchemaServer.createAll]
    obtain ⟨-, hone⟩ | ⟨-, e, hone⟩ | ⟨spec, -, ⟨e, -, hone⟩ | ⟨row, -, hone⟩⟩ :=
      createOne_cases S L ns v p
    · rw [hone]
      exact ih p
    · rw [hone]
      exact .inl rfl
    · rw [hone]
      exact .inr (by simp)
    · rw [hone]
      refine .inr ?_
      have hlength : p.indexes.length < (p.indexes ++ [spec]).length := by simp
      rcases ih ⟨p.indexes ++ [spec], p.catalog ++ [row]⟩ with heq | hlt
      · dsimp only
        rw [heq]
        exact hlength
      · exact hlength.trans hlt

/-- Up to the first entry that is not passed over nothing happens, and that entry is refused. -/
def SchemaServer.RefusesFirst (S : SchemaServer) (ns : Namespace) (entries : List Value)
    (p : IndexState) : Prop :=
  ∃ front v back, entries = front ++ v :: back ∧ (∀ w ∈ front, S.Skips ns p.catalog w) ∧
    S.Refuses ns p v

/-- An entry that is passed over is not refused. -/
lemma not_refuses_of_skips {v : Value} (h : S.Skips ns p.catalog v) : ¬ S.Refuses ns p v := by
  obtain ⟨spec, hparse, hcheck, huse⟩ := h
  intro hrefuses
  exact absurd (huse.symm.trans (hrefuses spec hparse hcheck).1) (by simp)

/-- A new index is neither passed over nor refused. -/
lemma SchemaServer.Adds.not_skips_nor_refuses {v : Value} (h : S.Adds ns p v spec) :
    ¬ S.Skips ns p.catalog v ∧ ¬ S.Refuses ns p v := by
  constructor
  · rintro ⟨spec', hparse, -, huse⟩
    obtain rfl := Except.ok.inj (h.parse.symm.trans hparse)
    exact absurd (h.free.symm.trans huse) (by simp)
  · intro hrefuses
    exact absurd (h.unhindered.symm.trans (hrefuses spec h.parse h.check).2) (by simp)

/-- Whether nothing happens up to a refused entry is decided by the first entry. -/
lemma refusesFirst_cons_iff {v : Value} {rest : List Value} :
    S.RefusesFirst ns (v :: rest) p ↔
      S.Refuses ns p v ∨ S.Skips ns p.catalog v ∧ S.RefusesFirst ns rest p := by
  constructor
  · rintro ⟨front, w, back, heq, hfront, hw⟩
    cases front with
    | nil =>
      obtain ⟨rfl, -⟩ := List.cons.inj heq
      exact .inl hw
    | cons first front =>
      obtain ⟨rfl, rfl⟩ := List.cons.inj heq
      obtain ⟨hfirst, hfront⟩ := List.forall_mem_cons.1 hfront
      exact .inr ⟨hfirst, front, w, back, rfl, hfront, hw⟩
  · rintro (hv | ⟨hv, front, w, back, rfl, hfront, hw⟩)
    · exact ⟨[], v, rest, rfl, fun _ h => absurd h List.not_mem_nil, hv⟩
    · exact ⟨v :: front, w, back, rfl, List.forall_mem_cons.2 ⟨hv, hfront⟩, hw⟩

/-- **The loop, where it fails and changes nothing.** -/
lemma createAll_eq_error_iff {entries : List Value} :
    (∃ e, S.createAll L ns entries p = (.error e, p)) ↔ S.RefusesFirst ns entries p := by
  induction entries with
  | nil =>
    refine iff_of_false (fun ⟨e, he⟩ => ?_) fun ⟨front, v, back, heq, _⟩ => ?_
    · exact absurd (Prod.ext_iff.1 he).1 (by simp [SchemaServer.createAll])
    · exact absurd (congrArg List.length heq) (by simp)
  | cons v rest ih =>
    rw [SchemaServer.createAll, refusesFirst_cons_iff]
    obtain ⟨hskips, hone⟩ | ⟨hrefuses, e, hone⟩ | ⟨spec, hadds, ⟨e, -, hone⟩ | ⟨row, -, hone⟩⟩ :=
      createOne_cases S L ns v p
    · rw [hone, or_iff_right (not_refuses_of_skips hskips), and_iff_right hskips]
      exact ih
    · rw [hone]
      exact iff_of_true ⟨e, rfl⟩ (.inl hrefuses)
    · obtain ⟨hskips, hrefuses⟩ := hadds.not_skips_nor_refuses
      rw [hone]
      refine iff_of_false ?_ (not_or.2 ⟨hrefuses, fun h => hskips h.1⟩)
      rintro ⟨e', he'⟩
      exact absurd (congrArg (fun x => x.2.indexes.length) he') (by simp)
    · obtain ⟨hskips, hrefuses⟩ := hadds.not_skips_nor_refuses
      rw [hone]
      refine iff_of_false ?_ (not_or.2 ⟨hrefuses, fun h => hskips h.1⟩)
      rintro ⟨e', he'⟩
      have hrest := createAll_changes S L ns rest ⟨p.indexes ++ [spec], p.catalog ++ [row]⟩
      dsimp only at he'
      rw [he'] at hrest
      rcases hrest with heq | hlt
      · exact absurd (congrArg (fun x => x.indexes.length) heq) (by simp)
      · exact absurd hlt (by simp)

/-! ## The command -/

/-- Nothing in the state or in the request stands against the request. -/
structure GoesThrough (S : SchemaServer) (L : Libbson) (ns : Namespace) (entries : List Value)
    (ready : Bool) (p : IndexState) : Prop where
  /-- The catalog is there. -/
  ready : ready = true
  /-- The rows about the collection can be read. -/
  listable : S.listable L ns p.catalog = true
  /-- Every entry is valid. -/
  valid : ∀ v ∈ entries, Valid v
  /-- The server adds the new indexes. -/
  unhindered : S.Unhindered ns p.indexes (S.fresh ns p.catalog (requested entries))
  /-- The new indexes can be written to the catalog and read. -/
  stored : ∀ spec ∈ S.fresh ns p.catalog (requested entries), (spec.stored L).toBool = true

/-- Where rows register indexes, they can be listed when the indexes can be written and read. -/
lemma listable_append {rows : List IndexRow} (h : List.Forall₂ (Registers L ns) specs rows) :
    S.listable L ns (catalog ++ rows) = true ↔
      S.listable L ns catalog = true ∧ ∀ spec ∈ specs, (spec.stored L).toBool = true := by
  have hrows : S.listable L ns rows = true ↔ ∀ spec ∈ specs, (spec.stored L).toBool = true := by
    induction h with
    | nil => simp [SchemaServer.listable]
    | @cons spec row specs rows hrow _ ih =>
      have habout : S.about ns row = true := by
        rw [SchemaServer.about, SchemaServer.within, hrow.ns_eq]
        simp
      have hstored : (decodeIndex L (row.name, row.keySpec, row.unique)).toBool =
          (spec.stored L).toBool := congrArg Except.toBool hrow.decode
      rw [SchemaServer.listable, List.filter_cons_of_pos habout, List.all_cons, hstored,
        Bool.and_eq_true, List.forall_mem_cons, ← ih, SchemaServer.listable]
  rw [← hrows, SchemaServer.listable, List.filter_append, List.all_append, Bool.and_eq_true]
  rfl

/-- Indexes that can be written have rows. -/
lemma exists_registers (ns : Namespace) (h : ∀ spec ∈ specs, (spec.stored L).toBool = true) :
    ∃ rows, List.Forall₂ (Registers L ns) specs rows := by
  let row (spec : IndexSpec) : IndexRow :=
    ⟨ns, spec.name, ((L.toExtjson spec.keyDocument).toOption).getD .null, spec.unique⟩
  refine ⟨specs.map row, ?_⟩
  rw [List.forall₂_map_right_iff, List.forall₂_same]
  intro spec hspec
  have hstored := h spec hspec
  rw [IndexSpec.stored] at hstored
  cases hjson : L.toExtjson spec.keyDocument with
  | error e =>
    rw [hjson] at hstored
    cases hstored
  | ok json =>
    refine ⟨rfl, rfl, ?_, rfl⟩
    rw [hjson]
    simp only [row, hjson]
    rfl

/-- **Where the command succeeds.** -/
lemma createResult_eq_true_iff {entries : List Value} {ready : Bool} :
    S.createResult L ns entries ready p = (true, p') ↔ GoesThrough S L ns entries ready p ∧
      ∃ rows, List.Forall₂ (Registers L ns) (S.fresh ns p.catalog (requested entries)) rows ∧
        p' = ⟨p.indexes ++ S.fresh ns p.catalog (requested entries), p.catalog ++ rows⟩ := by
  rw [SchemaServer.createResult]
  by_cases hbefore : (ready && S.listable L ns p.catalog) = true
  · rw [if_pos hbefore]
    obtain ⟨hready, hlistable⟩ := Bool.and_eq_true_iff.1 hbefore
    constructor
    · intro h
      obtain ⟨result, q, hall⟩ : ∃ result q, S.createAll L ns entries p = (result, q) :=
        ⟨_, _, rfl⟩
      rw [hall] at h
      cases result with
      | error e => exact absurd (Prod.ext_iff.1 h).1 (by simp)
      | ok _ =>
        obtain ⟨hafter, rfl⟩ := Prod.ext_iff.1 h
        obtain ⟨hvalid, hunhindered, rows, hrows, rfl⟩ := createAll_eq_ok_iff.1 hall
        exact ⟨⟨hready, hlistable, hvalid, hunhindered, ((listable_append hrows).1 hafter).2⟩,
          rows, hrows, rfl⟩
    · rintro ⟨h, rows, hrows, rfl⟩
      have hall := createAll_eq_ok_iff.2 ⟨h.valid, h.unhindered, rows, hrows, rfl⟩
      have hafter := (listable_append (S := S) hrows).2 ⟨hlistable, h.stored⟩
      rw [hall]
      exact Prod.ext hafter rfl
  · rw [if_neg hbefore]
    refine iff_of_false (by simp) fun ⟨h, _⟩ => hbefore ?_
    rw [h.ready, h.listable]
    rfl

/-- **Where the command fails and changes nothing.** -/
lemma createResult_eq_false_iff {entries : List Value} {ready : Bool} :
    S.createResult L ns entries ready p = (false, p) ↔
      ready = false ∨ S.listable L ns p.catalog = false ∨ S.RefusesFirst ns entries p := by
  rw [SchemaServer.createResult, ← or_assoc]
  by_cases hbefore : (ready && S.listable L ns p.catalog) = true
  · rw [if_pos hbefore, ← createAll_eq_error_iff (L := L)]
    obtain ⟨hready, hlistable⟩ := Bool.and_eq_true_iff.1 hbefore
    rw [or_iff_right (by rw [hready, hlistable]; simp)]
    obtain ⟨result, q, hall⟩ : ∃ result q, S.createAll L ns entries p = (result, q) := ⟨_, _, rfl⟩
    rw [hall]
    cases result with
    | error e => simp
    | ok _ =>
      refine iff_of_false (fun h => ?_) (by simp)
      have hq : q = p := (Prod.ext_iff.1 h).2
      have hafter : S.listable L ns q.catalog = false := (Prod.ext_iff.1 h).1
      rw [hq, hlistable] at hafter
      cases hafter
  · rw [if_neg hbefore]
    rw [Bool.and_eq_true_iff, not_and_or, Bool.not_eq_true, Bool.not_eq_true] at hbefore
    exact iff_of_true rfl (.inl hbefore)

end Loop

/-! ## The promise -/

section Promise

variable (S : SchemaServer) (ctx : Ctx) (ns : Namespace) (entries : List Value) (s : Schema)

/-- `createIndexes`: the reply, and the state afterwards. -/
def SchemaServer.runCreate : Except TranslatorError Doc × Schema :=
  (Catalog.cmdCreateIndexes ctx).serve S.server s

/-- `listIndexes`. -/
def SchemaServer.runList : Except TranslatorError (List IndexSpec) :=
  ((onWire (listIndexes ctx.L ns)).serve S.server s).1

/-- The request asks for an index under the name of another one that the collection has. -/
def NameTaken : Prop :=
  s.present ns = true ∧ ∃ spec ∈ requested entries,
    spec.name = idIndex.name ∧ spec ≠ idIndex ∨
      ∃ row ∈ s.catalog, S.about ns row = true ∧ row.name = spec.name ∧
        row.decode ctx.L ≠ .ok spec

/-- What a client reads into the replies to `createIndexes`. -/
structure CreatePromise : Prop where
  /-- After success every index is listed as it was asked for. -/
  asked : ∀ reply, (S.runCreate ctx s).1 = .ok reply →
    ∃ listed, S.runList ctx ns (S.runCreate ctx s).2 = .ok listed ∧
      ∀ v ∈ entries, ∃ spec ∈ listed, parseIndex v = .ok spec
  /-- A name that another index has is an error that changes nothing. -/
  taken : NameTaken S ctx ns entries s →
    (∃ e, (S.runCreate ctx s).1 = .error e) ∧ s.Grows (S.runCreate ctx s).2
  /-- After success the same request succeeds again and changes nothing. -/
  repeated : ∀ reply, (S.runCreate ctx s).1 = .ok reply →
    (∃ reply', (S.runCreate ctx (S.runCreate ctx s).2).1 = .ok reply') ∧
      (S.runCreate ctx s).2.Grows (S.runCreate ctx (S.runCreate ctx s).2).2

/-- Every index of the request is the one on `_id`, or is listed already, or is the first under
its name and can be written to the catalog and read. -/
def AsAsked : Prop :=
  ∀ spec ∈ requested entries, spec = idIndex ∨
    (∃ row ∈ s.catalog, S.about ns row = true ∧ row.decode ctx.L = .ok spec) ∨
    ∃ new ∈ S.fresh ns s.catalog (requested entries), new.stored ctx.L = .ok spec

/-- When the promise is kept. -/
def CreateCondition : Prop :=
  (NameTaken S ctx ns entries s → s.ready ns = false ∨ S.listable ctx.L ns s.catalog = false ∨
      S.RefusesFirst ns entries (s.start ns)) ∧
    (¬ NameTaken S ctx ns entries s →
      GoesThrough S ctx.L ns entries (s.ready ns) (s.start ns) → AsAsked S ctx ns entries s)

end Promise

section Kept

variable {S : SchemaServer} {ctx : Ctx} {ns : Namespace} {s t : Schema} {p p' : IndexState}

/-- The specifications of the entries. -/
lemma mem_requested {entries : List Value} {spec : IndexSpec} :
    spec ∈ requested entries ↔ ∃ v ∈ entries, parseIndex v = .ok spec := by
  rw [requested, List.mem_filterMap]
  refine exists_congr fun v => and_congr_right fun _ => ?_
  cases parseIndex v with
  | error e => simp [Except.toOption]
  | ok spec' => simp [Except.toOption]

/-- A list that is read holds what its members read as. -/
lemma mem_of_mapM {α β : Type} {f : α → Except TranslatorError β} {l : List α} {r : List β}
    (h : l.mapM f = .ok r) {b : β} : b ∈ r ↔ ∃ a ∈ l, f a = .ok b := by
  have hall := mapM_eq_ok_iff.1 h
  constructor
  · intro hb
    obtain ⟨a, ha, hread⟩ := exists_right_of_forall₂ hall.flip hb
    exact ⟨a, ha, hread⟩
  · rintro ⟨a, ha, hread⟩
    obtain ⟨c, hc, hread'⟩ := exists_right_of_forall₂ hall ha
    obtain rfl := Except.ok.inj (hread.symm.trans hread')
    exact hc

/-- What is listed. -/
lemma mem_of_listed {L : Libbson} {listed : List IndexSpec} (h : S.listed L ns s = .ok listed)
    {spec : IndexSpec} : spec ∈ listed ↔
      spec = idIndex ∨ ∃ row ∈ s.catalog, S.about ns row = true ∧ row.decode L = .ok spec := by
  rw [SchemaServer.listed] at h
  by_cases hready : s.present MetaTable.indexes.ns = true
  · rw [if_pos hready] at h
    cases hrows : (S.listing ns s.catalog).mapM (decodeIndex L) with
    | error e =>
      rw [hrows] at h
      cases h
    | ok specs =>
      rw [hrows] at h
      obtain rfl := Except.ok.inj h
      rw [List.mem_cons, mem_of_mapM hrows]
      refine or_congr_right ⟨?_, ?_⟩
      · rintro ⟨_, hmem, hdecode⟩
        obtain ⟨row, hrow, rfl⟩ := List.mem_map.1 hmem
        obtain ⟨hrow, habout⟩ := List.mem_filter.1 (List.mem_mergeSort.1 hrow)
        exact ⟨row, hrow, habout, hdecode⟩
      · rintro ⟨row, hrow, habout, hdecode⟩
        have hfiltered := List.mem_filter.2 ⟨hrow, habout⟩
        exact ⟨_, List.mem_map.2 ⟨row, List.mem_mergeSort.2 hfiltered, rfl⟩, hdecode⟩
  · rw [if_neg hready] at h
    cases h

variable {entries : List (Text × Value)}

/-- A reply reports success or not. -/
lemma toBool_eq_true_iff {α : Type} {x : Except TranslatorError α} :
    x.toBool = true ↔ ∃ a, x = .ok a := by
  cases x with
  | error e => simp [Except.toBool]
  | ok a => simp [Except.toBool]

/-- A reply reports failure or not. -/
lemma toBool_eq_false_iff {α : Type} {x : Except TranslatorError α} :
    x.toBool = false ↔ ∃ e, x = .error e := by
  cases x with
  | error e => simp [Except.toBool]
  | ok a => simp [Except.toBool]

/-- A collection that is there has changed when its indexes or the catalog have. -/
lemma Schema.Creates.grows_iff (h : s.Creates ns p' t) (hthere : s.present ns = true) :
    s.Grows t ↔ p' = s.start ns := by
  obtain ⟨indexes, hindexes⟩ := Option.isSome_iff_exists.1 hthere
  rw [Schema.start, hindexes]
  constructor
  · intro hgrows
    have htable := h.table.symm.trans ((hgrows.tables ns).of_present hthere)
    rw [hindexes, Option.some.injEq] at htable
    have hcatalog := h.catalog.symm.trans hgrows.catalog
    cases p'
    simp_all
  · rintro rfl
    refine ⟨h.catalog, fun ns' => ?_⟩
    by_cases heq : ns' = ns
    · rw [heq]
      exact .inl (h.table.trans hindexes.symm)
    · exact h.others ns' heq

/-- **Names that are taken.**  The request fails and changes nothing exactly when the catalog is
missing, or cannot be read, or the first entry that is not passed over is refused. -/
lemma taken_iff (hbody : findField ctx.body "indexes".toList = some (.array entries))
    (hns : ctx.ns = .ok ns) (hthere : s.present ns = true) :
    ((∃ e, (S.runCreate ctx s).1 = .error e) ∧ s.Grows (S.runCreate ctx s).2) ↔
      s.ready ns = false ∨ S.listable ctx.L ns s.catalog = false ∨
        S.RefusesFirst ns (entries.map Prod.snd) (s.start ns) := by
  obtain ⟨p', hresult, hcreates⟩ := serve_cmdCreateIndexes S s hbody hns
  have hcatalog : s.catalog = (s.start ns).catalog := rfl
  rw [hcatalog, ← createResult_eq_false_iff, hresult, SchemaServer.runCreate,
    hcreates.grows_iff hthere, ← toBool_eq_false_iff, Prod.mk.injEq]

/-- What rows that register indexes read as. -/
lemma exists_row_append_iff {L : Libbson} {catalog rows : List IndexRow} {specs : List IndexSpec}
    (h : List.Forall₂ (Registers L ns) specs rows) {spec : IndexSpec} :
    (∃ row ∈ catalog ++ rows, S.about ns row = true ∧ row.decode L = .ok spec) ↔
      (∃ row ∈ catalog, S.about ns row = true ∧ row.decode L = .ok spec) ∨
        ∃ new ∈ specs, new.stored L = .ok spec := by
  have hrows : (∃ row ∈ rows, S.about ns row = true ∧ row.decode L = .ok spec) ↔
      ∃ new ∈ specs, new.stored L = .ok spec := by
    induction h with
    | nil => simp
    | @cons new row specs rows hrow _ ih =>
      have habout : S.about ns row = true := by
        rw [SchemaServer.about, SchemaServer.within, hrow.ns_eq]
        simp
      rw [List.exists_mem_cons_iff, List.exists_mem_cons_iff, ih, and_iff_right habout, hrow.decode]
  rw [← hrows]
  simp only [List.mem_append, or_and_right, exists_or]

/-- Where the command succeeds, the catalog can be listed, and what is listed was there or is
new. -/
lemma runList_of_success {rows : List IndexRow} {ready : Bool} {p : IndexState}
    (hcreates : s.Creates ns p' t) (hready : s.ready ns = true)
    (hthrough : GoesThrough S ctx.L ns (entries.map Prod.snd) ready p)
    (hrows : List.Forall₂ (Registers ctx.L ns)
      (S.fresh ns p.catalog (requested (entries.map Prod.snd))) rows)
    (hcatalog : p'.catalog = p.catalog ++ rows) :
    ∃ listed, S.runList ctx ns t = .ok listed ∧ ∀ spec, spec ∈ listed ↔ spec = idIndex ∨
      (∃ row ∈ p.catalog, S.about ns row = true ∧ row.decode ctx.L = .ok spec) ∨
        ∃ new ∈ S.fresh ns p.catalog (requested (entries.map Prod.snd)),
          new.stored ctx.L = .ok spec := by
  have hlistable := (listable_append (S := S) hrows).2 ⟨hthrough.listable, hthrough.stored⟩
  have htoBool := toBool_listed S ctx.L ns t
  rw [hcreates.ready hready, hcreates.catalog, hcatalog, hlistable] at htoBool
  obtain ⟨listed, hlisted⟩ := toBool_eq_true_iff.1 htoBool
  refine ⟨listed, ?_, fun spec => ?_⟩
  · rw [SchemaServer.runList, serve_listIndexes hcreates.there, hlisted]
  · rw [mem_of_listed hlisted, hcreates.catalog, hcatalog, exists_row_append_iff hrows]

/-- **Success.**  The command succeeds exactly when nothing stands against the request, and then
everything is listed exactly when it is there as asked. -/
lemma asked_iff (hbody : findField ctx.body "indexes".toList = some (.array entries))
    (hns : ctx.ns = .ok ns) :
    (∀ reply, (S.runCreate ctx s).1 = .ok reply →
      ∃ listed, S.runList ctx ns (S.runCreate ctx s).2 = .ok listed ∧
        ∀ v ∈ entries.map Prod.snd, ∃ spec ∈ listed, parseIndex v = .ok spec) ↔
      (GoesThrough S ctx.L ns (entries.map Prod.snd) (s.ready ns) (s.start ns) →
        AsAsked S ctx ns (entries.map Prod.snd) s) := by
  obtain ⟨p', hresult, hcreates⟩ := serve_cmdCreateIndexes S s hbody hns
  constructor
  · intro hasked hthrough
    obtain ⟨rows, hrows⟩ := exists_registers ns hthrough.stored
    have hok := createResult_eq_true_iff.2 ⟨hthrough, rows, hrows, rfl⟩
    rw [hresult, Prod.mk.injEq] at hok
    obtain ⟨reply, hreply⟩ := toBool_eq_true_iff.1 hok.1
    obtain ⟨listed, hlisted, hall⟩ := hasked reply hreply
    obtain ⟨listed', hlisted', hmem⟩ := runList_of_success hcreates hthrough.ready hthrough hrows
      (congrArg IndexState.catalog hok.2)
    obtain rfl := Except.ok.inj (hlisted.symm.trans hlisted')
    intro spec hspec
    obtain ⟨v, hv, hparse⟩ := mem_requested.1 hspec
    obtain ⟨spec', hspec', hparse'⟩ := hall v hv
    obtain rfl := Except.ok.inj (hparse.symm.trans hparse')
    exact (hmem spec).1 hspec'
  · intro hcondition reply hreply
    have htoBool : (S.runCreate ctx s).1.toBool = true := toBool_eq_true_iff.2 ⟨reply, hreply⟩
    rw [SchemaServer.runCreate] at htoBool
    rw [htoBool] at hresult
    obtain ⟨hthrough, rows, hrows, hp'⟩ := createResult_eq_true_iff.1 hresult
    obtain ⟨listed, hlisted, hmem⟩ := runList_of_success hcreates hthrough.ready hthrough hrows
      (congrArg IndexState.catalog hp')
    refine ⟨listed, hlisted, fun v hv => ?_⟩
    obtain ⟨spec, hparse, -⟩ := hthrough.valid v hv
    exact ⟨spec, (hmem spec).2 (hcondition hthrough spec (mem_requested.2 ⟨v, hv, hparse⟩)), hparse⟩

/-- Once the new indexes are registered, no name of the request is new. -/
lemma fresh_append_eq_nil {L : Libbson} {catalog rows : List IndexRow} {specs : List IndexSpec}
    (h : List.Forall₂ (Registers L ns) (S.fresh ns catalog specs) rows) :
    S.fresh ns (catalog ++ rows) specs = [] := by
  have hall : (specs.filter fun spec => !S.inUse ns (catalog ++ rows) spec.name) = [] := by
    refine List.filter_eq_nil_iff.2 fun spec hspec hfree => ?_
    have happend : S.inUse ns (catalog ++ rows) spec.name =
        (S.inUse ns catalog spec.name || S.inUse ns rows spec.name) := List.any_append
    rw [happend, Bool.not_or, Bool.and_eq_true, Bool.not_eq_true', Bool.not_eq_true'] at hfree
    -- one of the new indexes has the name
    obtain ⟨new, hnew, hname⟩ : ∃ new ∈ S.fresh ns catalog specs, S.sameName new spec = true := by
      have hmem : spec ∈ specs.filter fun spec => !S.inUse ns catalog spec.name :=
        List.mem_filter.2 ⟨hspec, by rw [hfree.1]; rfl⟩
      obtain ⟨front, back, heq⟩ := List.append_of_mem hmem
      rw [SchemaServer.fresh, heq]
      rcases Representatives.turn (r := S.sameName) [] front back spec with hkept | ⟨x, hx, hname⟩
      · exact ⟨spec, hkept, decide_eq_true rfl⟩
      · exact ⟨x, Representatives.collect_subset_append hx, hname⟩
    obtain ⟨row, hrow, hregisters⟩ := exists_right_of_forall₂ h hnew
    have hentry : S.isEntry ns spec.name row = true := by
      rw [isEntry_of_ns hregisters.ns_eq, hregisters.name_eq]
      exact hname
    exact absurd hentry (List.any_eq_false.1 hfree.2 row hrow)
  rw [SchemaServer.fresh, hall]
  rfl

/-- A loop that has succeeded succeeds again, and changes nothing. -/
lemma createAll_again {S : SchemaServer} {L : Libbson} {ns : Namespace} {entries : List Value}
    {p p' : IndexState} (h : S.createAll L ns entries p = (.ok (), p')) :
    S.createAll L ns entries p' = (.ok (), p') := by
  obtain ⟨hvalid, -, rows, hrows, rfl⟩ := createAll_eq_ok_iff.1 h
  have hfresh := fresh_append_eq_nil hrows
  refine createAll_eq_ok_iff.2 ⟨hvalid, ?_, [], ?_, ?_⟩
  · rw [hfresh]
    exact fun front spec back heq => absurd (congrArg List.length heq) (by simp)
  · rw [hfresh]
    exact .nil
  · rw [hfresh, List.append_nil, List.append_nil]

/-- The state that has come about. -/
lemma Schema.Creates.start_eq (h : s.Creates ns p' t) : t.start ns = p' := by
  rw [Schema.start, h.table, h.catalog]
  rfl

/-- **Repeating a request.**  After success the same request succeeds, and changes nothing. -/
lemma repeated_of_success (hbody : findField ctx.body "indexes".toList = some (.array entries))
    (hns : ctx.ns = .ok ns) {reply : Doc} (hreply : (S.runCreate ctx s).1 = .ok reply) :
    (∃ reply', (S.runCreate ctx (S.runCreate ctx s).2).1 = .ok reply') ∧
      (S.runCreate ctx s).2.Grows (S.runCreate ctx (S.runCreate ctx s).2).2 := by
  obtain ⟨p', hresult, hcreates⟩ := serve_cmdCreateIndexes S s hbody hns
  have htoBool : (S.runCreate ctx s).1.toBool = true := toBool_eq_true_iff.2 ⟨reply, hreply⟩
  rw [SchemaServer.runCreate] at htoBool
  rw [htoBool] at hresult
  obtain ⟨hthrough, rows, hrows, hp'⟩ := createResult_eq_true_iff.1 hresult
  have hall := createAll_again
    (createAll_eq_ok_iff.2 ⟨hthrough.valid, hthrough.unhindered, rows, hrows, hp'⟩)
  have hlistable : S.listable ctx.L ns p'.catalog = true := by
    rw [hp']
    exact (listable_append hrows).2 ⟨hthrough.listable, hthrough.stored⟩
  have hresult' : S.createResult ctx.L ns (entries.map Prod.snd) true p' = (true, p') := by
    rw [SchemaServer.createResult, hlistable, hall]
    exact Prod.ext hlistable rfl
  obtain ⟨q, hrepeat, hcreates'⟩ :=
    serve_cmdCreateIndexes S ((Catalog.cmdCreateIndexes ctx).serve S.server s).2 hbody hns
  have hready : Schema.ready ((Catalog.cmdCreateIndexes ctx).serve S.server s).2 ns = true := by
    rw [Schema.ready, hcreates.ready hthrough.ready, Bool.or_true]
  rw [hready, hcreates.start_eq, hresult', Prod.mk.injEq] at hrepeat
  refine ⟨toBool_eq_true_iff.1 hrepeat.1.symm, (hcreates'.grows_iff hcreates.there).2 ?_⟩
  rw [hcreates.start_eq]
  exact hrepeat.2.symm

/-- **What a successful `createIndexes` means.**  The promise is kept exactly under the
condition. -/
theorem createPromise_iff (hbody : findField ctx.body "indexes".toList = some (.array entries))
    (hns : ctx.ns = .ok ns) :
    CreatePromise S ctx ns (entries.map Prod.snd) s ↔
      CreateCondition S ctx ns (entries.map Prod.snd) s := by
  by_cases htaken : NameTaken S ctx ns (entries.map Prod.snd) s
  · constructor
    · intro h
      exact ⟨fun _ => (taken_iff hbody hns htaken.1).1 (h.taken htaken), fun h => absurd htaken h⟩
    · intro h
      have hfails := (taken_iff hbody hns htaken.1).2 (h.1 htaken)
      obtain ⟨e, he⟩ := hfails.1
      refine ⟨fun reply hreply => ?_, fun _ => hfails, fun reply hreply => ?_⟩
      · rw [he] at hreply
        cases hreply
      · rw [he] at hreply
        cases hreply
  · constructor
    · intro h
      exact ⟨fun h => absurd h htaken, fun _ => (asked_iff hbody hns).1 h.asked⟩
    · intro h
      exact ⟨(asked_iff hbody hns).2 (h.2 htaken), fun h => absurd h htaken,
        fun reply hreply => repeated_of_success hbody hns hreply⟩

end Kept

/-! ## Two requests -/

/-- A server that compares names as they are and refuses nothing. -/
def SchemaServer.plain : SchemaServer where
  fold := id
  ident := id
  refusesAdd _ _ _ := false
  refusesDrop _ _ _ _ := false
  detail := []

/-- The collection of the examples. -/
def itemsNs : Namespace := ⟨"app".toList, "items".toList⟩

/-- An index `x` on the field `a`. -/
def indexOnA : IndexSpec := ⟨"x".toList, [("a".toList, 1)], false⟩

/-- A collection with this index. -/
def indexedItems : Schema where
  tables ns :=
    if ns = itemsNs then some [indexOnA]
    else if ns = MetaTable.indexes.ns then some []
    else none
  catalog := [⟨itemsNs, "x".toList, .obj [("a".toList, .obj [("$numberInt".toList, .str ['1'])])],
    false⟩]

/-- A request for an index `x` on a field. -/
def indexEntries (field : String) : List (Text × Value) :=
  [("0".toList, .document [("key".toList, .document [(field.toList, .int32 1)]),
    ("name".toList, .utf8 "x".toList)])]

/-- The command with this request. -/
def createOnItems (field : String) : Ctx where
  body := [("createIndexes".toList, .utf8 "items".toList),
    ("indexes".toList, .array (indexEntries field))]
  db := "app".toList
  argument := "items".toList
  L := .ofIntegers
  oids _ := 0

/-- Asking for the index that is there. -/
theorem createPromise_iff_again :
    CreatePromise .plain (createOnItems "a") itemsNs ((indexEntries "a").map Prod.snd)
      indexedItems := by
  have hrequested : requested ((indexEntries "a").map Prod.snd) = [indexOnA] := by decide +kernel
  have hdecode : ∀ row ∈ indexedItems.catalog, row.decode .ofIntegers = .ok indexOnA := by
    intro row hrow
    obtain rfl := List.mem_singleton.1 hrow
    decide +kernel
  refine (createPromise_iff rfl rfl).2 ⟨?_, fun _ _ => ?_⟩
  · rintro ⟨-, spec, hspec, hname⟩
    rw [hrequested, List.mem_singleton] at hspec
    subst hspec
    rcases hname with ⟨hname, -⟩ | ⟨row, hrow, -, -, hne⟩
    · exact absurd hname (by decide)
    · exact absurd (hdecode row hrow) hne
  · intro spec hspec
    rw [hrequested, List.mem_singleton] at hspec
    subst hspec
    exact .inr (.inl ⟨_, List.mem_singleton_self _, by decide,
      hdecode _ (List.mem_singleton_self _)⟩)

/-- Asking for another index under its name: the reply reports success, and the index is not
listed. -/
theorem createIndexes_passes_over_other_keys :
    (SchemaServer.plain.runCreate (createOnItems "b") indexedItems).1.toBool = true ∧
      ¬ CreatePromise .plain (createOnItems "b") itemsNs ((indexEntries "b").map Prod.snd)
        indexedItems := by
  have hok : (SchemaServer.plain.runCreate (createOnItems "b") indexedItems).1.toBool = true := by
    decide +kernel
  refine ⟨hok, fun h => ?_⟩
  have htaken : NameTaken .plain (createOnItems "b") itemsNs ((indexEntries "b").map Prod.snd)
      indexedItems := by
    refine ⟨by decide, ⟨"x".toList, [("b".toList, 1)], false⟩, by decide +kernel, .inr ⟨_,
      List.mem_singleton_self _, by decide, rfl, by decide +kernel⟩⟩
  obtain ⟨⟨e, he⟩, -⟩ := h.taken htaken
  rw [he] at hok
  cases hok

end Chimera
