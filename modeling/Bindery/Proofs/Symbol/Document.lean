import Bindery.Proofs.Json.Reading
import Bindery.Symbol.Document

/-!
# Documents are read as they were written

What a symbol leaves open is not written, and what is not written is read as left open. So every
part of a symbol table is read back from the document it was written to, and with it the table
(`Bindery.SymbolTable.ofDocument_document`).

The parts are nested ten levels deep at most: a document holds a list of symbols, a symbol a list of
members, and so on down to a type, which is an object without further containers. A reader gives up
at a depth of over a hundred.
-/

namespace Bindery

open Json (Choice Legible Node Reads Record reads_list reads_tagged reads_text reads_value_text
  reads_variant)

/-! ### Entries that may be left out -/

section Entries

variable {α β δ : Type} {record : Record δ α} {levels : ℕ} {label : String} {draft : δ}
  {toJson : β → Json}

theorem mem_optionEntry {value? : Option β} {entry : String × Json} :
    entry ∈ optionEntry label toJson value? ↔ ∃ value ∈ value?, entry = (label, toJson value) := by
  cases value? with
  | none => simp [optionEntry]
  | some value => simp [optionEntry]

theorem mem_listEntry {values : List β} {entry : String × Json} :
    entry ∈ listEntry label toJson values ↔
      values ≠ [] ∧ entry = (label, .array (values.map toJson)) := by
  cases values with
  | nil => simp [listEntry]
  | cons value values => simp [listEntry]

/-- A part that may be absent is known after its entry, or nothing is known of it as before. -/
theorem exists_leads_optionEntry {set : Option (Option β) → δ} {value? : Option β}
    (hnone : set none = draft)
    (h : ∀ value, record.Enters levels label (toJson value) draft (set (some (some value)))) :
    ∃ known, known.getD none = value? ∧
      record.Leads levels draft (optionEntry label toJson value?) (set known) := by
  cases value? with
  | none => exact ⟨none, rfl, hnone ▸ .done _⟩
  | some value => exact ⟨some (some value), rfl, (h value).leads⟩

/-- A list is known after its entry, or nothing is known of it as before. -/
theorem exists_leads_listEntry {set : Option (List β) → δ} {values : List β}
    (hnone : set none = draft)
    (h : record.Enters levels label (.array (values.map toJson)) draft (set (some values))) :
    ∃ known, known.getD [] = values ∧
      record.Leads levels draft (listEntry label toJson values) (set known) := by
  cases values with
  | nil => exact ⟨none, rfl, hnone ▸ .done _⟩
  | cons value values => exact ⟨some (value :: values), rfl, h.leads⟩

end Entries

/-! ### Types -/

theorem ForeignType.legible (type : ForeignType) : type.toJson.Legible := by
  cases type with
  | number => exact .object (by simp [Legible.string])
  | string => exact .object (by simp [Legible.string])
  | boolean => exact .object (by simp [Legible.string])
  | void => exact .object (by simp [Legible.string])
  | named name => exact .object (by simp [Legible.string])
  | other text => exact .object (by simp [Legible.string])

/-- A type is read from its tag and what is with it. -/
theorem ForeignType.reads_of (tag : Tag) {word : String} {entries : List (String × Json)}
    {type : ForeignType} (hword : Choice.among tags word = .ok tag)
    (hentries : ∀ entry ∈ entries, entry.1 ≠ "kind" ∧ Reads 0 Node.value entry.2 entry.2)
    (hcontent : ofContent tag (.entries entries) = .ok type) :
    Reads 1 ForeignType.read (.object (("kind", .string word) :: entries)) type := by
  intro depth hdepth node rest hholds
  have htagged := reads_tagged "internally tagged enum SourceType" hword hentries
  rw [ForeignType.read, htagged depth hdepth node rest hholds]
  change (ofContent tag (.entries entries)).mapError _ = _
  rw [hcontent, Json.mapError_ok]

/-- **A type is read as it was written.** -/
theorem ForeignType.reads (type : ForeignType) : Reads 1 ForeignType.read type.toJson type := by
  cases type with
  | number => exact reads_of (.primitive .number) rfl (by simp) rfl
  | string => exact reads_of (.primitive .string) rfl (by simp) rfl
  | boolean => exact reads_of (.primitive .boolean) rfl (by simp) rfl
  | void => exact reads_of (.primitive .void) rfl (by simp) rfl
  | named name => exact reads_of .reference rfl (by simp [reads_value_text]) rfl
  | other text => exact reads_of .opaqueText rfl (by simp [reads_value_text]) rfl

namespace Symbol

/-! ### Signatures -/

theorem Param.legible (param : Param) : param.toJson.Legible :=
  .object (by simp [Legible.string, ForeignType.legible])

theorem Param.reads (param : Param) : Reads 2 Param.record.read param.toJson param := by
  have hname : Param.record.Enters 1 "name" (.string param.name) {} { name := some param.name } :=
    ⟨_, rfl, rfl, _, (reads_text _).mono (by omega), rfl⟩
  have htype : Param.record.Enters 1 "type" param.type.toJson { name := some param.name }
      { name := some param.name, type := some param.type } :=
    ⟨_, rfl, rfl, _, param.type.reads, rfl⟩
  exact Record.reads (.enter hname htype.leads) rfl

theorem Signature.legible (signature : Signature) : signature.toJson.Legible := by
  have hparams : Legible (.array (signature.params.map Param.toJson)) :=
    .array (List.forall_mem_map.mpr fun param _ => param.legible)
  exact .object (by simp [hparams, ForeignType.legible])

theorem Signature.reads (signature : Signature) :
    Reads 4 Signature.record.read signature.toJson signature := by
  have hparams : Signature.record.Enters 3 "params" (.array (signature.params.map Param.toJson)) {}
      { params := some signature.params } :=
    ⟨_, rfl, rfl, _, reads_list fun param _ => param.reads, rfl⟩
  have hreturns : Signature.record.Enters 3 "returns" signature.returns.toJson
      { params := some signature.params }
      { params := some signature.params, returns := some signature.returns } :=
    ⟨_, rfl, rfl, _, signature.returns.reads.mono (by omega), rfl⟩
  exact Record.reads (.enter hparams hreturns.leads) rfl

/-! ### Members and symbols -/

theorem Member.legible (member : Member) : member.toJson.Legible := by
  refine .object fun entry hentry => ?_
  simp only [List.mem_append, List.mem_cons, List.not_mem_nil, or_false, mem_optionEntry,
    mem_listEntry] at hentry
  obtain (((rfl | rfl) | ⟨type, -, rfl⟩) | ⟨-, rfl⟩) := hentry
  · exact .string _
  · exact .string _
  · exact type.legible
  · exact .array (List.forall_mem_map.mpr fun signature _ => signature.legible)

theorem Member.Kind.choice_label (kind : Member.Kind) :
    Choice.amongOr Member.Kind.words .other kind.label = .ok kind := by
  cases kind <;> rfl

/-- **A member is read as it was written**, with or without a type and overloads. -/
theorem Member.reads (member : Member) : Reads 6 Member.record.read member.toJson member := by
  have hname : Member.record.Enters 5 "name" (.string member.name) {}
      { name := some member.name } :=
    ⟨_, rfl, rfl, _, (reads_text _).mono (by omega), rfl⟩
  have hkind : Member.record.Enters 5 "kind" (.string member.kind.label)
      { name := some member.name } { name := some member.name, kind := some member.kind } :=
    ⟨_, rfl, rfl, _, (reads_variant member.kind.choice_label).mono (by omega), rfl⟩
  obtain ⟨type, htype, htypeEntry⟩ :
      ∃ type : Option (Option ForeignType), type.getD none = member.type ∧
        Member.record.Leads 5 { name := some member.name, kind := some member.kind }
          (optionEntry "type" ForeignType.toJson member.type)
          { name := some member.name, kind := some member.kind, type } :=
    exists_leads_optionEntry rfl fun type =>
      ⟨_, rfl, rfl, _, type.reads.optional.mono (by omega), rfl⟩
  obtain ⟨signatures, hsignatures, hsignaturesEntry⟩ :
      ∃ signatures : Option (List Signature), signatures.getD [] = member.signatures ∧
        Member.record.Leads 5 { name := some member.name, kind := some member.kind, type }
          (listEntry "signatures" Signature.toJson member.signatures)
          { name := some member.name, kind := some member.kind, type, signatures } :=
    exists_leads_listEntry rfl ⟨_, rfl, rfl, _, reads_list fun signature _ => signature.reads, rfl⟩
  have hbegin := (Record.Leads.enter hname hkind.leads).append htypeEntry
  refine Record.reads (hbegin.append hsignaturesEntry) ?_
  change Except.ok _ = _
  rw [htype, hsignatures]

theorem legible (symbol : Symbol) : symbol.toJson.Legible := by
  refine .object fun entry hentry => ?_
  simp only [List.mem_append, List.mem_cons, List.not_mem_nil, or_false, mem_optionEntry,
    mem_listEntry] at hentry
  obtain ((((((rfl | rfl) | ⟨scope, -, rfl⟩) | ⟨type, -, rfl⟩) | ⟨-, rfl⟩) | ⟨parent, -, rfl⟩) |
    ⟨-, rfl⟩) := hentry
  · exact .string _
  · exact .string _
  · exact .string _
  · exact type.legible
  · exact .array (List.forall_mem_map.mpr fun signature _ => signature.legible)
  · exact parent.legible
  · exact .array (List.forall_mem_map.mpr fun member _ => member.legible)

theorem Kind.choice_label (kind : Kind) : Choice.among Kind.words kind.label = .ok kind := by
  cases kind <;> rfl

/-- **A symbol is read as it was written**, with what it has and what it leaves open. -/
theorem reads (symbol : Symbol) : Reads 8 record.read symbol.toJson symbol := by
  have hname : record.Enters 7 "name" (.string symbol.name) {} { name := some symbol.name } :=
    ⟨_, rfl, rfl, _, (reads_text _).mono (by omega), rfl⟩
  have hkind : record.Enters 7 "kind" (.string symbol.kind.label)
      { name := some symbol.name } { name := some symbol.name, kind := some symbol.kind } :=
    ⟨_, rfl, rfl, _, (reads_variant symbol.kind.choice_label).mono (by omega), rfl⟩
  obtain ⟨scope, hscope, hscopeEntry⟩ :
      ∃ scope : Option (Option String), scope.getD none = symbol.scope ∧
        record.Leads 7 { name := some symbol.name, kind := some symbol.kind }
          (optionEntry "namespace" .string symbol.scope)
          { name := some symbol.name, kind := some symbol.kind, scope } :=
    exists_leads_optionEntry rfl fun scope =>
      ⟨_, rfl, rfl, _, (reads_text scope).optional.mono (by omega), rfl⟩
  obtain ⟨type, htype, htypeEntry⟩ :
      ∃ type : Option (Option ForeignType), type.getD none = symbol.type ∧
        record.Leads 7 { name := some symbol.name, kind := some symbol.kind, scope }
          (optionEntry "type" ForeignType.toJson symbol.type)
          { name := some symbol.name, kind := some symbol.kind, scope, type } :=
    exists_leads_optionEntry rfl fun type =>
      ⟨_, rfl, rfl, _, type.reads.optional.mono (by omega), rfl⟩
  obtain ⟨signatures, hsignatures, hsignaturesEntry⟩ :
      ∃ signatures : Option (List Signature), signatures.getD [] = symbol.signatures ∧
        record.Leads 7 { name := some symbol.name, kind := some symbol.kind, scope, type }
          (listEntry "signatures" Signature.toJson symbol.signatures)
          { name := some symbol.name, kind := some symbol.kind, scope, type, signatures } :=
    exists_leads_listEntry rfl
      ⟨_, rfl, rfl, _, (reads_list fun signature _ => signature.reads).mono (by omega), rfl⟩
  obtain ⟨parent, hparent, hparentEntry⟩ :
      ∃ parent : Option (Option ForeignType), parent.getD none = symbol.parent ∧
        record.Leads 7
          { name := some symbol.name, kind := some symbol.kind, scope, type, signatures }
          (optionEntry "parent" ForeignType.toJson symbol.parent)
          { name := some symbol.name, kind := some symbol.kind, scope, type, signatures, parent } :=
    exists_leads_optionEntry rfl fun type =>
      ⟨_, rfl, rfl, _, type.reads.optional.mono (by omega), rfl⟩
  obtain ⟨members, hmembers, hmembersEntry⟩ :
      ∃ members : Option (List Member), members.getD [] = symbol.members ∧
        record.Leads 7
          { name := some symbol.name, kind := some symbol.kind, scope, type, signatures, parent }
          (listEntry "members" Member.toJson symbol.members)
          { name := some symbol.name, kind := some symbol.kind, scope, type, signatures, parent,
            members } :=
    exists_leads_listEntry rfl
      ⟨_, rfl, rfl, _, reads_list fun member _ => member.reads, rfl⟩
  have hbegin := (Record.Leads.enter hname hkind.leads).append hscopeEntry
  have htypes := (hbegin.append htypeEntry).append hsignaturesEntry
  refine Record.reads ((htypes.append hparentEntry).append hmembersEntry) ?_
  change Except.ok _ = _
  rw [hscope, htype, hsignatures, hparent, hmembers]

end Symbol

/-! ### Documents -/

namespace SymbolTable

theorem Contents.legible (contents : Contents) : contents.toJson.Legible := by
  have hsources : Legible (.array (contents.sources.map .string)) :=
    .array (List.forall_mem_map.mpr fun source _ => .string source)
  have hsymbols : Legible (.array (contents.symbols.map Symbol.toJson)) :=
    .array (List.forall_mem_map.mpr fun symbol _ => symbol.legible)
  exact .object (by simp [hsources, hsymbols])

theorem Contents.reads (contents : Contents) :
    Reads 10 Contents.record.read contents.toJson contents := by
  have hsources : Contents.record.Enters 9 "sources" (.array (contents.sources.map .string)) {}
      { sources := some contents.sources } :=
    ⟨_, rfl, rfl, _, (reads_list fun source _ => reads_text source).mono (by omega), rfl⟩
  have hsymbols : Contents.record.Enters 9 "symbols" (.array (contents.symbols.map Symbol.toJson))
      { sources := some contents.sources }
      { sources := some contents.sources, symbols := some contents.symbols } :=
    ⟨_, rfl, rfl, _, reads_list fun symbol _ => symbol.reads, rfl⟩
  exact Record.reads (.enter hsources hsymbols.leads) rfl

/-- **What a document says is what was written**, with nothing after it. -/
theorem Contents.ofText_chars (contents : Contents) :
    Contents.ofText contents.toJson.chars = .ok contents := by
  have hholds := contents.legible.holds []
  obtain ⟨c, text, hchars, hblank, -⟩ := contents.legible.begins
  have hnode : Node.ofText contents.toJson.chars = (Json.readNode contents.toJson.chars).val := by
    rw [Node.ofText, hchars, Json.skipBlanks_cons hblank]
  rw [List.append_nil, ← hnode] at hholds
  have hafter : (Node.ofText contents.toJson.chars).after = [] := by
    rw [Node.after, hholds.lax_eq]
    rfl
  rw [Contents.ofText, contents.reads 0 (by decide) _ _ hholds]
  change (if (Json.skipBlanks (Node.ofText contents.toJson.chars).after).isEmpty then _ else _) = _
  rw [hafter]
  rfl

theorem ofDocument_write (path : String) (contents : Contents) :
    ofDocument path contents.toJson.write =
      .ok (ofSymbols (if contents.sources.isEmpty then [path] else contents.sources)
        contents.symbols) := by
  rw [ofDocument, Json.write, String.toList_ofList, contents.ofText_chars]

/-- **A symbol table is read back from its document**: whatever the path, the same files and the
same symbols come out in the same order, as long as there is a file. -/
theorem ofDocument_document (path : String) {sources : List String} (symbols : List Symbol)
    (h : sources ≠ []) :
    ofDocument path (ofSymbols sources symbols).document = .ok (ofSymbols sources symbols) ∧
      (ofSymbols sources symbols).sources = sources ∧
      (ofSymbols sources symbols).symbols.toList = symbols := by
  have hread := ofDocument_write path ⟨sources, symbols⟩
  have hsome : sources.isEmpty = false := List.isEmpty_eq_false_iff.mpr h
  rw [if_neg (by simp [hsome])] at hread
  exact ⟨hread, rfl, rfl⟩

theorem ofDocument_document_birds :
    let sources := ["birds.ts", "ponds \"et al\".ts"]
    let symbols :=
      [((Symbol.ofClass "Duck").within "ponds").extending "Bird" |>.withMember
          (.ofConstructor [⟨[⟨"weight", .number⟩], .void⟩, {}]) |>.withMember
          ⟨"[index]", .other, none, []⟩,
        (Symbol.ofInterface "Bird").withMember (.ofField "name" .string) |>.withMember
          (.ofMethod "call" [⟨[⟨"to", .named "Bird"⟩], .other "Call | undefined"⟩]),
        Symbol.ofFunction "quack" [⟨[], .boolean⟩], Symbol.ofGlobal "pond" (.named "Pond")]
    sources ≠ [] ∧
      SymbolTable.ofDocument "birds.json" (ofSymbols sources symbols).document =
        .ok (ofSymbols sources symbols) :=
  ⟨List.cons_ne_nil _ _, (ofDocument_document _ _ (List.cons_ne_nil _ _)).1⟩

end SymbolTable

end Bindery
