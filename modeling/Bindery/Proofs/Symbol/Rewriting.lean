import Bindery.Proofs.Json.Tagged
import Bindery.Proofs.Symbol.Document
import Mathlib.Logic.Relation

/-!
# Documents written in another way

The same symbol table can be written in many ways: the entries of an object may stand in another
order, entries that nobody asks for may be there or not, and so may those that say what is taken for
granted anyway. All of them are read as the same table
(`Bindery.SymbolTable.ofDocument_rewritten`).

For each part of a document, `Bindery.ForeignType.Change` and its like say how it may be written in
another way, in one place: by a change of this part itself, or of one within it. The parts that are
records differ in which fields hold further parts and in what they take for granted, and each is one
list of both. A type is not a record: it must be known what type it is before it can be said which
entries do not belong to it, and whatever does not is read nevertheless.

A **manuscript** (`Bindery.SymbolTable.Manuscript`) is a document as it is written, to the letter.
Every text that is accepted has one, so nothing that can be loaded is left out.
-/

namespace Bindery

open Json (Blanks Choice Content Finds Gap Lead ListChange Node Record Respects Rewriting Steady
  Written)

variable {depth : ℕ} {written written' : Written} {rest : List Char}

/-! ### Types -/

namespace ForeignType

variable {label text : String} {found : Option String} {kept kept' : List (String × Json)}
  {tag : Tag} {type : ForeignType}

/-- **The text that is asked for** is the one entry of this label. -/
theorem textEntry_eq_ok_iff : textEntry label found kept = .ok text ↔
    found.toList.map Json.string ++ (kept.filter (·.1 = label)).map Prod.snd = [.string text] := by
  induction kept generalizing found with
  | nil => cases found <;> simp [textEntry]
  | cons entry kept ih =>
    obtain ⟨key, value⟩ := entry
    by_cases hkey : key = label
    · cases found with
      | some other => simp [textEntry, hkey]
      | none =>
        cases value <;> simp [textEntry, hkey, textOf, ih, bind, Except.bind]
    · cases found <;> simp [textEntry, hkey, ih]

theorem textEntry_perm (hperm : kept.Perm kept') (h : textEntry label none kept = .ok text) :
    textEntry label none kept' = .ok text := by
  rw [textEntry_eq_ok_iff] at h ⊢
  rw [Option.toList_none, List.map_nil, List.nil_append] at h ⊢
  have htexts := (hperm.filter (·.1 = label)).map Prod.snd
  rw [h] at htexts
  exact (List.singleton_perm.mp htexts).symm

theorem textEntry_add {key : String} (hkey : key ≠ label) (value : Json)
    (h : textEntry label none kept = .ok text) :
    textEntry label none ((key, value) :: kept) = .ok text := by
  rw [textEntry_eq_ok_iff] at h ⊢
  simpa [hkey] using h

/-- The labels of the entries that say what type it is. -/
def labels : ForeignType → List String
  | named _ => ["kind", "name"]
  | other _ => ["kind", "text"]
  | _ => ["kind"]

theorem ofContent_perm (hperm : kept.Perm kept') (h : ofContent tag (.entries kept) = .ok type) :
    ofContent tag (.entries kept') = .ok type := by
  cases tag with
  | primitive primitive => exact h
  | reference =>
    obtain ⟨name, hname, rfl⟩ := Json.map_eq_ok_iff.mp h
    exact Json.map_eq_ok_iff.mpr ⟨name, textEntry_perm hperm hname, rfl⟩
  | opaqueText =>
    obtain ⟨text, htext, rfl⟩ := Json.map_eq_ok_iff.mp h
    exact Json.map_eq_ok_iff.mpr ⟨text, textEntry_perm hperm htext, rfl⟩

theorem ofContent_add (hlabel : label ∉ type.labels) (value : Json)
    (h : ofContent tag (.entries kept) = .ok type) :
    ofContent tag (.entries ((label, value) :: kept)) = .ok type := by
  cases tag with
  | primitive primitive => exact h
  | reference =>
    obtain ⟨name, hname, rfl⟩ := Json.map_eq_ok_iff.mp h
    have hne : label ≠ "name" := fun heq => hlabel (by simp [labels, heq])
    exact Json.map_eq_ok_iff.mpr ⟨name, textEntry_add hne value hname, rfl⟩
  | opaqueText =>
    obtain ⟨text, htext, rfl⟩ := Json.map_eq_ok_iff.mp h
    have hne : label ≠ "text" := fun heq => hlabel (by simp [labels, heq])
    exact Json.map_eq_ok_iff.mpr ⟨text, textEntry_add hne value htext, rfl⟩

/-- **A type stands here** if a tag is borne with a content that makes it this type. -/
def Stands (depth : ℕ) (written : Written) (type : ForeignType) : Prop :=
  ∃ tag content, Json.Bears "kind" (Choice.among tags) depth written tag content ∧
    ofContent tag content = .ok type

theorem read_eq_ok_iff {node : Node} (hshows : node.Shows written rest) :
    ForeignType.read depth node = .ok type ↔ Stands depth written type := by
  simp only [ForeignType.read, Json.bind_eq_ok_iff, Json.mapError_eq_ok_iff]
  constructor
  · rintro ⟨⟨tag, content⟩, hread, htype⟩
    exact ⟨tag, content, (Json.Node.readTagged_eq_ok_iff hshows _).mp hread, htype⟩
  · rintro ⟨tag, content, hbears, htype⟩
    exact ⟨⟨tag, content⟩, (Json.Node.readTagged_eq_ok_iff hshows _).mpr hbears, htype⟩

theorem steady_read (depth : ℕ) : Steady (ForeignType.read depth) :=
  Json.steady_of_iff fun _ _ _ _ hshows => read_eq_ok_iff hshows

theorem finds_read_iff : Finds (ForeignType.read depth) written type ↔ Stands depth written type :=
  Json.finds_iff (fun written type => Stands depth written type)
    fun _ _ _ _ hshows => read_eq_ok_iff hshows

/-- **A type is written in another way**, in one place. -/
inductive Change (depth : ℕ) : Written → Written → Prop
  /-- The entries are rearranged. -/
  | rearrange {written written' : Written} (h : written.Rearranged written') :
    Change depth written written'
  /-- An entry is added that does not say what type it is. As it is kept before this is known, its
  value must be one that can be read where it stands. -/
  | add {before after : List (Lead × Written)} {lead : Lead} {value : Written} {last : Blanks}
    {type : ForeignType} {label : String} {json : Json}
    (htype : Finds (ForeignType.read depth) (.object (before ++ after) last) type)
    (hlead : lead.Says label) (hlabel : label ∉ type.labels)
    (hvalue : value.Reads (depth + 1) json) :
    Change depth (.object (before ++ after) last) (.object (before ++ (lead, value) :: after) last)

theorem Stands.rearrange (hchange : written.Rearranged written') (h : Stands depth written type) :
    Stands depth written' type := by
  obtain ⟨tag, content, hbears, htype⟩ := h
  cases hchange with
  | reorder hperm =>
    cases hbears with
    | object hdepth hsorts =>
      obtain ⟨kept, hkept, hsorts⟩ := hsorts.exists_perm hperm
      exact ⟨tag, .entries kept, .object hdepth hsorts, ofContent_perm hkept htype⟩
  | respace hsaid =>
    cases hbears with
    | object hdepth hsorts => exact ⟨tag, _, .object hdepth (hsorts.respace hsaid), htype⟩

theorem Stands.add {before after : List (Lead × Written)} {lead : Lead} {value : Written}
    {last : Blanks} {json : Json} (h : Stands depth (.object (before ++ after) last) type)
    (hlead : lead.Says label) (hlabel : label ∉ type.labels)
    (hvalue : value.Reads (depth + 1) json) :
    Stands depth (.object (before ++ (lead, value) :: after) last) type := by
  obtain ⟨tag, content, hbears, htype⟩ := h
  have hkind : label ≠ "kind" := by
    rintro rfl
    cases type <;> simp [labels] at hlabel
  cases hbears with
  | object hdepth hsorts =>
    obtain ⟨kept, hkept, hsorts⟩ := hsorts.exists_add hlead hkind hvalue
    have hcontent := ofContent_add hlabel json htype
    exact ⟨tag, .entries kept, .object hdepth hsorts, ofContent_perm hkept.symm hcontent⟩

/-- **The reader of a type respects the changes of a type.** -/
theorem respects_change (depth : ℕ) : Respects (Change depth) (ForeignType.read depth) := by
  intro written written' type hchange hfinds
  cases hchange with
  | rearrange hchange => exact finds_read_iff.mpr ((finds_read_iff.mp hfinds).rearrange hchange)
  | add htype hlead hlabel hvalue =>
    obtain rfl := hfinds.unique htype
    exact finds_read_iff.mpr ((finds_read_iff.mp hfinds).add hlead hlabel hvalue)

/-- A type is an object before and after a change, so it is not null. -/
theorem Change.not_null (h : Change depth written written') :
    ¬written.Is .null ∧ ¬written'.Is .null := by
  cases h with
  | rearrange h =>
    cases h with
    | reorder => exact ⟨Written.not_is_object, Written.not_is_object⟩
    | respace => exact ⟨Written.not_is_object, Written.not_is_object⟩
  | add => exact ⟨Written.not_is_object, Written.not_is_object⟩

theorem respects_optional (depth : ℕ) :
    Respects (Change depth) (Node.readOptional (ForeignType.read depth)) :=
  (respects_change depth).optional fun _ _ => Change.not_null

end ForeignType

namespace Symbol

/-! ### Parameters and signatures -/

/-- A parameter is written in another way. It takes nothing for granted. -/
def Param.Change : Rewriting :=
  Param.record.Change [("type", ForeignType.Change)] []

/-- The fields of a parameter are read, known and set one apart from the other. -/
theorem Param.lawful : Param.record.Lawful where
  steady := by
    simp only [Record.IsSteady, Param.record, textField, List.forall_mem_cons]
    exact ⟨fun _ => Json.steady_readText, ForeignType.steady_read, nofun⟩
  get_set := by simp [Param.record, textField]
  apart := by simp [Param.record, textField, Json.Field.apart_iff]

theorem Param.allows : Param.record.Allows [("type", ForeignType.Change)] [] where
  parts := List.forall_mem_singleton.mpr ⟨_, rfl, ForeignType.respects_change⟩
  defaults := nofun

/-- The fields of a signature that are written in several ways themselves. -/
def Signature.parts : List (String × Rewriting) :=
  [("params", ListChange Param.Change), ("returns", ForeignType.Change)]

/-- **What a signature takes for granted**: that there are no parameters and nothing is returned. -/
def Signature.defaults : List (String × (ℕ → Written → Prop)) :=
  [("params", fun _ value => value.IsEmptyList),
   ("returns", fun depth value => Finds (ForeignType.read depth) value .void)]

/-- A signature is written in another way. -/
def Signature.Change : Rewriting := Signature.record.Change Signature.parts Signature.defaults

theorem Signature.lawful : Signature.record.Lawful where
  steady := by
    simp only [Record.IsSteady, Signature.record, List.forall_mem_cons]
    exact ⟨Param.lawful.steady_list, ForeignType.steady_read, nofun⟩
  get_set := by simp [Signature.record]
  apart := by simp [Signature.record, Json.Field.apart_iff]

theorem Signature.allows : Signature.record.Allows Signature.parts Signature.defaults where
  parts := by
    have hparams := Record.respects_list Param.lawful Param.allows
    -- the field of each label is found by looking it up
    simp only [Signature.parts, List.forall_mem_cons]
    exact ⟨⟨_, rfl, hparams⟩, ⟨_, rfl, ForeignType.respects_change⟩, nofun⟩
  defaults := by
    simp only [Signature.defaults, List.forall_mem_cons]
    refine ⟨⟨_, rfl, Record.presumes_of_eq [] (fun _ _ _ => Json.eq_nil_of_finds) ?_⟩,
      ⟨_, rfl, Record.presumes_of_eq ForeignType.void (fun _ _ _ h h' => h'.unique h) ?_⟩, nofun⟩
    · rintro ⟨_, _⟩ ⟨⟩
      rfl
    · rintro ⟨_, _⟩ ⟨⟩
      rfl

/-! ### Members and symbols -/

/-- The fields of a member that are written in several ways themselves. -/
def Member.parts : List (String × Rewriting) :=
  [("type", ForeignType.Change), ("signatures", ListChange Signature.Change)]

/-- **What a member takes for granted**: that it has no type and no overloads. -/
def Member.defaults : List (String × (ℕ → Written → Prop)) :=
  [("type", fun _ value => value.Is .null), ("signatures", fun _ value => value.IsEmptyList)]

/-- A member is written in another way. -/
def Member.Change : Rewriting := Member.record.Change Member.parts Member.defaults

theorem Member.lawful : Member.record.Lawful where
  steady := by
    simp only [Record.IsSteady, Member.record, textField, List.forall_mem_cons]
    exact ⟨fun _ => Json.steady_readText, Json.steady_readVariant _,
      fun _ => (ForeignType.steady_read _).optional, Signature.lawful.steady_list, nofun⟩
  get_set := by simp [Member.record, textField]
  apart := by simp [Member.record, textField, Json.Field.apart_iff]

theorem Member.allows : Member.record.Allows Member.parts Member.defaults where
  parts := by
    have hsignatures := Record.respects_list Signature.lawful Signature.allows
    simp only [Member.parts, List.forall_mem_cons]
    exact ⟨⟨_, rfl, ForeignType.respects_optional⟩, ⟨_, rfl, hsignatures⟩, nofun⟩
  defaults := by
    simp only [Member.defaults, List.forall_mem_cons]
    refine ⟨⟨_, rfl, Record.presumes_of_eq none (fun _ _ _ => Json.eq_none_of_finds) ?_⟩,
      ⟨_, rfl, Record.presumes_of_eq [] (fun _ _ _ => Json.eq_nil_of_finds) ?_⟩, nofun⟩
    · rintro ⟨_, _, _, _⟩ ⟨⟩
      rfl
    · rintro ⟨_, _, _, _⟩ ⟨⟩
      rfl

/-- The fields of a symbol that are written in several ways themselves. -/
def parts : List (String × Rewriting) :=
  [("type", ForeignType.Change), ("signatures", ListChange Signature.Change),
   ("parent", ForeignType.Change), ("members", ListChange Member.Change)]

/-- **What a symbol takes for granted**: that it is in no namespace, has no type and no overloads,
extends nothing and declares nothing. -/
def defaults : List (String × (ℕ → Written → Prop)) :=
  [("namespace", fun _ value => value.Is .null), ("type", fun _ value => value.Is .null),
   ("signatures", fun _ value => value.IsEmptyList), ("parent", fun _ value => value.Is .null),
   ("members", fun _ value => value.IsEmptyList)]

/-- A symbol is written in another way. -/
def Change : Rewriting := record.Change parts defaults

theorem lawful : record.Lawful where
  steady := by
    simp only [Record.IsSteady, record, textField, List.forall_mem_cons]
    exact ⟨fun _ => Json.steady_readText, Json.steady_readVariant _,
      fun _ => Json.steady_readText.optional, fun _ => (ForeignType.steady_read _).optional,
      Signature.lawful.steady_list, fun _ => (ForeignType.steady_read _).optional,
      Member.lawful.steady_list, nofun⟩
  get_set := by simp [record, textField]
  apart := by simp [record, textField, Json.Field.apart_iff]

theorem allows : record.Allows parts defaults where
  parts := by
    have hsignatures := Record.respects_list Signature.lawful Signature.allows
    have hmembers := Record.respects_list Member.lawful Member.allows
    simp only [parts, List.forall_mem_cons]
    exact ⟨⟨_, rfl, ForeignType.respects_optional⟩, ⟨_, rfl, hsignatures⟩,
      ⟨_, rfl, ForeignType.respects_optional⟩, ⟨_, rfl, hmembers⟩, nofun⟩
  defaults := by
    simp only [defaults, List.forall_mem_cons]
    refine ⟨⟨_, rfl, Record.presumes_of_eq none (fun _ _ _ => Json.eq_none_of_finds) ?_⟩,
      ⟨_, rfl, Record.presumes_of_eq none (fun _ _ _ => Json.eq_none_of_finds) ?_⟩,
      ⟨_, rfl, Record.presumes_of_eq [] (fun _ _ _ => Json.eq_nil_of_finds) ?_⟩,
      ⟨_, rfl, Record.presumes_of_eq none (fun _ _ _ => Json.eq_none_of_finds) ?_⟩,
      ⟨_, rfl, Record.presumes_of_eq [] (fun _ _ _ => Json.eq_nil_of_finds) ?_⟩, nofun⟩
    all_goals
      rintro ⟨_, _, _, _, _, _, _⟩ ⟨⟩
      rfl

end Symbol

/-! ### Documents -/

namespace SymbolTable

/-- The fields of a document that are written in several ways themselves. -/
def Contents.parts : List (String × Rewriting) := [("symbols", ListChange Symbol.Change)]

/-- **What a document takes for granted**: that it names no files. -/
def Contents.defaults : List (String × (ℕ → Written → Prop)) :=
  [("sources", fun _ value => value.IsEmptyList)]

/-- A document is written in another way. -/
def Contents.Change : Rewriting := Contents.record.Change Contents.parts Contents.defaults

theorem Contents.lawful : Contents.record.Lawful where
  steady := by
    simp only [Record.IsSteady, Contents.record, List.forall_mem_cons]
    exact ⟨fun _ => Json.steady_readList Json.steady_readText, Symbol.lawful.steady_list, nofun⟩
  get_set := by simp [Contents.record]
  apart := by simp [Contents.record, Json.Field.apart_iff]

theorem Contents.allows : Contents.record.Allows Contents.parts Contents.defaults where
  parts :=
    List.forall_mem_singleton.mpr ⟨_, rfl, Record.respects_list Symbol.lawful Symbol.allows⟩
  defaults := by
    simp only [Contents.defaults, List.forall_mem_cons]
    have hempty : ∀ depth value known, Written.IsEmptyList value →
        Finds (Node.readList (fun _ node => node.readText) depth) value known → known = [] :=
      fun _ _ _ => Json.eq_nil_of_finds
    refine ⟨⟨_, rfl, Record.presumes_of_eq [] hempty ?_⟩, nofun⟩
    rintro ⟨_, _⟩ ⟨⟩
    rfl

theorem Contents.respects_change (depth : ℕ) :
    Respects (Contents.Change depth) (Contents.record.read depth) :=
  Record.respects_change Contents.lawful Contents.allows depth

/-- **A document as it is written**, with the blanks around it. -/
structure Manuscript where
  before : Blanks
  value : Written
  after : Blanks

namespace Manuscript

variable {contents : Contents}

def chars (manuscript : Manuscript) : List Char :=
  manuscript.before.chars ++ (manuscript.value.chars ++ manuscript.after.chars)

/-- **The text of a document as it is written**, to the letter. -/
def text (manuscript : Manuscript) : String := .ofList manuscript.chars

/-- **A document is rewritten** in one place. The blanks around it may be any. -/
def Rewritten (manuscript manuscript' : Manuscript) : Prop :=
  Contents.Change 0 manuscript.value manuscript'.value

theorem shows (manuscript : Manuscript) :
    (Node.ofText manuscript.chars).Shows manuscript.value manuscript.after.chars := by
  have hend : Json.Delimits [] := nofun
  have hafter := hend.blanks manuscript.after
  rw [List.append_nil] at hafter
  rw [Node.ofText, chars, manuscript.before.skipBlanks_append, Written.skipBlanks_append]
  exact manuscript.value.stands _ hafter

/-- **What a document says** is what is found in its value. -/
theorem ofText_eq_ok_iff (manuscript : Manuscript) :
    Contents.ofText manuscript.chars = .ok contents ↔
      Finds (Contents.record.read 0) manuscript.value contents := by
  have hshows := manuscript.shows
  have hrest : Json.skipBlanks (Node.ofText manuscript.chars).after = [] := by
    have hskip := manuscript.after.skipBlanks_append []
    rw [List.append_nil] at hskip
    rw [Node.after, hshows.lax_eq]
    exact hskip
  rw [Contents.ofText]
  simp only [hrest, List.isEmpty_nil, if_true, Json.bind_eq_ok_iff]
  constructor
  · rintro ⟨contents, hread, heq⟩
    obtain rfl := Except.ok.inj heq
    exact Record.steady_read Contents.lawful.steady 0 _ _ _ _ hshows hread
  · exact fun h => ⟨contents, h _ _ hshows, rfl⟩

end Manuscript

/-- **Every document that is accepted was written** in some way. -/
theorem exists_manuscript {text : List Char} {contents : Contents}
    (h : Contents.ofText text = .ok contents) :
    ∃ manuscript : Manuscript, manuscript.chars = text := by
  rw [Contents.ofText] at h
  obtain ⟨contents, hread, h⟩ := Json.bind_eq_ok_iff.mp h
  obtain ⟨rest, hlax⟩ := Record.exists_lax_of_read hread
  obtain ⟨value, hvalue⟩ := Json.exists_written (Json.skipBlanks text) rest hlax
  obtain ⟨before, hbefore⟩ := Json.exists_blanks text
  obtain ⟨after, hafter⟩ := Json.exists_blanks rest
  have hnode : (Node.ofText text).after = rest := by
    rw [Node.after, hlax]
    rfl
  have hempty : Json.skipBlanks rest = [] := by
    simp only [hnode] at h
    split at h
    · next hempty => exact List.isEmpty_iff.mp hempty
    · cases h
  rw [hempty, List.append_nil] at hafter
  refine ⟨⟨before, value, after⟩, ?_⟩
  rw [Manuscript.chars, ← hafter, ← hvalue, ← hbefore]

theorem ofDocument_eq_ok_iff {path text : String} {table : SymbolTable} :
    ofDocument path text = .ok table ↔ ∃ contents, Contents.ofText text.toList = .ok contents ∧
      ofSymbols (if contents.sources.isEmpty then [path] else contents.sources) contents.symbols =
        table := by
  rw [ofDocument]
  cases Contents.ofText text.toList with
  | error fault => simp
  | ok contents => simp

/-- **Loading does not depend on how a document is written**: a text that is accepted has a
manuscript, and however this is rewritten, one place after the other, it is loaded as the same
table. -/
theorem ofDocument_rewritten (path : String) {text : String} {table : SymbolTable}
    (h : ofDocument path text = .ok table) :
    (∃ manuscript : Manuscript, manuscript.text = text) ∧
      ∀ manuscript manuscript' : Manuscript, manuscript.text = text →
        Relation.ReflTransGen Manuscript.Rewritten manuscript manuscript' →
          ofDocument path manuscript'.text = .ok table := by
  obtain ⟨contents, hcontents, rfl⟩ := ofDocument_eq_ok_iff.mp h
  constructor
  · obtain ⟨manuscript, hmanuscript⟩ := exists_manuscript hcontents
    exact ⟨manuscript, by rw [Manuscript.text, hmanuscript, String.ofList_toList]⟩
  · rintro manuscript manuscript' rfl hrewritten
    rw [Manuscript.text, String.toList_ofList, Manuscript.ofText_eq_ok_iff] at hcontents
    have hfinds : Finds (Contents.record.read 0) manuscript'.value contents := by
      induction hrewritten with
      | refl => exact hcontents
      | tail _ hchange ih => exact Contents.respects_change 0 _ _ _ hchange ih
    refine ofDocument_eq_ok_iff.mpr ⟨contents, ?_, rfl⟩
    rw [Manuscript.text, String.toList_ofList, Manuscript.ofText_eq_ok_iff]
    exact hfinds

/-- A document with one symbol, after the entry for its files if there is one. -/
def Manuscript.ofSymbol (sources symbol : List (Lead × Written)) : Manuscript :=
  let symbols : Written := .array [(⟨.none, .none⟩, .object symbol .none)] .none
  ⟨.none, .object (sources ++ [(.quoted "symbols", symbols)]) .none, .none⟩

theorem ofDocument_rewritten_duck :
    let name : Lead × Written := (.quoted "name", .scalar (.quoted "Duck"))
    let kind : Lead × Written := (.quoted "kind", .scalar (.quoted "class"))
    let legs : Lead × Written := (.quoted "legs", .array [] .none)
    let table := ofSymbols ["ponds.json"] [Symbol.ofClass "Duck"]
    let manuscript := Manuscript.ofSymbol [(.quoted "sources", .array [] .none)] [name, kind]
    let manuscript' := Manuscript.ofSymbol [] [kind, name, legs]
    manuscript'.text =
        "\x7b\"symbols\":[\x7b\"kind\":\"class\",\"name\":\"Duck\",\"legs\":[]\x7d]\x7d" ∧
      ofDocument "ponds.json" manuscript.text = .ok table ∧
      ofDocument "ponds.json" manuscript'.text = .ok table := by
  intro name kind legs table manuscript manuscript'
  have hread : ofDocument "ponds.json" manuscript.text = .ok table :=
    ofDocument_write "ponds.json" ⟨[], [Symbol.ofClass "Duck"]⟩
  have hsources : manuscript.Rewritten (Manuscript.ofSymbol [] [name, kind]) :=
    @Record.Change.remove _ _ _ _ _ _ [] _ _ _ _ _ _ (Lead.says_quoted "sources")
      List.mem_cons_self ⟨_, rfl⟩
  have hsymbol : ∀ symbol symbol', Symbol.Change 2 (.object symbol .none) (.object symbol' .none) →
      (Manuscript.ofSymbol [] symbol).Rewritten (Manuscript.ofSymbol [] symbol') := by
    intro symbol symbol' h
    exact @Record.Change.entry _ _ _ _ _ _ [] _ _ _ _ _ _ _ (Lead.says_quoted "symbols")
      List.mem_cons_self (@ListChange.item _ _ [] _ _ _ _ _ h)
  have hlegs : (Manuscript.ofSymbol [] [name, kind]).Rewritten
      (Manuscript.ofSymbol [] [name, kind, legs]) :=
    hsymbol _ _ (@Record.Change.add _ _ _ _ _ _ [name, kind] [] _ _ _ _ (Lead.says_quoted "legs")
      rfl)
  have horder : (Manuscript.ofSymbol [] [name, kind, legs]).Rewritten manuscript' :=
    hsymbol _ _ (.rearrange (.reorder (.swap _ _ _)))
  have hrewritten := ((Relation.ReflTransGen.single hsources).tail hlegs).tail horder
  exact ⟨rfl, hread, (ofDocument_rewritten _ hread).2 _ _ rfl hrewritten⟩

end SymbolTable

end Bindery
