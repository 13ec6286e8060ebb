import Bindery.Proofs.Json.Finding
import Mathlib.Data.List.Pairwise

/-!
# Writing a document in another way

A reader **respects** a change of what is written (`Bindery.Json.Respects`) if whatever it finds, it
finds after the change as well. This file says which changes the readers of lists and records
respect.

The entries of an object can be **rearranged** (`Bindery.Json.Written.Rearranged`): their order is
free, and so are the blanks between them. A **change of a record** (`Bindery.Json.Record.Change`)
rearranges its entries, adds one that belongs to no field, removes one that says no more than what
is taken for granted without it, or changes a value in a way that the reader of its field respects.

That the order of the entries does not matter rests on what one step does to a draft. The fields of
a record are **apart** (`Bindery.Json.Field.Apart`): each knows only of itself, and it is the same
which of two is set first. So two entries next to each other may change places
(`Bindery.Json.Record.Takes.swap`), and with this all entries may.
-/

namespace Bindery.Json

variable {α : Type} {read : Node → Except Fault α} {written written' : Written} {known : α}

/-- A change of what is written inside so many containers. -/
abbrev Rewriting : Type := ℕ → Written → Written → Prop

/-- **A reader respects a change** if it finds after it what it found before. -/
def Respects (change : Written → Written → Prop) (read : Node → Except Fault α) : Prop :=
  ∀ written written' known, change written written' → Finds read written known →
    Finds read written' known

/-! ### Optional values and lists -/

theorem finds_optional_iff (hnull : ¬written.Is .null) {known : Option α} :
    Finds (Node.readOptional read) written known ↔
      ∃ value, known = some value ∧ Finds read written value := by
  constructor
  · intro h
    have hmap : ∀ node rest, node.Shows written rest → (read node).map some = .ok known :=
      fun node rest hshows => readOptional_of_not_null hnull hshows ▸ h node rest hshows
    obtain ⟨node, hnode⟩ := exists_shows written
    obtain ⟨value, -, rfl⟩ := map_eq_ok_iff.mp (hmap node [] hnode)
    refine ⟨value, rfl, fun node rest hshows => ?_⟩
    obtain ⟨value', hvalue, heq⟩ := map_eq_ok_iff.mp (hmap node rest hshows)
    rw [hvalue, Option.some.inj heq]
  · rintro ⟨value, rfl, h⟩ node rest hshows
    rw [readOptional_of_not_null hnull hshows, h node rest hshows]
    rfl

/-- A change that has nothing to do with null is respected by those who allow for null. -/
theorem Respects.optional {change : Written → Written → Prop} (h : Respects change read)
    (hnull : ∀ written written', change written written' →
      ¬written.Is .null ∧ ¬written'.Is .null) :
    Respects change (Node.readOptional read) := by
  intro written written' known hchange hfinds
  obtain ⟨hbefore, hafter⟩ := hnull written written' hchange
  rw [finds_optional_iff hbefore] at hfinds
  rw [finds_optional_iff hafter]
  obtain ⟨value, hknown, hvalue⟩ := hfinds
  exact ⟨value, hknown, h written written' value hchange hvalue⟩

theorem eq_none_of_finds {known : Option α} (hnull : written.Is .null)
    (h : Finds (Node.readOptional read) written known) : known = none := by
  obtain ⟨node, hnode⟩ := exists_shows written
  exact Except.ok.inj ((h node [] hnode).symm.trans (readOptional_of_null hnull hnode))

/-- An empty list is written here. -/
def Written.IsEmptyList (written : Written) : Prop :=
  ∃ last : Blanks, written = .array [] last

theorem eq_nil_of_finds {read : ℕ → Node → Except Fault α} {depth : ℕ} {knowns : List α}
    (hempty : written.IsEmptyList) (h : Finds (Node.readList read depth) written knowns) :
    knowns = [] := by
  obtain ⟨last, rfl⟩ := hempty
  obtain ⟨node, hnode⟩ := exists_shows (.array [] last)
  have hread := h node [] hnode
  cases hnode with
  | array hitems =>
    cases hitems
    obtain ⟨-, -, hread⟩ := bind_eq_ok_iff.mp hread
    exact (Except.ok.inj hread).symm

/-- **One item of a list is changed.** -/
inductive ListChange (change : Rewriting) (depth : ℕ) : Written → Written → Prop
  | item {before after : List (Gap × Written)} {gap : Gap} {item item' : Written} {last : Blanks}
    (h : change (depth + 1) item item') :
    ListChange change depth (.array (before ++ (gap, item) :: after) last)
      (.array (before ++ (gap, item') :: after) last)

/-- Items are matched as before if one of them is changed into one that is matched by the same. -/
theorem forall₂_change {σ τ : Type} {matched : σ → τ → Prop} {before after : List σ}
    {item item' : σ} {knowns : List τ} (hitem : ∀ known, matched item known → matched item' known)
    (h : List.Forall₂ matched (before ++ item :: after) knowns) :
    List.Forall₂ matched (before ++ item' :: after) knowns := by
  induction before generalizing knowns with
  | nil =>
    cases h with
    | cons hhead htail => exact .cons (hitem _ hhead) htail
  | cons _ _ ih =>
    cases h with
    | cons hhead htail => exact .cons hhead (ih htail)

/-- **A change of one item is respected** by the reader of a list if the reader of its items
respects it. -/
theorem Respects.readList {read : ℕ → Node → Except Fault α} {change : Rewriting} {depth : ℕ}
    (hsteady : Steady (read (depth + 1))) (h : Respects (change (depth + 1)) (read (depth + 1))) :
    Respects (ListChange change depth) (Node.readList read depth) := by
  rintro _ _ knowns ⟨hitem⟩ hfinds
  rw [finds_readList_iff hsteady] at hfinds ⊢
  cases hfinds with
  | array hdepth hitems =>
    exact .array hdepth (forall₂_change (fun known => h _ _ known hitem) hitems)

/-! ### Rearranging entries -/

/-- What an entry says, whatever blanks are written in it: its key and its value. -/
def said (entry : Lead × Written) : Key × Written := (entry.1.key, entry.2)

/-- **The entries of an object are rearranged**: they stand in another order or have other blanks
between them. -/
inductive Written.Rearranged : Written → Written → Prop
  | reorder {entries entries' : List (Lead × Written)} {last : Blanks} (h : entries.Perm entries') :
    Rearranged (.object entries last) (.object entries' last)
  | respace {entries entries' : List (Lead × Written)} {last last' : Blanks}
    (h : entries.map said = entries'.map said) :
    Rearranged (.object entries last) (.object entries' last')

/-- Entries that say the same as others begin with the same key and value. -/
theorem exists_of_said {lead : Lead} {value : Written} {entries entries' : List (Lead × Written)}
    (h : ((lead, value) :: entries).map said = entries'.map said) :
    ∃ lead' tail, entries' = (lead', value) :: tail ∧
      (∀ label, lead.Says label → lead'.Says label) ∧ entries.map said = tail.map said := by
  obtain ⟨⟨lead', value'⟩, tail, rfl, hentry, htail⟩ := List.map_eq_cons_iff.mp h.symm
  obtain ⟨hkey, rfl⟩ := Prod.mk.inj hentry
  refine ⟨lead', tail, rfl, fun label hlabel => ?_, htail.symm⟩
  rw [Lead.Says, ← hkey] at hlabel
  exact hlabel

theorem Lead.Says.unique {lead : Lead} {label label' : String} (h : lead.Says label)
    (h' : lead.Says label') : label = label' :=
  Except.ok.inj (h.symm.trans h')

/-! ### Records -/

section Fields

variable {δ : Type}

/-- **Two fields are apart**: setting one does not touch the other, and it does not matter which is
set first. -/
@[mk_iff]
structure Field.Apart (field other : Field δ) : Prop where
  get_set : ∀ value draft, other.get (field.set value draft) = other.get draft
  get_set_other : ∀ value draft, field.get (other.set value draft) = field.get draft
  set_comm : ∀ value value' draft,
    field.set value (other.set value' draft) = other.set value' (field.set value draft)

theorem Field.Apart.symm {field other : Field δ} (h : field.Apart other) : other.Apart field :=
  ⟨h.get_set_other, h.get_set, fun value value' draft => (h.set_comm value' value draft).symm⟩

instance : Std.Symm (@Field.Apart δ) := ⟨fun _ _ => Field.Apart.symm⟩

end Fields

namespace Record

variable {δ : Type} {record : Record δ α} {draft next : δ} {depth : ℕ} {lead : Lead}
  {value value' : Written} {before after entries entries' : List (Lead × Written)} {label : String}

/-- **The fields of a record behave like the entries of an object**: they are read by steady
readers, and each of them knows what it was set to and nothing else. -/
structure Lawful (record : Record δ α) : Prop where
  steady : record.IsSteady
  get_set : ∀ field ∈ record.fields, ∀ value draft, field.get (field.set value draft) = some value
  apart : record.fields.Pairwise Field.Apart

theorem Lawful.steady_list (hlawful : record.Lawful) (depth : ℕ) :
    Steady (Node.readList record.read depth) :=
  steady_readList (steady_read hlawful.steady _)

/-- Two fields are apart if one is unknown after the other was set. -/
theorem Lawful.apart_of_get_set (hlawful : record.Lawful) {field other : Field δ}
    (hfield : field ∈ record.fields) (hother : other ∈ record.fields) {known : field.Value}
    (h : other.get (field.set known draft) = none) : field.Apart other := by
  refine hlawful.apart.forall hfield hother ?_
  rintro rfl
  rw [hlawful.get_set field hfield] at h
  cases h

/-! ### Entries that change places -/

/-- **Two entries next to each other may change places**, whether or not their fields are known. -/
theorem Takes.swap (hlawful : record.Lawful) {entry entry' : Lead × Written}
    (h : record.Takes depth draft (entry :: entry' :: entries) next) :
    record.Takes depth draft (entry' :: entry :: entries) next := by
  cases h with
  | skip hlead hfield htail =>
    cases htail with
    | skip hlead' hfield' htail => exact .skip hlead' hfield' (.skip hlead hfield htail)
    | take hlead' hfield' hget hknown htail =>
      exact .take hlead' hfield' hget hknown (.skip hlead hfield htail)
  | @take _ _ _ _ _ _ field known hlead hfield hget hknown htail =>
    cases htail with
    | skip hlead' hfield' htail =>
      exact .skip hlead' hfield' (.take hlead hfield hget hknown htail)
    | @take _ _ _ _ _ _ other known' hlead' hfield' hget' hknown' htail =>
      have hapart : field.Apart other :=
        hlawful.apart_of_get_set (mem_of_field? hfield).1 (mem_of_field? hfield').1 hget'
      rw [hapart.get_set] at hget'
      rw [← hapart.set_comm] at htail
      refine .take hlead' hfield' hget' hknown' (.take hlead hfield ?_ hknown htail)
      rw [hapart.get_set_other, hget]

/-- **The order of the entries does not matter.** -/
theorem Takes.perm (hlawful : record.Lawful) (hperm : entries.Perm entries')
    (h : record.Takes depth draft entries next) : record.Takes depth draft entries' next := by
  induction hperm generalizing draft next with
  | nil => exact h
  | cons entry _ ih =>
    cases h with
    | skip hlead hfield htail => exact .skip hlead hfield (ih htail)
    | take hlead hfield hget hknown htail => exact .take hlead hfield hget hknown (ih htail)
  | swap entry entry' entries => exact h.swap hlawful
  | trans _ _ ih ih' => exact ih' (ih h)

/-- The blanks between the entries do not matter. -/
theorem Takes.respace (hsaid : entries.map said = entries'.map said)
    (h : record.Takes depth draft entries next) : record.Takes depth draft entries' next := by
  induction h generalizing entries' with
  | done draft =>
    obtain rfl := List.map_eq_nil_iff.mp hsaid.symm
    exact .done draft
  | skip hlead hfield _ ih =>
    obtain ⟨lead', tail, rfl, hlabels, htail⟩ := exists_of_said hsaid
    exact .skip (hlabels _ hlead) hfield (ih htail)
  | take hlead hfield hget hknown _ ih =>
    obtain ⟨lead', tail, rfl, hlabels, htail⟩ := exists_of_said hsaid
    exact .take (hlabels _ hlead) hfield hget hknown (ih htail)

/-! ### Entries that come and go -/

theorem takes_append_iff : record.Takes depth draft (before ++ after) next ↔
    ∃ between, record.Takes depth draft before between ∧ record.Takes depth between after next := by
  constructor
  · intro h
    induction before generalizing draft with
    | nil => exact ⟨draft, .done draft, h⟩
    | cons entry before ih =>
      cases h with
      | skip hlead hfield htail =>
        obtain ⟨between, hbefore, hafter⟩ := ih htail
        exact ⟨between, .skip hlead hfield hbefore, hafter⟩
      | take hlead hfield hget hknown htail =>
        obtain ⟨between, hbefore, hafter⟩ := ih htail
        exact ⟨between, .take hlead hfield hget hknown hbefore, hafter⟩
  · rintro ⟨between, hbefore, hafter⟩
    induction hbefore with
    | done => exact hafter
    | skip hlead hfield _ ih => exact .skip hlead hfield (ih hafter)
    | take hlead hfield hget hknown _ ih => exact .take hlead hfield hget hknown (ih hafter)

/-- **An entry that belongs to no field may be added.** -/
theorem Takes.add (h : record.Takes depth draft (before ++ after) next) (hlead : lead.Says label)
    (hfield : record.field? label = none) (value : Written) :
    record.Takes depth draft (before ++ (lead, value) :: after) next := by
  obtain ⟨between, hbefore, hafter⟩ := takes_append_iff.mp h
  exact takes_append_iff.mpr ⟨between, hbefore, .skip hlead hfield hafter⟩

/-- **A value may be changed** as the reader of its field respects. -/
theorem Takes.change (h : record.Takes depth draft (before ++ (lead, value) :: after) next)
    {field : Field δ} (hlead : lead.Says label) (hfield : record.field? label = some field)
    (hvalue : ∀ known, Finds (field.read depth) value known →
      Finds (field.read depth) value' known) :
    record.Takes depth draft (before ++ (lead, value') :: after) next := by
  obtain ⟨between, hbefore, hafter⟩ := takes_append_iff.mp h
  refine takes_append_iff.mpr ⟨between, hbefore, ?_⟩
  cases hafter with
  | skip hlead' hfield' htail => exact .skip hlead' hfield' htail
  | take hlead' hfield' hget hknown htail =>
    obtain rfl := hlead.unique hlead'
    obtain rfl := Option.some.inj (hfield.symm.trans hfield')
    exact .take hlead hfield hget (hvalue _ hknown) htail

/-- **What a record takes for granted**: with such a value of the field and without it, the same is
made of a draft. -/
def Presumes (record : Record δ α) (field : Field δ) (default : ℕ → Written → Prop) : Prop :=
  ∀ depth value known draft, default depth value → Finds (field.read depth) value known →
    field.get draft = none → record.finish (field.set known draft) = record.finish draft

/-- A record takes one value of a field for granted if nothing else is found where it may be left
out, and if the record is the same with this value and without any. -/
theorem presumes_of_eq {field : Field δ} {default : ℕ → Written → Prop} (usual : field.Value)
    (h : ∀ depth value known, default depth value → Finds (field.read depth) value known →
      known = usual)
    (hfinish : ∀ draft, field.get draft = none →
      record.finish (field.set usual draft) = record.finish draft) :
    record.Presumes field default := by
  intro depth value known draft hdefault hfinds hget
  obtain rfl := h depth value known hdefault hfinds
  exact hfinish draft hget

/-- **An entry may be removed** if it says no more than what is taken for granted. -/
theorem Takes.exists_remove (hlawful : record.Lawful) {default : ℕ → Written → Prop}
    {field : Field δ} (h : record.Takes depth draft (before ++ (lead, value) :: after) next)
    (hlead : lead.Says label) (hfield : record.field? label = some field)
    (hvalue : default depth value) (hpresumes : record.Presumes field default) :
    ∃ next', record.Takes depth draft (before ++ after) next' ∧
      record.finish next' = record.finish next := by
  -- the entry may as well come last, so that it finds the draft that is left without it
  have hlast : (before ++ (lead, value) :: after).Perm ((before ++ after) ++ [(lead, value)]) :=
    List.perm_middle.trans (List.perm_append_singleton _ _).symm
  obtain ⟨next', htakes, htake⟩ := takes_append_iff.mp (h.perm hlawful hlast)
  refine ⟨next', htakes, ?_⟩
  cases htake with
  | skip _ _ hdone =>
    cases hdone
    rfl
  | take hlead' hfield' hget hknown hdone =>
    cases hdone
    obtain rfl := hlead.unique hlead'
    obtain rfl := Option.some.inj (hfield.symm.trans hfield')
    exact (hpresumes depth value _ next' hvalue hknown hget).symm

theorem TakesItems.change {fields : List (Field δ)} {field : Field δ}
    {before after : List (Gap × Written)} {gap : Gap}
    (h : TakesItems depth fields draft (before ++ (gap, value) :: after) next)
    (hfield : fields[before.length]? = some field)
    (hvalue : ∀ known, Finds (field.read depth) value known →
      Finds (field.read depth) value' known) :
    TakesItems depth fields draft (before ++ (gap, value') :: after) next := by
  induction before generalizing fields draft with
  | nil =>
    cases h with
    | take hknown htail =>
      obtain rfl := Option.some.inj hfield
      exact .take (hvalue _ hknown) htail
  | cons _ _ ih =>
    cases h with
    | take hknown htail => exact .take hknown (ih htail hfield)

/-! ### Changes of a record -/

/-- **A record is written in another way**, in one place. The parts are the fields whose values may
be changed themselves, each with the changes that are meant; the defaults are the fields that need
not be written, each with the values for which this is so. -/
inductive Change (record : Record δ α) (parts : List (String × Rewriting))
    (defaults : List (String × (ℕ → Written → Prop))) (depth : ℕ) : Written → Written → Prop
  /-- The entries are rearranged. -/
  | rearrange {written written' : Written} (h : written.Rearranged written') :
    Change record parts defaults depth written written'
  /-- An entry is added that belongs to no field. Its value may be any. -/
  | add {before after : List (Lead × Written)} {lead : Lead} {value : Written} {last : Blanks}
    {label : String} (hlead : lead.Says label) (hlabel : record.field? label = none) :
    Change record parts defaults depth (.object (before ++ after) last)
      (.object (before ++ (lead, value) :: after) last)
  /-- An entry is removed that says no more than what is taken for granted. -/
  | remove {before after : List (Lead × Written)} {lead : Lead} {value : Written} {last : Blanks}
    {label : String} {default : ℕ → Written → Prop} (hlead : lead.Says label)
    (hdefault : (label, default) ∈ defaults) (hvalue : default (depth + 1) value) :
    Change record parts defaults depth (.object (before ++ (lead, value) :: after) last)
      (.object (before ++ after) last)
  /-- The value of an entry is changed. -/
  | entry {before after : List (Lead × Written)} {lead : Lead} {value value' : Written}
    {last : Blanks} {label : String} {change : Rewriting} (hlead : lead.Says label)
    (hpart : (label, change) ∈ parts) (hvalue : change (depth + 1) value value') :
    Change record parts defaults depth (.object (before ++ (lead, value) :: after) last)
      (.object (before ++ (lead, value') :: after) last)
  /-- The value of a field is changed in a record that is written as a list. -/
  | item {before after : List (Gap × Written)} {gap : Gap} {value value' : Written} {last : Blanks}
    {label : String} {change : Rewriting}
    (hlabel : record.fields[before.length]? = record.field? label)
    (hpart : (label, change) ∈ parts) (hvalue : change (depth + 1) value value') :
    Change record parts defaults depth (.array (before ++ (gap, value) :: after) last)
      (.array (before ++ (gap, value') :: after) last)

/-- **The changes of a record are allowed** if the readers of its fields respect those of its parts,
and what need not be written is taken for granted. -/
structure Allows (record : Record δ α) (parts : List (String × Rewriting))
    (defaults : List (String × (ℕ → Written → Prop))) : Prop where
  parts : ∀ part ∈ parts, ∃ field, record.field? part.1 = some field ∧
    ∀ depth, Respects (part.2 depth) (field.read depth)
  defaults : ∀ default ∈ defaults, ∃ field, record.field? default.1 = some field ∧
    record.Presumes field default.2

variable {parts : List (String × Rewriting)} {defaults : List (String × (ℕ → Written → Prop))}

theorem Holds.rearrange (hlawful : record.Lawful) (hchange : written.Rearranged written')
    (h : record.Holds depth written known) : record.Holds depth written' known := by
  cases hchange with
  | reorder hperm =>
    cases h with
    | object hdepth htakes hfinish => exact .object hdepth (htakes.perm hlawful hperm) hfinish
  | respace hsaid =>
    cases h with
    | object hdepth htakes hfinish => exact .object hdepth (htakes.respace hsaid) hfinish

theorem Holds.change (hlawful : record.Lawful) (hallows : record.Allows parts defaults)
    (hchange : record.Change parts defaults depth written written')
    (h : record.Holds depth written known) : record.Holds depth written' known := by
  cases hchange with
  | rearrange hchange => exact h.rearrange hlawful hchange
  | add hlead hlabel =>
    cases h with
    | object hdepth htakes hfinish => exact .object hdepth (htakes.add hlead hlabel _) hfinish
  | remove hlead hdefault hvalue =>
    cases h with
    | object hdepth htakes hfinish =>
      obtain ⟨field, hfield, hpresumes⟩ := hallows.defaults _ hdefault
      obtain ⟨draft, hdraft, heq⟩ := htakes.exists_remove hlawful hlead hfield hvalue hpresumes
      exact .object hdepth hdraft (heq.trans hfinish)
  | entry hlead hpart hvalue =>
    cases h with
    | object hdepth htakes hfinish =>
      obtain ⟨field, hfield, hrespects⟩ := hallows.parts _ hpart
      have hchange := htakes.change hlead hfield fun known => hrespects _ _ _ known hvalue
      exact .object hdepth hchange hfinish
  | item hlabel hpart hvalue =>
    cases h with
    | array hdepth htakes hfinish =>
      obtain ⟨field, hfield, hrespects⟩ := hallows.parts _ hpart
      have hchange := htakes.change (hlabel.trans hfield) fun known => hrespects _ _ _ known hvalue
      exact .array hdepth hchange hfinish

/-- **The reader of a record respects the changes of the record.** -/
theorem respects_change (hlawful : record.Lawful) (hallows : record.Allows parts defaults)
    (depth : ℕ) : Respects (record.Change parts defaults depth) (record.read depth) := by
  intro written written' known hchange hfinds
  rw [finds_read_iff hlawful.steady] at hfinds ⊢
  exact hfinds.change hlawful hallows hchange

theorem respects_list (hlawful : record.Lawful) (hallows : record.Allows parts defaults)
    (depth : ℕ) :
    Respects (ListChange (record.Change parts defaults) depth) (Node.readList record.read depth) :=
  .readList (steady_read hlawful.steady _) (respects_change hlawful hallows _)

end Record

end Bindery.Json
