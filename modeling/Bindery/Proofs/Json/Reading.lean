import Bindery.Json.Reading
import Bindery.Proofs.Json.Layout

/-!
# What the readers find

A reader **reads** something of a JSON value (`Bindery.Json.Reads`) if it finds this at every node
that holds the value. Containers may lie around the node, and some levels must be free for those
inside it; a reader says how many it needs, and a list or a record needs one more than its parts.

A record is read entry by entry. An entry **enters** a draft (`Bindery.Json.Record.Enters`) if it
belongs to a field that the draft knows nothing of; entries that enter one after the other **lead**
to another draft (`Bindery.Json.Record.Leads`). Whether the record is complete is asked only of the
last draft (`Bindery.Json.Record.reads`).
-/

namespace Bindery.Json

variable {α β : Type} {levels more depth : ℕ} {read : ℕ → Node → Except Fault α} {value : Json}
  {known : α} {rest : List Char}

/-! ### Texts, words and lists -/

/-- **A reader reads something of a value** wherever it is laid out, if so many levels of
containers are free. -/
def Reads (levels : ℕ) (read : ℕ → Node → Except Fault α) (value : Json) (known : α) : Prop :=
  ∀ depth, depth + levels ≤ depthLimit → ∀ node rest, node.Holds value rest →
    read depth node = .ok known

theorem Reads.mono (h : Reads levels read value known) (hle : levels ≤ more) :
    Reads more read value known :=
  fun depth hdepth => h depth (by omega)

theorem checkDepth_eq (h : depth + (levels + 1) ≤ depthLimit) (start : List Char) :
    checkDepth depth start = .ok () := by
  rw [checkDepth, if_pos (by omega)]

/-- Where there is no fault, no fault is worked over. -/
theorem mapError_ok {cause cause' : Type} (settle : cause → cause') (value : α) :
    (Except.ok value : Except cause α).mapError settle = .ok value :=
  rfl

theorem reads_text (text : String) :
    Reads 0 (fun _ node => node.readText) (.string text) text := by
  rintro depth - node rest ⟨⟩
  rfl

/-- A text is read as it is also where any value may be. -/
theorem reads_value_text (text : String) : Reads 0 Node.value (.string text) (.string text) := by
  rintro depth - node rest ⟨⟩
  rfl

theorem reads_variant {choice : Choice α} {word : String} (h : choice word = .ok known) :
    Reads 0 (Node.readVariant choice) (.string word) known := by
  rintro depth - node rest ⟨⟩
  change (choice word).mapError _ = _
  rw [h, mapError_ok]

theorem Reads.optional (h : Reads levels read value known) :
    Reads levels (fun depth => Node.readOptional (read depth)) value (some known) := by
  intro depth hdepth node rest hholds
  have hread := h depth hdepth node rest hholds
  have hmap : (read depth node).map some = .ok (some known) := congrArg (Except.map some) hread
  cases hholds with
  | text => exact hmap
  | array => exact hmap
  | object => exact hmap

/-- The items of a list, each of which is read. -/
theorem Items.Hold.readAll_eq {read : Node → Except Fault α} {toJson : α → Json} {knowns : List α}
    {items : Items} (h : items.Hold (knowns.map toJson) rest)
    (hread : ∀ known ∈ knowns, ∀ node rest, node.Holds (toJson known) rest →
      read node = .ok known) :
    items.readAll read = .ok knowns := by
  induction knowns generalizing items with
  | nil =>
    cases h
    rfl
  | cons known knowns ih =>
    obtain ⟨hhead, htail⟩ := List.forall_mem_cons.mp hread
    cases h with
    | more hholds hitems =>
      rw [Items.readAll, hhead _ _ hholds, ih hitems htail]
      rfl

/-- **A list is read** if each of its items is. -/
theorem reads_list {toJson : α → Json} {knowns : List α}
    (h : ∀ known ∈ knowns, Reads levels read (toJson known) known) :
    Reads (levels + 1) (Node.readList read) (.array (knowns.map toJson)) knowns := by
  rintro depth hdepth node rest hholds
  cases hholds with
  | array hitems =>
    have hall := hitems.readAll_eq fun known hmem => h known hmem (depth + 1) (by omega)
    rw [Node.readList, checkDepth_eq hdepth, hall]
    rfl

/-! ### Records -/

namespace Record

variable {δ : Type} {record : Record δ α} {label : String} {draft between next : δ}
  {entries others : List (String × Json)}

/-- **An entry enters a draft**: it belongs to a field, of which nothing is known yet, and can be
read as what this field holds. -/
def Enters (record : Record δ α) (levels : ℕ) (label : String) (value : Json) (draft next : δ) :
    Prop :=
  ∃ field, record.field? label = some field ∧ field.get draft = none ∧
    ∃ known, Reads levels field.read value known ∧ field.set known draft = next

/-- **Entries lead from a draft to another**: one after the other they enter it. -/
inductive Leads (record : Record δ α) (levels : ℕ) : δ → List (String × Json) → δ → Prop
  | done (draft : δ) : Leads record levels draft [] draft
  | enter {label : String} {value : Json} {entries : List (String × Json)} {draft between next : δ}
    (hhead : record.Enters levels label value draft between)
    (htail : Leads record levels between entries next) :
    Leads record levels draft ((label, value) :: entries) next

theorem Enters.leads (h : record.Enters levels label value draft next) :
    record.Leads levels draft [(label, value)] next :=
  .enter h (.done next)

theorem Leads.append (h : record.Leads levels draft entries between)
    (hothers : record.Leads levels between others next) :
    record.Leads levels draft (entries ++ others) next := by
  induction h with
  | done => exact hothers
  | enter hhead _ ih => exact .enter hhead (ih hothers)

/-- One entry is read, and then the others. -/
theorem Enters.readEntries_more {key : Token String} {node : Node} {tail : Entries}
    (h : record.Enters levels label value draft next) (hdepth : depth + levels ≤ depthLimit)
    (hkey : key.strict = .ok label) (hholds : node.Holds value rest) :
    record.readEntries depth draft (.more key node tail) = record.readEntries depth next tail := by
  obtain ⟨field, hfield, hget, known, hread, rfl⟩ := h
  have hknown := hread depth hdepth node rest hholds
  rw [readEntries, hkey]
  simp only [bind, Except.bind, hfield, hget, hknown]

/-- All entries are read, up to the end of the object. -/
theorem Leads.readEntries_eq {nodes : Entries} (h : record.Leads levels draft entries next)
    (hdepth : depth + levels ≤ depthLimit) (hnodes : nodes.Hold entries rest) :
    record.readEntries depth draft nodes = .ok (next, rest) := by
  induction h generalizing nodes with
  | done =>
    cases hnodes
    rfl
  | enter hhead _ ih =>
    cases hnodes with
    | more hkey hholds hnodes =>
      rw [hhead.readEntries_more hdepth hkey hholds]
      exact ih hnodes

/-- **A record is read** from entries that lead to a complete draft. -/
theorem reads (h : record.Leads levels record.blank entries draft)
    (hfinish : record.finish draft = .ok known) :
    Reads (levels + 1) record.read (.object entries) known := by
  intro depth hdepth node rest hholds
  cases hholds with
  | object hentries =>
    have hfree : depth + 1 + levels ≤ depthLimit := by omega
    have hdraft := h.readEntries_eq hfree hentries
    rw [Record.read, checkDepth_eq hdepth, hdraft]
    simp only [bind, Except.bind, mapError_ok, hfinish]

end Record

/-! ### Tagged values -/

/-- The entries of a tagged value after the tag, none of which is another tag. -/
theorem Entries.Hold.readTagged_eq {tag : String} {nodes : Entries}
    {entries : List (String × Json)} (hnodes : nodes.Hold entries rest) (choice : Choice α)
    (found : Option α)
    (hdepth : depth + levels ≤ depthLimit)
    (h : ∀ entry ∈ entries, entry.1 ≠ tag ∧ Reads levels Node.value entry.2 entry.2) :
    nodes.readTagged tag choice depth found = .ok (found, entries, rest) := by
  induction entries generalizing nodes with
  | nil =>
    cases hnodes
    rfl
  | cons entry entries ih =>
    obtain ⟨⟨hlabel, hread⟩, hentries⟩ := List.forall_mem_cons.mp h
    cases hnodes with
    | more hkey hholds hnodes =>
      have hvalue := hread depth hdepth _ _ hholds
      rw [Entries.readTagged.eq_def]
      simp only [hkey, bind, Except.bind, if_neg hlabel, hvalue, ih hnodes hentries]
      rfl

/-- **A tagged value is read** if its tag comes first and is a word of the choice. -/
theorem reads_tagged (title : String) {tag word : String} {choice : Choice α}
    {entries : List (String × Json)} (hword : choice word = .ok known)
    (h : ∀ entry ∈ entries, entry.1 ≠ tag ∧ Reads levels Node.value entry.2 entry.2) :
    Reads (levels + 1) (Node.readTagged title tag choice) (.object ((tag, .string word) :: entries))
      (known, .entries entries) := by
  intro depth hdepth node rest hholds
  cases hholds with
  | object hnodes =>
    cases hnodes with
    | more hkey hholds hnodes =>
      cases hholds with
      | text =>
        have hfree : depth + 1 + levels ≤ depthLimit := by omega
        have htail := hnodes.readTagged_eq choice (some known) hfree h
        rw [Node.readTagged, checkDepth_eq hdepth, Entries.readTagged, hkey]
        simp only [bind, Except.bind, if_true, Node.readWord, Node.readQuoted, hword,
          mapError_ok, htail]
        rfl

end Bindery.Json
