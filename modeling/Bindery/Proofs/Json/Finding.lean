import Bindery.Json.Reading
import Bindery.Proofs.Json.Written
import Mathlib.Data.List.Forall2

/-!
# What readers find in what is written

A reader **finds** something in a written value (`Bindery.Json.Finds`) if it reads this wherever the
value is laid out. It is **steady** (`Bindery.Json.Steady`) if it finds in a written value whatever
it reads at one node that shows it: what comes before and after does not matter, nor do the blanks,
but for the blame if something is wrong. All readers are steady.

What a reader finds in a list or a record is a matter of what is found in the parts. An object
**takes** a record from one draft to another, entry by entry (`Bindery.Json.Record.Takes`).
-/

namespace Bindery.Json

section Outcomes

variable {ε ε' α β : Type} {outcome : Except ε α} {known : α} {found : β}

theorem bind_eq_ok_iff {next : α → Except ε β} :
    (outcome >>= next) = .ok found ↔ ∃ value, outcome = .ok value ∧ next value = .ok found := by
  cases outcome with
  | error fault => exact ⟨nofun, nofun⟩
  | ok value =>
    constructor
    · exact fun h => ⟨value, rfl, h⟩
    · rintro ⟨_, ⟨⟩, h⟩
      exact h

theorem mapError_eq_ok_iff {blame : ε → ε'} :
    outcome.mapError blame = .ok known ↔ outcome = .ok known := by
  cases outcome with
  | error fault => exact ⟨nofun, nofun⟩
  | ok value => exact ⟨fun h => congrArg _ (Except.ok.inj h), fun h => congrArg _ (Except.ok.inj h)⟩

theorem checkDepth_eq_ok_iff {depth : ℕ} {start : List Char} {done : Unit} :
    checkDepth depth start = .ok done ↔ depth < depthLimit := by
  rw [checkDepth]
  split
  · next hlt => exact iff_of_true rfl hlt
  · next hle => exact iff_of_false nofun hle

end Outcomes

variable {α : Type} {read : Node → Except Fault α} {written : Written} {known : α} {node : Node}
  {rest : List Char}

/-- **A reader finds something in a written value**, wherever this is laid out. -/
def Finds (read : Node → Except Fault α) (written : Written) (known : α) : Prop :=
  ∀ node rest, node.Shows written rest → read node = .ok known

/-- **A reader is steady** if what it reads depends on what is written there only. -/
def Steady (read : Node → Except Fault α) : Prop :=
  ∀ node rest written known, node.Shows written rest → read node = .ok known →
    Finds read written known

/-- A written value is laid out somewhere. -/
theorem exists_shows (written : Written) : ∃ node : Node, node.Shows written [] :=
  ⟨_, written.stands [] nofun⟩

/-- A reader finds one thing only. -/
theorem Finds.unique {known' : α} (h : Finds read written known) (h' : Finds read written known') :
    known = known' := by
  obtain ⟨node, hnode⟩ := exists_shows written
  exact Except.ok.inj ((h node [] hnode).symm.trans (h' node [] hnode))

/-- A reader is steady if there is a way to tell what it reads from what is written. -/
theorem steady_of_iff {found : Written → α → Prop} (h : ∀ node rest written known,
    node.Shows written rest → (read node = .ok known ↔ found written known)) : Steady read :=
  fun node rest written known hshows hread node' rest' hshows' =>
    (h node' rest' written known hshows').mpr ((h node rest written known hshows).mp hread)

theorem finds_iff (found : Written → α → Prop) (h : ∀ node rest written known,
    node.Shows written rest → (read node = .ok known ↔ found written known)) :
    Finds read written known ↔ found written known := by
  obtain ⟨node, hnode⟩ := exists_shows written
  constructor
  · exact fun hfinds => (h node [] written known hnode).mp (hfinds node [] hnode)
  · exact fun hfound node rest hshows => (h node rest written known hshows).mpr hfound

/-! ### Endings -/

theorem Ending.closed_of_strictList {ending : Ending} (h : ending.strictList = .ok rest) :
    ending = .closed rest := by
  cases ending with
  | closed left => exact congrArg _ (Except.ok.inj h)
  | _ => cases h

theorem Ending.closed_of_strictObject {ending : Ending} (h : ending.strictObject = .ok rest) :
    ending = .closed rest := by
  cases ending with
  | closed left => exact congrArg _ (Except.ok.inj h)
  | _ => cases h

/-! ### Scalars -/

/-- **A scalar is written here** that is read as this value. -/
def Written.Is (written : Written) (value : Json) : Prop :=
  ∃ scalar : Scalar, written = .scalar scalar ∧ scalar.token.strict = .ok value

theorem Written.not_is_object {entries : List (Lead × Written)} {last : Blanks} {value : Json} :
    ¬(Written.object entries last).Is value := by
  rintro ⟨scalar, h, -⟩
  cases h

/-- What is laid out as a scalar with this value is one. -/
theorem Node.Shows.is_iff (hshows : node.Shows written rest) {value : Json} :
    (∃ start lax, node = .scalar start ⟨.ok value, lax⟩) ↔ written.Is value := by
  cases hshows with
  | @scalar scalar start _ token hstart hmoved =>
    have hstrict := hmoved.strict_iff value
    constructor
    · rintro ⟨_, _, hnode⟩
      obtain ⟨-, rfl⟩ := Node.scalar.inj hnode
      exact ⟨scalar, rfl, hstrict.mp rfl⟩
    · rintro ⟨_, hscalar, hvalue⟩
      obtain rfl := Written.scalar.inj hscalar
      obtain ⟨strict, lax⟩ := token
      obtain rfl : strict = .ok value := hstrict.mpr hvalue
      exact ⟨start, lax, rfl⟩
  | array hitems =>
    constructor
    · rintro ⟨_, _, hnode⟩
      cases hnode
    · rintro ⟨_, hscalar, -⟩
      cases hscalar
  | object hentries =>
    constructor
    · rintro ⟨_, _, hnode⟩
      cases hnode
    · rintro ⟨_, hscalar, -⟩
      cases hscalar

theorem readQuoted_eq_ok_iff (expected : String) {text : String} :
    (∃ left, node.readQuoted expected = .ok (text, left)) ↔
      ∃ start lax, node = .scalar start ⟨.ok (.string text), lax⟩ := by
  constructor
  · rintro ⟨left, h⟩
    rw [Node.readQuoted.eq_def] at h
    split at h
    · obtain ⟨rfl, -⟩ := Prod.mk.inj (Except.ok.inj h)
      exact ⟨_, _, rfl⟩
    · cases h
  · rintro ⟨start, lax, rfl⟩
    exact ⟨_, rfl⟩

theorem readText_eq_ok_iff (hshows : node.Shows written rest) {text : String} :
    node.readText = .ok text ↔ written.Is (.string text) := by
  rw [← hshows.is_iff, ← readQuoted_eq_ok_iff "a string", Node.readText, map_eq_ok_iff]
  constructor
  · rintro ⟨⟨text, left⟩, hread, rfl⟩
    exact ⟨left, hread⟩
  · rintro ⟨left, hread⟩
    exact ⟨⟨text, left⟩, hread, rfl⟩

theorem readWord_eq_ok_iff (hshows : node.Shows written rest) {choice : Choice α} :
    node.readWord choice = .ok known ↔
      ∃ word, written.Is (.string word) ∧ choice word = .ok known := by
  simp only [Node.readWord, bind_eq_ok_iff, mapError_eq_ok_iff, ← hshows.is_iff]
  constructor
  · rintro ⟨⟨word, left⟩, hread, hword⟩
    exact ⟨word, (readQuoted_eq_ok_iff _).mp ⟨left, hread⟩, hword⟩
  · rintro ⟨word, hscalar, hword⟩
    obtain ⟨left, hread⟩ := (readQuoted_eq_ok_iff _).mpr hscalar
    exact ⟨⟨word, left⟩, hread, hword⟩

theorem readNull_eq_ok_iff (hshows : node.Shows written rest) {done : Unit} :
    node.readNull = .ok done ↔ written.Is .null := by
  rw [← hshows.is_iff, Node.readNull.eq_def]
  constructor
  · intro h
    split at h
    · exact ⟨_, _, rfl⟩
    · cases h
  · rintro ⟨start, lax, rfl⟩
    rfl

theorem steady_readText : Steady Node.readText :=
  steady_of_iff fun _ _ _ _ hshows => readText_eq_ok_iff hshows

theorem readOptional_of_null (hnull : written.Is .null) (hshows : node.Shows written rest) :
    node.readOptional read = .ok none := by
  obtain ⟨start, lax, rfl⟩ := hshows.is_iff.mpr hnull
  rfl

theorem readOptional_of_not_null (hnull : ¬written.Is .null) (hshows : node.Shows written rest) :
    node.readOptional read = (read node).map some := by
  rw [Node.readOptional.eq_def]
  split
  · exact absurd (hshows.is_iff.mp ⟨_, _, rfl⟩) hnull
  · rfl

/-- A value that may be null is null, or it is read as what it is. -/
theorem Steady.optional (h : Steady read) : Steady (Node.readOptional read) := by
  intro node rest written known hshows hread node' rest' hshows'
  by_cases hnull : written.Is .null
  · rw [readOptional_of_null hnull hshows] at hread
    rw [readOptional_of_null hnull hshows', hread]
  · rw [readOptional_of_not_null hnull hshows, map_eq_ok_iff] at hread
    obtain ⟨value, hvalue, rfl⟩ := hread
    rw [readOptional_of_not_null hnull hshows', h node rest written value hshows hvalue node' rest'
      hshows']
    rfl

/-! ### Words in objects -/

/-- A key is written here that is read as this label. -/
def Lead.Says (lead : Lead) (label : String) : Prop :=
  (readString lead.key.chars).strict = .ok label

theorem Lead.says_quoted (label : String) : (Lead.quoted label).Says label := by
  rw [Says, quoted, readString_quote]

theorem readVariant_object_eq_ok_iff {choice : Choice α} {depth : ℕ} {start : List Char}
    {key : Token String} {value : Node} {tail : Entries} :
    Node.readVariant choice depth (.object start (.more key value tail)) = .ok known ↔
      depth < depthLimit ∧ ∃ word, key.strict = .ok word ∧ choice word = .ok known ∧
        value.readNull = .ok () ∧ ∃ rest, tail = .done (.closed rest) := by
  simp only [Node.readVariant, bind_eq_ok_iff, checkDepth_eq_ok_iff, mapError_eq_ok_iff,
    exists_and_left, exists_const]
  refine and_congr_right fun _ => exists_congr fun word => and_congr_right fun _ => ?_
  constructor
  · rintro ⟨variant, hvariant, ⟨⟩, hnull, htail⟩
    split at htail
    · obtain rfl := Except.ok.inj htail
      exact ⟨hvariant, hnull, _, rfl⟩
    · cases htail
  · rintro ⟨hvariant, hnull, rest, rfl⟩
    exact ⟨known, hvariant, (), hnull, rfl⟩

/-- A word that is one of several is the same wherever it stands, in whatever form. -/
theorem steady_readVariant (choice : Choice α) (depth : ℕ) :
    Steady (Node.readVariant choice depth) := by
  intro node rest written known hshows hread node' rest' hshows'
  cases hshows with
  | @scalar scalar start _ token hstart hmoved =>
    cases hshows' with
    | @scalar _ start' _ token' hstart' hmoved' =>
      rw [Node.readVariant, hstart] at hread
      rw [Node.readVariant, hstart']
      split at hread
      · next hquote =>
        rw [if_pos hquote, readWord_eq_ok_iff (.scalar hstart' hmoved')]
        exact (readWord_eq_ok_iff (.scalar hstart hmoved)).mp hread
      · cases hread
  | array hitems => cases hread
  | object hentries =>
    cases hshows' with
    | object hentries' =>
      cases hentries with
      | done =>
        simp only [Node.readVariant, bind_eq_ok_iff] at hread
        obtain ⟨-, -, -, -, hfault⟩ := hread
        cases hfault
      | more hkey hvalue htail =>
        cases hentries' with
        | more hkey' hvalue' htail' =>
          rw [readVariant_object_eq_ok_iff] at hread ⊢
          obtain ⟨hdepth, word, hword, hchoice, hnull, left, rfl⟩ := hread
          cases htail
          cases htail'
          refine ⟨hdepth, word, ?_, hchoice, ?_, _, rfl⟩
          · rw [hkey'.strict_iff]
            exact (hkey.strict_iff word).mp hword
          · exact (readNull_eq_ok_iff hvalue').mpr ((readNull_eq_ok_iff hvalue).mp hnull)

/-! ### Any value -/

mutual

/-- **The value that is written**, if it can be read at all. -/
def Written.value? : Written → Option Json
  | .scalar written => written.token.strict.toOption
  | .array items _ => (itemValues? items).map .array
  | .object entries _ => (entryValues? entries).map .object

def Written.itemValues? : List (Gap × Written) → Option (List Json)
  | [] => some []
  | (_, item) :: items => do
    let value ← item.value?
    return value :: (← itemValues? items)

def Written.entryValues? : List (Lead × Written) → Option (List (String × Json))
  | [] => some []
  | (lead, value) :: entries => do
    let label ← (readString lead.key.chars).strict.toOption
    let value ← value.value?
    return (label, value) :: (← entryValues? entries)

end

mutual

/-- **How many containers lie around each other** in what is written. -/
def Written.nesting : Written → ℕ
  | .scalar _ => 0
  | .array items _ => itemNesting items + 1
  | .object entries _ => entryNesting entries + 1

def Written.itemNesting : List (Gap × Written) → ℕ
  | [] => 0
  | (_, item) :: items => max item.nesting (itemNesting items)

def Written.entryNesting : List (Lead × Written) → ℕ
  | [] => 0
  | (_, value) :: entries => max value.nesting (entryNesting entries)

end

theorem toOption_eq_some_iff {ε β : Type} {outcome : Except ε β} {found : β} :
    outcome.toOption = some found ↔ outcome = .ok found := by
  cases outcome with
  | error fault => exact ⟨nofun, nofun⟩
  | ok value =>
    exact ⟨fun h => congrArg _ (Option.some.inj h), fun h => congrArg _ (Except.ok.inj h)⟩

/-- **This value is written** and can be read where so many containers lie around it. -/
def Written.Reads (written : Written) (depth : ℕ) (value : Json) : Prop :=
  written.value? = some value ∧ written.nesting ≤ depthLimit - depth

/-- A written value is read, wherever it is laid out, as what it is if so many levels are free. -/
def Written.Legible (written : Written) : Prop :=
  ∀ (node : Node) (rest : List Char) (depth : ℕ) (value : Json), node.Shows written rest →
    (node.value depth = .ok value ↔ written.Reads depth value)

theorem values_eq_ok_iff {items : Items} {written : List (Gap × Written)} {depth : ℕ}
    {values : List Json} (h : ∀ item ∈ written, item.2.Legible) (hshow : items.Show written rest) :
    items.values depth = .ok values ↔ Written.itemValues? written = some values ∧
      Written.itemNesting written ≤ depthLimit - depth := by
  induction written generalizing items values with
  | nil =>
    cases hshow
    simp [Items.values, Ending.strictList, Ending.laxList, Written.itemValues?,
      Written.itemNesting, Except.map]
  | cons item written ih =>
    obtain ⟨hitem, hwritten⟩ := List.forall_mem_cons.mp h
    cases hshow with
    | more hhead htail =>
      simp only [Items.values, bind_eq_ok_iff, hitem _ _ _ _ hhead, ih hwritten htail,
        Written.Reads, Written.itemValues?, Written.itemNesting, Nat.max_le, Option.bind_eq_bind,
        Option.bind_eq_some_iff]
      constructor
      · rintro ⟨value, ⟨hvalue, hnesting⟩, values, ⟨hvalues, hnestings⟩, heq⟩
        obtain rfl := Except.ok.inj heq
        exact ⟨⟨value, hvalue, values, hvalues, rfl⟩, hnesting, hnestings⟩
      · rintro ⟨⟨value, hvalue, values, hvalues, heq⟩, hnesting, hnestings⟩
        obtain rfl := Option.some.inj heq
        exact ⟨value, ⟨hvalue, hnesting⟩, values, ⟨hvalues, hnestings⟩, rfl⟩

theorem entryValues_eq_ok_iff {entries : Entries} {written : List (Lead × Written)} {depth : ℕ}
    {values : List (String × Json)} (h : ∀ entry ∈ written, entry.2.Legible)
    (hshow : entries.Show written rest) :
    entries.values depth = .ok values ↔ Written.entryValues? written = some values ∧
      Written.entryNesting written ≤ depthLimit - depth := by
  induction written generalizing entries values with
  | nil =>
    cases hshow
    simp [Entries.values, Ending.strictObject, Ending.laxObject, Written.entryValues?,
      Written.entryNesting, Except.map]
  | cons entry written ih =>
    obtain ⟨hentry, hwritten⟩ := List.forall_mem_cons.mp h
    cases hshow with
    | more hkey hvalue htail =>
      simp only [Entries.values, bind_eq_ok_iff, hkey.strict_iff, hentry _ _ _ _ hvalue,
        ih hwritten htail, Written.Reads, Written.entryValues?, Written.entryNesting, Nat.max_le,
        Option.bind_eq_bind, Option.bind_eq_some_iff, toOption_eq_some_iff]
      constructor
      · rintro ⟨label, hlabel, value, ⟨hvalue, hnesting⟩, values, ⟨hvalues, hnestings⟩, heq⟩
        obtain rfl := Except.ok.inj heq
        exact ⟨⟨label, hlabel, value, hvalue, values, hvalues, rfl⟩, hnesting, hnestings⟩
      · rintro ⟨⟨label, hlabel, value, hvalue, values, hvalues, heq⟩, hnesting, hnestings⟩
        obtain rfl := Option.some.inj heq
        exact ⟨label, hlabel, value, ⟨hvalue, hnesting⟩, values, ⟨hvalues, hnestings⟩, rfl⟩

/-- **Any value is read** if it can be, and if so many levels of containers are free. -/
theorem Written.legible (written : Written) : written.Legible := by
  induction written with
  | scalar written =>
    rintro node rest depth value ⟨⟩
    next hstart hmoved =>
      simp [Node.value, Written.Reads, Written.value?, Written.nesting, hmoved.strict_iff,
        toOption_eq_some_iff]
  | array items last ih =>
    rintro node rest depth value ⟨⟩
    next hitems =>
      have hfree : itemNesting items + 1 ≤ depthLimit - depth ↔
          depth < depthLimit ∧ itemNesting items ≤ depthLimit - (depth + 1) := by omega
      simp only [Node.value, bind_eq_ok_iff, checkDepth_eq_ok_iff, values_eq_ok_iff ih hitems,
        Written.Reads, Written.value?, Written.nesting, hfree, Option.map_eq_some_iff]
      constructor
      · rintro ⟨-, hdepth, values, ⟨hvalues, hnesting⟩, heq⟩
        exact ⟨⟨values, hvalues, Except.ok.inj heq⟩, hdepth, hnesting⟩
      · rintro ⟨⟨values, hvalues, rfl⟩, hdepth, hnesting⟩
        exact ⟨(), hdepth, values, ⟨hvalues, hnesting⟩, rfl⟩
  | object entries last ih =>
    rintro node rest depth value ⟨⟩
    next hentries =>
      have hfree : entryNesting entries + 1 ≤ depthLimit - depth ↔
          depth < depthLimit ∧ entryNesting entries ≤ depthLimit - (depth + 1) := by omega
      simp only [Node.value, bind_eq_ok_iff, checkDepth_eq_ok_iff,
        entryValues_eq_ok_iff ih hentries, Written.Reads, Written.value?, Written.nesting, hfree,
        Option.map_eq_some_iff]
      constructor
      · rintro ⟨-, hdepth, values, ⟨hvalues, hnesting⟩, heq⟩
        exact ⟨⟨values, hvalues, Except.ok.inj heq⟩, hdepth, hnesting⟩
      · rintro ⟨⟨values, hvalues, rfl⟩, hdepth, hnesting⟩
        exact ⟨(), hdepth, values, ⟨hvalues, hnesting⟩, rfl⟩

/-! ### Lists -/

theorem readAll_of_finds {items : Items} {ws : List (Gap × Written)} {knowns : List α}
    (hshow : items.Show ws rest)
    (h : List.Forall₂ (fun item known => Finds read item.2 known) ws knowns) :
    items.readAll read = .ok knowns := by
  induction h generalizing items with
  | nil =>
    cases hshow
    rfl
  | cons hitem _ ih =>
    cases hshow with
    | more hhead htail =>
      rw [Items.readAll, hitem _ _ hhead, ih htail]
      rfl

theorem finds_of_readAll (hsteady : Steady read) {items : Items} {ws : List (Gap × Written)}
    {knowns : List α} (hshow : items.Show ws rest) (h : items.readAll read = .ok knowns) :
    List.Forall₂ (fun item known => Finds read item.2 known) ws knowns := by
  induction ws generalizing items knowns with
  | nil =>
    cases hshow
    obtain rfl := Except.ok.inj h
    exact .nil
  | cons item ws ih =>
    cases hshow with
    | more hhead htail =>
      simp only [Items.readAll, bind_eq_ok_iff] at h
      obtain ⟨value, hvalue, values, hvalues, heq⟩ := h
      obtain rfl := Except.ok.inj heq
      exact .cons (hsteady _ _ _ _ hhead hvalue) (ih htail hvalues)

section Lists

variable {read : ℕ → Node → Except Fault α} {depth : ℕ} {knowns : List α}

/-- **A list is found** where one is written that may be entered and each item of which is found. -/
inductive HoldsList (read : ℕ → Node → Except Fault α) (depth : ℕ) : Written → List α → Prop
  | array {items : List (Gap × Written)} {last : Blanks} {knowns : List α}
    (hdepth : depth < depthLimit)
    (hitems : List.Forall₂ (fun item known => Finds (read (depth + 1)) item.2 known) items knowns) :
    HoldsList read depth (.array items last) knowns

theorem readList_eq_ok_iff (hsteady : Steady (read (depth + 1)))
    (hshows : node.Shows written rest) :
    Node.readList read depth node = .ok knowns ↔ HoldsList read depth written knowns := by
  cases hshows with
  | scalar hstart hmoved => exact ⟨nofun, nofun⟩
  | object hentries => exact ⟨nofun, nofun⟩
  | array hitems =>
    simp only [Node.readList, bind_eq_ok_iff, checkDepth_eq_ok_iff, mapError_eq_ok_iff]
    constructor
    · rintro ⟨-, hdepth, hread⟩
      exact .array hdepth (finds_of_readAll hsteady hitems hread)
    · rintro ⟨hdepth, hfinds⟩
      exact ⟨(), hdepth, readAll_of_finds hitems hfinds⟩

theorem steady_readList (hsteady : Steady (read (depth + 1))) :
    Steady (Node.readList read depth) :=
  steady_of_iff fun _ _ _ _ hshows => readList_eq_ok_iff hsteady hshows

theorem finds_readList_iff (hsteady : Steady (read (depth + 1))) :
    Finds (Node.readList read depth) written knowns ↔ HoldsList read depth written knowns :=
  finds_iff (fun written knowns => HoldsList read depth written knowns)
    fun _ _ _ _ hshows => readList_eq_ok_iff hsteady hshows

end Lists

/-! ### Records -/

namespace Record

variable {δ : Type} {record : Record δ α} {draft next : δ} {depth : ℕ} {lead : Lead}
  {value : Written} {entries : List (Lead × Written)}

/-- **Entries take a record from a draft to another**: those of fields that the draft does not know
are found, and those of no field are passed over. -/
inductive Takes (record : Record δ α) (depth : ℕ) : δ → List (Lead × Written) → δ → Prop
  | done (draft : δ) : Takes record depth draft [] draft
  | skip {lead : Lead} {value : Written} {entries : List (Lead × Written)} {draft next : δ}
    {label : String} (hlead : lead.Says label) (hfield : record.field? label = none)
    (htail : Takes record depth draft entries next) :
    Takes record depth draft ((lead, value) :: entries) next
  | take {lead : Lead} {value : Written} {entries : List (Lead × Written)} {draft next : δ}
    {label : String} {field : Field δ} {known : field.Value} (hlead : lead.Says label)
    (hfield : record.field? label = some field) (hget : field.get draft = none)
    (hknown : Finds (field.read depth) value known)
    (htail : Takes record depth (field.set known draft) entries next) :
    Takes record depth draft ((lead, value) :: entries) next

/-- **Items take a record from a draft to another**, each for the next field. -/
inductive TakesItems (depth : ℕ) : List (Field δ) → δ → List (Gap × Written) → δ → Prop
  | done (fields : List (Field δ)) (draft : δ) : TakesItems depth fields draft [] draft
  | take {gap : Gap} {value : Written} {items : List (Gap × Written)} {fields : List (Field δ)}
    {draft next : δ} {field : Field δ} {known : field.Value}
    (hknown : Finds (field.read depth) value known)
    (htail : TakesItems depth fields (field.set known draft) items next) :
    TakesItems depth (field :: fields) draft ((gap, value) :: items) next

/-- All fields of a record are read by steady readers. -/
def IsSteady (record : Record δ α) : Prop :=
  ∀ field ∈ record.fields, ∀ depth, Steady (field.read depth)

theorem closed_of_endItems {ending : Ending} (h : endItems ending = .ok rest) :
    ending = .closed rest := by
  cases ending with
  | closed left => exact congrArg _ (Except.ok.inj h)
  | _ => cases h

theorem mem_of_field? {label : String} {field : Field δ} (h : record.field? label = some field) :
    field ∈ record.fields ∧ field.label = label :=
  ⟨List.mem_of_find?_eq_some h, by simpa using List.find?_some h⟩

theorem takes_of_readEntries (hsteady : record.IsSteady) {nodes : Entries} {left : List Char}
    (hshow : nodes.Show entries rest)
    (h : record.readEntries depth draft nodes = .ok (next, left)) :
    record.Takes depth draft entries next := by
  induction entries generalizing nodes draft with
  | nil =>
    cases hshow
    obtain ⟨rfl, -⟩ := Prod.mk.inj (Except.ok.inj h)
    exact .done _
  | cons entry entries ih =>
    cases hshow with
    | more hkey hvalue htail =>
      simp only [readEntries, bind_eq_ok_iff] at h
      obtain ⟨label, hlabel, h⟩ := h
      have hlead : Lead.Says _ label := (hkey.strict_iff label).mp hlabel
      split at h
      · next hfield =>
        obtain ⟨-, -, h⟩ := bind_eq_ok_iff.mp h
        exact .skip hlead hfield (ih htail h)
      · next field hfield =>
        split at h
        · cases h
        · next hget =>
          obtain ⟨known, hread, h⟩ := bind_eq_ok_iff.mp h
          have hknown := hsteady field (mem_of_field? hfield).1 depth _ _ _ _ hvalue hread
          exact .take hlead hfield hget hknown (ih htail h)

theorem Takes.readEntries_eq (h : record.Takes depth draft entries next) {nodes : Entries}
    (hshow : nodes.Show entries rest) :
    record.readEntries depth draft nodes = .ok (next, rest) := by
  induction h generalizing nodes with
  | done =>
    cases hshow
    rfl
  | skip hlead hfield _ ih =>
    cases hshow with
    | more hkey hvalue htail =>
      have hlabel := (hkey.strict_iff _).mpr hlead
      simp only [readEntries, hlabel, hfield, hvalue.lax_eq, ih htail, bind, Except.bind]
  | take hlead hfield hget hknown _ ih =>
    cases hshow with
    | more hkey hvalue htail =>
      have hlabel := (hkey.strict_iff _).mpr hlead
      simp only [readEntries, hlabel, hfield, hget, hknown _ _ hvalue, ih htail, bind, Except.bind]

theorem takesItems_of_readItems {fields : List (Field δ)}
    (hsteady : ∀ field ∈ fields, ∀ depth, Steady (field.read depth)) {nodes : Items}
    {items : List (Gap × Written)} {left : List Char} (hshow : nodes.Show items rest)
    (h : readItems depth fields draft nodes = .ok (next, left)) :
    TakesItems depth fields draft items next := by
  induction items generalizing nodes fields draft with
  | nil =>
    cases hshow
    cases fields with
    | nil =>
      obtain ⟨rfl, -⟩ := Prod.mk.inj (Except.ok.inj h)
      exact .done _ _
    | cons field fields =>
      obtain ⟨rfl, -⟩ := Prod.mk.inj (Except.ok.inj h)
      exact .done _ _
  | cons item items ih =>
    cases hshow with
    | more hhead htail =>
      cases fields with
      | nil => cases h
      | cons field fields =>
        obtain ⟨hfield, hfields⟩ := List.forall_mem_cons.mp hsteady
        obtain ⟨known, hread, h⟩ := bind_eq_ok_iff.mp h
        exact .take (hfield depth _ _ _ _ hhead hread) (ih hfields htail h)

theorem TakesItems.readItems_eq {fields : List (Field δ)} {items : List (Gap × Written)}
    (h : TakesItems depth fields draft items next) {nodes : Items} (hshow : nodes.Show items rest) :
    readItems depth fields draft nodes = .ok (next, rest) := by
  induction h generalizing nodes with
  | done fields draft =>
    cases hshow
    cases fields <;> rfl
  | take hknown _ ih =>
    cases hshow with
    | more hhead htail =>
      simp only [readItems, hknown _ _ hhead, ih htail, bind, Except.bind]

/-- Whatever was read as an object is closed. -/
theorem ending_of_readEntries {draft : δ} {left : List Char} : ∀ {nodes : Entries},
    record.readEntries depth draft nodes = .ok (next, left) → nodes.ending = .closed left
  | .done ending, h => by
    obtain ⟨rest, hrest, heq⟩ := map_eq_ok_iff.mp h
    obtain ⟨-, rfl⟩ := Prod.mk.inj heq
    exact Ending.closed_of_strictObject hrest
  | .more key value tail, h => by
    obtain ⟨label, -, h⟩ := bind_eq_ok_iff.mp h
    rw [Entries.ending]
    split at h
    · obtain ⟨-, -, h⟩ := bind_eq_ok_iff.mp h
      exact ending_of_readEntries h
    · split at h
      · cases h
      · obtain ⟨known, -, h⟩ := bind_eq_ok_iff.mp h
        exact ending_of_readEntries h

/-- Whatever was read as a list of fields is closed. -/
theorem ending_of_readItems {draft : δ} {left : List Char} : ∀ {fields : List (Field δ)}
    {nodes : Items}, readItems depth fields draft nodes = .ok (next, left) →
      nodes.ending = .closed left
  | [], .done ending, h => by
    obtain ⟨rest, hrest, heq⟩ := map_eq_ok_iff.mp h
    obtain ⟨-, rfl⟩ := Prod.mk.inj heq
    exact closed_of_endItems hrest
  | _ :: _, .done ending, h => by
    obtain ⟨rest, hrest, heq⟩ := map_eq_ok_iff.mp h
    obtain ⟨-, rfl⟩ := Prod.mk.inj heq
    exact Ending.closed_of_strictList hrest
  | [], .more _ _, h => nomatch h
  | field :: fields, .more head tail, h => by
    obtain ⟨known, -, h⟩ := bind_eq_ok_iff.mp h
    rw [Items.ending]
    exact ending_of_readItems h

/-- **Whatever was read as a record has an end.** -/
theorem exists_lax_of_read (h : record.read depth node = .ok known) :
    ∃ rest, node.lax = .ok rest := by
  cases node with
  | absent start fault => cases h
  | scalar start token => cases h
  | object start entries =>
    simp only [Record.read, bind_eq_ok_iff, mapError_eq_ok_iff] at h
    obtain ⟨-, -, ⟨draft, left⟩, hread, -⟩ := h
    exact ⟨left, congrArg Ending.laxObject (ending_of_readEntries hread)⟩
  | array start items =>
    simp only [Record.read, bind_eq_ok_iff, mapError_eq_ok_iff] at h
    obtain ⟨-, -, ⟨draft, left⟩, hread, -⟩ := h
    exact ⟨left, congrArg Ending.laxList (ending_of_readItems hread)⟩

/-- **A record is found** in an object or a list that may be entered and takes the blank draft to a
complete one. -/
inductive Holds (record : Record δ α) (depth : ℕ) : Written → α → Prop
  | object {entries : List (Lead × Written)} {last : Blanks} {draft : δ} {known : α}
    (hdepth : depth < depthLimit)
    (htakes : record.Takes (depth + 1) record.blank entries draft)
    (hfinish : record.finish draft = .ok known) : Holds record depth (.object entries last) known
  | array {items : List (Gap × Written)} {last : Blanks} {draft : δ} {known : α}
    (hdepth : depth < depthLimit)
    (htakes : TakesItems (depth + 1) record.fields record.blank items draft)
    (hfinish : record.finish draft = .ok known) : Holds record depth (.array items last) known

theorem read_eq_ok_iff (hsteady : record.IsSteady) (hshows : node.Shows written rest) :
    record.read depth node = .ok known ↔ record.Holds depth written known := by
  cases hshows with
  | scalar hstart hmoved => exact ⟨nofun, nofun⟩
  | object hentries =>
    simp only [Record.read, bind_eq_ok_iff, checkDepth_eq_ok_iff, mapError_eq_ok_iff]
    constructor
    · rintro ⟨-, hdepth, ⟨draft, left⟩, hread, hfinish⟩
      exact .object hdepth (takes_of_readEntries hsteady hentries hread) hfinish
    · rintro (⟨hdepth, htakes, hfinish⟩ | _)
      exact ⟨(), hdepth, ⟨_, _⟩, htakes.readEntries_eq hentries, hfinish⟩
  | array hitems =>
    simp only [Record.read, bind_eq_ok_iff, checkDepth_eq_ok_iff, mapError_eq_ok_iff]
    constructor
    · rintro ⟨-, hdepth, ⟨draft, left⟩, hread, hfinish⟩
      exact .array hdepth (takesItems_of_readItems hsteady hitems hread) hfinish
    · rintro (_ | ⟨hdepth, htakes, hfinish⟩)
      exact ⟨(), hdepth, ⟨_, _⟩, htakes.readItems_eq hitems, hfinish⟩

theorem steady_read (hsteady : record.IsSteady) (depth : ℕ) : Steady (record.read depth) :=
  steady_of_iff fun _ _ _ _ hshows => read_eq_ok_iff hsteady hshows

theorem finds_read_iff (hsteady : record.IsSteady) :
    Finds (record.read depth) written known ↔ record.Holds depth written known :=
  finds_iff (fun written known => record.Holds depth written known)
    fun _ _ _ _ hshows => read_eq_ok_iff hsteady hshows

end Record

end Bindery.Json
