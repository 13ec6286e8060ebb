import Bindery.Proofs.Json.Rewriting

/-!
# What readers find in tagged values

The entries of a tagged object are **sorted** (`Bindery.Json.Sorts`) before anything is made of
them: one of them is the tag, and the others are kept as plain values in their order. So what is
kept changes its order with the entries, and an entry that is added is kept as well; what is made of
them should depend on neither. This is unlike a record, which passes over what it does not know.

A tagged value **bears** a tag and its content (`Bindery.Json.Bears`) if the reader finds both.
-/

namespace Bindery.Json

variable {α : Type} {tag : String} {choice : Choice α} {depth : ℕ} {found found' : Option α}
  {known : α} {written : Written} {rest : List Char} {lead : Lead} {value : Written}
  {before after entries entries' : List (Lead × Written)} {kept : List (String × Json)}

/-! ### Sorting entries -/

/-- **The entries of an object are sorted** into a tag, which may be known before, and those that
are kept. -/
inductive Sorts (tag : String) (choice : Choice α) (depth : ℕ) :
    Option α → List (Lead × Written) → Option α → List (String × Json) → Prop
  | done (found : Option α) : Sorts tag choice depth found [] found []
  | tag {lead : Lead} {value : Written} {entries : List (Lead × Written)} {word : String}
    {known : α} {found : Option α} {kept : List (String × Json)} (hlead : lead.Says tag)
    (hvalue : value.Is (.string word)) (hword : choice word = .ok known)
    (htail : Sorts tag choice depth (some known) entries found kept) :
    Sorts tag choice depth none ((lead, value) :: entries) found kept
  | keep {lead : Lead} {value : Written} {entries : List (Lead × Written)} {label : String}
    {json : Json} {found found' : Option α} {kept : List (String × Json)} (hlead : lead.Says label)
    (hlabel : label ≠ tag) (hvalue : value.Reads depth json)
    (htail : Sorts tag choice depth found entries found' kept) :
    Sorts tag choice depth found ((lead, value) :: entries) found' ((label, json) :: kept)

theorem sorts_of_readTagged {nodes : Entries} {left : List Char} (hshow : nodes.Show entries rest)
    (h : nodes.readTagged tag choice depth found = .ok (found', kept, left)) :
    Sorts tag choice depth found entries found' kept := by
  induction entries generalizing nodes found kept left with
  | nil =>
    cases hshow
    obtain ⟨rfl, hkept⟩ := Prod.mk.inj (Except.ok.inj h)
    obtain ⟨rfl, -⟩ := Prod.mk.inj hkept
    exact .done _
  | cons entry entries ih =>
    cases hshow with
    | @more key node tail lead value _ _ _ _ hkey hvalue htail =>
      rw [Entries.readTagged.eq_def] at h
      obtain ⟨label, hlabel, h⟩ := bind_eq_ok_iff.mp h
      have hlead : lead.Says label := (hkey.strict_iff label).mp hlabel
      split at h
      · next heq =>
        subst heq
        split at h
        · cases h
        · obtain ⟨known, hread, h⟩ := bind_eq_ok_iff.mp h
          obtain ⟨word, hscalar, hword⟩ := (readWord_eq_ok_iff hvalue).mp hread
          exact .tag hlead hscalar hword (ih htail h)
      · next hne =>
        obtain ⟨json, hjson, h⟩ := bind_eq_ok_iff.mp h
        obtain ⟨⟨found, kept, left⟩, hread, h⟩ := bind_eq_ok_iff.mp h
        obtain ⟨rfl, hkept⟩ := Prod.mk.inj (Except.ok.inj h)
        obtain ⟨rfl, -⟩ := Prod.mk.inj hkept
        have hreads := (value.legible _ _ _ _ hvalue).mp hjson
        exact .keep hlead hne hreads (ih htail hread)

theorem Sorts.readTagged_eq (h : Sorts tag choice depth found entries found' kept)
    {nodes : Entries} (hshow : nodes.Show entries rest) :
    nodes.readTagged tag choice depth found = .ok (found', kept, rest) := by
  induction h generalizing nodes with
  | done =>
    cases hshow
    rfl
  | tag hlead hscalar hword _ ih =>
    cases hshow with
    | more hkey hvalue htail =>
      have hlabel := (hkey.strict_iff _).mpr hlead
      have hread := (readWord_eq_ok_iff hvalue).mpr ⟨_, hscalar, hword⟩
      rw [Entries.readTagged.eq_def]
      simp only [hlabel, hread, ih htail, bind, Except.bind, if_true]
  | keep hlead hne hreads _ ih =>
    cases hshow with
    | more hkey hvalue htail =>
      have hlabel := (hkey.strict_iff _).mpr hlead
      have hread := (Written.legible _ _ _ _ _ hvalue).mpr hreads
      rw [Entries.readTagged.eq_def]
      simp only [hlabel, hread, ih htail, bind, Except.bind, if_neg hne]
      rfl

/-! ### Sorting them after a change -/

/-- Two entries next to each other may change places; if both are kept, they do so there too. -/
theorem Sorts.exists_swap {entry entry' : Lead × Written}
    (h : Sorts tag choice depth found (entry :: entry' :: entries) found' kept) :
    ∃ kept', kept.Perm kept' ∧
      Sorts tag choice depth found (entry' :: entry :: entries) found' kept' := by
  cases h with
  | tag hlead hvalue hword htail =>
    cases htail with
    | keep hlead' hlabel' hvalue' htail =>
      exact ⟨_, .refl _, .keep hlead' hlabel' hvalue' (.tag hlead hvalue hword htail)⟩
  | keep hlead hlabel hvalue htail =>
    cases htail with
    | tag hlead' hvalue' hword' htail =>
      exact ⟨_, .refl _, .tag hlead' hvalue' hword' (.keep hlead hlabel hvalue htail)⟩
    | keep hlead' hlabel' hvalue' htail =>
      exact ⟨_, .swap _ _ _, .keep hlead' hlabel' hvalue' (.keep hlead hlabel hvalue htail)⟩

/-- **The order of the entries matters only for the order of those that are kept.** -/
theorem Sorts.exists_perm (hperm : entries.Perm entries')
    (h : Sorts tag choice depth found entries found' kept) :
    ∃ kept', kept.Perm kept' ∧ Sorts tag choice depth found entries' found' kept' := by
  induction hperm generalizing found kept with
  | nil => exact ⟨kept, .refl _, h⟩
  | cons entry _ ih =>
    cases h with
    | tag hlead hvalue hword htail =>
      obtain ⟨kept', hkept, htail'⟩ := ih htail
      exact ⟨kept', hkept, .tag hlead hvalue hword htail'⟩
    | keep hlead hlabel hvalue htail =>
      obtain ⟨kept', hkept, htail'⟩ := ih htail
      exact ⟨_, hkept.cons _, .keep hlead hlabel hvalue htail'⟩
  | swap entry entry' entries => exact h.exists_swap
  | trans _ _ ih ih' =>
    obtain ⟨between, hbetween, h⟩ := ih h
    obtain ⟨kept', hkept, h⟩ := ih' h
    exact ⟨kept', hbetween.trans hkept, h⟩

theorem Sorts.respace (hsaid : entries.map said = entries'.map said)
    (h : Sorts tag choice depth found entries found' kept) :
    Sorts tag choice depth found entries' found' kept := by
  induction h generalizing entries' with
  | done found =>
    obtain rfl := List.map_eq_nil_iff.mp hsaid.symm
    exact .done found
  | tag hlead hvalue hword _ ih =>
    obtain ⟨lead', tail, rfl, hlabels, htail⟩ := exists_of_said hsaid
    exact .tag (hlabels _ hlead) hvalue hword (ih htail)
  | keep hlead hlabel hvalue _ ih =>
    obtain ⟨lead', tail, rfl, hlabels, htail⟩ := exists_of_said hsaid
    exact .keep (hlabels _ hlead) hlabel hvalue (ih htail)

/-- **An entry may be added** that is not the tag. It is kept, at its place. -/
theorem Sorts.exists_add {label : String} {json : Json}
    (h : Sorts tag choice depth found (before ++ after) found' kept) (hlead : lead.Says label)
    (hlabel : label ≠ tag) (hvalue : value.Reads depth json) :
    ∃ kept', kept'.Perm ((label, json) :: kept) ∧
      Sorts tag choice depth found (before ++ (lead, value) :: after) found' kept' := by
  induction before generalizing found kept with
  | nil => exact ⟨_, .refl _, .keep hlead hlabel hvalue h⟩
  | cons _ _ ih =>
    cases h with
    | tag hlead' hvalue' hword htail =>
      obtain ⟨kept', hkept, htail'⟩ := ih htail
      exact ⟨kept', hkept, .tag hlead' hvalue' hword htail'⟩
    | keep hlead' hlabel' hvalue' htail =>
      obtain ⟨kept', hkept, htail'⟩ := ih htail
      exact ⟨_, (hkept.cons _).trans (.swap _ _ _), .keep hlead' hlabel' hvalue' htail'⟩

/-! ### Tagged values -/

/-- **A tagged value bears a tag and its content**: as the entries of an object, or as the first
item of a list and the others. -/
inductive Bears (tag : String) (choice : Choice α) (depth : ℕ) : Written → α → Content → Prop
  | object {entries : List (Lead × Written)} {last : Blanks} {known : α}
    {kept : List (String × Json)} (hdepth : depth < depthLimit)
    (hsorts : Sorts tag choice (depth + 1) none entries (some known) kept) :
    Bears tag choice depth (.object entries last) known (.entries kept)
  | array {gap : Gap} {head : Written} {items : List (Gap × Written)} {last : Blanks}
    {word : String} {known : α} {values : List Json} (hdepth : depth < depthLimit)
    (hhead : head.Is (.string word)) (hword : choice word = .ok known)
    (hvalues : Written.itemValues? items = some values)
    (hnesting : Written.itemNesting items ≤ depthLimit - (depth + 1)) :
    Bears tag choice depth (.array ((gap, head) :: items) last) known (.items values)

/-- **The tag and the content** are found where a tagged value bears them. -/
theorem Node.readTagged_eq_ok_iff {node : Node} (hshows : node.Shows written rest) (title : String)
    {content : Content} : node.readTagged title tag choice depth = .ok (known, content) ↔
      Bears tag choice depth written known content := by
  cases hshows with
  | scalar hstart hmoved => exact ⟨nofun, nofun⟩
  | object hentries =>
    simp only [Node.readTagged, bind_eq_ok_iff, checkDepth_eq_ok_iff, mapError_eq_ok_iff]
    constructor
    · rintro ⟨-, hdepth, ⟨found, kept, left⟩, hread, h⟩
      have hsorts := sorts_of_readTagged hentries hread
      cases found with
      | none => cases h
      | some found =>
        obtain ⟨rfl, rfl⟩ := Prod.mk.inj (Except.ok.inj h)
        exact .object hdepth hsorts
    · rintro (⟨hdepth, hsorts⟩ | _)
      exact ⟨(), hdepth, ⟨_, _, _⟩, hsorts.readTagged_eq hentries, rfl⟩
  | array hitems =>
    simp only [Node.readTagged, bind_eq_ok_iff, checkDepth_eq_ok_iff, mapError_eq_ok_iff]
    cases hitems with
    | done =>
      constructor
      · rintro ⟨-, -, ⟨found, values, left⟩, hread, h⟩
        obtain ⟨rfl, -⟩ := Prod.mk.inj (Except.ok.inj hread)
        cases h
      · rintro ⟨⟩
    | @more head tail gap item items next _ hhead htail =>
      simp only [Items.readTagged, bind_eq_ok_iff, readWord_eq_ok_iff hhead,
        values_eq_ok_iff (fun item _ => item.2.legible) htail]
      constructor
      · rintro ⟨-, hdepth, _, ⟨tagged, ⟨word, hscalar, hword⟩, values, ⟨hvalues, hnesting⟩, heq⟩, h⟩
        obtain rfl := Except.ok.inj heq
        obtain ⟨rfl, rfl⟩ := Prod.mk.inj (Except.ok.inj h)
        exact .array hdepth hscalar hword hvalues hnesting
      · intro h
        cases h with
        | array hdepth hscalar hword hvalues hnesting =>
          exact ⟨(), hdepth, _, ⟨known, ⟨_, hscalar, hword⟩, _, ⟨hvalues, hnesting⟩, rfl⟩, rfl⟩

end Bindery.Json
