import Bindery.Proofs.Assembly.Members
import Bindery.Proofs.Assembly.Telling

/-!
# Members that are denied

A field or a method that the configuration denies leaves nothing behind but a diagnostic, its
**denial** (`Bindery.Assembly.Context.shown_gain_of_denied`). In particular a denied field does
not declare its name, so a later field of this name is built as if there were no other.

A type is thus the same without its denied members, and what is told of it is the same except for
their denials, which are taken out (`Bindery.Assembly.Context.typeOn_stripped`).
-/

namespace Bindery

/-! ### Denied members -/

/-- **A member is denied** if the denylist has its name under that of its owner. -/
theorem Config.deniesMember_iff {config : Config} {owner member : String} :
    config.deniesMember owner member = true ↔ owner ++ ":" ++ member ∈ config.denylist :=
  Std.TreeSet.contains_iff_mem

/-- Whether a member is a field or a method that is denied. -/
def Config.stripsMember (config : Config) (owner : Symbol) (member : Symbol.Member) : Bool :=
  (member.kind = .field || member.kind = .method) && config.deniesMember owner.name member.name

theorem Config.stripsMember_iff {config : Config} {owner : Symbol} {member : Symbol.Member} :
    config.stripsMember owner member = true ↔ (member.kind = .field ∨ member.kind = .method) ∧
      owner.name ++ ":" ++ member.name ∈ config.denylist := by
  rw [stripsMember, Bool.and_eq_true, deniesMember_iff, Bool.or_eq_true, decide_eq_true_iff,
    decide_eq_true_iff]

/-- **A symbol without its denied members.** -/
def Config.stripped (config : Config) (symbol : Symbol) : Symbol :=
  { symbol with members := symbol.members.filter fun member => !config.stripsMember symbol member }

namespace Assembly.Context

open Decl (TypeDecl)

variable {context : Context} {owner : Symbol} {parent : Option TypeDecl} {built last : Members}
  {member : Symbol.Member} {members : List Symbol.Member} {told : List Diagnostic}

/-- **What is told of a denied member.** -/
def denial (owner : Symbol) (member : Symbol.Member) : Diagnostic :=
  match member.kind with
  | .method => ⟨.skipped, "skipping denylisted method `" ++ owner.name ++ ":" ++ member.name ++ "`"⟩
  | _ => ⟨.skipped, "skipping denylisted field `" ++ owner.name ++ ":" ++ member.name ++ "`"⟩

/-- A member in words is named together with its owner. -/
theorem append_memberName (before : String) : before ++ memberName owner member =
    before ++ "`" ++ owner.name ++ ":" ++ member.name ++ "`" := by
  simp only [memberName, Config.qualified, String.append_assoc]

/-- **What is told of the denied members of a symbol.** -/
def denials (context : Context) (owner : Symbol) : List Diagnostic :=
  (owner.members.filter (context.config.stripsMember owner)).map (denial owner)

/-- **A denied member adds nothing**, and only its denial is told of it. -/
theorem shown_gain_of_denied (h : context.config.stripsMember owner member = true)
    (declared : Bool) :
    (context.gain owner declared member).shown = (.ok {}, [denial owner member]) := by
  obtain ⟨hkind, hmem⟩ := Config.stripsMember_iff.mp h
  have hdenied := Config.deniesMember_iff.mpr hmem
  have hfield : "skipping denylisted field " ++ "`" = "skipping denylisted field `" := by decide
  have hmethod : "skipping denylisted method " ++ "`" = "skipping denylisted method `" := by decide
  rw [gain, denial]
  cases hmember : member.kind with
  | field =>
    rw [← hfield, ← append_memberName]
    simp [field, hdenied, Report.skipped, Report.ofDiagnostic, Diagnostic.skipped]
  | method =>
    rw [← hmethod, ← append_memberName]
    simp [methods, hdenied, Report.skipped, Report.ofDiagnostic, Diagnostic.skipped]
  | constructor => simp [hmember] at hkind
  | other => simp [hmember] at hkind

/-- **Without the denied ones members come to the same**, and only the denials of those are missing
from what is told. -/
theorem Gathers.stripped (h : context.Gathers owner parent built members last told) :
    ∃ told', context.Gathers owner parent built
        (members.filter fun member => !context.config.stripsMember owner member) last told' ∧
      TakeOut told ((members.filter (context.config.stripsMember owner)).map (denial owner))
        told' := by
  induction h with
  | nil built => exact ⟨[], .nil built, .none []⟩
  | @cons built more last member members told rest hgain hrest ih =>
    obtain ⟨told', hgathers, htold⟩ := ih
    by_cases hdenied : context.config.stripsMember owner member = true
    · rw [List.filter_cons_of_neg (by simp [hdenied]), List.filter_cons_of_pos hdenied]
      rw [shown_gain_of_denied hdenied, Prod.mk.injEq, Except.ok.injEq] at hgain
      obtain ⟨rfl, rfl⟩ := hgain
      -- the members after it build on what was there before it
      rw [Members.append_empty] at hgathers
      exact ⟨told', hgathers, (TakeOut.all _).append htold⟩
    · rw [List.filter_cons_of_pos (by simp [hdenied]), List.filter_cons_of_neg hdenied]
      exact ⟨told ++ told', .cons hgain hgathers, (TakeOut.none told).append htold⟩

/-- **A type is the same without its denied members**, and what is told of it is the same except
for their denials. -/
theorem typeOn_stripped (hindexed : context.Indexed) (symbol : Symbol)
    (parent : Option TypeDecl) :
    ∃ type told told', (context.typeOn symbol parent).shown = (.ok type, told) ∧
      (context.typeOn (context.config.stripped symbol) parent).shown = (.ok type, told') ∧
      TakeOut told (context.denials symbol) told' := by
  obtain ⟨last, told, hgathers⟩ := exists_gathers hindexed symbol parent {} symbol.members
  obtain ⟨told', hgathers', htold⟩ := hgathers.stripped
  exact ⟨_, told, told', shown_typeOn_eq hgathers, shown_typeOn_eq (hgathers'.of_owner _), htold⟩

end Assembly.Context

end Bindery
