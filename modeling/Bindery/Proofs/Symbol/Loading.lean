import Bindery.Command.Outcome
import Bindery.Proofs.Symbol.Lookup
import Bindery.Proofs.Symbol.Rewriting

/-!
# Tables that are loaded

Indexes are not stored. A document says what the symbols are, and when it is read the table is made
from them like any other. So it does not matter where a table comes from: given as a list, read
from a document, or loaded from a file, it answers as scans of its list do
(`Bindery.SymbolTable.scans_wherever_from`).
-/

namespace Bindery

/-- **What a job loads** is what is read from the text of its input. -/
theorem Command.Job.table_eq_ok_iff {job : Command.Job} {table : SymbolTable}
    {bytes : Except Command.FileError ByteArray} : job.table bytes = .ok table ↔
      ∃ raw text, bytes = .ok raw ∧ String.fromUTF8? raw = some text ∧
        SymbolTable.ofDocument job.input text = .ok table := by
  cases bytes with
  | error error => simp [Command.Job.table]
  | ok raw =>
    cases htext : String.fromUTF8? raw with
    | none => simp [Command.Job.table, htext]
    | some text => simp [Command.Job.table, htext]

/-- The text of a file that was written as text is that text. -/
theorem Command.Job.table_toUTF8 (job : Command.Job) (text : String) :
    job.table (.ok text.toUTF8) = SymbolTable.ofDocument job.input text := by
  have htext : String.fromUTF8? text.toUTF8 = some text := dif_pos text.isValidUTF8
  simp only [Command.Job.table, htext]

namespace SymbolTable

theorem exists_scans_of_ofDocument {path text : String} {table : SymbolTable}
    (h : ofDocument path text = .ok table) :
    ∃ contents, Contents.ofText text.toList = .ok contents ∧ table.Scans contents.symbols := by
  obtain ⟨contents, hcontents, rfl⟩ := ofDocument_eq_ok_iff.mp h
  exact ⟨contents, hcontents, scans_ofSymbols _ contents.symbols⟩

/-- **A table answers as scans of its list of symbols do, wherever it comes from**: from the list
itself, from a document, or from the file of a job. -/
theorem scans_wherever_from :
    (∀ sources symbols, (ofSymbols sources symbols).Scans symbols) ∧
      (∀ path text table, ofDocument path text = .ok table →
        ∃ contents, Contents.ofText text.toList = .ok contents ∧
          table.Scans contents.symbols) ∧
      ∀ (job : Command.Job) bytes table, job.table bytes = .ok table →
        ∃ raw text contents, bytes = .ok raw ∧ String.fromUTF8? raw = some text ∧
          Contents.ofText text.toList = .ok contents ∧ table.Scans contents.symbols := by
  refine ⟨scans_ofSymbols, fun _ _ _ => exists_scans_of_ofDocument, fun job bytes table h => ?_⟩
  obtain ⟨raw, text, hbytes, htext, htable⟩ := Command.Job.table_eq_ok_iff.mp h
  obtain ⟨contents, hcontents, hscans⟩ := exists_scans_of_ofDocument htable
  exact ⟨raw, text, contents, hbytes, htext, hcontents, hscans⟩

/-- A variable before an interface of its name is found by the name, and the interface as a type;
the class that comes last is found by neither. -/
theorem scans_wherever_from_node :
    let symbols := [Symbol.ofGlobal "Node" (.other "Constructor"), Symbol.ofInterface "Node",
      Symbol.ofClass "Node"]
    let text := (Contents.mk ["dom.ts"] symbols).toJson.write
    let table := ofSymbols ["dom.ts"] symbols
    let job : Command.Job := ⟨"dom.json", false, none, [], none⟩
    ofDocument "dom.json" text = .ok table ∧ job.table (.ok text.toUTF8) = .ok table ∧
      (table.lookup? "Node").map Fin.val = some 0 ∧
      (table.lookupType? "Node").map Fin.val = some 1 ∧ table.lookupType? "Text" = none := by
  intro symbols text table job
  have hread : ofDocument "dom.json" text = .ok table :=
    ofDocument_write "dom.json" ⟨["dom.ts"], symbols⟩
  have hload : job.table (.ok text.toUTF8) = .ok table :=
    (job.table_toUTF8 text).trans hread
  have hsymbols : table.symbols.toList = symbols := rfl
  obtain ⟨-, hofDocument, hofJob⟩ := scans_wherever_from
  obtain ⟨_, -, hscans⟩ := hofDocument "dom.json" text table hread
  obtain ⟨_, _, _, -, -, -, hscans'⟩ := hofJob job (.ok text.toUTF8) table hload
  refine ⟨hread, hload, ?_, ?_, ?_⟩
  · rw [(hscans.lookup "Node").place_eq, hsymbols]
    rfl
  · rw [(hscans.lookupType "Node").place_eq, hsymbols]
    rfl
  · rw [(hscans'.lookupType "Text").eq_none_iff, hsymbols]
    decide

end SymbolTable

end Bindery
