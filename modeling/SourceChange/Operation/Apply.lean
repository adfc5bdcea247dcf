import SourceChange.Authentication.Scaffold
import SourceChange.Element.ClassName
import SourceChange.Element.Attribute
import SourceChange.Element.Insertion
import SourceChange.Extraction.Component
import SourceChange.Template.Attach
import SourceChange.TextChange

/-!
Carrying out operations.
-/

namespace SourceChange.Operation

open Source

/-- Changes the first element with a tag. -/
def changeElement (d : Draft) (target : String) : ElementChange → Reading Outcome
  | .classes static condition raw => Element.changeClasses d target static condition raw
  | .insert jsx position => Element.insert d target jsx position
  | .prop name action value => Element.changeProp d target name action value
  | .wrap wrapper props spec => Element.wrap d target wrapper props spec

/-- Carries out an operation on a draft that it can work on. -/
def perform (d : Draft) : Operation → Reading Outcome
  | hook h component => Hook.add d h component
  | addImport r => Import.add d r
  | element target change => changeElement d target change
  | context c => Template.addContext d c
  | store s => Template.addStore d s
  | authentication style email component => Authentication.add d style email component
  | extract e => Extraction.extract d e
  | text change => change.apply d

/-- Carries out an operation on a draft. Only changes of text work on a file without a tree. -/
def apply (d : Draft) (op : Operation) : Reading Outcome :=
  if op.isStructural && d.language == .plaintext then throw (.needsTree op.kind.name d.path)
  else op.perform d

end SourceChange.Operation
