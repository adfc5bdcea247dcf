import SourceChange.Operation.Apply
import SourceChange.Proofs.Except
import SourceChange.Proofs.Reading

/-!
What a successful extraction has done.
-/

namespace SourceChange.Extraction

open Source Syntax Syntax.Node

/-- The file that an extraction creates. -/
def fileOf (d : Draft) (e : Extraction) : String := Template.nameOr e.file (defaultFile d.path e.component)

/-- The name under which the old file imports the new one. -/
def moduleOf (d : Draft) (e : Extraction) : String :=
  moduleFrom (Path.directory d.path) (Path.splitExtension (fileOf d e)).1

/-- The text of the file that an extraction creates. -/
def contentOf (d : Draft) (e : Extraction) (jsx : String) (face : Interface) : String :=
  render e.component jsx face.props e.propTypes face.imports
    (Language.isTyped d.path && Language.isTyped (fileOf d e))

/-- An extraction with the given outcome: it takes the markup at `v` out of the tree `t` of the draft and
leaves the text `edited`, which then imports the new component. -/
structure Extracts (d : Draft) (e : Extraction) (r : Reader) (o : Outcome) (t : Tree) (v : Visit)
    (face : Interface) (edited : String) : Prop where
  tree : (d.tree.on r).1 = .ok t
  markup : locate t e.jsx = .ok v
  interface : interfaceOf t v e.extractProps d.path (fileOf d e) = .ok face
  edit : t.edited [usageEdit v.node e.component face.props] = .ok edited
  imported : ((Import.merge (d.advance edited) (.named (moduleOf d e) [e.component])).on
    (d.tree.on r).2).1 = .ok o.text
  created : o.created = [(fileOf d e, contentOf d e (t.nodeText v.node) face)]

variable {d : Draft} {e : Extraction} {r : Reader} {o : Outcome}

/-- An extraction succeeds by all of its steps. -/
theorem exists_extracts (h : ((extract d e).on r).1 = .ok o) :
    ∃ t v face edited, Extracts d e r o t v face edited := by
  unfold extract at h
  obtain ⟨t, ht, h⟩ := Reading.exists_of_bind_on_eq_ok h
  obtain ⟨v, hv, h⟩ := Reading.exists_of_liftM_on_eq_ok h
  extract_lets file at h
  split at h
  · obtain ⟨_, hthrow, -⟩ := Reading.exists_of_bind_on_eq_ok h
    cases hthrow
  · obtain ⟨face, hface, h⟩ := Reading.exists_of_liftM_on_eq_ok h
    obtain ⟨edited, hedited, h⟩ := Reading.exists_of_liftM_on_eq_ok h
    obtain ⟨text, htext, h⟩ := Reading.exists_of_bind_on_eq_ok h
    rw [Reading.on_pure] at h
    cases h
    exact ⟨t, v, face, edited, ht, hv, hface, hedited, htext, rfl⟩

end SourceChange.Extraction
