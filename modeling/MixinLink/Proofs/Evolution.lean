import MixinLink.Proofs.Permissions

/-!
# How remapping changes a table

Whatever remapping does to a sound table, it does by the changes of `Change`, one after the other.
This holds for a source file and for each part of remapping, so that it can be said of the table at
any point on the way.

Main exports: `evolving`, `evolving_permits`, `Remap.Meets.evolves`, `Attempt.Meets.evolves`,
`evolves_remapUnit`.
-/

namespace MixinLink

variable {hierarchy : Hierarchy} {decls : List ClassDecl} {table : Table}

/-- The table stays sound, and comes from a table by the changes that remapping makes. -/
def evolving (hierarchy : Hierarchy) (decls : List ClassDecl) (start : Table) : Contract where
  kept now := now.Sound ∧ Evolves hierarchy decls start now
  edits _ := True
  reports _ := True

/-- All changes of remapping lead on from a table to the next. -/
theorem evolving_permits (start : Table) : (evolving hierarchy decls start).Permits hierarchy decls where
  sound _ kept := kept.1
  changes _ _ step kept := ⟨kept.1.change step, kept.2.tail step⟩
  edits _ _ _ _ _ _ := trivial
  disagreements _ _ _ _ _ := trivial
  members _ _ _ := trivial
  classes _ _ _ _ := trivial

/-- A step that stays among the tables that evolve from any table evolves the table that it starts from. -/
theorem Remap.Meets.evolves {α : Type} {step : Remap α} {post : α → Prop}
    (meets : Remap.Meets (evolving hierarchy decls table) step post) (sound : table.Sound) :
    Evolves hierarchy decls table (step table).table :=
  (meets table ⟨sound, .refl⟩).kept.2

/-- An attempt that stays among the tables that evolve from any table evolves the table that it starts
from. -/
theorem Attempt.Meets.evolves {attempt : Attempt Unit} {failures : Failure → Prop}
    (meets : attempt.Meets (evolving hierarchy decls table) failures) (sound : table.Sound) :
    Evolves hierarchy decls table (attempt.run table).table :=
  (meets table ⟨sound, .refl⟩).kept.2

/-- Remapping a source file changes a sound table only by the changes that are listed. -/
theorem evolves_remapUnit (sound : table.Sound) (hierarchy : Hierarchy) (unit : SourceUnit) :
    Evolves hierarchy unit.walk table (remapUnit hierarchy table unit).value.2 :=
  (evolving_permits table).meets_each.evolves sound

end MixinLink
