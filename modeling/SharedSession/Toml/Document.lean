import SharedSession.Toml.Statement

set_option autoImplicit false

/-!
# Documents

The statements of a document make up one table. Entries go into the table that the last header
opened; those in front of every header go into the outermost one.
-/

namespace SharedSession.Toml

/-- A document as far as it has been read. -/
structure Document where
  root : Table
  /-- the names that lead to the table which the last header opened -/
  current : List String
deriving Inhabited

namespace Document

/-- The empty document. -/
def empty : Document := ⟨[], []⟩

/-- Carries out a statement. -/
def step (d : Document) : Statement → Option Document
  | .entry key value =>
    (d.root.modifyAt d.current (·.insert key.path key.name value)).map fun root =>
      { d with root }
  | .header key =>
    (d.root.modifyAt key.path (·.openTable key.name)).map fun root =>
      ⟨root, key.path ++ [key.name]⟩
  | .arrayHeader key =>
    (d.root.modifyAt key.path (·.openElement key.name)).map fun root =>
      ⟨root, key.path ++ [key.name]⟩

/-- Carries out statements one after another. -/
def run (d : Document) (statements : List Statement) : Option Document := statements.foldlM step d

end Document

/-- The table that a document stands for. -/
def Table.ofText? (text : String) : Option Table :=
  (statements? text).bind fun ss => (Document.empty.run ss).map (·.root)

end SharedSession.Toml
