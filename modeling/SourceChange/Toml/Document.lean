import SourceChange.Toml.Value

/-!
TOML documents.

A document is a table that statements fill one after the other. A table is declared once, a value is
set once, and what is written as one value takes no further members.
-/

namespace SourceChange.Toml

/-- A document while its statements are read. -/
structure Document where
  members : Members
  /-- The table that the statements now fill. -/
  header : List String
  /-- The tables that are declared. -/
  declared : List (List String)
  /-- The tables that are values of their own. -/
  closed : List (List String)

namespace Document

/-- The document without statements. -/
def empty : Document := ⟨[], [], [], []⟩

/-- Whether a table lies in a value of its own. -/
def isClosed (d : Document) (path : List String) : Bool := d.closed.any (·.isPrefixOf path)

/-- Changes the table at a path, which is created where it is missing; of a list of tables the last one
is meant. -/
def updateTable? (f : Members → Option Members) :
    List String → Members → Option Members
  | [], ms => f ms
  | k :: ks, ms =>
    match Datum.member? k ms with
    | none => (updateTable? f ks []).map fun inner => ms ++ [(.string k, .table inner)]
    | some (.table inner) =>
      (updateTable? f ks inner).map fun inner => Datum.setMember (.string k) (.table inner) ms
    | some (.list vs) =>
      match vs.getLast? with
      | some (.table inner) =>
        (updateTable? f ks inner).map fun inner =>
          Datum.setMember (.string k) (.list (vs.dropLast ++ [.table inner])) ms
      | _ => none
    | some _ => none

/-- Sets a member that is not set yet. -/
def setOnce? (k : String) (v : Datum) (ms : Members) : Option Members :=
  if (Datum.member? k ms).isSome then none else some (ms ++ [(.string k, v)])

/-- Adds an empty table to the list of tables under a key. -/
def pushTable? (k : String) (ms : Members) : Option Members :=
  match Datum.member? k ms with
  | none => some (ms ++ [(.string k, .list [.table []])])
  | some (.list vs) => some (Datum.setMember (.string k) (.list (vs ++ [.table []])) ms)
  | some _ => none

/-- The proper, non-empty starts of a key. -/
def starts : List String → List (List String)
  | [] => []
  | [_] => []
  | k :: ks => [k] :: (starts ks).map (k :: ·)

/-- Declares a table. -/
def declare? (d : Document) (path : List String) : Option Document :=
  if d.declared.contains path || d.isClosed path then none
  else
    (updateTable? some path d.members).map fun ms =>
      { d with members := ms, header := path, declared := path :: d.declared }

/-- Adds a table to a list of tables. What lies below the list is open again. -/
def declareItem? (d : Document) (path : List String) : Option Document :=
  if d.isClosed path then none
  else
    match path.getLast? with
    | none => none
    | some k =>
      (updateTable? (pushTable? k) path.dropLast d.members).map fun ms =>
        { members := ms
          header := path
          declared := path :: d.declared.filter fun p => !path.isPrefixOf p
          closed := d.closed.filter fun p => !path.isPrefixOf p }

/-- Sets a value in the current table. -/
def set? (d : Document) (key : List String) (v : Datum) : Option Document :=
  let path := d.header ++ key
  let between := (starts key).map (d.header ++ ·)
  if between.any d.declared.contains || d.isClosed path.dropLast then none
  else
    match path.getLast? with
    | none => none
    | some k =>
      (updateTable? (setOnce? k v) path.dropLast d.members).map fun ms =>
        { d with
          members := ms
          closed := match v with
            | .table _ | .list _ => path :: d.closed
            | _ => d.closed }

/-- Marks the tables that dotted keys have opened as declared. -/
def settle (d : Document) (pending : List (List String)) : Document :=
  { d with declared := pending ++ d.declared }

end Document

/-- The end of a statement: blanks, a comment and a line feed or the end of the text. -/
def endOfLine? (cs : List Char) : Option (List Char) :=
  match cs.dropWhile isSpace with
  | [] => some []
  | '\n' :: r => some r
  | '#' :: r => (comment? r).map (·.drop 1)
  | _ => none

/-- A header in brackets, after the opening ones. -/
def header? (close : List Char) (cs : List Char) : Option (List String × List Char) :=
  match key? (cs.length + 1) (cs.dropWhile isSpace) with
  | some (path, r) => if close.isPrefixOf r then some (path, r.drop close.length) else none
  | none => none

/-- Reads statements into a document. Tables that dotted keys open count as declared once the next
header comes. -/
def statements? : Nat → List Char → Document → List (List String) → Option Document
  | 0, _, _, _ => none
  | n + 1, cs, d, pending =>
    match cs.dropWhile isSpace with
    | [] => some d
    | '\n' :: r => statements? n r d pending
    | '#' :: r =>
      match comment? r with
      | some r' => statements? n r' d pending
      | none => none
    | '[' :: '[' :: r =>
      match header? [']', ']'] r with
      | some (path, r') =>
        match (d.settle pending).declareItem? path, endOfLine? r' with
        | some d, some r'' => statements? n r'' d []
        | _, _ => none
      | none => none
    | '[' :: r =>
      match header? [']'] r with
      | some (path, r') =>
        match (d.settle pending).declare? path, endOfLine? r' with
        | some d, some r'' => statements? n r'' d []
        | _, _ => none
      | none => none
    | r =>
      match key? (r.length + 1) r with
      | some (key, '=' :: r') =>
        match value? (2 * r'.length + 2) (r'.dropWhile isSpace) with
        | some (v, r'') =>
          match d.set? key v, endOfLine? r'' with
          | some d', some rest =>
            statements? n rest d' ((Document.starts key).map (d.header ++ ·) ++ pending)
          | _, _ => none
        | none => none
      | _ => none

/-- Line ends of two characters become one. -/
def unifyLineEnds : List Char → List Char
  | [] => []
  | '\r' :: '\n' :: cs => '\n' :: unifyLineEnds cs
  | c :: cs => c :: unifyLineEnds cs

/-- The members of the table that a TOML text is. -/
def parse? (text : String) : Option Members :=
  let cs := unifyLineEnds text.toList
  (statements? (cs.length + 1) cs .empty []).map (·.members)

end SourceChange.Toml
