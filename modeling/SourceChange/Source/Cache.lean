import SourceChange.Digest.Sha256
import SourceChange.Source.Edit
import SourceChange.Source.Tree

/-!
A cache of trees, and the reader that fills it.

An entry belongs to a path, a language and the digest of a text; for each path and language only the
newest text is kept. The entries stand in the order of their last use, and when there are too many the
one unused for longest goes.

`Reader` numbers the trees it reads, and takes a tree from its cache, if it has one, instead of reading
the same text again.
-/

namespace SourceChange.Source

/-- What a cached tree belongs to. -/
structure CacheKey where
  path : String
  language : Language
  digest : String
  deriving DecidableEq, Repr

namespace CacheKey

/-- The key of a text. -/
def ofText (path : String) (language : Language) (text : String) : CacheKey :=
  ⟨path, language, Digest.sha256 (utf8 text)⟩

end CacheKey

/-- Trees by key, in the order of their last use. -/
structure Cache where
  capacity : Nat
  entries : List (CacheKey × Tree)
  hits : Nat
  misses : Nat

namespace Cache

/-- A cache with no entries. -/
def empty (capacity : Nat) : Cache := ⟨capacity, [], 0, 0⟩

/-- The number of entries. -/
def size (c : Cache) : Nat := c.entries.length

/-- The share of the lookups that found a tree. -/
def hitRate (c : Cache) : Binary64 :=
  let total := c.hits + c.misses
  if total == 0 then Binary64.zero else Binary64.ofRatio false c.hits total

/-- Looks up a key; a tree that is found counts as used. -/
def get (c : Cache) (key : CacheKey) : Option Tree × Cache :=
  match c.entries.find? (·.1 == key) with
  | none => (none, { c with misses := c.misses + 1 })
  | some e =>
    (some e.2, { c with
      entries := c.entries.filter (·.1 != key) ++ [e]
      hits := c.hits + 1 })

/-- Adds a tree. It replaces all trees of the same path and language. -/
def put (c : Cache) (key : CacheKey) (tree : Tree) : Cache :=
  let others := c.entries.filter fun e =>
    !(e.1.path == key.path && e.1.language == key.language)
  let all := others ++ [(key, tree)]
  { c with entries := all.drop (all.length - c.capacity) }

/-- Drops the entries of a path, and counts them. -/
def invalidate (c : Cache) (path : String) : Nat × Cache :=
  ((c.entries.filter (·.1.path == path)).length,
    { c with entries := c.entries.filter (·.1.path != path) })

/-- Drops all entries and counts from the start. -/
def clear (c : Cache) : Cache := empty c.capacity

end Cache

/-- Reads texts into trees. -/
structure Reader where
  /-- The texts that were read into trees, newest first. -/
  texts : List String
  cache : Option Cache

namespace Reader

/-- A reader that keeps no trees. -/
def plain : Reader := ⟨[], none⟩

/-- A reader with a cache of the given capacity. -/
def caching (capacity : Nat) : Reader := ⟨[], some (.empty capacity)⟩

/-- The version of the next tree, which is its place among all that were read. -/
def version (r : Reader) : Nat := r.texts.length + 1

/-- Reads a text into a new tree. -/
def read (r : Reader) (language : Language) (text : String) : Tree × Reader :=
  (Tree.build r.version language text.toList, { r with texts := text :: r.texts })

/-- Reads the text of a file, or takes its tree from the cache. -/
def fileTree (r : Reader) (path : String) (language : Language) (text : String) : Tree × Reader :=
  match r.cache with
  | none => r.read language text
  | some c =>
    let key := CacheKey.ofText path language text
    match c.get key with
    | (some t, c) => (t, { r with cache := some c })
    | (none, c) =>
      let (t, r) := r.read language text
      (t, { r with cache := some (c.put key t) })

end Reader

/-- Work that reads trees and may fail; what was read before a failure stays read. -/
abbrev Reading := ExceptT Failure (StateM Reader)

namespace Reading

/-- Reads a text, with or without syntax errors. -/
def lenient (language : Language) (text : String) : Reading Tree :=
  modifyGet fun r => r.read language text

/-- Reads the text of a file, with or without syntax errors. -/
def lenientFile (path : String) (language : Language) (text : String) : Reading Tree :=
  modifyGet fun r => r.fileTree path language text

/-- Refuses a tree with syntax errors. -/
def check (t : Tree) : Reading Tree := if t.hasErrors then throw .syntaxError else return t

/-- Reads a text that has to be free of syntax errors. -/
def strict (language : Language) (text : String) : Reading Tree := do
  check (← lenient language text)

/-- Reads the text of a file that has to be free of syntax errors. -/
def strictFile (path : String) (language : Language) (text : String) : Reading Tree := do
  check (← lenientFile path language text)

end Reading

end SourceChange.Source
