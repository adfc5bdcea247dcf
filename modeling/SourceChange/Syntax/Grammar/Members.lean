import SourceChange.Syntax.Grammar.Rules

/-!
Modifiers of members.

A member of a class, an object or an object type may have modifiers before its name, in a fixed
order. Nearly all of these words can be names too: such a word is a modifier only where its place in
the order has come and the name, or a further modifier, follows it.
-/

namespace SourceChange.Syntax

/-- The places for modifiers before a name, in order, each with the words that may fill it. -/
abbrev ModifierRow := List (List String)

namespace ModifierRow

/-- Whether the words fill places of the row in its order, each place at most once. -/
def fits : ModifierRow → List String → Bool
  | _, [] => true
  | [], _ :: _ => false
  | place :: row, w :: ws => if place.contains w then fits row ws else fits row (w :: ws)

/-- Before a property of an object type. -/
def property : ModifierRow := [Words.access, ["static"], ["override"], ["readonly"]]

/-- Before a method. -/
def method : ModifierRow := property ++ [["async"], ["get", "set", "*"]]

/-- Before a method without a body that a subclass has to supply. -/
def abstractMethod : ModifierRow :=
  [Words.access, ["abstract"], ["override"], ["get", "set", "*"]]

/-- Before a field of a class. -/
def fields : List ModifierRow :=
  [[["declare"], Words.access], [Words.access, ["declare"]]].flatMap fun front =>
    [[["static"], ["override"], ["readonly"]], [["abstract"], ["readonly"]],
      [["readonly"], ["abstract"]], [["accessor"]]].map (front ++ ·)

end ModifierRow

/-- What modifiers the members of a body may have. -/
structure MemberStyle where
  /-- The rows of modifiers that occur. -/
  rows : List ModifierRow
  /-- The rows before a member that a line break may end after its name. -/
  breakable : List ModifierRow
  /-- The modifiers that cannot be names where their place has come. -/
  reserved : List String

namespace MemberStyle

/-- Members of an object. -/
def object : MemberStyle := ⟨[.method], [], []⟩

/-- Members of an object type. -/
def objectType : MemberStyle := ⟨[.method], [.property], []⟩

/-- Members of a class. -/
def classBody : MemberStyle :=
  ⟨.method :: .abstractMethod :: ModifierRow.fields, ModifierRow.fields, ["abstract", "accessor"]⟩

/-- Whether a row allows the modifiers in this order. -/
def allows (s : MemberStyle) (ws : List String) : Bool := s.rows.any (·.fits ws)

/-- Whether a line break may end the member after a name that has these modifiers. -/
def breaksAfter (s : MemberStyle) (ws : List String) : Bool := s.breakable.any (·.fits ws)

end MemberStyle

namespace Rules

open Parse

/-- Whether a text starts with the name of a member or with the mark of a generator. -/
def startsMemberName (cs : List Char) : Bool :=
  (name? cs).isSome || (number? cs).isSome ||
    (cs.head?.map ['#', '[', '\x22', '\x27', '*'].contains).getD false

/-- A modifier as a node: some of them are constructs of their own. -/
def modifierNode (w : String) (k : Node) : Parse Node :=
  if Words.access.contains w then node Construct.accessibilityModifier [k]
  else if w == "override" then node Construct.overrideModifier [k]
  else pure k

/-- The next modifier after the modifiers `ws`. -/
def modifier (style : MemberStyle) (ws : List String) : Parse (String × Node) := do
  match ← nextName with
  | some w => do
    require (style.allows (ws ++ [w]))
    let k ← keyword w
    if !style.reserved.contains w then
      if style.breaksAfter ws then sameStatement .plain
      require (startsMemberName (← upcoming))
    return (w, ← modifierNode w k)
  | none => do
    require (style.allows (ws ++ ["*"]))
    return ("*", ← mark "*")

/-- The modifiers of a member, at most the given number of them. -/
def modifiersFrom (style : MemberStyle) : Nat → List String → Parse (List (String × Node))
  | 0, _ => pure []
  | n + 1, ws =>
    (do
      let m ← modifier style ws
      let more ← modifiersFrom style n (ws ++ [m.1])
      return m :: more)
    <|> pure []

/-- The modifiers of a member; no row has more than eight places. -/
def modifiers (style : MemberStyle) : Parse (List (String × Node)) := modifiersFrom style 8 []

/-- The name of a member after the modifiers `ws`. -/
def memberKey (g : Rules) (style : MemberStyle) (ws : List String) : Parse Node := do
  let w ← nextName
  require !(style.reserved.any fun r => w == some r && style.allows (ws ++ [r]))
  g.propertyName

end Rules

end SourceChange.Syntax
