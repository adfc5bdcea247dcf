import SourceChange.Element.Insertion
import SourceChange.Hook.Add
import SourceChange.Operation.Basic
import SourceChange.Text.Indent

/-!
Adding authentication to a component: state, handlers, a login form and a logout button.

First comes the state, one variable after the other, then the handlers, then the login form in front of
the first return and the logout button inside what it returns.
-/

namespace SourceChange.Authentication

open Source Syntax

/-- The classes of a styled input. -/
def inputClasses : String :=
  "w-full px-4 py-2 border border-gray-300 rounded-lg " ++
    "focus:ring-2 focus:ring-blue-500 focus:border-transparent"

/-- The classes of a styled logout button. -/
def logoutClasses : String :=
  "mb-4 bg-red-500 text-white px-4 py-2 rounded hover:bg-red-600 transition-colors"

/-- The state variables, each with its setter and initial value. -/
def states (email : Bool) : List Hook :=
  [.state "isLoggedIn" "setIsLoggedIn" "false" none] ++
    (if email then [.state "email" "setEmail" "''" none] else []) ++
    [.state "password" "setPassword" "''" none]

/-- The function that handles a login, for a place at `indent`. -/
def loginHandler (email : Bool) (indent unit : String) : String :=
  let condition := if email then "email && password" else "password"
  let inner := indent ++ unit
  Text.join "\n"
    ["const handleLogin = (e) => \x7b", inner ++ "e.preventDefault();",
     inner ++ "if (" ++ condition ++ ") \x7b", inner ++ unit ++ "setIsLoggedIn(true);",
     inner ++ "\x7d", indent ++ "\x7d;"]

/-- The function that handles a logout, for a place at `indent`. -/
def logoutHandler (email : Bool) (indent unit : String) : String :=
  let inner := indent ++ unit
  Text.join "\n"
    (["const handleLogout = () => \x7b", inner ++ "setIsLoggedIn(false);"] ++
      (if email then [inner ++ "setEmail('');"] else []) ++
      [inner ++ "setPassword('');", indent ++ "\x7d;"])

/-- One input of the login form. -/
def renderInput (type state setter placeholder extra : String) : String :=
  "<input type=\"" ++ type ++ "\" value=\x7b" ++ state ++ "\x7d onChange=\x7b(e) => " ++ setter ++
    "(e.target.value)\x7d placeholder=\"" ++ placeholder ++ "\"" ++ extra ++ " required />"

/-- The inputs of the login form. -/
def inputs (email : Bool) (style : FormStyle) : List String :=
  let extra := match style with
    | .styled => " className=\"" ++ inputClasses ++ "\""
    | .simple => ""
  (if email then [renderInput "email" "email" "setEmail" "Email" extra] else []) ++
    [renderInput "password" "password" "setPassword" "Password" extra]

/-- The login form. -/
def loginForm (email : Bool) (style : FormStyle) : String :=
  match style with
  | .simple =>
    Text.join "\n"
      (["<div>", "  <h2>Login</h2>", "  <form onSubmit=\x7bhandleLogin\x7d>"] ++
        (inputs email style).map ("    " ++ ·) ++
        ["    <button type=\"submit\">Login</button>", "  </form>", "</div>"])
  | .styled =>
    Text.join "\n"
      (["<div className=\"min-h-screen flex items-center justify-center bg-gray-100\">",
        "  <div className=\"bg-white p-8 rounded-lg shadow-md w-full max-w-md\">",
        "    <h2 className=\"text-2xl font-bold mb-6 text-center\">Login</h2>",
        "    <form onSubmit=\x7bhandleLogin\x7d className=\"space-y-4\">"] ++
        (inputs email style).map ("      " ++ ·) ++
        ["      <button type=\"submit\" className=\"w-full bg-blue-500 text-white py-2 rounded-lg " ++
           "hover:bg-blue-600 transition-colors\">Login</button>",
         "    </form>", "  </div>", "</div>"])

/-- The statement that returns the login form as long as nobody is logged in. -/
def loginGuard (form indent unit : String) : String :=
  let inner := indent ++ unit
  Text.join "\n"
    (["if (!isLoggedIn) \x7b", inner ++ "return ("] ++
      (Text.lines form.toList).map (fun l => inner ++ unit ++ String.ofList l) ++
      [inner ++ ");", indent ++ "\x7d"])

/-- The logout button. -/
def logoutButton : FormStyle → String
  | .styled =>
    "<button onClick=\x7bhandleLogout\x7d className=\"" ++ logoutClasses ++ "\">Logout</button>"
  | .simple => "<button onClick=\x7bhandleLogout\x7d>Logout</button>"

/-- Adds the state variables. -/
def addStates (d : Draft) (component : Option String) : List Hook → Reading Draft
  | [] => return d
  | h :: hs => do
    let outcome ← Hook.add d h component
    addStates (d.advance outcome.text) component hs

/-- The edit that adds the handlers to a component. -/
def handlersEdit (t : Tree) (f : Function) (email : Bool) : Except Failure Edit := do
  t.checkNames f ["handleLogin", "handleLogout"]
  let l ← t.layout f
  let statement := loginHandler email l.indent l.unit ++ "\n\n" ++ l.indent ++
    logoutHandler email l.indent l.unit
  Hook.statementEdit t f statement Hook.statementRank l.indent

/-- Adds the handlers. -/
def addHandlers (d : Draft) (email : Bool) (component : Option String) : Reading String := do
  let t ← d.tree
  let f ← t.component component
  t.edited [← handlersEdit t f email]

/-- An expression without the parentheses around it, of which there are at most the given number. -/
def withoutParens : Nat → Option Node → Option Node
  | 0, e => e
  | n + 1, e =>
    match e with
    | some x => if x.is .parenthesizedExpression then withoutParens n x.named.head? else some x
    | none => none

/-- The element that a return statement returns. -/
def returnedElement? (statement : Node) : Option Node :=
  (withoutParens statement.depth statement.named.head?).filter isElement

/-- The edit that puts the logout button inside an element. -/
def buttonEdit (t : Tree) (root : Node) (style : FormStyle) (unit : String) : Except Failure Edit :=
  let button := logoutButton style
  if root.is .jsxSelfClosingElement then .ok (Element.expandEdit t root (t.tagOf root) button unit)
  else Element.childEdit t root button true unit

/-- The edit that puts the login form in front of a return statement. -/
def guardEdit (t : Tree) (first : Node) (style : FormStyle) (email : Bool) (unit : String) : Edit :=
  let indent := t.indentAt first.start
  .insert first.start (loginGuard (loginForm email style) indent unit ++ "\n\n" ++ indent)

/-- Adds the login form and the logout button; gives the text and the warnings. -/
def addForm (d : Draft) (style : FormStyle) (email : Bool) (component : Option String) :
    Reading (String × List String) := do
  let t ← d.tree
  let f ← t.component component
  let owner := f.name.getD ""
  let owner := if owner == "" then "component" else owner
  let body ← t.resolve f.body
  match body.named.find? (·.is .returnStatement) with
  | none => throw (.noReturn owner)
  | some first =>
    let l ← t.layout f
    match returnedElement? first with
    | none =>
      let text ← t.edited [guardEdit t first style email l.unit]
      return (text, [owner ++ " does not return a JSX element; logout button not added"])
    | some root =>
      let text ← t.edited [guardEdit t first style email l.unit, ← buttonEdit t root style l.unit]
      return (text, [])

/-- Adds authentication to a component of a draft. -/
def add (d : Draft) (style : FormStyle) (email : Bool) (component : Option String) :
    Reading Outcome := do
  let d ← addStates d component (states email)
  let d := d.advance (← addHandlers d email component)
  let (text, warnings) ← addForm d style email component
  return ⟨text, [], warnings, "Added authentication with login/logout"⟩

end SourceChange.Authentication
