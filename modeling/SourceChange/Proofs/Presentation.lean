import Mathlib.Data.List.Nodup
import Mathlib.Data.List.Pairwise
import Mathlib.Logic.Relation
import SourceChange.Operation.Read

/-!
Writing the same operation differently.

In which order the members of an object stand, which members there are that no field has as its key, which
spelling of a key is taken and which name of a kind is a matter of presentation. An operation is read the
same however it is presented, and so is what is wrong with it.
-/

namespace SourceChange

/-- The spellings of the key of a field. -/
def Field.spellings (f : Field) : List String := f.key :: f.others

/-- The fields of an object. A field may hold an object with fields of its own, or a list of such objects. -/
inductive Schema where
  | mk (fields : List (Field × Option Schema))

namespace Schema

/-- The fields, each with the schema of the objects in it. -/
def fields : Schema → List (Field × Option Schema)
  | mk fields => fields

/-- The keys that fields are looked up by. -/
def keys (s : Schema) : List String := s.fields.flatMap (·.1.spellings)

/-- The schema of an object with fields that hold no objects and fields that do. -/
def of (plain : List Field) (nested : List (Field × Schema)) : Schema :=
  mk (plain.map (fun f => (f, none)) ++ nested.map fun (f, s) => (f, some s))

mutual

/-- One way of presenting the members of an object differently. -/
inductive Represents : Schema → List (String × Json) → List (String × Json) → Prop
  /-- In another order, where no key occurs twice. -/
  | permute {s : Schema} {ms ms' : List (String × Json)} (hnodup : (ms.map Prod.fst).Nodup)
    (h : ms.Perm ms') : Represents s ms ms'
  /-- With one more member, whose key no field has. -/
  | extend {s : Schema} {ms : List (String × Json)} {key : String} (v : Json) (h : key ∉ s.keys) :
    Represents s ms ((key, v) :: ms)
  /-- With another spelling of the key of a field that is spelled in one way only. -/
  | respell {s : Schema} {ms : List (String × Json)} {field : Field × Option Schema} {key key' : String}
    (v : Json) (hfield : field ∈ s.fields) (hkey : key ∈ field.1.spellings)
    (hkey' : key' ∈ field.1.spellings) (honly : ∀ k ∈ field.1.spellings, k ∉ ms.map Prod.fst) :
    Represents s ((key, v) :: ms) ((key', v) :: ms)
  /-- With the objects in a field presented differently. -/
  | within {s t : Schema} {ms : List (String × Json)} {f : Field} {key : String} {v v' : Json}
    (hfield : (f, some t) ∈ s.fields) (hkey : key ∈ f.spellings) (h : RepresentsValue t v v') :
    Represents s ((key, v) :: ms) ((key, v') :: ms)

/-- One way of presenting an object, or one of the objects in a list, differently. -/
inductive RepresentsValue : Schema → Json → Json → Prop
  | object {s : Schema} {ms ms' : List (String × Json)} (h : Represents s ms ms') :
    RepresentsValue s (.object ms) (.object ms')
  | item {s : Schema} {ms ms' : List (String × Json)} (before after : List Json)
    (h : Represents s ms ms') :
    RepresentsValue s (.array (before ++ .object ms :: after)) (.array (before ++ .object ms' :: after))

end

/-- The values of a field in two presentations. -/
def Alike : Option Schema → Json → Json → Prop
  | none, v, v' => v = v'
  | some s, v, v' => v = v' ∨ s.RepresentsValue v v'

/-! ### What a field holds -/

theorem lookup_cons (m : String × Json) (ms : List (String × Json)) (k : String) :
    (m :: ms).lookup k = if k = m.1 then some m.2 else ms.lookup k := by
  rw [List.lookup_cons]
  by_cases hk : k = m.1
  · simp [hk]
  · rw [if_neg hk, beq_eq_false_iff_ne.mpr hk]

theorem lookup_perm {ms ms' : List (String × Json)} (h : ms.Perm ms')
    (hnodup : (ms.map Prod.fst).Nodup) (k : String) : ms.lookup k = ms'.lookup k := by
  induction h with
  | nil => rfl
  | cons m _ ih => rw [lookup_cons, lookup_cons, ih (List.nodup_cons.mp hnodup).2]
  | swap m n rest =>
    have hne : n.1 ≠ m.1 := by
      rintro heq
      simp [heq] at hnodup
    simp only [lookup_cons]
    by_cases hk : k = m.1
    · rw [if_pos hk, if_pos hk, if_neg (hk ▸ hne.symm)]
    · rw [if_neg hk, if_neg hk]
  | trans h _ ih ih' => exact (ih hnodup).trans (ih' ((h.map Prod.fst).nodup_iff.mp hnodup))

theorem Alike.refl (t : Option Schema) (v : Json) : Alike t v v := by
  cases t with
  | none => rfl
  | some s => exact .inl rfl

theorem rel_refl (t : Option Schema) (v : Option Json) : Option.Rel (Alike t) v v := by
  cases v with
  | none => exact .none
  | some v => exact .some (Alike.refl t v)

/-- The first of several keys that is present holds alike values, if each of them does. -/
theorem findSome?_rel {R : Json → Json → Prop} {keys : List String} {ms ms' : List (String × Json)}
    (h : ∀ k ∈ keys, Option.Rel R (ms.lookup k) (ms'.lookup k)) :
    Option.Rel R (keys.findSome? fun k => ms.lookup k) (keys.findSome? fun k => ms'.lookup k) := by
  induction keys with
  | nil => exact .none
  | cons k keys ih =>
    obtain ⟨hk, hkeys⟩ := List.forall_mem_cons.mp h
    rw [List.findSome?_cons, List.findSome?_cons]
    revert hk
    generalize ms.lookup k = found, ms'.lookup k = found'
    rintro (hv | _)
    · exact .some hv
    · exact ih hkeys

/-- A member that is not spelled like a field does not matter for it. -/
theorem find?_cons_of_not_mem {f : Field} {key : String} (v : Json) (ms : List (String × Json))
    (hkey : key ∉ f.spellings) : f.find? ((key, v) :: ms) = f.find? ms := by
  change f.spellings.findSome? (fun k => List.lookup k ((key, v) :: ms)) =
    f.spellings.findSome? fun k => ms.lookup k
  revert hkey
  generalize f.spellings = keys
  intro hkey
  induction keys with
  | nil => rfl
  | cons k keys ih =>
    obtain ⟨hk, hkeys⟩ := not_or.mp (mt List.mem_cons.mpr hkey)
    rw [List.findSome?_cons, List.findSome?_cons, lookup_cons, if_neg (Ne.symm hk), ih hkeys]

/-- A field that is spelled in one way only has the value of that key. -/
theorem find?_of_only {f : Field} {ms : List (String × Json)} {key : String} (v : Json)
    (hkey : key ∈ f.spellings) (honly : ∀ k ∈ f.spellings, k ∉ ms.map Prod.fst) :
    f.find? ((key, v) :: ms) = some v := by
  have hnone : ∀ k ∈ f.spellings, ms.lookup k = none := by
    intro k hk
    rw [List.lookup_eq_none_iff]
    intro m hm
    exact bne_iff_ne.mpr fun heq => honly k hk (heq ▸ List.mem_map_of_mem hm)
  change f.spellings.findSome? (fun k => List.lookup k ((key, v) :: ms)) = some v
  revert hkey hnone
  generalize f.spellings = keys
  intro hkey hnone
  induction keys with
  | nil => cases hkey
  | cons k keys ih =>
    obtain ⟨hk, hkeys⟩ := List.forall_mem_cons.mp hnone
    rw [List.findSome?_cons, lookup_cons]
    by_cases heq : k = key
    · rw [if_pos heq]
    · rw [if_neg heq, hk]
      exact ih ((List.mem_cons.mp hkey).resolve_left (Ne.symm heq)) hkeys

variable {s : Schema} {ms ms' : List (String × Json)}

/-- No two fields share a spelling, if no key occurs twice. -/
theorem eq_of_mem_spellings (hkeys : s.keys.Nodup) {x y : Field × Option Schema} (hx : x ∈ s.fields)
    (hy : y ∈ s.fields) {k : String} (hkx : k ∈ x.1.spellings) (hky : k ∈ y.1.spellings) : x = y := by
  by_contra hne
  have hsymm : Std.Symm (Function.onFun List.Disjoint fun z : Field × Option Schema => z.1.spellings) :=
    ⟨fun _ _ h _ hx hy => h hy hx⟩
  exact (List.nodup_flatMap.mp hkeys).2.forall hx hy hne hkx hky

theorem mem_keys {x : Field × Option Schema} (hx : x ∈ s.fields) {k : String} (hk : k ∈ x.1.spellings) :
    k ∈ s.keys :=
  List.mem_flatMap.mpr ⟨x, hx, hk⟩

/-- However an object is presented, its fields hold alike values. -/
theorem Represents.find? (h : s.Represents ms ms') (hkeys : s.keys.Nodup) {x : Field × Option Schema}
    (hx : x ∈ s.fields) : Option.Rel (Alike x.2) (x.1.find? ms) (x.1.find? ms') := by
  cases h with
  | permute hnodup h =>
    refine findSome?_rel fun k _ => ?_
    rw [lookup_perm h hnodup]
    exact rel_refl _ _
  | extend v h =>
    rw [find?_cons_of_not_mem v ms fun hkey => h (mem_keys hx hkey)]
    exact rel_refl _ _
  | @respell _ rest y key key' v hy hkey hkey' honly =>
    by_cases heq : x = y
    · rw [heq, find?_of_only v hkey honly, find?_of_only v hkey' honly]
      exact rel_refl _ _
    · have hnot {k : String} (hk : k ∈ y.1.spellings) : k ∉ x.1.spellings := fun hkx =>
        heq (eq_of_mem_spellings hkeys hx hy hkx hk)
      rw [find?_cons_of_not_mem v rest (hnot hkey), find?_cons_of_not_mem v rest (hnot hkey')]
      exact rel_refl _ _
  | @within _ t rest f key v v' hy hkey hvalue =>
    by_cases heq : x = (f, some t)
    · rw [heq]
      refine findSome?_rel fun k _ => ?_
      rw [lookup_cons, lookup_cons]
      by_cases hk : k = key
      · rw [if_pos hk, if_pos hk]
        exact .some (.inr hvalue)
      · rw [if_neg hk, if_neg hk]
        exact rel_refl _ _
    · have hnot : key ∉ x.1.spellings := fun hkx => heq (eq_of_mem_spellings hkeys hx hy hkx hkey)
      rw [find?_cons_of_not_mem v rest hnot, find?_cons_of_not_mem v' rest hnot]
      exact rel_refl _ _

/-! ### Reading the fields -/

/-- What is read from an object does not depend on how it is presented. -/
def Determines {α : Type} (s : Schema) (read : Payload → Except PayloadFault α) : Prop :=
  ∀ type ms ms', s.Represents ms ms' → read ⟨type, ms⟩ = read ⟨type, ms'⟩

namespace Determines

variable {α : Type} {read : Payload → Except PayloadFault α}

theorem record_eq (h : s.Determines read) (type : String) {v v' : Json} (hv : Alike (some s) v v') :
    Convert.record type read v = Convert.record type read v' := by
  obtain rfl | hv := hv
  · rfl
  · cases hv with
    | object hms => exact h type _ _ hms
    | item => rfl

theorem records_eq (h : s.Determines read) (type : String) {v v' : Json} (hv : Alike (some s) v v') :
    Convert.records type read v = Convert.records type read v' := by
  obtain rfl | hv := hv
  · rfl
  · cases hv with
    | object => rfl
    | @item _ ms ms' before after hms =>
      have hitem : Convert.record type read (.object ms) = Convert.record type read (.object ms') :=
        h type _ _ hms
      simp only [Convert.records, List.mapM_append, List.mapM_cons, hitem]

end Determines

theorem Alike.null_iff {t : Option Schema} {v v' : Json} (h : Alike t v v') : v = .null ↔ v' = .null := by
  cases t with
  | none => rw [show v = v' from h]
  | some s =>
    obtain rfl | h := h
    · exact Iff.rfl
    · cases h <;> simp

section Fields

variable {α : Type} (h : s.Represents ms ms') (hkeys : s.keys.Nodup) {f : Field} {t : Option Schema}
  {convert : Json → Except PayloadFault α}
include h hkeys

theorem Represents.find?_cases (hf : (f, t) ∈ s.fields) :
    (f.find? ms = none ∧ f.find? ms' = none) ∨
      ∃ v v', f.find? ms = some v ∧ f.find? ms' = some v' ∧ Alike t v v' := by
  have hrel := h.find? hkeys hf
  dsimp only at hrel
  revert hrel
  generalize f.find? ms = found, f.find? ms' = found'
  rintro (hv | _)
  · exact .inr ⟨_, _, rfl, rfl, hv⟩
  · exact .inl ⟨rfl, rfl⟩

variable (type : String) (hf : (f, t) ∈ s.fields)
  (hconvert : ∀ {v v'}, Alike t v v' → convert v = convert v')
include hf hconvert

theorem Represents.required_of_alike :
    Payload.required ⟨type, ms⟩ f convert = Payload.required ⟨type, ms'⟩ f convert := by
  obtain ⟨hnone, hnone'⟩ | ⟨v, v', hv, hv', halike⟩ := h.find?_cases hkeys hf
  · simp only [Payload.required, hnone, hnone']
  · simp only [Payload.required, hv, hv', hconvert halike]

theorem Represents.withDefault_of_alike (default : α) :
    Payload.withDefault ⟨type, ms⟩ f default convert =
      Payload.withDefault ⟨type, ms'⟩ f default convert := by
  obtain ⟨hnone, hnone'⟩ | ⟨v, v', hv, hv', halike⟩ := h.find?_cases hkeys hf
  · simp only [Payload.withDefault, hnone, hnone']
  · simp only [Payload.withDefault, hv, hv', hconvert halike]

theorem Represents.optional_of_alike :
    Payload.optional ⟨type, ms⟩ f convert = Payload.optional ⟨type, ms'⟩ f convert := by
  obtain ⟨hnone, hnone'⟩ | ⟨v, v', hv, hv', halike⟩ := h.find?_cases hkeys hf
  · simp only [Payload.optional, hnone, hnone']
  · by_cases hnull : v = .null
    · simp only [Payload.optional, hv, hv', hnull, halike.null_iff.mp hnull]
    · have hnull' : v' ≠ .null := fun heq => hnull (halike.null_iff.mpr heq)
      simp only [Payload.optional, hv, hv', hconvert halike]

omit hf hconvert

variable (convert) (hplain : (f, none) ∈ s.fields)
include hplain

theorem Represents.required :
    Payload.required ⟨type, ms⟩ f convert = Payload.required ⟨type, ms'⟩ f convert :=
  h.required_of_alike hkeys type hplain fun hv => congrArg convert hv

theorem Represents.withDefault (default : α) :
    Payload.withDefault ⟨type, ms⟩ f default convert =
      Payload.withDefault ⟨type, ms'⟩ f default convert :=
  h.withDefault_of_alike hkeys type hplain (fun hv => congrArg convert hv) default

theorem Represents.optional :
    Payload.optional ⟨type, ms⟩ f convert = Payload.optional ⟨type, ms'⟩ f convert :=
  h.optional_of_alike hkeys type hplain fun hv => congrArg convert hv

end Fields

end Schema

/-! ### The objects in an operation -/

open SourceChange.Field

namespace ImportSpec

/-- The fields of what is to be imported. -/
def schema : Schema :=
  .of [plain "source", words "defaultImport" "default_import", words "namedImports" "named_imports",
    words "namespaceImport" "namespace_import"] []

theorem schema_determines : schema.Determines read := by
  intro type ms ms' h
  have hkeys : schema.keys.Nodup := by decide
  simp (disch := simp [schema, Schema.of, Schema.fields]) only
    [read, h.required hkeys, h.optional hkeys, h.withDefault hkeys]

end ImportSpec

namespace ClassCondition

/-- The fields of a class that depends on a variable. -/
def schema : Schema :=
  .of [plain "variable", words "trueValue" "true_value", words "falseValue" "false_value",
    plain "operator"] []

theorem schema_determines : schema.Determines read := by
  intro type ms ms' h
  have hkeys : schema.keys.Nodup := by decide
  simp (disch := simp [schema, Schema.of, Schema.fields]) only
    [read, h.required hkeys, h.withDefault hkeys]

end ClassCondition

namespace ReducerAction

/-- The fields of a case of a reducer. -/
def schema : Schema := .of [plain "type", plain "handler"] []

theorem schema_determines : schema.Determines read := by
  intro type ms ms' h
  have hkeys : schema.keys.Nodup := by decide
  simp (disch := simp [schema, Schema.of, Schema.fields]) only [read, h.required hkeys]

end ReducerAction

namespace ContextState

/-- The fields of state of a context. -/
def schema : Schema := .of [plain "name", words "initialValue" "initial_value", plain "type"] []

theorem schema_determines : schema.Determines read := by
  intro type ms ms' h
  have hkeys : schema.keys.Nodup := by decide
  simp (disch := simp [schema, Schema.of, Schema.fields]) only
    [read, h.required hkeys, h.optional hkeys]

end ContextState

namespace ActionParam

/-- The fields of a parameter of an action. -/
def schema : Schema := .of [plain "name", plain "type"] []

theorem schema_determines : schema.Determines read := by
  intro type ms ms' h
  have hkeys : schema.keys.Nodup := by decide
  simp (disch := simp [schema, Schema.of, Schema.fields]) only
    [read, h.required hkeys, h.optional hkeys]

end ActionParam

namespace StoreAction

/-- The fields of an action of a store. -/
def schema : Schema := .of [plain "name", plain "body"] [(plain "params", ActionParam.schema)]

theorem schema_determines : schema.Determines read := by
  intro type ms ms' h
  have hkeys : schema.keys.Nodup := by decide
  have hparams := h.withDefault_of_alike hkeys type (f := plain "params")
    (by simp [schema, Schema.of, Schema.fields])
    (ActionParam.schema_determines.records_eq "StoreActionParam") []
  simp (disch := simp [schema, Schema.of, Schema.fields]) only [read, h.required hkeys, hparams]

end StoreAction

/-! ### Operations -/

namespace OperationKind

/-- The fields of the operations of a kind. -/
def schema : OperationKind → Schema
  | addState =>
    .of [plain "name", plain "setter", words "initialValue" "initial_value",
      words "typeAnnotation" "type_annotation", plain "component"] []
  | addEffect => .of [plain "body", plain "dependencies", plain "cleanup", plain "component"] []
  | addRef => .of [plain "name", words "initialValue" "initial_value", plain "component"] []
  | addMemo => .of [plain "name", plain "computation", plain "dependencies", plain "component"] []
  | addCallback =>
    .of [plain "name", plain "body", plain "params", plain "dependencies", plain "component"] []
  | addReducer =>
    .of [plain "name", words "dispatchName" "dispatch_name", words "reducerName" "reducer_name",
      words "initialState" "initial_state", plain "component"] [(plain "actions", ReducerAction.schema)]
  | addImport =>
    .of [plain "source", words "defaultImport" "default_import", words "namedImports" "named_imports",
      words "namespaceImport" "namespace_import", plain "content"] []
  | modifyClassName =>
    .of [Operation.targetField, words "staticClasses" "static_classes", words "rawTemplate" "raw_template"]
      [(plain "template", ClassCondition.schema)]
  | insertJsx => .of [Operation.targetField, plain "jsx", plain "position"] []
  | modifyProp =>
    .of [Operation.targetField, words "propName" "prop_name", plain "action",
      words "propValue" "prop_value"] []
  | wrapElement =>
    .of [Operation.targetField, words "wrapperComponent" "wrapper_component",
      words "wrapperProps" "wrapper_props"] [(words "import" "import_spec", ImportSpec.schema)]
  | addContextProvider =>
    .of [words "contextName" "context_name", words "initialValue" "initial_value",
      words "providerName" "provider_name", words "hookName" "hook_name", words "valueType" "value_type",
      words "includeState" "include_state"]
      [(words "stateVariables" "state_variables", ContextState.schema)]
  | addZustandStore =>
    .of [words "storeName" "store_name", words "initialState" "initial_state",
      words "storeFile" "store_file", plain "persist", words "persistKey" "persist_key"]
      [(plain "actions", StoreAction.schema)]
  | addAuthentication =>
    .of [words "loginFormStyle" "login_form_style", words "includeEmailField" "include_email_field",
      plain "component"] []
  | extractComponent =>
    .of [⟨"targetJSX", ["targetJsx", "target_jsx"]⟩, words "componentName" "component_name",
      words "componentFile" "component_file", words "extractProps" "extract_props",
      words "propTypes" "prop_types"] []
  | insertBefore => .of [Operation.searchField, plain "content"] []
  | insertAfter => .of [Operation.searchField, plain "content"] []
  | replace => .of [Operation.searchField, words "replaceWith" "replace_with"] []
  | delete => .of [Operation.searchField] []
  | append => .of [plain "content"] []

theorem keys_nodup (kind : OperationKind) : kind.schema.keys.Nodup := by
  cases kind <;> decide

theorem type_not_mem_keys (kind : OperationKind) : "type" ∉ kind.schema.keys := by
  cases kind <;> decide

theorem ofWireName?_of_mem {kind : OperationKind} {name : String} (h : name ∈ kind.wireNames) :
    ofWireName? name = some kind := by
  have hall : ∀ name ∈ kind.wireNames, ofWireName? name = some kind := by
    cases kind <;> decide
  exact hall name h

/-- The fields of a kind determine which operation is read. -/
theorem schema_determines (kind : OperationKind) : kind.schema.Determines (Operation.readFields kind) := by
  intro type ms ms' h
  have hkeys := kind.keys_nodup
  cases kind with
  | addReducer =>
    have hactions := h.withDefault_of_alike hkeys type (f := plain "actions")
      (by simp [schema, Schema.of, Schema.fields])
      (ReducerAction.schema_determines.records_eq "ReducerAction") []
    simp (disch := simp [schema, Schema.of, Schema.fields]) only
      [Operation.readFields, Operation.readReducer, Operation.readComponent, h.required hkeys,
        h.optional hkeys, hactions]
  | modifyClassName =>
    have htemplate := h.optional_of_alike hkeys type (f := plain "template")
      (by simp [schema, Schema.of, Schema.fields])
      (ClassCondition.schema_determines.record_eq "ClassNameTemplate")
    simp (disch := simp [schema, Schema.of, Schema.fields]) only
      [Operation.readFields, Operation.readClasses, h.required hkeys, h.withDefault hkeys,
        h.optional hkeys, htemplate]
  | wrapElement =>
    have himport := h.optional_of_alike hkeys type (f := words "import" "import_spec")
      (by simp [schema, Schema.of, Schema.fields])
      (ImportSpec.schema_determines.record_eq "ImportSpec")
    simp (disch := simp [schema, Schema.of, Schema.fields]) only
      [Operation.readFields, Operation.readWrap, h.required hkeys, h.withDefault hkeys, himport]
  | addContextProvider =>
    have hstates := h.withDefault_of_alike hkeys type (f := words "stateVariables" "state_variables")
      (by simp [schema, Schema.of, Schema.fields])
      (ContextState.schema_determines.records_eq "ContextStateVariable") []
    simp (disch := simp [schema, Schema.of, Schema.fields]) only
      [Operation.readFields, Operation.readContext, h.required hkeys, h.withDefault hkeys,
        h.optional hkeys, hstates]
  | addZustandStore =>
    have hactions := h.withDefault_of_alike hkeys type (f := plain "actions")
      (by simp [schema, Schema.of, Schema.fields])
      (StoreAction.schema_determines.records_eq "StoreAction") []
    simp (disch := simp [schema, Schema.of, Schema.fields]) only
      [Operation.readFields, Operation.readStore, h.required hkeys, h.withDefault hkeys,
        h.optional hkeys, hactions]
  | _ =>
    simp (disch := simp [schema, Schema.of, Schema.fields]) only
      [Operation.readFields, Operation.readState, Operation.readEffect, Operation.readRef,
        Operation.readMemo, Operation.readCallback, Operation.readImport, Operation.readInsert,
        Operation.readProp, Operation.readAuthentication, Operation.readExtraction,
        Operation.readInsertBefore, Operation.readInsertAfter, Operation.readReplace,
        Operation.readDelete, Operation.readAppend, Operation.readComponent, h.required hkeys,
        h.withDefault hkeys, h.optional hkeys]

end OperationKind

namespace Operation

/-- One way of presenting an operation differently. -/
inductive Represents : List (String × Json) → List (String × Json) → Prop
  /-- With its members in another order, where no key occurs twice. -/
  | permute {ms ms' : List (String × Json)} (hnodup : (ms.map Prod.fst).Nodup) (h : ms.Perm ms') :
    Represents ms ms'
  /-- With another name of its kind. -/
  | rename {kind : OperationKind} {ms : List (String × Json)} {name name' : String}
    (h : name ∈ kind.wireNames) (h' : name' ∈ kind.wireNames) :
    Represents (("type", .string name) :: ms) (("type", .string name') :: ms)
  /-- With the fields of its kind presented differently, and with the same type. -/
  | fields {kind : OperationKind} {ms ms' : List (String × Json)}
    (hkind : kindOf? (ms.lookup "type") = some kind) (htype : ms'.lookup "type" = ms.lookup "type")
    (h : kind.schema.Represents ms ms') : Represents ms ms'

theorem read_of_kind {ms : List (String × Json)} {kind : OperationKind}
    (hkind : kindOf? (ms.lookup "type") = some kind) :
    read (.object ms) = readFields kind ⟨kind.name, ms⟩ := by
  rw [read, hkind]

theorem read_of_no_kind {ms : List (String × Json)} (hkind : kindOf? (ms.lookup "type") = none) :
    read (.object ms) = .error (.unknownType ((ms.lookup "type").getD .null).shown) := by
  rw [read, hkind]

theorem Represents.read_eq {ms ms' : List (String × Json)} (h : Represents ms ms') :
    read (.object ms) = read (.object ms') := by
  cases h with
  | permute hnodup h =>
    have htype := Schema.lookup_perm h hnodup "type"
    cases hkind : kindOf? (ms.lookup "type") with
    | none => rw [read_of_no_kind hkind, read_of_no_kind (htype ▸ hkind), htype]
    | some kind =>
      rw [read_of_kind hkind, read_of_kind (htype ▸ hkind)]
      exact kind.schema_determines _ _ _ (.permute hnodup h)
  | @rename kind ms name name' h h' =>
    have hread {name : String} (hname : name ∈ kind.wireNames) :
        read (.object (("type", .string name) :: ms)) = readFields kind ⟨kind.name, ms⟩ := by
      have hkind : kindOf? (List.lookup "type" (("type", .string name) :: ms)) = some kind := by
        rw [Schema.lookup_cons, if_pos rfl]
        exact OperationKind.ofWireName?_of_mem hname
      rw [read_of_kind hkind]
      exact (kind.schema_determines _ _ _ (.extend _ kind.type_not_mem_keys)).symm
    rw [hread h, hread h']
  | fields hkind htype h =>
    rw [read_of_kind hkind, read_of_kind (htype ▸ hkind)]
    exact OperationKind.schema_determines _ _ _ _ h

/-- However an operation is presented, it is read the same, and the same is reported if something is wrong
with it. -/
theorem read_presented {ms ms' : List (String × Json)} (h : Relation.EqvGen Represents ms ms') :
    read (.object ms) = read (.object ms') := by
  induction h with
  | rel _ _ h => exact h.read_eq
  | refl => rfl
  | symm _ _ _ ih => exact ih.symm
  | trans _ _ _ _ _ ih ih' => exact ih.trans ih'

/-- The members of an operation that wraps an element and imports the wrapper. -/
def wrapping : List (String × Json) :=
  [("type", .string "AST_WRAP_ELEMENT"), ("targetElement", .string "p"), ("wrapperComponent", .string "Card"),
    ("import", .object [("source", .string "./card"), ("namedImports", .array [.string "Card"])])]

/-- The same operation with another name of its kind, other spellings of its keys and those of the import,
another order and a member that says nothing. -/
def wrappingElsewise : List (String × Json) :=
  [("note", .null), ("wrapper_component", .string "Card"),
    ("import_spec", .object [("named_imports", .array [.string "Card"]), ("source", .string "./card")]),
    ("targetElement", .string "p"), ("type", .string "WrapElement")]

theorem wrapping_presented : Relation.EqvGen Represents wrapping wrappingElsewise ∧
    (read (.object wrapping)).isOk = true ∧ read (.object wrapping) = read (.object wrappingElsewise) := by
  have hkind : kindOf? (some (.string "WrapElement")) = some .wrapElement := by decide
  have hspec : (Field.words "import" "import_spec", some ImportSpec.schema) ∈
      OperationKind.wrapElement.schema.fields := by simp [OperationKind.schema, Schema.of, Schema.fields]
  have hwrapper : (Field.words "wrapperComponent" "wrapper_component", none) ∈
      OperationKind.wrapElement.schema.fields := by simp [OperationKind.schema, Schema.of, Schema.fields]
  have hnamed : (Field.words "namedImports" "named_imports", none) ∈ ImportSpec.schema.fields := by
    simp [ImportSpec.schema, Schema.of, Schema.fields]
  have hswapped : ImportSpec.schema.Represents
      [("source", .string "./card"), ("namedImports", .array [.string "Card"])]
      [("namedImports", .array [.string "Card"]), ("source", .string "./card")] :=
    .permute (by decide) (.swap _ _ _)
  have hspelled : ImportSpec.schema.Represents
      [("namedImports", .array [.string "Card"]), ("source", .string "./card")]
      [("named_imports", .array [.string "Card"]), ("source", .string "./card")] :=
    .respell _ hnamed (by decide) (by decide) (by decide)
  have hfields {ms ms' : List (String × Json)} (htype : ms.lookup "type" = some (.string "WrapElement"))
      (htype' : ms'.lookup "type" = some (.string "WrapElement"))
      (h : OperationKind.wrapElement.schema.Represents ms ms') : Represents ms ms' :=
    .fields (htype ▸ hkind) (htype'.trans htype.symm) h
  let rest : List (String × Json) := [("targetElement", .string "p"), ("type", .string "WrapElement")]
  let wrapper : List (String × Json) := ("wrapperComponent", .string "Card") :: rest
  let card : Json := .object [("named_imports", .array [.string "Card"]), ("source", .string "./card")]
  have hrenamed : Represents wrapping (("type", .string "WrapElement") :: wrapping.tail) :=
    .rename (show _ ∈ OperationKind.wrapElement.wireNames by decide) (by decide)
  have hreversed : Represents (("type", .string "WrapElement") :: wrapping.tail)
      (("type", .string "WrapElement") :: wrapping.tail).reverse :=
    .permute (by decide) (List.reverse_perm _).symm
  have hinner : Represents (("type", .string "WrapElement") :: wrapping.tail).reverse
      (("import", .object [("namedImports", .array [.string "Card"]), ("source", .string "./card")]) ::
        wrapper) :=
    hfields rfl rfl (.within hspec (by decide) (.object hswapped))
  have hinner' : Represents
      (("import", .object [("namedImports", .array [.string "Card"]), ("source", .string "./card")]) ::
        wrapper) (("import", card) :: wrapper) :=
    hfields rfl rfl (.within hspec (by decide) (.object hspelled))
  have himport : Represents (("import", card) :: wrapper) (("import_spec", card) :: wrapper) :=
    hfields rfl rfl (.respell _ hspec (by decide) (by decide) (by decide))
  have hmoved : Represents (("import_spec", card) :: wrapper)
      (("wrapperComponent", .string "Card") :: ("import_spec", card) :: rest) :=
    .permute (by decide) (.swap _ _ _)
  have hcomponent : Represents (("wrapperComponent", .string "Card") :: ("import_spec", card) :: rest)
      (("wrapper_component", .string "Card") :: ("import_spec", card) :: rest) :=
    hfields rfl rfl (.respell _ hwrapper (by decide) (by decide) (by decide))
  have hnote : Represents (("wrapper_component", .string "Card") :: ("import_spec", card) :: rest)
      wrappingElsewise :=
    hfields rfl rfl (.extend .null (by decide))
  have hpresented : Relation.EqvGen Represents wrapping wrappingElsewise :=
    (((((((Relation.EqvGen.rel _ _ hrenamed).trans _ _ _ (.rel _ _ hreversed)).trans _ _ _
      (.rel _ _ hinner)).trans _ _ _ (.rel _ _ hinner')).trans _ _ _ (.rel _ _ himport)).trans _ _ _
      (.rel _ _ hmoved)).trans _ _ _ (.rel _ _ hcomponent)).trans _ _ _ (.rel _ _ hnote)
  exact ⟨hpresented, by decide +kernel, read_presented hpresented⟩

end Operation

end SourceChange
