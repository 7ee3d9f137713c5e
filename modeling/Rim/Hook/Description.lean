import Rim.Hook.Rule
import Rim.Json.Access
/-!
# Hooks and schemas as JSON

A schema is described by an object with its name, its layout, its fields and the records it embeds;
a hook by one with its rule, the schema of its fields and its flags, each of which it may lack.

## Main definitions

* `Kind.ofName?`: the kind of a name.
* `Schema.ofJson?`: the schema of a description.
* `Hook.ofJson?`: the hook of a description.
-/

namespace Rim

namespace Kind

/-- The kinds by name; brackets stand around the kind of a list's items. -/
def names : List (String × Kind) :=
  [("bool", bool), ("u8", unsigned .w8), ("u16", unsigned .w16), ("u32", unsigned .w32),
    ("u64", unsigned .w64), ("i8", signed .w8), ("i16", signed .w16), ("i32", signed .w32),
    ("i64", signed .w64), ("string", string), ("bytes", bytes), ("uuid", uuid),
    ("tag-id", tagId), ("ueid", ueid), ("digest", digest), ("class-id", classId),
    ("entity", entity), ("[bool]", list bool), ("[u64]", list (unsigned .w64)),
    ("[string]", list string), ("[bytes]", list bytes), ("[class-id]", list classId),
    ("[[u64]]", list (list (unsigned .w64)))]

/-- The kind of a name. -/
def ofName? (name : String) : Option Kind := names.lookup name

end Kind

/-- The layout of a name. -/
def Layout.ofName? (name : String) : Option Layout :=
  if name = "map" then some .map else if name = "array" then some .array else none

/-- The field of a description. -/
def FieldShape.ofJson? (v : Json) : Option FieldShape := do
  let name ← (← v.present? "name").text?
  let key ← (← v.present? "key").uint64?
  let isOptional ← (← v.present? "optional").truth?
  let kind ← Kind.ofName? (← (← v.present? "kind").text?)
  let defaulted := ((v.present? "default").bind Json.truth?).getD false
  return ⟨⟨name, key, isOptional⟩, kind, defaulted⟩

/-- The schema of a description that nests less than `depth` deep. -/
def Schema.ofJsonWithin? : Nat → Json → Option (Schema FieldShape)
  | 0, _ => none
  | depth + 1, v => do
    let entity ← (← v.present? "entity").text?
    let layout ← Layout.ofName? (← (← v.present? "layout").text?)
    let fields ← (← v.present? "fields").listOf? FieldShape.ofJson?
    let embedded ← (← v.present? "embedded").listOf? (ofJsonWithin? depth)
    return .mk entity layout fields embedded

/-- The schema of a description. -/
def Schema.ofJson? (v : Json) : Option (Schema FieldShape) := ofJsonWithin? (v.depth + 1) v

/-- The rule of a description. -/
def HookRule.ofJson? (v : Json) : Option HookRule := do
  let message ← (← v.present? "message").text?
  return ⟨message, (v.present? "unless_field").bind Json.text?,
    ((v.present? "unless_entity").bind Json.truth?).getD false⟩

/-- The flag of a description. -/
def OwnedFlag.ofJson? (v : Json) : Option OwnedFlag := do
  let flag ← (← v.present? "flag").int64?
  return ⟨flag, (v.present? "field").bind Json.text?⟩

/-- A part of a description that may be absent but not malformed. -/
def Json.part? {α : Type} (one : Json → Option α) (name : String) (v : Json) :
    Option (Option α) :=
  match v.present? name with
  | none => some none
  | some member => (one member).map some

/-- The hook of a description, for entities of a kind. -/
def Hook.ofJson? (k : EntityKind) : Json → Option (Hook k.Body)
  | .string name => if name = "inert" then some .inert else none
  | .object members => do
    let v := Json.object members
    let rule ← v.part? HookRule.ofJson? "rule"
    let fields ← v.part? Schema.ofJson? "fields"
    let flags ← v.part? (Json.listOf? OwnedFlag.ofJson?) "flags"
    return Hook.described k rule fields flags
  | _ => none

end Rim
