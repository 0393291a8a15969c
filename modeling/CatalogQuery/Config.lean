import CatalogQuery.Json.Decode
import CatalogQuery.Purify
import CatalogQuery.Render

namespace CatalogQuery

open Json (Decoded wanted keepIf)

/-- How indented text is laid out. -/
structure RenderConfig where
  /-- One step of indentation. -/
  indent : String
  deriving DecidableEq

namespace RenderConfig

/-- A tab for each step. -/
def usual : RenderConfig := ⟨"\t"⟩

/-- A number of spaces for each step. -/
def withSpaces (width : Nat) : RenderConfig := ⟨String.ofList (List.replicate width ' ')⟩

def layout (config : RenderConfig) : Layout := .indented config.indent.toList

def toJson (config : RenderConfig) : Json := .object [("indent", .string config.indent)]

def ofJson {ε : Type} (json : Json) : Decoded ε RenderConfig :=
  match json.field? 0 "indent" with
  | none => keepIf (json.isRecord 1) usual
  | some value => do
    let indent ← wanted value.asString?
    keepIf (json.isRecord 1) ⟨indent⟩

end RenderConfig

structure PurifyConfig where
  /-- Whether a junction of a single child gives way to the child. -/
  collapseSingleChild : Bool
  deriving DecidableEq

namespace PurifyConfig

/-- Junctions of a single child give way. -/
def usual : PurifyConfig := ⟨true⟩

def toJson (config : PurifyConfig) : Json :=
  .object [("collapse_single_child", .boolean config.collapseSingleChild)]

def ofJson {ε : Type} (json : Json) : Decoded ε PurifyConfig :=
  match json.field? 0 "collapse_single_child" with
  | none => keepIf (json.isRecord 1) usual
  | some value => do
    let collapse ← wanted value.asBoolean?
    keepIf (json.isRecord 1) ⟨collapse⟩

end PurifyConfig
end CatalogQuery
