import ClassSchema.Target.Go
import ClassSchema.Target.TypeScript.Class

/-!
# Code generation

The renderings of types, annotations, fields and whole models, by language. In
every language the code of a model is made unless two of its names collide.
-/

namespace ClassSchema.Language

def renderType : Language → FieldType → Text
  | go => Go.renderType
  | typeScript => TypeScript.renderType

def renderTags : Language → List TagTarget → List Tag → Text
  | go => Go.renderTags
  | typeScript => TypeScript.renderTags

def renderField : Language → List TagTarget → Field → Text
  | go => Go.renderField
  | typeScript => TypeScript.renderField

def generate : Language → Model → Except Collision Text
  | go => Go.generate
  | typeScript => TypeScript.generate

/-- The names that may collide, with their identifiers. -/
def renderings : Language → Model → List Rendering
  | go => Go.renderings
  | typeScript => TypeScript.renderings

def renderModel : Language → Model → Text
  | go => Go.renderModel
  | typeScript => TypeScript.renderModel

theorem generate_of_none {language : Language} {m : Model}
    (h : Collision.find? language (language.renderings m) = none) :
    language.generate m = .ok (language.renderModel m) := by
  cases language with
  | go => simp only [generate, Go.generate,
      show Collision.find? .go (Go.renderings m) = none from h, renderModel]
  | typeScript => simp only [generate, TypeScript.generate,
      show Collision.find? .typeScript (TypeScript.renderings m) = none from h, renderModel]

theorem generate_of_some {language : Language} {m : Model} {c : Collision}
    (h : Collision.find? language (language.renderings m) = some c) :
    language.generate m = .error c := by
  cases language with
  | go => simp only [generate, Go.generate,
      show Collision.find? .go (Go.renderings m) = some c from h]
  | typeScript => simp only [generate, TypeScript.generate,
      show Collision.find? .typeScript (TypeScript.renderings m) = some c from h]

theorem generate_eq_error_iff (language : Language) {m : Model} {c : Collision} :
    language.generate m = .error c ↔
      Collision.find? language (language.renderings m) = some c := by
  cases h : Collision.find? language (language.renderings m) with
  | none => simp [generate_of_none h]
  | some d => simp [generate_of_some h]

theorem generate_eq_ok_iff (language : Language) {m : Model} {code : Text} :
    language.generate m = .ok code ↔
      ((language.renderings m).map Rendering.identifier).Nodup ∧
        code = language.renderModel m := by
  rw [← @Collision.find?_eq_none_iff language]
  cases h : Collision.find? language (language.renderings m) with
  | none => simp [generate_of_none h, eq_comm]
  | some d => simp [generate_of_some h]

end ClassSchema.Language
