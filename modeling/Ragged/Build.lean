import Ragged.Layout.Read
import Ragged.Shape.Resolve

/-!
# Building arrays

The whole way from a value to an array: its shape is found, the shape and what the caller knows
settle the type, and the value is written at that type. The first error ends it. The value comes
back as it is afterwards, so that it shows what was asked of its lazy sources.
-/

set_option autoImplicit false

namespace Ragged

namespace Hint

/-- A hint that gives the whole type, as it is written. -/
def parseFull (source : String) : Except BuildError Hint :=
  match ArrayType.parse source with
  | .ok t => .ok (.full t)
  | .error e => .error (.parse e)

/-- A hint that gives the leaf type, as it is written. -/
def parseUniform (source : String) : Except BuildError Hint :=
  match LeafType.parse source with
  | .ok l => .ok (.uniform l)
  | .error e => .error (.parse e)

def mode : Hint → String
  | .infer => "infer"
  | .full _ => "full"
  | .uniform _ => "uniform"

def render : Hint → String
  | .infer => "infer"
  | .full t => t.render
  | .uniform l => "uniform " ++ l.render

end Hint

def build (config : Config) (hint : Hint) (v : Value) : Value × Except BuildError PackedArray :=
  match v.shape hint with
  | (v, .error e) => (v, .error e)
  | (v, .ok shape) =>
    match shape.resolve hint config with
    | .error e => (v, .error e)
    | .ok type =>
      let (v, outcome) := type.write config.growth v
      (v, outcome.map fun contents => ⟨type, contents⟩)

/-- Building succeeds when all of its three stages do. -/
theorem build_eq_ok_iff {config : Config} {hint : Hint} {v : Value} {a : PackedArray} :
    (build config hint v).2 = .ok a ↔
      ∃ shape, (v.shape hint).2 = .ok shape ∧ shape.resolve hint config = .ok a.type ∧
        (a.type.write config.growth (v.shape hint).1).2 = .ok a.contents := by
  unfold build
  cases hshape : v.shape hint with
  | mk w outcome =>
    cases outcome with
    | error e => simp
    | ok shape =>
      simp only [Except.ok.injEq, exists_eq_left']
      cases htype : shape.resolve hint config with
      | error e => simp
      | ok t =>
        simp only [Except.ok.injEq]
        cases hwrite : (t.write config.growth w).2 with
        | error e =>
          simp only [Except.map, reduceCtorEq, false_iff, not_and]
          rintro rfl
          simp [hwrite]
        | ok c =>
          simp only [Except.map, Except.ok.injEq]
          constructor
          · rintro rfl
            exact ⟨rfl, hwrite⟩
          · rintro ⟨rfl, hc⟩
            rw [Except.ok.inj (hwrite.symm.trans hc)]

end Ragged
