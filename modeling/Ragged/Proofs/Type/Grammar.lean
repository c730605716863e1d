import Ragged.Proofs.Type.Lexical
import Ragged.Type.Basic

/-!
# The grammar of types

A derivation in the grammar of the type language is a tree, and the tokens it derives are its
`terminals`. What it means is its `value?`, and it may mean nothing: an integer may be too large, an
encoding unknown, a field name used twice. None of this is the grammar's business, so it is in
`value?` and not in the trees. What is in the trees are the two places at which the grammar looks at
an identifier: a dimension is one only if it is symbolic, and a scalar type only if it is the name of
one.

> The grammar is unambiguous: derivations of the same tokens are the same (`terminals_injective`).

One token of lookahead decides everywhere. Only the end of a string type needs more care, where a
parenthesis would go on with it; nothing that may follow a type starts with one.
-/

set_option autoImplicit false

namespace Ragged

/-! ## Derivations -/

inductive Separator where
  | comma | star
deriving DecidableEq, Repr

/-- A derivation of a dimension. -/
inductive DimensionTree where
  | integer (digits : String)
  | var
  | strided
  | symbolic (name : String) (symbolic : isSymbolic name = true)

/-- A derivation of what stands behind `string`. -/
inductive ParamsTree where
  | none
  | width (digits : String)
  | encoding (literal : String)
  | both (digits literal : String)

/-- A token that can name a field. -/
abbrev FieldName := { x : Terminal // x.token.canNameField = true }

mutual

/-- A derivation of a type. -/
inductive TypeTree where
  | mk (dims : List (DimensionTree × Separator)) (leaf : LeafTree)

/-- A derivation of a leaf. -/
inductive LeafTree where
  | scalar (name : String) (kind : ScalarKind) (known : ScalarKind.ofName? name = some kind)
  | string (params : ParamsTree)
  | struct (fields : FieldTrees)

/-- Derivations of the fields of a struct, of which there is at least one. A semicolon may stand
behind the last. -/
inductive FieldTrees where
  | last (name : FieldName) (type : TypeTree) (semicolon : Bool)
  | cons (name : FieldName) (type : TypeTree) (rest : FieldTrees)

end

/-! ## The tokens derived -/

def Separator.terminal : Separator → Terminal
  | .comma => ⟨.comma, ","⟩
  | .star => ⟨.star, "*"⟩

def DimensionTree.terminal : DimensionTree → Terminal
  | .integer digits => ⟨.integer, digits⟩
  | .var => ⟨.var, "var"⟩
  | .strided => ⟨.strided, "strided"⟩
  | .symbolic name _ => ⟨.identifier, name⟩

/-- The dimensions of a type, a separator behind each. -/
def dimensionTerminals : List (DimensionTree × Separator) → List Terminal
  | [] => []
  | (d, sep) :: dims => d.terminal :: sep.terminal :: dimensionTerminals dims

def ParamsTree.terminals : ParamsTree → List Terminal
  | .none => []
  | .width digits => [⟨.openParen, "("⟩, ⟨.integer, digits⟩, ⟨.closeParen, ")"⟩]
  | .encoding literal => [⟨.openParen, "("⟩, ⟨.quoted, literal⟩, ⟨.closeParen, ")"⟩]
  | .both digits literal =>
    [⟨.openParen, "("⟩, ⟨.integer, digits⟩, ⟨.comma, ","⟩, ⟨.quoted, literal⟩, ⟨.closeParen, ")"⟩]

mutual

def TypeTree.terminals : TypeTree → List Terminal
  | .mk dims leaf => dimensionTerminals dims ++ leaf.terminals

def LeafTree.terminals : LeafTree → List Terminal
  | .scalar name _ _ => [⟨.identifier, name⟩]
  | .string params => ⟨.string, "string"⟩ :: params.terminals
  | .struct fields => ⟨.openBrace, "\x7b"⟩ :: fields.terminals

/-- The fields, and the brace that closes them. -/
def FieldTrees.terminals : FieldTrees → List Terminal
  | .last name type semicolon =>
    name :: ⟨.colon, ":"⟩ :: (type.terminals ++
      ((if semicolon then [⟨.semicolon, ";"⟩] else []) ++ [⟨.closeBrace, "\x7d"⟩]))
  | .cons name type rest =>
    name :: ⟨.colon, ":"⟩ :: (type.terminals ++ ⟨.semicolon, ";"⟩ :: rest.terminals)

end

/-! ## What is derived -/

/-- The number that some digits write, if it is below 2^64. -/
def numberOf? (digits : String) : Option Nat :=
  let n := Nat.ofDigitChars 10 digits.toList 0
  if n < 0x10000000000000000 then some n else none

/-- The encoding that a literal names between its quotes. -/
def encodingOf? (literal : String) : Option Encoding :=
  Encoding.ofName? (String.ofList (literal.toList.drop 1).dropLast)

def DimensionTree.value? : DimensionTree → Option Dimension
  | .integer digits => (numberOf? digits).map .fixed
  | .var => some .var
  | .strided | .symbolic _ _ => some .strided

def ParamsTree.value? : ParamsTree → Option StringType
  | .none => some { }
  | .width digits => (numberOf? digits).map fun width => { width := some width }
  | .encoding literal => (encodingOf? literal).map fun encoding => { encoding }
  | .both digits literal => do
    let width ← numberOf? digits
    let encoding ← encodingOf? literal
    return ⟨encoding, some width⟩

mutual

/-- The type that is derived, if what was written makes one. -/
def TypeTree.value? : TypeTree → Option ArrayType
  | .mk dims leaf => do
    let dims ← dims.mapM (·.1.value?)
    let leaf ← leaf.value?
    return ⟨dims, leaf⟩

def LeafTree.value? : LeafTree → Option LeafType
  | .scalar _ kind _ => some (.scalar kind)
  | .string params => params.value?.map .string
  | .struct fields => do
    let fields ← fields.value?
    if (Struct.names fields).Nodup then some (.struct fields) else none

def FieldTrees.value? : FieldTrees → Option (List Field)
  | .last name type _ => do
    let type ← type.value?
    return [⟨name.1.text, type⟩]
  | .cons name type rest => do
    let type ← type.value?
    let rest ← rest.value?
    return ⟨name.1.text, type⟩ :: rest

end

/-! ## One token of lookahead -/

/-- Whether a type that goes on with this token goes on with a dimension. -/
def Terminal.startsDimension (x : Terminal) : Bool :=
  match x.token with
  | .integer | .var | .strided => true
  | .identifier => isSymbolic x.text
  | _ => false

theorem DimensionTree.startsDimension_terminal (d : DimensionTree) :
    d.terminal.startsDimension = true := by
  cases d with
  | symbolic name h => exact h
  | _ => rfl

theorem DimensionTree.terminal_injective {d d' : DimensionTree} (h : d.terminal = d'.terminal) :
    d = d' := by
  cases d <;> cases d' <;> simp_all [terminal]

theorem Separator.terminal_injective {s s' : Separator} (h : s.terminal = s'.terminal) :
    s = s' := by
  cases s <;> cases s' <;> first | rfl | exact absurd h (by decide)

/-- No scalar type has the name of a dimension. -/
theorem not_isSymbolic_of_ofName? {name : String} {kind : ScalarKind}
    (h : ScalarKind.ofName? name = some kind) : isSymbolic name = false := by
  unfold ScalarKind.ofName? at h
  split at h
  all_goals first | rfl | exact absurd h (by simp)

/-- A leaf goes on with no dimension. -/
theorem LeafTree.terminals_eq_cons (leaf : LeafTree) :
    ∃ x rest, leaf.terminals = x :: rest ∧ x.startsDimension = false := by
  cases leaf with
  | scalar name kind known => exact ⟨_, _, rfl, not_isSymbolic_of_ofName? known⟩
  | string params => exact ⟨_, _, rfl, rfl⟩
  | struct fields => exact ⟨_, _, rfl, rfl⟩

/-- The tokens do not go on with a parenthesis, so that a string type before them has ended. -/
def NoParams (ts : List Terminal) : Prop := ∀ x ∈ ts.head?, x.token ≠ .openParen

/-! ## Derivations of the same tokens -/

section Unambiguous

variable {r r' : List Terminal}

theorem ParamsTree.append_inj {p p' : ParamsTree} (hr : NoParams r) (hr' : NoParams r')
    (h : p.terminals ++ r = p'.terminals ++ r') : p = p' ∧ r = r' := by
  cases p <;> cases p' <;> simp_all [terminals, NoParams]
  -- of two derivations only one of which has a parenthesis, the other is followed by one
  all_goals
    subst h
    exact hr' _ rfl rfl

/-- Dimensions end where a leaf starts. -/
theorem dimensionTerminals_append_inj {leaf leaf' : LeafTree}
    (hleaf : leaf.terminals ++ r = leaf'.terminals ++ r' → leaf = leaf' ∧ r = r') :
    ∀ {dims dims' : List (DimensionTree × Separator)},
      dimensionTerminals dims ++ (leaf.terminals ++ r) =
        dimensionTerminals dims' ++ (leaf'.terminals ++ r') →
      dims = dims' ∧ leaf = leaf' ∧ r = r' := by
  intro dims
  induction dims with
  | nil =>
    intro dims' h
    cases dims' with
    | nil => exact ⟨rfl, hleaf h⟩
    | cons d dims' =>
      obtain ⟨x, rest, hx, hstart⟩ := leaf.terminals_eq_cons
      rw [hx] at h
      obtain ⟨rfl, -⟩ := List.cons.inj h
      exact absurd (hstart.symm.trans d.1.startsDimension_terminal) (by simp)
  | cons d dims ih =>
    intro dims' h
    cases dims' with
    | nil =>
      obtain ⟨x, rest, hx, hstart⟩ := leaf'.terminals_eq_cons
      rw [hx] at h
      obtain ⟨rfl, -⟩ := List.cons.inj h
      exact absurd (hstart.symm.trans d.1.startsDimension_terminal) (by simp)
    | cons d' dims' =>
      obtain ⟨hd, h⟩ := List.cons.inj h
      obtain ⟨hsep, h⟩ := List.cons.inj h
      obtain ⟨rfl, hrest⟩ := ih h
      have hd : d = d' :=
        Prod.ext (DimensionTree.terminal_injective hd) (Separator.terminal_injective hsep)
      exact ⟨by rw [hd], hrest⟩

/-- The fields of a struct start with a name, so not with the brace that closes it. -/
theorem FieldTrees.not_closeBrace (fields : FieldTrees) {s : String} {ts : List Terminal} :
    fields.terminals ++ r ≠ ⟨.closeBrace, s⟩ :: ts := by
  intro h
  have hname : ∃ name : FieldName, name.1 = ⟨.closeBrace, s⟩ := by
    cases fields with
    | last name type semicolon => exact ⟨name, (List.cons.inj h).1⟩
    | cons name type rest => exact ⟨name, (List.cons.inj h).1⟩
  obtain ⟨⟨name, hcan⟩, rfl⟩ := hname
  exact Bool.false_ne_true hcan

end Unambiguous

mutual

theorem TypeTree.append_inj {r r' : List Terminal} :
    (d d' : TypeTree) → NoParams r → NoParams r' → d.terminals ++ r = d'.terminals ++ r' →
      d = d' ∧ r = r'
  | .mk dims leaf, .mk dims' leaf', hr, hr', h => by
    rw [TypeTree.terminals, TypeTree.terminals, List.append_assoc, List.append_assoc] at h
    obtain ⟨rfl, rfl, hrest⟩ :=
      dimensionTerminals_append_inj (leaf.append_inj leaf' hr hr') h
    exact ⟨rfl, hrest⟩

theorem LeafTree.append_inj {r r' : List Terminal} :
    (d d' : LeafTree) → NoParams r → NoParams r' → d.terminals ++ r = d'.terminals ++ r' →
      d = d' ∧ r = r'
  | .scalar name kind known, .scalar name' kind' known', _, _, h => by
    obtain ⟨hname, hrest⟩ := List.cons.inj h
    obtain rfl : name = name' := congrArg Terminal.text hname
    obtain rfl : kind = kind' := Option.some.inj (known.symm.trans known')
    exact ⟨rfl, hrest⟩
  | .string params, .string params', hr, hr', h => by
    obtain ⟨rfl, hrest⟩ := ParamsTree.append_inj hr hr' (List.cons.inj h).2
    exact ⟨rfl, hrest⟩
  | .struct fields, .struct fields', _, _, h => by
    obtain ⟨rfl, hrest⟩ := fields.append_inj fields' (List.cons.inj h).2
    exact ⟨rfl, hrest⟩
  | .scalar _ _ _, .string _, _, _, h
  | .scalar _ _ _, .struct _, _, _, h
  | .string _, .scalar _ _ _, _, _, h
  | .string _, .struct _, _, _, h
  | .struct _, .scalar _ _ _, _, _, h
  | .struct _, .string _, _, _, h => by simp [LeafTree.terminals] at h

theorem FieldTrees.append_inj {r r' : List Terminal} :
    (d d' : FieldTrees) → d.terminals ++ r = d'.terminals ++ r' → d = d' ∧ r = r'
  | .last name type semicolon, .last name' type' semicolon', h => by
    simp only [FieldTrees.terminals, List.cons_append, List.append_assoc, List.cons.injEq,
      true_and] at h
    obtain ⟨hname, h⟩ := h
    obtain ⟨rfl, h⟩ := type.append_inj type' (by cases semicolon <;> simp [NoParams])
      (by cases semicolon' <;> simp [NoParams]) h
    obtain rfl := Subtype.ext hname
    cases semicolon <;> cases semicolon' <;> simp_all
  | .cons name type rest, .cons name' type' rest', h => by
    simp only [FieldTrees.terminals, List.cons_append, List.append_assoc, List.cons.injEq,
      true_and] at h
    obtain ⟨hname, h⟩ := h
    obtain ⟨rfl, htail⟩ := type.append_inj type' (by simp [NoParams]) (by simp [NoParams]) h
    obtain rfl := Subtype.ext hname
    obtain ⟨rfl, hrest⟩ := rest.append_inj rest' (List.cons.inj htail).2
    exact ⟨rfl, hrest⟩
  | .last name type semicolon, .cons name' type' rest', h => by
    simp only [FieldTrees.terminals, List.cons_append, List.append_assoc, List.cons.injEq,
      true_and] at h
    obtain ⟨-, h⟩ := type.append_inj type' (by cases semicolon <;> simp [NoParams])
      (by simp [NoParams]) h.2
    cases semicolon with
    | false => simp at h
    | true => exact absurd (List.cons.inj h).2.symm rest'.not_closeBrace
  | .cons name type rest, .last name' type' semicolon', h => by
    simp only [FieldTrees.terminals, List.cons_append, List.append_assoc, List.cons.injEq,
      true_and] at h
    obtain ⟨-, h⟩ := type.append_inj type' (by simp [NoParams])
      (by cases semicolon' <;> simp [NoParams]) h.2
    cases semicolon' with
    | false => simp at h
    | true => exact absurd (List.cons.inj h).2 rest.not_closeBrace

end

/-- **Derivations of the same tokens are the same.** -/
theorem TypeTree.terminals_injective {d d' : TypeTree} (h : d.terminals = d'.terminals) :
    d = d' := by
  have happend : d.terminals ++ [] = d'.terminals ++ [] := by rw [h]
  exact (d.append_inj d' (by simp [NoParams]) (by simp [NoParams]) happend).1

end Ragged
