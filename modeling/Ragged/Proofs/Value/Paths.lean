import Ragged.Proofs.Except
import Ragged.Layout.Read
import Ragged.Proofs.Type.Coercion
import Ragged.Proofs.Type.Conformance

/-!
# Values along a path

A path of field positions picks one field of every record on the way down. `Value.along` does that
to a value, dimension by dimension, and `ArrayType.HasPath` says that a type has these fields. What
names lead to is such a path (`hasPath_of_locate`), and names that lead nowhere are the only reason
for which they can be refused (`locate_eq_error`).

Where the path ends there may be records still. As mappings they keep of fields that share a name
only the last value, so a coerced value may lose fields along the empty path, and

> a value coerced to a type of distinct names is as it was along the empty path.
-/

set_option autoImplicit false

namespace Ragged

/-! ## Mappings of distinct keys -/

namespace Entries

variable {α : Type}

theorem put_of_not_mem {entries : List (String × α)} {key : String} (value : α)
    (h : key ∉ keys entries) : put entries key value = entries ++ [(key, value)] := by
  induction entries with
  | nil => rfl
  | cons e rest ih =>
    obtain ⟨k, v⟩ := e
    have hne : k ≠ key := fun heq => h (by rw [heq]; exact List.mem_cons_self)
    have hrest : key ∉ keys rest := fun hmem => h (List.mem_cons_of_mem _ hmem)
    rw [put, if_neg hne, ih hrest, List.cons_append]

/-- Entering entries one by one puts them behind each other, if no key comes again. -/
theorem foldl_put {entries : List (String × α)} :
    ∀ {done : List (String × α)}, (keys (done ++ entries)).Nodup →
      entries.foldl (fun done e => put done e.1 e.2) done = done ++ entries := by
  induction entries with
  | nil => intro done _; rw [List.foldl_nil, List.append_nil]
  | cons e rest ih =>
    intro done hnodup
    have hassoc : done ++ e :: rest = (done ++ [e]) ++ rest := by simp
    have hnew : e.1 ∉ keys done := by
      rw [keys, List.map_append, List.map_cons] at hnodup
      intro hmem
      exact (List.nodup_append.mp hnodup).2.2 _ hmem _ List.mem_cons_self rfl
    rw [List.foldl_cons, put_of_not_mem e.2 hnew]
    rw [hassoc] at hnodup ⊢
    exact ih hnodup

theorem ofList_of_nodup {entries : List (String × α)} (h : (keys entries).Nodup) :
    ofList entries = entries := foldl_put h

theorem keys_zip {names : List String} {values : List α} (h : values.length = names.length) :
    keys (names.zip values) = names :=
  List.map_fst_zip (Nat.le_of_eq h.symm)

end Entries

/-! ## Picking fields -/

namespace Value

mutual

/-- A value with the field that the path picks in place of each record. Past the end of the path
records stay, as mappings in which each name comes once. -/
def along (path : List Nat) : Value → Value
  | .list items => .list (alongItems path items)
  | .dict entries =>
    match path with
    | [] => .dict (Entries.ofList (alongEntries entries))
    | index :: path => alongField path index entries
  | v => v

def alongItems (path : List Nat) : List Value → List Value
  | [] => []
  | v :: rest => along path v :: alongItems path rest

def alongEntries : List (String × Value) → List (String × Value)
  | [] => []
  | (key, v) :: rest => (key, along [] v) :: alongEntries rest

/-- The value of the entry at an index, taken further along the path. -/
def alongField (path : List Nat) : (index : Nat) → List (String × Value) → Value
  | 0, (_, v) :: _ => along path v
  | index + 1, _ :: rest => alongField path index rest
  | _, [] => default

end

theorem alongItems_eq (path : List Nat) (items : List Value) :
    alongItems path items = items.map (along path) := by
  induction items with
  | nil => rfl
  | cons v rest ih => rw [alongItems, ih, List.map_cons]

theorem alongEntries_eq (entries : List (String × Value)) :
    alongEntries entries = entries.map fun e => (e.1, e.2.along []) := by
  induction entries with
  | nil => rfl
  | cons e rest ih => rw [alongEntries, ih, List.map_cons]

theorem alongField_eq {path : List Nat} {entries : List (String × Value)} :
    ∀ {index : Nat} {e : String × Value}, entries[index]? = some e →
      alongField path index entries = e.2.along path := by
  induction entries with
  | nil => intro index e h; exact absurd h (by simp)
  | cons first rest ih =>
    intro index e h
    cases index with
    | zero =>
      obtain rfl := Option.some.inj h
      rfl
    | succ index => exact ih h

theorem along_list (path : List Nat) (items : List Value) :
    (list items).along path = .list (items.map (along path)) := by
  rw [along, alongItems_eq]

/-- A record where the path ends. -/
theorem along_record (names : List String) (ws : List Value) :
    (dict (names.zip ws)).along [] = .dict (Entries.ofList (names.zip (ws.map (along [])))) := by
  rw [along, alongEntries_eq, List.zip_map_right]
  rfl

/-- A record where the path goes on. -/
theorem along_field {names : List String} {ws : List Value} {index : Nat} {w : Value}
    {path : List Nat} (hlen : ws.length = names.length) (hw : ws[index]? = some w) :
    (dict (names.zip ws)).along (index :: path) = w.along path := by
  have hlt : index < names.length := hlen ▸ (List.getElem?_eq_some_iff.mp hw).1
  have hentry : (names.zip ws)[index]? = some (names[index], w) := by
    rw [List.getElem?_zip_eq_some]
    exact ⟨List.getElem?_eq_getElem hlt, hw⟩
  rw [along, alongField_eq hentry]

end Value

/-! ## The paths of a type -/

/-- The records of the type have the field that the path picks, and so on below it. -/
def ArrayType.HasPath (t : ArrayType) : List Nat → Prop
  | [] => True
  | index :: path =>
    ∃ fields f, t.leaf = .struct fields ∧ fields[index]? = some f ∧ f.type.HasPath path

/-- A name that is found stands for one field. -/
theorem Struct.getElem?_indexOf? {fields : Struct} {name : String} {index : Nat} {f : Field}
    (hindex : fields.indexOf? name = some index) (hfield : fields.field? name = some f) :
    (fields : List Field)[index]? = some f := by
  unfold indexOf? at hindex
  unfold field? at hfield
  induction fields generalizing index with
  | nil => exact absurd hfield (by simp)
  | cons g rest ih =>
    rw [List.findIdx?_cons] at hindex
    rw [List.find?_cons] at hfield
    cases hg : decide (g.name = name) with
    | true =>
      simp only [hg, if_true] at hindex hfield
      obtain rfl := Option.some.inj hindex
      exact hfield
    | false =>
      simp only [hg, Bool.false_eq_true, if_false] at hindex hfield
      obtain ⟨i, hi, rfl⟩ := Option.map_eq_some_iff.mp hindex
      exact ih hi hfield

namespace ArrayType

theorem locate_cons (t : ArrayType) (name : String) (rest : List String) :
    (∃ fields index f, t.leaf = .struct fields ∧ Struct.indexOf? fields name = some index ∧
      Struct.field? fields name = some f ∧
      t.locate (name :: rest) = (f.type.locate rest).map fun r => (index :: r.1, r.2)) ∨
    t.locate (name :: rest) = .error (.noSuchField name t.render) := by
  rw [locate]
  cases hleaf : t.leaf with
  | struct fields =>
    cases hindex : Struct.indexOf? fields name with
    | none => exact .inr (by simp only [hindex])
    | some index =>
      cases hfield : Struct.field? fields name with
      | none => exact .inr (by simp only [hindex, hfield])
      | some f =>
        refine .inl ⟨fields, index, f, rfl, hindex, hfield, ?_⟩
        simp only [hindex, hfield]
        cases f.type.locate rest <;> rfl
  | _ => exact .inr rfl

/-- Names lead along a path of the type. -/
theorem hasPath_of_locate {names : List String} :
    ∀ {t t' : ArrayType} {path : List Nat}, t.locate names = .ok (path, t') → t.HasPath path := by
  induction names with
  | nil =>
    intro t t' path h
    obtain ⟨rfl, -⟩ := Prod.mk.inj (Except.ok.inj h)
    trivial
  | cons name rest ih =>
    intro t t' path h
    rcases t.locate_cons name rest with ⟨fields, index, f, hleaf, hindex, hfield, heq⟩ | heq
    · rw [heq] at h
      obtain ⟨r, hrest, h⟩ := map_eq_ok.mp h
      obtain ⟨rfl, -⟩ := Prod.mk.inj h
      exact ⟨fields, f, hleaf, Struct.getElem?_indexOf? hindex hfield, ih hrest⟩
    · rw [heq] at h
      exact absurd h (by simp)

/-- Names are refused only where there is no field of that name. -/
theorem locate_eq_error {names : List String} :
    ∀ {t : ArrayType} {e : BuildError}, t.locate names = .error e →
      ∃ name owner, e = .noSuchField name owner := by
  induction names with
  | nil => intro t e h; exact absurd h (by simp [locate])
  | cons name rest ih =>
    intro t e h
    rcases t.locate_cons name rest with ⟨fields, index, f, -, -, -, heq⟩ | heq
    · rw [heq] at h
      exact ih (map_eq_error.mp h)
    · rw [heq] at h
      exact ⟨name, t.render, (Except.error.inj h).symm⟩

end ArrayType

/-! ## Distinct names -/

mutual

/-- In every struct of the type the field names are distinct. -/
def ArrayType.DistinctNames : ArrayType → Prop
  | ⟨_, leaf⟩ => leaf.DistinctNames

def LeafType.DistinctNames : LeafType → Prop
  | .scalar _ | .string _ => True
  | .struct fields => (Struct.names fields).Nodup ∧ Struct.DistinctNamesBelow fields

def Struct.DistinctNamesBelow : List Field → Prop
  | [] => True
  | ⟨_, type⟩ :: fields => type.DistinctNames ∧ Struct.DistinctNamesBelow fields

end

theorem Struct.distinctNamesBelow_iff (fields : List Field) :
    DistinctNamesBelow fields ↔ ∀ f ∈ fields, f.type.DistinctNames := by
  induction fields with
  | nil => simp [DistinctNamesBelow]
  | cons f fields ih => cases f; simp [DistinctNamesBelow, ih]

/-! ## Induction over coerced values -/

/-- Of the values of some fields each is related to another one, at the type of its field. -/
inductive Struct.Each (r : ArrayType → Value → Value → Prop) :
    List Field → List Value → List Value → Prop
  | nil : Each r [] [] []
  | cons {f : Field} {fields : List Field} {v w : Value} {vs ws : List Value} (h : r f.type v w)
      (rest : Each r fields vs ws) : Each r (f :: fields) (v :: vs) (w :: ws)

namespace Struct

variable {r : ArrayType → Value → Value → Prop} {fields : List Field}

theorem Each.length {values ws : List Value} (h : Each r fields values ws) :
    ws.length = fields.length := by
  induction h with
  | nil => rfl
  | cons _ _ ih => rw [List.length_cons, List.length_cons, ih]

theorem each_of_coerce (free : Nat) {values : List Value}
    (h : ∀ p ∈ parts free fields values, ∀ w, p.type.coerce p.value = some w →
      r p.type p.value w) :
    ∀ {ws : List Value}, coerce fields values = some ws → Each r fields values ws := by
  induction fields generalizing free values with
  | nil =>
    intro ws hws
    cases values with
    | nil =>
      obtain rfl := Option.some.inj hws
      exact .nil
    | cons v vs => exact absurd hws (by simp [coerce])
  | cons f fields ih =>
    intro ws hws
    cases values with
    | nil => exact absurd hws (by simp [coerce])
    | cons v vs =>
      obtain ⟨hfirst, hrest⟩ := List.forall_mem_cons.mp h
      rw [coerce_cons] at hws
      obtain ⟨w, hw, hws⟩ := Option.bind_eq_some_iff.mp hws
      obtain ⟨rest, hvs, rfl⟩ := Option.map_eq_some_iff.mp hws
      exact .cons (hfirst w hw) (ih _ hrest hvs)

end Struct

theorem forall₂_of_mapM {α β : Type} {f : α → Option β} {r : α → β → Prop} {xs : List α}
    (h : ∀ x ∈ xs, ∀ y, f x = some y → r x y) :
    ∀ {ys : List β}, xs.mapM f = some ys → List.Forall₂ r xs ys := by
  induction xs with
  | nil =>
    intro ys hys
    obtain rfl := Option.some.inj hys
    exact .nil
  | cons x xs ih =>
    intro ys hys
    obtain ⟨hx, hxs⟩ := List.forall_mem_cons.mp h
    obtain ⟨y, rest, hy, hrest, rfl⟩ := mapM_cons_eq_some.mp hys
    exact .cons (hx y hy) (ih hxs hrest)

/-- A record is met at a struct in which a name comes twice. -/
def ArrayType.MeetsRepeat (t : ArrayType) (free : Nat) (v : Value) : Prop :=
  t.Meets (fun t _ _ => ∃ fields, t = ⟨[], .struct fields⟩ ∧ ¬(Struct.names fields).Nodup) free v

/-- There is no such struct in a type of distinct names. -/
theorem ArrayType.not_meetsRepeat {t : ArrayType} :
    ∀ {free : Nat} {v : Value}, t.DistinctNames → ¬t.MeetsRepeat free v := by
  induction t using ArrayType.induction with
  | scalar k | string s =>
    rintro free v - ⟨fields, h, -⟩
    exact absurd h (by simp)
  | struct fields ih =>
    rintro free v ⟨hnodup, hbelow⟩ hmeets
    have hbelow := (Struct.distinctNamesBelow_iff fields).mp hbelow
    rcases meets_struct.mp hmeets with ⟨fields', h, hrepeat⟩ | ⟨values, -, p, hp, hmeets⟩
    · cases h
      exact hrepeat hnodup
    · obtain ⟨f, hf, free', x, rfl⟩ := Struct.exists_of_mem_parts hp
      exact ih f hf (hbelow f hf) hmeets
  | dim d dims leaf ih =>
    rintro free v hnames (⟨fields, h, -⟩ | ⟨xs, -, x, -, hmeet⟩)
    · exact absurd h (by simp)
    · exact ih hnames hmeet

/-- What is proved of a value and what it is coerced to: for scalars, and from the fields or the
elements for records and lists. -/
@[elab_as_elim]
theorem ArrayType.coerce_induct {motive : ArrayType → Value → Value → Prop}
    (atom : ∀ leaf a b, leaf.readBack? a = some b → motive ⟨[], leaf⟩ (.atom a) (.atom b))
    (record : ∀ fields v values ws, (Struct.names fields).Nodup →
      v.record? fields = some values → Struct.Each motive fields values ws →
      motive ⟨[], .struct fields⟩ v (.dict ((Struct.names fields).zip ws)))
    (dim : ∀ d dims leaf v xs ws, v.items? = some xs →
      List.Forall₂ (motive ⟨dims, leaf⟩) xs ws → motive ⟨d :: dims, leaf⟩ v (.list ws))
    {t : ArrayType} {free : Nat} {v w : Value} (hnames : ¬t.MeetsRepeat free v)
    (h : t.coerce v = some w) : motive t v w := by
  induction t using ArrayType.induction generalizing free v w with
  | scalar k | string s =>
    obtain ⟨a, hv, ha⟩ := Option.bind_eq_some_iff.mp h
    obtain ⟨b, hb, rfl⟩ := Option.map_eq_some_iff.mp ha
    cases v with
    | atom a' =>
      obtain rfl := Option.some.inj hv
      exact atom _ a' b hb
    | _ => exact absurd hv (by simp [Value.atom?])
  | struct fields ih =>
    obtain ⟨values, hvalues, hmapped⟩ := Option.bind_eq_some_iff.mp h
    obtain ⟨ws, hws, rfl⟩ := Option.map_eq_some_iff.mp hmapped
    have hnodup : (Struct.names fields).Nodup :=
      Decidable.byContradiction fun hrepeat => hnames (.inl ⟨fields, rfl, hrepeat⟩)
    refine record fields v values ws hnodup hvalues (Struct.each_of_coerce free ?_ hws)
    intro p hp w hw
    obtain ⟨f, hf, free', x, rfl⟩ := Struct.exists_of_mem_parts hp
    exact ih f hf (fun hm => hnames (meets_struct.mpr (.inr ⟨values, hvalues, _, hp, hm⟩))) hw
  | dim d dims leaf ih =>
    rw [coerce_cons] at h
    obtain ⟨xs, hxs, hmapped⟩ := Option.bind_eq_some_iff.mp h
    obtain ⟨ws, hws, rfl⟩ := Option.map_eq_some_iff.mp hmapped
    have hbelow : ∀ x ∈ xs, ¬MeetsRepeat ⟨dims, leaf⟩ (free + d.slots) x :=
      fun x hx hm => hnames (.inr ⟨xs, hxs, x, hx, hm⟩)
    exact dim d dims leaf v xs ws hxs
      (forall₂_of_mapM (r := motive ⟨dims, leaf⟩) (fun x hx y hy => ih (hbelow x hx) hy) hws)

/-- **What is coerced is in order already** where names are distinct: no field of a record gets lost
along the empty path. -/
theorem ArrayType.along_of_coerce {t : ArrayType} {free : Nat} {v w : Value}
    (hnames : ¬t.MeetsRepeat free v) (h : t.coerce v = some w) : w.along [] = w := by
  refine coerce_induct (motive := fun _ _ w => w.along [] = w) ?atom ?record ?dim hnames h
  case atom => exact fun _ _ _ _ => rfl
  case record =>
    rintro fields v values ws hnodup - heach
    have hlen : ws.length = (Struct.names fields).length := by
      rw [heach.length, Struct.names, List.length_map]
    have hws : ws.map (Value.along []) = ws := by
      clear hnodup hlen
      induction heach with
      | nil => rfl
      | cons hw _ ih => rw [List.map_cons, hw, ih]
    -- as no name comes twice, entering the fields one by one keeps them all
    rw [Value.along_record, hws,
      Entries.ofList_of_nodup (by rw [Entries.keys_zip hlen]; exact hnodup)]
  case dim =>
    rintro d dims leaf v xs ws - heach
    have hws : ws.map (Value.along []) = ws := by
      induction heach with
      | nil => rfl
      | cons hw _ ih => rw [List.map_cons, hw, ih]
    rw [Value.along_list, hws]

theorem ArrayType.along_coerce {t : ArrayType} {v w : Value} (hnames : t.DistinctNames)
    (h : t.coerce v = some w) : w.along [] = w :=
  along_of_coerce (@not_meetsRepeat t 0 v hnames) h

end Ragged
