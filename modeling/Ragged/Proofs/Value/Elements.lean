import Mathlib.Data.List.Forall2
import Ragged.Layout.Write

/-!
# What a value offers

Two things are ever asked of a value: its elements, where a dimension is wanted, and its fields,
where a record is. `Value.items?` and `Value.record?` are the plain answers. The functions that are
run answer step by step and say what is wrong; the two facts of this file are that they answer the
same:

> `childrenAt` succeeds just where `items?` does, with those elements, and `recordFields` just where
> `record?` does, with those values.

A source answers with what it has left, whether or not that was looked ahead to. So neither answer
changes when more of it is looked at.

A function that changes how the elements are kept, and nothing else, is said to preserve a value
(`Value.Preserves`). It goes through to the answers: the elements and the fields of what it gives are
those there were, each put through the function.
-/

set_option autoImplicit false

namespace Ragged

/-! ## Asking each of a list -/

section Each

variable {α β : Type} {f : α → Option β}

theorem mapM_cons_eq_some {x : α} {xs : List α} {ys : List β} :
    (x :: xs).mapM f = some ys ↔
      ∃ y rest, f x = some y ∧ xs.mapM f = some rest ∧ ys = y :: rest := by
  simp only [List.mapM_cons, Option.bind_eq_bind, Option.bind_eq_some_iff, Option.pure_def,
    Option.some.injEq]
  constructor
  · rintro ⟨y, hy, rest, hrest, rfl⟩
    exact ⟨y, rest, hy, hrest, rfl⟩
  · rintro ⟨y, rest, hy, hrest, rfl⟩
    exact ⟨y, hy, rest, hrest, rfl⟩

theorem mapM_singleton_eq_some {x : α} {ys : List β} :
    [x].mapM f = some ys ↔ ∃ y, f x = some y ∧ ys = [y] := by
  rw [mapM_cons_eq_some]
  constructor
  · rintro ⟨y, rest, hy, hrest, rfl⟩
    obtain rfl := Option.some.inj hrest
    exact ⟨y, hy, rfl⟩
  · rintro ⟨y, hy, rfl⟩
    exact ⟨y, [], hy, rfl, rfl⟩

theorem mapM_of_forall₂ {xs : List α} {ys : List β}
    (h : List.Forall₂ (fun x y => f x = some y) xs ys) : xs.mapM f = some ys := by
  induction h with
  | nil => rfl
  | cons hxy _ ih => exact mapM_cons_eq_some.mpr ⟨_, _, hxy, ih, rfl⟩

theorem length_of_mapM {xs : List α} : ∀ {ys : List β}, xs.mapM f = some ys →
    ys.length = xs.length := by
  induction xs with
  | nil => intro ys h; rw [← Option.some.inj h]; rfl
  | cons x xs ih =>
    intro ys h
    obtain ⟨y, rest, -, hrest, rfl⟩ := mapM_cons_eq_some.mp h
    rw [List.length_cons, List.length_cons, ih hrest]

theorem exists_of_mapM {xs : List α} :
    ∀ {ys : List β}, xs.mapM f = some ys → ∀ y ∈ ys, ∃ x ∈ xs, f x = some y := by
  induction xs with
  | nil =>
    intro ys h y hy
    obtain rfl := Option.some.inj h
    exact absurd hy List.not_mem_nil
  | cons x xs ih =>
    intro ys h y hy
    obtain ⟨z, rest, hz, hrest, rfl⟩ := mapM_cons_eq_some.mp h
    rcases List.mem_cons.mp hy with rfl | hy
    · exact ⟨x, List.mem_cons_self, hz⟩
    · obtain ⟨x', hx', hxy⟩ := ih hrest y hy
      exact ⟨x', List.mem_cons_of_mem x hx', hxy⟩

theorem mapM_congr {g : α → Option β} {xs : List α} (h : ∀ x ∈ xs, f x = g x) :
    xs.mapM f = xs.mapM g := by
  induction xs with
  | nil => rfl
  | cons x xs ih =>
    obtain ⟨hx, hxs⟩ := List.forall_mem_cons.mp h
    rw [List.mapM_cons, List.mapM_cons, hx, ih hxs]

theorem mapM_map_option {γ : Type} (f : α → Option β) (g : β → γ) (xs : List α) :
    xs.mapM (fun x => (f x).map g) = (xs.mapM f).map (·.map g) := by
  induction xs with
  | nil => rfl
  | cons x xs ih =>
    rw [List.mapM_cons, List.mapM_cons, ih]
    cases f x with
    | none => rfl
    | some y => cases xs.mapM f <;> rfl

/-- The values of a mapping change and its keys stay. -/
theorem Entries.get?_map (g : α → β) (entries : List (String × α)) (key : String) :
    get? (entries.map fun e => (e.1, g e.2)) key = (get? entries key).map g := by
  induction entries with
  | nil => rfl
  | cons e rest ih =>
    obtain ⟨k, v⟩ := e
    simp only [get?, List.map_cons, List.lookup_cons] at ih ⊢
    cases key == k with
    | false => exact ih
    | true => rfl

theorem Entries.keys_map (g : α → β) (entries : List (String × α)) :
    keys (entries.map fun e => (e.1, g e.2)) = keys entries := by
  simp [keys]

end Each

/-- What is in the first of two lists side by side has its match in the second. -/
theorem exists_of_forall₂ {α β : Type} {R : α → β → Prop} {xs : List α} {ys : List β}
    (h : List.Forall₂ R xs ys) : ∀ x ∈ xs, ∃ y ∈ ys, R x y := by
  induction h with
  | nil => exact fun _ hx => absurd hx List.not_mem_nil
  | cons hxy _ ih =>
    refine List.forall_mem_cons.mpr ⟨⟨_, List.mem_cons_self, hxy⟩, fun x hx => ?_⟩
    obtain ⟨y, hy, hxy⟩ := ih x hx
    exact ⟨y, List.mem_cons_of_mem _ hy, hxy⟩

/-- Of two lists side by side it is enough to look at what is in the first. -/
theorem forall₂_of_forall_mem {α β : Type} {R S : α → β → Prop} {xs : List α} {ys : List β}
    (h : ∀ x ∈ xs, ∀ {y}, R x y → S x y) (hall : List.Forall₂ R xs ys) : List.Forall₂ S xs ys := by
  induction hall with
  | nil => exact .nil
  | cons hxy _ ih =>
    obtain ⟨hx, hrest⟩ := List.forall_mem_cons.mp h
    exact .cons (hx hxy) (ih hrest)

/-- What is told of both lists alike, element by element, is one list. -/
theorem map_eq_of_forall₂ {α β γ : Type} {f : α → γ} {g : β → γ} {xs : List α} {ys : List β}
    (h : List.Forall₂ (fun x y => f x = g y) xs ys) : xs.map f = ys.map g := by
  rwa [← List.forall₂_eq_eq_eq, List.forall₂_map_left_iff, List.forall₂_map_right_iff]

/-- Mappings side by side: the keys are the same, and the values go together. -/
theorem Entries.forall₂_iff {α β : Type} {R : α → β → Prop} {entries : List (String × α)} :
    ∀ {entries' : List (String × β)},
      List.Forall₂ (fun e e' => e.1 = e'.1 ∧ R e.2 e'.2) entries entries' ↔
        keys entries = keys entries' ∧
          List.Forall₂ R (entries.map Prod.snd) (entries'.map Prod.snd) := by
  induction entries with
  | nil => intro entries'; cases entries' <;> simp [keys]
  | cons e rest ih =>
    intro entries'
    cases entries' with
    | nil => simp [keys]
    | cons e' rest' =>
      rw [List.forall₂_cons, ih]
      simp [keys, and_assoc, and_left_comm]

namespace Value

/-! ## Induction

Elements sit in a list, behind the keys of a mapping, in the queue of a source or in its supply. A
property of all values is proved from the same property of whatever is inside, wherever it sits. -/

@[elab_as_elim]
theorem induction {motive : Value → Prop} (atom : ∀ a, motive (.atom a))
    (list : ∀ items, (∀ x ∈ items, motive x) → motive (.list items))
    (tuple : ∀ items, (∀ x ∈ items, motive x) → motive (.tuple items))
    (dict : ∀ entries : List (String × Value), (∀ e ∈ entries, motive e.2) → motive (.dict entries))
    (iter : ∀ source : Pull Value, (∀ x ∈ source.replay, motive x) →
      (∀ x ∈ source.pending.toList, motive x) → motive (.iter source))
    (v : Value) : motive v := by
  refine @Value.rec motive (fun items => ∀ x ∈ items, motive x)
    (fun entries => ∀ e ∈ entries, motive e.2)
    (fun source => (∀ x ∈ source.replay, motive x) ∧ ∀ x ∈ source.pending.toList, motive x)
    (fun e => motive e.2) (fun source => ∀ x ∈ (source.getD .nil).toList, motive x)
    (fun s => ∀ x ∈ s.toList, motive x) atom list tuple dict (fun source h => iter source h.1 h.2)
    ?_ ?_ ?_ ?_ ?_ ?_ ?_ ?_ ?_ ?_ v
  · exact fun _ h => absurd h List.not_mem_nil
  · exact fun _ _ hx hrest => List.forall_mem_cons.mpr ⟨hx, hrest⟩
  · exact fun _ h => absurd h List.not_mem_nil
  · exact fun _ _ hx hrest => List.forall_mem_cons.mpr ⟨hx, hrest⟩
  · exact fun _ _ _ _ _ _ hreplay hpending => ⟨hreplay, hpending⟩
  · exact fun _ _ h => h
  · exact fun _ h => absurd h List.not_mem_nil
  · exact fun _ h => h
  · exact fun _ h => absurd h List.not_mem_nil
  · intro _ _ hx hrest
    rw [Supply.toList_cons]
    exact List.forall_mem_cons.mpr ⟨hx, hrest ⟨⟩⟩

/-! ## Elements -/

/-- The elements a dimension takes from a value, if it has any: those of a sequence, or what a
source has left. -/
def items? : Value → Option (List Value)
  | .list items | .tuple items => some items
  | .iter source => some source.remaining
  | .atom _ | .dict _ => none

def isIterator : Value → Bool
  | .iter _ => true
  | _ => false

theorem exists_source {v : Value} (hv : v.isIterator = true) : ∃ source, v = .iter source := by
  cases v with
  | iter source => exact ⟨source, rfl⟩
  | _ => exact absurd hv (by simp [isIterator])

/-- Induction into elements, wherever they come from, and into the values of mappings. -/
@[elab_as_elim]
theorem inductElements {motive : Value → Prop} (atom : ∀ a, motive (.atom a))
    (dict : ∀ entries : List (String × Value), (∀ e ∈ entries, motive e.2) → motive (.dict entries))
    (elements : ∀ v xs, v.items? = some xs → (∀ x ∈ xs, motive x) → motive v) (v : Value) :
    motive v := by
  induction v using Value.induction with
  | atom a => exact atom a
  | dict entries ih => exact dict entries ih
  | list items ih | tuple items ih => exact elements _ items rfl ih
  | iter source ihreplay ihpending =>
    exact elements _ source.remaining rfl fun x hx =>
      (List.mem_append.mp hx).elim (ihreplay x) (ihpending x)

/-- **The elements a pass goes through are `items?`.** Their number may be known beforehand, and it
is known unless the value is a source. -/
theorem childrenAt_of_items? {v : Value} {xs : List Value} (h : v.items? = some xs) (depth : Nat) :
    ∃ c, v.childrenAt depth = .ok c ∧ v.children? = some c ∧ c.elements.toList = xs ∧
      c.isIterator = v.isIterator ∧ (∀ n, c.lengthHint? = some n → n = xs.length) ∧
      (v.isIterator = false → c.lengthHint? = some xs.length) := by
  cases v with
  | atom a => exact absurd h (by simp [items?])
  | dict entries => exact absurd h (by simp [items?])
  | list items | tuple items =>
    obtain rfl : items = xs := Option.some.inj h
    exact ⟨.sequence items, rfl, rfl, Supply.toList_ofList items, rfl,
      fun n hn => (Option.some.inj hn).symm, fun _ => rfl⟩
  | iter source =>
    obtain rfl : source.remaining = xs := Option.some.inj h
    exact ⟨.iterator source, rfl, rfl, Pull.toList_left source, rfl,
      fun n hn => (Pull.length_of_knownLength? hn).symm,
      fun hv => absurd hv (by simp [isIterator])⟩

theorem childrenAt_of_none {v : Value} (h : v.items? = none) (depth : Nat) :
    ∃ e, v.childrenAt depth = .error e := by
  cases v with
  | atom a => exact ⟨_, rfl⟩
  | dict entries => exact ⟨_, rfl⟩
  | _ => exact absurd h (by simp [items?])

/-! ## Fields -/

/-- The entry of a mapping for a name. -/
def entry? (name : String) : Value → Option Value
  | .dict entries => Entries.get? entries name
  | _ => none

/-- The value of each field of a struct, in declared order, if the value is a record of that struct.
By position there must be just as many elements as fields. By name the keys must be the field names;
no two fields can share one, or it would stay open to which of them the value belongs. -/
def record? (fields : Struct) : Value → Option (List Value)
  | .dict entries =>
    if (Struct.names fields).Nodup ∧ ∀ key ∈ Entries.keys entries, key ∈ Struct.names fields then
      (Struct.names fields).mapM (Entries.get? entries)
    else none
  | v => v.items?.bind fun items => if items.length = fields.length then some items else none

theorem record?_of_items? {fields : Struct} {v : Value} {xs : List Value}
    (h : v.items? = some xs) :
    v.record? fields = if xs.length = fields.length then some xs else none := by
  cases v with
  | atom a => exact absurd h (by simp [items?])
  | dict entries => exact absurd h (by simp [items?])
  | _ => simp only [record?, h, Option.bind_some]

/-- By position the values are the elements, as many as there are fields. -/
theorem of_record?_of_items? {fields : Struct} {v : Value} {xs values : List Value}
    (hv : v.items? = some xs) (h : v.record? fields = some values) :
    xs.length = fields.length ∧ xs = values := by
  rw [record?_of_items? hv, Option.ite_none_right_eq_some, Option.some.injEq] at h
  exact h

theorem length_of_record? {fields : Struct} {v : Value} {values : List Value}
    (h : v.record? fields = some values) : values.length = fields.length := by
  cases v with
  | dict entries =>
    simp only [record?] at h
    split at h
    · rw [length_of_mapM h, Struct.names, List.length_map]
    · exact absurd h (by simp)
  | atom a => exact absurd h (by simp [record?, items?])
  | list items | tuple items | iter source =>
    obtain ⟨hlen, rfl⟩ := of_record?_of_items? rfl h
    exact hlen

theorem indexOf?_eq_none_iff (fields : Struct) (name : String) :
    Struct.indexOf? fields name = none ↔ name ∉ Struct.names fields := by
  simp [Struct.indexOf?, Struct.names, List.findIdx?_eq_none_iff]

/-- A field is found under its name just if no field before it bears the name too. -/
theorem indexOf?_append_cons (before after : List Field) (f : Field) :
    Struct.indexOf? (before ++ f :: after) f.name = some before.length ↔
      f.name ∉ Struct.names before := by
  have hnone := indexOf?_eq_none_iff before f.name
  simp only [Struct.indexOf?] at hnone ⊢
  rw [List.findIdx?_append]
  cases hi : before.findIdx? (fun g => decide (g.name = f.name)) with
  | none => simpa [List.findIdx?_cons] using hnone.mp hi
  | some i =>
    have hlt : i < before.length := (List.findIdx?_eq_some_iff_getElem.mp hi).1
    have hmem : f.name ∈ Struct.names before := by
      refine Decidable.byContradiction fun hnot => ?_
      rw [hnone.mpr hnot] at hi
      exact absurd hi (by simp)
    rw [Option.some_or, Option.some.injEq]
    exact ⟨fun h => absurd h (Nat.ne_of_lt hlt), fun h => absurd hmem h⟩

/-- The fields behind some others, by name. Induction on the fields behind: each must have a value
and must not bear the name of one before. -/
theorem namedFields_eq_ok_iff (entries : List (String × Value)) (rest : List Field) :
    ∀ (before : List Field) (values : List Value), (Struct.names before).Nodup →
      (namedFields (before ++ rest) entries before.length rest = .ok values ↔
        (Struct.names (before ++ rest)).Nodup ∧
          (Struct.names rest).mapM (Entries.get? entries) = some values) := by
  induction rest with
  | nil =>
    intro before values hbefore
    rw [List.append_nil]
    refine ⟨fun h => ⟨hbefore, ?_⟩, fun h => ?_⟩
    · rw [← Except.ok.inj h]
      rfl
    · rw [← Option.some.inj h.2]
      rfl
  | cons f rest ih =>
    intro before values hbefore
    have hassoc : before ++ f :: rest = (before ++ [f]) ++ rest := by simp
    have hnames : Struct.names (f :: rest) = f.name :: Struct.names rest := rfl
    rw [namedFields.eq_def, hnames, mapM_cons_eq_some]
    cases hget : Entries.get? entries f.name with
    | none => simp [hget]
    | some v =>
      simp only [hget, indexOf?_append_cons]
      by_cases hmem : f.name ∈ Struct.names before
      · rw [if_neg (fun h => h hmem)]
        -- the name stands twice, so nothing is found on either side
        have hdup : ¬(Struct.names (before ++ f :: rest)).Nodup := by
          rw [Struct.names, List.map_append, List.map_cons]
          intro hnodup
          exact (List.nodup_append.mp hnodup).2.2 _ hmem _ List.mem_cons_self rfl
        simp [hdup]
      · rw [if_pos hmem]
        have hnext : (Struct.names (before ++ [f])).Nodup := by
          rw [Struct.names, List.map_append]
          refine List.nodup_append.mpr ⟨hbefore, by simp, fun a ha b hb => ?_⟩
          obtain rfl : b = f.name := by simpa using hb
          exact fun hab => hmem (hab ▸ ha)
        have hih := fun values => ih (before ++ [f]) values hnext
        rw [List.length_append, List.length_singleton, ← hassoc] at hih
        cases hvs : namedFields (before ++ f :: rest) entries (before.length + 1) rest with
        | error e =>
          refine ⟨fun h => absurd h (by simp [bind, Except.bind]), ?_⟩
          rintro ⟨hnodup, -, vs, -, hrest, -⟩
          exact absurd (hvs.symm.trans ((hih vs).mpr ⟨hnodup, hrest⟩)) (by simp)
        | ok vs =>
          obtain ⟨hnodup, hrest⟩ := (hih vs).mp hvs
          refine ⟨fun h => ⟨hnodup, v, vs, rfl, hrest, (Except.ok.inj h).symm⟩, ?_⟩
          rintro ⟨-, w, ws, hw, hws, rfl⟩
          obtain rfl := Option.some.inj hw
          obtain rfl := Option.some.inj (hrest.symm.trans hws)
          rfl

/-- What is looked for among the keys. -/
theorem isNone_indexOf? (fields : Struct) :
    (fun key => (Struct.indexOf? fields key).isNone) =
      fun key => decide (key ∉ Struct.names fields) := by
  funext key
  rw [Bool.eq_iff_iff, Option.isNone_iff_eq_none, indexOf?_eq_none_iff, decide_eq_true_iff]

theorem recordFields_of_undeclared {fields : Struct} {entries : List (String × Value)} {key : String}
    (h : (Entries.keys entries).find? (· ∉ Struct.names fields) = some key) :
    recordFields fields (.dict entries) =
      (.dict entries, .error (.undeclaredField key fields.render)) := by
  simp only [recordFields, isNone_indexOf?, h]

theorem recordFields_of_declared {fields : Struct} {entries : List (String × Value)}
    (h : ∀ key ∈ Entries.keys entries, key ∈ Struct.names fields) :
    recordFields fields (.dict entries) = (.dict entries, namedFields fields entries 0 fields) := by
  have hfind : (Entries.keys entries).find? (· ∉ Struct.names fields) = none := by
    simpa [List.find?_eq_none] using h
  simp only [recordFields, isNone_indexOf?, hfind]

theorem recordFields_dict_eq_ok_iff (fields : Struct) (entries : List (String × Value))
    (values : List Value) : (recordFields fields (.dict entries)).2 = .ok values ↔
      (dict entries).record? fields = some values := by
  rw [record?]
  by_cases hall : ∀ key ∈ Entries.keys entries, key ∈ Struct.names fields
  · have hnamed : namedFields fields entries 0 fields = .ok values ↔ _ :=
      namedFields_eq_ok_iff entries fields [] values List.nodup_nil
    rw [recordFields_of_declared hall, hnamed, List.nil_append]
    by_cases hnodup : (Struct.names fields).Nodup
    · rw [if_pos ⟨hnodup, hall⟩, and_iff_right hnodup]
    · rw [if_neg fun h => hnodup h.1]
      exact ⟨fun h => absurd h.1 hnodup, fun h => absurd h (by simp)⟩
  · have hfind : (Entries.keys entries).find? (· ∉ Struct.names fields) ≠ none :=
      fun h => hall (by simpa [List.find?_eq_none] using h)
    obtain ⟨key, hkey⟩ := Option.ne_none_iff_exists'.mp hfind
    rw [recordFields_of_undeclared hkey, if_neg fun h => hall h.2]
    simp

/-- One element more than there are fields tells whether what is left is just as many. -/
theorem recordFields_iter_eq_ok_iff (fields : Struct) (source : Pull Value) (values : List Value) :
    (recordFields fields (.iter source)).2 = .ok values ↔
      (iter source).record? fields = some values := by
  have hle := source.buffered_le
  rw [record?_of_items? rfl]
  simp only [recordFields, source.buffered_fill]
  rcases Nat.lt_trichotomy source.remaining.length fields.length with hlen | hlen | hlen
  · rw [if_neg (by omega), if_pos (by omega), if_neg (by omega)]
    simp
  · rw [if_neg (by omega), if_neg (by omega), if_pos hlen, Pull.replay_fill_of_le (by omega)]
    simp
  · rw [if_pos (by omega), if_neg (by omega)]
    simp

/-- **A record's fields are `record?`.** -/
theorem recordFields_eq_ok_iff (fields : Struct) (v : Value) (values : List Value) :
    (v.recordFields fields).2 = .ok values ↔ v.record? fields = some values := by
  cases v with
  | atom a => simp [recordFields, record?, items?]
  | list items | tuple items =>
    rw [record?_of_items? rfl]
    simp only [recordFields]
    split <;> simp
  | dict entries => exact recordFields_dict_eq_ok_iff fields entries values
  | iter source => exact recordFields_iter_eq_ok_iff fields source values

/-! ## What keeps the answers -/

/-- The scalar a value is, if it is one. -/
def atom? : Value → Option Atom
  | .atom a => some a
  | _ => none

theorem atom?_of_items? {v : Value} {xs : List Value} (h : v.items? = some xs) : v.atom? = none := by
  cases v with
  | atom a => exact absurd h (by simp [items?])
  | _ => rfl

/-- The function changes values only in the way in which their elements are kept. -/
structure Preserves (f : Value → Value) : Prop where
  atom : ∀ a, f (.atom a) = .atom a
  dict : ∀ entries, f (.dict entries) = .dict (entries.map fun e => (e.1, f e.2))
  items? : ∀ v, (f v).items? = v.items?.map (·.map f)

namespace Preserves

variable {f : Value → Value}

theorem atom? (hf : Preserves f) (v : Value) : (f v).atom? = v.atom? := by
  cases hv : v.items? with
  | some xs => rw [atom?_of_items? hv, atom?_of_items? (by rw [hf.items?, hv]; rfl)]
  | none =>
    cases v with
    | atom a => rw [hf.atom]
    | dict entries => rw [hf.dict]; rfl
    | _ => exact absurd hv (by simp [Value.items?])

/-- A mapping comes from a mapping. -/
theorem exists_dict (hf : Preserves f) {v : Value} {entries : List (String × Value)}
    (h : f v = .dict entries) : ∃ entries', v = .dict entries' := by
  cases hv : v.items? with
  | some xs =>
    have hmapped : (f v).items? = some (xs.map f) := by rw [hf.items?, hv]; rfl
    exact absurd hmapped (by simp [h, Value.items?])
  | none =>
    cases v with
    | atom a => exact absurd ((hf.atom a).symm.trans h) (by simp)
    | dict entries' => exact ⟨entries', rfl⟩
    | _ => exact absurd hv (by simp [Value.items?])

theorem record? (hf : Preserves f) (fields : Struct) (v : Value) :
    (f v).record? fields = (v.record? fields).map (·.map f) := by
  cases hv : v.items? with
  | some xs =>
    have hmapped : (f v).items? = some (xs.map f) := by rw [hf.items?, hv]; rfl
    rw [record?_of_items? hmapped, record?_of_items? hv, List.length_map]
    split <;> rfl
  | none =>
    cases v with
    | atom a => rw [hf.atom]; rfl
    | dict entries =>
      have hget : Entries.get? (entries.map fun e => (e.1, f e.2)) =
          fun key => (Entries.get? entries key).map f := funext (Entries.get?_map f entries)
      rw [hf.dict]
      simp only [Value.record?, Entries.keys_map, hget, mapM_map_option]
      split <;> rfl
    | _ => exact absurd hv (by simp [Value.items?])

end Preserves

end Value

end Ragged
