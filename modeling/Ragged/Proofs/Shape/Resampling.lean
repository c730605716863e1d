import Ragged.Proofs.Shape.Samples
import Ragged.Proofs.Type.Stability
import Ragged.Proofs.Value.Contained
import Ragged.Proofs.Value.Fields

/-!
# The shape of what an array reads back as

A value is surveyed, a type is inferred, and the value coerced to that type is surveyed in its turn.
It has a list for each container and a mapping for each record, its keys in the order in which they
came first, and other scalars. So the two surveys go in step, and the shapes they have reached differ
in nothing but the samples (`Shape.Resampled`), in the shapes of fields as well.

> Surveying a value and what its type makes of it keeps shapes in correspondence, and from shapes in
> correspondence the same type is inferred.

Each kind of value has its step (`Value.Resurveyed`). They are put together by induction on how the
shape of the whole covers the value, as that is what tells which of them a value is for the type.
-/

set_option autoImplicit false

namespace Ragged

/-! ## Corresponding shapes -/

/-- The second shape may be that of what the leaf makes of the values of the first. -/
inductive Shape.Resampled : LeafType → Shape → Shape → Prop
  | leaves {leaf : LeafType} {levels : List Level} {leafDepth : Option Nat} {s s' : LeafSample}
      (h : leaf.Resamples s s') : Resampled leaf ⟨levels, leafDepth, s⟩ ⟨levels, leafDepth, s'⟩
  | records {fields : List Field} {levels : List Level} {leafDepth : Option Nat}
      {shapes shapes' : List (String × Shape)}
      (hsame : ∀ key, key ∈ Entries.keys shapes ↔ key ∈ Struct.names fields)
      (hkeys : Entries.keys shapes' = Struct.names fields)
      (hall : ∀ f ∈ fields, ∀ S S', Entries.get? shapes f.name = some S →
        Entries.get? shapes' f.name = some S' → Resampled f.type.leaf S S') :
      Resampled (.struct fields) ⟨levels, leafDepth, .struct shapes⟩
        ⟨levels, leafDepth, .struct shapes'⟩

namespace Shape

variable {leaf : LeafType} {S S' : Shape}

theorem resampled_empty (leaf : LeafType) : Resampled leaf empty empty := .leaves .nothing

/-- Shapes in correspondence have the same levels. -/
theorem Resampled.enterContainer {depth : Nat} {f : Level → Level} {S₁ : Shape}
    (h : Resampled leaf S S') (henter : S.enterContainer depth f = .ok S₁) :
    ∃ S₁', S'.enterContainer depth f = .ok S₁' ∧ Resampled leaf S₁ S₁' := by
  obtain ⟨hleaf, rfl⟩ := enterContainer_eq_ok henter
  cases h with
  | leaves h => exact ⟨_, if_neg hleaf, .leaves h⟩
  | records hsame hkeys hall => exact ⟨_, if_neg hleaf, .records hsame hkeys hall⟩

/-- What is asked of a shape before a leaf comes in is only where its levels and its leaves are. -/
theorem enterLeaf_of_leaf {levels : List Level} {leafDepth : Option Nat} {s : LeafSample}
    {depth : Nat} {S₁ : Shape} (henter : enterLeaf ⟨levels, leafDepth, s⟩ depth = .ok S₁)
    (s' : LeafSample) :
    S₁ = ⟨levels, some depth, s⟩ ∧
      enterLeaf ⟨levels, leafDepth, s'⟩ depth = .ok ⟨levels, some depth, s'⟩ := by
  simp only [enterLeaf] at henter ⊢
  split at henter
  · split at henter
    · split at henter
      · exact absurd henter (by simp)
      · rename_i hd hlt
        exact ⟨(Except.ok.inj henter).symm, by simp only [if_pos hd, if_neg hlt]⟩
    · exact absurd henter (by simp)
  · split at henter
    · exact absurd henter (by simp)
    · rename_i hlt
      exact ⟨(Except.ok.inj henter).symm, by simp only [if_neg hlt]⟩

theorem Resampled.enterLeaf {depth : Nat} {S₁ : Shape} (h : Resampled leaf S S')
    (henter : S.enterLeaf depth = .ok S₁) :
    ∃ S₁', S'.enterLeaf depth = .ok S₁' ∧ Resampled leaf S₁ S₁' := by
  cases h with
  | @leaves _ levels leafDepth s s' h =>
    obtain ⟨rfl, henter'⟩ := enterLeaf_of_leaf henter s'
    exact ⟨_, henter', .leaves h⟩
  | @records fields levels leafDepth shapes shapes' hsame hkeys hall =>
    obtain ⟨rfl, henter'⟩ := enterLeaf_of_leaf henter (.struct shapes')
    exact ⟨_, henter', .records hsame hkeys hall⟩

theorem Resampled.withRecords {fields : List Field} {shapes shapes' : List (String × Shape)}
    (h : Resampled leaf S S')
    (hsame : ∀ key, key ∈ Entries.keys shapes ↔ key ∈ Struct.names fields)
    (hkeys : Entries.keys shapes' = Struct.names fields)
    (hall : ∀ f ∈ fields, ∀ T T', Entries.get? shapes f.name = some T →
      Entries.get? shapes' f.name = some T' → Resampled f.type.leaf T T') :
    Resampled (.struct fields) { S with leaf := .struct shapes }
      { S' with leaf := .struct shapes' } := by
  cases h with
  | leaves => exact .records hsame hkeys hall
  | records => exact .records hsame hkeys hall

end Shape

/-! ## Fields -/

section Fields

variable {entries : List (String × Value)} {fields fields' : List (String × Shape)}

open Entries Value

/-- Entries of distinct keys are surveyed independently of each other. -/
theorem Value.get?_of_foldlM (hnodup : (keys entries).Nodup) :
    ∀ {fields}, entries.foldlM addField fields = .ok fields' →
      (∀ e ∈ entries, ∃ S, (survey .everything 0 false ((get? fields e.1).getD .empty) e.2).2 = .ok S ∧
        get? fields' e.1 = some S) ∧
      ∀ key, key ∉ keys entries → get? fields' key = get? fields key := by
  induction entries with
  | nil =>
    intro fields h
    obtain rfl := Except.ok.inj h
    exact ⟨fun _ he => absurd he List.not_mem_nil, fun _ _ => rfl⟩
  | cons e rest ih =>
    intro fields h
    obtain ⟨hnew, hrest⟩ := List.nodup_cons.mp hnodup
    obtain ⟨fields₁, hfirst, h⟩ := foldlM_cons_eq_ok.mp h
    obtain ⟨S, hS, rfl⟩ := map_eq_ok.mp hfirst
    obtain ⟨hentries, hothers⟩ := ih hrest h
    refine ⟨List.forall_mem_cons.mpr ⟨⟨S, hS, ?_⟩, fun e' he' => ?_⟩, fun key hkey => ?_⟩
    · rw [hothers e.1 hnew, get?_put, if_pos rfl]
    · obtain ⟨S', hS', hget⟩ := hentries e' he'
      have hne : e'.1 ≠ e.1 := fun heq => hnew (heq ▸ List.mem_map_of_mem he')
      rw [get?_put, if_neg hne] at hS'
      exact ⟨S', hS', hget⟩
    · rw [hothers key fun hmem => hkey (List.mem_cons_of_mem _ hmem), get?_put, if_neg]
      rintro rfl
      exact hkey List.mem_cons_self

/-- So all of them are if each of them is. -/
theorem Value.exists_foldlM_addField (hnodup : (keys entries).Nodup) :
    ∀ {fields}, (∀ e ∈ entries, ∃ S,
        (survey .everything 0 false ((get? fields e.1).getD .empty) e.2).2 = .ok S) →
      ∃ fields', entries.foldlM addField fields = .ok fields' := by
  induction entries with
  | nil => exact fun _ => ⟨_, rfl⟩
  | cons e rest ih =>
    intro fields h
    obtain ⟨hnew, hrest⟩ := List.nodup_cons.mp hnodup
    obtain ⟨⟨S, hS⟩, h⟩ := List.forall_mem_cons.mp h
    obtain ⟨fields', hfields'⟩ := @ih hrest (put fields e.1 S) fun e' he' => by
      have hne : e'.1 ≠ e.1 := fun heq => hnew (heq ▸ List.mem_map_of_mem he')
      rw [get?_put, if_neg hne]
      exact h e' he'
    exact ⟨fields', foldlM_cons_eq_ok.mpr ⟨_, map_eq_ok.mpr ⟨S, hS, rfl⟩, hfields'⟩⟩

/-- The keys stay in the order in which they came first. -/
theorem Value.keys_of_foldlM (hnodup : (keys entries).Nodup) :
    ∀ {fields}, entries.foldlM addField fields = .ok fields' →
      keys fields' = keys fields ++ (keys entries).filter (· ∉ keys fields) := by
  induction entries with
  | nil =>
    intro fields h
    obtain rfl := Except.ok.inj h
    simp [keys]
  | cons e rest ih =>
    intro fields h
    obtain ⟨hnew, hrest⟩ := List.nodup_cons.mp hnodup
    obtain ⟨fields₁, hfirst, h⟩ := foldlM_cons_eq_ok.mp h
    obtain ⟨S, -, rfl⟩ := map_eq_ok.mp hfirst
    rw [ih hrest h, keys_put]
    by_cases hmem : e.1 ∈ keys fields
    · rw [if_pos hmem]
      show _ = keys fields ++ (e.1 :: keys rest).filter _
      rw [List.filter_cons_of_neg (by simpa using hmem)]
    · rw [if_neg hmem, List.append_assoc]
      show _ = keys fields ++ (e.1 :: keys rest).filter _
      rw [List.filter_cons_of_pos (by simpa using hmem), List.singleton_append]
      -- the new key does not come again, so the others are as new as they were before
      have hothers : (keys rest).filter (· ∉ keys fields ++ [e.1]) =
          (keys rest).filter (· ∉ keys fields) := by
        apply List.filter_congr
        intro key hkey
        have hne : key ≠ e.1 := fun heq => hnew (heq ▸ hkey)
        simp [hne]
      rw [hothers]

end Fields

/-! ## One step for each kind of value -/

/-- Where shapes are in correspondence, surveying the first value and the second keeps them so. -/
def Value.Resurveyed (leaf : LeafType) (depth : Nat) (v w : Value) : Prop :=
  ∀ (partly : Bool) (S S' S₁ : Shape), S.Resampled leaf S' →
    (survey .everything depth partly S v).2 = .ok S₁ →
      ∃ S₁', (survey .everything depth partly S' w).2 = .ok S₁' ∧ S₁.Resampled leaf S₁'

section Steps

variable {config : Config} {depth : Nat}

theorem Value.resurveyed_atom {leaf : LeafType} {a b : Atom} (ha : Sampled config leaf a)
    (hb : leaf.readBack? a = some b) : Resurveyed leaf depth (.atom a) (.atom b) := by
  rintro partly S S' S₁ h hok
  rw [survey_atom] at hok ⊢
  obtain ⟨S₀, henter, hok⟩ := bind_eq_ok.mp hok
  obtain ⟨s₁, hjoin, rfl⟩ := map_eq_ok.mp hok
  cases h with
  | @leaves _ levels leafDepth s s' hs =>
    obtain ⟨rfl, henter'⟩ := Shape.enterLeaf_of_leaf henter s'
    obtain ⟨s₁', hjoin', hs₁⟩ := hs.join ha hb hjoin
    refine ⟨⟨levels, some depth, s₁'⟩, ?_, .leaves hs₁⟩
    rw [henter']
    exact map_eq_ok.mpr ⟨s₁', hjoin', rfl⟩
  | records => exact absurd ha not_sampled_struct

theorem Value.resurveyed_items {leaf : LeafType} {v : Value} {xs ws : List Value}
    (hv : v.isIterator = false) (hxs : v.items? = some xs)
    (h : List.Forall₂ (Resurveyed leaf (depth + 1)) xs ws) :
    Resurveyed leaf depth v (.list ws) := by
  have hfold : ∀ (partly : Bool) {S S' S₁ : Shape}, S.Resampled leaf S' →
      xs.foldlM (fun S x => (survey .everything (depth + 1) partly S x).2) S = .ok S₁ →
        ∃ S₁', ws.foldlM (fun S x => (survey .everything (depth + 1) partly S x).2) S' = .ok S₁' ∧
          S₁.Resampled leaf S₁' := by
    intro partly
    clear hxs
    induction h with
    | nil =>
      rintro S S' S₁ hS hok
      obtain rfl := Except.ok.inj hok
      exact ⟨S', rfl, hS⟩
    | cons hxw _ ih =>
      intro S S' S₁ hS hok
      obtain ⟨S₂, hfirst, hok⟩ := foldlM_cons_eq_ok.mp hok
      obtain ⟨S₂', hfirst', hS₂⟩ := hxw partly S S' S₂ hS hfirst
      obtain ⟨S₁', hrest', hS₁⟩ := ih hS₂ hok
      exact ⟨S₁', foldlM_cons_eq_ok.mpr ⟨S₂', hfirst', hrest'⟩, hS₁⟩
  intro partly S S' S₁ hS hok
  have hws : (list ws).items? = some ws := rfl
  rw [survey_of_items? hxs, hv] at hok
  rw [survey_of_items? hws, ← h.length_eq]
  obtain ⟨S₀, henter, hok⟩ := bind_eq_ok.mp hok
  obtain ⟨S₀', henter', hS₀⟩ := hS.enterContainer henter
  obtain ⟨S₁', hok', hS₁⟩ := hfold partly hS₀ hok
  exact ⟨S₁', bind_eq_ok.mpr ⟨S₀', henter', hok'⟩, hS₁⟩

/-- Mappings of the same keys go in among each other. -/
theorem LeafSample.fieldsFor_struct {fields : List (String × Shape)} {keys : List String}
    (h : ∀ key, key ∈ keys ↔ key ∈ Entries.keys fields) :
    fieldsFor (.struct fields) keys = .ok fields := by
  have hdeclared : keys.find? (fun key => (Entries.get? fields key).isNone) = none := by
    refine List.find?_eq_none.mpr fun key hkey => ?_
    obtain ⟨shape, hshape⟩ := Entries.mem_keys_iff.mp ((h key).mp hkey)
    simp [hshape]
  have hcomplete : (Entries.keys fields).find? (fun key => !keys.contains key) = none := by
    refine List.find?_eq_none.mpr fun key hkey => ?_
    simpa using (h key).mpr hkey
  simp only [fieldsFor, hdeclared, hcomplete]

/-- The fields a record goes in with, and those that what is made of it goes in with. -/
theorem Shape.Resampled.fieldsFor {fields : List Field} {S S' : Shape} {keys : List String}
    {shapes : List (String × Shape)} (h : S.Resampled (.struct fields) S')
    (hshapes : S.leaf.fieldsFor keys = .ok shapes) :
    ∃ shapes', S'.leaf.fieldsFor (Struct.names fields) = .ok shapes' ∧
      (shapes' = [] ∨ Entries.keys shapes' = Struct.names fields) ∧
      ∀ f ∈ fields, Resampled f.type.leaf ((Entries.get? shapes f.name).getD .empty)
        ((Entries.get? shapes' f.name).getD .empty) := by
  cases h with
  | @leaves _ levels leafDepth s s' hs =>
    cases hs with
    | nothing =>
      obtain rfl := Except.ok.inj hshapes
      exact ⟨[], rfl, .inl rfl, fun f _ => resampled_empty f.type.leaf⟩
    | sort _ hr => exact absurd hr (by simp [LeafType.sample?])
    | @integers s lo hi _ hspan =>
      cases s with
      | bool | int lo hi => exact absurd hshapes (by simp [LeafSample.fieldsFor])
      | _ => exact absurd hspan (by simp [LeafSample.span?])
  | @records fields levels leafDepth known known' hsame hkeys hall =>
    rcases LeafSample.fieldsFor_eq_ok hshapes with ⟨hnothing, -⟩ | ⟨hknown, -⟩
    · exact absurd hnothing (by simp)
    · obtain rfl := LeafSample.struct.inj hknown
      have hfor : LeafSample.fieldsFor (.struct known') (Struct.names fields) = .ok known' :=
        LeafSample.fieldsFor_struct fun key => hkeys ▸ Iff.rfl
      refine ⟨known', hfor, .inr hkeys, fun f hf => ?_⟩
      have hname : f.name ∈ Struct.names fields := List.mem_map_of_mem hf
      obtain ⟨T, hT⟩ := Entries.mem_keys_iff.mp ((hsame f.name).mpr hname)
      obtain ⟨T', hT'⟩ := Entries.mem_keys_iff.mp (hkeys ▸ hname)
      rw [hT, hT']
      exact hall f hf T T' hT hT'

/-- A record is made a mapping of the names, and the values of its fields go in step. -/
theorem Value.resurveyed_record {fields : List Field} {entries : List (String × Value)}
    {ws : List Value} (hdistinct : (Entries.keys entries).Nodup)
    (hnames : (Struct.names fields).Nodup) (hlength : ws.length = (Struct.names fields).length)
    (hsame : ∀ key, key ∈ Entries.keys entries ↔ key ∈ Struct.names fields)
    (h : ∀ f ∈ fields, ∃ v w, (f.name, v) ∈ entries ∧ (f.name, w) ∈ (Struct.names fields).zip ws ∧
      Resurveyed f.type.leaf 0 v w) :
    Resurveyed (.struct fields) depth (.dict entries) (.dict ((Struct.names fields).zip ws)) := by
  intro partly S S' S₁ hS hok
  have hkeys : Entries.keys ((Struct.names fields).zip ws) = Struct.names fields :=
    Entries.keys_zip hlength
  rw [survey_dict] at hok ⊢
  obtain ⟨S₀, henter, hok⟩ := bind_eq_ok.mp hok
  obtain ⟨shapes, hshapes, hok⟩ := bind_eq_ok.mp hok
  obtain ⟨shapes₁, hfold, rfl⟩ := map_eq_ok.mp hok
  obtain ⟨S₀', henter', hS₀⟩ := hS.enterLeaf henter
  obtain ⟨shapes', hshapes', horder, hbefore⟩ := hS₀.fieldsFor hshapes
  obtain ⟨hsurveyed, -⟩ := get?_of_foldlM hdistinct hfold
  -- each field goes in step, from the shapes that it had before
  have hfields : ∀ f ∈ fields, ∃ w T T', (f.name, w) ∈ (Struct.names fields).zip ws ∧
      Entries.get? shapes₁ f.name = some T ∧
      (survey .everything 0 false ((Entries.get? shapes' f.name).getD .empty) w).2 = .ok T' ∧
      T.Resampled f.type.leaf T' := by
    intro f hf
    obtain ⟨v, w, hv, hw, hvw⟩ := h f hf
    obtain ⟨T, hT, hget⟩ := hsurveyed (f.name, v) hv
    obtain ⟨T', hT', hTT'⟩ := hvw false _ _ T (hbefore f hf) hT
    exact ⟨w, T, T', hw, hget, hT', hTT'⟩
  have hdistinct' : (Entries.keys ((Struct.names fields).zip ws)).Nodup := by
    rw [hkeys]
    exact hnames
  obtain ⟨shapes₁', hfold'⟩ := @exists_foldlM_addField _ hdistinct' shapes' fun e he => by
    have hname : e.1 ∈ Struct.names fields := hkeys ▸ List.mem_map_of_mem he
    obtain ⟨f, hf, hfe⟩ := List.mem_map.mp hname
    obtain ⟨w, T, T', hw, -, hT', -⟩ := hfields f hf
    rw [hfe] at hw hT'
    have hwe : w = e.2 := Option.some.inj
      ((Entries.get?_of_mem hdistinct' hw).symm.trans (Entries.get?_of_mem hdistinct' he))
    exact ⟨T', hwe ▸ hT'⟩
  obtain ⟨hsurveyed', -⟩ := get?_of_foldlM hdistinct' hfold'
  refine ⟨{ S₀' with leaf := .struct shapes₁' }, ?_, hS₀.withRecords ?_ ?_ ?_⟩
  · exact bind_eq_ok.mpr ⟨S₀', henter', bind_eq_ok.mpr
      ⟨shapes', hkeys.symm ▸ hshapes', map_eq_ok.mpr ⟨shapes₁', hfold', rfl⟩⟩⟩
  · intro key
    rw [← hsame, keys_of_foldlM hdistinct hfold]
    rcases LeafSample.fieldsFor_eq_ok hshapes with ⟨-, rfl⟩ | ⟨-, hknown⟩
    · simp [Entries.keys]
    · simp only [List.mem_append, List.mem_filter, ← hknown]
      simp
  · rw [keys_of_foldlM hdistinct' hfold', hkeys]
    rcases horder with rfl | horder
    · simp [Entries.keys]
    · simp [horder]
  · intro f hf T T' hT hT'
    obtain ⟨w, U, U', hw, hU, hU', hUU'⟩ := hfields f hf
    obtain ⟨V', hV', hget'⟩ := hsurveyed' (f.name, w) hw
    obtain rfl : U = T := Option.some.inj (hU.symm.trans hT)
    obtain rfl : V' = T' := Option.some.inj (hget'.symm.trans hT')
    obtain rfl : U' = V' := Except.ok.inj (hU'.symm.trans hV')
    exact hUU'

end Steps

/-! ## A whole value -/

section Covered

variable {config : Config}

/-- The values of fields by name, and what they are coerced to. -/
theorem Struct.exists_of_coerce {entries : List (String × Value)} {fields : List Field} :
    ∀ {values ws : List Value}, (Struct.names fields).mapM (Entries.get? entries) = some values →
      coerce fields values = some ws →
      ∀ f ∈ fields, ∃ v w, (f.name, v) ∈ entries ∧ (f.name, w) ∈ (Struct.names fields).zip ws ∧
        f.type.coerce v = some w := by
  induction fields with
  | nil => exact fun _ _ _ hf => absurd hf List.not_mem_nil
  | cons g rest ih =>
    intro values ws hvalues hws
    obtain ⟨v, vs, hv, hvs, rfl⟩ := mapM_cons_eq_some.mp hvalues
    rw [coerce_cons] at hws
    obtain ⟨w, hw, hws⟩ := Option.bind_eq_some_iff.mp hws
    obtain ⟨ws', hws', rfl⟩ := Option.map_eq_some_iff.mp hws
    refine List.forall_mem_cons.mpr ⟨⟨v, w, Entries.mem_of_get? hv, List.mem_cons_self, hw⟩, ?_⟩
    intro f hf
    obtain ⟨v', w', hv', hw', hcoerce⟩ := ih hvs hws' f hf
    exact ⟨v', w', hv', List.mem_cons_of_mem _ hw', hcoerce⟩

/-- What is met in fields by name is met in one of them. -/
theorem Struct.exists_of_meet {here : ArrayType → Nat → Value → Prop}
    {entries : List (String × Value)} {fields : List Field} :
    ∀ {values : List Value} {free : Nat},
      (Struct.names fields).mapM (Entries.get? entries) = some values →
      Meet here fields free values →
      ∃ f ∈ fields, ∃ v free', (f.name, v) ∈ entries ∧ f.type.Meets here free' v := by
  induction fields with
  | nil => exact fun _ hmeet => hmeet.elim
  | cons g rest ih =>
    intro values free hvalues hmeet
    obtain ⟨v, vs, hv, hvs, rfl⟩ := mapM_cons_eq_some.mp hvalues
    rcases Struct.meet_cons.mp hmeet with hmeet | hmeet
    · exact ⟨g, List.mem_cons_self, v, free, Entries.mem_of_get? hv, hmeet⟩
    · obtain ⟨f, hf, hmet⟩ := ih hvs hmeet
      exact ⟨f, List.mem_cons_of_mem _ hf, hmet⟩

/-- At a struct that was inferred no name comes twice, and no mapping stands anywhere else. -/
theorem not_meetsRepeat_of_covers {F : Shape} {depth : Nat} {v : Value} (hv : F.Covers depth v) :
    ∀ {t : ArrayType} {free : Nat}, F.Consistent → F.infer config = .ok t →
      ¬(t.inner depth).MeetsRepeat free v := by
  induction hv with
  | @items F depth v xs hxs hsaw _ ih =>
    intro t free hF ht hmeets
    obtain ⟨l, hl, -⟩ := hsaw
    rw [Shape.inner_of_level hF ht hl] at hmeets
    rcases ArrayType.meets_cons.mp hmeets with ⟨fields, hstruct, -⟩ | ⟨xs', hxs', x, hx, hmeets⟩
    · exact absurd hstruct (by simp)
    · obtain rfl := Option.some.inj (hxs.symm.trans hxs')
      exact ih x hx hF ht hmeets
  | @atom F depth a hdepth hleaf =>
    intro t free hF ht hmeets
    have hsampled : Sampled config t.leaf a := ⟨F.leaf, (Shape.type_of_infer hF ht).2, hleaf⟩
    rw [Shape.inner_of_leaf hF ht hdepth] at hmeets
    cases hl : t.leaf with
    | struct fields => exact absurd (hl ▸ hsampled) not_sampled_struct
    | scalar k | string s =>
      rw [hl] at hmeets
      obtain ⟨fields, hstruct, -⟩ := hmeets
      exact absurd hstruct (by simp)
  | @record F depth entries shapes hdepth hleaf _ _ ih =>
    intro t free hF ht hmeets
    have hinferred := (Shape.type_of_infer hF ht).2
    rw [hleaf] at hinferred
    obtain ⟨fields, hl, hfields, hnames, hnodup⟩ := fields_of_inferLeaf hinferred
    rw [Shape.inner_of_leaf hF ht hdepth, hl] at hmeets
    rcases hmeets with ⟨fields', hstruct, hrepeat⟩ | ⟨values, hvalues, hmeets⟩
    · cases hstruct
      exact hrepeat hnodup
    · obtain ⟨f, hf, v, free', hv, hmeets⟩ :=
        Struct.exists_of_meet (Value.record?_dict_eq_some_iff.mp hvalues).2 hmeets
      obtain ⟨S, hS, hinfer⟩ := Shape.exists_of_inferFields hfields f hf
      have hshape : Entries.get? shapes f.name = some S := Entries.get?_of_mem (hnames ▸ hnodup) hS
      have hmeets' : (f.type.inner 0).MeetsRepeat free' v := by
        rw [Shape.inner_zero]
        exact hmeets
      exact ih (f.name, v) hv S hshape (hF.field hleaf hshape) hinfer hmeets'

/-- **A value that a shape covers and what the type inferred from the shape makes of it** are surveyed
in step. -/
theorem resurveyed_of_covers {F : Shape} {depth : Nat} {v : Value} (hv : F.Covers depth v) :
    ∀ {t : ArrayType} {w : Value}, F.Consistent → F.infer config = .ok t → v.NoIterators →
      v.DistinctKeys → (t.inner depth).coerce v = some w → Value.Resurveyed t.leaf depth v w := by
  induction hv with
  | @items F depth v xs hxs hsaw _ ih =>
    intro t w hF ht hlists hdistinct hw
    obtain ⟨l, hl, -⟩ := hsaw
    rw [Shape.inner_of_level hF ht hl, ArrayType.coerce_cons, hxs] at hw
    obtain ⟨ws, hws, rfl⟩ := Option.map_eq_some_iff.mp hw
    refine Value.resurveyed_items hlists.isIterator hxs (forall₂_of_mapM (fun x hx y hy => ?_) hws)
    exact ih x hx hF ht (hlists.element hxs x hx)
      ((Value.distinctKeys_iff_of_items? hxs).mp hdistinct x hx) hy
  | @atom F depth a hdepth hleaf =>
    intro t w hF ht _ _ hw
    have hsampled : Sampled config t.leaf a := ⟨F.leaf, (Shape.type_of_infer hF ht).2, hleaf⟩
    rw [Shape.inner_of_leaf hF ht hdepth] at hw
    cases hl : t.leaf with
    | struct fields => exact absurd (hl ▸ hsampled) not_sampled_struct
    | scalar k | string s =>
      rw [hl] at hw hsampled
      obtain ⟨b, hb, rfl⟩ := Option.map_eq_some_iff.mp hw
      exact Value.resurveyed_atom hsampled hb
  | @record F depth entries shapes hdepth hleaf hkeys _ ih =>
    intro t w hF ht hlists hdistinct hw
    have hinferred := (Shape.type_of_infer hF ht).2
    rw [hleaf] at hinferred
    obtain ⟨fields, hl, hfields, hnames, hnodup⟩ := fields_of_inferLeaf hinferred
    obtain ⟨hentries, hbelow⟩ := Value.distinctKeys_dict_iff.mp hdistinct
    rw [Shape.inner_of_leaf hF ht hdepth, hl] at hw
    obtain ⟨values, hvalues, hmapped⟩ := Option.bind_eq_some_iff.mp hw
    obtain ⟨ws, hws, rfl⟩ := Option.map_eq_some_iff.mp hmapped
    have hlength : ws.length = (Struct.names fields).length := by
      rw [Struct.length_coerce hws, Struct.names, List.length_map]
    rw [hl]
    refine Value.resurveyed_record hentries hnodup hlength (fun key => ?_) fun f hf => ?_
    · rw [hkeys, hnames]
    · obtain ⟨v, w, hv, hw, hcoerce⟩ := Struct.exists_of_coerce
        (Value.record?_dict_eq_some_iff.mp hvalues).2 hws f hf
      obtain ⟨S, hS, hinfer⟩ := Shape.exists_of_inferFields hfields f hf
      have hshape : Entries.get? shapes f.name = some S := Entries.get?_of_mem (hnames ▸ hnodup) hS
      refine ⟨v, w, hv, hw, ?_⟩
      exact ih (f.name, v) hv S hshape (hF.field hleaf hshape) hinfer (hlists.entry _ hv)
        (hbelow _ hv) (by rw [Shape.inner_zero]; exact hcoerce)

end Covered

/-! ## The type inferred -/

section Infer

variable {config : Config}

/-- Types inferred one by one for the fields make the struct. -/
theorem Shape.inferFields_of_forall {shapes : List (String × Shape)} :
    ∀ {fields : List Field}, Entries.keys shapes = Struct.names fields →
      (Struct.names fields).Nodup →
      (∀ f ∈ fields, ∀ S, (f.name, S) ∈ shapes → S.infer config = .ok f.type) →
      inferFields config shapes = .ok fields := by
  induction shapes with
  | nil =>
    intro fields hkeys _ _
    obtain rfl : fields = [] := List.map_eq_nil_iff.mp hkeys.symm
    rfl
  | cons e rest ih =>
    obtain ⟨key, S⟩ := e
    intro fields hkeys hnodup hall
    cases fields with
    | nil => exact absurd hkeys (by simp [Entries.keys, Struct.names])
    | cons f fields =>
      obtain ⟨rfl, hothers⟩ : key = f.name ∧ Entries.keys rest = Struct.names fields :=
        List.cons.inj hkeys
      obtain ⟨hf, hfields⟩ := List.forall_mem_cons.mp hall
      have hrest := ih hothers (List.nodup_cons.mp hnodup).2 fun g hg S' hS' =>
        hfields g hg S' (List.mem_cons_of_mem _ hS')
      rw [inferFields, hf S List.mem_cons_self, hrest]
      cases f
      rfl

/-- **From shapes in correspondence the same type is inferred.** -/
theorem Shape.Resampled.infer {leaf : LeafType} {S S' : Shape} (h : S.Resampled leaf S') :
    ∀ {t : ArrayType}, t.leaf = leaf → S.infer config = .ok t → S'.infer config = .ok t := by
  have hinfer : ∀ {levels leafDepth s t}, Shape.infer config ⟨levels, leafDepth, s⟩ = .ok t ↔
      ∃ l, inferLeaf config s = .ok l ∧ ⟨dimensions ⟨levels, leafDepth, .nothing⟩, l⟩ = t :=
    fun {_ _ _ _} => map_eq_ok
  induction h with
  | leaves h =>
    rintro t rfl hS
    obtain ⟨l, hl, rfl⟩ := hinfer.mp hS
    exact hinfer.mpr ⟨l, h.inferLeaf hl, rfl⟩
  | @records fields levels leafDepth shapes shapes' hsame hkeys _ ih =>
    intro t hleaf hS
    obtain ⟨l, hl, rfl⟩ := hinfer.mp hS
    obtain rfl : l = .struct fields := hleaf
    obtain ⟨fields', hstruct, hfields, hnames, hnodup⟩ := fields_of_inferLeaf hl
    obtain rfl := LeafType.struct.inj hstruct
    have hfields' : inferFields config shapes' = .ok fields := by
      refine inferFields_of_forall hkeys hnodup fun f hf T' hT' => ?_
      obtain ⟨T, hT, htype⟩ := exists_of_inferFields hfields f hf
      exact ih f hf T T' (Entries.get?_of_mem (hnames ▸ hnodup) hT)
        (Entries.get?_of_mem (hkeys ▸ hnodup) hT') rfl htype
    refine hinfer.mpr ⟨.struct fields, ?_, rfl⟩
    rw [inferLeaf, hfields']
    rw [inferLeaf, hfields] at hl
    exact hl

end Infer

end Ragged
