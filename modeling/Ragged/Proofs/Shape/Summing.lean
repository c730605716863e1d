import Ragged.Proofs.Shape.Resampling
import Ragged.Proofs.Shape.Summary

/-!
# A survey finds the summary

The summary of a value is said by its layers, all of them at once. A survey comes to the values one by
one and keeps a shape of what it has come to so far. What it keeps true is that

> the shape sums up the layers so far, and where the survey stops with an error, no layers that have
> these values agree (`Layers.Found`).

Each step is one lemma: a container comes in, a scalar does, a mapping does, and each of them can be
refused. The order in which they come is lost with the layers, and with it the different tests by which
a leaf is refused below containers and a container among leaves.
-/

set_option autoImplicit false

namespace Ragged

/-- The outcome is a shape that sums up the layers, or they do not agree. -/
def Layers.Found (L : Layers) : Except BuildError Shape → Prop
  | .ok S => S.Sums L
  | .error _ => ¬L.Agree

/-! ## What a shape tells of leaves -/

namespace Shape.Sums

variable {L : Layers} {S S' : Shape} {depth : Nat} {v : Value}

theorem empty : Shape.empty.Sums (.of []) := by
  have hnone : ∀ k, ∀ v : Value, v ∉ Layers.of [] k := by
    intro k v
    rw [Layers.of, Layers.below_nil]
    exact List.not_mem_nil
  refine .bare ⟨fun k => ?_, fun k l hl => absurd hl (by simp)⟩ fun k v hv => absurd hv (hnone k v)
  refine iff_of_false (Nat.not_lt_zero k) ?_
  rintro ⟨v, hv, -⟩
  exact hnone k v hv

/-- Leaves are right below the last level, or there is none. -/
theorem leavesAt (h : S.Sums L) : L.LeavesAt S.levels.length := by
  cases h with
  | bare hlevels hbare =>
    exact ⟨fun k v hv hleaf => absurd hleaf (hbare k v hv),
      fun k v hv hne => (hlevels.depths k).mpr ⟨v, hv, hne⟩⟩
  | scalars _ hdepth hleaves | records _ hdepth hleaves => exact hdepth ▸ hleaves

/-- What is right below the last level is scalars, if anything, or mappings. -/
theorem cases_leaf (h : S.Sums L) :
    ((∀ v ∈ L S.levels.length, ∃ a, v = .atom a) ∧
      S.leaf.Sums {a | .atom a ∈ L S.levels.length}) ∨
    ∃ fields first, S.leaf = .struct fields ∧
      (L S.levels.length).head? = some (.dict first) ∧
      Entries.keys fields = Entries.keys first ∧
      (∀ v ∈ L S.levels.length, ∃ entries, v = .dict entries ∧
        ∀ key, key ∈ Entries.keys entries ↔ key ∈ Entries.keys first) ∧
      ∀ key S', Entries.get? fields key = some S' →
        S'.Sums (.of (Layers.column key (L S.levels.length))) := by
  cases h with
  | @bare _ levels hlevels hbare =>
    have hnone : ∀ v, v ∉ L levels.length := by
      intro v hv
      have hlt := (hlevels.depths levels.length).mpr ⟨v, hv, hbare _ v hv⟩
      exact absurd hlt (Nat.lt_irrefl _)
    refine .inl ⟨fun v hv => absurd hv (hnone v), ?_⟩
    exact Set.eq_empty_iff_forall_notMem.mpr fun a => hnone (.atom a)
  | scalars _ hdepth _ _ hall hsample =>
    subst hdepth
    exact .inl ⟨hall, hsample⟩
  | records _ hdepth _ hfirst hkeys hall hfields =>
    subst hdepth
    exact .inr ⟨_, _, rfl, hfirst, hkeys, hall, hfields⟩

/-! ## Containers -/

/-- **A container comes in.** -/
theorem enterContainer {xs : List Value} (h : S.Sums L) (hdepth : depth ≤ S.levels.length)
    (hxs : v.items? = some xs)
    (hok : S.enterContainer depth (Value.noteContainer v.isIterator xs.length false) = .ok S') :
    S'.Sums (L.note depth v) := by
  obtain ⟨hleaf, rfl⟩ := enterContainer_eq_ok hok
  have hne : v.items? ≠ none := by simp [hxs]
  have hlevels := h.levels.note hdepth hxs
  -- where there are leaves, the container is above them, and their depth stays the last
  have habove : ∀ d, S.leafDepth = some d → d = S.levels.length → depth < d := by
    intro d hd hlast
    have hdiff : d ≠ depth := fun heq => hleaf (heq ▸ hd)
    omega
  have hlast : ∀ d, d = S.levels.length → depth < d → d =
      (updateLevel (Value.noteContainer v.isIterator xs.length false) depth S.levels).length := by
    intro d hd hlt
    rw [length_updateLevel]
    omega
  cases h with
  | bare _ hbare =>
    refine .bare hlevels fun k w hw => ?_
    rcases Layers.mem_note.mp hw with hw | ⟨-, rfl⟩
    · exact hbare k w hw
    · exact hne
  | scalars _ hd hleaves hsome hall hsample =>
    have hlt := habove _ rfl hd
    have hsame := L.note_of_ne (v := v) (Nat.ne_of_gt hlt)
    exact .scalars hlevels (hlast _ hd hlt) (hleaves.note hne hlt) (hsame ▸ hsome) (hsame ▸ hall)
      (hsame ▸ hsample)
  | records _ hd hleaves hfirst hkeys hall hfields =>
    have hlt := habove _ rfl hd
    have hsame := L.note_of_ne (v := v) (Nat.ne_of_gt hlt)
    exact .records hlevels (hlast _ hd hlt) (hleaves.note hne hlt) (hsame ▸ hfirst) hkeys
      (hsame ▸ hall) (hsame ▸ hfields)

/-- It is refused only among leaves. -/
theorem not_agree_of_enterContainer {f : Level → Level} {e : BuildError} (h : S.Sums L)
    (hne : v.items? ≠ none) (herr : S.enterContainer depth f = .error e) :
    ¬(L.note depth v).Agree := by
  intro hagree
  simp only [Shape.enterContainer] at herr
  split at herr
  · rename_i hleaf
    obtain ⟨-, w, hw, hnone⟩ := h.exists_leaf hleaf
    have hleaves := hagree.leavesAt (Layers.mem_note.mpr (.inl hw)) hnone
    exact absurd (hleaves.containers depth v (Layers.mem_note.mpr (.inr ⟨rfl, rfl⟩)) hne)
      (Nat.lt_irrefl depth)
  · exact absurd herr (by simp)

/-! ## Leaves -/

/-- A leaf is refused only among containers or where leaves are elsewhere. -/
theorem not_agree_of_enterLeaf {e : BuildError} (h : S.Sums L) (hv : v.items? = none)
    (herr : S.enterLeaf depth = .error e) : ¬(L.note depth v).Agree := by
  intro hagree
  have hleaves := hagree.leavesAt (Layers.mem_note.mpr (.inr ⟨rfl, rfl⟩)) hv
  have hhere : ¬depth < S.levels.length := by
    intro hlt
    obtain ⟨w, hw, hne⟩ := (h.levels.depths depth).mp hlt
    exact absurd (hleaves.containers depth w (Layers.mem_note.mpr (.inl hw)) hne)
      (Nat.lt_irrefl depth)
  simp only [Shape.enterLeaf, if_neg hhere] at herr
  split at herr
  · rename_i d hd
    obtain ⟨-, w, hw, hnone⟩ := h.exists_leaf hd
    rw [if_pos (hleaves.leaves d w (Layers.mem_note.mpr (.inl hw)) hnone)] at herr
    exact absurd herr (by simp)
  · exact absurd herr (by simp)

/-- **A scalar comes in.** -/
theorem join {a : Atom} {leaf : LeafSample} (h : S.Sums L) (hdepth : depth = S.levels.length)
    (hjoin : S.leaf.join a = .ok leaf) :
    Sums (L.note depth (.atom a)) ⟨S.levels, some depth, leaf⟩ := by
  subst hdepth
  rcases h.cases_leaf with ⟨hall, hsample⟩ | ⟨fields, first, hleaf, -⟩
  · have hself := L.note_self S.levels.length (.atom a)
    refine .scalars (h.levels.note_leaf rfl) rfl (h.leavesAt.note_leaf rfl) ?_ ?_ ?_
    · rw [hself]
      exact List.append_ne_nil_of_right_ne_nil _ (List.cons_ne_nil _ _)
    · intro v hv
      rcases Layers.mem_note.mp hv with hv | ⟨-, rfl⟩
      · exact hall v hv
      · exact ⟨a, rfl⟩
    · have hatoms : {b | Value.atom b ∈ L.note S.levels.length (.atom a) S.levels.length} =
          insert a {b | Value.atom b ∈ L S.levels.length} := by
        ext b
        simp [hself, or_comm]
      exact hatoms ▸ hsample.join hjoin
  · exact absurd hleaf (LeafSample.ne_struct_of_join hjoin fields).1

/-- It is refused only among others than scalars of its kind. -/
theorem not_agree_of_join {a : Atom} {e : BuildError} (h : S.Sums L)
    (hdepth : depth = S.levels.length) (herr : S.leaf.join a = .error e) :
    ¬(L.note depth (.atom a)).Agree := by
  intro hagree
  subst hdepth
  have ha : Value.atom a ∈ L.note S.levels.length (.atom a) S.levels.length :=
    Layers.mem_note.mpr (.inr ⟨rfl, rfl⟩)
  have hother := fun w hw => hagree.of_atom ha (Layers.mem_note.mpr (.inl hw) : w ∈ _)
  rcases h.cases_leaf with ⟨-, hsample⟩ | ⟨fields, first, -, hfirst, -⟩
  · obtain ⟨b, hb, hne⟩ := hsample.exists_of_join_error herr
    obtain ⟨b', heq, hsame⟩ := hother _ hb
    obtain rfl := Value.atom.inj heq
    exact hne hsame
  · obtain ⟨b, heq, -⟩ := hother _ (List.mem_of_head? hfirst)
    exact absurd heq (by simp)

/-! ## Mappings -/

section Mappings

variable {entries : List (String × Value)} {fields fields' : List (String × Shape)}

/-- What a mapping goes in with sums up what is under its keys so far. -/
theorem fieldsFor {keys : List String} (h : S.Sums L) (hfor : S.leaf.fieldsFor keys = .ok fields) :
    (fields = [] ∧ L S.levels.length = [] ∨
      ∃ first, (L S.levels.length).head? = some (.dict first) ∧
        Entries.keys fields = Entries.keys first ∧
        (∀ key, key ∈ keys ↔ key ∈ Entries.keys fields) ∧
        ∀ v ∈ L S.levels.length, ∃ entries, v = .dict entries ∧
          ∀ key, key ∈ Entries.keys entries ↔ key ∈ Entries.keys first) ∧
      ∀ key ∈ keys, ((Entries.get? fields key).getD .empty).Sums
        (.of (Layers.column key (L S.levels.length))) := by
  rcases h.cases_leaf with ⟨hall, hsample⟩ | ⟨known, first, hleaf, hfirst, hkeys, hall, hfields⟩
  · rcases LeafSample.fieldsFor_eq_ok hfor with ⟨hleaf, rfl⟩ | ⟨hleaf, -⟩
    · have hnil : L S.levels.length = [] := by
        refine List.eq_nil_iff_forall_not_mem.mpr fun v hv => ?_
        obtain ⟨a, rfl⟩ := hall v hv
        have hempty : {a | Value.atom a ∈ L S.levels.length} = ∅ := by rwa [hleaf] at hsample
        exact Set.eq_empty_iff_forall_notMem.mp hempty a hv
      refine ⟨.inl ⟨rfl, hnil⟩, fun key _ => ?_⟩
      rw [hnil]
      exact Sums.empty
    · rw [hleaf] at hsample
      exact hsample.elim
  · rcases LeafSample.fieldsFor_eq_ok hfor with ⟨hnothing, -⟩ | ⟨hleaf', hsame⟩
    · exact absurd (hleaf.symm.trans hnothing) (by simp)
    · obtain rfl := LeafSample.struct.inj (hleaf.symm.trans hleaf')
      refine ⟨.inr ⟨first, hfirst, hkeys, hsame, hall⟩, fun key hkey => ?_⟩
      obtain ⟨shape, hshape⟩ := Entries.mem_keys_iff.mp ((hsame key).mp hkey)
      rw [hshape]
      exact hfields key shape hshape

/-- **A mapping comes in**, after its values came in below the keys. -/
theorem record (h : S.Sums L) (hdepth : depth = S.levels.length)
    (hnodup : (Entries.keys entries).Nodup)
    (hfor : S.leaf.fieldsFor (Entries.keys entries) = .ok fields)
    (hfold : entries.foldlM Value.addField fields = .ok fields')
    (hfields : ∀ key ∈ Entries.keys entries, ∀ shape, Entries.get? fields' key = some shape →
      shape.Sums (.of (Layers.column key (L depth ++ [.dict entries])))) :
    Sums (L.note depth (.dict entries)) ⟨S.levels, some depth, .struct fields'⟩ := by
  subst hdepth
  have hself := L.note_self S.levels.length (.dict entries)
  have hkeys' := Value.keys_of_foldlM hnodup hfold
  have hlevels : (L.note S.levels.length (.dict entries)).Levels S.levels := h.levels.note_leaf rfl
  have hleaves : (L.note S.levels.length (.dict entries)).LeavesAt S.levels.length :=
    h.leavesAt.note_leaf rfl
  rw [← hself] at hfields
  rcases (h.fieldsFor hfor).1 with ⟨rfl, hnil⟩ | ⟨first, hfirst, hkeys, hsame, hall⟩
  · -- the first of all
    have hkeys : Entries.keys fields' = Entries.keys entries := by simpa [Entries.keys] using hkeys'
    rw [hnil, List.nil_append] at hself
    refine .records hlevels rfl hleaves (hself ▸ rfl) hkeys (fun v hv => ?_) fun key shape hshape => ?_
    · rw [hself] at hv
      exact ⟨entries, List.mem_singleton.mp hv, fun _ => Iff.rfl⟩
    · exact hfields key (hkeys ▸ Entries.mem_keys_iff.mpr ⟨shape, hshape⟩) shape hshape
  · have hkeys' : Entries.keys fields' = Entries.keys fields := by
      rw [hkeys', List.filter_eq_nil_iff.mpr, List.append_nil]
      intro key hkey
      simpa using (hsame key).mp hkey
    have hfirst' : (L.note S.levels.length (.dict entries) S.levels.length).head? =
        some (.dict first) := by
      rw [hself, List.head?_append, hfirst]
      rfl
    refine .records hlevels rfl hleaves hfirst' (hkeys'.trans hkeys) (fun v hv => ?_)
      fun key shape hshape => ?_
    · rcases Layers.mem_note.mp hv with hv | ⟨-, rfl⟩
      · exact hall v hv
      · exact ⟨entries, rfl, fun key => hkeys ▸ hsame key⟩
    · have hmem := Entries.mem_keys_iff.mpr ⟨shape, hshape⟩
      exact hfields key ((hsame key).mpr (hkeys' ▸ hmem)) shape hshape

/-- It is refused only among others than mappings of its keys. -/
theorem not_agree_of_fieldsFor {e : BuildError} (h : S.Sums L) (hdepth : depth = S.levels.length)
    (herr : S.leaf.fieldsFor (Entries.keys entries) = .error e) :
    ¬(L.note depth (.dict entries)).Agree := by
  intro hagree
  subst hdepth
  obtain ⟨hsame, -⟩ := hagree.of_dict (Layers.mem_note.mpr (.inr ⟨rfl, rfl⟩))
  rcases h.cases_leaf with ⟨-, hsample⟩ | ⟨fields, first, hleaf, hfirst, hkeys, -⟩
  · have hne : S.leaf ≠ .nothing := by
      intro hnothing
      exact absurd herr (by simp [hnothing, LeafSample.fieldsFor])
    obtain ⟨a, ha⟩ := hsample.nonempty hne
    obtain ⟨entries', heq, -⟩ := hsame _ (Layers.mem_note.mpr (.inl ha))
    exact absurd heq (by simp)
  · obtain ⟨entries', heq, hnames⟩ := hsame _ (Layers.mem_note.mpr (.inl (List.mem_of_head? hfirst)))
    obtain rfl := Value.dict.inj heq
    have hkeys' : ∀ key, key ∈ Entries.keys entries ↔ key ∈ Entries.keys fields :=
      fun key => by rw [hkeys, hnames]
    rw [hleaf, LeafSample.fieldsFor_struct hkeys'] at herr
    exact absurd herr (by simp)

/-- **All values of a mapping find the summaries of their columns, and so does the mapping.** -/
theorem found_record (h : S.Sums L) (hdepth : depth = S.levels.length)
    (hnodup : (Entries.keys entries).Nodup)
    (hfor : S.leaf.fieldsFor (Entries.keys entries) = .ok fields)
    (hvalues : ∀ e ∈ entries, ∀ (K : Layers) (T : Shape), T.Sums K →
      (K.add 0 [e.2]).Found (Value.survey .everything 0 false T e.2).2) :
    (L.note depth (.dict entries)).Found ((entries.foldlM Value.addField fields).map
      fun fields => ⟨S.levels, some depth, .struct fields⟩) := by
  subst hdepth
  have hfound : ∀ e ∈ entries, Layers.Found
      (.of (Layers.column e.1 (L S.levels.length ++ [.dict entries])))
      (Value.survey .everything 0 false ((Entries.get? fields e.1).getD .empty) e.2).2 := by
    intro e he
    have hget : Value.entry? e.1 (.dict entries) = some e.2 := Entries.get?_of_mem hnodup he
    rw [Layers.column_concat, hget, Option.toList_some, Layers.of_concat]
    exact hvalues e he _ _ ((h.fieldsFor hfor).2 e.1 (List.mem_map_of_mem he))
  cases hfold : entries.foldlM Value.addField fields with
  | ok fields' =>
    refine h.record rfl hnodup hfor hfold fun key hkey shape hshape => ?_
    obtain ⟨e, he, rfl⟩ := List.mem_map.mp hkey
    obtain ⟨T, hT, hget⟩ := (Value.get?_of_foldlM hnodup hfold).1 e he
    obtain rfl := Option.some.inj (hget.symm.trans hshape)
    have hsums := hfound e he
    rwa [hT] at hsums
  | error err =>
    intro hagree
    obtain ⟨-, hcolumns⟩ := hagree.of_dict (Layers.mem_note.mpr (.inr ⟨rfl, rfl⟩))
    rw [Layers.note_self] at hcolumns
    -- each value by itself would go well, so all of them would
    obtain ⟨fields', hok⟩ := Value.exists_foldlM_addField hnodup fun e he => by
      cases hout : (Value.survey .everything 0 false ((Entries.get? fields e.1).getD .empty) e.2).2 with
      | ok T => exact ⟨T, rfl⟩
      | error err' =>
        have hnot := hfound e he
        rw [hout] at hnot
        exact absurd (hcolumns e.1 (List.mem_map_of_mem he)) hnot
    exact absurd (hfold.symm.trans hok) (by simp)

end Mappings

end Shape.Sums

/-! ## Going through a value -/

namespace Value

open Layers

/-- Looking at everything, a survey finds the summary of the layers the value comes into. -/
def Summed (v : Value) : Prop :=
  ∀ (depth : Nat) (L : Layers) (S : Shape), S.Sums L → depth ≤ S.levels.length →
    (L.add depth [v]).Found (survey .everything depth false S v).2

theorem found_foldlM {xs : List Value} (h : ∀ x ∈ xs, x.Summed) {depth : Nat} :
    ∀ {L : Layers} {S : Shape}, S.Sums L → depth ≤ S.levels.length → (L.add depth xs).Found
      (xs.foldlM (fun S x => (survey .everything depth false S x).2) S) := by
  induction xs with
  | nil =>
    intro L S hS _
    rw [add_nil]
    exact hS
  | cons x rest ih =>
    intro L S hS hdepth
    obtain ⟨hx, hrest⟩ := List.forall_mem_cons.mp h
    have hfound := hx depth L S hS hdepth
    rw [List.foldlM_cons, add_cons]
    cases hout : (survey .everything depth false S x).2 with
    | error e =>
      rw [hout] at hfound
      exact fun hagree => hfound (hagree.of_within (within_add _ _ _))
    | ok S' =>
      rw [hout] at hfound
      have hlength := hS.levels.length_le (Shape.Sums.levels hfound) (within_add _ _ _)
      exact ih hrest hfound (Nat.le_trans hdepth hlength)

/-- **A survey that looks at everything finds the summary, if there is one.** -/
theorem summed (v : Value) (hkeys : v.DistinctKeys) : v.Summed := by
  induction v using Value.inductElements with
  | atom a =>
    intro depth L S hS hdepth
    rw [survey_atom, add_leaf rfl]
    cases henter : S.enterLeaf depth with
    | error e => exact hS.not_agree_of_enterLeaf rfl henter
    | ok S₁ =>
      obtain ⟨-, hlast, rfl⟩ := Shape.enterLeaf_eq_ok hdepth henter
      cases hjoin : S.leaf.join a with
      | error e =>
        simp only [Except.bind, hjoin]
        exact hS.not_agree_of_join hlast hjoin
      | ok leaf =>
        simp only [Except.bind, hjoin]
        exact hS.join hlast hjoin
  | dict entries ih =>
    intro depth L S hS hdepth
    obtain ⟨hnodup, hentries⟩ := distinctKeys_dict_iff.mp hkeys
    rw [survey_dict, add_leaf rfl]
    cases henter : S.enterLeaf depth with
    | error e => exact hS.not_agree_of_enterLeaf rfl henter
    | ok S₁ =>
      obtain ⟨-, hlast, rfl⟩ := Shape.enterLeaf_eq_ok hdepth henter
      cases hfor : S.leaf.fieldsFor (Entries.keys entries) with
      | error e =>
        simp only [Except.bind, hfor]
        exact hS.not_agree_of_fieldsFor hlast hfor
      | ok fields =>
        simp only [Except.bind, hfor]
        exact hS.found_record hlast hnodup hfor fun e he K T hT =>
          ih e he (hentries e he) 0 K T hT (Nat.zero_le _)
  | elements v xs hxs ih =>
    intro depth L S hS hdepth
    have hdistinct := (distinctKeys_iff_of_items? hxs).mp hkeys
    rw [survey_of_items? hxs, add_elements hxs]
    cases henter : S.enterContainer depth (noteContainer v.isIterator xs.length false) with
    | error e =>
      have hnot := hS.not_agree_of_enterContainer (v := v) (by simp [hxs]) henter
      exact fun hagree => hnot (hagree.of_within (within_add _ _ _))
    | ok S₁ =>
      have hS₁ := hS.enterContainer hdepth hxs henter
      obtain ⟨-, rfl⟩ := Shape.enterContainer_eq_ok henter
      exact found_foldlM (fun x hx => ih x hx (hdistinct x hx)) hS₁
        (Shape.depth_lt_updateLevel _ _ _)

theorem found_shape (v : Value) (hkeys : v.DistinctKeys) :
    (Layers.of [v]).Found (v.shape .infer).2 := by
  have hsummed := v.summed hkeys 0 (.of []) .empty .empty (Nat.zero_le _)
  rwa [← Layers.of_concat, List.nil_append] at hsummed

theorem sums_of_shape {v : Value} {S : Shape} (hkeys : v.DistinctKeys)
    (hS : (v.shape .infer).2 = .ok S) : S.Sums (.of [v]) := by
  have hfound := v.found_shape hkeys
  rwa [hS] at hfound

end Value

/-- **Looking at everything finds the summary of a value.** There is a shape just if the layers of the
value agree, and then it sums them up. So shuffling the value, at any depth, changes neither whether
there is a shape nor, but for the order of fields, which. -/
theorem shape_infer_sums {v : Value} (hkeys : v.DistinctKeys) :
    ((∃ S, (v.shape .infer).2 = .ok S) ↔ (Layers.of [v]).Agree) ∧
      (∀ S, (v.shape .infer).2 = .ok S → S.Sums (.of [v])) ∧
      ∀ w, v.Shuffled w → w.DistinctKeys →
        ((∃ S, (v.shape .infer).2 = .ok S) ↔ ∃ S, (w.shape .infer).2 = .ok S) ∧
          ∀ S S', (v.shape .infer).2 = .ok S → (w.shape .infer).2 = .ok S' → S.Reordered S' := by
  have hiff : ∀ u : Value, u.DistinctKeys →
      ((∃ S, (u.shape .infer).2 = .ok S) ↔ (Layers.of [u]).Agree) := by
    intro u hu
    have hfound := u.found_shape hu
    cases hshape : (u.shape .infer).2 with
    | ok S =>
      rw [hshape] at hfound
      exact iff_of_true ⟨S, rfl⟩ (Shape.Sums.agree hfound)
    | error e =>
      rw [hshape] at hfound
      refine iff_of_false ?_ hfound
      rintro ⟨S, hS⟩
      exact absurd hS (by simp)
  refine ⟨hiff v hkeys, fun S hS => Value.sums_of_shape hkeys hS, fun w hw hkeys' => ⟨?_, ?_⟩⟩
  · rw [hiff v hkeys, hiff w hkeys']
    exact ⟨fun h => h.of_within hw.symm.within, fun h => h.of_within hw.within⟩
  · intro S S' hS hS'
    exact (Value.sums_of_shape hkeys hS).reordered (Value.sums_of_shape hkeys' hS') hw.within
      hw.symm.within

/-- Two records, in the rows of which there is a list of no length and one of two, and a source in
place of a list; and the same the other way round, with the rows and the keys of one record swapped. -/
theorem shape_infer_sums_records :
    ∃ v w, v = Value.list [
        .dict [("n", .ofInt 1), ("rows", .list [.list [], .tuple [.ofBool true, .ofInt 2]])],
        .dict [("n", .ofBool false), ("rows", .iter (.ofSupply 0 (.ofList [.list []])))]] ∧
      w = Value.list [
        .dict [("n", .ofBool false), ("rows", .iter (.ofSupply 0 (.ofList [.list []])))],
        .dict [("rows", .list [.tuple [.ofBool true, .ofInt 2], .list []]), ("n", .ofInt 1)]] ∧
      v.DistinctKeys ∧ w.DistinctKeys ∧ v.Shuffled w ∧ (Layers.of [v]).Agree ∧
      ∃ S S', (v.shape .infer).2 = .ok S ∧ (w.shape .infer).2 = .ok S' ∧ S.Sums (.of [v]) ∧
        S'.Sums (.of [w]) ∧ S.Reordered S' := by
  let pair := Value.tuple [.ofBool true, .ofInt 2]
  let source := Value.iter (.ofSupply 0 (.ofList [.list []]))
  let first := Value.dict [("n", .ofInt 1), ("rows", .list [.list [], pair])]
  let first' := Value.dict [("rows", .list [pair, .list []]), ("n", .ofInt 1)]
  let second := Value.dict [("n", .ofBool false), ("rows", source)]
  let v := Value.list [first, second]
  let w := Value.list [second, first']
  have hv : v.DistinctKeys := by simp [v, first, second, pair, source, Entries.keys]
  have hw : w.DistinctKeys := by simp [w, first', second, pair, source, Entries.keys]
  have hshuffled : v.Shuffled w := by
    have hlists : (Value.list [.list [], pair]).Shuffled (.list [pair, .list []]) :=
      .elements rfl rfl rfl (.cons (.refl _) (.cons (.refl _) .nil)) (.swap _ _ _)
    have hfirst : first.Shuffled first' := by
      refine .dict (fun key => by simp [Entries.keys, or_comm]) fun key x y hx hy => ?_
      have hx := Entries.mem_of_get? hx
      have hy := Entries.mem_of_get? hy
      simp only [List.mem_cons, List.not_mem_nil, or_false, Prod.mk.injEq] at hx hy
      rcases hx with ⟨rfl, rfl⟩ | ⟨rfl, rfl⟩
      · obtain rfl : y = .ofInt 1 := by simpa using hy
        exact .refl _
      · obtain rfl : y = .list [pair, .list []] := by simpa using hy
        exact hlists
    exact .elements rfl rfl rfl (.cons hfirst (.cons (.refl _) .nil)) (.swap _ _ _)
  have hfound : (v.shape .infer).2.map (·.levels.length) = .ok 1 := by
    rfl
  obtain ⟨S, hS, -⟩ := map_eq_ok.mp hfound
  obtain ⟨hagree, hsums, hshuffles⟩ := shape_infer_sums hv
  obtain ⟨hboth, hreordered⟩ := hshuffles w hshuffled hw
  obtain ⟨S', hS'⟩ := hboth.mp ⟨S, hS⟩
  exact ⟨v, w, rfl, rfl, hv, hw, hshuffled, hagree.mp ⟨S, hS⟩, S, S', hS, hS', hsums S hS,
    (shape_infer_sums hw).2.1 S' hS', hreordered S S' hS hS'⟩

end Ragged
