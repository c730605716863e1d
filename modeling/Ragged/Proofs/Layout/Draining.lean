import Ragged.Proofs.Except
import Ragged.Proofs.Layout.Arrays
import Ragged.Proofs.Layout.Passes
import Ragged.Proofs.Type.Draining
import Ragged.Proofs.Value.Contained

/-!
# What writing asks of lazy sources

Every way to write a value attends to it: what it does is a run, what has become of the value is told
by the type (`ArrayType.Draws`), and if all went well the value is finished.

> If writing one element attends to it, so does writing elements one after the other, as many as a
> dimension wants or as a row takes.

That goes on from elements to dimensions and from fields to records, and by induction on the type to
the whole value. Of the block only its form matters: the block of a struct has one block for each
field, or else some field would be left out without an error.
-/

set_option autoImplicit false

namespace Ragged

/-! ## The form of blocks -/

mutual

/-- The block has the form that is allocated for the layout: one block for each field, where the
fields are not in rows. -/
def Layout.Shaped : Layout → Block → Prop
  | ⟨dims, leaf⟩, b => dims.any LayoutDim.isVar = true ∨ leaf.Shaped b

def LayoutLeaf.Shaped : LayoutLeaf → Block → Prop
  | .element _ _, _ => True
  | .struct _ layouts, b => ∃ blocks, b = .struct blocks ∧ Layout.ShapedAll layouts blocks

def Layout.ShapedAll : List Layout → List Block → Prop
  | [], [] => True
  | l :: ls, b :: bs => l.Shaped b ∧ Layout.ShapedAll ls bs
  | _, _ => False

end

namespace Layout

theorem shaped_cons {d : LayoutDim} {dims : List LayoutDim} {leaf : LayoutLeaf} {b : Block} :
    Shaped ⟨d :: dims, leaf⟩ b ↔ d.isVar = true ∨ Shaped ⟨dims, leaf⟩ b := by
  rw [Shaped, Shaped, List.any_cons, Bool.or_eq_true, or_assoc]

theorem shaped_allocate_of_leaf {l : Layout}
    (hleaf : ∀ (s : Store) (sizing : Sizing), l.leaf.Shaped (l.leaf.allocate s sizing).2)
    (s : Store) (sizing : Sizing) : l.Shaped (l.allocate s sizing).2 := by
  obtain ⟨dims, leaf⟩ := l
  unfold allocate
  split
  next hvar => exact .inl hvar
  next => exact .inr (hleaf s _)

theorem shaped_allocateAll {layouts : List Layout} (h : ∀ l ∈ layouts, ∀ (s : Store)
      (sizing : Sizing), l.leaf.Shaped (l.leaf.allocate s sizing).2) :
    ∀ (s : Store) (sizing : Sizing), ShapedAll layouts (allocateAll layouts s sizing).2 := by
  induction layouts with
  | nil => exact fun _ _ => trivial
  | cons l ls ih =>
    intro s sizing
    obtain ⟨hl, hls⟩ := List.forall_mem_cons.mp h
    exact ⟨shaped_allocate_of_leaf hl s sizing, ih hls _ sizing⟩

theorem shaped_allocateLeaf (l : Layout) :
    ∀ (s : Store) (sizing : Sizing), l.leaf.Shaped (l.leaf.allocate s sizing).2 := by
  induction l using Layout.induction with
  | element kind leaf => exact fun _ _ => trivial
  | struct type layouts ih => exact fun s sizing => ⟨_, rfl, shaped_allocateAll ih s sizing⟩
  | dim d dims leaf ih => exact ih

/-- A new block has the form of its layout. -/
theorem shaped_allocate (l : Layout) (s : Store) (sizing : Sizing) :
    l.Shaped (l.allocate s sizing).2 :=
  shaped_allocate_of_leaf (shaped_allocateLeaf l) s sizing

/-! ## Attending to a value -/

/-- What was written, and what became of the value on the way: a run that is told by the relation, to
its end if there was no error. The block has kept its form then. -/
structure Attends (rel : Value → Value → Prop) (shaped : Block → Prop) (v : Value)
    (result : Value × Written) : Prop where
  runs : v.Runs result.1
  draws : rel v result.1
  finishes : ∀ {s : Store} {b : Block}, result.2 = .ok (s, b) → v.Finishes result.1 ∧ shaped b

/-- Writing values in this way attends to each of them. -/
def Attending (rel : Value → Value → Prop) (shaped : Block → Prop) (writeOne : WriteOne) : Prop :=
  ∀ (v : Value) (s : Store) (b : Block), v.DistinctKeys → shaped b →
    Attends rel shaped v (writeOne v s b)

namespace Attends

variable {rel rel' : Value → Value → Prop} {shaped shaped' : Block → Prop} {v w : Value}
  {outcome outcome' : Written}

/-- An error before anything was asked. -/
theorem untouched (hrel : rel v v) (e : BuildError) : Attends rel shaped v (v, .error e) :=
  ⟨.refl, hrel, fun h => absurd h (by simp)⟩

/-- The same became of the value, whatever was done with the block. -/
theorem imp (h : Attends rel shaped v (w, outcome)) (hrel : rel v w → rel' v w)
    (hok : ∀ {s : Store} {b : Block}, outcome' = .ok (s, b) →
      ∃ s' b', outcome = .ok (s', b') ∧ (shaped b' → shaped' b)) :
    Attends rel' shaped' v (w, outcome') := by
  refine ⟨h.runs, hrel h.draws, fun {s b} houtcome => ?_⟩
  obtain ⟨s', b', houtcome', hshaped⟩ := hok houtcome
  obtain ⟨hfinishes, hb⟩ := h.finishes houtcome'
  exact ⟨hfinishes, hshaped hb⟩

end Attends

/-! ## Scalars -/

theorem fst_writeElement (leaf : LeafType) (v : Value) (s : Store) (b : Block) :
    (writeElement leaf v s b).1 = v := by
  obtain ⟨arena, extents⟩ := s
  unfold writeElement
  cases b with
  | leaf id =>
    cases v with
    | atom a =>
      cases hstore : leaf.store a with
      | error e => simp only [hstore]
      | ok stored =>
        cases happend : arena.append id stored with
        | mk arena' outcome => cases outcome <;> simp only [hstore, happend]
    | _ => rfl
  | _ => rfl

/-- A scalar is looked at, and nothing is asked where one is wanted. -/
theorem attends_writeElement (leaf : LeafType) (v : Value) (s : Store) (b : Block) :
    Attends (fun v w => w = v) (fun _ => True) v (writeElement leaf v s b) := by
  have hsame := fst_writeElement leaf v s b
  refine ⟨by rw [hsame], hsame, fun {s' b'} h => ⟨?_, trivial⟩⟩
  rw [hsame]
  cases v with
  | atom a => exact .atom a
  | _ =>
    unfold writeElement at h
    cases b <;> exact absurd h (by simp)

/-! ## Elements -/

/-- How a pass over the elements `xs` went: `ys` is what has become of those asked for. -/
structure Went (rel : Value → Value → Prop) (shaped : Block → Prop) (limit : Option Nat)
    (count : Nat) (xs ys : List Value) (pass : Pass) : Prop where
  runs : List.Forall₂ Value.Runs xs (ys ++ pass.rest.toList)
  passed : Value.Passed (List.replicate xs.length rel) xs (ys ++ pass.rest.toList)
  rest : pass.rest.toList = xs.drop ys.length
  atEnd : pass.atEnd = true → pass.rest.toList = []
  limit : ∀ n ∈ limit, count ≤ n → count + ys.length ≤ n + 1
  finished : ∀ {s : Store} {b : Block}, pass.outcome = .ok (s, b) →
    pass.atEnd = true ∧ List.Forall₂ Value.Finishes xs ys ∧ shaped b

section Elements

variable {rel : Value → Value → Prop} {shaped : Block → Prop} {writeOne : WriteOne} {depth : Nat}
  {limit : Option Nat}

/-- **A pass asks for one element after the other**, each finished before the next one is asked for,
and with a limit for no more than one beyond it. Induction on the elements. -/
theorem went_writeItems (hone : Attending rel shaped writeOne) (xs : Supply Value) :
    ∀ (count : Nat) (done : List Value) (s : Store) (b : Block),
      (∀ x ∈ xs.toList, x.DistinctKeys) → shaped b →
        ∃ ys, (writeItems writeOne depth limit count done xs s b).done = done.reverse ++ ys ∧
          Went rel shaped limit count xs.toList ys
            (writeItems writeOne depth limit count done xs s b) := by
  induction xs with
  | nil =>
    intro count done s b _ hb
    refine ⟨[], (List.append_nil _).symm, .nil, .untouched _ _, rfl, fun _ => rfl,
      fun n _ hcount => Nat.le_succ_of_le hcount, fun {s' b'} houtcome => ⟨rfl, .nil, ?_⟩⟩
    have hsame : b = b' := by
      simp only [writeItems] at houtcome
      cases limit with
      | none => exact (Prod.mk.inj (Except.ok.inj houtcome)).2
      | some n =>
        by_cases hlt : count < n
        · simp [hlt] at houtcome
        · simp only [hlt, if_false] at houtcome
          exact (Prod.mk.inj (Except.ok.inj houtcome)).2
    exact hsame ▸ hb
  | cons x rest ih =>
    intro count done s b hkeys hb
    rw [Supply.toList_cons] at hkeys ⊢
    obtain ⟨hx, hrest⟩ := List.forall_mem_cons.mp hkeys
    have hrefl : List.Forall₂ Value.Runs (rest ⟨⟩).toList (rest ⟨⟩).toList :=
      List.forall₂_refl _
    by_cases hlast : limit = some count
    · -- the one beyond the limit is asked for and left as it is
      rw [writeItems, if_pos hlast]
      refine ⟨[x], List.reverse_cons, .cons .refl hrefl, .untouched _ _, rfl,
        fun h => absurd h (by simp), fun n hn _ => ?_, fun h => absurd h (by simp)⟩
      obtain rfl := Option.some.inj (hlast.symm.trans hn)
      exact Nat.le_refl _
    · have hone := hone x s b hx hb
      rw [writeItems, if_neg hlast]
      cases hw : writeOne x s b with
      | mk y outcome =>
        rw [hw] at hone
        cases outcome with
        | error e =>
          refine ⟨[y], List.reverse_cons, .cons hone.runs hrefl, .midst hone.draws, rfl,
            fun h => absurd h (by simp), fun n _ hcount => ?_, fun h => absurd h (by simp)⟩
          exact Nat.succ_le_succ hcount
        | ok sb =>
          obtain ⟨s₁, b₁⟩ := sb
          obtain ⟨hfinishes, hb₁⟩ := hone.finishes rfl
          obtain ⟨ys, hdone, hwent⟩ := ih ⟨⟩ (count + 1) (y :: done) s₁ b₁ hrest hb₁
          refine ⟨y :: ys, ?_, .cons hone.runs hwent.runs,
            .past hone.draws hfinishes hwent.passed, hwent.rest, hwent.atEnd,
            fun n hn hcount => ?_, fun houtcome => ?_⟩
          · rw [hdone, List.reverse_cons, List.append_assoc, List.singleton_append]
          · have hne : count ≠ n := fun heq => hlast (heq ▸ hn)
            have hle := hwent.limit n hn (by omega)
            rw [List.length_cons]
            omega
          · obtain ⟨hatEnd, hall, hb'⟩ := hwent.finished houtcome
            exact ⟨hatEnd, .cons hfinishes hall, hb'⟩

/-- What a pass makes of a source: it has handed out what was asked for, and the rest is left. -/
theorem Went.attends_source {p : Pull Value} {ys : List Value} {pass : Pass}
    (h : Went rel shaped limit 0 p.remaining ys pass) :
    Attends (Value.Opened (limit.map (· + 1))
        fun xs => Value.Passed (List.replicate xs.length rel) xs) shaped (.iter p)
      (.iter (p.handOut ys pass.atEnd), pass.outcome) := by
  -- what was asked for stands in front of what was not
  have hsplit : p.remaining = p.remaining.take ys.length ++ p.remaining.drop ys.length :=
    (List.take_append_drop _ _).symm
  have hlength := h.runs.length_eq
  rw [h.rest, List.length_append, List.length_drop] at hlength
  have hleft : (p.handOut ys pass.atEnd).remaining = pass.rest.toList := by
    rw [h.rest]
    refine Pull.remaining_handOut p ys fun hatEnd => ?_
    have hnil := h.atEnd hatEnd
    rw [h.rest, List.drop_eq_nil_iff] at hnil
    exact hnil
  refine ⟨?runs, ?draws, fun houtcome => ?finishes⟩
  case runs =>
    refine Value.runs_handOut ?_ hsplit fun hatEnd => ?_
    · have hfront := List.forall₂_take ys.length h.runs
      rw [List.take_left] at hfront
      exact hfront
    · rw [← h.rest]
      exact h.atEnd hatEnd
  case draws =>
    refine .iter rfl ?_ h.passed fun n hn => ?_
    · rw [Pull.elements_eq, hleft, ← List.append_assoc]
      rfl
    · obtain ⟨m, hm, rfl⟩ := Option.map_eq_some_iff.mp hn
      have hle := h.limit m hm (Nat.zero_le m)
      show p.pulled + (ys.length - p.replay.length) ≤ p.pulled + (m + 1 - p.replay.length)
      omega
  case finishes =>
    obtain ⟨hatEnd, hall, hb⟩ := h.finished houtcome
    have hall' := hall.length_eq
    rw [Pull.remaining, List.length_append] at hall'
    have hended : (p.handOut ys pass.atEnd).ended = true := by
      simp [Pull.handOut, Pull.ended, hatEnd]
    refine ⟨.iter rfl hended ?_ ?_ hall, hb⟩
    · show p.taken ++ ys ++ p.replay.drop ys.length = p.taken ++ ys
      rw [List.drop_eq_nil_of_le (by omega), List.append_nil]
    · rw [Pull.asked, hended]
      show p.pulled + (ys.length - p.replay.length) + 1 = _
      omega

/-- What a pass makes of the value that has the elements. -/
theorem Went.attends {v : Value} {xs ys : List Value} {pass : Pass} (hxs : v.items? = some xs)
    (h : Went rel shaped limit 0 xs ys pass) :
    Attends (Value.Opened (limit.map (· + 1))
        fun xs => Value.Passed (List.replicate xs.length rel) xs) shaped v
      (v.afterPass ys pass.rest pass.atEnd, pass.outcome) := by
  have hfinished : ∀ {s : Store} {b : Block}, pass.outcome = .ok (s, b) →
      List.Forall₂ Value.Finishes xs (ys ++ pass.rest.toList) := by
    intro s b houtcome
    obtain ⟨hatEnd, hall, -⟩ := h.finished houtcome
    rw [h.atEnd hatEnd, List.append_nil]
    exact hall
  cases v with
  | atom a => exact absurd hxs (by simp [Value.items?])
  | dict entries => exact absurd hxs (by simp [Value.items?])
  | list items =>
    obtain rfl := Option.some.inj hxs
    exact ⟨Value.runs_list h.runs, .list h.passed, fun houtcome =>
      ⟨.list (hfinished houtcome), (h.finished houtcome).2.2⟩⟩
  | tuple items =>
    obtain rfl := Option.some.inj hxs
    exact ⟨Value.runs_tuple h.runs, .tuple h.passed, fun houtcome =>
      ⟨.tuple (hfinished houtcome), (h.finished houtcome).2.2⟩⟩
  | iter p =>
    obtain rfl := Option.some.inj hxs
    exact h.attends_source

end Elements

/-! ## Dimensions -/

section Dims

variable {rel : Value → Value → Prop} {shaped : Block → Prop} {writeOne : WriteOne} {depth : Nat}
  {v : Value} {xs : List Value} {c : Children}

theorem attends_writeRegular (hone : Attending rel shaped writeOne) (hxs : v.items? = some xs)
    (hels : c.elements.toList = xs) (hkeys : v.DistinctKeys) (n : Nat) (s : Store) {b : Block}
    (hb : shaped b) :
    Attends (Value.Opened (some (n + 1))
        fun xs => Value.Passed (List.replicate xs.length rel) xs) shaped v
      (writeRegular writeOne depth n c v s b) := by
  have hx := (Value.distinctKeys_iff_of_items? hxs).mp hkeys
  rw [← hels] at hx
  simp only [writeRegular]
  split
  · exact .untouched (.untouched v) _
  · split
    · exact .untouched (.untouched v) _
    · obtain ⟨ys, hdone, hwent⟩ :=
        @went_writeItems rel shaped writeOne depth (some n) hone c.elements 0 [] s b hx hb
      rw [hels] at hwent
      rw [hdone]
      exact hwent.attends hxs

/-- Rows have blocks of their own, so the form of the block they come to does not matter. -/
theorem attends_writeRow {inner : Layout} (hone : Attending rel inner.Shaped writeOne)
    (hxs : v.items? = some xs) (hels : c.elements.toList = xs) (hkeys : v.DistinctKeys) (s : Store)
    (rows : Array Row) :
    Attends (Value.Opened none fun xs => Value.Passed (List.replicate xs.length rel) xs)
      (Shaped ⟨.var :: inner.dims, inner.leaf⟩) v
      (writeRow writeOne inner depth c v s rows) := by
  have hx := (Value.distinctKeys_iff_of_items? hxs).mp hkeys
  rw [← hels] at hx
  simp only [writeRow]
  have hrow := inner.shaped_allocate s (.growable (c.lengthHint?.getD 0))
  generalize inner.allocate s (.growable (c.lengthHint?.getD 0)) = fresh at hrow
  obtain ⟨ys, hdone, hwent⟩ :=
    @went_writeItems rel inner.Shaped writeOne depth none hone c.elements 0 [] fresh.1 fresh.2 hx hrow
  rw [hels] at hwent
  have hattends := hwent.attends hxs
  generalize writeItems writeOne depth none 0 [] c.elements fresh.1 fresh.2 = pass at *
  obtain ⟨done, rest, atEnd, outcome⟩ := pass
  obtain rfl : done = ys := hdone
  cases outcome with
  | error e => exact hattends.imp id fun h => absurd h (by simp)
  | ok sb => exact hattends.imp id fun _ => ⟨_, _, rfl, fun _ => .inl rfl⟩

variable {dims : List LayoutDim} {leaf : LayoutLeaf}

/-- At a fixed dimension no more elements are asked for than show that there are too many. -/
theorem attending_fixed (n : Nat)
    (hone : Attending rel (Shaped ⟨dims, leaf⟩) (writeFrom ⟨dims, leaf⟩ (depth + 1))) :
    Attending (Value.Opened (some (n + 1))
        fun xs => Value.Passed (List.replicate xs.length rel) xs)
      (Shaped ⟨.fixed n :: dims, leaf⟩)
      (writeFrom ⟨.fixed n :: dims, leaf⟩ depth) := by
  intro v s b hkeys hb
  have hb := (shaped_cons.mp hb).resolve_left (by simp [LayoutDim.isVar])
  simp only [writeFrom, writeDims]
  cases hxs : v.items? with
  | none =>
    obtain ⟨e, he⟩ := Value.childrenAt_of_none hxs depth
    simp only [he]
    exact .untouched (.untouched v) e
  | some xs =>
    obtain ⟨c, hc, -, hels, -⟩ := Value.childrenAt_of_items? hxs depth
    simp only [hc]
    exact (attends_writeRegular hone hxs hels hkeys n s hb).imp id
      fun h => ⟨_, _, h, fun hb' => shaped_cons.mpr (.inr hb')⟩

/-- At a strided dimension no source is touched. -/
theorem attending_strided (slot : Nat)
    (hone : Attending rel (Shaped ⟨dims, leaf⟩) (writeFrom ⟨dims, leaf⟩ (depth + 1))) :
    Attending (fun v w => (v.isIterator = true → w = v) ∧
        Value.Opened none (fun xs => Value.Passed (List.replicate xs.length rel) xs) v w)
      (Shaped ⟨.strided slot :: dims, leaf⟩)
      (writeFrom ⟨.strided slot :: dims, leaf⟩ depth) := by
  intro v s b hkeys hb
  have hb := (shaped_cons.mp hb).resolve_left (by simp [LayoutDim.isVar])
  have huntouched : (v.isIterator = true → v = v) ∧ Value.Opened none
      (fun xs => Value.Passed (List.replicate xs.length rel) xs) v v := ⟨fun _ => rfl, .untouched v⟩
  simp only [writeFrom, writeDims]
  cases hxs : v.items? with
  | none =>
    obtain ⟨e, he⟩ := Value.childrenAt_of_none hxs depth
    simp only [he]
    exact .untouched huntouched e
  | some xs =>
    obtain ⟨c, hc, -, hels, hiter, -⟩ := Value.childrenAt_of_items? hxs depth
    simp only [hc, hiter]
    cases hv : v.isIterator with
    | true =>
      rw [if_pos rfl]
      exact .untouched huntouched _
    | false =>
      rw [if_neg (by simp)]
      exact (attends_writeRegular hone hxs hels hkeys _ _ hb).imp
        (fun h => ⟨fun h' => absurd (hv.symm.trans h') (by simp), h.unlimited⟩)
        fun h => ⟨_, _, h, fun hb' => shaped_cons.mpr (.inr hb')⟩

/-- At a var dimension all elements are asked for. -/
theorem attending_var
    (hone : Attending rel (Shaped ⟨dims, leaf⟩) (writeFrom ⟨dims, leaf⟩ (depth + 1))) :
    Attending (Value.Opened none fun xs => Value.Passed (List.replicate xs.length rel) xs)
      (Shaped ⟨.var :: dims, leaf⟩)
      (writeFrom ⟨.var :: dims, leaf⟩ depth) := by
  intro v s b hkeys _
  simp only [writeFrom, writeDims]
  cases b with
  | var rows =>
    cases hxs : v.items? with
    | none =>
      obtain ⟨e, he⟩ := Value.childrenAt_of_none hxs depth
      simp only [he]
      exact .untouched (.untouched v) e
    | some xs =>
      obtain ⟨c, hc, -, hels, -⟩ := Value.childrenAt_of_items? hxs depth
      simp only [hc]
      exact attends_writeRow hone hxs hels hkeys s rows
  | _ => exact .untouched (.untouched v) _

end Dims

/-! ## Records -/

section Records

variable {fields : Struct} {passed : List Value → List Value → Prop} {shaped : Block → Prop}
  {v : Value} {values values' : List Value} {outcome : Written}

/-- What is asked of a value to tell whether it is a record. -/
theorem attends_recordFields (hrefl : ∀ xs, passed xs xs) (e : BuildError) :
    Attends (Value.OpenedAsRecord fields passed) shaped v ((v.recordFields fields).1, .error e) := by
  cases v with
  | iter p =>
    refine ⟨Value.runs_source (p.steps_fill _), ?_, fun h => absurd h (by simp)⟩
    refine .positional (.iter rfl ?_ (hrefl _) fun n hn => ?_)
    · exact p.elements_fill _
    · obtain rfl := Option.some.inj hn
      exact p.pulled_fill_le _
  | _ => exact .untouched (.positional (.untouched _)) e

section Written

variable (hruns : List.Forall₂ Value.Runs values values') (hpassed : passed values values')
  (hok : ∀ {s : Store} {b : Block}, outcome = .ok (s, b) →
    List.Forall₂ Value.Finishes values values' ∧ shaped b)

include hruns hpassed hok

/-- A source has told of its end by then, since one element more than there are fields was asked
for. -/
theorem attends_source_fields {p : Pull Value} (hvalues : p.remaining = values)
    (hlen : values.length = fields.length) :
    Attends (Value.OpenedAsRecord fields passed) shaped (.iter p)
      (.iter { p.fill (fields.length + 1) with replay := values' }, outcome) := by
  subst hvalues
  have hlast : p.fill (fields.length + 1) = p.bufferAll := p.fill_eq_bufferAll (by omega)
  have hpulled := p.pulled_fill_le (fields.length + 1)
  rw [hlast] at hpulled ⊢
  refine ⟨?_, ?_, fun h => ⟨.iter rfl rfl rfl rfl (hok h).1, (hok h).2⟩⟩
  · exact (Value.runs_source p.steps_bufferAll).trans (Value.runs_queue p.bufferAll hruns)
  · refine .positional (.iter rfl ?_ hpassed fun n hn => ?_)
    · exact congrArg (p.taken ++ ·) (List.append_nil values')
    · obtain rfl := Option.some.inj hn
      exact hpulled

/-- The entries of a mapping stay where they are, each with what has become of its own value. -/
theorem attends_dict_fields {entries : List (String × Value)} (hkeys : (Value.dict entries).DistinctKeys)
    (hvalues : (Value.dict entries).record? fields = some values) :
    Attends (Value.OpenedAsRecord fields passed) shaped (.dict entries)
      ((Value.dict entries).withRecordFields fields values', outcome) := by
  obtain ⟨hnodup, -⟩ := Value.distinctKeys_dict_iff.mp hkeys
  have hentries {r : Value → Value → Prop} (h : List.Forall₂ r values values') :=
    Value.forall₂_withRecordFields hvalues hnodup h
  obtain ⟨hkeys', -⟩ := Entries.forall₂_iff.mp (hentries hruns)
  refine ⟨Value.runs_dict (hentries hruns), ?_, fun h => ⟨?_, (hok h).2⟩⟩
  · exact .named hkeys'.symm hvalues
      (Value.record?_dict_withRecordFields hvalues hruns.length_eq.symm) hpassed
  · exact .dict hkeys'.symm (Entries.forall₂_iff.mp (hentries (hok h).1)).2

/-- **The fields of a record are written and put back.** -/
theorem attends_withRecordFields (hkeys : v.DistinctKeys)
    (hvalues : v.record? fields = some values) :
    Attends (Value.OpenedAsRecord fields passed) shaped v
      ((v.recordFields fields).1.withRecordFields fields values', outcome) := by
  cases v with
  | atom a => exact absurd hvalues (by simp [Value.record?, Value.items?])
  | list items =>
    obtain ⟨-, rfl⟩ := Value.of_record?_of_items? rfl hvalues
    exact ⟨Value.runs_list hruns, .positional (.list hpassed), fun h =>
      ⟨.list (hok h).1, (hok h).2⟩⟩
  | tuple items =>
    obtain ⟨-, rfl⟩ := Value.of_record?_of_items? rfl hvalues
    exact ⟨Value.runs_tuple hruns, .positional (.tuple hpassed), fun h =>
      ⟨.tuple (hok h).1, (hok h).2⟩⟩
  | iter p =>
    obtain ⟨hlen, hrem⟩ := Value.of_record?_of_items? rfl hvalues
    exact attends_source_fields hruns hpassed hok hrem (hrem ▸ hlen)
  | dict entries => exact attends_dict_fields hruns hpassed hok hkeys hvalues

end Written

/-- How the fields of a record were written: one after the other, each finished before the next. -/
structure WentFields (fields : List Field) (layouts : List Layout) (xs : List Value)
    (result : List Value × Except BuildError (Store × List Block)) : Prop where
  runs : List.Forall₂ Value.Runs xs result.1
  passed : Value.Passed (Struct.draws fields) xs result.1
  finished : ∀ {s : Store} {blocks : List Block}, result.2 = .ok (s, blocks) →
    List.Forall₂ Value.Finishes xs result.1 ∧ ShapedAll layouts blocks

theorem went_writeFields {fields : List Field} (h : ∀ f ∈ fields, ∀ free,
      Attending f.type.Draws (f.type.layoutFrom free).Shaped (f.type.layoutFrom free).write) :
    ∀ {free : Nat} {xs : List Value} {blocks : List Block} (s : Store), xs.length = fields.length →
      (∀ x ∈ xs, x.DistinctKeys) → ShapedAll (Struct.layoutsFrom free fields) blocks →
        WentFields fields (Struct.layoutsFrom free fields) xs
          (writeFields (Struct.layoutsFrom free fields) xs blocks s) := by
  induction fields with
  | nil =>
    intro free xs blocks s hlen _ hblocks
    obtain rfl := List.eq_nil_of_length_eq_zero hlen
    cases blocks with
    | nil => exact ⟨.nil, .untouched _ _, fun h => ⟨.nil, by cases h; trivial⟩⟩
    | cons b bs => exact hblocks.elim
  | cons f fields ih =>
    intro free xs blocks s hlen hkeys hblocks
    obtain ⟨hf, hfields⟩ := List.forall_mem_cons.mp h
    cases xs with
    | nil => exact absurd hlen (by simp)
    | cons x xs =>
      rw [Struct.layoutsFrom_cons] at hblocks ⊢
      rw [List.length_cons, List.length_cons, Nat.add_right_cancel_iff] at hlen
      obtain ⟨hx, hxs⟩ := List.forall_mem_cons.mp hkeys
      cases blocks with
      | nil => exact hblocks.elim
      | cons b bs =>
        obtain ⟨hb, hbs⟩ := hblocks
        have hfirst := hf free x s b hx hb
        rw [writeFields]
        cases hw : (f.type.layoutFrom free).write x s b with
        | mk y outcome =>
          rw [hw] at hfirst
          cases outcome with
          | error e =>
            refine ⟨.cons hfirst.runs (List.forall₂_refl xs), ?_, fun h => absurd h (by simp)⟩
            rw [Struct.draws_cons]
            exact .midst hfirst.draws
          | ok sb =>
            obtain ⟨s₁, b₁⟩ := sb
            obtain ⟨hfinishes, hb₁⟩ := hfirst.finishes rfl
            have hrest := ih hfields s₁ hlen hxs hbs
            refine ⟨.cons hfirst.runs hrest.runs, ?_, fun h => ?_⟩
            · rw [Struct.draws_cons]
              exact .past hfirst.draws hfinishes hrest.passed
            · obtain ⟨⟨s₂, bs₂⟩, hbs₂, heq⟩ := map_eq_ok.mp h
              obtain ⟨rfl, rfl⟩ := Prod.mk.inj heq
              obtain ⟨hall, hshaped⟩ := hrest.finished hbs₂
              exact ⟨.cons hfinishes hall, hb₁, hshaped⟩

end Records

end Layout

/-! ## Types -/

open Layout

/-- **Writing at a type attends to the value.** Induction on the type: past each dimension, and at the
leaf into each field. -/
theorem ArrayType.attending (t : ArrayType) :
    ∀ free depth, Attending t.Draws (t.layoutFrom free).Shaped
      ((t.layoutFrom free).writeFrom depth) := by
  induction t using ArrayType.induction with
  | scalar k =>
    intro free depth v s b _ _
    exact (attends_writeElement (.scalar k) v s b).imp id fun h => ⟨_, _, h, fun _ => .inr trivial⟩
  | string type =>
    intro free depth v s b _ _
    exact (attends_writeElement (.string type) v s b).imp id
      fun h => ⟨_, _, h, fun _ => .inr trivial⟩
  | struct fields ih =>
    intro free depth v s b hkeys hb
    have hfields : ∀ f ∈ fields, ∀ free, Attending f.type.Draws (f.type.layoutFrom free).Shaped
        (f.type.layoutFrom free).write := by
      intro f hf free
      rw [write_eq_writeFrom]
      exact ih f hf free 0
    obtain ⟨blocks, rfl, hblocks⟩ := hb.resolve_left (by simp)
    show Attends _ _ v (writeLeaf (.struct fields (Struct.layoutsFrom free fields)) v s
      (.struct blocks))
    have hopened := @attends_recordFields fields (Value.Passed (Struct.draws fields))
      (layoutFrom free ⟨[], .struct fields⟩).Shaped v (.untouched _)
    simp only [writeLeaf]
    cases hr : Value.recordFields fields v with
    | mk w outcome =>
      rw [hr] at hopened
      cases outcome with
      | error e => exact hopened e
      | ok values =>
        have hvalues := (Value.recordFields_eq_ok_iff fields v values).mp (by rw [hr])
        have hwent := went_writeFields hfields s (Value.length_of_record? hvalues)
          (hkeys.record hvalues) hblocks
        have hw : w = (Value.recordFields fields v).1 := by rw [hr]
        rw [hw]
        refine attends_withRecordFields hwent.runs hwent.passed (fun h => ?_) hkeys hvalues
        obtain ⟨⟨s', blocks'⟩, hblocks', heq⟩ := map_eq_ok.mp h
        obtain ⟨rfl, rfl⟩ := Prod.mk.inj heq
        obtain ⟨hall, hshaped⟩ := hwent.finished hblocks'
        exact ⟨hall, .inr ⟨_, rfl, hshaped⟩⟩
  | dim d dims leaf ih =>
    intro free depth
    rw [layoutFrom_cons]
    have hinner := ih (free + d.slots) (depth + 1)
    generalize layoutFrom (free + d.slots) ⟨dims, leaf⟩ = inner at hinner
    obtain ⟨dims', leaf'⟩ := inner
    cases d with
    | fixed n => exact attending_fixed n hinner
    | strided => exact attending_strided free hinner
    | var => exact attending_var hinner

/-- A whole array, and what has become of the value when its regions are finished or there was an
error. -/
theorem ArrayType.draws_write (t : ArrayType) (growth : GrowthPolicy) {v : Value}
    (hkeys : v.DistinctKeys) :
    v.Runs (t.write growth v).1 ∧ t.Draws v (t.write growth v).1 ∧
      ∀ c, (t.write growth v).2 = .ok c → v.Finishes (t.write growth v).1 := by
  have hstart : t.layout.Shaped (t.start growth).2 := t.layout.shaped_allocate _ _
  have hattends := t.attending 0 0 v (t.start growth).1 (t.start growth).2 hkeys hstart
  have hvalue : (t.write growth v).1 =
      ((t.layoutFrom 0).writeFrom 0 v (t.start growth).1 (t.start growth).2).1 := by
    rw [← write_eq_writeFrom]
    rfl
  rw [hvalue]
  refine ⟨hattends.runs, hattends.draws, fun c hc => ?_⟩
  rw [write_eq_start] at hc
  cases hw : (t.layout.writeFrom 0 v (t.start growth).1 (t.start growth).2).2 with
  | error e => simp only [hw] at hc; exact absurd hc (by simp)
  | ok r => exact (hattends.finishes hw).1

end Ragged
