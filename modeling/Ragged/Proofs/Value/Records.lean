import Ragged.Proofs.Value.Fields

/-!
# Values taken as records

What a value gives as a record of a struct, what is wrong with it if it gives nothing, and what
becomes of it meanwhile: `Value.Resolves` has one rule for each of these.

> If the field names differ, `recordFields` goes by these rules, and there is a rule for every value
> (`recordFields_eq_iff`).

A mapping with several things wrong is refused for a key before it is for a field, and for the first
of either kind. A source is looked into just as far as tells whether it has the right number of
elements (`Pull.LookedAhead`): what it has left stays, in order, so another attempt finds the same.
-/

set_option autoImplicit false

namespace Ragged

/-- What becomes of a source when `n` elements are wanted in its queue and nothing is handed out. -/
structure Pull.LookedAhead {α : Type} (n : Nat) (p q : Pull α) : Prop where
  label : q.label = p.label
  taken : q.taken = p.taken
  remaining : q.remaining = p.remaining
  buffered : q.buffered = max p.buffered (min n p.remaining.length)
  /-- Only the elements missing in the queue are asked for. -/
  pulled : q.pulled = p.pulled + (min n p.remaining.length - p.buffered)
  /-- The source has told that it has no more if it was asked for one that it does not have. -/
  ended : q.ended = (p.ended || decide (p.remaining.length < n))

namespace Value

/-- A value is taken as a record of a struct: what has become of the value, and the values of the
fields in declared order, or what is wrong. -/
inductive Resolves (fields : Struct) : Value → Value → Except BuildError (List Value) → Prop
  | named {entries : List (String × Value)} {values : List Value}
      (hkeys : ∀ key, key ∈ Entries.keys entries ↔ key ∈ Struct.names fields)
      (hvalues : List.Forall₂ (fun f x => Entries.get? entries f.name = some x) fields values) :
      Resolves fields (.dict entries) (.dict entries) (.ok values)
  | undeclared {entries : List (String × Value)} {before after : List String} {key : String}
      (hentries : Entries.keys entries = before ++ key :: after)
      (hbefore : ∀ k ∈ before, k ∈ Struct.names fields) (hkey : key ∉ Struct.names fields) :
      Resolves fields (.dict entries) (.dict entries) (.error (.undeclaredField key fields.render))
  | missing {entries : List (String × Value)} {before after : List Field} {f : Field}
      (hkeys : ∀ key ∈ Entries.keys entries, key ∈ Struct.names fields)
      (hfields : fields = before ++ f :: after)
      (hbefore : ∀ g ∈ before, g.name ∈ Entries.keys entries)
      (hname : f.name ∉ Entries.keys entries) :
      Resolves fields (.dict entries) (.dict entries) (.error (.missingField f.name fields.render))
  | positional {v : Value} {xs : List Value} (hv : v.isIterator = false) (hxs : v.items? = some xs)
      (hlen : xs.length = fields.length) : Resolves fields v v (.ok xs)
  | miscounted {v : Value} {xs : List Value} (hv : v.isIterator = false) (hxs : v.items? = some xs)
      (hlen : xs.length ≠ fields.length) :
      Resolves fields v v
        (.error (.fieldCount fields.render fields.length (.exactly xs.length)))
  | source {p q : Pull Value} (hq : p.LookedAhead (fields.length + 1) q)
      (hlen : p.remaining.length = fields.length) :
      Resolves fields (.iter p) (.iter q) (.ok p.remaining)
  | short {p q : Pull Value} (hq : p.LookedAhead (fields.length + 1) q)
      (hlen : p.remaining.length < fields.length) :
      Resolves fields (.iter p) (.iter q)
        (.error (.fieldCount fields.render fields.length (.exactly p.remaining.length)))
  | long {p q : Pull Value} (hq : p.LookedAhead (fields.length + 1) q)
      (hlen : fields.length < p.remaining.length) :
      Resolves fields (.iter p) (.iter q)
        (.error (.fieldCount fields.render fields.length
          (.atLeast (max (fields.length + 1) p.buffered))))
  | scalar (a : Atom) :
      Resolves fields (.atom a) (.atom a)
        (.error (.type (.scalarAsRecord fields.render a.typeName)))

end Value

/-! ## Sources -/

namespace Pull

variable {α : Type} {p q q' : Pull α} {n : Nat}

theorem lookedAhead_fill (p : Pull α) (n : Nat) : p.LookedAhead n (p.fill n) where
  label := rfl
  taken := rfl
  remaining := remaining_fill p n
  buffered := buffered_fill p n
  pulled := by
    rw [pulled_fill, remaining, List.length_append, buffered]
    omega
  ended := by
    have hwanted : min (n - p.replay.length) p.pending.toList.length < n - p.replay.length ↔
        p.remaining.length < n := by
      rw [remaining, List.length_append]
      omega
    simp only [fill, Supply.draw_eq, List.length_take, ended, hwanted]
    split
    next h => simp [h]
    next h => cases p.source <;> simp [h]

/-- A source is known by what can be told of it: what it has handed out, what waits in its queue,
what is behind that, and whether it has ended. -/
theorem LookedAhead.unique (h : p.LookedAhead n q) (h' : p.LookedAhead n q') : q = q' := by
  have hqueue : q.replay = q'.replay ∧ q.pending.toList = q'.pending.toList :=
    List.append_inj (h.remaining.trans h'.remaining.symm) (h.buffered.trans h'.buffered.symm)
  have hended : q.ended = q'.ended := h.ended.trans h'.ended.symm
  have hlabel := h.label.trans h'.label.symm
  have htaken := h.taken.trans h'.taken.symm
  have hpulled := h.pulled.trans h'.pulled.symm
  obtain ⟨label, taken, replay, source, pulled⟩ := q
  obtain ⟨label', taken', replay', source', pulled'⟩ := q'
  obtain ⟨hreplay, hpending⟩ := hqueue
  dsimp only at hlabel htaken hpulled hreplay
  subst hlabel htaken hpulled hreplay
  suffices source = source' by rw [this]
  cases source with
  | none => cases source' with
    | none => rfl
    | some s' => exact absurd hended (by simp [Pull.ended])
  | some s => cases source' with
    | none => exact absurd hended (by simp [Pull.ended])
    | some s' =>
      have hs : s.toList = s'.toList := hpending
      rw [← Supply.ofList_toList s, hs, Supply.ofList_toList]

end Pull

namespace Value

variable {fields : Struct} {v w : Value} {out : Except BuildError (List Value)}

/-! ## Mappings -/

/-- Fields that have an entry are passed over, and the first that has none is what is missed.
Induction on those passed over; that names differ keeps each where it is looked for. -/
theorem namedFields_missing {entries : List (String × Value)} {f : Field} {after : List Field}
    (hf : f.name ∉ Entries.keys entries) (present : List Field) : ∀ (before : List Field),
      (Struct.names (before ++ (present ++ f :: after))).Nodup →
      (∀ g ∈ present, g.name ∈ Entries.keys entries) →
      namedFields (before ++ (present ++ f :: after)) entries before.length
          (present ++ f :: after) =
        .error (.missingField f.name (Struct.render (before ++ (present ++ f :: after)))) := by
  induction present with
  | nil =>
    intro before hnames hpresent
    have hget : Entries.get? entries f.name = none :=
      Option.eq_none_iff_forall_ne_some.mpr fun x hx => hf (Entries.mem_keys_iff.mpr ⟨x, hx⟩)
    rw [List.nil_append, namedFields.eq_def]
    simp only [hget]
  | cons g present ih =>
    intro before hnames hpresent
    obtain ⟨hg, hpresent⟩ := List.forall_mem_cons.mp hpresent
    obtain ⟨x, hx⟩ := Entries.mem_keys_iff.mp hg
    have hnot : g.name ∉ Struct.names before := by
      rw [Struct.names, List.map_append, List.nodup_append] at hnames
      exact fun hmem => hnames.2.2 _ hmem _ (by simp) rfl
    have hindex := (indexOf?_append_cons before (present ++ f :: after) g).mpr hnot
    have hassoc : before ++ (g :: present ++ f :: after) =
        (before ++ [g]) ++ (present ++ f :: after) := by simp
    have hrest := ih (before ++ [g]) (hassoc ▸ hnames) hpresent
    rw [← hassoc, List.length_append, List.length_singleton] at hrest
    rw [List.cons_append] at hrest ⊢
    rw [namedFields.eq_def]
    simp only [hx, if_pos hindex, hrest]
    rfl

/-! ## The rules are kept -/

theorem Resolves.recordFields_eq (h : Resolves fields v w out)
    (hnames : (Struct.names fields).Nodup) : v.recordFields fields = (w, out) := by
  cases h with
  | @named entries values hkeys hvalues =>
    refine Prod.ext rfl ((recordFields_eq_ok_iff _ _ _).mpr ?_)
    refine record?_dict_eq_some_iff.mpr ⟨⟨hnames, fun key => (hkeys key).mp⟩, ?_⟩
    exact mapM_of_forall₂ (List.forall₂_map_left_iff.mpr hvalues)
  | @undeclared entries before after key hentries hbefore hkey =>
    have hfind : (Entries.keys entries).find? (· ∉ Struct.names fields) = some key :=
      List.find?_eq_some_iff_append.mpr
        ⟨by simpa using hkey, before, after, hentries, fun k hk => by simpa using hbefore k hk⟩
    exact recordFields_of_undeclared hfind
  | @missing entries before after f hkeys hfields hbefore hname =>
    rw [recordFields_of_declared hkeys]
    subst hfields
    exact congrArg _ (namedFields_missing hname before [] hnames hbefore)
  | positional hv hxs hlen =>
    refine Prod.ext ?_ ((recordFields_eq_ok_iff _ _ _).mpr ?_)
    · cases v with
      | iter p => exact absurd hv (by simp [isIterator])
      | _ => rfl
    · rw [record?_of_items? hxs, if_pos hlen]
  | @miscounted _ xs hv hxs hlen =>
    cases v with
    | list items | tuple items =>
      obtain rfl : items = xs := Option.some.inj hxs
      simp only [recordFields, if_neg hlen]
    | iter p => exact absurd hv (by simp [isIterator])
    | atom a => exact absurd hxs (by simp [items?])
    | dict entries => exact absurd hxs (by simp [items?])
  | @source p q hq hlen =>
    obtain rfl := hq.unique (p.lookedAhead_fill _)
    refine Prod.ext rfl ((recordFields_eq_ok_iff _ _ _).mpr ?_)
    rw [record?_of_items? rfl, if_pos hlen]
  | @short p q hq hlen =>
    obtain rfl := hq.unique (p.lookedAhead_fill _)
    have hle := p.buffered_le
    have hbuffered : (p.fill (fields.length + 1)).buffered = p.remaining.length := by
      rw [hq.buffered]
      omega
    simp only [recordFields, hbuffered, if_neg (Nat.not_lt.mpr (Nat.le_of_lt hlen)), if_pos hlen]
  | @long p q hq hlen =>
    obtain rfl := hq.unique (p.lookedAhead_fill _)
    have hbuffered :
        (p.fill (fields.length + 1)).buffered = max (fields.length + 1) p.buffered := by
      rw [hq.buffered]
      omega
    have hlt : fields.length < max (fields.length + 1) p.buffered := by omega
    simp only [recordFields, hbuffered, if_pos hlt]
  | scalar a => rfl

/-! ## There is a rule for every value -/

theorem exists_resolves_dict (fields : Struct) (entries : List (String × Value)) :
    ∃ out, Resolves fields (.dict entries) (.dict entries) out := by
  cases hkey : (Entries.keys entries).find? (· ∉ Struct.names fields) with
  | some key =>
    obtain ⟨hnot, before, after, hentries, hbefore⟩ := List.find?_eq_some_iff_append.mp hkey
    exact ⟨_, .undeclared hentries (fun k hk => by simpa using hbefore k hk) (by simpa using hnot)⟩
  | none =>
    have hdeclared : ∀ key ∈ Entries.keys entries, key ∈ Struct.names fields := by
      simpa [List.find?_eq_none] using hkey
    cases hfield : fields.find? (fun f => f.name ∉ Entries.keys entries) with
    | some f =>
      obtain ⟨hnot, before, after, hfields, hbefore⟩ := List.find?_eq_some_iff_append.mp hfield
      exact ⟨_, .missing hdeclared hfields (fun g hg => by simpa using hbefore g hg)
        (by simpa using hnot)⟩
    | none =>
      have hpresent : ∀ f ∈ fields, f.name ∈ Entries.keys entries := by
        simpa [List.find?_eq_none] using hfield
      have hvalues : List.Forall₂ (fun f x => Entries.get? entries f.name = some x) fields
          (fields.map fun f => (Entries.get? entries f.name).getD default) := by
        refine List.forall₂_map_right_iff.mpr (List.forall₂_same.mpr fun f hf => ?_)
        obtain ⟨x, hx⟩ := Entries.mem_keys_iff.mp (hpresent f hf)
        rw [hx]
        rfl
      refine ⟨_, .named (fun key => ⟨hdeclared key, fun hkey => ?_⟩) hvalues⟩
      obtain ⟨f, hf, rfl⟩ := List.mem_map.mp hkey
      exact hpresent f hf

theorem exists_resolves (fields : Struct) (v : Value) : ∃ w out, Resolves fields v w out := by
  cases v with
  | atom a => exact ⟨_, _, .scalar a⟩
  | dict entries => exact ⟨_, exists_resolves_dict fields entries⟩
  | list items | tuple items =>
    by_cases hlen : items.length = fields.length
    · exact ⟨_, _, .positional rfl rfl hlen⟩
    · exact ⟨_, _, .miscounted rfl rfl hlen⟩
  | iter p =>
    have hq := p.lookedAhead_fill (fields.length + 1)
    rcases Nat.lt_trichotomy p.remaining.length fields.length with hlen | hlen | hlen
    · exact ⟨_, _, .short hq hlen⟩
    · exact ⟨_, _, .source hq hlen⟩
    · exact ⟨_, _, .long hq hlen⟩

/-- **A value is taken as a record by the rules**, of a struct whose field names differ. What comes
of it, in values or in an error, and what becomes of the value are what the rules say, and they say
it of every value. -/
theorem recordFields_eq_iff (fields : Struct) (hnames : (Struct.names fields).Nodup)
    (v w : Value) (out : Except BuildError (List Value)) :
    v.recordFields fields = (w, out) ↔ Resolves fields v w out := by
  refine ⟨fun h => ?_, fun h => h.recordFields_eq hnames⟩
  obtain ⟨w', out', hresolves⟩ := exists_resolves fields v
  obtain ⟨rfl, rfl⟩ := Prod.mk.inj ((hresolves.recordFields_eq hnames).symm.trans h)
  exact hresolves

/-- Of five elements one waits in the queue of a source that has yielded two. A record of two fields
takes two more to see that there are too many. -/
theorem recordFields_eq_iff_long :
    let pair : Struct := [⟨"x", ⟨[], .scalar .int32⟩⟩, ⟨"y", ⟨[], .scalar .int32⟩⟩]
    let n (i : Nat) : Value := .atom (.int i)
    let source : Pull Value := ⟨0, [n 0], [n 1], some (.ofList [n 2, n 3, n 4]), 2⟩
    recordFields pair (.iter source) =
      (.iter ⟨0, [n 0], [n 1, n 2, n 3], some (.ofList [n 4]), 4⟩,
        .error (.fieldCount "{x: int32; y: int32}" 2 (.atLeast 3))) := by
  intro pair n source
  have h := (recordFields_eq_iff pair (by decide) (.iter source)
    (.iter ⟨0, [n 0], [n 1, n 2, n 3], some (.ofList [n 4]), 4⟩)
    (.error (.fieldCount pair.render 2 (.atLeast 3)))).mpr
    (.long ⟨rfl, rfl, rfl, rfl, rfl, rfl⟩ (by decide))
  exact h

end Value

end Ragged
