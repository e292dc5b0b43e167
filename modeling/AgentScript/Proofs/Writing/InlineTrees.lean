import AgentScript.Proofs.Writing.Acceptance
import AgentScript.Proofs.Writing.InlineReading

/-!
# The trees of inline values

The parser for values accepts every inline value, with the tree of the value as the answer
up to locations, where no point follows it. Every part takes a token at least, so the
tokens left on the line bound both the depth of the nesting and the number of the parts.
-/
namespace AgentScript

open ParserState Writing

namespace Writing

theorem PlainName.onLine (n : PlainName) : n.form.OnLine := by
  intro t ht
  rw [Token.isStructural]
  rcases ht.1 with hk | hk <;> rw [hk] <;> rfl

theorem Tag.flat (t : Tag) : Flat t.forms := by
  have hmodifier : Flat t.modifierForms := by
    unfold modifierForms
    cases t.modifier with
    | none => exact flat_nil
    | some m =>
      exact flat_cons.mpr ⟨TokenForm.onLine_ofKind rfl, flat_cons.mpr
        ⟨TokenForm.onLine_spelled rfl, flat_nil⟩⟩
  have hend : Flat [.ofKind .gt] := flat_cons.mpr ⟨TokenForm.onLine_ofKind rfl, flat_nil⟩
  exact flat_cons.mpr ⟨TokenForm.onLine_ofKind rfl, flat_append.mpr
    ⟨flat_cons.mpr ⟨TokenForm.onLine_spelled rfl, flat_cons.mpr
      ⟨TokenForm.onLine_spelled rfl, hmodifier⟩⟩, hend⟩⟩

theorem Scalar.flat (s : Scalar) : Flat s.forms := by
  cases s with
  | string text => exact flat_cons.mpr ⟨TokenForm.onLine_string text, flat_nil⟩
  | number n => exact flat_cons.mpr ⟨TokenForm.onLine_spelled rfl, flat_nil⟩
  | literal l => exact flat_cons.mpr ⟨TokenForm.onLine_ofKind rfl, flat_nil⟩
  | atom a => exact flat_cons.mpr ⟨TokenForm.onLine_spelled rfl, flat_nil⟩
  | identifier first more =>
    exact flat_cons.mpr ⟨first.onLine, flat_flatMap fun n _ =>
      flat_cons.mpr ⟨TokenForm.onLine_ofKind rfl, flat_cons.mpr ⟨n.onLine, flat_nil⟩⟩⟩
  | typeTag t => exact t.flat

namespace Inline

theorem flat_bracketed {α : Type} {words : α → List TokenForm} {xs : List α} (b : Bracket)
    (h : ∀ x ∈ xs, Flat (words x)) : Flat (bracketedForms b (xs.map words)) := by
  have hbetween : Flat (between [.ofKind .comma] (xs.map words)) := by
    cases xs with
    | nil => exact flat_nil
    | cons x xs =>
      rw [List.forall_mem_cons] at h
      rw [between_map_cons]
      exact flat_append.mpr ⟨h.1, flat_flatMap fun y hy =>
        flat_cons.mpr ⟨TokenForm.onLine_ofKind rfl, h.2 y hy⟩⟩
  exact flat_cons.mpr ⟨TokenForm.onLine_ofKind rfl, flat_append.mpr
    ⟨hbetween, flat_cons.mpr ⟨TokenForm.onLine_ofKind rfl, flat_nil⟩⟩⟩

theorem flat (v : Inline) : Flat v.forms := by
  induction v using ind with
  | scalar s => exact s.flat
  | list b items ih =>
    rw [forms_list]
    exact flat_bracketed b.bracket ih
  | dictionary entries ih =>
    rw [forms_dictionary]
    exact flat_bracketed .curly fun e he => flat_cons.mpr ⟨TokenForm.onLine_string e.1,
      flat_cons.mpr ⟨TokenForm.onLine_ofKind rfl, ih e he⟩⟩

end Inline

/-- The kinds of tokens that an inline value begins with. -/
def beginsInline : TokenKind → Bool
  | .string | .number | .literal _ | .atom | .lt | .opening _ | .properWord | .commonNoun => true
  | _ => false

theorem beginsInline_of_ofKind {k : TokenKind} (hk : beginsInline k = true) (t : Token)
    (ht : TokenForm.ofKind k t) : beginsInline t.kind = true := by
  rwa [show t.kind = k from ht]

theorem Scalar.exists_cons (s : Scalar) :
    ∃ form more, s.forms = form :: more ∧ ∀ t, form t → beginsInline t.kind = true := by
  cases s with
  | string text => exact ⟨_, _, rfl, fun t ht => beginsInline_of_ofKind rfl t ht.1⟩
  | number n => exact ⟨_, _, rfl, fun t ht => beginsInline_of_ofKind rfl t ht.1⟩
  | literal l => exact ⟨_, _, rfl, beginsInline_of_ofKind rfl⟩
  | atom a => exact ⟨_, _, rfl, fun t ht => beginsInline_of_ofKind rfl t ht.1⟩
  | identifier first more =>
    refine ⟨_, _, rfl, ?_⟩
    rintro t ⟨hk | hk, -⟩ <;> exact beginsInline_of_ofKind rfl t hk
  | typeTag tag => exact ⟨_, _, rfl, beginsInline_of_ofKind rfl⟩

theorem Inline.exists_cons (v : Inline) :
    ∃ form more, v.forms = form :: more ∧ ∀ t, form t → beginsInline t.kind = true := by
  cases v with
  | scalar s => exact s.exists_cons
  | list b items =>
    rw [forms_list]
    exact ⟨_, _, rfl, beginsInline_of_ofKind rfl⟩
  | dictionary entries =>
    rw [forms_dictionary]
    exact ⟨_, _, rfl, beginsInline_of_ofKind rfl⟩

end Writing

namespace Parser

variable {α β δ : Type} {follow : TokenKind → Prop}

theorem accepts_takeText {k : TokenKind} (hk : k.isStructural = false) (text : String) :
    (takeText k).Accepts [.spelled (· = k) text] follow (· = some text) := by
  refine .check_of ?_ ((accepts_pass (TokenForm.onLine_spelled hk)).bind_last
    fun t ht => .pure (congrArg some ht.2))
  rintro k' ⟨t, ht, rfl⟩
  exact ht.1

theorem accepts_tagModifier (t : Tag) (hfollow : ∀ k, follow k → k ≠ .pipe) :
    tagModifier.Accepts t.modifierForms follow (· = t.modifier.map (·.text)) := by
  unfold tagModifier Tag.modifierForms
  cases t.modifier with
  | none => exact accepts_eat_of_ne hfollow (.pure rfl)
  | some m => exact accepts_eat (by decide) (accepts_takeText rfl m.text)

theorem accepts_typeTag (t : Tag) : typeTag.Accepts t.forms follow (·.erased = t.tree) := by
  have hforms : t.forms = [.ofKind .lt] ++ ([.spelled (· = .typeTagName) t.name.text] ++
      ([.spelled (· = .typeTagValue) t.value.text] ++ (t.modifierForms ++ [.ofKind .gt]))) := rfl
  rw [hforms]
  unfold typeTag
  refine (accepts_expect (by decide) _).bind fun start _ => ?_
  refine (accepts_takeText rfl t.name.text).bind fun name hname => ?_
  refine (accepts_takeText rfl t.value.text).bind fun value hvalue => ?_
  refine (accepts_tagModifier t (by simp)).bind fun modifier hmodifier => ?_
  refine (accepts_expect (by decide) _).bind_last fun _ _ => .spanFrom fun l => .pure ?_
  subst hname hvalue hmodifier
  rfl

theorem accepts_members {more : List PlainName} {fuel : Nat} (hfuel : more.length ≤ fuel)
    (hfollow : ∀ k, follow k → k ≠ .dot) :
    (members fuel).Accepts (more.flatMap fun n => [.ofKind .dot, n.form]) follow
      (· = more.map (·.text)) := by
  induction more generalizing fuel with
  | nil =>
    cases fuel with
    | zero => exact .pure rfl
    | succ fuel =>
      unfold members
      refine .look fun s rest hs => ?_
      have hdot : s.kind ≠ .dot := hfollow _ hs.heads
      rw [if_neg (by simp [startsMember, hdot])]
      exact .pure rfl
  | cons n more ih =>
    obtain ⟨fuel, rfl⟩ := Nat.exists_eq_succ_of_ne_zero (Nat.ne_zero_of_lt hfuel)
    change (members (fuel + 1)).Accepts ([.ofKind .dot] ++ ([n.form] ++
      more.flatMap fun n => [.ofKind .dot, n.form])) follow _
    unfold members
    refine .look fun s rest hs => ?_
    obtain ⟨hdot, hname⟩ := hs.cons_cons
    have hkind : s.kind = .dot := hdot
    rw [if_pos (by rcases hname.1 with hk | hk <;> simp [startsMember, hkind, hk])]
    refine (accepts_pass (TokenForm.onLine_ofKind rfl)).bind fun _ _ => ?_
    refine (accepts_pass n.onLine).bind fun t ht => ?_
    refine (ih (Nat.le_of_succ_le_succ hfuel)).bind_last fun names hnames => .pure ?_
    rw [hnames, ht.2]
    rfl

theorem accepts_identifier (first : PlainName) (more : List PlainName)
    (hfollow : ∀ k, follow k → k ≠ .dot) :
    identifier.Accepts (Scalar.identifier first more).forms follow
      (·.erased = (Scalar.identifier first more).tree) := by
  change identifier.Accepts ([first.form] ++ more.flatMap fun n => [.ofKind .dot, n.form]) follow _
  unfold identifier
  refine (accepts_pass first.onLine).bind fun t ht => .look fun s rest hs => ?_
  have hflat : Flat (more.flatMap fun n => [.ofKind .dot, n.form]) := flat_flatMap fun n _ =>
    flat_cons.mpr ⟨TokenForm.onLine_ofKind rfl, flat_cons.mpr ⟨n.onLine, flat_nil⟩⟩
  have hfuel : more.length ≤ s.lineLeft := by
    have hlength := hs.length_le_lineLeft hflat
    rw [List.length_flatMap] at hlength
    simp at hlength
    omega
  refine (accepts_members hfuel hfollow).bind_last fun names hnames => .spanFrom fun l => .pure ?_
  rw [hnames, ht.2]
  rfl

theorem ofLiteralToken?_of_kind {w : LiteralWord} {t : Token} (h : t.kind = .literal w) :
    ∃ v, Value.ofLiteralToken? t = some v ∧ v.erased = literalTree w := by
  rw [Value.ofLiteralToken?, h]
  cases w with
  | boolean b => exact ⟨_, rfl, rfl⟩
  | null => exact ⟨_, rfl, rfl⟩

theorem accepts_scalar (s : Scalar) (depth : Nat) (hfollow : ∀ k, follow k → k ≠ .dot) :
    (inlineValueWithin (depth + 1)).Accepts s.forms follow (·.erased = s.tree) := by
  unfold inlineValueWithin
  refine .kind fun k hk => ?_
  cases s with
  | string text =>
    obtain rfl := kind_of_heads_string hk
    refine (accepts_pass (TokenForm.onLine_string text)).bind_last fun t ht => .pure ?_
    rw [Value.ofStringToken, ht.2]
    rfl
  | number n =>
    obtain rfl := kind_of_heads (fun _ ht => ht.1) hk
    refine (accepts_pass (TokenForm.onLine_spelled rfl)).bind_last fun t ht => ?_
    have hvalue : readFloat? t.text = some n.value := by
      rw [ht.2, NumberLiteral.value, Option.some_get]
    rw [Value.ofNumberToken, hvalue]
    exact .pure rfl
  | literal l =>
    obtain rfl := kind_of_heads (fun _ ht => ht) hk
    refine (accepts_pass (TokenForm.onLine_ofKind rfl)).bind_last fun t ht => ?_
    obtain ⟨read, hread, htree⟩ := ofLiteralToken?_of_kind ht
    rw [hread]
    exact .pure htree
  | atom a =>
    obtain rfl := kind_of_heads (fun _ ht => ht.1) hk
    refine (accepts_pass (TokenForm.onLine_spelled rfl)).bind_last fun t ht => .pure ?_
    rw [Value.ofAtomToken, atomName_of_form ht]
    rfl
  | identifier first more =>
    obtain ⟨t, ⟨hword | hword, -⟩, rfl⟩ := hk
    · rw [hword]
      exact accepts_identifier first more hfollow
    · rw [hword]
      exact accepts_identifier first more hfollow
  | typeTag tag =>
    obtain rfl := kind_of_heads (fun _ ht => ht) hk
    refine (accepts_typeTag tag).bind_last fun read hread => .pure ?_
    exact congrArg Value.typeTag hread

/-- The loop passes all items. -/
theorem ItemLoop.accepts {close : TokenKind} {item : Parser α} {run : Nat → Parser (List α)}
    (hrun : ItemLoop close item run) (hclose : close ≠ .comma) {erase : α → δ} {value : β → δ}
    {words : β → List TokenForm} {xs : List β} {fuel : Nat} (hfuel : xs.length ≤ fuel)
    (hopens : ∀ x ∈ xs, ∃ form more, words x = form :: more ∧ ∀ t, form t → t.kind ≠ close)
    (h : ∀ x ∈ xs, ∀ follow : TokenKind → Prop, (∀ k, follow k → k = .comma ∨ k = close) →
      item.Accepts (words x) follow (erase · = value x)) :
    (run fuel).Accepts (Inline.between [.ofKind .comma] (xs.map words)) (· = close)
      (·.map erase = xs.map value) := by
  induction xs generalizing fuel with
  | nil =>
    cases fuel with
    | zero =>
      rw [hrun.zero]
      exact .pure rfl
    | succ fuel =>
      rw [hrun.succ]
      exact .check_of (fun _ hk => hk) (.pure rfl)
  | cons x xs ih =>
    obtain ⟨fuel, rfl⟩ := Nat.exists_eq_succ_of_ne_zero (Nat.ne_zero_of_lt hfuel)
    rw [List.forall_mem_cons] at hopens h
    rw [hrun.succ, Inline.between_map_cons]
    refine .check_of_ne ?_ ((h.1 _ ?_).bind fun a ha => ?_)
    · obtain ⟨form, more, hform, hne⟩ := hopens.1
      rw [hform]
      rintro k ⟨t, ht, rfl⟩
      exact hne t ht
    · cases xs with
      | nil => exact fun k hk => .inr hk
      | cons y xs => exact fun k hk => .inl (kind_of_heads (fun _ ht => ht) hk)
    · cases xs with
      | nil =>
        refine accepts_eat_of_ne (fun k hk => ?_) (.pure ?_)
        · rw [show k = close from hk]
          exact hclose
        · rw [List.map_singleton, ha]
          rfl
      | cons y xs =>
        rw [List.flatMap_cons, List.append_assoc, List.singleton_append,
          ← Inline.between_map_cons]
        refine accepts_eat (by decide) ?_
        refine (ih (Nat.le_of_succ_le_succ hfuel) hopens.2 h.2).bind_last fun as has => .pure ?_
        rw [List.map_cons, ha, has]
        rfl

/-- A collection is its items between brackets. -/
theorem ItemLoop.accepts_bracketed {b : Bracket} {item : Parser α} {run : Nat → Parser (List α)}
    (hrun : ItemLoop (.closing b) item run) {what : String} (erase : α → δ) (value : β → δ)
    {words : β → List TokenForm} {xs : List β} {build : Token → List α → Location → Value}
    {tree : Value} (hflat : ∀ x ∈ xs, Flat (words x))
    (hopens : ∀ x ∈ xs, ∃ form more, words x = form :: more ∧ ∀ t, form t → t.kind ≠ .closing b)
    (h : ∀ x ∈ xs, ∀ follow : TokenKind → Prop, (∀ k, follow k → k = .comma ∨ k = .closing b) →
      item.Accepts (words x) follow (erase · = value x))
    (hbuild : ∀ opener as l, opener.kind = .opening b → as.map erase = xs.map value →
      (build opener as l).erased = tree) :
    (do
      let opener ← advance
      let as ← run ((← lineLeft) + 1)
      let _ ← expect (.closing b) what
      let l ← spanFrom opener.start
      return build opener as l : Parser Value).Accepts (Inline.bracketedForms b (xs.map words))
      follow (·.erased = tree) := by
  have hforms : Inline.bracketedForms b (xs.map words) = [.ofKind (.opening b)] ++
      (Inline.between [.ofKind .comma] (xs.map words) ++ [.ofKind (.closing b)]) := rfl
  have hinside := (flat_cons.mp (Inline.flat_bracketed b hflat)).2
  rw [hforms]
  refine (accepts_pass (TokenForm.onLine_ofKind rfl)).bind fun opener hopener =>
    .look fun s rest hs => ?_
  have hfuel : xs.length ≤ s.lineLeft + 1 := by
    have hlength := hs.length_le_lineLeft hinside
    have hone : ∀ part ∈ xs.map words, 1 ≤ part.length := by
      intro part hpart
      obtain ⟨x, hx, rfl⟩ := List.mem_map.mp hpart
      obtain ⟨form, more, hform, -⟩ := hopens x hx
      simp [hform]
    have hmany := Inline.length_le_between [TokenForm.ofKind .comma] hone
    rw [List.length_map] at hmany
    rw [List.length_append] at hlength
    omega
  have hitems := hrun.accepts TokenKind.noConfusion hfuel hopens h
  refine (hitems.narrow fun k hk => heads_ofKind.mp hk).bind fun as has => ?_
  refine (accepts_expect TokenKind.noConfusion what).bind_last fun _ _ => ?_
  refine .spanFrom fun l => .pure ?_
  exact hbuild opener as l hopener has

theorem beginsInline_ne_closing {k : TokenKind} (h : beginsInline k = true) (b : Bracket) :
    k ≠ .closing b := by
  rintro rfl
  exact nomatch h

theorem ne_dot_of_endsItem {k : TokenKind} {b : Bracket} (h : k = .comma ∨ k = .closing b) :
    k ≠ .dot := by
  rcases h with rfl | rfl <;> exact TokenKind.noConfusion

theorem accepts_inlineList {item : Parser Value} (b : ListBracket) (what : String)
    {items : List Inline} (h : ∀ v ∈ items, ∀ follow : TokenKind → Prop,
      (∀ k, follow k → k ≠ .dot) → item.Accepts v.forms follow (·.erased = v.tree)) :
    (inlineList item b.bracket what).Accepts (Inline.list b items).forms follow
      (·.erased = (Inline.list b items).tree) := by
  rw [Inline.forms_list, Inline.tree_list]
  refine (itemLoop_listItems item _).accepts_bracketed Value.erased Inline.tree
    (fun v _ => v.flat) ?_ ?_ ?_
  · intro v _
    obtain ⟨form, more, hforms, hbegins⟩ := v.exists_cons
    exact ⟨form, more, hforms, fun t ht => beginsInline_ne_closing (hbegins t ht) _⟩
  · exact fun v hv follow hfollow => h v hv follow fun k hk => ne_dot_of_endsItem (hfollow k hk)
  · intro opener vs l hopener hvs
    rw [Value.ofItems, Value.erased, Value.erasedItems_eq_map, hvs, hopener]
    cases b <;> rfl

theorem accepts_keyed {key : Parser String} {value : Parser Value} {colon name : String}
    {tree : Value} {keyForms forms : List TokenForm}
    (hkey : key.Accepts keyForms (· = .colon) (· = name))
    (hvalue : value.Accepts forms follow (·.erased = tree)) :
    (keyed key colon value).Accepts (keyForms ++ ([.ofKind .colon] ++ forms)) follow
      (·.erased = ⟨name, tree, none⟩) := by
  unfold keyed
  refine .peek fun t _ => ?_
  refine (hkey.narrow fun k hk => heads_ofKind.mp hk).bind fun read hread => ?_
  refine (accepts_expect (by decide) colon).bind fun _ _ => ?_
  refine hvalue.bind_last fun v hv => .spanFrom fun l => .pure ?_
  rw [Keyed.erased, hread, hv]

theorem accepts_entryKey (key : String) : entryKey.Accepts [.string key] follow (· = key) :=
  .check_of (fun _ => kind_of_heads_string) (accepts_takeString key _)

theorem accepts_inlineDictionary {item : Parser Value} {entries : List (String × Inline)}
    (h : ∀ e ∈ entries, ∀ follow : TokenKind → Prop,
      (∀ k, follow k → k ≠ .dot) → item.Accepts e.2.forms follow (·.erased = e.2.tree)) :
    (inlineDictionary item).Accepts (Inline.dictionary entries).forms follow
      (·.erased = (Inline.dictionary entries).tree) := by
  rw [Inline.forms_dictionary, Inline.tree_dictionary]
  refine (itemLoop_dictionaryEntries item).accepts_bracketed Keyed.erased
    (fun e => ⟨e.1, e.2.tree, none⟩) (fun e _ => ?_) ?_ ?_ ?_
  · exact flat_cons.mpr ⟨TokenForm.onLine_string e.1,
      flat_cons.mpr ⟨TokenForm.onLine_ofKind rfl, e.2.flat⟩⟩
  · intro e _
    refine ⟨_, _, rfl, fun t ht => ?_⟩
    rw [ht.1]
    exact TokenKind.noConfusion
  · intro e he follow hfollow
    exact accepts_keyed (accepts_entryKey e.1)
      (h e he follow fun k hk => ne_dot_of_endsItem (hfollow k hk))
  · intro opener es l hopener hes
    rw [Value.ofEntries, Value.erased, Value.erasedEntries_eq_map, hes, hopener]
    rfl

theorem length_lt_bracketedForms (b : Bracket) (words : α → List TokenForm) {xs : List α} {x : α}
    (h : x ∈ xs) : (words x).length < (Inline.bracketedForms b (xs.map words)).length := by
  have hmem : words x ∈ xs.map words := List.mem_map_of_mem h
  have hpart := (Inline.sublist_between [TokenForm.ofKind .comma] hmem).length_le
  rw [Inline.bracketedForms, List.length_cons, List.length_append]
  exact Nat.lt_succ_of_le (Nat.le_add_right_of_le hpart)

theorem exists_eq_succ_of_length_le {v : Inline} {depth : Nat} (h : v.forms.length ≤ depth) :
    ∃ d, depth = d + 1 := by
  obtain ⟨form, more, hforms, -⟩ := v.exists_cons
  rw [hforms, List.length_cons] at h
  exact Nat.exists_eq_succ_of_ne_zero (Nat.ne_zero_of_lt h)

/-- A value that has no more tokens than levels can be nested is accepted. -/
theorem accepts_inlineValueWithin (v : Inline) {depth : Nat} (hdepth : v.forms.length ≤ depth)
    (hfollow : ∀ k, follow k → k ≠ .dot) :
    (inlineValueWithin depth).Accepts v.forms follow (·.erased = v.tree) := by
  induction v using Inline.ind generalizing depth follow with
  | scalar s =>
    obtain ⟨depth, rfl⟩ := exists_eq_succ_of_length_le hdepth
    exact accepts_scalar s depth hfollow
  | list b items ih =>
    obtain ⟨depth, rfl⟩ := exists_eq_succ_of_length_le hdepth
    rw [Inline.forms_list] at hdepth
    have hitems : ∀ v ∈ items, ∀ follow : TokenKind → Prop, (∀ k, follow k → k ≠ .dot) →
        (inlineValueWithin depth).Accepts v.forms follow (·.erased = v.tree) := by
      intro v hv follow hfollow
      have hlt := length_lt_bracketedForms b.bracket Inline.forms hv
      exact ih v hv (by omega) hfollow
    unfold inlineValueWithin
    refine .kind fun k hk => ?_
    rw [Inline.forms_list] at hk
    obtain rfl := kind_of_heads (fun _ ht => ht) hk
    cases b with
    | paren => exact accepts_inlineList .paren _ hitems
    | square => exact accepts_inlineList .square _ hitems
  | dictionary entries ih =>
    obtain ⟨depth, rfl⟩ := exists_eq_succ_of_length_le hdepth
    rw [Inline.forms_dictionary] at hdepth
    have hentries : ∀ e ∈ entries, ∀ follow : TokenKind → Prop, (∀ k, follow k → k ≠ .dot) →
        (inlineValueWithin depth).Accepts e.2.forms follow (·.erased = e.2.tree) := by
      intro e he follow hfollow
      have hlt := length_lt_bracketedForms .curly
        (fun e : String × Inline => Inline.entryForms (e.1, e.2.forms)) he
      have hentry : (Inline.entryForms (e.1, e.2.forms)).length = e.2.forms.length + 2 := rfl
      exact ih e he (by omega) hfollow
    unfold inlineValueWithin
    refine .kind fun k hk => ?_
    rw [Inline.forms_dictionary] at hk
    obtain rfl := kind_of_heads (fun _ ht => ht) hk
    exact accepts_inlineDictionary hentries

theorem accepts_inlineValue (v : Inline) (hfollow : ∀ k, follow k → k ≠ .dot) :
    inlineValue.Accepts v.forms follow (·.erased = v.tree) :=
  .look fun _ _ hs => accepts_inlineValueWithin v
    (Nat.le_succ_of_le (hs.length_le_lineLeft v.flat)) hfollow

/-- What begins as an inline value is one. -/
theorem accepts_value (v : Inline) (hfollow : ∀ k, follow k → k ≠ .dot) :
    value.Accepts v.forms follow (·.erased = v.tree) := by
  refine .look fun s _ _ => ?_
  unfold valueWithin
  refine .kind fun k hk => ?_
  have hbegins : beginsInline k = true := by
    obtain ⟨form, more, hforms, hbegins⟩ := v.exists_cons
    rw [hforms] at hk
    obtain ⟨t, ht, rfl⟩ := hk
    exact hbegins t ht
  split
  · cases hbegins
  · cases hbegins
  · cases hbegins
  · exact accepts_inlineValue v hfollow

end Parser

end AgentScript
