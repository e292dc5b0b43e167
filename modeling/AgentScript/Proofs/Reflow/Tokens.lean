import AgentScript.Proofs.Parsing.Bodies
import AgentScript.Proofs.Reading.Composites
import AgentScript.Proofs.Reading.LineStructure

/-!
# Tokens of a text laid out anew

Texts that differ only in how their lines are laid out have the same words, and the same lines
and blocks around them. The line ends may stand elsewhere, and so may everything behind the last
line. Where a parse stands tells how far the tokens to come are the same: within a line a
problem may be found at the line end, behind captured text it cannot, and at the beginning of a
block the next token begins the block.
-/
namespace AgentScript

/-- Where the next token stands. -/
inductive Stance
  /-- Behind a word of a line. -/
  | inside
  /-- Behind a marker, where the text captured for it is passed. -/
  | captured
  /-- Behind the beginning of a block. -/
  | opened
  /-- Between two lines. -/
  | between
deriving DecidableEq

namespace Stance

/-- Behind a word of the kind. -/
def pass (st : Stance) (k : TokenKind) : Stance :=
  if st = captured ∨ k.captures?.isSome then captured else inside

/-- Where the next layout token may begin in two texts, if a line end that is looked at is moved as
the relation says. -/
def Meets (Moved : Position → Position → Prop) : Stance → Position → Position → Prop
  | inside, p, p' => Moved p p'
  | captured, _, _ => True
  | opened, p, p' => p = p'
  | between, _, _ => True

/-- Whether blocks and files may end here. -/
def endsLine : Stance → Bool
  | inside | captured => false
  | opened | between => true

/-- Where the tokens behind a token of the kind stand. -/
def behind (st : Stance) : TokenKind → Stance
  | .newline | .dedent | .eof => between
  | .indent => opened
  | k => st.pass k

/-- Where the tokens behind the first tokens of a text stand. -/
def after (kinds : List TokenKind) : Stance := kinds.foldl behind opened

theorem after_concat (kinds : List TokenKind) (k : TokenKind) :
    after (kinds ++ [k]) = (after kinds).behind k := by
  rw [after, List.foldl_append]
  rfl

theorem behind_of_inLine {st : Stance} {k : TokenKind} (hk : k.isStructural = false) :
    st.behind k = st.pass k := by
  cases k <;> first | rfl | exact nomatch hk

theorem endsLine_behind {st : Stance} {k : TokenKind} (hk : k.isStructural = true) :
    (st.behind k).endsLine = true := by
  cases k <;> first | rfl | exact nomatch hk

/-- Behind layout, and at the beginning, blocks may end. -/
theorem endsLine_after {kinds : List TokenKind}
    (h : ∀ last ∈ kinds.getLast?, last.isStructural = true) : (after kinds).endsLine = true := by
  induction kinds using List.reverseRecOn with
  | nil => rfl
  | append_singleton kinds k _ =>
    rw [after_concat]
    exact endsLine_behind (h k List.getLast?_concat)

theorem pass_eq_inside {st : Stance} {k : TokenKind} (hst : st ≠ captured)
    (hk : k.captures? = none) : st.pass k = inside := by
  simp [pass, hst, hk]

theorem pass_captured (k : TokenKind) : captured.pass k = captured := rfl

theorem endsLine_pass (st : Stance) (k : TokenKind) : (st.pass k).endsLine = false := by
  unfold pass
  split_ifs <;> rfl

theorem pass_between {st : Stance} (hst : st ≠ captured) (k : TokenKind) :
    between.pass k = st.pass k := by
  simp [pass, hst]

theorem meets_refl {Moved : Position → Position → Prop} (st : Stance) {p : Position}
    (h : Moved p p) : st.Meets Moved p p := by
  cases st with
  | inside => exact h
  | captured => trivial
  | opened => exact rfl
  | between => trivial

end Stance

namespace Token

/-- The tokens behind the last line: empty lines, as many ends of blocks, and the end of input. -/
inductive Closing : Nat → List Token → Prop
  | ended {t : Token} (ends : t.kind = .eof) : Closing 0 [t]
  | newline {d : Nat} {t : Token} {l : List Token} (empty : t.kind = .newline)
      (later : Closing d l) : Closing d (t :: l)
  | dedent {d : Nat} {t : Token} {l : List Token} (closes : t.kind = .dedent)
      (later : Closing d l) : Closing (d + 1) (t :: l)

/-- The text of the token does not begin with a letter, so it is no name. -/
def Unnamed (t : Token) : Prop := ∀ c ∈ t.text.toList.head?, CharClass.isAlphabetic c = false

/-- The tokens to come in two texts that differ in their layout only, where more blocks end than
begin by the number. Words and beginnings of blocks stay where they are. -/
inductive Reflowed (Moved : Position → Position → Prop) :
    Stance → Nat → List Token → List Token → Prop
  | word {st : Stance} {d : Nat} {t : Token} {l l' : List Token} (inLine : t.isStructural = false)
      (mark : t.kind.captures? ≠ none → t.Unnamed) (place : Moved t.start t.start)
      (later : Reflowed Moved (st.pass t.kind) d l l') : Reflowed Moved st d (t :: l) (t :: l')
  | newline {st : Stance} {d : Nat} {t t' : Token} {l l' : List Token} (ends : t.IsMark .newline)
      (ends' : t'.IsMark .newline) (start : st.Meets Moved t.start t'.start)
      (later : Reflowed Moved .between d l l') : Reflowed Moved st d (t :: l) (t' :: l')
  | indent {st : Stance} {d : Nat} {t t' : Token} {l l' : List Token} (opens : t.IsMark .indent)
      (opens' : t'.IsMark .indent) (start : t.start = t'.start) (place : Moved t.start t.start)
      (later : Reflowed Moved .opened (d + 1) l l') : Reflowed Moved st d (t :: l) (t' :: l')
  | dedent {st : Stance} {d : Nat} {t t' : Token} {l l' : List Token} (hst : st.endsLine = true)
      (closes : t.kind = .dedent) (closes' : t'.kind = .dedent)
      (start : st.Meets Moved t.start t'.start) (later : Reflowed Moved .between d l l') :
      Reflowed Moved st (d + 1) (t :: l) (t' :: l')
  | closing {st : Stance} {d : Nat} {t t' : Token} {l l' : List Token} (hst : st.endsLine = true)
      (start : st.Meets Moved t.start t'.start) (closes : Closing d (t :: l))
      (closes' : Closing d (t' :: l')) : Reflowed Moved st d (t :: l) (t' :: l')

namespace Closing

variable {d : Nat} {t : Token} {l : List Token}

theorem isStructural (h : Closing d (t :: l)) : t.isStructural = true := by
  cases h with
  | ended ends => rw [Token.isStructural, ends]; rfl
  | newline empty => rw [Token.isStructural, empty]; rfl
  | dedent closes => rw [Token.isStructural, closes]; rfl

theorem ne_indent (h : Closing d (t :: l)) : t.kind ≠ .indent := by
  cases h with
  | ended ends => simp [ends]
  | newline empty => simp [empty]
  | dedent closes => simp [closes]

theorem exists_cons (h : Closing d l) : ∃ t l', l = t :: l' := by
  cases h with
  | ended => exact ⟨_, _, rfl⟩
  | newline => exact ⟨_, _, rfl⟩
  | dedent => exact ⟨_, _, rfl⟩

end Closing

namespace Reflowed

variable {Moved : Position → Position → Prop} {st st' : Stance} {d : Nat} {t t' : Token}
  {l l' : List Token}

/-- Between two lines least is known of the tokens to come. -/
theorem between (h : Reflowed Moved st d l l') (hst : st ≠ .captured) :
    Reflowed Moved .between d l l' := by
  cases h with
  | word inLine mark place later =>
    exact .word inLine mark place (Stance.pass_between hst _ ▸ later)
  | newline ends ends' _ later => exact .newline ends ends' trivial later
  | indent opens opens' start place later => exact .indent opens opens' start place later
  | dedent _ closes closes' _ later => exact .dedent rfl closes closes' trivial later
  | closing _ _ closes closes' => exact .closing rfl trivial closes closes'

/-- Behind a line a line begins with a word or a block if nothing ends there. -/
theorem inside (h : Reflowed Moved st d (t :: l) (t' :: l')) (hst : st ≠ .captured)
    (ht : t.isStructural = false ∨ t.kind = .indent) :
    Reflowed Moved .inside d (t :: l) (t' :: l') := by
  have hne {k : TokenKind} (hk : t.kind = k) (hstruct : k.isStructural = true)
      (hindent : k ≠ .indent) : False := TokenKind.ne_of_beginsLine ht hstruct hindent hk
  cases h with
  | word inLine mark place later =>
    refine .word inLine mark place ?_
    have hpass : Stance.inside.pass t.kind = st.pass t.kind := by simp [Stance.pass, hst]
    exact hpass ▸ later
  | newline ends => exact (hne ends.kind_eq rfl (by simp)).elim
  | indent opens opens' start place later => exact .indent opens opens' start place later
  | dedent _ closes => exact (hne closes rfl (by simp)).elim
  | closing _ _ closes =>
    rcases ht with ht | ht
    · rw [closes.isStructural] at ht
      cases ht
    · exact absurd ht closes.ne_indent

/-- Both texts have the same words before the next layout token. -/
theorem takeWhile_eq (h : Reflowed Moved st d l l') :
    (l.takeWhile fun t => !t.isStructural) = l'.takeWhile fun t => !t.isStructural := by
  have hnil {t : Token} {l : List Token} (ht : t.isStructural = true) :
      ((t :: l).takeWhile fun t => !t.isStructural) = [] :=
    List.takeWhile_cons_of_neg (by simp [ht])
  have hmark {k : TokenKind} {t : Token} {l : List Token} (ht : t.kind = k)
      (hk : k.isStructural = true) : ((t :: l).takeWhile fun t => !t.isStructural) = [] :=
    hnil (by rw [Token.isStructural, ht, hk])
  induction h with
  | word inLine _ _ _ ih => simp [inLine, ih]
  | newline ends ends' => rw [hmark ends.kind_eq rfl, hmark ends'.kind_eq rfl]
  | indent opens opens' => rw [hmark opens.kind_eq rfl, hmark opens'.kind_eq rfl]
  | dedent _ closes closes' => rw [hmark closes rfl, hmark closes' rfl]
  | closing _ _ closes closes' => rw [hnil closes.isStructural, hnil closes'.isStructural]

/-- In both texts a word comes next, or a block begins, or neither. -/
theorem head_iff (h : Reflowed Moved st d (t :: l) (t' :: l')) {k : TokenKind}
    (hk : k.isStructural = false ∨ k = .indent) : t.kind = k ↔ t'.kind = k := by
  have hmark {k' : TokenKind} {t : Token} (ht : t.kind = k') (hstruct : k'.isStructural = true)
      (hindent : k' ≠ .indent) : ¬t.kind = k :=
    fun h => TokenKind.ne_of_beginsLine hk hstruct hindent (h.symm.trans ht)
  have hclosing {t : Token} {l : List Token} (h : Closing d (t :: l)) : ¬t.kind = k := by
    rintro rfl
    rcases hk with hk | hk
    · exact absurd h.isStructural (by simp [Token.isStructural, hk])
    · exact h.ne_indent hk
  cases h with
  | word => exact Iff.rfl
  | newline ends ends' =>
    exact iff_of_false (hmark ends.kind_eq rfl (by simp)) (hmark ends'.kind_eq rfl (by simp))
  | indent opens opens' => rw [opens.kind_eq, opens'.kind_eq]
  | dedent _ closes closes' =>
    exact iff_of_false (hmark closes rfl (by simp)) (hmark closes' rfl (by simp))
  | closing _ _ closes closes' => exact iff_of_false (hclosing closes) (hclosing closes')

/-- Within a line the next tokens are of one kind. -/
theorem kind_eq (h : Reflowed Moved st d (t :: l) (t' :: l')) (hst : st.endsLine = false) :
    t.kind = t'.kind := by
  cases h with
  | word => rfl
  | newline ends ends' => rw [ends.kind_eq, ends'.kind_eq]
  | indent opens opens' => rw [opens.kind_eq, opens'.kind_eq]
  | dedent _ closes closes' => rw [closes, closes']
  | closing hends => exact nomatch hst.symm.trans hends

/-- They begin where a line end may be moved to. -/
theorem meets (h : Reflowed Moved st d (t :: l) (t' :: l')) : st.Meets Moved t.start t'.start := by
  cases h with
  | word _ _ place => exact st.meets_refl place
  | newline _ _ start => exact start
  | indent _ _ start place => exact start ▸ st.meets_refl place
  | dedent _ _ _ start => exact start
  | closing _ start => exact start

/-- The texts of layout tokens of a line are blank, and markers are no names. -/
theorem text_cases (h : Reflowed Moved st d (t :: l) (t' :: l')) (hst : st.endsLine = false) :
    t = t' ∧ t.isStructural = false ∧ (t.kind.captures? ≠ none → t.Unnamed) ∨
      (∀ c ∈ t.text.toList, CharClass.isWhitespace c = true) ∧
        ∀ c ∈ t'.text.toList, CharClass.isWhitespace c = true := by
  cases h with
  | word inLine mark => exact .inl ⟨rfl, inLine, mark⟩
  | newline ends ends' => exact .inr ⟨ends.blank, ends'.blank⟩
  | indent opens opens' => exact .inr ⟨opens.blank, opens'.blank⟩
  | dedent hends => exact nomatch hst.symm.trans hends
  | closing hends => exact nomatch hst.symm.trans hends

/-- A word comes next in both texts. -/
theorem word_cases (h : Reflowed Moved st d (t :: l) (t' :: l')) (ht : t.isStructural = false) :
    t = t' ∧ Moved t.start t.start ∧ Reflowed Moved (st.pass t.kind) d l l' := by
  have hmark {k : TokenKind} (hk : t.kind = k) (hstruct : k.isStructural = true) : False :=
    TokenKind.ne_of_isStructural ht hstruct hk
  cases h with
  | word _ _ place later => exact ⟨rfl, place, later⟩
  | newline ends => exact (hmark ends.kind_eq rfl).elim
  | indent opens => exact (hmark opens.kind_eq rfl).elim
  | dedent _ closes => exact (hmark closes rfl).elim
  | closing _ _ closes =>
    rw [closes.isStructural] at ht
    cases ht

/-- A block begins next in both texts. -/
theorem indent_cases (h : Reflowed Moved st d (t :: l) (t' :: l')) (ht : t.kind = .indent) :
    t'.IsMark .indent ∧ Moved t.start t'.start ∧ Reflowed Moved .opened (d + 1) l l' := by
  cases h with
  | word inLine => simp [Token.isStructural, ht, TokenKind.isStructural] at inLine
  | newline ends => cases ends.kind_eq.symm.trans ht
  | indent _ opens' start place later => exact ⟨opens', start ▸ place, later⟩
  | dedent _ closes => cases closes.symm.trans ht
  | closing _ _ closes => exact absurd ht closes.ne_indent

/-- A line ends next in both texts. -/
theorem newline_cases (h : Reflowed Moved st d (t :: l) (t' :: l')) (ht : t.kind = .newline)
    (ht' : t'.kind = .newline) : Reflowed Moved .between d l l' := by
  cases h with
  | word inLine => simp [Token.isStructural, ht, TokenKind.isStructural] at inLine
  | newline _ _ _ later => exact later
  | indent opens => cases opens.kind_eq.symm.trans ht
  | dedent _ closes => cases closes.symm.trans ht
  | closing _ _ closes closes' =>
    cases closes with
    | ended ends => cases ends.symm.trans ht
    | dedent closes => cases closes.symm.trans ht
    | newline _ later =>
      cases closes' with
      | ended ends => cases ends.symm.trans ht'
      | dedent closes => cases closes.symm.trans ht'
      | newline _ later' =>
        obtain ⟨x, l, rfl⟩ := later.exists_cons
        obtain ⟨x', l', rfl⟩ := later'.exists_cons
        exact .closing rfl trivial later later'

/-- A block ends next in both texts. -/
theorem dedent_cases (h : Reflowed Moved st d (t :: l) (t' :: l')) (ht : t.kind = .dedent)
    (ht' : t'.kind = .dedent) : ∃ e, d = e + 1 ∧ Reflowed Moved .between e l l' := by
  cases h with
  | word inLine => simp [Token.isStructural, ht, TokenKind.isStructural] at inLine
  | newline ends => cases ends.kind_eq.symm.trans ht
  | indent opens => cases opens.kind_eq.symm.trans ht
  | dedent _ _ _ _ later => exact ⟨_, rfl, later⟩
  | closing _ _ closes closes' =>
    cases closes with
    | ended ends => cases ends.symm.trans ht
    | newline empty => cases empty.symm.trans ht
    | dedent _ later =>
      cases closes' with
      | newline empty => cases empty.symm.trans ht'
      | dedent _ later' =>
        obtain ⟨x, l, rfl⟩ := later.exists_cons
        obtain ⟨x', l', rfl⟩ := later'.exists_cons
        exact ⟨_, rfl, .closing rfl trivial later later'⟩

/-- The same token in two texts, or the beginnings of a block by different indentations. -/
def Indented (t t' : Token) : Prop :=
  t = t' ∨ t.IsMark .indent ∧ t'.IsMark .indent ∧ t.start = t'.start

/-- A token in front of the ones that may differ. -/
theorem cons {e : Nat} (hne : t.kind ≠ .eof) (hblank : t.BlankIfLayout)
    (hmark : t.kind.captures? ≠ none → t.Unnamed) (hplace : Moved t.start t.start)
    (hsame : Indented t t')
    (hends : t.kind = .dedent → st.endsLine = true)
    (hlevel : e + [t.kind].count .indent = d + [t.kind].count .dedent)
    (h : Reflowed Moved (st.behind t.kind) d l l') : Reflowed Moved st e (t :: l) (t' :: l') := by
  have hsame' (hk : t.kind ≠ .indent) : t = t' := hsame.resolve_right fun h => hk h.1.kind_eq
  have hmarks (k : TokenKind) (hk : t.kind = k) (hstruct : k.isStructural = true) : t.IsMark k :=
    ⟨hk, hblank (by rw [Token.isStructural, hk, hstruct])⟩
  cases hstruct : t.isStructural with
  | false =>
    have hne : t.kind ≠ .indent ∧ t.kind ≠ .dedent := by
      constructor <;> intro hk <;> simp [Token.isStructural, hk, TokenKind.isStructural] at hstruct
    obtain rfl := hsame' hne.1
    obtain rfl : e = d := by simpa [hne.1, hne.2] using hlevel
    exact .word hstruct hmark hplace (Stance.behind_of_inLine hstruct ▸ h)
  | true =>
    generalize hk : t.kind = k at h hlevel
    rw [Token.isStructural, hk] at hstruct
    cases k with
    | newline =>
      obtain rfl := hsame' (by simp [hk])
      obtain rfl : e = d := by simpa using hlevel
      exact .newline (hmarks _ hk rfl) (hmarks _ hk rfl) (Stance.meets_refl _ hplace) h
    | indent =>
      obtain rfl : e + 1 = d := by simpa using hlevel
      obtain ⟨hopens', hstart⟩ : t'.IsMark .indent ∧ t.start = t'.start := by
        rcases hsame with rfl | ⟨-, hopens', hstart⟩
        · exact ⟨hmarks _ hk rfl, rfl⟩
        · exact ⟨hopens', hstart⟩
      exact .indent (hmarks _ hk rfl) hopens' hstart hplace h
    | dedent =>
      obtain rfl := hsame' (by simp [hk])
      obtain rfl : e = d + 1 := by simpa using hlevel
      exact .dedent (hends hk) hk hk (Stance.meets_refl _ hplace) h
    | eof => exact (hne hk).elim
    | _ => cases hstruct

/-- The tokens of a text in front of the ones that may differ, by induction from their end on. -/
theorem append {body body' : List Token} (hnested : TokenKind.Nested (body.map (·.kind)) d)
    (hblank : ∀ t ∈ body, t.BlankIfLayout)
    (hmark : ∀ t ∈ body, t.kind.captures? ≠ none → t.Unnamed)
    (hplace : ∀ t ∈ body, Moved t.start t.start)
    (hsame : List.Forall₂ Indented body body')
    (h : Reflowed Moved (Stance.after (body.map (·.kind))) d l l') :
    Reflowed Moved .opened 0 (body ++ l) (body' ++ l') := by
  induction body using List.reverseRecOn generalizing body' d l l' with
  | nil =>
    cases hsame
    have hd : d = 0 := by simpa using hnested.count_eq.symm
    exact hd ▸ h
  | append_singleton body t ih =>
    have hbefore := List.forall₂_take_append _ _ _ hsame.flip
    have htoken := List.forall₂_drop_append _ _ _ hsame.flip
    rw [← List.take_append_drop body.length body', List.append_assoc, List.append_assoc]
    generalize body'.take body.length = before' at hbefore ⊢
    generalize body'.drop body.length = token' at htoken ⊢
    rw [List.map_append, List.map_singleton] at hnested h
    rw [Stance.after_concat] at h
    obtain ⟨e, hfirst, hfollow, hlevel⟩ := hnested.exists_of_concat
    have hmem : t ∈ body ++ [t] := List.mem_append_right _ (List.mem_singleton_self t)
    have hneof : t.kind ≠ .eof := fun heof =>
      hnested.eof_notMem (heof ▸ List.mem_append_right _ (List.mem_singleton_self _))
    have hends (hk : t.kind = .dedent) : (Stance.after (body.map (·.kind))).endsLine = true := by
      refine Stance.endsLine_after fun last hlast => ?_
      by_contra hword
      rcases (hfollow last hlast).2 (Bool.eq_false_iff.mpr hword) with hnext | hnext
      · exact nomatch hk.symm.trans hnext
      · exact nomatch (hk ▸ hnext : TokenKind.dedent.isStructural = false)
    refine ih hfirst (fun t ht => hblank t (List.mem_append_left _ ht))
      (fun t ht => hmark t (List.mem_append_left _ ht))
      (fun t ht => hplace t (List.mem_append_left _ ht)) hbefore.flip ?_
    cases htoken with
    | cons ht hnil =>
      cases hnil
      exact .cons hneof (hblank t hmem) (hmark t hmem) (hplace t hmem) ht hends hlevel h

end Reflowed

end Token

end AgentScript
