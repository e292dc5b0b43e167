import AgentScript.Proofs.Writing.Phrases

/-!
# Type tags as they are written

A tag is written without blanks except the one between the name of its type and its value.
Its scanner is a sequence of scanners, so how far it reaches is said of each of these, with
what has to follow.
-/
namespace AgentScript

open CharClass Lexeme Writing

namespace Writing

def isTypeName : List Char → Bool
  | [] => false
  | c :: rest => isAlphabetic c && rest.all isWordChar

/-- Text with no blanks around it, in which nothing ends the text. -/
def isTagText (ends : Char → Bool) (text : List Char) : Bool :=
  text.head?.any (fun c => !isWhitespace c) && text.getLast?.any (fun c => !isWhitespace c) &&
    text.all fun c => !ends c

structure TypeName where
  text : String
  isName : isTypeName text.toList = true

structure TagText (ends : Char → Bool) where
  text : String
  isText : isTagText ends text.toList = true

/-- A value with the name of its type and perhaps a modifier. -/
structure Tag where
  name : TypeName
  value : TagText endsTagValue
  modifier : Option (TagText endsModifier)

namespace Tag

def modifierText (t : Tag) : List Char := behind "|" (·.text.toList) t.modifier

/-- What stands between the brackets. -/
def inside (t : Tag) : List Char :=
  t.name.text.toList ++ ' ' :: (t.value.text.toList ++ t.modifierText)

def text (t : Tag) : List Char := '<' :: (t.inside ++ ['>'])

def modifierForms (t : Tag) : List TokenForm :=
  t.modifier.elim [] fun m => [.ofKind .pipe, .spelled (· = .typeTagModifier) m.text]

def insideForms (t : Tag) : List TokenForm :=
  .spelled (· = .typeTagName) t.name.text :: .spelled (· = .typeTagValue) t.value.text ::
    t.modifierForms

def forms (t : Tag) : List TokenForm := .ofKind .lt :: (t.insideForms ++ [.ofKind .gt])

end Tag

end Writing

theorem Divides.total_eq {pieces : List Piece} {text : List Char} {forms : List TokenForm}
    (h : Divides pieces text forms) : Piece.total pieces = text.length := by
  induction h with
  | nil => rfl
  | skip blank _ ih => simp [Piece.width, ih]
  | token lexeme _ _ ih => simp [Piece.width, ih]

theorem Divides.append {pieces pieces' : List Piece} {text text' : List Char}
    {forms forms' : List TokenForm} (h : Divides pieces text forms)
    (h' : Divides pieces' text' forms') :
    Divides (pieces ++ pieces') (text ++ text') (forms ++ forms') := by
  induction h with
  | nil => exact h'
  | skip blank _ ih =>
    rw [List.cons_append, List.append_assoc]
    exact .skip blank ih
  | token lexeme hform _ ih =>
    rw [List.cons_append, List.cons_append, List.append_assoc]
    exact .token lexeme hform ih

namespace Scanner

/-- The scanner divides the text into tokens of the forms, where an allowed text follows. -/
def Scans (s : Scanner) (text : List Char) (forms : List TokenForm) (follow : List Char → Prop) :
    Prop :=
  ∀ ⦃rest⦄, follow rest → Divides (s (text ++ rest)) text forms

variable {s s' : Scanner} {text text' : List Char} {forms forms' : List TokenForm}
  {follow follow' : List Char → Prop}

theorem Scans.andThen (h : s.Scans text forms follow) (h' : s'.Scans text' forms' follow')
    (hfollow : ∀ rest, follow' rest → follow (text' ++ rest)) :
    (Scanner.andThen s s').Scans (text ++ text') (forms ++ forms') follow' := by
  intro rest hrest
  have hfirst := h (hfollow rest hrest)
  rw [← List.append_assoc] at hfirst
  rw [Scanner.andThen, hfirst.total_eq, List.append_assoc, List.drop_left]
  rw [List.append_assoc] at hfirst
  exact hfirst.append (h' hrest)

theorem scans_nil (follow : List Char → Prop) : (sequence []).Scans [] [] follow :=
  fun _ _ => .nil

theorem scans_mark (kind : TokenKind) (c : Char) :
    Scans (fun _ => [.token kind 1]) [c] [.ofKind kind] Anything := fun _ _ => .mark fun _ _ => rfl

theorem scans_blank (blank : List Char) (h : blank.all isInlineSpace = true) :
    (skipping blankLength).Scans blank []
      fun rest => rest.head?.all (fun c => !isInlineSpace c) = true := by
  intro rest hrest
  rw [skipping, blankLength, spanLength, takeWhile_append h hrest]
  simpa using Divides.skip blank .nil

end Scanner

open Scanner

theorem endsWord_of_endsTypeName {rest : List Char} (h : rest.head?.any endsTypeName = true) :
    EndsWord rest := by
  cases rest with
  | nil => rfl
  | cons c rest =>
    have hc : endsTypeName c = true := h
    have hword : isWordChar c = false := by
      simp only [endsTypeName, isInlineSpace, Bool.or_eq_true, beq_iff_eq] at hc
      rcases hc with ((rfl | rfl) | rfl) | rfl <;> rfl
    simp [EndsWord, endsWord, hword]

/-- A name is read whole, where something that ends it follows. -/
theorem typeNameLength_append {name rest : List Char} (h : isTypeName name = true)
    (hrest : rest.head?.any endsTypeName = true) :
    typeNameLength (name ++ rest) = name.length := by
  cases name with
  | nil => cases h
  | cons c tail =>
    rw [isTypeName, Bool.and_eq_true] at h
    have hword : (c :: tail).all isWordChar = true := by
      rw [List.all_cons, isWordChar_of_isAlphabetic h.1, Bool.true_and]
      exact h.2
    rw [typeNameLength, wordLength_append hword (endsWord_of_endsTypeName hrest), List.drop_left]
    simp [h.1, hrest]

theorem scans_typeName {m : Mode} (hm : m.prefersTypeNames = true) (name : TypeName) :
    (typeName m).Scans name.text.toList [.spelled (· = .typeTagName) name.text]
      (·.head?.any endsTypeName = true) := by
  intro rest hrest
  obtain ⟨c, tail, htext, hname, heq⟩ := exists_cons rfl name.isName
  rw [htext, typeName, tokenOf, typeNameLength_append hname hrest, List.take_left, heq,
    Mode.wordKind, if_pos hm]
  exact .single fun _ _ => ⟨rfl, heq⟩

/-- The name of a type begins with no blank. -/
theorem head?_all_of_isTypeName {name : List Char} (h : isTypeName name = true)
    (rest : List Char) : (name ++ rest).head?.all (fun c => !isInlineSpace c) = true := by
  cases name with
  | nil => cases h
  | cons c tail =>
    rw [isTypeName, Bool.and_eq_true] at h
    have hne : ∀ mark, isWordChar mark = false → c ≠ mark :=
      fun mark => ne_of_isWordChar (isWordChar_of_isAlphabetic h.1)
    simp [isInlineSpace, hne ' ' rfl, hne '\t' rfl]

theorem trimmedLength_eq {text : List Char}
    (h : text.getLast?.any (fun c => !isWhitespace c) = true) :
    trimmedLength text = text.length := by
  rw [List.getLast?_eq_head?_reverse] at h
  cases hreverse : text.reverse with
  | nil =>
    rw [hreverse] at h
    exact nomatch h
  | cons c rest =>
    have hc : ¬isWhitespace c = true := by simpa [hreverse] using h
    rw [trimmedLength, hreverse, List.dropWhile_cons_of_neg hc, ← hreverse, List.length_reverse]

/-- The text of a tag begins with no blank. -/
theorem Writing.TagText.head?_all {ends : Char → Bool} (t : TagText ends) (rest : List Char) :
    (t.text.toList ++ rest).head?.all (fun c => !isInlineSpace c) = true := by
  have htext := t.isText
  rw [isTagText, Bool.and_eq_true, Bool.and_eq_true] at htext
  cases hcons : t.text.toList with
  | nil =>
    rw [hcons] at htext
    cases htext.1.1
  | cons c tail =>
    have hc : isWhitespace c = false := by simpa [hcons] using htext.1.1
    have hspace : isInlineSpace c = false := by
      rw [Bool.eq_false_iff]
      intro hspace
      simp only [isInlineSpace, Bool.or_eq_true, beq_iff_eq] at hspace
      rcases hspace with rfl | rfl <;> cases hc
    simp [hspace]

theorem scans_tagText (kind : TokenKind) {ends : Char → Bool} (t : TagText ends) :
    (tagText kind ends).Scans t.text.toList [.spelled (· = kind) t.text]
      (·.head?.any ends = true) := by
  intro rest hrest
  have htext := t.isText
  rw [isTagText, Bool.and_eq_true, Bool.and_eq_true] at htext
  obtain ⟨⟨hfirst, hlast⟩, hinside⟩ := htext
  have hraw : (t.text.toList ++ rest).takeWhile (fun c => !ends c) = t.text.toList := by
    refine takeWhile_append hinside ?_
    cases rest with
    | nil => rfl
    | cons c rest => simpa using hrest
  have hne : t.text.toList.length ≠ 0 := by
    intro hnil
    rw [List.length_eq_zero_iff.mp hnil] at hfirst
    exact nomatch hfirst
  rw [tagText, hraw, trimmedLength_eq hlast, if_neg hne, Nat.sub_self]
  have hpieces : Divides ([.token kind t.text.toList.length] ++ [.skip 0]) (t.text.toList ++ [])
      ([.spelled (· = kind) t.text] ++ []) :=
    Divides.append (.single fun _ _ => ⟨rfl, String.ofList_toList⟩) (.skip [] .nil)
  simpa using hpieces

theorem scans_tagModifier (t : Tag) :
    tagModifier.Scans t.modifierText t.modifierForms (·.head? = some '>') := by
  intro rest hrest
  unfold Tag.modifierText Tag.modifierForms
  cases t.modifier with
  | none =>
    obtain ⟨rest, rfl⟩ := List.head?_eq_some_iff.mp hrest
    exact .nil
  | some m =>
    have hdelimiter : ∀ rest : List Char, rest.head? = some '>' →
        rest.head?.any endsModifier = true := by
      intro rest hrest
      rw [hrest]
      rfl
    have htext := (scans_tagText .typeTagModifier m).andThen (scans_nil (·.head? = some '>'))
      hdelimiter
    have hblank := (scans_blank [] rfl).andThen htext fun rest _ => by
      rw [List.append_assoc]
      exact m.head?_all _
    have hpipe := (scans_mark .pipe '|').andThen hblank fun _ _ => trivial
    have hpieces : Divides (tagModifier (['|'] ++ ([] ++ (m.text.toList ++ [])) ++ rest)) _ _ :=
      hpipe hrest
    simpa [behind] using hpieces

theorem head?_modifierText (t : Tag) {rest : List Char} (h : rest.head? = some '>') :
    (t.modifierText ++ rest).head?.any endsTagValue = true := by
  obtain ⟨rest, rfl⟩ := List.head?_eq_some_iff.mp h
  unfold Tag.modifierText
  cases t.modifier with
  | none => rfl
  | some m => rfl

theorem scans_openTag {m : Mode} (hm : m.prefersTypeNames = true) (t : Tag) :
    (openTag m).Scans ('<' :: t.inside) (.ofKind .lt :: t.insideForms) (·.head? = some '>') := by
  have hmodifier := (scans_tagModifier t).andThen (scans_nil (·.head? = some '>')) fun _ h => h
  have hvalue := (scans_tagText .typeTagValue t.value).andThen hmodifier fun rest h => by
    rw [List.append_nil]
    exact head?_modifierText t h
  have hblank := (scans_blank [' '] rfl).andThen hvalue fun rest _ => by
    rw [List.append_assoc]
    exact t.value.head?_all _
  have hname := (scans_typeName hm t.name).andThen hblank fun _ _ => rfl
  have hinner := (scans_blank [] rfl).andThen hname fun rest _ => by
    rw [List.append_assoc]
    exact head?_all_of_isTypeName t.name.isName _
  have hall : (openTag m).Scans _ _ _ := (scans_mark .lt '<').andThen hinner fun _ _ => trivial
  simpa [Tag.inside, Tag.insideForms] using hall

theorem scans_typeTag {m : Mode} (hm : m.prefersTypeNames = true) (t : Tag) :
    (typeTag m).Scans t.text t.forms Anything := by
  intro rest _
  have hopen : Divides (openTag m ('<' :: t.inside ++ '>' :: rest)) _ _ := scans_openTag hm t rfl
  have htext : t.text ++ rest = '<' :: t.inside ++ '>' :: rest := by simp [Tag.text]
  have hdrop : (t.text ++ rest).drop (Piece.total (openTag m (t.text ++ rest))) = '>' :: rest := by
    rw [htext, hopen.total_eq, List.drop_left]
  have hpieces : typeTag m (t.text ++ rest) = openTag m (t.text ++ rest) ++ [.token .gt 1] := by
    rw [typeTag, hdrop]
    rfl
  have hforms : t.forms = (.ofKind .lt :: t.insideForms) ++ [.ofKind .gt] := rfl
  rw [hpieces, htext, hforms]
  exact hopen.append (.mark fun _ _ => rfl)

theorem Round.within_lt {l : Layout} {previous : Option Char} {p : Position} {text : List Char} :
    within l previous p '<' text = ⟨typeTag (l.modes.push .typeTag).current text, l⟩ := rfl

/-- A tag is read alike in every mode. -/
theorem readsAs_typeTag {modes : Mode → Prop} (t : Tag) :
    WithinLine modes Anything t.text t.forms modes Anything := by
  have hscans := fun (m : Mode) (hm : m.prefersTypeNames = true) => scans_typeTag hm t
  obtain ⟨text, htext⟩ : ∃ text, t.text = '<' :: text := ⟨_, rfl⟩
  rw [htext] at hscans ⊢
  refine fun _ _ => readsAs_of_within fun l previous p rest hl _ hf => ?_
  refine ⟨_, Round.within_lt, ?_, hl⟩
  dsimp only
  exact hscans _ rfl hf

end AgentScript
