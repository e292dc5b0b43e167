import AgentScript.Proofs.Parsing.Building
import AgentScript.Proofs.Parsing.FileLines
import AgentScript.Proofs.Parsing.SectionRuns
import AgentScript.Proofs.Writing.Indentation
import Mathlib.Algebra.BigOperators.Group.List.Basic

/-!
# Accepting what was written

A parser accepts tokens of certain forms if it passes all of them, reports nothing, and
answers with what was meant, whatever stands before them and with a token of an allowed
kind behind them. Parsers that accept one after the other accept what is written one after
the other; the loops over lines, over items of a block and over the items of a file accept
line by line.
-/
namespace AgentScript

open ParserState Writing

variable {α β γ : Type}

/-- The kinds of tokens that something written can begin with, where tokens of the kinds
`follow` come after it. -/
def Heads (forms : List TokenForm) (follow : TokenKind → Prop) (k : TokenKind) : Prop :=
  match forms with
  | [] => follow k
  | form :: _ => ∃ t, form t ∧ t.kind = k

@[simp] theorem heads_nil {follow : TokenKind → Prop} {k : TokenKind} :
    Heads [] follow k = follow k := rfl

@[simp] theorem heads_ofKind {forms : List TokenForm} {follow : TokenKind → Prop}
    {k k' : TokenKind} : Heads (.ofKind k :: forms) follow k' ↔ k' = k := by
  constructor
  · rintro ⟨t, ht, rfl⟩
    exact ht
  · rintro rfl
    exact ⟨.mark k' .origin, rfl, rfl⟩

namespace TokenForm

/-- A token that stands within a line. -/
def OnLine (form : TokenForm) : Prop := ∀ t, form t → t.isStructural = false

theorem OnLine.ne_eof {form : TokenForm} (h : form.OnLine) (t : Token) (ht : form t) :
    t.kind ≠ .eof := Token.ne_of_word (h t ht) rfl

theorem onLine_ofKind {k : TokenKind} (hk : k.isStructural = false) : (ofKind k).OnLine := by
  intro t ht
  rwa [Token.isStructural, show t.kind = k from ht]

theorem onLine_spelled {k : TokenKind} {text : String} (hk : k.isStructural = false) :
    (spelled (· = k) text).OnLine := fun t ht => onLine_ofKind hk t ht.1

theorem onLine_word (text : String) : (word text).OnLine :=
  fun _ ht => Parser.isStructural_of_isWordlike ht.1

theorem onLine_string (text : String) : (string text).OnLine := fun t ht => onLine_ofKind rfl t ht.1

end TokenForm

/-- Something written that a line can begin with. -/
def Opens (forms : List TokenForm) : Prop := ∃ form more, forms = form :: more ∧ form.OnLine

/-- Something written within a line. -/
def Flat (forms : List TokenForm) : Prop := ∀ form ∈ forms, form.OnLine

theorem flat_append {forms forms' : List TokenForm} :
    Flat (forms ++ forms') ↔ Flat forms ∧ Flat forms' := List.forall_mem_append

theorem flat_cons {form : TokenForm} {forms : List TokenForm} :
    Flat (form :: forms) ↔ form.OnLine ∧ Flat forms := List.forall_mem_cons

theorem flat_nil : Flat [] := fun _ h => nomatch h

theorem Token.Match.isStructural_eq {tokens : List Token} {forms : List TokenForm}
    (h : Token.Match tokens forms) (hflat : Flat forms) :
    ∀ t ∈ tokens, t.isStructural = false := by
  induction h with
  | nil => simp
  | cons hform _ ih =>
    rw [flat_cons] at hflat
    exact List.forall_mem_cons.mpr ⟨hflat.1 _ hform, ih hflat.2⟩

theorem flat_flatMap {words : α → List TokenForm} {xs : List α} (h : ∀ x ∈ xs, Flat (words x)) :
    Flat (xs.flatMap words) := by
  intro form hform
  obtain ⟨x, hx, hword⟩ := List.mem_flatMap.mp hform
  exact h x hx form hword

theorem kind_of_heads {form : TokenForm} {forms : List TokenForm} {follow : TokenKind → Prop}
    {k k' : TokenKind} (hform : ∀ t, form t → t.kind = k') (h : Heads (form :: forms) follow k) :
    k = k' := by
  obtain ⟨t, ht, rfl⟩ := h
  exact hform t ht

theorem kind_of_heads_string {text : String} {forms : List TokenForm} {follow : TokenKind → Prop}
    {k : TokenKind} (h : Heads (.string text :: forms) follow k) : k = .string :=
  kind_of_heads (fun _ ht => ht.1) h

theorem atomName_of_form {name : AtomName} {t : Token} (h : TokenForm.atom name t) :
    atomName t.text = name.text := by
  simp only [h.2, atomName, String.toList_ofList, String.ofList_toList]

/-- A state before tokens of the forms and another token, with all of the problems that may be
reported still to come. -/
structure ParserState.Before (s : ParserState) (forms : List TokenForm)
    (follow : TokenKind → Prop) (rest : List Token) : Prop where
  tokens : ∃ passed, s.tokens = passed ++ rest ∧ Token.Match passed forms
  follows : ∃ next more, rest = next :: more ∧ follow next.kind
  ending : s.ending.kind = .eof
  going : s.halted = false

/-- The parser passes tokens of the forms, where a token of the kinds `follow` comes after them,
and answers with a result that has the property; it reports nothing. -/
def Parser.Accepts (p : Parser α) (forms : List TokenForm) (follow : TokenKind → Prop)
    (Q : α → Prop) : Prop :=
  ∀ ⦃s : ParserState⦄ ⦃rest : List Token⦄, s.Before forms follow rest →
    ∃ a t, p s = .ok a t ∧ Q a ∧ s.Reaches t [] rest

namespace ParserState

variable {s t : ParserState} {forms forms' : List TokenForm} {follow : TokenKind → Prop}
  {rest : List Token}

theorem Reaches.halted_eq (h : s.Reaches t [] rest) : t.halted = s.halted := by
  have hproblems : t.problems = s.problems := by
    rw [← Array.toList_inj, h.problems, List.append_nil]
  rw [ParserState.halted, ParserState.halted, hproblems, h.cap]

/-- What is written next decides the kind of the next token. -/
theorem Before.heads (h : s.Before forms follow rest) : Heads forms follow s.kind := by
  obtain ⟨passed, htokens, hforms⟩ := h.tokens
  obtain ⟨next, more, rfl, hnext⟩ := h.follows
  cases hforms with
  | nil =>
    rw [kind_of_tokens htokens]
    exact hnext
  | cons hform _ =>
    rw [kind_of_tokens htokens]
    exact ⟨_, hform, rfl⟩

/-- What stands before fewer kinds of tokens stands before more. -/
theorem Before.imp {follow' : TokenKind → Prop} (h : s.Before forms follow rest)
    (himp : ∀ k, follow k → follow' k) : s.Before forms follow' rest := by
  obtain ⟨next, more, hrest, hnext⟩ := h.follows
  exact { h with follows := ⟨next, more, hrest, himp _ hnext⟩ }

/-- Tokens of the first forms come before those of the others. -/
theorem Before.split (h : s.Before (forms ++ forms') follow rest) :
    ∃ middle, s.Before forms (Heads forms' follow) middle ∧
      ∀ t, s.Reaches t [] middle → t.Before forms' follow rest := by
  obtain ⟨passed, htokens, hforms⟩ := h.tokens
  obtain ⟨first, second, rfl, hfirst, hsecond⟩ := hforms.split
  rw [List.append_assoc] at htokens
  refine ⟨second ++ rest, ⟨⟨first, htokens, hfirst⟩, ?_, h.ending, h.going⟩, fun t ht =>
    ⟨⟨second, ht.tokens, hsecond⟩, h.follows, ht.ending, ht.halted_eq.trans h.going⟩⟩
  obtain ⟨next, more, rfl, hnext⟩ := h.follows
  cases hsecond with
  | nil => exact ⟨next, more, rfl, hnext⟩
  | cons hform _ => exact ⟨_, _, rfl, _, hform, rfl⟩

/-- The next token is of the first form and can be passed. -/
theorem Before.cons {form : TokenForm} (h : s.Before (form :: forms) follow rest) :
    form s.current ∧ ∃ more, s.tokens = s.current :: more ∧ (forms = [] → more = rest) := by
  obtain ⟨passed, htokens, hforms⟩ := h.tokens
  cases hforms with
  | cons hform hrest =>
    rw [current_of_tokens htokens]
    refine ⟨hform, _, htokens, ?_⟩
    rintro rfl
    cases hrest
    rfl

/-- The next two tokens are of the first two forms. -/
theorem Before.cons_cons {form form' : TokenForm}
    (h : s.Before (form :: form' :: forms) follow rest) : form s.current ∧ form' (s.ahead 1) := by
  obtain ⟨passed, htokens, hforms⟩ := h.tokens
  cases hforms with
  | cons hfirst hrest =>
    cases hrest with
    | cons hsecond _ =>
      rw [current_of_tokens htokens, ahead_one_of_tokens htokens]
      exact ⟨hfirst, hsecond⟩

end ParserState

/-- Tokens of the forms that stand within a line are left on the line. -/
theorem ParserState.Before.length_le_lineLeft {s : ParserState} {forms : List TokenForm}
    {follow : TokenKind → Prop} {rest : List Token} (h : s.Before forms follow rest)
    (hflat : Flat forms) : forms.length ≤ s.lineLeft := by
  obtain ⟨passed, htokens, hforms⟩ := h.tokens
  have hpassed := hforms.isStructural_eq hflat
  have hending : s.ending.isStructural = true := by
    rw [Token.isStructural, h.ending]
    rfl
  have hline : s.tokens.takeWhile (!·.isStructural) = s.rest.takeWhile (!·.isStructural) := by
    rw [ParserState.tokens, List.takeWhile_append]
    split_ifs with hall
    · rw [List.takeWhile_cons_of_neg (by simp [hending]), List.append_nil]
      exact (List.takeWhile_sublist _).eq_of_length hall |>.symm
    · rfl
  rw [ParserState.lineLeft, ← hline, htokens,
    List.takeWhile_append_of_pos (by simpa using hpassed), List.length_append, ← hforms.length_eq]
  omega

namespace Parser

namespace Accepts

variable {p : Parser α} {g : α → Parser β} {form : TokenForm} {forms forms' : List TokenForm}
  {follow : TokenKind → Prop} {Q Q' : α → Prop} {R : β → Prop}

theorem pure {a : α} (h : Q a) : (pure a : Parser α).Accepts [] follow Q := by
  intro s rest hs
  obtain ⟨passed, htokens, hforms⟩ := hs.tokens
  cases hforms
  exact ⟨a, s, rfl, h, .refl htokens hs.ending⟩

theorem bind (h : p.Accepts forms (Heads forms' follow) Q)
    (h' : ∀ a, Q a → (g a).Accepts forms' follow R) :
    (p >>= g).Accepts (forms ++ forms') follow R := by
  intro s rest hs
  obtain ⟨middle, hfirst, hsecond⟩ := hs.split
  obtain ⟨a, t, hp, ha, ht⟩ := h hfirst
  obtain ⟨b, u, hg, hb, hu⟩ := h' a ha (hsecond t ht)
  exact ⟨b, u, by rw [bind_of_ok g hp, hg], hb, ht.trans hu⟩

theorem bind_last (h : p.Accepts forms follow Q) (h' : ∀ a, Q a → (g a).Accepts [] follow R) :
    (p >>= g).Accepts forms follow R :=
  List.append_nil forms ▸ h.bind h'

/-- What is accepted before more kinds of tokens is accepted before fewer. -/
theorem narrow {follow' : TokenKind → Prop} (h : p.Accepts forms follow Q)
    (hfollow : ∀ k, follow' k → follow k) : p.Accepts forms follow' Q :=
  fun _ _ hs => h (hs.imp hfollow)

/-- Less can be known of the answer. -/
theorem imp (h : p.Accepts forms follow Q) (himp : ∀ a, Q a → Q' a) :
    p.Accepts forms follow Q' := by
  intro s rest hs
  obtain ⟨a, t, hp, ha, ht⟩ := h hs
  exact ⟨a, t, hp, himp a ha, ht⟩

/-- A parser that passes one token. -/
theorem token (hform : ∀ t, form t → t.kind ≠ .eof)
    (h : ∀ s, form s.current → ∃ a, p s = .ok a s.advance ∧ Q a) :
    p.Accepts [form] follow Q := by
  intro s rest hs
  obtain ⟨hcurrent, more, htokens, hmore⟩ := hs.cons
  obtain ⟨a, hp, ha⟩ := h s hcurrent
  exact ⟨a, s.advance, hp, ha,
    hmore rfl ▸ (Reaches.refl htokens hs.ending).advance (hform _ hcurrent)⟩

/-- What is only looked at changes nothing. -/
theorem look {f : ParserState → γ} {g : γ → Parser β}
    (h : ∀ s rest, s.Before forms follow rest → (g (f s)).Accepts forms follow R) :
    (Parser.look f >>= g).Accepts forms follow R :=
  fun s rest hs => h s rest hs hs

theorem kind {g : TokenKind → Parser β}
    (h : ∀ k, Heads forms follow k → (g k).Accepts forms follow R) :
    (Parser.kind >>= g).Accepts forms follow R :=
  look fun _ _ hs => h _ hs.heads

theorem peek {g : Token → Parser β}
    (h : ∀ t, Heads forms follow t.kind → (g t).Accepts forms follow R) :
    (Parser.peek >>= g).Accepts forms follow R :=
  look fun _ _ hs => h _ hs.heads

theorem peek_form {g : Token → Parser β}
    (h : ∀ t, form t → (g t).Accepts (form :: forms) follow R) :
    (Parser.peek >>= g).Accepts (form :: forms) follow R :=
  look fun _ _ hs => h _ hs.cons.1

theorem spanFrom {start : Position} {g : Location → Parser β}
    (h : ∀ l, (g l).Accepts forms follow R) :
    (Parser.spanFrom start >>= g).Accepts forms follow R :=
  look fun _ _ _ => h _

theorem check_of {k : TokenKind} {yes no : Parser β} (hk : ∀ k', Heads forms follow k' → k' = k)
    (h : yes.Accepts forms follow R) :
    (Parser.check k >>= fun c => if c = true then yes else no).Accepts forms follow R := by
  intro s rest hs
  rw [check_bind_apply, if_pos (hk _ hs.heads)]
  exact h hs

theorem check_of_ne {k : TokenKind} {yes no : Parser β} (hk : ∀ k', Heads forms follow k' → k' ≠ k)
    (h : no.Accepts forms follow R) :
    (Parser.check k >>= fun c => if c = true then yes else no).Accepts forms follow R := by
  intro s rest hs
  rw [check_bind_apply, if_neg (hk _ hs.heads)]
  exact h hs

end Accepts

section

variable {follow : TokenKind → Prop}

theorem accepts_advance {form : TokenForm} (hform : ∀ t, form t → t.kind ≠ .eof) :
    advance.Accepts [form] follow form :=
  .token hform fun s hs => ⟨s.current, rfl, hs⟩

/-- A token within the line is passed. -/
theorem accepts_pass {form : TokenForm} (hform : form.OnLine) :
    advance.Accepts [form] follow form := accepts_advance hform.ne_eof

theorem accepts_expect {k : TokenKind} (hk : k ≠ .eof) (what : String) :
    (expect k what).Accepts [.ofKind k] follow Anything := by
  refine .token (fun t ht => ht ▸ hk) fun s hs => ⟨s.current, ?_, trivial⟩
  have hkind : s.kind = k := hs
  rw [expect_apply, if_pos hkind]

theorem accepts_takeName (name what : String) :
    (takeName what).Accepts [.word name] follow (· = name) :=
  .token (TokenForm.onLine_word name).ne_eof fun s hs =>
    ⟨s.current.text, takeName_of_word hs.1, hs.2⟩

theorem accepts_takeString (text what : String) :
    (takeString what).Accepts [.string text] follow (· = text) := by
  refine .token (TokenForm.onLine_string text).ne_eof fun s hs =>
    ⟨Quoted.decodeString s.current.text, ?_, hs.2⟩
  have hkind : s.kind = .string := hs.1
  rw [takeString, bind_of_ok _ (by rw [expect_apply, if_pos hkind])]
  rfl

theorem accepts_noSectionName {what : String}
    (hfollow : ∀ k, follow k → k = .colon) :
    (takeSectionName what).Accepts [] follow (· = none) :=
  .check_of hfollow (.pure rfl)

theorem accepts_fillOnce {old : Option α} (h : old = none) (new : α) (cause : ParseCause)
    (location : Location) :
    (fillOnce old new cause location).Accepts [] follow (· = some new) := by
  subst h
  exact .pure rfl

/-- The end of a line. -/
theorem accepts_finishLine : finishLine.Accepts [.ofKind .newline] follow Anything := by
  refine .token (fun t ht => ?_) fun s hs => ⟨(), finishLine_of_newline hs, trivial⟩
  rw [show t.kind = .newline from ht]
  exact TokenKind.noConfusion

end

section

variable {δ : Type} {k separator : TokenKind} {p item : Parser α} {forms : β → List TokenForm}
  {follow : TokenKind → Prop} {value : β → δ} {words : List TokenForm}
  {yes no : Parser γ} {R : γ → Prop}

theorem accepts_eat (hk : k ≠ .eof) (h : yes.Accepts words follow R) :
    (eat k >>= fun c => if c = true then yes else no).Accepts (.ofKind k :: words) follow R := by
  rw [eat_bind_eq]
  have hadvance : advance.Accepts [.ofKind k] (Heads words follow) (TokenForm.ofKind k) := by
    refine accepts_advance fun t ht => ?_
    rwa [show t.kind = k from ht]
  refine .check_of ?_ (hadvance.bind fun _ _ => h)
  rintro k' ⟨t, ht, rfl⟩
  exact ht

theorem accepts_eat_of_ne (hk : ∀ k', Heads words follow k' → k' ≠ k)
    (h : no.Accepts words follow R) :
    (eat k >>= fun c => if c = true then yes else no).Accepts words follow R := by
  rw [eat_bind_eq]
  exact .check_of_ne hk h

theorem accepts_optionally (erase : α → δ) (hk : k ≠ .eof) (hfollow : ∀ k', follow k' → k' ≠ k)
    (h : ∀ b, p.Accepts (forms b) follow (erase · = value b)) (x : Option β) :
    (optionally k p).Accepts (x.elim [] fun b => .ofKind k :: forms b) follow
      (·.map erase = x.map value) := by
  unfold optionally
  cases x with
  | none => exact accepts_eat_of_ne hfollow (.pure rfl)
  | some b =>
    refine accepts_eat hk ?_
    exact (h b).bind_last fun a ha => .pure (congrArg some ha)

variable {after : TokenKind → Prop} (erase : α → δ) (hafter : after separator)
  (hends : ∀ k, follow k → after k) (hfollow : ∀ k, follow k → k ≠ separator)
  (h : ∀ b, item.Accepts (forms b) after (erase · = value b))

include hafter hends hfollow h

theorem accepts_eachAfter (hseparator : separator ≠ .eof) (xs : List β) {fuel : Nat}
    (hfuel : xs.length ≤ fuel) :
    (eachAfter separator item fuel).Accepts (xs.flatMap fun b => .ofKind separator :: forms b)
      follow (·.map erase = xs.map value) := by
  induction xs generalizing fuel with
  | nil =>
    cases fuel with
    | zero => exact .pure rfl
    | succ fuel => exact accepts_eat_of_ne hfollow (.pure rfl)
  | cons b xs ih =>
    obtain ⟨fuel, rfl⟩ := Nat.exists_eq_succ_of_ne_zero (Nat.ne_zero_of_lt hfuel)
    unfold eachAfter
    refine accepts_eat hseparator ?_
    refine ((h b).narrow fun k hk => ?_).bind fun a ha => ?_
    · cases xs with
      | nil => exact hends k hk
      | cons b' xs => rwa [heads_ofKind.mp hk]
    refine (ih (Nat.le_of_succ_le_succ hfuel)).bind_last fun as has => .pure ?_
    rw [List.map_cons, List.map_cons, ha, has]

variable (hseparator : separator.isStructural = false) (hflat : ∀ b, Flat (forms b))

include hseparator hflat

theorem accepts_followers (xs : List β) :
    (followers separator item).Accepts (xs.flatMap fun b => .ofKind separator :: forms b)
      follow (·.map erase = xs.map value) := by
  have hne : separator ≠ .eof := by
    rintro rfl
    exact nomatch hseparator
  refine .look fun s rest hs => accepts_eachAfter erase hafter hends hfollow h hne xs ?_
  refine Nat.le_trans ?_ (hs.length_le_lineLeft ?_)
  · have hone := List.length_le_sum_of_one_le
      (xs.map fun b => (TokenForm.ofKind separator :: forms b).length) (by simp)
    rwa [List.length_map, ← List.length_flatMap] at hone
  · exact flat_flatMap fun b _ => flat_cons.mpr ⟨TokenForm.onLine_ofKind hseparator, hflat b⟩

theorem accepts_separated {first : Parser α}
    (hfirst : ∀ b, first.Accepts (forms b) after (erase · = value b)) (b : β) (xs : List β) :
    (separated separator first item).Accepts
      (forms b ++ xs.flatMap fun b => .ofKind separator :: forms b)
      follow (·.map erase = (b :: xs).map value) := by
  refine ((hfirst b).narrow fun k hk => ?_).bind fun a ha => ?_
  · cases xs with
    | nil => exact hends k hk
    | cons b' xs => rwa [heads_ofKind.mp hk]
  refine (accepts_followers erase hafter hends hfollow h hseparator hflat xs).bind_last
    fun as has => .pure ?_
  rw [List.map_cons, List.map_cons, ha, has]

end

end Parser

theorem Opens.append {forms : List TokenForm} (h : Opens forms) (forms' : List TokenForm) :
    Opens (forms ++ forms') := by
  obtain ⟨form, more, rfl, hform⟩ := h
  exact ⟨form, more ++ forms', rfl, hform⟩

theorem Opens.ofList {ι : Type} {words : ι → List TokenForm} (h : ∀ l, Opens (words l))
    (items : List (ι × Outline ι)) :
    (Outline.ofList items).forms words = [] ∨ Opens ((Outline.ofList items).forms words) := by
  cases items with
  | nil => exact .inl rfl
  | cons item items => exact .inr ((h item.1).append _)

/-- No line begins with the beginning of a block. -/
theorem Opens.heads_ne_indent {forms : List TokenForm} {follow : TokenKind → Prop} {k : TokenKind}
    (h : Opens forms) (hk : Heads forms follow k) : k ≠ .indent := by
  obtain ⟨form, more, rfl, hform⟩ := h
  obtain ⟨t, ht, rfl⟩ := hk
  intro hindent
  have hword := hform t ht
  rw [Token.isStructural, hindent] at hword
  cases hword

/-- The line parser passes the tokens of a line with the block under it, reports nothing, and
adds to what has been gathered something with the property. -/
def LineParser.Adds (line : LineParser α) (gathered : α) (forms : List TokenForm) (Q : α → Prop) :
    Prop :=
  ∀ ⦃s : ParserState⦄ ⦃rest : List Token⦄, s.Before forms (· ≠ .indent) rest →
    ∃ more t, line gathered s = ⟨more, none, t⟩ ∧ Q more ∧ s.Reaches t [] rest

/-- Lines that a loop gathers one after the other. -/
structure LineParser.Collects (line : LineParser α) (gathered : α) (forms : List TokenForm)
    (Q : α → Prop) : Prop where
  none : forms = [] → Q gathered
  gathers : ∀ ⦃s : ParserState⦄ ⦃rest : List Token⦄, s.Before forms (· ≠ .indent) rest →
    ∃ more t, Q more ∧ s.Reaches t [] rest ∧
      ∀ {ρ : Type} {run : α → ParserState → ρ}, LineLoop line run → run gathered s = run more t

/-- Where something is written that a line can begin with, a line is read. -/
theorem ParserState.Before.reads {s : ParserState} {forms : List TokenForm}
    {follow : TokenKind → Prop} {rest : List Token} (h : s.Before forms follow rest)
    (hopens : Opens forms) : Reads s := by
  obtain ⟨form, more, rfl, hform⟩ := hopens
  obtain ⟨hfirst, tokens, htokens, -⟩ := h.cons
  refine reads_of_beginsLine h.ending h.going (.inl ?_)
  rw [kind_of_tokens htokens]
  exact hform _ hfirst

theorem ParserState.Before.remaining_lt {s t : ParserState} {forms : List TokenForm}
    {follow : TokenKind → Prop} {middle : List Token} (h : s.Before forms follow middle)
    (hopens : Opens forms) (ht : s.Reaches t [] middle) : t.remaining < s.remaining := by
  obtain ⟨form, more, rfl, -⟩ := hopens
  obtain ⟨passed, htokens, hforms⟩ := h.tokens
  cases hforms with
  | cons _ _ => exact remaining_lt_of_tokens htokens ht.tokens

namespace LineParser

variable {ι : Type} {words : ι → List TokenForm} {item : ι × Outline ι}
  {items : List (ι × Outline ι)} {line : LineParser α} {gathered : α} {p : Parser β}
  {forms : List TokenForm} {Q R : α → Prop}

theorem adds_whole {p : α → Parser α} (h : (p gathered).Accepts forms (· ≠ .indent) Q) :
    (whole p).Adds gathered forms Q := by
  intro s rest hs
  obtain ⟨a, t, hp, ha, ht⟩ := h hs
  exact ⟨a, t, by rw [whole, hp], ha, ht⟩

theorem adds_item {gathered : List β} {P : β → Prop} (h : p.Accepts forms (· ≠ .indent) P) :
    (LineParser.item p).Adds gathered forms fun more => ∃ b, P b ∧ more = gathered ++ [b] :=
  adds_whole (h.bind_last fun b hb => .pure ⟨b, hb, rfl⟩)

theorem collects_nil (h : Q gathered) : line.Collects gathered [] Q := by
  refine ⟨fun _ => h, fun s rest hs => ?_⟩
  obtain ⟨passed, htokens, hforms⟩ := hs.tokens
  cases hforms
  exact ⟨gathered, s, h, .refl htokens hs.ending, fun _ => rfl⟩

theorem collects_cons (hopens : ∀ l, Opens (words l))
    (h : line.Adds gathered (Outline.itemForms words item) R)
    (h' : ∀ more, R more → line.Collects more ((Outline.ofList items).forms words) Q) :
    line.Collects gathered ((Outline.ofList (item :: items)).forms words) Q := by
  have hforms : (Outline.ofList (item :: items)).forms words =
      Outline.itemForms words item ++ (Outline.ofList items).forms words := by
    rw [Outline.forms_ofList, Outline.forms_ofList, List.flatMap_cons]
  have hitem : Opens (Outline.itemForms words item) := (hopens item.1).append _
  rw [hforms]
  refine ⟨?_, fun s rest hs => ?_⟩
  · obtain ⟨form, more, hcons, -⟩ := hitem
    rw [hcons]
    exact fun hnil => nomatch hnil
  · obtain ⟨middle, hfirst, hsecond⟩ := hs.split
    have hlater (k : TokenKind)
        (hk : Heads ((Outline.ofList items).forms words) (· ≠ .indent) k) : k ≠ .indent := by
      rcases Opens.ofList hopens items with hnil | hlines
      · rwa [hnil] at hk
      · exact hlines.heads_ne_indent hk
    obtain ⟨more, t, hline, hmore, ht⟩ := h (hfirst.imp hlater)
    obtain ⟨more', u, hmore', hu, hgathers⟩ := (h' more hmore).gathers (hsecond t ht)
    refine ⟨more', u, hmore', ht.trans hu, fun hrun => ?_⟩
    rw [hrun.done _ _ _ _ (hfirst.reads hitem) hline (hfirst.remaining_lt hitem ht),
      hgathers hrun]

/-- Items that are gathered in a list. -/
theorem collects_items {δ κ : Type} {erase : β → δ} {value : κ → δ} {entry : κ → ι × Outline ι}
    {xs : List κ} (hopens : ∀ l, Opens (words l))
    (h : ∀ x ∈ xs, p.Accepts (Outline.itemForms words (entry x)) (· ≠ .indent) (erase · = value x))
    (gathered : List β) :
    (LineParser.item p).Collects gathered ((Outline.ofList (xs.map entry)).forms words)
      (·.map erase = gathered.map erase ++ xs.map value) := by
  induction xs generalizing gathered with
  | nil => exact collects_nil (by simp)
  | cons x xs ih =>
    rw [List.forall_mem_cons] at h
    refine collects_cons hopens (adds_item h.1) ?_
    rintro more ⟨b, hb, rfl⟩
    have hrest := ih h.2 (gathered ++ [b])
    rwa [List.map_append, List.map_singleton, hb, List.append_assoc] at hrest

end LineParser

namespace Parser

/-- The end of a line, and the block under it if there is one. -/
theorem accepts_block {line : LineParser α} [line.Proceeds] {gathered : α} {ι : Type}
    {words : ι → List TokenForm} {body : Outline ι} {Q : α → Prop}
    (h : line.Collects gathered (body.forms words) Q) :
    (block line gathered).Accepts (.ofKind .newline :: body.blockForms (body.forms words))
      (· ≠ .indent) Q := by
  refine accepts_finishLine.bind fun _ _ => ?_
  cases body with
  | nil => exact accepts_eat_of_ne (fun _ hk => hk) (.pure (h.none rfl))
  | line head body next =>
    refine accepts_eat (by decide) ?_
    intro s rest hs
    obtain ⟨middle, hlines, hclose⟩ := hs.split
    obtain ⟨more, t, hmore, ht, hgathers⟩ := h.gathers (hlines.imp (by simp))
    obtain ⟨hcurrent, behind, htokens, hbehind⟩ := (hclose t ht).cons
    have hkind : t.kind = .dedent := hcurrent
    have hrun : runLines line gathered s = (more, t.advance) :=
      (hgathers (lineLoop_runLines line)).trans (runLines_dedent hkind)
    have hadvance := (Reaches.refl htokens ht.ending).advance (x := t.current)
      (by rw [← ParserState.kind, hkind]; exact TokenKind.noConfusion)
    refine ⟨more, t.advance, ?_, hmore, ht.trans (hbehind rfl ▸ hadvance)⟩
    change EStateM.Result.ok (runLines line gathered s).1 (runLines line gathered s).2 = _
    rw [hrun]

/-- A line with nothing below it. -/
theorem accepts_block_nil {line : LineParser α} [line.Proceeds] (gathered : α) :
    (block line gathered).Accepts [.ofKind .newline] (· ≠ .indent) (· = gathered) := by
  have hnil : line.Collects gathered ((Outline.nil : Outline Unit).forms fun _ => [])
      (· = gathered) := LineParser.collects_nil rfl
  exact accepts_block hnil

/-- A block of items. -/
theorem accepts_block_items {δ ι κ : Type} {p : Parser α} [Proceeds p] {erase : α → δ}
    {value : ι → δ} {words : κ → List TokenForm} {entry : ι → κ × Outline κ} {xs : List ι}
    (hopens : ∀ l, Opens (words l))
    (h : ∀ x ∈ xs,
      p.Accepts (Outline.itemForms words (entry x)) (· ≠ .indent) (erase · = value x)) :
    (block (.item p) []).Accepts
      (.ofKind .newline :: (Outline.ofList (xs.map entry)).blockForms
        ((Outline.ofList (xs.map entry)).forms words))
      (· ≠ .indent) (·.map erase = xs.map value) :=
  accepts_block (LineParser.collects_items hopens h [])

end Parser

end AgentScript
