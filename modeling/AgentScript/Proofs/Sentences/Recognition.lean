import AgentScript.Proofs.Parsing.Bodies
import AgentScript.Proofs.Parsing.Building
import AgentScript.Proofs.Sentences.Grammar

/-!
# Recognizing sentences

A parser for words recognizes a language if it passes sentences of it alone, and passes every
sentence behind which a token of an allowed kind stands. Parsers one after the other recognize
the product of their languages, as long as the first one stops where a sentence of the second
can begin.
-/
namespace AgentScript

open FlowGrammar Computability

/-- If the token is a number, its text can be read as one. -/
def Token.Readable (t : Token) : Prop := t.kind = .number → (readFloat? t.text).isSome = true

theorem Token.readable_of_ne {t : Token} (h : t.kind ≠ .number) : t.Readable :=
  fun hk => absurd hk h

variable {α β γ : Type} {L M : KindLanguage} {kinds u v : List TokenKind} {k : TokenKind}
  {P follow follow' after : TokenKind → Prop}

namespace FlowGrammar

/-- A sentence of the language begins with the kind, or it is empty and the kind may follow. -/
def First (L : KindLanguage) (follow : TokenKind → Prop) (k : TokenKind) : Prop :=
  (∃ more, k :: more ∈ L) ∨ [] ∈ L ∧ follow k

@[simp] theorem first_epsilon : First 1 follow k ↔ follow k := by
  simp [First]

theorem First.mul (h : First (L * M) follow k) : First L (First M follow) k := by
  rcases h with ⟨more, h⟩ | ⟨h, hk⟩
  · obtain ⟨u, hu, v, hv, huv⟩ := Language.mem_mul.mp h
    cases u with
    | nil => exact .inr ⟨hu, .inl ⟨more, huv ▸ hv⟩⟩
    | cons x u =>
      cases huv
      exact .inl ⟨u, hu⟩
  · obtain ⟨u, hu, v, hv, huv⟩ := Language.mem_mul.mp h
    obtain ⟨rfl, rfl⟩ := List.append_eq_nil_iff.mp huv
    exact .inr ⟨hu, .inr ⟨hv, hk⟩⟩

theorem First.add (h : First (L + M) follow k) : First L follow k ∨ First M follow k := by
  rcases h with ⟨more, h | h⟩ | ⟨h | h, hk⟩
  · exact .inl (.inl ⟨more, h⟩)
  · exact .inr (.inl ⟨more, h⟩)
  · exact .inl (.inr ⟨h, hk⟩)
  · exact .inr (.inr ⟨h, hk⟩)

theorem First.of_starts (hL : Starts P L) (h : First L follow k) : P k := by
  rcases h with ⟨more, h⟩ | ⟨h, -⟩
  · obtain ⟨k', more', heq, hk⟩ := hL _ h
    cases heq
    exact hk
  · exact absurd rfl (hL.ne_nil h)

theorem First.one {k' : TokenKind} (h : First (one k') follow k) : k = k' :=
  h.of_starts (P := (· = k')) (starts_one rfl)

theorem First.one_mul {k' : TokenKind} (h : First (FlowGrammar.one k' * L) follow k) : k = k' :=
  h.mul.one

theorem First.atMostOne (h : First (atMostOne L) follow k) : follow k ∨ First L follow k :=
  h.add.imp_left first_epsilon.mp

theorem First.atMostOne_one {k' : TokenKind}
    (h : First (FlowGrammar.atMostOne (FlowGrammar.one k')) follow k) : follow k ∨ k = k' :=
  h.atMostOne.imp_right First.one

theorem First.kstar {k' : TokenKind} (h : First (FlowGrammar.one k' * L)∗ follow k) :
    follow k ∨ k = k' := by
  rw [← Language.one_add_self_mul_kstar_eq_kstar, mul_assoc] at h
  exact h.add.imp first_epsilon.mp First.one_mul

end FlowGrammar

namespace ParserState

variable {s t m : ParserState} {rest words : List Token} {newline : Token}

/-- Passing tokens of the kinds leads from the first state to the second. -/
inductive Takes : ParserState → List TokenKind → ParserState → Prop
  | nil (s : ParserState) : Takes s [] s
  | cons {s t : ParserState} {kinds : List TokenKind} (notEnd : s.kind ≠ .eof)
      (readable : s.current.Readable) (later : Takes s.advance kinds t) :
      Takes s (s.kind :: kinds) t

/-- The tokens that are passed stand within a line. -/
structure TakesWords (s : ParserState) (kinds : List TokenKind) (t : ParserState) : Prop where
  takes : s.Takes kinds t
  words : ∀ k ∈ kinds, k.isStructural = false

theorem Takes.append (h : s.Takes u m) (h' : m.Takes v t) : s.Takes (u ++ v) t := by
  induction h with
  | nil => exact h'
  | cons notEnd readable later ih => exact .cons notEnd readable (ih h')

theorem Takes.split (h : s.Takes (u ++ v) t) : ∃ m, s.Takes u m ∧ m.Takes v t := by
  induction u generalizing s with
  | nil => exact ⟨s, .nil s, h⟩
  | cons k u ih =>
    cases h with
    | cons notEnd readable later =>
      obtain ⟨m, hu, hv⟩ := ih later
      exact ⟨m, .cons notEnd readable hu, hv⟩

theorem TakesWords.nil (s : ParserState) : s.TakesWords [] s := ⟨.nil s, List.forall_mem_nil _⟩

theorem TakesWords.append (h : s.TakesWords u m) (h' : m.TakesWords v t) :
    s.TakesWords (u ++ v) t :=
  ⟨h.takes.append h'.takes, List.forall_mem_append.mpr ⟨h.words, h'.words⟩⟩

theorem TakesWords.split (h : s.TakesWords (u ++ v) t) :
    ∃ m, s.TakesWords u m ∧ m.TakesWords v t := by
  obtain ⟨m, hu, hv⟩ := h.takes.split
  obtain ⟨hwordsu, hwordsv⟩ := List.forall_mem_append.mp h.words
  exact ⟨m, ⟨hu, hwordsu⟩, hv, hwordsv⟩

theorem takesWords_cons (hword : s.kind.isStructural = false) (readable : s.current.Readable)
    (later : s.advance.TakesWords kinds t) : s.TakesWords (s.kind :: kinds) t := by
  refine ⟨.cons ?_ readable later.takes, List.forall_mem_cons.mpr ⟨hword, later.words⟩⟩
  rintro heof
  rw [heof] at hword
  exact nomatch hword

theorem TakesWords.uncons (h : s.TakesWords (k :: kinds) t) :
    s.kind = k ∧ s.kind.isStructural = false ∧ s.current.Readable ∧
      s.advance.TakesWords kinds t := by
  obtain ⟨htakes, hwords⟩ := h
  cases htakes with
  | cons notEnd readable later =>
    obtain ⟨hword, hlater⟩ := List.forall_mem_cons.mp hwords
    exact ⟨rfl, hword, readable, later, hlater⟩

theorem TakesWords.eq_of_nil (h : s.TakesWords [] t) : t = s := by
  obtain ⟨htakes, -⟩ := h
  cases htakes
  rfl

theorem Takes.ending_eq (h : s.Takes kinds t) : t.ending = s.ending := by
  induction h with
  | nil => rfl
  | cons notEnd readable later ih => rw [ih, advance_ending]

theorem Takes.problems_eq (h : s.Takes kinds t) : t.problems = s.problems := by
  induction h with
  | nil => rfl
  | cons notEnd readable later ih => rw [ih, advance_problems]

theorem Takes.cap_eq (h : s.Takes kinds t) : t.cap = s.cap := by
  induction h with
  | nil => rfl
  | cons notEnd readable later ih => rw [ih, advance_cap]

theorem Takes.ending_kind (h : s.Takes kinds t) (he : s.ending.kind = .eof) :
    t.ending.kind = .eof := h.ending_eq ▸ he

/-- What is passed begins a sentence or what may follow it. -/
theorem TakesWords.first (h : s.TakesWords kinds t) (hkinds : kinds ∈ L) (hfollow : follow t.kind) :
    First L follow s.kind := by
  cases kinds with
  | nil =>
    rw [h.eq_of_nil] at hfollow
    exact .inr ⟨hkinds, hfollow⟩
  | cons k kinds =>
    rw [h.uncons.1]
    exact .inl ⟨kinds, hkinds⟩

/-- No sentence of the language comes with an allowed token behind it. -/
def Lacks (s : ParserState) (L : KindLanguage) (follow : TokenKind → Prop) : Prop :=
  ∀ kinds ∈ L, ∀ t, s.TakesWords kinds t → ¬ follow t.kind

theorem lacks_of_first (h : ¬ First L follow s.kind) : s.Lacks L follow :=
  fun _ hkinds _ ht hfollow => h (ht.first hkinds hfollow)

/-- The words that are passed have been left on the line. -/
theorem TakesWords.lineLeft_eq (h : s.TakesWords kinds t) (he : s.ending.kind = .eof) :
    s.lineLeft = t.lineLeft + kinds.length := by
  obtain ⟨htakes, hwords⟩ := h
  induction htakes with
  | nil => rfl
  | cons notEnd readable later ih =>
    obtain ⟨hword, hlater⟩ := List.forall_mem_cons.mp hwords
    rw [lineLeft_advance he hword, ih (by simpa using he) hlater]
    rfl

end ParserState

open ParserState

namespace Parser

/-- In this state the parser passes sentences of the language alone where its result is good, and
every sentence behind which a token of the kinds `follow` stands. -/
structure RecognizesAt (p : Parser α) (s : ParserState) (L : KindLanguage)
    (follow : TokenKind → Prop) (good : α → Prop) : Prop where
  sound : ∀ {a t}, p s = .ok a t → good a → ∃ kinds ∈ L, s.TakesWords kinds t
  complete : ∀ {kinds t}, kinds ∈ L → s.TakesWords kinds t → follow t.kind →
    ∃ a, p s = .ok a t ∧ good a

/-- The parser recognizes the language in every state. -/
def RecognizesWith (p : Parser α) (L : KindLanguage) (follow : TokenKind → Prop)
    (good : α → Prop) : Prop :=
  ∀ s : ParserState, s.ending.kind = .eof → p.RecognizesAt s L follow good

abbrev Recognizes (p : Parser α) (L : KindLanguage) (follow : TokenKind → Prop) : Prop :=
  p.RecognizesWith L follow fun _ => True

variable {p : Parser α} {f : α → Parser β} {good : α → Prop} {good' : β → Prop} {s : ParserState}

theorem RecognizesAt.narrow (h : p.RecognizesAt s L follow good)
    (hfollow : ∀ k, follow' k → follow k) : p.RecognizesAt s L follow' good where
  sound := h.sound
  complete hkinds ht hnext := h.complete hkinds ht (hfollow _ hnext)

theorem RecognizesWith.narrow (h : p.RecognizesWith L follow good)
    (hfollow : ∀ k, follow' k → follow k) : p.RecognizesWith L follow' good :=
  fun s he => (h s he).narrow hfollow

/-- Languages that have the same sentences where the parser stands. -/
theorem RecognizesAt.congr (h : p.RecognizesAt s L follow good) (hle : L ≤ M)
    (hback : ∀ kinds ∈ M, kinds = [] ∨ (∃ more, kinds = s.kind :: more) → kinds ∈ L) :
    p.RecognizesAt s M follow good where
  sound hp hgood := by
    obtain ⟨kinds, hkinds, ht⟩ := h.sound hp hgood
    exact ⟨kinds, hle hkinds, ht⟩
  complete {kinds t} hkinds ht hfollow := by
    refine h.complete (hback kinds hkinds ?_) ht hfollow
    cases kinds with
    | nil => exact .inl rfl
    | cons k kinds => exact .inr ⟨kinds, by rw [ht.uncons.1]⟩

theorem recognizesAt_pure {a : α} (hgood : good a) :
    (pure a : Parser α).RecognizesAt s 1 follow good where
  sound hp _ := by
    cases hp
    exact ⟨[], rfl, .nil s⟩
  complete hkinds ht _ := by
    cases hkinds
    rw [ht.eq_of_nil]
    exact ⟨a, rfl, hgood⟩

/-- At the end of a line nothing more can be passed. -/
theorem recognizesAt_pure_of_lineLeft {a : α} (he : s.ending.kind = .eof) (hleft : s.lineLeft = 0)
    (hnil : [] ∈ L) : (pure a : Parser α).RecognizesAt s L follow fun _ => True where
  sound hp _ := by
    cases hp
    exact ⟨[], hnil, .nil s⟩
  complete {kinds t} _ ht _ := by
    have hlength := ht.lineLeft_eq he
    obtain rfl : kinds = [] := List.eq_nil_of_length_eq_zero (by omega)
    rw [ht.eq_of_nil]
    exact ⟨a, rfl, trivial⟩

theorem recognizes_pure (a : α) : (pure a : Parser α).Recognizes 1 follow :=
  fun _ _ => recognizesAt_pure trivial

/-- A parser that always fails. -/
theorem recognizes_unexpected (what : String) : (unexpected what : Parser α).Recognizes 0 follow :=
  fun _ _ =>
    { sound := fun hp => nomatch hp
      complete := fun hkinds => absurd hkinds (Language.notMem_zero _) }

/-- Where the result of the second parser is good, that of the first one has been. -/
theorem RecognizesAt.bind (h : p.RecognizesAt s L (First M follow) good)
    (h' : ∀ a t kinds, good a → s.TakesWords kinds t → (f a).RecognizesAt t M follow good')
    (hgood : ∀ a t b u, f a t = .ok b u → good' b → good a) :
    (p >>= f).RecognizesAt s (L * M) follow good' where
  sound := by
    intro b u hpf hb
    obtain ⟨a, t, hp, hf⟩ := bind_eq_ok.mp hpf
    have ha := hgood a t b u hf hb
    obtain ⟨kinds, hkinds, ht⟩ := h.sound hp ha
    obtain ⟨kinds', hkinds', hu⟩ := (h' a t kinds ha ht).sound hf hb
    exact ⟨kinds ++ kinds', Language.append_mem_mul hkinds hkinds', ht.append hu⟩
  complete := by
    intro kinds t hkinds ht hfollow
    obtain ⟨u, hu, v, hv, rfl⟩ := Language.mem_mul.mp hkinds
    obtain ⟨m, hum, hvt⟩ := ht.split
    obtain ⟨a, hp, ha⟩ := h.complete hu hum (hvt.first hv hfollow)
    obtain ⟨b, hf, hb⟩ := (h' a m u ha hum).complete hv hvt hfollow
    exact ⟨b, by rw [bind_of_ok f hp, hf], hb⟩

theorem RecognizesWith.bindWith (h : p.RecognizesWith L (First M follow) good)
    (h' : ∀ a, good a → (f a).RecognizesWith M follow good')
    (hgood : ∀ a t b u, f a t = .ok b u → good' b → good a) :
    (p >>= f).RecognizesWith (L * M) follow good' :=
  fun s he => (h s he).bind (fun a t _ ha ht => h' a ha t (ht.takes.ending_kind he)) hgood

theorem RecognizesWith.bind (h : p.Recognizes L (First M follow))
    (h' : ∀ a, (f a).RecognizesWith M follow good') :
    (p >>= f).RecognizesWith (L * M) follow good' :=
  h.bindWith (fun a _ => h' a) fun _ _ _ _ _ _ => trivial

/-- What comes behind the parser passes nothing. -/
theorem RecognizesAt.bind_last (h : p.RecognizesAt s L follow fun _ => True)
    (h' : ∀ a t, s.ending = t.ending → (f a).RecognizesAt t 1 follow good') :
    (p >>= f).RecognizesAt s L follow good' := by
  have hlast := (h.narrow fun k hk => first_epsilon.mp hk).bind
    (fun a t _ _ ht => h' a t ht.takes.ending_eq.symm) fun _ _ _ _ _ _ => trivial
  rwa [mul_one] at hlast

theorem RecognizesWith.bind_last (h : p.Recognizes L follow)
    (h' : ∀ a, (f a).RecognizesWith 1 follow good') : (p >>= f).RecognizesWith L follow good' :=
  fun s he => (h s he).bind_last fun a t ht => h' a t (ht ▸ he)

theorem RecognizesWith.bindWith_last (h : p.RecognizesWith L follow good)
    (h' : ∀ a, good a → (f a).RecognizesWith 1 follow good')
    (hgood : ∀ a t b u, f a t = .ok b u → good' b → good a) :
    (p >>= f).RecognizesWith L follow good' := by
  have hlast := (h.narrow fun k hk => first_epsilon.mp hk).bindWith h' hgood
  rwa [mul_one] at hlast

theorem RecognizesAt.look {f : γ → Parser β} {g : ParserState → γ}
    (h : (f (g s)).RecognizesAt s L follow good') :
    (look g >>= f).RecognizesAt s L follow good' where
  sound := h.sound
  complete := h.complete

/-- What is only looked at passes nothing. -/
theorem recognizes_look {f : γ → Parser β} {g : ParserState → γ}
    (h : ∀ c, (f c).RecognizesWith L follow good') : (look g >>= f).RecognizesWith L follow good' :=
  fun s he => (h (g s) s he).look

/-- Passing the word that comes. -/
theorem RecognizesAt.advanceReadable {f : Token → Parser β} (hk : s.kind = k)
    (hword : k.isStructural = false) (readable : s.current.Readable)
    (h : (f s.current).RecognizesAt s.advance L follow good') :
    (Parser.advance >>= f).RecognizesAt s (one k * L) follow good' := by
  subst hk
  constructor
  · intro a t hp hgood
    obtain ⟨kinds, hkinds, ht⟩ := h.sound hp hgood
    exact ⟨_, Language.append_mem_mul rfl hkinds, takesWords_cons hword readable ht⟩
  · intro kinds t hkinds ht hfollow
    obtain ⟨_, rfl, later, hlater, rfl⟩ := Language.mem_mul.mp hkinds
    exact h.complete hlater ht.uncons.2.2.2 hfollow

theorem RecognizesAt.advance {f : Token → Parser β} (hk : s.kind = k)
    (hword : k.isStructural = false) (hnumber : k ≠ .number)
    (h : (f s.current).RecognizesAt s.advance L follow good') :
    (Parser.advance >>= f).RecognizesAt s (one k * L) follow good' :=
  h.advanceReadable hk hword (Token.readable_of_ne fun h => hnumber (hk ▸ h))

/-- Passing the word that comes where its kind has the property. -/
theorem RecognizesAt.advanceThat {f : Token → Parser β} (hP : P s.kind)
    (hword : s.kind.isStructural = false) (hnumber : s.kind ≠ .number)
    (h : (f s.current).RecognizesAt s.advance L follow good') :
    (Parser.advance >>= f).RecognizesAt s (oneThat P * L) follow good' := by
  refine (h.advance rfl hword hnumber).congr ?_ ?_
  · have hone : one s.kind ≤ oneThat P := fun _ hkinds => ⟨s.kind, hP, hkinds⟩
    gcongr
  · rintro kinds hkinds hfirst
    obtain ⟨_, ⟨k, -, rfl⟩, later, hlater, rfl⟩ := Language.mem_mul.mp hkinds
    rcases hfirst with hnil | ⟨more, hcons⟩
    · exact nomatch hnil
    · cases hcons
      exact Language.append_mem_mul rfl hlater

/-- A language of which nothing comes can be added. -/
theorem RecognizesAt.inl (h : p.RecognizesAt s L follow good) (hM : s.Lacks M follow) :
    p.RecognizesAt s (L + M) follow good where
  sound hp hgood := by
    obtain ⟨kinds, hkinds, ht⟩ := h.sound hp hgood
    exact ⟨kinds, .inl hkinds, ht⟩
  complete hkinds ht hfollow := by
    rcases hkinds with hkinds | hkinds
    · exact h.complete hkinds ht hfollow
    · exact absurd hfollow (hM _ hkinds _ ht)

theorem RecognizesAt.inr (h : p.RecognizesAt s L follow good) (hM : s.Lacks M follow) :
    p.RecognizesAt s (M + L) follow good := by
  rw [add_comm]
  exact h.inl hM

/-- Two languages that can be told apart by a look at the tokens to come. -/
theorem RecognizesAt.branch {g : ParserState → Bool} {yes no : Parser β}
    (hyes : g s = true → yes.RecognizesAt s L follow good' ∧ s.Lacks M follow)
    (hno : g s = false → no.RecognizesAt s M follow good' ∧ s.Lacks L follow) :
    (Parser.look g >>= fun c => if c = true then yes else no).RecognizesAt s (M + L) follow
      good' := by
  refine .look ?_
  cases hg : g s with
  | true => exact (hyes hg).1.inr (hyes hg).2
  | false => exact (hno hg).1.inl (hno hg).2

/-- A word of one kind, or what can stand in its place. -/
theorem RecognizesAt.check {yes : Token → Parser β} {no : Parser β}
    (hword : k.isStructural = false) (hnumber : k ≠ .number)
    (hyes : s.kind = k → (yes s.current).RecognizesAt s.advance L follow good')
    (hno : no.RecognizesAt s M follow good') (hM : ¬ First M follow k) :
    (Parser.check k >>= fun c => if c = true then Parser.advance >>= yes else no).RecognizesAt s
      (M + one k * L) follow good' := by
  refine .branch (g := fun s => s.kind == k) (fun hk => ?_) fun hk => ⟨hno, ?_⟩
  · have hk : s.kind = k := eq_of_beq hk
    exact ⟨(hyes hk).advance hk hword hnumber, lacks_of_first (hk ▸ hM)⟩
  · exact lacks_of_first fun h => by simp [h.one_mul] at hk

theorem recognizes_check {yes : Token → Parser β} {no : Parser β}
    (hword : k.isStructural = false) (hnumber : k ≠ .number)
    (hyes : ∀ t, (yes t).RecognizesWith L follow good')
    (hno : no.RecognizesWith M follow good') (hM : ¬ First M follow k) :
    (check k >>= fun c => if c = true then Parser.advance >>= yes else no).RecognizesWith
      (M + one k * L) follow good' :=
  fun s he => .check hword hnumber (fun _ => hyes _ _ (by simpa using he)) (hno s he) hM

theorem recognizes_peek {f : Token → Parser β} (h : ∀ t, (f t).RecognizesWith L follow good') :
    (peek >>= f).RecognizesWith L follow good' := recognizes_look h

theorem recognizes_spanFrom {start : Position} {f : Location → Parser β}
    (h : ∀ l, (f l).RecognizesWith L follow good') :
    (spanFrom start >>= f).RecognizesWith L follow good' := recognizes_look h

theorem recognizes_expect (hword : k.isStructural = false) (hnumber : k ≠ .number)
    (what : String) : (expect k what).Recognizes (one k) follow := by
  have hcheck : (check k >>= fun c =>
      if c = true then Parser.advance >>= pure else unexpected what).Recognizes (one k) follow := by
    rw [← mul_one (one k), ← zero_add (one k * 1)]
    refine recognizes_check hword hnumber recognizes_pure (recognizes_unexpected what) fun h => ?_
    simp [First] at h
  simpa only [expect, bind_pure] using hcheck

theorem recognizes_takeString (what : String) : (takeString what).Recognizes (one .string) follow :=
  (recognizes_expect rfl (by decide) what).bind_last fun _ => recognizes_pure _

theorem recognizes_takeName (what : String) : (takeName what).Recognizes word follow := by
  intro s he
  have happly : takeName what s =
      if s.kind.isWordlike = true then (Parser.advance >>= fun t => pure t.text) s
      else unexpected what s := by
    change (if s.kind.isWordlike = true then
      (Parser.advance >>= fun t => pure t.text : Parser String) else unexpected what) s = _
    split_ifs <;> rfl
  by_cases hk : s.kind.isWordlike = true
  · have hnumber : s.kind ≠ .number := fun h => by
      rw [h] at hk
      exact nomatch hk
    have hadvance : (Parser.advance >>= fun t => (pure t.text : Parser String)).RecognizesAt s
        (word * 1) follow fun _ => True :=
      .advanceThat hk (isStructural_of_isWordlike hk) hnumber (recognizesAt_pure trivial)
    rw [mul_one] at hadvance
    rw [if_pos hk] at happly
    exact ⟨fun hp => hadvance.sound (happly ▸ hp), happly ▸ hadvance.complete⟩
  · rw [if_neg hk] at happly
    constructor
    · intro a t hp
      exact nomatch happly ▸ hp
    · rintro _ t ⟨k, hword, rfl⟩ ht -
      exact absurd (ht.uncons.1 ▸ hword) hk

section

variable {item first : Parser α} {separator : TokenKind}

/-- What comes behind an item: a separator, or what follows the list. -/
theorem First.followers (hafter : after separator) (hfollow : ∀ k, follow k → after k)
    (h : First (one separator * L)∗ follow k) : after k :=
  h.kstar.elim (hfollow k) fun h => h ▸ hafter

variable (hword : separator.isStructural = false) (hnumber : separator ≠ .number)
  (hitem : item.Recognizes L after) (hafter : after separator)
  (hfollow : ∀ k, follow k → after k) (hother : ¬ follow separator)

include hitem hafter hfollow in
/-- An item and the list of those behind it, which may look as far as the line goes. -/
theorem recognizesAt_cons {rest : Parser (List α)} {good : List α → Prop}
    (hrest : ∀ t : ParserState, t.ending.kind = .eof → t.lineLeft ≤ s.lineLeft →
      rest.RecognizesAt t (one separator * L)∗ follow fun _ => True)
    (hgood : ∀ a l, good (a :: l)) (he : s.ending.kind = .eof) :
    (item >>= fun a => rest >>= fun l => pure (a :: l)).RecognizesAt s
      (L * (one separator * L)∗) follow good := by
  refine ((hitem s he).narrow fun k hk => First.followers hafter hfollow hk).bind
    (fun a t kinds _ ht => ?_) fun _ _ _ _ _ _ => trivial
  have hlength := ht.lineLeft_eq he
  have hlater := hrest t (ht.takes.ending_kind he) (by omega)
  exact hlater.bind_last fun _ _ _ => recognizesAt_pure (hgood _ _)

include hword hnumber hitem hafter hfollow hother

/-- The bound is never reached, since every item takes a word of the line. -/
theorem recognizesAt_eachAfter {fuel : Nat} (he : s.ending.kind = .eof)
    (hfuel : s.lineLeft ≤ fuel) :
    (eachAfter separator item fuel).RecognizesAt s (one separator * L)∗ follow fun _ => True := by
  induction fuel generalizing s with
  | zero =>
    exact recognizesAt_pure_of_lineLeft he (Nat.le_zero.mp hfuel) (Language.nil_mem_kstar _)
  | succ fuel ih =>
    rw [← Language.one_add_self_mul_kstar_eq_kstar, mul_assoc, eachAfter, eat_bind_eq]
    refine .check hword hnumber (fun hk => ?_) (recognizesAt_pure trivial) fun h =>
      hother (first_epsilon.mp h)
    have hleft := lineLeft_advance he (hk ▸ hword)
    exact recognizesAt_cons hitem hafter hfollow (fun t het ht => ih het (by omega))
      (fun _ _ => trivial) (by simpa using he)

theorem recognizes_followers : (followers separator item).Recognizes (one separator * L)∗ follow :=
  fun _ he =>
    .look (recognizesAt_eachAfter hword hnumber hitem hafter hfollow hother he (Nat.le_refl _))

theorem recognizes_separated (hfirst : first.Recognizes L after) :
    (separated separator first item).Recognizes (L * (one separator * L)∗) follow :=
  fun _ he => recognizesAt_cons hfirst hafter hfollow
    (fun t het _ => recognizes_followers hword hnumber hitem hafter hfollow hother t het)
    (fun _ _ => trivial) he

/-- At least one item follows where the list is not empty. -/
theorem recognizes_followers_some :
    (followers separator item).RecognizesWith (atLeastOne (one separator * L)) follow
      (· ≠ []) := by
  intro s he
  have hstart : Starts (· = separator) (atLeastOne (one separator * L)) := by
    rw [atLeastOne, mul_assoc]
    exact (starts_one (P := (· = separator)) rfl).mul _
  refine .look ?_
  cases hleft : s.lineLeft with
  | zero =>
    constructor
    · intro a t hp hne
      cases hp
      exact absurd rfl hne
    · intro kinds t hkinds ht _
      have hlength := ht.lineLeft_eq he
      obtain rfl : kinds = [] := List.eq_nil_of_length_eq_zero (by omega)
      exact absurd rfl (hstart.ne_nil hkinds)
  | succ fuel =>
    rw [atLeastOne, mul_assoc, eachAfter, eat_bind_eq, ← zero_add (one separator * _)]
    refine .check hword hnumber (fun hk => ?_) ?_ fun h => by simp [First] at h
    · have hnext := lineLeft_advance he (hk ▸ hword)
      exact recognizesAt_cons hitem hafter hfollow
        (fun t het ht => recognizesAt_eachAfter hword hnumber hitem hafter hfollow hother het
          (show t.lineLeft ≤ fuel by omega))
        (fun _ _ => List.cons_ne_nil _ _) (by simpa using he)
    · constructor
      · intro a t hp hne
        cases hp
        exact absurd rfl hne
      · exact fun hkinds => absurd hkinds (Language.notMem_zero _)

end

end Parser

end AgentScript
