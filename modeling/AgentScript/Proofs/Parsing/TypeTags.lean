import AgentScript.Proofs.Parsing.Course
import AgentScript.Proofs.Reading.Composites

/-!
# Composite lexemes in a token list

What the tokens of a text are read in phrases for: behind each opening angle bracket its tag
follows, and captured text stands behind its marker only. A tag with both of its brackets is
therefore always parsed, and the parser takes from it what was read as its parts.
-/
namespace AgentScript

namespace TagBody

/-- The tag that the tokens stand for. -/
def tag (b : TagBody) (location : Option Location) : TypeTag :=
  ⟨b.name.map (·.1.text), (b.value.map (·.1.text)).getD "",
    b.modifier.bind fun m => m.2.map (·.1.text), location⟩

end TagBody

namespace ParserState

/-- The second state is before the tokens `l` of the same input, and nothing was reported. -/
structure Passed (s : ParserState) (l : List Token) (t : ParserState) : Prop where
  tokens : t.tokens = l
  ending : t.ending = s.ending
  problems : t.problems = s.problems

variable {s t u : ParserState} {l l' : List Token}

theorem Passed.refl (h : s.tokens = l) : s.Passed l s := ⟨h, rfl, rfl⟩

theorem Passed.trans (h : s.Passed l t) (h' : t.Passed l' u) : s.Passed l' u :=
  ⟨h'.tokens, h'.ending.trans h.ending, h'.problems.trans h.problems⟩

theorem passed_advance (he : s.ending.kind = .eof) {x : Token} (h : s.tokens = x :: l)
    (hx : x.kind ≠ .eof) : s.Passed l s.advance :=
  ⟨(advance_of_tokens he h hx).1, by simp, by simp⟩

end ParserState

namespace Parser

open ParserState

variable {s : ParserState} {l : List Token} {kind : TokenKind}

theorem advance_of_tokenOf (he : s.ending.kind = .eof) (hk : kind ≠ .eof) {x : TokenOf kind}
    (h : s.tokens = x.1 :: l) :
    s.kind = kind ∧ advance s = .ok x.1 s.advance ∧ s.Passed l s.advance := by
  refine ⟨(kind_of_tokens h).trans x.2, ?_, passed_advance he h (x.2.trans_ne hk)⟩
  rw [advance, current_of_tokens h]

theorem expect_of_tokens (he : s.ending.kind = .eof) (hk : kind ≠ .eof) {x : TokenOf kind}
    (h : s.tokens = x.1 :: l) (what : String) :
    expect kind what s = .ok x.1 s.advance ∧ s.Passed l s.advance := by
  obtain ⟨hkind, hadvance, hpassed⟩ := advance_of_tokenOf he hk h
  refine ⟨?_, hpassed⟩
  change (if s.kind == kind then advance else unexpected what) s = _
  rw [if_pos (by simpa using hkind), hadvance]

/-- A token of the kind is taken where there is one. -/
theorem takeText_of_tokens (he : s.ending.kind = .eof) (hk : kind ≠ .eof)
    {o : Option (TokenOf kind)} (h : s.tokens = (o.map (·.1)).toList ++ l)
    (hl : ∀ x ∈ l.head?, x.kind ≠ kind) :
    ∃ t, takeText kind s = .ok (o.map (·.1.text)) t ∧ s.Passed l t := by
  cases o with
  | none =>
    obtain ⟨more, hmore⟩ := s.exists_tokens
    obtain rfl : l = s.current :: more := h.symm.trans hmore
    have hne : s.kind ≠ kind := hl s.current rfl
    refine ⟨s, ?_, .refl h⟩
    change (if s.kind == kind then _ else pure none : Parser (Option String)) s = _
    rw [if_neg (by simpa using hne)]
    rfl
  | some x =>
    obtain ⟨hkind, hadvance, hpassed⟩ := advance_of_tokenOf he hk (x := x) h
    refine ⟨s.advance, ?_, hpassed⟩
    change (if s.kind == kind then (do let t ← advance; return some t.text) else pure none :
      Parser (Option String)) s = _
    rw [if_pos (by simpa using hkind), bind_of_ok _ hadvance]
    rfl

/-- The bar of a tag and the modifier behind it are taken where there is a bar. -/
theorem tagModifier_of_tokens (he : s.ending.kind = .eof) {b : TagBody} {gt : TokenOf .gt}
    (h : s.tokens = b.modifierTokens ++ gt.1 :: l) :
    ∃ t, tagModifier s = .ok (b.modifier.bind fun m => m.2.map (·.1.text)) t ∧
      s.Passed (gt.1 :: l) t := by
  unfold TagBody.modifierTokens at h
  cases hm : b.modifier with
  | none =>
    rw [hm] at h
    have hkind : s.kind = .gt := (kind_of_tokens h).trans gt.2
    refine ⟨s, ?_, .refl h⟩
    have heat : eat .pipe s = .ok false s := by
      rw [eat, hkind]
      rfl
    rw [tagModifier, bind_of_ok _ heat]
    rfl
  | some m =>
    obtain ⟨bar, modifier⟩ := m
    rw [hm, List.cons_append] at h
    obtain ⟨hkind, -, hbar⟩ := advance_of_tokenOf he (by decide) h
    obtain ⟨t, htext, hpassed⟩ := takeText_of_tokens (hbar.ending ▸ he) (by decide) hbar.tokens
      (fun x hx => by cases hx; exact gt.2.trans_ne (by decide))
    refine ⟨t, ?_, hbar.trans hpassed⟩
    have heat : eat .pipe s = .ok true s.advance := by
      rw [eat, hkind]
      rfl
    rw [tagModifier, bind_of_ok _ heat]
    exact htext

end Parser

namespace TagBody

/-- What can follow the value of a tag. -/
theorem kind_head?_modifierTokens (b : TagBody) (gt : TokenOf .gt) (l : List Token) :
    ∀ x ∈ (b.modifierTokens ++ gt.1 :: l).head?, x.kind = .pipe ∨ x.kind = .gt := by
  unfold modifierTokens
  cases b.modifier with
  | none => simpa using .inr gt.2
  | some m => simpa using .inl m.1.2

/-- What can follow the name of a tag. -/
theorem kind_head?_value (b : TagBody) (gt : TokenOf .gt) (l : List Token) :
    ∀ x ∈ ((b.value.map (·.1)).toList ++ (b.modifierTokens ++ gt.1 :: l)).head?,
      x.kind = .typeTagValue ∨ x.kind = .pipe ∨ x.kind = .gt := by
  cases b.value with
  | none => exact fun x hx => .inr (b.kind_head?_modifierTokens gt l x hx)
  | some v => simpa using .inl v.2

end TagBody

namespace Parser

open ParserState

variable {s : ParserState} {l : List Token}

/-- A tag with both of its brackets is parsed, and its parts are the texts of its tokens. -/
theorem typeTag_of_tokens (he : s.ending.kind = .eof) {lt : TokenOf .lt} {body : TagBody}
    {gt : TokenOf .gt} (h : s.tokens = lt.1 :: (body.tokens ++ gt.1 :: l)) :
    ∃ t, typeTag s = .ok (body.tag (some (t.spanFrom lt.1.start))) t ∧ s.Passed l t := by
  obtain ⟨hlt, hopen⟩ := expect_of_tokens he (by decide) h "'<'"
  have htokens := hopen.tokens
  rw [TagBody.tokens, List.append_assoc, List.append_assoc] at htokens
  obtain ⟨a, hname, ha⟩ := takeText_of_tokens (hopen.ending ▸ he) (by decide) htokens (by
    intro x hx hkind
    simpa [hkind] using body.kind_head?_value gt l x hx)
  replace ha := hopen.trans ha
  obtain ⟨b, hvalue, hb⟩ := takeText_of_tokens (ha.ending ▸ he) (by decide) ha.tokens (by
    intro x hx hkind
    simpa [hkind] using body.kind_head?_modifierTokens gt l x hx)
  replace hb := ha.trans hb
  obtain ⟨c, hmodifier, hc⟩ := tagModifier_of_tokens (hb.ending ▸ he) hb.tokens
  replace hc := hb.trans hc
  obtain ⟨hgt, hclose⟩ := expect_of_tokens (hc.ending ▸ he) (by decide) hc.tokens
    "'>' closing type tag"
  refine ⟨c.advance, ?_, hc.trans hclose⟩
  rw [typeTag, bind_of_ok _ hlt, bind_of_ok _ hname, bind_of_ok _ hvalue, bind_of_ok _ hmodifier,
    bind_of_ok _ hgt]
  rfl

end Parser

variable {tokens before after : List Token} {faults : List LexicalFault} {x : Token}

/-- The phrase that a token belongs to, and the phrases behind it. -/
theorem Phrased.around (h : Phrased tokens faults) (hx : tokens = before ++ x :: after) :
    ∃ outer left right later, IsPhrase (ReportsTag faults) (left ++ x :: right) ∧
      before = outer ++ left ∧ after = right ++ later ∧ Phrased later faults := by
  obtain ⟨phrases, rfl, hphrases⟩ := h
  induction phrases generalizing before with
  | nil => simp at hx
  | cons p ps ih =>
    obtain ⟨hp, hps⟩ := List.forall_mem_cons.mp hphrases
    rw [List.flatten_cons, List.append_eq_append_iff] at hx
    rcases hx with ⟨more, rfl, hrest⟩ | ⟨right, rfl, hrest⟩
    · obtain ⟨outer, left, right, later, hphrase, rfl, rfl, hlater⟩ := ih hps hrest
      exact ⟨p ++ outer, left, right, later, hphrase, by simp, rfl, hlater⟩
    · cases right with
      | nil =>
        have hhead : ps.flatten = [] ++ x :: after := hrest.symm
        obtain ⟨outer, left, right, later, hphrase, hbefore, rfl, hlater⟩ := ih hps hhead
        refine ⟨before ++ outer, left, right, later, by simpa using hphrase, ?_, rfl, hlater⟩
        rw [List.append_assoc, ← hbefore, List.append_nil]
      | cons y right =>
        obtain ⟨rfl, rfl⟩ := List.cons.inj hrest
        exact ⟨[], before, right, ps.flatten, hp, rfl, rfl, ps, rfl, hps⟩

/-- The tokens of a tag behind its name. -/
theorem TagBody.kind_of_mem_behindName (b : TagBody) :
    ∀ t ∈ (b.value.map (·.1)).toList ++ b.modifierTokens,
      t.kind ∈ [TokenKind.typeTagValue, .pipe, .typeTagModifier] := by
  obtain ⟨name, value, modifier⟩ := b
  intro t ht
  simp only [modifierTokens, List.mem_append, Option.mem_toList, Option.map_eq_some_iff] at ht
  rcases ht with ⟨v, -, rfl⟩ | ht
  · simp [v.2]
  · cases modifier with
    | none => simp at ht
    | some m =>
      simp only [List.mem_cons, Option.mem_toList, Option.map_eq_some_iff] at ht
      rcases ht with rfl | ⟨text, -, rfl⟩
      · simp [m.1.2]
      · simp [text.2]

theorem TagBody.kind_of_mem (b : TagBody) : ∀ t ∈ b.tokens,
    t.kind ∈ [TokenKind.typeTagName, .typeTagValue, .pipe, .typeTagModifier, .gt] := by
  intro t ht
  rcases List.mem_append.mp ht with hname | hmore
  · obtain ⟨n, -, rfl⟩ := Option.map_eq_some_iff.mp (Option.mem_toList.mp hname)
    simp [n.2]
  · have hkind := b.kind_of_mem_behindName t hmore
    simp only [List.mem_cons, List.not_mem_nil, or_false] at hkind ⊢
    tauto

theorem TokenKind.captures?_eq_some {marker content : TokenKind} :
    marker.captures? = some content ↔
      (∃ c, marker = .multiline c) ∧ content = .stringContent ∨
        marker = .embeddedBlockMarker ∧ content = .embeddedCode := by
  cases marker <;> simp [captures?, eq_comm]

namespace IsPhrase

variable {reported : Position → Prop} {first : Token} {left right more : List Token}

/-- A phrase begins with a token that needs none before it. -/
theorem first_kind (h : IsPhrase reported (first :: more)) :
    first.kind.isContinuation = false := by
  cases h with
  | single alone =>
    cases hk : first.kind <;> simp_all [TokenKind.standsAlone, TokenKind.isContinuation]
  | tag lt => rw [lt.2]; rfl
  | unterminated lt => rw [lt.2]; rfl
  | captured opens =>
    rcases TokenKind.captures?_eq_some.mp opens with ⟨⟨c, hk⟩, -⟩ | ⟨hk, -⟩ <;> rw [hk] <;> rfl
  | expression marker => rw [marker.2]; rfl

/-- What a token behind the first of its phrase can be. -/
theorem tail_cases (h : IsPhrase reported (first :: more)) (hx : x ∈ more) :
    (first.kind = .lt ∧
      x.kind ∈ [TokenKind.typeTagName, .typeTagValue, .pipe, .typeTagModifier, .gt]) ∨
    (∃ content, first.kind.captures? = some content ∧ ∀ t ∈ more, t.kind = content) ∨
    (first.kind = .embeddedMarker ∧ more = [x] ∧ x.kind = .embeddedCode) := by
  cases h with
  | single => exact nomatch hx
  | tag lt body gt =>
    refine .inl ⟨lt.2, ?_⟩
    rcases List.mem_append.mp hx with hx | hx
    · exact body.kind_of_mem x hx
    · simp [List.mem_singleton.mp hx, gt.2]
  | unterminated lt body => exact .inl ⟨lt.2, body.kind_of_mem x hx⟩
  | captured opens same => exact .inr (.inl ⟨_, opens, same⟩)
  | expression marker code =>
    cases code with
    | none => exact nomatch hx
    | some c =>
      obtain rfl : x = c.1 := List.mem_singleton.mp hx
      exact .inr (.inr ⟨marker.2, rfl, c.2⟩)

/-- Behind an opening angle bracket there are the parts of a tag, up to its closing bracket unless
the tag is reported. -/
theorem of_lt (h : IsPhrase reported (first :: more)) (hk : first.kind = .lt) :
    ∃ body : TagBody, (∃ gt : TokenOf .gt, more = body.tokens ++ [gt.1]) ∨
      more = body.tokens ∧ reported first.start := by
  cases h with
  | single alone => simp [hk, TokenKind.standsAlone] at alone
  | tag lt body gt => exact ⟨body, .inl ⟨gt, rfl⟩⟩
  | unterminated lt body here => exact ⟨body, .inr ⟨rfl, here⟩⟩
  | captured opens => simp [hk, TokenKind.captures?] at opens
  | expression marker => simp [marker.2] at hk

/-- No phrase but its first token opens a tag. -/
theorem kind_ne_lt (h : IsPhrase reported (first :: more)) (hx : x ∈ more) : x.kind ≠ .lt := by
  rcases h.tail_cases hx with ⟨-, hk⟩ | ⟨content, hopens, hsame⟩ | ⟨-, -, hk⟩
  · intro hlt
    simp [hlt] at hk
  · rw [hsame x hx]
    rcases TokenKind.captures?_eq_some.mp hopens with ⟨-, rfl⟩ | ⟨-, rfl⟩ <;> decide
  · simp [hk]

/-- A part of a tag stands in the phrase of a tag. -/
theorem of_tagPart (h : IsPhrase reported (first :: (left ++ x :: right)))
    (hx : x.kind ∈ [TokenKind.typeTagName, .typeTagValue, .typeTagModifier]) :
    first.kind = .lt ∧ ∃ (body : TagBody) (parts : List Token), body.tokens = left ++ x :: parts ∧
      ((∃ gt : TokenOf .gt, right = parts ++ [gt.1]) ∨ right = parts ∧ reported first.start) := by
  have hlt : first.kind = .lt := by
    rcases h.tail_cases (x := x) (by simp) with ⟨hk, -⟩ | ⟨content, hopens, hsame⟩ | ⟨-, -, hk⟩
    · exact hk
    · rw [hsame x (by simp)] at hx
      rcases TokenKind.captures?_eq_some.mp hopens with ⟨-, rfl⟩ | ⟨-, rfl⟩ <;> simp at hx
    · simp [hk] at hx
  refine ⟨hlt, ?_⟩
  obtain ⟨body, ⟨gt, hmore⟩ | ⟨hmore, here⟩⟩ := h.of_lt hlt
  · rcases List.eq_nil_or_concat right with rfl | ⟨parts, last, rfl⟩
    · have hgt : x = gt.1 := by simpa using congrArg List.getLast? hmore
      rw [hgt, gt.2] at hx
      simp at hx
    · have hsplit : (left ++ x :: parts) ++ [last] = body.tokens ++ [gt.1] := by simpa using hmore
      obtain ⟨hparts, hlast⟩ := List.append_inj' hsplit rfl
      exact ⟨body, parts, hparts.symm, .inl ⟨gt, by simpa using hlast⟩⟩
  · exact ⟨body, right, hmore.symm, .inr ⟨rfl, here⟩⟩

/-- Lines of a multi-line string follow its marker. -/
theorem of_stringContent (h : IsPhrase reported (first :: (left ++ x :: right)))
    (hx : x.kind = .stringContent) :
    (∃ chomping, first.kind = .multiline chomping) ∧ ∀ t ∈ left, t.kind = .stringContent := by
  rcases h.tail_cases (x := x) (by simp) with ⟨-, hk⟩ | ⟨content, hopens, hsame⟩ | ⟨-, -, hk⟩
  · simp [hx] at hk
  · obtain rfl : TokenKind.stringContent = content := hx.symm.trans (hsame x (by simp))
    rcases TokenKind.captures?_eq_some.mp hopens with ⟨hmarker, -⟩ | ⟨-, hk⟩
    · exact ⟨hmarker, fun t ht => hsame t (by simp [ht])⟩
    · exact nomatch hk
  · exact nomatch hx.symm.trans hk

/-- Code follows its marker, as one token or as the lines of a block. -/
theorem of_embeddedCode (h : IsPhrase reported (first :: (left ++ x :: right)))
    (hx : x.kind = .embeddedCode) :
    (first.kind = .embeddedMarker ∧ left = [] ∧ right = []) ∨
      (first.kind = .embeddedBlockMarker ∧ ∀ t ∈ left, t.kind = .embeddedCode) := by
  rcases h.tail_cases (x := x) (by simp) with ⟨-, hk⟩ | ⟨content, hopens, hsame⟩ | ⟨hk, hmore, -⟩
  · simp [hx] at hk
  · obtain rfl : TokenKind.embeddedCode = content := hx.symm.trans (hsame x (by simp))
    rcases TokenKind.captures?_eq_some.mp hopens with ⟨-, hk⟩ | ⟨hmarker, -⟩
    · exact nomatch hk
    · exact .inr ⟨hmarker, fun t ht => hsame t (by simp [ht])⟩
  · left
    simpa [hk, List.append_eq_cons_iff] using hmore

end IsPhrase

/-- The first of any phrases needs no token before it. -/
theorem Phrased.head_kind (h : Phrased tokens faults) :
    ∀ t ∈ tokens.head?, t.kind.isContinuation = false := by
  obtain ⟨phrases, rfl, hphrases⟩ := h
  intro t ht
  obtain ⟨more, hmore⟩ : ∃ more, phrases.flatten = [] ++ t :: more := List.head?_eq_some_iff.mp ht
  obtain ⟨outer, left, right, later, hphrase, houter, -, -⟩ :=
    Phrased.around ⟨phrases, rfl, hphrases⟩ hmore
  obtain ⟨-, rfl⟩ := List.append_eq_nil_iff.mp houter.symm
  exact hphrase.first_kind

/-- A token that needs another one before it stands behind the first of its phrase. -/
theorem Phrased.behind (h : Phrased tokens faults) (hx : tokens = before ++ x :: after)
    (hk : x.kind.isContinuation = true) :
    ∃ outer first left right later, IsPhrase (ReportsTag faults) (first :: (left ++ x :: right)) ∧
      before = outer ++ first :: left ∧ after = right ++ later ∧ Phrased later faults := by
  obtain ⟨outer, left, right, later, hphrase, rfl, rfl, hlater⟩ := h.around hx
  cases left with
  | nil => exact nomatch hk.symm.trans hphrase.first_kind
  | cons first left => exact ⟨outer, first, left, right, later, hphrase, rfl, rfl, hlater⟩

/-- The composite lexemes of a token list are where the parser looks for them. -/
structure Composed (tokens : List Token) (errors : List LexicalError) : Prop where
  /-- Behind an opening angle bracket there is a whole tag, or it is reported. -/
  tags : ∀ (before : List Token) (lt : TokenOf .lt) (after : List Token),
    tokens = before ++ lt.1 :: after →
      (∃ (body : TagBody) (gt : TokenOf .gt) (rest : List Token),
        after = body.tokens ++ gt.1 :: rest) ∨
      ∃ e ∈ errors, e.message = LexicalCause.unterminatedTypeTag.message ∧ e.position = lt.1.start
  /-- The parts of a tag are between its brackets, or behind the one of a reported tag. -/
  tagParts : ∀ before x after, tokens = before ++ x :: after →
    x.kind ∈ [TokenKind.typeTagName, .typeTagValue, .typeTagModifier] →
      ∃ (outer left : List Token) (lt : TokenOf .lt) (body : TagBody) (parts rest : List Token),
        before = outer ++ lt.1 :: left ∧ body.tokens = left ++ x :: parts ∧ after = parts ++ rest ∧
        ((∃ (gt : TokenOf .gt) (more : List Token), rest = gt.1 :: more) ∨
          ∃ e ∈ errors, e.message = LexicalCause.unterminatedTypeTag.message ∧
            e.position = lt.1.start)
  /-- Lines of a string follow each other directly behind the marker of a multi-line string. -/
  stringLines : ∀ before x after, tokens = before ++ x :: after → x.kind = .stringContent →
    ∃ (outer : List Token) (chomping : Chomping) (marker : TokenOf (.multiline chomping))
      (lines : List Token),
      before = outer ++ marker.1 :: lines ∧ ∀ t ∈ lines, t.kind = .stringContent
  /-- Code is a single token behind an inline marker, or lines behind the marker of a block. -/
  code : ∀ before x after, tokens = before ++ x :: after → x.kind = .embeddedCode →
    (∃ (outer : List Token) (marker : TokenOf .embeddedMarker), before = outer ++ [marker.1] ∧
      ∀ t ∈ after.head?, t.kind ≠ .embeddedCode) ∨
    ∃ (outer : List Token) (marker : TokenOf .embeddedBlockMarker) (lines : List Token),
      before = outer ++ marker.1 :: lines ∧ ∀ t ∈ lines, t.kind = .embeddedCode
  /-- The parser takes exactly a whole tag, with the texts of its tokens as its parts. -/
  parsed : ∀ (before : List Token) (lt : TokenOf .lt) (body : TagBody) (gt : TokenOf .gt)
    (after : List Token), tokens = before ++ lt.1 :: (body.tokens ++ gt.1 :: after) →
    ∀ s : ParserState, s.tokens = lt.1 :: (body.tokens ++ gt.1 :: after) →
      ∃ t, Parser.typeTag s = .ok (body.tag (some (t.spanFrom lt.1.start))) t ∧ s.Passed after t

/-- In the tokens of every source the composite lexemes are where the parser looks for them. -/
theorem tokens_composed (source : String) (file : Option String) :
    Composed (TokenizedText.ofLabelledSource source file).tokens
      (TokenizedText.ofLabelledSource source file).errors := by
  have hphrased := Reading.phrased_transcribe source.toList
  have hreported {p : Position}
      (h : ReportsTag (Reading.transcribe source.toList).faults.toList p) :
      ∃ e ∈ (TokenizedText.ofLabelledSource source file).errors,
        e.message = LexicalCause.unterminatedTypeTag.message ∧ e.position = p := by
    obtain ⟨f, hf, hcause, rfl⟩ := h
    exact ⟨f.toError file, List.mem_map_of_mem hf, congrArg LexicalCause.message hcause, rfl⟩
  constructor
  case tags =>
    intro before lt after htokens
    obtain ⟨outer, left, right, later, hphrase, -, rfl, -⟩ := hphrased.around htokens
    cases left with
    | cons first left => exact absurd lt.2 (hphrase.kind_ne_lt (by simp))
    | nil =>
      obtain ⟨body, ⟨gt, rfl⟩ | ⟨-, here⟩⟩ := hphrase.of_lt lt.2
      · exact .inl ⟨body, gt, later, by simp⟩
      · exact .inr (hreported here)
  case tagParts =>
    intro before x after htokens hx
    have hk : x.kind.isContinuation = true := by
      simp only [List.mem_cons, List.not_mem_nil, or_false] at hx
      rcases hx with hx | hx | hx <;> rw [hx] <;> rfl
    obtain ⟨outer, first, left, right, later, hphrase, rfl, rfl, -⟩ := hphrased.behind htokens hk
    obtain ⟨hlt, body, parts, hbody, ⟨gt, rfl⟩ | ⟨rfl, here⟩⟩ := hphrase.of_tagPart hx
    · exact ⟨outer, left, ⟨first, hlt⟩, body, parts, gt.1 :: later, rfl, hbody, by simp,
        .inl ⟨gt, later, rfl⟩⟩
    · exact ⟨outer, left, ⟨first, hlt⟩, body, right, later, rfl, hbody, rfl, .inr (hreported here)⟩
  case stringLines =>
    intro before x after htokens hx
    obtain ⟨outer, first, left, right, later, hphrase, rfl, rfl, -⟩ :=
      hphrased.behind htokens (hx ▸ rfl)
    obtain ⟨⟨chomping, hmarker⟩, hlines⟩ := hphrase.of_stringContent hx
    exact ⟨outer, chomping, ⟨first, hmarker⟩, left, rfl, hlines⟩
  case code =>
    intro before x after htokens hx
    obtain ⟨outer, first, left, right, later, hphrase, rfl, rfl, hlater⟩ :=
      hphrased.behind htokens (hx ▸ rfl)
    rcases hphrase.of_embeddedCode hx with ⟨hmarker, rfl, rfl⟩ | ⟨hmarker, hlines⟩
    · refine .inl ⟨outer, ⟨first, hmarker⟩, rfl, fun t ht hk => ?_⟩
      have hhead := hlater.head_kind t ht
      rw [hk] at hhead
      exact nomatch hhead
    · exact .inr ⟨outer, ⟨first, hmarker⟩, left, rfl, hlines⟩
  case parsed =>
    intro before lt body gt after htokens s hs
    obtain ⟨front, stop, hfront, -⟩ := Reading.nested_transcribe source.toList
    have hending : (before ++ s.rest) ++ [s.ending] = front ++ [.mark .eof stop] := by
      rw [List.append_assoc, ← hfront]
      exact (congrArg (before ++ ·) hs).trans htokens.symm
    refine Parser.typeTag_of_tokens ?_ hs
    rw [List.singleton_inj.mp (List.append_inj' hending rfl).2]
    rfl

end AgentScript
