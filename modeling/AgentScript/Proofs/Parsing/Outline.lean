import AgentScript.Proofs.Parsing.Bodies
import AgentScript.Proofs.Reading.LineStructure

/-!
# The outline of a text

The tokens of every text are a body of lines. Only a text that begins with an indented line
has a block before them, which belongs to no line.
-/
namespace AgentScript

open TokenKind

/-- The number of tokens of a kind. -/
def Token.countOf (k : TokenKind) (tokens : List Token) : Nat := (tokens.map (·.kind)).count k

namespace Token

variable {k : TokenKind} {t : Token} {tokens more words : List Token}

@[simp] theorem countOf_nil (k : TokenKind) : countOf k [] = 0 := rfl

@[simp] theorem countOf_append (k : TokenKind) (tokens more : List Token) :
    countOf k (tokens ++ more) = countOf k tokens + countOf k more := by
  rw [countOf, List.map_append, List.count_append]
  rfl

@[simp] theorem countOf_cons (k : TokenKind) (t : Token) (tokens : List Token) :
    countOf k (t :: tokens) = countOf k tokens + if t.kind = k then 1 else 0 := by
  simp [countOf, List.count_cons]

theorem countOf_words (h : ∀ t ∈ words, t.isStructural = false) (hk : k.isStructural = true) :
    countOf k words = 0 := by
  refine List.count_eq_zero.mpr fun hmem => ?_
  obtain ⟨t, ht, hkind⟩ := List.mem_map.mp hmem
  exact ne_of_word (h t ht) hk hkind

/-- As many blocks end in the tokens as begin, and before no point more have ended than begun. -/
structure Balanced (tokens : List Token) : Prop where
  even : countOf indent tokens = countOf dedent tokens
  enough : ∀ first, first <+: tokens → countOf dedent first ≤ countOf indent first

theorem balanced_words (h : ∀ t ∈ words, t.isStructural = false) : Balanced words := by
  constructor
  case even => rw [countOf_words h rfl, countOf_words h rfl]
  case enough =>
    intro first hfirst
    rw [countOf_words (fun t ht => h t (hfirst.subset ht)) rfl]
    exact Nat.zero_le _

theorem balanced_nil : Balanced [] := balanced_words (by simp)

theorem Balanced.append (h : Balanced tokens) (h' : Balanced more) : Balanced (tokens ++ more) := by
  constructor
  case even => rw [countOf_append, countOf_append, h.even, h'.even]
  case enough =>
    intro first hfirst
    rcases List.prefix_or_prefix_of_prefix hfirst (List.prefix_append _ _) with
      hbefore | ⟨second, rfl⟩
    · exact h.enough first hbefore
    · have hsecond := h'.enough second ((List.prefix_append_right_inj _).mp hfirst)
      rw [countOf_append, countOf_append, h.even]
      exact Nat.add_le_add_left hsecond _

/-- A token that neither begins nor ends a block. -/
theorem Balanced.cons (h : Balanced tokens) (hindent : t.kind ≠ indent)
    (hdedent : t.kind ≠ dedent) :
    Balanced (t :: tokens) := by
  constructor
  case even => simp [hindent, hdedent, h.even]
  case enough =>
    intro first hfirst
    rcases List.prefix_cons_iff.mp hfirst with rfl | ⟨later, rfl, hlater⟩
    · exact Nat.le_refl _
    · simpa [hindent, hdedent] using h.enough later hlater

/-- What stands between the beginning and the end of a block is one level deeper. -/
theorem Balanced.block {opens closes : Token} (h : Balanced tokens) (hopens : opens.kind = indent)
    (hcloses : closes.kind = dedent) : Balanced (opens :: (tokens ++ [closes])) := by
  constructor
  case even => simp [hopens, hcloses, h.even]
  case enough =>
    intro first hfirst
    rcases List.prefix_cons_iff.mp hfirst with rfl | ⟨inside, rfl, hinside⟩
    · exact Nat.le_refl _
    · rcases List.prefix_concat_iff.mp hinside with rfl | hinside
      · simp [hopens, hcloses, h.even]
      · simpa [hopens] using Nat.le_succ_of_le (h.enough inside hinside)

end Token

/-- Blocks are balanced in a body. -/
theorem LinesOf.balanced {K : TokenKind → Prop} {tokens : List Token} (h : LinesOf K tokens) :
    Token.Balanced tokens := by
  induction h with
  | nil => exact Token.balanced_nil
  | line inLine allowed ends later ih =>
    exact (Token.balanced_words inLine).append
      (ih.cons (by simp [ends.kind_eq]) (by simp [ends.kind_eq]))
  | @block K words body rest newline indent dedent inLine allowed ends opens inner closes later
      ihinner ih =>
    have hbelow := (ihinner.block opens.kind_eq closes.kind_eq).append ih
    have hline := hbelow.cons (t := newline) (by simp [ends.kind_eq]) (by simp [ends.kind_eq])
    simpa using (Token.balanced_words inLine).append hline

/-- The last tokens of a text before its end: lines are closed in them, and every block that
begins in them ends in them. -/
structure Settled (tokens : List Token) : Prop where
  adjacent : (tokens.map (·.kind)).IsChain MayPrecede
  closed : ∀ last ∈ tokens.getLast?, last.isStructural = true
  blank : ∀ t ∈ tokens, t.BlankIfLayout
  ne_eof : ∀ t ∈ tokens, t.kind ≠ eof
  enough : ∀ last, last <:+ tokens → Token.countOf indent last ≤ Token.countOf dedent last

namespace Settled

variable {tokens more words : List Token} {x y : Token}

theorem of_append (h : Settled (more ++ tokens)) : Settled tokens := by
  constructor
  case adjacent =>
    have hadjacent := h.adjacent
    rw [List.map_append] at hadjacent
    exact hadjacent.right_of_append
  case closed =>
    intro last hlast
    apply h.closed last
    rw [List.getLast?_append, Option.mem_def.mp hlast]
    rfl
  case blank => exact fun t ht => h.blank t (List.mem_append_right _ ht)
  case ne_eof => exact fun t ht => h.ne_eof t (List.mem_append_right _ ht)
  case enough => exact fun last hlast => h.enough last (hlast.trans (List.suffix_append _ _))

theorem tail (h : Settled (x :: tokens)) : Settled tokens :=
  (show Settled ([x] ++ tokens) from h).of_append

theorem isMark (h : Settled (x :: tokens)) {k : TokenKind} (hx : x.kind = k)
    (hk : k.isStructural = true) : x.IsMark k :=
  ⟨hx, h.blank x (List.mem_cons_self ..) (by rw [Token.isStructural, hx, hk])⟩

/-- An indentation follows the end of a line only. -/
theorem next_ne_indent (h : Settled (x :: tokens)) (hx : x.kind ≠ newline) :
    ∀ t ∈ tokens.head?, t.kind ≠ indent := by
  cases tokens with
  | nil => simp
  | cons y tokens =>
    intro t ht hindent
    cases ht
    have hadjacent := h.adjacent
    rw [List.map_cons, List.map_cons, List.isChain_cons_cons] at hadjacent
    exact hx (hadjacent.1.1 hindent)

/-- The words of a line are followed by its end. -/
theorem exists_newline (h : Settled (x :: tokens)) (hx : x.isStructural = false) :
    ∃ words newline rest, tokens = words ++ newline :: rest ∧
      (∀ t ∈ words, t.isStructural = false) ∧ newline.kind = .newline := by
  induction tokens generalizing x with
  | nil =>
    have hclosed := h.closed x rfl
    rw [hx] at hclosed
    exact nomatch hclosed
  | cons y tokens ih =>
    have hadjacent := h.adjacent
    rw [List.map_cons, List.map_cons, List.isChain_cons_cons] at hadjacent
    rcases hadjacent.1.2 hx with hnewline | hword
    · exact ⟨[], y, tokens, rfl, by simp, hnewline⟩
    · obtain ⟨words, newline, rest, rfl, hwords, hnewline⟩ := ih h.tail hword
      refine ⟨y :: words, newline, rest, rfl, ?_, hnewline⟩
      rintro t (_ | ⟨_, ht⟩)
      · exact hword
      · exact hwords t ht

/-- Lines begin with words, perhaps with none, unless a block begins or ends. -/
theorem exists_line (h : Settled (x :: tokens)) (hindent : x.kind ≠ indent)
    (hdedent : x.kind ≠ dedent) :
    ∃ words newline rest, x :: tokens = words ++ newline :: rest ∧
      (∀ t ∈ words, t.isStructural = false) ∧ newline.kind = .newline := by
  cases hx : x.isStructural with
  | false =>
    obtain ⟨words, newline, rest, rfl, hwords, hnewline⟩ := h.exists_newline hx
    refine ⟨x :: words, newline, rest, rfl, ?_, hnewline⟩
    rintro t (_ | ⟨_, ht⟩)
    · exact hx
    · exact hwords t ht
  | true =>
    refine ⟨[], x, tokens, rfl, by simp, ?_⟩
    have heof := h.ne_eof x (List.mem_cons_self ..)
    have hlayout : x.kind.isStructural = true := hx
    generalize x.kind = k at hindent hdedent heof hlayout
    cases k with
    | newline => rfl
    | indent => exact absurd rfl hindent
    | dedent => exact absurd rfl hdedent
    | eof => exact absurd rfl heof
    | _ => exact nomatch hlayout

/-- Every block that begins ends. -/
theorem exists_dedent (h : Settled (x :: (tokens ++ more))) (hx : x.kind = indent)
    (hbody : IsBody tokens) (hmore : ∀ t ∈ more.head?, t.kind = dedent) :
    ∃ y rest, more = y :: rest ∧ y.kind = dedent := by
  cases more with
  | cons y rest => exact ⟨y, rest, rfl, hmore y rfl⟩
  | nil =>
    have henough := h.enough _ (List.suffix_refl _)
    have hbalanced := hbody.balanced.even
    simp [hx] at henough
    omega

/-- Up to the end of the present block the tokens form a body. -/
theorem exists_body {n : Nat} (hn : tokens.length ≤ n) (h : Settled tokens)
    (hhead : ∀ t ∈ tokens.head?, t.kind ≠ indent) :
    ∃ body rest, tokens = body ++ rest ∧ IsBody body ∧ ∀ t ∈ rest.head?, t.kind = dedent := by
  induction n generalizing tokens with
  | zero =>
    have hnil : tokens = [] := List.length_eq_zero_iff.mp (Nat.le_zero.mp hn)
    exact ⟨[], [], hnil, .nil, by simp⟩
  | succ n ih =>
  cases tokens with
  | nil => exact ⟨[], [], rfl, .nil, by simp⟩
  | cons x tokens =>
  by_cases hdedent : x.kind = dedent
  · exact ⟨[], x :: tokens, rfl, .nil, by simpa using hdedent⟩
  obtain ⟨words, newline, rest, heq, hwords, hnewline⟩ := h.exists_line (hhead x rfl) hdedent
  rw [heq] at h hn ⊢
  rw [List.length_append, List.length_cons] at hn
  have hends := h.of_append.isMark hnewline rfl
  have hrest := h.of_append.tail
  by_cases hbelow : ∀ t ∈ rest.head?, t.kind ≠ indent
  · obtain ⟨body, more, rfl, hbody, hmore⟩ := ih (by omega) hrest hbelow
    exact ⟨words ++ newline :: body, more, by simp, .line hwords (by simp) hends hbody, hmore⟩
  · -- A block stands below the line; both what is in it and what follows it are shorter.
    obtain ⟨y, rest, rfl, hopens⟩ : ∃ y rest', rest = y :: rest' ∧ y.kind = indent := by
      cases rest with
      | nil => simp at hbelow
      | cons y rest => exact ⟨y, rest, rfl, by simpa using hbelow⟩
    rw [List.length_cons] at hn
    have hinside := hrest.next_ne_indent (by simp [hopens])
    obtain ⟨inner, more, rfl, hinner, hmore⟩ := ih (by omega) hrest.tail hinside
    obtain ⟨z, rest, rfl, hcloses⟩ := hrest.exists_dedent hopens hinner hmore
    rw [List.length_append, List.length_cons] at hn
    have hbehind := hrest.tail.of_append
    obtain ⟨body, more, rfl, hbody, hmore⟩ := ih (by omega) hbehind.tail
      (hbehind.next_ne_indent (by simp [hcloses]))
    refine ⟨words ++ newline :: y :: (inner ++ z :: body), more, by simp, ?_, hmore⟩
    exact .block hwords (by simp) hends (hrest.isMark hopens rfl) hinner
      (hbehind.isMark hcloses rfl) hbody

/-- A block comes next, or none begins here. -/
theorem exists_below (h : Settled tokens) :
    ∃ below rest, tokens = below ++ rest ∧ IsBelow below ∧ ∀ t ∈ rest.head?, t.kind ≠ indent := by
  by_cases hhead : ∀ t ∈ tokens.head?, t.kind ≠ indent
  · exact ⟨[], tokens, rfl, .none, hhead⟩
  · obtain ⟨x, rest, rfl, hopens⟩ : ∃ x rest, tokens = x :: rest ∧ x.kind = indent := by
      cases tokens with
      | nil => simp at hhead
      | cons x rest => exact ⟨x, rest, rfl, by simpa using hhead⟩
    obtain ⟨inner, more, rfl, hinner, hmore⟩ := h.tail.exists_body (Nat.le_refl _)
      (h.next_ne_indent (by simp [hopens]))
    obtain ⟨y, rest, rfl, hcloses⟩ := h.exists_dedent hopens hinner hmore
    have hbehind := h.tail.of_append
    exact ⟨x :: (inner ++ [y]), rest, by simp,
      .block (h.isMark hopens rfl) hinner (hbehind.isMark hcloses rfl),
      hbehind.next_ne_indent (by simp [hcloses])⟩

end Settled

theorem IsBelow.balanced {below : List Token} (h : IsBelow below) : Token.Balanced below := by
  cases h with
  | none => exact Token.balanced_nil
  | block opens inner closes => exact inner.balanced.block opens.kind_eq closes.kind_eq

/-- Before the end of a text its tokens are settled, and before no point more blocks have ended
than begun. -/
theorem settled_ofSource (source : String) :
    ∃ tokens last, (TokenizedText.ofSource source).tokens = tokens ++ [last] ∧ last.kind = eof ∧
      Settled tokens ∧
      ∀ first, first <+: tokens → Token.countOf dedent first ≤ Token.countOf indent first := by
  obtain ⟨tokens, stop, htokens, hnested, hlast, -⟩ := Reading.nested_transcribe source.toList
  have hmarked := Reading.marked_transcribe source.toList
  have hbalanced : Token.countOf indent tokens = Token.countOf dedent tokens := hnested.count_eq
  have henough (first : List Token) (hfirst : first <+: tokens) :
      Token.countOf dedent first ≤ Token.countOf indent first :=
    hnested.prefix_le _ (hfirst.map _)
  refine ⟨tokens, .mark eof stop, htokens, rfl, ?_, henough⟩
  constructor
  case adjacent => exact hnested.adjacent
  case closed =>
    intro last h
    apply hlast last.kind
    rw [List.getLast?_map, Option.mem_def.mp h]
    rfl
  case blank =>
    intro t ht
    exact hmarked t (by rw [htokens]; exact List.mem_append_left _ ht)
  case ne_eof => exact fun t ht he => hnested.eof_notMem (he ▸ List.mem_map_of_mem ht)
  case enough =>
    rintro last ⟨first, rfl⟩
    have hfirst := henough first (List.prefix_append _ _)
    simp only [Token.countOf_append] at hbalanced
    omega

/-- The tokens of a text: perhaps a block that belongs to no line, then lines, then the end. -/
structure Outlined (tokens lead body : List Token) (last : Token) : Prop where
  tokens_eq : tokens = lead ++ (body ++ [last])
  lead : IsBelow lead
  body : IsBody body
  last : last.kind = eof

theorem outlined_ofSource (source : String) :
    ∃ lead body last, Outlined (TokenizedText.ofSource source).tokens lead body last := by
  obtain ⟨tokens, last, heq, hlast, hsettled, henough⟩ := settled_ofSource source
  obtain ⟨lead, rest, rfl, hlead, hhead⟩ := hsettled.exists_below
  obtain ⟨body, more, rfl, hbody, hmore⟩ := hsettled.of_append.exists_body (Nat.le_refl _) hhead
  cases more with
  | nil => exact ⟨lead, body, last, by simpa using heq, hlead, hbody, hlast⟩
  | cons x more =>
    -- A block that ends behind the body would never have begun.
    have hx : x.kind = dedent := hmore x rfl
    have hcount := henough (lead ++ (body ++ [x])) ⟨more, by simp⟩
    have hbefore := hlead.balanced.even
    have hinner := hbody.balanced.even
    simp [hx] at hcount
    omega

end AgentScript
