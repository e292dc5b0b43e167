import AgentScript.Proofs.Parsing.SharedBlocks

/-!
# What the lines of a body add

A body is parsed the same wherever it stands. So what its lines gather and the problems found
in them can be read off a parse of the body alone, and both are put together from those of
its parts.
-/
namespace AgentScript

namespace ParserState

/-- The state before the tokens, behind which a block and the text end. -/
def bare (tokens : List Token) : ParserState where
  previous := none
  lastEnd := none
  rest := tokens ++ [.mark .dedent .origin]
  ending := .mark .eof .origin
  problems := #[]
  cap := 0

theorem tokens_bare (tokens : List Token) :
    (bare tokens).tokens = tokens ++ [.mark .dedent .origin, .mark .eof .origin] := by
  simp [bare, ParserState.tokens]

/-- The second state stands behind tokens of the first, with further problems found. -/
structure Reaches (s t : ParserState) (found : List ParseProblem) (rest : List Token) : Prop where
  tokens : t.tokens = rest
  ending : t.ending.kind = .eof
  problems : t.problems.toList = s.problems.toList ++ found
  cap : t.cap = s.cap

namespace Reaches

variable {s t u : ParserState} {found found' : List ParseProblem}
  {more rest : List Token} {x : Token}

protected theorem refl (h : s.tokens = rest) (he : s.ending.kind = .eof) : s.Reaches s [] rest :=
  ⟨h, he, (List.append_nil _).symm, rfl⟩

protected theorem trans (h : s.Reaches t found more) (h' : t.Reaches u found' rest) :
    s.Reaches u (found ++ found') rest := by
  refine ⟨h'.tokens, h'.ending, ?_, h'.cap.trans h.cap⟩
  rw [h'.problems, h.problems, List.append_assoc]

theorem advance (h : s.Reaches t found (x :: rest)) (hx : x.kind ≠ .eof) :
    s.Reaches t.advance found rest := by
  refine ⟨(advance_of_tokens h.ending h.tokens hx).1, ?_, ?_, ?_⟩
  · simpa using h.ending
  · simpa using h.problems
  · simpa using h.cap

end Reaches

end ParserState

open ParserState

variable {α ρ : Type} {line : LineParser α} {run : α → ParserState → ρ} {K : TokenKind → Prop}
  {G : α → α → Prop} {tokens more rest : List Token} {g g' : α} {s : ParserState}

theorem isMark_mark (k : TokenKind) (p : Position) : (Token.mark k p).IsMark k :=
  ⟨rfl, by simp [Token.mark]⟩

/-- What the lines of a body gather when nothing else is parsed. -/
def bodyGathered (line : LineParser α) (gathered : α) (tokens : List Token) : α :=
  ((bare tokens).runLines line gathered).1

/-- The problems found in the lines of a body when nothing else is parsed. -/
def bodyProblems (line : LineParser α) (gathered : α) (tokens : List Token) : List ParseProblem :=
  ((bare tokens).runLines line gathered).2.problems.toList

/-- The frame of a parse beside a parse of the body alone. -/
def Frame.besideBare (s : ParserState) (rest : List Token) : Frame where
  left := rest
  right := [.mark .dedent .origin, .mark .eof .origin]
  leftProblems := s.problems.toList
  rightProblems := []
  cap := 0
  even := .inl rfl

theorem Frame.alike_besideBare (he : s.ending.kind = .eof) (hcap : s.cap = 0)
    (h : s.tokens = tokens ++ rest) :
    (Frame.besideBare s rest).Alike .apart tokens s (bare tokens) := by
  constructor
  case left => exact h
  case right => exact tokens_bare tokens
  case leftEnding => exact he
  case rightEnding => rfl
  case problems => exact ⟨[], by simp [Frame.besideBare], rfl⟩
  case leftCap => exact hcap
  case rightCap => rfl
  case text => exact fun h => absurd h (Nat.not_succ_le_self 0)
  case word => exact fun h => absurd h (Nat.not_succ_le_zero 1)

/-- Behind a body every loop over its lines has gathered and found what the body alone gives. -/
theorem run_body [line.Proceeds] (hrun : LineLoop line run)
    (hline : line.Completes (fun s => K s.kind) G) (hrefuses : line.Refuses)
    (hlines : LinesOf K tokens) (hrest : ∀ t ∈ rest.head?, t.kind ≠ .indent)
    (he : s.ending.kind = .eof) (hcap : s.cap = 0) (h : s.tokens = tokens ++ rest) (hG : G g g') :
    ∃ t a, run g s = run a t ∧ G a (bodyGathered line g' tokens) ∧
      s.Reaches t (bodyProblems line g' tokens) rest := by
  have hclear : (Frame.besideBare s rest).Clear := by
    refine ⟨hrest, ?_, rfl⟩
    simp [Frame.besideBare, Token.mark]
  obtain ⟨t, t', a, a', ht, ht', halike, hG'⟩ := continues_lines hrun (lineLoop_runLines line) hline
    hrefuses hlines hclear (Nat.zero_le _) (Frame.alike_besideBare he hcap h) hG
  have hend := halike.right
  have hkind : t'.kind = .dedent := kind_of_tokens hend
  obtain ⟨found, hfound, hfound'⟩ := halike.problems
  have hbody : (bare tokens).runLines line g' = (a', t'.advance) := by
    rw [ht', runLines_dedent hkind]
  have hgathered : bodyGathered line g' tokens = a' := by rw [bodyGathered, hbody]
  have hproblems : bodyProblems line g' tokens = found := by
    rw [bodyProblems, hbody]
    simpa [Frame.besideBare] using hfound'
  refine ⟨t, a, ht, hgathered ▸ hG', halike.left, halike.leftEnding, ?_, ?_⟩
  · rw [hproblems]
    exact hfound
  · rw [halike.leftCap, hcap]
    rfl

/-- The block of a body ends with it. -/
theorem runLines_bodyBlock [line.Proceeds] {dedent : Token}
    (hline : line.Completes (fun s => K s.kind) G) (hrefuses : line.Refuses)
    (hlines : LinesOf K tokens) (hdedent : dedent.IsMark .dedent)
    (he : s.ending.kind = .eof) (hcap : s.cap = 0) (h : s.tokens = tokens ++ dedent :: rest)
    (hG : G g g') :
    ∃ t a, s.runLines line g = (a, t) ∧ G a (bodyGathered line g' tokens) ∧
      s.Reaches t (bodyProblems line g' tokens) rest := by
  obtain ⟨t, a, ht, hG', hreaches⟩ := run_body (lineLoop_runLines line) hline hrefuses hlines
    (by simp [hdedent.kind_eq]) he hcap h hG
  have hkind := (kind_of_tokens hreaches.tokens).trans hdedent.kind_eq
  exact ⟨t.advance, a, by rw [ht, runLines_dedent hkind], hG',
    hreaches.advance (hdedent.ne_eof (by decide))⟩

/-- A loop that passes something between two bodies. What it has gathered behind that may be
told from what some value gives in its place. -/
theorem run_around [line.Proceeds] {J : TokenKind → Prop} {G' : α → α → Prop}
    {before middle after : List Token} {found : List ParseProblem} {c : α}
    (hrun : LineLoop line run) (hline : line.Completes (fun s => K s.kind) G)
    (hline' : line.Completes (fun s => J s.kind) G') (hrefuses : line.Refuses)
    (hbefore : LinesOf K before) (hafter : LinesOf J after)
    (hmiddle : ∀ t ∈ (middle ++ (after ++ rest)).head?, t.kind ≠ .indent)
    (hrest : ∀ t ∈ rest.head?, t.kind ≠ .indent)
    (hpass : ∀ t a, G a (bodyGathered line g' before) → t.ending.kind = .eof → t.cap = 0 →
      t.tokens = middle ++ (after ++ rest) →
      ∃ u d, run a t = run d u ∧ G' d c ∧ t.Reaches u found (after ++ rest))
    (he : s.ending.kind = .eof) (hcap : s.cap = 0)
    (h : s.tokens = before ++ (middle ++ (after ++ rest))) (hG : G g g') :
    ∃ t a, run g s = run a t ∧ G' a (bodyGathered line c after) ∧
      s.Reaches t (bodyProblems line g' before ++ (found ++ bodyProblems line c after)) rest := by
  obtain ⟨t, a, ht, hGt, hreachest⟩ := run_body hrun hline hrefuses hbefore hmiddle he hcap h hG
  obtain ⟨u, d, hu, hGu, hreachesu⟩ := hpass t a hGt hreachest.ending (hreachest.cap.trans hcap)
    hreachest.tokens
  have hcapu : u.cap = 0 := (hreachesu.cap.trans hreachest.cap).trans hcap
  obtain ⟨v, e, hv, hGv, hreachesv⟩ := run_body hrun hline' hrefuses hafter hrest hreachesu.ending
    hcapu hreachesu.tokens hGu
  exact ⟨v, e, ht.trans (hu.trans hv), hGv, hreachest.trans (hreachesu.trans hreachesv)⟩

section Items

variable {β : Type} {p : Parser β} [Parser.Proceeds p]

/-- The items of a body. -/
def bodyItems (p : Parser β) (tokens : List Token) : List β := bodyGathered (.item p) [] tokens

/-- The problems found among the items of a body. -/
def itemProblems (p : Parser β) (tokens : List Token) : List ParseProblem :=
  bodyProblems (.item p) [] tokens

/-- Items are added to those gathered before. -/
theorem runLines_itemBlock {dedent : Token} (h : p.Completes fun _ => True) (h' : p.Refuses)
    (hbody : IsBody tokens) (hdedent : dedent.IsMark .dedent) (he : s.ending.kind = .eof)
    (hcap : s.cap = 0) (htokens : s.tokens = tokens ++ dedent :: rest) (before : List β) :
    ∃ t, s.runLines (.item p) before = (before ++ bodyItems p tokens, t) ∧
      s.Reaches t (itemProblems p tokens) rest := by
  have hline : (LineParser.item p).Completes (fun _ => True) fun g g' => g = before ++ g' :=
    LineParser.completes_item (by rintro _ g' a rfl; rw [List.append_assoc]) h
  obtain ⟨t, a, ht, rfl, hreaches⟩ := runLines_bodyBlock (K := fun _ => True)
    (G := fun g g' => g = before ++ g') hline (LineParser.refuses_item h') hbody hdedent he hcap
    htokens (List.append_nil before).symm
  exact ⟨t, ht, hreaches⟩

/-- Both parts of a body add their own items and problems. -/
theorem bodyItems_itemProblems_append (h : p.Completes fun _ => True) (h' : p.Refuses)
    (hbody : IsBody tokens) (hmore : IsBody more) :
    bodyItems p (tokens ++ more) = bodyItems p tokens ++ bodyItems p more ∧
      itemProblems p (tokens ++ more) = itemProblems p tokens ++ itemProblems p more := by
  have hline : (LineParser.item p).Completes (fun _ => True) Eq :=
    LineParser.completes_item (by rintro g _ a rfl; rfl) h
  have htokens : (bare (tokens ++ more)).tokens = tokens ++
      (more ++ [.mark .dedent .origin, .mark .eof .origin]) := by
    rw [tokens_bare, List.append_assoc]
  have hhead : ∀ t ∈ (more ++ [Token.mark .dedent .origin, .mark .eof .origin]).head?,
      t.kind ≠ .indent := by
    cases more with
    | nil => simp [Token.mark]
    | cons x more => simpa using hmore.head_ne_indent
  obtain ⟨t, a, ht, rfl, hreaches⟩ := run_body (K := fun _ => True) (lineLoop_runLines _) hline
    (LineParser.refuses_item h') hbody hhead rfl rfl htokens rfl
  obtain ⟨u, hu, hreaches'⟩ := runLines_itemBlock h h' hmore (isMark_mark .dedent .origin)
    hreaches.ending (hreaches.cap.trans rfl) hreaches.tokens
    (bodyGathered (LineParser.item p) [] tokens)
  have hrun := ht.trans hu
  constructor
  · rw [bodyItems, bodyGathered, hrun]
    rfl
  · rw [itemProblems, bodyProblems, hrun]
    rw [hreaches'.problems, hreaches.problems]
    rfl

end Items

end AgentScript
