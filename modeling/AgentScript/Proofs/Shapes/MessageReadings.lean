import AgentScript.Proofs.Parsing.FilePlacement
import AgentScript.Proofs.Shapes.CleanLines

/-!
# Messages and their lines

Every message ends its range behind its block, at the last token with text that it has passed. It
begins the range where its form begins: behind a traffic type, and behind the keyword `message`.
-/
namespace AgentScript

open ParserState WholeLine

/-- The first token alone if it is of the sort, no token otherwise. -/
def Token.takeIf (sort : TokenKind → Bool) : List Token → List Token
  | [] => []
  | t :: _ => if sort t.kind then [t] else []

/-- The tokens without the first one if it is of the sort. -/
def Token.dropIf (sort : TokenKind → Bool) : List Token → List Token
  | [] => []
  | t :: rest => if sort t.kind then rest else t :: rest

/-- The keywords on the line of a message before its range: a traffic type, and `message`. -/
def leadWords (line : List Token) : List Token :=
  Token.takeIf (·.traffic?.isSome) line ++
    Token.takeIf (· == .keyword .message) (Token.dropIf (·.traffic?.isSome) line)

/-- The words of a line behind the leading keywords. -/
def rangedWords (line : List Token) : List Token :=
  Token.dropIf (· == .keyword .message) (Token.dropIf (·.traffic?.isSome) line)

/-- The message is read from a line and what is below it. Its range goes from the first word
behind the leading keywords to the last token with text. -/
inductive Message.ReadFrom (m : Message) : List Token → Prop
  | mk {words below : List Token} {newline first last : Token}
      (inLine : ∀ t ∈ words, t.isStructural = false) (ends : newline.IsMark .newline)
      (isBelow : IsBelow below) (begins : first ∈ (rangedWords words).head?)
      (stops : last ∈ (Token.texts (words ++ newline :: below)).getLast?)
      (located : m.location = some ⟨first.start, last.stop⟩) :
      ReadFrom m (words ++ newline :: below)

namespace Token

variable {sort : TokenKind → Bool} {words more : List Token} {fence : Token}

theorem takeIf_append_dropIf (sort : TokenKind → Bool) (words : List Token) :
    takeIf sort words ++ dropIf sort words = words := by
  cases words with
  | nil => rfl
  | cons t rest =>
    rw [takeIf, dropIf]
    split_ifs <;> rfl

/-- A token that is not of the sort ends the words. -/
theorem takeIf_fence (h : sort fence.kind = false) :
    takeIf sort (words ++ fence :: more) = takeIf sort words := by
  cases words with
  | nil => simp [takeIf, h]
  | cons t rest => rfl

theorem dropIf_fence (h : sort fence.kind = false) :
    dropIf sort (words ++ fence :: more) = dropIf sort words ++ fence :: more := by
  cases words with
  | nil => simp [dropIf, h]
  | cons t rest =>
    simp only [dropIf, List.cons_append]
    split_ifs <;> rfl

end Token

theorem leadWords_append_rangedWords (line : List Token) :
    leadWords line ++ rangedWords line = line := by
  rw [leadWords, rangedWords, List.append_assoc, Token.takeIf_append_dropIf,
    Token.takeIf_append_dropIf]

section

variable {words more : List Token} {newline : Token}

theorem leadWords_fence (h : newline.IsMark .newline) :
    leadWords (words ++ newline :: more) = leadWords words := by
  have htraffic : newline.kind.traffic?.isSome = false := by rw [h.kind_eq]; rfl
  have hmessage : (newline.kind == .keyword .message) = false := by rw [h.kind_eq]; rfl
  rw [leadWords, leadWords, Token.takeIf_fence htraffic, Token.dropIf_fence htraffic,
    Token.takeIf_fence hmessage]

theorem rangedWords_fence (h : newline.IsMark .newline) :
    rangedWords (words ++ newline :: more) = rangedWords words ++ newline :: more := by
  have htraffic : newline.kind.traffic?.isSome = false := by rw [h.kind_eq]; rfl
  have hmessage : (newline.kind == .keyword .message) = false := by rw [h.kind_eq]; rfl
  rw [rangedWords, rangedWords, Token.dropIf_fence htraffic, Token.dropIf_fence hmessage]

end

namespace ParserState

variable {s t : ParserState}

/-- Passes the next token if it is of the sort. -/
def passIf (sort : TokenKind → Bool) (s : ParserState) : ParserState :=
  if sort s.kind then s.advance else s

theorem leads_passIf (sort : TokenKind → Bool) (s : ParserState) : s.Leads (s.passIf sort) := by
  unfold passIf
  split_ifs
  · exact leads_advance s
  · exact .refl

theorem tokens_passIf {sort : TokenKind → Bool} (he : s.ending.kind = .eof)
    (hsort : sort .eof = false) : (s.passIf sort).tokens = Token.dropIf sort s.tokens := by
  obtain ⟨l, hl⟩ := s.exists_tokens
  rw [hl, Token.dropIf, ← ParserState.kind]
  unfold passIf
  split_ifs with hk
  · refine (advance_of_tokens he hl fun heof => ?_).1
    rw [ParserState.kind, heof, hsort] at hk
    cases hk
  · exact hl

/-- The state from which the range of a message is taken. -/
def behindLead (s : ParserState) : ParserState :=
  (s.passIf (·.traffic?.isSome)).passIf (· == .keyword .message)

theorem tokens_behindLead (he : s.ending.kind = .eof) :
    s.behindLead.tokens = rangedWords s.tokens := by
  have he' : (s.passIf (·.traffic?.isSome)).ending.kind = .eof := by
    rw [(leads_passIf _ s).ending_eq, he]
  rw [behindLead, tokens_passIf he' rfl, tokens_passIf he rfl, rangedWords]

end ParserState

namespace Parser

variable {α β : Type} {loc : α → Option Location} {start : Position} {s t : ParserState}
    {m : Message}

/-- What the parser answers with is placed from a point to the last token with text. -/
def EndsRange (loc : α → Option Location) (start : Position) (p : Parser α) : Prop :=
  ∀ ⦃s t : ParserState⦄ ⦃a : α⦄, p s = .ok a t → loc a = some (t.spanFrom start)

theorem EndsRange.skip {p : Parser β} {f : β → Parser α} (h : ∀ b, EndsRange loc start (f b)) :
    EndsRange loc start (p >>= f) := by
  intro s u a heq
  obtain ⟨b, t, -, ha⟩ := bind_eq_ok.mp heq
  exact h b ha

theorem endsRange_spanFrom {f : Location → α} (h : ∀ l, loc (f l) = some l) :
    EndsRange loc start (spanFrom start >>= fun l => pure (f l)) := by
  intro s t a heq
  obtain ⟨l, u, hl, ha⟩ := bind_eq_ok.mp heq
  cases hl
  cases ha
  exact h _

theorem EndsRange.advance {f : Token → Parser α} {a : α} (h : ∀ k, EndsRange loc k.start (f k))
    (heq : (Parser.advance >>= f) s = .ok a t) : loc a = some (t.spanFrom s.current.start) := by
  obtain ⟨k, u, hk, ha⟩ := bind_eq_ok.mp heq
  cases hk
  exact h _ ha

theorem endsRange_richCard {traffic : Option TrafficType} {card : RichCard}
    (h : richCard traffic s = .ok card t) :
    card.header.location = some (t.spanFrom s.current.start) := by
  obtain ⟨k, u, hk, hcard⟩ := bind_eq_ok.mp h
  obtain ⟨-, rfl, rfl⟩ := expect_eq_ok.mp hk
  refine (?_ : EndsRange (fun c : RichCard => c.header.location) s.current.start _) hcard
  refine .skip fun _ => .skip fun _ => .skip fun _ => .skip fun _ => .skip fun _ => ?_
  exact endsRange_spanFrom fun _ => rfl

theorem endsRange_shortForm (traffic : Option TrafficType) (form : MessageForm)
    (h : shortForm traffic form s = .ok m t) : m.location = some (t.spanFrom s.current.start) := by
  cases form with
  | text =>
    refine EndsRange.advance (fun k => ?_) h
    exact .skip fun _ => .skip fun _ => .skip fun _ => endsRange_spanFrom fun _ => rfl
  | richCard =>
    obtain ⟨card, u, hcard, ⟨⟩⟩ := bind_eq_ok.mp h
    exact endsRange_richCard hcard
  | carousel =>
    refine EndsRange.advance (fun k => ?_) h
    exact .skip fun _ => .skip fun _ => .skip fun _ => .skip fun _ =>
      endsRange_spanFrom fun _ => rfl
  | rbmFile =>
    refine EndsRange.advance (fun k => ?_) h
    exact .skip fun _ => .skip fun _ => .skip fun _ => .skip fun _ =>
      endsRange_spanFrom fun _ => rfl
  | file =>
    refine EndsRange.advance (fun k => ?_) h
    exact .skip fun _ => .skip fun _ => .skip fun _ => endsRange_spanFrom fun _ => rfl

theorem endsRange_messageDefinition (traffic : Option TrafficType)
    (h : messageDefinition traffic s = .ok m t) :
    s.kind.isStructural = false ∧ m.location = some (t.spanFrom s.current.start) := by
  obtain ⟨k, u, hk, h⟩ := bind_eq_ok.mp h
  cases hk
  obtain ⟨name, u, hname, h⟩ := bind_eq_ok.mp h
  refine ⟨isStructural_of_isWordlike (takeName_eq_ok.mp hname).1, ?_⟩
  refine (?_ : EndsRange Message.location s.current.start _) h
  exact .skip fun _ => .skip fun _ => endsRange_spanFrom fun _ => rfl

theorem state_of_takeTraffic {traffic : Option TrafficType} (h : takeTraffic s = .ok traffic t) :
    t = s.passIf (·.traffic?.isSome) := by
  obtain ⟨k, u, hk, h⟩ := bind_eq_ok.mp h
  cases hk
  unfold passIf
  cases htraffic : s.kind.traffic? with
  | some tr =>
    rw [htraffic] at h
    obtain ⟨_, _, ⟨⟩, ⟨⟩⟩ := bind_eq_ok.mp h
    exact (if_pos (by simp [htraffic])).symm
  | none =>
    rw [htraffic] at h
    cases h
    exact (if_neg (by simp [htraffic])).symm

/-- Every message begins its range behind the leading keywords. -/
theorem endsRange_message (h : message s = .ok m t) :
    s.behindLead.kind.isStructural = false ∧
      m.location = some (t.spanFrom s.behindLead.current.start) := by
  obtain ⟨traffic, u, htraffic, h⟩ := bind_eq_ok.mp h
  have hu := state_of_takeTraffic htraffic
  obtain ⟨k, v, hk, h⟩ := bind_eq_ok.mp h
  obtain ⟨rfl, rfl⟩ := EStateM.Result.ok.inj hk
  generalize hkind : u.kind = k at h
  unfold behindLead
  rw [← hu]
  unfold passIf
  split at h
  case h_1 form =>
    rw [if_neg (by simp [hkind]), hkind]
    exact ⟨rfl, endsRange_shortForm traffic form h⟩
  case h_2 =>
    obtain ⟨_, _, ⟨⟩, h⟩ := bind_eq_ok.mp h
    rw [if_pos (by simp [hkind])]
    exact endsRange_messageDefinition traffic h
  case h_3 => cases h
  case h_4 hkeyword _ =>
    rw [if_neg (by simpa [hkind] using hkeyword)]
    obtain ⟨starts, _, hstarts, h⟩ := bind_eq_ok.mp h
    cases hstarts
    split_ifs at h
    · exact endsRange_messageDefinition traffic h
    · cases h
    · cases h

end Parser

/-- Tokens one behind the other. -/
structure Token.InOrder (tokens : List Token) : Prop where
  pairwise : tokens.Pairwise Precedes
  forward : ∀ t ∈ tokens, t.start.Before t.stop

namespace Token

variable {tokens more : List Token} {x y first last : Token}

theorem inOrder_of_isChain (hchain : tokens.IsChain Precedes)
    (hforward : ∀ t ∈ tokens, t.start.Before t.stop) : InOrder tokens := by
  refine ⟨?_, hforward⟩
  induction hchain with
  | nil => exact .nil
  | singleton => exact List.pairwise_singleton _ _
  | @cons_cons a b l hab hchain ih =>
    have hlater := ih fun t ht => hforward t (List.mem_cons_of_mem _ ht)
    refine List.pairwise_cons.mpr ⟨fun c hc => ?_, hlater⟩
    rcases List.mem_cons.mp hc with rfl | hc
    · exact hab
    · have hb := hforward b (List.mem_cons_of_mem _ (List.mem_cons_self ..))
      exact (Position.Before.trans hab hb).trans (List.rel_of_pairwise_cons hlater hc)

theorem InOrder.sublist (h : InOrder tokens) (hsub : more.Sublist tokens) : InOrder more :=
  ⟨h.pairwise.sublist hsub, fun t ht => h.forward t (hsub.subset ht)⟩

/-- Nothing stops behind the last token. -/
theorem InOrder.before_last (h : InOrder tokens) (hlast : last ∈ tokens.getLast?)
    (hx : x ∈ tokens) :
    x.stop.Before last.stop := by
  obtain ⟨before, rfl⟩ := List.getLast?_eq_some_iff.mp hlast
  rcases List.mem_append.mp hx with hx | hx
  · have hprecedes := (List.pairwise_append.mp h.pairwise).2.2 x hx last (List.mem_singleton_self _)
    exact Position.Before.trans hprecedes (h.forward last (by simp))
  · rw [List.mem_singleton.mp hx]
    exact .refl _

/-- Nothing starts before the first token. -/
theorem InOrder.first_before (h : InOrder tokens) (hfirst : first ∈ tokens.head?)
    (hx : x ∈ tokens) :
    first.start.Before x.start := by
  obtain ⟨later, rfl⟩ := List.head?_eq_some_iff.mp hfirst
  rcases List.mem_cons.mp hx with rfl | hx
  · exact .refl _
  · exact (h.forward first (List.mem_cons_self ..)).trans (List.rel_of_pairwise_cons h.pairwise hx)

end Token

theorem ParserState.Ordered.inOrder {limit : Nat} {s : ParserState} (h : s.Ordered limit) :
    Token.InOrder s.tokens :=
  Token.inOrder_of_isChain (h.chain.imp fun _ _ hadjoins => hadjoins.1) fun t ht =>
    (h.inside t ht).1

/-- A message that is read without a problem goes with the tokens it is read from. -/
theorem Parser.readsLine_message {S : ParserState → Prop} {limit : Nat}
    (hS : ∀ s, S s → s.Ordered limit) : message.ReadsLine S Message.ReadFrom := by
  intro s t m words below newline hs hwords hnewline hbelow h heq
  have hordered := hS s hs
  obtain ⟨hword, hlocation⟩ := endsRange_message heq
  have hbehind := tokens_behindLead hordered.ending
  rw [h, rangedWords_fence hnewline] at hbehind
  have hwhole := leadWords_append_rangedWords words
  cases hranged : rangedWords words with
  | nil =>
    rw [hranged] at hbehind
    rw [kind_of_tokens hbehind, hnewline.kind_eq] at hword
    cases hword
  | cons first later =>
    rw [hranged] at hbehind
    rw [hranged] at hwhole
    have hmem : first ∈ Token.texts (words ++ newline :: below) := by
      rw [Token.texts_append, Token.texts_words hwords, ← hwhole]
      simp
    obtain ⟨last, hlast⟩ : ∃ last, last ∈ (Token.texts (words ++ newline :: below)).getLast? :=
      ⟨_, List.getLast?_eq_some_getLast (List.ne_nil_of_mem hmem)⟩
    have hpassed : s.tokens = (words ++ newline :: below) ++ t.tokens := by simpa using h
    have hinOrder : Token.InOrder (Token.texts (words ++ newline :: below)) := by
      refine hordered.inOrder.sublist (List.filter_sublist.trans ?_)
      rw [hpassed]
      exact List.sublist_append_left _ _
    have hbefore : first.start.Before last.stop :=
      (hinOrder.forward first hmem).trans (hinOrder.before_last hlast hmem)
    refine .mk hwords hnewline hbelow (by rw [hranged]; rfl) hlast ?_
    have hend := (message.leads_of_ok heq).lastEnd_eq hpassed
    rw [hlast] at hend
    rw [hlocation, current_of_tokens hbehind, ParserState.spanFrom, hend]
    exact congrArg some (if_pos hbefore.1)

end AgentScript
