import AgentScript.Proofs.Parsing.Descent
import AgentScript.Proofs.Reflow.Progress

/-!
# Parsing terminates

Within a line every loop passes a word before it goes on, and a value that contains values passes
the beginning of its block or its bracket before them. So no bound of a parse is ever reached:
nothing goes back, and all loops and recursions are determined by recursion on the number of tokens
to come.
-/
namespace AgentScript

open ParserState

namespace ParserState

variable {s : ParserState}

/-- The words left on the line, and the layout token behind them. -/
theorem exists_line_of_ending (he : s.ending.kind = .eof) :
    ∃ words fence below, s.tokens = words ++ fence :: below ∧
      (∀ t ∈ words, t.isStructural = false) ∧ fence.isStructural = true := by
  have hending : s.ending.isStructural = true := by rw [Token.isStructural, he]; rfl
  have hsome : s.tokens.dropWhile (fun t => !t.isStructural) ≠ [] := by
    rw [ne_eq, List.dropWhile_eq_nil_iff, tokens]
    simp [hending]
  have hstop := List.head_dropWhile_not (fun t : Token => !t.isStructural) hsome
  obtain ⟨fence, below, heq⟩ := List.exists_cons_of_ne_nil hsome
  refine ⟨s.tokens.takeWhile fun t => !t.isStructural, fence, below, ?_, ?_, ?_⟩
  · rw [← heq, List.takeWhile_append_dropWhile]
  · exact fun t ht => by simpa using List.mem_takeWhile_imp ht
  · simpa [heq] using hstop

end ParserState

namespace Parser

variable {α β : Type} {start s : ParserState} {p : Parser α} {b : Footing}

def eachAfterBody (separator : TokenKind) (item : Parser α) (next : Parser (List α)) :
    Parser (List α) := do
  if ← eat separator then
    let a ← item
    let rest ← next
    return a :: rest
  else return []

def membersBody (next : Parser (List String)) : Parser (List String) := do
  if ← look startsMember then
    let _ ← advance
    let t ← advance
    let rest ← next
    return t.text :: rest
  else return []

/-- Items with commas between them up to the token of the kind. -/
def commaBody (item : Parser α) (close : TokenKind) (next : Parser (List α)) : Parser (List α) := do
  if ← check close then return []
  else
    let a ← item
    if ← eat .comma then
      let rest ← next
      return a :: rest
    else return [a]

def contentBody (k : TokenKind) (next : Parser (List String)) : Parser (List String) := do
  if ← check k then
    let t ← advance
    let rest ← next
    return t.text :: rest
  else return []

def optionsBody (place : OptionPlace) (apply : α → String → Option α) (next : α → Parser α)
    (a : α) : Parser α := do
  if ← check .atom then
    let t ← advance
    let a ← applyOption place apply a t
    next a
  else return a

def cardOptionsBody (next : CardParts → Parser CardParts) (c : CardParts) : Parser CardParts := do
  match ← kind with
  | .atom =>
    let t ← advance
    let c ← applyOption .richCard CardParts.withOption? c t
    next c
  | .lt =>
    let image ← url "image URL"
    next { c with imageUrl := some image }
  | .string =>
    let image ← url "image URL"
    next { c with imageUrl := some image }
  | _ => return c

/-- An inline value that contains values itself. -/
def inlineValueBody (item : Parser Value) : Parser Value := do
  match ← kind with
  | .string => return .ofStringToken (← advance)
  | .number =>
    let t ← advance
    ofNode (Value.ofNumberToken t) t.location
  | .literal _ =>
    let t ← advance
    match Value.ofLiteralToken? t with
    | some v => return v
    | none => unexpected "value"
  | .atom => return .ofAtomToken (← advance)
  | .lt => return .typeTag (← typeTag)
  | .embeddedMarker => expression
  | .opening .paren => inlineList item .paren "')'"
  | .opening .square => inlineList item .square "']'"
  | .opening .curly => inlineDictionary item
  | .properWord => identifier
  | .commonNoun => identifier
  | _ => unexpected "value"

/-- Where the parser succeeds it has passed words of its line alone. -/
def KeepsLine (p : Parser α) : Prop :=
  ∀ ⦃s t : ParserState⦄ ⦃a : α⦄, s.ending.kind = .eof → p s = .ok a t →
    s.Leads t ∧ s.remaining + t.lineLeft = t.remaining + s.lineLeft

theorem Agrees.keepsLine [Proceeds p] (h : Agrees (fun _ => True) .apart b p) : p.KeepsLine := by
  intro s t a he hp
  have hleads := p.leads_of_ok hp
  obtain ⟨words, fence, below, htokens, hwords, hfence⟩ := exists_line_of_ending he
  -- The parse is compared with itself.
  let L : SharedLine := ⟨⟨[], [], s.problems.toList, s.problems.toList, s.cap, .inr rfl⟩, fence,
    hfence, below⟩
  have hs : L.Within .apart s s := by
    refine ⟨words, hwords, ?_⟩
    constructor
    case left => rw [htokens, List.append_nil]
    case right => rw [htokens, List.append_nil]
    case leftEnding => exact he
    case rightEnding => exact he
    case problems => exact ⟨[], by simp [L], by simp [L]⟩
    case leftCap => rfl
    case rightCap => rfl
    case text => exact fun _ => rfl
    case word => exact fun h => absurd h (Nat.not_succ_le_zero 1)
  have hout := h hs trivial
  rw [hp] at hout
  cases hout with
  | ok _ _ shared =>
    obtain ⟨left, hleft, halike⟩ := shared
    have htokens' : t.tokens = left ++ fence :: below := by
      rw [halike.left, List.append_nil]
    refine ⟨hleads, ?_⟩
    have hle := hleads.remaining_le
    have hremaining := remaining_of_tokens htokens
    have hremaining' := remaining_of_tokens htokens'
    rw [lineLeft_of_tokens he hwords hfence htokens,
      lineLeft_of_tokens halike.leftEnding hleft hfence htokens']
    rw [List.length_append] at hremaining hremaining'
    omega

theorem bind_congr_of_ok {f f' : α → Parser β} (h : ∀ a t, p s = .ok a t → f a t = f' a t) :
    (p >>= f) s = (p >>= f') s := by
  cases heq : p s with
  | ok a t => rw [bind_of_ok f heq, bind_of_ok f' heq, h a t heq]
  | error e t => rw [bind_of_error f heq, bind_of_error f' heq]

/-- At the end of a line no word comes next. -/
theorem kind_ne_of_lineLeft_eq_zero {k : TokenKind} (hk : k.isStructural = false)
    (he : s.ending.kind = .eof) (h : s.lineLeft = 0) : s.kind ≠ k := by
  rintro rfl
  rw [lineLeft_advance he hk] at h
  exact Nat.succ_ne_zero _ h

section

variable {k : TokenKind} {yes yes' no : Parser β}

theorem check_congr (h : s.kind = k → yes s = yes' s) :
    (check k >>= fun c => if c = true then yes else no) s =
      (check k >>= fun c => if c = true then yes' else no) s := by
  rw [check_bind_apply, check_bind_apply]
  split_ifs with hk
  · exact h hk
  · rfl

theorem eat_congr (h : s.kind = k → yes s.advance = yes' s.advance) :
    (eat k >>= fun c => if c = true then yes else no) s =
      (eat k >>= fun c => if c = true then yes' else no) s := by
  rw [eat_bind_eq, eat_bind_eq]
  exact check_congr h

theorem eat_of_ne (h : s.kind ≠ k) :
    (eat k >>= fun c => if c = true then yes else no) s = no s := by
  rw [eat_bind_eq, check_bind_apply, if_neg h]

end

namespace KeepsLine

variable {t u : ParserState} {a : α}

theorem lineLeft_le (h : p.KeepsLine) (he : s.ending.kind = .eof) (hp : p s = .ok a t) :
    t.lineLeft ≤ s.lineLeft := by
  obtain ⟨hleads, hline⟩ := h he hp
  have hle := hleads.remaining_le
  omega

/-- What has been passed before the parser makes the bound less. -/
theorem descends_behind (h : p.KeepsLine) (hs : s.Descends ParserState.lineLeft t)
    (he : t.ending.kind = .eof) (hp : p t = .ok a u) : s.Descends ParserState.lineLeft u :=
  hs.trans_line (h he hp).1 (h.lineLeft_le he hp)

/-- What is passed behind the parser makes the bound less. -/
theorem descends_before (h : p.KeepsLine) (he : s.ending.kind = .eof) (hp : p s = .ok a t)
    (ht : t.Descends ParserState.lineLeft u) : s.Descends ParserState.lineLeft u :=
  ⟨(h he hp).1.trans ht.leads, Nat.lt_of_lt_of_le ht.remaining_lt (h he hp).1.remaining_le,
    Nat.lt_of_lt_of_le ht.bound_lt (h.lineLeft_le he hp)⟩

/-- A parser that takes a token makes the bound less. -/
theorem descends (h : p.KeepsLine) [hp : Consumes p] (he : s.ending.kind = .eof)
    (hend : s.atEnd = false) (heq : p s = .ok a t) : s.Descends ParserState.lineLeft t := by
  obtain ⟨hleads, hline⟩ := h he heq
  have hlt := hp.lt hend heq
  exact ⟨hleads, hlt, by omega⟩

end KeepsLine

theorem recurs_eachAfter {separator : TokenKind} (hk : separator.isStructural = false)
    (hp : p.KeepsLine) (hstart : start.ending.kind = .eof) :
    start.Recurs (fun s => s) (eachAfterBody separator p) fun s =>
      eachAfter separator p s.lineLeft s := by
  refine recurs_loop hstart (fun s => s) (eachAfter separator p) ParserState.lineLeft
    ?_ ?_ ?_
  · exact fun n => rfl
  · exact fun s he hs => eat_of_ne (kind_ne_of_lineLeft_eq_zero hk he hs)
  · intro s he g h hgh
    refine eat_congr fun hkind => ?_
    have hword := descends_word he (hkind ▸ hk)
    refine bind_congr_of_ok fun a t ht => ?_
    exact bind_congr_left (hgh t (hp.descends_behind hword (by simpa using he) ht)) _

theorem recurs_members (hstart : start.ending.kind = .eof) :
    start.Recurs (fun s => s) membersBody fun s => members s.lineLeft s := by
  refine recurs_loop hstart (fun s => s) members ParserState.lineLeft ?_ ?_ ?_
  · exact fun n => rfl
  · intro s he hs
    have hno : ¬ startsMember s = true := fun h =>
      kind_ne_of_lineLeft_eq_zero rfl he hs (startsMember_iff.mp h).1
    change (look startsMember >>= fun c => if c = true then _ else _) s = _
    rw [look_bind_apply, if_neg hno]
    rfl
  · intro s he g h hgh
    unfold membersBody
    rw [look_bind_apply, look_bind_apply]
    split_ifs with hmember
    · obtain ⟨hpoint, hname⟩ := kinds_of_startsMember (·.isStructural = false) rfl rfl rfl hmember
      have hdot := descends_word he hpoint
      have hnext := hdot.trans_line s.advance.leads_advance
        (Nat.le_of_lt (descends_word (by simpa using he) hname).bound_lt)
      exact bind_congr_left (hgh s.advance.advance hnext) _
    · rfl

/-- The items of a list and the entries of a dictionary. -/
theorem recurs_comma {close : TokenKind} {loop : Nat → Parser (List α)}
    (hsucc : ∀ n, loop (n + 1) = commaBody p close (loop n)) (hp : p.KeepsLine)
    (hstart : start.ending.kind = .eof) :
    start.Recurs (fun s => s) (commaBody p close) fun s => loop (s.lineLeft + 1) s := by
  refine recurs_loop hstart (fun s => s) loop (fun s => s.lineLeft + 1) hsucc ?_ ?_
  · exact fun s he hs => absurd hs (Nat.succ_ne_zero _)
  · intro s he g h hgh
    unfold commaBody
    rw [check_bind_apply, check_bind_apply]
    split_ifs
    · rfl
    · refine bind_congr_of_ok fun a t ht => eat_congr fun hcomma => ?_
      have hword := descends_word ((hp he ht).1.ending_eq ▸ he) (by rw [hcomma]; rfl)
      exact bind_congr_left (hgh t.advance (hp.descends_before he ht hword).succ) _

theorem recurs_content {k : TokenKind} (hk : k.isStructural = false)
    (hstart : start.ending.kind = .eof) :
    start.Recurs (fun s => s) (contentBody k) fun s => contentLines k s.lineLeft s := by
  refine recurs_loop hstart (fun s => s) (contentLines k) ParserState.lineLeft ?_ ?_ ?_
  · exact fun n => rfl
  · intro s he hs
    have hne := kind_ne_of_lineLeft_eq_zero hk he hs
    change (check k >>= fun c => if c = true then _ else _) s = _
    rw [check_bind_apply, if_neg hne]
    rfl
  · intro s he g h hgh
    refine check_congr fun hkind => ?_
    exact bind_congr_left (hgh s.advance (descends_word he (hkind ▸ hk))) _

/-- What follows an option goes on behind it. -/
theorem applyOption_congr (place : OptionPlace) (apply : α → String → Option α) (a : α)
    {f f' : α → Parser β} (he : s.ending.kind = .eof) (hk : s.kind = .atom)
    (h : ∀ b t, s.Descends ParserState.lineLeft t → f b t = f' b t) :
    (applyOption place apply a s.current >>= f) s.advance =
      (applyOption place apply a s.current >>= f') s.advance := by
  have hoption : (applyOption place apply a s.current).KeepsLine :=
    Agrees.keepsLine (agrees_applyOption place apply a s.current)
  have hword := descends_word he (by rw [hk]; rfl)
  exact bind_congr_of_ok fun b t ht => h b t (hoption.descends_behind hword (by simpa using he) ht)

theorem recurs_options (place : OptionPlace) (apply : α → String → Option α)
    (hstart : start.ending.kind = .eof) :
    start.Recurs Prod.snd (fun next (x : α × ParserState) => optionsBody place apply
      (fun a s => next (a, s)) x.1 x.2) fun x => options place apply x.2.lineLeft x.1 x.2 := by
  refine recurs_loop hstart Prod.snd (fun n x => options place apply n x.1 x.2)
    ParserState.lineLeft ?_ ?_ ?_
  · exact fun n => rfl
  · intro x he hx
    have hne := kind_ne_of_lineLeft_eq_zero (k := .atom) rfl he hx
    change (check .atom >>= fun c => if c = true then _ else _) x.2 = _
    rw [check_bind_apply, if_neg hne]
    rfl
  · intro x he g h hgh
    exact check_congr fun hk => applyOption_congr place apply x.1 he hk fun a t ht => hgh (a, t) ht

theorem recurs_cardOptions (hstart : start.ending.kind = .eof) :
    start.Recurs Prod.snd (fun next (x : CardParts × ParserState) => cardOptionsBody
      (fun c s => next (c, s)) x.1 x.2) fun x => cardOptions x.2.lineLeft x.1 x.2 := by
  refine recurs_loop hstart Prod.snd (fun n x => cardOptions n x.1 x.2)
    ParserState.lineLeft ?_ ?_ ?_
  · exact fun n => rfl
  · intro x he hx
    have hne {k : TokenKind} (hk : k.isStructural = false) : x.2.kind ≠ k :=
      kind_ne_of_lineLeft_eq_zero hk he hx
    change cardOptionsBody (cardOptions 0) x.1 x.2 = _
    unfold cardOptionsBody
    rw [bind_of_ok _ (rfl : kind x.2 = .ok x.2.kind x.2)]
    generalize x.2.kind = k at hne
    cases k with
    | atom => exact absurd rfl (hne rfl)
    | lt => exact absurd rfl (hne rfl)
    | string => exact absurd rfl (hne rfl)
    | _ => rfl
  · intro x he g h hgh
    have himage (hk : x.2.kind ≠ .eof) :
        (url "image URL" >>= fun image s => g ({ x.1 with imageUrl := some image }, s)) x.2 =
          (url "image URL" >>= fun image s => h ({ x.1 with imageUrl := some image }, s)) x.2 := by
      have hurl : (url "image URL").KeepsLine := Agrees.keepsLine (agrees_url "image URL")
      have hend := atEnd_of_ne he hk
      exact bind_congr_of_ok fun image t ht => hgh (_, t) (hurl.descends he hend ht)
    unfold cardOptionsBody
    rw [bind_of_ok _ (rfl : kind x.2 = .ok x.2.kind x.2),
      bind_of_ok _ (rfl : kind x.2 = .ok x.2.kind x.2)]
    generalize hk : x.2.kind = k at himage
    cases k with
    | atom => exact applyOption_congr _ _ x.1 he hk fun c t ht => hgh (c, t) ht
    | lt => exact himage (by simp)
    | string => exact himage (by simp)
    | _ => rfl

section

variable {v v' : Parser Value}

/-- Items that do the same on the line from here. -/
theorem comma_congr {p' : Parser α} {close : TokenKind} (loop loop' : Nat → Parser (List α))
    (hzero : loop 0 = loop' 0) (hsucc : ∀ n, loop (n + 1) = commaBody p close (loop n))
    (hsucc' : ∀ n, loop' (n + 1) = commaBody p' close (loop' n)) (hp : p.KeepsLine)
    (he : s.ending.kind = .eof) (h : ∀ t, s.Leads t → t.lineLeft ≤ s.lineLeft → p t = p' t)
    (n : Nat) : loop n s = loop' n s := by
  induction n generalizing s with
  | zero => rw [hzero]
  | succ n ih =>
    rw [hsucc, hsucc']
    unfold commaBody
    rw [check_bind_apply, check_bind_apply]
    split_ifs
    · rfl
    · rw [bind_congr_left (h s .refl (Nat.le_refl _)).symm]
      refine bind_congr_of_ok fun a t ht => eat_congr fun hcomma => ?_
      have het := (hp he ht).1.ending_eq ▸ he
      have hnext := hp.descends_before he ht (descends_word het (by rw [hcomma]; rfl))
      have hsame : loop n t.advance = loop' n t.advance := by
        refine ih (by simpa using het) fun u hu hle => ?_
        exact h u (hnext.leads.trans hu) (Nat.le_trans hle (Nat.le_of_lt hnext.bound_lt))
      exact bind_congr_left hsame _

theorem inlineEntry_congr (he : s.ending.kind = .eof)
    (h : ∀ t, s.Leads t → t.lineLeft ≤ s.lineLeft → v t = v' t) :
    inlineEntry v s = inlineEntry v' s := by
  have hkey : entryKey.KeepsLine := Agrees.keepsLine agrees_entryKey
  have hcolon : (expect .colon "':' after dictionary key").KeepsLine :=
    Agrees.keepsLine (agrees_expect rfl _)
  change (entryKey >>= fun _ => _) s = (entryKey >>= fun _ => _) s
  refine bind_congr_of_ok fun k t ht => bind_congr_of_ok fun c u hu => ?_
  have het := (hkey he ht).1.ending_eq ▸ he
  have hsame : v u = v' u := h u ((hkey he ht).1.trans (hcolon het hu).1)
    (Nat.le_trans (hcolon.lineLeft_le het hu) (hkey.lineLeft_le he ht))
  exact bind_congr_left hsame _

/-- Items that do the same behind a value's first token give the same value. -/
theorem inlineValueBody_congr [Proceeds v] (hv : ∀ b, Agrees (fun _ => True) b .word v)
    (he : s.ending.kind = .eof) (h : ∀ t, s.Descends ParserState.lineLeft t → v t = v' t) :
    inlineValueBody v s = inlineValueBody v' s := by
  have hvalue : v.KeepsLine := (hv .apart).keepsLine
  have hentry : (inlineEntry v).KeepsLine := Agrees.keepsLine (agrees_inlineEntry (hv .word))
  have hahead : s.advance.ending.kind = .eof := by simpa using he
  have hsame (hk : s.kind.isStructural = false) (t : ParserState) (ht : s.advance.Leads t)
      (hle : t.lineLeft ≤ s.advance.lineLeft) : v t = v' t :=
    h t ((descends_word he hk).trans_line ht hle)
  have hlist (hk : s.kind.isStructural = false) (bracket : Bracket) (what : String) :
      inlineList v bracket what s = inlineList v' bracket what s := by
    have hitems (n : Nat) : listItems v (.closing bracket) n s.advance =
        listItems v' (.closing bracket) n s.advance :=
      comma_congr (listItems v _) (listItems v' _) rfl (fun _ => rfl) (fun _ => rfl) hvalue hahead
        (hsame hk) n
    exact bind_congr_left (hitems (s.advance.lineLeft + 1)) _
  have hdictionary (hk : s.kind.isStructural = false) :
      inlineDictionary v s = inlineDictionary v' s := by
    have hentries (n : Nat) : dictionaryEntries v n s.advance =
        dictionaryEntries v' n s.advance := by
      refine comma_congr (dictionaryEntries v) (dictionaryEntries v') rfl (fun _ => rfl)
        (fun _ => rfl) hentry hahead (fun t ht hle => ?_) n
      exact inlineEntry_congr (ht.ending_eq ▸ hahead) fun u hu hle' =>
        hsame hk u (ht.trans hu) (Nat.le_trans hle' hle)
    exact bind_congr_left (hentries (s.advance.lineLeft + 1)) _
  unfold inlineValueBody
  rw [bind_of_ok _ (rfl : kind s = .ok s.kind s), bind_of_ok _ (rfl : kind s = .ok s.kind s)]
  generalize s.kind = k at hlist hdictionary
  cases k with
  | opening bracket =>
    cases bracket with
    | paren => exact hlist rfl .paren _
    | square => exact hlist rfl .square _
    | curly => exact hdictionary rfl
  | _ => rfl

/-- The depth of an inline value is bounded by the words on its line. -/
theorem inlineValueWithin_congr {depth depth' : Nat} (he : s.ending.kind = .eof)
    (h : s.lineLeft < depth) (h' : s.lineLeft < depth') :
    inlineValueWithin depth s = inlineValueWithin depth' s := by
  induction depth generalizing depth' s with
  | zero => exact absurd h (Nat.not_lt_zero _)
  | succ depth ih =>
    obtain ⟨depth', rfl⟩ := Nat.exists_eq_succ_of_ne_zero (Nat.ne_zero_of_lt h')
    have hbody : inlineValueBody (inlineValueWithin depth) s =
        inlineValueBody (inlineValueWithin depth') s := by
      refine inlineValueBody_congr (fun _ => agrees_inlineValueWithin depth) he fun t ht => ?_
      have hlt := ht.bound_lt
      exact ih (ht.leads.ending_eq ▸ he) (by omega) (by omega)
    exact hbody

theorem recurs_inlineValue (hstart : start.ending.kind = .eof) :
    start.Recurs (fun s => s) inlineValueBody inlineValue := by
  intro other s hs
  have he : s.ending.kind = .eof := hs.ending_eq ▸ hstart
  refine inlineValueBody_congr (fun _ => agrees_inlineValueWithin s.lineLeft) he fun t ht => ?_
  have hlt := ht.bound_lt
  rw [if_pos ⟨hs.trans ht.leads, ht.remaining_lt⟩]
  exact inlineValueWithin_congr (ht.leads.ending_eq ▸ he) hlt (Nat.lt_succ_self _)

theorem recurs_value : start.Recurs (fun s => s) valueBody value := by
  intro other s hs
  by_cases hblock : s.kind = .newline ∧ (s.ahead 1).kind = .indent
  · have hlt := remaining_advance_lt_of_block hblock.1 hblock.2
    have hinside : s.Leads s.advance.advance := s.leads_advance.advance
    have hvalue : value s = blockValue (valueWithin s.remaining) s.advance.advance := by
      rw [value_eq (Nat.lt_succ_self s.remaining), valueWithin_of_block hblock.1 hblock.2]
    refine hvalue.trans (Eq.trans ?_ (valueBody_of_block _ hblock.1 hblock.2).symm)
    refine SameFrom.blockValue fun t ht => ?_
    have hless : t.remaining < s.remaining := Nat.lt_of_le_of_lt ht.remaining_le hlt
    rw [if_pos ⟨hs.trans (hinside.trans ht), hless⟩]
    exact (value_eq (by omega)).symm
  · have hline (hk : s.kind = .newline) : (s.ahead 1).kind ≠ .indent :=
      fun hnext => hblock ⟨hk, hnext⟩
    have hvalue : value s = lineValue s := by
      rw [value_eq (Nat.lt_succ_self s.remaining), valueWithin_of_line hline]
    exact hvalue.trans (valueBody_of_line _ hline).symm

end

/-- The parsers of the grammar, from files down to the ends of lines. -/
inductive Production : ∀ {α : Type}, Parser α → Prop
  | importLine : Production importLine
  | agent : Production agent
  | agentPart (p : AgentParts) : Production (agentPart p)
  | agentAttribute (p : AgentParts) : Production (agentAttribute p)
  | settingsSection : Production settingsSection
  | attributeEntry : Production attributeEntry
  | mappedType : Production mappedType
  | mappedRow : Production mappedRow
  | flowSection : Production flowSection
  | flowRule : Production flowRule
  | operand : Production operand
  | optionalWith : Production optionalWith
  | parameter : Production parameter
  | whenClause : Production whenClause
  | messageSection : Production messageSection
  | message : Production message
  | messageDefinition (traffic : Option TrafficType) : Production (messageDefinition traffic)
  | shortForm (traffic : Option TrafficType) (form : MessageForm) :
      Production (shortForm traffic form)
  | suggestion : Production suggestion
  | suggestionBlock : Production suggestionBlock
  | url (what : String) : Production (url what)
  | value : Production value
  | inlineValue : Production inlineValue
  | typeTag : Production typeTag
  | identifier : Production identifier
  | content (k : TokenKind) : Production (content k)
  | inlineList (bracket : Bracket) (what : String) :
      Production (inlineList inlineValue bracket what)
  | inlineDictionary : Production (inlineDictionary inlineValue)
  | blockList : Production (blockList value)
  | blockDictionary : Production (blockDictionary value)
  | block {α : Type} {line : LineParser α} (h : BlockLine line) (gathered : α) :
      Production (block line gathered)
  | blockLines {α : Type} {line : LineParser α} (h : BlockLine line) (gathered : α) :
      Production (blockLines line gathered)
  | finishLine : Production finishLine

theorem Production.proceeds (h : Production p) : Proceeds p := by
  cases h with
  | block h gathered =>
    have := h.proceeds
    infer_instance
  | blockLines h gathered =>
    have := h.proceeds
    infer_instance
  | _ => infer_instance

/-- The items that follow separators, each with its separator. -/
inductive Follower : ∀ {α : Type}, TokenKind → Parser α → Prop
  | pathSegment : Follower .slash (takeName "import path segment")
  | column : Follower .comma (takeName "column type")
  | cell : Follower .comma inlineValue
  | parameter : Follower .comma parameter
  | operand : Follower .arrow operand

variable {k : TokenKind}

theorem Follower.keepsLine (h : Follower k p) : p.KeepsLine := by
  cases h with
  | pathSegment => exact Agrees.keepsLine (agrees_takeName _)
  | column => exact Agrees.keepsLine (agrees_takeName _)
  | cell => exact Agrees.keepsLine agrees_inlineValue
  | parameter => exact Agrees.keepsLine agrees_parameter
  | operand => exact Agrees.keepsLine agrees_operand

theorem Follower.isStructural (h : Follower k p) : k.isStructural = false := by
  cases h <;> rfl

end Parser

open AgentScript.Parser in
/-- In a parse nothing goes back, every round of its loops over lines passes a token, and each of
its loops and recursions is one on the number of tokens to come. -/
structure Terminates (start : ParserState) : Prop where
  forward : ∀ {α : Type} {p : Parser α}, Production p → ∀ {s}, start.Leads s →
    (p.after s).rest <:+ s.rest
  recovery : ∀ {s}, start.Leads s → ∀ p, (s.recover p).rest <:+ s.rest
  skipping : ∀ {s}, start.Leads s → s.skipBlock.rest <:+ s.rest
  item : ∀ {f : FileParts} {s}, start.Leads s → s.atEnd = false →
    (f.nextItem s).2.remaining < s.remaining
  round : ∀ {α : Type} {line : LineParser α}, BlockLine line → ∀ {s}, start.Leads s →
    s.kind ≠ .dedent → s.atEnd = false → ∀ gathered,
      (s.lineRound line gathered).2.remaining < s.remaining
  items : start.Recurs Prod.snd FileParts.itemsBody fun x => x.1.readItems x.2.remaining x.2
  lines : ∀ {α : Type} {line : LineParser α}, BlockLine line →
    start.Recurs Prod.snd (linesBody line) fun x => x.2.lines line (x.2.remaining + 1) x.1
  newlines : start.Recurs (fun s => s) newlinesBody fun s => s.skipNewlines s.remaining
  line : start.Recurs Prod.snd lineBody fun x => skipLine x.1 (x.2.remaining + 1) x.2
  levels : start.Recurs Prod.snd levelsBody fun x => skipLevels (x.2.remaining + 1) x.1 x.2
  content : ∀ {k : TokenKind}, k.isStructural = false →
    start.Recurs (fun s => s) (contentBody k) fun s => contentLines k s.lineLeft s
  followers : ∀ {α : Type} {k : TokenKind} {p : Parser α}, Follower k p →
    start.Recurs (fun s => s) (eachAfterBody k p) fun s => eachAfter k p s.lineLeft s
  members : start.Recurs (fun s => s) membersBody fun s => members s.lineLeft s
  listItems : ∀ close, start.Recurs (fun s => s) (commaBody inlineValue close)
    fun s => listItems inlineValue close (s.lineLeft + 1) s
  entries : start.Recurs (fun s => s) (commaBody (inlineEntry inlineValue) (.closing .curly))
    fun s => dictionaryEntries inlineValue (s.lineLeft + 1) s
  options : ∀ {α : Type} (place : OptionPlace) (apply : α → String → Option α),
    start.Recurs Prod.snd (fun next (x : α × ParserState) => optionsBody place apply
      (fun a s => next (a, s)) x.1 x.2) fun x => options place apply x.2.lineLeft x.1 x.2
  cardOptions : start.Recurs Prod.snd (fun next (x : CardParts × ParserState) => cardOptionsBody
    (fun c s => next (c, s)) x.1 x.2) fun x => cardOptions x.2.lineLeft x.1 x.2
  inlineValue : start.Recurs (fun s => s) inlineValueBody inlineValue
  value : start.Recurs (fun s => s) valueBody value

/-- Every parse of a list of tokens terminates, however many of them end the input or are out of
place. -/
theorem terminates_ofTokens (tokens : List Token) (options : ParseOptions) :
    Terminates (.ofTokens tokens options.maxErrors) := by
  have hstart := ending_kind_ofTokens tokens options.maxErrors
  generalize ParserState.ofTokens tokens options.maxErrors = start at hstart
  have hvalue : Parser.inlineValue.KeepsLine :=
    Parser.Agrees.keepsLine Parser.agrees_inlineValue
  constructor
  case forward => exact fun hp s _ => (hp.proceeds.leads s).rest_isSuffix
  case recovery => exact fun _ p => (leads_recover _ p).rest_isSuffix
  case skipping => exact fun _ => (leads_skipBlock _).rest_isSuffix
  case item => exact fun _ hend => FileParts.remaining_nextItem_lt hend
  case round =>
    intro α line hline s _ hdedent hend gathered
    have := hline.proceeds
    exact remaining_lineRound_lt hdedent hend
  case items => exact recurs_items hstart
  case lines =>
    intro α line hline
    have := hline.proceeds
    exact recurs_lines line hstart
  case newlines => exact recurs_newlines hstart
  case line => exact recurs_line hstart
  case levels => exact recurs_levels hstart
  case content => exact fun hk => Parser.recurs_content hk hstart
  case followers => exact fun h => Parser.recurs_eachAfter h.isStructural h.keepsLine hstart
  case members => exact Parser.recurs_members hstart
  case listItems => exact fun close => Parser.recurs_comma (fun _ => rfl) hvalue hstart
  case entries =>
    have hentry : (Parser.inlineEntry Parser.inlineValue).KeepsLine :=
      Parser.Agrees.keepsLine (Parser.agrees_inlineEntry Parser.agrees_inlineValue)
    exact Parser.recurs_comma (fun _ => rfl) hentry hstart
  case options => exact fun place apply => Parser.recurs_options place apply hstart
  case cardOptions => exact Parser.recurs_cardOptions hstart
  case inlineValue => exact Parser.recurs_inlineValue hstart
  case value => exact Parser.recurs_value

end AgentScript
