import AgentScript.Proofs.Parsing.Lockstep

/-!
# Two parses of the same block

The loop over the lines of a block goes through a body line by line. A block below an empty
line, or below a line that needs none, belongs to no line; it is reported and passed as a
whole. By induction on the body two parses stand behind it alike.
-/
namespace AgentScript

open ParserState

/-- A state in which a loop over lines reads a line or a block. -/
structure Reads (s : ParserState) : Prop where
  notNewline : s.kind ≠ .newline
  notDedent : s.kind ≠ .dedent
  notEnd : s.atEnd = false
  notHalted : s.halted = false

theorem reads_of_beginsLine {s : ParserState} (he : s.ending.kind = .eof)
    (hhalted : s.halted = false) (hk : s.kind.isStructural = false ∨ s.kind = .indent) :
    Reads s where
  notNewline := TokenKind.ne_of_beginsLine hk rfl (by decide)
  notDedent := TokenKind.ne_of_beginsLine hk rfl (by decide)
  notEnd := atEnd_of_ne he (TokenKind.ne_of_beginsLine hk rfl (by decide))
  notHalted := hhalted

/-- A loop over lines passes the ends of lines. Where a line begins it reads it, and it goes on
where the line ends, or where the parse recovers from it. -/
structure LineLoop {α ρ : Type} (line : LineParser α) (run : α → ParserState → ρ) : Prop where
  newline : ∀ g s, s.kind = .newline → s.atEnd = false → s.halted = false →
    run g s = run g s.advance
  done : ∀ g s more after, Reads s → line g s = ⟨more, none, after⟩ →
    after.remaining < s.remaining → run g s = run more after
  failed : ∀ g s more p after, Reads s → line g s = ⟨more, some p, after⟩ →
    (after.recover p).remaining < s.remaining → run g s = run more (after.recover p)

variable {α ρ ρ' : Type} {line : LineParser α} {run : α → ParserState → ρ}
  {run' : α → ParserState → ρ'} {K : TokenKind → Prop} {G : α → α → Prop} {F : Frame} {b : Footing}
  {s s' : ParserState} {g g' : α} {words below rest body : List Token}

theorem lineLoop_runLines (line : LineParser α) [line.Proceeds] :
    LineLoop line (runLines line) := by
  have hread {g : α} {s after : ParserState} (hs : Reads s) (hafter : (line g s).resumed = after)
      (hlt : after.remaining < s.remaining) :
      s.runLines line g = after.runLines line (line g s).gathered := by
    subst hafter
    exact runLines_of_lt hs.notNewline hs.notDedent hs.notEnd hs.notHalted hlt
  constructor
  case newline => exact fun g s hk hend _ => runLines_newline hk hend
  case done =>
    intro g s more after hs h hlt
    have hafter : (line g s).resumed = after := by rw [h]; rfl
    rw [hread hs hafter hlt, h]
  case failed =>
    intro g s more p after hs h hlt
    have hafter : (line g s).resumed = after.recover p := by rw [h]; rfl
    rw [hread hs hafter hlt, h]

/-- A loop goes on where parsing resumes behind a line. -/
theorem LineLoop.resumed (hrun : LineLoop line run) (hs : Reads s)
    (hlt : (line g s).resumed.remaining < s.remaining) :
    run g s = run (line g s).gathered (line g s).resumed := by
  generalize hline : line g s = result at hlt ⊢
  obtain ⟨more, problem, after⟩ := result
  cases problem with
  | none => exact hrun.done g s more after hs hline hlt
  | some p => exact hrun.failed g s more p after hs hline hlt

/-- In two parses what is left of the loop begins behind the shared tokens. -/
def Continues (run : α → ParserState → ρ) (run' : α → ParserState → ρ') (F : Frame) (b : Footing)
    (G : α → α → Prop) (g g' : α) (s s' : ParserState) : Prop :=
  ∃ t t' a a', run g s = run a t ∧ run' g' s' = run' a' t' ∧ F.Alike b [] t t' ∧ G a a'

theorem Continues.refl (h : F.Alike b [] s s') (hG : G g g') : Continues run run' F b G g g' s s' :=
  ⟨s, s', g, g', rfl, rfl, h, hG⟩

theorem Continues.step {t t' : ParserState} {a a' : α} (h : Continues run run' F b G a a' t t')
    (hs : run g s = run a t) (hs' : run' g' s' = run' a' t') :
    Continues run run' F b G g g' s s' := by
  obtain ⟨u, u', c, c', hu, hu', halike, hG⟩ := h
  exact ⟨u, u', c, c', hs.trans hu, hs'.trans hu', halike, hG⟩

theorem Frame.Clear.halted_eq (hF : F.Clear) (h : F.Alike b rest s s') : s.halted = false := by
  simp [halted, h.leftCap, hF.uncapped]

theorem Frame.Alike.symm_halted (hF : F.Clear) (h : F.Alike b rest s s') : s'.halted = false := by
  rw [← h.halted_eq, hF.halted_eq h]

theorem Frame.Alike.reads {x : Token} (hF : F.Clear) (h : F.Alike b (x :: rest) s s')
    (hx : x.kind.isStructural = false ∨ x.kind = .indent) : Reads s ∧ Reads s' := by
  constructor
  · exact reads_of_beginsLine h.leftEnding (hF.halted_eq h) (by rwa [kind_of_tokens h.left])
  · exact reads_of_beginsLine h.rightEnding (h.symm_halted hF) (by rwa [kind_of_tokens h.right])

theorem remaining_lt_of_tokens {t : ParserState} {x : Token} {u v : List Token}
    (h : s.tokens = x :: (u ++ v)) (ht : t.tokens = v) : t.remaining < s.remaining := by
  have hs := remaining_of_tokens h
  have ht := remaining_of_tokens ht
  rw [List.length_cons, List.length_append] at hs
  omega

/-- A line end behind what has been shared changes nothing. -/
theorem LineLoop.drops (hrun : LineLoop line run) {t : ParserState} (h : s.Drops t)
    (he : s.ending.kind = .eof) (hhalted : s.halted = false) : run g s = run g t := by
  rcases h with rfl | ⟨hk, rfl⟩
  · rfl
  · exact hrun.newline _ _ hk (atEnd_of_ne he (by simp [hk])) hhalted

theorem remaining_le_of_drops {t : ParserState} (h : s.Drops t) : t.remaining ≤ s.remaining := by
  rcases h with rfl | ⟨-, rfl⟩
  · exact Nat.le_refl _
  · rw [advance_remaining]
    exact Nat.sub_le _ _

/-- A loop goes on behind a line without a problem, before a line end that the line has passed
too. -/
theorem LineLoop.done_of_drops (hrun : LineLoop line run) {more : α} {t after : ParserState}
    (hs : Reads s) (hline : line g s = ⟨more, none, after⟩) (hdrops : t.Drops after)
    (hlt : t.remaining < s.remaining) (he : t.ending.kind = .eof) (hhalted : t.halted = false) :
    run g s = run more t := by
  have hafter := Nat.lt_of_le_of_lt (remaining_le_of_drops hdrops) hlt
  rw [hrun.done _ _ _ _ hs hline hafter, hrun.drops hdrops he hhalted]

/-- A block that belongs to no line is reported and passed. -/
theorem continues_orphan (hrun : LineLoop line run) (hrun' : LineLoop line run')
    (hrefuses : line.Refuses) (hF : F.Clear) (hb : b ≤ .text)
    {indent dedent : Token} (hindent : indent.IsMark .indent) (hbody : IsBody body)
    (hdedent : dedent.IsMark .dedent) (h : F.Alike b (indent :: (body ++ [dedent])) s s')
    (hG : G g g') : Continues run run' F b G g g' s s' := by
  obtain ⟨p, hp⟩ := hrefuses indent hindent
  have hleft := hp g s (current_of_tokens h.left)
  have hright := hp g' s' (current_of_tokens h.right)
  have hafter := h.recover_block hindent hbody hdedent hb p hF
  obtain ⟨hs, hs'⟩ := h.reads hF (.inr hindent.kind_eq)
  refine (Continues.refl hafter hG).step ?_ ?_
  · exact hrun.failed _ _ _ _ _ hs hleft (remaining_lt_of_tokens h.left hafter.left)
  · exact hrun'.failed _ _ _ _ _ hs' hright (remaining_lt_of_tokens h.right hafter.right)

/-- What stands below a line and was not passed with it. -/
theorem continues_below (hrun : LineLoop line run) (hrun' : LineLoop line run')
    (hrefuses : line.Refuses) (hF : F.Clear) (hb : b ≤ .text)
    (hbelow : IsBelow below) (h : F.Alike b below s s') (hG : G g g') :
    Continues run run' F b G g g' s s' := by
  cases hbelow with
  | none => exact .refl h hG
  | block opens inner closes =>
    exact continues_orphan hrun hrun' hrefuses hF hb opens inner closes h hG

/-- A line with all that is below it. -/
theorem continues_line (hrun : LineLoop line run) (hrun' : LineLoop line run')
    (hline : line.Completes (fun s => K s.kind) G) (hrefuses : line.Refuses) (hF : F.Clear)
    (hb : b ≤ .text) (hwords : ∀ t ∈ words, t.isStructural = false)
    (hallowed : ∀ t ∈ words.head?, K t.kind) {newline : Token} (hnewline : newline.IsMark .newline)
    (hbelow : IsBelow below) (h : F.Alike b (words ++ newline :: below) s s') (hG : G g g') :
    Continues run run' F b G g g' s s' := by
  cases words with
  | nil =>
    have hne : newline.kind ≠ .eof := hnewline.ne_eof (by decide)
    have hkind := (kind_of_tokens h.left).trans hnewline.kind_eq
    have hkind' := (kind_of_tokens h.right).trans hnewline.kind_eq
    have hnext := h.advance_layout (hnewline.isStructural_eq.trans rfl) hne hb
    refine (continues_below hrun hrun' hrefuses hF hb hbelow hnext hG).step ?_ ?_
    · exact hrun.newline _ _ hkind (atEnd_of_tokens h.leftEnding h.left hne) (hF.halted_eq h)
    · exact hrun'.newline _ _ hkind' (atEnd_of_tokens h.rightEnding h.right hne)
        (h.symm_halted hF)
  | cons x words =>
    have hx := hwords x (List.mem_cons_self ..)
    have hkind := kind_of_tokens h.left
    have hword : s.kind.isStructural = false := by rwa [hkind]
    obtain ⟨hs, hs'⟩ := h.reads hF (.inl hx)
    let L : WholeLine :=
      ⟨⟨F, newline, hnewline.isStructural_eq.trans rfl, below⟩, hnewline, hbelow, hF⟩
    have hwithin : L.Within b s s' := ⟨x :: words, hwords, h⟩
    have hK : K s.kind := by
      rw [hkind]
      exact hallowed x rfl
    have hout := hline hb hwithin hword hK hG
    generalize hleft : line g s = left at hout
    generalize hright : line g' s' = right at hout
    cases hout with
    | failed gathered p within =>
      obtain ⟨words', hwords', halike⟩ := within
      have hafter := halike.recover_line hF hwords' hnewline hbelow hb p
      refine (Continues.refl hafter gathered).step ?_ ?_
      · exact hrun.failed _ _ _ _ _ hs hleft (remaining_lt_of_tokens h.left hafter.left)
      · exact hrun'.failed _ _ _ _ _ hs' hright (remaining_lt_of_tokens h.right hafter.right)
    | done gathered passed =>
      cases passed with
      | behind hbehind =>
        have halike : F.Alike b below _ _ := hbehind.alike.weaken hb
        have htokens : s.tokens = x :: ((words ++ [newline]) ++ (below ++ F.left)) := by
          rw [h.left]
          simp
        have htokens' : s'.tokens = x :: ((words ++ [newline]) ++ (below ++ F.right)) := by
          rw [h.right]
          simp
        refine (continues_below hrun hrun' hrefuses hF hb hbelow halike gathered).step ?_ ?_
        · exact hrun.done _ _ _ _ hs hleft (remaining_lt_of_tokens htokens halike.left)
        · exact hrun'.done _ _ _ _ hs' hright (remaining_lt_of_tokens htokens' halike.right)
      | beyond halike hdrops hdrops' =>
        have halike : F.Alike b [] _ _ := halike.weaken hb
        refine (Continues.refl halike gathered).step ?_ ?_
        · exact hrun.done_of_drops hs hleft hdrops (remaining_lt_of_tokens h.left halike.left)
            halike.leftEnding (hF.halted_eq halike)
        · exact hrun'.done_of_drops hs' hright hdrops' (remaining_lt_of_tokens h.right halike.right)
            halike.rightEnding (halike.symm_halted hF)

/-- Two parses go through the lines that they share alike. -/
theorem continues_lines (hrun : LineLoop line run) (hrun' : LineLoop line run')
    (hline : line.Completes (fun s => K s.kind) G) (hrefuses : line.Refuses)
    {tokens : List Token} (hlines : LinesOf K tokens) (hF : F.Clear) (hb : b ≤ .text)
    (h : F.Alike b tokens s s') (hG : G g g') : Continues run run' F b G g g' s s' := by
  induction hlines generalizing s s' g g' with
  | nil => exact .refl h hG
  | @line K words rest newline inLine allowed ends later ih =>
    have hline' : (F.push rest).Alike b (words ++ [newline]) s s' :=
      Frame.alike_push.mpr (by simpa using h)
    obtain ⟨t, t', a, a', ht, ht', halike, hG'⟩ := continues_line hrun hrun' hline
      hrefuses (hF.push later.head_ne_indent) hb inLine allowed ends .none hline' hG
    exact (ih hline (Frame.alike_push.mp halike) hG').step ht ht'
  | @block K words body rest newline indent dedent inLine allowed ends opens inner closes later _
      ih =>
    have hline' : (F.push rest).Alike b (words ++ newline :: (indent :: (body ++ [dedent]))) s s' :=
      Frame.alike_push.mpr (by simpa using h)
    obtain ⟨t, t', a, a', ht, ht', halike, hG'⟩ := continues_line hrun hrun' hline
      hrefuses (hF.push later.head_ne_indent) hb inLine allowed ends
        (.block opens inner closes) hline' hG
    exact (ih hline (Frame.alike_push.mp halike) hG').step ht ht'

/-- The end of the block is the last thing passed in both parses. -/
theorem runLines_block [line.Proceeds] (hline : line.Completes (fun _ => True) G)
    (hrefuses : line.Refuses)
    (hbody : IsBody body) {dedent : Token} (hdedent : dedent.IsMark .dedent) (hF : F.Clear)
    (hb : b ≤ .text) (h : F.Alike b (body ++ [dedent]) s s') (hG : G g g') :
    ∃ t t' a a', s.runLines line g = (a, t) ∧ s'.runLines line g' = (a', t') ∧ G a a' ∧
      F.Alike b [] t t' ∧ t.previous = some .dedent ∧ t'.previous = some .dedent := by
  have hne : dedent.kind ≠ .eof := hdedent.ne_eof (by decide)
  have hclear : (F.push [dedent]).Clear := hF.push (by simp [hdedent.kind_eq])
  obtain ⟨t, t', a, a', ht, ht', halike, hG'⟩ := continues_lines (lineLoop_runLines line)
    (lineLoop_runLines line) hline hrefuses hbody hclear hb (Frame.alike_push.mpr h) hG
  have halike : F.Alike b [dedent] t t' := Frame.alike_push.mp halike
  have hkind := (kind_of_tokens halike.left).trans hdedent.kind_eq
  have hkind' := (kind_of_tokens halike.right).trans hdedent.kind_eq
  have hprevious := (advance_of_tokens halike.leftEnding halike.left hne).2.1
  have hprevious' := (advance_of_tokens halike.rightEnding halike.right hne).2.1
  refine ⟨t.advance, t'.advance, a, a', ?_, ?_, hG', ?_, ?_, ?_⟩
  · rw [ht, runLines_dedent hkind]
  · rw [ht', runLines_dedent hkind']
  · exact halike.advance_layout (hdedent.isStructural_eq.trans rfl) hne hb
  · rw [hprevious, hdedent.kind_eq]
  · rw [hprevious', hdedent.kind_eq]

namespace Parser

open WholeLine

/-- Behind the beginning of the block below the line. -/
def Inside (L : WholeLine) (s s' : ParserState) : Prop :=
  ∃ body dedent, IsBody body ∧ dedent.IsMark .dedent ∧ L.frame.Alike .text (body ++ [dedent]) s s'

theorem steps_blockLines [line.Proceeds] (hline : line.Completes (fun _ => True) Eq)
    (hrefuses : line.Refuses)
    (gathered : α) : Steps b Inside Beyond (blockLines line gathered) := by
  rintro L s s' ⟨body, dedent, hbody, hdedent, halike⟩
  obtain ⟨t, t', a, a', ht, ht', rfl, halike, hprevious, hprevious'⟩ :=
    runLines_block hline hrefuses
    hbody hdedent L.clear (Footing.le_refl _) halike rfl
  have hleft : blockLines line gathered s = .ok a t := by rw [blockLines_eq, ← runLines, ht]
  have hright : blockLines line gathered s' = .ok a t' := by rw [blockLines_eq, ← runLines, ht']
  rw [hleft, hright]
  exact .ok a ⟨halike, .inr hprevious, .inr hprevious'⟩

/-- Behind the line the block below is parsed if there is one. -/
theorem steps_eatBlock [line.Proceeds] (hline : line.Completes (fun _ => True) Eq)
    (hrefuses : line.Refuses) (gathered : α) :
    Steps b Behind Beyond
      (eat .indent >>= fun c => if c = true then blockLines line gathered else pure gathered) := by
  intro L s s' hs
  rw [eat_bind_eq, check_bind_apply, check_bind_apply]
  have halike := hs.alike
  have hbelow := L.isBelow
  generalize L.below = below at halike hbelow
  cases hbelow with
  | none =>
    rw [if_neg (kind_ne_of_head halike.left L.clear.left),
      if_neg (kind_ne_of_head halike.right L.clear.right)]
    exact .ok gathered ⟨halike, .inl hs.left, .inl hs.right⟩
  | @block body indent dedent opens inner closes =>
    have hkind := (kind_of_tokens halike.left).trans opens.kind_eq
    have hkind' := (kind_of_tokens halike.right).trans opens.kind_eq
    have hnext := halike.advance_layout (opens.isStructural_eq.trans rfl) (opens.ne_eof (by decide))
      (Footing.le_refl _)
    rw [if_pos hkind, if_pos hkind']
    exact steps_blockLines hline hrefuses gathered ⟨body, dedent, inner, closes, hnext⟩

/-- The end of a line and the block below it. -/
theorem steps_block [line.Proceeds] {K : ParserState → Prop}
    (hline : line.Completes (fun _ => True) Eq) (hrefuses : line.Refuses) (gathered : α) :
    Steps b (On .word K) Beyond (block line gathered) :=
  steps_finishLine.bind fun _ => steps_eatBlock hline hrefuses gathered

/-- A block of items below a line. -/
theorem steps_itemBlock {K : ParserState → Prop} {p : Parser α} [Proceeds p]
    (h : p.Completes fun _ => True) (h' : p.Refuses) (items : List α) :
    Steps b (On .word K) Beyond (block (.item p) items) :=
  steps_block (LineParser.completes_item (by rintro g _ a rfl; rfl) h) (LineParser.refuses_item h')
    items

/-- Behind a line both parses have passed the same text. -/
theorem steps_spanFrom_beyond (start : Position) : Steps b Beyond Beyond (spanFrom start) :=
  steps_spanFrom start fun _ _ _ hs => hs.alike.text (Footing.le_refl _)

end Parser

end AgentScript
