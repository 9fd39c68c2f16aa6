import CommentBlocks.Proofs.Argument.Commented
import CommentBlocks.Proofs.Argument.Enclosing
import CommentBlocks.Proofs.Argument.Passing

/-!
Literals in the text of a token. The reader of tokens bounds the quotes and brackets that are open at
once, and this bounds the depth of a literal unless a quote in a bare word hides brackets from it.
-/

namespace CommentBlocks

open Text (isQuote bytes)
open Unicode (isBlank)
open Relaxed (Holder Blanks Part Derives Dialect Spells IsBareKey Quoted)

namespace Relaxed

/-- Behind the character, every string that a quote opens in a token ends in the text. -/
inductive Calm : Char → List Char → Prop
  | nil {c : Char} : Calm c []
  | char {c d : Char} {text : List Char}
      (hd : isQuote d = true → Token.Reader.opensQuotes [c] = false) (h : Calm d text) :
      Calm c (d :: text)
  | quoted {c quote : Char} {inside text : List Char} (hquote : isQuote quote = true)
      (hopens : Token.Reader.opensQuotes [c] = true) (hinside : Quoted quote inside)
      (h : Calm quote text) : Calm c (quote :: (inside ++ quote :: text))

lemma calm_of_no_quotes {c : Char} {text : List Char} (h : ∀ d ∈ text, isQuote d = false) :
    Calm c text := by
  induction text generalizing c with
  | nil => exact .nil
  | cons d text ih =>
    obtain ⟨hd, htext⟩ := List.forall_mem_cons.1 h
    exact .char (by simp [hd]) (ih htext)

/-- What the reader of literals takes, but for bare words in which a quote opens a string in a token that
does not end in the word. -/
def Dialect.calm : Dialect where
  spells := Spells
  key := IsBareKey
  word holder text v := Dialect.reader.word holder text v ∧ ∃ c cs, text = c :: cs ∧ Calm c cs

def Holder.bracket : Holder → BracketKind
  | .array => .square
  | .object => .curly

lemma Holder.bracket_ne_round (holder : Holder) : holder.bracket ≠ .round := by
  cases holder <;> simp [bracket]

lemma Holder.endsWord_closing (holder : Holder) :
    holder.endsWord holder.bracket.closing = true := by
  cases holder <;> decide

end Relaxed

open Relaxed (Calm)

namespace Token.Reader

/-- The open frames without the innermost round brackets. -/
def base : List Frame → List Frame
  | .bracket .round _ :: stack => base stack
  | stack => stack

lemma base_bracket {k : BracketKind} (h : k ≠ .round) (depth : Nat) (stack : List Frame) :
    base (.bracket k depth :: stack) = .bracket k depth :: stack := by
  cases k with
  | round => exact absurd rfl h
  | square | curly => simp [base]

lemma length_base_le (stack : List Frame) : (base stack).length ≤ stack.length := by
  fun_induction base stack with
  | case1 depth stack ih => exact Nat.le_succ_of_le ih
  | case2 => exact Nat.le_refl _

structure Clear (stack : List Frame) : Prop where
  marks : ∀ mark, .quote mark ∉ stack
  deep : stack.length ≤ maxNesting

/-- The reader stands in the text of a holder, whose bracket is the innermost but for round ones. -/
structure Inside (holder : Holder) (frames stack : List Frame) : Prop where
  clear : Clear stack
  base_eq : base stack = frames
  kind : ∃ depth below, frames = .bracket holder.bracket depth :: below

variable {stack stack' frames : List Frame} {current rest : List Char} {holder : Holder}

/-- The reader has the text to pass in the text of a holder. -/
def Goes (holder : Holder) (frames : List Frame) (text : List Char) : Prop :=
  ∃ stack stack' current, Inside holder frames stack ∧ Passes stack current text stack'

def Ready (holder : Holder) (frames : List Frame) (text : List Char) : Prop :=
  ∃ stack stack' current, Inside holder frames stack ∧ opensQuotes current = true ∧
    Passes stack current text stack'

lemma Clear.outside (h : Clear stack) : Outside stack := fun mark hmark =>
  h.marks mark (List.mem_of_mem_head? hmark)

lemma Clear.push (h : Clear stack) (k : BracketKind) (hdeep : stack.length < maxNesting) :
    Clear (.bracket k (stack.length + 1) :: stack) :=
  ⟨by simpa using h.marks, hdeep⟩

lemma Clear.pop {top : Frame} (h : Clear (top :: stack)) : Clear stack :=
  ⟨fun mark hmark => h.marks mark (List.mem_cons_of_mem _ hmark), (Nat.le_succ _).trans h.deep⟩

lemma Inside.length_le (h : Inside holder frames stack) : frames.length ≤ stack.length := by
  rw [← h.base_eq]
  exact length_base_le stack

lemma Passes.accepts {c : Char} (hclear : Clear stack) (h : Passes stack current (c :: rest) stack') :
    ∃ stack₁ equals equals', Accepts stack current equals c stack₁ equals' ∧
      Passes stack₁ (c :: current) rest stack' := by
  cases h with
  | quoted | escaped => exact absurd List.mem_cons_self (hclear.marks _)
  | joins hstack haccepts h => exact ⟨_, _, _, haccepts, h⟩

lemma Passes.mark {c : Char} (hclear : Clear stack) (hquote : isQuote c = false)
    (hopen : BracketKind.ofOpening? c = none) (hclose : BracketKind.ofClosing? c = none)
    (h : Passes stack current (c :: rest) stack') : Passes stack (c :: current) rest stack' := by
  obtain ⟨stack₁, equals, equals', haccepts, h⟩ := h.accepts hclear
  cases haccepts with
  | openQuote hquote' => simp [hquote] at hquote'
  | openBracket hopen' => simp [hopen] at hopen'
  | closeBracket hclose' => simp [hclose] at hclose'
  | equalsSign | put => exact h

lemma Passes.blanks {b : List Char} (hb : Blanks b) (hclear : Clear stack)
    (h : Passes stack current (b ++ rest) stack') :
    ∃ current', (opensQuotes current = true → opensQuotes current' = true) ∧
      Passes stack current' rest stack' := by
  induction b generalizing current with
  | nil => exact ⟨current, id, h⟩
  | cons c b ih =>
    obtain ⟨hquote, hopen, hclose⟩ := hb.still c List.mem_cons_self
    obtain ⟨hc, hb⟩ := List.forall_mem_cons.1 hb
    have h := h.mark hclear hquote hopen hclose
    obtain ⟨current', hopens, h⟩ := ih hb h
    have hblank : opensQuotes (c :: current) = true := by simp [opensQuotes, atBoundary, hc]
    exact ⟨current', fun _ => hopens hblank, h⟩

/-! ### Strings -/

lemma Passes.within {mark c : Char} (hc : c ≠ '\\')
    (h : Passes (.quote mark :: stack) current (c :: rest) stack') :
    Passes (if c = mark then stack else .quote mark :: stack) (c :: current) rest stack' := by
  cases h with
  | quoted _ h => exact h
  | escaped _ => exact absurd rfl hc
  | joins hstack => exact absurd hstack not_outside_quote

lemma Passes.taken {mark c : Char}
    (h : Passes (.quote mark :: stack) current ('\\' :: c :: rest) stack') :
    Passes (.quote mark :: stack) (c :: '\\' :: current) rest stack' := by
  cases h with
  | quoted hc => exact absurd rfl hc
  | escaped h => exact h
  | joins hstack => exact absurd hstack not_outside_quote

lemma Passes.quote {mark : Char} {text : List Char} (hquote : isQuote mark = true)
    (hinside : Quoted mark text)
    (h : Passes (.quote mark :: stack) current (text ++ mark :: rest) stack') :
    ∃ below, Passes stack (mark :: below) rest stack' := by
  induction hinside generalizing current with
  | nil =>
    have h := h.within (Relaxed.ne_slash_of_isQuote hquote).symm
    rw [if_pos rfl] at h
    exact ⟨current, h⟩
  | plain hc hslash _ ih =>
    have h := h.within hslash
    rw [if_neg hc] at h
    exact ih h
  | escaped _ ih => exact ih h.taken

lemma Passes.string {mark : Char} {text : List Char} (hclear : Clear stack)
    (hopens : opensQuotes current = true) (hquote : isQuote mark = true) (hinside : Quoted mark text)
    (h : Passes stack current (mark :: (text ++ mark :: rest)) stack') :
    ∃ below, Passes stack (mark :: below) rest stack' := by
  obtain ⟨-, -, -, hequals, hopen, hclose⟩ := plain_of_isQuote hquote
  obtain ⟨stack₁, equals, equals', haccepts, h⟩ := h.accepts hclear
  cases haccepts with
  | openQuote => exact h.quote hquote hinside
  | openBracket hopen' => simp [hopen] at hopen'
  | closeBracket hclose' => simp [hclose] at hclose'
  | equalsSign hc => exact absurd hc hequals
  | put _ hno => simp [hquote, hopens] at hno

/-! ### Words and keys -/

/-- A character of a word leaves the innermost bracket that is not round as it is. -/
lemma Inside.accept {c : Char} {equals equals' : Option Nat} {stack₁ : List Frame}
    (h : Inside holder frames stack) (hc : holder.endsWord c = false)
    (hquote : isQuote c = true → opensQuotes current = false)
    (haccepts : Accepts stack current equals c stack₁ equals') : Inside holder frames stack₁ := by
  cases haccepts with
  | openQuote hq hopens => simp [hquote hq] at hopens
  | @openBracket k hopen hdeep =>
    rw [BracketKind.ofOpening?_eq_some_iff] at hopen
    subst hopen
    cases k with
    | round => exact ⟨h.clear.push .round hdeep, h.base_eq, h.kind⟩
    | square | curly => cases holder <;> simp [Holder.endsWord, BracketKind.opening] at hc
  | @closeBracket k top below hclose hstack htop =>
    rw [BracketKind.ofClosing?_eq_some_iff] at hclose
    subst hclose hstack
    obtain ⟨hclear, hbase, depth, under, hkind⟩ := h
    cases top with
    | quote => simp [Frame.closedBy] at htop
    | bracket kind d =>
      obtain rfl : kind = k := by simpa [Frame.closedBy] using htop
      by_cases hround : kind = .round
      · subst hround
        exact ⟨hclear.pop, hbase, depth, under, hkind⟩
      · -- the innermost bracket is that of the holder, and its partner ends words
        rw [base_bracket hround] at hbase
        obtain rfl : kind = holder.bracket := by
          have := hbase.trans hkind
          simp_all
        simp [Relaxed.Holder.endsWord_closing] at hc
  | equalsSign | put => exact h

/-- Behind a character the reader passes the rest of a word in which strings end. -/
lemma Passes.calm {c : Char} {text below : List Char} (hcalm : Calm c text)
    (hends : ∀ d ∈ text, holder.endsWord d = false) (hin : Inside holder frames stack)
    (h : Passes stack (c :: below) (text ++ rest) stack') : Goes holder frames rest := by
  induction hcalm generalizing stack below with
  | nil => exact ⟨stack, stack', _, hin, h⟩
  | @char c d text hd _ ih =>
    obtain ⟨hd', hends⟩ := List.forall_mem_cons.1 hends
    obtain ⟨stack₁, equals, equals', haccepts, h⟩ := h.accepts hin.clear
    have hquote : isQuote d = true → opensQuotes (c :: below) = false := hd
    exact ih hends (hin.accept hd' hquote haccepts) h
  | @quoted c quote inside text hquote hopens hinside _ ih =>
    rw [List.cons_append, List.append_assoc, List.cons_append] at h
    have hopens : opensQuotes (c :: below) = true := hopens
    obtain ⟨below', h⟩ := h.string hin.clear hopens hquote hinside
    exact ih (fun d hd => hends d (by simp [hd])) hin h

lemma Passes.word {c : Char} {text : List Char} (hquote : isQuote c = false)
    (hends : ∀ d ∈ c :: text, holder.endsWord d = false) (hcalm : Calm c text)
    (hin : Inside holder frames stack) (h : Passes stack current (c :: text ++ rest) stack') :
    Goes holder frames rest := by
  obtain ⟨hc, hends⟩ := List.forall_mem_cons.1 hends
  obtain ⟨stack₁, equals, equals', haccepts, h⟩ := h.accepts hin.clear
  exact h.calm hcalm hends (hin.accept hc (by simp [hquote]) haccepts)

lemma Ready.names {k : String} {name : List Char} (hname : Relaxed.Names .calm k name)
    (h : Ready .object frames (name ++ rest)) : Goes .object frames rest := by
  obtain ⟨stack, stack', current, hin, hopens, h⟩ := h
  cases hname with
  | bare hkey =>
    obtain ⟨hne, hends⟩ : IsBareKey name := hkey
    obtain ⟨c, cs, rfl⟩ := List.exists_cons_of_ne_nil hne
    have hplain : ∀ d ∈ c :: cs, isQuote d = false ∧ Holder.object.endsWord d = false :=
      fun d hd => by
        have hkey := hends d hd
        simp only [Relaxed.endsKey, Bool.or_eq_false_iff] at hkey
        simp [Holder.endsWord, hkey]
    have hcalm : Calm c cs :=
      Relaxed.calm_of_no_quotes fun d hd => (hplain d (List.mem_cons_of_mem _ hd)).1
    exact h.word (hplain c List.mem_cons_self).1 (fun d hd => (hplain d hd).2) hcalm hin
  | quoted hquote hspells =>
    rw [List.cons_append, List.append_assoc, List.singleton_append] at h
    obtain ⟨below, h⟩ := h.string hin.clear hopens hquote (Relaxed.Spells.quoted hquote hspells)
    exact ⟨stack, stack', _, hin, h⟩

/-! ### White space and punctuation -/

lemma Ready.goes {text : List Char} (h : Ready holder frames text) : Goes holder frames text := by
  obtain ⟨stack, stack', current, hin, -, h⟩ := h
  exact ⟨stack, stack', current, hin, h⟩

lemma Ready.length_le {text : List Char} (h : Ready holder frames text) :
    frames.length ≤ maxNesting := by
  obtain ⟨stack, stack', current, hin, -, -⟩ := h
  exact hin.length_le.trans hin.clear.deep

lemma Goes.blanks {b : List Char} (hb : Blanks b) (h : Goes holder frames (b ++ rest)) :
    Goes holder frames rest := by
  obtain ⟨stack, stack', current, hin, h⟩ := h
  obtain ⟨current', -, h⟩ := h.blanks hb hin.clear
  exact ⟨stack, stack', current', hin, h⟩

lemma Ready.blanks {b : List Char} (hb : Blanks b) (h : Ready holder frames (b ++ rest)) :
    Ready holder frames rest := by
  obtain ⟨stack, stack', current, hin, hopens, h⟩ := h
  obtain ⟨current', hopens', h⟩ := h.blanks hb hin.clear
  exact ⟨stack, stack', current', hin, hopens' hopens, h⟩

lemma Goes.mark {c : Char} (hc : c = ',' ∨ c = ':') (h : Goes holder frames (c :: rest)) :
    Ready holder frames rest := by
  obtain ⟨stack, stack', current, hin, h⟩ := h
  have hopens : opensQuotes (c :: current) = true := by
    rcases hc with rfl | rfl <;> simp [opensQuotes, atBoundary]
  have h := h.mark hin.clear (by rcases hc with rfl | rfl <;> rfl)
    (by rcases hc with rfl | rfl <;> rfl) (by rcases hc with rfl | rfl <;> rfl)
  exact ⟨stack, stack', c :: current, hin, hopens, h⟩

/-! ### Brackets -/

lemma Passes.opening (hclear : Clear stack)
    (h : Passes stack current (holder.bracket.opening :: rest) stack') :
    ∃ frames, frames.length = stack.length + 1 ∧ frames.tail = stack ∧ Inside holder frames frames ∧
      Passes frames (holder.bracket.opening :: current) rest stack' := by
  have hopens : BracketKind.ofOpening? holder.bracket.opening = some holder.bracket :=
    BracketKind.ofOpening?_eq_some_iff.2 rfl
  obtain ⟨-, -, -, hequals, hquote⟩ := plain_of_opening hopens
  obtain ⟨stack₁, equals, equals', haccepts, h⟩ := h.accepts hclear
  cases haccepts with
  | openQuote hquote' => simp [hquote] at hquote'
  | @openBracket k hopen hdeep =>
    obtain rfl : holder.bracket = k := by simpa [hopens] using hopen
    exact ⟨_, rfl, rfl, ⟨hclear.push _ hdeep, base_bracket holder.bracket_ne_round _ _, _, _, rfl⟩, h⟩
  | closeBracket hclose => simp [(plain_of_closing hclose).2.2.2.2.2] at hopens
  | equalsSign hc => exact absurd hc hequals
  | put _ _ hopen => simp [hopens] at hopen

lemma Passes.closing (hin : Inside holder frames stack)
    (h : Passes stack current (holder.bracket.closing :: rest) stack') :
    ∃ current', Passes frames.tail current' rest stack' := by
  have hcloses : BracketKind.ofClosing? holder.bracket.closing = some holder.bracket :=
    BracketKind.ofClosing?_eq_some_iff.2 rfl
  obtain ⟨-, -, -, hequals, hquote, hopen⟩ := plain_of_closing hcloses
  obtain ⟨stack₁, equals, equals', haccepts, hnext⟩ := h.accepts hin.clear
  cases haccepts with
  | openQuote hquote' => simp [hquote] at hquote'
  | openBracket hopen' => simp [hopen] at hopen'
  | @closeBracket k top below hclose hstack htop =>
    obtain rfl : holder.bracket = k := by simpa [hcloses] using hclose
    obtain ⟨-, hbase, -⟩ := hin
    subst hstack
    cases top with
    | quote => simp [Frame.closedBy] at htop
    | bracket kind d =>
      obtain rfl : kind = holder.bracket := by simpa [Frame.closedBy] using htop
      rw [base_bracket holder.bracket_ne_round] at hbase
      exact ⟨_, by rw [← hbase]; exact hnext⟩
  | equalsSign hc => exact absurd hc hequals
  | put _ _ _ hclose => simp [hcloses] at hclose

/-! ### Literals -/

/-- The reader passes the text in the text of a holder, and depth `n` fits in there. -/
def Crosses (holder : Holder) (text : List Char) (n : Nat) : Prop :=
  ∀ ⦃frames rest⦄, Ready holder frames (text ++ rest) →
    Goes holder frames rest ∧ frames.length + n ≤ maxNesting

/-- The reader passes the text, and the depth of what it is read as fits in there. Behind a literal the
same frames are open as in front of it. -/
def Fits : Part → List Char → Prop
  | .literal v, text => ∀ ⦃stack stack' current rest⦄, Clear stack → opensQuotes current = true →
      Passes stack current (text ++ rest) stack' →
      (∃ stack₁ current', Passes stack current' rest stack₁) ∧ stack.length + v.depth ≤ maxNesting
  | .element holder v, text => Crosses holder text v.depth
  | .items vs, text => Crosses .array text (Value.itemsDepth vs)
  | .fields es, text => Crosses .object text (Value.fieldsDepth es)

lemma opensQuotes_opening (holder : Holder) (current : List Char) :
    opensQuotes (holder.bracket.opening :: current) = true := by
  cases holder <;> simp [opensQuotes, atBoundary, Holder.bracket, BracketKind.opening]

lemma Crosses.enclose {text : List Char} {n : Nat} (h : Crosses holder text n) (hclear : Clear stack)
    (hpasses : Passes stack current
      (holder.bracket.opening :: (text ++ holder.bracket.closing :: rest)) stack') :
    (∃ stack₁ current', Passes stack current' rest stack₁) ∧ stack.length + (1 + n) ≤ maxNesting := by
  obtain ⟨frames, hlength, htail, hin, hpasses⟩ := hpasses.opening hclear
  obtain ⟨⟨stack₁, stack₂, current', hin', hgoes⟩, hdepth⟩ :=
    h ⟨_, _, _, hin, opensQuotes_opening holder current, hpasses⟩
  obtain ⟨current', hclosed⟩ := hgoes.closing hin'
  rw [htail] at hclosed
  exact ⟨⟨stack₂, current', hclosed⟩, by omega⟩

/-- The reader of tokens counts every bracket of a literal whose bare words do not leave a string open. -/
theorem fits_of_derives {part : Part} {text : List Char} (h : Derives .calm part text) :
    Fits part text := by
  induction h with
  | string hquote hspells =>
    intro stack stack' current rest hclear hopens h
    rw [List.cons_append, List.append_assoc, List.singleton_append] at h
    obtain ⟨below, h⟩ := h.string hclear hopens hquote (Relaxed.Spells.quoted hquote hspells)
    exact ⟨⟨stack', _, h⟩, hclear.deep⟩
  | array _ ih =>
    intro stack stack' current rest hclear hopens h
    rw [List.cons_append, List.append_assoc, List.singleton_append] at h
    exact Crosses.enclose ih hclear h
  | object _ hfs ih =>
    intro stack stack' current rest hclear hopens h
    rw [List.cons_append, List.append_assoc, List.singleton_append] at h
    obtain ⟨hpasses, hdepth⟩ := Crosses.enclose ih hclear h
    exact ⟨hpasses, le_trans (Nat.add_le_add_left (Nat.add_le_add_left hfs.fieldsDepth_le 1) _) hdepth⟩
  | nested _ ih =>
    rintro frames rest ⟨stack, stack', current, hin, hopens, h⟩
    obtain ⟨⟨stack₁, current', h⟩, hdepth⟩ := ih hin.clear hopens h
    exact ⟨⟨stack, stack₁, current', hin, h⟩,
      le_trans (Nat.add_le_add_right hin.length_le _) hdepth⟩
  | word h =>
    rintro frames rest ⟨stack, stack', current, hin, -, hpasses⟩
    obtain ⟨⟨hword, rfl⟩, c, cs, rfl, hcalm⟩ := h
    refine ⟨hpasses.word (hword.first c rfl).2 hword.inside hcalm hin, ?_⟩
    rw [Relaxed.depth_wordValue]
    exact hin.length_le.trans hin.clear.deep
  | noItems ha =>
    intro frames rest hready
    have hready := hready.blanks ha
    exact ⟨hready.goes, hready.length_le⟩
  | lastItem ha _ hb ih =>
    intro frames rest hready
    simp only [List.append_assoc] at hready
    obtain ⟨hgoes, hdepth⟩ := ih (hready.blanks ha)
    exact ⟨hgoes.blanks hb, by simpa [Value.itemsDepth] using hdepth⟩
  -- behind the comma a quote opens a string again, as in front of the first item
  | item ha _ hb _ ih ihmore =>
    intro frames rest hready
    simp only [List.append_assoc, List.cons_append] at hready
    obtain ⟨hgoes, hdepth⟩ := ih (hready.blanks ha)
    obtain ⟨hgoes, hmore⟩ := ihmore ((hgoes.blanks hb).mark (.inl rfl))
    rw [Value.itemsDepth_cons]
    exact ⟨hgoes, by omega⟩
  | noFields ha =>
    intro frames rest hready
    have hready := hready.blanks ha
    exact ⟨hready.goes, hready.length_le⟩
  | lastField ha hname hb hc _ hd ih =>
    intro frames rest hready
    simp only [List.append_assoc, List.cons_append] at hready
    have hcolon := ((hready.blanks ha).names hname).blanks hb
    obtain ⟨hgoes, hdepth⟩ := ih ((hcolon.mark (.inr rfl)).blanks hc)
    exact ⟨hgoes.blanks hd, by simpa [Value.fieldsDepth] using hdepth⟩
  | field ha hname hb hc _ hd _ ih ihmore =>
    intro frames rest hready
    simp only [List.append_assoc, List.cons_append] at hready
    have hcolon := ((hready.blanks ha).names hname).blanks hb
    obtain ⟨hgoes, hdepth⟩ := ih ((hcolon.mark (.inr rfl)).blanks hc)
    obtain ⟨hgoes, hmore⟩ := ihmore ((hgoes.blanks hd).mark (.inl rfl))
    rw [Value.fieldsDepth_cons]
    exact ⟨hgoes, by omega⟩

end Token.Reader

end CommentBlocks
