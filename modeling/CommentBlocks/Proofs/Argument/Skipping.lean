import CommentBlocks.Argument.Options
import CommentBlocks.Proofs.Argument.Stepping
import Mathlib.Data.List.TakeWhile

/-!
Comments are invisible: where one can begin, the reader of tokens comes out behind it as it went in, so
that argument text has the same options, or the same fault, without it.
-/

namespace CommentBlocks

open Unicode (isBlank)
open Text (isQuote)

namespace Token.Reader

/-- Whatever follows the text, the reader comes to stand right behind it in the state `r`. So no fault has
been met in the text, and no comment goes on at its end. -/
def StandsBehind (text : List Char) (r : Reader) : Prop :=
  ∀ rest, Reaches (start (text ++ rest)) { r with rest := rest }

variable {r r' : Reader} {c : Char} {cs : List Char}

/-! ### What a comment takes away -/

lemma afterComment_cons (h : c = '*' → cs.head? ≠ some '/') :
    afterComment (c :: cs) = afterComment cs := by
  rw [afterComment]
  rintro tail rfl rfl
  exact h rfl rfl

lemma afterComment_append {body : List Char} (h : ¬ ['*', '/'] <:+: body) (rest : List Char) :
    afterComment (body ++ '*' :: '/' :: rest) = rest := by
  induction body with
  | nil => rfl
  | cons c body ih =>
    rw [List.cons_append, afterComment_cons, ih fun hin => h (hin.trans (List.suffix_cons c body).isInfix)]
    rintro rfl hhead
    cases body with
    | nil => simp at hhead
    | cons d body =>
      obtain rfl : d = '/' := by simpa using hhead
      exact h ⟨[], body, rfl⟩

lemma afterComment_eq (cs : List Char) :
    afterComment cs = [] ∨ ∃ body, cs = body ++ '*' :: '/' :: afterComment cs := by
  fun_induction afterComment cs with
  | case1 => exact .inl rfl
  | case2 cs => exact .inr ⟨[], rfl⟩
  | case3 c cs _ ih =>
    refine ih.imp_right ?_
    rintro ⟨body, hbody⟩
    exact ⟨c :: body, by rw [List.cons_append, ← hbody]⟩

lemma afterLine_append {line : List Char} (h : '\n' ∉ line) (rest : List Char) :
    afterLine (line ++ '\n' :: rest) = '\n' :: rest := by
  rw [afterLine, List.dropWhile_append_of_pos fun d hd => ?_, List.dropWhile_cons_of_neg (by simp)]
  rw [bne_iff_ne]
  rintro rfl
  exact h hd

lemma reaches_comment (hstack : Outside r.stack) {text rest : List Char}
    (hskip : r.skipComment? c text = some rest) :
    Reaches { r with rest := c :: text } { r with rest := rest } := by
  refine .step rfl ?_ .refl
  simp only [step]
  split
  · next mark hmark => exact absurd hmark (hstack mark)
  · rw [show Reader.skipComment? { r with rest := c :: text } c text = some rest from hskip]

/-! ### The line at hand -/

def lineBehind (text : List Char) : List Char := text.reverse.takeWhile (· != '\n')

lemma lineBehind_concat (text : List Char) (c : Char) :
    lineBehind (text ++ [c]) = if c = '\n' then [] else c :: lineBehind text := by
  by_cases hc : c = '\n' <;> simp [lineBehind, hc]

lemma mem_lineBehind {line : List Char} (h : '\n' ∉ line) (text : List Char) (hc : c ∈ line) :
    c ∈ lineBehind (text ++ line) := by
  have hline : ∀ d ∈ line.reverse, (d != '\n') = true := by
    intro d hd
    rw [bne_iff_ne]
    rintro rfl
    exact h (by simpa using hd)
  rw [lineBehind, List.reverse_append, List.takeWhile_append_of_pos hline]
  simp [hc]

/-- A comment leaves the end of its line or its end mark behind, or nothing follows. -/
lemma lineBehind_comment {rest : List Char} (hskip : r.skipComment? c cs = some rest) :
    ∃ text, c :: cs = text ++ rest ∧
      (r.lineBlank = true ∨ rest = [] ∨ ∀ front, '/' ∈ lineBehind (front ++ text)) := by
  have hsplit : ∀ line : List Char, line = line.takeWhile (· != '\n') ++ afterLine line := fun line =>
    (List.takeWhile_append_dropWhile ..).symm
  simp only [skipComment?] at hskip
  split at hskip
  · next hhash =>
    cases hskip
    rw [Bool.and_eq_true] at hhash
    exact ⟨c :: cs.takeWhile (· != '\n'), by rw [List.cons_append, ← hsplit], .inl hhash.2⟩
  · split at hskip
    · next hslash =>
      obtain rfl : c = '/' := by
        rw [Bool.and_eq_true, beq_iff_eq] at hslash
        exact hslash.1
      split at hskip
      · next line =>
        cases hskip
        refine ⟨'/' :: '/' :: line.takeWhile (· != '\n'), ?_, .inr (.inr fun front => ?_)⟩
        · rw [List.cons_append, List.cons_append, ← hsplit]
        · refine mem_lineBehind ?_ front (by simp)
          simp only [List.mem_cons, not_or]
          exact ⟨by decide, by decide, fun hmem => by simpa using List.mem_takeWhile_imp hmem⟩
      · next body =>
        cases hskip
        rcases afterComment_eq body with hnil | ⟨text, htext⟩
        · exact ⟨'/' :: '*' :: body, by simp [hnil], .inr (.inl hnil)⟩
        · refine ⟨'/' :: '*' :: (text ++ ['*', '/']), by simp [← htext], .inr (.inr fun front => ?_)⟩
          have happ : front ++ '/' :: '*' :: (text ++ ['*', '/']) =
              (front ++ '/' :: '*' :: text) ++ ['*', '/'] := by simp
          rw [happ]
          exact mem_lineBehind (by decide) _ (by simp)
      · simp at hskip
    · simp at hskip

/-- The state knows whether the line that has been read is blank: outside of quotes the flag is set if
it is. -/
structure Lined (text : List Char) (r : Reader) : Prop where
  marks : ∀ mark, .quote mark ∈ r.stack → isQuote mark = true
  line : ∃ front, text = front ++ r.rest ∧
    (Outside r.stack → (∀ c ∈ lineBehind front, isBlank c = true) → r.lineBlank = true ∨ r.rest = [])

lemma lined_start (text : List Char) : Lined text (start text) where
  marks := by simp [start]
  line := ⟨[], rfl, fun _ _ => .inl rfl⟩

lemma Lined.advance {text : List Char} (h : Lined text r) (hrest : r.rest = c :: cs)
    (hstack : Outside r.stack) :
    ∃ front, text = front ++ cs ∧ ((∀ d ∈ lineBehind front, isBlank d = true) →
      (r.advance c cs).lineBlank = true) := by
  obtain ⟨front, htext, hline⟩ := h.line
  refine ⟨front ++ [c], by simp [htext, hrest], fun hblank => ?_⟩
  rw [lineBehind_concat] at hblank
  split at hblank
  · next hc => simp [Reader.advance, hc]
  · obtain ⟨hc, hfront⟩ := List.forall_mem_cons.1 hblank
    have hflag := (hline hstack hfront).resolve_right (by simp [hrest])
    simp [Reader.advance, hc, hflag]

lemma Lined.step {text : List Char} (h : Lined text r) (hrest : r.rest = c :: cs)
    (hstep : r.step c cs = .ok r') : Lined text r' := by
  obtain ⟨front, htext, hline⟩ := h.line
  cases moves_of_step hstep with
  | @quoted mark below hstack hc =>
    have hmark : isQuote mark = true := h.marks mark (by simp [hstack])
    refine ⟨fun m hm => h.marks m ?_, front ++ [c], by simp [htext, hrest], fun hout hblank => ?_⟩
    · dsimp only at hm
      split at hm
      · rw [hstack]
        exact List.mem_cons_of_mem _ hm
      · exact hm
    · -- the quote that ends the string is no blank
      dsimp only at hout
      split at hout
      · next hcm =>
        obtain ⟨hquote, -⟩ := plain_of_isQuote (hcm ▸ hmark)
        rw [lineBehind_concat, if_neg (ne_lineFeed_of_not_isBlank hquote)] at hblank
        exact absurd (hblank c (by simp)) (by simp [hquote])
      · exact absurd hout (hstack ▸ not_outside_quote)
  | @escaped mark d below ds hstack hc hcs =>
    exact ⟨h.marks, front ++ [c, d], by simp [htext, hrest, hcs],
      fun hout => absurd hout (hstack ▸ not_outside_quote)⟩
  | cutShort hstack hc hcs =>
    exact ⟨h.marks, front ++ [c], by simp [htext, hrest, hcs],
      fun hout => absurd hout (hstack ▸ not_outside_quote)⟩
  | comment hstack hskip =>
    obtain ⟨skipped, hsplit, hcases⟩ := lineBehind_comment hskip
    refine ⟨h.marks, front ++ skipped, by simp [htext, hrest, hsplit], fun _ hblank => ?_⟩
    rcases hcases with hflag | hnil | hslash
    · exact .inl hflag
    · exact .inr hnil
    · exact absurd (hblank '/' (hslash front)) (by decide)
  | blank hstack hblank =>
    obtain ⟨front, htext, hflag⟩ := h.advance hrest (hstack ▸ outside_nil)
    exact ⟨by rw [stack_finish]; exact h.marks, front, by rw [rest_finish]; exact htext,
      fun _ hall => .inl (by rw [lineBlank_finish]; exact hflag hall)⟩
  | joins hstack hskip haccepts =>
    obtain ⟨front, htext, hflag⟩ := h.advance hrest hstack
    exact ⟨fun mark hmark => (haccepts.isQuote_of_mem hmark).elim (h.marks mark) id, front, htext,
      fun _ hall => .inl (hflag hall)⟩

/-- Behind white space at the start of a line a hash begins a comment. -/
lemma StandsBehind.lineBlank {text : List Char} (h : StandsBehind text r) (hstack : Outside r.stack)
    (hline : ∀ d ∈ lineBehind text, isBlank d = true) : r.lineBlank = true := by
  have hlined := Reaches.keeps Lined.step (lined_start (text ++ ['x'])) (h ['x'])
  obtain ⟨front, htext, hflag⟩ := hlined.line
  obtain rfl : text = front := List.append_cancel_right htext
  exact (hflag hstack hline).resolve_right (by simp)

/-! ### Comments are invisible -/

lemma StandsBehind.ofText_skip {text : List Char} (h : StandsBehind text r) (hstack : Outside r.stack)
    {comment rest : List Char} (hskip : r.skipComment? c comment = some rest) :
    Token.ofText (text ++ c :: comment) = Token.ofText (text ++ rest) := by
  rw [Token.ofText, Token.ofText, (h (c :: comment)).run_eq, (h rest).run_eq]
  exact (reaches_comment hstack hskip).run_eq

/-- Slashes begin a comment between tokens and behind white space. -/
lemma skipComment?_of_isBlank (hcurrent : ∀ d ∈ r.current.head?, isBlank d = true) :
    (∀ body, r.skipComment? '/' ('*' :: body) = some (afterComment body)) ∧
      ∀ line, r.skipComment? '/' ('/' :: line) = some (afterLine line) := by
  have hopens : r.atCommentBoundary = true := by
    simp only [atCommentBoundary]
    split
    · rfl
    · next d tail hcons => exact hcurrent d (by simp [hcons])
  constructor <;> simp [skipComment?, hopens]

end Token.Reader

namespace Options

open Token.Reader (StandsBehind Outside lineBehind afterComment_append afterLine_append
  skipComment?_of_isBlank)

variable {a : String} {r : Token.Reader}

lemma parse_eq_of_ofText {s t : String} (h : Token.ofText s.toList = Token.ofText t.toList) :
    parse s = parse t := by
  rw [parse, parse, ofText, ofText, h]

/-- Comments are invisible. Outside of quotes, where the token at hand is empty or ends in white space,
a comment between marks counts for nothing and one behind two slashes counts for the end of its line; so
does one behind a hash, on a line that is blank so far. The options are the same, and so are the faults. -/
theorem parse_comment (h : StandsBehind a.toList r) (hstack : Outside r.stack)
    (hcurrent : ∀ d ∈ r.current.head?, isBlank d = true) (b c : String) :
    (¬ ['*', '/'] <:+: c.toList → parse (a ++ "/*" ++ c ++ "*/" ++ b) = parse (a ++ b)) ∧
      ('\n' ∉ c.toList → parse (a ++ "//" ++ c ++ "\n" ++ b) = parse (a ++ "\n" ++ b)) ∧
      ((∀ d ∈ lineBehind a.toList, isBlank d = true) → '\n' ∉ c.toList →
        parse (a ++ "#" ++ c ++ "\n" ++ b) = parse (a ++ "\n" ++ b)) := by
  obtain ⟨hmarks, hslashes⟩ := skipComment?_of_isBlank hcurrent
  refine ⟨fun hc => parse_eq_of_ofText ?_, fun hc => parse_eq_of_ofText ?_,
    fun hline hc => parse_eq_of_ofText ?_⟩
  · have hskip := hmarks (c.toList ++ '*' :: '/' :: b.toList)
    rw [afterComment_append hc] at hskip
    simpa using h.ofText_skip hstack hskip
  · have hskip := hslashes (c.toList ++ '\n' :: b.toList)
    rw [afterLine_append hc] at hskip
    simpa using h.ofText_skip hstack hskip
  · have hblank := h.lineBlank hstack hline
    have hskip : r.skipComment? '#' (c.toList ++ '\n' :: b.toList) = some ('\n' :: b.toList) := by
      simp [Token.Reader.skipComment?, hblank, afterLine_append hc]
    simpa using h.ofText_skip hstack hskip

/-- A comment on the second line of a list, behind another one on the first. -/
theorem parse_comment_in_list :
    let r : Token.Reader := ⟨[], [.bracket .square 1], " \n [=x".toList, some 1, true, []⟩
    StandsBehind "x=[ /* y */\n ".toList r ∧ Outside r.stack ∧
      (∀ d ∈ r.current.head?, isBlank d = true) ∧
      (∀ d ∈ lineBehind "x=[ /* y */\n ".toList, isBlank d = true) ∧
      parse "x=[ /* y */\n /*= ] ' [*/1]" = .ok [("x", .array [.int 1])] ∧
      parse "x=[ /* y */\n //= ] ' [\n1]" = .ok [("x", .array [.int 1])] ∧
      parse "x=[ /* y */\n #= ] ' [\n1]" = .ok [("x", .array [.int 1])] := by
  intro r
  have hbehind : StandsBehind "x=[ /* y */\n ".toList r := fun rest =>
    .step rfl rfl (.step rfl rfl (.step rfl rfl (.step rfl rfl (.step rfl rfl
      (.step rfl rfl (.step rfl rfl .refl))))))
  have hstack : Outside r.stack := Token.Reader.outside_bracket .square 1
  have hcurrent : ∀ d ∈ r.current.head?, isBlank d = true := (Option.all_eq_true ..).1 rfl
  have hline : ∀ d ∈ lineBehind "x=[ /* y */\n ".toList, isBlank d = true := List.all_eq_true.1 rfl
  obtain ⟨hmarks, hslashes, hhash⟩ := parse_comment hbehind hstack hcurrent "1]" "= ] ' ["
  have hplain : parse "x=[ /* y */\n 1]" = .ok [("x", .array [.int 1])] := by decide +kernel
  have hbroken : parse "x=[ /* y */\n \n1]" = .ok [("x", .array [.int 1])] := by decide +kernel
  exact ⟨hbehind, hstack, hcurrent, hline, (hmarks (by decide +kernel)).trans hplain,
    (hslashes (by decide +kernel)).trans hbroken, (hhash hline (by decide)).trans hbroken⟩

end Options

end CommentBlocks
