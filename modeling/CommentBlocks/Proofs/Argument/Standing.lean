import CommentBlocks.Proofs.Argument.Strays

/-!
The states of the reader of tokens. What is open in a state is what the text of the token at hand leaves
open, read by itself; so the offset that a state or a token keeps is that of the first equals sign outside
of the quotes and brackets of its own text.
-/

namespace CommentBlocks

open Text (isQuote bytes takeBytes dropBytes)
open CommentBlocks.Bracket (openNext?)
open CommentBlocks.Frame (kinds place OnTop)

namespace Token

open Reader (Accepts Outside opensQuotes)

/-! ### What a text leaves open -/

/-- Where the text of a token, given back to front, leaves its reader with respect to quotes: outside of
strings a quote opens one behind white space and delimiters only. -/
def quotesBehind : List Char → QuoteState
  | [] => .outside
  | c :: before =>
    if quotesBehind before = .outside ∧ isQuote c = true ∧ opensQuotes before = false then .outside
    else (quotesBehind before).next c

/-- The brackets that the text of a token, given back to front, leaves open, the innermost first. -/
def openBehind? : List Char → Option (List BracketKind)
  | [] => some []
  | c :: before => (openBehind? before).bind fun stack => openNext? stack (quotesBehind before) c

def Outer (text : List Char) : Prop :=
  quotesBehind text.reverse = .outside ∧ openBehind? text.reverse = some []

/-- An equals sign outside of quotes and brackets stands behind the first part of the text. -/
def EqualsBehind (front text : List Char) : Prop := Outer front ∧ ∃ tail, text = front ++ '=' :: tail

/-- The byte offset of the first equals sign outside of quotes and brackets, or nothing if there is none. -/
def FirstEquals (text : List Char) : Option Nat → Prop
  | none => ∀ front, ¬ EqualsBehind front text
  | some n => (∃ front, EqualsBehind front text ∧ bytes front = n) ∧
    ∀ front, EqualsBehind front text → n ≤ bytes front

/-- A token is not empty, and its offset is that of its first equals sign outside of quotes and brackets. -/
structure WellFormed (t : Token) : Prop where
  nonempty : t.text ≠ []
  equals : FirstEquals t.text t.equals

variable {text front current : List Char} {equals equals' : Option Nat} {c : Char}

lemma equalsBehind_concat_iff : EqualsBehind front (text ++ [c]) ↔
    EqualsBehind front text ∨ c = '=' ∧ front = text ∧ Outer text := by
  constructor
  · rintro ⟨houter, tail, htail⟩
    rcases List.eq_nil_or_concat' tail with rfl | ⟨tail, d, rfl⟩
    · obtain ⟨rfl, hc⟩ := List.append_inj' htail rfl
      exact .inr ⟨List.singleton_inj.1 hc, rfl, houter⟩
    · rw [← List.cons_append, ← List.append_assoc] at htail
      exact .inl ⟨houter, tail, List.append_inj_left' htail rfl⟩
  · rintro (⟨houter, tail, rfl⟩ | ⟨rfl, rfl, houter⟩)
    · exact ⟨houter, tail ++ [c], by simp⟩
    · exact ⟨houter, [], rfl⟩

lemma EqualsBehind.bytes_le (h : EqualsBehind front text) : bytes front ≤ bytes text := by
  obtain ⟨-, tail, rfl⟩ := h
  rw [Text.bytes_append]
  omega

lemma firstEquals_nil : FirstEquals [] none := by
  rintro front ⟨-, tail, htail⟩
  simp at htail

/-- An offset that is known stays, and so it does behind a character that is no equals sign or stands inside
quotes or brackets. -/
lemma FirstEquals.concat (h : FirstEquals text equals)
    (hkeeps : c ≠ '=' ∨ ¬ Outer text ∨ equals ≠ none) : FirstEquals (text ++ [c]) equals := by
  cases equals with
  | none =>
    intro front hfront
    rcases equalsBehind_concat_iff.1 hfront with hbehind | ⟨hc, -, houter⟩
    · exact h front hbehind
    · rcases hkeeps with hne | hinner | hsome
      · exact hne hc
      · exact hinner houter
      · exact hsome rfl
  | some n =>
    obtain ⟨⟨first, hfirst, hbytes⟩, hle⟩ := h
    refine ⟨⟨first, equalsBehind_concat_iff.2 (.inl hfirst), hbytes⟩, fun front hfront => ?_⟩
    rcases equalsBehind_concat_iff.1 hfront with hbehind | ⟨-, rfl, -⟩
    · exact hle front hbehind
    · exact hbytes ▸ hfirst.bytes_le

lemma FirstEquals.found (h : FirstEquals text none) (houter : Outer text) :
    FirstEquals (text ++ ['=']) (some (bytes text)) := by
  refine ⟨⟨text, ⟨houter, [], rfl⟩, rfl⟩, fun front hfront => ?_⟩
  rcases equalsBehind_concat_iff.1 hfront with hbehind | ⟨-, rfl, -⟩
  · exact absurd hbehind (h front)
  · exact Nat.le_refl _

lemma FirstEquals.cut {n : Nat} (h : FirstEquals text (some n)) :
    text = takeBytes n text ++ '=' :: dropBytes (n + 1) text ∧ bytes (takeBytes n text) = n := by
  obtain ⟨⟨front, ⟨-, tail, rfl⟩, rfl⟩, -⟩ := h
  have hdrop : dropBytes (bytes front + 1) (front ++ '=' :: tail) = tail := by
    have hsign : bytes front + 1 = bytes (front ++ ['=']) := by rw [Text.bytes_append]; rfl
    have htail : front ++ '=' :: tail = (front ++ ['=']) ++ tail := by simp
    rw [hsign, htail, Text.dropBytes_append]
  rw [Text.takeBytes_append, hdrop]
  exact ⟨rfl, rfl⟩

/-! ### What a reader has open -/

namespace Reader

/-- No more than may be open are open, quotes on top only, and each bracket knows its place. -/
structure Nests (stack : List Frame) : Prop where
  length_le : stack.length ≤ maxNesting
  isQuote : ∀ mark, .quote mark ∈ stack → isQuote mark = true
  onTop : OnTop stack
  depth_eq : ∀ i kind depth, stack.reverse[i]? = some (.bracket kind depth) → depth = i + 1

variable {stack stack' : List Frame} {top : Frame}

lemma nests_nil : Nests [] where
  length_le := Nat.zero_le _
  isQuote := by simp
  onTop := Frame.onTop_nil
  depth_eq := by simp

lemma Nests.push (h : Nests stack) (hout : Outside stack) (hdeep : stack.length < maxNesting)
    (htop : (∃ mark, top = .quote mark ∧ Text.isQuote mark = true) ∨
      ∃ kind, top = .bracket kind (stack.length + 1)) : Nests (top :: stack) where
  length_le := hdeep
  isQuote := by
    intro mark hmark
    rcases List.mem_cons.1 hmark with rfl | hbelow
    · rcases htop with ⟨mark', heq, hquote⟩ | ⟨kind, heq⟩
      · rwa [Frame.quote.inj heq]
      · simp at heq
    · exact h.isQuote mark hbelow
  onTop := h.onTop.push hout top
  depth_eq := by
    intro i kind depth hi
    rw [List.reverse_cons, List.getElem?_append, List.length_reverse] at hi
    split at hi
    · exact h.depth_eq i kind depth hi
    · obtain ⟨rfl, rfl⟩ : i = stack.length ∧ top = .bracket kind depth := by
        obtain ⟨hlt, heq⟩ := List.getElem?_eq_some_iff.1 hi
        simp only [List.length_singleton] at hlt
        exact ⟨by omega, by simpa using heq⟩
      rcases htop with ⟨mark, heq, -⟩ | ⟨kind', heq⟩
      · simp at heq
      · exact (Frame.bracket.inj heq).2

lemma Nests.tail (h : Nests (top :: stack)) : Nests stack where
  length_le := Nat.le_of_succ_le h.length_le
  isQuote mark hmark := h.isQuote mark (List.mem_cons_of_mem _ hmark)
  onTop := h.onTop.tail
  depth_eq := by
    intro i kind depth hi
    refine h.depth_eq i kind depth ?_
    rw [List.reverse_cons, List.getElem?_append_left (List.getElem?_eq_some_iff.1 hi).1, hi]

/-- What is known of the token at hand is so by its text alone: the brackets that are open, where the reader
stands with respect to quotes, and the first equals sign. -/
structure Tracks (stack : List Frame) (current : List Char) (equals : Option Nat) (q : QuoteState) :
    Prop where
  brackets : openBehind? current = some (kinds stack)
  quotes : quotesBehind current = q
  equals : FirstEquals current.reverse equals

variable {q : QuoteState}

lemma tracks_nil : Tracks [] [] none .outside := ⟨rfl, rfl, firstEquals_nil⟩

lemma Tracks.outer (h : Tracks [] current equals .outside) : Outer current.reverse := by
  rw [Outer, List.reverse_reverse]
  exact ⟨h.quotes, h.brackets⟩

lemma Tracks.not_outer_within (h : Tracks stack current equals q) (hq : q ≠ .outside) :
    ¬ Outer current.reverse := by
  rintro ⟨houtside, -⟩
  rw [List.reverse_reverse, h.quotes] at houtside
  exact hq houtside

lemma Tracks.not_outer (h : Tracks stack current equals .outside) (hout : Outside stack)
    (hstack : stack ≠ []) : ¬ Outer current.reverse := by
  rintro ⟨-, hnone⟩
  rw [List.reverse_reverse, h.brackets, Option.some.injEq] at hnone
  exact hstack (Frame.eq_nil_of_kinds hout hnone)

lemma quotesBehind_cons (h : ¬ (quotesBehind current = .outside ∧ isQuote c = true ∧
    opensQuotes current = false)) : quotesBehind (c :: current) = (quotesBehind current).next c := by
  rw [quotesBehind, if_neg h]

lemma Tracks.within (h : Tracks stack current equals q) (hq : q ≠ .outside) (c : Char) :
    Tracks stack (c :: current) equals (q.next c) where
  brackets := by
    rw [openBehind?, h.brackets, Option.bind_some, h.quotes, Bracket.openNext?_within hq]
  quotes := by
    rw [quotesBehind_cons fun hall => hq (h.quotes.symm.trans hall.1), h.quotes]
  equals := by
    rw [List.reverse_cons]
    exact h.equals.concat (.inr (.inl (h.not_outer_within hq)))

lemma Accepts.stack_eq_of_stray (h : Accepts stack current equals c stack' equals')
    (hquote : isQuote c = true) (hopens : opensQuotes current = false) : stack' = stack := by
  obtain ⟨-, -, -, -, hopen, hclose⟩ := plain_of_isQuote hquote
  cases h with
  | openQuote _ hopens' => simp [hopens] at hopens'
  | openBracket hopen' => simp [hopen] at hopen'
  | closeBracket hclose' => simp [hclose] at hclose'
  | equalsSign | put => rfl

lemma Accepts.nests (h : Accepts stack current equals c stack' equals') (hout : Outside stack)
    (hnests : Nests stack) : Nests stack' := by
  cases h with
  | openQuote hquote _ hdeep => exact hnests.push hout hdeep (.inl ⟨c, rfl, hquote⟩)
  | @openBracket kind _ hdeep => exact hnests.push hout hdeep (.inr ⟨kind, rfl⟩)
  | closeBracket _ hstack =>
    rw [hstack] at hnests
    exact hnests.tail
  | equalsSign | put => exact hnests

lemma Accepts.firstEquals (h : Accepts stack current equals c stack' equals') (hout : Outside stack)
    (htracks : Tracks stack current equals .outside) :
    FirstEquals (current.reverse ++ [c]) equals' := by
  have hfirst := htracks.equals
  cases h with
  | openQuote hquote => exact hfirst.concat (.inl (plain_of_isQuote hquote).2.2.2.1)
  | openBracket hbracket => exact hfirst.concat (.inl (plain_of_opening hbracket).2.2.2.1)
  | closeBracket hbracket => exact hfirst.concat (.inl (plain_of_closing hbracket).2.2.2.1)
  | equalsSign hc hstack hnone =>
    subst hc hstack hnone
    rw [← Text.bytes_reverse]
    exact hfirst.found htracks.outer
  | put _ _ _ _ hequals =>
    exact hfirst.concat (hequals.imp_right (Or.imp_left (htracks.not_outer hout)))

/-- A character that joins the token opens and closes what it does in the text by itself. -/
lemma Tracks.joins (htracks : Tracks stack current equals .outside) (hout : Outside stack)
    (htop : OnTop stack) (h : Accepts stack current equals c stack' equals') :
    Tracks stack' (c :: current) equals' (place stack') := by
  have hbehind : openBehind? (c :: current) = openNext? (kinds stack) .outside c := by
    rw [openBehind?, htracks.brackets, Option.bind_some, htracks.quotes]
  have hequals : FirstEquals (c :: current).reverse equals' := by
    rw [List.reverse_cons]
    exact h.firstEquals hout htracks
  by_cases hstray : isQuote c = true ∧ opensQuotes current = false
  · obtain rfl := h.stack_eq_of_stray hstray.1 hstray.2
    refine ⟨hbehind.trans (Bracket.openNext?_of_isQuote hstray.1), ?_, hequals⟩
    rw [quotesBehind, if_pos ⟨htracks.quotes, hstray⟩, Frame.place_of_outside hout]
  · obtain ⟨hnext, hafter, -⟩ := h.agrees hout htop fun hquote => by
      by_contra hno
      exact hstray ⟨hquote, by simpa using hno⟩
    refine ⟨hbehind.trans hnext, ?_, hequals⟩
    rw [quotesBehind_cons fun hall => hstray hall.2, htracks.quotes, hafter]

/-- What holds in every state that a reader of the text comes to. Behind a backslash at the end of the text
a quote waits for one more character. -/
structure Valid (text : List Char) (r : Reader) : Prop where
  rest : r.rest <:+ text
  nests : Nests r.stack
  stands : ∃ q, Tracks r.stack r.current r.equals q ∧ (q = place r.stack ∨ r.rest = [] ∧ r.stack ≠ [])
  tokens : ∀ t ∈ r.tokens, t.WellFormed

variable {r r' : Reader} {cs : List Char}

lemma valid_start (text : List Char) : Valid text (start text) where
  rest := List.suffix_rfl
  nests := nests_nil
  stands := ⟨.outside, tracks_nil, .inl rfl⟩
  tokens := by simp [start]

lemma Valid.firstEquals (h : Valid text r) : FirstEquals r.current.reverse r.equals := by
  obtain ⟨q, htracks, -⟩ := h.stands
  exact htracks.equals

lemma Valid.finish (h : Valid text r) (hstack : r.stack = []) : Valid text r.finish := by
  simp only [Reader.finish]
  split
  · exact h
  · next hne =>
    rw [List.isEmpty_iff] at hne
    refine ⟨h.rest, h.nests, ⟨.outside, ?_, .inl ?_⟩,
      List.forall_mem_cons.2 ⟨⟨by simpa using hne, h.firstEquals⟩, h.tokens⟩⟩
    · rw [hstack]
      exact tracks_nil
    · rw [hstack]
      rfl

theorem Valid.step (h : Valid text r) (hrest : r.rest = c :: cs) (hstep : r.step c cs = .ok r') :
    Valid text r' := by
  have hsuffix : r'.rest <:+ text :=
    (rest_suffix_of_step hstep).trans ((List.suffix_cons c cs).trans (hrest ▸ h.rest))
  have htracks : Tracks r.stack r.current r.equals (place r.stack) := by
    obtain ⟨q, htracks, rfl | ⟨hend, -⟩⟩ := h.stands
    · exact htracks
    · simp [hrest] at hend
  have hnests := h.nests
  cases moves_of_step hstep with
  | @quoted mark below hstack hc =>
    rw [hstack] at hnests htracks
    obtain ⟨hkinds, hplace, -⟩ := Frame.place_within hnests.onTop hc
    have hwithin := htracks.within (by simp [place]) c
    rw [← hstack] at hkinds hplace
    refine ⟨hsuffix, ?_, ⟨_, ⟨?_, hwithin.quotes, hwithin.equals⟩, .inl hplace.symm⟩, h.tokens⟩
    · dsimp only
      split
      · exact hnests.tail
      · exact h.nests
    · rw [hwithin.brackets, hkinds]
      rfl
  | @escaped mark d below ds hstack hc hcs =>
    rw [hstack] at htracks
    have hwithin := htracks.within (by simp [place]) c
    have hescaped : (place (.quote mark :: below)).next c = .escaped mark := by rw [hc]; rfl
    rw [hescaped] at hwithin
    have hboth := hwithin.within (by simp) d
    rw [← hstack] at hboth
    exact ⟨hsuffix, hnests, ⟨_, hboth, .inl (by rw [hstack]; rfl)⟩, h.tokens⟩
  -- the backslash waits for a character that does not come
  | @cutShort mark below hstack =>
    have hwithin := htracks.within (by simp [hstack, place]) c
    exact ⟨hsuffix, hnests, ⟨_, hwithin, .inr ⟨rfl, by simp [hstack]⟩⟩, h.tokens⟩
  | comment => exact ⟨hsuffix, hnests, ⟨_, htracks, .inl rfl⟩, h.tokens⟩
  | blank hstack =>
    have hadvance : (r.advance c cs).rest <:+ text := by rwa [rest_finish] at hsuffix
    exact Valid.finish ⟨hadvance, hnests, ⟨_, htracks, .inl rfl⟩, h.tokens⟩ hstack
  | joins hstack hskip haccepts =>
    rw [Frame.place_of_outside hstack] at htracks
    exact ⟨hsuffix, haccepts.nests hstack hnests,
      ⟨_, htracks.joins hstack hnests.onTop haccepts, .inl rfl⟩, h.tokens⟩

lemma valid_of_reaches (h : Reaches (start text) r) : Valid text r :=
  h.keeps Valid.step (valid_start text)

end Reader

open Reader (Reaches Valid start)

lemma wellFormed_of_ofText {tokens : List Token} (h : ofText text = .ok tokens) :
    ∀ t ∈ tokens, t.WellFormed := by
  obtain ⟨last, hreaches, -, hstack, rfl⟩ := Reader.exists_reaches_of_run h
  simpa using ((Reader.valid_of_reaches hreaches).finish hstack).tokens

/-- Whatever the text, every state that its reader comes to is valid and knows the first equals sign of the
token at hand, every step reads on, and every token is well formed and can be cut at the offset of its
equals sign, in front of the sign and behind it. -/
theorem reader_invariant (text : List Char) :
    (∀ r, Reaches (start text) r → Valid text r ∧ FirstEquals r.current.reverse r.equals ∧
      ∀ c cs r', r.rest = c :: cs → r.step c cs = .ok r' → r'.rest <:+ cs) ∧
    ∀ tokens, ofText text = .ok tokens → ∀ t ∈ tokens, t.WellFormed ∧
      ∀ n, t.equals = some n → t.text = takeBytes n t.text ++ '=' :: dropBytes (n + 1) t.text ∧
        bytes (takeBytes n t.text) = n := by
  refine ⟨fun r hr => ?_, fun tokens htokens t ht => ?_⟩
  · have hvalid := Reader.valid_of_reaches hr
    exact ⟨hvalid, hvalid.firstEquals, fun c cs r' _ => Reader.rest_suffix_of_step⟩
  · have hformed := wellFormed_of_ofText htokens t ht
    exact ⟨hformed, fun n hn => (hn ▸ hformed.equals).cut⟩

/-- A state with two brackets open behind a character of two bytes, and three tokens with equals signs in
quotes, in brackets and behind an apostrophe. -/
theorem reader_invariant_three_tokens :
    let text := "// =\nké='=é' ([=],a)=\"ü\\\"=\" don't=1".toList
    let tokens : List Token := [⟨"ké='=é'".toList, some 3⟩, ⟨"([=],a)=\"ü\\\"=\"".toList, some 7⟩,
      ⟨"don't=1".toList, some 5⟩]
    (∃ r, Reaches (start "é[(".toList) r ∧ r.stack = [.bracket .round 2, .bracket .square 1] ∧
      Valid "é[(".toList r) ∧
    ofText text = .ok tokens ∧ (∀ t ∈ tokens, t.WellFormed) ∧
      dropBytes 8 "([=],a)=\"ü\\\"=\"".toList = "\"ü\\\"=\"".toList := by
  intro text tokens
  have hreaches : Reaches (start "é[(".toList)
      ⟨[], [.bracket .round 2, .bracket .square 1], "([é".toList, none, false, []⟩ :=
    .step rfl rfl (.step rfl rfl (.step rfl rfl .refl))
  have hok : ofText text = .ok tokens := by decide +kernel
  exact ⟨⟨_, hreaches, rfl, ((reader_invariant _).1 _ hreaches).1⟩, hok,
    fun t ht => ((reader_invariant text).2 tokens hok t ht).1, by decide⟩

end Token

end CommentBlocks
