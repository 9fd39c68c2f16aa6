import CommentBlocks.Proofs.Argument.Stepping

/-!
What the reader of tokens makes of the text of a token: the quotes and brackets that are open along it.
The text of every token is passed from nothing open to nothing open, and so is the text behind its first
equals sign.
-/

namespace CommentBlocks

open Text (isQuote bytes)

namespace Token.Reader

/-- The text joins a token behind the text at hand, which is given back to front, and takes the open
frames from the ones to the others. -/
inductive Passes : List Frame → List Char → List Char → List Frame → Prop
  | nil {stack : List Frame} {current : List Char} : Passes stack current [] stack
  | quoted {mark c : Char} {below stack' : List Frame} {current text : List Char} (hc : c ≠ '\\')
      (h : Passes (if c = mark then below else .quote mark :: below) (c :: current) text stack') :
      Passes (.quote mark :: below) current (c :: text) stack'
  | escaped {mark c : Char} {below stack' : List Frame} {current text : List Char}
      (h : Passes (.quote mark :: below) (c :: '\\' :: current) text stack') :
      Passes (.quote mark :: below) current ('\\' :: c :: text) stack'
  | joins {c : Char} {equals equals' : Option Nat} {stack stack₁ stack' : List Frame}
      {current text : List Char} (hstack : Outside stack)
      (haccepts : Accepts stack current equals c stack₁ equals')
      (h : Passes stack₁ (c :: current) text stack') : Passes stack current (c :: text) stack'

lemma Passes.trans {stack stack₁ stack' : List Frame} {current a b : List Char}
    (ha : Passes stack current a stack₁) (hb : Passes stack₁ (a.reverse ++ current) b stack') :
    Passes stack current (a ++ b) stack' := by
  induction ha with
  | nil => exact hb
  | quoted hc _ ih => exact .quoted hc (ih (by simpa using hb))
  | escaped _ ih => exact .escaped (ih (by simpa using hb))
  | joins hstack haccepts _ ih => exact .joins hstack haccepts (ih (by simpa using hb))

/-- The token at hand has been passed, and so has what stands behind its equals sign. -/
structure Passed (r : Reader) : Prop where
  text : Passes [] [] r.current.reverse r.stack
  argument : ∀ n, r.equals = some n → ∃ key tail, r.current.reverse = key ++ '=' :: tail ∧
    bytes key = n ∧ Passes [] ('=' :: key.reverse) tail r.stack

end Token.Reader

open Token.Reader (Passes Passed)

/-- From nothing open the token leads to nothing open, and so does what stands behind its equals
sign. -/
structure Token.Closed (t : Token) : Prop where
  text : Passes [] [] t.text []
  argument : ∀ n, t.equals = some n → ∃ key tail, t.text = key ++ '=' :: tail ∧ bytes key = n ∧
    Passes [] ('=' :: key.reverse) tail []

namespace Token.Reader

structure Closing (r : Reader) : Prop where
  current : Passed r
  tokens : ∀ t ∈ r.tokens, t.Closed

variable {r r' : Reader} {c : Char} {cs : List Char}

lemma Passed.extend (h : Passed r) (text : List Char) (hcurrent : r'.current = text.reverse ++ r.current)
    (hpasses : Passes r.stack r.current text r'.stack)
    (hequals : r'.equals = r.equals ∨
      text = ['='] ∧ r.stack = [] ∧ r'.stack = [] ∧ r'.equals = some (bytes r.current)) :
    Passed r' where
  text := by
    have hsplit : r'.current.reverse = r.current.reverse ++ text := by simp [hcurrent]
    rw [hsplit]
    exact h.text.trans (by simpa using hpasses)
  argument := by
    intro n hn
    rcases hequals with hsame | ⟨rfl, hstack, hstack', hsome⟩
    · obtain ⟨key, tail, htext, hbytes, htail⟩ := h.argument n (hsame ▸ hn)
      refine ⟨key, tail ++ text, by simp [hcurrent, htext], hbytes, htail.trans ?_⟩
      have hback : tail.reverse ++ '=' :: key.reverse = r.current := by
        simpa using (congrArg List.reverse htext).symm
      rwa [hback]
    · refine ⟨r.current.reverse, [], by simp [hcurrent], ?_, by rw [hstack']; exact .nil⟩
      rw [Text.bytes_reverse]
      exact Option.some.inj (hsome.symm.trans hn)

lemma Closing.closed (h : Closing r) (hstack : r.stack = []) :
    Token.Closed ⟨r.current.reverse, r.equals⟩ where
  text := by
    have htext := h.current.text
    rwa [hstack] at htext
  argument := by
    intro n hn
    obtain ⟨key, tail, htext, hbytes, htail⟩ := h.current.argument n hn
    rw [hstack] at htail
    exact ⟨key, tail, htext, hbytes, htail⟩

lemma Closing.finish (h : Closing r) (hstack : r.stack = []) : Closing r.finish := by
  simp only [Reader.finish]
  split
  · exact h
  · exact ⟨⟨by rw [hstack]; exact .nil, by simp⟩,
      List.forall_mem_cons.2 ⟨h.closed hstack, h.tokens⟩⟩

/-- A step keeps what holds, unless the text ends after a backslash in quotes. -/
theorem Closing.step (h : Closing r) (hstep : r.step c cs = .ok r') :
    Closing r' ∨ r'.rest = [] ∧ r'.stack ≠ [] := by
  cases moves_of_step hstep with
  | @quoted mark below hstack hc =>
    refine .inl ⟨h.current.extend [c] rfl ?_ (.inl rfl), h.tokens⟩
    dsimp only
    rw [hstack]
    exact .quoted hc .nil
  | @escaped mark d below ds hstack hc =>
    refine .inl ⟨h.current.extend [c, d] rfl ?_ (.inl rfl), h.tokens⟩
    dsimp only
    rw [hstack, hc]
    exact .escaped .nil
  | cutShort hstack => exact .inr ⟨rfl, by simp [hstack]⟩
  | comment => exact .inl ⟨⟨h.current.text, h.current.argument⟩, h.tokens⟩
  | blank hstack =>
    exact .inl (Closing.finish (r := r.advance c cs) ⟨⟨h.current.text, h.current.argument⟩, h.tokens⟩
      hstack)
  | joins hstack hskip haccepts =>
    refine .inl ⟨h.current.extend [c] rfl (.joins hstack haccepts .nil) ?_, h.tokens⟩
    cases haccepts with
    | openQuote | openBracket | closeBracket | put => exact .inl rfl
    | equalsSign hc hnil => exact .inr ⟨by rw [hc], hnil, hnil, rfl⟩

end Token.Reader

theorem Token.closed_of_ofText {text : List Char} {tokens : List Token}
    (h : Token.ofText text = .ok tokens) : ∀ t ∈ tokens, t.Closed := by
  have hstart : Reader.Closing (Reader.start text) :=
    ⟨⟨.nil, by simp [Reader.start]⟩, by simp [Reader.start]⟩
  exact Reader.run_keeps (P := Reader.Closing) (fun hclosing _ hstep => hclosing.step hstep)
    (fun hclosing hstack => (hclosing.finish hstack).tokens) hstart h

end CommentBlocks
