import CommentBlocks.Proofs.Argument.Commented
import CommentBlocks.Proofs.Value.Grammar

/-!
Layout of pairs does not matter: white space before and after an equals sign, or none, and any white
space between two pairs give the same options. A value that is one token of its own is read alike behind
other text, so that a pair is cut into its tokens in each of its spellings, and these set its key.
-/

namespace CommentBlocks

open Unicode (isBlank)
open Text (isQuote bytes)
open Relaxed (Blanks)

namespace Token.Reader

variable {r r' : Reader} {c : Char} {cs tail below current : List Char} {lineBlank : Bool}

/-! ### A text that is one token of its own -/

/-- All that is left is read as the rest of the token at hand, which has no equals sign of its own. -/
def ReadsOn (r : Reader) : Prop :=
  r.run = .ok (r.tokens.reverse ++ [⟨r.current.reverse ++ r.rest, none⟩])

lemma ReadsOn.length_le (h : ReadsOn r) (hrest : r.rest = c :: cs) (hstep : r.step c cs = .ok r') :
    r.held.length ≤ r'.held.length := by
  have hle := (tokens_sublist ((run_of_step hrest hstep).symm.trans h)).length_le
  simpa [held] using hle

lemma ReadsOn.step (h : ReadsOn r) (hrest : r.rest = c :: cs) (hstep : r.step c cs = .ok r')
    (htokens : r'.tokens = r.tokens)
    (htext : r'.current.reverse ++ r'.rest = r.current.reverse ++ c :: cs) : ReadsOn r' := by
  rw [ReadsOn, htokens, htext, ← hrest, ← run_of_step hrest hstep]
  exact h

/-- Behind other text the same joins the token at hand, an equals sign apart. -/
lemma Accepts.behind {stack stack' : List Frame} (h : Accepts stack current none c stack' none)
    (hopens : opensQuotes (current ++ below) = opensQuotes current) (equals : Option Nat) :
    Accepts stack (current ++ below) equals c stack' equals := by
  generalize hequals : (none : Option Nat) = equals' at h
  cases h with
  | openQuote hquote hboundary hdeep => exact .openQuote hquote (hopens.trans hboundary) hdeep
  | openBracket hopen hdeep => exact .openBracket hopen hdeep
  | closeBracket hclose hstack htop => exact .closeBracket hclose hstack htop
  | equalsSign => simp at hequals
  | put hblank hquote hopen hclose hsign =>
    refine .put hblank (hquote.imp_right hopens.trans) hopen hclose ?_
    exact hsign.imp_right fun hor => .inl (hor.resolve_right (by simp [← hequals]))

/-- Behind a slash this begins no comment. -/
def Ends (tail : List Char) : Prop := tail.head? ≠ some '/' ∧ tail.head? ≠ some '*'

/-- The rest of the token is read alike behind other text, and has no equals sign. -/
def ReadsBehind (r : Reader) : Prop :=
  r.equals = none ∧ ∃ lineBlank, ∀ tail below equals tokens, Ends tail →
    (⟨r.rest ++ tail, r.stack, r.current ++ below, equals, r.lineBlank, tokens⟩ : Reader).run =
      (⟨tail, [], r.rest.reverse ++ (r.current ++ below), equals, lineBlank, tokens⟩ : Reader).run

/-- What one step reads alike goes in front of it. -/
lemma ReadsBehind.extend (h : ReadsBehind r') (hequals : r'.equals = none → r.equals = none)
    (text : List Char) (hrest : r.rest = text ++ r'.rest)
    (hcurrent : r'.current = text.reverse ++ r.current)
    (hrun : ∀ tail below equals tokens, Ends tail →
      (⟨text ++ (r'.rest ++ tail), r.stack, r.current ++ below, equals, r.lineBlank, tokens⟩ :
        Reader).run =
      (⟨r'.rest ++ tail, r'.stack, text.reverse ++ (r.current ++ below), equals, r'.lineBlank,
        tokens⟩ : Reader).run) : ReadsBehind r := by
  obtain ⟨hnone, lineBlank, hreads⟩ := h
  refine ⟨hequals hnone, lineBlank, fun tail below equals tokens htail => ?_⟩
  have hrest' := hreads tail below equals tokens htail
  rw [hcurrent, List.append_assoc] at hrest'
  rw [hrest, List.append_assoc, hrun tail below equals tokens htail, hrest', List.reverse_append,
    List.append_assoc]

lemma run_joins_behind {stack stack' : List Frame} (hstack : Outside stack)
    (haccepts : Accepts stack current none c stack' none)
    (hopens : opensQuotes (current ++ below) = opensQuotes current)
    (hhash : lineBlank = false ∨ c ≠ '#')
    (hslash : c = '/' → opensComment (current ++ below) = true →
      cs.head? ≠ some '/' ∧ cs.head? ≠ some '*')
    (htail : Ends tail) (equals : Option Nat) (tokens : List Token) :
    (⟨c :: (cs ++ tail), stack, current ++ below, equals, lineBlank, tokens⟩ : Reader).run =
      (⟨cs ++ tail, stack', c :: (current ++ below), equals, c == '\n' || (isBlank c && lineBlank),
        tokens⟩ : Reader).run := by
  refine run_joins hstack (haccepts.behind hopens equals) hhash ?_ tokens
  rintro ⟨-, below', hcons, hcomment⟩
  obtain ⟨rfl, rfl⟩ := List.cons.inj hcons
  cases cs with
  | nil => exact htail
  | cons d ds => exact hslash rfl hcomment

/-- What is read as the rest of the token by itself is so behind other text. -/
theorem ReadsOn.readsBehind (h : ReadsOn r) (hne : r.current ≠ []) : ReadsBehind r := by
  obtain ⟨last, hreaches, hend, hclosed, -⟩ := exists_reaches_of_run h
  induction hreaches with
  | @refl r =>
    have hequals := (run_of_nil hend hclosed).symm.trans h
    rw [finish_eq hne] at hequals
    refine ⟨by simpa [hend] using hequals, r.lineBlank, fun tail below equals tokens _ => ?_⟩
    simp [hend, hclosed]
  | @step r r' last c cs hrest hstep _ ih =>
    have hle := h.length_le hrest hstep
    cases moves_of_step hstep with
    | quoted hstack hc =>
      have hreads := ih (h.step hrest hstep rfl (by simp)) (by simp) hend hclosed
      refine hreads.extend id [c] hrest rfl fun tail below equals tokens _ => ?_
      exact run_of_step rfl (by simp [Reader.step, stepQuoted, hstack, hc])
    | @escaped mark d below ds hstack hc hcs =>
      have hreads := ih (h.step hrest hstep rfl (by simp [hcs])) (by simp) hend hclosed
      refine hreads.extend id [c, d] (hrest.trans (by rw [hcs]; rfl)) rfl
        fun tail below equals tokens _ => ?_
      exact run_of_step rfl (by simp [Reader.step, stepQuoted, hstack, hc])
    | cutShort hstack =>
      obtain ⟨fault, hfault⟩ := run_of_open (r := { r with rest := [], current := c :: r.current }) rfl
        (by simp [hstack])
      exact absurd (hfault.symm.trans ((run_of_step hrest hstep).symm.trans h)) (by simp)
    -- a comment or a blank would leave out some of the text, which is all in the token
    | comment hstack hskip =>
      have := length_skipComment? hskip
      simp only [held, hrest, List.length_append, List.length_cons] at hle
      omega
    | blank hstack hblank =>
      rw [held_finish] at hle
      simp only [held, hrest, advance, List.length_append, List.length_cons] at hle
      omega
    | @joins stack' equals' hstack hskip haccepts =>
      have hreads := ih (h.step hrest hstep rfl (by simp [advance])) (by simp) hend hclosed
      obtain ⟨hhash, hslash⟩ := skipComment?_eq_none_iff.1 hskip
      have hnone : r.equals = none := by
        rcases haccepts.equals_eq with hsame | ⟨-, -, hnone, -⟩
        · exact hsame.symm.trans hreads.1
        · exact hnone
      obtain rfl : equals' = none := hreads.1
      rw [hnone] at haccepts
      obtain ⟨d, ds, hcurrent⟩ := List.exists_cons_of_ne_nil hne
      refine hreads.extend (fun _ => hnone) [c] hrest rfl fun tail below equals tokens htail => ?_
      refine run_joins_behind hstack haccepts ?_ hhash (fun hc hcomment => hslash hc ?_) htail equals
        tokens
      · rw [hcurrent]; rfl
      · rw [hcurrent] at hcomment ⊢; exact hcomment

/-! ### Blanks between tokens -/

lemma run_blanks {gap : List Char} (hgap : Blanks gap) (rest : List Char) (lineBlank : Bool)
    (tokens : List Token) : ∃ lineBlank',
      (⟨gap ++ rest, [], [], none, lineBlank, tokens⟩ : Reader).run =
        (⟨rest, [], [], none, lineBlank', tokens⟩ : Reader).run := by
  induction gap generalizing lineBlank with
  | nil => exact ⟨lineBlank, rfl⟩
  | cons c gap ih =>
    obtain ⟨hc, hgap⟩ := List.forall_mem_cons.1 hgap
    rw [List.cons_append, run_blank hc]
    exact ih hgap _

lemma run_gap {gap : List Char} (hgap : Blanks gap) (rest : List Char) (hends : gap = [] → rest = [])
    (hne : current ≠ []) (equals : Option Nat) (lineBlank : Bool) (tokens : List Token) :
    ∃ lineBlank', (⟨gap ++ rest, [], current, equals, lineBlank, tokens⟩ : Reader).run =
      (⟨rest, [], [], none, lineBlank', ⟨current.reverse, equals⟩ :: tokens⟩ : Reader).run := by
  cases gap with
  | nil =>
    obtain rfl := hends rfl
    refine ⟨lineBlank, ?_⟩
    rw [List.nil_append, run_of_nil rfl rfl, run_of_nil rfl rfl, finish_eq hne]
    rfl
  | cons c gap =>
    obtain ⟨hc, hgap⟩ := List.forall_mem_cons.1 hgap
    rw [List.cons_append, run_blank hc, finish_eq hne]
    exact run_blanks hgap rest _ _

end Token.Reader

namespace Options

open Token (Reader)
open Token.Reader (opensQuotes Ends)

/-! ### Arguments -/

/-- The text of a value that is one token of its own without an equals sign, starts neither with a slash
nor with a hash, and is not made of commas only. -/
structure IsArgument (raw : List Char) : Prop where
  token : Token.ofText raw = .ok [⟨raw, none⟩]
  first : ∀ c ∈ raw.head?, c ≠ '/' ∧ c ≠ '#'
  counts : raw.all (· == ',') = false

lemma IsArgument.ne_nil {raw : List Char} (h : IsArgument raw) : raw ≠ [] := by
  rintro rfl
  exact absurd h.counts (by decide)

/-- An argument joins the token at hand as it is, wherever quotes can open. -/
lemma IsArgument.run {raw below : List Char} (h : IsArgument raw) (hopens : opensQuotes below = true) :
    ∃ lineBlank', ∀ tail equals lineBlank tokens, Ends tail →
      (⟨raw ++ tail, [], below, equals, lineBlank, tokens⟩ : Reader).run =
        (⟨tail, [], raw.reverse ++ below, equals, lineBlank', tokens⟩ : Reader).run := by
  have hreads : Reader.ReadsOn (Reader.start raw) := h.token
  obtain ⟨c, cs, rfl⟩ := List.exists_cons_of_ne_nil h.ne_nil
  obtain ⟨hslash, hhash⟩ := h.first c rfl
  cases hstep : (Reader.start (c :: cs)).step c cs with
  | error fault => exact absurd ((Reader.run_of_error rfl hstep).symm.trans hreads) (by simp)
  | ok r' =>
    cases Reader.moves_of_step hstep with
    | quoted hstack | escaped hstack | cutShort hstack => simp [Reader.start] at hstack
    | comment hstack hskip =>
      have hnone : (Reader.start (c :: cs)).skipComment? c cs = none :=
        Reader.skipComment?_eq_none_iff.2 ⟨.inr hhash, fun hc => absurd hc hslash⟩
      simp [hnone] at hskip
    | blank hstack hblank =>
      have hle := hreads.length_le rfl hstep
      rw [Reader.held_finish] at hle
      simp [Reader.held, Reader.start, Reader.advance] at hle
    | @joins stack' equals' hstack hskip haccepts =>
      have hline := Reader.lineBlank_eq_false (haccepts.not_isBlank rfl)
      obtain ⟨hequals, lineBlank', hrun⟩ :=
        (hreads.step rfl hstep rfl (by simp [Reader.start, Reader.advance])).readsBehind (by simp)
      obtain rfl : equals' = none := hequals
      refine ⟨lineBlank', fun tail equals lineBlank tokens htail => ?_⟩
      have haccepts' : Token.Reader.Accepts [] below equals c stack' equals :=
        haccepts.behind hopens equals
      have hrest := hrun tail below equals tokens htail
      simp only [Reader.start, Reader.advance, hline] at hrest
      rw [List.cons_append, Reader.run_joins Reader.outside_nil haccepts' (.inr hhash)
        (Reader.follows_of_ne hslash), hline]
      simpa using hrest

lemma IsArgument.run_gap {raw : List Char} (h : IsArgument raw) {below : List Char}
    (hopens : opensQuotes below = true) {gap : List Char} (hgap : Blanks gap) (rest : List Char)
    (hends : gap = [] → rest = []) (equals : Option Nat) (lineBlank : Bool) (tokens : List Token) :
    ∃ lineBlank',
      (⟨raw ++ (gap ++ rest), [], below, equals, lineBlank, tokens⟩ : Reader).run =
        (⟨rest, [], [], none, lineBlank', ⟨below.reverse ++ raw, equals⟩ :: tokens⟩ : Reader).run := by
  have htail : Ends (gap ++ rest) := by
    cases gap with
    | nil => simp [hends rfl, Ends]
    | cons c gap =>
      have hc := (List.forall_mem_cons.1 hgap).1
      constructor <;> rintro hhead <;> obtain rfl := Option.some.inj hhead <;>
        exact absurd hc (by decide)
  obtain ⟨lineBlank₁, hrun⟩ := h.run hopens
  have hne : raw.reverse ++ below ≠ [] := by simp [h.ne_nil]
  obtain ⟨lineBlank₂, hrun'⟩ := Reader.run_gap hgap rest hends hne equals lineBlank₁ tokens
  exact ⟨lineBlank₂, by rw [hrun _ _ _ _ htail, hrun']; simp⟩

/-! ### Pairs -/

structure Entry where
  key : List Char
  before : List Char
  after : List Char
  raw : List Char

namespace Entry

def text (e : Entry) : List Char := e.key ++ (e.before ++ '=' :: (e.after ++ e.raw))

def setting (e : Entry) : String × Value := (String.ofList e.key, Coerce.value e.raw)

/-- The key is a plain one, the value is an argument of its own, and between them are only blanks. -/
structure Plain (e : Entry) : Prop where
  key : PlainKey e.key
  before : Blanks e.before
  after : Blanks e.after
  raw : IsArgument e.raw

/-- What stands in front of the equals sign in its token: the key, unless blanks end that before. -/
def front (e : Entry) : List Char := if e.before.isEmpty then e.key else []

def keyTokens (e : Entry) : List Token := if e.before.isEmpty then [] else [⟨e.key, none⟩]

def valueTokens (e : Entry) : List Token :=
  if e.after.isEmpty then [⟨e.front ++ '=' :: e.raw, some (bytes e.front)⟩]
  else [⟨e.front ++ ['='], some (bytes e.front)⟩, ⟨e.raw, none⟩]

def tokens (e : Entry) : List Token := e.keyTokens ++ e.valueTokens

variable {e : Entry}

lemma Plain.run_sign (h : e.Plain) (rest : List Char) (lineBlank : Bool) (tokens : List Token) :
    (⟨e.key ++ (e.before ++ '=' :: rest), [], [], none, lineBlank, tokens⟩ : Reader).run =
      (⟨rest, [], '=' :: e.front.reverse, some (bytes e.front), false, e.keyTokens.reverse ++ tokens⟩ :
        Reader).run := by
  rw [h.key.run]
  by_cases hbefore : e.before = []
  · rw [hbefore, List.nil_append, Reader.run_equals]
    simp [front, keyTokens, hbefore]
  · have hne : e.key.reverse ≠ [] := by simpa using h.key.ne_nil
    obtain ⟨lineBlank', hrun⟩ := Reader.run_gap h.before ('=' :: rest)
      (fun hnil => absurd hnil hbefore) hne none false tokens
    rw [hrun, Reader.run_equals]
    simp [front, keyTokens, hbefore]

lemma Plain.run_value (h : e.Plain) {gap rest : List Char} (hgap : Blanks gap)
    (hends : gap = [] → rest = []) (lineBlank : Bool) (tokens : List Token) : ∃ lineBlank',
      (⟨e.after ++ (e.raw ++ (gap ++ rest)), [], '=' :: e.front.reverse, some (bytes e.front), lineBlank,
        tokens⟩ : Reader).run =
      (⟨rest, [], [], none, lineBlank', e.valueTokens.reverse ++ tokens⟩ : Reader).run := by
  have hopens : opensQuotes ('=' :: e.front.reverse) = true := rfl
  by_cases hafter : e.after = []
  · obtain ⟨lineBlank', hrun⟩ := h.raw.run_gap hopens hgap rest hends (some (bytes e.front)) lineBlank
      tokens
    refine ⟨lineBlank', ?_⟩
    rw [hafter, List.nil_append, hrun]
    simp [valueTokens, hafter]
  · obtain ⟨lineBlank₁, hsign⟩ := Reader.run_gap h.after (e.raw ++ (gap ++ rest))
      (fun hnil => absurd hnil hafter) (List.cons_ne_nil '=' e.front.reverse) (some (bytes e.front))
      lineBlank tokens
    have hbetween : opensQuotes [] = true := rfl
    obtain ⟨lineBlank₂, hrun⟩ := h.raw.run_gap hbetween hgap rest hends none lineBlank₁
      (⟨e.front ++ ['='], some (bytes e.front)⟩ :: tokens)
    refine ⟨lineBlank₂, ?_⟩
    simp only [List.reverse_cons, List.reverse_reverse, List.reverse_nil, List.nil_append] at hsign hrun
    rw [hsign, hrun]
    simp [valueTokens, hafter]

lemma Plain.run (h : e.Plain) {gap rest : List Char} (hgap : Blanks gap) (hends : gap = [] → rest = [])
    (lineBlank : Bool) (tokens : List Token) : ∃ lineBlank',
      (⟨e.text ++ (gap ++ rest), [], [], none, lineBlank, tokens⟩ : Reader).run =
        (⟨rest, [], [], none, lineBlank', e.tokens.reverse ++ tokens⟩ : Reader).run := by
  obtain ⟨lineBlank', hvalue⟩ := h.run_value hgap hends false (e.keyTokens.reverse ++ tokens)
  refine ⟨lineBlank', ?_⟩
  have htext : e.text ++ (gap ++ rest) =
      e.key ++ (e.before ++ '=' :: (e.after ++ (e.raw ++ (gap ++ rest)))) := by simp [text]
  rw [htext, h.run_sign, hvalue, Entry.tokens, List.reverse_append, List.append_assoc]

/-! ### What the tokens set -/

/-- Behind the tokens in front of it, the token with the equals sign sets the key, or lets it wait for a
value. -/
lemma Plain.push_sign (h : e.Plain) (raw : List Char) (options : Options) :
    (e.keyTokens.foldl Gathering.push ⟨options, none⟩).push
        ⟨e.front ++ '=' :: raw, some (bytes e.front)⟩ =
      if raw.isEmpty then ⟨options, some ⟨e.key, true⟩⟩
      else ⟨options.insert (String.ofList e.key) (Coerce.value raw), none⟩ := by
  have hkey := h.key.isKeyText
  by_cases hbefore : e.before = []
  · simp only [front, keyTokens, hbefore, List.isEmpty_nil, if_true, List.foldl_nil]
    exact Gathering.push_pair hkey raw options
  · have hempty : e.before.isEmpty = false := by simpa using hbefore
    have hcounts := counts_plain h.key.ne_nil h.key.plain
    have hwait : (⟨options, none⟩ : Gathering).push ⟨e.key, none⟩ = ⟨options, some ⟨e.key, false⟩⟩ := by
      simp [Gathering.push, hcounts]
    simp only [front, keyTokens, hempty, Bool.false_eq_true, if_false, List.foldl_cons, List.foldl_nil,
      hwait]
    simp [Gathering.push, Gathering.commit, hkey.trimmed, hkey.isKey]

lemma Plain.push (h : e.Plain) (options : Options) :
    e.tokens.foldl Gathering.push ⟨options, none⟩ =
      ⟨options.insert (String.ofList e.key) (Coerce.value e.raw), none⟩ := by
  have hraw : e.raw.isEmpty = false := by simpa using h.raw.ne_nil
  rw [Entry.tokens, List.foldl_append]
  by_cases hafter : e.after = []
  · simp only [valueTokens, hafter, List.isEmpty_nil, if_true, List.foldl_cons, List.foldl_nil,
      h.push_sign, hraw, Bool.false_eq_true, if_false]
  · have hempty : e.after.isEmpty = false := by simpa using hafter
    have hkey := h.key.isKeyText
    simp only [valueTokens, hempty, Bool.false_eq_true, if_false, List.foldl_cons, List.foldl_nil,
      h.push_sign, List.isEmpty_nil, if_true]
    simp [Gathering.push, h.raw.counts, Gathering.commit, hkey.trimmed, hkey.isKey]

end Entry

/-! ### Layouts -/

/-- The text holds the pairs one after the other, with blanks in between. -/
inductive Lays : List Entry → List Char → Prop
  | nil : Lays [] []
  | cons {e : Entry} {es : List Entry} {rest : List Char} (he : e.Plain) (gap : List Char)
      (hgap : Blanks gap) (hne : es ≠ [] → gap ≠ []) (h : Lays es rest) :
      Lays (e :: es) (e.text ++ (gap ++ rest))

variable {entries : List Entry} {body : List Char}

lemma Lays.run (h : Lays entries body) (lineBlank : Bool) (tokens : List Token) :
    (⟨body, [], [], none, lineBlank, tokens⟩ : Reader).run =
      .ok (tokens.reverse ++ entries.flatMap Entry.tokens) := by
  induction h generalizing lineBlank tokens with
  | nil => rw [Reader.run_of_nil rfl rfl]; simp [Reader.finish]
  | @cons e es rest he gap hgap hne h ih =>
    have hends : gap = [] → rest = [] := by
      intro hnil
      obtain rfl : es = [] := by
        by_contra hes
        exact hne hes hnil
      cases h
      rfl
    obtain ⟨lineBlank', hrun⟩ := he.run hgap hends lineBlank tokens
    rw [hrun, ih]
    simp

lemma Lays.push (h : Lays entries body) (options : Options) :
    (entries.flatMap Entry.tokens).foldl Gathering.push ⟨options, none⟩ =
      ⟨Fields.insertAll options (entries.map Entry.setting), none⟩ := by
  induction h generalizing options with
  | nil => rfl
  | cons he _ _ _ _ ih =>
    rw [List.flatMap_cons, List.foldl_append, he.push, ih]
    rfl

/-- However pairs are laid out, each key has the value that stands behind it last. -/
theorem parse_of_lays {lead : List Char} (hlead : Blanks lead) (h : Lays entries body) :
    ∃ options, parse (String.ofList (lead ++ body)) = .ok options ∧
      Fields.Collects (entries.map Entry.setting) options := by
  refine ⟨Fields.ofList (entries.map Entry.setting), ?_, Fields.collects_ofList _⟩
  obtain ⟨lineBlank, hrun⟩ := Reader.run_blanks hlead body true []
  have htokens : Token.ofText (lead ++ body) = .ok (entries.flatMap Entry.tokens) := by
    rw [Token.ofText, Reader.start, hrun, h.run]
    rfl
  have hoptions : ofTokens (entries.flatMap Entry.tokens) =
      Fields.ofList (entries.map Entry.setting) := by
    rw [ofTokens, Gathering.start, h.push []]
    rfl
  rw [parse, String.toList_ofList, ofText, htokens, Except.map, hoptions]

/-- One pair in each spelling, the third one with the key of the first, over several lines. -/
theorem parse_of_lays_four_pairs :
    let entries : List Entry := [⟨['a'], [], [], ['1']⟩,
      ⟨['b'], [' '], ['\n'], "[x,\n 'y=z']".toList⟩, ⟨['a'], [], [' '], ['2']⟩,
      ⟨['c'], [' '], [], "\x7bk: v\x7d".toList⟩]
    let options : Options := [("a", .int 2), ("b", .array [.string "x", .string "y=z"]),
      ("c", .object [("k", .string "v")])]
    Lays entries "a=1 b =\n[x,\n 'y=z'] a= 2\n c =\x7bk: v\x7d".toList ∧
      parse "\n a=1 b =\n[x,\n 'y=z'] a= 2\n c =\x7bk: v\x7d" = .ok options := by
  intro entries options
  have hblanks : ∀ cs : List Char, cs.all isBlank = true → Blanks cs := by simp [Blanks]
  have hplain : ∀ e ∈ entries, e.Plain := by
    have hparts : ∀ e ∈ entries, isKey e.key = true ∧ e.key.all (!isSpecial ·) = true ∧
        e.before.all isBlank = true ∧ e.after.all isBlank = true := by decide
    have hraws : ∀ e ∈ entries, Token.ofText e.raw = .ok [⟨e.raw, none⟩] ∧
        e.raw.head?.all (fun c => c != '/' && c != '#') = true ∧ e.raw.all (· == ',') = false := by
      decide +kernel
    intro e he
    obtain ⟨hkey, hspecial, hbefore, hafter⟩ := hparts e he
    obtain ⟨htoken, hfirst, hcounts⟩ := hraws e he
    exact ⟨⟨hkey, by simpa using hspecial⟩, hblanks _ hbefore, hblanks _ hafter, htoken,
      by simpa [Option.all_eq_true] using hfirst, hcounts⟩
  have hlays : Lays entries "a=1 b =\n[x,\n 'y=z'] a= 2\n c =\x7bk: v\x7d".toList :=
    .cons (hplain _ (by simp [entries])) [' '] (hblanks _ rfl) (by simp) <|
    .cons (hplain _ (by simp [entries])) [' '] (hblanks _ rfl) (by simp) <|
    .cons (hplain _ (by simp [entries])) ['\n', ' '] (hblanks _ rfl) (by simp) <|
    .cons (hplain _ (by simp [entries])) [] (hblanks _ rfl) (by simp) .nil
  obtain ⟨found, hparse, hcollects⟩ := parse_of_lays (hblanks ['\n', ' '] rfl) hlays
  have hoptions : Fields.ofList (entries.map Entry.setting) = options := by decide +kernel
  rw [hcollects.eq_ofList, hoptions] at hparse
  exact ⟨hlays, hparse⟩

end Options

end CommentBlocks
