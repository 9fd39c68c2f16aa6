import CommentBlocks.Proofs.Argument.Keys

/-!
Options whose first key starts with a hash do not come back from their text: all of it up to the end of
the line is a comment. The tokens are a part of the text and the keys are a part of the tokens, so that
a line break is missing among the keys that are read, if any are.
-/

namespace CommentBlocks

open Text (trimEndBy takeBytes)
open scoped List

namespace Token.Reader

variable {r r' : Reader} {c : Char} {cs : List Char}

/-! ### Tokens are a part of the text -/

/-- All the text that the reader still has: that of the tokens, of the token at hand, and the rest. -/
def held (r : Reader) : List Char :=
  (r.tokens.reverse.map Token.text).flatten ++ (r.current.reverse ++ r.rest)

lemma held_finish (r : Reader) : r.finish.held = r.held := by
  simp only [Reader.finish]
  split
  · rfl
  · simp [held]

private lemma eq_sublist {a b : List Char} (h : a = b) : a <+ b := h ▸ List.Sublist.refl a

/-- A step leaves out comments and blanks, and adds nothing. -/
lemma held_step (hrest : r.rest = c :: cs) (hstep : r.step c cs = .ok r') : r'.held <+ r.held := by
  have hsame : ∀ text tail : List Char, c :: cs = text ++ tail →
      (r.tokens.reverse.map Token.text).flatten ++ ((text.reverse ++ r.current).reverse ++ tail) =
        r.held := by
    intro text tail htext
    simp [held, hrest, htext]
  cases moves_of_step hstep with
  | quoted => exact eq_sublist (hsame [c] cs rfl)
  | escaped hstack hc hcs => exact eq_sublist (hsame [c, _] _ (by rw [hcs]; rfl))
  | cutShort hstack hc hcs => exact eq_sublist (hsame [c] [] (by rw [hcs]; rfl))
  | comment hstack hskip =>
    have hsuffix := (skipComment?_suffix hskip).trans (List.suffix_cons c cs)
    simp only [held, hrest]
    exact (List.Sublist.refl _).append ((List.Sublist.refl _).append hsuffix.sublist)
  | blank =>
    rw [held_finish]
    simp only [held, hrest, advance]
    exact (List.Sublist.refl _).append ((List.Sublist.refl _).append (List.sublist_cons_self c cs))
  | joins => exact eq_sublist (hsame [c] cs rfl)

lemma Reaches.held_sublist (h : Reaches r r') : r'.held <+ r.held := by
  induction h with
  | refl => exact List.Sublist.refl _
  | step hrest hstep _ ih => exact ih.trans (held_step hrest hstep)

theorem tokens_sublist {tokens : List Token} (hrun : r.run = .ok tokens) :
    (tokens.map Token.text).flatten <+ r.held := by
  obtain ⟨last, hreaches, -, -, rfl⟩ := exists_reaches_of_run hrun
  refine List.Sublist.trans ?_ hreaches.held_sublist
  rw [← held_finish]
  exact List.sublist_append_left _ _

end Token.Reader

namespace Options

/-! ### Keys are a part of the tokens -/

def breaks (cs : List Char) : Nat := cs.count '\n'

def keyBreaks (options : Options) : Nat := (options.map fun f => breaks f.1.toList).sum

lemma keyBreaks_insert (k : String) (v : Value) (options : Options) :
    keyBreaks (Fields.insert k v options) ≤ breaks k.toList + keyBreaks options := by
  induction options with
  | nil => simp [Fields.insert, keyBreaks]
  | cons f fs ih =>
    obtain ⟨l, w⟩ := f
    have hcons : ∀ l w (fs : Options), keyBreaks ((l, w) :: fs) = breaks l.toList + keyBreaks fs :=
      fun l w fs => by simp [keyBreaks]
    simp only [Fields.insert]
    split
    · rw [hcons]
    · split
      · rw [hcons, hcons]
        omega
      · rw [hcons, hcons]
        omega

lemma keyText_sublist (text : List Char) : keyText text <+ text := by
  have hend : ∀ (p : Char → Bool) (cs : List Char), trimEndBy p cs <+ cs := fun p cs => by
    have := List.reverse_sublist.2 (List.dropWhile_sublist p (l := cs.reverse))
    simpa [trimEndBy] using this
  exact ((hend _ _).trans (hend _ _)).trans (List.dropWhile_sublist _)

lemma takeBytes_sublist (n : Nat) (cs : List Char) : takeBytes n cs <+ cs := by
  induction cs generalizing n with
  | nil => exact List.Sublist.refl _
  | cons c cs ih =>
    rw [takeBytes]
    split
    · exact List.nil_sublist _
    · exact (ih _).cons_cons c

namespace Gathering

def breaks (g : Gathering) : Nat :=
  keyBreaks g.options + (g.pending.map fun p => Options.breaks p.key).getD 0

lemma keyBreaks_commit (g : Gathering) (key : List Char) (raw : Option (List Char)) :
    keyBreaks (g.commit key raw).options ≤ keyBreaks g.options + Options.breaks key := by
  simp only [Gathering.commit]
  split
  · have hkey : Options.breaks (keyText key) ≤ Options.breaks key :=
      (keyText_sublist key).count_le '\n'
    have hinsert := fun v => keyBreaks_insert (String.ofList (keyText key)) v g.options
    simp only [String.toList_ofList] at hinsert
    refine le_trans (hinsert _) ?_
    omega
  · exact Nat.le_add_right _ _

lemma breaks_commit (g : Gathering) (key : List Char) (raw : Option (List Char)) :
    (g.commit key raw).breaks ≤ g.breaks + Options.breaks key := by
  have hpending : (g.commit key raw).pending = g.pending := by
    simp only [Gathering.commit]
    split <;> rfl
  have := keyBreaks_commit g key raw
  simp only [breaks, hpending]
  omega

lemma breaks_flush (g : Gathering) : g.flush.breaks ≤ g.breaks := by
  simp only [Gathering.flush]
  split
  · exact Nat.le_refl _
  · next p hp =>
    refine le_trans (breaks_commit _ p.key none) ?_
    simp [breaks, hp]

lemma breaks_push (g : Gathering) (t : Token) :
    (g.push t).breaks ≤ g.breaks + Options.breaks t.text := by
  have hwait : ∀ (g : Gathering) (p : Pending), Gathering.breaks { g with pending := some p } ≤
      g.breaks + Options.breaks p.key := fun g p => by
    simp only [breaks, Option.map_some, Option.getD_some]
    omega
  have htake : ∀ p ∈ g.pending, ∀ raw,
      (Gathering.commit { g with pending := none } p.key raw).breaks ≤ g.breaks := fun p hp raw => by
    refine le_trans (breaks_commit _ p.key raw) ?_
    simp [breaks, Option.mem_def.1 hp]
  simp only [Gathering.push]
  split
  · exact Nat.le_add_right _ _
  · split
    · split
      · exact Nat.le_add_right _ _
      · next p hp =>
        split
        · simp only [breaks, hp, Option.map_some]
          exact Nat.le_add_right _ _
        · exact Nat.le_add_right_of_le (htake p hp _)
    · next offset _ _ =>
      have hkey : Options.breaks (takeBytes offset t.text) ≤ Options.breaks t.text :=
        (takeBytes_sublist offset t.text).count_le '\n'
      have hflush := g.breaks_flush
      split
      · have hwaits := hwait g.flush ⟨takeBytes offset t.text, true⟩
        dsimp only at hwaits
        omega
      · have := breaks_commit g.flush (takeBytes offset t.text)
          (some (Text.dropBytes (offset + 1) t.text))
        omega
    · split
      · next p hp =>
        split
        · exact Nat.le_add_right_of_le (htake p hp _)
        · have hcommit := keyBreaks_commit g p.key none
          simp only [breaks, hp, Option.map_some, Option.getD_some]
          omega
      · exact hwait g ⟨t.text, false⟩

end Gathering

lemma keyBreaks_ofTokens (tokens : List Token) :
    keyBreaks (ofTokens tokens) ≤ breaks (tokens.map Token.text).flatten := by
  have hfold : ∀ (ts : List Token) (g : Gathering),
      (ts.foldl Gathering.push g).breaks ≤ g.breaks + breaks (ts.map Token.text).flatten := by
    intro ts
    induction ts with
    | nil => exact fun g => Nat.le_add_right _ _
    | cons t ts ih =>
      intro g
      have hpush := g.breaks_push t
      have hrest := ih (g.push t)
      simp only [List.foldl_cons, List.map_cons, List.flatten_cons, breaks, List.count_append]
        at hpush hrest ⊢
      omega
  have hall := hfold tokens Gathering.start
  have hflush := (tokens.foldl Gathering.push Gathering.start).breaks_flush
  have hstart : Gathering.start.breaks = 0 := rfl
  have hoptions : keyBreaks (ofTokens tokens) ≤
      (tokens.foldl Gathering.push Gathering.start).flush.breaks := Nat.le_add_right _ _
  omega

/-! ### The text of options has the line breaks of their keys -/

lemma lineBreak_not_mem_quoted (s : String) : '\n' ∉ Value.quoted s := by
  simp only [Value.quoted, List.mem_append, List.mem_cons, List.mem_flatMap, List.not_mem_nil, or_false,
    not_or, not_exists, not_and]
  refine ⟨⟨by decide, fun c _ hmem => ?_⟩, by decide⟩
  rcases Value.escaped_cases c with ⟨d, tail, heq, -, hd, htail⟩ | ⟨heq, -, -, hc⟩
  · rw [heq] at hmem
    rcases List.mem_cons.1 hmem with hslash | hmem
    · exact absurd hslash (by decide)
    · rcases List.mem_cons.1 hmem with hline | hmem
      · exact hd hline.symm
      · exact (htail _ hmem).2.2 rfl
  · rw [heq, List.mem_singleton] at hmem
    exact hc hmem.symm

lemma lineBreak_not_mem_word {v : Value} (h : v.isWord = true) : '\n' ∉ Value.print v := by
  rw [Value.print_of_isWord h]
  intro hmem
  exact absurd (Value.wordText_scalarText h _ hmem) (by decide)

mutual

theorem lineBreak_not_mem_print : ∀ v : Value, '\n' ∉ Value.print v
  | .null => lineBreak_not_mem_word rfl
  | .bool b => lineBreak_not_mem_word (v := .bool b) rfl
  | .int i => lineBreak_not_mem_word (v := .int i) rfl
  | .float x => lineBreak_not_mem_word (v := .float x) rfl
  | .string s => lineBreak_not_mem_quoted s
  | .array items => by
    have hitems := lineBreak_not_mem_printItems items
    simp [Value.print, hitems]
  | .object fields => by
    have hfields := lineBreak_not_mem_printFields fields
    simp [Value.print, hfields]

theorem lineBreak_not_mem_printItems : ∀ items : List Value, '\n' ∉ Value.printItems items
  | [] => by simp [Value.printItems]
  | [v] => lineBreak_not_mem_print v
  | v :: w :: vs => by
    have hv := lineBreak_not_mem_print v
    have hrest := lineBreak_not_mem_printItems (w :: vs)
    simp [Value.printItems, hv, hrest]

theorem lineBreak_not_mem_printFields :
    ∀ fields : List (String × Value), '\n' ∉ Value.printFields fields
  | [] => by simp [Value.printFields]
  | [(k, v)] => by
    have hk := lineBreak_not_mem_quoted k
    have hv := lineBreak_not_mem_print v
    simp [Value.printFields, hk, hv]
  | (k, v) :: f :: fs => by
    have hk := lineBreak_not_mem_quoted k
    have hv := lineBreak_not_mem_print v
    have hrest := lineBreak_not_mem_printFields (f :: fs)
    simp [Value.printFields, hk, hv, hrest]

end

lemma breaks_valueText (v : Value) : breaks (valueText v) = 0 := by
  refine List.count_eq_zero.2 ?_
  rcases Coerce.valueText_cases v with ⟨heq, -⟩ | ⟨items, t, -, -, heq⟩
  · rw [heq]
    exact lineBreak_not_mem_print v
  · rw [heq]
    simp [lineBreak_not_mem_printItems items]

lemma breaks_toText : ∀ options : Options, breaks (toText options) = keyBreaks options
  | [] => rfl
  | [f] => by
    have hvalue := breaks_valueText f.2
    simp only [breaks] at hvalue
    simp [toText, Text.joinWith, keyBreaks, breaks, hvalue]
  | f :: g :: fs => by
    have hvalue := breaks_valueText f.2
    have hrest := breaks_toText (g :: fs)
    have htext : toText (f :: g :: fs) =
        f.1.toList ++ '=' :: (valueText f.2 ++ ' ' :: toText (g :: fs)) := by
      simp [toText, Text.joinWith]
    have hkeys : keyBreaks (f :: g :: fs) = breaks f.1.toList + keyBreaks (g :: fs) := by
      simp [keyBreaks]
    rw [hkeys, ← hrest, htext]
    simp only [breaks] at hvalue
    simp [breaks, hvalue]

/-- A text that starts with a hash sets nothing, or the break at the end of its first line is missing
among the keys. -/
lemma keyBreaks_lt_of_comment {tail : List Char} {options : Options}
    (h : ofText ('#' :: tail) = .ok options) : options = [] ∨ keyBreaks options < breaks tail := by
  have hcomment : Token.ofText ('#' :: tail) =
      (⟨Token.Reader.afterLine tail, [], [], none, true, []⟩ : Token.Reader).run :=
    Token.Reader.run_of_step rfl rfl
  rw [ofText, hcomment] at h
  cases hline : Token.Reader.afterLine tail with
  | nil =>
    rw [hline, Token.Reader.run_of_nil rfl rfl] at h
    exact .inl (Except.ok.inj h).symm
  | cons c rest =>
    obtain rfl : c = '\n' := by
      have := List.head?_dropWhile_not (· != '\n') tail
      rw [show tail.dropWhile (· != '\n') = c :: rest from hline] at this
      simpa using this
    have hrest : breaks rest + 1 ≤ breaks tail := by
      have hsub : ('\n' :: rest) <+ tail := hline ▸ List.dropWhile_sublist _
      simpa [breaks] using hsub.count_le '\n'
    have hstep : (⟨'\n' :: rest, [], [], none, true, []⟩ : Token.Reader).run =
        (⟨rest, [], [], none, true, []⟩ : Token.Reader).run := Token.Reader.run_of_step rfl rfl
    rw [hline, hstep] at h
    cases hrun : (⟨rest, [], [], none, true, []⟩ : Token.Reader).run with
    | error fault => simp [hrun, Except.map] at h
    | ok tokens =>
      obtain rfl : ofTokens tokens = options := by simpa [hrun, Except.map] using h
      have htokens : breaks (tokens.map Token.text).flatten ≤ breaks rest :=
        (Token.Reader.tokens_sublist hrun).count_le '\n'
      have hkeys := keyBreaks_ofTokens tokens
      exact .inr (by omega)

theorem ofText_toText_ne {options : Options} (hstart : ¬ StartsPlain options) :
    ofText (toText options) ≠ .ok options := by
  obtain ⟨f, hhead, hhash⟩ : ∃ f ∈ options.head?, f.1.toList.head? = some '#' := by
    simpa [StartsPlain] using hstart
  obtain ⟨fs, rfl⟩ := List.head?_eq_some_iff.1 hhead
  obtain ⟨ks, hkey⟩ := List.head?_eq_some_iff.1 hhash
  obtain ⟨tail, htext⟩ : ∃ tail, toText (f :: fs) = '#' :: tail := by
    cases fs <;> simp [toText, Text.joinWith, hkey]
  have hcount : breaks tail = keyBreaks (f :: fs) := by
    rw [← breaks_toText, htext]
    simp [breaks]
  intro hoptions
  rw [htext] at hoptions
  rcases keyBreaks_lt_of_comment hoptions with hnil | hlt
  · simp at hnil
  · omega

end Options

end CommentBlocks
