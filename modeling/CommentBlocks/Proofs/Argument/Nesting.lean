import CommentBlocks.Proofs.Argument.Depth
import CommentBlocks.Proofs.Argument.RoundTrip
import CommentBlocks.Proofs.Text.Places
import CommentBlocks.Proofs.Text.Splitting

/-!
How deep the values of options nest. No value is deeper than its text has opening brackets. The reader
of tokens counts these as well, and its bound is one on the depth of every value whose text is a
literal that hides no bracket from it.
-/

namespace CommentBlocks

open Unicode (isBlank)
open Text (dropBytes)
open Relaxed (Part Derives Dialect)
open scoped List

def openings (cs : List Char) : Nat := cs.countP fun c => c == '[' || c == '\x7b'

lemma openings_mono {a b : List Char} (h : a <+ b) : openings a ≤ openings b :=
  h.countP_le

lemma openings_append (a b : List Char) : openings (a ++ b) = openings a + openings b :=
  List.countP_append ..

lemma openings_comma (cs : List Char) : openings (',' :: cs) = openings cs := by simp [openings]

lemma openings_colon (cs : List Char) : openings (':' :: cs) = openings cs := by simp [openings]

lemma openings_square (cs : List Char) : openings ('[' :: (cs ++ [']'])) = 1 + openings cs := by
  simp [openings, Nat.add_comm]

lemma openings_curly (cs : List Char) :
    openings ('\x7b' :: (cs ++ ['\x7d'])) = 1 + openings cs := by
  simp [openings, Nat.add_comm]

namespace Relaxed

def Part.depth : Part → Nat
  | .literal v => v.depth
  | .element _ v => v.depth
  | .items vs => Value.itemsDepth vs
  | .fields es => Value.fieldsDepth es

/-- Every level of what a text is read as has an opening bracket in the text. -/
lemma Derives.depth_le_openings {part : Part} {text : List Char} (h : Derives .reader part text) :
    part.depth ≤ openings text := by
  induction h with
  | string | noItems | noFields => exact Nat.zero_le _
  | array _ ih =>
    rw [openings_square]
    exact Nat.add_le_add_left ih 1
  | object _ hfs ih =>
    rw [openings_curly]
    exact Nat.add_le_add_left (hfs.fieldsDepth_le.trans ih) 1
  | nested _ ih => exact ih
  | word h =>
    obtain ⟨-, rfl⟩ := h
    rw [Part.depth, depth_wordValue]
    exact Nat.zero_le _
  | lastItem _ _ _ ih =>
    simp only [Part.depth, Value.itemsDepth_cons, Value.itemsDepth_nil, openings_append] at ih ⊢
    omega
  | item _ _ _ _ ih ihmore =>
    simp only [Part.depth, Value.itemsDepth_cons, openings_append, openings_comma] at ih ihmore ⊢
    omega
  | lastField _ _ _ _ _ _ ih =>
    simp only [Part.depth, Value.fieldsDepth_cons, Value.fieldsDepth_nil, openings_append,
      openings_colon] at ih ⊢
    omega
  | field _ _ _ _ _ _ _ ih ihmore =>
    simp only [Part.depth, Value.fieldsDepth_cons, openings_append, openings_comma,
      openings_colon] at ih ihmore ⊢
    omega

end Relaxed

namespace Coerce

open Text (trim)

lemma inner_sublist (cs : List Char) : inner cs <+ cs :=
  (List.dropLast_sublist _).trans (List.drop_sublist 1 cs)

lemma tidy_sublist (raw : List Char) : tidy raw <+ raw :=
  (tidy_isPrefix raw).sublist.trans (List.dropWhile_sublist _)

theorem depth_le_openings {raw : List Char} {v : Value} (h : Gives raw v) :
    v.depth ≤ openings raw := by
  induction h with
  | flat h => exact h ▸ Nat.zero_le _
  | double hr _ ih =>
    obtain ⟨rfl, -⟩ := eq_of_unwrapDouble? hr
    exact ih.trans (openings_mono ((inner_sublist _).trans (tidy_sublist _)))
  | braces hr _ ih =>
    obtain ⟨rfl, -⟩ := eq_of_unwrapBraces? hr
    exact ih.trans (openings_mono ((Text.trim_isInfix _).sublist.trans
      ((inner_sublist _).trans (tidy_sublist _))))
  | @literal raw v h =>
    obtain ⟨a, core, b, htext, -, -, hderives⟩ := Relaxed.literal?_eq_some_iff.1 h
    have hcore : core <+ tidy raw := by
      rw [htext]
      exact (List.sublist_append_left core b).trans (List.sublist_append_right a _)
    exact hderives.depth_le_openings.trans (openings_mono (hcore.trans (tidy_sublist raw)))
  | @items raw items hitems _ ih =>
    obtain ⟨body, htext, rfl⟩ := eq_of_listItems? hitems
    have hitem : ∀ item ∈ ((Text.splitAt ',' body).map trim).filter (!·.isEmpty), item <+ body := by
      intro item hmem
      obtain ⟨piece, hpiece, rfl⟩ := List.mem_map.1 (List.mem_filter.1 hmem).1
      exact (Text.trim_isInfix piece).sublist.trans (Text.sublist_of_mem_splitAt hpiece)
    have hdepth : Value.itemsDepth ((((Text.splitAt ',' body).map trim).filter (!·.isEmpty)).map value) ≤
        openings body := by
      refine Value.itemsDepth_le fun w hw => ?_
      obtain ⟨item, hmem, rfl⟩ := List.mem_map.1 hw
      exact (ih item hmem).trans (openings_mono (hitem item hmem))
    refine le_trans ?_ (openings_mono (tidy_sublist raw))
    rw [htext, openings_square]
    exact Nat.add_le_add_left hdepth 1

/-- The value of the text is flat, or behind blanks and opening brackets the text has a literal for it
whose bare words end every string that a quote opens in them for the reader of tokens. -/
inductive IsCalm (raw : List Char) : Prop
  | flat (h : (value raw).depth ≤ 1)
  | literal {front core back : List Char} (hraw : raw = front ++ (core ++ back))
      (hfront : ∀ c ∈ front, isBlank c = true ∨ c = '[' ∨ c = '\x7b')
      (h : Derives .calm (.literal (value raw)) core)

end Coerce

namespace Token.Reader

variable {stack stack' : List Frame} {current rest : List Char}

lemma Passes.front {front : List Char} (hfront : ∀ c ∈ front, isBlank c = true ∨ c = '[' ∨ c = '\x7b')
    (hclear : Clear stack) (hopens : opensQuotes current = true)
    (h : Passes stack current (front ++ rest) stack') :
    ∃ stack₁ current₁, Clear stack₁ ∧ opensQuotes current₁ = true ∧
      Passes stack₁ current₁ rest stack' := by
  induction front generalizing stack current with
  | nil => exact ⟨stack, current, hclear, hopens, h⟩
  | cons c front ih =>
    obtain ⟨hc, hfront⟩ := List.forall_mem_cons.1 hfront
    have hbracket : ∀ holder : Relaxed.Holder, holder.bracket.opening = c →
        ∃ stack₁ current₁, Clear stack₁ ∧ opensQuotes current₁ = true ∧
          Passes stack₁ current₁ rest stack' := by
      intro holder hholder
      rw [← hholder] at h
      obtain ⟨frames, -, -, hin, h⟩ := Passes.opening hclear h
      exact ih hfront hin.clear (opensQuotes_opening holder current) h
    rcases hc with hblank | rfl | rfl
    · have hblanks : Relaxed.Blanks [c] := by simpa [Relaxed.Blanks] using hblank
      have h : Passes stack current ([c] ++ (front ++ rest)) stack' := h
      obtain ⟨current', hopens', h⟩ := h.blanks hblanks hclear
      exact ih hfront hclear (hopens' hopens) h
    · exact hbracket .array rfl
    · exact hbracket .object rfl

end Token.Reader

open Token.Reader (Passes opensQuotes)

lemma Coerce.IsCalm.depth_le {raw current : List Char} (h : IsCalm raw)
    (hopens : opensQuotes current = true) (hpasses : Passes [] current raw []) :
    (value raw).depth ≤ maxNesting := by
  cases h with
  | flat h => exact h.trans (by decide)
  | @literal front core back hraw hfront h =>
    rw [hraw] at hpasses
    have hclear : Token.Reader.Clear [] := ⟨by simp, Nat.zero_le _⟩
    obtain ⟨stack, current', hclear, hopens, hpasses⟩ := hpasses.front hfront hclear hopens
    obtain ⟨-, hdepth⟩ := Token.Reader.fits_of_derives h hclear hopens hpasses
    omega

/-- The text of a token that a value is read from: that behind its equals sign, if it has one. -/
def Token.argument (t : Token) : List Char :=
  match t.equals with
  | none => t.text
  | some 0 => t.text.drop 1
  | some offset => dropBytes (offset + 1) t.text

lemma Token.argument_sublist (t : Token) : t.argument <+ t.text := by
  have hdrop : ∀ (n : Nat) (cs : List Char), dropBytes n cs <+ cs := by
    intro n cs
    induction cs generalizing n with
    | nil => exact List.Sublist.refl _
    | cons c cs ih =>
      rw [dropBytes]
      split
      · exact List.Sublist.refl _
      · exact (ih _).cons c
  simp only [Token.argument]
  split
  · exact List.Sublist.refl _
  · exact List.drop_sublist 1 _
  · exact hdrop _ _

lemma Token.Closed.passes {t : Token} (h : t.Closed) :
    ∃ current, opensQuotes current = true ∧ Passes [] current t.argument [] := by
  have hbehind : ∀ key tail : List Char, dropBytes (Text.bytes key + 1) (key ++ '=' :: tail) = tail := by
    intro key tail
    have hbytes : Text.bytes (key ++ ['=']) = Text.bytes key + 1 := by
      rw [Text.bytes_append]
      rfl
    have hdrop := Text.dropBytes_append (key ++ ['=']) tail
    rwa [hbytes, List.append_assoc] at hdrop
  simp only [Token.argument]
  split
  · exact ⟨[], rfl, h.text⟩
  · next hequals =>
    obtain ⟨key, tail, htext, hbytes, hpasses⟩ := h.argument 0 hequals
    obtain rfl : key = [] := Text.bytes_eq_zero.1 hbytes
    refine ⟨['='], rfl, ?_⟩
    simpa [htext] using hpasses
  · next offset _ hequals =>
    obtain ⟨key, tail, htext, rfl, hpasses⟩ := h.argument offset hequals
    refine ⟨'=' :: key.reverse, rfl, ?_⟩
    rwa [htext, hbehind]

namespace Options

namespace Gathering

/-- Every value is that of a flag or that of the argument of a token. -/
def Sourced (tokens : List Token) (g : Gathering) : Prop :=
  ∀ f ∈ g.options, f.2 = .bool true ∨ ∃ t ∈ tokens, Coerce.value t.argument = f.2

variable {tokens : List Token} {g : Gathering}

lemma Sourced.commit (h : g.Sourced tokens) (key : List Char) {raw : Option (List Char)}
    (hraw : ∀ cs ∈ raw, ∃ t ∈ tokens, t.argument = cs) : (g.commit key raw).Sourced tokens := by
  simp only [Gathering.commit]
  split
  · intro f hf
    rcases Fields.mem_insert hf with rfl | hf
    · cases raw with
      | none => exact .inl rfl
      | some cs =>
        obtain ⟨t, ht, rfl⟩ := hraw cs rfl
        exact .inr ⟨t, ht, rfl⟩
    · exact h f hf
  · exact h

lemma Sourced.flush (h : g.Sourced tokens) : g.flush.Sourced tokens := by
  simp only [Gathering.flush]
  split
  · exact h
  · exact Sourced.commit (g := { g with pending := none }) h _ (by simp)

lemma Sourced.push (h : g.Sourced tokens) {t : Token} (ht : t ∈ tokens) :
    (g.push t).Sourced tokens := by
  have hsource : ∀ cs ∈ some t.argument, ∃ u ∈ tokens, u.argument = cs :=
    fun cs hcs => ⟨t, ht, Option.some.inj hcs⟩
  simp only [Token.argument] at hsource
  simp only [Gathering.push]
  split
  · exact h
  · split
    · next hequals =>
      simp only [hequals] at hsource
      split
      · exact h
      · next p _ =>
        split
        · exact h
        · exact Sourced.commit (g := { g with pending := none }) h _ hsource
    · next offset hne hequals =>
      simp only [hequals] at hsource
      split
      · exact h.flush
      · exact h.flush.commit _ hsource
    · next hequals =>
      simp only [hequals] at hsource
      split
      · next p _ =>
        split
        · exact Sourced.commit (g := { g with pending := none }) h _ hsource
        · exact h.commit _ (by simp)
      · exact h

end Gathering

/-- Every value among the options is that of a flag or that of the argument of a token. -/
lemma source_of_mem_ofTokens {tokens : List Token} {f : String × Value} (hf : f ∈ ofTokens tokens) :
    f.2 = .bool true ∨ ∃ t ∈ tokens, Coerce.value t.argument = f.2 := by
  have hfold : ∀ (ts : List Token) (g : Gathering), (∀ t ∈ ts, t ∈ tokens) → g.Sourced tokens →
      (ts.foldl Gathering.push g).Sourced tokens := by
    intro ts
    induction ts with
    | nil => exact fun g _ hg => hg
    | cons t ts ih =>
      exact fun g hts hg => ih _ (fun u hu => hts u (List.mem_cons_of_mem _ hu))
        (hg.push (hts t List.mem_cons_self))
  have hstart : Gathering.start.Sourced tokens := by simp [Gathering.Sourced, Gathering.start]
  exact (hfold tokens Gathering.start (fun _ h => h) hstart).flush f hf

/-- The values of options are not deeper than the text has opening brackets, and one that is deeper
than brackets nest in a token comes from an argument that hides brackets from the reader of tokens. -/
theorem depth_le_of_parse {raw : String} {options : Options} (h : parse raw = .ok options) :
    ∃ tokens, Token.ofText raw.toList = .ok tokens ∧ ∀ f ∈ options,
      f.2.depth ≤ openings raw.toList ∧
        (f.2.depth ≤ maxNesting ∨
          ∃ t ∈ tokens, Coerce.value t.argument = f.2 ∧ ¬ Coerce.IsCalm t.argument) := by
  rw [parse_eq_ok_iff, ofText] at h
  cases htokens : Token.ofText raw.toList with
  | error fault => simp [htokens, Except.map] at h
  | ok tokens =>
    obtain rfl : ofTokens tokens = options := by simpa [htokens, Except.map] using h
    refine ⟨tokens, rfl, fun f hf => ?_⟩
    rcases source_of_mem_ofTokens hf with hflag | ⟨t, ht, hvalue⟩
    · rw [hflag]
      exact ⟨Nat.zero_le _, .inl (Nat.zero_le _)⟩
    · have hpart : t.argument <+ raw.toList := by
        have htext : t.text <+ (tokens.map Token.text).flatten :=
          List.sublist_flatten_of_mem (List.mem_map_of_mem ht)
        exact t.argument_sublist.trans (htext.trans (Token.Reader.tokens_sublist htokens))
      have hdepth := Coerce.depth_le_openings (Coerce.gives_value t.argument)
      rw [hvalue] at hdepth
      refine ⟨hdepth.trans (openings_mono hpart), ?_⟩
      by_cases hcalm : Coerce.IsCalm t.argument
      · obtain ⟨current, hopens, hpasses⟩ := (Token.closed_of_ofText htokens t ht).passes
        exact .inl (hvalue ▸ hcalm.depth_le hopens hpasses)
      · exact .inr ⟨t, ht, hvalue, hcalm⟩

/-- A literal with a bracket in a string and a quote inside of a word, and brackets in quotes. -/
theorem depth_le_of_parse_three_options :
    let raw := "a=[[1, \x7bk: \"[x\"\x7d], don't], b='[[' c"
    let options : Options :=
      [("a", .array [.array [.int 1, .object [("k", .string "[x")]], .string "don't"]),
        ("b", .string "[["), ("c", .bool true)]
    parse raw = .ok options ∧
      ∃ tokens, Token.ofText raw.toList = .ok tokens ∧ ∀ f ∈ options,
        f.2.depth ≤ openings raw.toList ∧
          (f.2.depth ≤ maxNesting ∨
            ∃ t ∈ tokens, Coerce.value t.argument = f.2 ∧ ¬ Coerce.IsCalm t.argument) := by
  intro raw options
  have hparse : parse raw = .ok options := by decide +kernel
  exact ⟨hparse, depth_le_of_parse hparse⟩

/-- A quote behind a blank in a bare word opens a string for the reader of tokens alone, so that it does
not count the brackets up to the next quote. -/
theorem parse_of_hidden_brackets :
    let brackets := String.ofList (List.replicate 64 '[' ++ List.replicate 64 ']')
    let deep : Value := (fun v => .array [v])^[63] (.array [])
    parse ("x=[a \", " ++ brackets ++ ", b\"]") =
        .ok [("x", .array [.string "a \"", deep, .string "b\""])] ∧
      ¬ ∀ raw options, parse raw = .ok options → ∀ f ∈ options, f.2.depth ≤ maxNesting := by
  intro brackets deep
  have hparse : parse ("x=[a \", " ++ brackets ++ ", b\"]") =
      .ok [("x", .array [.string "a \"", deep, .string "b\""])] := by decide +kernel
  refine ⟨hparse, fun hall => ?_⟩
  have hdepth := hall _ _ hparse _ List.mem_cons_self
  exact absurd hdepth (by decide +kernel)

end Options

end CommentBlocks
