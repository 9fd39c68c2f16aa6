import CommentBlocks.Proofs.Argument.Reading

/-!
Options as argument text are read back: the reader cuts one token for each key, and the tokens set the
options again.
-/

namespace CommentBlocks

namespace Options

open Text (bytes takeBytes dropBytes trim trimEndBy isQuote)
open Unicode (isBlank)
open Token (Reader)

/-! ### Keys -/

/-- The text is read as a key when an equals sign follows, at the start of a line only if it does not
begin with a hash. -/
def ReadsAsKey (key : List Char) : Prop :=
  ∀ ⦃lineBlank : Bool⦄ ⦃rest : List Char⦄ ⦃tokens : List Token⦄,
    (lineBlank = false ∨ key.head? ≠ some '#') →
    (⟨key ++ '=' :: rest, [], [], none, lineBlank, tokens⟩ : Reader).run =
      (⟨rest, [], '=' :: key.reverse, some (bytes key), false, tokens⟩ : Reader).run

/-- What keys of options are: nothing is taken off their ends, and they are read as keys. -/
structure IsKeyText (key : List Char) : Prop where
  isKey : isKey key = true
  trimmed : trimEndBy (· == ',') (trim key) = key
  reads : ReadsAsKey key

lemma IsKeyText.ne_nil {key : List Char} (h : IsKeyText key) : key ≠ [] := by
  rintro rfl
  exact absurd h.isKey (by decide)

/-! ### Tokens -/

def tokenOf (f : String × Value) : Token :=
  ⟨f.1.toList ++ '=' :: valueText f.2, some (bytes f.1.toList)⟩

/-- Only the first key could be taken for a comment. -/
def StartsPlain (options : Options) : Prop :=
  ∀ f ∈ options.head?, f.1.toList.head? ≠ some '#'

lemma run_pair {f : String × Value} (hkey : IsKeyText f.1.toList) {lineBlank : Bool}
    (hstart : lineBlank = false ∨ f.1.toList.head? ≠ some '#') (rest : List Char)
    (tokens : List Token) :
    (⟨f.1.toList ++ '=' :: (valueText f.2 ++ rest), [], [], none, lineBlank, tokens⟩ : Reader).run =
      if f.2.nesting ≤ maxNesting then
        (⟨rest, [], (tokenOf f).text.reverse, (tokenOf f).equals, false, tokens⟩ : Reader).run
      else .error .tooDeep := by
  rw [hkey.reads hstart, Reader.passesOver_valueText f.2 Reader.outside_nil (Nat.zero_le _) rfl]
  simp [tokenOf]

lemma finish_token (f : String × Value) (tokens : List Token) (rest : List Char)
    (lineBlank : Bool) :
    (⟨rest, [], (tokenOf f).text.reverse, (tokenOf f).equals, lineBlank, tokens⟩ : Reader).finish =
      ⟨rest, [], [], none, lineBlank, tokenOf f :: tokens⟩ := by
  have hne : (tokenOf f).text.reverse ≠ [] := by simp [tokenOf]
  rw [Reader.finish_eq hne, List.reverse_reverse]

lemma run_toText : ∀ (options : Options) (lineBlank : Bool) (tokens : List Token),
    (∀ f ∈ options, IsKeyText f.1.toList) → (lineBlank = false ∨ StartsPlain options) →
    (⟨toText options, [], [], none, lineBlank, tokens⟩ : Reader).run =
      if ∀ f ∈ options, f.2.nesting ≤ maxNesting then
        .ok (tokens.reverse ++ options.map tokenOf)
      else .error .tooDeep
  | [], lineBlank, tokens, _, _ => by
    rw [Reader.run_of_nil rfl rfl]
    simp [Reader.finish]
  | [f], lineBlank, tokens, hkeys, hstart => by
    have htext : toText [f] = f.1.toList ++ '=' :: (valueText f.2 ++ []) := by
      simp [toText, Text.joinWith]
    rw [htext, run_pair (hkeys f (by simp)) (hstart.imp_right fun h => h f rfl)]
    simp only [List.mem_singleton, forall_eq]
    split
    · rw [Reader.run_of_nil rfl rfl, finish_token]
      simp
    · rfl
  | f :: g :: fs, lineBlank, tokens, hkeys, hstart => by
    have htext : toText (f :: g :: fs) =
        f.1.toList ++ '=' :: (valueText f.2 ++ ' ' :: toText (g :: fs)) := by
      simp [toText, Text.joinWith]
    have hrest := run_toText (g :: fs) false (tokenOf f :: tokens)
      (fun h hh => hkeys h (List.mem_cons_of_mem _ hh)) (.inl rfl)
    have hbreak : (' ' == '\n' || false) = false := rfl
    rw [htext, run_pair (hkeys f (by simp)) (hstart.imp_right fun h => h f rfl),
      Reader.run_blank rfl, finish_token, hbreak, hrest]
    have hall : (∀ h ∈ f :: g :: fs, h.2.nesting ≤ maxNesting) ↔
        f.2.nesting ≤ maxNesting ∧ ∀ h ∈ g :: fs, h.2.nesting ≤ maxNesting := List.forall_mem_cons
    by_cases hf : f.2.nesting ≤ maxNesting
    · simp only [hall, hf, true_and, if_true]
      simp
    · simp only [hall, hf, false_and, if_false]

/-! ### Setting options again -/

/-- A token of a key and an equals sign ends the key that waits; its own key has the text behind the sign
for its value, and waits without such text. -/
lemma Gathering.push_equals {key : List Char} (hne : key ≠ []) (raw : List Char) (g : Gathering) :
    g.push ⟨key ++ '=' :: raw, some (bytes key)⟩ =
      if raw.isEmpty then { g.flush with pending := some ⟨key, true⟩ }
      else g.flush.commit key (some raw) := by
  have hall : (key ++ '=' :: raw).all (· == ',') = false := by simp
  obtain ⟨n, hn⟩ : ∃ n, bytes key = n + 1 := by
    obtain ⟨c, cs, hcons⟩ := List.exists_cons_of_ne_nil hne
    have := c.utf8Size_pos
    exact ⟨bytes key - 1, by rw [hcons, Text.bytes_cons]; omega⟩
  have htake : takeBytes (n + 1) (key ++ '=' :: raw) = key := by
    rw [← hn, Text.takeBytes_append]
  have hdrop : dropBytes (n + 1 + 1) (key ++ '=' :: raw) = raw := by
    have hsize : n + 1 + 1 = bytes (key ++ ['=']) := by
      rw [Text.bytes_append, hn]
      rfl
    rw [hsize]
    simpa using Text.dropBytes_append (key ++ ['=']) raw
  simp only [Gathering.push, hall, hn, htake, hdrop, Bool.false_eq_true, if_false]

lemma Gathering.push_pair {key : List Char} (hkey : IsKeyText key) (raw : List Char)
    (options : Options) :
    (⟨options, none⟩ : Gathering).push ⟨key ++ '=' :: raw, some (bytes key)⟩ =
      if raw.isEmpty then ⟨options, some ⟨key, true⟩⟩
      else ⟨options.insert (String.ofList key) (Coerce.value raw), none⟩ := by
  rw [Gathering.push_equals hkey.ne_nil]
  simp only [Gathering.flush, Gathering.commit, hkey.trimmed, hkey.isKey, if_true]

lemma push_tokenOf {f : String × Value} (hkey : IsKeyText f.1.toList) (options : Options) :
    (⟨options, none⟩ : Gathering).push (tokenOf f) =
      ⟨options.insert f.1 (Coerce.value (valueText f.2)), none⟩ := by
  have hraw : (valueText f.2).isEmpty = false := by
    simpa using Coerce.valueText_ne_nil f.2
  rw [tokenOf, Gathering.push_pair hkey, hraw, if_neg (by simp), String.ofList_toList]

def reread (f : String × Value) : String × Value := (f.1, Coerce.value (valueText f.2))

lemma ofTokens_map_tokenOf {options : Options} (hsorted : options.Sorted)
    (hkeys : ∀ f ∈ options, IsKeyText f.1.toList) :
    ofTokens (options.map tokenOf) = options.map reread := by
  have hfold : ∀ (fs found : Options), Fields.Sorted (found ++ fs) →
      (∀ f ∈ fs, IsKeyText f.1.toList) →
      (fs.map tokenOf).foldl Gathering.push ⟨found, none⟩ = ⟨found ++ fs.map reread, none⟩ := by
    intro fs
    induction fs with
    | nil => simp
    | cons f fs ih =>
      intro found hsorted hkeys
      obtain ⟨k, v⟩ := f
      have hset : Fields.insert k (Coerce.value (valueText v)) found = found ++ [reread (k, v)] := by
        refine Fields.insert_of_lt (fun g hg => ?_) _
        rw [Fields.Sorted, List.map_append, List.pairwise_append] at hsorted
        exact hsorted.2.2 g.1 (List.mem_map_of_mem hg) k (by simp)
      rw [List.map_cons, List.foldl_cons, push_tokenOf (hkeys _ (by simp)), hset,
        ih _ ?_ fun g hg => hkeys g (List.mem_cons_of_mem _ hg)]
      · simp
      · rw [Fields.Sorted, List.map_append] at hsorted ⊢
        simpa [reread] using hsorted
  simp only [ofTokens, Gathering.start, hfold options [] hsorted hkeys, List.nil_append,
    Gathering.flush]

theorem ofText_toText {options : Options} (hsorted : options.Sorted)
    (hkeys : ∀ f ∈ options, IsKeyText f.1.toList) (hstart : StartsPlain options) :
    ofText (toText options) =
      if ∀ f ∈ options, f.2.nesting ≤ maxNesting then .ok (options.map reread)
      else .error .tooDeep := by
  have hrun := run_toText options true [] hkeys (.inr hstart)
  rw [ofText, Token.ofText, Reader.start, hrun]
  split
  · simp [Except.map, ofTokens_map_tokenOf hsorted hkeys]
  · rfl

/-! ### Plain keys -/

/-- The characters that mean something in argument text: white space, quotes, brackets, equals signs,
commas, slashes and hashes. -/
def isSpecial (c : Char) : Bool :=
  isBlank c || isQuote c || (BracketKind.ofOpening? c).isSome || (BracketKind.ofClosing? c).isSome ||
    c == '=' || c == ',' || c == '/' || c == '#'

structure PlainKey (key : List Char) : Prop where
  isKey : isKey key = true
  plain : ∀ c ∈ key, isSpecial c = false

lemma PlainKey.ne_nil {key : List Char} (h : PlainKey key) : key ≠ [] := by
  rintro rfl
  exact absurd h.isKey (by decide)

lemma plain_of_isSpecial {c : Char} (h : isSpecial c = false) :
    isBlank c = false ∧ isQuote c = false ∧ BracketKind.ofOpening? c = none ∧
      BracketKind.ofClosing? c = none ∧ c ≠ '=' ∧ c ≠ ',' ∧ c ≠ '/' ∧ c ≠ '#' := by
  simp only [isSpecial, Bool.or_eq_false_iff, Option.isSome_eq_false_iff, Option.isNone_iff_eq_none,
    beq_eq_false_iff_ne] at h
  obtain ⟨⟨⟨⟨⟨⟨⟨hb, hq⟩, ho⟩, hcl⟩, he⟩, hco⟩, hs⟩, hh⟩ := h
  exact ⟨hb, hq, ho, hcl, he, hco, hs, hh⟩

lemma run_plain {key : List Char} (hne : key ≠ []) (h : ∀ c ∈ key, isSpecial c = false)
    {lineBlank : Bool} (rest : List Char) (tokens : List Token) :
    (⟨key ++ rest, [], [], none, lineBlank, tokens⟩ : Reader).run =
      (⟨rest, [], key.reverse, none, false, tokens⟩ : Reader).run := by
  have htail : ∀ (cs current : List Char), (∀ c ∈ cs, c ∈ key) →
      (⟨cs ++ rest, [], current, none, false, tokens⟩ : Reader).run =
        (⟨rest, [], cs.reverse ++ current, none, false, tokens⟩ : Reader).run := by
    intro cs
    induction cs with
    | nil => simp
    | cons c cs ih =>
      intro current hmem
      obtain ⟨hb, hq, ho, hcl, he, -, hs, -⟩ := plain_of_isSpecial (h c (hmem c (by simp)))
      rw [List.cons_append, Reader.run_takes Reader.outside_nil (.put (.inl hb) (.inl hq) ho hcl
        (.inl he)) hs (Reader.ne_lineFeed_of_not_isBlank hb),
        ih _ fun d hd => hmem d (List.mem_cons_of_mem _ hd)]
      simp
  obtain ⟨c, cs, rfl⟩ := List.exists_cons_of_ne_nil hne
  obtain ⟨hb, hq, ho, hcl, he, -, hs, hh⟩ := plain_of_isSpecial (h c (by simp))
  rw [List.cons_append, Reader.run_joins Reader.outside_nil (.put (.inl hb) (.inl hq) ho hcl (.inl he))
    (.inr hh) (Reader.follows_of_ne hs), Reader.lineBlank_eq_false hb,
    htail cs [c] fun d hd => List.mem_cons_of_mem _ hd]
  simp

lemma PlainKey.run {key : List Char} (h : PlainKey key) {lineBlank : Bool} (rest : List Char)
    (tokens : List Token) :
    (⟨key ++ rest, [], [], none, lineBlank, tokens⟩ : Reader).run =
      (⟨rest, [], key.reverse, none, false, tokens⟩ : Reader).run :=
  run_plain h.ne_nil h.plain rest tokens

lemma trim_plain {key : List Char} (h : ∀ c ∈ key, isSpecial c = false) :
    trimEndBy (· == ',') (trim key) = key := by
  have hchar := fun c hc => plain_of_isSpecial (h c hc)
  rw [Text.trim_of_not_isBlank fun c hc => (hchar c hc).1]
  exact Text.trimEndBy_eq_self fun c hc =>
    beq_eq_false_iff_ne.2 (hchar c (List.mem_of_getLast? hc)).2.2.2.2.2.1

lemma counts_plain {key : List Char} (hne : key ≠ []) (h : ∀ c ∈ key, isSpecial c = false) :
    key.all (· == ',') = false := by
  obtain ⟨c, cs, rfl⟩ := List.exists_cons_of_ne_nil hne
  have hplain := plain_of_isSpecial (h c List.mem_cons_self)
  simp [hplain.2.2.2.2.2.1]

lemma PlainKey.isKeyText {key : List Char} (h : PlainKey key) : IsKeyText key where
  isKey := h.isKey
  trimmed := trim_plain h.plain
  reads := by
    intro lineBlank rest tokens _
    rw [h.run, Reader.run_equals, Text.bytes_reverse]

/-- The fields of an object look like fields if their first key holds no quote. -/
lemma keepsBraces_of_firstKey {v : Value}
    (h : ∀ k w fs, v = .object ((k, w) :: fs) → '"' ∉ k.toList) : Coerce.keepsBraces v = true := by
  match v, h with
  | .object [], _ => rfl
  | .object ((k, w) :: fs), h =>
    have hkey : ∀ c ∈ k.toList.flatMap Value.escaped, (c != '"') = true := by
      intro c hc
      obtain ⟨d, hd, hc⟩ := List.mem_flatMap.1 hc
      have hdne : d ≠ '"' := by rintro rfl; exact h k w fs rfl hd
      exact bne_iff_ne.2 (by rintro rfl; exact Value.quote_not_mem_escaped hdne hc)
    obtain ⟨tail, htail⟩ : ∃ tail, Value.printFields ((k, w) :: fs) =
        '"' :: (k.toList.flatMap Value.escaped ++ '"' :: ':' :: tail) := by
      cases fs <;> exact ⟨_, by simp [Value.printFields, Value.quoted]; rfl⟩
    have hdrop : (k.toList.flatMap Value.escaped ++ '"' :: ':' :: tail).dropWhile (· != '"') =
        '"' :: ':' :: tail := by
      simp [List.dropWhile_append_of_pos hkey]
    have hblank : ('"' :: (k.toList.flatMap Value.escaped ++ '"' :: ':' :: tail)).dropWhile isBlank =
        '"' :: (k.toList.flatMap Value.escaped ++ '"' :: ':' :: tail) := by
      simp [show isBlank '"' = false by decide]
    have hcolon : isBlank ':' = false := by decide
    simp [Coerce.keepsBraces, Coerce.hasKeyShape, htail, hblank, Coerce.afterKey?, hdrop, hcolon]
  | .null, _ | .bool _, _ | .int _, _ | .float _, _ | .string _, _ | .array _, _ => rfl

/-- Options with plain keys come back from their text, which is cut into one token for each key. -/
theorem parse_print {options : Options} (hsorted : options.Sorted)
    (hkeys : ∀ f ∈ options, PlainKey f.1.toList) (hvalues : ∀ f ∈ options, f.2.Storable)
    (hnesting : ∀ f ∈ options, f.2.nesting ≤ maxNesting)
    (hfirst : ∀ f ∈ options, ∀ k w fs, f.2 = .object ((k, w) :: fs) → '"' ∉ k.toList) :
    Token.ofText (toText options) = .ok (options.map tokenOf) ∧ parse (print options) = .ok options := by
  have hkeyTexts : ∀ f ∈ options, IsKeyText f.1.toList := fun f hf => (hkeys f hf).isKeyText
  have hstart : StartsPlain options := by
    intro f hf hhash
    have hplain := (hkeys f (List.mem_of_head? hf)).plain '#' (List.mem_of_head? hhash)
    exact absurd hplain (by decide)
  have hread : ∀ f ∈ options, reread f = f := fun f hf => by
    rw [reread, Coerce.value_valueText (hvalues f hf) (keepsBraces_of_firstKey (hfirst f hf))]
  have htokens := run_toText options true [] hkeyTexts (.inr hstart)
  have hoptions := ofText_toText hsorted hkeyTexts hstart
  rw [if_pos hnesting] at htokens hoptions
  rw [List.map_congr_left hread, List.map_id'] at hoptions
  refine ⟨htokens, ?_⟩
  rw [parse, print, String.toList_ofList, hoptions]

/-- Two keys: a string with a quote in it beside an array in an array, and an object. -/
theorem parse_print_two_keys :
    let options : Options := [("a", .array [.array [.int 1], .string "x\"y"]),
      ("b.c", .object [("k", .null), ("l", .bool true)])]
    (∀ f ∈ options, PlainKey f.1.toList ∧ f.2.Storable ∧ f.2.nesting ≤ maxNesting) ∧
      print options = "a=[ [1],\"x\\\"y\"] b.c=\x7b\"k\":null,\"l\":true\x7d" ∧
      Token.ofText (toText options) = .ok (options.map tokenOf) ∧
      parse (print options) = .ok options := by
  intro options
  have hplain : ∀ key : List Char, key.all (!isSpecial ·) = true → ∀ c ∈ key, isSpecial c = false := by
    simp
  have hkeys : ∀ f ∈ options, PlainKey f.1.toList :=
    List.forall_mem_cons.2 ⟨⟨by decide, hplain _ (by decide)⟩,
      List.forall_mem_cons.2 ⟨⟨by decide, hplain _ (by decide)⟩, by simp⟩⟩
  have harray : (Value.array [.array [.int 1], .string "x\"y"]).Storable := by
    refine .array (List.forall_mem_cons.2 ⟨.array ?_, ?_⟩)
    · simpa using Value.Storable.int (by decide)
    · simpa using Value.Storable.string "x\"y"
  have hobject : (Value.object [("k", .null), ("l", .bool true)]).Storable := by
    refine .object (by unfold Fields.Sorted; decide) (List.forall_mem_cons.2 ⟨.null, ?_⟩)
    simpa using Value.Storable.bool true
  have hvalues : ∀ f ∈ options, f.2.Storable :=
    List.forall_mem_cons.2 ⟨harray, List.forall_mem_cons.2 ⟨hobject, by simp⟩⟩
  have hnesting : ∀ f ∈ options, f.2.nesting ≤ maxNesting := by decide
  have hfirst : ∀ f ∈ options, ∀ k w fs, f.2 = .object ((k, w) :: fs) → '"' ∉ k.toList := by
    refine List.forall_mem_cons.2 ⟨fun k w fs h => by simp at h, ?_⟩
    refine List.forall_mem_cons.2 ⟨fun k w fs h => ?_, by simp⟩
    injection h with h
    injection h with h
    injection h with h
    subst h
    decide
  exact ⟨fun f hf => ⟨hkeys f hf, hvalues f hf, hnesting f hf⟩, by decide +kernel,
    parse_print (by unfold Fields.Sorted; decide) hkeys hvalues hnesting hfirst⟩

end Options

end CommentBlocks
