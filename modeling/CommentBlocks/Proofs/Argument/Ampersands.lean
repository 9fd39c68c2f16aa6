import CommentBlocks.Proofs.Argument.Layout
import CommentBlocks.Proofs.Text.Splitting

/-!
Plain flags and pairs say the same with ampersands between them as with spaces.

With ampersands the text is split and each part set in turn. With spaces a flag waits for the next
token or the end of the text, so that the options set so far lag one flag behind: `Gathering.flush`
makes up for it, and both sides are the items set one after the other.
-/

namespace CommentBlocks.Options

open Text (bytes trim joinWith)
open Token (Reader)
open Token.Reader (opensComment)
open Unicode (isBlank)
open Relaxed (Blanks)

/-- What ends the text of a plain value: white space, quotes, brackets, equals signs and ampersands. -/
def endsValueWord (c : Char) : Bool :=
  isBlank c || Text.isQuote c || (BracketKind.ofOpening? c).isSome ||
    (BracketKind.ofClosing? c).isSome || c == '=' || c == '&'

/-- A flag, or a pair of a key and the text of its value. -/
inductive Item where
  | flag (key : List Char)
  | pair (key raw : List Char)
deriving DecidableEq, Repr

namespace Item

def text : Item → List Char
  | flag key => key
  | pair key raw => key ++ '=' :: raw

/-- A word without special characters or ampersands. -/
structure KeyWord (key : List Char) : Prop where
  ne_nil : key ≠ []
  plain : ∀ c ∈ key, isSpecial c = false ∧ c ≠ '&'

/-- A word that may hold commas, slashes and hashes too. -/
structure ValueWord (raw : List Char) : Prop where
  ne_nil : raw ≠ []
  plain : ∀ c ∈ raw, endsValueWord c = false

inductive Plain : Item → Prop
  | flag {key : List Char} (hkey : KeyWord key) : Plain (flag key)
  | pair {key raw : List Char} (hkey : KeyWord key) (hraw : ValueWord raw) : Plain (pair key raw)

instance (key : List Char) : Decidable (KeyWord key) :=
  decidable_of_iff (key ≠ [] ∧ key.all (fun c => !isSpecial c && c != '&') = true)
    ⟨fun h => ⟨h.1, by simpa using h.2⟩, fun h => ⟨h.ne_nil, by simpa using h.plain⟩⟩

instance (raw : List Char) : Decidable (ValueWord raw) :=
  decidable_of_iff (raw ≠ [] ∧ raw.all (!endsValueWord ·) = true)
    ⟨fun h => ⟨h.1, by simpa using h.2⟩, fun h => ⟨h.ne_nil, by simpa using h.plain⟩⟩

instance : DecidablePred Plain
  | flag key => decidable_of_iff (KeyWord key) ⟨.flag, fun h => by cases h; assumption⟩
  | pair key raw => decidable_of_iff (KeyWord key ∧ ValueWord raw)
    ⟨fun h => .pair h.1 h.2, fun h => by cases h with | pair hkey hraw => exact ⟨hkey, hraw⟩⟩

def put (key : List Char) (value : Value) (options : Options) : Options :=
  if isKey key then options.insert (String.ofList key) value else options

def set (options : Options) : Item → Options
  | flag key => put key (.bool true) options
  | pair key raw => put key (Coerce.value raw) options

def token : Item → Token
  | flag key => ⟨key, none⟩
  | pair key raw => ⟨key ++ '=' :: raw, some (bytes key)⟩

/-! ### Characters -/

lemma plain_of_endsValueWord {c : Char} (h : endsValueWord c = false) :
    isBlank c = false ∧ Text.isQuote c = false ∧ BracketKind.ofOpening? c = none ∧
      BracketKind.ofClosing? c = none ∧ c ≠ '=' ∧ c ≠ '&' := by
  simp only [endsValueWord, Bool.or_eq_false_iff, Option.isSome_eq_false_iff,
    Option.isNone_iff_eq_none, beq_eq_false_iff_ne] at h
  obtain ⟨⟨⟨⟨⟨hb, hq⟩, ho⟩, hc⟩, he⟩, ha⟩ := h
  exact ⟨hb, hq, ho, hc, he, ha⟩

section Key

variable {key : List Char}

lemma KeyWord.not_special (h : KeyWord key) : ∀ c ∈ key, isSpecial c = false :=
  fun c hc => (h.plain c hc).1

lemma KeyWord.not_isBlank (h : KeyWord key) : ∀ c ∈ key, isBlank c = false :=
  fun c hc => (plain_of_isSpecial (h.not_special c hc)).1

lemma KeyWord.equals_not_mem (h : KeyWord key) : '=' ∉ key :=
  fun hmem => absurd (h.not_special _ hmem) (by decide)

lemma KeyWord.trim (h : KeyWord key) : trim key = key :=
  Text.trim_of_not_isBlank h.not_isBlank

end Key

section Text

variable {item : Item}

lemma Plain.ne_nil (h : item.Plain) : item.text ≠ [] := by
  cases h with
  | flag hkey => exact hkey.ne_nil
  | pair => simp [text]

lemma Plain.not_isBlank (h : item.Plain) : ∀ c ∈ item.text, isBlank c = false := by
  cases h with
  | flag hkey => exact hkey.not_isBlank
  | pair hkey hraw =>
    intro c hc
    rcases List.mem_append.1 hc with hc | hc
    · exact hkey.not_isBlank c hc
    · rcases List.mem_cons.1 hc with rfl | hc
      · decide
      · exact (plain_of_endsValueWord (hraw.plain c hc)).1

lemma Plain.ampersand_not_mem (h : item.Plain) : '&' ∉ item.text := by
  cases h with
  | flag hkey => exact fun hmem => (hkey.plain _ hmem).2 rfl
  | pair hkey hraw =>
    intro hmem
    rcases List.mem_append.1 hmem with hmem | hmem
    · exact (hkey.plain _ hmem).2 rfl
    · rcases List.mem_cons.1 hmem with heq | hmem
      · exact absurd heq (by decide)
      · exact absurd (hraw.plain _ hmem) (by decide)

end Text

/-! ### With ampersands -/

lemma Plain.setPair {item : Item} (h : item.Plain) (options : Options) :
    setPair options item.text = item.set options := by
  cases h with
  | flag hkey =>
    rw [Options.setPair, text, Text.splitOnce?_of_not_mem hkey.equals_not_mem]
    rfl
  | pair hkey hraw =>
    rw [Options.setPair, text, Text.splitOnce?_append hkey.equals_not_mem]
    simp only [hkey.trim]
    rfl

variable {items : List Item}

theorem ofPairs_joinWith (h : ∀ item ∈ items, item.Plain) :
    ofPairs (joinWith ['&'] (items.map text)) = items.foldl set [] := by
  by_cases hnil : items = []
  · subst hnil
    rfl
  have htexts : ∀ t ∈ items.map text, trim t = t ∧ t ≠ [] ∧ '&' ∉ t := by
    intro t ht
    obtain ⟨item, hitem, rfl⟩ := List.mem_map.1 ht
    have hplain := h item hitem
    exact ⟨Text.trim_of_not_isBlank hplain.not_isBlank, hplain.ne_nil, hplain.ampersand_not_mem⟩
  have hsplit : Text.splitAt '&' (joinWith ['&'] (items.map text)) = items.map text :=
    Text.splitAt_joinWith (by simpa using hnil) fun t ht => (htexts t ht).2.2
  have htrim : (items.map text).map trim = items.map text :=
    (List.map_congr_left fun t ht => (htexts t ht).1).trans (List.map_id _)
  have hfilter : (items.map text).filter (!·.isEmpty) = items.map text :=
    List.filter_eq_self.2 fun t ht => by simpa using (htexts t ht).2.1
  rw [ofPairs, hsplit, htrim, hfilter, List.foldl_map]
  exact List.foldl_ext _ _ _ fun options item hitem => (h item hitem).setPair options

/-! ### With spaces -/

/-- Behind an equals sign the text of a plain value joins the token at hand, whatever slashes, hashes
and commas it holds. -/
lemma ValueWord.run {raw : List Char} (h : ValueWord raw) {current : List Char}
    (hcurrent : opensComment current = false) (rest : List Char) (equals : Option Nat)
    (tokens : List Token) :
    (⟨raw ++ rest, [], current, equals, false, tokens⟩ : Reader).run =
      (⟨rest, [], raw.reverse ++ current, equals, false, tokens⟩ : Reader).run := by
  have hplain := h.plain
  clear h
  induction raw generalizing current with
  | nil => rfl
  | cons c raw ih =>
    obtain ⟨hc, hraw⟩ := List.forall_mem_cons.1 hplain
    obtain ⟨hb, hq, ho, hcl, he, -⟩ := plain_of_endsValueWord hc
    have hfollows : Reader.Follows [] (c :: current) (raw ++ rest) := by
      rintro ⟨-, below, hcons, hopens⟩
      obtain ⟨-, rfl⟩ := List.cons.inj hcons
      exact absurd (hcurrent.symm.trans hopens) (by decide)
    have hnext : opensComment (c :: current) = false := hb
    rw [List.cons_append, Reader.run_joins Reader.outside_nil (.put (.inl hb) (.inl hq) ho hcl (.inl he))
      (.inl rfl) hfollows, Reader.lineBlank_eq_false hb, ih hnext hraw]
    simp

lemma Plain.run {item : Item} (h : item.Plain) {gap : List Char} (hgap : Blanks gap) (rest : List Char)
    (hends : gap = [] → rest = []) (lineBlank : Bool) (tokens : List Token) : ∃ lineBlank',
      (⟨item.text ++ (gap ++ rest), [], [], none, lineBlank, tokens⟩ : Reader).run =
        (⟨rest, [], [], none, lineBlank', item.token :: tokens⟩ : Reader).run := by
  cases h with
  | @flag key hkey =>
    obtain ⟨lineBlank', hrun⟩ := Reader.run_gap hgap rest hends (List.reverse_ne_nil_iff.2 hkey.ne_nil)
      none false tokens
    refine ⟨lineBlank', ?_⟩
    rw [text, run_plain hkey.ne_nil hkey.not_special, hrun, List.reverse_reverse]
    rfl
  | @pair key raw hkey hraw =>
    have hne : raw.reverse ++ '=' :: key.reverse ≠ [] := by simp
    obtain ⟨lineBlank', hrun⟩ := Reader.run_gap hgap rest hends hne (some (bytes key)) false tokens
    refine ⟨lineBlank', ?_⟩
    rw [text, List.append_assoc, List.cons_append, run_plain hkey.ne_nil hkey.not_special,
      Reader.run_equals, Text.bytes_reverse, hraw.run rfl, hrun]
    simp [token]

lemma ofText_joinWith (h : ∀ item ∈ items, item.Plain) :
    Token.ofText (joinWith [' '] (items.map text)) = .ok (items.map token) := by
  suffices hall : ∀ (lineBlank : Bool) (tokens : List Token),
      (⟨joinWith [' '] (items.map text), [], [], none, lineBlank, tokens⟩ : Reader).run =
        .ok (tokens.reverse ++ items.map token) from hall true []
  induction items with
  | nil =>
    intro lineBlank tokens
    rw [List.map_nil, joinWith, Reader.run_of_nil rfl rfl]
    simp [Reader.finish]
  | cons item items ih =>
    intro lineBlank tokens
    obtain ⟨hitem, hitems⟩ := List.forall_mem_cons.1 h
    by_cases hnil : items = []
    · subst hnil
      have hnone : Blanks [] := by simp [Blanks]
      obtain ⟨lineBlank', hrun⟩ := hitem.run hnone [] (fun _ => rfl) lineBlank tokens
      rw [List.append_nil, List.append_nil] at hrun
      rw [List.map_singleton, joinWith, hrun, Reader.run_of_nil rfl rfl]
      simp [Reader.finish]
    · have hspace : Blanks [' '] := List.forall_mem_singleton.2 (by decide)
      obtain ⟨lineBlank', hrun⟩ := hitem.run hspace (joinWith [' '] (items.map text))
        (fun heq => absurd heq (by decide)) lineBlank tokens
      rw [List.map_cons, Text.joinWith_cons (by simpa using hnil)]
      rw [List.singleton_append] at hrun
      rw [hrun, ih hitems]
      simp

/-! ### The key that waits -/

def Settled (g : Gathering) : Prop := ∀ p ∈ g.pending, p.awaitsValue = false

lemma options_commit {key : List Char} (h : KeyWord key) (g : Gathering) (raw : Option (List Char)) :
    (g.commit key raw).options =
      put key (match raw with | none => .bool true | some raw => Coerce.value raw) g.options := by
  simp only [Gathering.commit, trim_plain h.not_special, put]
  split <;> rfl

lemma pending_commit (g : Gathering) (key : List Char) (raw : Option (List Char)) :
    (g.commit key raw).pending = g.pending := by
  simp only [Gathering.commit]
  split <;> rfl

lemma pending_flush (g : Gathering) : g.flush.pending = none := by
  rw [Gathering.flush]
  split
  · assumption
  · exact pending_commit _ _ _

lemma flush_of_pending {g : Gathering} (h : g.pending = none) : g.flush = g := by
  rw [Gathering.flush, h]

/-- One more item is set on top of the key that waited before it. -/
lemma Plain.push {item : Item} (h : item.Plain) {g : Gathering} (hg : Settled g) :
    Settled (g.push item.token) ∧ (g.push item.token).flush.options = item.set g.flush.options := by
  cases h with
  | @flag key hkey =>
    have hcounts := counts_plain hkey.ne_nil hkey.not_special
    cases hpending : g.pending with
    | none =>
      have hpush : g.push ⟨key, none⟩ = { g with pending := some ⟨key, false⟩ } := by
        simp [Gathering.push, hcounts, hpending]
      rw [token, hpush, flush_of_pending hpending]
      exact ⟨by simp [Settled], options_commit hkey _ none⟩
    | some p =>
      have hawaits : p.awaitsValue = false := hg p hpending
      have hpush : g.push ⟨key, none⟩ = { g.commit p.key none with pending := some ⟨key, false⟩ } := by
        simp [Gathering.push, hcounts, hpending, hawaits]
      have hflush : g.flush.options = (g.commit p.key none).options := by
        simp only [Gathering.flush, hpending, Gathering.commit]
        split <;> rfl
      rw [token, hpush, hflush]
      exact ⟨by simp [Settled], options_commit hkey _ none⟩
  | @pair key raw hkey hraw =>
    have hpush : g.push (Item.pair key raw).token = g.flush.commit key (some raw) := by
      rw [token, Gathering.push_equals hkey.ne_nil, if_neg (by simpa using hraw.ne_nil)]
    have hpending : (g.flush.commit key (some raw)).pending = none := by
      rw [pending_commit, pending_flush]
    rw [hpush, flush_of_pending hpending]
    exact ⟨by simp [Settled, hpending], options_commit hkey _ (some raw)⟩

lemma foldl_push (h : ∀ item ∈ items, item.Plain) {g : Gathering} (hg : Settled g) :
    ((items.map token).foldl Gathering.push g).flush.options = items.foldl set g.flush.options := by
  induction items generalizing g with
  | nil => rfl
  | cons item items ih =>
    obtain ⟨hitem, hitems⟩ := List.forall_mem_cons.1 h
    obtain ⟨hsettled, hoptions⟩ := hitem.push hg
    rw [List.map_cons, List.foldl_cons, List.foldl_cons, ih hitems hsettled, hoptions]

end Item

open Item in
/-- Plain flags and pairs with spaces between them set what they set with ampersands. -/
theorem parse_joinWith_eq_ofPairs {items : List Item} (h : ∀ item ∈ items, item.Plain) :
    parse (String.ofList (joinWith [' '] (items.map text))) =
      .ok (ofPairs (joinWith ['&'] (items.map text))) := by
  have hgather : ofTokens (items.map token) = items.foldl Item.set [] :=
    foldl_push h (g := Gathering.start) (by simp [Settled, Gathering.start])
  rw [parse, String.toList_ofList, ofText, ofText_joinWith h, ofPairs_joinWith h, Except.map, hgather]

/-- Flags at both ends and between pairs, a key that is set twice, a key that cannot be one, and values
with commas, slashes and hashes. -/
theorem parse_joinWith_eq_ofPairs_six_items :
    parse "-x b=1,, a -y=2 b=#//z c" = .ok (ofPairs "-x&b=1,,&a&-y=2&b=#//z&c".toList) ∧
      parse "-x b=1,, a -y=2 b=#//z c" =
        .ok [("a", .bool true), ("b", .string "#//z"), ("c", .bool true)] := by
  let items : List Item := [.flag "-x".toList, .pair "b".toList "1,,".toList, .flag "a".toList,
    .pair "-y".toList "2".toList, .pair "b".toList "#//z".toList, .flag "c".toList]
  have hplain : ∀ item ∈ items, item.Plain := by decide
  have hspaces : joinWith [' '] (items.map Item.text) = "-x b=1,, a -y=2 b=#//z c".toList := by decide
  have hampersands : joinWith ['&'] (items.map Item.text) = "-x&b=1,,&a&-y=2&b=#//z&c".toList := by
    decide
  have hsame := parse_joinWith_eq_ofPairs hplain
  rw [hspaces, hampersands, String.ofList_toList] at hsame
  exact ⟨hsame, by decide +kernel⟩

end CommentBlocks.Options
