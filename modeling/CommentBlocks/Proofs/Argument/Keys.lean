import CommentBlocks.Proofs.Argument.Stepping
import CommentBlocks.Proofs.Argument.Written

/-!
The keys that any argument text sets: they are read as keys again wherever an equals sign follows them.
The reader keeps for this that the token at hand replays, also without the commas at its end.
-/

namespace CommentBlocks

open Unicode (isBlank)
open Text (isQuote bytes takeBytes trim trimEndBy)
open Options (isKey IsKeyText ReadsAsKey)

namespace Options

/-- The key that text names; commas at its end do not count. -/
def keyText (text : List Char) : List Char := trimEndBy (· == ',') (trim text)

def YieldsKey (text : List Char) : Prop := isKey (keyText text) = true → IsKeyText (keyText text)

end Options

open Options (YieldsKey)

structure Token.YieldsKeys (t : Token) : Prop where
  flag : t.equals = none → YieldsKey t.text
  pair : ∀ n, t.equals = some (n + 1) → YieldsKey (takeBytes (n + 1) t.text)

namespace Token.Reader

/-- The token at hand without the commas at its end, back to front, is read as a key and ends in no
blank. -/
def IsStem (stem : List Char) : Prop :=
  ReadsAsKey stem.reverse ∧ ∀ c ∈ stem.head?, isBlank c = false

structure Sound (r : Reader) : Prop where
  /-- No comment begins at the end of the token, and none at the start of the line. -/
  slash : EndsInSlash r.stack r.current →
    r.lineBlank = false ∧ r.rest.head? ≠ some '/' ∧ r.rest.head? ≠ some '*'
  /-- Between tokens nothing is open. -/
  fresh : r.current = [] → r.stack = [] ∧ r.equals = none
  marks : ∀ mark, .quote mark ∈ r.stack → isQuote mark = true
  /-- No token starts with a blank. -/
  first : ∀ c ∈ r.current.getLast?, isBlank c = false
  replays : r.current ≠ [] → Replays r
  /-- Up to its equals sign the token is a key, wherever no bracket or quote is open. -/
  stem : r.stack = [] → r.equals = none → r.current.dropWhile (· == ',') ≠ [] →
    IsStem (r.current.dropWhile (· == ','))
  /-- What stands before the equals sign was such a key when the sign was met. -/
  key : ∀ n, r.equals = some n → ∃ key tail, r.current.reverse = key ++ '=' :: tail ∧
    bytes key = n ∧ YieldsKey key
  tokens : ∀ t ∈ r.tokens, t.YieldsKeys

variable {r r' : Reader} {c : Char} {cs : List Char}

/-- Between tokens there is nothing to keep but the tokens. -/
lemma sound_between (hcurrent : r.current = []) (hstack : r.stack = []) (hequals : r.equals = none)
    (htokens : ∀ t ∈ r.tokens, t.YieldsKeys) : Sound r where
  slash := by rintro ⟨-, below, hbelow, -⟩; simp [hcurrent] at hbelow
  fresh := fun _ => ⟨hstack, hequals⟩
  marks := by simp [hstack]
  first := by simp [hcurrent]
  replays := fun hne => absurd hcurrent hne
  stem := by simp [hcurrent]
  key := by simp [hequals]
  tokens := htokens

lemma Sound.follows (h : Sound r) : Follows r.stack r.current r.rest := fun hslash =>
  (h.slash hslash).2

lemma Sound.yieldsKey (h : Sound r) (hstack : r.stack = []) (hequals : r.equals = none) :
    YieldsKey r.current.reverse := by
  have hstem := h.stem hstack hequals
  set stem := r.current.dropWhile (· == ',') with hstemDef
  have hlast : ∀ c ∈ r.current.head?, isBlank c = false := by
    intro c hc
    by_cases hcomma : c = ','
    · subst hcomma; decide
    · obtain ⟨tail, htail⟩ := List.head?_eq_some_iff.1 hc
      have hall : stem = r.current := by simp [hstemDef, htail, hcomma]
      exact (hstem (by simp [hall, htail])).2 c (hall ▸ hc)
  have htrim : trim r.current.reverse = r.current.reverse :=
    Text.trim_eq_self (by simpa using h.first) (by simpa using hlast)
  have hkey : Options.keyText r.current.reverse = stem.reverse := by
    rw [Options.keyText, htrim, trimEndBy, List.reverse_reverse]
  intro hiskey
  rw [hkey] at hiskey ⊢
  have hne : stem ≠ [] := by rintro hnil; rw [hnil] at hiskey; simp [isKey] at hiskey
  have hfirst : ∀ c ∈ stem.getLast?, isBlank c = false := by
    have hsuffix : stem <:+ r.current := List.dropWhile_suffix _
    obtain ⟨commas, hcommas⟩ := hsuffix
    intro c hc
    refine h.first c ?_
    rwa [← hcommas, List.getLast?_append_of_ne_nil _ hne]
  refine ⟨hiskey, ?_, (hstem hne).1⟩
  rw [Text.trim_eq_self (by simpa using hfirst) (by simpa using (hstem hne).2)]
  refine Text.trimEndBy_eq_self fun c hc => ?_
  rw [List.getLast?_reverse] at hc
  have := List.head?_dropWhile_not (· == ',') r.current
  rw [← hstemDef, Option.mem_def.1 hc] at this
  simpa using this

lemma Sound.yieldsKeys (h : Sound r) (hstack : r.stack = []) :
    Token.YieldsKeys ⟨r.current.reverse, r.equals⟩ where
  flag := fun hequals => h.yieldsKey hstack hequals
  pair := by
    intro n hequals
    obtain ⟨key, tail, htext, hbytes, hkey⟩ := h.key _ hequals
    have htake : takeBytes (n + 1) (key ++ '=' :: tail) = key := by
      rw [← hbytes, Text.takeBytes_append]
    rwa [htext, htake]

lemma Sound.finish (h : Sound r) (hstack : r.stack = []) (rest : List Char) (lineBlank : Bool) :
    Sound (Reader.finish { r with rest := rest, lineBlank := lineBlank }) := by
  simp only [Reader.finish]
  split
  · next hempty =>
    have hcurrent : r.current = [] := by simpa using hempty
    exact sound_between hcurrent hstack (h.fresh hcurrent).2 h.tokens
  · exact sound_between rfl hstack rfl (List.forall_mem_cons.2 ⟨h.yieldsKeys hstack, h.tokens⟩)

/-- The text at hand is read as a key where an equals sign may end it. -/
lemma isStem_of_replays (h : Replays r) (hstack : r.stack = []) (hequals : r.equals = none)
    (hlast : ∀ c ∈ r.current.head?, isBlank c = false) : IsStem r.current := by
  refine ⟨fun lineBlank rest tokens hhash => ?_, hlast⟩
  have hfollows : Follows r.stack r.current ('=' :: rest) := fun _ => ⟨by simp, by simp⟩
  rw [h (by simpa using hhash) hfollows, hstack, hequals, run_equals, List.reverse_reverse,
    Text.bytes_reverse]

lemma Sound.extend (h : Sound r) (text : List Char) (hne : text ≠ [])
    (hcurrent : r'.current = text ++ r.current) (htokens : r'.tokens = r.tokens)
    (hslash : EndsInSlash r'.stack r'.current →
      r'.lineBlank = false ∧ r'.rest.head? ≠ some '/' ∧ r'.rest.head? ≠ some '*')
    (hmarks : ∀ mark, .quote mark ∈ r'.stack → isQuote mark = true)
    (hfirst : r.current = [] → ∀ c ∈ text.getLast?, isBlank c = false)
    (hreplays : Replays r')
    (hlast : r'.stack = [] → ∀ c ∈ text.head?, isBlank c = false ∧
      (c = ',' → text = [','] ∧ r.stack = [] ∧ r.equals = r'.equals))
    (hequals : r'.equals = r.equals ∨
      text = ['='] ∧ r.stack = [] ∧ r.equals = none ∧ r'.equals = some (bytes r.current)) :
    Sound r' where
  slash := hslash
  fresh := by simp [hcurrent, hne]
  marks := hmarks
  first := by
    intro c hc
    by_cases hnil : r.current = []
    · exact hfirst hnil c (by simpa [hcurrent, hnil] using hc)
    · exact h.first c (by rwa [hcurrent, List.getLast?_append_of_ne_nil _ hnil] at hc)
  replays := fun _ => hreplays
  stem := by
    intro hstack hnone hdrop
    obtain ⟨c, tail, rfl⟩ := List.exists_cons_of_ne_nil hne
    obtain ⟨hblank, hcomma⟩ := hlast hstack c rfl
    by_cases hc : c = ','
    -- a comma at the end is taken off again
    · obtain ⟨htext, hstack', hequals'⟩ := hcomma hc
      have hsame : r'.current.dropWhile (· == ',') = r.current.dropWhile (· == ',') := by
        rw [hcurrent, htext]
        simp
      rw [hsame] at hdrop ⊢
      exact h.stem hstack' (hequals'.trans hnone) hdrop
    · have hall : r'.current.dropWhile (· == ',') = r'.current := by simp [hcurrent, hc]
      rw [hall]
      exact isStem_of_replays hreplays hstack hnone (by simpa [hcurrent] using hblank)
  key := by
    intro n hn
    rcases hequals with hsame | ⟨rfl, hstack, hnone, hsome⟩
    · obtain ⟨key, tail, htext, hbytes, hkey⟩ := h.key n (hsame ▸ hn)
      exact ⟨key, tail ++ text.reverse, by simp [hcurrent, htext], hbytes, hkey⟩
    · refine ⟨r.current.reverse, [], by simp [hcurrent], ?_, h.yieldsKey hstack hnone⟩
      rw [Text.bytes_reverse]
      exact Option.some.inj (hsome.symm.trans hn)
  tokens := by rw [htokens]; exact h.tokens

lemma Sound.current_ne_nil (h : Sound r) (hstack : r.stack ≠ []) : r.current ≠ [] := fun hnil =>
  hstack (h.fresh hnil).1

lemma Sound.quoted (h : Sound r) {mark : Char} {below : List Frame}
    (hstack : r.stack = .quote mark :: below) (hc : c ≠ '\\') :
    Sound { r with rest := cs, current := c :: r.current
                   stack := if c = mark then below else r.stack } := by
  have hquote : isQuote mark = true := h.marks mark (by simp [hstack])
  have hin : ¬ Outside r.stack := hstack ▸ not_outside_quote
  have hne : r.current ≠ [] := h.current_ne_nil (by simp [hstack])
  have hclosed : ∀ {p : Prop}, (c = mark → p) → Outside (if c = mark then below else r.stack) → p := by
    intro p hp hout
    split at hout
    · next hcm => exact hp hcm
    · exact absurd hout hin
  refine h.extend [c] (by simp) rfl rfl ?_ ?_ (fun hnil => absurd hnil hne) ?_ ?_ (.inl rfl)
  · rintro ⟨hout, below', hslash, -⟩
    refine hclosed (fun hcm => ?_) hout
    have hcs : c = '/' := by simpa using (List.cons.inj hslash).1
    exact absurd hcs (plain_of_isQuote (hcm ▸ hquote)).2.2.1
  · intro m hm
    refine h.marks m ?_
    dsimp only at hm
    split at hm
    · rw [hstack]
      exact List.mem_cons_of_mem _ hm
    · exact hm
  · refine (h.replays hne).trans [c] hne (fun rest hends => absurd hends.1 hin) rfl ?_
    intro rest tokens _
    refine run_of_step rfl ?_
    simp [step, stepQuoted, hstack, hc]
  · intro hnil d hd
    obtain rfl : c = d := by simpa using hd
    have hnil : (if c = mark then below else r.stack) = [] := hnil
    refine hclosed (fun hcm => ?_) (by rw [hnil]; exact outside_nil)
    have hplain := plain_of_isQuote (hcm ▸ hquote)
    exact ⟨hplain.1, fun hcomma => absurd hcomma hplain.2.1⟩

lemma Sound.escaped (h : Sound r) {mark d : Char} {below : List Frame}
    (hstack : r.stack = .quote mark :: below) :
    Sound { r with rest := cs, current := d :: '\\' :: r.current } := by
  have hin : ¬ Outside r.stack := hstack ▸ not_outside_quote
  have hne : r.current ≠ [] := h.current_ne_nil (by simp [hstack])
  refine h.extend [d, '\\'] (by simp) rfl rfl (fun hends => absurd hends.1 hin) h.marks
    (fun hnil => absurd hnil hne) ?_ (fun hnil => absurd (hstack.symm.trans hnil) (by simp)) (.inl rfl)
  refine (h.replays hne).trans ['\\', d] hne (fun rest hends => absurd hends.1 hin) rfl ?_
  intro rest tokens _
  refine run_of_step rfl ?_
  simp [step, stepQuoted, hstack]

lemma Sound.comment (h : Sound r) {cs' : List Char} (hskip : r.skipComment? c cs = some cs') :
    Sound { r with rest := cs' } where
  slash := by
    intro hends
    have hline := (h.slash hends).1
    obtain ⟨-, below, hcurrent, -⟩ := hends
    have hnone : r.skipComment? c cs = none := by
      refine skipComment?_eq_none_iff.2 ⟨.inl hline, fun _ hopens => ?_⟩
      rw [show r.current = '/' :: below from hcurrent] at hopens
      exact absurd hopens (show ¬ isBlank '/' = true by decide)
    rw [hnone] at hskip
    simp at hskip
  fresh := h.fresh
  marks := h.marks
  first := h.first
  replays := h.replays
  stem := h.stem
  key := h.key
  tokens := h.tokens

lemma Sound.joins (h : Sound r) (hrest : r.rest = c :: cs) {stack' : List Frame}
    {equals' : Option Nat} (hstack : Outside r.stack) (hskip : r.skipComment? c cs = none)
    (haccepts : Accepts r.stack r.current r.equals c stack' equals') :
    Sound { r.advance c cs with current := c :: r.current, stack := stack', equals := equals' } := by
  obtain ⟨hhash, hslash⟩ := skipComment?_eq_none_iff.1 hskip
  refine h.extend [c] (by simp) rfl rfl ?_ ?_ ?_ ?_ ?_ ?_
  · rintro ⟨-, below, hcons, hopens⟩
    obtain ⟨rfl, rfl⟩ : c = '/' ∧ r.current = below := by simpa using hcons
    exact ⟨rfl, hslash rfl hopens⟩
  · intro mark hmark
    exact (haccepts.isQuote_of_mem hmark).elim (h.marks mark) id
  · intro hnil d hd
    obtain rfl : c = d := by simpa using hd
    exact haccepts.not_isBlank (h.fresh hnil).1
  · by_cases hnil : r.current = []
    · -- the first character is no blank, so it does not matter where on its line it stands
      have hblank := haccepts.not_isBlank (h.fresh hnil).1
      have hbreak : (c == '\n') = false := beq_eq_false_iff_ne.2 (ne_lineFeed_of_not_isBlank hblank)
      rw [(h.fresh hnil).1, (h.fresh hnil).2, hnil] at haccepts
      intro lineBlank rest tokens hstart hfollows
      rw [hnil] at hstart hfollows
      have hrun := run_joins outside_nil haccepts (by simpa using hstart) hfollows tokens
      simpa [advance, hnil, hblank, hbreak] using hrun
    · refine (h.replays hnil).trans [c] hnil (fun rest hends => ?_) rfl
        fun rest tokens hfollows => run_joins hstack haccepts hhash hfollows tokens
      have hhead := h.follows hends
      rw [hrest] at hhead
      exact hhead
  · intro hnil d hd
    obtain rfl : c = d := by simpa using hd
    exact haccepts.last hnil
  · exact haccepts.equals_eq

/-- A step keeps what holds, unless the text ends after a backslash in quotes. -/
theorem Sound.step (h : Sound r) (hrest : r.rest = c :: cs) (hstep : r.step c cs = .ok r') :
    Sound r' ∨ r'.rest = [] ∧ r'.stack ≠ [] := by
  cases moves_of_step hstep with
  | quoted hstack hc => exact .inl (h.quoted hstack hc)
  | escaped hstack hc hcs => subst hc hcs; exact .inl (h.escaped hstack)
  | cutShort hstack => exact .inr ⟨rfl, by simp [hstack]⟩
  | comment hstack hskip => exact .inl (h.comment hskip)
  | blank hstack => exact .inl (h.finish hstack cs _)
  | joins hstack hskip haccepts => exact .inl (h.joins hrest hstack hskip haccepts)

theorem Sound.run (h : Sound r) {tokens : List Token} (hrun : r.run = .ok tokens) :
    ∀ t ∈ tokens, t.YieldsKeys :=
  run_keeps Sound.step (fun {r} h hstack => (h.finish hstack r.rest r.lineBlank).tokens) h hrun

end Token.Reader

lemma Token.yieldsKeys_of_ofText {text : List Char} {tokens : List Token}
    (h : Token.ofText text = .ok tokens) : ∀ t ∈ tokens, t.YieldsKeys :=
  (Reader.sound_between (r := Reader.start text) rfl rfl rfl (by simp [Reader.start])).run h

namespace Options

/-! ### Setting options -/

/-- Options as any text sets them. -/
structure Readable (options : Options) : Prop where
  sorted : options.Sorted
  keys : ∀ f ∈ options, IsKeyText f.1.toList
  values : ∀ f ∈ options, f.2.Storable

lemma readable_nil : Readable [] :=
  ⟨Fields.sorted_nil, by simp, by simp⟩

lemma Readable.insert {options : Options} (h : Readable options) {key : List Char} {v : Value}
    (hkey : IsKeyText key) (hv : v.Storable) :
    Readable (Fields.insert (String.ofList key) v options) where
  sorted := h.sorted.insert _ _
  keys := by
    intro f hf
    rcases Fields.mem_insert hf with rfl | hf
    · simpa using hkey
    · exact h.keys f hf
  values := by
    intro f hf
    rcases Fields.mem_insert hf with rfl | hf
    · exact hv
    · exact h.values f hf

namespace Gathering

structure Readable (g : Gathering) : Prop where
  options : g.options.Readable
  pending : ∀ p ∈ g.pending, YieldsKey p.key

variable {g : Gathering}

lemma Readable.commit (h : Readable g) {key : List Char} (hkey : YieldsKey key)
    (raw : Option (List Char)) : Readable (g.commit key raw) := by
  simp only [Gathering.commit]
  split
  · next hiskey =>
    refine ⟨h.options.insert (hkey hiskey) ?_, h.pending⟩
    split
    · exact .bool true
    · next raw => exact Coerce.storable_value raw
  · exact h

lemma Readable.take (h : Readable g) : Readable { g with pending := none } :=
  ⟨h.options, by simp⟩

lemma Readable.wait (h : Readable g) {p : Pending} (hp : YieldsKey p.key) :
    Readable { g with pending := some p } :=
  ⟨h.options, by simpa using hp⟩

lemma Readable.flush (h : Readable g) : Readable g.flush := by
  simp only [Gathering.flush]
  split
  · exact h
  · next p hp => exact h.take.commit (h.pending p hp) none

/-- A token keeps the options readable if its keys are read as such again. -/
lemma Readable.push (h : Readable g) {t : Token} (ht : t.YieldsKeys) : Readable (g.push t) := by
  simp only [Gathering.push]
  split
  · exact h
  · split
    · split
      · exact h
      · next p hp =>
        split
        · exact h.wait (h.pending p hp)
        · exact h.take.commit (h.pending p hp) _
    · next offset hne hequals =>
      obtain ⟨n, rfl⟩ := Nat.exists_eq_succ_of_ne_zero (n := offset) hne
      have hkey := ht.pair n hequals
      split
      · exact h.flush.wait hkey
      · exact h.flush.commit hkey _
    · next hequals =>
      have hkey := ht.flag hequals
      split
      · next p hp =>
        split
        · exact h.take.commit (h.pending p hp) _
        · exact (h.commit (h.pending p hp) none).wait hkey
      · exact h.wait hkey

end Gathering

theorem readable_of_ofText {text : List Char} {options : Options} (h : ofText text = .ok options) :
    Readable options := by
  rw [ofText] at h
  cases htokens : Token.ofText text with
  | error fault => simp [htokens, Except.map] at h
  | ok tokens =>
    obtain rfl : ofTokens tokens = options := by simpa [htokens, Except.map] using h
    have hyields := Token.yieldsKeys_of_ofText htokens
    have hstart : Gathering.Readable Gathering.start := ⟨readable_nil, by simp [Gathering.start]⟩
    have hfold : ∀ (ts : List Token) (g : Gathering), (∀ t ∈ ts, t.YieldsKeys) → g.Readable →
        Gathering.Readable (ts.foldl Gathering.push g) := by
      intro ts
      induction ts with
      | nil => exact fun g _ hg => hg
      | cons t ts ih =>
        exact fun g hts hg => ih _ (fun u hu => hts u (List.mem_cons_of_mem _ hu))
          (hg.push (hts t List.mem_cons_self))
    exact (hfold tokens Gathering.start hyields hstart).flush.options

end Options

end CommentBlocks
