import CommentBlocks.Tag.Vocabulary
import CommentBlocks.Unicode.LowerCase
import CommentBlocks.Unicode.Word

/-!
Finding tags in a text.

A tag is an opening delimiter, blanks, a word, further text that does not start with a word
character, and a closing delimiter. Of several ways to read a tag at one place the one with the most
blanks counts, then the word as written before the word in small letters, then further text before
none, and of all ends the first.
-/

namespace CommentBlocks

/-- What tags of one kind look like. -/
structure TagPattern where
  opening : List Char
  words : List (List Char)
  /-- Empty for tags that run to the end of the line. -/
  closing : List Char
deriving DecidableEq, Repr

/-- A tag that was found: the pieces between its delimiters, and the text that follows it. -/
structure Tag where
  blanks : List Char
  word : List Char
  inner : List Char
  after : List Char
deriving DecidableEq, Repr

namespace TagPattern

open Unicode (isWord)
open Text (after? cut?)

def isSpace (c : Char) : Bool := c == ' ' || c == '\t'

/-- The ways to write a tag word: as it stands and in small letters. -/
def spellings (word : String) : List (List Char) :=
  let cs := word.toList
  let small := Unicode.lower cs
  if small = cs then [cs] else [cs, small]

def ofWord (v : Vocabulary) (word : String) : TagPattern :=
  ⟨v.commentOpen.toList, spellings word, v.commentClose.toList⟩

def opensBlock (v : Vocabulary) : TagPattern := ofWord v v.openWord

def closesBlock (v : Vocabulary) : TagPattern := ofWord v v.closeWord

/-- A character that may follow the word. -/
def endsWord (c : Char) : Bool := !isWord c && c != '-'

/-- The text from the end of the word to the end of the line, if something may follow the word; the
tag ends with the word otherwise. -/
def readLine (cs : List Char) : List Char × List Char :=
  match cs with
  | [] => ([], [])
  | c :: rest =>
    if endsWord c && c != '\n' then (c :: rest.takeWhile (· != '\n'), rest.dropWhile (· != '\n'))
    else ([], c :: rest)

/-- The text from the end of the word to the closing delimiter, and what follows the delimiter. -/
def readInner? (closing cs : List Char) : Option (List Char × List Char) :=
  let direct := (after? closing cs).map fun rest => ([], rest)
  match cs with
  | [] => direct
  | c :: rest =>
    if endsWord c then
      match cut? closing rest with
      | some (inner, rest) => some (c :: inner, rest)
      | none => direct
    else direct

def readEnd? (p : TagPattern) (cs : List Char) : Option (List Char × List Char) :=
  if p.closing = [] then some (readLine cs) else readInner? p.closing cs

def readWord? (p : TagPattern) (cs : List Char) : Option Tag :=
  p.words.findSome? fun word =>
    match after? word cs with
    | none => none
    | some rest => (p.readEnd? rest).map fun (inner, after) => ⟨[], word, inner, after⟩

def readBlanks? (p : TagPattern) : List Char → Option Tag
  | [] => p.readWord? []
  | c :: cs =>
    if isSpace c then
      match p.readBlanks? cs with
      | some t => some { t with blanks := c :: t.blanks }
      | none => p.readWord? (c :: cs)
    else p.readWord? (c :: cs)

/-- The tag at the start of a text. -/
def read? (p : TagPattern) (cs : List Char) : Option Tag :=
  match after? p.opening cs with
  | none => none
  | some rest => p.readBlanks? rest

def text (p : TagPattern) (t : Tag) : List Char :=
  p.opening ++ t.blanks ++ t.word ++ t.inner ++ p.closing

/-- The first tag in a text and the text before it. -/
def find? (p : TagPattern) : List Char → Option (List Char × Tag)
  | [] => (p.read? []).map fun t => ([], t)
  | c :: cs =>
    match p.read? (c :: cs) with
    | some t => some ([], t)
    | none => (p.find? cs).map fun (skipped, t) => (c :: skipped, t)

/-- The text without its tags; `skip` characters of a tag are still to be left out. -/
def removeFrom (p : TagPattern) : Nat → List Char → List Char
  | _, [] => []
  | skip + 1, _ :: cs => p.removeFrom skip cs
  | 0, c :: cs =>
    match p.read? (c :: cs) with
    | none => c :: p.removeFrom 0 cs
    | some t =>
      match (p.text t).length with
      | 0 => c :: p.removeFrom 0 cs
      | n + 1 => p.removeFrom n cs

def remove (p : TagPattern) (cs : List Char) : List Char := p.removeFrom 0 cs

theorem append_readLine (cs : List Char) : (readLine cs).1 ++ (readLine cs).2 = cs := by
  cases cs with
  | nil => rfl
  | cons c cs => simp only [readLine]; split <;> simp

theorem eq_of_readInner? {closing cs inner rest : List Char}
    (h : readInner? closing cs = some (inner, rest)) : cs = inner ++ closing ++ rest := by
  have direct : ∀ {cs : List Char}, ((after? closing cs).map fun r => (([] : List Char), r)) =
      some (inner, rest) → cs = inner ++ closing ++ rest := by
    intro cs h
    obtain ⟨r, hr, he⟩ := Option.map_eq_some_iff.1 h
    cases he
    simpa using Text.after?_eq_some_iff.1 hr
  simp only [readInner?] at h
  split at h
  · exact direct h
  · split at h
    · split at h
      · next hc => cases h; simp [Text.eq_of_cut? hc]
      · exact direct h
    · exact direct h

theorem eq_of_readEnd? {p : TagPattern} {cs inner rest : List Char}
    (h : p.readEnd? cs = some (inner, rest)) : cs = inner ++ p.closing ++ rest := by
  simp only [readEnd?] at h
  split at h
  · next hc =>
    have := append_readLine cs
    simp only [Option.some.injEq] at h
    rw [h] at this
    simp [hc, this]
  · exact eq_of_readInner? h

theorem eq_of_readWord? {p : TagPattern} {cs : List Char} {t : Tag} (h : p.readWord? cs = some t) :
    t.blanks = [] ∧ cs = t.word ++ t.inner ++ p.closing ++ t.after := by
  obtain ⟨w, -, hw⟩ := List.exists_of_findSome?_eq_some h
  split at hw
  · simp at hw
  · next rest hr =>
    obtain ⟨⟨i, a⟩, hi, rfl⟩ := Option.map_eq_some_iff.1 hw
    simp [Text.after?_eq_some_iff.1 hr, eq_of_readEnd? hi]

theorem eq_of_readBlanks? {p : TagPattern} {cs : List Char} {t : Tag}
    (h : p.readBlanks? cs = some t) :
    cs = t.blanks ++ t.word ++ t.inner ++ p.closing ++ t.after := by
  have plain : ∀ {cs : List Char}, p.readWord? cs = some t →
      cs = t.blanks ++ t.word ++ t.inner ++ p.closing ++ t.after := by
    intro cs h
    obtain ⟨hb, hc⟩ := eq_of_readWord? h
    rw [hb]
    simpa using hc
  induction cs generalizing t with
  | nil => exact plain h
  | cons c cs ih =>
    simp only [readBlanks?] at h
    split at h
    · split at h
      · next t' ht =>
        cases h
        have := ih ht fun {cs} h => by
          obtain ⟨hb, hc⟩ := eq_of_readWord? h
          rw [hb]
          simpa using hc
        simp only [List.cons_append]
        rw [← this]
      · exact plain h
    · exact plain h

/-- A tag and what follows it make up the text it was read from. -/
theorem eq_of_read? {p : TagPattern} {cs : List Char} {t : Tag} (h : p.read? cs = some t) :
    cs = p.text t ++ t.after := by
  simp only [read?] at h
  split at h
  · simp at h
  · next rest hr =>
    rw [Text.after?_eq_some_iff.1 hr, eq_of_readBlanks? h]
    simp [text]

/-- The text before a tag, the tag and what follows it make up the text. -/
theorem eq_of_find? {p : TagPattern} {cs skipped : List Char} {t : Tag}
    (h : p.find? cs = some (skipped, t)) : cs = skipped ++ p.text t ++ t.after := by
  induction cs generalizing skipped with
  | nil =>
    obtain ⟨u, hu, he⟩ := Option.map_eq_some_iff.1 h
    cases he
    simpa using eq_of_read? hu
  | cons c cs ih =>
    simp only [find?] at h
    split at h
    · next hr => cases h; simpa using eq_of_read? hr
    · obtain ⟨⟨s, u⟩, hu, he⟩ := Option.map_eq_some_iff.1 h
      cases he
      simp [ih hu]

end TagPattern

/-- The text without tags that open a block, and then without those that close one. -/
def Vocabulary.stripTags (v : Vocabulary) (cs : List Char) : List Char :=
  (TagPattern.closesBlock v).remove ((TagPattern.opensBlock v).remove cs)

end CommentBlocks
