import CommentBlocks.Proofs.Value.Pieces

/-!
The reader of relaxed literals takes just what the grammar derives, and gives the value that the
grammar does.
-/

namespace CommentBlocks.Relaxed

open Unicode (isBlank)
open Text (isQuote)

/-! ### One step of each reader -/

lemma not_isBlank_of_isQuote {c : Char} (h : isQuote c = true) : isBlank c = false := by
  simp only [isQuote, Bool.or_eq_true, beq_iff_eq] at h
  rcases h with (rfl | rfl) | rfl <;> decide

lemma Derives.exists_cons {holder : Holder} {v : Value} {text : List Char}
    (h : Derives .reader (.element holder v) text) : ∃ c cs, text = c :: cs ∧ isBlank c = false ∧
      (holder.endsWord c = false ∨ c = '[' ∨ c = '\x7b') := by
  cases h with
  | nested h =>
    cases h with
    | @string quote _ _ hquote _ =>
      refine ⟨quote, _, rfl, not_isBlank_of_isQuote hquote, .inl ?_⟩
      simp only [isQuote, Bool.or_eq_true, beq_iff_eq] at hquote
      rcases hquote with (rfl | rfl) | rfl <;> cases holder <;> decide
    | array _ => exact ⟨'[', _, rfl, by decide, .inr (.inl rfl)⟩
    | object _ _ => exact ⟨'\x7b', _, rfl, by decide, .inr (.inr rfl)⟩
  | word h =>
    obtain ⟨c, cs, rfl⟩ := List.exists_cons_of_ne_nil h.1.ne_nil
    exact ⟨c, cs, rfl, (h.1.first c rfl).1, .inl (h.1.inside c List.mem_cons_self)⟩

lemma Names.exists_cons {k : String} {name : List Char} (h : Names .reader k name) :
    ∃ c cs, name = c :: cs ∧ isBlank c = false ∧ (endsKey c = false ∨ isQuote c = true) := by
  cases h with
  | bare h =>
    obtain ⟨hne, hall⟩ := h
    obtain ⟨c, cs, rfl⟩ := List.exists_cons_of_ne_nil hne
    have hc := hall c List.mem_cons_self
    refine ⟨c, cs, rfl, ?_, .inl hc⟩
    rw [Bool.eq_false_iff]
    intro hblank
    simp [endsKey_of_isBlank hblank] at hc
  | @quoted quote _ _ hquote _ =>
    exact ⟨quote, _, rfl, not_isBlank_of_isQuote hquote, .inr hquote⟩

lemma element?_append {fuel : Nat} {holder : Holder} {a : List Char} (ha : Blanks a)
    (cs : List Char) : element? fuel holder (a ++ cs) = element? fuel holder cs := by
  cases fuel with
  | zero => simp only [element?]
  | succ fuel => simp only [element?, skipBlank_append ha]

lemma items?_start {fuel : Nat} {a cs : List Char} {c : Char} (ha : Blanks a)
    (hblank : isBlank c = false) (hc : c ≠ ']') :
    items? (fuel + 1) (a ++ c :: cs) =
      match element? fuel .array (c :: cs) with
      | none => none
      | some (v, rest) =>
        match skipBlank rest with
        | ',' :: cs => (items? fuel cs).map fun (vs, rest) => (v :: vs, rest)
        | ']' :: cs => some ([v], cs)
        | _ => none := by
  simp only [items?, skipBlank_append ha, skipBlank_eq_self hblank]
  split
  · next heq => simp at heq
  · next heq => exact absurd (List.cons.inj heq).1 hc
  · rfl

lemma fields?_start {fuel : Nat} {found : Fields} {k : String} {a name b rest : List Char}
    (ha : Blanks a) (hname : Names .reader k name) (hb : Blanks b) :
    fields? (fuel + 1) found (a ++ (name ++ (b ++ ':' :: rest))) =
      match element? fuel .object rest with
      | none => none
      | some (v, cs) =>
        match skipBlank cs with
        | ',' :: cs => fields? fuel (found.insert k v) cs
        | '\x7d' :: cs => some (found.insert k v, cs)
        | _ => none := by
  have hkey : key? (name ++ (b ++ ':' :: rest)) = some (k, b ++ ':' :: rest) := by
    refine key?_of_names hname fun c hc => ?_
    cases b with
    | nil => obtain rfl : ':' = c := by simpa using hc
             decide
    | cons d b =>
      obtain rfl : d = c := by simpa using hc
      exact endsKey_of_isBlank (hb d List.mem_cons_self)
  have hcolon : skipBlank (b ++ ':' :: rest) = ':' :: rest := by
    rw [skipBlank_append hb, skipBlank_eq_self (by decide)]
  obtain ⟨c, cs, rfl, hblank, hc⟩ := hname.exists_cons
  have hclose : c ≠ '\x7d' := by
    rintro rfl
    rcases hc with hc | hc <;> exact absurd hc (by decide)
  rw [List.cons_append] at hkey ⊢
  simp only [fields?, skipBlank_append ha, skipBlank_eq_self hblank]
  split
  · next heq => simp at heq
  · next heq => exact absurd (List.cons.inj heq).1 hclose
  · simp only [hkey]
    exact hcolon.symm ▸ rfl

/-! ### What the grammar derives is read -/

/-- With fuel for the length of the text, the reader of the part takes the text and nothing more. Only a
bare word takes the white space behind it as well. -/
def Reads : Part → List Char → Prop
  | .literal v, text => ∀ ⦃fuel : Nat⦄ ⦃holder : Holder⦄ ⦃rest : List Char⦄, 2 * text.length ≤ fuel →
      element? fuel holder (text ++ rest) = some (v, rest)
  | .element holder v, text => ∀ ⦃fuel : Nat⦄ ⦃b : List Char⦄ ⦃c : Char⦄ ⦃rest : List Char⦄,
      2 * text.length ≤ fuel → Blanks b → holder.endsWord c = true →
      ∃ after, element? fuel holder (text ++ (b ++ c :: rest)) = some (v, after) ∧
        skipBlank after = c :: rest
  | .items vs, text => ∀ ⦃fuel : Nat⦄ ⦃rest : List Char⦄, 2 * text.length + 1 ≤ fuel →
      items? fuel (text ++ ']' :: rest) = some (vs, rest)
  | .fields es, text => ∀ ⦃fuel : Nat⦄ ⦃found : Fields⦄ ⦃rest : List Char⦄,
      2 * text.length + 1 ≤ fuel →
      fields? fuel found (text ++ '\x7d' :: rest) = some (Fields.insertAll found es, rest)

lemma not_isBlank_of_endsWord {holder : Holder} {c : Char} (h : holder.endsWord c = true) :
    isBlank c = false := by
  rw [Bool.eq_false_iff]
  intro hblank
  simp [endsWord_of_isBlank hblank] at h

lemma reads_string {quote : Char} {text s : List Char} (hquote : isQuote quote = true)
    (h : Spells quote text s) :
    Reads (.literal (.string (String.ofList s))) (quote :: (text ++ [quote])) := by
  intro fuel holder rest hfuel
  obtain ⟨fuel, rfl⟩ : ∃ n, fuel = n + 1 := ⟨fuel - 1, by simp at hfuel; omega⟩
  have hread := quoted?_of_spells hquote h rest
  have hcurly : quote ≠ '\x7b' := by rintro rfl; exact absurd hquote (by decide)
  have hsquare : quote ≠ '[' := by rintro rfl; exact absurd hquote (by decide)
  simp only [List.cons_append, List.append_assoc, List.nil_append, element?,
    skipBlank_eq_self (not_isBlank_of_isQuote hquote), hcurly, hsquare, hquote, if_false, if_true, hread,
    Option.map_some]

lemma reads_array {vs : List Value} {text : List Char} (h : Reads (.items vs) text) :
    Reads (.literal (.array vs)) ('[' :: (text ++ [']'])) := by
  intro fuel holder rest hfuel
  simp only [List.length_cons, List.length_append, List.length_nil] at hfuel
  obtain ⟨fuel, rfl⟩ : ∃ n, fuel = n + 1 := ⟨fuel - 1, by omega⟩
  have hread : items? fuel (text ++ ']' :: rest) = some (vs, rest) := h (by omega)
  simp only [List.cons_append, List.append_assoc, List.nil_append, element?,
    skipBlank_eq_self (show isBlank '[' = false by decide), hread]
  rfl

lemma reads_object {es : List (String × Value)} {fs : Fields} {text : List Char}
    (h : Reads (.fields es) text) (hfs : Fields.Collects es fs) :
    Reads (.literal (.object fs)) ('\x7b' :: (text ++ ['\x7d'])) := by
  intro fuel holder rest hfuel
  simp only [List.length_cons, List.length_append, List.length_nil] at hfuel
  obtain ⟨fuel, rfl⟩ : ∃ n, fuel = n + 1 := ⟨fuel - 1, by omega⟩
  have hread : fields? fuel [] (text ++ '\x7d' :: rest) = some (Fields.insertAll [] es, rest) :=
    h (by omega)
  rw [hfs.eq_ofList]
  simp only [List.cons_append, List.append_assoc, List.nil_append, element?,
    skipBlank_eq_self (show isBlank '\x7b' = false by decide), hread]
  rfl

lemma reads_nested {holder : Holder} {v : Value} {text : List Char} (h : Reads (.literal v) text) :
    Reads (.element holder v) text := by
  intro fuel b c rest hfuel hb hc
  refine ⟨b ++ c :: rest, h hfuel, ?_⟩
  rw [skipBlank_append hb, skipBlank_eq_self (not_isBlank_of_endsWord hc)]

lemma reads_word {holder : Holder} {text : List Char} (h : IsBareWord holder text) :
    Reads (.element holder (wordValue text)) text := by
  intro fuel b c rest hfuel hb hc
  refine ⟨c :: rest, ?_, skipBlank_eq_self (not_isBlank_of_endsWord hc)⟩
  obtain ⟨d, ds, rfl⟩ := List.exists_cons_of_ne_nil h.ne_nil
  obtain ⟨hblank, hquote⟩ := h.first d rfl
  have hinside := h.inside d List.mem_cons_self
  obtain ⟨fuel, rfl⟩ : ∃ n, fuel = n + 1 := ⟨fuel - 1, by simp at hfuel; omega⟩
  have hrest : ∀ e ∈ (c :: rest).head?, holder.endsWord e = true := fun e he => by
    obtain rfl : c = e := by simpa using he
    exact hc
  have hread := word?_of_isBareWord h hb hrest
  have hcurly : d ≠ '\x7b' := by rintro rfl; simp [Holder.endsWord] at hinside
  have hsquare : d ≠ '[' := by rintro rfl; simp [Holder.endsWord] at hinside
  rw [List.cons_append] at hread ⊢
  simp only [element?, skipBlank_eq_self hblank, hcurly, hsquare, hquote, Bool.false_eq_true, if_false,
    hread]

lemma reads_noItems {a : List Char} (ha : Blanks a) : Reads (.items []) a := by
  intro fuel rest hfuel
  obtain ⟨fuel, rfl⟩ : ∃ n, fuel = n + 1 := ⟨fuel - 1, by omega⟩
  simp only [items?, skipBlank_append ha, skipBlank_eq_self (show isBlank ']' = false by decide)]

lemma reads_noFields {a : List Char} (ha : Blanks a) : Reads (.fields []) a := by
  intro fuel found rest hfuel
  obtain ⟨fuel, rfl⟩ : ∃ n, fuel = n + 1 := ⟨fuel - 1, by omega⟩
  simp only [fields?, skipBlank_append ha, skipBlank_eq_self (show isBlank '\x7d' = false by decide)]
  rfl

lemma items?_first {v : Value} {a text b rest : List Char} {c : Char} {fuel : Nat} (ha : Blanks a)
    (h : Derives .reader (.element .array v) text) (hread : Reads (.element .array v) text)
    (hb : Blanks b) (hc : Holder.array.endsWord c = true) (hfuel : 2 * text.length ≤ fuel) :
    items? (fuel + 1) (a ++ (text ++ (b ++ c :: rest))) =
      match c :: rest with
      | ',' :: cs => (items? fuel cs).map fun (vs, rest) => (v :: vs, rest)
      | ']' :: cs => some ([v], cs)
      | _ => none := by
  obtain ⟨after, helement, hafter⟩ := @hread fuel b c rest hfuel hb hc
  obtain ⟨d, ds, rfl, hblank, hd⟩ := h.exists_cons
  have hclose : d ≠ ']' := by
    rintro rfl
    rcases hd with hd | hd | hd <;> simp [Holder.endsWord] at hd
  rw [List.cons_append] at helement ⊢
  rw [items?_start ha hblank hclose, helement]
  simp only [hafter]

lemma fields?_first {k : String} {v : Value} {a name b c text d rest : List Char} {e : Char}
    {fuel : Nat} {found : Fields} (ha : Blanks a) (hname : Names .reader k name) (hb : Blanks b)
    (hc : Blanks c) (hread : Reads (.element .object v) text) (hd : Blanks d)
    (he : Holder.object.endsWord e = true) (hfuel : 2 * text.length ≤ fuel) :
    fields? (fuel + 1) found
        (a ++ (name ++ (b ++ ':' :: (c ++ (text ++ (d ++ e :: rest)))))) =
      match e :: rest with
      | ',' :: cs => fields? fuel (found.insert k v) cs
      | '\x7d' :: cs => some (found.insert k v, cs)
      | _ => none := by
  obtain ⟨after, helement, hafter⟩ := @hread fuel d e rest hfuel hd he
  rw [fields?_start ha hname hb, element?_append hc, helement]
  simp only [hafter]

/-- What the grammar derives is read as that. -/
theorem Derives.reads {part : Part} {text : List Char} (h : Derives .reader part text) :
    Reads part text := by
  induction h with
  | string hquote h => exact reads_string hquote h
  | array _ ih => exact reads_array ih
  | object _ hfs ih => exact reads_object ih hfs
  | nested _ ih => exact reads_nested ih
  | word h =>
    obtain ⟨hword, rfl⟩ := h
    exact reads_word hword
  | noItems ha => exact reads_noItems ha
  | lastItem ha h hb ih =>
    intro fuel rest hfuel
    simp only [List.length_append] at hfuel
    obtain ⟨fuel, rfl⟩ : ∃ n, fuel = n + 1 := ⟨fuel - 1, by omega⟩
    simp only [List.append_assoc]
    rw [items?_first ha h ih hb rfl (by omega)]
    rfl
  | item ha h hb _ ih ihmore =>
    intro fuel rest hfuel
    simp only [List.length_append, List.length_cons] at hfuel
    obtain ⟨fuel, rfl⟩ : ∃ n, fuel = n + 1 := ⟨fuel - 1, by omega⟩
    simp only [List.append_assoc, List.cons_append]
    rw [items?_first ha h ih hb rfl (by omega)]
    simp only [ihmore (show _ ≤ fuel by omega), Option.map_some]
  | noFields ha => exact reads_noFields ha
  | lastField ha hname hb hc _ hd ih =>
    intro fuel found rest hfuel
    simp only [List.length_append, List.length_cons] at hfuel
    obtain ⟨fuel, rfl⟩ : ∃ n, fuel = n + 1 := ⟨fuel - 1, by omega⟩
    simp only [List.append_assoc, List.cons_append]
    rw [fields?_first ha hname hb hc ih hd rfl (by omega)]
    rfl
  | field ha hname hb hc _ hd _ ih ihmore =>
    intro fuel found rest hfuel
    simp only [List.length_append, List.length_cons] at hfuel
    obtain ⟨fuel, rfl⟩ : ∃ n, fuel = n + 1 := ⟨fuel - 1, by omega⟩
    simp only [List.append_assoc, List.cons_append]
    rw [fields?_first ha hname hb hc ih hd rfl (by omega)]
    simp only [ihmore (show _ ≤ fuel by omega)]
    rfl

/-! ### What is read, the grammar derives -/

/-- With this much fuel the readers take only what the grammar derives. -/
structure GivesDerived (fuel : Nat) : Prop where
  element : ∀ {holder cs v rest}, element? fuel holder cs = some (v, rest) →
    ∃ a text b, cs = a ++ (text ++ (b ++ rest)) ∧ Blanks a ∧ Blanks b ∧
      Derives .reader (.element holder v) text
  items : ∀ {cs vs rest}, items? fuel cs = some (vs, rest) →
    ∃ text, cs = text ++ ']' :: rest ∧ Derives .reader (.items vs) text
  fields : ∀ {found cs fs rest}, fields? fuel found cs = some (fs, rest) →
    ∃ text es, cs = text ++ '\x7d' :: rest ∧ fs = Fields.insertAll found es ∧
      Derives .reader (.fields es) text

namespace GivesDerived

variable {fuel : Nat}

lemma element_succ (h : GivesDerived fuel) {holder : Holder} {cs rest : List Char} {v : Value}
    (hread : element? (fuel + 1) holder cs = some (v, rest)) :
    ∃ a text b, cs = a ++ (text ++ (b ++ rest)) ∧ Blanks a ∧ Blanks b ∧
      Derives .reader (.element holder v) text := by
  obtain ⟨a, ha, hcs⟩ := exists_blanks cs
  simp only [element?] at hread
  split at hread
  · simp at hread
  · next c tail hskip =>
    rw [hskip] at hcs
    have hnested : ∀ {core : List Char}, c :: tail = core ++ rest → Derives .reader (.literal v) core →
        ∃ a text b, cs = a ++ (text ++ (b ++ rest)) ∧ Blanks a ∧ Blanks b ∧
          Derives .reader (.element holder v) text := fun htail hcore =>
      ⟨a, _, [], by rw [hcs, htail, List.nil_append], ha, blanks_nil, .nested hcore⟩
    split at hread
    · next hc =>
      obtain ⟨⟨fs, rest'⟩, hfields, heq⟩ := Option.map_eq_some_iff.1 hread
      cases heq
      obtain ⟨text, es, rfl, rfl, hderives⟩ := h.fields hfields
      exact hnested (by simp [hc]) (.object hderives (Fields.collects_ofList es))
    · split at hread
      · next hc =>
        obtain ⟨⟨vs, rest'⟩, hitems, heq⟩ := Option.map_eq_some_iff.1 hread
        cases heq
        obtain ⟨text, rfl, hderives⟩ := h.items hitems
        exact hnested (by simp [hc]) (.array hderives)
      · split at hread
        · next hquote =>
          obtain ⟨⟨s, rest'⟩, hs, heq⟩ := Option.map_eq_some_iff.1 hread
          cases heq
          obtain ⟨text, t, rfl, hspells, rfl⟩ := spells_of_quoted? hs
          exact hnested (by simp) (.string hquote hspells)
        · next hquote =>
          obtain ⟨text, b, htail, hb, hword, rfl⟩ := isBareWord_of_word?
            (not_isBlank_of_skipBlank hskip) (by simpa using hquote) hread
          exact ⟨a, text, b, by rw [hcs, htail], ha, hb, .word ⟨hword, rfl⟩⟩

lemma items_succ (h : GivesDerived fuel) {cs rest : List Char} {vs : List Value}
    (hread : items? (fuel + 1) cs = some (vs, rest)) :
    ∃ text, cs = text ++ ']' :: rest ∧ Derives .reader (.items vs) text := by
  obtain ⟨a, ha, hcs⟩ := exists_blanks cs
  simp only [items?] at hread
  split at hread
  · simp at hread
  · next hskip =>
    cases hread
    exact ⟨a, by rw [hcs, hskip], .noItems ha⟩
  · split at hread
    · simp at hread
    · next v tail hv =>
      obtain ⟨a', text, b, htext, ha', hb, helement⟩ := h.element hv
      obtain ⟨b', hb', htail⟩ := exists_blanks tail
      rw [htext, htail] at hcs
      split at hread
      · next more hskip =>
        obtain ⟨⟨vs', rest'⟩, hitems, heq⟩ := Option.map_eq_some_iff.1 hread
        cases heq
        obtain ⟨text', rfl, hmore⟩ := h.items hitems
        exact ⟨_, by rw [hcs, hskip]; simp,
          .item (ha.append ha') helement (hb.append hb') hmore⟩
      · next hskip =>
        cases hread
        exact ⟨_, by rw [hcs, hskip]; simp, .lastItem (ha.append ha') helement (hb.append hb')⟩
      · simp at hread

lemma fields_succ (h : GivesDerived fuel) {found fs : Fields} {cs rest : List Char}
    (hread : fields? (fuel + 1) found cs = some (fs, rest)) :
    ∃ text es, cs = text ++ '\x7d' :: rest ∧ fs = Fields.insertAll found es ∧
      Derives .reader (.fields es) text := by
  obtain ⟨a, ha, hcs⟩ := exists_blanks cs
  simp only [fields?] at hread
  split at hread
  · simp at hread
  · next hskip =>
    cases hread
    exact ⟨a, [], by rw [hcs, hskip], rfl, .noFields ha⟩
  · split at hread
    · simp at hread
    · next k tail hk =>
      obtain ⟨name, hname, hnames⟩ := names_of_key? hk
      obtain ⟨b, hb, htail⟩ := exists_blanks tail
      rw [hname, htail] at hcs
      split at hread
      · next more hskip =>
        rw [hskip] at hcs
        split at hread
        · simp at hread
        · next v left hv =>
          obtain ⟨c, text, d, htext, hc, hd, helement⟩ := h.element hv
          obtain ⟨d', hd', hleft⟩ := exists_blanks left
          rw [htext, hleft] at hcs
          split at hread
          · next more' hskip' =>
            obtain ⟨text', es, rfl, hfs, hmore⟩ := h.fields hread
            exact ⟨_, (k, v) :: es, by rw [hcs, hskip']; simp, hfs,
              .field ha hnames hb hc helement (hd.append hd') hmore⟩
          · next hskip' =>
            cases hread
            exact ⟨_, [(k, v)], by rw [hcs, hskip']; simp, rfl,
              .lastField ha hnames hb hc helement (hd.append hd')⟩
          · simp at hread
      · simp at hread

end GivesDerived

lemma givesDerived (fuel : Nat) : GivesDerived fuel := by
  induction fuel with
  | zero => exact ⟨by simp [element?], by simp [items?], by simp [fields?]⟩
  | succ fuel ih => exact ⟨ih.element_succ, ih.items_succ, ih.fields_succ⟩

/-! ### Literals -/

def opensLiteral (c : Char) : Prop := c = '\x7b' ∨ c = '[' ∨ isQuote c = true

lemma Derives.exists_opening {D : Dialect} {v : Value} {text : List Char}
    (h : Derives D (.literal v) text) : ∃ c cs, text = c :: cs ∧ opensLiteral c := by
  cases h with
  | string hquote _ => exact ⟨_, _, rfl, .inr (.inr hquote)⟩
  | array _ => exact ⟨_, _, rfl, .inr (.inl rfl)⟩
  | object _ _ => exact ⟨_, _, rfl, .inl rfl⟩

lemma not_isBlank_of_opensLiteral {c : Char} (h : opensLiteral c) : isBlank c = false := by
  rcases h with rfl | rfl | h
  · decide
  · decide
  · exact not_isBlank_of_isQuote h

lemma Derives.exists_closing {D : Dialect} {v : Value} {text : List Char}
    (h : Derives D (.literal v) text) :
    ∃ front d, text = front ++ [d] ∧ (d = '\x7d' ∨ d = ']' ∨ isQuote d = true) := by
  cases h with
  | string hquote _ => exact ⟨_, _, (List.cons_append ..).symm, .inr (.inr hquote)⟩
  | array _ => exact ⟨_, _, (List.cons_append ..).symm, .inr (.inl rfl)⟩
  | object _ _ => exact ⟨_, _, (List.cons_append ..).symm, .inl rfl⟩

lemma Derives.items_of_bracket {D : Dialect} {v : Value} {cs : List Char}
    (h : Derives D (.literal v) ('[' :: cs)) :
    ∃ vs text, v = .array vs ∧ cs = text ++ [']'] ∧ Derives D (.items vs) text := by
  generalize htext : '[' :: cs = text at h
  cases h with
  | string hquote _ =>
    obtain ⟨rfl, -⟩ := List.cons.inj htext
    exact absurd hquote (by decide)
  | array h => exact ⟨_, _, rfl, (List.cons.inj htext).2, h⟩
  | object _ _ => simp at htext

lemma Derives.fields_of_brace {D : Dialect} {v : Value} {cs : List Char}
    (h : Derives D (.literal v) ('\x7b' :: cs)) :
    ∃ es fs text, v = .object fs ∧ cs = text ++ ['\x7d'] ∧ Fields.Collects es fs ∧
      Derives D (.fields es) text := by
  generalize htext : '\x7b' :: cs = text at h
  cases h with
  | string hquote _ =>
    obtain ⟨rfl, -⟩ := List.cons.inj htext
    exact absurd hquote (by decide)
  | array _ => simp at htext
  | object h hfs => exact ⟨_, _, _, rfl, (List.cons.inj htext).2, hfs, h⟩

/-- No opening brace stands in front of the first key. -/
lemma Derives.fields_front {es : List (String × Value)} {text rest : List Char}
    (h : Derives .reader (.fields es) text) {cs : List Char} :
    skipBlank (text ++ '\x7d' :: rest) ≠ '\x7b' :: cs := by
  have hkey : ∀ {a name tail : List Char} {k : String}, Blanks a → Names .reader k name →
      skipBlank (a ++ (name ++ tail)) ≠ '\x7b' :: cs := by
    intro a name tail k ha hname
    obtain ⟨c, ds, rfl, hblank, hc⟩ := hname.exists_cons
    rw [skipBlank_append ha, List.cons_append, skipBlank_eq_self hblank]
    intro heq
    obtain ⟨rfl, -⟩ := List.cons.inj heq
    rcases hc with hc | hc <;> exact absurd hc (by decide)
  cases h with
  | noFields ha =>
    rw [skipBlank_append ha, skipBlank_eq_self (by decide)]
    simp
  | lastField ha hname | field ha hname =>
    simp only [List.append_assoc]
    exact hkey ha hname

lemma Derives.literal_of_element {D : Dialect} (hD : D.Within .reader) {holder : Holder} {v : Value}
    {c : Char} {cs : List Char} (h : Derives D (.element holder v) (c :: cs)) (hc : opensLiteral c) :
    Derives D (.literal v) (c :: cs) := by
  cases h with
  | nested h => exact h
  | word h =>
    obtain ⟨hword, -⟩ := hD.word h
    have hinside := hword.inside c List.mem_cons_self
    rcases hc with rfl | rfl | hc
    · simp [Holder.endsWord] at hinside
    · simp [Holder.endsWord] at hinside
    · simp [(hword.first c rfl).2] at hc

/-- A text is read as a literal for a value exactly where the grammar derives it for that value. -/
theorem literal?_eq_some_iff {text : List Char} {v : Value} :
    literal? text = some v ↔ IsLiteral .reader v text := by
  constructor
  · intro h
    obtain ⟨a, ha, htext⟩ := exists_blanks text
    simp only [literal?] at h
    split at h
    · next v' rest hread =>
      split at h
      · next hrest =>
        cases h
        split at hread
        · simp at hread
        · next c cs hskip =>
          rw [hskip] at htext
          split at hread
          · next hc =>
            obtain ⟨a', core, b, hcore, ha', hb, hderives⟩ := (givesDerived _).element hread
            have hblank := not_isBlank_of_skipBlank hskip
            obtain rfl : a' = [] := by
              cases a' with
              | nil => rfl
              | cons d a' =>
                obtain rfl : c = d := (List.cons.inj hcore).1
                exact absurd (ha' c List.mem_cons_self) (by simp [hblank])
            obtain ⟨d, ds, rfl, -, -⟩ := hderives.exists_cons
            obtain rfl : c = d := (List.cons.inj hcore).1
            have hblanks := blanks_of_skipBlank (List.isEmpty_iff.1 hrest)
            exact ⟨a, c :: ds, b ++ rest, by rw [htext, hcore]; rfl, ha, hb.append hblanks,
              hderives.literal_of_element .refl hc⟩
          · simp at hread
      · simp at h
    · simp at h
  · rintro ⟨a, core, b, rfl, ha, hb, hderives⟩
    obtain ⟨c, cs, rfl, hc⟩ := hderives.exists_opening
    have hread : element? (2 * (a ++ (c :: cs ++ b)).length + 2) .array (c :: cs ++ b) =
        some (v, b) :=
      hderives.reads (by simp only [List.length_append]; omega)
    have hskip : skipBlank (a ++ (c :: cs ++ b)) = c :: (cs ++ b) := by
      rw [skipBlank_append ha, List.cons_append,
        skipBlank_eq_self (not_isBlank_of_opensLiteral hc)]
    have hrest : skipBlank b = [] := List.dropWhile_eq_nil_iff.2 hb
    have hstart : c = '\x7b' ∨ c = '[' ∨ isQuote c = true := hc
    simp only [literal?, hskip, hstart, if_true]
    rw [← List.cons_append, hread]
    simp only [hrest, List.isEmpty_nil, if_true]

/-- A literal without white space around it. -/
lemma IsLiteral.derives {D : Dialect} {text : List Char} {v : Value} (h : IsLiteral D v text)
    (htrim : Text.trim text = text) : Derives D (.literal v) text := by
  obtain ⟨a, core, b, rfl, ha, hb, hderives⟩ := h
  obtain ⟨c, cs, hcons, hc⟩ := hderives.exists_opening
  obtain ⟨front, d, hconcat, hd⟩ := hderives.exists_closing
  have hfirst : ∀ e ∈ core.head?, isBlank e = false := fun e he => by
    obtain rfl : c = e := by simpa [hcons] using he
    exact not_isBlank_of_opensLiteral hc
  have hlast : ∀ e ∈ core.getLast?, isBlank e = false := fun e he => by
    obtain rfl : d = e := by simpa [hconcat] using he
    rcases hd with rfl | rfl | hd
    · decide
    · decide
    · exact not_isBlank_of_isQuote hd
  have hcore := trim_between ha hb (by simp [hcons]) hfirst hlast
  rwa [← htrim, hcore]

lemma derives_of_literal? {text : List Char} {v : Value} (htrim : Text.trim text = text)
    (h : literal? text = some v) : Derives .reader (.literal v) text :=
  (literal?_eq_some_iff.1 h).derives htrim

end CommentBlocks.Relaxed
